import GafqEngine.Json.Decode

/-!
# The language of `json.decode`

What a text says, apart from how it is read: a tree, and the spellings of a tree as
bytes. The language is larger than JSON. A comma may stand in front of a closing
bracket, a number is any token that `tonumber` reads, and a string may hold any bytes
but control characters. A tree denotes a value of the script: an element that is `null`
leaves its index free, and of several members with one name the last one counts.
-/

namespace GafqEngine

open CLib Gafq

namespace Json

/-- What a JSON text says. -/
inductive Tree where
  | null
  | bool (b : Bool)
  | number (n : Number)
  | string (s : Bytes)
  | array (elements : List Tree)
  | object (members : List (Bytes × Tree))

mutual

def Tree.value : Tree → Value
  | .null => .nil
  | .bool b => .boolean b
  | .number n => .number n
  | .string s => .string s
  | .array elements => .table (elementEntries elements 1 [])
  | .object members => .table (memberEntries members [])

/-- The entries of an array, behind those that are there. -/
def elementEntries : List Tree → ℕ → List (Value × Value) → List (Value × Value)
  | [], _, res => res
  | x :: xs, n, res => elementEntries xs (n + 1) (Value.rawset (.number (.finite n)) x.value res)

/-- The entries of an object, with those that are there. -/
def memberEntries : List (Bytes × Tree) → List (Value × Value) → List (Value × Value)
  | [], res => res
  | (key, x) :: members, res => memberEntries members (Value.rawset (.string key) x.value res)

end

def Blank (w : Bytes) : Prop := ∀ c ∈ w, c ∈ spaceChars

instance (w : Bytes) : Decidable (Blank w) := List.decidableBAll _ _

/-- A token that `tonumber` reads as the number. -/
structure NumberText (lib : Lib) (w : Bytes) (n : Number) : Prop where
  start : ∃ c t, w = c :: t ∧ c ∈ ascii "0123456789-"
  token : ∀ c ∈ w, c ∉ delimChars
  value : lib.stringToNumber w = some n

structure Quad (w : Bytes) : Prop where
  length : w.length = 4
  digits : ∀ c ∈ w, isHexDigit c = true

/-- The first half of a surrogate pair. -/
def IsHigh (w : Bytes) : Prop := 0xd800 ≤ hexValue w ∧ hexValue w < 0xdc00

/-- The text between the quotes of a string, and the string. Behind the first half of a
surrogate pair, any `\u` escape counts as the other half. -/
inductive StringText : Bytes → Bytes → Prop
  | nil : StringText [] []
  | plain {c : UInt8} {t s : Bytes} (hcontrol : 32 ≤ c) (hquote : c ≠ 34) (hescape : c ≠ 92)
      (ht : StringText t s) : StringText (c :: t) (c :: s)
  | escape {c : UInt8} {e t s : Bytes} (hc : escapeCharMapInv [c] = some e)
      (ht : StringText t s) : StringText (ascii "\\" ++ c :: t) (e ++ s)
  | unicode {w text t s : Bytes} (hw : Quad w)
      (hsingle : IsHigh w → ∀ w' t', Quad w' → t ≠ ascii "\\u" ++ (w' ++ t'))
      (htext : codepointToUtf8 (hexValue w) = .ok text) (ht : StringText t s) :
      StringText (ascii "\\u" ++ (w ++ t)) (text ++ s)
  | pair {w w' text t s : Bytes} (hw : Quad w) (hhigh : IsHigh w) (hw' : Quad w')
      (htext : codepointToUtf8
        ((hexValue w - 0xd800) * 0x400 + (hexValue w' - 0xdc00) + 0x10000) = .ok text)
      (ht : StringText t s) :
      StringText (ascii "\\u" ++ (w ++ (ascii "\\u" ++ (w' ++ t)))) (text ++ s)

def Quoted (w s : Bytes) : Prop := ∃ t, w = ascii "\"" ++ (t ++ ascii "\"") ∧ StringText t s

mutual

inductive Text (lib : Lib) : Bytes → Tree → Prop
  | null : Text lib (ascii "null") .null
  | true : Text lib (ascii "true") (.bool true)
  | false : Text lib (ascii "false") (.bool false)
  | number {w : Bytes} {n : Number} (h : NumberText lib w n) : Text lib w (.number n)
  | string {w s : Bytes} (h : Quoted w s) : Text lib w (.string s)
  | array {w : Bytes} {elements : List Tree} (h : Elements lib w elements) :
      Text lib (ascii "[" ++ w) (.array elements)
  | object {w : Bytes} {members : List (Bytes × Tree)} (h : Members lib w members) :
      Text lib (ascii "\x7b" ++ w) (.object members)

/-- The bytes spell the elements of an array up to the closing bracket. -/
inductive Elements (lib : Lib) : Bytes → List Tree → Prop
  | close {b : Bytes} (hb : Blank b) : Elements lib (b ++ ascii "]") []
  | last {b w b' : Bytes} {x : Tree} (hb : Blank b) (hx : Text lib w x) (hb' : Blank b') :
      Elements lib (b ++ (w ++ (b' ++ ascii "]"))) [x]
  | more {b w b' t : Bytes} {x : Tree} {xs : List Tree} (hb : Blank b) (hx : Text lib w x)
      (hb' : Blank b') (hxs : Elements lib t xs) :
      Elements lib (b ++ (w ++ (b' ++ (ascii "," ++ t)))) (x :: xs)

/-- The bytes spell the members of an object up to the closing brace. -/
inductive Members (lib : Lib) : Bytes → List (Bytes × Tree) → Prop
  | close {b : Bytes} (hb : Blank b) : Members lib (b ++ ascii "\x7d") []
  | last {b k b₁ b₂ w b₃ key : Bytes} {x : Tree} (hb : Blank b) (hk : Quoted k key)
      (hb₁ : Blank b₁) (hb₂ : Blank b₂) (hx : Text lib w x) (hb₃ : Blank b₃) :
      Members lib (b ++ (k ++ (b₁ ++ (ascii ":" ++ (b₂ ++ (w ++ (b₃ ++ ascii "\x7d")))))))
        [(key, x)]
  | more {b k b₁ b₂ w b₃ t key : Bytes} {x : Tree} {members : List (Bytes × Tree)}
      (hb : Blank b) (hk : Quoted k key) (hb₁ : Blank b₁) (hb₂ : Blank b₂)
      (hx : Text lib w x) (hb₃ : Blank b₃) (hmembers : Members lib t members) :
      Members lib (b ++ (k ++ (b₁ ++ (ascii ":" ++ (b₂ ++ (w ++ (b₃ ++ (ascii "," ++ t))))))))
        ((key, x) :: members)

end

/-- A whole text: a tree between blanks. -/
def Spells (lib : Lib) (str : Bytes) (x : Tree) : Prop :=
  ∃ b w b', str = b ++ (w ++ b') ∧ Blank b ∧ Text lib w x ∧ Blank b'

theorem blank_nil : Blank [] := fun _ hc => absurd hc List.not_mem_nil

theorem Text.spells {lib : Lib} {w : Bytes} {x : Tree} (h : Text lib w x) : Spells lib w x :=
  ⟨[], w, [], (List.append_nil w).symm, blank_nil, h, blank_nil⟩

end Json

end GafqEngine
