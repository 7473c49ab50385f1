import GafqEngine.Json.Decode
import GafqEngine.Script.Basic

/-!
# `json.encode`

The first half of `json.gafq`. What a table is encoded as depends on its length, the
operator `#`, which the language leaves open for a table with holes: it is the parameter
`length`, and `IsBorder` is what is promised of it. The entries are encoded one by one,
and the branches of `encode_table` choose among the results, so that the first error
that the loops come to is the one that is raised.

A table never contains itself here, so the check for circular references is left out, and
so is the interpreter's limit on nested calls.
-/

namespace GafqEngine

open CLib Gafq

namespace Json

/-- What the length of a table can be. -/
def IsBorder (length : List (Value × Value) → ℕ) : Prop :=
  ∀ entries, (length entries ≠ 0 →
      Value.rawget (.number (.finite (length entries))) entries ≠ .nil) ∧
    Value.rawget (.number (.finite (length entries + 1 : ℕ))) entries = .nil

def escapeCharMap (c : UInt8) : Option Bytes :=
  if c = 92 then some (ascii "\\")
  else if c = 34 then some (ascii "\"")
  else if c = 8 then some (ascii "b")
  else if c = 12 then some (ascii "f")
  else if c = 10 then some (ascii "n")
  else if c = 13 then some (ascii "r")
  else if c = 9 then some (ascii "t")
  else none

def hexadecimal4 (n : ℕ) : Bytes :=
  List.replicate (4 - (hexadecimal n).length) 48 ++ hexadecimal n

def escapeChar (c : UInt8) : Bytes :=
  ascii "\\" ++ (escapeCharMap c).getD (ascii "u" ++ hexadecimal4 c.toNat)

def needsEscape (c : UInt8) : Bool := c < 32 || c == 92 || c == 34

def encodeString (val : Bytes) : Bytes :=
  ascii "\"" ++ (val.flatMap (fun c => if needsEscape c then escapeChar c else [c]) ++ ascii "\"")

/-- `error(message)`, where an error value is all that can be returned besides a text. -/
def encodeError {α : Type} (message : Bytes) : Except Value α := .error (.string message)

def encodeNumber (lib : Lib) : Number → Except Value Bytes
  | .finite q => .ok (lib.numberToString (.finite q))
  | n => encodeError (ascii "unexpected number value '" ++ lib.numberToString n ++ ascii "'")

def isNumber : Value → Bool
  | .number _ => true
  | _ => false

/-- What `ipairs` comes to: the entries from an index on, up to the first that is free. -/
def ipairs {α : Type} (entries : List (Value × α)) : ℕ → ℕ → List α
  | 0, _ => []
  | steps + 1, i =>
      match entries.find? fun e => e.1.rawEqual (.number (.finite i)) with
      | none => []
      | some e => e.2 :: ipairs entries steps (i + 1)

/-- `table.concat(res, ",")`. -/
def concat (res : List Bytes) : Bytes := List.intercalate (ascii ",") res

def encodeMembers : List (Value × Except Value Bytes) → Except Value (List Bytes)
  | [] => .ok []
  | (.string key, text) :: entries => do
      let text ← text
      let res ← encodeMembers entries
      return (encodeString key ++ (ascii ":" ++ text)) :: res
  | _ :: _ => encodeError (ascii "invalid table: mixed or invalid key types")

/-- `encode_table(val)`, where `encoded` has the entries of `val` with what each value
is encoded as. -/
def encodeTable (length : List (Value × Value) → ℕ) (val : List (Value × Value))
    (encoded : List (Value × Except Value Bytes)) : Except Value Bytes :=
  if !(Value.rawget (.number (.finite 1)) val).isNil ∨ val = [] then
    if val.any (fun e => !isNumber e.1) then
      encodeError (ascii "invalid table: mixed or invalid key types")
    else if val.length ≠ length val then encodeError (ascii "invalid table: sparse array")
    else do
      let res ← (ipairs encoded val.length 1).mapM id
      return ascii "[" ++ (concat res ++ ascii "]")
  else do
    let res ← encodeMembers encoded
    return ascii "\x7b" ++ (concat res ++ ascii "\x7d")

mutual

def encode (lib : Lib) (length : List (Value × Value) → ℕ) : Value → Except Value Bytes
  | .nil => .ok (ascii "null")
  | .table entries => encodeTable length entries (encodeEntries lib length entries)
  | .string s => .ok (encodeString s)
  | .number n => encodeNumber lib n
  | .boolean b => .ok (Script.tostring lib (.boolean b))
  | v => encodeError (ascii ("unexpected type '" ++ Script.typeName v ++ "'"))

def encodeEntries (lib : Lib) (length : List (Value × Value) → ℕ) :
    List (Value × Value) → List (Value × Except Value Bytes)
  | [] => []
  | (k, v) :: entries => (k, encode lib length v) :: encodeEntries lib length entries

end

end Json

end GafqEngine
