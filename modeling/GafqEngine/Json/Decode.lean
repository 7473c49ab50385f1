import GafqEngine.Gafq.Table
import GafqEngine.Scan.Classes
import GafqEngine.Scan.Cursor

/-!
# `json.decode`

The second half of `json.gafq`, with its positions: every function takes the whole
string and the position that it starts from, and returns a value with the position
behind it. The loops and the recursion run on a number of steps that `decode` chooses
large enough; where it ends they stop with `outOfFuel`, which never happens.

`tonumber` on a token is the conversion of the gafq library. An error value carries its
message without the position in `json.gafq`. The interpreter's limit on nested calls,
`GAFQI_MAXCALLS`, is left out: a text with about twenty thousand open brackets raises a
stack overflow there.
-/

namespace GafqEngine

open CLib Gafq Scan

namespace Json

/-- How decoding stops short: with a raised value, or at the bound on the steps. -/
inductive Stop where
  | error (err : Value)
  | outOfFuel

def raise {α : Type} (message : Bytes) : Except Stop α := .error (.error (.string message))

def spaceChars : Bytes := ascii " \t\r\n"

def delimChars : Bytes := ascii " \t\r\n]\x7d,"

def inSet (set : Bytes) : Bytes → Bool
  | [c] => set.contains c
  | _ => false

def literalMap (word : Bytes) : Option Value :=
  if word = ascii "true" then some (.boolean true)
  else if word = ascii "false" then some (.boolean false)
  else if word = ascii "null" then some .nil
  else none

def escapeCharMapInv (c : Bytes) : Option Bytes :=
  if c = ascii "\\" then some (ascii "\\")
  else if c = ascii "/" then some (ascii "/")
  else if c = ascii "\"" then some (ascii "\"")
  else if c = ascii "b" then some [8]
  else if c = ascii "f" then some [12]
  else if c = ascii "n" then some [10]
  else if c = ascii "r" then some [13]
  else if c = ascii "t" then some [9]
  else none

def nextChar (str : Bytes) (idx : ℕ) (set : Bytes) (negate : Bool) : ℕ :=
  seek (fun i => inSet set (slice str i i) != negate) idx str.length

/-- The loop of `decode_error`: the line and the column of a position. -/
def lineAndCol (str : Bytes) (idx : ℕ) : ℕ × ℕ :=
  (List.range' 1 (idx - 1)).foldl (fun p i =>
    if slice str i i = ascii "\n" then (p.1 + 1, 1) else (p.1, p.2 + 1)) (1, 1)

def decodeError {α : Type} (str : Bytes) (idx : ℕ) (msg : Bytes) : Except Stop α :=
  raise (msg ++ ascii " at line " ++ decimal (lineAndCol str idx).1 ++ ascii " col " ++
    decimal (lineAndCol str idx).2)

/-- The hexadecimal digits of `n`, as `%x` writes them. -/
def hexadecimal (n : ℕ) : Bytes := (Nat.toDigits 16 n).map fun c => UInt8.ofNat c.toNat

def stringChar (ns : List ℤ) : Except Stop Bytes :=
  match ns.findIdx? fun n => n < 0 ∨ 255 < n with
  | some k =>
      raise (ascii "bad argument #" ++ decimal (k + 1) ++ ascii " to 'char' (invalid value)")
  | none => .ok (ns.map fun n => UInt8.ofNat n.toNat)

def codepointToUtf8 (n : ℤ) : Except Stop Bytes :=
  if n ≤ 0x7f then stringChar [n]
  else if n ≤ 0x7ff then stringChar [n / 64 + 192, n % 64 + 128]
  else if n ≤ 0xffff then
    stringChar [n / 4096 + 224, n % 4096 / 64 + 128, n % 64 + 128]
  else if n ≤ 0x10ffff then
    stringChar [n / 262144 + 240, n % 262144 / 4096 + 128, n % 4096 / 64 + 128, n % 64 + 128]
  else raise (ascii "invalid unicode codepoint '" ++ hexadecimal n.toNat ++ ascii "'")

def isHexDigit (c : UInt8) : Bool :=
  isDigit c || (65 ≤ c && c ≤ 70) || (97 ≤ c && c ≤ 102)

def hexDigit (c : UInt8) : ℕ :=
  if isDigit c then c.toNat - 48 else if c ≤ 70 then c.toNat - 55 else c.toNat - 87

def hexValue (s : Bytes) : ℕ := s.foldl (fun acc c => 16 * acc + hexDigit c) 0

/-- `tonumber(s, 16)`, for a string of hexadecimal digits. -/
def tonumber16 (s : Bytes) : Option ℤ := if s.isEmpty then none else some (hexValue s)

def parseUnicodeEscape (s : Bytes) : Except Stop Bytes :=
  match tonumber16 (slice s 1 4), tonumber16 (slice s 7 10) with
  | some n1, some n2 => codepointToUtf8 ((n1 - 0xd800) * 0x400 + (n2 - 0xdc00) + 0x10000)
  | some n1, none => codepointToUtf8 n1
  | none, some _ => raise (ascii "attempt to perform arithmetic on local 'n1' (a nil value)")
  | none, none => raise (ascii "attempt to compare nil with number")

def quadPattern : List (UInt8 → Bool) := List.replicate 4 isHexDigit

/-- The pattern `^[dD][89aAbB]%x%x\u%x%x%x%x`. -/
def pairPattern : List (UInt8 → Bool) :=
  [(ascii "dD").contains, (ascii "89aAbB").contains, isHexDigit, isHexDigit,
    (ascii "\\").contains, (ascii "u").contains] ++ quadPattern

/-- What `str:match` finds behind `\u`: two escapes that may be a surrogate pair, or one. -/
def matchEscape (s : Bytes) : Option Bytes :=
  (matchClasses pairPattern s).orElse fun _ => matchClasses quadPattern s

/-- The loop of `parse_string`, for the string that starts at `i`. -/
def parseStringLoop (str : Bytes) (i : ℕ) : ℕ → Bytes → ℕ → ℕ → Except Stop (Bytes × ℕ)
  | 0, _, _, _ => .error .outOfFuel
  | fuel + 1, res, j, k =>
      match slice str j j with
      | [] => decodeError str i (ascii "expected closing quote for string")
      | x :: _ =>
          if x < 32 then decodeError str j (ascii "control character in string")
          else if x = 92 then
            let res := res ++ slice str k (j - 1)
            let j := j + 1
            let c := slice str j j
            if c = ascii "u" then
              match matchEscape (str.drop j) with
              | none => decodeError str (j - 1) (ascii "invalid unicode escape in string")
              | some hex => do
                  let text ← parseUnicodeEscape hex
                  parseStringLoop str i fuel (res ++ text) (j + hex.length + 1)
                    (j + hex.length + 1)
            else
              match escapeCharMapInv c with
              | none =>
                  decodeError str (j - 1)
                    (ascii "invalid escape char '" ++ c ++ ascii "' in string")
              | some e => parseStringLoop str i fuel (res ++ e) (j + 1) (j + 1)
          else if x = 34 then .ok (res ++ slice str k (j - 1), j + 1)
          else parseStringLoop str i fuel res (j + 1) k

def parseString (str : Bytes) (i : ℕ) : Except Stop (Bytes × ℕ) :=
  parseStringLoop str i (str.length + 1) [] (i + 1) (i + 1)

def parseNumber (lib : Lib) (str : Bytes) (i : ℕ) : Except Stop (Value × ℕ) :=
  let x := nextChar str i delimChars false
  let s := slice str i (x - 1)
  match lib.stringToNumber s with
  | some n => .ok (.number n, x)
  | none => decodeError str i (ascii "invalid number '" ++ s ++ ascii "'")

def parseLiteral (str : Bytes) (i : ℕ) : Except Stop (Value × ℕ) :=
  let x := nextChar str i delimChars false
  let word := slice str i (x - 1)
  match literalMap word with
  | some v => .ok (v, x)
  | none => decodeError str i (ascii "invalid literal '" ++ word ++ ascii "'")

inductive CharFunc where
  | parseString
  | parseNumber
  | parseLiteral
  | parseArray
  | parseObject
  deriving DecidableEq

def charFuncMap (chr : Bytes) : Option CharFunc :=
  if chr = ascii "\"" then some .parseString
  else if inSet (ascii "0123456789-") chr then some .parseNumber
  else if inSet (ascii "tfn") chr then some .parseLiteral
  else if chr = ascii "[" then some .parseArray
  else if chr = ascii "\x7b" then some .parseObject
  else none

mutual

def parse (lib : Lib) (str : Bytes) : ℕ → ℕ → Except Stop (Value × ℕ)
  | 0, _ => .error .outOfFuel
  | fuel + 1, idx =>
      let chr := slice str idx idx
      match charFuncMap chr with
      | some .parseString => (parseString str idx).map fun r => (.string r.1, r.2)
      | some .parseNumber => parseNumber lib str idx
      | some .parseLiteral => parseLiteral str idx
      | some .parseArray => parseArray lib str fuel [] 1 (idx + 1)
      | some .parseObject => parseObject lib str fuel [] (idx + 1)
      | none => decodeError str idx (ascii "unexpected character '" ++ chr ++ ascii "'")

/-- The loop of `parse_array`, with the entries so far and the next index. -/
def parseArray (lib : Lib) (str : Bytes) :
    ℕ → List (Value × Value) → ℕ → ℕ → Except Stop (Value × ℕ)
  | 0, _, _, _ => .error .outOfFuel
  | fuel + 1, res, n, i =>
      let i := nextChar str i spaceChars true
      if slice str i i = ascii "]" then .ok (.table res, i + 1)
      else do
        let (x, i) ← parse lib str fuel i
        let res := Value.rawset (.number (.finite n)) x res
        let i := nextChar str i spaceChars true
        let chr := slice str i i
        let i := i + 1
        if chr = ascii "]" then .ok (.table res, i)
        else if chr = ascii "," then parseArray lib str fuel res (n + 1) i
        else decodeError str i (ascii "expected ']' or ','")

/-- The loop of `parse_object`, with the entries so far. -/
def parseObject (lib : Lib) (str : Bytes) :
    ℕ → List (Value × Value) → ℕ → Except Stop (Value × ℕ)
  | 0, _, _ => .error .outOfFuel
  | fuel + 1, res, i =>
      let i := nextChar str i spaceChars true
      if slice str i i = ascii "\x7d" then .ok (.table res, i + 1)
      else if slice str i i = ascii "\"" then do
        let (key, i) ← parse lib str fuel i
        let i := nextChar str i spaceChars true
        if slice str i i = ascii ":" then do
          let i := nextChar str (i + 1) spaceChars true
          let (val, i) ← parse lib str fuel i
          let res := Value.rawset key val res
          let i := nextChar str i spaceChars true
          let chr := slice str i i
          let i := i + 1
          if chr = ascii "\x7d" then .ok (.table res, i)
          else if chr = ascii "," then parseObject lib str fuel res i
          else decodeError str i (ascii "expected '\x7d' or ','")
        else decodeError str i (ascii "expected ':' after key")
      else decodeError str i (ascii "expected string for key")

end

def decode (lib : Lib) (str : Bytes) : Except Stop Value := do
  let (res, idx) ← parse lib str (2 * str.length + 3) (nextChar str 1 spaceChars true)
  let idx := nextChar str idx spaceChars true
  if idx ≤ str.length then decodeError str idx (ascii "trailing garbage") else .ok res

end Json

end GafqEngine
