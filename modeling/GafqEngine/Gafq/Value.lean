import GafqEngine.CLib.Integer
import GafqEngine.CLib.Text
import Mathlib.Data.Rat.Floor

/-!
# Values of the script language

The values of gafq and the API functions that convert them. A number is a
double: here any rational, an infinity or a NaN, so that every double is one of
them, `-0` as `0`. A table is the list of its entries. A function is a C function registered
under a name, or a function of the script file, told apart by the load that
created it.

What the gafq library itself decides, how a number is written and which strings
are read as numbers, is the parameter `Lib`.
-/

namespace GafqEngine

open CLib

namespace Gafq

/-- `gafq_Number`; `-0` and `0` are one number here. -/
inductive Number where
  | finite (q : ℚ)
  | infinite (negative : Bool)
  | nan

inductive Func where
  | cfunction (name : Bytes)
  | script (load : ℕ) (name : Bytes)
  deriving DecidableEq

inductive Value where
  | nil
  | boolean (b : Bool)
  | number (n : Number)
  | string (s : Bytes)
  | table (entries : List (Value × Value))
  | function (f : Func)
  | userdata (id : ℕ)
  | thread (id : ℕ)

/-- The conversions between numbers and strings that the gafq library makes. -/
structure Lib where
  numberToString : Number → Bytes
  stringToNumber : Bytes → Option Number
  address : Value → Bytes
  deriving Inhabited

namespace Value

def isFunction : Value → Bool
  | function _ => true
  | _ => false

def isNil : Value → Bool
  | nil => true
  | _ => false

/-- Truth in a condition: everything but `nil` and `false`. -/
def isTrue : Value → Bool
  | nil => false
  | boolean b => b
  | _ => true

def isString (s : Bytes) : Value → Bool
  | string t => t == s
  | _ => false

/-- The number a value stands for where one is needed, as `gafq_tonumber` reads it. -/
def toNumber (lib : Lib) : Value → Option Number
  | number n => some n
  | string s => lib.stringToNumber s
  | _ => none

/-- The string a value stands for where one is needed: `gafq_tostring`, and the
operands of `..`. -/
def toString? (lib : Lib) : Value → Option Bytes
  | string s => some s
  | number n => some (lib.numberToString n)
  | _ => none

def lookup (key : Bytes) : List (Value × Value) → Value
  | [] => nil
  | (k, v) :: entries => if k.isString key then v else lookup key entries

end Value

/-- `gafq_number2integer`: the cast of a double to `ptrdiff_t`, toward zero. A
number out of range gives the smallest integer, as the processor does. -/
def Number.toInteger : Number → ℤ
  | finite q =>
      let n := if 0 ≤ q then ⌊q⌋ else ⌈q⌉
      if -2 ^ 63 ≤ n ∧ n < 2 ^ 63 then n else -2 ^ 63
  | infinite _ => -2 ^ 63
  | nan => -2 ^ 63

/-- `gafq_tointeger`: zero for a value that is no number. -/
def Value.toInteger (lib : Lib) (v : Value) : ℤ :=
  match v.toNumber lib with
  | some n => n.toInteger
  | none => 0

theorem Value.isString_iff (s : Bytes) (v : Value) : v.isString s = true ↔ v = string s := by
  cases v with
  | string t => simp [isString]
  | _ => simp [isString]

end Gafq

end GafqEngine
