import GafqEngine.SendData.Basic
import Mathlib.Logic.Function.Basic

/-!
# The script

The functions of `script.gafq`, as computations on the part of the gafq state
that they touch: the globals, `package.loaded["script"]`, how often the file was
run, and the `send` calls that were made. An error unwinds with the state as it
is. The functions find each other through the globals at the time of the call.
The file that a reload finds is part of the state: a list of definitions that may
fail to compile or raise anywhere. The functions that a version defines are told
apart by the load; they do what those of `scriptFile` do.

`json.decode` is a parameter, any function that returns decoded values or raises.
What is printed is not kept; calls are not limited in depth, and an error value
carries its message without the position in the file.
-/

namespace GafqEngine

open CLib Gafq

/-- What a decoder can return: tables have strings and numbers as keys. -/
inductive Decoded : Value → Prop
  | nil : Decoded .nil
  | boolean (b : Bool) : Decoded (.boolean b)
  | number (n : Number) : Decoded (.number n)
  | string (s : Bytes) : Decoded (.string s)
  | table (entries : List (Value × Value))
      (keys : ∀ e ∈ entries, (∃ s, e.1 = .string s) ∨ ∃ n, e.1 = .number n)
      (values : ∀ e ∈ entries, Decoded e.2) : Decoded (.table entries)

structure JsonDecoder where
  decode : Bytes → Except Value Value
  decoded : ∀ s v, decode s = .ok v → Decoded v

/-- What the script runs on: the gafq library, the decoder, and what the memory of
the message in the `n`-th call of `send_data` held before. -/
structure Env where
  lib : Lib
  json : JsonDecoder
  fresh : ℕ → SocketMsg

/-- How a computation stops short: a raised value, or a null pointer read. -/
inductive Failure where
  | error (err : Value)
  | segfault

inductive ScriptFunction where
  | dump
  | updateSelf
  | startAction
  deriving DecidableEq

def ScriptFunction.name : ScriptFunction → String
  | dump => "dump"
  | updateSelf => "update_self"
  | startAction => "start_action"

/-- A statement of the file: it defines one of the functions, which then does what the one
of `scriptFile` does, or raises an error. -/
inductive Statement where
  | define (fn : ScriptFunction)
  | raise (err : Value)

/-- A version of the file: its statements, or the error of one that does not compile. No
version changes what a function does. -/
inductive ScriptFile where
  | chunk (statements : List Statement)
  | malformed (err : Value)

def scriptFile : List Statement := [.define .dump, .define .updateSelf, .define .startAction]

structure ScriptState where
  globals : Bytes → Value
  loaded : Value
  loads : ℕ
  sends : List SendCall
  file : ScriptFile := .chunk scriptFile

abbrev Script (α : Type) := ExceptT Failure (StateM ScriptState) α

namespace Script

def exec {α : Type} (m : Script α) (s : ScriptState) : Except Failure α × ScriptState :=
  StateT.run (ExceptT.run m) s

section Exec

variable {α β : Type}

@[simp] theorem exec_pure (a : α) (s : ScriptState) : (pure a : Script α).exec s = (.ok a, s) := rfl

@[simp] theorem exec_throw (e : Failure) (s : ScriptState) :
    (throw e : Script α).exec s = (.error e, s) := rfl

@[simp] theorem exec_get (s : ScriptState) : (get : Script ScriptState).exec s = (.ok s, s) := rfl

@[simp] theorem exec_modify (f : ScriptState → ScriptState) (s : ScriptState) :
    (modify f : Script PUnit).exec s = (.ok ⟨⟩, f s) := rfl

theorem exec_bind (m : Script α) (k : α → Script β) (s : ScriptState) :
    (m >>= k).exec s =
      match m.exec s with
      | (.ok a, t) => (k a).exec t
      | (.error e, t) => (.error e, t) := by
  simp only [exec, ExceptT.run_bind, StateT.run_bind]
  rcases StateT.run (ExceptT.run m) s with ⟨_ | a, t⟩
  · rfl
  · rfl

theorem exec_bind_of_ok {m : Script α} {s t : ScriptState} {a : α} (h : m.exec s = (.ok a, t))
    (k : α → Script β) : (m >>= k).exec s = (k a).exec t := by
  rw [exec_bind, h]

theorem exec_bind_of_error {m : Script α} {s t : ScriptState} {e : Failure}
    (h : m.exec s = (.error e, t)) (k : α → Script β) : (m >>= k).exec s = (.error e, t) := by
  rw [exec_bind, h]

end Exec

def raise {α : Type} (message : String) : Script α := throw (.error (.string (ascii message)))

def typeName : Value → String
  | .nil => "nil"
  | .boolean _ => "boolean"
  | .number _ => "number"
  | .string _ => "string"
  | .table _ => "table"
  | .function _ => "function"
  | .userdata _ => "userdata"
  | .thread _ => "thread"

def tostring (lib : Lib) : Value → Bytes
  | .nil => ascii "nil"
  | .boolean true => ascii "true"
  | .boolean false => ascii "false"
  | .number n => lib.numberToString n
  | .string s => s
  | v => lib.address v

/-- The key as `dump` writes it: quoted unless it is a number. -/
def dumpKey (lib : Lib) : Value → Except Value Bytes
  | .number n => .ok (lib.numberToString n)
  | .string s => .ok (ascii "\"" ++ (s ++ ascii "\""))
  | k => .error (.string
      (ascii ("attempt to concatenate local 'k' (a " ++ typeName k ++ " value)")))

mutual

def dump (lib : Lib) : Value → Except Value Bytes
  | .table entries => dumpEntries lib (ascii "\x7b ") entries
  | o => .ok (tostring lib o)

def dumpEntries (lib : Lib) (s : Bytes) : List (Value × Value) → Except Value Bytes
  | [] => .ok (s ++ ascii "\x7d ")
  | (k, v) :: entries => do
      let k ← dumpKey lib k
      let text ← dump lib v
      dumpEntries lib (s ++ ascii "[" ++ k ++ ascii "] = " ++ text ++ ascii ",") entries

end

/-- The names in the string library, where a string finds its fields. -/
def stringLibrary : List String :=
  ["byte", "char", "dump", "find", "format", "gfind", "gmatch", "gsub", "len", "lower", "match",
    "rep", "reverse", "sub", "upper"]

/-- `v.key`, for the local variable `json_data`. -/
def index (v : Value) (key : String) : Script Value :=
  match v with
  | .table entries => pure (Value.lookup (ascii key) entries)
  | .string _ =>
      if key ∈ stringLibrary then pure (.function (.cfunction (ascii ("string." ++ key))))
      else pure .nil
  | v => raise ("attempt to index local 'json_data' (a " ++ typeName v ++ " value)")

def jsonDecode (env : Env) : Value → Script Value
  | .string s =>
      match env.json.decode s with
      | .ok v => pure v
      | .error err => throw (.error err)
  | v => raise ("expected argument of type string, got " ++ typeName v)

def setGlobal (name : String) (v : Value) : Script Unit :=
  modify fun s => { s with globals := Function.update s.globals (ascii name) v }

def Statement.run (load : ℕ) : Statement → Script Unit
  | .define fn => setGlobal fn.name (.function (.script load (ascii fn.name)))
  | .raise err => throw (.error err)

/-- The chunk of a version of the file: its functions are defined anew, one by one. -/
def chunk (statements : List Statement) : Script Unit := do
  let load := (← get).loads
  modify fun s => { s with loads := load + 1 }
  forM statements (Statement.run load)

def loadfile : ScriptFile → Except Value (Script Unit)
  | .chunk statements => .ok (Script.chunk statements)
  | .malformed err => .error err

/-- The mark that `require` leaves while a file is running. -/
@[match_pattern] def sentinel : Value := .userdata 0

def setLoaded (v : Value) : Script Unit := modify fun s => { s with loaded := v }

/-- `require("script")`, where `loadfile` is the function compiled from the file
that is found. -/
def requireScript (loadfile : Except Value (Script Unit)) : Script Value := do
  match (← get).loaded with
  | sentinel => raise "loop or previous error loading module 'script'"
  | loaded =>
      if loaded.isTrue then return loaded
      match loadfile with
      | .error err => throw (.error err)
      | .ok run =>
          setLoaded sentinel
          run
          match (← get).loaded with
          | sentinel => setLoaded (.boolean true)
          | _ => pure ()
          return (← get).loaded

/-- `update_self()`, with the file as it is found. -/
def updateSelf : Script Value := do
  setLoaded (.boolean false)
  let file := (← get).file
  let _ ← requireScript (loadfile file)
  return .nil

def gafqFunc3 (env : Env) (args : List Value) : Script Value :=
  let a := castInt ((args.getD 0 .nil).toInteger env.lib)
  let b := castInt ((args.getD 1 .nil).toInteger env.lib)
  return .number (.finite (castInt (a + b)))

def sendDataFunction (env : Env) (args : List Value) : Script Value := do
  let msg := env.fresh (← get).sends.length
  match sendData env.lib msg (args.getD 0 .nil) (args.getD 1 .nil) with
  | none => throw .segfault
  | some (call, result) =>
      modify fun s => { s with sends := s.sends ++ [call] }
      return .number (.finite result)

/-- A call of one of the functions that `start_action` calls. The functions of the
gafq libraries are not among them. -/
def callFunction (env : Env) (args : List Value) : Func → Script Value
  | .cfunction name =>
      if name = ascii "gafq_func3" then gafqFunc3 env args
      else if name = ascii "send_data" then sendDataFunction env args
      else raise "not a function of the program"
  | .script _ name =>
      if name = ascii "dump" then
        match dump env.lib (args.getD 0 .nil) with
        | .ok text => pure (.string text)
        | .error err => throw (.error err)
      else if name = ascii "update_self" then updateSelf
      else raise "not a function of the program"

def callGlobal (env : Env) (name : String) (args : List Value) : Script Value := do
  match (← get).globals (ascii name) with
  | .function f => callFunction env args f
  | v => raise ("attempt to call global '" ++ name ++ "' (a " ++ typeName v ++ " value)")

/-- The end of `start_action`, which looks at the field `oper`. -/
def dispatch (env : Env) (jsonData data : Value) : Script Value := do
  let oper ← index jsonData "oper"
  if !oper.isTrue then return .nil
  if oper.isString (ascii "update_self") then
    let _ ← callGlobal env "update_self" []
  else if oper.isString (ascii "send_data") then
    let _ ← callGlobal env "send_data" [← index jsonData "to", data]
  return .nil

def startAction (env : Env) (_fd data : Value) : Script Value := do
  let jsonData ← jsonDecode env data
  let _ ← callGlobal env "dump" [← jsonDecode env data]
  let _ ← callGlobal env "gafq_func3" [.number (.finite 1), .number (.finite 2)]
  dispatch env jsonData data

/-- A call from `LoopExecute` of the function `f` with `(fd, data)`. -/
def callAction (env : Env) (f : Func) (fd data : Value) : Script Value :=
  match f with
  | .script _ name =>
      if name = ascii "start_action" then startAction env fd data else callFunction env [fd, data] f
  | f => callFunction env [fd, data] f

end Script

end GafqEngine
