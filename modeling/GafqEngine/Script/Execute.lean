import GafqEngine.Script.Basic

/-!
# A call of `start_action`

What one message does to the script. From a state where the globals hold the
functions of the script file (`Ready`), a call of `start_action` makes the one
`send` call that `request` computes from the data, or none, and leaves such a
state behind: `served_startAction`. The cases follow the kinds of decoded values
and, for a table, the field `oper`; a reload replaces the functions that the file
it finds defines before its first error (`Reloaded`).
-/

namespace GafqEngine

open CLib Gafq

namespace Script

/-- The globals hold the functions of the script file, of any load, and the
registered C functions. -/
structure Ready (s : ScriptState) : Prop where
  script : ∀ name ∈ ["dump", "update_self", "start_action"],
    ∃ load, s.globals (ascii name) = .function (.script load (ascii name))
  registered : ∀ name ∈ ["gafq_func3", "send_data"],
    s.globals (ascii name) = .function (.cfunction (ascii name))

def request (env : Env) (data : Bytes) : Option SendCall :=
  match env.json.decode data with
  | .ok (.table entries) =>
      if (Value.lookup (ascii "oper") entries).isString (ascii "send_data") then
        some (frameCall env.lib (Value.lookup (ascii "to") entries) data)
      else none
  | _ => none

theorem dumpEntries_ok (lib : Lib) {entries : List (Value × Value)}
    (hkeys : ∀ e ∈ entries, (∃ s, e.1 = .string s) ∨ ∃ n, e.1 = .number n)
    (hvalues : ∀ e ∈ entries, ∃ text, dump lib e.2 = .ok text) (s : Bytes) :
    ∃ text, dumpEntries lib s entries = .ok text := by
  induction entries generalizing s with
  | nil => exact ⟨s ++ ascii "\x7d ", by rw [dumpEntries]⟩
  | cons e entries ih =>
      obtain ⟨k, v⟩ := e
      obtain ⟨text, htext⟩ := hvalues (k, v) List.mem_cons_self
      obtain ⟨key, hkey⟩ : ∃ key, dumpKey lib k = .ok key := by
        rcases hkeys (k, v) List.mem_cons_self with ⟨s, hs⟩ | ⟨n, hn⟩
        · exact ⟨_, by rw [show k = _ from hs, dumpKey]⟩
        · exact ⟨_, by rw [show k = _ from hn, dumpKey]⟩
      obtain ⟨t, ht⟩ := ih (fun e he => hkeys e (List.mem_cons_of_mem _ he))
        (fun e he => hvalues e (List.mem_cons_of_mem _ he))
        (s ++ ascii "[" ++ key ++ ascii "] = " ++ text ++ ascii ",")
      exact ⟨t, by rw [dumpEntries, hkey, htext]; exact ht⟩

theorem dump_ok (lib : Lib) {v : Value} (h : Decoded v) : ∃ text, dump lib v = .ok text := by
  induction h with
  | nil => exact ⟨_, by rw [dump]; simp⟩
  | boolean b => exact ⟨_, by rw [dump]; simp⟩
  | number n => exact ⟨_, by rw [dump]; simp⟩
  | string s => exact ⟨_, by rw [dump]; simp⟩
  | table entries hkeys _ ih =>
      rw [dump]
      exact dumpEntries_ok lib hkeys ih _

theorem exec_callGlobal {env : Env} {name : String} {args : List Value} {f : Func}
    {s : ScriptState} (h : s.globals (ascii name) = .function f) :
    (callGlobal env name args).exec s = (callFunction env args f).exec s := by
  rw [callGlobal, exec_bind, exec_get]
  simp only [h]

theorem exec_callGlobal_dump (env : Env) {v : Value} {s : ScriptState} (hs : Ready s)
    (hv : Decoded v) : ∃ text, (callGlobal env "dump" [v]).exec s = (.ok (.string text), s) := by
  obtain ⟨load, hload⟩ := hs.script "dump" (by decide)
  obtain ⟨text, htext⟩ := dump_ok env.lib hv
  refine ⟨text, ?_⟩
  rw [exec_callGlobal hload, callFunction, if_pos rfl, List.getD_cons_zero, htext]
  rfl

theorem exec_callGlobal_gafqFunc3 (env : Env) (args : List Value) {s : ScriptState}
    (hs : Ready s) : ∃ y, (callGlobal env "gafq_func3" args).exec s = (.ok y, s) := by
  rw [exec_callGlobal (hs.registered "gafq_func3" (by decide)), callFunction, if_pos rfl]
  exact ⟨_, rfl⟩

theorem exec_sendDataFunction_of_none (env : Env) (args : List Value)
    (h : (args.getD 1 .nil).toString? env.lib = none) (s : ScriptState) :
    (sendDataFunction env args).exec s = (.error .segfault, s) := by
  rw [sendDataFunction, exec_bind, exec_get]
  simp only [sendData_of_none h, exec_throw]

theorem exec_sendDataFunction_of_some (env : Env) (args : List Value) {text : Bytes}
    (h : (args.getD 1 .nil).toString? env.lib = some text) (s : ScriptState) :
    (sendDataFunction env args).exec s =
      (.ok (.number (.finite 1)), { s with
        sends := s.sends ++ [frameCall env.lib (args.getD 0 .nil) (cstr text)] }) := by
  rw [sendDataFunction, exec_bind, exec_get]
  simp only [sendData_of_some h, exec_bind, exec_modify, exec_pure, Int.cast_one]

theorem exec_callGlobal_sendData (env : Env) (toArg : Value) {data : Bytes} {s : ScriptState}
    (hs : Ready s) (hnul : NulFree data) :
    (callGlobal env "send_data" [toArg, .string data]).exec s =
      (.ok (.number (.finite 1)), { s with
        sends := s.sends ++ [frameCall env.lib toArg data] }) := by
  have hsend := exec_sendDataFunction_of_some env [toArg, .string data] rfl s
  rw [cstr_of_nulFree hnul] at hsend
  rw [exec_callGlobal (hs.registered "send_data" (by decide)), callFunction, if_neg (by decide),
    if_pos rfl, hsend, List.getD_cons_zero]

def Statement.defined : List Statement → List ScriptFunction
  | [] => []
  | .define fn :: statements => fn :: defined statements
  | .raise _ :: _ => []

def Statement.outcome : List Statement → Except Failure Unit
  | [] => .ok ()
  | .define _ :: statements => outcome statements
  | .raise err :: _ => .error (.error err)

def definedBy : ScriptFile → List ScriptFunction
  | .chunk statements => Statement.defined statements
  | .malformed _ => []

def defineAll (load : ℕ) (fns : List ScriptFunction) (globals : Bytes → Value) :
    Bytes → Value :=
  fun name =>
    if name ∈ fns.map fun fn => ascii fn.name then .function (.script load name)
    else globals name

@[simp] theorem defineAll_nil (load : ℕ) (globals : Bytes → Value) :
    defineAll load [] globals = globals := rfl

theorem defineAll_cons (load : ℕ) (fn : ScriptFunction) (fns : List ScriptFunction)
    (globals : Bytes → Value) :
    defineAll load fns
        (Function.update globals (ascii fn.name)
          (.function (.script load (ascii fn.name)))) =
      defineAll load (fn :: fns) globals := by
  funext name
  by_cases hname : name = ascii fn.name
  · subst hname
    simp [defineAll]
  · simp [defineAll, hname]

/-- The statements are run up to the first error. -/
theorem exec_statements (load : ℕ) (statements : List Statement) (s : ScriptState) :
    (forM statements (Statement.run load) : Script Unit).exec s =
      (Statement.outcome statements,
        { s with globals := defineAll load (Statement.defined statements) s.globals }) := by
  induction statements generalizing s with
  | nil => rfl
  | cons statement statements ih =>
      rw [List.forM_cons]
      cases statement with
      | define fn =>
          have hset : (Statement.run load (.define fn)).exec s = (.ok (), { s with
              globals := Function.update s.globals (ascii fn.name)
                (.function (.script load (ascii fn.name))) }) := rfl
          rw [exec_bind_of_ok hset, ih, Statement.outcome, Statement.defined, defineAll_cons]
      | raise err => rfl

theorem exec_chunk (statements : List Statement) (s : ScriptState) :
    (chunk statements).exec s =
      (Statement.outcome statements, { s with
        loads := s.loads + 1
        globals := defineAll s.loads (Statement.defined statements) s.globals }) := by
  rw [chunk, exec_bind, exec_get]
  simp only [exec_bind, exec_modify, exec_statements]

theorem exec_setLoaded (v : Value) (s : ScriptState) :
    (setLoaded v).exec s = (.ok (), { s with loaded := v }) := rfl

theorem exec_requireScript_of_false {run : Script Unit} {s t : ScriptState}
    (hs : s.loaded = .boolean false)
    (hrun : run.exec { s with loaded := sentinel } = (.ok (), t)) (ht : t.loaded = sentinel) :
    (requireScript (.ok run)).exec s =
      (.ok (.boolean true), { t with loaded := .boolean true }) := by
  rw [requireScript, exec_bind, exec_get]
  simp only [hs, Value.isTrue, Bool.false_eq_true, if_false, exec_bind, exec_setLoaded, hrun,
    exec_get, ht]
  rfl

/-- An error in the file leaves the mark that it was running. -/
theorem exec_requireScript_of_raise {run : Script Unit} {s t : ScriptState} {e : Failure}
    (hs : s.loaded = .boolean false)
    (hrun : run.exec { s with loaded := sentinel } = (.error e, t)) :
    (requireScript (.ok run)).exec s = (.error e, t) := by
  rw [requireScript, exec_bind, exec_get]
  simp only [hs, Value.isTrue, Bool.false_eq_true, if_false, exec_bind, exec_setLoaded, hrun]

theorem exec_requireScript_of_error (err : Value) {s : ScriptState}
    (hs : s.loaded = .boolean false) :
    (requireScript (.error err)).exec s = (.error (.error err), s) := by
  rw [requireScript, exec_bind, exec_get]
  simp only [hs, Value.isTrue, Bool.false_eq_true, if_false, exec_throw]

/-- What a reload leaves: the functions that the file defines before its first error
are those of the new load, and every other global is as it was. -/
structure Reloaded (s s' : ScriptState) : Prop where
  globals : s'.globals = defineAll s.loads (definedBy s.file) s.globals
  sends : s'.sends = s.sends

theorem Reloaded.ready {s s' : ScriptState} (h : Reloaded s s') (hs : Ready s) : Ready s' := by
  constructor
  · intro name hname
    rw [h.globals, defineAll]
    split
    · exact ⟨s.loads, rfl⟩
    · exact hs.script name hname
  · intro name hname
    have hother : ascii name ∉ (definedBy s.file).map fun fn => ascii fn.name := by
      intro hmem
      obtain ⟨fn, -, hfn⟩ := List.mem_map.mp hmem
      simp only [List.mem_cons, List.not_mem_nil, or_false] at hname
      revert hfn
      rcases hname with rfl | rfl
      · cases fn <;> decide
      · cases fn <;> decide
    rw [h.globals, defineAll, if_neg hother]
    exact hs.registered name hname

theorem outcome_ne_segfault (statements : List Statement) :
    Statement.outcome statements ≠ .error .segfault := by
  induction statements with
  | nil => exact nofun
  | cons statement statements ih =>
      cases statement with
      | define fn => exact ih
      | raise err => simp [Statement.outcome]

theorem exec_updateSelf_of_require {s s' : ScriptState} {r : Except Failure Value}
    (h : (requireScript (loadfile s.file)).exec { s with loaded := .boolean false } = (r, s')) :
    updateSelf.exec s = (r.map fun _ => .nil, s') := by
  rw [updateSelf, exec_bind, exec_setLoaded]
  simp only [exec_bind, exec_get, h]
  cases r with
  | ok y => rfl
  | error e => rfl

theorem exec_requireScript_loadfile {s : ScriptState} (hs : s.loaded = .boolean false) :
    ∃ r s', (requireScript (loadfile s.file)).exec s = (r, s') ∧ r ≠ .error .segfault ∧
      Reloaded s s' := by
  cases hfile : s.file with
  | malformed err =>
      have hglobals : s.globals = defineAll s.loads (definedBy s.file) s.globals := by
        rw [hfile, definedBy, defineAll_nil]
      exact ⟨_, s, exec_requireScript_of_error err hs, by simp, hglobals, rfl⟩
  | chunk statements =>
      have hchunk := exec_chunk statements { s with loaded := sentinel }
      have hsafe := outcome_ne_segfault statements
      have hdefined : definedBy s.file = Statement.defined statements := by rw [hfile, definedBy]
      cases houtcome : Statement.outcome statements with
      | ok u =>
          rw [houtcome] at hchunk
          exact ⟨_, _, exec_requireScript_of_false hs hchunk rfl, by simp, by rw [hdefined], rfl⟩
      | error e =>
          rw [houtcome] at hchunk hsafe
          exact ⟨_, _, exec_requireScript_of_raise hs hchunk, by simpa using hsafe,
            by rw [hdefined], rfl⟩

/-- A reload ends in order or with an error of the file. -/
theorem exec_updateSelf (s : ScriptState) :
    ∃ r s', updateSelf.exec s = (r, s') ∧ r ≠ .error .segfault ∧ Reloaded s s' := by
  obtain ⟨r, s', hrequire, hsafe, hreloaded⟩ :=
    exec_requireScript_loadfile (s := { s with loaded := .boolean false }) rfl
  refine ⟨_, s', exec_updateSelf_of_require hrequire, ?_, hreloaded.globals, hreloaded.sends⟩
  cases r with
  | ok y => simp [Except.map]
  | error e => simpa [Except.map] using hsafe

theorem exec_callGlobal_updateSelf (env : Env) {s : ScriptState} (hs : Ready s) :
    ∃ r s', (callGlobal env "update_self" []).exec s = (r, s') ∧ r ≠ .error .segfault ∧
      Reloaded s s' := by
  obtain ⟨load, hload⟩ := hs.script "update_self" (by decide)
  rw [exec_callGlobal hload, callFunction, if_neg (by decide), if_pos rfl]
  exact exec_updateSelf s

/-- The data decodes to a table whose field `oper` is `"update_self"`. -/
def asksToReload (env : Env) (data : Bytes) : Bool :=
  match env.json.decode data with
  | .ok (.table entries) => (Value.lookup (ascii "oper") entries).isString (ascii "update_self")
  | _ => false

/-- What a message leaves behind: the functions are in place, those of the file that
is found if it asks for a reload, and the call that it asks for is made. -/
structure Leaves (env : Env) (data : Bytes) (s s' : ScriptState) : Prop where
  ready : Ready s'
  sends : s'.sends = s.sends ++ (request env data).toList
  globals : s'.globals =
    if asksToReload env data then defineAll s.loads (definedBy s.file) s.globals else s.globals

theorem leaves_of_eq {env : Env} {data : Bytes} {s : ScriptState} (hs : Ready s)
    (hrequest : request env data = none) (hreload : asksToReload env data = false) :
    Leaves env data s s where
  ready := hs
  sends := by rw [hrequest, Option.toList_none, List.append_nil]
  globals := by simp only [hreload, Bool.false_eq_true, if_false]

theorem leaves_of_reloaded {env : Env} {data : Bytes} {s s' : ScriptState} (hs : Ready s)
    (h : Reloaded s s') (hrequest : request env data = none)
    (hreload : asksToReload env data = true) : Leaves env data s s' where
  ready := h.ready hs
  sends := by rw [h.sends, hrequest, Option.toList_none, List.append_nil]
  globals := by rw [h.globals, if_pos hreload]

/-- Data that is no table asks for nothing. -/
theorem leaves_of_no_table {env : Env} {data : Bytes} {s : ScriptState} (hs : Ready s)
    (h : ∀ entries, env.json.decode data ≠ .ok (.table entries)) : Leaves env data s s := by
  apply leaves_of_eq hs
  · rw [request]
    split
    · exact absurd ‹_› (h _)
    · rfl
  · rw [asksToReload]
    split
    · exact absurd ‹_› (h _)
    · rfl

/-- What a call of `start_action` ends with: never in a null pointer read. -/
structure Served (env : Env) (data : Bytes) (s : ScriptState)
    (r : Except Failure Value × ScriptState) : Prop where
  contained : r.1 ≠ .error .segfault
  leaves : Leaves env data s r.2

/-- On data that decodes, `start_action` reaches the dispatch. -/
theorem exec_startAction_of_ok {env : Env} {fd v : Value} {data : Bytes} {s : ScriptState}
    (hs : Ready s) (h : env.json.decode data = .ok v) :
    (startAction env fd (.string data)).exec s = (dispatch env v (.string data)).exec s := by
  have hdecode : (jsonDecode env (.string data)).exec s = (.ok v, s) := by
    simp only [jsonDecode, h, exec_pure]
  obtain ⟨text, hdump⟩ := exec_callGlobal_dump env hs (env.json.decoded data v h)
  obtain ⟨y, hfunc3⟩ := exec_callGlobal_gafqFunc3 env
    [.number (.finite 1), .number (.finite 2)] hs
  rw [startAction, exec_bind_of_ok hdecode, exec_bind_of_ok hdecode, exec_bind_of_ok hdump,
    exec_bind_of_ok hfunc3]

theorem exec_dispatch_of_raise {env : Env} {v data : Value} {s : ScriptState} {err : Value}
    (h : (index v "oper").exec s = (.error (.error err), s)) :
    (dispatch env v data).exec s = (.error (.error err), s) := by
  rw [dispatch, exec_bind_of_error h]

theorem exec_dispatch_other {env : Env} {v data : Value} {s : ScriptState} (oper : Value)
    (hoper : (index v "oper").exec s = (.ok oper, s))
    (hupdate : oper.isString (ascii "update_self") = false)
    (hsend : oper.isString (ascii "send_data") = false) :
    (dispatch env v data).exec s = (.ok .nil, s) := by
  rw [dispatch, exec_bind_of_ok hoper]
  cases htrue : oper.isTrue with
  | false => rfl
  | true =>
      simp only [hupdate, hsend, Bool.not_true, Bool.false_eq_true, if_false]
      rfl

theorem exec_dispatch_updateSelf (env : Env) (data : Value) {v : Value} {s : ScriptState}
    (hs : Ready s)
    (hoper : (index v "oper").exec s = (.ok (.string (ascii "update_self")), s)) :
    ∃ r s', (dispatch env v data).exec s = (r, s') ∧ r ≠ .error .segfault ∧ Reloaded s s' := by
  obtain ⟨r, s', hcall, hsafe, hreloaded⟩ := exec_callGlobal_updateSelf env hs
  rw [dispatch, exec_bind_of_ok hoper]
  simp only [Value.isTrue, Value.isString, beq_self_eq_true, Bool.not_true, Bool.false_eq_true,
    if_false, if_true, exec_bind, hcall]
  cases r with
  | ok y => exact ⟨.ok .nil, s', rfl, by simp, hreloaded⟩
  | error e => exact ⟨.error e, s', rfl, by simpa using hsafe, hreloaded⟩

theorem exec_dispatch_sendData {env : Env} {v toArg : Value} {data : Bytes} {s : ScriptState}
    (hs : Ready s) (hoper : (index v "oper").exec s = (.ok (.string (ascii "send_data")), s))
    (hto : (index v "to").exec s = (.ok toArg, s)) (hnul : NulFree data) :
    (dispatch env v (.string data)).exec s = (.ok .nil, { s with
      sends := s.sends ++ [frameCall env.lib toArg data] }) := by
  have hcall := exec_callGlobal_sendData env toArg hs hnul
  have hother : (ascii "send_data" == ascii "update_self") = false := by decide
  rw [dispatch, exec_bind_of_ok hoper]
  simp only [hother, Value.isTrue, Value.isString, beq_self_eq_true, Bool.not_true,
    Bool.false_eq_true, if_false, if_true, exec_bind, hto, hcall, exec_pure]

theorem exec_index_table (entries : List (Value × Value)) (key : String) (s : ScriptState) :
    (index (.table entries) key).exec s = (.ok (Value.lookup (ascii key) entries), s) := rfl

theorem served_dispatch_table {env : Env} {entries : List (Value × Value)} {data : Bytes}
    {s : ScriptState} (hs : Ready s) (hnul : NulFree data)
    (hdecode : env.json.decode data = .ok (.table entries)) :
    Served env data s ((dispatch env (.table entries) (.string data)).exec s) := by
  have hoper := exec_index_table entries "oper" s
  cases hsend : (Value.lookup (ascii "oper") entries).isString (ascii "send_data") with
  | true =>
      have hsome : request env data =
          some (frameCall env.lib (Value.lookup (ascii "to") entries) data) := by
        simp only [request, hdecode, hsend, if_true]
      have hfield := (Value.isString_iff _ _).mp hsend
      have hkeep : asksToReload env data = false := by
        simp only [asksToReload, hdecode, hfield]
        decide
      rw [hfield] at hoper
      rw [exec_dispatch_sendData hs hoper (exec_index_table entries "to" s) hnul]
      exact ⟨by simp, ⟨hs.script, hs.registered⟩, by rw [hsome]; rfl,
        by simp only [hkeep, Bool.false_eq_true, if_false]⟩
  | false =>
      have hnone : request env data = none := by
        simp only [request, hdecode, hsend, Bool.false_eq_true, if_false]
      cases hupdate : (Value.lookup (ascii "oper") entries).isString (ascii "update_self") with
      | true =>
          have hreload : asksToReload env data = true := by
            simp only [asksToReload, hdecode, hupdate]
          rw [(Value.isString_iff _ _).mp hupdate] at hoper
          obtain ⟨r, s', hexec, hsafe, hreloaded⟩ :=
            exec_dispatch_updateSelf env (.string data) hs hoper
          rw [hexec]
          exact ⟨hsafe, leaves_of_reloaded hs hreloaded hnone hreload⟩
      | false =>
          have hkeep : asksToReload env data = false := by
            simp only [asksToReload, hdecode, hupdate]
          rw [exec_dispatch_other _ hoper hupdate hsend]
          exact ⟨by simp, leaves_of_eq hs hnone hkeep⟩

/-- `start_action` serves every message, whatever the data decodes to and whatever the
file is. -/
theorem served_startAction (env : Env) (fd : Value) {data : Bytes} {s : ScriptState}
    (hs : Ready s) (hnul : NulFree data) :
    Served env data s ((startAction env fd (.string data)).exec s) := by
  cases hdecode : env.json.decode data with
  | error err =>
      have herror : (jsonDecode env (.string data)).exec s = (.error (.error err), s) := by
        simp only [jsonDecode, hdecode, exec_throw]
      rw [startAction, exec_bind_of_error herror]
      exact ⟨by simp, leaves_of_no_table hs (by simp [hdecode])⟩
  | ok v =>
      rw [exec_startAction_of_ok hs hdecode]
      cases v with
      | table entries => exact served_dispatch_table hs hnul hdecode
      | string str =>
          rw [exec_dispatch_other .nil rfl rfl rfl]
          exact ⟨by simp, leaves_of_no_table hs (by simp [hdecode])⟩
      | _ =>
          rw [exec_dispatch_of_raise rfl]
          exact ⟨by simp, leaves_of_no_table hs (by simp [hdecode])⟩

end Script

end GafqEngine
