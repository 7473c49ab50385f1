import GafqEngine.Script.Execute
import GafqEngine.ScriptEngine.Basic

/-!
# `LoopExecute` with the script

The loop of `LoopExecute` with the answers that the script gives. `Host` is the
script together with the gafq stack; `step_of_runItem` says that working off an
item is a step of the engine, where these answers are arbitrary. A message for
`start_action` is answered from every state that `Init` and the earlier messages
leave behind.
-/

namespace GafqEngine

open CLib Gafq Transition Script

structure Host where
  script : ScriptState
  stack : List Value

namespace Host

/-- `Init` and `init_gafq_func`: the file is run, and the C functions are
registered. -/
def startUp : Script Unit := do
  chunk scriptFile
  setGlobal "gafq_func3" (.function (.cfunction (ascii "gafq_func3")))
  setGlobal "send_data" (.function (.cfunction (ascii "send_data")))

/-- The host before the first `LoopExecute`, with the globals of the gafq libraries. -/
def start (library : Bytes → Value) (stack : List Value) : Host where
  script := (startUp.exec { globals := library, loaded := .nil, loads := 0, sends := [] }).2
  stack := stack

/-- How `gafq_pcall` reports the outcome of a function; a null pointer read is not
reported. -/
def callResult : Except Failure Value → Option CallResult
  | .ok _ => some .returns
  | .error (.error err) => some (.raises err)
  | .error .segfault => none

/-- The call of the global that the message names, if it is a function. -/
def answer (env : Env) (s : ScriptState) (fd : ℤ) (msg : ScriptEngineMsgBase) :
    Option (CallResult × ScriptState) :=
  match s.globals (cstr msg.action) with
  | .function f =>
      let r := (callAction env f (.number (.finite fd)) (.string (cstr msg.data))).exec s
      (callResult r.1).map fun result => (result, r.2)
  | _ => some (.returns, s)

/-- The loop body of `LoopExecute`; `none` stands for a null pointer read. -/
def runItem (env : Env) (h : Host) (item : GafqItem) : Option Host :=
  item.msg.bind fun msg =>
    (answer env h.script item.fd msg).map fun r =>
      { script := r.2
        stack := GafqEngine.runItem h.stack item.fd msg (h.script.globals (cstr msg.action)) r.1 }

def loopExecute (env : Env) (h : Host) (waitExecuteList : List GafqItem) : Option Host :=
  run (runItem env) h (copyBatch waitExecuteList)

/-- Working off an item is a step of the engine. -/
theorem step_of_runItem {env : Env} {h h' : Host} {item : GafqItem} {rest : List GafqItem}
    {e : Engine} (hcrash : e.crashed = false) (htemp : e.tempExecuteList = item :: rest)
    (hstack : e.stack = h.stack) (hrun : runItem env h item = some h') :
    ∃ global result e', e.step (.runItem global result) = some e' ∧
      e'.tempExecuteList = rest ∧ e'.stack = h'.stack := by
  obtain ⟨msg, hmsg, hanswer⟩ := Option.bind_eq_some_iff.mp hrun
  obtain ⟨r, -, rfl⟩ := Option.map_eq_some_iff.mp hanswer
  refine ⟨h.script.globals (cstr msg.action), r.1,
    e.finishItem item rest msg (h.script.globals (cstr msg.action)) r.1, ?_, rfl, ?_⟩
  · simp only [Engine.step, hcrash, Bool.false_eq_true, if_false, htemp, hmsg]
  · rw [← hstack]
    rfl

theorem ready_start (library : Bytes → Value) (stack : List Value) :
    Ready (start library stack).script := by
  constructor
  · intro name hname
    simp only [List.mem_cons, List.not_mem_nil, or_false] at hname
    rcases hname with rfl | rfl | rfl
    · exact ⟨0, rfl⟩
    · exact ⟨0, rfl⟩
    · exact ⟨0, rfl⟩
  · intro name hname
    simp only [List.mem_cons, List.not_mem_nil, or_false] at hname
    rcases hname with rfl | rfl
    · rfl
    · rfl

theorem answer_message (env : Env) {s : ScriptState} (fd : ℤ) (data : Bytes) (hs : Ready s) :
    ∃ result s', answer env s fd { action := ascii "start_action", data := data } =
        some (result, s') ∧ Leaves env (cstr data) s s' := by
  obtain ⟨load, hload⟩ := hs.script "start_action" (by decide)
  have haction : cstr (ascii "start_action") = ascii "start_action" := by decide
  have hserved := served_startAction env (.number (.finite fd)) hs (nulFree_cstr data)
  simp only [answer, haction, hload, callAction, if_true]
  generalize (startAction env (.number (.finite fd)) (.string (cstr data))).exec s = r
    at hserved ⊢
  obtain ⟨outcome, s'⟩ := r
  cases outcome with
  | ok v => exact ⟨.returns, s', rfl, hserved.leaves⟩
  | error failure =>
      cases failure with
      | error err => exact ⟨.raises err, s', rfl, hserved.leaves⟩
      | segfault => exact absurd rfl hserved.contained

theorem runItem_message (env : Env) {h : Host} {item : GafqItem} {data : Bytes}
    (hs : Ready h.script)
    (hmsg : item.msg = some { action := ascii "start_action", data := data }) :
    ∃ h', runItem env h item = some h' ∧ Leaves env (cstr data) h.script h'.script := by
  obtain ⟨result, s', hanswer, hleaves⟩ := answer_message env item.fd data hs
  exact ⟨_, by rw [runItem, hmsg, Option.bind_some, hanswer]; rfl, hleaves⟩

end Host

end GafqEngine
