import GafqEngine.Script.Documents
import GafqEngine.Script.Reload
import Mathlib.Data.List.Forall2

/-!
# Which messages fail

The status that `LoopExecute` prints for a message. A call of `start_action` returns for
a text that spells an object, an array or a string, unless the object asks for a reload
and the version that is found has an error; it raises an error for a text that spells
anything else, which has no fields, and for one that spells nothing, with the error of
the decoder. So it is for each message of a run, whatever the messages before it did. The
functions of every version do what those of the committed file do.
-/

namespace GafqEngine

open CLib Gafq Script Transition Json

/-- What `gafq_pcall` returns: `GAFQ_ERRRUN` for an error. -/
def CallResult.status : CallResult → ℕ
  | .returns => 0
  | .raises _ => 2

def Json.Tree.hasFields : Tree → Bool
  | .object _ => true
  | .array _ => true
  | .string _ => true
  | _ => false

def Json.Tree.Reloads (x : Tree) : Prop :=
  ∃ members, x = .object members ∧
    fieldValue (ascii "oper") members = .string (ascii "update_self")

theorem not_reloads {x : Tree} (h : ∀ members, x ≠ .object members) : ¬ x.Reloads := by
  rintro ⟨members, hx, -⟩
  exact h members hx

/-- How the call for a text ends, where the version of the file is found. -/
inductive Ends (lib : Lib) (file : ScriptFile) (data : Bytes) : CallResult → Prop
  | served {x : Tree} (hx : Spells lib data x) (hfields : x.hasFields = true)
      (hreload : x.Reloads → ¬ file.Fails) : Ends lib file data .returns
  | failsToReload {x : Tree} {err : Value} (hx : Spells lib data x) (hreload : x.Reloads)
      (hfile : file.Fails) : Ends lib file data (.raises err)
  | noFields {x : Tree} {err : Value} (hx : Spells lib data x) (hfields : x.hasFields = false) :
      Ends lib file data (.raises err)
  | malformed {err : Value} (h : ∀ x, ¬ Spells lib data x) (herr : Fault data err) :
      Ends lib file data (.raises err)

namespace Script

theorem outcome_eq_ok_or (statements : List Statement) :
    (Statement.outcome statements = .ok () ∧ ¬ (ScriptFile.chunk statements).Fails) ∨
      ∃ err, Statement.outcome statements = .error (.error err) ∧
        (ScriptFile.chunk statements).Fails := by
  induction statements with
  | nil => exact Or.inl ⟨rfl, fun ⟨_, h⟩ => absurd h List.not_mem_nil⟩
  | cons statement statements ih =>
      cases statement with
      | raise err => exact Or.inr ⟨err, rfl, err, List.mem_cons_self⟩
      | define fn =>
          rcases ih with ⟨hok, hfine⟩ | ⟨err, herror, e, he⟩
          · refine Or.inl ⟨hok, fun ⟨err, herr⟩ => hfine ⟨err, ?_⟩⟩
            simpa using herr
          · exact Or.inr ⟨err, herror, e, List.mem_cons_of_mem _ he⟩

/-- A reload raises an error exactly when the version that is found has one. -/
theorem exec_updateSelf_cases (s : ScriptState) :
    (∃ s', updateSelf.exec s = (.ok .nil, s') ∧ ¬ s.file.Fails) ∨
      ∃ err s', updateSelf.exec s = (.error (.error err), s') ∧ s.file.Fails := by
  have hfalse : ({ s with loaded := .boolean false } : ScriptState).loaded = .boolean false := rfl
  cases hfile : s.file with
  | malformed err =>
      have hrequire := exec_requireScript_of_error err hfalse
      have hload : loadfile s.file = .error err := by rw [hfile, loadfile]
      rw [← hload] at hrequire
      exact Or.inr ⟨err, _, exec_updateSelf_of_require hrequire, trivial⟩
  | chunk statements =>
      have hchunk := exec_chunk statements { s with loaded := sentinel }
      have hload : loadfile s.file = .ok (chunk statements) := by rw [hfile, loadfile]
      rcases outcome_eq_ok_or statements with ⟨hok, hfine⟩ | ⟨err, herror, hfails⟩
      · rw [hok] at hchunk
        have hrequire := exec_requireScript_of_false hfalse hchunk rfl
        rw [← hload] at hrequire
        exact Or.inl ⟨_, exec_updateSelf_of_require hrequire, hfine⟩
      · rw [herror] at hchunk
        have hrequire := exec_requireScript_of_raise hfalse hchunk
        rw [← hload] at hrequire
        exact Or.inr ⟨err, _, exec_updateSelf_of_require hrequire, hfails⟩

/-- What a call of `start_action` answers for an object. -/
theorem exec_dispatch_object {lib : Lib} {fresh : ℕ → SocketMsg}
    {members : List (Bytes × Tree)} {data : Bytes} {s : ScriptState} (hs : Ready s)
    (hnul : NulFree data) (hx : Spells lib data (.object members)) :
    ∃ result, Host.callResult
        ((dispatch (scriptEnv lib fresh) (Tree.object members).value (.string data)).exec s).1 =
          some result ∧ Ends lib s.file data result := by
  have hoper := exec_index_table (memberEntries members []) "oper" s
  rw [lookup_memberEntries] at hoper
  cases hupdate : (fieldValue (ascii "oper") members).isString (ascii "update_self") with
  | true =>
      have hfield := (Value.isString_iff _ _).mp hupdate
      have hreload : (Tree.object members).Reloads := ⟨members, rfl, hfield⟩
      rw [hfield] at hoper
      obtain ⟨load, hload⟩ := hs.script "update_self" (by decide)
      have hcall : (callGlobal (scriptEnv lib fresh) "update_self" []).exec s =
          updateSelf.exec s := by
        rw [exec_callGlobal hload, callFunction, if_neg (by decide), if_pos rfl]
      rw [dispatch, Tree.value, exec_bind_of_ok hoper]
      simp only [Value.isTrue, Value.isString, beq_self_eq_true, Bool.not_true,
        Bool.false_eq_true, if_false, if_true, exec_bind, hcall]
      rcases exec_updateSelf_cases s with ⟨s', hexec, hfine⟩ | ⟨err, s', hexec, hfails⟩
      · rw [hexec]
        exact ⟨.returns, rfl, .served hx rfl fun _ => hfine⟩
      · rw [hexec]
        exact ⟨.raises err, rfl, .failsToReload hx hreload hfails⟩
  | false =>
      have hkeep : ¬ (Tree.object members).Reloads := by
        rintro ⟨members', heq, hfield⟩
        obtain rfl := Tree.object.inj heq
        rw [hfield] at hupdate
        exact absurd hupdate (by decide)
      refine ⟨.returns, ?_, .served hx rfl fun h => absurd h hkeep⟩
      cases hsend : (fieldValue (ascii "oper") members).isString (ascii "send_data") with
      | true =>
          rw [(Value.isString_iff _ _).mp hsend] at hoper
          rw [Tree.value, exec_dispatch_sendData hs hoper (exec_index_table _ "to" s) hnul]
          rfl
      | false =>
          rw [Tree.value, exec_dispatch_other _ hoper hupdate hsend]
          rfl

/-- How a call of `start_action` ends. -/
theorem exec_startAction_ends (lib : Lib) (fresh : ℕ → SocketMsg) (fd : Value) {data : Bytes}
    {s : ScriptState} (hs : Ready s) (hnul : NulFree data) :
    ∃ result, Host.callResult
        ((startAction (scriptEnv lib fresh) fd (.string data)).exec s).1 = some result ∧
      Ends lib s.file data result := by
  have hfault := outcome_decode lib data
  cases hdecode : Json.decode lib data with
  | error stop =>
      rw [hdecode] at hfault
      cases stop with
      | outOfFuel => exact hfault.elim
      | error err =>
          have henv : (scriptEnv lib fresh).json.decode data = .error err :=
            congrArg outcome hdecode
          have herror : (jsonDecode (scriptEnv lib fresh) (.string data)).exec s =
              (.error (.error err), s) := by
            simp only [jsonDecode, henv, exec_throw]
          rw [startAction, exec_bind_of_error herror]
          refine ⟨.raises err, rfl, .malformed (fun x hx => ?_) hfault⟩
          rw [decode_complete hx] at hdecode
          cases hdecode
  | ok v =>
      have henv : (scriptEnv lib fresh).json.decode data = .ok v := congrArg outcome hdecode
      obtain ⟨x, hx, rfl⟩ := decode_sound hdecode
      rw [exec_startAction_of_ok hs henv]
      cases x with
      | object members => exact exec_dispatch_object hs hnul hx
      | array xs =>
          refine ⟨.returns, ?_, .served hx rfl fun h => absurd h (not_reloads (by simp))⟩
          have hnil : Value.lookup (ascii "oper") (elementEntries xs 1 []) = .nil :=
            lookup_elementEntries (ascii "oper") xs 1 []
          have hoper := exec_index_table (elementEntries xs 1 []) "oper" s
          rw [hnil] at hoper
          rw [Tree.value, exec_dispatch_other .nil hoper rfl rfl]
          rfl
      | string str =>
          refine ⟨.returns, ?_, .served hx rfl fun h => absurd h (not_reloads (by simp))⟩
          rw [Tree.value, exec_dispatch_other .nil rfl rfl rfl]
          rfl
      | _ =>
          rw [Tree.value, exec_dispatch_of_raise rfl]
          exact ⟨_, rfl, .noFields hx rfl⟩

end Script

namespace Host

def statuses (env : Env) : Host → List (ScriptFile × GafqItem) → Option (List CallResult)
  | _, [] => some []
  | h, x :: xs =>
      x.2.msg.bind fun msg =>
        (answer env { h.script with file := x.1 } x.2.fd msg).bind fun r =>
          (runItemWith env h x).bind fun h' => (statuses env h' xs).map fun rest => r.1 :: rest

theorem statuses_of_ready (lib : Lib) (fresh : ℕ → SocketMsg) {h : Host}
    {xs : List (ScriptFile × GafqItem)} (hs : Ready h.script) (hxs : ∀ x ∈ xs, IsMessage x.2) :
    ∃ results, statuses (scriptEnv lib fresh) h xs = some results ∧
      List.Forall₂ (fun x result => ∃ msg, x.2.msg = some msg ∧ Ends lib x.1 msg.data result)
        xs results := by
  induction xs generalizing h with
  | nil => exact ⟨[], rfl, .nil⟩
  | cons x xs ih =>
      obtain ⟨data, hmsg, hnul, -⟩ := hxs x List.mem_cons_self
      have hready : Ready ({ h.script with file := x.1 } : ScriptState) :=
        ⟨hs.script, hs.registered⟩
      obtain ⟨h', hrun, hleaves⟩ := runItemWith_message (scriptEnv lib fresh) x.1 hs hmsg
      obtain ⟨results, hresults, hends⟩ :=
        ih hleaves.ready fun y hy => hxs y (List.mem_cons_of_mem x hy)
      obtain ⟨result, hresult, hend⟩ := exec_startAction_ends lib fresh
        (.number (.finite x.2.fd)) hready hnul
      obtain ⟨load, hload⟩ := hs.script "start_action" (by decide)
      have haction : cstr (ascii "start_action") = ascii "start_action" := by decide
      have hanswer : (answer (scriptEnv lib fresh) { h.script with file := x.1 } x.2.fd
          { action := ascii "start_action", data := data }).map Prod.fst = some result := by
        simp only [answer, haction, hload, callAction, if_true, cstr_of_nulFree hnul, hresult]
        rfl
      obtain ⟨r, hr, rfl⟩ := Option.map_eq_some_iff.mp hanswer
      refine ⟨r.1 :: results, ?_, .cons ⟨_, hmsg, hend⟩ hends⟩
      rw [statuses, hmsg, Option.bind_some, hr, Option.bind_some, hrun, Option.bind_some, hresults,
        Option.map_some]

/-- In any sequence of messages, with any version of the file at each of them, the call
for each ends as its own text and the version say. -/
theorem statuses_of_documents (lib : Lib) (fresh : ℕ → SocketMsg) (library : Bytes → Value)
    (stack : List Value) {xs : List (ScriptFile × GafqItem)} (hxs : ∀ x ∈ xs, IsMessage x.2) :
    ∃ results, statuses (scriptEnv lib fresh) (start library stack) xs = some results ∧
      List.Forall₂ (fun x result => ∃ msg, x.2.msg = some msg ∧ Ends lib x.1 msg.data result)
        xs results :=
  statuses_of_ready lib fresh (ready_start library stack) hxs

/-- A text outside the language, a request, a reload that finds the committed version, one
that finds a version with an error, and a number. -/
def fiveTexts : List (ScriptFile × GafqItem) :=
  [(.chunk scriptFile, messageItem 5 (ascii "[1, 2")),
    (.chunk scriptFile, messageItem 5 requestText),
    (.chunk scriptFile, messageItem 6 (ascii "\x7b\"oper\":\"update_self\"\x7d")),
    (.chunk [.define .dump, .raise .nil],
      messageItem 6 (ascii "\x7b\"oper\":\"update_self\"\x7d")),
    (.malformed .nil, messageItem 5 (ascii "1"))]

theorem statuses_of_documents_five :
    ∃ results, statuses (scriptEnv integerLib fun _ => default) (start (fun _ => .nil) [])
        fiveTexts = some results ∧
      results.map CallResult.status = [2, 0, 0, 2, 2] ∧
      List.Forall₂ (fun x result => ∃ msg, x.2.msg = some msg ∧
          Ends integerLib x.1 msg.data result) fiveTexts results := by
  have hmessages : ∀ x ∈ fiveTexts, IsMessage x.2 := by
    intro x hx
    simp only [fiveTexts, List.mem_cons, List.not_mem_nil, or_false] at hx
    rcases hx with rfl | rfl | rfl | rfl | rfl <;> exact ⟨_, rfl, by decide, by decide⟩
  have hstatus : ((statuses (scriptEnv integerLib fun _ => default) (start (fun _ => .nil) [])
      fiveTexts).any fun results =>
        results.map CallResult.status = [2, 0, 0, 2, 2]) = true := by decide +kernel
  obtain ⟨results, hresults, hends⟩ := statuses_of_documents integerLib (fun _ => default)
    (fun _ => .nil) [] hmessages
  rw [hresults] at hstatus
  exact ⟨results, hresults, of_decide_eq_true hstatus, hends⟩

end Host

end GafqEngine
