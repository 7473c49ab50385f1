import GafqEngine.ScriptEngine.Handover

/-!
# Which items are served

An item is built in `ExecGafq` in one of two shapes: with script text and a null
`msg`, or with whatever `msg` was passed. `LoopExecute` reads only `msg`.
`Served` is the reading in which both shapes are handled: no crash, every pushed
item in its place and worked off as its shape asks, and the rest of the batch
can be finished whatever the scripts do. It holds along the runs in which every
call passes a message and no script text.
-/

namespace GafqEngine

open CLib Gafq Transition

namespace Engine

/-- The calls are the ones the item asks for: its text is run, its message is
called. -/
def ServedBy (item : GafqItem) (calls : List ApiCall) : Prop :=
  (item.gafqContent ≠ [] → .dostring item.gafqContent ∈ calls) ∧
    (item.msg.isSome → OwnCalls item calls)

def finish (answers : List (Value × CallResult)) : List Action :=
  answers.map fun a => .runItem a.1 a.2

/-- Every item is served, and the batch can be finished. -/
structure Served (e : Engine) : Prop where
  alive : e.crashed = false
  order : e.done.map Prod.fst ++ e.tempExecuteList ++ e.waitExecuteList = e.pushed
  served : ∀ p ∈ e.done, ServedBy p.1 p.2
  finishes : ∀ answers, answers.length = e.tempExecuteList.length →
    ∃ e', run step e (finish answers) = some e' ∧ e'.crashed = false ∧
      e'.tempExecuteList = [] ∧ e'.done.map Prod.fst = e.done.map Prod.fst ++ e.tempExecuteList

def TextFree (e : Engine) : Prop :=
  (∀ item ∈ e.tempExecuteList ++ e.waitExecuteList, item.gafqContent = []) ∧
    ∀ p ∈ e.done, p.1.gafqContent = []

theorem textFree_step {e e' : Engine} {a : Action} (ht : TextFree e) (ha : Proper a)
    (h : e.step a = some e') : TextFree e' := by
  have hqueued : ∀ item ∈ e'.tempExecuteList ++ e'.waitExecuteList, item.gafqContent = [] := by
    refine queued_step ht.1 ?_ h
    rintro thread args rfl
    simp [ExecArgs.item, ha.1]
  refine ⟨hqueued, ?_⟩
  rcases step_cases h with
      ⟨-, ⟨thread, args, -, rfl⟩ | ⟨-, -, rfl⟩ |
      ⟨global, result, item, rest, -, htemp, ⟨-, rfl⟩ | ⟨msg, -, rfl⟩⟩⟩
  · exact ht.2
  · exact ht.2
  · exact ht.2
  · intro p hp
    rcases List.mem_append.mp hp with hp | hp
    · exact ht.2 p hp
    · obtain rfl := List.mem_singleton.mp hp
      exact ht.1 item (by rw [htemp]; exact List.mem_append_left _ List.mem_cons_self)

/-- A batch of messages is worked off to its end, whatever the answers are. -/
theorem run_finish {e : Engine} (hcrash : e.crashed = false) (hq : ProperQueue e)
    {answers : List (Value × CallResult)} (hlen : answers.length = e.tempExecuteList.length) :
    ∃ e', run step e (finish answers) = some e' ∧ e'.crashed = false ∧
      e'.tempExecuteList = [] ∧
      e'.done.map Prod.fst = e.done.map Prod.fst ++ e.tempExecuteList := by
  induction answers generalizing e with
  | nil =>
      have htemp : e.tempExecuteList = [] := List.length_eq_zero_iff.mp hlen.symm
      exact ⟨e, rfl, hcrash, htemp, by rw [htemp, List.append_nil]⟩
  | cons a answers ih =>
      cases htemp : e.tempExecuteList with
      | nil =>
          rw [htemp] at hlen
          cases hlen
      | cons item rest =>
          obtain ⟨msg, hmsg, hnul⟩ :=
            hq item (by rw [htemp]; exact List.mem_append_left _ List.mem_cons_self)
          have hstep : e.step (.runItem a.1 a.2) = some (e.finishItem item rest msg a.1 a.2) := by
            simp [step, hcrash, htemp, hmsg]
          have hrest : answers.length =
              (e.finishItem item rest msg a.1 a.2).tempExecuteList.length := by
            rw [htemp] at hlen
            exact Nat.succ.inj hlen
          obtain ⟨e', hrun, hcrash', htemp', hdone⟩ :=
            ih (e := e.finishItem item rest msg a.1 a.2) hcrash
              (properQueue_step (a := .runItem a.1 a.2) hq trivial hstep) hrest
          refine ⟨e', ?_, hcrash', htemp', ?_⟩
          · rw [finish, List.map_cons, run_cons, hstep]
            exact hrun
          · rw [hdone]
            simp [finishItem]

/-- Along a run whose calls all pass a message and no script text, and whose
batches fit into `int`, every item is served. -/
theorem served_of_meets (stack : List Value) {as : List Action} {e : Engine}
    (hok : Meets step (fun e a => Proper a ∧ TakesAll e a) (start stack) as)
    (hrun : run step (start stack) as = some e) : Served e := by
  obtain ⟨hq, hh, ht⟩ :=
    invariant_of_meets (I := fun e => ProperQueue e ∧ HandedOver e ∧ TextFree e)
      (fun _ _ _ hi hc hs => ⟨properQueue_step hi.1 hc.1 hs,
        handedOver_step hi.1 hi.2.1 hc.2 hs, textFree_step hi.2.2 hc.1 hs⟩)
      ⟨by simp [ProperQueue, start], handedOver_start stack, by simp [TextFree, start]⟩ hok hrun
  refine ⟨hh.alive, hh.order, ?_, fun answers hlen => run_finish hh.alive hq hlen⟩
  intro p hp
  exact ⟨fun hne => absurd (ht.2 p hp) hne, fun _ => hh.own p hp⟩

theorem served_three_messages :
    ∃ e, run step (start []) threeMessages = some e ∧ e.done.length = 3 ∧ Served e := by
  obtain ⟨e, hrun, hdone⟩ : ∃ e, run step (start []) threeMessages = some e ∧
      e.done.length = 3 := ⟨_, rfl, rfl⟩
  have htakes : Meets step TakesAll (start []) threeMessages := by decide +kernel
  exact ⟨e, hrun, hdone, served_of_meets []
    (meets_and.mpr ⟨meets_of_forall_mem proper_threeMessages, htakes⟩) hrun⟩

/-- `ExecGafq("x")` queues an item without a message, and the next `LoopExecute`
dereferences its null `msg`. -/
theorem served_fails_on_script_text :
    ¬ ∀ (as : List Action) (e : Engine), run step (start []) as = some e → Served e := by
  intro h
  have hserved := h [.execGafq 0 { gafqContent := ascii "x" }, .takeLock,
    .runItem .nil .returns] _ rfl
  exact absurd hserved.alive (by decide)

end Engine

end GafqEngine
