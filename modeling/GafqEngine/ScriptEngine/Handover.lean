import GafqEngine.ScriptEngine.Basic

/-!
# Hand-over through the engine queue

Producers append at any time, also between two items of a running
`LoopExecute`. `HandedOver` says that the items worked off, the rest of the
current copy and the waiting list are together the pushed items in their order,
that every item was looked up and called with its own values, and that the
current call works off what it found under the lock.

The copy is counted in `int`, so this holds after a run exactly when no
`LoopExecute` found `2 ^ 31` items or more waiting: beyond that the copy is
shorter than the list, and the list is cleared all the same.
-/

namespace GafqEngine

open CLib Gafq Transition

namespace Engine

/-- The calls of `ExecGafq` that queue a message: no script text, and a message
whose strings hold no NUL. -/
def Proper : Action → Prop
  | .execGafq _ args =>
      args.gafqContent = [] ∧
        ∃ msg, args.msg = some msg ∧ NulFree msg.action ∧ NulFree msg.data
  | _ => True

/-- `LoopExecute` finds no more items than `int` can count. -/
def TakesAll (e : Engine) : Action → Prop
  | .takeLock => e.waitExecuteList.length < 2 ^ 31
  | _ => True

instance (e : Engine) : ∀ a, Decidable (TakesAll e a)
  | .takeLock => inferInstanceAs (Decidable (e.waitExecuteList.length < 2 ^ 31))
  | .execGafq _ _ => isTrue trivial
  | .runItem _ _ => isTrue trivial

/-- The calls are those for this item: its action is looked up, and a function
found there is called once, with its descriptor and its data. -/
def OwnCalls (item : GafqItem) (calls : List ApiCall) : Prop :=
  ∃ msg global result, item.msg = some msg ∧
    calls = .getglobal msg.action global ::
      if global.isFunction then
        [.pcall global [.number (.finite item.fd), .string msg.data] result]
      else []

/-- Every pushed item is in its place, exactly once. -/
structure HandedOver (e : Engine) : Prop where
  alive : e.crashed = false
  order : e.done.map Prod.fst ++ e.tempExecuteList ++ e.waitExecuteList = e.pushed
  own : ∀ p ∈ e.done, OwnCalls p.1 p.2
  batch : e.handled ++ e.tempExecuteList = e.snapshot

def ProperItem (item : GafqItem) : Prop :=
  ∃ msg, item.msg = some msg ∧ NulFree msg.action ∧ NulFree msg.data

def ProperQueue (e : Engine) : Prop :=
  ∀ item ∈ e.tempExecuteList ++ e.waitExecuteList, ProperItem item

theorem properItem_item {thread : ℕ} {args : ExecArgs} (h : Proper (.execGafq thread args)) :
    ProperItem args.item := by
  obtain ⟨hcontent, msg, hmsg, hnul⟩ := h
  exact ⟨msg, by simp [ExecArgs.item, hcontent, hmsg], hnul⟩

theorem ownCalls_apiCalls {item : GafqItem} {msg : ScriptEngineMsgBase} (h : item.msg = some msg)
    (haction : NulFree msg.action) (hdata : NulFree msg.data) (global : Value)
    (result : CallResult) : OwnCalls item (apiCalls item.fd msg global result) := by
  refine ⟨msg, global, result, h, ?_⟩
  rw [apiCalls, cstr_of_nulFree haction, cstr_of_nulFree hdata]
  split <;> rfl

theorem properQueue_step {e e' : Engine} {a : Action} (hq : ProperQueue e) (ha : Proper a)
    (h : e.step a = some e') : ProperQueue e' := by
  refine queued_step hq ?_ h
  rintro thread args rfl
  exact properItem_item ha

/-- A step of a proper run that takes everything keeps the hand-over. -/
theorem handedOver_step {e e' : Engine} {a : Action} (hq : ProperQueue e) (hh : HandedOver e)
    (htake : TakesAll e a) (h : e.step a = some e') : HandedOver e' := by
  rcases step_cases h with
      ⟨hcrash, ⟨thread, args, rfl, rfl⟩ | ⟨rfl, htemp, rfl⟩ |
      ⟨global, result, item, rest, -, htemp, hitem⟩⟩
  · refine ⟨hcrash, ?_, hh.own, hh.batch⟩
    simp only [execGafq]
    rw [← hh.order, List.append_assoc, List.append_assoc, List.append_assoc]
  · have hcopy : copyBatch e.waitExecuteList = e.waitExecuteList := copyBatch_of_lt htake
    refine ⟨hcrash, ?_, hh.own, ?_⟩
    · simp only [takeLock, hcopy, List.append_nil]
      rw [← hh.order, htemp, List.append_nil]
    · simp only [takeLock, hcopy, List.nil_append]
  · obtain ⟨msg, hmsg, haction, hdata⟩ :=
      hq item (by rw [htemp]; exact List.mem_append_left _ List.mem_cons_self)
    rcases hitem with ⟨hnone, -⟩ | ⟨msg', hmsg', rfl⟩
    · rw [hmsg] at hnone
      cases hnone
    · obtain rfl : msg = msg' := Option.some.inj (hmsg.symm.trans hmsg')
      refine ⟨hcrash, ?_, ?_, ?_⟩
      · simp only [finishItem, List.map_append, List.map_cons, List.map_nil]
        rw [← hh.order, htemp]
        simp
      · intro p hp
        rcases List.mem_append.mp hp with hp | hp
        · exact hh.own p hp
        · obtain rfl := List.mem_singleton.mp hp
          exact ownCalls_apiCalls hmsg haction hdata global result
      · simp only [finishItem]
        rw [← hh.batch, htemp]
        simp

/-- How many pushed items are in none of the three places. -/
def lost (e : Engine) : ℤ :=
  e.pushed.length -
    (e.done.length + e.tempExecuteList.length + e.waitExecuteList.length : ℕ)

theorem lost_step {e e' : Engine} {a : Action} (h : e.step a = some e') :
    e.lost ≤ e'.lost ∧ (e'.lost = e.lost ↔ TakesAll e a) := by
  rcases step_cases h with
      ⟨-, ⟨thread, args, rfl, rfl⟩ | ⟨rfl, htemp, rfl⟩ |
      ⟨global, result, item, rest, rfl, htemp, ⟨-, rfl⟩ | ⟨msg, -, rfl⟩⟩⟩
  · have hlost : (e.execGafq args).lost = e.lost := by
      simp only [lost, execGafq, List.length_append, List.length_singleton]
      omega
    exact ⟨hlost.ge, iff_of_true hlost trivial⟩
  · have hle := length_copyBatch_le e.waitExecuteList
    simp only [lost, takeLock, htemp, List.length_nil, TakesAll,
      ← length_copyBatch_eq_iff e.waitExecuteList]
    omega
  · simp [lost, TakesAll]
  · have hlost : (e.finishItem item rest msg global result).lost = e.lost := by
      simp only [lost, finishItem, htemp, List.length_append, List.length_cons, List.length_nil]
      omega
    exact ⟨hlost.ge, iff_of_true hlost trivial⟩

theorem lost_eq_zero {e : Engine} (h : HandedOver e) : e.lost = 0 := by
  have hlen := congrArg List.length h.order
  simp only [List.length_append, List.length_map] at hlen
  unfold lost
  omega

theorem handedOver_start (stack : List Value) : HandedOver (start stack) :=
  ⟨rfl, rfl, by simp [start], rfl⟩

/-- After a run of proper calls every item is in its place exactly when each
`LoopExecute` of the run found fewer than `2 ^ 31` items waiting. -/
theorem handedOver_iff_meets_takesAll (stack : List Value) {as : List Action} {e : Engine}
    (hproper : ∀ a ∈ as, Proper a) (hrun : run step (start stack) as = some e) :
    HandedOver e ↔ Meets step TakesAll (start stack) as := by
  constructor
  · intro h
    rw [← eq_iff_meets (I := fun _ => True) lost (fun _ _ _ _ _ _ => trivial)
      (fun _ _ _ _ _ hs => (lost_step hs).1) (fun _ _ _ _ _ hs => (lost_step hs).2) trivial
      (meets_of_forall_mem hproper) hrun]
    rw [lost_eq_zero h, lost_eq_zero (handedOver_start stack)]
  · intro h
    have hok : Meets step (fun e a => Proper a ∧ TakesAll e a) (start stack) as :=
      meets_and.mpr ⟨meets_of_forall_mem hproper, h⟩
    exact (invariant_of_meets (I := fun e => ProperQueue e ∧ HandedOver e)
      (fun _ _ _ hi hc hs =>
        ⟨properQueue_step hi.1 hc.1 hs, handedOver_step hi.1 hi.2 hc.2 hs⟩)
      ⟨by simp [ProperQueue, start], handedOver_start stack⟩ hok hrun).2

theorem proper_threeMessages : ∀ a ∈ threeMessages, Proper a := by
  intro a ha
  simp only [threeMessages, List.mem_cons, List.not_mem_nil, or_false] at ha
  rcases ha with rfl | rfl | rfl | rfl | rfl | rfl | rfl | rfl
  · exact ⟨rfl, _, rfl, by decide, by decide⟩
  · exact ⟨rfl, _, rfl, by decide, by decide⟩
  · trivial
  · trivial
  · exact ⟨rfl, _, rfl, by decide, by decide⟩
  · trivial
  · trivial
  · trivial

theorem handedOver_iff_three_messages :
    ∃ e, run step (start []) threeMessages = some e ∧
      (HandedOver e ↔ Meets step TakesAll (start []) threeMessages) :=
  ⟨_, rfl, handedOver_iff_meets_takesAll [] proper_threeMessages rfl⟩

theorem run_replicate_execGafq {e : Engine} (h : e.crashed = false) (thread : ℕ)
    (args : ExecArgs) (n : ℕ) :
    run step e (List.replicate n (.execGafq thread args)) =
      some { e with
        waitExecuteList := e.waitExecuteList ++ List.replicate n args.item
        pushed := e.pushed ++ List.replicate n args.item } := by
  induction n generalizing e with
  | zero => simp
  | succ n ih =>
      have hstep : e.step (.execGafq thread args) = some (e.execGafq args) := by
        simp [step, h]
      have hcrash : (e.execGafq args).crashed = false := h
      rw [List.replicate_succ, run_cons, hstep, Option.bind_some, ih hcrash]
      simp [execGafq, List.replicate_succ]

theorem lost_of_full (thread : ℕ) (args : ExecArgs) {n : ℕ} (hn : 2 ^ 31 ≤ n) :
    ∃ e, run step (start [])
        (List.replicate n (.execGafq thread args) ++ [.takeLock]) = some e ∧ e.lost ≠ 0 := by
  obtain ⟨full, hfull, hwait, htemp, hcrash, hlost⟩ : ∃ full,
      run step (start []) (List.replicate n (.execGafq thread args)) = some full ∧
        full.waitExecuteList.length = n ∧ full.tempExecuteList = [] ∧ full.crashed = false ∧
        full.lost = 0 :=
    ⟨_, run_replicate_execGafq rfl thread args n, by simp [start], rfl, rfl, by simp [lost, start]⟩
  have htake : full.step .takeLock = some full.takeLock := by
    simp [step, hcrash, htemp]
  refine ⟨full.takeLock, ?_, ?_⟩
  · rw [run_append, hfull, Option.bind_some, run_cons, htake, Option.bind_some, run_nil]
  · intro hzero
    have hfits : full.waitExecuteList.length < 2 ^ 31 :=
      (lost_step htake).2.mp (hzero.trans hlost.symm)
    omega

/-- `2 ^ 31` messages that wait together are not handed over: the count `n` of
the copy wraps around, and the list is cleared. -/
theorem handedOver_fails_on_two_pow_31_messages :
    ¬ ∀ (as : List Action) (e : Engine), (∀ a ∈ as, Proper a) →
      run step (start []) as = some e → HandedOver e := by
  intro h
  obtain ⟨e, hrun, hlost⟩ := lost_of_full 0
    { fd := 5, msg := some ⟨ascii "start_action", []⟩ } (le_refl (2 ^ 31))
  refine hlost (lost_eq_zero (h _ e ?_ hrun))
  intro a ha
  rcases List.mem_append.mp ha with ha | ha
  · rw [List.eq_of_mem_replicate ha]
    exact ⟨rfl, _, rfl, by decide, by decide⟩
  · rw [List.mem_singleton.mp ha]
    trivial

end Engine

end GafqEngine
