import GafqEngine.ScriptEngine.Basic

/-!
# The height of the gafq stack

One item pushes the value of its global, and if that is a function two arguments
that the call pops with it. What stays behind depends on the outcome: nothing
after a success, nothing after an error value that is popped, but the value of a
global that is no function and an error value `nil` are left on the stack. The
height therefore never sinks, and it is what it was exactly when no item was of
these two kinds.
-/

namespace GafqEngine

open CLib Gafq Transition

namespace Engine

/-- The call of `ExecGafq` passes a message and no script text. -/
def PassesMessage : Action → Prop
  | .execGafq _ args => args.gafqContent = [] ∧ args.msg.isSome
  | _ => True

/-- The global is a function, and it returns or raises a value other than `nil`. -/
def Balanced : Action → Prop
  | .runItem global result =>
      global.isFunction = true ∧ ∀ err, result = .raises err → err.isNil = false
  | _ => True

def leak (global : Value) (result : CallResult) : ℕ :=
  if global.isFunction then
    match result with
    | .returns => 0
    | .raises err => if err.isNil then 1 else 0
  else 1

theorem length_runItem (stack : List Value) (fd : ℤ) (msg : ScriptEngineMsgBase) (global : Value)
    (result : CallResult) :
    (GafqEngine.runItem stack fd msg global result).length = stack.length + leak global result := by
  cases hfun : global.isFunction with
  | false => simp [GafqEngine.runItem, leak, top, hfun]
  | true =>
      cases result with
      | returns => simp [GafqEngine.runItem, leak, top, pcall, hfun]
      | raises err =>
          cases hnil : err.isNil with
          | false => simp [GafqEngine.runItem, leak, top, pcall, hfun, hnil]
          | true => simp [GafqEngine.runItem, leak, top, pcall, hfun, hnil]

theorem leak_eq_zero_iff (global : Value) (result : CallResult) :
    leak global result = 0 ↔ Balanced (.runItem global result) := by
  cases hfun : global.isFunction with
  | false => simp [leak, Balanced, hfun]
  | true =>
      cases result with
      | returns => simp [leak, Balanced, hfun]
      | raises err => simp [leak, Balanced, hfun]

def HasMessages (e : Engine) : Prop :=
  ∀ item ∈ e.tempExecuteList ++ e.waitExecuteList, item.msg.isSome

theorem hasMessages_step {e e' : Engine} {a : Action} (hm : HasMessages e) (ha : PassesMessage a)
    (h : e.step a = some e') : HasMessages e' := by
  refine queued_step hm ?_ h
  rintro thread args rfl
  simp [ExecArgs.item, ha.1, ha.2]

/-- One step keeps the height exactly when it is balanced, and never lowers it. -/
theorem height_step {e e' : Engine} {a : Action} (hm : HasMessages e) (h : e.step a = some e') :
    e.stack.length ≤ e'.stack.length ∧ (e'.stack.length = e.stack.length ↔ Balanced a) := by
  rcases step_cases h with
      ⟨-, ⟨thread, args, rfl, rfl⟩ | ⟨rfl, -, rfl⟩ |
      ⟨global, result, item, rest, rfl, htemp, ⟨hnone, -⟩ | ⟨msg, -, rfl⟩⟩⟩
  · simp [execGafq, Balanced]
  · simp [takeLock, Balanced]
  · have hsome := hm item (by rw [htemp]; exact List.mem_append_left _ List.mem_cons_self)
    rw [hnone] at hsome
    cases hsome
  · have hlen := length_runItem e.stack item.fd msg global result
    simp only [finishItem, hlen, ← leak_eq_zero_iff]
    omega

/-- After a run over message items the stack has its first height exactly when
every item named a function that returned or raised a value other than `nil`. -/
theorem height_eq_iff_meets_balanced (stack : List Value) {as : List Action} {e : Engine}
    (hmsg : ∀ a ∈ as, PassesMessage a) (hrun : run step (start stack) as = some e) :
    e.stack.length = stack.length ↔ Meets step (fun _ a => Balanced a) (start stack) as := by
  have hstart : (start stack).stack.length = stack.length := rfl
  rw [← hstart]
  exact eq_iff_meets (I := HasMessages) (fun e => e.stack.length)
    (fun _ _ _ hi hd hs => hasMessages_step hi hd hs) (fun _ _ _ hi _ hs => (height_step hi hs).1)
    (fun _ _ _ hi _ hs => (height_step hi hs).2) (by simp [HasMessages, start])
    (meets_of_forall_mem hmsg) hrun

theorem height_eq_three_messages :
    ∃ e, run step (start []) threeMessages = some e ∧
      (e.stack.length = ([] : List Value).length ↔
        Meets step (fun _ a => Balanced a) (start []) threeMessages) := by
  refine ⟨_, rfl, height_eq_iff_meets_balanced [] ?_ rfl⟩
  intro a ha
  simp only [threeMessages, List.mem_cons, List.not_mem_nil, or_false] at ha
  rcases ha with rfl | rfl | rfl | rfl | rfl | rfl | rfl | rfl
  · exact ⟨rfl, rfl⟩
  · exact ⟨rfl, rfl⟩
  · trivial
  · trivial
  · exact ⟨rfl, rfl⟩
  · trivial
  · trivial
  · trivial

/-- A message whose action is no global leaves the `nil` it looked up. -/
theorem height_grows_on_missing_global :
    ¬ ∀ (as : List Action) (e : Engine), (∀ a ∈ as, PassesMessage a) →
      run step (start []) as = some e → e.stack.length = 0 := by
  intro h
  have hheight := h [.execGafq 0 { msg := some ⟨ascii "a", ascii "d"⟩ }, .takeLock,
    .runItem .nil .returns] _ ?_ rfl
  · exact absurd hheight (by decide)
  · intro a ha
    simp only [List.mem_cons, List.not_mem_nil, or_false] at ha
    rcases ha with rfl | rfl | rfl
    · exact ⟨rfl, rfl⟩
    · trivial
    · trivial

end Engine

end GafqEngine
