import Mathlib.Data.List.Basic
import Mathlib.Order.Basic

/-!
# Runs of a labelled transition function

A system is a partial function `step : σ → α → Option σ`: the action `a` leads
from `s` to `t` when `step s a = some t`, and is impossible at `s` when
`step s a = none`. Every choice the environment makes is part of the action, so
`run step s as` is the one state the action list `as` leads to, if it can be
performed at all.

`Meets step ok s as` says that every action of the run is taken from a state
that satisfies the condition `ok` together with it. The rules that the
developments below use are `invariant_of_meets`, which carries an invariant
along such runs, `throughout_iff_meets` for a property that a step keeps exactly
when it meets the condition, and `eq_iff_meets`, which reads off from a monotone
measure whether a run met its condition at every step.
-/

namespace Transition

variable {σ α : Type*}

/-- The state reached from `s` by the actions `as`. -/
def run (step : σ → α → Option σ) (s : σ) (as : List α) : Option σ :=
  as.foldlM step s

@[simp] theorem run_nil (step : σ → α → Option σ) (s : σ) :
    run step s [] = some s := rfl

@[simp] theorem run_cons (step : σ → α → Option σ) (s : σ) (a : α) (as : List α) :
    run step s (a :: as) = (step s a).bind fun t => run step t as := rfl

theorem run_append (step : σ → α → Option σ) (s : σ) (as bs : List α) :
    run step s (as ++ bs) = (run step s as).bind fun t => run step t bs := by
  induction as generalizing s with
  | nil => rfl
  | cons a as ih =>
      rw [List.cons_append, run_cons, run_cons]
      cases step s a with
      | none => rfl
      | some t => exact ih t

theorem run_concat (step : σ → α → Option σ) (s : σ) (as : List α) (a : α) :
    run step s (as ++ [a]) = (run step s as).bind fun t => step t a := by
  rw [run_append]
  congr 1
  funext t
  rw [run_cons]
  cases step t a with
  | none => rfl
  | some u => rfl

/-- A run whose end has a property, by evaluation. -/
theorem exists_of_any_run {step : σ → α → Option σ} {s : σ} {as : List α} {P : σ → Prop}
    [DecidablePred P] (h : (run step s as).any (fun t => decide (P t)) = true) :
    ∃ t, run step s as = some t ∧ P t := by
  obtain ⟨t, ht, hP⟩ := (Option.any_eq_true _ _).mp h
  exact ⟨t, ht, of_decide_eq_true hP⟩

/-- The actions `as` are performed from states that satisfy `ok` with them. -/
def Meets (step : σ → α → Option σ) (ok : σ → α → Prop) : σ → List α → Prop
  | _, [] => True
  | s, a :: as => ok s a ∧ ∀ t, step s a = some t → Meets step ok t as

@[simp] theorem meets_nil (step : σ → α → Option σ) (ok : σ → α → Prop) (s : σ) :
    Meets step ok s [] := trivial

theorem meets_cons {step : σ → α → Option σ} {ok : σ → α → Prop} {s : σ} {a : α}
    {as : List α} :
    Meets step ok s (a :: as) ↔
      ok s a ∧ ∀ t, step s a = some t → Meets step ok t as := Iff.rfl

theorem meets_cons_of_step {step : σ → α → Option σ} {ok : σ → α → Prop} {s t : σ} {a : α}
    {as : List α} (h : step s a = some t) :
    Meets step ok s (a :: as) ↔ ok s a ∧ Meets step ok t as := by
  rw [meets_cons]
  refine and_congr_right fun _ => ⟨fun H => H t h, fun H u hu => ?_⟩
  have htu : t = u := Option.some.inj (h.symm.trans hu)
  exact htu ▸ H

instance decidableMeets (step : σ → α → Option σ) (ok : σ → α → Prop)
    [∀ s a, Decidable (ok s a)] : ∀ s as, Decidable (Meets step ok s as)
  | _, [] => isTrue trivial
  | s, a :: as =>
      match h : step s a with
      | none => decidable_of_iff (ok s a) ⟨fun ha => ⟨ha, by simp [h]⟩, And.left⟩
      | some t =>
          have := decidableMeets step ok t as
          decidable_of_iff (ok s a ∧ Meets step ok t as) (meets_cons_of_step h).symm

theorem meets_and {step : σ → α → Option σ} {ok ok' : σ → α → Prop} {s : σ} {as : List α} :
    Meets step (fun s a => ok s a ∧ ok' s a) s as ↔ Meets step ok s as ∧ Meets step ok' s as := by
  induction as generalizing s with
  | nil => simp
  | cons a as ih =>
      simp only [meets_cons, ih]
      constructor
      · rintro ⟨⟨h, h'⟩, H⟩
        exact ⟨⟨h, fun t ht => (H t ht).1⟩, ⟨h', fun t ht => (H t ht).2⟩⟩
      · rintro ⟨⟨h, H⟩, ⟨h', H'⟩⟩
        exact ⟨⟨h, h'⟩, fun t ht => ⟨H t ht, H' t ht⟩⟩

theorem meets_of_forall_mem {step : σ → α → Option σ} {ok : α → Prop} {s : σ} {as : List α}
    (h : ∀ a ∈ as, ok a) : Meets step (fun _ a => ok a) s as := by
  induction as generalizing s with
  | nil => trivial
  | cons a as ih =>
      exact ⟨h a List.mem_cons_self, fun t _ => ih fun b hb => h b (List.mem_cons_of_mem a hb)⟩

theorem meets_true {step : σ → α → Option σ} {s : σ} {as : List α} :
    Meets step (fun _ _ => True) s as :=
  meets_of_forall_mem fun _ _ => trivial

/-- The property holds in every state that the run comes through. -/
def Throughout (step : σ → α → Option σ) (I : σ → Prop) (s : σ) (as : List α) : Prop :=
  ∀ bs t, bs <+: as → run step s bs = some t → I t

theorem throughout_nil {step : σ → α → Option σ} {I : σ → Prop} {s : σ} :
    Throughout step I s [] ↔ I s := by
  constructor
  · exact fun h => h [] s List.prefix_rfl rfl
  · intro h bs t hbs hrun
    rw [List.prefix_nil.mp hbs, run_nil] at hrun
    exact Option.some.inj hrun ▸ h

theorem throughout_cons_of_step {step : σ → α → Option σ} {I : σ → Prop} {s t : σ} {a : α}
    {as : List α} (h : step s a = some t) :
    Throughout step I s (a :: as) ↔ I s ∧ Throughout step I t as := by
  constructor
  · intro H
    refine ⟨H [] s List.nil_prefix rfl, fun bs u hbs hrun => H (a :: bs) u ?_ ?_⟩
    · exact (List.prefix_cons_inj a).mpr hbs
    · rw [run_cons, h, Option.bind_some, hrun]
  · rintro ⟨hs, H⟩ bs u hbs hrun
    rcases List.prefix_cons_iff.mp hbs with rfl | ⟨bs', rfl, hbs'⟩
    · exact Option.some.inj hrun ▸ hs
    · rw [run_cons, h, Option.bind_some] at hrun
      exact H bs' u hbs' hrun

/-- A property that a step keeps exactly when it meets `ok` holds throughout a run
exactly when the run meets `ok`. -/
theorem throughout_iff_meets {step : σ → α → Option σ} {ok : σ → α → Prop} {I : σ → Prop}
    (hstep : ∀ s a t, I s → step s a = some t → (I t ↔ ok s a))
    {s t : σ} {as : List α} (hs : I s) (hrun : run step s as = some t) :
    Throughout step I s as ↔ Meets step ok s as := by
  induction as generalizing s with
  | nil => exact iff_of_true (throughout_nil.mpr hs) trivial
  | cons a as ih =>
      rw [run_cons, Option.bind_eq_some_iff] at hrun
      obtain ⟨u, hu, hrun⟩ := hrun
      rw [throughout_cons_of_step hu, meets_cons_of_step hu, ← hstep s a u hs hu]
      constructor
      · rintro ⟨-, H⟩
        have hui : I u := H [] u List.nil_prefix rfl
        exact ⟨hui, (ih hui hrun).mp H⟩
      · rintro ⟨hui, H⟩
        exact ⟨hs, (ih hui hrun).mpr H⟩

/-- An invariant that every step meeting `ok` preserves holds after every run
whose steps meet `ok`. -/
theorem invariant_of_meets {step : σ → α → Option σ} {ok : σ → α → Prop} {I : σ → Prop}
    (hstep : ∀ s a t, I s → ok s a → step s a = some t → I t)
    {s t : σ} {as : List α} (hs : I s) (hok : Meets step ok s as)
    (hrun : run step s as = some t) : I t := by
  induction as generalizing s with
  | nil =>
      rw [run_nil] at hrun
      exact Option.some.inj hrun ▸ hs
  | cons a as ih =>
      rw [run_cons, Option.bind_eq_some_iff] at hrun
      obtain ⟨u, hu, hrun⟩ := hrun
      exact ih (hstep s a u hs hok.1 hu) (hok.2 u hu) hrun

theorem invariant {step : σ → α → Option σ} {I : σ → Prop}
    (hstep : ∀ s a t, I s → step s a = some t → I t)
    {s t : σ} {as : List α} (hs : I s) (hrun : run step s as = some t) : I t :=
  invariant_of_meets (fun s a t h _ => hstep s a t h) hs meets_true hrun

/-- Along a run in the domain `dom`, a measure that no step lowers, and that a
step keeps exactly when it meets `ok`, has its first value at the end exactly
when the run met `ok` throughout. -/
theorem eq_iff_meets {step : σ → α → Option σ} {dom ok : σ → α → Prop} {I : σ → Prop}
    {β : Type*} [PartialOrder β] (f : σ → β)
    (hinv : ∀ s a t, I s → dom s a → step s a = some t → I t)
    (hle : ∀ s a t, I s → dom s a → step s a = some t → f s ≤ f t)
    (hok : ∀ s a t, I s → dom s a → step s a = some t → (f t = f s ↔ ok s a))
    {s t : σ} {as : List α} (hs : I s) (hdom : Meets step dom s as)
    (hrun : run step s as = some t) : f t = f s ↔ Meets step ok s as := by
  induction as generalizing s with
  | nil =>
      rw [run_nil] at hrun
      simp [Option.some.inj hrun]
  | cons a as ih =>
      rw [run_cons, Option.bind_eq_some_iff] at hrun
      obtain ⟨u, hu, hrun⟩ := hrun
      have hui : I u := hinv s a u hs hdom.1 hu
      have htail : f t = f u ↔ Meets step ok u as := ih hui (hdom.2 u hu) hrun
      have hsu : f s ≤ f u := hle s a u hs hdom.1 hu
      have hut : f u ≤ f t :=
        invariant_of_meets (I := fun v => I v ∧ f u ≤ f v)
          (fun v b w hv hd hw => ⟨hinv v b w hv.1 hd hw, hv.2.trans (hle v b w hv.1 hd hw)⟩)
          ⟨hui, le_rfl⟩ (hdom.2 u hu) hrun |>.2
      rw [meets_cons_of_step hu, ← hok s a u hs hdom.1 hu, ← htail]
      constructor
      · intro h
        have hus : f u = f s := le_antisymm (h ▸ hut) hsu
        exact ⟨hus, h.trans hus.symm⟩
      · rintro ⟨hus, htu⟩
        exact htu.trans hus

end Transition
