import Mathlib.Order.Basic

/-!
# What a party reaches by its own steps

`Eventually step turn P s` says that a party that takes the actions `turn`, and alone
takes steps from `s` on, comes to a state with `P`, whichever of its actions are
possible and whatever the environment puts into them: it is never stuck before, and no
choice leads it astray. The rule is a measure that every such step lowers.
-/

namespace Transition

variable {σ α : Type*}

/-- The actions `turn` lead to a state with `P` whatever they are. -/
inductive Eventually (step : σ → α → Option σ) (turn : α → Prop) (P : σ → Prop) : σ → Prop
  | now {s : σ} (h : P s) : Eventually step turn P s
  | later {s t : σ} {a : α} (ha : turn a) (hstep : step s a = some t)
      (hall : ∀ b u, turn b → step s b = some u → Eventually step turn P u) :
      Eventually step turn P s

/-- Where every step keeps the invariant and lowers the measure, and one is possible, the
goal is reached. -/
theorem eventually_of_measure {step : σ → α → Option σ} {turn : α → Prop} {P I : σ → Prop}
    (measure : σ → ℕ)
    (hprogress : ∀ s, I s → ¬ P s → ∃ a t, turn a ∧ step s a = some t)
    (hstep : ∀ s a t, I s → ¬ P s → turn a → step s a = some t → I t ∧ measure t < measure s)
    {s : σ} (hs : I s) : Eventually step turn P s := by
  induction hn : measure s using Nat.strongRecOn generalizing s with
  | ind n ih =>
      by_cases hP : P s
      · exact .now hP
      · obtain ⟨a, t, ha, ht⟩ := hprogress s hs hP
        apply Eventually.later ha ht
        intro b u hb hu
        obtain ⟨hI, hlt⟩ := hstep s b u hs hP hb hu
        exact ih (measure u) (hn ▸ hlt) hI rfl

end Transition
