import Mathlib.Data.List.Forall2

/-!
# Patterns of classes

A pattern that gives a class for each of its places, matched at the start of a list.
-/

namespace Scan

variable {α : Type*}

/-- What the pattern matches at the start of the list. -/
def matchClasses : List (α → Bool) → List α → Option (List α)
  | [], _ => some []
  | p :: ps, c :: s => if p c then (matchClasses ps s).map (c :: ·) else none
  | _ :: _, [] => none

/-- Each element is in the class for its place. -/
def Fits (ps : List (α → Bool)) (w : List α) : Prop := List.Forall₂ (fun p c => p c = true) ps w

theorem fits_cons {p : α → Bool} {ps : List (α → Bool)} {c : α} {w : List α} :
    Fits (p :: ps) (c :: w) ↔ p c = true ∧ Fits ps w := List.forall₂_cons

theorem Fits.length {ps : List (α → Bool)} {w : List α} (h : Fits ps w) : ps.length = w.length :=
  h.length_eq

theorem fits_replicate {n : ℕ} {p : α → Bool} {w : List α} :
    Fits (List.replicate n p) w ↔ w.length = n ∧ ∀ c ∈ w, p c = true := by
  induction n generalizing w with
  | zero =>
      cases w with
      | nil => simp [Fits]
      | cons c w => simp [Fits]
  | succ n ih =>
      cases w with
      | nil => simp [Fits, List.replicate_succ]
      | cons c w =>
          rw [List.replicate_succ, fits_cons, ih, List.length_cons, Nat.add_right_cancel_iff,
            List.forall_mem_cons]
          exact and_left_comm

theorem fits_append {ps qs : List (α → Bool)} {w : List α} :
    Fits (ps ++ qs) w ↔ ∃ u v, w = u ++ v ∧ Fits ps u ∧ Fits qs v := by
  constructor
  · intro h
    have htake := List.forall₂_take ps.length h
    have hdrop := List.forall₂_drop ps.length h
    rw [List.take_left] at htake
    rw [List.drop_left] at hdrop
    exact ⟨_, _, (List.take_append_drop _ _).symm, htake, hdrop⟩
  · rintro ⟨u, v, rfl, hu, hv⟩
    exact List.rel_append hu hv

/-- The pattern matches what fits it at the start of the list, and nothing else. -/
theorem matchClasses_eq_some_iff {ps : List (α → Bool)} {s w : List α} :
    matchClasses ps s = some w ↔ Fits ps w ∧ w <+: s := by
  induction ps generalizing s w with
  | nil =>
      rw [matchClasses, Option.some.injEq]
      constructor
      · rintro rfl
        exact ⟨.nil, List.nil_prefix⟩
      · rintro ⟨hw, -⟩
        exact (List.forall₂_nil_left_iff.mp hw).symm
  | cons p ps ih =>
      cases s with
      | nil =>
          refine iff_of_false (by simp [matchClasses]) ?_
          rintro ⟨hw, hs⟩
          have hlen := hw.length
          rw [List.prefix_nil.mp hs] at hlen
          cases hlen
      | cons c s =>
          rw [matchClasses, Option.ite_none_right_eq_some, Option.map_eq_some_iff]
          constructor
          · rintro ⟨hp, v, hv, rfl⟩
            obtain ⟨hfits, hprefix⟩ := ih.mp hv
            exact ⟨fits_cons.mpr ⟨hp, hfits⟩, List.cons_prefix_cons.mpr ⟨rfl, hprefix⟩⟩
          · rintro ⟨hw, hs⟩
            cases w with
            | nil => cases hw
            | cons c' v =>
                obtain ⟨rfl, hprefix⟩ := List.cons_prefix_cons.mp hs
                obtain ⟨hp, hfits⟩ := fits_cons.mp hw
                exact ⟨hp, v, ih.mpr ⟨hfits, hprefix⟩, rfl⟩

end Scan
