import Mathlib.Data.List.TakeWhile

/-!
# Positions in a list

A scanner that walks a list by positions, counted from one, against what stands there:
`At s i rest` says that `rest` is what is left of `s` from position `i` on. A step of
the scanner takes elements off the front of `rest`, and a loop that looks for the next
element of some kind stops in front of `rest.dropWhile`.
-/

namespace Scan

variable {α : Type*}

/-- From position `i` on, `rest` stands in the list; positions count from one. -/
def At (s : List α) (i : ℕ) (rest : List α) : Prop :=
  ∃ before, s = before ++ rest ∧ i = before.length + 1

def slice (s : List α) (i j : ℕ) : List α := (s.take j).drop (i - 1)

/-- The first position from `lo` to `hi` with the property, and the one behind `hi` if
there is none. -/
def seek (P : ℕ → Bool) (lo hi : ℕ) : ℕ :=
  ((List.range' lo (hi + 1 - lo)).find? P).getD (hi + 1)

theorem at_start (s : List α) : At s 1 s := ⟨[], rfl, rfl⟩

theorem At.pos {s : List α} {i : ℕ} {rest : List α} (h : At s i rest) : 0 < i := by
  obtain ⟨before, -, rfl⟩ := h
  exact Nat.succ_pos _

theorem At.length {s : List α} {i : ℕ} {rest : List α} (h : At s i rest) :
    i + rest.length = s.length + 1 := by
  obtain ⟨before, rfl, rfl⟩ := h
  rw [List.length_append]
  omega

theorem At.drop {s : List α} {i : ℕ} {rest : List α} (h : At s i rest) :
    s.drop (i - 1) = rest := by
  obtain ⟨before, rfl, rfl⟩ := h
  exact List.drop_left

theorem At.unique {s : List α} {i : ℕ} {rest rest' : List α} (h : At s i rest)
    (h' : At s i rest') : rest = rest' := h.drop.symm.trans h'.drop

/-- A position is known by what stands there. -/
theorem At.eq_pos {s : List α} {i j : ℕ} {rest : List α} (h : At s i rest) (h' : At s j rest) :
    i = j := by
  have hi := h.length
  have hj := h'.length
  omega

theorem At.append {s : List α} {i : ℕ} {w rest : List α} (h : At s i (w ++ rest)) :
    At s (i + w.length) rest := by
  obtain ⟨before, rfl, rfl⟩ := h
  refine ⟨before ++ w, (List.append_assoc _ _ _).symm, ?_⟩
  rw [List.length_append]
  omega

theorem At.tail {s : List α} {i : ℕ} {c : α} {rest : List α} (h : At s i (c :: rest)) :
    At s (i + 1) rest := h.append (w := [c])

theorem At.le_iff {s : List α} {i : ℕ} {rest : List α} (h : At s i rest) :
    i ≤ s.length ↔ rest ≠ [] := by
  have hlen := h.length
  rw [← List.length_pos_iff]
  omega

theorem At.slice_append {s : List α} {i : ℕ} {w rest : List α} (h : At s i (w ++ rest)) :
    slice s i (i + w.length - 1) = w := by
  obtain ⟨before, rfl, rfl⟩ := h
  have hend : before.length + 1 + w.length - 1 = (before ++ w).length := by
    rw [List.length_append]
    omega
  rw [slice, hend, ← List.append_assoc, List.take_left, Nat.add_sub_cancel, List.drop_left]

theorem At.slice_cons {s : List α} {i : ℕ} {c : α} {rest : List α} (h : At s i (c :: rest)) :
    slice s i i = [c] := h.slice_append (w := [c])

theorem slice_of_lt {s : List α} {i : ℕ} (h : s.length < i) (j : ℕ) : slice s i j = [] := by
  apply List.drop_of_length_le
  rw [List.length_take]
  omega

theorem At.slice_nil {s : List α} {i : ℕ} (h : At s i []) : slice s i i = [] := by
  have hlen := h.length
  exact slice_of_lt (by simp at hlen; omega) i

theorem At.of_slice {s : List α} {i : ℕ} {c : α} {rest : List α} (h : At s i rest)
    (hc : slice s i i = [c]) : ∃ t, rest = c :: t := by
  cases rest with
  | nil =>
      rw [h.slice_nil] at hc
      cases hc
  | cons c' t =>
      rw [h.slice_cons] at hc
      exact ⟨t, by rw [List.singleton_inj.mp hc]⟩

theorem seek_of_lt (P : ℕ → Bool) {lo hi : ℕ} (h : hi < lo) : seek P lo hi = hi + 1 := by
  rw [seek, Nat.sub_eq_zero_of_le h]
  rfl

theorem seek_of_le (P : ℕ → Bool) {lo hi : ℕ} (h : lo ≤ hi) :
    seek P lo hi = if P lo then lo else seek P (lo + 1) hi := by
  have hcount : hi + 1 - lo = hi + 1 - (lo + 1) + 1 := by omega
  rw [seek, hcount, List.range'_succ, List.find?_cons]
  cases hP : P lo with
  | true => rfl
  | false => rfl

/-- The search for the next element with the property stops in front of it, or behind
the last one. -/
theorem At.seek {s : List α} {i : ℕ} {rest : List α} (h : At s i rest) {P : ℕ → Bool}
    {p : α → Bool} (hP : ∀ j c t, At s j (c :: t) → P j = p c) :
    At s (seek P i s.length) (rest.dropWhile fun c => !p c) := by
  induction rest generalizing i with
  | nil =>
      have hlen := h.length
      rw [List.length_nil] at hlen
      rw [seek_of_lt P (by omega), ← hlen]
      exact h
  | cons c rest ih =>
      rw [seek_of_le P (h.le_iff.mpr (List.cons_ne_nil _ _)), hP i c rest h]
      cases hc : p c with
      | true => simpa [hc] using h
      | false => simpa [hc] using ih h.tail

end Scan
