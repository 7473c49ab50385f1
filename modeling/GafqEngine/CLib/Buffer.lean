import Mathlib.Data.List.Basic

/-!
# Writing into a fixed buffer

`overwrite mem off xs` is the buffer `mem` after the elements `xs` were written
from offset `off` on. The buffer keeps its length: elements that fall past its
end are not part of it.
-/

namespace CLib

variable {α : Type*}

/-- The buffer `mem` with `xs` written from offset `off` on. -/
def overwrite (mem : List α) (off : ℕ) (xs : List α) : List α :=
  (mem.take off ++ (xs ++ mem.drop (off + xs.length))).take mem.length

@[simp] theorem length_overwrite (mem : List α) (off : ℕ) (xs : List α) :
    (overwrite mem off xs).length = mem.length := by
  simp only [overwrite, List.length_take, List.length_append, List.length_drop]
  omega

/-- A write that fits replaces the stretch it covers. -/
theorem overwrite_append (as bs cs xs : List α) (h : xs.length = bs.length) :
    overwrite (as ++ (bs ++ cs)) as.length xs = as ++ (xs ++ cs) := by
  have hdrop : (as ++ (bs ++ cs)).drop (as.length + xs.length) = cs := by
    rw [h, ← List.length_append, ← List.append_assoc, List.drop_left]
  rw [overwrite, List.take_left, hdrop]
  exact List.take_of_length_le (by simp [h])

theorem take_drop_overwrite (mem : List α) (off : ℕ) (xs : List α)
    (h : off + xs.length ≤ mem.length) :
    ((overwrite mem off xs).drop off).take xs.length = xs := by
  have hoff : (mem.take off).length = off := by simp; omega
  rw [overwrite, List.drop_take, List.take_take, List.drop_left' hoff,
    Nat.min_eq_left (by omega)]
  exact List.take_left' rfl

theorem drop_overwrite (mem : List α) (off : ℕ) (xs : List α)
    (h : off + xs.length ≤ mem.length) :
    (overwrite mem off xs).drop (off + xs.length) = mem.drop (off + xs.length) := by
  have hoff : (mem.take off).length = off := by simp; omega
  rw [overwrite, List.drop_take, ← List.drop_drop, List.drop_left' hoff, List.drop_left' rfl]
  exact List.take_of_length_le (by simp)

/-- A write at the start that fits, and what stands behind it. -/
theorem overwrite_zero (mem xs : List α) (h : xs.length ≤ mem.length) :
    overwrite mem 0 xs = xs ++ mem.drop xs.length := by
  rw [overwrite, List.take_zero, List.nil_append, Nat.zero_add]
  exact List.take_of_length_le (by simp [h])

/-- A write right behind one at the start continues it. -/
theorem overwrite_overwrite_append (mem as bs : List α) (h : (as ++ bs).length ≤ mem.length) :
    overwrite (overwrite mem 0 as) as.length bs = overwrite mem 0 (as ++ bs) := by
  have hlen : as.length + bs.length ≤ mem.length := by rwa [← List.length_append]
  have hsplit : mem.drop as.length =
      (mem.drop as.length).take bs.length ++ mem.drop (as ++ bs).length := by
    rw [List.length_append, ← List.drop_drop, List.take_append_drop]
  have hbs : bs.length = ((mem.drop as.length).take bs.length).length := by
    rw [List.length_take, List.length_drop]
    omega
  rw [overwrite_zero mem as (by omega), overwrite_zero mem _ h, hsplit,
    overwrite_append _ _ _ _ hbs, List.append_assoc]

/-- A write is a write at the start of what begins at its offset. -/
theorem drop_overwrite_offset {mem : List α} {off : ℕ} (h : off ≤ mem.length) (xs : List α) :
    (overwrite mem off xs).drop off = overwrite (mem.drop off) 0 xs := by
  have hoff : (mem.take off).length = off := by rw [List.length_take, Nat.min_eq_left h]
  rw [overwrite, overwrite, List.drop_take, List.drop_left' hoff, List.length_drop,
    List.take_zero, List.nil_append, Nat.zero_add, List.drop_drop]

theorem overwrite_replicate (n : ℕ) (a : α) (xs : List α) (h : xs.length ≤ n) :
    overwrite (List.replicate n a) 0 xs = xs ++ List.replicate (n - xs.length) a := by
  have hsplit : List.replicate n a =
      [] ++ (List.replicate xs.length a ++ List.replicate (n - xs.length) a) := by
    rw [List.nil_append, List.replicate_append_replicate, Nat.add_sub_cancel' h]
  rw [hsplit]
  exact overwrite_append [] _ _ _ (by simp)

end CLib
