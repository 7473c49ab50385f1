import GafqEngine.CLib.Text

/-!
# Sockets

What the program relies on of the kernel. A connection has an identity of its
own, since its descriptor number can be given out again. A `Peer` is the far end
of a connection as `read` sees it. The answers of `read` and `send` are choices
of the environment, within what the peer allows.
-/

namespace GafqEngine

open CLib

abbrev ConnId := ℕ

/-- What `send` does with its buffer: it takes at most `n` bytes, or fails. -/
inductive SendOutcome where
  | takes (n : ℕ)
  | fails

/-- How `read` answers: with at most `n` bytes, or with a failure. -/
inductive ReadChoice where
  | upTo (n : ℕ)
  | fails

/-- The bytes that `read` stored; `none` stands for the result `-1`. -/
abbrev ReadResult := Option Bytes

namespace ReadResult

def count : ReadResult → ℤ
  | none => -1
  | some bytes => bytes.length

def stored : ReadResult → Bytes
  | none => []
  | some bytes => bytes

theorem count_pos_iff (r : ReadResult) : 0 < r.count ↔ r.stored ≠ [] := by
  cases r with
  | none => simp [count, stored]
  | some bytes => simp [count, stored, List.length_pos_iff]

end ReadResult

/-- The far end of a connection: the bytes that arrived and were not read yet,
whether no more will follow, and whether the connection was reset. -/
structure Peer where
  unread : Bytes
  eof : Bool
  reset : Bool

namespace Peer

/-- `read(fd, buf, count)`: at least one of the bytes that are there and at most
`count`, the end of the stream, or a failure. While there is nothing to read the
call does not return. -/
def read (p : Peer) (count : ℕ) : ReadChoice → Option (ReadResult × Peer)
  | .fails => some (none, p)
  | .upTo n =>
      if p.unread = [] then
        if p.eof then some (some [], p) else none
      else
        let k := min (max 1 n) count
        some (some (p.unread.take k), { p with unread := p.unread.drop k })

/-- A `read` removes what it stores from the front of the stream. -/
theorem read_eq_some {p p' : Peer} {count : ℕ} {choice : ReadChoice} {r : ReadResult}
    (h : p.read count choice = some (r, p')) :
    p.unread = r.stored ++ p'.unread ∧ r.stored.length ≤ count ∧
      p'.eof = p.eof ∧ p'.reset = p.reset := by
  cases choice with
  | fails =>
      obtain ⟨rfl, rfl⟩ := Prod.mk.inj (Option.some.inj h)
      exact ⟨rfl, Nat.zero_le _, rfl, rfl⟩
  | upTo n =>
      by_cases hnil : p.unread = []
      · simp only [read, hnil, if_true, Option.ite_none_right_eq_some, Option.some.injEq,
          Prod.mk.injEq] at h
        obtain ⟨-, rfl, rfl⟩ := h
        exact ⟨rfl, Nat.zero_le _, rfl, rfl⟩
      · simp only [read, hnil, if_false, Option.some.injEq, Prod.mk.injEq] at h
        obtain ⟨rfl, rfl⟩ := h
        refine ⟨(List.take_append_drop _ _).symm, ?_, rfl, rfl⟩
        simp only [ReadResult.stored, List.length_take]
        omega

theorem read_append {p : Peer} {xs ys : Bytes} {count : ℕ} (hunread : p.unread = xs ++ ys)
    (hxs : xs ≠ []) (hcount : xs.length ≤ count) :
    p.read count (.upTo xs.length) = some (some xs, { p with unread := ys }) := by
  have hne : xs ++ ys ≠ [] := List.append_ne_nil_of_left_ne_nil hxs ys
  have hpos : 0 < xs.length := List.length_pos_iff.mpr hxs
  have hmin : min (max 1 xs.length) count = xs.length := by omega
  simp only [read, hunread, if_neg hne, hmin, List.take_left', List.drop_left']

end Peer

end GafqEngine
