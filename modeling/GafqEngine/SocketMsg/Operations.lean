import GafqEngine.SocketMsg.Basic
import Mathlib.Data.List.Induction

/-!
# Any use of a message

Every operation leaves a length of at most `maxBodyLength`, so after any sequence
of them the message is well formed: its length fits the array, the text of
`sprintf` fits the header, and `encode_header` and `decode_header` touch nothing
but the header and the length.
-/

namespace GafqEngine

open CLib

namespace SocketMsg

/-- The constructor, on memory with any bytes in it. -/
def construct (memory : SocketMsg) : SocketMsg := { memory with bodyLength := 0 }

/-- The operations of the class, and writes through `data()` and `body()`. -/
inductive Operation where
  | setBodyLength (newLength : ℕ)
  | deleteMsg
  | decodeHeader
  | encodeHeader
  | write (off : ℕ) (bytes : Bytes)

def apply (m : SocketMsg) : Operation → SocketMsg
  | .setBodyLength newLength => m.setBodyLength newLength
  | .deleteMsg => m.deleteMsg
  | .decodeHeader => m.decodeHeader.2
  | .encodeHeader => m.encodeHeader
  | .write off bytes => m.write off bytes

def applyAll (m : SocketMsg) (ops : List Operation) : SocketMsg := ops.foldl apply m

/-- What `encode_header` does: the text of `sprintf` is four characters and the
NUL, the array keeps its other bytes, and the length stays. -/
structure EncodesHeader (m : SocketMsg) : Prop where
  text : (sprintfWidth 4 (castInt m.bodyLength)).length = headerLength
  nulFree : NulFree (sprintfWidth 4 (castInt m.bodyLength))
  header : m.encodeHeader.data.take headerLength = sprintfWidth 4 (castInt m.bodyLength)
  rest : m.encodeHeader.data.drop headerLength = m.data.drop headerLength
  bodyLength : m.encodeHeader.bodyLength = m.bodyLength

/-- What `decode_header` does: the array stays, and the length is the number of
the header if that is a body length, and zero otherwise. -/
structure DecodesHeader (m : SocketMsg) : Prop where
  data : m.decodeHeader.2.data = m.data
  accepts : m.decodeHeader.1 = true ↔
    0 ≤ headerNumber m.data ∧ headerNumber m.data ≤ maxBodyLength
  bodyLength : m.decodeHeader.1 = true → (m.decodeHeader.2.bodyLength : ℤ) = headerNumber m.data
  rejected : m.decodeHeader.1 = false → m.decodeHeader.2.bodyLength = 0

/-- A message whose length fits, and on which the header operations do no more
than they should. -/
structure WellFormed (m : SocketMsg) : Prop where
  bodyLength : m.bodyLength ≤ maxBodyLength
  length : m.length ≤ headerLength + maxBodyLength
  encodes : EncodesHeader m
  decodes : DecodesHeader m

theorem apply_bodyLength_le {m : SocketMsg} (h : m.bodyLength ≤ maxBodyLength) (op : Operation) :
    (m.apply op).bodyLength ≤ maxBodyLength := by
  cases op with
  | setBodyLength newLength =>
      rw [apply, setBodyLength_bodyLength]
      exact Nat.min_le_right _ _
  | deleteMsg => exact Nat.zero_le _
  | decodeHeader =>
      rw [apply]
      cases hparse : parseHeader m.data with
      | none =>
          rw [decodeHeader_of_none hparse]
          exact Nat.zero_le _
      | some n =>
          rw [decodeHeader_of_some hparse]
          exact parseHeader_le hparse
  | encodeHeader => exact h
  | write off bytes => exact h

theorem applyAll_bodyLength_le (memory : SocketMsg) (ops : List Operation) :
    ((construct memory).applyAll ops).bodyLength ≤ maxBodyLength :=
  List.foldlRecOn (motive := fun m => m.bodyLength ≤ maxBodyLength) ops apply (Nat.zero_le _)
    fun _ h op _ => apply_bodyLength_le h op

theorem encodesHeader_of_le {m : SocketMsg} (h : m.bodyLength ≤ maxBodyLength) :
    EncodesHeader m := by
  have hcast := castInt_bodyLength h
  refine ⟨?_, nulFree_sprintfWidth 4 _, ?_, drop_encodeHeader_data h, rfl⟩
  · rw [hcast, length_sprintfWidth_four h]
  · rw [hcast, take_encodeHeader_data h]

theorem decodesHeader (m : SocketMsg) : DecodesHeader m := by
  cases hparse : parseHeader m.data with
  | none =>
      have hrange := parseHeader_eq_none_iff.mp hparse
      have hdecode := decodeHeader_of_none hparse
      have hnot : ¬ (0 ≤ headerNumber m.data ∧ headerNumber m.data ≤ maxBodyLength) := by omega
      refine ⟨by rw [hdecode], ?_, ?_, ?_⟩
      · rw [hdecode]
        exact iff_of_false Bool.false_ne_true hnot
      · intro htrue
        rw [hdecode] at htrue
        cases htrue
      · intro _
        rw [hdecode]
  | some n =>
      obtain ⟨hn, hle⟩ := parseHeader_eq_some_iff.mp hparse
      have hdecode := decodeHeader_of_some hparse
      refine ⟨by rw [hdecode], ?_, ?_, ?_⟩
      · rw [hdecode]
        exact iff_of_true rfl ⟨by omega, by omega⟩
      · intro _
        rw [hdecode]
        exact hn.symm
      · intro hfalse
        rw [hdecode] at hfalse
        cases hfalse

/-- After any sequence of operations on a new message it is well formed. -/
theorem wellFormed_applyAll (memory : SocketMsg) (ops : List Operation) :
    WellFormed ((construct memory).applyAll ops) := by
  have hle := applyAll_bodyLength_le memory ops
  exact ⟨hle, Nat.add_le_add_left hle _, encodesHeader_of_le hle, decodesHeader _⟩

end SocketMsg

end GafqEngine
