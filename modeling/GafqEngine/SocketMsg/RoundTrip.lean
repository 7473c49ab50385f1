import GafqEngine.SocketMsg.ReadLoop

/-!
# Round trip of the messages

What the senders put on the wire for a list of byte strings, and what a reader
accepts of it when the stream is cut off anywhere: the strings whose frames are
whole, each up to the largest body length. A header that is rejected ends the
loop, so nothing behind it is accepted.
-/

namespace GafqEngine

open CLib SocketMsg

/-- The bytes that go out for the strings, each sent in a message of its own. -/
def sendAll (sent : List (SocketMsg × Bytes)) : Bytes :=
  sent.flatMap fun p => (p.1.fill p.2.length p.2).wire

def bodiesOf (sent : List (SocketMsg × Bytes)) : List Bytes :=
  sent.map fun p => p.2.take maxBodyLength

theorem sendAll_eq_frames (sent : List (SocketMsg × Bytes)) :
    sendAll sent = socketCodec.frames (bodiesOf sent) := by
  rw [sendAll, bodiesOf, Framing.Codec.frames, List.flatMap_map]
  congr 1
  funext p
  rw [p.1.wire_fill le_rfl, Nat.min_comm, ← List.take_take, List.take_length]

theorem length_le_of_mem_bodiesOf {sent : List (SocketMsg × Bytes)} :
    ∀ b ∈ bodiesOf sent, b.length ≤ maxBodyLength := by
  intro b hb
  obtain ⟨p, -, rfl⟩ := List.mem_map.mp hb
  exact List.length_take_le _ _

namespace ReadLoop

/-- What a reader accepts of frames with something behind them that gives no body. -/
theorem readToEnd_take (r : Reader) (m : SocketMsg) (sent : List (SocketMsg × Bytes))
    {tail : Bytes} (htail : ∀ n, (socketCodec.decode (tail.take n)).1 = []) (cut : ℕ) :
    ((start m).readToEnd r ((sendAll sent ++ tail).take cut)).accepted =
      socketCodec.whole cut (bodiesOf sent) := by
  rw [(readToEnd_accepted r _ _).2, readStream_accepted r rfl, sendAll_eq_frames,
    socketCodec.decode_take_frames_append length_le_of_mem_bodiesOf htail]
  rfl

/-- A reader of either class accepts, of a stream that is cut off anywhere, the
strings whose frames lie before the cut; and nothing from a position on where the
header denotes no body length. -/
theorem readToEnd_accepted_eq_whole (r : Reader) (m : SocketMsg)
    (sent : List (SocketMsg × Bytes)) :
    (∀ cut, ((start m).readToEnd r ((sendAll sent).take cut)).accepted =
        socketCodec.whole cut (bodiesOf sent)) ∧
      ∀ header rest : Bytes, header.length = headerLength →
        headerNumber header < 0 ∨ (maxBodyLength : ℤ) < headerNumber header →
        ∀ cut, ((start m).readToEnd r ((sendAll sent ++ (header ++ rest)).take cut)).accepted =
          socketCodec.whole cut (bodiesOf sent) := by
  constructor
  · intro cut
    have hnil : ∀ n, (socketCodec.decode (([] : Bytes).take n)).1 = [] := fun n => by
      rw [List.take_nil, socketCodec.decode_nil]
    have htake := readToEnd_take r m sent hnil cut
    rwa [List.append_nil] at htake
  · intro header rest hlen hrange cut
    have hparse : parseHeader header = none := parseHeader_eq_none_iff.mpr hrange
    exact readToEnd_take r m sent (socketCodec.decode_take_rejected hlen hparse rest) cut

theorem readToEnd_accepted_eq_whole_two :
    ((start default).readToEnd chatClient
      ((sendAll [(default, ascii "a"), (default, ascii "bb")] ++
        (ascii "  -1" ++ ascii "c")).take 15)).accepted =
      socketCodec.whole 15 (bodiesOf [(default, ascii "a"), (default, ascii "bb")]) :=
  (readToEnd_accepted_eq_whole chatClient default
    [(default, ascii "a"), (default, ascii "bb")]).2 (ascii "  -1") (ascii "c") rfl
    (Or.inl (by decide)) 15

end ReadLoop

end GafqEngine
