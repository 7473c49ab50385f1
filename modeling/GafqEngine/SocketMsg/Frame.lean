import GafqEngine.Framing.Codec
import GafqEngine.SocketMsg.Basic

/-!
# Frames on the wire

Both senders of the program build a message the same way: the body length is set
from `strlen`, that many bytes are copied into the body, and the header is
encoded (`pack`). What goes out are the first `length()` bytes of the array
(`wire`). `socketCodec` is the framing these bytes follow, and `wire_pack` says
that a packed message is one frame of it, whatever the array held before.
-/

namespace GafqEngine

open CLib

namespace SocketMsg

/-- The message that the senders build from the C string at `text`. -/
def pack (m : SocketMsg) (text : Bytes) : SocketMsg :=
  let m := m.setBodyLength (cstr text).length
  let m := m.write headerLength (text.take m.bodyLength)
  m.encodeHeader

/-- The message built from `n` bytes at `source`: the length is set, that many bytes
are copied, and the header is encoded. -/
def fill (m : SocketMsg) (n : ℕ) (source : Bytes) : SocketMsg :=
  let m := m.setBodyLength n
  let m := m.write headerLength (source.take m.bodyLength)
  m.encodeHeader

/-- The bytes `data()[0 .. length())`. -/
def wire (m : SocketMsg) : Bytes := m.data.take m.length

end SocketMsg

open SocketMsg

/-- The framing of `socket_msg`: the length as `%4d`, at most `maxBodyLength`. -/
def socketCodec : Framing.Codec UInt8 where
  width := headerLength
  limit := maxBodyLength
  header n := sprintfWidth 4 n
  parse := parseHeader
  width_pos := by decide
  length_header n h :=
    length_sprintfWidth (by decide) (lt_of_le_of_lt h (by decide))
  parse_header n h := parseHeader_sprintfWidth h

@[simp] theorem socketCodec_width : socketCodec.width = headerLength := rfl

@[simp] theorem socketCodec_header (n : ℕ) : socketCodec.header n = sprintfWidth 4 n := rfl

namespace SocketMsg

theorem pack_eq_fill (m : SocketMsg) (text : Bytes) :
    m.pack text = m.fill (cstr text).length text := rfl

theorem take_cstr (text : Bytes) (n : ℕ) :
    text.take (min (cstr text).length n) = (cstr text).take n := by
  have hsplit : cstr text ++ text.dropWhile (· ≠ 0) = text := List.takeWhile_append_dropWhile
  conv_lhs => arg 2; rw [← hsplit]
  rw [List.take_append_of_le_length (Nat.min_le_left _ _), Nat.min_comm,
    ← List.take_take, List.take_length]

theorem setBodyLength_bodyLength_le (m : SocketMsg) (n : ℕ) :
    (m.setBodyLength n).bodyLength ≤ maxBodyLength := by
  rw [setBodyLength_bodyLength]
  exact Nat.min_le_right _ _

/-- A message that was filled goes out as one frame, whatever the array held. -/
theorem wire_fill (m : SocketMsg) {n : ℕ} {source : Bytes} (hn : n ≤ source.length) :
    (m.fill n source).wire = socketCodec.frame (source.take (min n maxBodyLength)) := by
  have hlen : (source.take (min n maxBodyLength)).length = (m.setBodyLength n).bodyLength := by
    rw [setBodyLength_bodyLength, List.length_take]
    omega
  have hbytes : source.take (m.setBodyLength n).bodyLength = source.take (min n maxBodyLength) := by
    rw [setBodyLength_bodyLength]
  have hle : (source.take (min n maxBodyLength)).length ≤ maxBodyLength :=
    hlen.trans_le (setBodyLength_bodyLength_le m n)
  generalize source.take (min n maxBodyLength) = body at *
  obtain ⟨h, b, r, hdata, hh, hbl⟩ : ∃ h b r : Bytes, m.data = h ++ (b ++ r) ∧
      h.length = headerLength ∧ b.length = body.length := by
    have hsize := m.length_data
    refine ⟨m.data.take headerLength, (m.data.drop headerLength).take body.length,
      (m.data.drop headerLength).drop body.length, ?_, ?_, ?_⟩
    · rw [List.take_append_drop, List.take_append_drop]
    · rw [List.length_take]
      omega
    · rw [List.length_take, List.length_drop]
      omega
  have hbody : overwrite m.data headerLength body = h ++ (body ++ r) := by
    rw [hdata, ← hh]
    exact overwrite_append h b r body hbl.symm
  have hheader : (sprintfWidth 4 (body.length : ℤ)).length = h.length := by
    rw [hh]
    exact socketCodec.length_header _ hle
  have hwire : overwrite (h ++ (body ++ r)) 0 (sprintfWidth 4 body.length) =
      sprintfWidth 4 body.length ++ (body ++ r) :=
    overwrite_append [] h (body ++ r) _ hheader
  simp only [wire, fill, hbytes, SocketMsg.length]
  rw [encodeHeader_data (by rw [write_bodyLength, ← hlen]; exact hle)]
  simp only [encodeHeader_bodyLength, write_bodyLength, write_data, setBodyLength_data, ← hlen,
    hbody, hwire]
  rw [← List.append_assoc, ← hh, ← hheader, ← List.length_append, List.take_left' rfl,
    Framing.Codec.frame, socketCodec_header]

/-- A packed message goes out as one frame, cut at the largest body length. -/
theorem wire_pack (m : SocketMsg) (text : Bytes) :
    (m.pack text).wire = socketCodec.frame ((cstr text).take maxBodyLength) := by
  have hlen : (cstr text).length ≤ text.length := (List.takeWhile_sublist _).length_le
  rw [pack_eq_fill, wire_fill m hlen, take_cstr]

theorem wire_pack_of_nulFree (m : SocketMsg) {text : Bytes} (h : NulFree text)
    (hlen : text.length ≤ maxBodyLength) (rest : Bytes) :
    (m.pack (text ++ 0 :: rest)).wire = socketCodec.frame text := by
  rw [wire_pack, cstr_append h, cstr_zero_cons, List.append_nil, List.take_of_length_le hlen]

/-- The receiving side: four bytes are stored, the header is decoded, and the
announced number of bytes is stored behind it. -/
def receive (m : SocketMsg) (bytes : Bytes) : Bool × SocketMsg :=
  let r := (m.write 0 (bytes.take headerLength)).decodeHeader
  (r.1, r.2.write headerLength ((bytes.drop headerLength).take r.2.bodyLength))

theorem parseHeader_write (m : SocketMsg) {header : Bytes} (h : header.length = headerLength) :
    parseHeader (m.write 0 header).data = parseHeader header := by
  have hfit : 0 + header.length ≤ m.data.length := by
    rw [m.length_data]
    omega
  have htake := take_drop_overwrite m.data 0 header hfit
  rw [List.drop_zero, h] at htake
  rw [write_data, ← parseHeader_take, htake]

theorem body_write (m : SocketMsg) {body : Bytes} (h : body.length ≤ maxBodyLength) :
    (m.write headerLength body).body.take body.length = body := by
  have hfit : headerLength + body.length ≤ m.data.length := by
    rw [m.length_data]
    omega
  exact take_drop_overwrite m.data headerLength body hfit

/-- A frame is received as its body, whatever the receiver's array held. -/
theorem receive_frame (m : SocketMsg) {body : Bytes} (h : body.length ≤ maxBodyLength) :
    (m.receive (socketCodec.frame body)).1 = true ∧
      (m.receive (socketCodec.frame body)).2.body.take
        (m.receive (socketCodec.frame body)).2.bodyLength = body := by
  have hframe := socketCodec.take_frame_append h []
  have hrest := socketCodec.drop_frame_append h []
  simp only [List.append_nil, socketCodec_width, socketCodec_header] at hframe hrest
  have hheader : (sprintfWidth 4 (body.length : ℤ)).length = headerLength :=
    socketCodec.length_header _ h
  have hparse : parseHeader (m.write 0 (sprintfWidth 4 body.length)).data = some body.length := by
    rw [parseHeader_write m hheader, parseHeader_sprintfWidth h]
  simp only [receive, hframe, hrest, decodeHeader_of_some hparse, List.take_length, true_and,
    write_bodyLength]
  exact body_write _ h

end SocketMsg

end GafqEngine
