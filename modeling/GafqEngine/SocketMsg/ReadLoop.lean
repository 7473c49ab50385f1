import GafqEngine.SocketMsg.Frame

/-!
# The asynchronous read loop

`chat_client` and `socket_session` read alike: a header of four bytes, then as
many bytes of body as it announces, then the next header. They differ in what
they print for a body and in whether a failure closes the socket, so the loop is
written once over a `Reader` and the two classes are its instances.

`readStream` runs the loop on the bytes of a stream, each `async_read` taking
exactly the bytes it asked for, until too few are left. `readStream_accepted`
says that the bodies it accepts are the ones the codec decodes.
-/

namespace GafqEngine

open CLib SocketMsg

/-- What a class of readers does at a body and at a failure. -/
structure Reader where
  report : SocketMsg → Bytes
  closesOnError : Bool

/-- `chat_client` writes `body_length()` bytes from `body()`. -/
def chatClient : Reader where
  report m := m.body.take m.bodyLength
  closesOnError := true

/-- `socket_session` prints `data()` as a C string. One that has no end in the array
runs on into the memory behind it, where the body length is kept: `behind n` for a
message of length `n`. -/
def socketSession (behind : ℕ → Bytes) : Reader where
  report m := cstr (m.data ++ behind m.bodyLength)
  closesOnError := false

/-- The outstanding `async_read`, named by its completion handler. -/
inductive ReadOp where
  | handleReadHeader
  | handleReadBody
  deriving DecidableEq, Repr

/-- The state of a read loop: `read_msg_`, the outstanding read, what was
printed, the bodies it was printed for, and whether `do_close` ran. -/
structure ReadLoop where
  readMsg : SocketMsg
  pending : Option ReadOp
  printed : List Bytes
  accepted : List Bytes
  closed : Bool

namespace ReadLoop

def start (m : SocketMsg) : ReadLoop where
  readMsg := m
  pending := some .handleReadHeader
  printed := []
  accepted := []
  closed := false

/-- The failing branch of the handlers. -/
def fail (r : Reader) (s : ReadLoop) : ReadLoop :=
  { s with pending := none, closed := s.closed || r.closesOnError }

def handleReadHeader (r : Reader) (s : ReadLoop) (error : Bool) : ReadLoop :=
  if error then s.fail r
  else
    let d := s.readMsg.decodeHeader
    if d.1 then { s with readMsg := d.2, pending := some .handleReadBody }
    else { s with readMsg := d.2 }.fail r

def handleReadBody (r : Reader) (s : ReadLoop) (error : Bool) : ReadLoop :=
  if error then s.fail r
  else
    { s with
      pending := some .handleReadHeader
      printed := s.printed ++ [r.report s.readMsg]
      accepted := s.accepted ++ [s.readMsg.body.take s.readMsg.bodyLength] }

def receiveHeader (r : Reader) (s : ReadLoop) (bytes : Bytes) : ReadLoop :=
  { s with readMsg := s.readMsg.write 0 bytes }.handleReadHeader r false

def receiveBody (r : Reader) (s : ReadLoop) (bytes : Bytes) : ReadLoop :=
  { s with readMsg := s.readMsg.write headerLength bytes }.handleReadBody r false

@[simp] theorem receiveBody_pending (r : Reader) (s : ReadLoop) (bytes : Bytes) :
    (s.receiveBody r bytes).pending = some .handleReadHeader := rfl

/-- A body may be empty, so the loop also counts the body read it still owes. -/
def owed (s : ReadLoop) : ℕ := if s.pending = some .handleReadBody then 1 else 0

theorem owed_le_one (s : ReadLoop) : s.owed ≤ 1 := by
  unfold owed
  split <;> omega

/-- The loop on a stream, until the outstanding read asks for more than is left. -/
def readStream (r : Reader) (s : ReadLoop) (stream : Bytes) : ReadLoop × Bytes :=
  match _hp : s.pending with
  | none => (s, stream)
  | some .handleReadHeader =>
      if _h : headerLength ≤ stream.length then
        readStream r (s.receiveHeader r (stream.take headerLength)) (stream.drop headerLength)
      else (s, stream)
  | some .handleReadBody =>
      if _h : s.readMsg.bodyLength ≤ stream.length then
        readStream r (s.receiveBody r (stream.take s.readMsg.bodyLength))
          (stream.drop s.readMsg.bodyLength)
      else (s, stream)
termination_by 2 * stream.length + s.owed
decreasing_by
  · have howed := owed_le_one (s.receiveHeader r (stream.take headerLength))
    simp only [List.length_drop, headerLength] at *
    omega
  · have howed : s.owed = 1 := if_pos _hp
    have howed' : (s.receiveBody r (stream.take s.readMsg.bodyLength)).owed = 0 := rfl
    simp only [List.length_drop]
    omega

/-- The loop on a stream that ends there: the outstanding read is given an error. -/
def readToEnd (r : Reader) (s : ReadLoop) (stream : Bytes) : ReadLoop :=
  let s := (s.readStream r stream).1
  match s.pending with
  | none => s
  | some .handleReadHeader => s.handleReadHeader r true
  | some .handleReadBody => s.handleReadBody r true

/-- An error ends the loop, and no body is accepted for it. -/
theorem readToEnd_accepted (r : Reader) (s : ReadLoop) (stream : Bytes) :
    (s.readToEnd r stream).pending = none ∧
      (s.readToEnd r stream).accepted = (s.readStream r stream).1.accepted := by
  simp only [readToEnd]
  cases hp : (s.readStream r stream).1.pending with
  | none => exact ⟨hp, rfl⟩
  | some op =>
      cases op with
      | handleReadHeader => exact ⟨rfl, rfl⟩
      | handleReadBody => exact ⟨rfl, rfl⟩

theorem readStream_none (r : Reader) {s : ReadLoop} (h : s.pending = none) (stream : Bytes) :
    s.readStream r stream = (s, stream) := by
  rw [readStream]
  split <;> simp_all

theorem readStream_header_short (r : Reader) {s : ReadLoop} {stream : Bytes}
    (h : s.pending = some .handleReadHeader) (hlen : stream.length < headerLength) :
    s.readStream r stream = (s, stream) := by
  rw [readStream]
  split <;> simp_all

theorem readStream_header (r : Reader) {s : ReadLoop} {stream : Bytes}
    (h : s.pending = some .handleReadHeader) (hlen : headerLength ≤ stream.length) :
    s.readStream r stream =
      (s.receiveHeader r (stream.take headerLength)).readStream r (stream.drop headerLength) := by
  rw [readStream]
  split <;> simp_all

theorem readStream_body_short (r : Reader) {s : ReadLoop} {stream : Bytes}
    (h : s.pending = some .handleReadBody) (hlen : stream.length < s.readMsg.bodyLength) :
    s.readStream r stream = (s, stream) := by
  rw [readStream]
  split <;> simp_all

theorem readStream_body (r : Reader) {s : ReadLoop} {stream : Bytes}
    (h : s.pending = some .handleReadBody) (hlen : s.readMsg.bodyLength ≤ stream.length) :
    s.readStream r stream =
      (s.receiveBody r (stream.take s.readMsg.bodyLength)).readStream r
        (stream.drop s.readMsg.bodyLength) := by
  rw [readStream]
  split <;> simp_all

theorem receiveHeader_of_some (r : Reader) (s : ReadLoop) {bytes : Bytes} {n : ℕ}
    (hlen : bytes.length = headerLength) (h : parseHeader bytes = some n) :
    s.receiveHeader r bytes =
      { s with
        readMsg := { s.readMsg.write 0 bytes with bodyLength := n }
        pending := some .handleReadBody } := by
  have hparse : parseHeader (s.readMsg.write 0 bytes).data = some n := by
    rw [parseHeader_write s.readMsg hlen, h]
  simp [receiveHeader, handleReadHeader, decodeHeader_of_some hparse]

theorem receiveHeader_of_none (r : Reader) (s : ReadLoop) {bytes : Bytes}
    (hlen : bytes.length = headerLength) (h : parseHeader bytes = none) :
    (s.receiveHeader r bytes).pending = none ∧
      (s.receiveHeader r bytes).accepted = s.accepted := by
  have hparse : parseHeader (s.readMsg.write 0 bytes).data = none := by
    rw [parseHeader_write s.readMsg hlen, h]
  simp [receiveHeader, handleReadHeader, decodeHeader_of_none hparse, fail]

theorem receiveBody_accepted (r : Reader) {s : ReadLoop} {bytes : Bytes}
    (hlen : bytes.length = s.readMsg.bodyLength) (hle : bytes.length ≤ maxBodyLength) :
    (s.receiveBody r bytes).accepted = s.accepted ++ [bytes] := by
  have hbody := body_write s.readMsg hle
  simp [receiveBody, handleReadBody, ← hlen, hbody]

/-- The bodies that the loop accepts are the frames that the codec decodes. -/
theorem readStream_accepted (r : Reader) {s : ReadLoop}
    (h : s.pending = some .handleReadHeader) (stream : Bytes) :
    (s.readStream r stream).1.accepted = s.accepted ++ (socketCodec.decode stream).1 := by
  induction hn : stream.length using Nat.strongRecOn generalizing s stream with
  | ind n ih =>
      by_cases hlen : headerLength ≤ stream.length
      · have htake : (stream.take headerLength).length = headerLength := by
          rw [List.length_take, Nat.min_eq_left hlen]
        rw [readStream_header r h hlen]
        cases hparse : parseHeader (stream.take headerLength) with
        | none =>
            obtain ⟨hp, ha⟩ := receiveHeader_of_none r s htake hparse
            rw [readStream_none r hp, socketCodec.decode_of_rejected hlen hparse, ha,
              List.append_nil]
        | some k =>
            rw [receiveHeader_of_some r s htake hparse]
            have hk : k ≤ maxBodyLength := parseHeader_le hparse
            by_cases hbody : k ≤ (stream.drop headerLength).length
            · have hbytes : ((stream.drop headerLength).take k).length = k := by
                rw [List.length_take, Nat.min_eq_left hbody]
              have hlt : ((stream.drop headerLength).drop k).length < n := by
                rw [List.length_drop, List.length_drop, ← hn]
                simp only [headerLength] at hlen ⊢
                omega
              rw [readStream_body r rfl hbody, ih _ hlt (receiveBody_pending r _ _) _ rfl,
                receiveBody_accepted r hbytes (hbytes.trans_le hk),
                socketCodec.decode_of_parse hlen hparse hbody, List.drop_drop]
              simp
            · have hbody' : (stream.drop headerLength).length < k := Nat.not_le.mp hbody
              rw [readStream_body_short r rfl hbody',
                socketCodec.decode_of_incomplete hlen hparse hbody']
              simp
      · have hlen' : stream.length < headerLength := Nat.not_le.mp hlen
        rw [readStream_header_short r h hlen', socketCodec.decode_of_short hlen']
        simp

def readFrame (r : Reader) (s : ReadLoop) (body : Bytes) : ReadLoop :=
  (s.receiveHeader r (socketCodec.header body.length)).receiveBody r body

theorem readFrame_eq (r : Reader) (s : ReadLoop) {body : Bytes}
    (hbody : body.length ≤ maxBodyLength) :
    s.readFrame r body =
      { s with
        readMsg := { s.readMsg.write 0 (socketCodec.header body.length) with
          bodyLength := body.length }
        pending := some .handleReadBody }.receiveBody r body := by
  rw [readFrame, receiveHeader_of_some r s (socketCodec.length_header _ hbody)
    (socketCodec.parse_header _ hbody)]

/-- A frame at the front of the stream is read first. -/
theorem readStream_frame_append (r : Reader) {s : ReadLoop}
    (h : s.pending = some .handleReadHeader) {b : Bytes} (hb : b.length ≤ maxBodyLength)
    (stream : Bytes) :
    s.readStream r (socketCodec.frame b ++ stream) = (s.readFrame r b).readStream r stream := by
  have hheader := socketCodec.take_frame_append hb stream
  have hrest := socketCodec.drop_frame_append hb stream
  have hlen := socketCodec.length_frame hb
  have hparse : parseHeader (socketCodec.header b.length) = some b.length :=
    socketCodec.parse_header _ hb
  simp only [socketCodec_width] at hheader hrest hlen
  have hfit : headerLength ≤ (socketCodec.frame b ++ stream).length := by
    rw [List.length_append, hlen]
    omega
  rw [readFrame_eq r s hb, readStream_header r h hfit, hheader, hrest,
    receiveHeader_of_some r s (socketCodec.length_header _ hb) hparse,
    readStream_body r rfl (by simp)]
  simp only [List.take_left' rfl, List.drop_left' rfl]

/-- After a stream of whole frames the loop waits for the next header, with
nothing left over. -/
theorem readStream_frames (r : Reader) {s : ReadLoop} (h : s.pending = some .handleReadHeader)
    (bodies : List Bytes) (hle : ∀ b ∈ bodies, b.length ≤ maxBodyLength) :
    (s.readStream r (socketCodec.frames bodies)).1.pending = some .handleReadHeader ∧
      (s.readStream r (socketCodec.frames bodies)).1.closed = s.closed ∧
      (s.readStream r (socketCodec.frames bodies)).2 = [] := by
  induction bodies generalizing s with
  | nil =>
      rw [socketCodec.frames_nil, readStream_header_short r h (by decide)]
      exact ⟨h, rfl, rfl⟩
  | cons b bs ih =>
      have hb : b.length ≤ maxBodyLength := hle b List.mem_cons_self
      have hclosed : (s.readFrame r b).closed = s.closed := by
        rw [readFrame_eq r s hb]
        rfl
      rw [socketCodec.frames_cons, readStream_frame_append r h hb, ← hclosed]
      exact ih (receiveBody_pending r _ _) fun d hd => hle d (List.mem_cons_of_mem b hd)

/-- A stream can be read in two parts: the loop goes on with what the first part left. -/
theorem readStream_append (r : Reader) (s : ReadLoop) (xs ys : Bytes) :
    s.readStream r (xs ++ ys) =
      (s.readStream r xs).1.readStream r ((s.readStream r xs).2 ++ ys) := by
  fun_induction readStream r s xs with
  | case1 s xs hp => rfl
  | case2 s xs hp hlen ih =>
      rw [readStream_header r hp (by rw [List.length_append]; omega),
        List.take_append_of_le_length hlen, List.drop_append_of_le_length hlen, ih]
  | case3 s xs hp hlen => rfl
  | case4 s xs hp hlen ih =>
      rw [readStream_body r hp (by rw [List.length_append]; omega),
        List.take_append_of_le_length hlen, List.drop_append_of_le_length hlen, ih]
  | case5 s xs hp hlen => rfl

/-- Nothing that was accepted is taken back. -/
theorem accepted_prefix_readStream (r : Reader) (s : ReadLoop) (stream : Bytes) :
    s.accepted <+: (s.readStream r stream).1.accepted := by
  have hheader : ∀ (s : ReadLoop) (bytes : Bytes),
      (s.receiveHeader r bytes).accepted = s.accepted := by
    intro s bytes
    simp only [receiveHeader, handleReadHeader, Bool.false_eq_true, if_false]
    split
    · rfl
    · rfl
  fun_induction readStream r s stream with
  | case1 s stream hp => exact List.prefix_rfl
  | case2 s stream hp hlen ih => exact hheader s _ ▸ ih
  | case3 s stream hp hlen => exact List.prefix_rfl
  | case4 s stream hp hlen ih => exact (List.prefix_append s.accepted _).trans ih
  | case5 s stream hp hlen => exact List.prefix_rfl

end ReadLoop

end GafqEngine
