import GafqEngine.SocketMsg.ReadLoop

/-!
# What `socket_session` prints

A session reads every frame into the same array and prints `data()` as a C
string. The array is not cleared in between, so behind a frame stands what
earlier and longer frames left there, or what the array held at first; the text
is the frame's own exactly when it ends before (`ClearBehind`).
-/

namespace GafqEngine

open CLib SocketMsg

namespace ReadLoop

def afterFrame (data body : Bytes) : Bytes := overwrite data 0 (socketCodec.frame body)

/-- The text that a frame's own bytes give: the header, and the body up to its
first NUL. -/
def ownText (body : Bytes) : Bytes := socketCodec.header body.length ++ cstr body

/-- Each frame ends in a NUL: there is one in its body, or the array, as the
earlier frames left it, has one right behind the body. -/
def ClearBehind (behind : ℕ → Bytes) : Bytes → List Bytes → Prop
  | _, [] => True
  | data, b :: bs =>
      (¬ NulFree b ∨ cstr (data.drop (headerLength + b.length) ++ behind b.length) = []) ∧
        ClearBehind behind (afterFrame data b) bs

def reports (behind : ℕ → Bytes) : Bytes → List Bytes → List Bytes
  | _, [] => []
  | data, b :: bs =>
      cstr (afterFrame data b ++ behind b.length) :: reports behind (afterFrame data b) bs

theorem length_afterFrame (data body : Bytes) : (afterFrame data body).length = data.length :=
  length_overwrite _ _ _

theorem afterFrame_eq {data body : Bytes} (hdata : data.length = headerLength + maxBodyLength)
    (hbody : body.length ≤ maxBodyLength) :
    afterFrame data body = socketCodec.frame body ++ data.drop (headerLength + body.length) := by
  have hlen : (socketCodec.frame body).length = headerLength + body.length :=
    socketCodec.length_frame hbody
  rw [afterFrame, overwrite_zero _ _ (by rw [hlen, hdata]; exact Nat.add_le_add_left hbody _), hlen]

/-- The text for a frame is its own exactly when a NUL follows in time. -/
theorem cstr_afterFrame_eq_iff {data body : Bytes}
    (hdata : data.length = headerLength + maxBodyLength) (hbody : body.length ≤ maxBodyLength)
    (behind : Bytes) :
    cstr (afterFrame data body ++ behind) = ownText body ↔
      ¬ NulFree body ∨ cstr (data.drop (headerLength + body.length) ++ behind) = [] := by
  have hheader : NulFree (socketCodec.header body.length) := nulFree_sprintfWidth 4 _
  rw [afterFrame_eq hdata hbody, Framing.Codec.frame, List.append_assoc, List.append_assoc,
    cstr_append hheader, ownText, List.append_right_inj, cstr_append_eq_iff]

theorem readFrame_printed (behind : ℕ → Bytes) (s : ReadLoop) {b : Bytes}
    (hb : b.length ≤ maxBodyLength) :
    (s.readFrame (socketSession behind) b).readMsg.data = afterFrame s.readMsg.data b ∧
      (s.readFrame (socketSession behind) b).printed =
        s.printed ++ [cstr (afterFrame s.readMsg.data b ++ behind b.length)] := by
  have hlen : (socketCodec.header b.length).length = headerLength :=
    socketCodec.length_header _ hb
  have hfit : (socketCodec.header b.length ++ b).length ≤ s.readMsg.data.length := by
    rw [List.length_append, hlen, s.readMsg.length_data]
    exact Nat.add_le_add_left hb _
  have hdata := overwrite_overwrite_append s.readMsg.data _ _ hfit
  rw [hlen] at hdata
  rw [readFrame_eq _ s hb]
  simp only [receiveBody, handleReadBody, Bool.false_eq_true, if_false, write_data,
    write_bodyLength, hdata, afterFrame, Framing.Codec.frame, socketSession, and_self]

theorem readStream_printed (behind : ℕ → Bytes) {s : ReadLoop}
    (h : s.pending = some .handleReadHeader) {bodies : List Bytes}
    (hle : ∀ b ∈ bodies, b.length ≤ maxBodyLength) :
    (s.readStream (socketSession behind) (socketCodec.frames bodies)).1.printed =
      s.printed ++ reports behind s.readMsg.data bodies := by
  induction bodies generalizing s with
  | nil =>
      rw [socketCodec.frames_nil, readStream_header_short _ h (by decide), reports, List.append_nil]
  | cons b bs ih =>
      have hb : b.length ≤ maxBodyLength := hle b List.mem_cons_self
      have hpending : (s.readFrame (socketSession behind) b).pending = some .handleReadHeader := by
        rw [readFrame_eq _ s hb]
        exact receiveBody_pending _ _ _
      obtain ⟨hdata, hprinted⟩ := readFrame_printed behind s hb
      rw [socketCodec.frames_cons, readStream_frame_append _ h hb,
        ih hpending fun d hd => hle d (List.mem_cons_of_mem b hd), hdata, hprinted,
        List.append_assoc, List.singleton_append, reports]

theorem readStream_start_printed (behind : ℕ → Bytes) (m : SocketMsg) {bodies : List Bytes}
    (hle : ∀ b ∈ bodies, b.length ≤ maxBodyLength) :
    ((start m).readStream (socketSession behind) (socketCodec.frames bodies)).1.printed =
      reports behind m.data bodies := by
  rw [readStream_printed behind rfl hle]
  exact List.nil_append _

theorem reports_eq_iff (behind : ℕ → Bytes) {data : Bytes} {bodies : List Bytes}
    (hdata : data.length = headerLength + maxBodyLength)
    (hle : ∀ b ∈ bodies, b.length ≤ maxBodyLength) :
    reports behind data bodies = bodies.map ownText ↔ ClearBehind behind data bodies := by
  induction bodies generalizing data with
  | nil => exact iff_of_true rfl trivial
  | cons b bs ih =>
      have hb : b.length ≤ maxBodyLength := hle b List.mem_cons_self
      have hafter : (afterFrame data b).length = headerLength + maxBodyLength :=
        (length_afterFrame data b).trans hdata
      rw [reports, List.map_cons, List.cons.injEq, cstr_afterFrame_eq_iff hdata hb,
        ih hafter fun d hd => hle d (List.mem_cons_of_mem b hd), ClearBehind]

/-- A session prints for each frame that frame's own text exactly when every text
ends before the bytes that were in the array already. -/
theorem printed_eq_iff_clearBehind (behind : ℕ → Bytes) (m : SocketMsg) {bodies : List Bytes}
    (hle : ∀ b ∈ bodies, b.length ≤ maxBodyLength) :
    ((start m).readStream (socketSession behind) (socketCodec.frames bodies)).1.printed =
        bodies.map ownText ↔ ClearBehind behind m.data bodies := by
  rw [readStream_start_printed behind m hle, reports_eq_iff behind m.length_data hle]

theorem printed_eq_iff_two_frames :
    ((start default).readStream (socketSession fun _ => [])
          (socketCodec.frames [ascii "a", ascii "bb"])).1.printed =
        [ascii "a", ascii "bb"].map ownText ↔
      ClearBehind (fun _ => []) (default : SocketMsg).data [ascii "a", ascii "bb"] :=
  printed_eq_iff_clearBehind (fun _ => []) default (by decide)

/-- A short frame behind a longer one: the text goes on with what is left of the
longer body. -/
theorem printed_ne_on_short_after_long :
    ¬ ∀ (behind : ℕ → Bytes) (m : SocketMsg) (bodies : List Bytes),
      (∀ b ∈ bodies, b.length ≤ maxBodyLength) →
      ((start m).readStream (socketSession behind) (socketCodec.frames bodies)).1.printed =
        bodies.map ownText := by
  intro h
  have hle : ∀ b ∈ [ascii "bb", ascii "a"], b.length ≤ maxBodyLength := by decide
  have hall := h (fun _ => []) default _ hle
  rw [readStream_start_printed _ default hle,
    reports_eq_iff _ (default : SocketMsg).length_data hle] at hall
  rcases hall with ⟨-, hend | hend, -⟩
  · exact hend (by decide)
  · rw [afterFrame_eq (default : SocketMsg).length_data (hle _ List.mem_cons_self),
      List.append_nil] at hend
    revert hend
    decide

end ReadLoop

end GafqEngine
