import Mathlib.Data.List.Basic

/-!
# Length-prefixed framing

A codec writes the length of a body into a header of fixed width, up to some
limit, and reads it back. A stream is the concatenation of the frames of a list
of bodies. `decode` is what a receiver does that knows the codec: it takes whole
frames off the front of the stream and stops at the first position where the
header is incomplete, is rejected, or announces more than is there.
-/

namespace Framing

variable {α : Type*}

/-- A header of fixed width that writes body lengths up to `limit`. -/
structure Codec (α : Type*) where
  width : ℕ
  limit : ℕ
  header : ℕ → List α
  parse : List α → Option ℕ
  width_pos : 0 < width
  length_header : ∀ n, n ≤ limit → (header n).length = width
  parse_header : ∀ n, n ≤ limit → parse (header n) = some n

namespace Codec

def frame (c : Codec α) (body : List α) : List α := c.header body.length ++ body

def frames (c : Codec α) (bodies : List (List α)) : List α := bodies.flatMap c.frame

/-- The whole frames at the front of a stream, and what is left behind them. -/
def decode (c : Codec α) (s : List α) : List (List α) × List α :=
  if _h : c.width ≤ s.length then
    match c.parse (s.take c.width) with
    | none => ([], s)
    | some n =>
        if n ≤ (s.drop c.width).length then
          let tail := decode c (s.drop (c.width + n))
          ((s.drop c.width).take n :: tail.1, tail.2)
        else ([], s)
  else ([], s)
termination_by s.length
decreasing_by
  have hpos := c.width_pos
  simp only [List.length_drop]
  omega

@[simp] theorem frames_nil (c : Codec α) : c.frames [] = [] := rfl

@[simp] theorem frames_cons (c : Codec α) (b : List α) (bs : List (List α)) :
    c.frames (b :: bs) = c.frame b ++ c.frames bs := rfl

theorem frames_append (c : Codec α) (as bs : List (List α)) :
    c.frames (as ++ bs) = c.frames as ++ c.frames bs := by
  simp [frames]

theorem length_frame (c : Codec α) {body : List α} (h : body.length ≤ c.limit) :
    (c.frame body).length = c.width + body.length := by
  rw [frame, List.length_append, c.length_header _ h]

theorem take_frame_append (c : Codec α) {body : List α} (h : body.length ≤ c.limit)
    (s : List α) : (c.frame body ++ s).take c.width = c.header body.length := by
  rw [frame, List.append_assoc]
  exact List.take_left' (c.length_header _ h)

theorem drop_frame_append (c : Codec α) {body : List α} (h : body.length ≤ c.limit)
    (s : List α) : (c.frame body ++ s).drop c.width = body ++ s := by
  rw [frame, List.append_assoc]
  exact List.drop_left' (c.length_header _ h)

theorem decode_of_short (c : Codec α) {s : List α} (h : s.length < c.width) :
    c.decode s = ([], s) := by
  rw [decode, dif_neg (by omega)]

theorem decode_of_rejected (c : Codec α) {s : List α} (hlen : c.width ≤ s.length)
    (h : c.parse (s.take c.width) = none) : c.decode s = ([], s) := by
  rw [decode, dif_pos hlen, h]

theorem decode_of_incomplete (c : Codec α) {s : List α} {n : ℕ} (hlen : c.width ≤ s.length)
    (h : c.parse (s.take c.width) = some n) (hn : (s.drop c.width).length < n) :
    c.decode s = ([], s) := by
  rw [decode, dif_pos hlen, h]
  simp only [if_neg (Nat.not_le.mpr hn)]

theorem decode_of_parse (c : Codec α) {s : List α} {n : ℕ} (hlen : c.width ≤ s.length)
    (h : c.parse (s.take c.width) = some n) (hn : n ≤ (s.drop c.width).length) :
    c.decode s = ((s.drop c.width).take n :: (c.decode (s.drop (c.width + n))).1,
      (c.decode (s.drop (c.width + n))).2) := by
  rw [decode, dif_pos hlen, h]
  simp only [if_pos hn]

/-- A whole frame at the front of the stream is decoded first. -/
theorem decode_frame_append (c : Codec α) {body : List α} (h : body.length ≤ c.limit)
    (s : List α) :
    c.decode (c.frame body ++ s) = (body :: (c.decode s).1, (c.decode s).2) := by
  have hlen : c.width ≤ (c.frame body ++ s).length := by
    rw [List.length_append, c.length_frame h]
    omega
  have hparse : c.parse ((c.frame body ++ s).take c.width) = some body.length := by
    rw [c.take_frame_append h, c.parse_header _ h]
  have hbody : (c.frame body ++ s).drop c.width = body ++ s := c.drop_frame_append h s
  have hrest : (c.frame body ++ s).drop (c.width + body.length) = s := by
    rw [← List.drop_drop, hbody, List.drop_left' rfl]
  rw [c.decode_of_parse hlen hparse (by simp [hbody]), hbody, hrest, List.take_left' rfl]

/-- The frames at the front of a stream are decoded in order. -/
theorem decode_frames_append (c : Codec α) (bodies : List (List α))
    (h : ∀ b ∈ bodies, b.length ≤ c.limit) (s : List α) :
    c.decode (c.frames bodies ++ s) = (bodies ++ (c.decode s).1, (c.decode s).2) := by
  induction bodies with
  | nil => rfl
  | cons b bs ih =>
      have hb := h b List.mem_cons_self
      have htail := ih fun d hd => h d (List.mem_cons_of_mem b hd)
      rw [frames_cons, List.append_assoc, c.decode_frame_append hb, htail]
      rfl

/-- The first of the bodies, those whose frames lie wholly before the position `cut`
of the stream. -/
def whole (c : Codec α) : ℕ → List (List α) → List (List α)
  | _, [] => []
  | cut, b :: bs =>
      if c.width + b.length ≤ cut then b :: c.whole (cut - (c.width + b.length)) bs else []

/-- A frame that is cut off is not decoded. -/
theorem decode_take_frame (c : Codec α) {body : List α} (h : body.length ≤ c.limit) {cut : ℕ}
    (hcut : cut < c.width + body.length) (s : List α) :
    (c.decode ((c.frame body ++ s).take cut)).1 = [] := by
  by_cases hwidth : cut < c.width
  · have hlen : ((c.frame body ++ s).take cut).length < c.width :=
      Nat.lt_of_le_of_lt (List.length_take_le _ _) hwidth
    rw [c.decode_of_short hlen]
  · have hle : c.width ≤ cut := Nat.not_lt.mp hwidth
    have hlong : cut ≤ (c.frame body ++ s).length := by
      rw [List.length_append, c.length_frame h]
      omega
    have hlen : ((c.frame body ++ s).take cut).length = cut := List.length_take_of_le hlong
    have hparse : c.parse (((c.frame body ++ s).take cut).take c.width) = some body.length := by
      rw [List.take_take, Nat.min_eq_left hle, c.take_frame_append h, c.parse_header _ h]
    have hrest : (((c.frame body ++ s).take cut).drop c.width).length < body.length := by
      rw [List.length_drop, hlen]
      omega
    rw [c.decode_of_incomplete (by rwa [hlen]) hparse hrest]

/-- A stream of frames with something behind them that gives no body, cut off
anywhere: the frames that are whole are decoded, and nothing else. -/
theorem decode_take_frames_append (c : Codec α) {bodies : List (List α)}
    (h : ∀ b ∈ bodies, b.length ≤ c.limit) {tail : List α}
    (htail : ∀ n, (c.decode (tail.take n)).1 = []) (cut : ℕ) :
    (c.decode ((c.frames bodies ++ tail).take cut)).1 = c.whole cut bodies := by
  induction bodies generalizing cut with
  | nil => exact htail cut
  | cons b bs ih =>
      have hb := h b List.mem_cons_self
      rw [frames_cons, List.append_assoc]
      by_cases hcut : c.width + b.length ≤ cut
      · have hframe : (c.frame b).length ≤ cut := by rwa [c.length_frame hb]
        rw [List.take_append, List.take_of_length_le hframe, c.decode_frame_append hb,
          c.length_frame hb, ih (fun d hd => h d (List.mem_cons_of_mem b hd)), whole, if_pos hcut]
      · rw [c.decode_take_frame hb (Nat.not_le.mp hcut), whole, if_neg hcut]

theorem decode_nil (c : Codec α) : c.decode [] = ([], []) := c.decode_of_short c.width_pos

/-- Nothing is decoded from a header that is rejected on. -/
theorem decode_take_rejected (c : Codec α) {header : List α} (hlen : header.length = c.width)
    (h : c.parse header = none) (s : List α) (n : ℕ) :
    (c.decode ((header ++ s).take n)).1 = [] := by
  by_cases hwidth : ((header ++ s).take n).length < c.width
  · rw [c.decode_of_short hwidth]
  · have hle : c.width ≤ ((header ++ s).take n).length := Nat.not_lt.mp hwidth
    have hn : c.width ≤ n := Nat.le_trans hle (List.length_take_le _ _)
    have htake : ((header ++ s).take n).take c.width = header := by
      rw [List.take_take, Nat.min_eq_left hn, List.take_left' hlen]
    rw [c.decode_of_rejected hle (by rw [htake, h])]

theorem decode_frames (c : Codec α) (bodies : List (List α))
    (h : ∀ b ∈ bodies, b.length ≤ c.limit) : c.decode (c.frames bodies) = (bodies, []) := by
  have happ := c.decode_frames_append bodies h []
  simpa [c.decode_nil] using happ

end Codec

end Framing
