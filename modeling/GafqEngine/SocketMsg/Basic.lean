import GafqEngine.CLib.Buffer
import GafqEngine.CLib.Integer
import GafqEngine.CLib.Text

/-!
# The message buffer

`SocketMsg` is the class `socket_msg`: a fixed array that holds a four-byte
length header and up to `maxBodyLength` bytes of body, and the body length. The
array has its size as a field of the structure; the length is whatever the
operations leave there. `decodeHeader` and `encodeHeader` are translated as they
stand, with the conversions between `int` and `size_t` that they make.
`parseHeader` is the length that `decodeHeader` accepts, as a function of the
bytes of the header alone.
-/

namespace GafqEngine

open CLib

def headerLength : ℕ := 4

def maxBodyLength : ℕ := 1024

/-- The class `socket_msg`: `data_` and `body_length_`. -/
structure SocketMsg where
  data : Bytes
  bodyLength : ℕ
  length_data : data.length = headerLength + maxBodyLength

instance : Inhabited SocketMsg :=
  ⟨{ data := List.replicate (headerLength + maxBodyLength) 0
     bodyLength := 0
     length_data := List.length_replicate }⟩

namespace SocketMsg

@[ext] theorem ext {m m' : SocketMsg} (hdata : m.data = m'.data)
    (hlen : m.bodyLength = m'.bodyLength) : m = m' := by
  cases m
  cases m'
  simp only at hdata hlen
  subst hdata hlen
  rfl

def length (m : SocketMsg) : ℕ := headerLength + m.bodyLength

/-- `body()`: the array from the end of the header on. -/
def body (m : SocketMsg) : Bytes := m.data.drop headerLength

/-- `body_length(new_length)`: set, then clamped. -/
def setBodyLength (m : SocketMsg) (newLength : ℕ) : SocketMsg :=
  { m with bodyLength := if newLength > maxBodyLength then maxBodyLength else newLength }

/-- Bytes stored through a pointer into the array, `off` bytes from `data()`. -/
def write (m : SocketMsg) (off : ℕ) (bytes : Bytes) : SocketMsg where
  data := overwrite m.data off bytes
  bodyLength := m.bodyLength
  length_data := by rw [length_overwrite, m.length_data]

/-- `delete_msg()`: the array is zeroed and the length reset. -/
def deleteMsg (_m : SocketMsg) : SocketMsg where
  data := List.replicate (headerLength + maxBodyLength) 0
  bodyLength := 0
  length_data := List.length_replicate

/-- `decode_header()`: the result and the message with its length set. -/
def decodeHeader (m : SocketMsg) : Bool × SocketMsg :=
  let header := strncat m.data headerLength
  let bodyLength := castSize (atoi header)
  if bodyLength > maxBodyLength then (false, { m with bodyLength := 0 })
  else (true, { m with bodyLength := bodyLength })

/-- `encode_header()`: the length as `%4d`, four bytes of it copied. -/
def encodeHeader (m : SocketMsg) : SocketMsg :=
  let header := sprintfWidth 4 (castInt m.bodyLength)
  m.write 0 (header.take headerLength)

/-- The body length that a header announces, if it is accepted. -/
def parseHeader (header : Bytes) : Option ℕ :=
  let n := castSize (atoi (strncat header headerLength))
  if n > maxBodyLength then none else some n

theorem decodeHeader_eq (m : SocketMsg) :
    m.decodeHeader =
      match parseHeader m.data with
      | none => (false, { m with bodyLength := 0 })
      | some n => (true, { m with bodyLength := n }) := by
  by_cases h : castSize (atoi (strncat m.data headerLength)) > maxBodyLength
  · simp only [decodeHeader, parseHeader, if_pos h]
  · simp only [decodeHeader, parseHeader, if_neg h]

theorem decodeHeader_of_some {m : SocketMsg} {n : ℕ} (h : parseHeader m.data = some n) :
    m.decodeHeader = (true, { m with bodyLength := n }) := by
  rw [decodeHeader_eq, h]

theorem decodeHeader_of_none {m : SocketMsg} (h : parseHeader m.data = none) :
    m.decodeHeader = (false, { m with bodyLength := 0 }) := by
  rw [decodeHeader_eq, h]

theorem parseHeader_take (header : Bytes) :
    parseHeader (header.take headerLength) = parseHeader header := by
  simp [parseHeader, strncat, List.take_take]

theorem parseHeader_le {header : Bytes} {n : ℕ} (h : parseHeader header = some n) :
    n ≤ maxBodyLength := by
  simp only [parseHeader, Option.ite_none_left_eq_some, Option.some.injEq] at h
  omega

@[simp] theorem write_bodyLength (m : SocketMsg) (off : ℕ) (bytes : Bytes) :
    (m.write off bytes).bodyLength = m.bodyLength := rfl

@[simp] theorem write_data (m : SocketMsg) (off : ℕ) (bytes : Bytes) :
    (m.write off bytes).data = overwrite m.data off bytes := rfl

@[simp] theorem setBodyLength_data (m : SocketMsg) (n : ℕ) :
    (m.setBodyLength n).data = m.data := rfl

theorem setBodyLength_bodyLength (m : SocketMsg) (n : ℕ) :
    (m.setBodyLength n).bodyLength = min n maxBodyLength := by
  simp only [setBodyLength]
  split <;> omega

@[simp] theorem encodeHeader_bodyLength (m : SocketMsg) :
    m.encodeHeader.bodyLength = m.bodyLength := rfl

/-- A body length is printed as four characters. -/
theorem length_sprintfWidth_four {n : ℕ} (h : n ≤ maxBodyLength) :
    (sprintfWidth 4 (n : ℤ)).length = headerLength :=
  length_sprintfWidth (by decide) (lt_of_le_of_lt h (by decide))

theorem castInt_bodyLength {m : SocketMsg} (h : m.bodyLength ≤ maxBodyLength) :
    castInt (m.bodyLength : ℤ) = m.bodyLength :=
  castInt_natCast_of_lt (lt_of_le_of_lt h (by decide))

theorem encodeHeader_data {m : SocketMsg} (h : m.bodyLength ≤ maxBodyLength) :
    m.encodeHeader.data = overwrite m.data 0 (sprintfWidth 4 m.bodyLength) := by
  rw [encodeHeader, castInt_bodyLength h, write_data,
    List.take_of_length_le (length_sprintfWidth_four h).le]

/-- `encode_header` writes the four characters. -/
theorem take_encodeHeader_data {m : SocketMsg} (h : m.bodyLength ≤ maxBodyLength) :
    m.encodeHeader.data.take headerLength = sprintfWidth 4 m.bodyLength := by
  have hlen := length_sprintfWidth_four h
  have hfit : 0 + (sprintfWidth 4 (m.bodyLength : ℤ)).length ≤ m.data.length := by
    rw [hlen, m.length_data]
    omega
  have htake := take_drop_overwrite m.data 0 _ hfit
  rwa [List.drop_zero, hlen, ← encodeHeader_data h] at htake

/-- `encode_header` writes nothing behind the header. -/
theorem drop_encodeHeader_data {m : SocketMsg} (h : m.bodyLength ≤ maxBodyLength) :
    m.encodeHeader.data.drop headerLength = m.data.drop headerLength := by
  have hlen := length_sprintfWidth_four h
  have hfit : 0 + (sprintfWidth 4 (m.bodyLength : ℤ)).length ≤ m.data.length := by
    rw [hlen, m.length_data]
    omega
  have hdrop := drop_overwrite m.data 0 _ hfit
  rwa [Nat.zero_add, hlen, ← encodeHeader_data h] at hdrop

/-- The header that `encode_header` writes is accepted with its length. -/
theorem parseHeader_sprintfWidth {n : ℕ} (h : n ≤ maxBodyLength) :
    parseHeader (sprintfWidth 4 n) = some n := by
  have hlt : n < 10 ^ 4 := lt_of_le_of_lt h (by decide)
  have hstr : strncat (sprintfWidth 4 (n : ℤ)) headerLength = sprintfWidth 4 n := by
    rw [strncat, List.take_of_length_le (length_sprintfWidth_four h).le]
    exact cstr_of_nulFree (nulFree_sprintfWidth 4 n)
  have hcast : castSize (n : ℤ) = n := by
    have hval := castSize_of_nonneg (n := (n : ℤ)) (by omega) (by omega)
    omega
  rw [parseHeader, hstr, atoi_sprintfWidth, hcast, if_neg (by omega)]

def headerNumber (header : Bytes) : ℤ := atoi (strncat header headerLength)

theorem headerNumber_bounds (header : Bytes) :
    -10 ^ 4 < headerNumber header ∧ headerNumber header < 10 ^ 4 := by
  have hlt := natAbs_atoi_lt (strncat header headerLength)
  have hlen : (strncat header headerLength).length ≤ 4 :=
    (List.takeWhile_sublist _).length_le.trans (List.length_take_le _ _)
  have hpow : 10 ^ (strncat header headerLength).length ≤ 10 ^ 4 :=
    Nat.pow_le_pow_right (by decide) hlen
  simp only [headerNumber]
  omega

/-- A header is accepted when its number is a body length, and then as that length. -/
theorem parseHeader_eq_some_iff {header : Bytes} {n : ℕ} :
    parseHeader header = some n ↔ headerNumber header = n ∧ n ≤ maxBodyLength := by
  have hbounds := headerNumber_bounds header
  have hparse : parseHeader header =
      if castSize (headerNumber header) > maxBodyLength then none
      else some (castSize (headerNumber header)) := rfl
  rw [hparse, Option.ite_none_left_eq_some, Option.some.injEq, Nat.not_lt]
  rcases Int.lt_or_le (headerNumber header) 0 with hneg | hpos
  · have hhuge := castSize_of_neg (by omega) hneg
    simp only [maxBodyLength]
    omega
  · have hval := castSize_of_nonneg hpos (by omega)
    omega

theorem parseHeader_eq_none_iff {header : Bytes} :
    parseHeader header = none ↔
      headerNumber header < 0 ∨ (maxBodyLength : ℤ) < headerNumber header := by
  constructor
  · intro h
    by_contra hrange
    obtain ⟨n, hn⟩ := Int.eq_ofNat_of_zero_le (a := headerNumber header) (by omega)
    rw [parseHeader_eq_some_iff.mpr ⟨hn, by omega⟩] at h
    cases h
  · intro h
    cases hparse : parseHeader header with
    | none => rfl
    | some n =>
        obtain ⟨hn, hle⟩ := parseHeader_eq_some_iff.mp hparse
        omega

end SocketMsg

end GafqEngine
