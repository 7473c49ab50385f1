import GafqEngine.Json.Text

/-!
# The steps of the decoder

What each function does at a position, in terms of the bytes that stand there. These
equations are all that the proofs about the decoder know of its positions.
-/

namespace GafqEngine

open CLib Gafq Scan

namespace Json

def inToken (c : UInt8) : Bool := !delimChars.contains c

theorem At.nextChar_space {str : Bytes} {i : ℕ} {r : Bytes} (h : At str i r) :
    At str (nextChar str i spaceChars true) (r.dropWhile spaceChars.contains) := by
  have hP : ∀ j c t, At str j (c :: t) →
      (inSet spaceChars (slice str j j) != true) = !spaceChars.contains c := by
    intro j c t hj
    rw [hj.slice_cons, inSet, Bool.bne_true]
  have hseek := h.seek hP
  simp only [Bool.not_not] at hseek
  exact hseek

theorem At.nextChar_delim {str : Bytes} {i : ℕ} {r : Bytes} (h : At str i r) :
    At str (nextChar str i delimChars false) (r.dropWhile inToken) := by
  have hP : ∀ j c t, At str j (c :: t) →
      (inSet delimChars (slice str j j) != false) = delimChars.contains c := by
    intro j c t hj
    rw [hj.slice_cons, inSet, Bool.bne_false]
  exact h.seek hP

/-- The token that starts at a position ends where its first delimiter stands. -/
theorem nextChar_delim_eq {str : Bytes} {i : ℕ} {r : Bytes} (h : At str i r) :
    nextChar str i delimChars false = i + (r.takeWhile inToken).length := by
  have hsplit : At str i (r.takeWhile inToken ++ r.dropWhile inToken) := by
    rwa [List.takeWhile_append_dropWhile]
  exact (At.nextChar_delim h).eq_pos hsplit.append

theorem slice_token {str : Bytes} {i : ℕ} {r : Bytes} (h : At str i r) :
    slice str i (i + (r.takeWhile inToken).length - 1) = r.takeWhile inToken := by
  have hsplit : At str i (r.takeWhile inToken ++ r.dropWhile inToken) := by
    rwa [List.takeWhile_append_dropWhile]
  exact hsplit.slice_append

theorem parseNumber_eq (lib : Lib) {str : Bytes} {i : ℕ} {r : Bytes} (h : At str i r) :
    parseNumber lib str i =
      match lib.stringToNumber (r.takeWhile inToken) with
      | some n => .ok (.number n, i + (r.takeWhile inToken).length)
      | none => decodeError str i
          (ascii "invalid number '" ++ r.takeWhile inToken ++ ascii "'") := by
  dsimp only [parseNumber]
  rewrite [nextChar_delim_eq h, slice_token h]
  rfl

theorem parseLiteral_eq {str : Bytes} {i : ℕ} {r : Bytes} (h : At str i r) :
    parseLiteral str i =
      match literalMap (r.takeWhile inToken) with
      | some v => .ok (v, i + (r.takeWhile inToken).length)
      | none => decodeError str i
          (ascii "invalid literal '" ++ r.takeWhile inToken ++ ascii "'") := by
  dsimp only [parseLiteral]
  rewrite [nextChar_delim_eq h, slice_token h]
  rfl

/-- The loop of `parse_string` behind a backslash at `j`. -/
def escapeStep (str : Bytes) (i fuel : ℕ) (res : Bytes) (j : ℕ) :
    Bytes → Except Stop (Bytes × ℕ)
  | [] => decodeError str j (ascii "invalid escape char '' in string")
  | c :: r =>
      if c = 117 then
        match matchEscape r with
        | none => decodeError str j (ascii "invalid unicode escape in string")
        | some hex =>
            (parseUnicodeEscape hex).bind fun text =>
              parseStringLoop str i fuel (res ++ text) (j + 1 + hex.length + 1)
                (j + 1 + hex.length + 1)
      else
        match escapeCharMapInv [c] with
        | none => decodeError str j (ascii "invalid escape char '" ++ [c] ++ ascii "' in string")
        | some e => parseStringLoop str i fuel (res ++ e) (j + 1 + 1) (j + 1 + 1)

/-- The loop of `parse_string`, with the bytes that it has passed since it last added
to its result. -/
theorem parseStringLoop_succ {str : Bytes} (i fuel : ℕ) (res : Bytes) {k : ℕ} {passed r : Bytes} :
    At str k (passed ++ r) → parseStringLoop str i (fuel + 1) res (k + passed.length) k =
      match r with
      | [] => decodeError str i (ascii "expected closing quote for string")
      | x :: r =>
          if x < 32 then
            decodeError str (k + passed.length) (ascii "control character in string")
          else if x = 92 then
            escapeStep str i fuel (res ++ passed) (k + passed.length) r
          else if x = 34 then .ok (res ++ passed, k + passed.length + 1)
          else parseStringLoop str i fuel res (k + passed.length + 1) k := by
  intro h
  have hj := h.append
  rw [parseStringLoop]
  cases r with
  | nil => simp only [hj.slice_nil]
  | cons x r =>
      simp only [hj.slice_cons, h.slice_append]
      congr 2
      · cases r with
        | nil =>
            have hend : slice str (k + passed.length + 1) (k + passed.length + 1) = [] :=
              hj.tail.slice_nil
            simp only [hend, Nat.add_sub_cancel, escapeStep]
            rfl
        | cons c r =>
            have hc : slice str (k + passed.length + 1) (k + passed.length + 1) = [c] :=
              hj.tail.slice_cons
            have hdrop : str.drop (k + passed.length + 1) = r := hj.tail.tail.drop
            have hu : ([c] = ascii "u") ↔ c = 117 := by
              rw [show ascii "u" = [117] from rfl, List.cons.injEq, and_iff_left rfl]
            simp only [hc, hu, hdrop, Nat.add_sub_cancel, escapeStep]
            rfl

def CharFunc.Starts (c : UInt8) : CharFunc → Prop
  | .parseString => [c] = ascii "\""
  | .parseNumber => c ∈ ascii "0123456789-"
  | .parseLiteral => c ∈ ascii "tfn"
  | .parseArray => [c] = ascii "["
  | .parseObject => [c] = ascii "\x7b"

theorem inSet_singleton {set : Bytes} {c : UInt8} : inSet set [c] = true ↔ c ∈ set := by
  rw [inSet, List.contains_iff_mem]

theorem starts_of_charFuncMap {c : UInt8} {f : CharFunc} (h : charFuncMap [c] = some f) :
    f.Starts c := by
  simp only [charFuncMap, inSet_singleton] at h
  split_ifs at h with hstring hnumber hliteral harray hobject
  · cases h
    exact hstring
  · cases h
    exact hnumber
  · cases h
    exact hliteral
  · cases h
    exact harray
  · cases h
    exact hobject

/-- What `parse` does at a byte. -/
theorem parse_cons (lib : Lib) {str : Bytes} (fuel : ℕ) {idx : ℕ} {c : UInt8} {r : Bytes}
    (h : At str idx (c :: r)) :
    parse lib str (fuel + 1) idx =
      match charFuncMap [c] with
      | some .parseString => (parseString str idx).map fun r => (.string r.1, r.2)
      | some .parseNumber => parseNumber lib str idx
      | some .parseLiteral => parseLiteral str idx
      | some .parseArray => parseArray lib str fuel [] 1 (idx + 1)
      | some .parseObject => parseObject lib str fuel [] (idx + 1)
      | none => decodeError str idx (ascii "unexpected character '" ++ [c] ++ ascii "'") := by
  rewrite [parse, h.slice_cons]
  rfl

theorem parse_quote (lib : Lib) {str : Bytes} (fuel : ℕ) {idx : ℕ} {r : Bytes}
    (h : At str idx (ascii "\"" ++ r)) :
    parse lib str (fuel + 1) idx = (parseString str idx).map fun r => (.string r.1, r.2) :=
  parse_cons lib fuel h

theorem parse_nil (lib : Lib) {str : Bytes} (fuel : ℕ) {idx : ℕ} (h : At str idx []) :
    parse lib str (fuel + 1) idx = decodeError str idx (ascii "unexpected character ''") := by
  rw [parse, h.slice_nil]
  rfl

end Json

end GafqEngine
