import Mathlib.Data.List.TakeWhile
import Mathlib.Data.Nat.Digits.Lemmas

/-!
# C strings and decimal numbers

The part of the C string library that length headers are written and read with.
A C string is what stands in memory before the first NUL byte (`cstr`). `atoi`
reads a decimal number the way the C function does: blanks are skipped, one sign
is taken, and the digits end at the first byte that is not one; a string without
digits counts as zero. `sprintfWidth w n` is the text that the conversion `%wd`
writes. The round trip is `atoi_sprintfWidth`.
-/

namespace CLib

/-- A string of bytes, as `char` arrays and `std::string` hold it. -/
abbrev Bytes := List UInt8

/-- The bytes of an ASCII literal. -/
def ascii (s : String) : Bytes := s.toList.map fun c => UInt8.ofNat c.toNat

def NulFree (s : Bytes) : Prop := 0 ∉ s

instance (s : Bytes) : Decidable (NulFree s) := inferInstanceAs (Decidable (0 ∉ s))

/-- The C string at the start of `mem`: the bytes before the first NUL. -/
def cstr (mem : Bytes) : Bytes := mem.takeWhile (· ≠ 0)

theorem cstr_of_nulFree {s : Bytes} (h : NulFree s) : cstr s = s := by
  rw [cstr, List.takeWhile_eq_self_iff]
  intro c hc
  have hne : c ≠ 0 := fun h0 => h (h0 ▸ hc)
  simpa using hne

theorem cstr_append {s : Bytes} (h : NulFree s) (t : Bytes) : cstr (s ++ t) = s ++ cstr t := by
  refine List.takeWhile_append_of_pos fun c hc => ?_
  have hne : c ≠ 0 := fun h0 => h (h0 ▸ hc)
  simpa using hne

@[simp] theorem cstr_zero_cons (t : Bytes) : cstr (0 :: t) = [] := rfl

theorem cstr_append_zero (s t : Bytes) : cstr (s ++ 0 :: t) = cstr s := by
  induction s with
  | nil => rfl
  | cons a s ih =>
      by_cases ha : a = 0
      · simp [cstr, ha]
      · simpa [cstr, ha] using ih

theorem cstr_append_replicate_zero (s : Bytes) (n : ℕ) :
    cstr (s ++ List.replicate n 0) = cstr s := by
  cases n with
  | zero => rw [List.replicate_zero, List.append_nil]
  | succ n => exact cstr_append_zero s _

/-- What follows a string does not show if the string ends before it. -/
theorem cstr_append_eq_iff (s t : Bytes) :
    cstr (s ++ t) = cstr s ↔ ¬ NulFree s ∨ cstr t = [] := by
  by_cases hs : NulFree s
  · rw [cstr_append hs, cstr_of_nulFree hs, List.append_right_eq_self]
    exact ⟨Or.inr, fun h => h.resolve_left (not_not.mpr hs)⟩
  · obtain ⟨as, bs, rfl⟩ := List.append_of_mem (not_not.mp hs)
    rw [List.append_assoc, List.cons_append, cstr_append_zero, cstr_append_zero]
    exact iff_of_true rfl (Or.inl hs)

theorem nulFree_cstr (mem : Bytes) : NulFree (cstr mem) := by
  intro h
  have h0 := List.mem_takeWhile_imp h
  simp at h0

theorem NulFree.append {s t : Bytes} (hs : NulFree s) (ht : NulFree t) : NulFree (s ++ t) := by
  simp only [NulFree, List.mem_append, not_or]
  exact ⟨hs, ht⟩

theorem NulFree.take {s : Bytes} (hs : NulFree s) (n : ℕ) : NulFree (s.take n) :=
  fun h => hs (List.mem_of_mem_take h)

/-- `strncat` onto an empty string: at most `n` bytes, ending at a NUL. -/
def strncat (src : Bytes) (n : ℕ) : Bytes := cstr (src.take n)

/-- The blanks that `isspace` accepts in the C locale. -/
def isSpace (c : UInt8) : Bool := c == 32 || (9 ≤ c && c ≤ 13)

def isDigit (c : UInt8) : Bool := 48 ≤ c && c ≤ 57

def digitsValue (s : Bytes) : ℕ :=
  (s.takeWhile isDigit).foldl (fun acc c => 10 * acc + (c.toNat - 48)) 0

/-- `atoi`: blanks, an optional sign, digits. -/
def atoi (s : Bytes) : ℤ :=
  match s.dropWhile isSpace with
  | 45 :: ds => -(digitsValue ds : ℤ)
  | 43 :: ds => digitsValue ds
  | ds => digitsValue ds

def decimal (n : ℕ) : Bytes :=
  if n = 0 then [48] else ((Nat.digits 10 n).map fun d => UInt8.ofNat (48 + d)).reverse

def decimalInt (n : ℤ) : Bytes :=
  if n < 0 then 45 :: decimal n.natAbs else decimal n.natAbs

/-- The text of the conversion `%wd`: right-aligned in `w` columns. -/
def sprintfWidth (w : ℕ) (n : ℤ) : Bytes := (decimalInt n).leftpad w 32

theorem toNat_ofNat_digit {d : ℕ} (h : d < 10) : (UInt8.ofNat (48 + d)).toNat = 48 + d := by
  rw [UInt8.toNat_ofNat']
  omega

theorem isDigit_ofNat_digit {d : ℕ} (h : d < 10) : isDigit (UInt8.ofNat (48 + d)) = true := by
  have hval := toNat_ofNat_digit h
  simp only [isDigit, Bool.and_eq_true, decide_eq_true_eq, UInt8.le_iff_toNat_le, hval,
    UInt8.toNat_ofNat]
  omega

theorem decimal_ne_nil (n : ℕ) : decimal n ≠ [] := by
  unfold decimal
  split
  · exact List.cons_ne_nil _ _
  · rename_i h
    simpa using Nat.digits_ne_nil_iff_ne_zero.mpr h

theorem isDigit_of_mem_decimal {n : ℕ} {c : UInt8} (h : c ∈ decimal n) : isDigit c = true := by
  unfold decimal at h
  split at h
  · rw [List.mem_singleton.mp h]
    rfl
  · obtain ⟨d, hd, rfl⟩ := List.mem_map.mp (List.mem_reverse.mp h)
    exact isDigit_ofNat_digit (Nat.digits_lt_base (by norm_num) hd)

theorem isSpace_of_isDigit {c : UInt8} (h : isDigit c = true) : isSpace c = false := by
  simp only [isDigit, Bool.and_eq_true, decide_eq_true_eq, UInt8.le_iff_toNat_le] at h
  have h48 : (48 : UInt8).toNat = 48 := rfl
  have h13 : (13 : UInt8).toNat = 13 := rfl
  simp only [isSpace, Bool.or_eq_false_iff, Bool.and_eq_false_iff, beq_eq_false_iff_ne, ne_eq,
    decide_eq_false_iff_not, UInt8.le_iff_toNat_le]
  refine ⟨?_, Or.inr (by omega)⟩
  rintro rfl
  exact absurd h.1 (by decide)

theorem ne_zero_of_isDigit {c : UInt8} (h : isDigit c = true) : c ≠ 0 := by
  rintro rfl
  exact absurd h (by decide)

theorem foldl_digits (ds : List ℕ) (hds : ∀ d ∈ ds, d < 10) :
    (ds.map fun d => UInt8.ofNat (48 + d)).reverse.foldl
      (fun acc c => 10 * acc + (c.toNat - 48)) 0 = Nat.ofDigits 10 ds := by
  induction ds with
  | nil => rfl
  | cons d ds ih =>
      have hd := toNat_ofNat_digit (hds d List.mem_cons_self)
      have htail := ih fun e he => hds e (List.mem_cons_of_mem d he)
      rw [List.map_cons, List.reverse_cons, List.foldl_append, htail, List.foldl_cons,
        List.foldl_nil, hd, Nat.ofDigits_cons]
      omega

theorem digitsValue_decimal (n : ℕ) : digitsValue (decimal n) = n := by
  have hall : (decimal n).takeWhile isDigit = decimal n :=
    List.takeWhile_eq_self_iff.mpr fun c hc => isDigit_of_mem_decimal hc
  rw [digitsValue, hall]
  unfold decimal
  split
  · rename_i h
    subst h
    rfl
  · rw [foldl_digits _ fun d hd => Nat.digits_lt_base (by norm_num) hd, Nat.ofDigits_digits]

theorem nulFree_decimalInt (n : ℤ) : NulFree (decimalInt n) := by
  have hdec : NulFree (decimal n.natAbs) := fun h =>
    ne_zero_of_isDigit (isDigit_of_mem_decimal h) rfl
  unfold decimalInt
  split
  · intro h
    rcases List.mem_cons.mp h with h | h
    · exact absurd h (by decide)
    · exact hdec h
  · exact hdec

theorem nulFree_sprintfWidth (w : ℕ) (n : ℤ) : NulFree (sprintfWidth w n) := by
  intro h
  rcases List.mem_append.mp h with h | h
  · exact absurd (List.eq_of_mem_replicate h) (by decide)
  · exact nulFree_decimalInt n h

theorem length_decimal_le {n k : ℕ} (hk : 1 ≤ k) (h : n < 10 ^ k) : (decimal n).length ≤ k := by
  unfold decimal
  split
  · exact hk
  · rw [List.length_reverse, List.length_map]
    exact (Nat.digits_length_le_iff (by norm_num) n).mpr h

theorem length_sprintfWidth {w n : ℕ} (hw : 1 ≤ w) (h : n < 10 ^ w) :
    (sprintfWidth w n).length = w := by
  have hlen : (decimalInt (n : ℤ)).length ≤ w := by
    rw [decimalInt, if_neg (by omega), Int.natAbs_natCast]
    exact length_decimal_le hw h
  rw [sprintfWidth, List.leftpad, List.length_append, List.length_replicate]
  omega

theorem dropWhile_isSpace_decimal (n : ℕ) : (decimal n).dropWhile isSpace = decimal n := by
  cases hdec : decimal n with
  | nil => rfl
  | cons c cs =>
      have hc : isSpace c = false :=
        isSpace_of_isDigit (isDigit_of_mem_decimal (hdec ▸ List.mem_cons_self))
      exact List.dropWhile_cons_of_neg (by simp [hc])

theorem atoi_decimal (n : ℕ) : atoi (decimal n) = n := by
  have hval := digitsValue_decimal n
  cases hdec : decimal n with
  | nil => exact absurd hdec (decimal_ne_nil n)
  | cons c cs =>
      have hc : isDigit c = true := isDigit_of_mem_decimal (hdec ▸ List.mem_cons_self)
      have hminus : c ≠ 45 := by
        rintro rfl
        exact absurd hc (by decide)
      have hplus : c ≠ 43 := by
        rintro rfl
        exact absurd hc (by decide)
      rw [atoi, ← hdec, dropWhile_isSpace_decimal, hdec]
      split
      · rename_i h
        exact absurd (List.cons.inj h).1 hminus
      · rename_i h
        exact absurd (List.cons.inj h).1 hplus
      · rw [← hdec, hval]

theorem atoi_minus_decimal (n : ℕ) : atoi (45 :: decimal n) = -(n : ℤ) := by
  have hspace : (45 :: decimal n).dropWhile isSpace = 45 :: decimal n :=
    List.dropWhile_cons_of_neg (by decide)
  rw [atoi, hspace]
  simp only [digitsValue_decimal]

theorem atoi_leftpad (w : ℕ) (s : Bytes) : atoi (s.leftpad w 32) = atoi s := by
  have hdrop : (s.leftpad w 32).dropWhile isSpace = s.dropWhile isSpace :=
    List.dropWhile_append_of_pos fun c hc => by
      rw [List.eq_of_mem_replicate hc]
      rfl
  rw [atoi, hdrop, ← atoi]

/-- What `%wd` writes is read back by `atoi`. -/
theorem atoi_sprintfWidth (w : ℕ) (n : ℤ) : atoi (sprintfWidth w n) = n := by
  rw [sprintfWidth, atoi_leftpad]
  unfold decimalInt
  split
  · rw [atoi_minus_decimal]
    omega
  · rw [atoi_decimal]
    omega

/-- A digit weighs less than ten. -/
theorem toNat_sub_lt_of_isDigit {c : UInt8} (h : isDigit c = true) : c.toNat - 48 < 10 := by
  simp only [isDigit, Bool.and_eq_true, decide_eq_true_eq, UInt8.le_iff_toNat_le] at h
  have h57 : (57 : UInt8).toNat = 57 := rfl
  omega

theorem foldl_digits_lt {ds : Bytes} (hds : ∀ c ∈ ds, isDigit c = true) (acc : ℕ) :
    ds.foldl (fun acc c => 10 * acc + (c.toNat - 48)) acc < (acc + 1) * 10 ^ ds.length := by
  induction ds generalizing acc with
  | nil => simp
  | cons c ds ih =>
      have hc := toNat_sub_lt_of_isDigit (hds c List.mem_cons_self)
      have htail := ih (fun d hd => hds d (List.mem_cons_of_mem c hd)) (10 * acc + (c.toNat - 48))
      have hstep : 10 * acc + (c.toNat - 48) + 1 ≤ (acc + 1) * 10 := by omega
      rw [List.foldl_cons, List.length_cons, Nat.pow_succ', ← Nat.mul_assoc]
      exact htail.trans_le (Nat.mul_le_mul_right _ hstep)

theorem digitsValue_lt (s : Bytes) : digitsValue s < 10 ^ s.length := by
  have hall : ∀ c ∈ s.takeWhile isDigit, isDigit c = true := fun c hc => List.mem_takeWhile_imp hc
  have hdigits := foldl_digits_lt hall 0
  rw [Nat.zero_add, Nat.one_mul] at hdigits
  exact hdigits.trans_le (Nat.pow_le_pow_right (by decide) (List.takeWhile_sublist _).length_le)

/-- `k` characters write a number of at most `k` digits. -/
theorem natAbs_atoi_lt (s : Bytes) : (atoi s).natAbs < 10 ^ s.length := by
  have hlen : (s.dropWhile isSpace).length ≤ s.length := (List.dropWhile_sublist _).length_le
  have hle : ∀ ds : Bytes, ds.length ≤ (s.dropWhile isSpace).length →
      digitsValue ds < 10 ^ s.length := fun ds hds =>
    (digitsValue_lt ds).trans_le (Nat.pow_le_pow_right (by decide) (hds.trans hlen))
  unfold atoi
  split
  · rename_i ds h
    rw [Int.natAbs_neg, Int.natAbs_natCast]
    exact hle ds (by rw [h]; exact Nat.le_succ _)
  · rename_i ds h
    exact hle ds (by rw [h]; exact Nat.le_succ _)
  · exact hle _ le_rfl

end CLib
