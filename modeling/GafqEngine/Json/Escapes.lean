import GafqEngine.Json.Text

/-!
# The `\u` escapes

What the two patterns of `parse_string` match: four hexadecimal digits, and two groups
of them of which the first is the first half of a surrogate pair. The second pattern is
tried first and takes any group for the other half, so a first half never stands alone
in front of another escape.
-/

namespace GafqEngine

open CLib Gafq Scan

namespace Json

/-- A property of bytes is checked on all of them. -/
theorem forall_byte {P : UInt8 → Prop} (h : ∀ n : Fin 256, P (UInt8.ofNat n)) (c : UInt8) :
    P c := by
  have hc := h ⟨c.toNat, c.toNat_lt⟩
  rwa [UInt8.ofNat_toNat] at hc

theorem hexDigit_lt : ∀ c : UInt8, isHexDigit c = true → hexDigit c < 16 :=
  forall_byte (by decide +kernel)

theorem mem_dD_iff : ∀ c : UInt8,
    (ascii "dD").contains c = true ↔ isHexDigit c = true ∧ hexDigit c = 13 :=
  forall_byte (by decide +kernel)

theorem mem_89aAbB_iff : ∀ c : UInt8, (ascii "89aAbB").contains c = true ↔
    isHexDigit c = true ∧ 8 ≤ hexDigit c ∧ hexDigit c < 12 :=
  forall_byte (by decide +kernel)

theorem fits_quadPattern {w : Bytes} : Fits quadPattern w ↔ Quad w := by
  rw [quadPattern, fits_replicate]
  exact ⟨fun h => ⟨h.1, h.2⟩, fun h => ⟨h.length, h.digits⟩⟩

theorem Quad.exists_eq {w : Bytes} (h : Quad w) : ∃ a b c d, w = [a, b, c, d] ∧
    isHexDigit a = true ∧ isHexDigit b = true ∧ isHexDigit c = true ∧ isHexDigit d = true := by
  obtain ⟨a, b, c, d, rfl⟩ := List.length_eq_four.mp h.length
  have hdigits := h.digits
  simp only [List.mem_cons, List.not_mem_nil, or_false, forall_eq_or_imp, forall_eq] at hdigits
  exact ⟨a, b, c, d, rfl, hdigits⟩

/-- The digits of the first half of a surrogate pair. -/
theorem isHigh_iff {a b c d : UInt8} (ha : isHexDigit a = true) (hb : isHexDigit b = true)
    (hc : isHexDigit c = true) (hd : isHexDigit d = true) :
    IsHigh [a, b, c, d] ↔ hexDigit a = 13 ∧ 8 ≤ hexDigit b ∧ hexDigit b < 12 := by
  have ha' := hexDigit_lt a ha
  have hb' := hexDigit_lt b hb
  have hc' := hexDigit_lt c hc
  have hd' := hexDigit_lt d hd
  simp only [IsHigh, hexValue, List.foldl_cons, List.foldl_nil]
  omega

theorem hexValue_lt {w : Bytes} (h : Quad w) : hexValue w < 0x10000 := by
  obtain ⟨a, b, c, d, rfl, ha, hb, hc, hd⟩ := h.exists_eq
  have ha' := hexDigit_lt a ha
  have hb' := hexDigit_lt b hb
  have hc' := hexDigit_lt c hc
  have hd' := hexDigit_lt d hd
  simp only [hexValue, List.foldl_cons, List.foldl_nil]
  omega

theorem fits_single {s : Bytes} {c : UInt8} {w : Bytes} (hs : s = [c]) :
    Fits [s.contains] w ↔ w = s := by
  subst hs
  rw [Fits, List.forall₂_cons_left_iff]
  simp [List.forall₂_nil_left_iff]

/-- The pattern for two escapes: a first half, and any group behind it. -/
theorem fits_pairPattern {w : Bytes} : Fits pairPattern w ↔
    ∃ q q', w = q ++ (ascii "\\u" ++ q') ∧ Quad q ∧ IsHigh q ∧ Quad q' := by
  have hsplit : pairPattern = [(ascii "dD").contains, (ascii "89aAbB").contains, isHexDigit,
      isHexDigit] ++ ([(ascii "\\").contains] ++ ([(ascii "u").contains] ++ quadPattern)) := rfl
  have hhigh : ∀ q : Bytes, Fits [(ascii "dD").contains, (ascii "89aAbB").contains, isHexDigit,
      isHexDigit] q ↔ Quad q ∧ IsHigh q := by
    intro q
    constructor
    · intro h
      obtain ⟨a, b, c, d, rfl⟩ := List.length_eq_four.mp h.length.symm
      simp only [fits_cons, mem_dD_iff, mem_89aAbB_iff] at h
      obtain ⟨⟨ha, ha'⟩, ⟨hb, hb'⟩, hc, hd, -⟩ := h
      exact ⟨⟨rfl, by simp [ha, hb, hc, hd]⟩, (isHigh_iff ha hb hc hd).mpr ⟨ha', hb'⟩⟩
    · rintro ⟨hq, hh⟩
      obtain ⟨a, b, c, d, rfl, ha, hb, hc, hd⟩ := hq.exists_eq
      obtain ⟨ha', hb'⟩ := (isHigh_iff ha hb hc hd).mp hh
      simp only [fits_cons, mem_dD_iff, mem_89aAbB_iff]
      exact ⟨⟨ha, ha'⟩, ⟨hb, hb'⟩, hc, hd, .nil⟩
  rw [hsplit]
  simp only [fits_append, hhigh, fits_single (s := ascii "\\") rfl,
    fits_single (s := ascii "u") rfl, fits_quadPattern]
  constructor
  · rintro ⟨q, _, rfl, ⟨hq, hh⟩, _, _, rfl, rfl, _, q', rfl, rfl, hq'⟩
    exact ⟨q, q', rfl, hq, hh, hq'⟩
  · rintro ⟨q, q', rfl, hq, hh, hq'⟩
    exact ⟨q, ascii "\\u" ++ q', rfl, ⟨hq, hh⟩, ascii "\\", ascii "u" ++ q', rfl, rfl, ascii "u",
      q', rfl, rfl, hq'⟩

theorem matchEscape_of_pair {q q' : Bytes} (hq : Quad q) (hh : IsHigh q) (hq' : Quad q')
    (t : Bytes) :
    matchEscape (q ++ (ascii "\\u" ++ (q' ++ t))) = some (q ++ (ascii "\\u" ++ q')) := by
  have hmatch : matchClasses pairPattern (q ++ (ascii "\\u" ++ (q' ++ t))) =
      some (q ++ (ascii "\\u" ++ q')) :=
    matchClasses_eq_some_iff.mpr ⟨fits_pairPattern.mpr ⟨q, q', rfl, hq, hh, hq'⟩,
      ⟨t, by simp only [List.append_assoc]⟩⟩
  rw [matchEscape, hmatch]
  rfl

theorem matchEscape_of_quad {q t : Bytes} (hq : Quad q)
    (hsingle : IsHigh q → ∀ q' t', Quad q' → t ≠ ascii "\\u" ++ (q' ++ t')) :
    matchEscape (q ++ t) = some q := by
  have hnone : matchClasses pairPattern (q ++ t) = none := by
    rw [Option.eq_none_iff_forall_ne_some]
    intro w hw
    obtain ⟨hfits, t', ht'⟩ := matchClasses_eq_some_iff.mp hw
    obtain ⟨p, p', rfl, hp, hh, hp'⟩ := fits_pairPattern.mp hfits
    simp only [List.append_assoc] at ht'
    obtain ⟨rfl, rfl⟩ := List.append_inj ht' (hp.length.trans hq.length.symm)
    exact hsingle hh p' t' hp' rfl
  have hmatch : matchClasses quadPattern (q ++ t) = some q :=
    matchClasses_eq_some_iff.mpr ⟨fits_quadPattern.mpr hq, List.prefix_append _ _⟩
  rw [matchEscape, hnone, ← hmatch]
  rfl

/-- What is matched behind `\u` is an escape of one of the two kinds. -/
theorem matchEscape_cases {s hex : Bytes} (h : matchEscape s = some hex) :
    (∃ q q' t, hex = q ++ (ascii "\\u" ++ q') ∧ s = q ++ (ascii "\\u" ++ (q' ++ t)) ∧ Quad q ∧
        IsHigh q ∧ Quad q') ∨
      ∃ t, s = hex ++ t ∧ Quad hex ∧
        (IsHigh hex → ∀ q' t', Quad q' → t ≠ ascii "\\u" ++ (q' ++ t')) := by
  rw [matchEscape] at h
  cases hpair : matchClasses pairPattern s with
  | some w =>
      rw [hpair] at h
      obtain rfl : w = hex := Option.some.inj h
      obtain ⟨hfits, t, rfl⟩ := matchClasses_eq_some_iff.mp hpair
      obtain ⟨q, q', rfl, hq, hh, hq'⟩ := fits_pairPattern.mp hfits
      exact Or.inl ⟨q, q', t, rfl, by simp only [List.append_assoc], hq, hh, hq'⟩
  | none =>
      rw [hpair] at h
      obtain ⟨hfits, t, rfl⟩ := matchClasses_eq_some_iff.mp h
      refine Or.inr ⟨t, rfl, fits_quadPattern.mp hfits, ?_⟩
      rintro hh q' t' hq' rfl
      have hsome := matchClasses_eq_some_iff.mpr ⟨fits_pairPattern.mpr
        ⟨hex, q', rfl, fits_quadPattern.mp hfits, hh, hq'⟩, t', rfl⟩
      simp only [List.append_assoc] at hsome
      rw [hpair] at hsome
      cases hsome

theorem matchEscape_prefix {s hex : Bytes} (h : matchEscape s = some hex) : ∃ t, s = hex ++ t := by
  rcases matchEscape_cases h with ⟨q, q', t, rfl, rfl, -⟩ | ⟨t, rfl, -⟩
  · exact ⟨t, by simp only [List.append_assoc]⟩
  · exact ⟨t, rfl⟩

theorem parseUnicodeEscape_quad {q : Bytes} (hq : Quad q) :
    parseUnicodeEscape q = codepointToUtf8 (hexValue q) := by
  have hfirst : slice q 1 4 = q := by
    have hslice := (at_start (q ++ [])).slice_append
    rwa [hq.length, List.append_nil] at hslice
  have hsecond : slice q 7 10 = [] := slice_of_lt (by rw [hq.length]; decide) 10
  have hne : q.isEmpty = false := by
    rw [List.isEmpty_eq_false_iff, ← List.length_pos_iff, hq.length]
    decide
  simp only [parseUnicodeEscape, hfirst, hsecond, tonumber16, hne, List.isEmpty_nil, if_true,
    Bool.false_eq_true, if_false]

theorem parseUnicodeEscape_pair {q q' : Bytes} (hq : Quad q) (hq' : Quad q') :
    parseUnicodeEscape (q ++ (ascii "\\u" ++ q')) =
      codepointToUtf8 (((hexValue q : ℤ) - 0xd800) * 0x400 + ((hexValue q' : ℤ) - 0xdc00) +
        0x10000) := by
  have hstart := at_start (q ++ (ascii "\\u" ++ q'))
  have hfirst := hstart.slice_append
  have hother : At (q ++ (ascii "\\u" ++ q')) (1 + q.length + (ascii "\\u").length) (q' ++ []) := by
    rw [List.append_nil]
    exact hstart.append.append
  have hsecond := hother.slice_append
  have hulen : (ascii "\\u").length = 2 := rfl
  rw [hq.length] at hfirst hsecond
  rw [hulen, hq'.length] at hsecond
  have hne : q.isEmpty = false := by
    rw [List.isEmpty_eq_false_iff, ← List.length_pos_iff, hq.length]
    decide
  have hne' : q'.isEmpty = false := by
    rw [List.isEmpty_eq_false_iff, ← List.length_pos_iff, hq'.length]
    decide
  simp only [parseUnicodeEscape, hfirst, hsecond, tonumber16, hne, hne', Bool.false_eq_true,
    if_false]

end Json

end GafqEngine
