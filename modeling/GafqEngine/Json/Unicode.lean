import GafqEngine.Json.Complete
import GafqEngine.Json.Utf8

/-!
# Unicode text in strings

Every character of a text can be spelled in several ways: as it is, by a short escape,
by one `\u` escape, or, outside the first plane, by a pair of them. Whatever spellings a
text is put together from, the decoder returns its UTF-8 encoding.
-/

namespace GafqEngine

open CLib Gafq

namespace Json

/-- The ways to spell a text between the quotes of a string. -/
inductive UnicodeText : Bytes → List Char → Prop
  | nil : UnicodeText [] []
  | raw {c : Char} {w : Bytes} {cs : List Char} (hcontrol : 32 ≤ c.toNat) (hquote : c ≠ '"')
      (hescape : c ≠ '\\') (hw : UnicodeText w cs) :
      UnicodeText (String.utf8EncodeChar c ++ w) (c :: cs)
  | short {b : UInt8} {c : Char} {w : Bytes} {cs : List Char}
      (hb : escapeCharMapInv [b] = some (String.utf8EncodeChar c)) (hw : UnicodeText w cs) :
      UnicodeText (ascii "\\" ++ b :: w) (c :: cs)
  | unicode {q : Bytes} {c : Char} {w : Bytes} {cs : List Char} (hq : Quad q)
      (hc : hexValue q = c.toNat) (hw : UnicodeText w cs) :
      UnicodeText (ascii "\\u" ++ (q ++ w)) (c :: cs)
  | pair {q q' : Bytes} {c : Char} {w : Bytes} {cs : List Char} (hq : Quad q) (hhigh : IsHigh q)
      (hq' : Quad q') (hlow : 0xdc00 ≤ hexValue q')
      (hc : c.toNat = (hexValue q - 0xd800) * 0x400 + (hexValue q' - 0xdc00) + 0x10000)
      (hw : UnicodeText w cs) :
      UnicodeText (ascii "\\u" ++ (q ++ (ascii "\\u" ++ (q' ++ w)))) (c :: cs)

def IsPlain (b : UInt8) : Prop := 32 ≤ b ∧ b ≠ 34 ∧ b ≠ 92

theorem StringText.append_plain {u t s : Bytes} (hu : ∀ b ∈ u, IsPlain b) (ht : StringText t s) :
    StringText (u ++ t) (u ++ s) := by
  induction u with
  | nil => exact ht
  | cons b u ih =>
      obtain ⟨hcontrol, hquote, hescape⟩ := hu b List.mem_cons_self
      exact .plain hcontrol hquote hescape (ih fun b' hb' => hu b' (List.mem_cons_of_mem b hb'))

instance (b : UInt8) : Decidable (IsPlain b) := inferInstanceAs (Decidable (_ ∧ _ ∧ _))

theorem isPlain_of_high : ∀ b : UInt8, 128 ≤ b → IsPlain b :=
  forall_byte (by decide +kernel)

theorem high_ofNat {n : ℕ} (hlo : 128 ≤ n) (hhi : n < 256) : 128 ≤ UInt8.ofNat n := by
  rw [UInt8.le_iff_toNat_le, UInt8.toNat_ofNat_of_lt' hhi]
  exact hlo

theorem utf8_ascii {c : Char} (h : c.toNat ≤ 0x7f) :
    String.utf8EncodeChar c = [UInt8.ofNat c.toNat] :=
  Except.ok.inj ((codepointToUtf8_char c).symm.trans (codepointToUtf8_ascii h))

/-- The bytes of a character outside ASCII are all outside ASCII. -/
theorem utf8_high {c : Char} (h : 0x7f < c.toNat) : ∀ b ∈ String.utf8EncodeChar c, 128 ≤ b := by
  have hle := char_le c
  have henc := codepointToUtf8_char c
  rcases Nat.lt_or_ge 0xffff c.toNat with hfour | hfour
  · rw [codepointToUtf8_four hfour hle] at henc
    rw [← Except.ok.inj henc]
    simp only [List.mem_cons, List.not_mem_nil, or_false, forall_eq_or_imp, forall_eq]
    exact ⟨high_ofNat (by omega) (by omega), high_ofNat (by omega) (by omega),
      high_ofNat (by omega) (by omega), high_ofNat (by omega) (by omega)⟩
  · rcases Nat.lt_or_ge 0x7ff c.toNat with hthree | hthree
    · rw [codepointToUtf8_three hthree hfour] at henc
      rw [← Except.ok.inj henc]
      simp only [List.mem_cons, List.not_mem_nil, or_false, forall_eq_or_imp, forall_eq]
      exact ⟨high_ofNat (by omega) (by omega), high_ofNat (by omega) (by omega),
        high_ofNat (by omega) (by omega)⟩
    · rw [codepointToUtf8_two h hthree] at henc
      rw [← Except.ok.inj henc]
      simp only [List.mem_cons, List.not_mem_nil, or_false, forall_eq_or_imp, forall_eq]
      exact ⟨high_ofNat (by omega) (by omega), high_ofNat (by omega) (by omega)⟩

theorem ofNat_toNat_ne {c d : Char} (hc : c.toNat ≤ 0x7f) (hd : d.toNat ≤ 0x7f) (h : c ≠ d) :
    UInt8.ofNat c.toNat ≠ UInt8.ofNat d.toNat := by
  intro heq
  have hnat := congrArg UInt8.toNat heq
  rw [UInt8.toNat_ofNat_of_lt' (hc.trans_lt (by decide)),
    UInt8.toNat_ofNat_of_lt' (hd.trans_lt (by decide))] at hnat
  exact h (Char.toNat_inj.mp hnat)

/-- The bytes of a character that needs no escape stand for themselves. -/
theorem isPlain_of_mem_utf8 {c : Char} (hcontrol : 32 ≤ c.toNat) (hquote : c ≠ '"')
    (hescape : c ≠ '\\') : ∀ b ∈ String.utf8EncodeChar c, IsPlain b := by
  intro b hb
  rcases Nat.lt_or_ge 0x7f c.toNat with hhigh | hascii
  · exact isPlain_of_high b (utf8_high hhigh b hb)
  · rw [utf8_ascii hascii, List.mem_singleton] at hb
    subst hb
    refine ⟨?_, ofNat_toNat_ne hascii (by decide) hquote,
      ofNat_toNat_ne hascii (by decide) hescape⟩
    rw [UInt8.le_iff_toNat_le, UInt8.toNat_ofNat_of_lt' (hascii.trans_lt (by decide))]
    exact hcontrol

/-- A character that is not in the second half of a surrogate pair is no first half. -/
theorem not_isHigh_of_char {q : Bytes} {c : Char} (h : hexValue q = c.toNat) : ¬ IsHigh q := by
  rintro ⟨hlo, hhi⟩
  rw [h] at hlo hhi
  rcases c.valid with hc | ⟨hc, -⟩
  · have hlt : c.toNat < 0xd800 := hc
    omega
  · have hlt : 0xdfff < c.toNat := hc
    omega

/-- What the spellings put together stand for is the encoded text. -/
theorem stringText_of_unicodeText {w : Bytes} {cs : List Char} (h : UnicodeText w cs) :
    StringText w (cs.flatMap String.utf8EncodeChar) := by
  induction h with
  | nil => exact .nil
  | raw hcontrol hquote hescape _ ih =>
      exact ih.append_plain (isPlain_of_mem_utf8 hcontrol hquote hescape)
  | short hb _ ih => exact .escape hb ih
  | @unicode q c w cs hq hc _ ih =>
      have htext := codepointToUtf8_char c
      rw [← hc] at htext
      exact .unicode hq (fun hhigh => absurd hhigh (not_isHigh_of_char hc)) htext ih
  | @pair q q' c w cs hq hhigh hq' hlow hc _ ih =>
      have htext := codepointToUtf8_char c
      have hcast : (c.toNat : ℤ) =
          ((hexValue q : ℤ) - 0xd800) * 0x400 + ((hexValue q' : ℤ) - 0xdc00) + 0x10000 := by
        have hlo := hhigh.1
        omega
      rw [hcast] at htext
      exact .pair hq hhigh hq' htext ih

/-- Any spelling of a text in quotes decodes to the encoding of the text. -/
theorem decode_unicodeText (lib : Lib) {w : Bytes} {cs : List Char} (h : UnicodeText w cs) :
    decode lib (ascii "\"" ++ (w ++ ascii "\"")) =
      .ok (.string (cs.flatMap String.utf8EncodeChar)) := by
  have htext : Text lib (ascii "\"" ++ (w ++ ascii "\""))
      (.string (cs.flatMap String.utf8EncodeChar)) :=
    .string ⟨w, rfl, stringText_of_unicodeText h⟩
  exact decode_complete htext.spells

/-- The clef outside the first plane, as a pair of escapes behind a newline. -/
theorem decode_unicodeText_clef : decode default (ascii "\"\\n\\ud834\\uDD1E\"") =
    .ok (.string (['\n', '𝄞'].flatMap String.utf8EncodeChar)) := by
  have hq : Quad (ascii "d834") := ⟨rfl, List.all_eq_true.mp (by decide)⟩
  have hq' : Quad (ascii "DD1E") := ⟨rfl, List.all_eq_true.mp (by decide)⟩
  have hclef : UnicodeText (ascii "\\ud834\\uDD1E") ['𝄞'] :=
    .pair (w := []) hq ⟨by decide, by decide⟩ hq' (by decide) (by decide) .nil
  exact decode_unicodeText default (.short (b := 110) (by decide) hclef)

end Json

end GafqEngine
