import GafqEngine.Json.Complete
import GafqEngine.Json.Utf8
import Mathlib.Data.List.DropRight

/-!
# How decoding ends

The decoder always ends with a value or with one of its own errors. An error names the
line and the column of a byte, or of the end of the text; where a comma or a bracket is
missing the position is one further on, so at most two behind the last byte. The one
error without a position is about a pair of escapes whose number lies behind the last
code point. That the steps suffice is part of the same induction: each call starts further
on than the one before the last. The interpreter's own limit on nested calls, which about
twenty thousand open brackets reach, is not part of the model.
-/

namespace GafqEngine

open CLib Gafq Scan

namespace Json

/-- The column behind the first `k` bytes, counted from one. Behind the end of the text
the columns go on. -/
def column (str : Bytes) (k : ℕ) : ℕ :=
  ((str.take k).rtakeWhile fun c => c != 10).length + (k - str.length) + 1

/-- The messages about the byte at a position, or the end of the text there. -/
inductive Message : Bytes → Prop
  | controlCharacter : Message (ascii "control character in string")
  | unicodeEscape : Message (ascii "invalid unicode escape in string")
  | escapeChar (c : Bytes) : Message (ascii "invalid escape char '" ++ c ++ ascii "' in string")
  | closingQuote : Message (ascii "expected closing quote for string")
  | number (s : Bytes) : Message (ascii "invalid number '" ++ s ++ ascii "'")
  | literal (word : Bytes) : Message (ascii "invalid literal '" ++ word ++ ascii "'")
  | character (chr : Bytes) : Message (ascii "unexpected character '" ++ chr ++ ascii "'")
  | key : Message (ascii "expected string for key")
  | colon : Message (ascii "expected ':' after key")
  | garbage : Message (ascii "trailing garbage")

/-- The messages about a byte that was passed already. -/
inductive Separator : Bytes → Prop
  | array : Separator (ascii "expected ']' or ','")
  | object : Separator (ascii "expected '\x7d' or ','")

def located (str msg : Bytes) (k : ℕ) : Value :=
  .string (msg ++ ascii " at line " ++ decimal ((str.take k).count 10 + 1) ++
    ascii " col " ++ decimal (column str k))

inductive Fault (str : Bytes) : Value → Prop
  | located {msg : Bytes} {k : ℕ} (hmsg : Message msg) (hk : k ≤ str.length) :
      Fault str (located str msg k)
  | separator {msg : Bytes} {k : ℕ} (hmsg : Separator msg) (hk : k ≤ str.length + 1) :
      Fault str (located str msg k)
  | codepoint {n : ℕ} (hlo : 0x10ffff < n) (hhi : n < 0x112000) :
      Fault str (.string (ascii "invalid unicode codepoint '" ++ hexadecimal n ++ ascii "'"))

/-- A result that satisfies the property, or an error of the decoder. -/
def Outcome {α : Type} (str : Bytes) (P : α → Prop) : Except Stop α → Prop
  | .ok a => P a
  | .error (.error err) => Fault str err
  | .error .outOfFuel => False

theorem Outcome.bind {α β : Type} {str : Bytes} {P : α → Prop} {Q : β → Prop}
    {m : Except Stop α} {f : α → Except Stop β} (hm : Outcome str P m)
    (hf : ∀ a, P a → Outcome str Q (f a)) : Outcome str Q (m >>= f) := by
  cases m with
  | ok a => exact hf a hm
  | error e =>
      cases e with
      | error err => exact hm
      | outOfFuel => exact hm.elim

theorem Outcome.mono {α : Type} {str : Bytes} {P Q : α → Prop} {m : Except Stop α}
    (hm : Outcome str P m) (h : ∀ a, P a → Q a) : Outcome str Q m := by
  cases m with
  | ok a => exact h a hm
  | error e =>
      cases e with
      | error err => exact hm
      | outOfFuel => exact hm.elim

theorem slice_succ (str : Bytes) (k : ℕ) : slice str (k + 1) (k + 1) = (str.drop k).take 1 := by
  rw [slice, Nat.add_sub_cancel, List.drop_take, Nat.add_sub_cancel_left]

/-- The loop of `decode_error` counts the newlines, and the bytes behind the last one. -/
theorem lineAndCol_succ (str : Bytes) (k : ℕ) :
    lineAndCol str (k + 1) = ((str.take k).count 10 + 1, column str k) := by
  rw [lineAndCol, Nat.add_sub_cancel]
  induction k with
  | zero =>
      rw [column, List.take_zero, Nat.zero_sub]
      rfl
  | succ k ih =>
      rw [List.range'_1_concat, List.foldl_append, ih, List.foldl_cons, List.foldl_nil,
        Nat.add_comm 1 k, slice_succ, column, column]
      rcases Nat.lt_or_ge k str.length with hk | hk
      · have htake : str.take (k + 1) = str.take k ++ [str[k]] :=
          (List.take_append_getElem hk).symm
        have hslice : (str.drop k).take 1 = [str[k]] := by
          rw [List.drop_eq_getElem_cons hk, List.take_succ_cons, List.take_zero]
        rw [htake, hslice, List.count_append, Nat.sub_eq_zero_of_le hk, Nat.sub_eq_zero_of_le hk.le]
        by_cases hnewline : str[k] = 10
        · rw [if_pos (by rw [hnewline]; rfl), hnewline,
            List.rtakeWhile_concat_neg _ _ _ (by decide)]
          rfl
        · have hne : [str[k]] ≠ ascii "\n" := fun h => hnewline (List.singleton_inj.mp h)
          rw [if_neg hne,
            List.rtakeWhile_concat_pos _ _ _ (by simpa using hnewline), List.count_singleton,
            List.length_append]
          simp [hnewline]
      · have htake : str.take (k + 1) = str.take k := by
          rw [List.take_of_length_le hk, List.take_of_length_le (Nat.le_succ_of_le hk)]
        have hslice : (str.drop k).take 1 = [] := by
          rw [List.drop_of_length_le hk, List.take_nil]
        rw [htake, hslice, if_neg (by decide), Nat.succ_sub hk]
        rfl

theorem decodeError_succ {α : Type} (str msg : Bytes) (k : ℕ) :
    (decodeError str (k + 1) msg : Except Stop α) = .error (.error (located str msg k)) := by
  rw [decodeError, lineAndCol_succ]
  rfl

theorem outcome_codepointToUtf8 {str : Bytes} {n : ℕ} (h : n < 0x112000) :
    Outcome str (fun _ => True) (codepointToUtf8 n) := by
  rcases Nat.lt_or_ge 0x10ffff n with hlt | hle
  · rw [codepointToUtf8_of_lt hlt]
    exact .codepoint hlt h
  · obtain ⟨text, htext⟩ := exists_codepointToUtf8 hle
    rw [htext]
    trivial

/-- The pair of escapes stands for a number that is a code point or little more. -/
theorem outcome_parseUnicodeEscape {str s hex : Bytes} (h : matchEscape s = some hex) :
    Outcome str (fun _ => True) (parseUnicodeEscape hex) := by
  rcases matchEscape_cases h with ⟨q, q', t, rfl, -, hq, hh, hq'⟩ | ⟨t, -, hq, -⟩
  · have hlt := hexValue_lt hq'
    obtain ⟨hlo, hhi⟩ := hh
    have hcast : ∃ n : ℕ, n < 0x112000 ∧
        ((hexValue q : ℤ) - 0xd800) * 0x400 + ((hexValue q' : ℤ) - 0xdc00) + 0x10000 = n := by
      refine ⟨(hexValue q - 0xd800) * 0x400 + hexValue q' + 0x2400, ?_, ?_⟩
      · omega
      · omega
    obtain ⟨n, hn, hcast⟩ := hcast
    rw [parseUnicodeEscape_pair hq hq', hcast]
    exact outcome_codepointToUtf8 hn
  · have hlt := hexValue_lt hq
    rw [parseUnicodeEscape_quad hq]
    exact outcome_codepointToUtf8 (hlt.trans (by decide))

/-- A result whose position has less than so many bytes behind it. -/
def Within {α : Type} (str : Bytes) (n : ℕ) (p : α × ℕ) : Prop :=
  ∃ r, At str p.2 r ∧ r.length < n

theorem Within.mono {α : Type} {str : Bytes} {m n : ℕ} {p : α × ℕ} (h : Within str m p)
    (hle : m ≤ n) : Within str n p := by
  obtain ⟨r, hr, hlt⟩ := h
  exact ⟨r, hr, hlt.trans_le hle⟩

theorem At.le_end {str : Bytes} {i : ℕ} {r : Bytes} (h : At str i r) : i ≤ str.length + 1 := by
  have hlen := h.length
  omega

/-- The error of the decoder where text stands, or right behind it. -/
theorem outcome_error {α : Type} {str msg : Bytes} {P : α → Prop} {i : ℕ} {r : Bytes}
    (h : At str i r) (hmsg : Message msg) :
    Outcome str P (decodeError str i msg : Except Stop α) := by
  have hle := At.le_end h
  obtain ⟨k, rfl⟩ := Nat.exists_eq_add_of_lt h.pos
  rw [Nat.zero_add] at hle ⊢
  rw [decodeError_succ]
  exact .located hmsg (Nat.le_of_succ_le_succ hle)

theorem outcome_error_succ {α : Type} {str msg : Bytes} {P : α → Prop} {i : ℕ} {r : Bytes}
    (h : At str i r) (hmsg : Separator msg) :
    Outcome str P (decodeError str (i + 1) msg : Except Stop α) := by
  rw [decodeError_succ]
  exact .separator hmsg (At.le_end h)

/-- How the loop of `parse_string` ends, with enough steps for the bytes in front of it. -/
def StringLoopTotal (str : Bytes) (i fuel : ℕ) : Prop :=
  ∀ (passed : Bytes) {res : Bytes} {k : ℕ} {r : Bytes}, At str k (passed ++ r) →
    r.length < fuel →
    Outcome str (Within str r.length) (parseStringLoop str i fuel res (k + passed.length) k)

theorem escapeStep_total {str : Bytes} {i fuel : ℕ} (ih : StringLoopTotal str i fuel)
    {res : Bytes} {j : ℕ} {r : Bytes} (h : At str (j + 1) r) (hat : At str j (ascii "\\" ++ r))
    (hfuel : r.length ≤ fuel) :
    Outcome str (Within str r.length) (escapeStep str i fuel res j r) := by
  cases r with
  | nil => exact outcome_error hat (.escapeChar [])
  | cons c r =>
      rw [List.length_cons] at hfuel
      rw [escapeStep]
      split
      · cases hhex : matchEscape r with
        | none => exact outcome_error hat .unicodeEscape
        | some hex =>
            apply (outcome_parseUnicodeEscape hhex).bind
            intro text _
            have hpos : j + 1 + hex.length + 1 = j + 1 + 1 + hex.length := by omega
            obtain ⟨t, rfl⟩ := matchEscape_prefix hhex
            rw [hpos]
            rw [List.length_append] at hfuel
            apply (ih [] h.tail.append (by omega)).mono
            intro p hp
            apply hp.mono
            rw [List.length_cons, List.length_append]
            omega
      · cases he : escapeCharMapInv [c] with
        | none => exact outcome_error hat (.escapeChar _)
        | some e =>
            apply (ih [] h.tail (by omega)).mono
            intro p hp
            exact hp.mono (Nat.le_succ _)

theorem parseStringLoop_total (str : Bytes) {i : ℕ} {r : Bytes} (hi : At str i r) (fuel : ℕ) :
    StringLoopTotal str i fuel := by
  induction fuel with
  | zero =>
      intro passed res k r h hfuel
      cases hfuel
  | succ fuel ih =>
      intro passed res k r h hfuel
      rw [parseStringLoop_succ i fuel res h]
      cases r with
      | nil => exact outcome_error hi .closingQuote
      | cons x r =>
          rw [List.length_cons, Nat.add_lt_add_iff_right] at hfuel
          simp only
          split
          · exact outcome_error h.append .controlCharacter
          · split
            · next hx =>
                subst hx
                apply (escapeStep_total ih h.append.tail h.append hfuel.le).mono
                intro p hp
                exact hp.mono (Nat.le_succ _)
            · split
              · exact ⟨r, h.append.tail, Nat.lt_succ_self _⟩
              · have hat : At str k ((passed ++ [x]) ++ r) := by
                  rwa [List.append_assoc, List.singleton_append]
                have hpos : k + passed.length + 1 = k + (passed ++ [x]).length := by
                  rw [List.length_append, List.length_singleton, Nat.add_assoc]
                rw [hpos]
                apply (ih _ hat hfuel).mono
                intro p hp
                exact hp.mono (Nat.le_succ _)

theorem parseString_total {str : Bytes} {i : ℕ} {c : UInt8} {r : Bytes} (h : At str i (c :: r)) :
    Outcome str (Within str (c :: r).length) (parseString str i) := by
  have hlen := h.length
  have hpos := h.pos
  rw [List.length_cons] at hlen
  apply (parseStringLoop_total str h _ [] h.tail (by omega)).mono
  intro p hp
  exact hp.mono (Nat.le_succ _)

theorem token_total {str : Bytes} {i : ℕ} {r : Bytes} (h : At str i r)
    (hne : r.takeWhile inToken ≠ []) (v : Value) :
    Within str r.length (v, i + (r.takeWhile inToken).length) := by
  have hsplit : r = r.takeWhile inToken ++ r.dropWhile inToken :=
    (List.takeWhile_append_dropWhile).symm
  have hpos := List.length_pos_of_ne_nil hne
  have hlen := congrArg List.length hsplit
  rw [List.length_append] at hlen
  rw [hsplit] at h
  exact ⟨_, h.append, by omega⟩

theorem parseLiteral_total {str : Bytes} {i : ℕ} {r : Bytes} (h : At str i r) :
    Outcome str (Within str r.length) (parseLiteral str i) := by
  rw [parseLiteral_eq h]
  cases hv : literalMap (r.takeWhile inToken) with
  | none => exact outcome_error h (.literal _)
  | some v =>
      apply token_total h
      intro hnil
      rw [hnil] at hv
      cases hv

theorem parseNumber_total (lib : Lib) {str : Bytes} {i : ℕ} {c : UInt8} {r : Bytes}
    (h : At str i (c :: r)) (hc : c ∈ ascii "0123456789-") :
    Outcome str (Within str (c :: r).length) (parseNumber lib str i) := by
  rw [parseNumber_eq lib h]
  cases hn : lib.stringToNumber ((c :: r).takeWhile inToken) with
  | none => exact outcome_error h (.number _)
  | some n =>
      apply token_total h
      rw [List.takeWhile_cons_of_pos (inToken_of_number c hc)]
      exact List.cons_ne_nil _ _

/-- How `parse` ends, with enough steps for the bytes in front of it. -/
def ParseTotal (lib : Lib) (str : Bytes) (fuel : ℕ) : Prop :=
  ∀ {idx : ℕ} {r : Bytes}, At str idx r → 2 * r.length + 1 ≤ fuel →
    Outcome str (Within str r.length) (parse lib str fuel idx)

def ArrayTotal (lib : Lib) (str : Bytes) (fuel : ℕ) : Prop :=
  ∀ {res : List (Value × Value)} {n i : ℕ} {r : Bytes}, At str i r → 2 * r.length + 2 ≤ fuel →
    Outcome str (Within str r.length) (parseArray lib str fuel res n i)

def ObjectTotal (lib : Lib) (str : Bytes) (fuel : ℕ) : Prop :=
  ∀ {res : List (Value × Value)} {i : ℕ} {r : Bytes}, At str i r → 2 * r.length + 2 ≤ fuel →
    Outcome str (Within str r.length) (parseObject lib str fuel res i)

theorem parse_total {lib : Lib} {str : Bytes} {fuel : ℕ} (harray : ArrayTotal lib str fuel)
    (hobject : ObjectTotal lib str fuel) : ParseTotal lib str (fuel + 1) := by
  intro idx r h hfuel
  cases r with
  | nil =>
      rw [parse_nil lib fuel h]
      exact outcome_error h (.character [])
  | cons c r =>
      rw [List.length_cons] at hfuel
      rw [parse_cons lib fuel h]
      cases hf : charFuncMap [c] with
      | none => exact outcome_error h (.character _)
      | some f =>
          cases f with
          | parseString =>
              have hstring := parseString_total h
              cases hs : parseString str idx with
              | error e =>
                  rw [hs] at hstring
                  cases e with
                  | error err => exact hstring
                  | outOfFuel => exact hstring.elim
              | ok p =>
                  rw [hs] at hstring
                  exact hstring
          | parseNumber => exact parseNumber_total lib h (starts_of_charFuncMap hf)
          | parseLiteral => exact parseLiteral_total h
          | parseArray =>
              apply (harray h.tail (by omega)).mono
              intro p hp
              exact hp.mono (Nat.le_succ _)
          | parseObject =>
              apply (hobject h.tail (by omega)).mono
              intro p hp
              exact hp.mono (Nat.le_succ _)

/-- Behind the blanks, no more bytes are left than in front of them. -/
theorem exists_blank_le {str : Bytes} {i : ℕ} {r : Bytes} (h : At str i r) :
    ∃ r', At str (nextChar str i spaceChars true) r' ∧ r'.length ≤ r.length :=
  ⟨_, At.nextChar_space h, (List.dropWhile_suffix _).length_le⟩

theorem parseArray_total {lib : Lib} {str : Bytes} {fuel : ℕ} (hparse : ParseTotal lib str fuel)
    (harray : ArrayTotal lib str fuel) : ArrayTotal lib str (fuel + 1) := by
  intro res n i r h hfuel
  obtain ⟨r₁, h₁, hle₁⟩ := exists_blank_le h
  rw [parseArray]
  simp only
  split
  · next hclose =>
      obtain ⟨t, rfl⟩ := eq_append_of_slice h₁ hclose rfl
      exact ⟨t, h₁.tail, hle₁⟩
  · apply (hparse h₁ (by omega)).bind
    rintro ⟨x, i₂⟩ ⟨r₂, h₂, hlt₂⟩
    obtain ⟨r₃, h₃, hle₃⟩ := exists_blank_le h₂
    simp only
    split
    · next hclose =>
        obtain ⟨t, rfl⟩ := eq_append_of_slice h₃ hclose rfl
        refine ⟨t, h₃.tail, ?_⟩
        rw [List.length_append] at hle₃
        omega
    · split
      · next hcomma =>
          obtain ⟨t, rfl⟩ := eq_append_of_slice h₃ hcomma rfl
          rw [List.length_append, show (ascii ",").length = 1 from rfl] at hle₃
          have h₄ : At str (nextChar str i₂ spaceChars true + 1) t := h₃.tail
          apply (harray h₄ (by omega)).mono
          intro p hp
          exact hp.mono (by omega)
      · exact outcome_error_succ h₃ .array

theorem parseObject_total {lib : Lib} {str : Bytes} {fuel : ℕ} (hparse : ParseTotal lib str fuel)
    (hobject : ObjectTotal lib str fuel) : ObjectTotal lib str (fuel + 1) := by
  intro res i r h hfuel
  obtain ⟨r₁, h₁, hle₁⟩ := exists_blank_le h
  rw [parseObject]
  simp only
  split
  · next hclose =>
      obtain ⟨t, rfl⟩ := eq_append_of_slice h₁ hclose rfl
      exact ⟨t, h₁.tail, hle₁⟩
  · split
    · apply (hparse h₁ (by omega)).bind
      rintro ⟨key, i₂⟩ ⟨r₂, h₂, hlt₂⟩
      obtain ⟨r₃, h₃, hle₃⟩ := exists_blank_le h₂
      simp only
      split
      · next hcolon =>
          obtain ⟨t, rfl⟩ := eq_append_of_slice h₃ hcolon rfl
          rw [List.length_append, show (ascii ":").length = 1 from rfl] at hle₃
          have htail : At str (nextChar str i₂ spaceChars true + 1) t := h₃.tail
          obtain ⟨r₄, h₄, hle₄⟩ := exists_blank_le htail
          apply (hparse h₄ (by omega)).bind
          rintro ⟨x, i₅⟩ ⟨r₅, h₅, hlt₅⟩
          obtain ⟨r₆, h₆, hle₆⟩ := exists_blank_le h₅
          simp only
          split
          · next hclose =>
              obtain ⟨t', rfl⟩ := eq_append_of_slice h₆ hclose rfl
              refine ⟨t', h₆.tail, ?_⟩
              rw [List.length_append] at hle₆
              omega
          · split
            · next hcomma =>
                obtain ⟨t', rfl⟩ := eq_append_of_slice h₆ hcomma rfl
                rw [List.length_append, show (ascii ",").length = 1 from rfl] at hle₆
                have h₇ : At str (nextChar str i₅ spaceChars true + 1) t' := h₆.tail
                apply (hobject h₇ (by omega)).mono
                intro p hp
                exact hp.mono (by omega)
            · exact outcome_error_succ h₆ .object
      · exact outcome_error h₃ .colon
    · exact outcome_error h₁ .key

theorem all_total (lib : Lib) (str : Bytes) (fuel : ℕ) :
    ParseTotal lib str fuel ∧ ArrayTotal lib str fuel ∧ ObjectTotal lib str fuel := by
  induction fuel with
  | zero =>
      refine ⟨?_, ?_, ?_⟩
      · intro idx r _ hfuel
        cases hfuel
      · intro res n i r _ hfuel
        cases hfuel
      · intro res i r _ hfuel
        cases hfuel
  | succ fuel ih =>
      obtain ⟨hparse, harray, hobject⟩ := ih
      exact ⟨parse_total harray hobject, parseArray_total hparse harray,
        parseObject_total hparse hobject⟩

theorem outcome_decode (lib : Lib) (str : Bytes) :
    Outcome str (fun _ => True) (decode lib str) := by
  obtain ⟨r, h, hle⟩ := exists_blank_le (at_start str)
  apply ((all_total lib str _).1 h (by omega)).bind
  rintro ⟨x, i⟩ ⟨r', h', -⟩
  obtain ⟨r'', h'', -⟩ := exists_blank_le h'
  simp only
  split
  · exact outcome_error h'' .garbage
  · trivial

/-- `json.decode` ends on every text, with a value or with an error of its own. -/
theorem decode_total (lib : Lib) (str : Bytes) :
    (∃ v, decode lib str = .ok v) ∨
      ∃ err, decode lib str = .error (.error err) ∧ Fault str err := by
  have h := outcome_decode lib str
  cases hd : decode lib str with
  | ok v => exact Or.inl ⟨v, rfl⟩
  | error e =>
      rw [hd] at h
      cases e with
      | error err => exact Or.inr ⟨err, rfl, h⟩
      | outOfFuel => exact h.elim

end Json

end GafqEngine
