import GafqEngine.Json.Complete
import GafqEngine.Json.Encode
import GafqEngine.Json.Utf8

/-!
# The texts of the encoder

Whatever `json.encode` returns is a text of the decoder's language, on one line and
without control characters, whatever value it was given: the escapes that it writes
stand for the bytes that they replace, and the texts of the entries are put together as
the elements of an array or the members of an object.
-/

namespace GafqEngine

open CLib Gafq Scan

namespace Json

/-! ### Strings -/

theorem escapeCharMapInv_of_escapeCharMap {c : UInt8} {e : Bytes} (h : escapeCharMap c = some e) :
    ∃ b, e = [b] ∧ escapeCharMapInv [b] = some [c] := by
  unfold escapeCharMap at h
  split_ifs at h with h₁ h₂ h₃ h₄ h₅ h₆ h₇
  all_goals
    subst c
    cases h
    exact ⟨_, rfl, rfl⟩

theorem hexadecimal4_all : ∀ c : UInt8, (hexadecimal4 c.toNat).length = 4 ∧
    (hexadecimal4 c.toNat).all isHexDigit = true ∧ hexValue (hexadecimal4 c.toNat) = c.toNat :=
  forall_byte (by decide +kernel)

theorem hexadecimal4_spec (c : UInt8) : (hexadecimal4 c.toNat).length = 4 ∧
    (∀ d ∈ hexadecimal4 c.toNat, isHexDigit d = true) ∧
      hexValue (hexadecimal4 c.toNat) = c.toNat := by
  obtain ⟨hlen, hdigits, hvalue⟩ := hexadecimal4_all c
  exact ⟨hlen, List.all_eq_true.mp hdigits, hvalue⟩

theorem lt_of_needsEscape : ∀ c : UInt8, needsEscape c = true → c.toNat ≤ 0x7f :=
  forall_byte (by decide +kernel)

/-- What `escape_char` writes stands for the byte. -/
theorem stringText_escapeChar {c : UInt8} (hc : needsEscape c = true) {t s : Bytes}
    (ht : StringText t s) : StringText (escapeChar c ++ t) (c :: s) := by
  cases he : escapeCharMap c with
  | some e =>
      obtain ⟨b, rfl, hb⟩ := escapeCharMapInv_of_escapeCharMap he
      rw [escapeChar, he, Option.getD_some, List.append_assoc]
      exact .escape hb ht
  | none =>
      obtain ⟨hlen, hdigits, hvalue⟩ := hexadecimal4_spec c
      have hlt := lt_of_needsEscape c hc
      have htext := codepointToUtf8_ascii hlt
      rw [UInt8.ofNat_toNat, ← hvalue] at htext
      have hlow : ¬ IsHigh (hexadecimal4 c.toNat) := by
        intro h
        have hlo := h.1
        omega
      rw [escapeChar, he, Option.getD_none, List.append_assoc, List.append_assoc]
      exact .unicode ⟨hlen, hdigits⟩ (fun h => absurd h hlow) htext ht

theorem isPlain_of_not_needsEscape {c : UInt8} (h : ¬ needsEscape c = true) :
    32 ≤ c ∧ c ≠ 34 ∧ c ≠ 92 := by
  simp only [needsEscape, Bool.or_eq_true, decide_eq_true_eq, beq_iff_eq, not_or] at h
  exact ⟨UInt8.not_lt.mp h.1.1, h.2, h.1.2⟩

theorem quoted_encodeString (s : Bytes) : Quoted (encodeString s) s := by
  refine ⟨_, rfl, ?_⟩
  induction s with
  | nil => exact .nil
  | cons c s ih =>
      rw [List.flatMap_cons]
      split
      · next hc => exact stringText_escapeChar hc ih
      · next hc =>
          obtain ⟨hcontrol, hquote, hescape⟩ := isPlain_of_not_needsEscape hc
          exact .plain hcontrol hquote hescape ih

/-! ### Tables -/

theorem concat_cons (w w' : Bytes) (ws : List Bytes) :
    concat (w :: w' :: ws) = w ++ (ascii "," ++ concat (w' :: ws)) := by
  simp [concat, List.intercalate]

theorem concat_singleton (w : Bytes) : concat [w] = w := by
  simp [concat, List.intercalate]

/-- The elements between brackets, with commas between them. -/
theorem elements_concat {lib : Lib} {ws : List Bytes} {xs : List Tree}
    (h : List.Forall₂ (Text lib) ws xs) : Elements lib (concat ws ++ ascii "]") xs := by
  induction h with
  | nil => exact .close blank_nil
  | @cons w x ws xs hx h ih =>
      cases h with
      | nil =>
          rw [concat_singleton]
          exact .last blank_nil hx blank_nil
      | @cons w' x' ws xs hx' h =>
          rw [concat_cons, List.append_assoc, List.append_assoc]
          exact .more blank_nil hx blank_nil ih

def MemberText (lib : Lib) (w : Bytes) (m : Bytes × Tree) : Prop :=
  ∃ t, w = encodeString m.1 ++ (ascii ":" ++ t) ∧ Text lib t m.2

theorem members_concat {lib : Lib} {ws : List Bytes} {members : List (Bytes × Tree)}
    (h : List.Forall₂ (MemberText lib) ws members) :
    Members lib (concat ws ++ ascii "\x7d") members := by
  induction h with
  | nil => exact .close blank_nil
  | @cons w m ws members hm h ih =>
      obtain ⟨t, rfl, hx⟩ := hm
      have hk := quoted_encodeString m.1
      cases h with
      | nil =>
          rw [concat_singleton, List.append_assoc, List.append_assoc]
          exact .last blank_nil hk blank_nil blank_nil hx blank_nil
      | @cons w' m' ws members hm' h =>
          rw [concat_cons]
          simp only [List.append_assoc]
          exact .more blank_nil hk blank_nil blank_nil hx blank_nil ih

/-! ### What the encoder returns -/

theorem encode_bind_eq_ok {α β : Type} {m : Except Value α} {f : α → Except Value β} {b : β} :
    m >>= f = .ok b ↔ ∃ a, m = .ok a ∧ f a = .ok b := by
  cases m with
  | error e => simp [bind, Except.bind]
  | ok a => simp [bind, Except.bind]

theorem mapM_id_eq_ok {α : Type} {ms : List (Except Value α)} {res : List α} :
    ms.mapM id = .ok res ↔ ms = res.map .ok := by
  induction ms generalizing res with
  | nil =>
      cases res with
      | nil => simp [pure, Except.pure]
      | cons a res => simp [pure, Except.pure]
  | cons m ms ih =>
      simp only [List.mapM_cons, id, encode_bind_eq_ok, ih]
      constructor
      · rintro ⟨a, rfl, as, rfl, hres⟩
        cases hres
        rfl
      · intro h
        cases res with
        | nil => cases h
        | cons a as =>
            obtain ⟨rfl, rfl⟩ := List.cons.inj h
            exact ⟨a, rfl, as, rfl, rfl⟩

theorem mem_ipairs {α : Type} {entries : List (Value × α)} {steps i : ℕ} {a : α}
    (h : a ∈ ipairs entries steps i) : ∃ e ∈ entries, e.2 = a := by
  induction steps generalizing i with
  | zero => cases h
  | succ steps ih =>
      rw [ipairs] at h
      split at h
      · cases h
      · next e he =>
          rcases List.mem_cons.mp h with rfl | h
          · exact ⟨e, List.mem_of_find?_eq_some he, rfl⟩
          · exact ih h

/-- The loop over the members succeeds when the keys are strings and the values are
encoded. -/
theorem encodeMembers_eq_ok {encoded : List (Value × Except Value Bytes)} {res : List Bytes} :
    encodeMembers encoded = .ok res ↔ ∃ ms : List (Bytes × Bytes),
      encoded = ms.map (fun m => (.string m.1, .ok m.2)) ∧
        res = ms.map fun m => encodeString m.1 ++ (ascii ":" ++ m.2) := by
  induction encoded generalizing res with
  | nil =>
      rw [encodeMembers]
      constructor
      · intro h
        cases h
        exact ⟨[], rfl, rfl⟩
      · rintro ⟨ms, hms, rfl⟩
        rw [List.map_eq_nil_iff.mp hms.symm]
        rfl
  | cons e encoded ih =>
      obtain ⟨k, text⟩ := e
      constructor
      · intro h
        cases k with
        | string key =>
            rw [encodeMembers] at h
            obtain ⟨t, ht, h⟩ := encode_bind_eq_ok.mp h
            obtain ⟨res', hres', h⟩ := encode_bind_eq_ok.mp h
            obtain ⟨ms, rfl, rfl⟩ := ih.mp hres'
            cases h
            exact ⟨(key, t) :: ms, by rw [ht]; rfl, rfl⟩
        | _ => cases h
      · rintro ⟨ms, hms, rfl⟩
        cases ms with
        | nil => cases hms
        | cons m ms =>
            obtain ⟨hm, rfl⟩ := List.cons.inj hms
            cases hm
            rw [encodeMembers, ih.mpr ⟨ms, rfl, rfl⟩]
            rfl

theorem encodeTable_eq_ok {length : List (Value × Value) → ℕ} {val : List (Value × Value)}
    {encoded : List (Value × Except Value Bytes)} {s : Bytes}
    (h : encodeTable length val encoded = .ok s) :
    (∃ res, (∀ w ∈ res, ∃ e ∈ encoded, e.2 = .ok w) ∧
        s = ascii "[" ++ (concat res ++ ascii "]")) ∨
      ∃ ms : List (Bytes × Bytes), encoded = ms.map (fun m => (.string m.1, .ok m.2)) ∧
        s = ascii "\x7b" ++
          (concat (ms.map fun m => encodeString m.1 ++ (ascii ":" ++ m.2)) ++ ascii "\x7d") := by
  rw [encodeTable] at h
  split at h
  · split at h
    · cases h
    · split at h
      · cases h
      · obtain ⟨res, hres, h⟩ := encode_bind_eq_ok.mp h
        cases h
        refine Or.inl ⟨res, fun w hw => ?_, rfl⟩
        apply mem_ipairs
        rw [mapM_id_eq_ok.mp hres]
        exact List.mem_map_of_mem hw
  · obtain ⟨res, hres, h⟩ := encode_bind_eq_ok.mp h
    obtain ⟨ms, rfl, rfl⟩ := encodeMembers_eq_ok.mp hres
    cases h
    exact Or.inr ⟨ms, rfl, rfl⟩

/-- The numbers that the library writes are read as numbers again. -/
def WritesNumbers (lib : Lib) : Prop :=
  ∀ q, ∃ n, NumberText lib (lib.numberToString (.finite q)) n

def OneLine (w : Bytes) : Prop := ∀ c ∈ w, 32 ≤ c

def LineText (lib : Lib) (w : Bytes) : Prop := OneLine w ∧ ∃ x, Text lib w x

def integerLib : Lib where
  numberToString
    | .finite q => decimalInt ⌊q⌋
    | .infinite true => ascii "-inf"
    | .infinite false => ascii "inf"
    | .nan => ascii "nan"
  stringToNumber s := some (.finite (atoi s))
  address _ := []

theorem mem_numberChars_of_isDigit : ∀ c : UInt8, isDigit c = true → c ∈ ascii "0123456789-" :=
  forall_byte (by decide +kernel)

theorem mem_decimalInt {n : ℤ} {c : UInt8} (h : c ∈ decimalInt n) : c ∈ ascii "0123456789-" := by
  rw [decimalInt] at h
  split at h
  · rcases List.mem_cons.mp h with rfl | h
    · decide
    · exact mem_numberChars_of_isDigit c (isDigit_of_mem_decimal h)
  · exact mem_numberChars_of_isDigit c (isDigit_of_mem_decimal h)

theorem atoi_decimalInt (n : ℤ) : atoi (decimalInt n) = n := by
  have h := atoi_sprintfWidth 0 n
  rwa [sprintfWidth, List.leftpad, Nat.zero_sub, List.replicate_zero, List.nil_append] at h

theorem numberText_decimalInt (n : ℤ) : NumberText integerLib (decimalInt n) (.finite n) where
  start := by
    cases hn : decimalInt n with
    | nil =>
        rw [decimalInt] at hn
        split at hn
        · cases hn
        · exact absurd hn (decimal_ne_nil _)
    | cons c t => exact ⟨c, t, rfl, mem_decimalInt (hn ▸ List.mem_cons_self)⟩
  token c hc := not_mem_delimChars_of_inToken (inToken_of_number c (mem_decimalInt hc))
  value := by
    simp only [integerLib, atoi_decimalInt]

theorem writesNumbers_integerLib : WritesNumbers integerLib :=
  fun q => ⟨_, numberText_decimalInt ⌊q⌋⟩

instance (w : Bytes) : Decidable (OneLine w) := List.decidableBAll _ _

theorem OneLine.append {v w : Bytes} (hv : OneLine v) (hw : OneLine w) : OneLine (v ++ w) := by
  intro c hc
  rcases List.mem_append.mp hc with hc | hc
  · exact hv c hc
  · exact hw c hc

theorem oneLine_escapeChar : ∀ c : UInt8, OneLine (escapeChar c) :=
  forall_byte (by decide +kernel)

theorem oneLine_encodeString (s : Bytes) : OneLine (encodeString s) := by
  apply OneLine.append (by decide)
  apply OneLine.append _ (by decide)
  intro b hb
  obtain ⟨c, -, hb⟩ := List.mem_flatMap.mp hb
  split at hb
  · exact oneLine_escapeChar c b hb
  · next hc =>
      rw [List.mem_singleton.mp hb]
      exact (isPlain_of_not_needsEscape hc).1

theorem oneLine_concat {ws : List Bytes} (h : ∀ w ∈ ws, OneLine w) : OneLine (concat ws) := by
  induction ws with
  | nil =>
      intro c hc
      cases hc
  | cons w ws ih =>
      have hw := h w List.mem_cons_self
      cases ws with
      | nil => rwa [concat_singleton]
      | cons w' ws =>
          rw [concat_cons]
          apply hw.append
          apply OneLine.append (by decide)
          exact ih fun v hv => h v (List.mem_cons_of_mem w hv)

theorem lineText_array {lib : Lib} {res : List Bytes} (h : ∀ w ∈ res, LineText lib w) :
    LineText lib (ascii "[" ++ (concat res ++ ascii "]")) := by
  constructor
  · apply OneLine.append (by decide)
    exact (oneLine_concat fun w hw => (h w hw).1).append (by decide)
  · have hxs : ∃ xs, List.Forall₂ (Text lib) res xs := by
      induction res with
      | nil => exact ⟨[], .nil⟩
      | cons w res ih =>
          obtain ⟨x, hx⟩ := (h w List.mem_cons_self).2
          obtain ⟨xs, hxs⟩ := ih fun v hv => h v (List.mem_cons_of_mem w hv)
          exact ⟨x :: xs, .cons hx hxs⟩
    obtain ⟨xs, hxs⟩ := hxs
    exact ⟨.array xs, .array (elements_concat hxs)⟩

theorem lineText_object {lib : Lib} {ms : List (Bytes × Bytes)}
    (h : ∀ m ∈ ms, LineText lib m.2) :
    LineText lib (ascii "\x7b" ++
      (concat (ms.map fun m => encodeString m.1 ++ (ascii ":" ++ m.2)) ++ ascii "\x7d")) := by
  constructor
  · apply OneLine.append (by decide)
    apply OneLine.append _ (by decide)
    apply oneLine_concat
    intro w hw
    obtain ⟨m, hm, rfl⟩ := List.mem_map.mp hw
    apply (oneLine_encodeString m.1).append
    exact OneLine.append (by decide) (h m hm).1
  · have hmembers : ∃ members, List.Forall₂ (MemberText lib)
        (ms.map fun m => encodeString m.1 ++ (ascii ":" ++ m.2)) members := by
      induction ms with
      | nil => exact ⟨[], .nil⟩
      | cons m ms ih =>
          obtain ⟨x, hx⟩ := (h m List.mem_cons_self).2
          obtain ⟨members, hmembers⟩ := ih fun p hp => h p (List.mem_cons_of_mem m hp)
          exact ⟨(m.1, x) :: members, .cons ⟨m.2, rfl, hx⟩ hmembers⟩
    obtain ⟨members, hmembers⟩ := hmembers
    exact ⟨.object members, .object (members_concat hmembers)⟩

section

variable {lib : Lib} (length : List (Value × Value) → ℕ)

mutual

theorem lineText_encode (hwrites : WritesNumbers lib)
    (hline : ∀ q, OneLine (lib.numberToString (.finite q))) :
    ∀ (v : Value) {s : Bytes}, encode lib length v = .ok s → LineText lib s
  | .nil, s, h => by
      cases h
      exact ⟨by decide, _, .null⟩
  | .boolean b, s, h => by
      cases h
      cases b with
      | true => exact ⟨(by decide : OneLine (ascii "true")), _, .true⟩
      | false => exact ⟨(by decide : OneLine (ascii "false")), _, .false⟩
  | .number n, s, h => by
      cases n with
      | finite q =>
          cases h
          obtain ⟨n, hn⟩ := hwrites q
          exact ⟨hline q, _, .number hn⟩
      | infinite negative => cases h
      | nan => cases h
  | .string t, s, h => by
      cases h
      exact ⟨oneLine_encodeString t, _, .string (quoted_encodeString t)⟩
  | .table entries, s, h => by
      rw [encode] at h
      have hentries := lineText_encodeEntries hwrites hline entries
      rcases encodeTable_eq_ok h with ⟨res, hres, rfl⟩ | ⟨ms, hms, rfl⟩
      · apply lineText_array
        intro w hw
        obtain ⟨e, he, hw⟩ := hres w hw
        exact hentries e he hw
      · apply lineText_object
        intro m hm
        apply hentries (.string m.1, .ok m.2) _ rfl
        rw [hms]
        exact List.mem_map_of_mem hm
  | .function f, s, h => by cases h
  | .userdata id, s, h => by cases h
  | .thread id, s, h => by cases h

theorem lineText_encodeEntries (hwrites : WritesNumbers lib)
    (hline : ∀ q, OneLine (lib.numberToString (.finite q))) :
    ∀ (entries : List (Value × Value)), ∀ e ∈ encodeEntries lib length entries,
      ∀ {s : Bytes}, e.2 = .ok s → LineText lib s
  | [], e, he, s, h => by cases he
  | (k, v) :: entries, e, he, s, h => by
      rw [encodeEntries] at he
      rcases List.mem_cons.mp he with rfl | he
      · exact lineText_encode hwrites hline v h
      · exact lineText_encodeEntries hwrites hline entries e he h

end

end

/-- Every text that the encoder returns, for any value, is one line without NUL that
the decoder accepts. -/
theorem decode_of_encode {lib : Lib} (length : List (Value × Value) → ℕ)
    (hwrites : WritesNumbers lib) (hline : ∀ q, OneLine (lib.numberToString (.finite q)))
    {v : Value} {s : Bytes} (h : encode lib length v = .ok s) :
    OneLine s ∧ NulFree s ∧ ∃ v', decode lib s = .ok v' := by
  obtain ⟨hone, x, hx⟩ := lineText_encode length hwrites hline v h
  refine ⟨hone, fun h0 => absurd (hone 0 h0) (by decide), x.value, ?_⟩
  exact decode_complete hx.spells

theorem le_of_numberChars : ∀ c ∈ ascii "0123456789-", 32 ≤ c :=
  forall_byte (by decide +kernel)

theorem decode_of_encode_string :
    OneLine (encodeString [34, 0, 10]) ∧ NulFree (encodeString [34, 0, 10]) ∧
      ∃ v, decode integerLib (encodeString [34, 0, 10]) = .ok v :=
  decode_of_encode (fun _ => 0) writesNumbers_integerLib
    (fun _ c hc => le_of_numberChars c (mem_decimalInt hc))
    (show encode integerLib (fun _ => 0) (.string [34, 0, 10]) = _ from rfl)

end Json

end GafqEngine
