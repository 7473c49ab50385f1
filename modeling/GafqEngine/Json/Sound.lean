import GafqEngine.Json.Escapes
import GafqEngine.Json.Steps

/-!
# What the decoder accepts is in the language

By induction on the steps: a result of any of the functions comes with a derivation for
the bytes between the two positions.
-/

namespace GafqEngine

open CLib Gafq Scan

namespace Json

theorem bind_eq_ok {α β : Type} {m : Except Stop α} {f : α → Except Stop β} {b : β} :
    m.bind f = .ok b ↔ ∃ a, m = .ok a ∧ f a = .ok b := by
  cases m with
  | error e => simp [Except.bind]
  | ok a => simp [Except.bind]

theorem decodeError_ne_ok {α : Type} {str : Bytes} {idx : ℕ} {msg : Bytes} {a : α} :
    decodeError str idx msg ≠ .ok a := by
  intro h
  cases h

theorem blank_takeWhile (r : Bytes) : Blank (r.takeWhile spaceChars.contains) := by
  intro c hc
  exact List.contains_iff_mem.mp (List.mem_takeWhile_imp hc)

theorem not_mem_delimChars_of_inToken {c : UInt8} (h : inToken c = true) : c ∉ delimChars := by
  simpa [inToken] using h

/-- Behind the blanks, where `next_char` stops. -/
theorem exists_blank {str : Bytes} {i : ℕ} {r : Bytes} (h : At str i r) :
    ∃ b r', r = b ++ r' ∧ Blank b ∧ At str (nextChar str i spaceChars true) r' :=
  ⟨_, _, (List.takeWhile_append_dropWhile).symm, blank_takeWhile r, At.nextChar_space h⟩

/-- What the loop of `parse_string` returns is the string that the text up to the
closing quote stands for, behind what the loop has already. -/
def StringLoopSound (str : Bytes) (i fuel : ℕ) : Prop :=
  ∀ (passed : Bytes) {res : Bytes} {k : ℕ} {r s : Bytes} {j : ℕ}, At str k (passed ++ r) →
    parseStringLoop str i fuel res (k + passed.length) k = .ok (s, j) →
    ∃ t s' r', r = t ++ (ascii "\"" ++ r') ∧ At str j r' ∧ StringText t s' ∧
      s = res ++ passed ++ s'

theorem escapeStep_sound {str : Bytes} {i fuel : ℕ} (ih : StringLoopSound str i fuel)
    {res : Bytes} {j : ℕ} {r s : Bytes} {j' : ℕ} (h : At str (j + 1) r)
    (hok : escapeStep str i fuel res j r = .ok (s, j')) :
    ∃ t s' r', ascii "\\" ++ r = t ++ (ascii "\"" ++ r') ∧ At str j' r' ∧ StringText t s' ∧
      s = res ++ s' := by
  cases r with
  | nil => exact absurd hok decodeError_ne_ok
  | cons c r =>
      rw [escapeStep] at hok
      split at hok
      · next hc =>
          subst hc
          cases hhex : matchEscape r with
          | none =>
              rw [hhex] at hok
              exact absurd hok decodeError_ne_ok
          | some hex =>
              rw [hhex] at hok
              obtain ⟨text, htext, hloop⟩ := bind_eq_ok.mp hok
              have hpos : j + 1 + hex.length + 1 = j + 1 + 1 + hex.length := by omega
              rcases matchEscape_cases hhex with
                ⟨q, q', t, rfl, rfl, hq, hh, hq'⟩ | ⟨t, rfl, hq, hsingle⟩
              · have hat : At str (j + 1 + 1) ((q ++ (ascii "\\u" ++ q')) ++ t) := by
                  simpa only [List.append_assoc] using h.tail
                rw [hpos] at hloop
                obtain ⟨t, s', r', rfl, hj', ht, rfl⟩ := ih [] hat.append hloop
                rw [parseUnicodeEscape_pair hq hq'] at htext
                refine ⟨_, _, r', ?_, hj', .pair hq hh hq' htext ht, ?_⟩
                · simp only [List.append_assoc]
                  rfl
                · simp only [List.append_assoc, List.nil_append]
              · rw [hpos] at hloop
                obtain ⟨t', s', r', rfl, hj', ht, rfl⟩ :=
                  ih [] h.tail.append hloop
                rw [parseUnicodeEscape_quad hq] at htext
                refine ⟨_, _, r', ?_, hj', .unicode hq ?_ htext ht, ?_⟩
                · simp only [List.append_assoc]
                  rfl
                · intro hh w' t'' hw' heq
                  subst heq
                  apply hsingle hh w' (t'' ++ (ascii "\"" ++ r')) hw'
                  simp only [List.append_assoc]
                · simp only [List.append_assoc, List.nil_append]
      · cases he : escapeCharMapInv [c] with
        | none =>
            rw [he] at hok
            exact absurd hok decodeError_ne_ok
        | some e =>
            rw [he] at hok
            obtain ⟨t, s', r', rfl, hj', ht, rfl⟩ := ih [] h.tail hok
            refine ⟨_, _, r', ?_, hj', .escape he ht, ?_⟩
            · rfl
            · simp only [List.append_assoc, List.nil_append]

theorem parseStringLoop_sound (str : Bytes) (i fuel : ℕ) : StringLoopSound str i fuel := by
  induction fuel with
  | zero =>
      intro passed res k r s j h hok
      cases hok
  | succ fuel ih =>
      intro passed res k r s j h hok
      rw [parseStringLoop_succ i fuel res h] at hok
      cases r with
      | nil => exact absurd hok decodeError_ne_ok
      | cons x r =>
          simp only at hok
          split at hok
          · exact absurd hok decodeError_ne_ok
          · next hcontrol =>
              split at hok
              · next hx =>
                  subst hx
                  obtain ⟨t, s', r', heq, hj, ht, rfl⟩ := escapeStep_sound ih h.append.tail hok
                  exact ⟨t, s', r', heq, hj, ht, rfl⟩
              · next hescape =>
                  split at hok
                  · next hx =>
                      subst hx
                      cases hok
                      exact ⟨[], [], r, rfl, h.append.tail, .nil, (List.append_nil _).symm⟩
                  · next hquote =>
                      have hat : At str k ((passed ++ [x]) ++ r) := by
                        rwa [List.append_assoc, List.singleton_append]
                      have hpos : k + passed.length + 1 = k + (passed ++ [x]).length := by
                        rw [List.length_append, List.length_singleton, Nat.add_assoc]
                      rw [hpos] at hok
                      obtain ⟨t, s', r', rfl, hj, ht, rfl⟩ := ih _ hat hok
                      refine ⟨x :: t, x :: s', r', rfl, hj, ?_, ?_⟩
                      · exact .plain (UInt8.not_lt.mp hcontrol) hquote hescape ht
                      · simp only [List.append_assoc, List.singleton_append]

theorem parseString_sound {str : Bytes} {i : ℕ} {r s : Bytes} {j : ℕ}
    (h : At str i (ascii "\"" ++ r)) (hok : parseString str i = .ok (s, j)) :
    ∃ w r', ascii "\"" ++ r = w ++ r' ∧ At str j r' ∧ Quoted w s := by
  obtain ⟨t, s', r', rfl, hj, ht, rfl⟩ :=
    parseStringLoop_sound str i _ [] h.append hok
  refine ⟨ascii "\"" ++ (t ++ ascii "\""), r', ?_, hj, t, rfl, ht⟩
  simp only [List.append_assoc]

theorem value_of_literalMap (lib : Lib) {word : Bytes} {v : Value}
    (h : literalMap word = some v) : ∃ x : Tree, Text lib word x ∧ x.value = v := by
  rw [literalMap] at h
  split_ifs at h with htrue hfalse hnull
  · cases h
    subst htrue
    exact ⟨_, .true, rfl⟩
  · cases h
    subst hfalse
    exact ⟨_, .false, rfl⟩
  · cases h
    subst hnull
    exact ⟨_, .null, rfl⟩

theorem parseLiteral_sound {lib : Lib} {str : Bytes} {i : ℕ} {r : Bytes} {v : Value} {j : ℕ}
    (h : At str i r) (hok : parseLiteral str i = .ok (v, j)) :
    ∃ w x r', r = w ++ r' ∧ At str j r' ∧ Text lib w x ∧ x.value = v := by
  rw [parseLiteral_eq h] at hok
  cases hv : literalMap (r.takeWhile inToken) with
  | none =>
      rw [hv] at hok
      exact absurd hok decodeError_ne_ok
  | some v' =>
      rw [hv] at hok
      cases hok
      obtain ⟨x, hx, hvalue⟩ := value_of_literalMap lib hv
      have hsplit := (List.takeWhile_append_dropWhile (p := inToken) (l := r)).symm
      rw [hsplit] at h
      exact ⟨_, x, _, hsplit, h.append, hx, hvalue⟩

theorem inToken_of_number : ∀ c ∈ ascii "0123456789-", inToken c = true :=
  forall_byte (by decide +kernel)

theorem parseNumber_sound {lib : Lib} {str : Bytes} {i : ℕ} {c : UInt8} {r : Bytes} {v : Value}
    {j : ℕ} (h : At str i (c :: r)) (hc : c ∈ ascii "0123456789-")
    (hok : parseNumber lib str i = .ok (v, j)) :
    ∃ w x r', c :: r = w ++ r' ∧ At str j r' ∧ Text lib w x ∧ x.value = v := by
  rw [parseNumber_eq lib h] at hok
  cases hn : lib.stringToNumber ((c :: r).takeWhile inToken) with
  | none =>
      rw [hn] at hok
      exact absurd hok decodeError_ne_ok
  | some n =>
      rw [hn] at hok
      cases hok
      have hsplit := (List.takeWhile_append_dropWhile (p := inToken) (l := c :: r)).symm
      rw [hsplit] at h
      refine ⟨_, .number n, _, hsplit, h.append, .number ⟨?_, ?_, hn⟩, rfl⟩
      · exact ⟨c, r.takeWhile inToken, List.takeWhile_cons_of_pos (inToken_of_number c hc), hc⟩
      · intro c' hc'
        exact not_mem_delimChars_of_inToken (List.mem_takeWhile_imp hc')

/-- What `parse` returns at a quote is a string. -/
theorem parse_quoted_sound {lib : Lib} {str : Bytes} {fuel idx : ℕ} {r : Bytes} {v : Value} {j : ℕ}
    (h : At str idx (ascii "\"" ++ r)) (hok : parse lib str fuel idx = .ok (v, j)) :
    ∃ w s r', ascii "\"" ++ r = w ++ r' ∧ At str j r' ∧ Quoted w s ∧ v = .string s := by
  cases fuel with
  | zero =>
      rw [parse] at hok
      cases hok
  | succ fuel =>
      rw [parse_quote lib fuel h] at hok
      cases hs : parseString str idx with
      | error e =>
          rw [hs] at hok
          cases hok
      | ok p =>
          rw [hs] at hok
          cases hok
          obtain ⟨w, r', heq, hj, hw⟩ := parseString_sound h hs
          exact ⟨w, p.1, r', heq, hj, hw, rfl⟩

/-- What `parse` returns with so many steps is a value that the text spells. -/
def ParseSound (lib : Lib) (str : Bytes) (fuel : ℕ) : Prop :=
  ∀ {idx : ℕ} {r : Bytes} {v : Value} {j : ℕ}, At str idx r →
    parse lib str fuel idx = .ok (v, j) →
    ∃ w x r', r = w ++ r' ∧ At str j r' ∧ Text lib w x ∧ x.value = v

/-- What the loop of `parse_array` returns has the elements that the text spells behind
those that the loop has already. -/
def ArraySound (lib : Lib) (str : Bytes) (fuel : ℕ) : Prop :=
  ∀ {res : List (Value × Value)} {n i : ℕ} {r : Bytes} {v : Value} {j : ℕ}, At str i r →
    parseArray lib str fuel res n i = .ok (v, j) →
    ∃ w xs r', r = w ++ r' ∧ At str j r' ∧ Elements lib w xs ∧
      v = .table (elementEntries xs n res)

/-- What the loop of `parse_object` returns has the members that the text spells behind
those that the loop has already. -/
def ObjectSound (lib : Lib) (str : Bytes) (fuel : ℕ) : Prop :=
  ∀ {res : List (Value × Value)} {i : ℕ} {r : Bytes} {v : Value} {j : ℕ}, At str i r →
    parseObject lib str fuel res i = .ok (v, j) →
    ∃ w members r', r = w ++ r' ∧ At str j r' ∧ Members lib w members ∧
      v = .table (memberEntries members res)

theorem parse_sound {lib : Lib} {str : Bytes} {fuel : ℕ} (harray : ArraySound lib str fuel)
    (hobject : ObjectSound lib str fuel) : ParseSound lib str (fuel + 1) := by
  intro idx r v j h hok
  cases r with
  | nil =>
      rw [parse_nil lib fuel h] at hok
      exact absurd hok decodeError_ne_ok
  | cons c r =>
      rw [parse_cons lib fuel h] at hok
      cases hf : charFuncMap [c] with
      | none =>
          rw [hf] at hok
          exact absurd hok decodeError_ne_ok
      | some f =>
          have hstarts := starts_of_charFuncMap hf
          rw [hf] at hok
          cases f with
          | parseString =>
              have hr : c :: r = ascii "\"" ++ r := congrArg (· ++ r) hstarts
              rw [hr] at h ⊢
              rw [← parse_quote lib fuel h] at hok
              obtain ⟨w, s, r', heq, hj, hw, rfl⟩ := parse_quoted_sound h hok
              exact ⟨w, .string s, r', heq, hj, .string hw, rfl⟩
          | parseNumber => exact parseNumber_sound h hstarts hok
          | parseLiteral => exact parseLiteral_sound h hok
          | parseArray =>
              obtain ⟨w, xs, r', rfl, hj, hw, rfl⟩ := harray h.tail hok
              refine ⟨ascii "[" ++ w, .array xs, r', ?_, hj, .array hw, rfl⟩
              exact congrArg (· ++ (w ++ r')) hstarts
          | parseObject =>
              obtain ⟨w, members, r', rfl, hj, hw, rfl⟩ := hobject h.tail hok
              refine ⟨ascii "\x7b" ++ w, .object members, r', ?_, hj, .object hw, rfl⟩
              exact congrArg (· ++ (w ++ r')) hstarts

theorem eq_append_of_slice {str : Bytes} {i : ℕ} {r b : Bytes} (h : At str i r)
    (hb : slice str i i = b) (hlen : b.length = 1) : ∃ t, r = b ++ t := by
  obtain ⟨c, rfl⟩ := List.length_eq_one_iff.mp hlen
  exact h.of_slice hb

theorem parseArray_sound {lib : Lib} {str : Bytes} {fuel : ℕ} (hparse : ParseSound lib str fuel)
    (harray : ArraySound lib str fuel) : ArraySound lib str (fuel + 1) := by
  intro res n i r v j h hok
  obtain ⟨b, r, rfl, hb, hblank⟩ := exists_blank h
  rw [parseArray] at hok
  split at hok
  · next hclose =>
      obtain ⟨r, rfl⟩ := eq_append_of_slice hblank hclose rfl
      cases hok
      refine ⟨b ++ ascii "]", [], r, (List.append_assoc _ _ _).symm, hblank.tail, .close hb, rfl⟩
  · obtain ⟨⟨y, i'⟩, hy, hrest⟩ := bind_eq_ok.mp hok
    obtain ⟨w, x, r, rfl, hi', hw, rfl⟩ := hparse hblank hy
    obtain ⟨b', r, rfl, hb', hblank'⟩ := exists_blank hi'
    simp only at hrest
    split at hrest
    · next hclose =>
        obtain ⟨r, rfl⟩ := eq_append_of_slice hblank' hclose rfl
        cases hrest
        refine ⟨_, [x], r, ?_, hblank'.tail, .last hb hw hb', rfl⟩
        simp only [List.append_assoc]
    · split at hrest
      · next hcomma =>
          obtain ⟨r, rfl⟩ := eq_append_of_slice hblank' hcomma rfl
          obtain ⟨t, xs, r', rfl, hj, ht, rfl⟩ := harray hblank'.tail hrest
          refine ⟨_, x :: xs, r', ?_, hj, .more hb hw hb' ht, rfl⟩
          simp only [List.append_assoc]
      · exact absurd hrest decodeError_ne_ok

theorem parseObject_sound {lib : Lib} {str : Bytes} {fuel : ℕ} (hparse : ParseSound lib str fuel)
    (hobject : ObjectSound lib str fuel) : ObjectSound lib str (fuel + 1) := by
  intro res i r v j h hok
  obtain ⟨b, r, rfl, hb, hblank⟩ := exists_blank h
  rw [parseObject] at hok
  split at hok
  · next hclose =>
      obtain ⟨r, rfl⟩ := eq_append_of_slice hblank hclose rfl
      cases hok
      refine ⟨b ++ ascii "\x7d", [], r, (List.append_assoc _ _ _).symm, hblank.tail, .close hb, rfl⟩
  · split at hok
    · next hquote =>
        obtain ⟨⟨key, i₁⟩, hkey, hrest⟩ := bind_eq_ok.mp hok
        obtain ⟨r, rfl⟩ := eq_append_of_slice hblank hquote rfl
        obtain ⟨k, s, r, heq, hi₁, hk, rfl⟩ := parse_quoted_sound hblank hkey
        rw [heq] at h ⊢
        obtain ⟨b₁, r, rfl, hb₁, hblank₁⟩ := exists_blank hi₁
        simp only at hrest
        split at hrest
        · next hcolon =>
            obtain ⟨⟨y, i₂⟩, hy, hrest⟩ := bind_eq_ok.mp hrest
            obtain ⟨r, rfl⟩ := eq_append_of_slice hblank₁ hcolon rfl
            obtain ⟨b₂, r, rfl, hb₂, hblank₂⟩ := exists_blank hblank₁.tail
            obtain ⟨w, x, r, rfl, hi₂, hw, rfl⟩ := hparse hblank₂ hy
            obtain ⟨b₃, r, rfl, hb₃, hblank₃⟩ := exists_blank hi₂
            simp only at hrest
            split at hrest
            · next hclose =>
                obtain ⟨r, rfl⟩ := eq_append_of_slice hblank₃ hclose rfl
                cases hrest
                refine ⟨_, [(s, x)], r, ?_, hblank₃.tail, .last hb hk hb₁ hb₂ hw hb₃, rfl⟩
                simp only [List.append_assoc]
            · split at hrest
              · next hcomma =>
                  obtain ⟨r, rfl⟩ := eq_append_of_slice hblank₃ hcomma rfl
                  obtain ⟨t, members, r', rfl, hj, ht, rfl⟩ := hobject hblank₃.tail hrest
                  refine ⟨_, (s, x) :: members, r', ?_, hj, .more hb hk hb₁ hb₂ hw hb₃ ht, rfl⟩
                  simp only [List.append_assoc]
              · exact absurd hrest decodeError_ne_ok
        · exact absurd hrest decodeError_ne_ok
    · exact absurd hok decodeError_ne_ok

theorem all_sound (lib : Lib) (str : Bytes) (fuel : ℕ) :
    ParseSound lib str fuel ∧ ArraySound lib str fuel ∧ ObjectSound lib str fuel := by
  induction fuel with
  | zero =>
      refine ⟨?_, ?_, ?_⟩
      · intro idx r v j _ hok
        rw [parse] at hok
        cases hok
      · intro res n i r v j _ hok
        rw [parseArray] at hok
        cases hok
      · intro res i r v j _ hok
        rw [parseObject] at hok
        cases hok
  | succ fuel ih =>
      obtain ⟨hparse, harray, hobject⟩ := ih
      exact ⟨parse_sound harray hobject, parseArray_sound hparse harray,
        parseObject_sound hparse hobject⟩

/-- What `json.decode` accepts is spelled by the text. -/
theorem decode_sound {lib : Lib} {str : Bytes} {v : Value} (h : decode lib str = .ok v) :
    ∃ x, Spells lib str x ∧ x.value = v := by
  obtain ⟨⟨y, i⟩, hy, hrest⟩ := bind_eq_ok.mp h
  obtain ⟨b, r, hstr, hb, hblank⟩ := exists_blank (at_start str)
  obtain ⟨w, x, r, rfl, hi, hw, rfl⟩ := (all_sound lib str _).1 hblank hy
  obtain ⟨b', r, rfl, hb', hend⟩ := exists_blank hi
  simp only at hrest
  split at hrest
  · exact absurd hrest decodeError_ne_ok
  · next hlen =>
      obtain rfl : r = [] := not_not.mp (mt hend.le_iff.mpr hlen)
      cases hrest
      rw [List.append_nil] at hstr
      exact ⟨x, ⟨b, w, b', hstr, hb, hw, hb'⟩, rfl⟩

end Json

end GafqEngine
