import GafqEngine.Json.Sound

/-!
# What is in the language is accepted

By recursion on the derivation. A token has to be followed by a delimiter or by the end
of the text; the brackets and the quotes close themselves. Two steps for each byte are
enough.
-/

namespace GafqEngine

open CLib Gafq Scan

namespace Json

def Solid (r : Bytes) : Prop := r.dropWhile spaceChars.contains = r

def EndsToken (r : Bytes) : Prop := r.takeWhile inToken = []

theorem solid_cons {c : UInt8} {r : Bytes} (h : c ∉ spaceChars) : Solid (c :: r) := by
  rw [Solid, List.dropWhile_cons, if_neg (mt List.contains_iff_mem.mp h)]

/-- `next_char` passes the blanks in front of the next token. -/
theorem nextChar_blank {str : Bytes} {i : ℕ} {b r : Bytes} (h : At str i (b ++ r)) (hb : Blank b)
    (hr : Solid r) : nextChar str i spaceChars true = i + b.length := by
  have hstop := At.nextChar_space h
  have hdrop : (b ++ r).dropWhile spaceChars.contains = r.dropWhile spaceChars.contains :=
    List.dropWhile_append_of_pos fun c hc => List.contains_iff_mem.mpr (hb c hc)
  rw [hdrop, hr] at hstop
  exact hstop.eq_pos h.append

theorem blank_delim : ∀ c ∈ spaceChars, inToken c = false :=
  forall_byte (by decide +kernel)

theorem endsToken_blank {b r : Bytes} (hb : Blank b) (hr : EndsToken r) : EndsToken (b ++ r) := by
  cases b with
  | nil => exact hr
  | cons c b =>
      have hc := blank_delim c (hb c List.mem_cons_self)
      rw [EndsToken, List.cons_append, List.takeWhile_cons, hc]
      rfl

theorem takeWhile_token {w r : Bytes} (hw : ∀ c ∈ w, c ∉ delimChars) (hr : EndsToken r) :
    (w ++ r).takeWhile inToken = w := by
  have hin : ∀ c ∈ w, inToken c = true := by
    intro c hc
    simpa [inToken] using hw c hc
  rw [List.takeWhile_append_of_pos hin, hr, List.append_nil]

theorem quote_notMem_escape {w : Bytes} (hw : Quad w) : (34 : UInt8) ∉ ascii "\\u" ++ w := by
  rw [List.mem_append, not_or]
  refine ⟨by decide, fun h => ?_⟩
  have hdigit := hw.digits 34 h
  revert hdigit
  decide

/-- The quote that ends a string is not part of an escape. -/
theorem not_escape_of_quote {t w t' r : Bytes} (hw : Quad w)
    (h : t ++ (ascii "\"" ++ r) = ascii "\\u" ++ (w ++ t')) :
    ∃ t'', t = ascii "\\u" ++ (w ++ t'') := by
  rw [← List.append_assoc (ascii "\\u")] at h
  rcases List.append_eq_append_iff.mp h with ⟨a, ha, hquote⟩ | ⟨a, ha, -⟩
  · cases a with
    | nil => exact ⟨[], by rw [← List.append_assoc, ha, List.append_nil, List.append_nil]⟩
    | cons c a =>
        have hc : 34 = c := (List.cons.inj hquote).1
        have hmem : c ∈ ascii "\\u" ++ w := by
          rw [ha]
          exact List.mem_append_right _ List.mem_cons_self
        rw [← hc] at hmem
        exact absurd hmem (quote_notMem_escape hw)
  · exact ⟨a, by rw [ha, List.append_assoc]⟩

theorem ne_u_of_escapeCharMapInv {c : UInt8} {e : Bytes} (h : escapeCharMapInv [c] = some e) :
    c ≠ 117 := by
  rintro rfl
  have hnone : escapeCharMapInv [117] = none := by decide
  rw [hnone] at h
  cases h

/-- The loop of `parse_string` at a short escape. -/
theorem parseStringLoop_escape {str : Bytes} (i fuel : ℕ) (res : Bytes) {k : ℕ} {passed r : Bytes}
    {c : UInt8} {e : Bytes} (h : At str k (passed ++ (ascii "\\" ++ c :: r)))
    (he : escapeCharMapInv [c] = some e) :
    parseStringLoop str i (fuel + 1) res (k + passed.length) k =
      parseStringLoop str i fuel (res ++ passed ++ e) (k + passed.length + 2)
        (k + passed.length + 2) := by
  rw [parseStringLoop_succ i fuel res h]
  change escapeStep _ _ _ _ _ (c :: r) = _
  rw [escapeStep, if_neg (ne_u_of_escapeCharMapInv he), he]

/-- The loop of `parse_string` at an escape with hexadecimal digits. -/
theorem parseStringLoop_unicode {str : Bytes} (i fuel : ℕ) (res : Bytes) {k : ℕ}
    {passed r hex text : Bytes} (h : At str k (passed ++ (ascii "\\u" ++ r)))
    (hhex : matchEscape r = some hex) (htext : parseUnicodeEscape hex = .ok text) :
    parseStringLoop str i (fuel + 1) res (k + passed.length) k =
      parseStringLoop str i fuel (res ++ passed ++ text) (k + passed.length + 2 + hex.length)
        (k + passed.length + 2 + hex.length) := by
  rw [parseStringLoop_succ i fuel res h]
  change escapeStep _ _ _ _ _ (117 :: r) = _
  have hpos : k + passed.length + 1 + hex.length + 1 = k + passed.length + 2 + hex.length := by
    omega
  rw [escapeStep, if_pos rfl, hhex]
  simp only [htext, Except.bind, hpos]

/-- The loop of `parse_string` returns the string that a text stands for. -/
theorem parseStringLoop_complete (str : Bytes) (i : ℕ) {t s : Bytes} (ht : StringText t s) :
    ∀ (fuel : ℕ) (res : Bytes) {k : ℕ} (passed : Bytes) {r : Bytes}, t.length < fuel →
      At str k (passed ++ (t ++ (ascii "\"" ++ r))) →
      parseStringLoop str i fuel res (k + passed.length) k =
        .ok (res ++ passed ++ s, k + passed.length + t.length + 1) := by
  have hslash : (ascii "\\").length = 1 := rfl
  have hu : (ascii "\\u").length = 2 := rfl
  induction ht with
  | nil =>
      intro fuel res k passed r hfuel h
      obtain ⟨fuel, rfl⟩ := Nat.exists_eq_add_of_lt hfuel
      rw [parseStringLoop_succ i _ res h, List.append_nil]
      rfl
  | @plain c t s hcontrol hquote hescape ht ih =>
      intro fuel res k passed r hfuel h
      obtain ⟨fuel, rfl⟩ := Nat.exists_eq_add_of_lt hfuel
      have hat : At str k ((passed ++ [c]) ++ (t ++ (ascii "\"" ++ r))) := by
        rw [List.append_assoc]
        exact h
      have hloop := ih ((c :: t).length + fuel) res _
        (by simp only [List.length_cons]; omega) hat
      rw [List.length_append, List.length_singleton, ← Nat.add_assoc] at hloop
      rw [parseStringLoop_succ i _ res h]
      change (if c < 32 then _ else if c = 92 then _ else if c = 34 then _ else _) = _
      rw [if_neg (UInt8.not_lt.mpr hcontrol), if_neg hescape, if_neg hquote, hloop,
        List.length_cons]
      simp only [List.append_assoc, List.singleton_append]
      congr 2
      omega
  | @escape c e t s hc ht ih =>
      intro fuel res k passed r hfuel h
      obtain ⟨fuel, rfl⟩ := Nat.exists_eq_add_of_lt hfuel
      rw [List.append_assoc] at h
      have hloop := ih ((ascii "\\" ++ c :: t).length + fuel) (res ++ passed ++ e) []
        (by simp only [List.length_append, List.length_cons]; omega)
        h.append.tail.tail
      rw [parseStringLoop_escape i _ res h hc]
      refine hloop.trans ?_
      simp only [List.append_assoc, List.nil_append, List.length_append, List.length_cons,
        List.length_nil, hslash]
      congr 2
      omega
  | @unicode w text t s hw hsingle htext ht ih =>
      intro fuel res k passed r hfuel h
      obtain ⟨fuel, rfl⟩ := Nat.exists_eq_add_of_lt hfuel
      simp only [List.append_assoc] at h
      have hloop := ih ((ascii "\\u" ++ (w ++ t)).length + fuel) (res ++ passed ++ text) []
        (by simp only [List.length_append, hu]; omega) h.append.append.append
      have hhex : matchEscape (w ++ (t ++ (ascii "\"" ++ r))) = some w := by
        apply matchEscape_of_quad hw
        intro hhigh w' t' hw' heq
        obtain ⟨t'', rfl⟩ := not_escape_of_quote hw' heq
        exact hsingle hhigh w' t'' hw' rfl
      rw [← parseUnicodeEscape_quad hw] at htext
      rw [parseStringLoop_unicode i _ res h hhex htext]
      refine hloop.trans ?_
      simp only [List.append_assoc, List.nil_append, List.length_append, List.length_nil, hu]
      congr 2
      omega
  | @pair w w' text t s hw hhigh hw' htext ht ih =>
      intro fuel res k passed r hfuel h
      obtain ⟨fuel, rfl⟩ := Nat.exists_eq_add_of_lt hfuel
      simp only [List.append_assoc] at h
      have hat := h.append.append.append.append.append
      have hpos : k + passed.length + (ascii "\\u").length + w.length + (ascii "\\u").length +
          w'.length = k + passed.length + 2 + (w ++ (ascii "\\u" ++ w')).length := by
        simp only [List.length_append, hu]
        omega
      rw [hpos] at hat
      have hloop := ih ((ascii "\\u" ++ (w ++ (ascii "\\u" ++ (w' ++ t)))).length + fuel)
        (res ++ passed ++ text) []
        (by simp only [List.length_append, hu]; omega) hat
      rw [← parseUnicodeEscape_pair hw hw'] at htext
      rw [parseStringLoop_unicode i _ res h (matchEscape_of_pair hw hhigh hw' _) htext]
      refine hloop.trans ?_
      simp only [List.append_assoc, List.nil_append, List.length_append, List.length_nil, hu]
      congr 2
      omega

theorem parseString_complete {str : Bytes} {i : ℕ} {w s r : Bytes} (hw : Quoted w s)
    (h : At str i (w ++ r)) : parseString str i = .ok (s, i + w.length) := by
  obtain ⟨t, rfl, ht⟩ := hw
  simp only [List.append_assoc] at h
  have hlen := h.length
  have hpos := h.pos
  simp only [List.length_append] at hlen
  rw [parseString]
  refine (parseStringLoop_complete str i ht _ [] [] (by omega) h.append).trans ?_
  simp only [List.nil_append, List.length_append, List.length_nil]
  congr 2
  rw [show (ascii "\"").length = 1 from rfl]
  omega

theorem charFuncMap_of_number : ∀ c ∈ ascii "0123456789-",
    charFuncMap [c] = some .parseNumber :=
  forall_byte (by decide +kernel)

theorem notMem_spaceChars_of_number : ∀ c ∈ ascii "0123456789-", c ∉ spaceChars :=
  forall_byte (by decide +kernel)

theorem ne_close_of_number : ∀ c ∈ ascii "0123456789-", [c] ≠ ascii "]" :=
  forall_byte (by decide +kernel)

/-- A value starts with a byte that is neither a blank nor a closing bracket. -/
theorem Text.exists_cons {lib : Lib} {w : Bytes} {x : Tree} (h : Text lib w x) :
    ∃ c t, w = c :: t ∧ c ∉ spaceChars ∧ [c] ≠ ascii "]" := by
  cases h with
  | null => exact ⟨_, _, rfl, by decide, by decide⟩
  | true => exact ⟨_, _, rfl, by decide, by decide⟩
  | false => exact ⟨_, _, rfl, by decide, by decide⟩
  | number h =>
      obtain ⟨c, t, rfl, hc⟩ := h.start
      exact ⟨c, t, rfl, notMem_spaceChars_of_number c hc, ne_close_of_number c hc⟩
  | string h =>
      obtain ⟨t, rfl, -⟩ := h
      exact ⟨_, _, rfl, by decide, by decide⟩
  | array h => exact ⟨_, _, rfl, by decide, by decide⟩
  | object h => exact ⟨_, _, rfl, by decide, by decide⟩

theorem Text.solid {lib : Lib} {w : Bytes} {x : Tree} (h : Text lib w x) (r : Bytes) :
    Solid (w ++ r) := by
  obtain ⟨c, t, rfl, hc, -⟩ := h.exists_cons
  exact solid_cons hc

theorem Text.slice_ne {lib : Lib} {str w r : Bytes} {x : Tree} {i : ℕ} (h : Text lib w x)
    (hat : At str i (w ++ r)) : slice str i i ≠ ascii "]" := by
  obtain ⟨c, t, rfl, -, hc⟩ := h.exists_cons
  rwa [hat.slice_cons]

theorem Quoted.solid {w s : Bytes} (h : Quoted w s) (r : Bytes) : Solid (w ++ r) := by
  obtain ⟨t, rfl, -⟩ := h
  exact solid_cons (by decide)

theorem Quoted.slice_eq {str w s r : Bytes} {i : ℕ} (h : Quoted w s) (hat : At str i (w ++ r)) :
    slice str i i = ascii "\"" := by
  obtain ⟨t, rfl, -⟩ := h
  exact hat.slice_cons

theorem parse_literal_complete (lib : Lib) {str w r : Bytes} {v : Value} {fuel idx : ℕ}
    (hw : literalMap w = some v) (hstart : charFuncMap (w.take 1) = some .parseLiteral)
    (htoken : w.all inToken = true) (hr : EndsToken r) (h : At str idx (w ++ r)) :
    parse lib str (fuel + 1) idx = .ok (v, idx + w.length) := by
  have hw' : ∀ c ∈ w, c ∉ delimChars := fun c hc =>
    not_mem_delimChars_of_inToken (List.all_eq_true.mp htoken c hc)
  cases w with
  | nil => cases hstart
  | cons c w =>
      rw [parse_cons lib fuel h, show charFuncMap [c] = _ from hstart]
      simp only
      rw [parseLiteral_eq (r := (c :: w) ++ r) h, takeWhile_token hw' hr, hw]

theorem parse_number_complete {lib : Lib} {str w r : Bytes} {n : Number} {fuel idx : ℕ}
    (hw : NumberText lib w n) (hr : EndsToken r) (h : At str idx (w ++ r)) :
    parse lib str (fuel + 1) idx = .ok (.number n, idx + w.length) := by
  obtain ⟨c, t, rfl, hc⟩ := hw.start
  rw [parse_cons lib fuel h, charFuncMap_of_number c hc]
  simp only
  rw [parseNumber_eq lib (r := (c :: t) ++ r) h, takeWhile_token hw.token hr, hw.value]

theorem parse_quoted_complete (lib : Lib) {str w s r : Bytes} (fuel : ℕ) {idx : ℕ}
    (hw : Quoted w s) (h : At str idx (w ++ r)) :
    parse lib str (fuel + 1) idx = .ok (.string s, idx + w.length) := by
  have hstring := parseString_complete hw h
  obtain ⟨t, rfl, -⟩ := hw
  simp only [List.append_assoc] at h
  rw [parse_quote lib fuel h, hstring]
  rfl

theorem slice_eq_of_length {str : Bytes} {i : ℕ} {sep r : Bytes} (h : At str i (sep ++ r))
    (hlen : sep.length = 1) : slice str i i = sep := by
  obtain ⟨c, rfl⟩ := List.length_eq_one_iff.mp hlen
  exact h.slice_cons

theorem parseArray_close (lib : Lib) {str b r : Bytes} {fuel n i : ℕ} {res : List (Value × Value)}
    (hb : Blank b) (h : At str i (b ++ (ascii "]" ++ r))) :
    parseArray lib str (fuel + 1) res n i = .ok (.table res, i + b.length + 1) := by
  have hclose := slice_eq_of_length h.append rfl
  rw [parseArray]
  simp only [nextChar_blank h hb rfl, hclose, if_true]

/-- The loop of `parse_array` at an element. -/
theorem parseArray_element {lib : Lib} (sep : Bytes) {str b w b' r : Bytes} {x : Tree} {v : Value}
    {fuel n i : ℕ} {res : List (Value × Value)} (hb : Blank b) (hx : Text lib w x)
    (hb' : Blank b') (hsep : Solid (sep ++ r)) (hlen : sep.length = 1)
    (h : At str i (b ++ (w ++ (b' ++ (sep ++ r)))))
    (hparse : parse lib str fuel (i + b.length) = .ok (v, i + b.length + w.length)) :
    parseArray lib str (fuel + 1) res n i =
      if sep = ascii "]" then
        .ok (.table (Value.rawset (.number (.finite n)) v res),
          i + b.length + w.length + b'.length + 1)
      else if sep = ascii "," then
        parseArray lib str fuel (Value.rawset (.number (.finite n)) v res) (n + 1)
          (i + b.length + w.length + b'.length + 1)
      else decodeError str (i + b.length + w.length + b'.length + 1)
        (ascii "expected ']' or ','") := by
  have hblank := nextChar_blank h hb (hx.solid _)
  have hnot := hx.slice_ne h.append
  have hblank' := nextChar_blank h.append.append hb' hsep
  have hslice := slice_eq_of_length h.append.append.append hlen
  rw [parseArray]
  simp only [hblank, hnot, if_false, hparse, bind, Except.bind, hblank', hslice]

theorem parseObject_close (lib : Lib) {str b r : Bytes} {fuel i : ℕ} {res : List (Value × Value)}
    (hb : Blank b) (h : At str i (b ++ (ascii "\x7d" ++ r))) :
    parseObject lib str (fuel + 1) res i = .ok (.table res, i + b.length + 1) := by
  have hclose := slice_eq_of_length h.append rfl
  rw [parseObject]
  simp only [nextChar_blank h hb rfl, hclose, if_true]

/-- The loop of `parse_object` at a member. -/
theorem parseObject_member {lib : Lib} (sep : Bytes) {str b k b₁ b₂ w b₃ r key : Bytes} {x : Tree}
    {v : Value} {fuel i : ℕ} {res : List (Value × Value)} (hb : Blank b) (hk : Quoted k key)
    (hb₁ : Blank b₁) (hb₂ : Blank b₂) (hx : Text lib w x) (hb₃ : Blank b₃)
    (hsep : Solid (sep ++ r)) (hlen : sep.length = 1)
    (h : At str i (b ++ (k ++ (b₁ ++ (ascii ":" ++ (b₂ ++ (w ++ (b₃ ++ (sep ++ r)))))))))
    (hparse : parse lib str (fuel + 1) (i + b.length + k.length + b₁.length + 1 + b₂.length) =
      .ok (v, i + b.length + k.length + b₁.length + 1 + b₂.length + w.length)) :
    parseObject lib str (fuel + 2) res i =
      if sep = ascii "\x7d" then
        .ok (.table (Value.rawset (.string key) v res),
          i + b.length + k.length + b₁.length + 1 + b₂.length + w.length + b₃.length + 1)
      else if sep = ascii "," then
        parseObject lib str (fuel + 1) (Value.rawset (.string key) v res)
          (i + b.length + k.length + b₁.length + 1 + b₂.length + w.length + b₃.length + 1)
      else decodeError str
        (i + b.length + k.length + b₁.length + 1 + b₂.length + w.length + b₃.length + 1)
        (ascii "expected '\x7d' or ','") := by
  have hblank := nextChar_blank h hb (hk.solid _)
  have hquote := hk.slice_eq h.append
  have hkey := parse_quoted_complete lib fuel hk h.append
  have hblank₁ := nextChar_blank h.append.append hb₁ rfl
  have hcolon := slice_eq_of_length h.append.append.append rfl
  have hvalue :
      At str (i + b.length + k.length + b₁.length + 1) (b₂ ++ (w ++ (b₃ ++ (sep ++ r)))) :=
    h.append.append.append.tail
  have hblank₂ := nextChar_blank hvalue hb₂ (hx.solid _)
  have hblank₃ := nextChar_blank hvalue.append.append hb₃ hsep
  have hslice := slice_eq_of_length hvalue.append.append.append hlen
  have hopen : ascii "\"" ≠ ascii "\x7d" := by decide
  rw [parseObject]
  simp only [hblank, hquote, hopen, if_false, if_true, hkey, bind, Except.bind, hblank₁, hcolon,
    hblank₂, hparse, hblank₃, hslice]

mutual

/-- `parse` returns the value of a tree that the text spells. -/
theorem parse_complete {lib : Lib} {str w : Bytes} {x : Tree} (hw : Text lib w x) :
    ∀ (fuel : ℕ) {r : Bytes} {idx : ℕ}, 2 * w.length ≤ fuel → EndsToken r → At str idx (w ++ r) →
      parse lib str fuel idx = .ok (x.value, idx + w.length) := by
  intro fuel r idx hfuel hr h
  have hpos : 0 < w.length := by
    obtain ⟨c, t, rfl, -⟩ := hw.exists_cons
    exact Nat.succ_pos _
  obtain ⟨fuel, rfl⟩ := Nat.exists_eq_add_of_lt (show 0 < fuel by omega)
  rw [Nat.zero_add] at hfuel ⊢
  cases hw with
  | null => exact parse_literal_complete lib rfl rfl (by decide) hr h
  | true => exact parse_literal_complete lib rfl rfl (by decide) hr h
  | false => exact parse_literal_complete lib rfl rfl (by decide) hr h
  | number hn => exact parse_number_complete hn hr h
  | string hq => exact parse_quoted_complete lib _ hq h
  | @array w xs hxs =>
      rw [List.append_assoc] at h
      rw [List.length_append, show (ascii "[").length = 1 from rfl] at hfuel ⊢
      rw [← Nat.add_assoc]
      exact (parse_cons lib fuel h).trans (parseArray_complete hxs (by omega) h.tail)
  | @object w members hmembers =>
      rw [List.append_assoc] at h
      rw [List.length_append, show (ascii "\x7b").length = 1 from rfl] at hfuel ⊢
      rw [← Nat.add_assoc]
      exact (parse_cons lib fuel h).trans (parseObject_complete hmembers (by omega) h.tail)

theorem parseArray_complete {lib : Lib} {str w : Bytes} {xs : List Tree} (hw : Elements lib w xs) :
    ∀ {r : Bytes} {fuel n i : ℕ} {res : List (Value × Value)}, 2 * w.length + 1 ≤ fuel →
      At str i (w ++ r) →
      parseArray lib str fuel res n i = .ok (.table (elementEntries xs n res), i + w.length) := by
  intro r fuel n i res hfuel h
  obtain ⟨fuel, rfl⟩ := Nat.exists_eq_add_of_lt (show 0 < fuel by omega)
  rw [Nat.zero_add] at hfuel ⊢
  cases hw with
  | @close b hb =>
      rw [List.append_assoc] at h
      rw [parseArray_close lib hb h, List.length_append, Nat.add_assoc]
      rfl
  | @last b w b' x hb hx hb' =>
      simp only [List.append_assoc] at h
      simp only [List.length_append] at hfuel ⊢
      have hparse := parse_complete hx fuel (r := b' ++ (ascii "]" ++ r)) (by omega)
        (endsToken_blank hb' rfl) h.append
      rw [parseArray_element (ascii "]") hb hx hb' rfl rfl h hparse, if_pos rfl]
      simp only [elementEntries, ← Nat.add_assoc]
      rfl
  | @more b w b' t x xs hb hx hb' hxs =>
      simp only [List.append_assoc] at h
      simp only [List.length_append, show (ascii ",").length = 1 from rfl] at hfuel ⊢
      have hparse := parse_complete hx fuel (r := b' ++ (ascii "," ++ (t ++ r)))
        (by omega) (endsToken_blank hb' rfl) h.append
      have hcomma : ascii "," ≠ ascii "]" := by decide
      rw [parseArray_element (ascii ",") hb hx hb' rfl rfl h hparse, if_neg hcomma, if_pos rfl,
        parseArray_complete hxs (by omega) h.append.append.append.tail]
      simp only [elementEntries, ← Nat.add_assoc]

theorem parseObject_complete {lib : Lib} {str w : Bytes} {members : List (Bytes × Tree)}
    (hw : Members lib w members) :
    ∀ {r : Bytes} {fuel i : ℕ} {res : List (Value × Value)}, 2 * w.length + 1 ≤ fuel →
      At str i (w ++ r) →
      parseObject lib str fuel res i = .ok (.table (memberEntries members res), i + w.length) := by
  intro r fuel i res hfuel h
  obtain ⟨fuel, rfl⟩ := Nat.exists_eq_add_of_lt (show 0 < fuel by omega)
  rw [Nat.zero_add] at hfuel ⊢
  cases hw with
  | @close b hb =>
      rw [List.append_assoc] at h
      rw [parseObject_close lib hb h, List.length_append, Nat.add_assoc]
      rfl
  | @last b k b₁ b₂ w b₃ key x hb hk hb₁ hb₂ hx hb₃ =>
      simp only [List.append_assoc] at h
      simp only [List.length_append, show (ascii ":").length = 1 from rfl,
        show (ascii "\x7d").length = 1 from rfl] at hfuel ⊢
      obtain ⟨fuel, rfl⟩ := Nat.exists_eq_add_of_lt (show 0 < fuel by omega)
      rw [Nat.zero_add] at hfuel ⊢
      have hvalue : At str _ (b₂ ++ (w ++ (b₃ ++ (ascii "\x7d" ++ r)))) :=
        h.append.append.append.tail
      have hparse := parse_complete hx (fuel + 1) (by omega)
        (endsToken_blank hb₃ (r := ascii "\x7d" ++ r) rfl) hvalue.append
      rw [parseObject_member (ascii "\x7d") hb hk hb₁ hb₂ hx hb₃ rfl rfl h
        hparse, if_pos rfl]
      simp only [memberEntries, ← Nat.add_assoc]
  | @more b k b₁ b₂ w b₃ t key x members hb hk hb₁ hb₂ hx hb₃ hmembers =>
      simp only [List.append_assoc] at h
      simp only [List.length_append, show (ascii ":").length = 1 from rfl,
        show (ascii ",").length = 1 from rfl] at hfuel ⊢
      obtain ⟨fuel, rfl⟩ := Nat.exists_eq_add_of_lt (show 0 < fuel by omega)
      rw [Nat.zero_add] at hfuel ⊢
      have hvalue : At str _ (b₂ ++ (w ++ (b₃ ++ (ascii "," ++ (t ++ r))))) :=
        h.append.append.append.tail
      have hparse := parse_complete hx (fuel + 1) (by omega)
        (endsToken_blank hb₃ (r := ascii "," ++ (t ++ r)) rfl) hvalue.append
      have hcomma : ascii "," ≠ ascii "\x7d" := by decide
      rw [parseObject_member (ascii ",") hb hk hb₁ hb₂ hx hb₃ rfl rfl h hparse,
        if_neg hcomma, if_pos rfl,
        parseObject_complete hmembers (by omega) hvalue.append.append.append.tail]
      simp only [memberEntries, ← Nat.add_assoc]

end

/-- `json.decode` returns the value of a tree that the text spells. -/
theorem decode_complete {lib : Lib} {str : Bytes} {x : Tree} (h : Spells lib str x) :
    decode lib str = .ok x.value := by
  obtain ⟨b, w, b', rfl, hb, hw, hb'⟩ := h
  have hat := at_start (b ++ (w ++ b'))
  have hlen := hat.length
  simp only [List.length_append] at hlen
  have hfuel : 2 * w.length ≤ 2 * (b ++ (w ++ b')).length + 3 := by
    simp only [List.length_append]
    omega
  have hends : EndsToken (b' ++ []) := endsToken_blank hb' rfl
  rw [List.append_nil] at hends
  have hparse := parse_complete hw _ hfuel hends hat.append
  have hend : nextChar (b ++ (w ++ b')) (1 + b.length + w.length) spaceChars true =
      1 + b.length + w.length + b'.length := by
    apply nextChar_blank (r := []) _ hb' rfl
    rw [List.append_nil]
    exact hat.append.append
  rw [decode, nextChar_blank hat hb (hw.solid _)]
  simp only [bind, Except.bind, hparse, hend]
  rw [if_neg]
  simp only [List.length_append]
  omega

/-- `json.decode` accepts the language and nothing else. -/
theorem decode_eq_ok_iff (lib : Lib) (str : Bytes) (v : Value) :
    decode lib str = .ok v ↔ ∃ x, Spells lib str x ∧ x.value = v := by
  constructor
  · exact decode_sound
  · rintro ⟨x, hx, rfl⟩
    exact decode_complete hx

end Json

end GafqEngine
