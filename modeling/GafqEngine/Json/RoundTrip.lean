import GafqEngine.Json.Writing

/-!
# Encoding and decoding

For the values that a text can stand for, `json.encode` returns a text, and that text
decodes to the value again. What it takes of the length of a table is that an array
without holes has only one. The interpreter's limit on nested calls, which neither half
of the model has, is set aside.
-/

namespace GafqEngine

open CLib Gafq

namespace Json

/-- The entries of an array: the values under the indices from `n` on. -/
def indexed {α : Type} (n : ℕ) : List α → List (Value × α)
  | [] => []
  | x :: xs => (.number (.finite n), x) :: indexed (n + 1) xs

def named (members : List (Bytes × Value)) : List (Value × Value) :=
  members.map fun m => (.string m.1, m.2)

/-- The values that a text can stand for: an array has no holes, the members of an
object have different names and it has at least one, and no value is `nil` or a number
that is not read back. -/
inductive Plain (lib : Lib) : Value → Prop
  | boolean (b : Bool) : Plain lib (.boolean b)
  | number {q : ℚ} (hq : NumberText lib (lib.numberToString (.finite q)) (.finite q)) :
      Plain lib (.number (.finite q))
  | string (s : Bytes) : Plain lib (.string s)
  | array {xs : List Value} (hxs : ∀ x ∈ xs, Plain lib x) : Plain lib (.table (indexed 1 xs))
  | object {members : List (Bytes × Value)} (hne : members ≠ [])
      (hkeys : (members.map Prod.fst).Nodup) (hmembers : ∀ m ∈ members, Plain lib m.2) :
      Plain lib (.table (named members))

theorem Plain.isNil_eq_false {lib : Lib} {v : Value} (h : Plain lib v) : v.isNil = false := by
  cases h with
  | boolean b => rfl
  | number hq => rfl
  | string s => rfl
  | array hxs => rfl
  | object hne hkeys hmembers => rfl

theorem rawEqual_index {m n : ℕ} :
    (Value.number (.finite m)).rawEqual (.number (.finite n)) = decide (m = n) := by
  rw [Bool.eq_iff_iff, decide_eq_true_eq]
  simp only [Value.rawEqual, beq_iff_eq, Nat.cast_inj]

theorem find?_indexed {α : Type} (xs : List α) (m k : ℕ) :
    (indexed m xs).find? (fun e => e.1.rawEqual (.number (.finite ((m + k : ℕ) : ℚ)))) =
      xs[k]?.map fun x => (.number (.finite ((m + k : ℕ) : ℚ)), x) := by
  induction xs generalizing m k with
  | nil => rfl
  | cons x xs ih =>
      rw [indexed, List.find?_cons]
      simp only [rawEqual_index]
      cases k with
      | zero => simp
      | succ k =>
          have hne : decide (m = m + (k + 1)) = false := by simp
          rw [hne, List.getElem?_cons_succ]
          have hshift : m + (k + 1) = m + 1 + k := by omega
          rw [hshift]
          exact ih (m + 1) k

theorem ipairs_indexed {α : Type} (xs : List α) {steps : ℕ} (k : ℕ) (h : xs.length ≤ steps + k) :
    ipairs (indexed 1 xs) steps (1 + k) = xs.drop k := by
  induction steps generalizing k with
  | zero =>
      rw [List.drop_of_length_le (by omega)]
      rfl
  | succ steps ih =>
      rw [ipairs, find?_indexed]
      rcases Nat.lt_or_ge k xs.length with hk | hk
      · rw [List.getElem?_eq_getElem hk, List.drop_eq_getElem_cons hk, ← ih (k + 1) (by omega)]
        rfl
      · rw [List.getElem?_eq_none hk, List.drop_of_length_le hk]
        rfl

theorem rawget_eq_find? (k : Value) (entries : List (Value × Value)) :
    Value.rawget k entries = ((entries.find? fun e => e.1.rawEqual k).map Prod.snd).getD .nil := by
  induction entries with
  | nil => rfl
  | cons e entries ih =>
      rw [Value.rawget, List.find?_cons]
      cases he : e.1.rawEqual k with
      | true => simp
      | false => simpa using ih

theorem rawget_indexed (xs : List Value) (k : ℕ) :
    Value.rawget (.number (.finite ((1 + k : ℕ) : ℚ))) (indexed 1 xs) = xs[k]?.getD .nil := by
  rw [rawget_eq_find?, find?_indexed]
  cases xs[k]? with
  | none => rfl
  | some x => rfl

theorem length_indexed {α : Type} (n : ℕ) (xs : List α) : (indexed n xs).length = xs.length := by
  induction xs generalizing n with
  | nil => rfl
  | cons x xs ih => rw [indexed, List.length_cons, ih, List.length_cons]

/-- An array without holes has only one length. -/
theorem border_indexed {length : List (Value × Value) → ℕ} (hlength : IsBorder length)
    {xs : List Value} (hxs : ∀ x ∈ xs, x ≠ .nil) : length (indexed 1 xs) = xs.length := by
  obtain ⟨hbelow, habove⟩ := hlength (indexed 1 xs)
  generalize length (indexed 1 xs) = n at hbelow habove
  rw [Nat.add_comm, rawget_indexed] at habove
  have hge : xs.length ≤ n := by
    by_contra hlt
    rw [List.getElem?_eq_getElem (not_le.mp hlt)] at habove
    exact hxs _ (List.getElem_mem _) habove
  cases n with
  | zero => exact (Nat.le_zero.mp hge).symm
  | succ n =>
      have hsome := hbelow (Nat.succ_ne_zero n)
      rw [Nat.add_comm, rawget_indexed] at hsome
      have hlt : n < xs.length := by
        by_contra hge'
        rw [List.getElem?_eq_none (not_lt.mp hge')] at hsome
        exact hsome rfl
      omega

theorem isNumber_indexed {xs : List Value} {n : ℕ} :
    (indexed n xs).any (fun e => !isNumber e.1) = false := by
  induction xs generalizing n with
  | nil => rfl
  | cons x xs ih =>
      rw [indexed, List.any_cons, ih]
      rfl

theorem encodeEntries_indexed (lib : Lib) (length : List (Value × Value) → ℕ) (xs : List Value)
    (n : ℕ) :
    encodeEntries lib length (indexed n xs) = indexed n (xs.map (encode lib length)) := by
  induction xs generalizing n with
  | nil => rfl
  | cons x xs ih => rw [indexed, encodeEntries, ih, List.map_cons, indexed]

theorem encodeEntries_named (lib : Lib) (length : List (Value × Value) → ℕ)
    (members : List (Bytes × Value)) :
    encodeEntries lib length (named members) =
      members.map fun m => (.string m.1, encode lib length m.2) := by
  induction members with
  | nil => rfl
  | cons m members ih =>
      rw [List.map_cons, ← ih]
      rfl

/-- An array without holes is written as its elements. -/
theorem encodeTable_indexed {length : List (Value × Value) → ℕ} (hlength : IsBorder length)
    {xs : List Value} (hxs : ∀ x ∈ xs, x ≠ .nil) {ms : List (Except Value Bytes)}
    {res : List Bytes} (hms : ms = res.map .ok) (hlen : ms.length = xs.length) :
    encodeTable length (indexed 1 xs) (indexed 1 ms) =
      .ok (ascii "[" ++ (concat res ++ ascii "]")) := by
  have hopen : !(Value.rawget (.number (.finite 1)) (indexed 1 xs)).isNil ∨ indexed 1 xs = [] := by
    cases xs with
    | nil => exact Or.inr rfl
    | cons x xs =>
        have hget := rawget_indexed (x :: xs) 0
        rw [Nat.add_zero, Nat.cast_one] at hget
        rw [hget]
        refine Or.inl ?_
        have hx := hxs x List.mem_cons_self
        cases x with
        | nil => exact absurd rfl hx
        | _ => rfl
  have hsame : (indexed 1 xs).length = length (indexed 1 xs) := by
    rw [border_indexed hlength hxs, length_indexed]
  have hipairs : ipairs (indexed 1 ms) (indexed 1 xs).length 1 = ms := by
    have hsteps : ms.length ≤ (indexed 1 xs).length + 0 := by
      rw [length_indexed, hlen, Nat.add_zero]
    exact ipairs_indexed ms 0 hsteps
  rw [encodeTable, if_pos hopen, isNumber_indexed, if_neg Bool.false_ne_true,
    if_neg (not_not.mpr hsame), hipairs, mapM_id_eq_ok.mpr hms]
  rfl

theorem rawget_named {members : List (Bytes × Value)} :
    Value.rawget (.number (.finite 1)) (named members) = .nil := by
  induction members with
  | nil => rfl
  | cons m members ih => exact ih

/-- An object with a member is written as its members. -/
theorem encodeTable_named (length : List (Value × Value) → ℕ) {members : List (Bytes × Value)}
    (hne : members ≠ []) {ms : List (Bytes × Bytes)} :
    encodeTable length (named members) (ms.map fun m => (.string m.1, .ok m.2)) =
      .ok (ascii "\x7b" ++
        (concat (ms.map fun m => encodeString m.1 ++ (ascii ":" ++ m.2)) ++ ascii "\x7d")) := by
  have hclosed : ¬ (!(Value.rawget (.number (.finite 1)) (named members)).isNil ∨
      named members = []) := by
    rw [rawget_named]
    rintro (h | h)
    · cases h
    · exact hne (List.map_eq_nil_iff.mp h)
  rw [encodeTable, if_neg hclosed, encodeMembers_eq_ok.mpr ⟨ms, rfl, rfl⟩]
  rfl

/-- A new key is put behind the entries. -/
theorem rawset_of_absent {k v : Value} {entries : List (Value × Value)} (hk : k.IsKey)
    (hv : v.isNil = false) (h : ∀ e ∈ entries, e.1 ≠ k) :
    Value.rawset k v entries = entries ++ [(k, v)] := by
  induction entries with
  | nil => rw [Value.rawset, hv, if_neg Bool.false_ne_true, List.nil_append]
  | cons e entries ih =>
      have hne : ¬ e.1.rawEqual k = true := by
        rw [hk.rawEqual_iff]
        exact h e List.mem_cons_self
      rw [Value.rawset, if_neg hne, ih fun e' he' => h e' (List.mem_cons_of_mem e he'),
        List.cons_append]

/-- The elements of an array are put under the next indices. -/
theorem elementEntries_eq {xs : List Tree} {n : ℕ} {res : List (Value × Value)}
    (hxs : ∀ x ∈ xs, x.value.isNil = false)
    (hres : ∀ e ∈ res, ∀ k ≥ n, e.1 ≠ .number (.finite (k : ℕ))) :
    elementEntries xs n res = res ++ indexed n (xs.map Tree.value) := by
  induction xs generalizing n res with
  | nil => exact (List.append_nil res).symm
  | cons x xs ih =>
      rw [elementEntries, rawset_of_absent (.number n) (hxs x List.mem_cons_self)
        (fun e he => hres e he n le_rfl), ih fun y hy => hxs y (List.mem_cons_of_mem x hy)]
      · rw [List.append_assoc]
        rfl
      · intro e he k hk
        rcases List.mem_append.mp he with he | he
        · exact hres e he k (Nat.le_of_succ_le hk)
        · rw [List.mem_singleton.mp he]
          simp only [ne_eq, Value.number.injEq, Number.finite.injEq, Nat.cast_inj]
          omega

/-- Members with different names are put one behind the other. -/
theorem memberEntries_eq {members : List (Bytes × Tree)} {res : List (Value × Value)}
    (hmembers : ∀ m ∈ members, m.2.value.isNil = false) (hkeys : (members.map Prod.fst).Nodup)
    (hres : ∀ e ∈ res, ∀ m ∈ members, e.1 ≠ .string m.1) :
    memberEntries members res = res ++ named (members.map fun m => (m.1, m.2.value)) := by
  induction members generalizing res with
  | nil => exact (List.append_nil res).symm
  | cons m members ih =>
      rw [List.map_cons, List.nodup_cons] at hkeys
      rw [memberEntries, rawset_of_absent (.string m.1) (hmembers m List.mem_cons_self)
        (fun e he => hres e he m List.mem_cons_self),
        ih (fun p hp => hmembers p (List.mem_cons_of_mem m hp)) hkeys.2]
      · rw [List.append_assoc]
        rfl
      · intro e he p hp
        rcases List.mem_append.mp he with he | he
        · exact hres e he p (List.mem_cons_of_mem m hp)
        · rw [List.mem_singleton.mp he]
          intro heq
          obtain heq := Value.string.inj heq
          exact hkeys.1 (heq ▸ List.mem_map_of_mem hp)

def Writes (lib : Lib) (length : List (Value × Value) → ℕ) (v : Value) : Prop :=
  ∃ w x, encode lib length v = .ok w ∧ Text lib w x ∧ x.value = v

theorem writes_elements {lib : Lib} {length : List (Value × Value) → ℕ} {xs : List Value}
    (h : ∀ x ∈ xs, Writes lib length x) :
    ∃ ws ts, xs.map (encode lib length) = ws.map .ok ∧ List.Forall₂ (Text lib) ws ts ∧
      ts.map Tree.value = xs := by
  induction xs with
  | nil => exact ⟨[], [], rfl, .nil, rfl⟩
  | cons x xs ih =>
      obtain ⟨w, t, hw, ht, rfl⟩ := h x List.mem_cons_self
      obtain ⟨ws, ts, hws, hts, rfl⟩ := ih fun y hy => h y (List.mem_cons_of_mem _ hy)
      refine ⟨w :: ws, t :: ts, ?_, .cons ht hts, rfl⟩
      rw [List.map_cons, hw, hws, List.map_cons]

theorem writes_members {lib : Lib} {length : List (Value × Value) → ℕ}
    {members : List (Bytes × Value)} (h : ∀ m ∈ members, Writes lib length m.2) :
    ∃ (ms : List (Bytes × Bytes)) (ts : List (Bytes × Tree)),
      encodeEntries lib length (named members) = ms.map (fun m => (.string m.1, .ok m.2)) ∧
      List.Forall₂ (MemberText lib) (ms.map fun m => encodeString m.1 ++ (ascii ":" ++ m.2)) ts ∧
      ts.map (fun m => (m.1, m.2.value)) = members := by
  rw [encodeEntries_named]
  induction members with
  | nil => exact ⟨[], [], rfl, .nil, rfl⟩
  | cons m members ih =>
      obtain ⟨key, v⟩ := m
      obtain ⟨w, t, hw, ht, rfl⟩ := h _ List.mem_cons_self
      obtain ⟨ms, ts, hms, hts, rfl⟩ := ih fun p hp => h p (List.mem_cons_of_mem _ hp)
      refine ⟨(key, w) :: ms, (key, t) :: ts, ?_, .cons ⟨w, rfl, ht⟩ hts, rfl⟩
      rw [List.map_cons, hms, List.map_cons, hw]

theorem writes_of_plain {lib : Lib} {length : List (Value × Value) → ℕ}
    (hlength : IsBorder length) {v : Value} (h : Plain lib v) : Writes lib length v := by
  induction h with
  | boolean b =>
      cases b with
      | true => exact ⟨_, .bool true, rfl, .true, rfl⟩
      | false => exact ⟨_, .bool false, rfl, .false, rfl⟩
  | @number q hq => exact ⟨_, .number (.finite q), rfl, .number hq, rfl⟩
  | string s => exact ⟨_, .string s, rfl, .string (quoted_encodeString s), rfl⟩
  | @array xs hxs ih =>
      obtain ⟨ws, ts, hws, hts, rfl⟩ := writes_elements ih
      refine ⟨_, .array ts, ?_, .array (elements_concat hts), ?_⟩
      · rw [encode, encodeEntries_indexed]
        apply encodeTable_indexed hlength _ hws (List.length_map _)
        intro x hx hnil
        rw [hnil] at hx
        cases (hxs _ hx).isNil_eq_false
      · rw [Tree.value, elementEntries_eq]
        · rfl
        · exact fun t ht => (hxs _ (List.mem_map_of_mem ht)).isNil_eq_false
        · exact fun e he => absurd he List.not_mem_nil
  | @object members hne hkeys hmembers ih =>
      obtain ⟨ms, ts, hms, hts, rfl⟩ := writes_members ih
      refine ⟨_, .object ts, ?_, .object (members_concat hts), ?_⟩
      · rw [encode, hms]
        exact encodeTable_named length hne
      · rw [Tree.value, memberEntries_eq]
        · rfl
        · exact fun m hm => (hmembers _ (List.mem_map_of_mem hm)).isNil_eq_false
        · rw [List.map_map] at hkeys
          exact hkeys
        · exact fun e he => absurd he List.not_mem_nil

/-- A plain value is encoded, and the text decodes to the value. -/
theorem decode_encode {lib : Lib} {length : List (Value × Value) → ℕ} (hlength : IsBorder length)
    {v : Value} (h : Plain lib v) :
    ∃ s, encode lib length v = .ok s ∧ decode lib s = .ok v := by
  obtain ⟨w, x, hw, hx, rfl⟩ := writes_of_plain hlength h
  exact ⟨w, hw, decode_complete hx.spells⟩

theorem exists_free_index (entries : List (Value × Value)) :
    ∃ n, ∀ k ≥ n, Value.rawget (.number (.finite (k : ℕ))) entries = .nil := by
  induction entries with
  | nil => exact ⟨0, fun _ _ => rfl⟩
  | cons e entries ih =>
      obtain ⟨n, hn⟩ := ih
      by_cases hkey : ∃ m : ℕ, e.1 = .number (.finite m)
      · obtain ⟨m, hm⟩ := hkey
        refine ⟨max n (m + 1), fun k hk => ?_⟩
        have hne : ¬ e.1.rawEqual (.number (.finite k)) = true := by
          rw [hm, rawEqual_index, decide_eq_true_eq]
          omega
        rw [Value.rawget, if_neg hne]
        exact hn k (le_of_max_le_left hk)
      · refine ⟨n, fun k hk => ?_⟩
        have hne : ¬ e.1.rawEqual (.number (.finite k)) = true := by
          rw [(Value.IsKey.number k).rawEqual_iff]
          exact fun h => hkey ⟨k, h⟩
        rw [Value.rawget, if_neg hne]
        exact hn k hk

theorem exists_border (entries : List (Value × Value)) :
    ∃ n : ℕ, (Value.rawget (.number (.finite (n + 1 : ℕ))) entries).isNil = true := by
  obtain ⟨n, hn⟩ := exists_free_index entries
  exact ⟨n, (Value.isNil_iff _).mpr (hn (n + 1) (Nat.le_succ n))⟩

def firstBorder (entries : List (Value × Value)) : ℕ := Nat.find (exists_border entries)

theorem isBorder_firstBorder : IsBorder firstBorder := by
  intro entries
  refine ⟨fun hpos hnil => ?_, (Value.isNil_iff _).mp (Nat.find_spec (exists_border entries))⟩
  obtain ⟨n, hn⟩ := Nat.exists_eq_succ_of_ne_zero hpos
  have hlt : n < firstBorder entries := by
    rw [hn]
    exact Nat.lt_succ_self n
  rw [hn] at hnil
  exact Nat.find_min (exists_border entries) hlt ((Value.isNil_iff _).mpr hnil)

theorem decode_encode_array : ∃ s,
    encode integerLib firstBorder
        (.table (indexed 1 [.number (.finite (-7 : ℤ)), .string [0, 34], .boolean true])) =
      .ok s ∧
    decode integerLib s =
      .ok (.table (indexed 1 [.number (.finite (-7 : ℤ)), .string [0, 34], .boolean true])) := by
  apply decode_encode isBorder_firstBorder
  apply Plain.array
  intro x hx
  simp only [List.mem_cons, List.not_mem_nil, or_false] at hx
  rcases hx with rfl | rfl | rfl
  · apply Plain.number
    have htext := numberText_decimalInt (-7)
    simpa only [integerLib, Int.floor_intCast] using htext
  · exact .string _
  · exact .boolean _

end Json

end GafqEngine
