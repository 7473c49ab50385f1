import GafqEngine.Json.Writing
import GafqEngine.Script.Basic

/-!
# Reading decoded values

What a script finds in the value of a tree: under the name of a member the value of the
last one with that name, under an index the element there, and `nil` where it is `null`.
The keys of a table are different, and they are strings or numbers.
-/

namespace GafqEngine

open CLib Gafq

namespace Json

def lastMember (key : Bytes) (members : List (Bytes × Tree)) : Option Tree :=
  (members.reverse.find? fun m => m.1 == key).map Prod.snd

def fieldValue (key : Bytes) (members : List (Bytes × Tree)) : Value :=
  ((lastMember key members).map Tree.value).getD .nil

theorem lastMember_cons (key : Bytes) (m : Bytes × Tree) (members : List (Bytes × Tree)) :
    lastMember key (m :: members) =
      (lastMember key members).or (if m.1 = key then some m.2 else none) := by
  rw [lastMember, List.reverse_cons, List.find?_append, lastMember]
  cases members.reverse.find? fun m => m.1 == key with
  | some p => rfl
  | none =>
      by_cases hm : m.1 = key
      · simp [hm]
      · simp [hm]

theorem rawget_memberEntries {key : Bytes} {members : List (Bytes × Tree)}
    {res : List (Value × Value)} (h : Value.Distinct res) :
    Value.rawget (.string key) (memberEntries members res) =
      ((lastMember key members).map Tree.value).getD (Value.rawget (.string key) res) := by
  induction members generalizing res with
  | nil => rfl
  | cons m members ih =>
      rw [memberEntries, ih (h.rawset (.string m.1)), lastMember_cons]
      cases lastMember key members with
      | some x => rfl
      | none =>
          by_cases hm : m.1 = key
          · rw [if_pos hm, hm, Value.rawget_rawset_self (.string key) h]
            rfl
          · have hne : Value.string key ≠ .string m.1 := by
              intro heq
              exact hm (Value.string.inj heq).symm
            rw [if_neg hm, Value.rawget_rawset_of_ne (.string key) (.string m.1) hne]
            rfl

/-- The field of a decoded object is the last member with its name. -/
theorem lookup_memberEntries (key : Bytes) (members : List (Bytes × Tree)) :
    Value.lookup key (memberEntries members []) = fieldValue key members := by
  rw [← Value.rawget_string, rawget_memberEntries Value.distinct_nil]
  rfl

theorem rawget_elementEntries {xs : List Tree} {n : ℕ} {res : List (Value × Value)} (i : ℕ)
    (h : Value.Distinct res) :
    Value.rawget (.number (.finite i)) (elementEntries xs n res) =
      if n ≤ i then (xs[i - n]?.map Tree.value).getD (Value.rawget (.number (.finite i)) res)
      else Value.rawget (.number (.finite i)) res := by
  induction xs generalizing n res with
  | nil => simp [elementEntries]
  | cons x xs ih =>
      rw [elementEntries, ih (h.rawset (.number n))]
      by_cases hi : i = n
      · subst hi
        rw [if_neg (Nat.not_succ_le_self i), if_pos le_rfl, Nat.sub_self,
          Value.rawget_rawset_self (.number i) h]
        rfl
      · have hne : Value.number (.finite i) ≠ .number (.finite n) := by
          simpa using hi
        rw [Value.rawget_rawset_of_ne (.number i) (.number n) hne]
        by_cases hlt : n ≤ i
        · have hpos : i - n = i - (n + 1) + 1 := by omega
          rw [if_pos (by omega), if_pos hlt, hpos, List.getElem?_cons_succ]
        · rw [if_neg (by omega), if_neg hlt]

/-- The element of a decoded array under an index is the one in its place. -/
theorem rawget_element (xs : List Tree) (i : ℕ) :
    Value.rawget (.number (.finite (i + 1 : ℕ))) (elementEntries xs 1 []) =
      (xs[i]?.map Tree.value).getD .nil := by
  rw [rawget_elementEntries (i + 1) Value.distinct_nil, if_pos (Nat.le_add_left 1 i),
    Nat.add_sub_cancel]
  rfl

theorem wellFormed_memberEntries (members : List (Bytes × Tree)) {res : List (Value × Value)}
    (h : Value.WellFormed res) : Value.WellFormed (memberEntries members res) := by
  induction members generalizing res with
  | nil => exact h
  | cons m members ih => exact ih (h.rawset (.string m.1))

theorem wellFormed_elementEntries (xs : List Tree) (n : ℕ) {res : List (Value × Value)}
    (h : Value.WellFormed res) : Value.WellFormed (elementEntries xs n res) := by
  induction xs generalizing n res with
  | nil => exact h
  | cons x xs ih => exact ih (n + 1) (h.rawset (.number n))

theorem key_of_mem_memberEntries {members : List (Bytes × Tree)} {res : List (Value × Value)}
    {e : Value × Value} (he : e ∈ memberEntries members res) :
    e ∈ res ∨ ∃ m ∈ members, e.1 = .string m.1 := by
  induction members generalizing res with
  | nil => exact Or.inl he
  | cons m members ih =>
      rcases ih he with he | ⟨m', hm', hkey⟩
      · rcases Value.mem_rawset (.string m.1) he with ⟨rfl, -⟩ | he
        · exact Or.inr ⟨m, List.mem_cons_self, rfl⟩
        · exact Or.inl he
      · exact Or.inr ⟨m', List.mem_cons_of_mem m hm', hkey⟩

theorem key_of_mem_elementEntries {xs : List Tree} {n : ℕ} {res : List (Value × Value)}
    {e : Value × Value} (he : e ∈ elementEntries xs n res) :
    e ∈ res ∨ ∃ i < xs.length, e.1 = .number (.finite (n + i : ℕ)) := by
  induction xs generalizing n res with
  | nil => exact Or.inl he
  | cons x xs ih =>
      rcases ih he with he | ⟨i, hi, hkey⟩
      · rcases Value.mem_rawset (.number n) he with ⟨rfl, -⟩ | he
        · exact Or.inr ⟨0, Nat.succ_pos _, rfl⟩
        · exact Or.inl he
      · refine Or.inr ⟨i + 1, Nat.succ_lt_succ hi, ?_⟩
        rw [hkey, Nat.add_assoc, Nat.add_comm 1 i]

/-- A decoded object holds, for each name of a member, the value of the last one with
that name unless it is `null`, and nothing else. -/
theorem decode_object {lib : Lib} {str : Bytes} {members : List (Bytes × Tree)}
    (h : Spells lib str (.object members)) :
    ∃ entries, decode lib str = .ok (.table entries) ∧ Value.WellFormed entries ∧
      (∀ key, Value.lookup key entries = fieldValue key members) ∧
      ∀ e ∈ entries, ∃ m ∈ members, e = (.string m.1, fieldValue m.1 members) := by
  have hwf := wellFormed_memberEntries members Value.wellFormed_nil
  refine ⟨memberEntries members [], decode_complete h, hwf,
    fun key => lookup_memberEntries key members, fun e he => ?_⟩
  rcases key_of_mem_memberEntries he with he' | ⟨m, hm, hkey⟩
  · cases he'
  · have hvalue := hwf.rawget_eq he
    rw [hkey, Value.rawget_string, lookup_memberEntries] at hvalue
    exact ⟨m, hm, Prod.ext hkey hvalue.symm⟩

theorem decode_object_last :
    ∃ entries, decode integerLib (ascii "\x7b\"a\":true,\"a\":false\x7d") = .ok (.table entries) ∧
      Value.WellFormed entries ∧
      (∀ key, Value.lookup key entries =
        fieldValue key [(ascii "a", .bool true), (ascii "a", .bool false)]) ∧
      ∀ e ∈ entries, ∃ m ∈ [(ascii "a", Tree.bool true), (ascii "a", .bool false)],
        e = (.string m.1, fieldValue m.1 [(ascii "a", .bool true), (ascii "a", .bool false)]) := by
  have hkey : Quoted (ascii "\"a\"") (ascii "a") :=
    ⟨ascii "a", rfl, .plain (by decide) (by decide) (by decide) .nil⟩
  have htext : Members integerLib (ascii "\"a\":true,\"a\":false\x7d")
      [(ascii "a", .bool true), (ascii "a", .bool false)] :=
    .more blank_nil hkey blank_nil blank_nil .true blank_nil
      (.last blank_nil hkey blank_nil blank_nil .false blank_nil)
  exact decode_object (Text.object htext).spells

/-- A decoded array holds each element under its index unless it is `null`, and nothing
else. -/
theorem decode_array {lib : Lib} {str : Bytes} {xs : List Tree}
    (h : Spells lib str (.array xs)) :
    ∃ entries, decode lib str = .ok (.table entries) ∧ Value.WellFormed entries ∧
      (∀ i, Value.rawget (.number (.finite (i + 1 : ℕ))) entries =
        (xs[i]?.map Tree.value).getD .nil) ∧
      ∀ e ∈ entries, ∃ i x, xs[i]? = some x ∧ e = (.number (.finite (i + 1 : ℕ)), x.value) := by
  have hwf := wellFormed_elementEntries xs 1 Value.wellFormed_nil
  refine ⟨elementEntries xs 1 [], decode_complete h, hwf, rawget_element xs, fun e he => ?_⟩
  rcases key_of_mem_elementEntries he with he' | ⟨i, hi, hkey⟩
  · cases he'
  · have hvalue := hwf.rawget_eq he
    rw [hkey, Nat.add_comm, rawget_element, List.getElem?_eq_getElem hi] at hvalue
    refine ⟨i, xs[i], List.getElem?_eq_getElem hi, Prod.ext ?_ hvalue.symm⟩
    rw [hkey, Nat.add_comm]

theorem decode_array_hole :
    ∃ entries, decode integerLib (ascii "[null,true]") = .ok (.table entries) ∧
      Value.WellFormed entries ∧
      (∀ i, Value.rawget (.number (.finite (i + 1 : ℕ))) entries =
        ([Tree.null, .bool true][i]?.map Tree.value).getD .nil) ∧
      ∀ e ∈ entries, ∃ i x, [Tree.null, .bool true][i]? = some x ∧
        e = (.number (.finite (i + 1 : ℕ)), x.value) := by
  have htext : Elements integerLib (ascii "null,true]") [.null, .bool true] :=
    .more blank_nil .null blank_nil (.last blank_nil .true blank_nil)
  exact decode_array (Text.array htext).spells

def DecodedEntry (e : Value × Value) : Prop := e.1.IsKey ∧ Decoded e.2

theorem decodedEntry_rawset {k v : Value} (hk : k.IsKey) (hv : Decoded v)
    {res : List (Value × Value)} (hres : ∀ e ∈ res, DecodedEntry e) :
    ∀ e ∈ Value.rawset k v res, DecodedEntry e := by
  intro e he
  rcases Value.mem_rawset hk he with ⟨rfl, -⟩ | he
  · exact ⟨hk, hv⟩
  · exact hres e he

theorem decoded_table {entries : List (Value × Value)} (h : ∀ e ∈ entries, DecodedEntry e) :
    Decoded (.table entries) := by
  apply Decoded.table
  · intro e he
    rcases e with ⟨k, v⟩
    cases (h _ he).1 with
    | string s => exact Or.inl ⟨s, rfl⟩
    | number q => exact Or.inr ⟨_, rfl⟩
  · exact fun e he => (h e he).2

mutual

/-- The values of trees are what a decoder may return. -/
theorem decoded_value : ∀ x : Tree, Decoded x.value
  | .null => .nil
  | .bool b => .boolean b
  | .number n => .number n
  | .string s => .string s
  | .array xs => decoded_table (decoded_elementEntries xs 1 fun _ he => absurd he List.not_mem_nil)
  | .object members =>
      decoded_table (decoded_memberEntries members fun _ he => absurd he List.not_mem_nil)

theorem decoded_elementEntries : ∀ (xs : List Tree) (n : ℕ) {res : List (Value × Value)},
    (∀ e ∈ res, DecodedEntry e) → ∀ e ∈ elementEntries xs n res, DecodedEntry e
  | [], _, _, hres => hres
  | x :: xs, n, _, hres =>
      decoded_elementEntries xs (n + 1) (decodedEntry_rawset (.number n) (decoded_value x) hres)

theorem decoded_memberEntries : ∀ (members : List (Bytes × Tree)) {res : List (Value × Value)},
    (∀ e ∈ res, DecodedEntry e) → ∀ e ∈ memberEntries members res, DecodedEntry e
  | [], _, hres => hres
  | (key, x) :: members, _, hres =>
      decoded_memberEntries members (decodedEntry_rawset (.string key) (decoded_value x) hres)

end

end Json

end GafqEngine
