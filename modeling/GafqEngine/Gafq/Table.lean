import GafqEngine.Gafq.Value

/-!
# Tables of the script language

Reading and writing the entries of a table by key, without metamethods. An entry that
is set to `nil` is taken out; a new one is put behind the others.
-/

namespace GafqEngine

open CLib

namespace Gafq

namespace Value

/-- Equality of keys. Tables are told apart by what they are, not by their entries. -/
def rawEqual : Value → Value → Bool
  | nil, nil => true
  | boolean a, boolean b => a == b
  | number (.finite a), number (.finite b) => a == b
  | number (.infinite a), number (.infinite b) => a == b
  | string s, string t => s == t
  | function f, function g => f == g
  | userdata a, userdata b => a == b
  | thread a, thread b => a == b
  | _, _ => false

def rawget (k : Value) : List (Value × Value) → Value
  | [] => nil
  | (k', v) :: entries => if k'.rawEqual k then v else rawget k entries

/-- `t[k] = v`. -/
def rawset (k v : Value) : List (Value × Value) → List (Value × Value)
  | [] => if v.isNil then [] else [(k, v)]
  | (k', v') :: entries =>
      if k'.rawEqual k then (if v.isNil then entries else (k', v) :: entries)
      else (k', v') :: rawset k v entries

/-- Strings and finite numbers, the keys that a JSON text gives rise to. -/
inductive IsKey : Value → Prop
  | string (s : Bytes) : IsKey (string s)
  | number (q : ℚ) : IsKey (number (.finite q))

theorem IsKey.rawEqual_iff {k : Value} (h : IsKey k) (k' : Value) :
    k'.rawEqual k = true ↔ k' = k := by
  cases h with
  | string s =>
      cases k' with
      | string t => simp [rawEqual]
      | _ => simp [rawEqual]
  | number q =>
      cases k' with
      | number n =>
          cases n with
          | finite p => simp [rawEqual]
          | _ => simp [rawEqual]
      | _ => simp [rawEqual]

theorem IsKey.rawEqual_self {k : Value} (h : IsKey k) : k.rawEqual k = true :=
  (h.rawEqual_iff k).mpr rfl

def Distinct (entries : List (Value × Value)) : Prop := (entries.map Prod.fst).Nodup

theorem distinct_nil : Distinct [] := List.nodup_nil

theorem rawget_of_absent {k : Value} (hk : k.IsKey) {entries : List (Value × Value)}
    (h : k ∉ entries.map Prod.fst) : rawget k entries = nil := by
  induction entries with
  | nil => rfl
  | cons e entries ih =>
      rw [List.map_cons, List.mem_cons, not_or] at h
      have hne : ¬ e.1.rawEqual k = true := by
        rw [hk.rawEqual_iff]
        exact Ne.symm h.1
      rw [rawget, if_neg hne, ih h.2]

theorem isNil_iff (v : Value) : v.isNil = true ↔ v = nil := by
  cases v with
  | nil => simp [isNil]
  | _ => simp [isNil]

/-- What is set is found again. -/
theorem rawget_rawset_self {k v : Value} (hk : k.IsKey) {entries : List (Value × Value)}
    (h : Distinct entries) : rawget k (rawset k v entries) = v := by
  induction entries with
  | nil =>
      cases hv : v.isNil with
      | true =>
          rw [rawset, hv, if_pos rfl, (isNil_iff v).mp hv]
          rfl
      | false =>
          rw [rawset, hv, if_neg Bool.false_ne_true, rawget, if_pos hk.rawEqual_self]
  | cons e entries ih =>
      obtain ⟨k', v'⟩ := e
      rw [Distinct, List.map_cons, List.nodup_cons] at h
      rw [rawset]
      by_cases hkey : k'.rawEqual k = true
      · obtain rfl := (hk.rawEqual_iff k').mp hkey
        rw [if_pos hkey]
        cases hv : v.isNil with
        | true => rw [if_pos rfl, rawget_of_absent hk h.1, (isNil_iff v).mp hv]
        | false => rw [if_neg Bool.false_ne_true, rawget, if_pos hkey]
      · rw [if_neg hkey, rawget, if_neg hkey, ih h.2]

/-- The other entries are as they were. -/
theorem rawget_rawset_of_ne {k k' v : Value} (hk : k.IsKey) (hk' : k'.IsKey) (hne : k ≠ k')
    (entries : List (Value × Value)) : rawget k (rawset k' v entries) = rawget k entries := by
  have hother : ¬ k'.rawEqual k = true := by
    rw [hk.rawEqual_iff]
    exact hne.symm
  induction entries with
  | nil =>
      cases hv : v.isNil with
      | true => rw [rawset, hv, if_pos rfl]
      | false => simp only [rawset, hv, Bool.false_eq_true, if_false, rawget, hother]
  | cons e entries ih =>
      obtain ⟨k'', v''⟩ := e
      rw [rawset]
      by_cases hkey : k''.rawEqual k' = true
      · obtain rfl := (hk'.rawEqual_iff k'').mp hkey
        rw [if_pos hkey, rawget, if_neg hother]
        cases v.isNil with
        | true => rw [if_pos rfl]
        | false => rw [if_neg Bool.false_ne_true, rawget, if_neg hother]
      · rw [if_neg hkey, rawget, rawget, ih]

theorem mem_rawset {k v : Value} (hk : k.IsKey) {e : Value × Value}
    {entries : List (Value × Value)} (he : e ∈ rawset k v entries) :
    e = (k, v) ∧ v.isNil = false ∨ e ∈ entries := by
  induction entries with
  | nil =>
      rw [rawset] at he
      cases hv : v.isNil with
      | true =>
          rw [hv, if_pos rfl] at he
          cases he
      | false =>
          rw [hv, if_neg Bool.false_ne_true] at he
          exact Or.inl ⟨List.mem_singleton.mp he, rfl⟩
  | cons e' entries ih =>
      obtain ⟨k', v'⟩ := e'
      rw [rawset] at he
      split at he
      · next hkey =>
          obtain rfl := (hk.rawEqual_iff k').mp hkey
          cases hv : v.isNil with
          | true =>
              rw [hv, if_pos rfl] at he
              exact Or.inr (List.mem_cons_of_mem _ he)
          | false =>
              rw [hv, if_neg Bool.false_ne_true] at he
              rcases List.mem_cons.mp he with he | he
              · exact Or.inl ⟨he, rfl⟩
              · exact Or.inr (List.mem_cons_of_mem _ he)
      · rcases List.mem_cons.mp he with he | he
        · rw [he]
          exact Or.inr List.mem_cons_self
        · rcases ih he with h | h
          · exact Or.inl h
          · exact Or.inr (List.mem_cons_of_mem _ h)

/-- Setting an entry keeps the keys different. -/
theorem Distinct.rawset {k v : Value} (hk : k.IsKey) {entries : List (Value × Value)}
    (h : Distinct entries) : Distinct (rawset k v entries) := by
  induction entries with
  | nil =>
      rw [Value.rawset]
      split
      · exact List.nodup_nil
      · exact List.nodup_singleton _
  | cons e entries ih =>
      obtain ⟨k', v'⟩ := e
      have hnodup := h
      rw [Distinct, List.map_cons, List.nodup_cons] at hnodup
      rw [Value.rawset]
      split
      · split
        · exact hnodup.2
        · exact h
      · next hkey =>
          rw [Distinct, List.map_cons, List.nodup_cons]
          refine ⟨fun hmem => ?_, ih hnodup.2⟩
          obtain ⟨e, he, heq⟩ := List.mem_map.mp hmem
          rcases mem_rawset hk he with ⟨rfl, -⟩ | he
          · exact hkey ((hk.rawEqual_iff k').mpr heq.symm)
          · exact hnodup.1 (List.mem_map.mpr ⟨e, he, heq⟩)

/-- A table that was built by setting entries: the keys are different, and no value is
`nil`. -/
structure WellFormed (entries : List (Value × Value)) : Prop where
  distinct : Distinct entries
  keys : ∀ e ∈ entries, e.1.IsKey
  values : ∀ e ∈ entries, e.2.isNil = false

theorem wellFormed_nil : WellFormed [] :=
  ⟨distinct_nil, fun _ he => absurd he List.not_mem_nil, fun _ he => absurd he List.not_mem_nil⟩

theorem WellFormed.rawset {k v : Value} (hk : k.IsKey) {entries : List (Value × Value)}
    (h : WellFormed entries) : WellFormed (Value.rawset k v entries) where
  distinct := h.distinct.rawset hk
  keys e he := by
    rcases mem_rawset hk he with ⟨rfl, -⟩ | he
    · exact hk
    · exact h.keys e he
  values e he := by
    rcases mem_rawset hk he with ⟨rfl, hnil⟩ | he
    · exact hnil
    · exact h.values e he

/-- An entry is what is found under its key. -/
theorem WellFormed.rawget_eq {entries : List (Value × Value)} (h : WellFormed entries)
    {e : Value × Value} (he : e ∈ entries) : rawget e.1 entries = e.2 := by
  obtain ⟨hd, hkeys, -⟩ := h
  have hk := hkeys e he
  clear hkeys
  induction entries with
  | nil => cases he
  | cons e' entries ih =>
      rw [Distinct, List.map_cons, List.nodup_cons] at hd
      obtain ⟨k', v'⟩ := e'
      rcases List.mem_cons.mp he with rfl | hmem
      · rw [rawget, if_pos hk.rawEqual_self]
      · have hne : ¬ k'.rawEqual e.1 = true := by
          rw [hk.rawEqual_iff]
          intro hkey
          have hmap : e.1 ∈ entries.map Prod.fst := List.mem_map_of_mem hmem
          exact hd.1 (hkey.symm ▸ hmap)
        rw [rawget, if_neg hne, ih hmem hd.2]

/-- The entry of a string key is the one that the script's `t.key` reads. -/
theorem rawget_string (s : Bytes) (entries : List (Value × Value)) :
    rawget (string s) entries = lookup s entries := by
  induction entries with
  | nil => rfl
  | cons e entries ih =>
      obtain ⟨k, v⟩ := e
      have hkey : k.rawEqual (string s) = k.isString s := by
        rw [Bool.eq_iff_iff, (IsKey.string s).rawEqual_iff, isString_iff]
      rw [rawget, lookup, hkey, ih]

end Value

end Gafq

end GafqEngine
