import GafqEngine.Json.Fields
import GafqEngine.Json.RoundTrip
import GafqEngine.Json.Unicode

/-!
# Encoding what was decoded

A document whose arrays hold no `null`, and whose numbers are read back as they are
written, decodes to a plain value: a member that is `null` is not there, and of several
members with one name one is left. So it can be encoded, and the new text has the same
value as the old one.
-/

namespace GafqEngine

open CLib Gafq

namespace Json

mutual

/-- No element of an array is `null`, and every number is read back. -/
def Tree.Whole (lib : Lib) : Tree → Prop
  | .null => True
  | .bool _ => True
  | .number n => ∃ q, n = .finite q ∧ NumberText lib (lib.numberToString n) n
  | .string _ => True
  | .array elements => WholeElements lib elements
  | .object members => WholeMembers lib members

def WholeElements (lib : Lib) : List Tree → Prop
  | [] => True
  | x :: xs => (x.value ≠ .nil ∧ x.Whole lib) ∧ WholeElements lib xs

def WholeMembers (lib : Lib) : List (Bytes × Tree) → Prop
  | [] => True
  | (_, x) :: members => x.Whole lib ∧ WholeMembers lib members

end

def PlainOrNil (lib : Lib) (v : Value) : Prop := v.isNil = false → Plain lib v

def PlainEntry (lib : Lib) (e : Value × Value) : Prop :=
  (∃ key, e.1 = .string key) ∧ Plain lib e.2

theorem exists_named {lib : Lib} {entries : List (Value × Value)}
    (h : ∀ e ∈ entries, PlainEntry lib e) :
    ∃ members, entries = named members ∧ ∀ m ∈ members, Plain lib m.2 := by
  induction entries with
  | nil => exact ⟨[], rfl, fun m hm => absurd hm List.not_mem_nil⟩
  | cons e entries ih =>
      obtain ⟨members, rfl, hmembers⟩ := ih fun e' he' => h e' (List.mem_cons_of_mem e he')
      obtain ⟨⟨key, hkey⟩, hv⟩ := h e List.mem_cons_self
      refine ⟨(key, e.2) :: members, ?_, List.forall_mem_cons.mpr ⟨hv, hmembers⟩⟩
      have he : e = (.string key, e.2) := Prod.ext hkey rfl
      rw [he]
      rfl

/-- A table with different names is plain, also one without entries. -/
theorem plain_table {lib : Lib} {entries : List (Value × Value)} (hd : Value.Distinct entries)
    (h : ∀ e ∈ entries, PlainEntry lib e) : Plain lib (.table entries) := by
  obtain ⟨members, rfl, hmembers⟩ := exists_named h
  by_cases hne : members = []
  · subst hne
    have hnil : Plain lib (.table (indexed 1 [])) :=
      .array fun x hx => absurd hx List.not_mem_nil
    exact hnil
  · apply Plain.object hne _ hmembers
    rw [Value.Distinct, named, List.map_map] at hd
    exact List.Nodup.of_map Value.string (by rwa [List.map_map])

theorem plainEntry_rawset {lib : Lib} {key : Bytes} {v : Value} (hv : PlainOrNil lib v)
    {res : List (Value × Value)} (hres : ∀ e ∈ res, PlainEntry lib e) :
    ∀ e ∈ Value.rawset (.string key) v res, PlainEntry lib e := by
  intro e he
  rcases Value.mem_rawset (.string key) he with ⟨rfl, hnil⟩ | he
  · exact ⟨⟨key, rfl⟩, hv hnil⟩
  · exact hres e he

mutual

theorem plain_value {lib : Lib} : ∀ x : Tree, x.Whole lib → PlainOrNil lib x.value
  | .null, _ => fun h => by cases h
  | .bool b, _ => fun _ => .boolean b
  | .number n, h => fun _ => by
      obtain ⟨q, rfl, hq⟩ := h
      exact .number hq
  | .string s, _ => fun _ => .string s
  | .array elements, h => fun _ => by
      obtain ⟨hnil, hplain⟩ := plain_elements elements h
      rw [Tree.value, elementEntries_eq hnil fun e he => absurd he List.not_mem_nil,
        List.nil_append]
      exact .array hplain
  | .object members, h => fun _ => by
      obtain ⟨hd, hplain⟩ := plain_memberEntries members h Value.distinct_nil
        fun e he => absurd he List.not_mem_nil
      exact plain_table hd hplain

theorem plain_elements {lib : Lib} : ∀ xs : List Tree, WholeElements lib xs →
    (∀ x ∈ xs, x.value.isNil = false) ∧ ∀ v ∈ xs.map Tree.value, Plain lib v
  | [], _ => ⟨fun x hx => absurd hx List.not_mem_nil, fun v hv => absurd hv List.not_mem_nil⟩
  | x :: xs, h => by
      obtain ⟨⟨hne, hx⟩, hxs⟩ := h
      obtain ⟨hnil, hplain⟩ := plain_elements xs hxs
      have hsome : x.value.isNil = false := by
        rw [← Bool.not_eq_true, Value.isNil_iff]
        exact hne
      exact ⟨List.forall_mem_cons.mpr ⟨hsome, hnil⟩,
        List.forall_mem_cons.mpr ⟨plain_value x hx hsome, hplain⟩⟩

theorem plain_memberEntries {lib : Lib} : ∀ (members : List (Bytes × Tree)),
    WholeMembers lib members → ∀ {res : List (Value × Value)}, Value.Distinct res →
    (∀ e ∈ res, PlainEntry lib e) → Value.Distinct (memberEntries members res) ∧
      ∀ e ∈ memberEntries members res, PlainEntry lib e
  | [], _, _, hd, hres => ⟨hd, hres⟩
  | (key, x) :: members, h, _, hd, hres =>
      plain_memberEntries members h.2 (hd.rawset (.string key))
        (plainEntry_rawset (plain_value x h.1) hres)

end

/-- A whole document is encoded again, and the new text has the same value. -/
theorem encode_of_decode {lib : Lib} {length : List (Value × Value) → ℕ}
    (hlength : IsBorder length) {str : Bytes} {x : Tree} (hx : Spells lib str x)
    (hwhole : x.Whole lib) :
    ∃ v s, decode lib str = .ok v ∧ encode lib length v = .ok s ∧ decode lib s = .ok v := by
  have hwrites : Writes lib length x.value := by
    cases hnil : x.value.isNil with
    | true =>
        rw [(Value.isNil_iff _).mp hnil]
        exact ⟨_, .null, rfl, .null, rfl⟩
    | false => exact writes_of_plain hlength (plain_value x hwhole hnil)
  obtain ⟨w, t, hw, ht, htv⟩ := hwrites
  refine ⟨x.value, w, decode_complete hx, hw, ?_⟩
  rw [← htv]
  exact decode_complete ht.spells

/-- Of two members with one name the last is kept, and the one that is `null` is not. -/
theorem encode_of_decode_object : ∃ v s,
    decode integerLib (ascii "\x7b\"a\":[true],\"b\":null, \"a\":\"x\",\x7d") = .ok v ∧
      encode integerLib firstBorder v = .ok s ∧ decode integerLib s = .ok v := by
  have hquoted : ∀ c : UInt8, IsPlain c → Quoted (ascii "\"" ++ ([c] ++ ascii "\"")) [c] :=
    fun c hc => ⟨[c], rfl, .plain hc.1 hc.2.1 hc.2.2 .nil⟩
  have htext : Members integerLib (ascii "\"a\":[true],\"b\":null, \"a\":\"x\",\x7d")
      [(ascii "a", .array [.bool true]), (ascii "b", .null), (ascii "a", .string (ascii "x"))] :=
    .more blank_nil (hquoted 97 (by decide)) blank_nil blank_nil
      (.array (.last blank_nil .true blank_nil)) blank_nil
      (.more blank_nil (hquoted 98 (by decide)) blank_nil blank_nil .null blank_nil
        (.more (b := [32]) (by decide) (hquoted 97 (by decide)) blank_nil blank_nil
          (.string (hquoted 120 (by decide))) blank_nil (.close blank_nil)))
  apply encode_of_decode isBorder_firstBorder (Text.object htext).spells
  simp [Tree.Whole, WholeMembers, WholeElements, Tree.value]

end Json

end GafqEngine
