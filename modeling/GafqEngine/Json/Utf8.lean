import GafqEngine.Json.Text

/-!
# Code points as bytes

`codepoint_to_utf8` writes UTF-8: for every character, the bytes of the encoding of the
Lean library. Numbers up to the last code point never make `string.char` fail, and from
there on the function raises the error of its own.
-/

namespace GafqEngine

open CLib

namespace Json

theorem stringChar_eq {ns : List ℤ} (h : ∀ n ∈ ns, 0 ≤ n ∧ n ≤ 255) :
    stringChar ns = .ok (ns.map fun n => UInt8.ofNat n.toNat) := by
  have hnone : ns.findIdx? (fun n => n < 0 ∨ 255 < n) = none := by
    rw [List.findIdx?_eq_none_iff]
    intro n hn
    have hrange := h n hn
    rw [decide_eq_false_iff_not]
    omega
  rw [stringChar, hnone]

theorem codepointToUtf8_ascii {n : ℕ} (h : n ≤ 0x7f) :
    codepointToUtf8 n = .ok [UInt8.ofNat n] := by
  rw [codepointToUtf8, if_pos (by omega), stringChar_eq (by simp; omega)]
  rfl

theorem codepointToUtf8_two {n : ℕ} (hlo : 0x7f < n) (hhi : n ≤ 0x7ff) :
    codepointToUtf8 n = .ok [UInt8.ofNat (n / 64 + 192), UInt8.ofNat (n % 64 + 128)] := by
  rw [codepointToUtf8, if_neg (by omega), if_pos (by omega), stringChar_eq (by simp; omega)]
  rfl

theorem codepointToUtf8_three {n : ℕ} (hlo : 0x7ff < n) (hhi : n ≤ 0xffff) :
    codepointToUtf8 n = .ok [UInt8.ofNat (n / 4096 + 224), UInt8.ofNat (n % 4096 / 64 + 128),
      UInt8.ofNat (n % 64 + 128)] := by
  rw [codepointToUtf8, if_neg (by omega), if_neg (by omega), if_pos (by omega),
    stringChar_eq (by simp; omega)]
  rfl

theorem codepointToUtf8_four {n : ℕ} (hlo : 0xffff < n) (hhi : n ≤ 0x10ffff) :
    codepointToUtf8 n = .ok [UInt8.ofNat (n / 262144 + 240),
      UInt8.ofNat (n % 262144 / 4096 + 128), UInt8.ofNat (n % 4096 / 64 + 128),
      UInt8.ofNat (n % 64 + 128)] := by
  rw [codepointToUtf8, if_neg (by omega), if_neg (by omega), if_neg (by omega), if_pos (by omega),
    stringChar_eq (by simp; omega)]
  rfl

/-- The error for a number behind the last code point. -/
theorem codepointToUtf8_of_lt {n : ℕ} (h : 0x10ffff < n) :
    codepointToUtf8 n =
      raise (ascii "invalid unicode codepoint '" ++ hexadecimal n ++ ascii "'") := by
  rw [codepointToUtf8, if_neg (by omega), if_neg (by omega), if_neg (by omega), if_neg (by omega)]
  rfl

theorem exists_codepointToUtf8 {n : ℕ} (h : n ≤ 0x10ffff) :
    ∃ text, codepointToUtf8 n = .ok text := by
  rcases Nat.lt_or_ge 0xffff n with hfour | hfour
  · exact ⟨_, codepointToUtf8_four hfour h⟩
  · rcases Nat.lt_or_ge 0x7ff n with hthree | hthree
    · exact ⟨_, codepointToUtf8_three hthree hfour⟩
    · rcases Nat.lt_or_ge 0x7f n with htwo | htwo
      · exact ⟨_, codepointToUtf8_two htwo hthree⟩
      · exact ⟨_, codepointToUtf8_ascii htwo⟩

theorem char_le (c : Char) : c.toNat ≤ 0x10ffff := by
  rcases c.valid with h | ⟨-, h⟩
  · exact (Nat.lt_trans h (by decide)).le
  · exact Nat.le_of_lt_succ h

/-- A character is written as the Lean library encodes it. -/
theorem codepointToUtf8_char (c : Char) :
    codepointToUtf8 c.toNat = .ok (String.utf8EncodeChar c) := by
  have hle := char_le c
  change _ = Except.ok (if c.toNat ≤ 0x7f then _ else if c.toNat ≤ 0x7ff then _ else
    if c.toNat ≤ 0xffff then _ else _)
  split_ifs with hone htwo hthree
  · exact codepointToUtf8_ascii hone
  · have hlead : c.toNat / 64 + 192 = c.toNat / 64 % 0x20 + 0xc0 := by omega
    rw [codepointToUtf8_two (not_le.mp hone) htwo, hlead]
    rfl
  · have hlead : c.toNat / 4096 + 224 = c.toNat / 4096 % 0x10 + 0xe0 := by omega
    have hsecond : c.toNat % 4096 / 64 = c.toNat / 64 % 0x40 := by omega
    rw [codepointToUtf8_three (not_le.mp htwo) hthree, hlead, hsecond]
    rfl
  · have hlead : c.toNat / 262144 + 240 = c.toNat / 262144 % 0x08 + 0xf0 := by omega
    have hsecond : c.toNat % 262144 / 4096 = c.toNat / 4096 % 0x40 := by omega
    have hthird : c.toNat % 4096 / 64 = c.toNat / 64 % 0x40 := by omega
    rw [codepointToUtf8_four (not_le.mp hthree) hle, hlead, hsecond, hthird]
    rfl

end Json

end GafqEngine
