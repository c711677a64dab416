import MonkeyLang.Text.Basic

/-!
# Numerals read back

The decimal numeral of a number is a run of digits, never empty, and stands for that
number.  So a numeral without a sign is read as its number, and as a 64-bit integer
exactly as far as the signed range goes.
-/

namespace MonkeyLang.Text

theorem isDigit_digit {n : Nat} (h : n < 10) : isDigit (digit n) = true := by
  have hall : ∀ n < 10, isDigit (digit n) = true := by decide
  exact hall n h

theorem toNat_digit {n : Nat} (h : n < 10) : (digit n).toNat - '0'.toNat = n := by
  have hall : ∀ n < 10, (digit n).toNat - '0'.toNat = n := by decide
  exact hall n h

theorem ofNat_ne_nil (n : Nat) : ofNat n ≠ [] := by
  rw [ofNat]
  split <;> simp

/-- A numeral is made of digits. -/
theorem isDigit_of_mem_ofNat (n : Nat) : ∀ b ∈ ofNat n, isDigit b = true := by
  induction n using ofNat.induct with
  | case1 n hn =>
      intro b hb
      rw [ofNat, if_pos hn, List.mem_singleton] at hb
      rw [hb]
      exact isDigit_digit hn
  | case2 n hn ih =>
      intro b hb
      rw [ofNat, if_neg hn, List.mem_append, List.mem_singleton] at hb
      rcases hb with hb | rfl
      · exact ih b hb
      · exact isDigit_digit (Nat.mod_lt n (by decide))

/-- One more digit. -/
theorem digitsValue_concat (digits : Text) (b : UInt8) :
    digitsValue (digits ++ [b]) = 10 * digitsValue digits + (b.toNat - '0'.toNat) := by
  simp [digitsValue]

/-- A numeral stands for its number. -/
theorem digitsValue_ofNat (n : Nat) : digitsValue (ofNat n) = n := by
  induction n using ofNat.induct with
  | case1 n hn =>
      have hdigit := toNat_digit hn
      rw [ofNat, if_pos hn, ← List.nil_append [digit n], digitsValue_concat, hdigit]
      simp [digitsValue]
  | case2 n hn ih =>
      have hdigit := toNat_digit (Nat.mod_lt n (by decide : 0 < 10))
      rw [ofNat, if_neg hn, digitsValue_concat, ih, hdigit]
      omega

theorem toNat?_ofNat (n : Nat) : toNat? (ofNat n) = some n := by
  have hdigits : (ofNat n).all isDigit = true := List.all_eq_true.2 (isDigit_of_mem_ofNat n)
  simp [toNat?, hdigits, ofNat_ne_nil, digitsValue_ofNat]

/-- A numeral has no sign. -/
theorem toInt?_ofNat (n : Nat) : toInt? (ofNat n) = some (n : Int) := by
  obtain ⟨b, rest, hcons⟩ := List.exists_cons_of_ne_nil (ofNat_ne_nil n)
  have hdigit : isDigit b = true := isDigit_of_mem_ofNat n b (by simp [hcons])
  have hminus : b ≠ '-'.toUInt8 := by
    rintro rfl
    exact absurd hdigit (by decide)
  have hplus : b ≠ '+'.toUInt8 := by
    rintro rfl
    exact absurd hdigit (by decide)
  have hnumber := toNat?_ofNat n
  rw [hcons] at hnumber ⊢
  rw [toInt?, if_neg hminus, if_neg hplus, hnumber]
  rfl

/-- **Numerals in range are read back** as 64-bit integers. -/
theorem toInt64?_ofNat {n : Nat} (h : n < 0x8000000000000000) :
    toInt64? (ofNat n) = some (Int64.ofNat n) := by
  have hrange : -0x8000000000000000 ≤ (n : Int) ∧ (n : Int) < 0x8000000000000000 := by omega
  rw [toInt64?, toInt?_ofNat, Option.bind_some, if_pos hrange, Int64.ofInt_eq_ofNat]

end MonkeyLang.Text
