/-
LiveQuery/Proofs/Decimal/Quotients.lean

The whole part of a quotient that has been rounded to a double.

Design.  A quotient `num / den` that is no whole number is at least `1 / den` away from the next
one.  Rounding to a multiple of `1 / s` moves it by `1 / (2 * s)` at most, which does not reach
there as long as `den` is less than `2 * s` (`roundHalfEven_mul_div`).  A double has 53 binary
digits, so that `s` is large enough where numerator and denominator are below `2 ^ 52`
(`exponentOf_spec`).

Main result: `whole_ofRatio`.
-/
import Mathlib.Tactic.Ring
import LiveQuery.Decimal.Binary64

namespace LiveQuery

/-! ### Rounding to a whole number -/

theorem div_le_roundHalfEven (num den : Nat) : num / den ≤ roundHalfEven num den := by
  unfold roundHalfEven
  dsimp only
  split
  · exact Nat.le_refl _
  · split
    · exact Nat.le_succ _
    · exact Nat.le_add_right _ _

/-- A number is rounded up by a half at most. -/
theorem two_mul_roundHalfEven_le (num den : Nat) :
    2 * (den * roundHalfEven num den) ≤ 2 * num + den := by
  have hdiv : den * (num / den) + num % den = num := Nat.div_add_mod num den
  -- it is rounded up only where the remainder is a half or more
  have hup (r : Nat) (hr : r ≤ num / den + 1) (hhalf : num / den < r → den ≤ 2 * (num % den)) :
      2 * (den * r) ≤ 2 * num + den := by
    rcases Nat.lt_or_ge (num / den) r with hlt | hle
    · obtain rfl : r = num / den + 1 := by omega
      have := hhalf hlt
      rw [Nat.mul_add, Nat.mul_one]
      omega
    · have := Nat.mul_le_mul_left den hle
      omega
  unfold roundHalfEven
  dsimp only
  split
  · exact hup _ (Nat.le_succ _) fun h => absurd h (Nat.lt_irrefl _)
  · split
    · exact hup _ (Nat.le_refl _) fun _ => by omega
    · exact hup _ (by omega) fun _ => by omega

/-- Rounding to a multiple of `1 / s` keeps the whole part. -/
theorem roundHalfEven_mul_div {num den s : Nat} (hden : 0 < den) (hs : den < 2 * s) :
    roundHalfEven (num * s) den / s = num / den := by
  apply Nat.div_eq_of_lt_le
  · calc num / den * s ≤ num * s / den := by
          rw [Nat.le_div_iff_mul_le hden]
          calc num / den * s * den = num / den * den * s := by ring
            _ ≤ num * s := Nat.mul_le_mul_right s (Nat.div_mul_le_self num den)
      _ ≤ roundHalfEven (num * s) den := div_le_roundHalfEven _ _
  · by_contra hnot
    have hup : (num / den + 1) * s ≤ roundHalfEven (num * s) den := Nat.le_of_not_lt hnot
    have hnext : num + 1 ≤ den * (num / den + 1) := Nat.lt_mul_div_succ num hden
    have hle : 2 * (num * s) + 2 * s ≤ 2 * (num * s) + den :=
      calc 2 * (num * s) + 2 * s = 2 * ((num + 1) * s) := by ring
        _ ≤ 2 * (den * (num / den + 1) * s) :=
          Nat.mul_le_mul_left 2 (Nat.mul_le_mul_right s hnext)
        _ = 2 * (den * ((num / den + 1) * s)) := by rw [Nat.mul_assoc]
        _ ≤ 2 * (den * roundHalfEven (num * s) den) :=
          Nat.mul_le_mul_left 2 (Nat.mul_le_mul_left den hup)
        _ ≤ 2 * (num * s) + den := two_mul_roundHalfEven_le _ _
    omega

namespace Binary64

/-! ### Bits -/

/-- A normal double that is not negative, read back. -/
theorem decode_ofFields {exponent fraction : Nat} (hpos : 0 < exponent) (hlt : exponent < 0x7FF)
    (hfraction : fraction < 2 ^ 52) :
    (ofFields false exponent fraction).decode =
      .finite false (fraction + 2 ^ 52) ((exponent : Int) - 1075) := by
  have hbits : (ofFields false exponent fraction).bits.toNat = exponent * 2 ^ 52 + fraction := by
    simp only [ofFields, Bool.false_eq_true, if_false, Nat.pow_eq, UInt64.toNat_ofNat']
    omega
  have hsign : (exponent * 2 ^ 52 + fraction) / 2 ^ 63 = 0 := by omega
  have hexponent : (exponent * 2 ^ 52 + fraction) / 2 ^ 52 % 2 ^ 11 = exponent := by omega
  have hrest : (exponent * 2 ^ 52 + fraction) % 2 ^ 52 = fraction := by omega
  simp only [decode, hbits, Nat.pow_eq, hsign, hexponent, hrest]
  rw [if_neg (by omega), if_neg (by omega)]
  rfl

/-- The whole part of a double whose unit is `1 / 2 ^ k`. -/
theorem whole_of_decode {x : Binary64} {mantissa k : Nat}
    (h : x.decode = .finite false mantissa (-k)) : x.whole = mantissa / 2 ^ k := by
  rw [whole, h]
  cases k with
  | zero => simp [scaled]
  | succ k =>
    have hneg : ¬(0 : Int) ≤ -((k + 1 : Nat) : Int) := by omega
    have hexponent : (- -((k + 1 : Nat) : Int)).toNat = k + 1 := by omega
    simp only [scaled, if_neg hneg, hexponent, Nat.pow_eq, Nat.one_mul]

/-! ### Quotients -/

/-- With the exponent of a quotient its mantissa has 53 binary digits, and the unit is no larger
than one part in the denominator. -/
theorem exponentOf_spec {num den : Nat} (hpos : 0 < num) (hnum : num < 2 ^ 52) (hden : 0 < den)
    (hden' : den < 2 ^ 52) :
    ∃ k : Nat, exponentOf num den = -(k : Int) ∧ 0 < k ∧ k ≤ 105 ∧ den ≤ 2 ^ k ∧
      2 ^ 52 * den ≤ num * 2 ^ k ∧ num * 2 ^ k < 2 ^ 53 * den := by
  have hnumLog : num.log2 < 52 := (Nat.log2_lt hpos.ne').mpr hnum
  have hdenLog : den.log2 < 52 := (Nat.log2_lt hden.ne').mpr hden'
  -- the exponent that is tried first
  obtain ⟨j, hj⟩ : ∃ j, j + num.log2 = den.log2 + 52 := ⟨den.log2 + 52 - num.log2, by omega⟩
  have hfirst : (num.log2 : Int) - den.log2 - 53 = -((j + 1 : Nat) : Int) := by omega
  have hscaled : scaled num den (-((j + 1 : Nat) : Int)) = (num * 2 ^ (j + 1), den) := by
    have hneg : ¬(0 : Int) ≤ -((j + 1 : Nat) : Int) := by omega
    have hexponent : (- -((j + 1 : Nat) : Int)).toNat = j + 1 := by omega
    simp only [scaled, if_neg hneg, hexponent, Nat.pow_eq]
  have hunit : den ≤ 2 ^ j :=
    calc den ≤ 2 ^ (den.log2 + 1) := Nat.le_of_lt Nat.lt_log2_self
      _ ≤ 2 ^ j := Nat.pow_le_pow_right (by decide) (by omega)
  have hlow : 2 ^ 52 * den < num * 2 ^ (j + 1) :=
    calc 2 ^ 52 * den < 2 ^ 52 * 2 ^ (den.log2 + 1) :=
          Nat.mul_lt_mul_of_pos_left Nat.lt_log2_self (by decide)
      _ = 2 ^ num.log2 * 2 ^ (j + 1) := by
          rw [← Nat.pow_add, ← Nat.pow_add]
          congr 1
          omega
      _ ≤ num * 2 ^ (j + 1) := Nat.mul_le_mul_right _ (Nat.log2_self_le hpos.ne')
  have hhigh : num * 2 ^ j < 2 ^ 53 * den :=
    calc num * 2 ^ j < 2 ^ (num.log2 + 1) * 2 ^ j :=
          Nat.mul_lt_mul_of_pos_right Nat.lt_log2_self (Nat.two_pow_pos j)
      _ = 2 ^ 53 * 2 ^ den.log2 := by
          rw [← Nat.pow_add, ← Nat.pow_add]
          congr 1
          omega
      _ ≤ 2 ^ 53 * den := Nat.mul_le_mul_left _ (Nat.log2_self_le hden.ne')
  have hexponent : exponentOf num den =
      max minExponent (if 2 ^ 53 ≤ num * 2 ^ (j + 1) / den then -(j : Int)
        else -((j + 1 : Nat) : Int)) := by
    simp only [exponentOf, hfirst, hscaled, Nat.pow_eq]
    congr 2
    omega
  have hdouble : num * 2 ^ (j + 1) = 2 * (num * 2 ^ j) := by ring
  by_cases hfits : 2 ^ 53 ≤ num * 2 ^ (j + 1) / den
  · -- one digit too many: the unit is doubled
    have hle : 2 ^ 53 * den ≤ num * 2 ^ (j + 1) := (Nat.le_div_iff_mul_le hden).mp hfits
    refine ⟨j, ?_, by omega, by omega, hunit, by omega, hhigh⟩
    rw [hexponent, if_pos hfits, minExponent]
    omega
  · have hlt : num * 2 ^ (j + 1) < 2 ^ 53 * den := by
      rw [Nat.le_div_iff_mul_le hden] at hfits
      exact Nat.lt_of_not_le hfits
    have hunit' : den ≤ 2 ^ (j + 1) :=
      hunit.trans (Nat.pow_le_pow_right (by decide) (Nat.le_succ j))
    refine ⟨j + 1, ?_, Nat.succ_pos j, by omega, hunit', hlow.le, hlt⟩
    rw [hexponent, if_neg hfits, minExponent]
    omega

/-- The mantissa and the exponent of the double nearest to a quotient.  Rounding may carry into one
more digit, and then the mantissa is halved. -/
theorem decode_ofRatio {num den k : Nat} (hpos : 0 < num)
    (hexponent : exponentOf num den = -(k : Int)) (hk : 0 < k) (hkmax : k ≤ 105) {r : Nat}
    (hr : roundHalfEven (num * 2 ^ k) den = r) (hlow : 2 ^ 52 ≤ r) (hhigh : r ≤ 2 ^ 53) :
    (ofRatio false num den).decode =
      if r = 2 ^ 53 then .finite false (2 ^ 52) (-((k - 1 : Nat) : Int))
      else .finite false r (-(k : Int)) := by
  have hscaled : scaled num den (-(k : Int)) = (num * 2 ^ k, den) := by
    have hneg : ¬(0 : Int) ≤ -(k : Int) := by omega
    have htoNat : (- -(k : Int)).toNat = k := by omega
    simp only [scaled, if_neg hneg, htoNat, Nat.pow_eq]
  simp only [ofRatio, if_neg hpos.ne', hexponent, hscaled, Nat.pow_eq, hr]
  by_cases hcarry : r = 2 ^ 53
  · have hfield : (-(k : Int) + 1 + 1075).toNat = 1076 - k := by omega
    simp only [if_pos hcarry, hfield]
    rw [if_neg (Nat.lt_irrefl _), if_neg (by omega),
      decode_ofFields (by omega) (by omega) (by omega)]
    congr 1
    omega
  · have hfield : (-(k : Int) + 1075).toNat = 1075 - k := by omega
    simp only [if_neg hcarry, hfield]
    rw [if_neg (by omega), if_neg (by omega), decode_ofFields (by omega) (by omega) (by omega)]
    congr 1
    · omega
    · omega

/-- **The double nearest to a quotient has the whole part of the quotient**, where numerator and
denominator are below `2 ^ 52`: it is never rounded up to a whole number that the quotient does not
reach. -/
theorem whole_ofRatio {num den : Nat} (hnum : num < 2 ^ 52) (hden : 0 < den)
    (hden' : den < 2 ^ 52) : (ofRatio false num den).whole = num / den := by
  rcases Nat.eq_zero_or_pos num with rfl | hpos
  · have hdecode : (ofRatio false 0 den).decode = .finite false 0 (-(1074 : Nat)) := by
      rw [ofRatio, if_pos rfl]
      decide
    rw [whole_of_decode hdecode, Nat.zero_div, Nat.zero_div]
  · obtain ⟨k, hexponent, hk, hkmax, hunit, hlow, hhigh⟩ := exponentOf_spec hpos hnum hden hden'
    have hfloor : 2 ^ 52 ≤ roundHalfEven (num * 2 ^ k) den :=
      ((Nat.le_div_iff_mul_le hden).mpr hlow).trans (div_le_roundHalfEven _ _)
    have hceil : roundHalfEven (num * 2 ^ k) den ≤ 2 ^ 53 := by
      have hround := two_mul_roundHalfEven_le (num * 2 ^ k) den
      by_contra hnot
      have hmul := Nat.mul_le_mul_left den (Nat.lt_of_not_le hnot)
      rw [Nat.mul_succ, Nat.mul_comm den] at hmul
      omega
    have hdecode := decode_ofRatio hpos hexponent hk hkmax rfl hfloor hceil
    rw [← roundHalfEven_mul_div hden (by omega : den < 2 * 2 ^ k)]
    by_cases hcarry : roundHalfEven (num * 2 ^ k) den = 2 ^ 53
    · rw [if_pos hcarry] at hdecode
      rw [whole_of_decode hdecode, hcarry]
      -- mantissa and unit are doubled together
      obtain ⟨j, rfl⟩ : ∃ j, k = j + 1 := ⟨k - 1, by omega⟩
      rw [Nat.add_sub_cancel, Nat.pow_succ 2 52, Nat.pow_succ 2 j,
        Nat.mul_div_mul_right _ _ (by decide)]
    · rw [if_neg hcarry] at hdecode
      exact whole_of_decode hdecode

end Binary64

end LiveQuery
