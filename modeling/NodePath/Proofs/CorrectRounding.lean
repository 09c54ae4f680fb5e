/-
# NodePath.Proofs.CorrectRounding — a number is rounded to the double that covers it

A product or a quotient of doubles is a quotient of naturals times a power of two before it is rounded. A double
**covers** the numbers that are at most half a unit away from it, those at the ends only when its significand is even.
Whatever is computed exactly and is covered by a double is rounded to this double.

* §A  Quotients rounded to the nearest natural.
* §B  Bits that are shifted out.
* §C  `Binary.Covers`.
* §D  Rounding.
* §E  Products and quotients.
-/
import NodePath.Number.Shortest
import NodePath.Proofs.DoubleSign

namespace NodePath.Number

open Float.Model

variable {m n N D k : Nat} {e : Int} {s : UnpackedFloat.Sign}

/-! ## §A  Quotients -/

/-- **The nearest natural** to a quotient is the one that is at most a half away; an even one, if it is just a half. -/
theorem roundDivEven_eq (hD : 0 < D) (hlow : 2 * m * D ≤ 2 * N + D) (hhigh : 2 * N ≤ 2 * m * D + D)
    (htie : 2 * m * D = 2 * N + D ∨ 2 * N = 2 * m * D + D → m % 2 = 0) : roundDivEven N D = m := by
  have hsum : D * (N / D) + N % D = N := Nat.div_add_mod N D
  have hrest : N % D < D := Nat.mod_lt N hD
  have hpart : D * (N / D) ≤ N := Nat.mul_div_le N D
  have hle : N / D ≤ m := by
    refine Nat.le_of_lt_succ (Nat.lt_of_mul_lt_mul_left (a := D) ?_)
    rw [Nat.mul_succ]
    linarith
  have hge : m ≤ N / D + 1 := by
    refine Nat.le_of_lt_succ (Nat.lt_of_mul_lt_mul_left (a := D) ?_)
    rw [Nat.mul_succ, Nat.mul_succ]
    linarith
  have hor : m = N / D ∨ m = N / D + 1 := by omega
  unfold roundDivEven
  dsimp only
  rcases hor with hm | hm
  · have hpart : 2 * m * D = 2 * (D * (N / D)) := by rw [hm]; ring
    rcases Nat.lt_or_eq_of_le (show 2 * (N % D) ≤ D by omega) with hlt | heq
    · rw [Nat.compare_eq_lt.mpr hlt, hm]
    · have heven := htie (.inr (by omega))
      rw [Nat.compare_eq_eq.mpr heq, ← hm]
      simp [heven]
  · have hpart : 2 * m * D = 2 * (D * (N / D)) + 2 * D := by rw [hm]; ring
    rcases Nat.lt_or_eq_of_le (show D ≤ 2 * (N % D) by omega) with hlt | heq
    · rw [Nat.compare_eq_gt.mpr hlt, hm]
    · have heven := htie (.inl (by omega))
      have hodd : ¬ N / D % 2 = 0 := by omega
      rw [Nat.compare_eq_eq.mpr heq.symm, hm]
      simp [hodd]

/-! ## §B  Bits shifted out -/

/-- **Carries** says that a significand is the whole part of a quotient, and that its two bits behind tell how much the
rest is: whether it is a half or more, and whether it is anything but nothing and a half. -/
structure Carries (em : UnpackedFloat.ExtendedMantissa) (N D : Nat) : Prop where
  mantissa : em.mantissa = N / D
  roundBit : em.roundBit = true ↔ D ≤ 2 * (N % D)
  stickyBit : em.stickyBit = true ↔ N % D ≠ 0 ∧ 2 * (N % D) ≠ D

namespace Carries

variable {em : UnpackedFloat.ExtendedMantissa}

theorem of_fraction (hD : 0 < D) : Carries
    (.ofMantissaAndAccuracy (N / D) (UnpackedFloat.accuracyOfFraction (N % D) D)) N D := by
  unfold UnpackedFloat.accuracyOfFraction
  by_cases hzero : N % D = 0
  · rw [if_pos hzero]
    exact ⟨rfl, by simp [UnpackedFloat.ExtendedMantissa.ofMantissaAndAccuracy, hzero, hD.ne'],
      by simp [UnpackedFloat.ExtendedMantissa.ofMantissaAndAccuracy, hzero]⟩
  · rw [if_neg hzero]
    rcases Nat.lt_trichotomy (2 * (N % D)) D with hlt | heq | hgt
    · rw [Nat.compare_eq_lt.mpr hlt]
      exact ⟨rfl, iff_of_false Bool.false_ne_true (by omega), iff_of_true rfl ⟨hzero, hlt.ne⟩⟩
    · rw [Nat.compare_eq_eq.mpr heq]
      exact ⟨rfl, iff_of_true rfl heq.ge, iff_of_false Bool.false_ne_true fun h => h.2 heq⟩
    · rw [Nat.compare_eq_gt.mpr hgt]
      exact ⟨rfl, iff_of_true rfl hgt.le, iff_of_true rfl ⟨hzero, hgt.ne'⟩⟩

/-- Shifting by one halves the quotient. -/
theorem shiftRightOne (h : Carries em N D) (hD : 0 < D) : Carries em.shiftRightOne N (D * 2) := by
  have hrest : N % (D * 2) = N % D + D * (N / D % 2) := Nat.mod_mul
  have hlt : N % D < D := Nat.mod_lt N hD
  have hbit : N / D % 2 = 0 ∨ N / D % 2 = 1 := Nat.mod_two_eq_zero_or_one _
  have hsticky : (em.roundBit || em.stickyBit) = true ↔ N % D ≠ 0 := by
    rw [Bool.or_eq_true, h.roundBit, h.stickyBit]
    omega
  refine ⟨?_, ?_, ?_⟩
  · rw [← Nat.div_div_eq_div_mul, ← h.mantissa]
    rfl
  · show (em.mantissa % 2 != 0) = true ↔ _
    rw [h.mantissa, bne_iff_ne, hrest]
    rcases hbit with hbit | hbit <;> rw [hbit] <;> omega
  · show (em.roundBit || em.stickyBit) = true ↔ _
    rw [hsticky, hrest]
    rcases hbit with hbit | hbit <;> rw [hbit] <;> omega

theorem shiftRight (h : Carries em N D) (hD : 0 < D) (k : Nat) : Carries (em >>> k) N (D * 2 ^ k) := by
  show Carries (k.repeat UnpackedFloat.ExtendedMantissa.shiftRightOne em) N (D * 2 ^ k)
  induction k with
  | zero => simpa [Nat.repeat] using h
  | succ k ih =>
    rw [Nat.pow_succ, ← Nat.mul_assoc]
    exact ih.shiftRightOne (Nat.mul_pos hD (Nat.pow_pos Nat.zero_lt_two))

/-- The bits behind a significand are what rounding has to know. -/
theorem roundedMantissa (h : Carries em N D) (hD : 0 < D) : em.roundedMantissa = roundDivEven N D := by
  obtain ⟨mantissa, round, sticky⟩ := em
  obtain ⟨hmantissa, hround, hsticky⟩ := h
  dsimp only at hmantissa hround hsticky
  unfold roundDivEven
  dsimp only
  rw [← hmantissa]
  cases round <;> cases sticky <;>
    simp only [Bool.false_eq_true, false_iff, true_iff, Nat.not_le, not_and, not_not, ne_eq] at hround hsticky <;>
    simp only [UnpackedFloat.ExtendedMantissa.roundedMantissa, UnpackedFloat.ExtendedMantissa.accuracy,
      UnpackedFloat.Accuracy.roundToNearestEven]
  · rw [Nat.compare_eq_lt.mpr hround]
  · rw [Nat.compare_eq_lt.mpr hround]
  · have hhalf : 2 * (N % D) = D := hsticky fun hzero => by omega
    rw [Nat.compare_eq_eq.mpr hhalf]
    dsimp only
    rcases Nat.mod_two_eq_zero_or_one mantissa with heven | hodd
    · simp [heven]
    · simp [hodd]
  · have hmore : D < 2 * (N % D) := by omega
    rw [Nat.compare_eq_gt.mpr hmore]

end Carries

/-! ## §C  Covered numbers -/

namespace Binary

/-- The value of a magnitude. -/
def value (b : Binary) : ℚ := b.significand * 2 ^ b.exponent

/-- The lower end of what is read back as a magnitude, in quarters of its unit. -/
def low (b : Binary) : Nat := if b.narrowBelow then 4 * b.significand - 1 else 4 * b.significand - 2

/-- **Covers** says that a number lies among those that are read back as a magnitude. -/
structure Covers (b : Binary) (v : ℚ) : Prop where
  above : b.low * 2 ^ (b.exponent - 2) < v ∨ b.significand % 2 = 0 ∧ b.low * 2 ^ (b.exponent - 2) = v
  below : v < (4 * b.significand + 2) * 2 ^ (b.exponent - 2) ∨
    b.significand % 2 = 0 ∧ v = (4 * b.significand + 2) * 2 ^ (b.exponent - 2)

/-- **Canonical** magnitudes are those of doubles that are not zero. -/
structure Canonical (b : Binary) : Prop where
  pos : 0 < b.significand
  lt : b.significand < 2 ^ 53
  least : -1074 ≤ b.exponent
  most : b.exponent ≤ 971
  normal : -1074 < b.exponent → 2 ^ 52 ≤ b.significand
  narrow : b.significand = 2 ^ 52 → -1074 < b.exponent → b.narrowBelow = true

variable {b : Binary} {v : ℚ}

/-- Half a unit below and half a unit above, told in units. -/
theorem Covers.bounds (h : b.Covers v) (hpos : 0 < b.significand) :
    ((2 * b.significand - 1 : ℚ) * 2 ^ b.exponent ≤ 2 * v ∧ 2 * v ≤ (2 * b.significand + 1) * 2 ^ b.exponent) ∧
      ((2 * b.significand - 1 : ℚ) * 2 ^ b.exponent = 2 * v ∨ 2 * v = (2 * b.significand + 1) * 2 ^ b.exponent →
        b.significand % 2 = 0) ∧
      (b.narrowBelow = true → (4 * b.significand - 1 : ℚ) * 2 ^ b.exponent ≤ 4 * v) := by
  have hunit : (2 : ℚ) ^ b.exponent = 4 * 2 ^ (b.exponent - 2) := by
    rw [zpow_sub₀ two_ne_zero]
    norm_num
    ring
  have hunit_pos : (0 : ℚ) < 2 ^ (b.exponent - 2) := zpow_pos two_pos _
  have hlow : (4 * b.significand - 2 : ℚ) ≤ b.low ∧ (b.narrowBelow = true → (b.low : ℚ) = 4 * b.significand - 1) := by
    unfold low
    split
    · rw [Nat.cast_sub (by omega)]
      push_cast
      exact ⟨by linarith, fun _ => rfl⟩
    · rename_i hwide
      rw [Nat.cast_sub (by omega)]
      push_cast
      exact ⟨le_refl _, fun h => absurd h hwide⟩
  have hscaled := mul_le_mul_of_nonneg_right hlow.1 hunit_pos.le
  rw [hunit]
  refine ⟨⟨?_, ?_⟩, ?_, fun hnarrow => ?_⟩
  · rcases h.above with habove | ⟨-, habove⟩ <;> linarith
  · rcases h.below with hbelow | ⟨-, hbelow⟩ <;> linarith
  · rintro (heq | heq)
    · rcases h.above with habove | ⟨heven, -⟩
      · linarith
      · exact heven
    · rcases h.below with hbelow | ⟨heven, -⟩
      · linarith
      · exact heven
  · rw [← hlow.2 hnarrow]
    rcases h.above with habove | ⟨-, habove⟩ <;> linarith

/-- What a canonical magnitude covers is neither too small nor too great for a double. -/
theorem Covers.range (h : b.Covers v) (hb : b.Canonical) : (2 : ℚ) ^ (-1075 : Int) ≤ v ∧ v < 2 ^ (1024 : Int) := by
  obtain ⟨⟨hlow, hhigh⟩, -⟩ := h.bounds hb.pos
  have hleast : (2 : ℚ) ^ (-1074 : Int) ≤ 2 ^ b.exponent := zpow_le_zpow_right₀ one_le_two hb.least
  have hmost : (2 : ℚ) ^ b.exponent ≤ 2 ^ (971 : Int) := zpow_le_zpow_right₀ one_le_two hb.most
  have hone : (1 : ℚ) ≤ b.significand := by exact_mod_cast hb.pos
  have hlt : (b.significand : ℚ) ≤ 2 ^ 53 - 1 := by
    have := hb.lt
    rw [le_sub_iff_add_le]
    exact_mod_cast this
  have hpos : (0 : ℚ) < 2 ^ b.exponent := zpow_pos two_pos _
  constructor
  · have hhalf : (2 : ℚ) ^ (-1074 : Int) = 2 * 2 ^ (-1075 : Int) := by rw [← zpow_one_add₀ two_ne_zero]; rfl
    nlinarith
  · have htop : (2 : ℚ) ^ (1024 : Int) = 2 ^ 53 * 2 ^ (971 : Int) := by
      rw [← zpow_natCast, ← zpow_add₀ two_ne_zero]
      rfl
    have hscaled := mul_le_mul hlt hmost hpos.le (by norm_num)
    have htop_pos : (0 : ℚ) < 2 ^ (971 : Int) := zpow_pos two_pos _
    rw [htop]
    generalize (2 : ℚ) ^ (971 : Int) = top at hmost hscaled htop_pos ⊢
    linarith

end Binary

/-! ## §D  Rounding -/

/-- What fits is not shifted. -/
theorem shiftToTarget_of_lt (hm : m < 2 ^ 53) (he : -1074 ≤ e) :
    UnpackedFloat.shiftToTargetExponent Format.binary64 m e .exact = (⟨m, false, false⟩, e) := by
  have hlog : m.log2 ≤ 52 := by
    by_cases hzero : m = 0
    · simp [hzero]
    · exact Nat.le_of_lt_succ ((Nat.log2_lt hzero).mpr hm)
  have htarget : Format.binary64.targetExponent (totalExponent m e) ≤ e := by
    unfold Format.targetExponent totalExponent
    simp only [mantissaBits_binary64, Format.minExponent]
    omega
  have hamount : (Format.binary64.targetExponent (totalExponent m e) - e).toNat = 0 := by omega
  have hnone := shiftRight_exact m 0
  rw [Nat.pow_zero, Nat.mul_one] at hnone
  unfold UnpackedFloat.shiftToTargetExponent UnpackedFloat.shiftToExponent
  simp only [hamount, UnpackedFloat.ExtendedMantissa.ofMantissaAndAccuracy, hnone, Int.natCast_zero, Int.add_zero]

/-- **The first shift** leaves 53 bits of a quotient, or as many as there are above the least exponent. -/
theorem shiftToTarget_carries (hD : 0 < D) (hfine : 52 ≤ (N / D).log2 ∨ e = -1074) : ∃ em, ∃ k : Nat,
    UnpackedFloat.shiftToTargetExponent Format.binary64 (N / D) e (UnpackedFloat.accuracyOfFraction (N % D) D) =
        (em, e + k) ∧
      Carries em N (D * 2 ^ k) ∧ -1074 ≤ e + k ∧ N < 2 ^ 53 * (D * 2 ^ k) ∧
      (-1074 < e + k → 2 ^ 52 * (D * 2 ^ k) ≤ N) := by
  obtain ⟨t, ht⟩ : ∃ t, t = Format.binary64.targetExponent (totalExponent (N / D) e) := ⟨_, rfl⟩
  have htarget : t = max (((N / D).log2 : Int) - 52 + e) (-1074) := by
    rw [ht]
    unfold Format.targetExponent totalExponent
    simp only [mantissaBits_binary64, Format.minExponent]
    omega
  obtain ⟨k, hk⟩ : ∃ k : Nat, t = e + k := ⟨(t - e).toNat, by omega⟩
  have hamount : (t - e).toNat = k := by omega
  refine ⟨_, k, ?_, (Carries.of_fraction hD).shiftRight hD k, by omega, ?_, fun habove => ?_⟩
  · unfold UnpackedFloat.shiftToTargetExponent UnpackedFloat.shiftToExponent
    rw [← ht]
    simp only [hamount]
  · have hlt : N / D < 2 ^ (53 + k) :=
      Nat.lt_log2_self.trans_le (Nat.pow_le_pow_right Nat.zero_lt_two (by omega))
    rw [Nat.div_lt_iff_lt_mul hD, Nat.pow_add] at hlt
    calc N < 2 ^ 53 * 2 ^ k * D := hlt
      _ = 2 ^ 53 * (D * 2 ^ k) := by ring
  · have hlog : (N / D).log2 = 52 + k := by omega
    have hne : N / D ≠ 0 := by
      intro hzero
      rw [hzero, Nat.log2_zero] at hlog
      omega
    have hle : 2 ^ (52 + k) ≤ N / D := hlog ▸ Nat.log2_self_le hne
    rw [Nat.le_div_iff_mul_le hD, Nat.pow_add] at hle
    calc 2 ^ 52 * (D * 2 ^ k) = 2 ^ 52 * 2 ^ k * D := by ring
      _ ≤ N := hle

/-- A quotient that is between two ends is rounded to what is between them. -/
theorem roundDivEven_of_between {q : ℚ} (hD : 0 < D) (hq : q = N / D) (hlow : (2 * m - 1 : ℚ) ≤ 2 * q)
    (hhigh : 2 * q ≤ 2 * m + 1) (htie : (2 * m - 1 : ℚ) = 2 * q ∨ 2 * q = 2 * m + 1 → m % 2 = 0) :
    roundDivEven N D = m := by
  have hpos : (0 : ℚ) < D := by exact_mod_cast hD
  have hnum : (N : ℚ) = q * D := by rw [hq, div_mul_cancel₀ _ hpos.ne']
  have hlow' := mul_le_mul_of_nonneg_right hlow hpos.le
  have hhigh' := mul_le_mul_of_nonneg_right hhigh hpos.le
  refine roundDivEven_eq hD ?_ ?_ fun heq => htie (heq.imp (fun heq => ?_) fun heq => ?_)
  · have hcast : (2 * m * D : ℚ) ≤ 2 * N + D := by rw [hnum]; linarith
    exact_mod_cast hcast
  · have hcast : (2 * N : ℚ) ≤ 2 * m * D + D := by rw [hnum]; linarith
    exact_mod_cast hcast
  · have hcast : (2 * m * D : ℚ) = 2 * N + D := by exact_mod_cast heq
    rw [hnum] at hcast
    exact mul_right_cancel₀ hpos.ne' (by linarith)
  · have hcast : (2 * N : ℚ) = 2 * m * D + D := by exact_mod_cast heq
    rw [hnum] at hcast
    exact mul_right_cancel₀ hpos.ne' (by linarith)

/-- A number below its magnitude by so much that it has another exponent is just below a power of two. -/
theorem Binary.Covers.power_above {b : Binary} {q : ℚ} {j : Int} (h : b.Covers (q * 2 ^ j)) (hb : b.Canonical)
    (hj : -1074 ≤ j) (hlt : j < b.exponent) (hq : q < 2 ^ 53) :
    b.exponent = j + 1 ∧ b.significand = 2 ^ 52 ∧ (2 * 2 ^ 53 - 1 : ℚ) ≤ 2 * q := by
  obtain ⟨⟨hlow, -⟩, -, hnarrow⟩ := h.bounds hb.pos
  have hnormal : 2 ^ 52 ≤ b.significand := hb.normal (by omega)
  have hnormal' : (2 ^ 52 : ℚ) ≤ b.significand := by exact_mod_cast hnormal
  have hpos : (0 : ℚ) < 2 ^ j := zpow_pos two_pos _
  have hnext : b.exponent = j + 1 := by
    by_contra hne
    have hscale : (4 : ℚ) * 2 ^ j ≤ 2 ^ b.exponent := by
      calc (4 : ℚ) * 2 ^ j = 2 ^ (2 + j) := by rw [zpow_add₀ two_ne_zero]; norm_num
        _ ≤ 2 ^ b.exponent := zpow_le_zpow_right₀ one_le_two (by omega)
    nlinarith
  have hscale : (2 : ℚ) ^ b.exponent = 2 * 2 ^ j := by rw [hnext, zpow_add_one₀ two_ne_zero, mul_comm]
  rw [hscale] at hlow hnarrow
  have hless : (2 * b.significand - 1 : ℚ) * 2 ≤ 2 * q := le_of_mul_le_mul_right (by linarith) hpos
  have hpower : b.significand = 2 ^ 52 := by
    have hle : (b.significand : ℚ) < 2 ^ 52 + 1 := by linarith
    have hle' : b.significand < 2 ^ 52 + 1 := by exact_mod_cast hle
    omega
  refine ⟨hnext, hpower, ?_⟩
  have hquarter : (4 * b.significand - 1 : ℚ) * 2 ≤ 4 * q :=
    le_of_mul_le_mul_right (by linarith [hnarrow (hb.narrow hpower (by omega))]) hpos
  rw [hpower] at hquarter
  push_cast at hquarter
  linarith

/-- A number with all its bits has no greater exponent than the magnitude that covers it. -/
theorem Binary.Covers.not_lt {b : Binary} {q : ℚ} {j : Int} (h : b.Covers (q * 2 ^ j)) (hb : b.Canonical)
    (hq : (2 ^ 52 : ℚ) ≤ q) : ¬b.exponent < j := by
  intro hlt
  obtain ⟨⟨-, hhigh⟩, -⟩ := h.bounds hb.pos
  have hbits : (b.significand : ℚ) + 1 ≤ 2 ^ 53 := by exact_mod_cast hb.lt
  have hscale : (2 : ℚ) * 2 ^ b.exponent ≤ 2 ^ j := by
    rw [← zpow_one_add₀ two_ne_zero]
    exact zpow_le_zpow_right₀ one_le_two (by omega)
  have hpos : (0 : ℚ) < 2 ^ b.exponent := zpow_pos two_pos _
  nlinarith

/-- **A number is rounded to what covers it.** -/
theorem round_of_covers {b : Binary} (hb : b.Canonical) (hD : 0 < D) (hfine : 52 ≤ (N / D).log2 ∨ e = -1074)
    (h : b.Covers (N / D * 2 ^ e)) :
    UnpackedFloat.roundWithAccuracy Format.binary64 s (N / D) e (UnpackedFloat.accuracyOfFraction (N % D) D) =
      .finite s b.significand b.exponent hb.pos := by
  obtain ⟨em, k, hshift, hcarries, hleast, hless, hmore⟩ := shiftToTarget_carries hD hfine
  have hD' : 0 < D * 2 ^ k := Nat.mul_pos hD (Nat.pow_pos Nat.zero_lt_two)
  have hDpos : (0 : ℚ) < (D * 2 ^ k : Nat) := by exact_mod_cast hD'
  -- The quotient in units of the exponent that is reached.
  obtain ⟨q, hq⟩ : ∃ q : ℚ, q = N / (D * 2 ^ k : Nat) := ⟨_, rfl⟩
  have hvalue : (N / D * 2 ^ e : ℚ) = q * 2 ^ (e + k) := by
    rw [hq, zpow_add₀ two_ne_zero, zpow_natCast]
    push_cast
    field_simp
  have hqless : q < 2 ^ 53 := by
    rw [hq, div_lt_iff₀ hDpos]
    exact_mod_cast hless
  have hqmore : -1074 < e + k → (2 ^ 52 : ℚ) ≤ q := fun habove => by
    rw [hq, le_div_iff₀ hDpos]
    exact_mod_cast hmore habove
  rw [hvalue] at h
  unfold UnpackedFloat.roundWithAccuracy
  rw [hshift]
  dsimp only
  rw [hcarries.roundedMantissa hD']
  rcases Int.lt_trichotomy (e + k) b.exponent with hbelow | hsame | habove
  · -- Only the neighbour below a power of two has another exponent; it is rounded up to the power.
    obtain ⟨hexponent, hsignificand, hclose⟩ := h.power_above hb hleast hbelow hqless
    have hround : roundDivEven N (D * 2 ^ k) = 2 ^ 52 * 2 ^ 1 := by
      refine roundDivEven_of_between hD' hq ?_ ?_ fun _ => rfl
      · push_cast
        linarith
      · push_cast
        linarith
    have hnormal : IsNormal (2 ^ 52) := ⟨Nat.le_refl _, by decide⟩
    rw [hround, hnormal.shiftToTarget (by omega)]
    dsimp only
    rw [dif_neg hnormal.pos.ne']
    simp only [hexponent, hsignificand, Nat.cast_one]
  · have hpos : (0 : ℚ) < 2 ^ b.exponent := zpow_pos two_pos _
    obtain ⟨⟨hlow, hhigh⟩, htie, -⟩ := h.bounds hb.pos
    rw [hsame] at hlow hhigh htie ⊢
    have hround : roundDivEven N (D * 2 ^ k) = b.significand := by
      refine roundDivEven_of_between hD' hq ?_ ?_ fun heq => htie (heq.imp (fun heq => ?_) fun heq => ?_)
      · exact le_of_mul_le_mul_right (by linarith) hpos
      · exact le_of_mul_le_mul_right (by linarith) hpos
      · rw [heq]; ring
      · rw [← heq]; ring
    rw [hround, shiftToTarget_of_lt hb.lt hb.least]
    exact dif_neg hb.pos.ne'
  · have := hb.least
    exact absurd habove (h.not_lt hb (hqmore (by omega)))

/-! ## §E  Products and quotients -/

variable {m₁ m₂ : Nat} {e₁ e₂ : Int} {b : Binary}

/-- **A product** of doubles is rounded to what covers it. -/
theorem mul_of_covers (hb : b.Canonical) (h₁ : 0 < m₁) (h₂ : 0 < m₂) (hlong : 52 ≤ (m₁ * m₂).log2)
    (h : b.Covers (m₁ * 2 ^ e₁ * (m₂ * 2 ^ e₂))) :
    UnpackedFloat.mul Format.binary64 (.finite .positive m₁ e₁ h₁) (.finite .positive m₂ e₂ h₂) =
      .finite .positive b.significand b.exponent hb.pos := by
  have hvalue : (m₁ * 2 ^ e₁ * (m₂ * 2 ^ e₂) : ℚ) = ((m₁ * m₂ : Nat) : ℚ) / (1 : Nat) * 2 ^ (e₁ + e₂) := by
    rw [zpow_add₀ two_ne_zero]
    push_cast
    ring
  have hround := round_of_covers (s := .positive) (N := m₁ * m₂) (D := 1) (e := e₁ + e₂) hb Nat.one_pos
    (.inl (by rwa [Nat.div_one])) (hvalue ▸ h)
  rw [Nat.div_one, Nat.mod_one] at hround
  exact hround

/-- **A quotient** of doubles is rounded to what covers it. -/
theorem div_of_covers (hb : b.Canonical) (h₁ : 0 < m₁) (h₂ : 0 < m₂) (he : -1074 ≤ e₁ - e₂)
    (h : b.Covers (m₁ * 2 ^ e₁ / (m₂ * 2 ^ e₂))) :
    UnpackedFloat.div Format.binary64 (.finite .positive m₁ e₁ h₁) (.finite .positive m₂ e₂ h₂) =
      .finite .positive b.significand b.exponent hb.pos := by
  obtain ⟨t, ht⟩ : ∃ t, t = min (e₁ - e₂)
      (Format.binary64.targetExponent (totalExponent m₁ e₁ - totalExponent m₂ e₂)) := ⟨_, rfl⟩
  have htarget : t = min (e₁ - e₂) (max ((m₁.log2 : Int) + e₁ - (m₂.log2 + e₂) - 53) (-1074)) := by
    rw [ht]
    unfold Format.targetExponent totalExponent
    simp only [mantissaBits_binary64, Format.minExponent]
    omega
  obtain ⟨l, hl⟩ : ∃ l : Nat, e₁ - e₂ - t = l := ⟨(e₁ - e₂ - t).toNat, by omega⟩
  have hamount : (e₁ - e₂ - t).toNat = l := by omega
  -- The quotient has 53 bits at least, or is cut at the least exponent.
  have hfine : 52 ≤ (m₁ * 2 ^ l / m₂).log2 ∨ t = -1074 := by
    by_cases hleast : t = -1074
    · exact .inr hleast
    have hlog : (m₁ * 2 ^ l).log2 = m₁.log2 + l := log2_mul_pow h₁.ne'
    have hle : 2 ^ (m₂.log2 + 53) ≤ m₁ * 2 ^ l :=
      (Nat.le_log2 (Nat.mul_pos h₁ (Nat.pow_pos Nat.zero_lt_two)).ne').mp (by omega)
    have hlt : m₂ < 2 ^ (m₂.log2 + 1) := Nat.lt_log2_self
    have hquotient : 2 ^ 52 ≤ m₁ * 2 ^ l / m₂ := by
      rw [Nat.le_div_iff_mul_le h₂]
      calc 2 ^ 52 * m₂ ≤ 2 ^ 52 * 2 ^ (m₂.log2 + 1) := Nat.mul_le_mul_left _ hlt.le
        _ = 2 ^ (m₂.log2 + 53) := by rw [← Nat.pow_add]; congr 1; omega
        _ ≤ m₁ * 2 ^ l := hle
    exact .inl ((Nat.le_log2 (by omega)).mpr hquotient)
  have hvalue : (m₁ * 2 ^ e₁ / (m₂ * 2 ^ e₂) : ℚ) = ((m₁ * 2 ^ l : Nat) : ℚ) / m₂ * 2 ^ t := by
    have hm₂ : (m₂ : ℚ) ≠ 0 := by exact_mod_cast h₂.ne'
    have hexponent : e₁ = e₂ + l + t := by omega
    have hpow : (2 : ℚ) ^ e₂ ≠ 0 := zpow_ne_zero _ two_ne_zero
    rw [hexponent, zpow_add₀ two_ne_zero, zpow_add₀ two_ne_zero, zpow_natCast]
    push_cast
    field_simp
  have hround := round_of_covers (s := .positive) (N := m₁ * 2 ^ l) (D := m₂) hb h₂ hfine (hvalue ▸ h)
  unfold UnpackedFloat.div UnpackedFloat.divCore
  simp only [← ht, hamount, Nat.shiftLeft_eq]
  exact hround

end NodePath.Number
