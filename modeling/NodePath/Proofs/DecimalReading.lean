/-
# NodePath.Proofs.DecimalReading — a decimal is read as the double that covers it

A decimal is read by one product or one quotient: of exact doubles while it is short, of naturals otherwise. Either way
the exact value is rounded once, and so what is read is the double that covers it.

* §A  Doubles told apart by their magnitudes.
* §B  Powers of ten.
* §C  Decimals.
* §D  Numerals.
-/
import NodePath.Number.Reading
import NodePath.Proofs.CorrectRounding
import NodePath.Proofs.ExactDouble

namespace NodePath.Number

open Float.Model

variable {x y : Float} {a i m : Nat} {e : Int}

/-! ## §A  Magnitudes -/

/-- The fields of a double, read off its bits as a number. -/
theorem toNat_fields (b : UInt64) : ((b >>> 52) &&& 0x7FF).toNat = b.toNat / 2 ^ 52 % 2 ^ 11 ∧
    (b &&& 0xFFFFFFFFFFFFF).toNat = b.toNat % 2 ^ 52 ∧ ((b >>> 63 == 1) = true ↔ b.toNat / 2 ^ 63 = 1) := by
  have hexponent : (0x7FF : UInt64).toNat = 2 ^ 11 - 1 := rfl
  have hmantissa : (0xFFFFFFFFFFFFF : UInt64).toNat = 2 ^ 52 - 1 := rfl
  have hone : (1 : UInt64).toNat = 1 := rfl
  refine ⟨?_, ?_, ?_⟩
  · rw [UInt64.toNat_and, UInt64.toNat_shiftRight, hexponent, Nat.and_two_pow_sub_one_eq_mod,
      Nat.shiftRight_eq_div_pow]
    rfl
  · rw [UInt64.toNat_and, hmantissa, Nat.and_two_pow_sub_one_eq_mod]
  · rw [beq_iff_eq, ← UInt64.toNat_inj, UInt64.toNat_shiftRight, Nat.shiftRight_eq_div_pow, hone]
    rfl

/-- **A double is told by its sign, its significand and its exponent.** -/
theorem eq_of_magnitude (hsign : isNegative x = isNegative y)
    (hsignificand : (magnitude x).significand = (magnitude y).significand)
    (hexponent : (magnitude x).exponent = (magnitude y).exponent) : x = y := by
  obtain ⟨hex, hmx, hsx⟩ := toNat_fields x.toBits
  obtain ⟨hey, hmy, hsy⟩ := toNat_fields y.toBits
  have hlx := x.toBits.toNat_lt
  have hly := y.toBits.toNat_lt
  have hsame : x.toBits.toNat / 2 ^ 63 = 1 ↔ y.toBits.toNat / 2 ^ 63 = 1 := by
    rw [← hsx, ← hsy]
    exact Bool.eq_iff_iff.mp hsign
  simp only [magnitude, Binary.ofBits, hex, hmx, hey, hmy, beq_iff_eq] at hsignificand hexponent
  have hbits : x.toBits.toNat = y.toBits.toNat := by
    split at hsignificand <;> split at hsignificand <;> simp only [*, if_true, if_false] at hexponent <;>
      simp only [Nat.pow_eq] at hsignificand <;> omega
  have hmodel : x.toModel.toBits = y.toModel.toBits := UInt64.toNat_inj.mp hbits
  obtain ⟨⟨bits, hvalid⟩⟩ := x
  obtain ⟨⟨bits', hvalid'⟩⟩ := y
  obtain rfl : bits = bits' := hmodel
  rfl

/-- The magnitude of a finite double that is not zero. -/
theorem canonical_magnitude (h : isFinite x = true) (hpos : 0 < (magnitude x).significand) :
    (magnitude x).Canonical := by
  obtain ⟨hleast, hmost⟩ := exponent_bounds h
  have hshape : IsNormal (magnitude x).significand ∨
      (magnitude x).significand < 2 ^ 52 ∧ (magnitude x).exponent = -1074 := by
    rcases unpack_of_isFinite h with ⟨hzero, -⟩ | ⟨-, -, hshape⟩
    · omega
    · exact hshape
  refine ⟨hpos, ?_, hleast, hmost, fun habove => ?_, fun hpower habove => ?_⟩
  · rcases hshape with hnormal | ⟨hlt, -⟩
    · exact hnormal.2
    · exact hlt.trans (by decide)
  · rcases hshape with hnormal | ⟨-, hleast⟩
    · exact hnormal.1
    · omega
  · unfold magnitude Binary.ofBits at hpower habove ⊢
    generalize ((x.toBits >>> 52) &&& 0x7FF).toNat = n at hpower habove ⊢
    generalize (x.toBits &&& 0xFFFFFFFFFFFFF).toNat = f at hpower habove ⊢
    dsimp only at hpower habove ⊢
    by_cases hzero : (n == 0) = true
    · rw [if_pos hzero] at habove
      exact absurd habove (Int.lt_irrefl _)
    · rw [if_neg hzero] at hpower habove ⊢
      have hnone : f = 0 := Nat.add_left_cancel (n := 2 ^ 52) (by simpa using hpower)
      have hmany : 1 < n := by
        have : -1074 < (n : Int) - 1075 := habove
        omega
      simpa [hnone] using hmany

/-! ## §B  Powers of ten -/

/-- The powers of ten that are doubles are what they should be. -/
theorem unpack_powerOfTen (hi : i < Float.exactlyRepresentablePowersOfTen.size) :
    ∃ m e, ∃ hm : IsNormal m, -52 ≤ e ∧ e ≤ 21 ∧
      Float.exactlyRepresentablePowersOfTen[i].toModel.unpack = .finite .positive m e hm.pos ∧
      (m * 2 ^ e : ℚ) = 10 ^ i := by
  have h : i ≤ 22 := Nat.le_of_lt_succ hi
  have hpacked : ∀ (b : UInt64) (m : Nat) (e : Int) (hm : IsNormal m), -1074 ≤ e → e ≤ 971 →
      UnpackedFloat.unpack Format.binary64 b.toBitVec = .finite .positive m e hm.pos →
      (Float.ofBits b).toModel.unpack = .finite .positive m e hm.pos := fun b m e hm hlow hhigh hb => by
    show (pack (UnpackedFloat.unpack Format.binary64 b.toBitVec)).unpack = _
    rw [hb]
    exact hm.unpack_pack hlow hhigh
  have hnormal : ∀ i ≤ 22, IsNormal (10 ^ i * 2 ^ 52 / 2 ^ (10 ^ i).log2) ∧ (10 ^ i).log2 ≤ 73 ∧
      10 ^ i * 2 ^ 52 / 2 ^ (10 ^ i).log2 * 2 ^ (10 ^ i).log2 = 10 ^ i * 2 ^ 52 := by
    unfold IsNormal
    decide
  obtain ⟨hm, hlog, hvalue⟩ := hnormal i h
  refine ⟨_, ((10 ^ i).log2 : Int) - 52, hm, by omega, by omega, ?_, ?_⟩
  · interval_cases i <;> exact hpacked _ _ _ hm (by decide) (by decide) rfl
  · have hcast : ((10 ^ i * 2 ^ 52 / 2 ^ (10 ^ i).log2 : Nat) : ℚ) * 2 ^ (10 ^ i).log2 = 10 ^ i * 2 ^ 52 := by
      exact_mod_cast hvalue
    rw [zpow_sub₀ two_ne_zero, zpow_natCast, ← mul_div_assoc, hcast]
    norm_num

/-! ## §C  Decimals -/

/-- A canonical magnitude is stored as it is. -/
theorem Binary.Canonical.unpack_pack {b : Binary} (hb : b.Canonical) (s : UnpackedFloat.Sign) :
    (pack (.finite s b.significand b.exponent hb.pos)).unpack = .finite s b.significand b.exponent hb.pos := by
  obtain ⟨m, e, narrow⟩ := b
  obtain ⟨hpos, hlt, hleast, hmost, hnormal, -⟩ := hb
  dsimp only at hpos hlt hleast hmost hnormal ⊢
  rcases Nat.lt_or_ge m (2 ^ 52) with hsmall | hlarge
  · obtain rfl : e = -1074 := by
      by_contra hne
      exact absurd (hnormal (by omega)) (by omega)
    exact unpack_pack_of_subnormal hpos hsmall
  · exact IsNormal.unpack_pack ⟨hlarge, hlt⟩ hleast hmost

/-- A double without a sign is all that its magnitude is packed to. -/
theorem eq_of_toModel (hb : (magnitude x).Canonical) (hsign : isNegative x = false)
    (hy : y.toModel = pack (.finite .positive (magnitude x).significand (magnitude x).exponent hb.pos)) : y = x := by
  have hunpack : y.toModel.unpack = .finite .positive (magnitude x).significand (magnitude x).exponent hb.pos := by
    rw [hy, hb.unpack_pack]
  obtain ⟨-, hsignOf, hsignificand, hexponent⟩ := magnitude_of_unpack hunpack
  have hpositive : isNegative y = false := by
    unfold signOf at hsignOf
    split at hsignOf
    · cases hsignOf
    · exact Bool.eq_false_iff.mpr ‹_›
  exact eq_of_magnitude (hpositive.trans hsign.symm) hsignificand hexponent

/-- A natural of 53 bits is a double. -/
theorem unpack_toUInt64 (ha : 0 < a) (hlt : a < 2 ^ 53) : ∃ k : Nat, k ≤ 52 ∧ ∃ h : IsNormal (a * 2 ^ k),
    a.toUInt64.toFloat.toModel.unpack = .finite .positive (a * 2 ^ k) (-(k : Int)) h.pos := by
  have hbound : exactBound = 2 ^ 53 - 1 := rfl
  obtain ⟨k, hk, h⟩ := exists_isNormal ha (by omega)
  have hword : a.toUInt64.toNat = a := by
    simp only [Nat.toUInt64_eq, UInt64.toNat_ofNat']
    omega
  refine ⟨k, hk, h, ?_⟩
  show (Float.Model.ofNat a.toUInt64.toNat).unpack = _
  rw [hword]
  exact unpack_toFloat hk h

theorem IsNormal.log2_mul {n : Nat} (hm : IsNormal m) (hn : IsNormal n) : 52 ≤ (m * n).log2 := by
  refine (Nat.le_log2 (Nat.mul_pos hm.pos hn.pos).ne').mpr ?_
  calc 2 ^ 52 = 2 ^ 52 * 1 := rfl
    _ ≤ m * n := Nat.mul_le_mul hm.1 hn.pos

theorem value_normal (a k : Nat) : (((a * 2 ^ k : Nat) : ℚ) * 2 ^ (-(k : Int))) = a := by
  rw [zpow_neg, zpow_natCast]
  push_cast
  rw [mul_inv_cancel_right₀ (pow_ne_zero k two_ne_zero)]

/-- A power of ten has three bits for each of its zeros at least. -/
theorem lt_of_ten_pow_lt {j : Nat} (h : 10 ^ i < 2 ^ j) : 3 * i < j := by
  refine (Nat.pow_lt_pow_iff_right (a := 2) (by decide)).mp ?_
  calc 2 ^ (3 * i) = (2 ^ 3) ^ i := Nat.pow_mul 2 3 i
    _ ≤ 10 ^ i := Nat.pow_le_pow_left (by decide) i
    _ < 2 ^ j := h

/-- The bits of a decimal that is not too great. -/
theorem log2_of_mul_lt {j : Nat} (ha : 0 < a) (h : (a * 10 ^ i : ℚ) < 2 ^ (j : Int)) : a.log2 + 3 * i < j := by
  have hlt : a * 10 ^ i < 2 ^ j := by exact_mod_cast h
  have hpow : 2 ^ (3 * i) ≤ 10 ^ i := by
    rw [Nat.pow_mul]
    exact Nat.pow_le_pow_left (by decide) i
  refine (Nat.pow_lt_pow_iff_right (a := 2) (by decide)).mp ?_
  rw [Nat.pow_add]
  exact (Nat.mul_le_mul (Nat.log2_self_le ha.ne') hpow).trans_lt hlt

/-- The bits of a decimal with places that is not too great: a thousand has ten bits at most. -/
theorem log2_of_div_lt {j : Nat} (ha : 0 < a) (h : (a / 10 ^ i : ℚ) < 2 ^ (j : Int)) :
    3 * a.log2 < 3 * j + 10 * i := by
  have hlt : a < 2 ^ j * 10 ^ i := by
    rw [div_lt_iff₀ (by positivity)] at h
    exact_mod_cast h
  have hcube : 2 ^ (3 * a.log2) < 2 ^ (3 * j + 10 * i) := by
    calc 2 ^ (3 * a.log2) = (2 ^ a.log2) ^ 3 := by rw [Nat.mul_comm, Nat.pow_mul]
      _ < (2 ^ j * 10 ^ i) ^ 3 := Nat.pow_lt_pow_left ((Nat.log2_self_le ha.ne').trans_lt hlt) (by decide)
      _ = 2 ^ (3 * j) * (10 ^ 3) ^ i := by rw [Nat.mul_pow, ← Nat.pow_mul, ← Nat.pow_mul, ← Nat.pow_mul, Nat.mul_comm j,
        Nat.mul_comm i]
      _ ≤ 2 ^ (3 * j) * (2 ^ 10) ^ i := Nat.mul_le_mul_left _ (Nat.pow_le_pow_left (by decide) i)
      _ = 2 ^ (3 * j + 10 * i) := by rw [← Nat.pow_mul, ← Nat.pow_add]
  exact (Nat.pow_lt_pow_iff_right (by decide)).mp hcube

/-- The bits of a decimal with places that is not too small. -/
theorem log2_of_le_div {j : Nat} (h : (2 : ℚ) ^ (-(j : Int)) ≤ a / 10 ^ i) : 3 * i < a.log2 + 1 + j := by
  have hle : 10 ^ i ≤ a * 2 ^ j := by
    rw [zpow_neg, zpow_natCast, inv_eq_one_div, div_le_div_iff₀ (by positivity) (by positivity), one_mul] at h
    exact_mod_cast h
  refine lt_of_ten_pow_lt ?_
  rw [Nat.pow_add]
  exact hle.trans_lt (Nat.mul_lt_mul_of_pos_right Nat.lt_log2_self (Nat.pow_pos Nat.zero_lt_two))

/-- **A decimal without places** is read as the double that covers it. -/
theorem ofScientific_of_covers (hb : (magnitude x).Canonical) (hsign : isNegative x = false) (ha : 0 < a)
    (h : (magnitude x).Covers (a * 10 ^ i)) : Float.ofScientific a false i = x := by
  refine eq_of_toModel hb hsign ?_
  by_cases hshort : a < 2 ^ 53 ∧ i ≤ 22
  · obtain ⟨k, -, hk, hnumber⟩ := unpack_toUInt64 ha hshort.1
    have hknown : i < Float.exactlyRepresentablePowersOfTen.size := Nat.lt_succ_of_le hshort.2
    obtain ⟨m, e, hm, -, -, hpower, hvalue⟩ := unpack_powerOfTen hknown
    rw [Float.ofScientific, dif_pos hshort, if_neg Bool.false_ne_true]
    show pack (UnpackedFloat.mul Format.binary64 a.toUInt64.toFloat.toModel.unpack _) = _
    rw [hnumber, hpower]
    congr 1
    refine mul_of_covers hb hk.pos hm.pos (hk.log2_mul hm) ?_
    rwa [value_normal, hvalue]
  · -- Guards against powers that no double reaches stand in front of the exact product.
    have hbound : a.log2 + 3 * i < 1024 := log2_of_mul_lt (j := 1024) ha (h.range hb).2
    rw [Float.ofScientific, dif_neg hshort]
    show pack (UnpackedFloat.ofScientific Format.binary64 a (i : Int)) = _
    unfold UnpackedFloat.ofScientific
    rw [dif_neg ha.ne', if_neg (by simp only [Int.not_lt]; omega), if_neg (by simp only [Int.not_lt]; omega),
      if_pos (Int.natCast_nonneg i)]
    simp only [mantissaBits_binary64, Nat.shiftLeft_eq, Int.toNat_natCast]
    congr 1
    have hlong : 52 ≤ (a * 2 ^ 53 * 10 ^ i).log2 := by
      have hpow : 0 < 10 ^ i := Nat.pow_pos (by decide)
      refine (Nat.le_log2 (Nat.mul_pos (Nat.mul_pos ha (by decide)) hpow).ne').mpr ?_
      calc 2 ^ 52 ≤ 1 * 2 ^ 53 * 1 := by decide
        _ ≤ a * 2 ^ 53 * 10 ^ i := Nat.mul_le_mul (Nat.mul_le_mul_right _ ha) hpow
    refine mul_of_covers hb _ _ hlong ?_
    have hvalue := value_normal a 53
    push_cast at hvalue ⊢
    rw [hvalue]
    simpa using h

/-- **A decimal with places** is read as the double that covers it. -/
theorem ofScientific_places_of_covers (hb : (magnitude x).Canonical) (hsign : isNegative x = false) (ha : 0 < a)
    (hi : i + 1 ≤ 1074) (h : (magnitude x).Covers (a / 10 ^ (i + 1))) : Float.ofScientific a true (i + 1) = x := by
  refine eq_of_toModel hb hsign ?_
  by_cases hshort : a < 2 ^ 53 ∧ i + 1 ≤ 22
  · obtain ⟨k, hk52, hk, hnumber⟩ := unpack_toUInt64 ha hshort.1
    have hknown : i + 1 < Float.exactlyRepresentablePowersOfTen.size := Nat.lt_succ_of_le hshort.2
    obtain ⟨m, e, hm, hlow, hhigh, hpower, hvalue⟩ := unpack_powerOfTen hknown
    rw [Float.ofScientific, dif_pos hshort, if_pos rfl]
    show pack (UnpackedFloat.div Format.binary64 a.toUInt64.toFloat.toModel.unpack _) = _
    rw [hnumber, hpower]
    congr 1
    refine div_of_covers hb hk.pos hm.pos (by omega) ?_
    rwa [value_normal, hvalue]
  · rw [Float.ofScientific, dif_neg hshort]
    show pack (UnpackedFloat.ofScientific Format.binary64 a (Int.negSucc i)) = _
    unfold UnpackedFloat.ofScientific
    rw [dif_neg ha.ne', if_neg (by simp only [Int.not_lt]; omega), if_neg (by simp only [Int.not_lt]; omega),
      if_neg (by omega)]
    congr 1
    have hamount : (-Int.negSucc i).toNat = i + 1 := rfl
    simp only [hamount]
    refine div_of_covers hb ha _ (by decide) ?_
    simpa using h

/-! ## §D  Numerals -/

/-- **A numeral is read as the double that covers it.** -/
theorem Numeral.toFloat_of_covers (hb : (magnitude x).Canonical) (hsign : isNegative x = false) (ha : 0 < a)
    (he : -1074 ≤ e) (h : (magnitude x).Covers (a * 10 ^ e)) : (Numeral.mk false a e).toFloat = x := by
  have hzero : ¬(a == 0) = true := by simpa using ha.ne'
  have hrange := h.range hb
  unfold Numeral.toFloat
  simp only [Bool.false_eq_true, if_false]
  rw [if_neg hzero]
  cases e with
  | ofNat i =>
    have hpower : (10 : ℚ) ^ Int.ofNat i = 10 ^ i := zpow_natCast 10 i
    rw [hpower] at h hrange
    have hbits := log2_of_mul_lt (j := 1024) ha hrange.2
    rw [if_neg (by simp only [Int.ofNat_eq_natCast]; omega), if_neg (by simp only [Int.ofNat_eq_natCast]; omega)]
    exact ofScientific_of_covers hb hsign ha h
  | negSucc i =>
    have hpower : (a : ℚ) * 10 ^ Int.negSucc i = a / 10 ^ (i + 1) := by rw [zpow_negSucc, div_eq_mul_inv]
    rw [hpower] at h hrange
    have hmany := log2_of_div_lt (j := 1024) ha hrange.2
    have hfew := log2_of_le_div (j := 1075) hrange.1
    rw [if_neg (by omega), if_neg (by omega)]
    exact ofScientific_places_of_covers hb hsign ha (by omega) h

end NodePath.Number
