/-
# NodePath.Proofs.Position — numbers as positions

A position is a natural number, but a predicate gives a double. Up to `exactBound` every position is a double, and
no other double is equal to it: so it makes no difference whether a position is turned into a double to be
compared, or a double into a position to be gone to.

* §A  Rounding that loses nothing.
* §B  Packing a double into its bits and back.
* §C  Whole numbers as doubles.
* §D  Reading the bits.
* §E  Positions.
* §F  Whole numbers beyond the bound.
-/
import Mathlib
import NodePath.Number.Binary

namespace NodePath.Number

open Float.Model

/-- Positions up to this one are told apart by doubles. -/
def exactBound : Nat := Nat.pow 2 53 - 1

/-! ## §A  Rounding -/

/-- **Normal** significands fill the 53 bits that there are. -/
def IsNormal (m : Nat) : Prop := 2 ^ 52 ≤ m ∧ m < 2 ^ 53

variable {m n i k : Nat} {e : Int} {s : UnpackedFloat.Sign}

theorem IsNormal.pos (h : IsNormal m) : 0 < m := Nat.lt_of_lt_of_le (by decide) h.1

/-- Multiplying with a power of two adds to the logarithm. -/
theorem log2_mul_pow (hm : m ≠ 0) : (m * 2 ^ n).log2 = m.log2 + n := by
  refine (Nat.log2_eq_iff (Nat.mul_ne_zero hm (by simp))).mpr ⟨?_, ?_⟩
  · rw [Nat.pow_add]
    exact Nat.mul_le_mul_right _ (Nat.log2_self_le hm)
  · have hpow : 2 ^ (m.log2 + n + 1) = 2 ^ (m.log2 + 1) * 2 ^ n := by
      rw [← Nat.pow_add]
      congr 1
      omega
    rw [hpow]
    exact Nat.mul_lt_mul_of_pos_right Nat.lt_log2_self (Nat.pow_pos (by decide))

theorem IsNormal.log2 (h : IsNormal m) : m.log2 = 52 :=
  (Nat.log2_eq_iff (Nat.ne_of_gt h.pos)).mpr h

/-- Zeros at the end can be shifted out. -/
theorem shiftRight_exact (m n : Nat) :
    (UnpackedFloat.ExtendedMantissa.mk (m * 2 ^ n) false false) >>> n = ⟨m, false, false⟩ := by
  show n.repeat UnpackedFloat.ExtendedMantissa.shiftRightOne _ = _
  -- A shift by one drops the last zero, and none of the bits that are shifted out was set.
  induction n generalizing m with
  | zero => simp [Nat.repeat]
  | succ n ih =>
    rw [Nat.repeat, Nat.pow_succ', ← Nat.mul_assoc, ih]
    simp [UnpackedFloat.ExtendedMantissa.shiftRightOne]

theorem mantissaBits_binary64 : Format.binary64.mantissaBits = 53 := rfl

/-- The exponent of a normal significand with zeros behind it. -/
theorem IsNormal.shiftToTarget (h : IsNormal m) (he : -1074 ≤ e + n) :
    UnpackedFloat.shiftToTargetExponent Format.binary64 (m * 2 ^ n) e .exact = (⟨m, false, false⟩, e + n) := by
  have htarget : Format.binary64.targetExponent (totalExponent (m * 2 ^ n) e) = e + n := by
    unfold Format.targetExponent totalExponent
    rw [log2_mul_pow (Nat.ne_of_gt h.pos), h.log2]
    simp only [mantissaBits_binary64, Format.minExponent]
    omega
  have hamount : (e + n - e).toNat = n := by omega
  unfold UnpackedFloat.shiftToTargetExponent
  rw [htarget, UnpackedFloat.shiftToExponent]
  simp only [hamount, UnpackedFloat.ExtendedMantissa.ofMantissaAndAccuracy, shiftRight_exact]

/-- **Rounding loses nothing** but zeros at the end. -/
theorem IsNormal.round (h : IsNormal m) (he : -1074 ≤ e + n) :
    UnpackedFloat.roundWithAccuracy Format.binary64 s (m * 2 ^ n) e .exact = .finite s m (e + n) h.pos := by
  have hagain : UnpackedFloat.shiftToTargetExponent Format.binary64 m (e + n) .exact =
      (⟨m, false, false⟩, e + n) := by
    have hshift := h.shiftToTarget (n := 0) (e := e + n) (by simpa using he)
    simpa using hshift
  have hrounded : UnpackedFloat.ExtendedMantissa.roundedMantissa ⟨m, false, false⟩ = m := by
    simp only [UnpackedFloat.ExtendedMantissa.roundedMantissa, UnpackedFloat.ExtendedMantissa.accuracy,
      UnpackedFloat.Accuracy.roundToNearestEven]
  unfold UnpackedFloat.roundWithAccuracy
  rw [h.shiftToTarget he]
  dsimp only
  rw [hrounded, hagain]
  exact dif_neg (Nat.ne_of_gt h.pos)

/-- Zeros are put behind a significand, or taken from its end, until it is normal. -/
theorem IsNormal.round_zeros (h : IsNormal (i * 2 ^ k)) (he : -1074 ≤ e - k) (l : Nat) :
    UnpackedFloat.round Format.binary64 s (i * 2 ^ l) (e - l) = .finite s (i * 2 ^ k) (e - k) h.pos := by
  have hne : i ≠ 0 := by
    rintro rfl
    simpa using h.pos
  have hlog : i.log2 + k = 52 := by rw [← log2_mul_pow hne, h.log2]
  have htarget : Format.binary64.targetExponent (totalExponent (i * 2 ^ l) (e - l)) = e - k := by
    unfold Format.targetExponent totalExponent
    rw [log2_mul_pow hne]
    simp only [mantissaBits_binary64, Format.minExponent]
    omega
  have hamount : (e - l - (e - k)).toNat = k - l := by omega
  unfold UnpackedFloat.round
  simp only [htarget, UnpackedFloat.decreaseExponent, hamount, Nat.shiftLeft_eq, Nat.mul_assoc, ← Nat.pow_add]
  rcases Nat.le_total l k with hle | hle
  · have hexact := h.round (n := 0) (e := e - k) (s := s) (by omega)
    have hbehind : l + (k - l) = k := by omega
    have hexponent : e - l - (k - l : Nat) = e - k := by omega
    rw [hbehind, hexponent]
    simpa using hexact
  · have hexact := h.round (n := l - k) (e := e - l) (s := s) (by omega)
    have hbehind : l + (k - l) = k + (l - k) := by omega
    have hexponent : e - l - (k - l : Nat) = e - l := by omega
    have hsame : e - l + (l - k : Nat) = e - k := by omega
    rw [hbehind, hexponent, Nat.pow_add, ← Nat.mul_assoc, hexact]
    simp only [hsame]

theorem IsNormal.le_of_mul (h : IsNormal (i * 2 ^ k)) : k ≤ 52 := by
  have hpos : 0 < i := Nat.pos_of_mul_pos_right h.pos
  have hlt : 2 ^ k < 2 ^ 53 := (Nat.le_mul_of_pos_left _ hpos).trans_lt h.2
  have := (Nat.pow_lt_pow_iff_right (by decide)).mp hlt
  omega

/-! ## §B  Packing -/

theorem unpackSign_packComponents {f : Format} {x : BitVec f.exponentBits}
    {y : BitVec f.mantissaBitsWithoutImplicit} :
    UnpackedFloat.unpackSign (UnpackedFloat.packComponents f s x y) = s.toBitVec := by
  ext i hi
  unfold UnpackedFloat.unpackSign UnpackedFloat.packComponents
  simp only [BitVec.getElem_cast, BitVec.getElem_extract, BitVec.getLsbD_append]
  rw [if_neg (by omega), if_neg (by omega), ← BitVec.getLsbD_eq_getElem]
  congr 1
  omega

/-- The leading bit of a normal significand is not stored. -/
theorem IsNormal.append (h : IsNormal m) : (1#1 ++ BitVec.ofNat 52 m).toNat = m := by
  obtain ⟨hle, hlt⟩ := h
  have hlow : (BitVec.ofNat 52 m).toNat = m - 2 ^ 52 := by
    rw [BitVec.toNat_ofNat]
    omega
  have hone : (1#1).toNat = 1 := rfl
  rw [BitVec.toNat_append, hone, hlow, ← Nat.shiftLeft_add_eq_or_of_lt (by omega), Nat.shiftLeft_eq]
  omega

/-- **A double is what its bits are unpacked to.** -/
theorem IsNormal.unpack_pack (h : IsNormal m) (he : -1074 ≤ e) (he' : e ≤ 971) :
    (pack (.finite s m e h.pos)).unpack = .finite s m e h.pos := by
  obtain ⟨b, rfl, hb, hb'⟩ : ∃ b : Nat, e = (b : Int) - 1075 ∧ 1 ≤ b ∧ b ≤ 2046 :=
    ⟨(e + 1075).toNat, by omega, by omega, by omega⟩
  have hbiased : ((b : Int) - 1075 + Format.binary64.exponentBias + Format.binary64.mantissaBitsWithoutImplicit).toNat =
      b := by
    simp only [Format.exponentBias]
    omega
  have hexponent : (BitVec.ofNat 11 b).toNat = b := by
    rw [BitVec.toNat_ofNat]
    omega
  have hones : BitVec.ofNat 11 b ≠ -1#11 := by
    intro hc
    have htoNat := congrArg BitVec.toNat hc
    rw [hexponent] at htoNat
    simp only [BitVec.reduceNeg, BitVec.reduceToNat] at htoNat
    omega
  have hzeros : BitVec.ofNat 11 b ≠ 0#11 := by
    intro hc
    have htoNat := congrArg BitVec.toNat hc
    rw [hexponent] at htoNat
    simp only [BitVec.reduceToNat] at htoNat
    omega
  have hinfinite : ¬2 ^ 11 ≤ b + 1 := by omega
  show UnpackedFloat.unpack Format.binary64 (UnpackedFloat.pack Format.binary64 _) = _
  unfold UnpackedFloat.pack
  simp only [hbiased, h.log2, mantissaBits_binary64, hinfinite, if_false, if_true]
  unfold UnpackedFloat.unpack
  simp only [UnpackedFloat.unpackMantissa_packComponents, UnpackedFloat.unpackExponent_packComponents, hones, hzeros,
    if_false, unpackSign_packComponents, h.append, hexponent]
  cases s <;> simp [UnpackedFloat.Sign.toBitVec, UnpackedFloat.Sign.ofBitVec, Format.exponentBias]

/-! ## §C  Whole numbers -/

/-- A whole number with as many zeros behind it as make it normal. -/
theorem exists_isNormal (hpos : 1 ≤ i) (hi : i ≤ exactBound) : ∃ k ≤ 52, IsNormal (i * 2 ^ k) := by
  have hne : i ≠ 0 := by omega
  have hbound : i < 2 ^ 53 := Nat.lt_of_le_of_lt hi (by decide)
  have hlog : i.log2 ≤ 52 := Nat.le_of_lt_succ ((Nat.log2_lt hne).mpr hbound)
  refine ⟨52 - i.log2, by omega, ?_⟩
  have hadd := log2_mul_pow (n := 52 - i.log2) hne
  rw [show i.log2 + (52 - i.log2) = 52 by omega] at hadd
  exact (Nat.log2_eq_iff (Nat.mul_ne_zero hne (by simp))).mp hadd

/-- A whole number is rounded to itself. -/
theorem unpack_toFloat (hk : k ≤ 52) (h : IsNormal (i * 2 ^ k)) :
    (Float.Model.ofNat i).unpack = .finite .positive (i * 2 ^ k) (-(k : Int)) h.pos := by
  have hpos : 0 < i := Nat.pos_of_mul_pos_right h.pos
  have hround : UnpackedFloat.ofNat Format.binary64 i = .finite .positive (i * 2 ^ k) (-(k : Int)) h.pos := by
    have hgt : compare (i : Int) 0 = .gt := Int.compare_eq_gt.mpr (by omega)
    have hexact := h.round_zeros (e := 0) (s := .positive) (by omega) 0
    unfold UnpackedFloat.ofNat UnpackedFloat.ofInt UnpackedFloat.normalize
    simp only [hgt, Int.toNat_natCast]
    simpa using hexact
  show (pack (UnpackedFloat.ofNat Format.binary64 i)).unpack = _
  rw [hround]
  exact h.unpack_pack (by omega) (by omega)

/-- The double one, from its bits. -/
theorem unpack_one :
    (Float.ofBits 0x3FF0000000000000).toModel.unpack = .finite .positive (2 ^ 52) (-52) (by decide) := by
  have hbits : UnpackedFloat.unpack Format.binary64 0x3FF0000000000000#64 =
      .finite .positive (2 ^ 52) (-52) (by decide) := rfl
  have hnormal : IsNormal (2 ^ 52) := ⟨Nat.le_refl _, by decide⟩
  show (pack (UnpackedFloat.unpack Format.binary64 0x3FF0000000000000#64)).unpack = _
  rw [hbits]
  exact hnormal.unpack_pack (by decide) (by decide)

/-- **A whole number up to the bound is a double**, exactly. -/
theorem unpack_ofNat (hi : i ≤ exactBound) (hk : k ≤ 52) (h : IsNormal (i * 2 ^ k)) :
    (ofNat i).toModel.unpack = .finite .positive (i * 2 ^ k) (-(k : Int)) h.pos := by
  have hbound : i < 2 ^ 53 := Nat.lt_of_le_of_lt hi (by decide)
  have hword : i.toUInt64.toNat = i := by
    simp only [Nat.toUInt64_eq, UInt64.toNat_ofNat']
    omega
  rw [ofNat, Float.ofScientific, dif_pos ⟨hbound, by decide⟩, if_neg Bool.false_ne_true]
  show (pack (UnpackedFloat.mul Format.binary64 (Float.Model.ofNat i.toUInt64.toNat).unpack
    (Float.ofBits 0x3FF0000000000000).toModel.unpack)).unpack = _
  rw [hword, unpack_toFloat hk h, unpack_one]
  have hexact := h.round (n := 52) (e := -(k : Int) + -52) (s := .positive) (by omega)
  have he : -(k : Int) + -52 + (52 : Nat) = -(k : Int) := by omega
  show (pack (UnpackedFloat.roundWithAccuracy Format.binary64 .positive (i * 2 ^ k * 2 ^ 52) (-(k : Int) + -52)
    .exact)).unpack = _
  rw [hexact]
  simp only [he]
  exact h.unpack_pack (by omega) (by omega)

/-! ## §D  Bits -/

/-- The exponent that is read is the one that is stored. -/
theorem unpackExponent_toNat (b : UInt64) :
    (@UnpackedFloat.unpackExponent Format.binary64 b.toBitVec).toNat = ((b >>> 52) &&& 0x7FF).toNat := by
  have hmask : (0x7FF : UInt64).toNat = 2 ^ 11 - 1 := rfl
  have hread : ((b >>> 52) &&& 0x7FF).toNat = b.toNat / 2 ^ 52 % 2 ^ 11 := by
    rw [UInt64.toNat_and, UInt64.toNat_shiftRight, hmask, Nat.and_two_pow_sub_one_eq_mod, Nat.shiftRight_eq_div_pow]
    rfl
  rw [hread]
  simp [UnpackedFloat.unpackExponent, BitVec.extractLsb, Nat.shiftRight_eq_div_pow]

/-- The fraction that is read is the one that is stored. -/
theorem unpackMantissa_toNat (b : UInt64) :
    (@UnpackedFloat.unpackMantissa Format.binary64 b.toBitVec).toNat = (b &&& 0xFFFFFFFFFFFFF).toNat := by
  have hmask : (0xFFFFFFFFFFFFF : UInt64).toNat = 2 ^ 52 - 1 := rfl
  rw [UInt64.toNat_and, hmask, Nat.and_two_pow_sub_one_eq_mod]
  simp [UnpackedFloat.unpackMantissa, BitVec.extractLsb]

/-- The sign that is read is the one that is stored. -/
theorem unpackSign_eq (b : UInt64) :
    UnpackedFloat.Sign.ofBitVec (@UnpackedFloat.unpackSign Format.binary64 b.toBitVec) =
      if b >>> 63 == 1 then .negative else .positive := by
  have hsign : (@UnpackedFloat.unpackSign Format.binary64 b.toBitVec).toNat = b.toNat / 2 ^ 63 := by
    have := b.toNat_lt
    unfold UnpackedFloat.unpackSign
    simp only [BitVec.toNat_cast, BitVec.extractLsb, BitVec.extractLsb'_toNat, Nat.shiftRight_eq_div_pow,
      UInt64.toNat_toBitVec]
    omega
  have hread : (b >>> 63).toNat = b.toNat / 2 ^ 63 := by
    rw [UInt64.toNat_shiftRight, Nat.shiftRight_eq_div_pow]
    rfl
  have hiff : (b >>> 63 == 1) = true ↔ @UnpackedFloat.unpackSign Format.binary64 b.toBitVec ≠ 0#1 := by
    have hone : (1 : UInt64).toNat = 1 := rfl
    have hzero : (0#1).toNat = 0 := rfl
    have := b.toNat_lt
    rw [beq_iff_eq, ← UInt64.toNat_inj, ne_eq, ← BitVec.toNat_inj, hsign, hread, hone, hzero]
    omega
  unfold UnpackedFloat.Sign.ofBitVec
  by_cases hz : @UnpackedFloat.unpackSign Format.binary64 b.toBitVec = 0#1
  · rw [if_pos hz, if_neg fun h => hiff.mp h hz]
  · rw [if_neg hz, if_pos (hiff.mpr hz)]

/-- **Shape** tells doubles apart by what their bits are unpacked to. -/
inductive Shape (x : Float) : Prop
  | nan : isFinite x = false → x.toModel.unpack = .notANumber → Shape x
  | infinity (s : UnpackedFloat.Sign) : isFinite x = false → x.toModel.unpack = .infinity s → Shape x
  | zero (s : UnpackedFloat.Sign) : x.toModel.unpack = .zero s → Shape x
  | negative (m : Nat) (e : Int) (hm : 0 < m) : x.toModel.unpack = .finite .negative m e hm → Shape x
  | tiny (m : Nat) (hm : 0 < m) : x.toModel.unpack = .finite .positive m (-1074) hm → Shape x
  | normal (m : Nat) (e : Int) (narrow : Bool) (hm : IsNormal m) : isFinite x = true → isNegative x = false →
    magnitude x = ⟨m, e, narrow⟩ → x.toModel.unpack = .finite .positive m e hm.pos → Shape x

/-- The leading bit in front of a fraction. -/
theorem append_toNat (f : BitVec 52) : (1#1 ++ f).toNat = 2 ^ 52 + f.toNat := by
  have hone : (1#1).toNat = 1 := rfl
  rw [BitVec.toNat_append, hone, ← Nat.shiftLeft_add_eq_or_of_lt f.isLt, Nat.shiftLeft_eq, Nat.one_mul]

theorem shape (x : Float) : Shape x := by
  have hexponent := unpackExponent_toNat x.toBits
  have hmantissa := unpackMantissa_toNat x.toBits
  have hunpack : x.toModel.unpack = UnpackedFloat.unpack Format.binary64 x.toBits.toBitVec := rfl
  have hfinite : isFinite x = true ↔ ((x.toBits >>> 52) &&& 0x7FF).toNat ≠ 2047 := by
    have hones : (0x7FF : UInt64).toNat = 2047 := rfl
    rw [isFinite, bne_iff_ne, ne_eq, ← UInt64.toNat_inj, hones]
  unfold UnpackedFloat.unpack at hunpack
  simp only [unpackSign_eq] at hunpack
  -- The exponent bits decide: all of them set, none of them, or any other.
  by_cases hones : @UnpackedFloat.unpackExponent Format.binary64 x.toBits.toBitVec = -1#11
  · have hspecial : isFinite x = false := by
      rw [← Bool.not_eq_true, hfinite, ← hexponent, hones]
      decide
    rw [if_pos hones] at hunpack
    split at hunpack
    · exact .infinity _ hspecial hunpack
    · exact .nan hspecial hunpack
  rw [if_neg hones] at hunpack
  have hfin : isFinite x = true := by
    rw [hfinite, ← hexponent]
    exact fun hc => hones (BitVec.eq_of_toNat_eq (hc.trans rfl))
  by_cases hzeros : @UnpackedFloat.unpackExponent Format.binary64 x.toBits.toBitVec = 0#11
  · rw [if_pos hzeros] at hunpack
    split at hunpack
    · exact .zero _ hunpack
    · by_cases hneg : (x.toBits >>> 63 == 1) = true
      · simp only [hneg, if_true] at hunpack
        exact .negative _ _ _ hunpack
      · simp only [hneg, hzeros] at hunpack
        exact .tiny _ _ hunpack
  · rw [if_neg hzeros] at hunpack
    by_cases hneg : (x.toBits >>> 63 == 1) = true
    · simp only [hneg, if_true] at hunpack
      exact .negative _ _ _ hunpack
    · have hne : ((x.toBits >>> 52) &&& 0x7FF).toNat ≠ 0 := by
        rw [← hexponent]
        exact fun hc => hzeros (BitVec.eq_of_toNat_eq (hc.trans rfl))
      have hnormal : IsNormal (2 ^ 52 + (x.toBits &&& 0xFFFFFFFFFFFFF).toNat) := by
        have hlt : (x.toBits &&& 0xFFFFFFFFFFFFF).toNat < 2 ^ 52 := hmantissa ▸ BitVec.isLt _
        exact ⟨Nat.le_add_right _ _, by omega⟩
      have hmagnitude : ∃ narrow, magnitude x = ⟨2 ^ 52 + (x.toBits &&& 0xFFFFFFFFFFFFF).toNat,
          (((x.toBits >>> 52) &&& 0x7FF).toNat : Int) - 1075, narrow⟩ := by
        rw [magnitude, Binary.ofBits, if_neg (by simpa using hne)]
        exact ⟨_, rfl⟩
      obtain ⟨narrow, hmagnitude⟩ := hmagnitude
      refine .normal _ _ narrow hnormal hfin (by simpa [isNegative] using hneg) hmagnitude ?_
      simp only [hneg, append_toNat, hmantissa, hexponent, Format.exponentBias] at hunpack
      exact hunpack

/-! ## §E  Positions -/

/-- A whole number is made normal by one power of two only. -/
theorem IsNormal.unique {l : Nat} (h : IsNormal (i * 2 ^ k)) (h' : IsNormal (i * 2 ^ l)) : k = l := by
  have hne : i ≠ 0 := by
    rintro rfl
    simpa using h.pos
  have hk := h.log2
  have hl := h'.log2
  rw [log2_mul_pow hne] at hk hl
  omega

/-- The magnitude of a whole number, told from its significand and exponent. -/
theorem whole_iff (narrow : Bool) (hi : i ≤ exactBound) (hk : k ≤ 52) (h : IsNormal (i * 2 ^ k)) (hm : IsNormal m) :
    (e = -(k : Int) ∧ m = i * 2 ^ k) ↔
      (Binary.isWhole ⟨m, e, narrow⟩ = true ∧ -52 ≤ e) ∧ min (Binary.whole ⟨m, e, narrow⟩) greatestIndex = i := by
  have hbound : i < 2 ^ 53 := Nat.lt_of_le_of_lt hi (by decide)
  have hgreatest : 2 ^ 53 < greatestIndex := by decide
  have hpow : ∀ n, Nat.pow 2 n = 2 ^ n := fun _ => rfl
  constructor
  · rintro ⟨rfl, rfl⟩
    cases k with
    | zero =>
      simp only [Nat.pow_zero, Nat.mul_one] at hm ⊢
      refine ⟨⟨rfl, by omega⟩, ?_⟩
      show min (i * 1) greatestIndex = i
      omega
    | succ b =>
      have hneg : -((b + 1 : Nat) : Int) = Int.negSucc b := rfl
      rw [hneg]
      simp only [Binary.isWhole, Binary.whole, hpow, beq_iff_eq, Nat.mul_mod_left, true_and,
        Nat.mul_div_cancel _ (Nat.pow_pos (Nat.zero_lt_two) : 0 < 2 ^ (b + 1))]
      exact ⟨by omega, by omega⟩
  · rintro ⟨⟨hwhole, he⟩, hmin⟩
    cases e with
    | ofNat a =>
      have hvalue : m * 2 ^ a = i := by
        have hmin' : min (m * 2 ^ a) greatestIndex = i := hmin
        omega
      obtain rfl : a = 0 := by
        by_contra ha
        have h1 : 2 ^ 52 * 2 ^ 1 ≤ m * 2 ^ a := Nat.mul_le_mul hm.1 (Nat.pow_le_pow_right Nat.zero_lt_two (by omega))
        omega
      rw [Nat.pow_zero, Nat.mul_one] at hvalue
      subst hvalue
      obtain rfl : k = 0 := h.unique (by simpa using hm)
      exact ⟨rfl, by simp⟩
    | negSucc b =>
      simp only [Binary.isWhole, Binary.whole, hpow, beq_iff_eq] at hwhole hmin
      have hle : m / 2 ^ (b + 1) ≤ m := Nat.div_le_self _ _
      have hlt := hm.2
      have hvalue : m / 2 ^ (b + 1) = i := by omega
      have hm' : m = i * 2 ^ (b + 1) := by rw [← hvalue, Nat.div_mul_cancel (Nat.dvd_of_mod_eq_zero hwhole)]
      subst hm'
      obtain rfl := h.unique hm
      exact ⟨rfl, rfl⟩

/-- Comparison with a positive double. -/
theorem beq_eq {x y : Float} (hm : 0 < m) (hy : y.toModel.unpack = .finite .positive m e hm) :
    (x == y) = (x.toModel.unpack.compare (.finite .positive m e hm) == some .eq) := by
  rw [← hy]
  rfl

/-- Comparison with one. -/
theorem one_le_eq (x : Float) :
    decide (x ≥ 1) = (UnpackedFloat.compare (.finite .positive (2 ^ 52) (-52) (by decide)) x.toModel.unpack).any
      (·.isLE) := by
  have hone : (1 : Float).toModel.unpack = .finite .positive (2 ^ 52) (-52) (by decide) :=
    unpack_ofNat (by decide) (Nat.le_refl 52) ⟨by decide, by decide⟩
  rw [← hone, Bool.eq_iff_iff, decide_eq_true_iff]
  show decide ((1 : Float).toModel ≤ x.toModel) = true ↔ _
  rw [decide_eq_true_iff]
  rfl

/-- A positive double with a normal significand is not below one if its exponent is not too low. -/
theorem isLE_one (hm : IsNormal m) :
    ((UnpackedFloat.compare (.finite .positive (2 ^ 52) (-52) (by decide)) (.finite .positive m e hm.pos)).any
      (·.isLE)) = decide (-52 ≤ e) := by
  refine Bool.eq_iff_iff.mpr (Iff.trans ?_ decide_eq_true_iff.symm)
  simp only [UnpackedFloat.compare, Option.any_some]
  rcases Int.lt_trichotomy (-52) e with hlt | rfl | hgt
  · rw [Int.compare_eq_lt.mpr hlt]
    exact ⟨fun _ => Int.le_of_lt hlt, fun _ => rfl⟩
  · have hle : (compare (2 ^ 52) m).isLE = true := Nat.isLE_compare.mpr hm.1
    rw [Int.compare_eq_eq.mpr rfl]
    exact ⟨fun _ => Int.le_refl _, fun _ => hle⟩
  · rw [Int.compare_eq_gt.mpr hgt]
    exact ⟨fun h => (Bool.false_ne_true h).elim, fun h => absurd h (Int.not_le.mpr hgt)⟩

/-- The whole part of a double that has a normal significand and no sign. -/
theorem toIndex_eq {x : Float} {narrow : Bool} (hm : 0 < m) (hfinite : isFinite x = true) (hsign : isNegative x = false)
    (hmagnitude : magnitude x = ⟨m, e, narrow⟩) (hx : x.toModel.unpack = .finite .positive m e hm) :
    toIndex x = min (Binary.whole ⟨m, e, narrow⟩) greatestIndex := by
  have hnan : x.isNaN = false := by
    show x.toModel.unpack.isNaN = false
    rw [hx]
    rfl
  rw [toIndex, hnan, if_neg Bool.false_ne_true, if_pos hfinite, truncate, if_pos hfinite, hmagnitude]
  simp [hsign]

/-- **A double is equal to a position** if it is whole and goes to that position. -/
theorem beq_ofNat {x : Float} (hpos : 1 ≤ i) (hi : i ≤ exactBound) :
    (x == ofNat i) = (isWhole x && decide (x ≥ 1) && toIndex x == i) := by
  obtain ⟨k, hk, h⟩ := exists_isNormal hpos hi
  rw [beq_eq h.pos (unpack_ofNat hi hk h), one_le_eq, isWhole]
  cases shape x with
  | nan hfinite hx => rw [hx, hfinite]; rfl
  | infinity s hfinite hx => rw [hx, hfinite]; cases s <;> rfl
  | zero s hx => rw [hx]; cases s <;> simp [UnpackedFloat.compare]
  | negative m e hm hx => rw [hx]; simp [UnpackedFloat.compare]
  | tiny m hm hx =>
    have hlt : compare (-1074 : Int) (-(k : Int)) = .lt := Int.compare_eq_lt.mpr (by omega)
    have hgt : compare (-52 : Int) (-1074) = .gt := by decide
    rw [hx]
    simp [UnpackedFloat.compare, hlt, hgt]
  | normal m e narrow hm hfinite hsign hmagnitude hx =>
    rw [toIndex_eq hm.pos hfinite hsign hmagnitude hx, hx, hmagnitude, hfinite]
    have heq : (UnpackedFloat.compare (.finite .positive m e hm.pos) (.finite .positive (i * 2 ^ k) (-(k : Int)) h.pos) ==
        some .eq) = decide (e = -(k : Int) ∧ m = i * 2 ^ k) := by
      rw [Bool.eq_iff_iff, decide_eq_true_iff]
      simp [UnpackedFloat.compare, Ordering.then_eq_eq]
    rw [isLE_one hm, heq, Bool.eq_iff_iff]
    simp only [decide_eq_true_iff, whole_iff narrow hi hk h hm, Bool.true_and, Bool.and_eq_true,
      beq_iff_eq]

/-- A whole number from one on is a position. -/
theorem one_le_toIndex {x : Float} (hw : isWhole x = true) (hx : x ≥ 1) : 1 ≤ toIndex x := by
  have hle : decide (x ≥ 1) = true := decide_eq_true hx
  obtain ⟨hfin, hwhole⟩ := (Bool.and_eq_true _ _).mp hw
  rw [one_le_eq] at hle
  cases shape x with
  | nan hfinite _ => rw [hfinite] at hfin; cases hfin
  | infinity s hfinite _ => rw [hfinite] at hfin; cases hfin
  | zero s h => rw [h] at hle; cases s <;> simp [UnpackedFloat.compare] at hle
  | negative m e hm h => rw [h] at hle; simp [UnpackedFloat.compare] at hle
  | tiny m hm h =>
    have hgt : compare (-52 : Int) (-1074) = .gt := by decide
    rw [h] at hle
    simp [UnpackedFloat.compare, hgt] at hle
  | normal m e narrow hm hfinite hsign hmagnitude h =>
    rw [h, isLE_one hm, decide_eq_true_iff] at hle
    rw [toIndex_eq hm.pos hfinite hsign hmagnitude h]
    have hgreatest : 1 ≤ greatestIndex := by decide
    refine Nat.le_min.mpr ⟨?_, hgreatest⟩
    cases e with
    | ofNat a => exact Nat.mul_pos hm.pos (Nat.pow_pos Nat.zero_lt_two)
    | negSucc b =>
      have hpow : 2 ^ (b + 1) ≤ 2 ^ 52 := Nat.pow_le_pow_right Nat.zero_lt_two (by omega)
      exact (Nat.one_le_div_iff (Nat.pow_pos Nat.zero_lt_two)).mpr (Nat.le_trans hpow hm.1)

/-! ## §F  Beyond the bound -/

/-- Bits are shifted out of a significand. -/
theorem mantissa_shiftRight (em : UnpackedFloat.ExtendedMantissa) (n : Nat) : (em >>> n).mantissa = em.mantissa / 2 ^ n := by
  show (n.repeat UnpackedFloat.ExtendedMantissa.shiftRightOne em).mantissa = _
  induction n with
  | zero => simp [Nat.repeat]
  | succ n ih =>
    rw [Nat.repeat, Nat.pow_succ, ← Nat.div_div_eq_div_mul, ← ih]
    rfl

/-- Rounding adds one at most. -/
theorem roundedMantissa_bounds (em : UnpackedFloat.ExtendedMantissa) :
    em.mantissa ≤ em.roundedMantissa ∧ em.roundedMantissa ≤ em.mantissa + 1 := by
  obtain ⟨m, r, t⟩ := em
  cases r <;> cases t <;>
    simp only [UnpackedFloat.ExtendedMantissa.roundedMantissa, UnpackedFloat.ExtendedMantissa.accuracy,
      UnpackedFloat.Accuracy.roundToNearestEven] <;> omega

/-- A significand is shifted so far that 53 bits are left of it. -/
theorem shiftToTarget_mantissa {a : UnpackedFloat.Accuracy} (he : -1074 ≤ (m.log2 : Int) - 52 + e) (hm : 52 ≤ m.log2) :
    (UnpackedFloat.shiftToTargetExponent Format.binary64 m e a).1.mantissa = m / 2 ^ (m.log2 - 52) ∧
      (UnpackedFloat.shiftToTargetExponent Format.binary64 m e a).2 = e + (m.log2 - 52 : Nat) := by
  have htarget : Format.binary64.targetExponent (totalExponent m e) = e + (m.log2 - 52 : Nat) := by
    unfold Format.targetExponent totalExponent
    simp only [mantissaBits_binary64, Format.minExponent]
    omega
  have hamount : (e + (m.log2 - 52 : Nat) - e).toNat = m.log2 - 52 := by omega
  unfold UnpackedFloat.shiftToTargetExponent
  rw [htarget, UnpackedFloat.shiftToExponent]
  simp only [hamount, mantissa_shiftRight]
  refine ⟨?_, trivial⟩
  cases a with
  | exact => rfl
  | inexact o => cases o <;> rfl

theorem isNormal_div (hm : 52 ≤ m.log2) : IsNormal (m / 2 ^ (m.log2 - 52)) := by
  have hne : m ≠ 0 := by
    rintro rfl
    simp at hm
  have hpos : 0 < 2 ^ (m.log2 - 52) := Nat.pow_pos Nat.zero_lt_two
  constructor
  · rw [Nat.le_div_iff_mul_le hpos, ← Nat.pow_add, Nat.add_sub_cancel' hm]
    exact Nat.log2_self_le hne
  · rw [Nat.div_lt_iff_lt_mul hpos, ← Nat.pow_add, show 53 + (m.log2 - 52) = m.log2 + 1 by omega]
    exact Nat.lt_log2_self

/-- What is rounded from more bits is normal. -/
theorem round_long (he : -1074 ≤ (m.log2 : Int) - 52 + e) (hm : 52 ≤ m.log2) : ∃ m' e', ∃ h : IsNormal m',
    e + (m.log2 - 52 : Nat) ≤ e' ∧
      UnpackedFloat.roundWithAccuracy Format.binary64 s m e .exact = .finite s m' e' h.pos := by
  obtain ⟨hmantissa, hexponent⟩ := shiftToTarget_mantissa (a := .exact) he hm
  have hnormal := isNormal_div hm
  unfold UnpackedFloat.roundWithAccuracy
  rcases hfirst : UnpackedFloat.shiftToTargetExponent Format.binary64 m e .exact with ⟨em, e₁⟩
  rw [hfirst] at hmantissa hexponent
  dsimp only at hmantissa hexponent ⊢
  obtain ⟨hle, hge⟩ := roundedMantissa_bounds em
  have hlow : 2 ^ 52 ≤ em.roundedMantissa := by rw [hmantissa] at hle; exact hnormal.1.trans hle
  have hhigh : em.roundedMantissa ≤ 2 ^ 53 := by rw [hmantissa] at hge; exact hge.trans hnormal.2
  have hlog : 52 ≤ em.roundedMantissa.log2 := (Nat.le_log2 (by omega)).mpr hlow
  obtain ⟨hfinal, hlast⟩ := shiftToTarget_mantissa (m := em.roundedMantissa) (e := e₁) (a := .exact) (by omega) hlog
  rcases hsecond : UnpackedFloat.shiftToTargetExponent Format.binary64 em.roundedMantissa e₁ .exact with ⟨em', e₂⟩
  rw [hsecond] at hfinal hlast
  dsimp only at hfinal hlast ⊢
  have hnormal' : IsNormal em'.mantissa := hfinal ▸ isNormal_div hlog
  refine ⟨em'.mantissa, e₂, hnormal', by omega, ?_⟩
  rw [dif_neg (Nat.ne_of_gt hnormal'.pos)]

/-- Too high an exponent is that of the infinity. -/
theorem IsNormal.unpack_pack_infinity (h : IsNormal m) (he : 971 < e) :
    (pack (.finite .positive m e h.pos)).unpack = .infinity .positive := by
  have hinfinite : 2 ^ 11 ≤ (e + Format.binary64.exponentBias + Format.binary64.mantissaBitsWithoutImplicit).toNat + 1 := by
    simp only [Format.exponentBias]
    omega
  show UnpackedFloat.unpack Format.binary64 (UnpackedFloat.pack Format.binary64 _) = _
  unfold UnpackedFloat.pack
  rw [if_pos hinfinite]
  rfl

/-- A whole number beyond the bound is what is left of it when it is rounded. -/
theorem toModel_ofNat (hn : exactBound < n) : (ofNat n).toModel =
    pack (UnpackedFloat.roundWithAccuracy Format.binary64 .positive (n * 2 ^ 53) (-53) .exact) := by
  have hbound : exactBound = 2 ^ 53 - 1 := rfl
  have hlarge : ¬(n < 2 ^ 53 ∧ 0 ≤ 22) := by omega
  have hn0 : n ≠ 0 := by omega
  rw [ofNat, Float.ofScientific, dif_neg hlarge]
  show Float.Model.ofScientific n 0 = _
  unfold Float.Model.ofScientific UnpackedFloat.ofScientific
  rw [dif_neg hn0, if_neg (by decide), if_neg (by simp only [Int.not_lt]; omega), if_pos (Int.le_refl 0)]
  simp only [mantissaBits_binary64, Nat.shiftLeft_eq]
  show pack (UnpackedFloat.roundWithAccuracy Format.binary64 .positive (n * 2 ^ 53 * 10 ^ 0) (-53 + 0) .exact) = _
  rw [Nat.pow_zero, Nat.mul_one, Int.add_zero]

/-- **A whole number beyond the bound** is no position up to the bound. -/
theorem ofNat_ne_of_bound_lt (hn : exactBound < n) (hpos : 1 ≤ i) (hi : i ≤ exactBound) : (ofNat n == ofNat i) = false := by
  obtain ⟨k, hk, h⟩ := exists_isNormal hpos hi
  have hbound : exactBound = 2 ^ 53 - 1 := rfl
  have hn0 : n ≠ 0 := by omega
  have hlog : 53 ≤ n.log2 := (Nat.le_log2 hn0).mpr (by omega)
  have hmul : (n * 2 ^ 53).log2 = n.log2 + 53 := log2_mul_pow hn0
  obtain ⟨m, e, hm, he, hround⟩ := round_long (s := .positive) (m := n * 2 ^ 53) (e := -53) (by omega) (by omega)
  rw [beq_eq h.pos (unpack_ofNat hi hk h), toModel_ofNat hn, hround]
  have hgt : compare e (-(k : Int)) = .gt := Int.compare_eq_gt.mpr (by omega)
  rcases le_or_gt e 971 with hle | hgt'
  · rw [hm.unpack_pack (by omega) hle]
    simp [UnpackedFloat.compare, hgt]
  · rw [hm.unpack_pack_infinity hgt']
    rfl

end NodePath.Number
