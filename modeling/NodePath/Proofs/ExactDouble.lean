/-
# NodePath.Proofs.ExactDouble — doubles that are whole numbers and halves, exactly

An integer of moderate size is a double, and so is its half. Sums of such doubles lose nothing, they compare as the
integers do, and a half is rounded down to what it should be. Beyond all of these are the doubles that have no place
for a half; sums with them stay beyond.

* §A  `Exactly`, doubles that are an integer over a power of two.
* §B  Sums.
* §C  Order.
* §D  Whole parts: rounding, and indices.
* §E  `Vast` doubles.
-/
import NodePath.Proofs.DoubleOrder
import NodePath.Proofs.DoubleSign

namespace NodePath.Number

open Float.Model

variable {x y : Float} {n m : Int} {i j k l : Nat} {e : Int} {s : UnpackedFloat.Sign}

/-! ## §A  Exact doubles -/

/-- The sign of an integer; zero has none. -/
def intSign (n : Int) : UnpackedFloat.Sign := if n < 0 then .negative else .positive

/-- **Exactly** says that a double is `n / 2 ^ j`, and nothing is lost. -/
inductive Exactly (x : Float) (n : Int) (j : Nat) : Prop
  | zero (s : UnpackedFloat.Sign) : n = 0 → x.toModel.unpack = .zero s → Exactly x n j
  | finite (k : Nat) (h : IsNormal (n.natAbs * 2 ^ k)) :
    x.toModel.unpack = .finite (intSign n) (n.natAbs * 2 ^ k) (-(j : Int) - k) h.pos → Exactly x n j

/-- What is packed is unpacked to the same double. -/
theorem Exactly.of_toModel (hj : j ≤ 1000) (h : IsNormal (n.natAbs * 2 ^ k))
    (hx : x.toModel = pack (.finite (intSign n) (n.natAbs * 2 ^ k) (-(j : Int) - k) h.pos)) : Exactly x n j := by
  have hk := h.le_of_mul
  refine .finite k h ?_
  rw [hx]
  exact h.unpack_pack (by omega) (by omega)

/-- A whole double of moderate size is its whole part. -/
theorem Exactly.of_isWhole (hx : isWhole x = true) (hsmall : (truncate x).natAbs ≤ exactBound) :
    Exactly x (truncate x) 0 := by
  have hfinite : isFinite x = true := ((Bool.and_eq_true _ _).mp hx).1
  have habs := natAbs_truncate hfinite
  rcases unpack_of_isWhole hx (habs ▸ hsmall) with ⟨hzero, s, hunpack⟩ | ⟨k, -, hnormal, hunpack⟩
  · exact .zero s (Int.natAbs_eq_zero.mp (habs.trans hzero)) hunpack
  · have hnormal' : IsNormal ((truncate x).natAbs * 2 ^ k) := habs ▸ hnormal
    have hsign : signOf x = intSign (truncate x) := by
      have hpos : 0 < (magnitude x).whole := Nat.pos_of_mul_pos_right hnormal.pos
      unfold signOf intSign
      rw [truncate_of_isFinite hfinite]
      by_cases hneg : isNegative x = true
      · rw [if_pos hneg, if_pos hneg, if_pos (by omega)]
      · rw [if_neg hneg, if_neg hneg, if_neg (by omega)]
    refine .finite k hnormal' ?_
    rw [hunpack, hsign]
    simp [habs]

theorem exactly_ofNat (hi : i ≤ exactBound) : Exactly (ofNat i) i 0 := by
  rcases Nat.eq_zero_or_pos i with rfl | hpos
  · exact .zero .positive rfl rfl
  · obtain ⟨k, hk, h⟩ := exists_isNormal hpos hi
    refine .finite k h ?_
    rw [unpack_ofNat hi hk h]
    simp [intSign]

theorem exactly_ofInt (hn : n.natAbs ≤ exactBound) : Exactly (ofInt n) n 0 := by
  cases n with
  | ofNat i => exact exactly_ofNat hn
  | negSucc i =>
    obtain ⟨k, hk, h⟩ := exists_isNormal (Nat.succ_pos i) hn
    have hpositive : (ofNat (i + 1)).toModel.unpack = .finite .positive ((i + 1) * 2 ^ k) (-(k : Int)) h.pos :=
      unpack_ofNat hn hk h
    have hsign : intSign (.negSucc i) = -.positive := if_pos (Int.negSucc_lt_zero i)
    have hexponent : -((0 : Nat) : Int) - k = -(k : Int) := by omega
    refine .of_toModel (Nat.zero_le _) (k := k) h ?_
    show pack (ofNat (i + 1)).toModel.unpack.neg = _
    rw [hpositive, UnpackedFloat.neg]
    simp only [hsign, hexponent, Int.natAbs_negSucc, Nat.succ_eq_add_one]

/-- A half is as exact as the whole that it is half of. -/
theorem Exactly.double (h : Exactly x n 0) (hn : n.natAbs < 2 ^ 52) : Exactly x (2 * n) 1 := by
  cases h with
  | zero s hzero hx => exact .zero s (by omega) hx
  | finite k hnormal hx =>
    have habs : (2 * n).natAbs = n.natAbs * 2 := by omega
    have hsign : intSign (2 * n) = intSign n := by
      unfold intSign
      split <;> split <;> first | rfl | omega
    cases k with
    | zero =>
      have := hnormal.1
      omega
    | succ k =>
      have hmul : (2 * n).natAbs * 2 ^ k = n.natAbs * 2 ^ (k + 1) := by
        rw [habs, Nat.mul_assoc, ← Nat.pow_succ']
      refine .finite k (hmul ▸ hnormal) ?_
      rw [hx, hsign]
      simp only [hmul, UnpackedFloat.finite.injEq, true_and]
      omega

theorem exactly_half : Exactly 0.5 1 1 := by
  have hnormal : IsNormal ((1 : Int).natAbs * 2 ^ 52) := ⟨by decide, by decide⟩
  exact .of_toModel (by decide) hnormal rfl

theorem exactly_zero : Exactly 0 0 0 := .zero .positive rfl rfl

theorem exactly_one : Exactly 1 1 0 := exactly_ofNat (i := 1) (by decide)

/-! ## §B  Sums -/

/-- An integer over a power of two is rounded to itself, however it is written. -/
theorem Exactly.of_normalize (hj : j ≤ 1000) (hn : n.natAbs ≤ exactBound)
    (hx : x.toModel = pack (UnpackedFloat.normalize Format.binary64 (n * 2 ^ l) (-(j : Int) - l) .positive)) :
    Exactly x n j := by
  have hpow : (0 : Int) < 2 ^ l := Int.pow_pos (by decide)
  have habs : (n * 2 ^ l).natAbs = n.natAbs * 2 ^ l := by
    rw [Int.natAbs_mul, Int.natAbs_pow]
    rfl
  unfold UnpackedFloat.normalize at hx
  rcases Int.lt_trichotomy n 0 with hneg | rfl | hpos
  · obtain ⟨k, hk, h⟩ := exists_isNormal (i := n.natAbs) (by omega) hn
    have hlt : n * 2 ^ l < 0 := Int.mul_neg_of_neg_of_pos hneg hpow
    have hmagnitude : (-(n * 2 ^ l)).toNat = n.natAbs * 2 ^ l := by omega
    rw [Int.compare_eq_lt.mpr hlt] at hx
    simp only [hmagnitude] at hx
    rw [h.round_zeros (by omega)] at hx
    refine .of_toModel hj h ?_
    rw [hx, intSign, if_pos hneg]
  · refine .zero .positive rfl ?_
    have hzero : (pack (.zero .positive)).unpack = .zero .positive := rfl
    rw [Int.zero_mul, Int.compare_eq_eq.mpr rfl] at hx
    rw [hx]
    exact hzero
  · obtain ⟨k, hk, h⟩ := exists_isNormal (i := n.natAbs) (by omega) hn
    have hlt : 0 < n * 2 ^ l := Int.mul_pos hpos hpow
    have hmagnitude : (n * 2 ^ l).toNat = n.natAbs * 2 ^ l := by omega
    rw [Int.compare_eq_gt.mpr hlt] at hx
    simp only [hmagnitude] at hx
    rw [h.round_zeros (by omega)] at hx
    refine .of_toModel hj h ?_
    rw [hx, intSign, if_neg (by omega)]

/-- A significand with the sign of an integer is that integer with zeros behind it. -/
theorem apply_intSign (n : Int) (k : Nat) : (intSign n).apply ((n.natAbs * 2 ^ k : Nat) : Int) = n * 2 ^ k := by
  unfold intSign
  push_cast
  split
  · rw [UnpackedFloat.Sign.apply, abs_of_neg ‹_›, Int.neg_mul, Int.neg_neg]
  · rw [UnpackedFloat.Sign.apply, abs_of_nonneg (by omega)]

/-- Two significands are brought to the lower of their exponents. -/
theorem decreaseExponent_zeros (i : Nat) (hkl : k ≤ l) :
    UnpackedFloat.decreaseExponent (i * 2 ^ k) (e - k) (e - l) = (i * 2 ^ l, e - l) := by
  have hamount : (e - k - (e - l)).toNat = l - k := by omega
  have hexponent : e - k - (l - k : Nat) = e - l := by omega
  rw [UnpackedFloat.decreaseExponent]
  simp only [hamount, hexponent, Nat.shiftLeft_eq, Nat.mul_assoc, ← Nat.pow_add, Nat.add_sub_cancel' hkl]

/-- **A sum of exact doubles is exact**, if it has no more than 53 bits. -/
theorem Exactly.add (hx : Exactly x n j) (hy : Exactly y m j) (hj : j ≤ 1000) (hsum : (n + m).natAbs ≤ exactBound) :
    Exactly (x + y) (n + m) j := by
  have hadd : (x + y).toModel = pack (UnpackedFloat.add Format.binary64 x.toModel.unpack y.toModel.unpack) := rfl
  cases hx with
  | zero s hn hx =>
    subst hn
    rw [Int.zero_add]
    cases hy with
    | zero t hm hy =>
      rw [hx, hy] at hadd
      cases s <;> cases t <;> exact .zero _ hm (congrArg Float.Model.unpack hadd)
    | finite k h hy =>
      rw [hx, hy] at hadd
      exact .of_toModel hj h hadd
  | finite k h hx =>
    cases hy with
    | zero t hm hy =>
      subst hm
      rw [hx, hy] at hadd
      rw [Int.add_zero]
      exact .of_toModel hj h hadd
    | finite l h' hy =>
      -- At the lower of the two exponents both are integers, with the same number of zeros behind them.
      have hlower : min (-(j : Int) - k) (-(j : Int) - l) = -(j : Int) - (max k l : Nat) := by omega
      rw [hx, hy, UnpackedFloat.add] at hadd
      simp only [hlower, decreaseExponent_zeros _ (Nat.le_max_left k l), decreaseExponent_zeros _ (Nat.le_max_right k l),
        apply_intSign, ← Int.add_mul] at hadd
      exact .of_normalize hj hsum hadd

/-! ## §C  Order -/

/-- What needs fewer zeros to be normal is greater. -/
theorem IsNormal.lt_of_lt (h : IsNormal (i * 2 ^ k)) (h' : IsNormal (j * 2 ^ l)) (hkl : k < l) : j < i := by
  have hle : j * 2 ^ k * 2 ≤ j * 2 ^ l := by
    rw [Nat.mul_assoc, ← Nat.pow_succ]
    exact Nat.mul_le_mul_left _ (Nat.pow_le_pow_right Nat.zero_lt_two hkl)
  have hlow := h.1
  have hhigh := h'.2
  refine Nat.lt_of_mul_lt_mul_right (a := 2 ^ k) ?_
  omega

/-- The exponent decides, and then the significand: exact doubles compare as the integers that they are of. -/
theorem compare_normal (h : IsNormal (i * 2 ^ k)) (h' : IsNormal (j * 2 ^ l)) (e : Int) :
    (compare (e - k) (e - l)).then (compare (i * 2 ^ k) (j * 2 ^ l)) = compare i j := by
  rcases Nat.lt_trichotomy k l with hlt | rfl | hgt
  · rw [Int.compare_eq_gt.mpr (by omega), Nat.compare_eq_gt.mpr (h.lt_of_lt h' hlt)]
    rfl
  · have hpos : 0 < 2 ^ k := Nat.pow_pos Nat.zero_lt_two
    rw [Int.compare_eq_eq.mpr rfl]
    show compare (i * 2 ^ k) (j * 2 ^ k) = _
    rcases Nat.lt_trichotomy i j with hlt | rfl | hgt
    · rw [Nat.compare_eq_lt.mpr hlt, Nat.compare_eq_lt.mpr (Nat.mul_lt_mul_of_pos_right hlt hpos)]
    · rw [Nat.compare_eq_eq.mpr rfl, Nat.compare_eq_eq.mpr rfl]
    · rw [Nat.compare_eq_gt.mpr hgt, Nat.compare_eq_gt.mpr (Nat.mul_lt_mul_of_pos_right hgt hpos)]
  · rw [Int.compare_eq_lt.mpr (by omega), Nat.compare_eq_lt.mpr (h'.lt_of_lt h hgt)]
    rfl

/-- Integers below zero compare the opposite way to their magnitudes. -/
theorem compare_natAbs_of_neg (hn : n < 0) (hm : m < 0) : (compare n.natAbs m.natAbs).swap = compare n m := by
  rw [Nat.compare_swap]
  rcases Int.lt_trichotomy n m with hlt | rfl | hgt
  · rw [Int.compare_eq_lt.mpr hlt, Nat.compare_eq_lt.mpr (by omega)]
  · rw [Int.compare_eq_eq.mpr rfl, Nat.compare_eq_eq.mpr rfl]
  · rw [Int.compare_eq_gt.mpr hgt, Nat.compare_eq_gt.mpr (by omega)]

theorem compare_natAbs_of_nonneg (hn : 0 ≤ n) (hm : 0 ≤ m) : compare n.natAbs m.natAbs = compare n m := by
  rcases Int.lt_trichotomy n m with hlt | rfl | hgt
  · rw [Int.compare_eq_lt.mpr hlt, Nat.compare_eq_lt.mpr (by omega)]
  · rw [Int.compare_eq_eq.mpr rfl, Nat.compare_eq_eq.mpr rfl]
  · rw [Int.compare_eq_gt.mpr hgt, Nat.compare_eq_gt.mpr (by omega)]

/-- **Exact doubles compare** as their integers do. -/
theorem Exactly.order (hx : Exactly x n j) (hy : Exactly y m j) : order? x y = some (compare n m) := by
  -- Zeros are compared by themselves, others by their signs first and then by their significands.
  unfold order?
  cases hx with
  | zero s hn hx =>
    subst hn
    cases hy with
    | zero t hm hy =>
      subst hm
      rw [hx, hy]
      rfl
    | finite l h' hy =>
      rw [hx, hy, intSign]
      have hne : 0 < m.natAbs := Nat.pos_of_mul_pos_right h'.pos
      split
      · rw [Int.compare_eq_gt.mpr ‹_›]
        rfl
      · rw [Int.compare_eq_lt.mpr (by omega)]
        rfl
  | finite k h hx =>
    have hne : 0 < n.natAbs := Nat.pos_of_mul_pos_right h.pos
    cases hy with
    | zero t hm hy =>
      subst hm
      rw [hx, hy, intSign]
      split
      · rw [Int.compare_eq_lt.mpr ‹_›]
        rfl
      · rw [Int.compare_eq_gt.mpr (by omega)]
        rfl
    | finite l h' hy =>
      have hne' : 0 < m.natAbs := Nat.pos_of_mul_pos_right h'.pos
      have hcompare := compare_normal h h' (-(j : Int))
      rw [hx, hy]
      unfold intSign
      split <;> split
      · rw [UnpackedFloat.compare, hcompare, compare_natAbs_of_neg ‹_› ‹_›]
      · rw [Int.compare_eq_lt.mpr (by omega)]
        rfl
      · rw [Int.compare_eq_gt.mpr (by omega)]
        rfl
      · rw [UnpackedFloat.compare, hcompare, compare_natAbs_of_nonneg (by omega) (by omega)]

theorem Exactly.lt_iff (hx : Exactly x n j) (hy : Exactly y m j) : x < y ↔ n < m := by
  rw [lt_iff_order, hx.order hy, Option.some.injEq, Int.compare_eq_lt]

theorem Exactly.isNaN (h : Exactly x n j) : x.isNaN = false := by
  show x.toModel.unpack.isNaN = false
  cases h with
  | zero s hn hx => rw [hx]; rfl
  | finite k h hx => rw [hx]; rfl

/-! ## §D  Whole parts -/

/-- A double that is neither an infinity nor no number has the sign, the significand and the exponent that it is
unpacked to. -/
theorem magnitude_of_unpack {hm : 0 < i} (hx : x.toModel.unpack = .finite s i e hm) :
    isFinite x = true ∧ signOf x = s ∧ (magnitude x).significand = i ∧ (magnitude x).exponent = e := by
  have hfinite : isFinite x = true := by
    rw [isFinite_eq, hx]
    rfl
  refine ⟨hfinite, ?_⟩
  rcases unpack_of_isFinite hfinite with ⟨-, t, hx'⟩ | ⟨_, hx', -⟩
  · exact absurd (hx.symm.trans hx') nofun
  · obtain ⟨hsign, hsignificand, hexponent⟩ := UnpackedFloat.finite.inj (hx'.symm.trans hx)
    exact ⟨hsign, hsignificand, hexponent⟩

theorem isNegative_iff (h : signOf x = intSign n) : isNegative x = true ↔ n < 0 := by
  unfold signOf intSign at h
  split at h <;> split at h
  · exact iff_of_true ‹_› ‹_›
  · cases h
  · cases h
  · exact iff_of_false ‹_› ‹_›

/-- An odd number of halves has a fraction, and half of it is whole. -/
theorem isWhole_half (hodd : i % 2 = 1) (k : Nat) (narrow : Bool) :
    Binary.isWhole ⟨i * 2 ^ k, .negSucc k, narrow⟩ = false ∧ Binary.whole ⟨i * 2 ^ k, .negSucc k, narrow⟩ = i / 2 := by
  have hpos : 0 < 2 ^ k := Nat.pow_pos Nat.zero_lt_two
  have hpow : Nat.pow 2 (k + 1) = 2 * 2 ^ k := Nat.pow_succ'
  constructor
  · rw [Binary.isWhole]
    simp only [hpow, Nat.mul_mod_mul_right, hodd, Nat.one_mul, beq_eq_false_iff_ne]
    exact hpos.ne'
  · rw [Binary.whole]
    simp only [hpow, Nat.mul_div_mul_right _ _ hpos]

/-- **A half is rounded down** to the whole number below it. -/
theorem Exactly.floor (h : Exactly x (2 * n + 1) 1) : floor x = ofInt n := by
  cases h with
  -- An odd number is not zero, so the sign of zero does not matter.
  | zero s hzero hx => omega
  | finite k hnormal hx =>
    obtain ⟨hfinite, hsign, hsignificand, hexponent⟩ := magnitude_of_unpack hx
    have hmagnitude : magnitude x = ⟨(2 * n + 1).natAbs * 2 ^ k, .negSucc k, (magnitude x).narrowBelow⟩ := by
      rw [← hsignificand, show Int.negSucc k = -((1 : Nat) : Int) - k by omega, ← hexponent]
    obtain ⟨hfraction, hwhole⟩ := isWhole_half (i := (2 * n + 1).natAbs) (by omega) k (magnitude x).narrowBelow
    rw [← hmagnitude] at hfraction hwhole
    have hnegative := isNegative_iff hsign
    unfold Number.floor isWhole
    rw [hfinite, hfraction, hwhole]
    dsimp only
    rw [if_neg (by simp)]
    by_cases hn : n < 0
    · obtain ⟨i, rfl⟩ := Int.eq_negSucc_of_lt_zero hn
      have hhalf : (2 * Int.negSucc i + 1).natAbs / 2 = i := by omega
      rw [if_pos (hnegative.mpr (by omega)), hhalf]
      rfl
    · obtain ⟨i, rfl⟩ := Int.eq_ofNat_of_zero_le (Int.not_lt.mp hn)
      have hhalf : (2 * (i : Int) + 1).natAbs / 2 = i := by omega
      rw [if_neg (by rw [hnegative]; omega), hhalf]
      rfl

theorem Exactly.isFinite (h : Exactly x n j) : isFinite x = true := by
  rw [isFinite_eq]
  cases h with
  | zero s hn hx => rw [hx]; rfl
  | finite k h hx => rw [hx]; rfl

/-- **Rounding half up** leaves whole numbers of moderate size where they are. -/
theorem Exactly.roundHalfUp (h : Exactly x n 0) (hn : n.natAbs < 2 ^ 52) : roundHalfUp x = ofInt n := by
  have hbound : exactBound = 2 ^ 53 - 1 := rfl
  have hhalf : Exactly (x + 0.5) (2 * n + 1) 1 := (h.double hn).add exactly_half (by decide) (by omega)
  rw [Number.roundHalfUp, if_pos h.isFinite, hhalf.floor]

/-- **The index of a position** that is a whole number. -/
theorem Exactly.toIndex (h : Exactly x n 0) (hpos : 1 ≤ n) (hn : n.natAbs ≤ exactBound) : toIndex x = n.toNat := by
  cases h with
  | zero s hzero hx => omega
  | finite k hnormal hx =>
    obtain ⟨hfinite, hsign, hsignificand, hexponent⟩ := magnitude_of_unpack hx
    have hnegative : isNegative x = false := Bool.eq_false_iff.mpr fun hneg => by
      have := (isNegative_iff hsign).mp hneg
      omega
    have hmagnitude : magnitude x = ⟨n.natAbs * 2 ^ k, -(k : Int), (magnitude x).narrowBelow⟩ := by
      rw [← hsignificand, show -(k : Int) = -((0 : Nat) : Int) - k by omega, ← hexponent]
    have hx' : x.toModel.unpack = .finite .positive (n.natAbs * 2 ^ k) (-(k : Int)) hnormal.pos := by
      rw [hx, intSign, if_neg (by omega)]
      simp
    rw [toIndex_eq hnormal.pos hfinite hnegative hmagnitude hx',
      ((whole_iff _ hn hnormal.le_of_mul hnormal hnormal).mp ⟨rfl, rfl⟩).2]
    omega

/-! ## §E  Vast doubles -/

/-- **Vast** doubles have no place for a half, and there are none between them but whole numbers. -/
inductive Vast (x : Float) : Prop
  | infinity : x.toModel.unpack = .infinity .positive → Vast x
  | finite (i : Nat) (e : Int) (h : IsNormal i) : 0 ≤ e → x.toModel.unpack = .finite .positive i e h.pos → Vast x

/-- What is rounded so that no place is left for a half is vast. -/
theorem Vast.of_round (hlog : 52 ≤ i.log2) (he : 0 ≤ e + (i.log2 - 52 : Nat))
    (hx : x.toModel = pack (UnpackedFloat.roundWithAccuracy Format.binary64 .positive i e .exact)) : Vast x := by
  obtain ⟨i', e', h, hle, hround⟩ := round_long (s := .positive) (m := i) (e := e) (by omega) hlog
  rw [hround] at hx
  have hunpack := congrArg Float.Model.unpack hx
  rcases Int.lt_or_le 971 e' with hgt | hle'
  · exact .infinity (hunpack.trans (h.unpack_pack_infinity hgt))
  · exact .finite i' e' h (by omega) (hunpack.trans (h.unpack_pack (by omega) hle'))

theorem vast_ofNat (hi : 2 ^ 52 ≤ i) : Vast (ofNat i) := by
  have hbound : exactBound = 2 ^ 53 - 1 := rfl
  by_cases hsmall : i ≤ exactBound
  · have hnormal : IsNormal (i * 2 ^ 0) := ⟨by omega, by omega⟩
    exact .finite _ _ hnormal (Int.le_refl 0) (unpack_ofNat hsmall (Nat.zero_le 52) hnormal)
  · have hlog : 52 ≤ i.log2 := (Nat.le_log2 (by omega)).mpr hi
    have hmul : (i * 2 ^ 53).log2 = i.log2 + 53 := log2_mul_pow (by omega)
    exact .of_round (by omega) (by omega) (toModel_ofNat (by omega))

/-- A long significand is only shortened. -/
theorem round_of_long (hlog : 52 ≤ i.log2) (he : -1074 ≤ e + (i.log2 - 52 : Nat)) :
    UnpackedFloat.round Format.binary64 s i e = UnpackedFloat.roundWithAccuracy Format.binary64 s i e .exact := by
  have htarget : Format.binary64.targetExponent (totalExponent i e) = e + (i.log2 - 52 : Nat) := by
    unfold Format.targetExponent totalExponent
    simp only [mantissaBits_binary64, Format.minExponent]
    omega
  have hamount : (e - (e + (i.log2 - 52 : Nat))).toNat = 0 := by omega
  unfold UnpackedFloat.round
  simp only [htarget, UnpackedFloat.decreaseExponent, hamount, Nat.shiftLeft_zero, Nat.cast_zero, Int.sub_zero]

/-- A sum is vast if one of its summands is. -/
theorem Vast.of_add {e' : Int} (h : IsNormal i) (h' : IsNormal j) (he : 0 ≤ e ∨ 0 ≤ e')
    (hx : x.toModel = pack (UnpackedFloat.add Format.binary64 (.finite .positive i e h.pos) (.finite .positive j e' h'.pos))) :
    Vast x := by
  obtain ⟨k, hk⟩ : ∃ k, (e - min e e').toNat = k := ⟨_, rfl⟩
  obtain ⟨l, hl⟩ : ∃ l, (e' - min e e').toNat = l := ⟨_, rfl⟩
  -- Whichever of them is shifted was normal before: so many bits must go again that its exponent comes back.
  have hsum : 2 ^ (52 + max k l) ≤ i * 2 ^ k + j * 2 ^ l := by
    rw [Nat.pow_add]
    rcases Nat.le_total k l with hle | hle
    · rw [Nat.max_eq_right hle]
      exact (Nat.mul_le_mul_right _ h'.1).trans (Nat.le_add_left _ _)
    · rw [Nat.max_eq_left hle]
      exact (Nat.mul_le_mul_right _ h.1).trans (Nat.le_add_right _ _)
  have hpos : 0 < i * 2 ^ k + j * 2 ^ l := (Nat.pow_pos Nat.zero_lt_two).trans_le hsum
  have hlog : 52 + max k l ≤ (i * 2 ^ k + j * 2 ^ l).log2 := (Nat.le_log2 hpos.ne').mpr hsum
  have hcompare : compare (((i * 2 ^ k : Nat) : Int) + (j * 2 ^ l : Nat)) 0 = .gt := Int.compare_eq_gt.mpr (by omega)
  have htoNat : (((i * 2 ^ k : Nat) : Int) + (j * 2 ^ l : Nat)).toNat = i * 2 ^ k + j * 2 ^ l := by omega
  rw [UnpackedFloat.add] at hx
  simp only [UnpackedFloat.decreaseExponent, hk, hl, Nat.shiftLeft_eq, UnpackedFloat.Sign.apply, UnpackedFloat.normalize,
    hcompare, htoNat] at hx
  rw [round_of_long (by omega) (by omega)] at hx
  exact .of_round (by omega) (by omega) hx

/-- **A sum with a vast double** and a positive one is vast. -/
theorem Vast.add (hx : Vast x) (hy : Exactly y n j) (hpos : 0 < n) : Vast (x + y) ∧ Vast (y + x) := by
  have hadd : ∀ a b : Float, (a + b).toModel = pack (UnpackedFloat.add Format.binary64 a.toModel.unpack b.toModel.unpack) :=
    fun _ _ => rfl
  have hinfinity : (pack (.infinity .positive)).unpack = .infinity .positive := rfl
  cases hy with
  | zero s hzero hy => omega
  | finite k h hy =>
    rw [intSign, if_neg (by omega)] at hy
    have hxy := hadd x y
    have hyx := hadd y x
    cases hx with
    | infinity hx =>
      rw [hx, hy] at hxy hyx
      exact ⟨.infinity ((congrArg Float.Model.unpack hxy).trans hinfinity),
        .infinity ((congrArg Float.Model.unpack hyx).trans hinfinity)⟩
    | finite i e h' he hx =>
      rw [hx, hy] at hxy hyx
      exact ⟨.of_add h' h (.inl he) hxy, .of_add h h' (.inr he) hyx⟩

/-- A vast double is whole already. -/
theorem Vast.floor (h : Vast x) : Number.floor x = x := by
  refine if_pos ?_
  cases h with
  | infinity hx =>
    have hinfinite : isFinite x = false := by
      rw [isFinite_eq, hx]
      rfl
    rw [hinfinite]
    rfl
  | finite i e h he hx =>
    obtain ⟨hfinite, -, -, hexponent⟩ := magnitude_of_unpack hx
    obtain ⟨k, rfl⟩ := Int.eq_ofNat_of_zero_le he
    have hwhole : (magnitude x).isWhole = true := by
      rw [Binary.isWhole, hexponent]
    rw [isWhole, hfinite, hwhole]
    rfl

theorem Vast.roundHalfUp (h : Vast x) : Vast (roundHalfUp x) := by
  unfold Number.roundHalfUp
  split
  · have hhalf := (h.add exactly_half Int.one_pos).1
    rwa [hhalf.floor]
  · exact h

theorem Vast.isNaN (h : Vast x) : x.isNaN = false := by
  show x.toModel.unpack.isNaN = false
  cases h with
  | infinity hx => rw [hx]; rfl
  | finite i e h he hx => rw [hx]; rfl

/-- **Vast doubles** are above every whole number of moderate size. -/
theorem Vast.order (hx : Vast x) (hy : Exactly y n 0) (hn : n ≤ 2 ^ 52) :
    order? y x = some .lt ∨ order? y x = some .eq ∧ n = 2 ^ 52 := by
  unfold order?
  cases hy with
  | zero s hzero hy =>
    rw [hy]
    cases hx with
    | infinity hx => rw [hx]; exact .inl rfl
    | finite i e h he hx => rw [hx]; exact .inl rfl
  | finite k h hy =>
    rw [hy]
    cases hx with
    | infinity hx => rw [hx]; exact .inl (by cases intSign n <;> rfl)
    | finite i e h' he hx =>
      rw [hx, intSign]
      split
      · exact .inl rfl
      · have hlow := h.1
        cases k with
        | zero =>
          have heq : n = 2 ^ 52 := by omega
          have hzero : -((0 : Nat) : Int) - (0 : Nat) = 0 := rfl
          rw [UnpackedFloat.compare, hzero]
          rcases Int.lt_or_eq_of_le he with hlt | rfl
          · rw [Int.compare_eq_lt.mpr hlt]
            exact .inl rfl
          · have hle : n.natAbs * 2 ^ 0 ≤ i := by
              have := h'.1
              omega
            rw [Int.compare_eq_eq.mpr rfl]
            rcases Nat.lt_or_eq_of_le hle with hlt | hsame
            · exact .inl (congrArg some (Nat.compare_eq_lt.mpr hlt))
            · exact .inr ⟨congrArg some (Nat.compare_eq_eq.mpr hsame), heq⟩
        | succ k =>
          have hlt : compare (-((0 : Nat) : Int) - (k + 1 : Nat)) e = .lt := Int.compare_eq_lt.mpr (by omega)
          rw [UnpackedFloat.compare, hlt]
          exact .inl rfl

theorem Vast.lt (hx : Vast x) (hy : Exactly y n 0) (hn : n < 2 ^ 52) : y < x := by
  rcases hx.order hy (Int.le_of_lt hn) with h | ⟨-, h⟩
  · exact (lt_iff_order y x).mpr h
  · omega

theorem Vast.not_lt (hx : Vast x) (hy : Exactly y n 0) (hn : n ≤ 2 ^ 52) : ¬x < y := by
  rw [lt_iff_order, order?_swap y x]
  rcases hx.order hy hn with h | ⟨h, -⟩ <;> rw [h] <;> simp

end NodePath.Number
