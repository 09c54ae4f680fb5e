/-
# NodePath.Proofs.StoredNumber — numbers as parts of documents

A double that is stored in a document becomes an integer when it is a small whole number, and stays a double otherwise.
Reading it back gives an equal number. It need not be the same one: the negative zero is stored as 0.

* §A  What a finite double is.
* §B  Small whole numbers.
* §C  Storing and reading.
-/
import NodePath.Json.Basic
import NodePath.Proofs.Position

namespace NodePath

namespace Number

open Float.Model

variable {x y : Float} {i : Nat}

/-! ## §A  Finite doubles -/

/-- The sign of a double. -/
def signOf (x : Float) : UnpackedFloat.Sign := if isNegative x then .negative else .positive

/-- What a double without exponent bits is: zero, or a number below the normal ones. -/
theorem unpack_of_exponent_zero (h : ((x.toBits >>> 52) &&& 0x7FF).toNat = 0) :
    ((magnitude x).significand = 0 ∧ ∃ s, x.toModel.unpack = .zero s) ∨
      ∃ hm : 0 < (magnitude x).significand,
        x.toModel.unpack = .finite (signOf x) (magnitude x).significand (magnitude x).exponent hm ∧
          (magnitude x).significand < 2 ^ 52 ∧ (magnitude x).exponent = -1074 := by
  have hmantissa := unpackMantissa_toNat x.toBits
  have hzeros : @UnpackedFloat.unpackExponent Format.binary64 x.toBits.toBitVec = 0#11 :=
    BitVec.eq_of_toNat_eq ((unpackExponent_toNat x.toBits).trans h)
  have hones : (0#11 : BitVec 11) ≠ -1#11 := by decide
  have hsign : UnpackedFloat.Sign.ofBitVec (@UnpackedFloat.unpackSign Format.binary64 x.toBits.toBitVec) = signOf x :=
    unpackSign_eq x.toBits
  have hunpack : x.toModel.unpack = UnpackedFloat.unpack Format.binary64 x.toBits.toBitVec := rfl
  unfold UnpackedFloat.unpack at hunpack
  simp only [hsign, hzeros] at hunpack
  rw [if_neg hones, if_pos trivial] at hunpack
  have hmagnitude : magnitude x = ⟨(x.toBits &&& 0xFFFFFFFFFFFFF).toNat, -1074, false⟩ := by
    rw [magnitude, Binary.ofBits, if_pos (by simpa using h)]
  rw [hmagnitude]
  split at hunpack
  · rename_i hfraction
    refine .inl ⟨?_, _, hunpack⟩
    rw [← hmantissa, hfraction]
    rfl
  · rename_i hfraction
    have hpos : 0 < (x.toBits &&& 0xFFFFFFFFFFFFF).toNat := by
      rw [← hmantissa, Nat.pos_iff_ne_zero]
      exact fun hc => hfraction (BitVec.eq_of_toNat_eq hc)
    refine .inr ⟨hpos, ?_, hmantissa ▸ BitVec.isLt _, rfl⟩
    rw [hunpack]
    simp [hmantissa, Format.exponentBias]

/-- What a finite double with exponent bits is: its significand has one bit more than is stored. -/
theorem unpack_of_exponent_ne_zero (h : isFinite x = true) (hne : ((x.toBits >>> 52) &&& 0x7FF).toNat ≠ 0) :
    ∃ hm : 0 < (magnitude x).significand,
      x.toModel.unpack = .finite (signOf x) (magnitude x).significand (magnitude x).exponent hm ∧
        IsNormal (magnitude x).significand := by
  have hexponent := unpackExponent_toNat x.toBits
  have hmantissa := unpackMantissa_toNat x.toBits
  have hlt : (x.toBits &&& 0xFFFFFFFFFFFFF).toNat < 2 ^ 52 := hmantissa ▸ BitVec.isLt _
  have hsign : UnpackedFloat.Sign.ofBitVec (@UnpackedFloat.unpackSign Format.binary64 x.toBits.toBitVec) = signOf x :=
    unpackSign_eq x.toBits
  have hunpack : x.toModel.unpack = UnpackedFloat.unpack Format.binary64 x.toBits.toBitVec := rfl
  unfold UnpackedFloat.unpack at hunpack
  simp only [hsign] at hunpack
  have hones : @UnpackedFloat.unpackExponent Format.binary64 x.toBits.toBitVec ≠ -1#11 := by
    intro hones
    have htoNat := congrArg BitVec.toNat hones
    rw [hexponent] at htoNat
    rw [isFinite, bne_iff_ne, ne_eq, ← UInt64.toNat_inj] at h
    exact h htoNat
  have hzeros : @UnpackedFloat.unpackExponent Format.binary64 x.toBits.toBitVec ≠ 0#11 := by
    intro hzeros
    rw [← hexponent, hzeros] at hne
    exact hne rfl
  rw [if_neg hones, if_neg hzeros] at hunpack
  obtain ⟨narrow, hmagnitude⟩ : ∃ narrow, magnitude x = ⟨2 ^ 52 + (x.toBits &&& 0xFFFFFFFFFFFFF).toNat,
      (((x.toBits >>> 52) &&& 0x7FF).toNat : Int) - 1075, narrow⟩ := by
    rw [magnitude, Binary.ofBits, if_neg (by simpa using hne)]
    exact ⟨_, rfl⟩
  rw [hmagnitude]
  have hhigh : 2 ^ 52 + (x.toBits &&& 0xFFFFFFFFFFFFF).toNat < 2 ^ 53 := by omega
  refine ⟨by positivity, ?_, Nat.le_add_right _ _, hhigh⟩
  rw [hunpack]
  simp [append_toNat, hmantissa, hexponent, Format.exponentBias]

/-- **A finite double** is a zero, or its sign, its significand and its exponent; the significand is normal unless the
exponent is the least one that there is. -/
theorem unpack_of_isFinite (h : isFinite x = true) :
    ((magnitude x).significand = 0 ∧ ∃ s, x.toModel.unpack = .zero s) ∨
      ∃ hm : 0 < (magnitude x).significand,
        x.toModel.unpack = .finite (signOf x) (magnitude x).significand (magnitude x).exponent hm ∧
          (IsNormal (magnitude x).significand ∨
            (magnitude x).significand < 2 ^ 52 ∧ (magnitude x).exponent = -1074) := by
  by_cases hzero : ((x.toBits >>> 52) &&& 0x7FF).toNat = 0
  · exact (unpack_of_exponent_zero hzero).imp_right fun ⟨hm, hunpack, hsmall⟩ => ⟨hm, hunpack, .inr hsmall⟩
  · obtain ⟨hm, hunpack, hnormal⟩ := unpack_of_exponent_ne_zero h hzero
    exact .inr ⟨hm, hunpack, .inl hnormal⟩

/-- Doubles are compared by what they are unpacked to. -/
theorem beq_iff_compare (x y : Float) : (x == y) = (x.toModel.unpack.compare y.toModel.unpack == some .eq) := rfl

/-- Two zeros are equal. -/
theorem beq_of_zero {s t : UnpackedFloat.Sign} (hx : x.toModel.unpack = .zero s) (hy : y.toModel.unpack = .zero t) :
    (x == y) = true := by
  rw [beq_iff_compare, hx, hy]
  cases s <;> cases t <;> rfl

/-- Doubles that are unpacked to one thing are equal. -/
theorem beq_of_finite {s : UnpackedFloat.Sign} {m : Nat} {e : Int} {hm : 0 < m} (hx : x.toModel.unpack = .finite s m e hm)
    (hy : y.toModel.unpack = .finite s m e hm) : (x == y) = true := by
  rw [beq_iff_compare, hx, hy]
  cases s <;> simp [UnpackedFloat.compare]

/-- **A finite double** is equal to itself. -/
theorem beq_self_of_isFinite (h : isFinite x = true) : (x == x) = true := by
  rcases unpack_of_isFinite h with ⟨-, s, hx⟩ | ⟨hm, hx, -⟩
  · exact beq_of_zero hx hx
  · exact beq_of_finite hx hx

/-! ## §B  Whole numbers -/

/-- A whole number that is not zero has a normal significand, and not too low an exponent. -/
theorem isNormal_of_whole {b : Binary} (hpos : 1 ≤ b.whole) (hb : IsNormal b.significand ∨
    b.significand < 2 ^ 52 ∧ b.exponent = -1074) : IsNormal b.significand ∧ -52 ≤ b.exponent := by
  obtain ⟨m, e, narrow⟩ := b
  cases e with
  | ofNat a =>
    rcases hb with hb | ⟨-, he⟩
    · exact ⟨hb, by simp⟩
    · cases he
  | negSucc b =>
    have hdiv : 1 ≤ m / 2 ^ (b + 1) := hpos
    have hle : 2 ^ (b + 1) ≤ m := (Nat.one_le_div_iff (Nat.pow_pos Nat.zero_lt_two)).mp hdiv
    have hbound : m < 2 ^ 53 := by
      rcases hb with hb | ⟨hb, -⟩
      · exact hb.2
      · exact hb.trans (by decide)
    have hb' : b + 1 < 53 := (Nat.pow_lt_pow_iff_right (by decide)).mp (hle.trans_lt hbound)
    rcases hb with hb | ⟨-, he⟩
    · refine ⟨hb, ?_⟩
      show -52 ≤ Int.negSucc b
      omega
    · have he' : Int.negSucc b = -1074 := he
      omega

/-- A whole number of magnitude zero is a zero. -/
theorem significand_of_whole {b : Binary} (hwhole : b.isWhole = true) (hzero : b.whole = 0) : b.significand = 0 := by
  obtain ⟨m, e, narrow⟩ := b
  cases e with
  | ofNat a =>
    have hmul : m * 2 ^ a = 0 := hzero
    exact (Nat.mul_eq_zero.mp hmul).resolve_right (Nat.pow_pos Nat.zero_lt_two).ne'
  | negSucc b =>
    have hmod : m % 2 ^ (b + 1) = 0 := beq_iff_eq.mp hwhole
    have hdiv : m / 2 ^ (b + 1) = 0 := hzero
    have hsum := Nat.div_add_mod m (2 ^ (b + 1))
    rw [hdiv, hmod] at hsum
    exact hsum.symm

/-- **A small whole number** is a zero, or a sign and what its magnitude is made normal by. -/
theorem unpack_of_isWhole (hx : isWhole x = true) (hi : (magnitude x).whole ≤ exactBound) :
    ((magnitude x).whole = 0 ∧ ∃ s, x.toModel.unpack = .zero s) ∨
      ∃ k : Nat, k ≤ 52 ∧ ∃ h : IsNormal ((magnitude x).whole * 2 ^ k),
        x.toModel.unpack = .finite (signOf x) ((magnitude x).whole * 2 ^ k) (-(k : Int)) h.pos := by
  obtain ⟨hfinite, hwhole⟩ := (Bool.and_eq_true _ _).mp hx
  have hunpack := unpack_of_isFinite hfinite
  generalize magnitude x = b at hi hwhole hunpack ⊢
  obtain ⟨m, e, narrow⟩ := b
  rcases Nat.eq_zero_or_pos (Binary.whole ⟨m, e, narrow⟩) with hzero | hpos
  · rcases hunpack with ⟨-, hunpack⟩ | ⟨hm, -, -⟩
    · exact .inl ⟨hzero, hunpack⟩
    · exact absurd (significand_of_whole hwhole hzero) hm.ne'
  · obtain ⟨k, hk, hnormal⟩ := exists_isNormal hpos hi
    have hgreatest : exactBound ≤ greatestIndex := by decide
    rcases hunpack with ⟨hm, -⟩ | ⟨hm, hunpack, hshape⟩
    · have hnone : Binary.whole ⟨m, e, narrow⟩ = 0 := by
        rw [show m = 0 from hm, Binary.whole]
        split <;> simp
      omega
    · obtain ⟨hm', he⟩ := isNormal_of_whole hpos hshape
      obtain ⟨hexponent, hmantissa⟩ := (whole_iff narrow hi hk hnormal hm').mpr
        ⟨⟨hwhole, he⟩, Nat.min_eq_left (hi.trans hgreatest)⟩
      have hexponent' : e = -(k : Int) := hexponent
      have hmantissa' : m = Binary.whole ⟨m, e, narrow⟩ * 2 ^ k := hmantissa
      refine .inr ⟨k, hk, hnormal, ?_⟩
      rw [hunpack]
      congr

theorem truncate_of_isFinite (h : isFinite x = true) :
    truncate x = if isNegative x then -((magnitude x).whole : Int) else (magnitude x).whole := by
  rw [truncate, if_pos h]

theorem natAbs_truncate (h : isFinite x = true) : (truncate x).natAbs = (magnitude x).whole := by
  rw [truncate_of_isFinite h]
  split <;> omega

/-- **It is the double of its integer**, up to the sign of zero. -/
theorem ofInt_truncate (hx : isWhole x = true) (hsmall : (truncate x).natAbs ≤ exactBound) :
    (ofInt (truncate x) == x) = true := by
  have hfinite : isFinite x = true := ((Bool.and_eq_true _ _).mp hx).1
  have hi : (magnitude x).whole ≤ exactBound := natAbs_truncate hfinite ▸ hsmall
  have hunpack := unpack_of_isWhole hx hi
  rw [truncate_of_isFinite hfinite]
  generalize (magnitude x).whole = i at hi hunpack ⊢
  rcases hunpack with ⟨rfl, s, hunpack⟩ | ⟨k, hk, hnormal, hunpack⟩
  · have hnone : (ofInt 0).toModel.unpack = .zero .positive := rfl
    have hinteger : (if isNegative x then -((0 : Nat) : Int) else ((0 : Nat) : Int)) = 0 := by split <;> rfl
    rw [hinteger]
    exact beq_of_zero hnone hunpack
  · have hnat := unpack_ofNat hi hk hnormal
    have hnegative : (-ofNat i).toModel.unpack = .finite .negative (i * 2 ^ k) (-(k : Int)) hnormal.pos := by
      show (pack (ofNat i).toModel.unpack.neg).unpack = _
      rw [hnat]
      exact hnormal.unpack_pack (by omega) (by omega)
    unfold signOf at hunpack
    split at hunpack
    · rename_i hsign
      have hinteger : ofInt (-(i : Int)) = -ofNat i := by
        cases i with
        | zero => exact absurd hnormal.pos (by simp)
        | succ i => rfl
      rw [if_pos hsign, hinteger]
      exact beq_of_finite hnegative hunpack
    · rename_i hsign
      rw [if_neg hsign]
      exact beq_of_finite hnat hunpack

end Number

/-! ## §C  Storing -/

/-- **A finite double that is stored** is read as an equal one. -/
theorem Json.toFloat?_ofFloat {x : Float} (h : Number.isFinite x = true) :
    ∃ y, (Json.ofFloat x).toFloat? = some y ∧ (y == x) = true := by
  rw [Json.ofFloat, h]
  simp only [Bool.not_true, Bool.false_eq_true, if_false]
  split
  · rename_i hwhole
    obtain ⟨hwhole, hsmall⟩ := (Bool.and_eq_true _ _).mp hwhole
    have hbound : (Number.truncate x).natAbs < Nat.pow 2 53 := of_decide_eq_true hsmall
    exact ⟨_, rfl, Number.ofInt_truncate hwhole (Nat.le_sub_one_of_lt hbound)⟩
  · exact ⟨x, rfl, Number.beq_self_of_isFinite h⟩

/-- The negative zero is read as another number, which is equal to it. -/
example : (Json.ofFloat (-0.0)).toFloat?.map Float.toBits ≠ some (Float.toBits (-0.0)) := by decide +kernel

end NodePath
