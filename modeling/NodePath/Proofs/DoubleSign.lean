/-
# NodePath.Proofs.DoubleSign — doubles without their sign

The sign of a double is a bit of its own. Taking it away changes nothing else, and the magnitude of a product does not
depend on the signs of its factors.

* §A  Significands below the normal ones, and the greatest exponent.
* §B  The absolute value.
* §C  Products.
-/
import NodePath.Proofs.StoredNumber

namespace NodePath.Number

open Float.Model

variable {m : Nat} {s t : UnpackedFloat.Sign}

/-! ## §A  Subnormal significands -/

/-- A significand below the normal ones is stored as it is. -/
theorem unpack_pack_of_subnormal (hm : 0 < m) (hlt : m < 2 ^ 52) :
    (pack (.finite s m (-1074) hm)).unpack = .finite s m (-1074) hm := by
  have hlog : ¬m.log2 + 1 = 53 := by
    have := (Nat.log2_lt (Nat.ne_of_gt hm)).mpr hlt
    omega
  have hmantissa : (BitVec.ofNat 52 m).toNat = m := by
    rw [BitVec.toNat_ofNat]
    omega
  have hne : ¬BitVec.ofNat 52 m = 0#52 := by
    intro hc
    have htoNat := congrArg BitVec.toNat hc
    rw [hmantissa] at htoNat
    simp at htoNat
    omega
  have hones : ¬(0#11 : BitVec 11) = -1#11 := by decide
  show UnpackedFloat.unpack Format.binary64 (UnpackedFloat.pack Format.binary64 _) = _
  unfold UnpackedFloat.pack
  simp only [mantissaBits_binary64, hlog, if_false]
  rw [if_neg (by simp [Format.exponentBias])]
  unfold UnpackedFloat.unpack
  simp only [UnpackedFloat.unpackMantissa_packComponents, UnpackedFloat.unpackExponent_packComponents, hones, if_false,
    unpackSign_packComponents, if_true, hne, dif_neg, not_false_eq_true, hmantissa]
  cases s <;> simp [UnpackedFloat.Sign.toBitVec, UnpackedFloat.Sign.ofBitVec, Format.exponentBias]

/-- The exponent of a finite double is neither too low nor too high. -/
theorem exponent_bounds {x : Float} (h : isFinite x = true) :
    -1074 ≤ (magnitude x).exponent ∧ (magnitude x).exponent ≤ 971 := by
  have hlt : ((x.toBits >>> 52) &&& 0x7FF).toNat < 2 ^ 11 :=
    unpackExponent_toNat x.toBits ▸ (@UnpackedFloat.unpackExponent Format.binary64 x.toBits.toBitVec).isLt
  have hne : ((x.toBits >>> 52) &&& 0x7FF).toNat ≠ 2047 := by
    intro hc
    rw [isFinite, bne_iff_ne, ne_eq, ← UInt64.toNat_inj, hc] at h
    exact h rfl
  by_cases hzero : ((x.toBits >>> 52) &&& 0x7FF).toNat = 0
  · have hexponent : (magnitude x).exponent = -1074 := by rw [magnitude, Binary.ofBits, if_pos (by simpa using hzero)]
    omega
  · have hexponent : (magnitude x).exponent = (((x.toBits >>> 52) &&& 0x7FF).toNat : Int) - 1075 := by
      rw [magnitude, Binary.ofBits, if_neg (by simpa using hzero)]
    omega

/-! ## §B  Absolute values -/

/-- What is not finite is an infinity or no number. -/
theorem unpack_of_not_isFinite {x : Float} (h : isFinite x = false) :
    x.toModel.unpack = .notANumber ∨ ∃ s, x.toModel.unpack = .infinity s := by
  have hones : @UnpackedFloat.unpackExponent Format.binary64 x.toBits.toBitVec = -1#11 := by
    apply BitVec.eq_of_toNat_eq
    rw [unpackExponent_toNat]
    rw [isFinite, bne_eq_false_iff_eq] at h
    rw [h]
    rfl
  have hunpack : x.toModel.unpack = UnpackedFloat.unpack Format.binary64 x.toBits.toBitVec := rfl
  unfold UnpackedFloat.unpack at hunpack
  rw [if_pos hones] at hunpack
  split at hunpack
  · exact .inr ⟨_, hunpack⟩
  · exact .inl hunpack

/-- What is finite is told from what is unpacked as well as from the bits. -/
theorem isFinite_eq (x : Float) : isFinite x = x.toModel.unpack.isFinite := by
  cases h : isFinite x with
  | false => rcases unpack_of_not_isFinite h with hx | ⟨s, hx⟩ <;> rw [hx] <;> rfl
  | true => rcases unpack_of_isFinite h with ⟨-, s, hx⟩ | ⟨hm, hx, -⟩ <;> rw [hx] <;> rfl

/-- **The absolute value** is what is unpacked, without its sign. -/
theorem unpack_abs (x : Float) : x.abs.toModel.unpack = x.toModel.unpack.abs := by
  show (pack x.toModel.unpack.abs).unpack = _
  by_cases hfinite : isFinite x = true
  · rcases unpack_of_isFinite hfinite with ⟨-, s, hx⟩ | ⟨hm, hx, hshape⟩
    · have hzero : (pack (.zero .positive)).unpack = .zero .positive := rfl
      rw [hx]
      exact hzero
    · rw [hx, UnpackedFloat.abs]
      obtain ⟨hlow, hhigh⟩ := exponent_bounds hfinite
      rcases hshape with hnormal | ⟨hlt, hleast⟩
      · exact hnormal.unpack_pack hlow hhigh
      · generalize (magnitude x).exponent = e at hleast
        subst hleast
        exact unpack_pack_of_subnormal hm hlt
  · rcases unpack_of_not_isFinite (Bool.eq_false_iff.mpr hfinite) with hx | ⟨s, hx⟩
    · rw [hx]
      rfl
    · have hinfinity : (pack (.infinity .positive)).unpack = .infinity .positive := rfl
      rw [hx]
      exact hinfinity

/-! ## §C  Products -/

/-- Rounding does not look at the sign. -/
theorem abs_roundWithAccuracy (s t : UnpackedFloat.Sign) (m : Nat) (e : Int) (a : UnpackedFloat.Accuracy) :
    (UnpackedFloat.roundWithAccuracy Format.binary64 s m e a).abs =
      (UnpackedFloat.roundWithAccuracy Format.binary64 t m e a).abs := by
  unfold UnpackedFloat.roundWithAccuracy
  dsimp only
  split <;> rfl

/-- A product does not look at the sign of its first factor, but for its own sign. -/
theorem abs_mul_abs (a b : UnpackedFloat) :
    (UnpackedFloat.mul Format.binary64 a.abs b).abs = (UnpackedFloat.mul Format.binary64 a b).abs := by
  cases a with
  | finite s m e hm =>
    cases b with
    | finite t n e' hn => exact abs_roundWithAccuracy _ _ _ _ _
    | _ => rfl
  | _ => cases b <;> rfl

/-- What is packed without its sign has the same exponent and fraction. -/
theorem pack_components_of_abs {a b : UnpackedFloat} (h : a.abs = b.abs) :
    @UnpackedFloat.unpackExponent Format.binary64 (UnpackedFloat.pack Format.binary64 a) =
        UnpackedFloat.unpackExponent (UnpackedFloat.pack Format.binary64 b) ∧
      @UnpackedFloat.unpackMantissa Format.binary64 (UnpackedFloat.pack Format.binary64 a) =
        UnpackedFloat.unpackMantissa (UnpackedFloat.pack Format.binary64 b) := by
  cases a with
  | finite s m e hm =>
    cases b with
    | finite t n e' hn =>
      obtain ⟨-, rfl, rfl⟩ := UnpackedFloat.finite.inj h
      unfold UnpackedFloat.pack UnpackedFloat.packedInfinity
      dsimp only
      split
      · simp
      · split <;> simp
    | _ => cases h
  | infinity s =>
    cases b with
    | infinity t => simp [UnpackedFloat.pack, UnpackedFloat.packedInfinity]
    | _ => cases h
  | zero s =>
    cases b with
    | zero t => simp [UnpackedFloat.pack, UnpackedFloat.packedZero]
    | _ => cases h
  | notANumber =>
    cases b with
    | notANumber => exact ⟨rfl, rfl⟩
    | _ => cases h

/-- The magnitude of a double is read off its exponent and its fraction. -/
theorem magnitude_of_components {x y : Float}
    (hexponent : @UnpackedFloat.unpackExponent Format.binary64 x.toBits.toBitVec =
      @UnpackedFloat.unpackExponent Format.binary64 y.toBits.toBitVec)
    (hmantissa : @UnpackedFloat.unpackMantissa Format.binary64 x.toBits.toBitVec =
      @UnpackedFloat.unpackMantissa Format.binary64 y.toBits.toBitVec) :
    magnitude x = magnitude y ∧ isFinite x = isFinite y := by
  have he := congrArg BitVec.toNat hexponent
  have hm := congrArg BitVec.toNat hmantissa
  rw [unpackExponent_toNat, unpackExponent_toNat] at he
  rw [unpackMantissa_toNat, unpackMantissa_toNat] at hm
  constructor
  · simp only [magnitude, Binary.ofBits, he, hm]
  · rw [isFinite, isFinite, UInt64.toNat_inj.mp he]

/-- **The magnitude of a product** is the same when the first factor has no sign. -/
theorem magnitude_abs_mul (x y : Float) :
    magnitude (x.abs * y) = magnitude (x * y) ∧ isFinite (x.abs * y) = isFinite (x * y) := by
  have habs : (UnpackedFloat.mul Format.binary64 x.abs.toModel.unpack y.toModel.unpack).abs =
      (UnpackedFloat.mul Format.binary64 x.toModel.unpack y.toModel.unpack).abs := by
    rw [unpack_abs, abs_mul_abs]
  obtain ⟨hexponent, hmantissa⟩ := pack_components_of_abs habs
  exact magnitude_of_components hexponent hmantissa

end NodePath.Number
