/-
# NodePath.Proofs.NumeralReading — numbers are read back from their numerals

A numeral has the digits of a decimal that is read back as the number. Which decimal that is, is a matter of a search;
but whatever the search finds lies among the numbers that the double covers, and if it finds nothing, the value of the
double itself is taken. Written without an exponent, a decimal is read as it is.

* §A  The test of the search.
* §B  What is found.
* §C  Digits as text.
* §D  Signs.
* §E  Numerals.
-/
import NodePath.Proofs.DecimalReading
import NodePath.Proofs.Formatting
import NodePath.Proofs.Grammar

namespace NodePath

namespace Number

variable {b : Binary} {d : Decimal} {tie : Tie}

/-! ## §A  The test -/

/-- The value of a decimal. -/
def Decimal.value (d : Decimal) : ℚ := d.digits * 10 ^ d.exponent

theorem zpow_mul_pow_toNat {x : ℚ} (hx : x ≠ 0) (i : Int) : x ^ i * x ^ (-i).toNat = x ^ i.toNat := by
  rw [← zpow_natCast, ← zpow_natCast, ← zpow_add₀ hx]
  congr 1
  omega

/-- **Scaled naturals are compared exactly.** -/
theorem compareScaled_spec (a n : Nat) (i j : Int) :
    (compareScaled a i n j = .lt ↔ (a * 10 ^ i : ℚ) < n * 2 ^ j) ∧
      (compareScaled a i n j = .gt ↔ (n * 2 ^ j : ℚ) < a * 10 ^ i) ∧
      (compareScaled a i n j = .eq ↔ (a * 10 ^ i : ℚ) = n * 2 ^ j) := by
  obtain ⟨s, hs⟩ : ∃ s : ℚ, s = 10 ^ (-i).toNat * 2 ^ (-j).toNat := ⟨_, rfl⟩
  have hpos : 0 < s := by rw [hs]; positivity
  have hleft : ((a * Nat.pow 10 i.toNat * Nat.pow 2 (-j).toNat : Nat) : ℚ) = a * 10 ^ i * s := by
    rw [hs]
    simp only [Nat.pow_eq]
    push_cast
    rw [← zpow_mul_pow_toNat (x := 10) (by norm_num) i]
    ring
  have hright : ((n * Nat.pow 2 j.toNat * Nat.pow 10 (-i).toNat : Nat) : ℚ) = n * 2 ^ j * s := by
    rw [hs]
    simp only [Nat.pow_eq]
    push_cast
    rw [← zpow_mul_pow_toNat (x := 2) (by norm_num) j]
    ring
  unfold compareScaled
  refine ⟨?_, ?_, ?_⟩
  · rw [Nat.compare_eq_lt, ← Nat.cast_lt (α := ℚ), hleft, hright, mul_lt_mul_iff_left₀ hpos]
  · rw [Nat.compare_eq_gt, ← Nat.cast_lt (α := ℚ), hleft, hright, mul_lt_mul_iff_left₀ hpos]
  · rw [Nat.compare_eq_eq, ← Nat.cast_inj (R := ℚ), hleft, hright, mul_left_inj' hpos.ne']

/-- **The test tells what is covered.** -/
theorem covers_of_readsBack (h : b.readsBack d = true) : b.Covers d.value := by
  obtain ⟨-, hgt, heq⟩ := compareScaled_spec d.digits b.low d.exponent (b.exponent - 2)
  obtain ⟨hlt', -, heq'⟩ := compareScaled_spec d.digits (4 * b.significand + 2) d.exponent (b.exponent - 2)
  unfold Binary.readsBack at h
  simp only [Bool.and_eq_true, Bool.or_eq_true, beq_iff_eq] at h
  obtain ⟨habove, hbelow⟩ := h
  push_cast at hlt' heq'
  exact ⟨habove.imp hgt.mp fun h => ⟨h.1, (heq.mp h.2).symm⟩, hbelow.imp hlt'.mp fun h => ⟨h.1, heq'.mp h.2⟩⟩

/-! ## §B  What is found -/

/-- A candidate has passed the test. -/
theorem of_candidate {grid : Int} (h : b.candidate tie grid = some d) : b.readsBack d = true ∧ d.exponent = grid := by
  unfold Binary.candidate at h
  dsimp only at h
  split at h
  · cases h
  · obtain rfl := Option.some.inj h
    exact ⟨‹_›, rfl⟩
  · obtain rfl := Option.some.inj h
    exact ⟨‹_›, rfl⟩
  · -- Both neighbours pass; whichever is taken, it is one of the two.
    rename_i hdown hup
    split at h
    · obtain rfl := Option.some.inj h
      exact ⟨hdown, rfl⟩
    · obtain rfl := Option.some.inj h
      exact ⟨hup, rfl⟩
    · obtain rfl := Option.some.inj h
      exact ⟨hup, rfl⟩
    · obtain rfl := Option.some.inj h
      split
      · exact ⟨hdown, rfl⟩
      · exact ⟨hup, rfl⟩

/-- What the search finds has passed the test on one of its grids. -/
theorem of_search {scale : Int} : ∀ (fuel places : Nat), b.search tie scale fuel places = some d →
    b.readsBack d = true ∧ scale - (places + fuel : Nat) ≤ d.exponent
  | 0, _, h => nomatch h
  | fuel + 1, places, h => by
    rw [Binary.search] at h
    split at h
    · rename_i hfound
      obtain rfl := Option.some.inj h
      obtain ⟨hreads, hexponent⟩ := of_candidate hfound
      exact ⟨hreads, by omega⟩
    · obtain ⟨hreads, hexponent⟩ := of_search fuel (places + 1) h
      exact ⟨hreads, by omega⟩

/-- The scale is not below its estimate. -/
theorem le_scaleFrom (b : Binary) : ∀ (fuel : Nat) (k : Int), k ≤ b.scaleFrom fuel k
  | 0, _ => Int.le_refl _
  | fuel + 1, k => by
    rw [Binary.scaleFrom]
    split
    · exact Int.le_refl k
    · exact Int.le_trans (by omega) (le_scaleFrom b fuel (k + 1))

/-- **A magnitude covers its own value.** -/
theorem Binary.covers_value (hpos : 0 < b.significand) : b.Covers b.value := by
  have hunit : (2 : ℚ) ^ b.exponent = 4 * 2 ^ (b.exponent - 2) := by
    rw [zpow_sub₀ two_ne_zero]
    norm_num
    ring
  have hunit_pos : (0 : ℚ) < 2 ^ (b.exponent - 2) := zpow_pos two_pos _
  have hlow : (b.low : ℚ) < 4 * b.significand := by
    have hlt : b.low < 4 * b.significand := by
      unfold low
      split <;> omega
    exact_mod_cast hlt
  refine ⟨.inl ?_, .inl ?_⟩
  · rw [value, hunit, ← mul_assoc, mul_comm (b.significand : ℚ) 4]
    exact mul_lt_mul_of_pos_right hlow hunit_pos
  · rw [value, hunit, ← mul_assoc, mul_comm (b.significand : ℚ) 4]
    exact mul_lt_mul_of_pos_right (by linarith) hunit_pos

/-- The exact decimal has the value of the magnitude. -/
theorem value_exact (b : Binary) : b.exact.value = b.value := by
  obtain ⟨m, e, narrow⟩ := b
  cases e with
  | ofNat e =>
    show ((m * 2 ^ e : Nat) : ℚ) * 10 ^ (0 : Int) = m * 2 ^ (e : Int)
    rw [zpow_zero, mul_one, zpow_natCast]
    push_cast
    rfl
  | negSucc e =>
    show ((m * 5 ^ (e + 1) : Nat) : ℚ) * 10 ^ Int.negSucc e = m * 2 ^ Int.negSucc e
    rw [zpow_negSucc, zpow_negSucc]
    have hten : (10 : ℚ) ^ (e + 1) = 2 ^ (e + 1) * 5 ^ (e + 1) := by rw [← mul_pow]; norm_num
    push_cast
    rw [hten]
    field_simp

/-- Zeros that are moved into the exponent do not change the value. -/
theorem value_strip : ∀ (fuel : Nat) (d : Decimal),
    (Decimal.strip fuel d).value = d.value ∧ d.exponent ≤ (Decimal.strip fuel d).exponent
  | 0, _ => ⟨rfl, Int.le_refl _⟩
  | fuel + 1, d => by
    rw [Decimal.strip]
    split
    · rename_i hzero
      obtain ⟨hvalue, hexponent⟩ := value_strip fuel ⟨d.digits / 10, d.exponent + 1⟩
      have hdigits : d.digits = d.digits / 10 * 10 := by
        simp only [Bool.and_eq_true, beq_iff_eq] at hzero
        omega
      refine ⟨?_, Int.le_trans (by show d.exponent ≤ d.exponent + 1; omega) hexponent⟩
      rw [hvalue, Decimal.value, Decimal.value, zpow_add_one₀ (by norm_num), ← mul_assoc]
      conv_rhs => rw [hdigits]
      push_cast
      ring
    · exact ⟨rfl, Int.le_refl _⟩

/-- **The shortest decimal is covered,** whether the search has found it or not. -/
theorem shortest_covers (tie : Tie) (hpos : 0 < b.significand) (hleast : -1074 ≤ b.exponent) :
    b.Covers (b.shortest tie).value ∧ -1074 ≤ (b.shortest tie).exponent := by
  have hscale : -326 ≤ b.scale := by
    have hle := le_scaleFrom b 8 (((Nat.log2 b.significand : Int) + b.exponent) * 30103 / 100000 - 1)
    unfold Binary.scale
    omega
  have hsearched : b.Covers ((b.search tie b.scale 17 1).getD b.exact).value ∧
      -1074 ≤ ((b.search tie b.scale 17 1).getD b.exact).exponent := by
    cases hfound : b.search tie b.scale 17 1 with
    | none =>
      refine ⟨value_exact b ▸ Binary.covers_value hpos, ?_⟩
      show -1074 ≤ b.exact.exponent
      unfold Binary.exact
      split
      · exact (by decide : (-1074 : Int) ≤ 0)
      · rename_i e he
        exact he ▸ hleast
    | some d =>
      obtain ⟨hreads, hexponent⟩ := of_search 17 1 hfound
      exact ⟨covers_of_readsBack hreads, by show -1074 ≤ d.exponent; omega⟩
  obtain ⟨hvalue, hexponent⟩ := value_strip 400 ((b.search tie b.scale 17 1).getD b.exact)
  rw [Binary.shortest, if_neg (by simpa using hpos.ne')]
  refine ⟨?_, by omega⟩
  rw [hvalue]
  exact hsearched.1

/-! ## §C  Digits as text -/

/-- **A decimal without an exponent** is written as digits, and read as a decimal of the same value. -/
theorem renderPositional_plain (d : Decimal) (hleast : -1074 ≤ d.exponent) : ∃ a e,
    IsDigitLiteral (plain.renderPositional d).toList ∧
      readNumeral? (plain.renderPositional d).toList = some ⟨false, a, e⟩ ∧ (a * 10 ^ e : ℚ) = d.value ∧ -1074 ≤ e := by
  obtain ⟨n, e⟩ := d
  cases e with
  | ofNat e =>
    obtain ⟨k, hk⟩ : ∃ k, k = if n == 0 then 0 else e := ⟨_, rfl⟩
    have htext : (plain.renderPositional ⟨n, .ofNat e⟩).toList = digitsOf n ++ zeros k := by
      rw [hk]
      simp [Layout.renderPositional, plain]
    have hdigits : ∀ c ∈ digitsOf n ++ zeros k, c.isDigit = true := fun c hc =>
      (List.mem_append.mp hc).elim isDigit_of_mem_toDigits isDigit_of_mem_zeros
    have hne : digitsOf n ++ zeros k ≠ [] := fun h => Nat.toDigits_ne_nil (List.append_eq_nil_iff.mp h).1
    rw [htext]
    refine ⟨_, _, .whole hne hdigits, readNumeral?_digits hne hdigits, ?_, by decide⟩
    rw [natOfDigits_append_zeros, digitsOf, natOfDigits_toDigits, zpow_zero, mul_one, Decimal.value]
    show ((n * 10 ^ k : Nat) : ℚ) = n * 10 ^ (e : Int)
    by_cases hzero : n = 0
    · simp [hzero]
    · rw [hk, if_neg (by simpa using hzero), zpow_natCast]
      push_cast
      rfl
  | negSucc e =>
    obtain ⟨hvalue, hplaces, hdigits⟩ := withPlaces_spec n (e + 1)
    have htext : (plain.renderPositional ⟨n, .negSucc e⟩).toList =
        (withPlaces n (e + 1)).1 ++ '.' :: (withPlaces n (e + 1)).2 := by
      simp [Layout.renderPositional]
    have hne : (withPlaces n (e + 1)).1 ++ (withPlaces n (e + 1)).2 ≠ [] := fun h => by
      rw [(List.append_eq_nil_iff.mp h).2] at hplaces
      cases hplaces
    have hexponent : -((e + 1 : Nat) : Int) = Int.negSucc e := rfl
    rw [htext]
    refine ⟨_, _, .point hne hdigits, readNumeral?_point hne hdigits, ?_, ?_⟩
    · rw [hvalue, hplaces, hexponent, Decimal.value]
    · rw [hplaces, hexponent]
      exact hleast

/-! ## §D  Signs -/

open Float.Model

/-- Whether what is unpacked has no minus sign. -/
def IsPositive : UnpackedFloat → Prop
  | .notANumber => True
  | .infinity s => s = .positive
  | .zero s => s = .positive
  | .finite s _ _ _ => s = .positive

theorem isPositive_round (m : Nat) (e : Int) (a : UnpackedFloat.Accuracy) :
    IsPositive (UnpackedFloat.roundWithAccuracy Format.binary64 .positive m e a) := by
  unfold UnpackedFloat.roundWithAccuracy
  dsimp only
  split <;> rfl

theorem isNegative_of_isPositive {x : Float} {u : UnpackedFloat} (hu : IsPositive u) (hx : x.toModel = pack u) :
    isNegative x = false := by
  have hsign : @UnpackedFloat.unpackSign Format.binary64 (UnpackedFloat.pack Format.binary64 u) = 0#1 := by
    unfold UnpackedFloat.pack
    cases u with
    | notANumber => exact unpackSign_packComponents
    | infinity s => obtain rfl : s = .positive := hu; exact unpackSign_packComponents
    | zero s => obtain rfl : s = .positive := hu; exact unpackSign_packComponents
    | finite s m e hm =>
      obtain rfl : s = .positive := hu
      dsimp only
      split
      · exact unpackSign_packComponents
      · split <;> exact unpackSign_packComponents
  have hbits : x.toBits.toBitVec = UnpackedFloat.pack Format.binary64 u := congrArg (fun m => m.toBits.toBitVec) hx
  have hread := unpackSign_eq x.toBits
  rw [hbits, hsign] at hread
  unfold isNegative
  by_contra hneg
  rw [if_pos (by simpa using hneg)] at hread
  cases hread

/-- What is read of a decimal has no minus sign. -/
theorem isNegative_ofScientific {a : Nat} (ha : 0 < a) (s : Bool) (i : Nat) :
    isNegative (Float.ofScientific a s i) = false := by
  by_cases hshort : a < 2 ^ 53 ∧ i ≤ 22
  · obtain ⟨k, -, hk, hnumber⟩ := unpack_toUInt64 ha hshort.1
    have hknown : i < Float.exactlyRepresentablePowersOfTen.size := Nat.lt_succ_of_le hshort.2
    obtain ⟨m, e, hm, -, -, hpower, -⟩ := unpack_powerOfTen hknown
    rw [Float.ofScientific, dif_pos hshort]
    cases s with
    | false =>
      refine isNegative_of_isPositive (isPositive_round (a * 2 ^ k * m) (-(k : Int) + e) .exact) ?_
      show pack (UnpackedFloat.mul Format.binary64 a.toUInt64.toFloat.toModel.unpack _) = _
      rw [hnumber, hpower]
      rfl
    | true =>
      refine isNegative_of_isPositive (u := UnpackedFloat.div Format.binary64
        (.finite .positive (a * 2 ^ k) (-(k : Int)) hk.pos) (.finite .positive m e hm.pos)) (isPositive_round _ _ _) ?_
      show pack (UnpackedFloat.div Format.binary64 a.toUInt64.toFloat.toModel.unpack _) = _
      rw [hnumber, hpower]
  · have hpositive : ∀ e, IsPositive (UnpackedFloat.ofScientific Format.binary64 a e) := fun e => by
      unfold UnpackedFloat.ofScientific
      rw [dif_neg ha.ne']
      split
      · rfl
      · split
        · rfl
        · split <;> exact isPositive_round _ _ _
    rw [Float.ofScientific, dif_neg hshort]
    exact isNegative_of_isPositive (hpositive _) rfl

/-- **A number that digits denote** has no minus sign. -/
theorem Numeral.isNegative_toFloat (a : Nat) (e : Int) : isNegative (Numeral.mk false a e).toFloat = false := by
  have hzero : isNegative 0 = false := rfl
  have hinfinity : isNegative (1 / 0) = false := rfl
  unfold Numeral.toFloat
  simp only [Bool.false_eq_true, if_false]
  split
  · exact hzero
  · rename_i hne
    have ha : 0 < a := Nat.pos_of_ne_zero (by simpa using hne)
    split
    · exact hinfinity
    · split
      · exact hzero
      · split <;> exact isNegative_ofScientific ha _ _

end Number

open Number

/-- A digit literal is made of digits and points. -/
theorem IsDigitLiteral.digit_or_point {cs : List Char} (h : IsDigitLiteral cs) :
    ∀ c ∈ cs, c.isDigit = true ∨ c = '.' := by
  intro c hc
  cases h with
  | whole _ hds => exact .inl (hds c hc)
  | point _ hds =>
    rcases List.mem_append.mp hc with hd | hd
    · exact .inl (hds c (List.mem_append_left _ hd))
    · exact (List.mem_cons.mp hd).symm.imp_left fun hd => hds c (List.mem_append_right _ hd)

/-- **What a digit literal denotes** has no minus sign. -/
theorem DigitValue.isNegative {x : Float} (h : DigitValue x) : Number.isNegative x = false := by
  obtain ⟨cs, hcs, rfl⟩ := h
  have hchars := hcs.digit_or_point
  cases hcs with
  | whole hne hds =>
    rw [numberOfText_of_readNumeral? hchars (readNumeral?_digits hne hds)]
    exact Numeral.isNegative_toFloat _ _
  | point hne hds =>
    rw [numberOfText_of_readNumeral? hchars (readNumeral?_point hne hds)]
    exact Numeral.isNegative_toFloat _ _

/-! ## §E  Numerals -/

namespace Number

variable {x : Float} {b : Binary}

/-- The value of a magnitude without a fraction is its whole part. -/
theorem Binary.value_of_isWhole (h : b.isWhole = true) : b.value = b.whole := by
  obtain ⟨m, e, narrow⟩ := b
  cases e with
  | ofNat e =>
    show (m * 2 ^ (e : Int) : ℚ) = ((m * 2 ^ e : Nat) : ℚ)
    rw [zpow_natCast]
    push_cast
    rfl
  | negSucc e =>
    have hmod : m % 2 ^ (e + 1) = 0 := beq_iff_eq.mp h
    have hdvd : (2 ^ (e + 1) ∣ m) := Nat.dvd_of_mod_eq_zero hmod
    show (m * 2 ^ Int.negSucc e : ℚ) = ((m / 2 ^ (e + 1) : Nat) : ℚ)
    rw [Nat.cast_div hdvd (by positivity), zpow_negSucc, div_eq_mul_inv]
    push_cast
    rfl

/-- A magnitude without a significand has no fraction and no whole part. -/
theorem Binary.whole_of_significand (h : b.significand = 0) : b.isWhole = true ∧ b.whole = 0 := by
  obtain ⟨m, e, narrow⟩ := b
  obtain rfl : m = 0 := h
  cases e with
  | ofNat e => exact ⟨rfl, Nat.zero_mul _⟩
  | negSucc e => exact ⟨beq_iff_eq.mpr (Nat.zero_mod _), Nat.zero_div _⟩

/-- A magnitude without a significand is that of zero. -/
theorem eq_zero_of_significand (hsign : isNegative x = false) (hzero : (magnitude x).significand = 0) : x = 0 := by
  have hexponent : (magnitude x).exponent = -1074 := by
    unfold magnitude Binary.ofBits at hzero ⊢
    dsimp only at hzero ⊢
    split
    · rfl
    · rename_i hne
      rw [if_neg hne] at hzero
      simp at hzero
  exact eq_of_magnitude hsign hzero hexponent

/-- **A numeral is read as the double that covers it,** a zero among them. -/
theorem toFloat_eq_of_value {a : Nat} {e : Int} (hfinite : isFinite x = true) (hsign : isNegative x = false)
    (he : -1074 ≤ e) (h : 0 < (magnitude x).significand → (magnitude x).Covers (a * 10 ^ e))
    (hzero : (magnitude x).significand = 0 → a = 0) : (Numeral.mk false a e).toFloat = x := by
  rcases Nat.eq_zero_or_pos (magnitude x).significand with hnone | hpos
  · rw [hzero hnone, eq_zero_of_significand hsign hnone]
    rfl
  · have hb := canonical_magnitude hfinite hpos
    have ha : 0 < a := by
      refine Nat.pos_of_ne_zero fun hc => ?_
      have hlow := ((h hpos).range hb).1
      rw [hc, Nat.cast_zero, zero_mul] at hlow
      exact absurd hlow (not_le.mpr (zpow_pos two_pos _))
    exact Numeral.toFloat_of_covers hb hsign ha he (h hpos)

end Number

/-- **A number is read back from its numeral,** which is made of digits with at most one point. -/
theorem numeral_readsBack {x : Float} (hfinite : isFinite x = true) (hsign : Number.isNegative x = false) :
    IsDigitLiteral (numeral x).toList ∧ numberOfText (numeral x) = x := by
  have hnan : x.isNaN = false := by
    have hmodel := isFinite_eq x
    rw [hfinite] at hmodel
    show x.toModel.unpack.isNaN = false
    generalize x.toModel.unpack = u at hmodel ⊢
    cases u <;> first | rfl | cases hmodel
  have htruncate : truncate x = (magnitude x).whole := by rw [truncate_of_isFinite hfinite, hsign]; rfl
  have hrender : plain.render x = plain.renderPositional ((magnitude x).shortest .away) := by
    unfold Layout.render
    rw [hnan, hfinite, hsign]
    simp [plain]
  unfold numeral
  simp only [hnan, hfinite, hsign, Bool.not_true, Bool.false_eq_true, if_false]
  split
  · -- A whole number below the bound is written in full.
    rename_i hsmall
    simp only [isWhole, Bool.and_eq_true] at hsmall
    have hwhole := hsmall.1.1.2
    have htext : toString (truncate x) = toString (magnitude x).whole := by rw [htruncate]; rfl
    rw [htext]
    refine ⟨isDigitLiteral_repr _, ?_⟩
    rw [numberOfText_toString]
    refine toFloat_eq_of_value hfinite hsign (by decide) (fun hpos => ?_) fun hzero =>
      (Binary.whole_of_significand hzero).2
    rw [zpow_zero, mul_one, ← Binary.value_of_isWhole hwhole]
    exact Binary.covers_value hpos
  · -- Of any other number the digits are those of the shortest decimal; it is not zero, which is whole.
    rename_i hlarge
    have hpos : 0 < (magnitude x).significand := by
      refine Nat.pos_of_ne_zero fun hzero => hlarge ?_
      obtain ⟨hwhole, hnone⟩ := Binary.whole_of_significand hzero
      simp [isWhole, hfinite, hwhole, htruncate, hnone]
    obtain ⟨hcovers, hleast⟩ := shortest_covers .away hpos (exponent_bounds hfinite).1
    obtain ⟨a, e, hliteral, hread, hvalue, he⟩ := renderPositional_plain _ hleast
    rw [hrender]
    refine ⟨hliteral, ?_⟩
    rw [← String.ofList_toList (s := plain.renderPositional _), numberOfText_of_readNumeral? hliteral.digit_or_point hread]
    exact toFloat_eq_of_value hfinite hsign he (fun _ => hvalue ▸ hcovers) fun hzero => absurd hzero hpos.ne'

end NodePath
