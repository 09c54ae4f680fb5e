/-
# NodePath.Proofs.Window — the characters that a window selects

A window of a text is given by two doubles. They are rounded, added, compared with the size of the text, and turned into
indices. For whole numbers nothing of this goes wrong: every index is one of the text, and the characters are those at
the positions from the first number on, as many as the second one says.

* §A  Characters by their positions.
* §B  Indices and slices.
* §C  Windows.
-/
import NodePath.Proofs.ExactDouble
import NodePath.Text.Slice

namespace NodePath.Text

open Number

/-! ## §A  Positions -/

/-- The characters at the positions that are wanted, in order. Positions count from one. -/
def charactersAt (wanted : Int → Bool) (cs : List Char) : List Char :=
  ((cs.zipIdx 1).filter fun c => wanted c.2).map (·.1)

variable {cs : List Char} {x y : Float} {a b : Int}

/-- Positions in an interval are what is left of a text between its bounds, wherever counting starts. -/
theorem map_filter_zipIdx (a b : Int) (i : Nat) (cs : List Char) :
    ((cs.zipIdx i).filter fun c => a ≤ c.2 ∧ c.2 < b).map (·.1) = (cs.drop (a - i).toNat).take (b - max a i).toNat := by
  induction cs generalizing i with
  | nil => simp
  | cons c cs ih =>
    rw [List.zipIdx_cons, List.filter_cons]
    rcases Int.lt_or_le i a with hlt | hle
    · have hdrop : (a - i).toNat = (a - (i + 1 : Nat)).toNat + 1 := by omega
      have htake : (b - max a i).toNat = (b - max a (i + 1 : Nat)).toNat := by omega
      rw [if_neg (by simp; omega), ih, hdrop, htake, List.drop_succ_cons]
    · have hdrop : (a - i).toNat = 0 := by omega
      have hdrop' : (a - (i + 1 : Nat)).toNat = 0 := by omega
      rcases Int.lt_or_le i b with hlt | hge
      · have htake : (b - max a i).toNat = (b - max a (i + 1 : Nat)).toNat + 1 := by omega
        rw [if_pos (by simp; omega), List.map_cons, ih, hdrop, hdrop', htake, List.drop_zero, List.drop_zero,
          List.take_succ_cons]
      · have htake : (b - max a i).toNat = 0 := by omega
        have htake' : (b - max a (i + 1 : Nat)).toNat = 0 := by omega
        rw [if_neg (by simp; omega), ih, htake, htake', List.take_zero, List.take_zero]

theorem charactersAt_between (a b : Int) (cs : List Char) :
    charactersAt (fun p => a ≤ p ∧ p < b) cs = (cs.drop (a - 1).toNat).take (b - max a 1).toNat :=
  map_filter_zipIdx a b 1 cs

theorem charactersAt_from (a : Int) (cs : List Char) : charactersAt (fun p => a ≤ p) cs = cs.drop (a - 1).toNat := by
  have hwanted : charactersAt (fun p => a ≤ p) cs = charactersAt (fun p => a ≤ p ∧ p < cs.length + 1) cs := by
    unfold charactersAt
    congr 1
    refine List.filter_congr fun c hc => ?_
    have hlt : c.2 < 1 + cs.length := (List.mem_zipIdx hc).2.1
    have hlt' : (c.2 : Int) < cs.length + 1 := by omega
    simp [hlt']
  rw [hwanted, charactersAt_between, List.take_of_length_le]
  rw [List.length_drop]
  omega

/-! ## §B  Indices -/

/-- A position from one on has an index. -/
theorem index?_of_exactly (h : Exactly x a 0) (hpos : 1 ≤ a) (ha : a.natAbs ≤ exactBound) :
    index? x = some (a - 1).toNat := by
  obtain ⟨i, hi⟩ : ∃ i, a.toNat = i + 1 := ⟨a.toNat - 1, by omega⟩
  have hindex : i = (a - 1).toNat := by omega
  rw [index?, h.toIndex hpos ha, hi, hindex]

/-- No position before the first one is looked at. -/
theorem exactly_maximum (h : Exactly x a 0) : Exactly (maximum x 1) (max a 1) 0 := by
  have hlt := h.lt_iff exactly_one
  rw [maximum, h.isNaN]
  by_cases ha : a < 1
  · rw [if_pos (by simpa [hlt] using ha), max_eq_right (Int.le_of_lt ha)]
    exact exactly_one
  · rw [if_neg (by simpa [hlt] using ha), max_eq_left (Int.not_lt.mp ha)]
    exact h

theorem index?_maximum (h : Exactly x a 0) (ha : a.natAbs ≤ exactBound) :
    index? (maximum x 1) = some (a - 1).toNat := by
  have hone : 1 ≤ exactBound := by decide
  rw [index?_of_exactly (exactly_maximum h) (Int.le_max_right a 1) (by omega)]
  congr 1
  omega

theorem slice?_eq {i j : Nat} (hij : i ≤ j) (hj : j ≤ cs.length) : slice? i j cs = some ((cs.drop i).take (j - i)) :=
  if_pos ⟨hij, hj⟩

/-- The characters from a position on are never out of range. -/
theorem suffix?_eq (h : Exactly x a 0) (ha : a.natAbs ≤ exactBound) : suffix? x cs = some (cs.drop (a - 1).toNat) := by
  rw [suffix?, index?_maximum h ha]
  show slice? _ _ _ = _
  rw [slice?_eq (Nat.min_le_right _ _) (Nat.le_refl _), List.take_of_length_le (by rw [List.length_drop])]
  rcases Nat.le_total (a - 1).toNat cs.length with hle | hle
  · rw [Nat.min_eq_left hle]
  · rw [Nat.min_eq_right hle, List.drop_of_length_le hle, List.drop_length]

/-- The position behind a text, unless the text is too long for halves. -/
theorem exactly_behind (hlength : cs.length < 2 ^ 52) : Exactly (ofNat cs.length + 1) (cs.length + 1) 0 := by
  have hbound : exactBound = 2 ^ 53 - 1 := rfl
  exact (exactly_ofNat (by omega)).add exactly_one (Nat.zero_le _) (by omega)

/-- **The position behind a text** is compared as it should be, however long the text is. -/
theorem behind_lt_iff (cs : List Char) (h : Exactly x a 0) (ha : a ≤ 2 ^ 52) :
    ofNat cs.length + 1 < x ↔ (cs.length : Int) + 1 < a := by
  rcases Nat.lt_or_ge cs.length (2 ^ 52) with hlt | hge
  · exact (exactly_behind hlt).lt_iff h
  · have hbehind : Vast (ofNat cs.length + 1) := ((vast_ofNat hge).add exactly_one Int.one_pos).1
    exact iff_of_false (hbehind.not_lt h ha) (by omega)

/-! ## §C  Windows -/

/-- **From a position on** there is always a result. -/
theorem substring?_none (hx : Exactly x a 0) (ha : a.natAbs < 2 ^ 52) :
    substring? cs x none = some (cs.drop (a - 1).toNat) := by
  have hbound : exactBound = 2 ^ 53 - 1 := rfl
  have hfirst : Exactly (ofInt a) a 0 := exactly_ofInt (by omega)
  rw [substring?, hx.isNaN, hx.roundHalfUp ha]
  dsimp only
  rw [if_neg Bool.false_ne_true]
  split
  · rename_i hbehind
    have hlt := (behind_lt_iff cs hfirst (by omega)).mp hbehind
    rw [List.drop_of_length_le (by omega)]
  · exact suffix?_eq hfirst (by omega)

/-- **A window** of whole numbers has a result. -/
theorem substring?_some (hx : Exactly x a 0) (hy : Exactly y b 0) (ha : a.natAbs < 2 ^ 52) (hb : b.natAbs < 2 ^ 52)
    (hab : (a + b).natAbs ≤ 2 ^ 52) :
    substring? cs x (some y) = some ((cs.drop (a - 1).toNat).take (a + b - max a 1).toNat) := by
  have hbound : exactBound = 2 ^ 53 - 1 := rfl
  have hfirst : Exactly (ofInt a) a 0 := exactly_ofInt (by omega)
  have hlength : Exactly (ofInt b) b 0 := exactly_ofInt (by omega)
  have hstop : Exactly (ofInt a + ofInt b) (a + b) 0 := hfirst.add hlength (Nat.zero_le _) (by omega)
  have hbehind := behind_lt_iff cs hfirst (by omega)
  have hbehind' := behind_lt_iff cs hstop (by omega)
  rw [substring?, hx.isNaN, hx.roundHalfUp ha]
  dsimp only
  rw [hy.isNaN, hy.roundHalfUp hb, if_neg Bool.false_ne_true, if_neg Bool.false_ne_true]
  -- The four ways out before the last slice: behind the text, no length, before the text, beyond its end.
  by_cases hover : (cs.length : Int) + 1 < a
  · rw [if_pos (hbehind.mpr hover), List.drop_of_length_le (by omega), List.take_nil]
  rw [if_neg (fun h => hover (hbehind.mp h))]
  by_cases hnegative : b < 0
  · rw [if_pos ((hlength.lt_iff exactly_zero).mpr hnegative), show (a + b - max a 1).toNat = 0 by omega, List.take_zero]
  rw [if_neg (fun h => hnegative ((hlength.lt_iff exactly_zero).mp h))]
  by_cases hbefore : a + b < 1
  · rw [if_pos ((hstop.lt_iff exactly_one).mpr hbefore), show (a + b - max a 1).toNat = 0 by omega, List.take_zero]
  rw [if_neg (fun h => hbefore ((hstop.lt_iff exactly_one).mp h))]
  by_cases hend : (cs.length : Int) + 1 < a + b
  · rw [if_pos (hbehind'.mpr hend), suffix?_eq hfirst (by omega), List.take_of_length_le]
    rw [List.length_drop]
    omega
  · rw [if_neg (fun h => hend (hbehind'.mp h)), index?_maximum hfirst (by omega),
      index?_of_exactly hstop (by omega) (by omega)]
    show slice? _ _ _ = _
    rw [slice?_eq (Nat.le_max_right _ _) (by omega)]
    congr 2
    omega

/-- The first characters of a text, as many as one likes. -/
theorem substring?_front {k : Nat} (hk : k < 2 ^ 50 ∨ cs.length < 2 ^ 50) :
    substring? cs 1 (some (ofNat k)) = some (cs.take k) := by
  have hbound : exactBound = 2 ^ 53 - 1 := rfl
  by_cases hsmall : k + 1 ≤ 2 ^ 52
  · rw [substring?_some exactly_one (exactly_ofNat (i := k) (by omega)) (by decide) (by omega) (by omega)]
    congr 2
    omega
  · -- No text is so long; nor does the sum with such a number go back before its end.
    have hlength : Vast (roundHalfUp (ofNat k)) := (vast_ofNat (by omega)).roundHalfUp
    have hstop : Vast (ofInt 1 + roundHalfUp (ofNat k)) := (hlength.add exactly_one Int.one_pos).2
    have hbehind : Exactly (ofNat cs.length + 1) (cs.length + 1) 0 := exactly_behind (by omega)
    have hfirst : Exactly (ofInt 1) 1 0 := exactly_ofInt (by decide)
    have hover := behind_lt_iff cs hfirst (by decide)
    rw [substring?, exactly_one.isNaN, exactly_one.roundHalfUp (by decide)]
    dsimp only
    rw [(vast_ofNat (i := k) (by omega)).isNaN, if_neg Bool.false_ne_true, if_neg Bool.false_ne_true,
      if_neg (fun h => absurd (hover.mp h) (by omega)), if_neg (hlength.not_lt exactly_zero (by decide)),
      if_neg (hstop.not_lt exactly_one (by decide)), if_pos (hstop.lt hbehind (by omega)),
      suffix?_eq hfirst (by decide), List.take_of_length_le (by omega)]
    rfl

/-- What is left of a text behind its first characters. -/
theorem substring?_rest {k : Nat} (hk : k < 2 ^ 50 ∨ cs.length < 2 ^ 50) :
    substring? cs (ofNat (k + 1)) none = some (cs.drop k) := by
  have hbound : exactBound = 2 ^ 53 - 1 := rfl
  by_cases hsmall : k + 1 < 2 ^ 52
  · rw [substring?_none (exactly_ofNat (i := k + 1) (by omega)) (by omega)]
    congr 2
    omega
  · have hfirst : Vast (ofNat (k + 1)) := vast_ofNat (by omega)
    have hbehind : Exactly (ofNat cs.length + 1) (cs.length + 1) 0 := exactly_behind (by omega)
    rw [substring?, hfirst.isNaN, if_neg Bool.false_ne_true]
    dsimp only
    rw [if_pos (hfirst.roundHalfUp.lt hbehind (by omega)), List.drop_of_length_le (by omega)]

/-- **A window selects the characters at its positions**, in order: for all whole numbers of moderate size there is a
result, so no index is below the first one and no slice is out of range. So a text is what is before a place and what
is behind it. -/
theorem substring_window (cs : List Char) :
    (∀ x y : Float, isWhole x = true → (truncate x).natAbs < 2 ^ 50 → isWhole y = true → (truncate y).natAbs < 2 ^ 50 →
      substring? cs x (some y) = some (charactersAt (fun p => truncate x ≤ p ∧ p < truncate x + truncate y) cs) ∧
      substring? cs x none = some (charactersAt (fun p => truncate x ≤ p) cs)) ∧
    ∀ k : Nat, k < 2 ^ 50 ∨ cs.length < 2 ^ 50 → ∃ front rest, substring? cs 1 (some (ofNat k)) = some front ∧
      substring? cs (ofNat (k + 1)) none = some rest ∧ front ++ rest = cs := by
  have hbound : exactBound = 2 ^ 53 - 1 := rfl
  refine ⟨fun x y hx ha hy hb => ⟨?_, ?_⟩, fun k hk => ?_⟩
  · rw [charactersAt_between]
    exact substring?_some (.of_isWhole hx (by omega)) (.of_isWhole hy (by omega)) (by omega) (by omega) (by omega)
  · rw [charactersAt_from]
    exact substring?_none (.of_isWhole hx (by omega)) (by omega)
  · exact ⟨cs.take k, cs.drop k, substring?_front hk, substring?_rest hk, List.take_append_drop k cs⟩

/-- A window that begins before a text, and a text in two parts. -/
theorem substring_window_straddling :
    substring? "12345".toList (-1) (some 4) = some ['1', '2'] ∧ substring? "12345".toList (-1) none = some "12345".toList ∧
      ∃ front rest, substring? "12345".toList 1 (some (ofNat 2)) = some front ∧
        substring? "12345".toList (ofNat 3) none = some rest ∧ front ++ rest = "12345".toList := by
  obtain ⟨hwindow, hparts⟩ := substring_window "12345".toList
  obtain ⟨hbetween, hfrom⟩ := hwindow (-1) 4 (by decide +kernel) (by decide +kernel) (by decide +kernel) (by decide +kernel)
  exact ⟨hbetween.trans (by decide +kernel), hfrom.trans (by decide +kernel), hparts 2 (.inl (by decide))⟩

end NodePath.Text
