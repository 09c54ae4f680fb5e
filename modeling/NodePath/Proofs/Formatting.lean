/-
# NodePath.Proofs.Formatting — numbers by a pattern are numerals of the right value

A pattern says how many digits a number has at least and at most, and how they are grouped. What is written is one
numeral with this shape, and it denotes the number as it is rounded to the most places that the pattern allows: zeros
are only left out, and put in, where they change nothing.

* §A  What digits denote.
* §B  The nearest natural.
* §C  Digits that are left out and put in.
* §D  Groups.
* §E  Digits of other scripts.
* §F  `WellFormed`, the shape that a pattern asks for.
* §G  `formatNumber`.
-/
import NodePath.Proofs.CorrectRounding
import NodePath.Proofs.PatternReading
import NodePath.Proofs.PlaceText

namespace NodePath

/-! ## §A  What digits denote -/

namespace Number

variable {ds es : List Char} {n places : Nat}

theorem foldl_digitValue (ds : List Char) (a : Nat) :
    ds.foldl (fun n c => 10 * n + digitValue c) a = a * 10 ^ ds.length + natOfDigits ds := by
  induction ds generalizing a with
  | nil => simp [natOfDigits]
  | cons d ds ih =>
    rw [natOfDigits, List.foldl_cons, List.foldl_cons, ih, ih (10 * 0 + digitValue d), List.length_cons, pow_succ]
    ring

/-- Digits behind others count for less by a power of ten. -/
theorem natOfDigits_append (ds es : List Char) :
    natOfDigits (ds ++ es) = natOfDigits ds * 10 ^ es.length + natOfDigits es := by
  rw [natOfDigits, List.foldl_append, foldl_digitValue]
  rfl

theorem natOfDigits_zeros (n : Nat) : natOfDigits (zeros n) = 0 := by
  induction n with
  | zero => rfl
  | succ n ih => exact ih

/-- Zeros in front of digits count for nothing. -/
theorem natOfDigits_zeros_append (n : Nat) (ds : List Char) : natOfDigits (zeros n ++ ds) = natOfDigits ds := by
  rw [natOfDigits_append, natOfDigits_zeros, Nat.zero_mul, Nat.zero_add]

theorem natOfDigits_append_zeros (ds : List Char) (n : Nat) : natOfDigits (ds ++ zeros n) = natOfDigits ds * 10 ^ n := by
  rw [natOfDigits_append, natOfDigits_zeros, Nat.add_zero, zeros, List.length_replicate]

/-- What is taken off the front as zeros is zeros. -/
theorem zeros_append_dropWhile (ds : List Char) : ∃ n, zeros n ++ ds.dropWhile (· == '0') = ds := by
  refine ⟨(ds.takeWhile (· == '0')).length, ?_⟩
  have hzeros : ds.takeWhile (· == '0') = zeros (ds.takeWhile (· == '0')).length :=
    List.eq_replicate_of_mem fun d hd => by simpa using List.all_eq_true.mp List.all_takeWhile d hd
  rw [← hzeros, List.takeWhile_append_dropWhile]

theorem isDigit_of_mem_zeros {d : Char} (h : d ∈ zeros n) : d.isDigit = true := (List.mem_replicate.mp h).2 ▸ rfl

/-- **A number with so many places** is denoted by its digits, whether or not a point stands before the last of them. -/
theorem withPlaces_spec (n places : Nat) :
    natOfDigits ((withPlaces n places).1 ++ (withPlaces n places).2) = n ∧ (withPlaces n places).2.length = places ∧
      ∀ d ∈ (withPlaces n places).1 ++ (withPlaces n places).2, d.isDigit = true := by
  unfold withPlaces
  dsimp only
  rw [List.take_append_drop]
  refine ⟨?_, ?_, fun d hd => ?_⟩
  · rw [natOfDigits_zeros_append, digitsOf, natOfDigits_toDigits]
  · rw [List.length_drop, List.length_append, zeros, List.length_replicate]
    omega
  · rcases List.mem_append.mp hd with hd | hd
    · exact isDigit_of_mem_zeros hd
    · exact isDigit_of_mem_toDigits hd

/-! ## §B  The nearest natural -/

/-- **IsNearest** says that a natural is at most a half away from a number, and even if it is just a half. -/
structure IsNearest (n : Nat) (v : ℚ) : Prop where
  near : |n - v| ≤ 1 / 2
  even : |n - v| = 1 / 2 → n % 2 = 0

theorem isNearest_roundDivEven {N D : Nat} (hD : 0 < D) : IsNearest (roundDivEven N D) (N / D) := by
  have hpos : (0 : ℚ) < D := Nat.cast_pos.mpr hD
  have hquotient : (N / D : ℚ) = (N / D : Nat) + (N % D : Nat) / D := by
    have hsum : (N : ℚ) = D * (N / D : Nat) + (N % D : Nat) := by exact_mod_cast (Nat.div_add_mod N D).symm
    rw [hsum]
    field_simp
  have hpart : (0 : ℚ) ≤ (N % D : Nat) / D := by positivity
  have hless : ((N % D : Nat) / D : ℚ) < 1 := (div_lt_one hpos).mpr (by exact_mod_cast Nat.mod_lt N hD)
  have hdown : |((N / D : Nat) : ℚ) - N / D| = (N % D : Nat) / D := by
    rw [hquotient, abs_sub_comm, add_sub_cancel_left, abs_of_nonneg hpart]
  have hup : |((N / D + 1 : Nat) : ℚ) - N / D| = 1 - (N % D : Nat) / D := by
    rw [hquotient]
    push_cast
    rw [add_sub_add_left_eq_sub, abs_of_pos (by linarith)]
  unfold roundDivEven
  dsimp only
  rcases Nat.lt_trichotomy (2 * (N % D)) D with hlt | heq | hgt
  · have hhalf : ((N % D : Nat) / D : ℚ) < 1 / 2 := by
      rw [div_lt_div_iff₀ hpos two_pos]
      exact_mod_cast (by omega : N % D * 2 < 1 * D)
    rw [Nat.compare_eq_lt.mpr hlt]
    exact ⟨hdown ▸ hhalf.le, fun h => absurd (hdown ▸ h) hhalf.ne⟩
  · have hhalf : ((N % D : Nat) / D : ℚ) = 1 / 2 := by
      rw [div_eq_div_iff hpos.ne' two_ne_zero]
      exact_mod_cast (by omega : N % D * 2 = 1 * D)
    rw [Nat.compare_eq_eq.mpr heq]
    dsimp only
    split
    · rename_i heven
      exact ⟨(hdown.trans hhalf).le, fun _ => beq_iff_eq.mp heven⟩
    · rename_i hodd
      rw [beq_iff_eq] at hodd
      refine ⟨?_, fun _ => by omega⟩
      rw [hup, hhalf]
      norm_num
  · have hhalf : (1 / 2 : ℚ) < (N % D : Nat) / D := by
      rw [div_lt_div_iff₀ two_pos hpos]
      exact_mod_cast (by omega : 1 * D < N % D * 2)
    rw [Nat.compare_eq_gt.mpr hgt]
    exact ⟨by rw [hup]; linarith, fun h => by rw [hup] at h; linarith⟩

/-- **A magnitude with so many places** is the nearest natural in units of the last one. -/
theorem isNearest_fixed (b : Binary) (places : Nat) : IsNearest (b.fixed places) (b.value * 10 ^ places) := by
  obtain ⟨m, e, narrow⟩ := b
  cases e with
  | ofNat e =>
    have hvalue : (m * 2 ^ (e : Int) * 10 ^ places : ℚ) = (m * Nat.pow 2 e * Nat.pow 10 places : Nat) := by
      rw [zpow_natCast, Nat.pow_eq, Nat.pow_eq]
      push_cast
      rfl
    show IsNearest _ (m * 2 ^ (e : Int) * 10 ^ places)
    rw [hvalue]
    refine ⟨?_, fun h => ?_⟩
    · rw [Binary.fixed, sub_self, abs_zero]
      norm_num
    · rw [Binary.fixed, sub_self, abs_zero] at h
      norm_num at h
  | negSucc e =>
    have hvalue : (m * 2 ^ Int.negSucc e * 10 ^ places : ℚ) =
        (m * Nat.pow 10 places : Nat) / (Nat.pow 2 (e + 1) : Nat) := by
      rw [zpow_negSucc, Nat.pow_eq, Nat.pow_eq]
      push_cast
      ring
    show IsNearest _ (m * 2 ^ Int.negSucc e * 10 ^ places)
    rw [hvalue]
    exact isNearest_roundDivEven (Nat.pow_pos two_pos)

end Number

open Number

namespace SubPattern

/-! ## §C  Digits left out and put in -/

section

variable {least : Nat} {int frac : List Char}

/-- The digits of an integer part denote what they did. -/
theorem natOfDigits_intDigits (least : Nat) (int frac : List Char) :
    natOfDigits (intDigits least int ++ frac) = natOfDigits (int ++ frac) := by
  obtain ⟨n, hn⟩ := zeros_append_dropWhile int
  rw [intDigits, List.append_assoc, natOfDigits_zeros_append]
  conv_rhs => rw [← hn, List.append_assoc, natOfDigits_zeros_append]

theorem length_intDigits (least : Nat) (int : List Char) : least ≤ (intDigits least int).length := by
  rw [intDigits, List.length_append, zeros, List.length_replicate]
  omega

/-- No zero stands in front that is not asked for. -/
theorem head?_intDigits (h : least < (intDigits least int).length) : (intDigits least int).head? ≠ some '0' := by
  have hnone : least - (int.dropWhile (· == '0')).length = 0 := by
    rw [intDigits, List.length_append, zeros, List.length_replicate] at h
    omega
  have hhead := List.head?_dropWhile_not (· == '0') int
  rw [intDigits, hnone]
  show (int.dropWhile (· == '0')).head? ≠ _
  intro heq
  rw [heq] at hhead
  exact absurd hhead (by decide)

theorem isDigit_of_mem_intDigits (hint : ∀ d ∈ int, d.isDigit = true) {d : Char} (hd : d ∈ intDigits least int) :
    d.isDigit = true := by
  rcases List.mem_append.mp hd with hd | hd
  · exact isDigit_of_mem_zeros hd
  · exact hint d (List.dropWhile_sublist _ |>.mem hd)

/-- What is left out of a fraction is zeros at its end. -/
theorem fracDigits_append_zeros (least : Nat) (frac : List Char) : ∃ n, fracDigits least frac ++ zeros n = frac := by
  obtain ⟨n, hn⟩ := zeros_append_dropWhile (frac.drop least).reverse
  refine ⟨n, ?_⟩
  have hreverse : ((frac.drop least).reverse.dropWhile (· == '0')).reverse ++ zeros n = frac.drop least := by
    have hsame := congrArg List.reverse hn
    rwa [List.reverse_append, List.reverse_reverse, zeros, List.reverse_replicate] at hsame
  rw [fracDigits, List.append_assoc, hreverse, List.take_append_drop]

theorem length_fracDigits (h : least ≤ frac.length) : least ≤ (fracDigits least frac).length := by
  rw [fracDigits, List.length_append, List.length_take]
  omega

/-- No zero stands at the end that is not asked for. -/
theorem getLast?_fracDigits (h : least < (fracDigits least frac).length) :
    (fracDigits least frac).getLast? ≠ some '0' := by
  have hne : (frac.drop least).reverse.dropWhile (· == '0') ≠ [] := by
    intro hnil
    rw [fracDigits, hnil, List.length_append, List.length_take] at h
    simp at h
  have hhead := List.head?_dropWhile_not (· == '0') (frac.drop least).reverse
  rw [fracDigits, List.getLast?_append_of_ne_nil _ (by simpa using hne), List.getLast?_reverse]
  intro heq
  rw [heq] at hhead
  exact absurd hhead (by decide)

end

/-! ## §D  Groups -/

/-- Digits in groups of `size`, counted from the right; all in one group when the size is zero. -/
def groupsOf (size : Nat) : List Char → List (List Char)
  | [] => []
  | d :: ds =>
    match groupsOf size ds with
    | [] => [[d]]
    | g :: gs => if size != 0 && ds.length % size == 0 then [d] :: g :: gs else (d :: g) :: gs

section

variable {size : Nat} {ds : List Char}

theorem groupsOf_cons_ne_nil (size : Nat) (d : Char) (ds : List Char) : groupsOf size (d :: ds) ≠ [] := by
  rw [groupsOf]
  split
  · nofun
  · split <;> nofun

theorem flatten_groupsOf (size : Nat) (ds : List Char) : (groupsOf size ds).flatten = ds := by
  induction ds with
  | nil => rfl
  | cons d ds ih =>
    rw [groupsOf]
    split
    · rename_i hnil
      rw [hnil] at ih
      rw [← ih]
      rfl
    · rename_i g gs hgroups
      rw [hgroups] at ih
      split
      · rw [List.flatten_cons, ih]
        rfl
      · rw [← ih]
        rfl

/-- **What is written between digits** is a separator between the groups. -/
theorem grouped_map (size : Nat) (separator : Char) (f : Char → Char) (ds : List Char) :
    grouped size separator (ds.map f) = [separator].intercalate ((groupsOf size ds).map (·.map f)) := by
  induction ds with
  | nil => rfl
  | cons d ds ih =>
    rw [List.map_cons, grouped, ih, List.length_map, List.isEmpty_map, groupsOf]
    cases ds with
    | nil => simp [groupsOf, List.intercalate]
    | cons e ds =>
      obtain ⟨g, gs, hgroups⟩ := List.exists_cons_of_ne_nil (groupsOf_cons_ne_nil size e ds)
      rw [hgroups]
      simp only [List.isEmpty_cons, Bool.not_false, Bool.and_true]
      split
      · simp [List.intercalate]
      · cases gs with
        | nil => simp [List.intercalate]
        | cons g' gs => simp [List.intercalate]

theorem add_one_mod (n : Nat) (hsize : 0 < size) : (n + 1) % size = if n % size + 1 = size then 0 else n % size + 1 := by
  have hlt := Nat.mod_lt n hsize
  rcases Nat.eq_or_lt_of_le hsize with rfl | hone
  · simp [Nat.mod_one]
  · rw [Nat.add_mod_eq_ite, Nat.mod_eq_of_lt hone]
    split <;> split <;> omega

/-- Every group is full, but for the one on the left, which has what is left over. -/
theorem groupsOf_shape (hsize : 0 < size) (hne : ds ≠ []) :
    ∃ g gs, groupsOf size ds = g :: gs ∧ g.length = (ds.length - 1) % size + 1 ∧ ∀ h ∈ gs, h.length = size := by
  induction ds with
  | nil => exact absurd rfl hne
  | cons d ds ih =>
    rw [groupsOf]
    cases ds with
    | nil => exact ⟨[d], [], rfl, by simp, by simp⟩
    | cons e ds =>
      obtain ⟨g, gs, hgroups, hfirst, hfull⟩ := ih nofun
      have hlt := Nat.mod_lt ds.length hsize
      have hmod := add_one_mod ds.length hsize
      rw [hgroups]
      simp only [List.length_cons, Nat.add_sub_cancel] at hfirst ⊢
      have hpos : (size != 0) = true := bne_iff_ne.mpr (Nat.ne_of_gt hsize)
      by_cases hboundary : (ds.length + 1) % size = 0
      · refine ⟨[d], g :: gs, by simp [hpos, hboundary], by simp [hboundary], fun h hh => ?_⟩
        rcases List.mem_cons.mp hh with rfl | hh
        · split at hmod <;> omega
        · exact hfull h hh
      · refine ⟨d :: g, gs, by simp [hboundary], ?_, hfull⟩
        rw [List.length_cons, hfirst]
        split at hmod <;> omega

theorem groupsOf_zero (ds : List Char) : (groupsOf 0 ds).length ≤ 1 := by
  induction ds with
  | nil => exact Nat.zero_le 1
  | cons d ds ih =>
    rw [groupsOf]
    split
    · exact Nat.le_refl 1
    · rename_i g gs hgroups
      rw [hgroups] at ih
      exact ih

end

/-! ## §E  Other scripts -/

/-- A digit is the character of its value. -/
theorem toNat_of_isDigit {d : Char} (h : d.isDigit = true) : d.toNat = 48 + digitValue d ∧ digitValue d ≤ 9 := by
  rw [digitValue, if_pos h]
  simp [Char.isDigit] at h
  have hlow : 48 ≤ d.toNat := h.1
  have hhigh : d.toNat ≤ 57 := h.2
  omega

/-- **A digit in another script** is the character that is as far from the zero of the script as it tells, if there is
such a character. -/
theorem localize_spec (zero : Char) {d : Char} (hd : d.isDigit = true) : digitValue d ≤ 9 ∧
    ((zero.toNat + digitValue d).isValidChar → (localize zero d).toNat = zero.toNat + digitValue d) ∧
    (¬(zero.toNat + digitValue d).isValidChar → localize zero d = d) := by
  refine ⟨(toNat_of_isDigit hd).2, fun hvalid => ?_, fun hinvalid => ?_⟩
  · rw [localize, if_pos hvalid, Char.toNat_ofNat, if_pos hvalid]
  · rw [localize, if_neg hinvalid]

/-- **Different digits stay different** in every script. -/
theorem localize_injective (zero : Char) {d e : Char} (hd : d.isDigit = true) (he : e.isDigit = true)
    (h : localize zero d = localize zero e) : d = e := by
  obtain ⟨hdn, hd9⟩ := toNat_of_isDigit hd
  obtain ⟨hen, he9⟩ := toNat_of_isDigit he
  have hchar : ∀ n : Nat, n.isValidChar → (Char.ofNat n).toNat = n := fun n hn => by
    rw [Char.toNat_ofNat, if_pos hn]
  have hsame : d.toNat = e.toNat → d = e := Char.toNat_inj.mp
  -- No character is there between the surrogates and beyond the last plane; before that there is no digit.
  have hfar : ∀ k ≤ 9, ¬(zero.toNat + k).isValidChar → 57 < zero.toNat := by
    intro k hk hinvalid
    simp only [Nat.isValidChar] at hinvalid
    omega
  unfold localize at h
  dsimp only at h
  split at h <;> split at h
  · rename_i hvd hve
    have hnat := congrArg Char.toNat h
    rw [hchar _ hvd, hchar _ hve] at hnat
    exact hsame (by omega)
  · rename_i hvd hve
    have hnat := congrArg Char.toNat h
    have := hfar _ he9 hve
    rw [hchar _ hvd] at hnat
    omega
  · rename_i hvd hve
    have hnat := congrArg Char.toNat h
    have := hfar _ hd9 hvd
    rw [hchar _ hve] at hnat
    omega
  · exact h

/-! ## §F  The shape of a numeral -/

/-- **WellFormed** says that groups of digits and the digits of a fraction have the shape that a pattern asks for. -/
structure WellFormed (p : SubPattern) (groups : List (List Char)) (frac : List Char) : Prop where
  digits : ∀ d ∈ groups.flatten ++ frac, d.isDigit = true
  leastInt : p.minInt ≤ groups.flatten.length
  /-- No zero stands in front that is not asked for, but one that stands for itself. -/
  zeroInFront : p.minInt < groups.flatten.length → groups.flatten.head? ≠ some '0' ∨ groups = [['0']] ∧ frac = []
  someDigit : groups.flatten ++ frac ≠ []
  leastFrac : p.minFrac ≤ frac.length
  mostFrac : frac.length ≤ p.maxFrac
  /-- No zero stands at the end that is not asked for. -/
  zeroAtEnd : p.minFrac < frac.length → frac.getLast? ≠ some '0'
  fullGroups : 0 < p.grouping → ∀ g ∈ groups.tail, g.length = p.grouping
  firstGroup : 0 < p.grouping → ∀ g ∈ groups.head?, 1 ≤ g.length ∧ g.length ≤ p.grouping
  oneGroup : p.grouping = 0 → groups.length ≤ 1

/-- Groups and a fraction as they are written with some symbols. -/
def written (s : DecimalSymbols) (groups : List (List Char)) (frac : List Char) : List Char :=
  [s.groupingSeparator].intercalate (groups.map (·.map (localize s.zeroDigit))) ++
    if frac = [] then [] else s.decimalSeparator :: frac.map (localize s.zeroDigit)

variable {p : SubPattern} {int frac : List Char}

/-- Digits of the right number are well-formed in groups. -/
theorem WellFormed.of_digits (hdigits : ∀ d ∈ int ++ frac, d.isDigit = true) (hleast : p.minInt ≤ int.length)
    (hfront : p.minInt < int.length → int.head? ≠ some '0' ∨ int = ['0'] ∧ frac = []) (hsome : int ++ frac ≠ [])
    (hfrac : p.minFrac ≤ frac.length) (hmost : frac.length ≤ p.maxFrac)
    (hend : p.minFrac < frac.length → frac.getLast? ≠ some '0') : p.WellFormed (groupsOf p.grouping int) frac where
  digits := by rwa [flatten_groupsOf]
  leastInt := by rwa [flatten_groupsOf]
  zeroInFront h := by
    rw [flatten_groupsOf] at h ⊢
    refine (hfront h).imp_right fun ⟨hzero, hnone⟩ => ⟨?_, hnone⟩
    rw [hzero]
    rfl
  someDigit := by rwa [flatten_groupsOf]
  leastFrac := hfrac
  mostFrac := hmost
  zeroAtEnd := hend
  fullGroups hsize g hg := by
    by_cases hint : int = []
    · rw [hint] at hg
      cases hg
    · obtain ⟨first, rest, hgroups, -, hfull⟩ := groupsOf_shape hsize hint
      rw [hgroups] at hg
      exact hfull g hg
  firstGroup hsize g hg := by
    by_cases hint : int = []
    · rw [hint] at hg
      cases hg
    · obtain ⟨first, rest, hgroups, hfirst, -⟩ := groupsOf_shape hsize hint
      have hlt := Nat.mod_lt (int.length - 1) hsize
      rw [hgroups] at hg
      obtain rfl := Option.some.inj hg
      omega
  oneGroup hsize := by
    rw [hsize]
    exact groupsOf_zero int

/-- How the digits of a magnitude are written. -/
theorem renderMagnitude_eq (s : DecimalSymbols) (x : Float)
    (h : withPlaces ((magnitude x).fixed p.maxFrac) p.maxFrac = (int, frac)) :
    renderMagnitude p s x = written s
      (groupsOf p.grouping (if (intDigits p.minInt int).isEmpty && (fracDigits p.minFrac frac).isEmpty then ['0']
        else intDigits p.minInt int)) (fracDigits p.minFrac frac) := by
  unfold renderMagnitude
  rw [h]
  dsimp only
  rw [grouped_map, written]
  cases fracDigits p.minFrac frac with
  | nil => simp
  | cons d ds => rfl

/-- **A magnitude under a pattern** is a well-formed numeral that denotes it, rounded to the most places. -/
theorem renderMagnitude_spec (hp : p.minFrac ≤ p.maxFrac) (s : DecimalSymbols) (x : Float)
    (h : withPlaces ((magnitude x).fixed p.maxFrac) p.maxFrac = (int, frac)) :
    ∃ groups frac', p.WellFormed groups frac' ∧
      natOfDigits (groups.flatten ++ frac') * 10 ^ (p.maxFrac - frac'.length) = natOfDigits (int ++ frac) ∧
      renderMagnitude p s x = written s groups frac' := by
  obtain ⟨-, hplaces, hdigits⟩ := withPlaces_spec ((magnitude x).fixed p.maxFrac) p.maxFrac
  rw [renderMagnitude_eq s x h]
  rw [h] at hplaces hdigits
  dsimp only at hplaces hdigits
  obtain ⟨n, hn⟩ := fracDigits_append_zeros p.minFrac frac
  have hlength : (fracDigits p.minFrac frac).length + n = p.maxFrac := by
    have hsum := congrArg List.length hn
    rw [List.length_append, zeros, List.length_replicate] at hsum
    exact hsum.trans hplaces
  have hint : ∀ d ∈ int, d.isDigit = true := fun d hd => hdigits d (List.mem_append_left _ hd)
  have hfrac : ∀ d ∈ fracDigits p.minFrac frac, d.isDigit = true := fun d hd =>
    hdigits d (List.mem_append_right _ (hn ▸ List.mem_append_left _ hd))
  have hleast : p.minFrac ≤ (fracDigits p.minFrac frac).length := length_fracDigits (hp.trans_eq hplaces.symm)
  have hvalue : natOfDigits (intDigits p.minInt int ++ fracDigits p.minFrac frac) *
      10 ^ (p.maxFrac - (fracDigits p.minFrac frac).length) = natOfDigits (int ++ frac) := by
    have hamount : p.maxFrac - (fracDigits p.minFrac frac).length = n := by omega
    rw [hamount, natOfDigits_intDigits, ← natOfDigits_append_zeros, List.append_assoc, hn]
  by_cases hnone : intDigits p.minInt int = [] ∧ fracDigits p.minFrac frac = []
  · -- Nothing is left of a zero: it stands for itself.
    obtain ⟨hint', hfrac'⟩ := hnone
    have hminInt : p.minInt = 0 := by
      have hle := length_intDigits p.minInt int
      rw [hint'] at hle
      exact Nat.le_zero.mp hle
    rw [hint', hfrac'] at hvalue
    rw [hfrac'] at hleast
    rw [hint', hfrac']
    refine ⟨_, _, .of_digits ?_ ?_ ?_ ?_ hleast (Nat.zero_le _) ?_, ?_, rfl⟩
    · simp
    · exact hminInt ▸ Nat.zero_le 1
    · exact fun _ => .inr ⟨rfl, rfl⟩
    · exact List.cons_ne_nil _ _
    · exact fun h => absurd h (Nat.not_lt_zero _)
    · rw [flatten_groupsOf, ← hvalue]
      rfl
  · have hif : (if (intDigits p.minInt int).isEmpty && (fracDigits p.minFrac frac).isEmpty then ['0']
        else intDigits p.minInt int) = intDigits p.minInt int := by
      rw [if_neg]
      simpa [List.isEmpty_iff] using hnone
    rw [hif]
    refine ⟨_, _, .of_digits ?_ (length_intDigits _ _) (fun h => .inl (head?_intDigits h)) ?_ hleast (by omega)
      getLast?_fracDigits, ?_, rfl⟩
    · intro d hd
      rcases List.mem_append.mp hd with hd | hd
      · exact isDigit_of_mem_intDigits hint hd
      · exact hfrac d hd
    · rwa [ne_eq, List.append_eq_nil_iff]
    · rw [flatten_groupsOf, hvalue]

/-- A pattern asks for no more places than it allows. -/
theorem Reads.minFrac_le {s : DecimalSymbols} {pattern : List Char} (h : Reads s pattern p) : p.minFrac ≤ p.maxFrac := by
  obtain ⟨parts, -, hreads⟩ := h
  rw [hreads.minFrac, hreads.maxFrac]
  exact List.count_le_length

end SubPattern

/-! ## §G  Formatting -/

/-- **Surrounds** says what stands before and behind a number: what the pattern says, for negative numbers its second
part, or else a minus sign in front of the first. -/
def SubPattern.Surrounds (s : DecimalSymbols) (x : Float) (p : SubPattern) (negative? : Option (List Char))
    (lead tail : List Char) : Prop :=
  match isNegative x, negative? with
  | false, _ => lead = p.lead ∧ tail = p.tail
  | true, none => lead = s.minusSign :: p.lead ∧ tail = p.tail
  | true, some negative => ∃ n, Reads s negative n ∧ lead = n.lead ∧ tail = n.tail

section

variable {x : Float} {pattern : String} {s : DecimalSymbols} {t : String}

/-- What is written of a number: the magnitude, or the word for infinity, between what the pattern puts around it. -/
theorem exists_of_formatNumber (hx : x.isNaN = false) (h : formatNumber x pattern s = .ok t) :
    ∃ positive negative? p lead tail, SubPattern.Divided ';' pattern.toList positive negative? ∧
      SubPattern.Reads s positive p ∧ SubPattern.Surrounds s x p negative? lead tail ∧
      t = String.ofList (lead ++ (if isFinite (x * p.multiplier) then p.renderMagnitude s (x * p.multiplier)
        else s.infinity.toList) ++ tail) := by
  rw [formatNumber, hx, if_neg Bool.false_ne_true] at h
  have hdivided := SubPattern.divided_splitAt ';' pattern.toList
  obtain ⟨positive, negative?, hsplit⟩ :
      ∃ positive negative?, SubPattern.splitAt ';' pattern.toList = (positive, negative?) := ⟨_, _, rfl⟩
  rw [hsplit] at h hdivided
  dsimp only at h hdivided
  cases hp : SubPattern.parse s positive with
  | error e =>
    rw [hp] at h
    cases h
  | ok p =>
    rw [hp] at h
    have hreads := SubPattern.parse_eq_ok_iff.mp hp
    unfold SubPattern.Surrounds
    cases hsign : isNegative x with
    | false =>
      rw [hsign] at h
      exact ⟨positive, negative?, p, _, _, hdivided, hreads, ⟨rfl, rfl⟩, (Except.ok.inj h).symm⟩
    | true =>
      rw [hsign] at h
      cases negative? with
      | none => exact ⟨positive, none, p, _, _, hdivided, hreads, ⟨rfl, rfl⟩, (Except.ok.inj h).symm⟩
      | some negative =>
        cases hn : SubPattern.parse s negative with
        | error e =>
          simp only [hn] at h
          cases h
        | ok n =>
          simp only [hn] at h
          exact ⟨positive, some negative, p, _, _, hdivided, hreads, ⟨n, SubPattern.parse_eq_ok_iff.mp hn, rfl, rfl⟩,
            (Except.ok.inj h).symm⟩

/-- **A pattern is accepted** exactly if it says something, and if its second part does where that is used. -/
theorem exists_formatNumber_iff (hx : x.isNaN = false) : (∃ t, formatNumber x pattern s = .ok t) ↔
    ∃ positive negative?, SubPattern.Divided ';' pattern.toList positive negative? ∧ (∃ p, SubPattern.Reads s positive p) ∧
      (isNegative x = true → ∀ negative ∈ negative?, ∃ n, SubPattern.Reads s negative n) := by
  constructor
  · rintro ⟨t, h⟩
    obtain ⟨positive, negative?, p, lead, tail, hdivided, hreads, hsurrounds, -⟩ := exists_of_formatNumber hx h
    refine ⟨positive, negative?, hdivided, ⟨p, hreads⟩, fun hsign negative hnegative => ?_⟩
    obtain rfl : negative? = some negative := hnegative
    unfold SubPattern.Surrounds at hsurrounds
    rw [hsign] at hsurrounds
    obtain ⟨n, hn, -⟩ := hsurrounds
    exact ⟨n, hn⟩
  · rintro ⟨positive, negative?, hdivided, ⟨p, hreads⟩, hnegative⟩
    rw [formatNumber, hx, if_neg Bool.false_ne_true, hdivided.splitAt_eq]
    dsimp only
    rw [SubPattern.parse_eq_ok_iff.mpr hreads]
    cases hsign : isNegative x with
    | false => exact ⟨_, rfl⟩
    | true =>
      cases negative? with
      | none => exact ⟨_, rfl⟩
      | some negative =>
        obtain ⟨n, hn⟩ := hnegative hsign negative rfl
        simp only [SubPattern.parse_eq_ok_iff.mpr hn]
        exact ⟨_, rfl⟩

/-- **A number by a pattern** is a numeral of the right shape and value between what the pattern puts around it. The
digits stand for a fixed-point decimal: the magnitude, times what the pattern multiplies by, rounded to the most places
that the pattern allows. Digits of another script can be told apart, so that the numeral can be read back. -/
theorem formatNumber_wellFormed (hx : x.isNaN = false) (h : formatNumber x pattern s = .ok t) :
    ∃ positive negative? p lead tail, SubPattern.Divided ';' pattern.toList positive negative? ∧
      SubPattern.Reads s positive p ∧ SubPattern.Surrounds s x p negative? lead tail ∧
      (isFinite (x.abs * p.multiplier) = true →
        let D := withPlaces ((magnitude (x.abs * p.multiplier)).fixed p.maxFrac) p.maxFrac
        IsNearest (natOfDigits (D.1 ++ D.2)) ((magnitude (x.abs * p.multiplier)).value * 10 ^ p.maxFrac) ∧
        ∃ groups frac, p.WellFormed groups frac ∧
          natOfDigits (groups.flatten ++ frac) * 10 ^ (p.maxFrac - frac.length) = natOfDigits (D.1 ++ D.2) ∧
          t.toList = lead ++ SubPattern.written s groups frac ++ tail) ∧
      (∀ d : Char, d.isDigit = true → digitValue d ≤ 9 ∧
        ((s.zeroDigit.toNat + digitValue d).isValidChar →
          (SubPattern.localize s.zeroDigit d).toNat = s.zeroDigit.toNat + digitValue d) ∧
        (¬(s.zeroDigit.toNat + digitValue d).isValidChar → SubPattern.localize s.zeroDigit d = d)) ∧
      ∀ d e : Char, d.isDigit = true → e.isDigit = true →
        SubPattern.localize s.zeroDigit d = SubPattern.localize s.zeroDigit e → d = e := by
  obtain ⟨positive, negative?, p, lead, tail, hdivided, hreads, hsurrounds, ht⟩ := exists_of_formatNumber hx h
  obtain ⟨hmagnitude, hfinite⟩ := magnitude_abs_mul x p.multiplier
  refine ⟨positive, negative?, p, lead, tail, hdivided, hreads, hsurrounds, fun hfin => ?_,
    fun d => SubPattern.localize_spec s.zeroDigit, fun d e => SubPattern.localize_injective s.zeroDigit⟩
  rw [hfinite] at hfin
  rw [if_pos hfin] at ht
  obtain ⟨groups, frac, hwell, hvalue, hwritten⟩ :=
    SubPattern.renderMagnitude_spec hreads.minFrac_le s (x * p.multiplier) rfl
  refine ⟨?_, groups, frac, hwell, ?_, ?_⟩
  · rw [(withPlaces_spec _ _).1]
    exact isNearest_fixed _ _
  · rw [hmagnitude]
    exact hvalue
  · rw [ht, String.toList_ofList, hwritten]

end

/-- One place of a hundredth, in groups of three digits. -/
theorem formatNumber_wellFormed_percent :
    (12.5 : Float).isNaN = false ∧ formatNumber 12.5 "#,##0.0%" {} = .ok "1,250.0%" ∧
    ∃ p groups frac, SubPattern.Reads {} "#,##0.0%".toList p ∧ p.multiplier = 100 ∧ p.WellFormed groups frac ∧
      natOfDigits (groups.flatten ++ frac) * 10 ^ (p.maxFrac - frac.length) = 12500 ∧
      "1,250.0%".toList = SubPattern.written {} groups frac ++ ['%'] := by
  have hnumber : (12.5 : Float).isNaN = false := by decide +kernel
  have htext : formatNumber 12.5 "#,##0.0%" {} = .ok "1,250.0%" := rfl
  refine ⟨hnumber, htext, ?_⟩
  obtain ⟨positive, negative?, p, lead, tail, hdivided, hreads, hsurrounds, hnumeral, -⟩ :=
    formatNumber_wellFormed hnumber htext
  obtain ⟨rfl, rfl⟩ := Prod.mk.inj hdivided.splitAt_eq
  obtain rfl := Except.ok.inj (SubPattern.parse_eq_ok_iff.mpr hreads)
  obtain ⟨rfl, rfl⟩ : lead = [] ∧ tail = ['%'] := hsurrounds
  obtain ⟨-, groups, frac, hwell, hvalue, hwritten⟩ := hnumeral (by decide +kernel)
  exact ⟨_, groups, frac, hreads, rfl, hwell, hvalue.trans (by decide +kernel), hwritten⟩

end NodePath
