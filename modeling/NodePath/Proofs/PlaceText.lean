/-
# NodePath.Proofs.PlaceText — the path text of a place, read

The path text of a place names every member on the way down by its key. A key that is a name stands as a name test; any
other key is asked for by a predicate on all names. Elements are counted, those of a member behind its name. Read as an
expression, the text is the location path with just these steps, provided that every key can be quoted and has
something in front of its first colon.

* §A  Positions.
* §B  Keys.
* §C  `stepsTo`, the steps to a place.
* §D  The text of a place.
-/
import NodePath.Pointer.Json
import NodePath.Proofs.Position
import NodePath.Proofs.Reading

namespace NodePath

/-! ## §A  Positions -/

section

variable {n : Nat}

theorem isDigit_of_mem_toDigits {d : Char} (hd : d ∈ Nat.toDigits 10 n) : d.isDigit = true :=
  Nat.isDigit_of_mem_toDigits (by decide) (by decide) hd

theorem isDigitLiteral_repr (n : Nat) : IsDigitLiteral (toString n).toList := by
  have hdigits : (toString n).toList = Nat.toDigits 10 n := Nat.toList_repr
  rw [hdigits]
  exact .whole Nat.toDigits_ne_nil fun _ hd => isDigit_of_mem_toDigits hd

/-- A text without blanks is left as it is. -/
theorem Text.trim_eq_self {cs : List Char} (h : ∀ c ∈ cs, isBlank c = false) : trim cs = cs := by
  have hdrop : ∀ {cs : List Char}, (∀ c ∈ cs, isBlank c = false) → cs.dropWhile isBlank = cs := by
    intro cs h
    cases cs with
    | nil => rfl
    | cons c cs => rw [List.dropWhile_cons, if_neg (by simp [h c List.mem_cons_self])]
  rw [trim, hdrop h, hdrop fun c hc => h c (List.mem_reverse.mp hc), List.reverse_reverse]

namespace Number

/-- The digits of a number denote it. -/
theorem natOfDigits_toDigits (n : Nat) : natOfDigits (Nat.toDigits 10 n) = n := by
  have hsame : ∀ (ds : List Char) (a : Nat), (∀ d ∈ ds, d.isDigit = true) →
      ds.foldl (fun n c => 10 * n + digitValue c) a = Nat.ofDigitChars 10 ds a := by
    intro ds
    induction ds with
    | nil => exact fun _ _ => rfl
    | cons d ds ih =>
      intro a hds
      have hd : d.isDigit = true := hds d List.mem_cons_self
      rw [List.foldl_cons, ih _ fun d hd => hds d (List.mem_cons_of_mem _ hd), Nat.ofDigitChars_cons, digitValue,
        if_pos hd]
      rfl
  rw [natOfDigits, hsame _ _ fun _ hd => isDigit_of_mem_toDigits hd, Nat.ofDigitChars_ten_toDigits]

section

variable {cs ds fs rest : List Char}

/-- Digits are read up to what is no digit. -/
theorem spanDigits_append (hds : ∀ d ∈ ds, d.isDigit = true) (hrest : ∀ c ∈ rest.head?, c.isDigit = false) :
    spanDigits (ds ++ rest) = (ds, rest) := by
  have hfront : (ds ++ rest).takeWhile Char.isDigit = ds := takeWhile_append_of_stop hds hrest
  have hbehind : (ds ++ rest).dropWhile Char.isDigit = rest := by
    rw [List.dropWhile_append_of_pos hds]
    cases rest with
    | nil => rfl
    | cons c rest => rw [List.dropWhile_cons, if_neg (by simp [hrest c rfl])]
  rw [spanDigits, hfront, hbehind]

/-- Digits alone are taken whole. -/
theorem spanDigits_self (hds : ∀ d ∈ ds, d.isDigit = true) : spanDigits ds = (ds, []) := by
  have hstop : ∀ c ∈ ([] : List Char).head?, c.isDigit = false := fun _ hc => nomatch hc
  have happend := spanDigits_append hds hstop
  rwa [List.append_nil] at happend

/-- What starts with a digit or a point has no sign. -/
theorem readSign_of_head (h : ∀ c ∈ cs.head?, c.isDigit = true ∨ c = '.') : readSign cs = (false, cs) := by
  unfold readSign
  split
  · exact absurd (h '-' rfl) (by decide)
  · exact absurd (h '+' rfl) (by decide)
  · rfl

/-- Digits are a numeral without a sign, a fraction and an exponent. -/
theorem readNumeral?_digits (hne : ds ≠ []) (hds : ∀ d ∈ ds, d.isDigit = true) :
    readNumeral? ds = some ⟨false, natOfDigits ds, 0⟩ := by
  have hspan := spanDigits_self hds
  have hsign : readSign ds = (false, ds) := readSign_of_head fun c hc => .inl (hds c (List.mem_of_mem_head? hc))
  simp [readNumeral?, hsign, hspan, List.isEmpty_eq_false_iff.mpr hne, readExponent?]

/-- Digits with a point between them are a numeral with so many places as stand behind the point. -/
theorem readNumeral?_point (hne : ds ++ fs ≠ []) (hds : ∀ d ∈ ds ++ fs, d.isDigit = true) :
    readNumeral? (ds ++ '.' :: fs) = some ⟨false, natOfDigits (ds ++ fs), -fs.length⟩ := by
  have hint : ∀ d ∈ ds, d.isDigit = true := fun d hd => hds d (List.mem_append_left _ hd)
  have hfrac : ∀ d ∈ fs, d.isDigit = true := fun d hd => hds d (List.mem_append_right _ hd)
  have hspan : spanDigits (ds ++ '.' :: fs) = (ds, '.' :: fs) :=
    spanDigits_append hint fun c hc => by obtain rfl := Option.some.inj hc; decide
  have hspan' := spanDigits_self hfrac
  have hsign : readSign (ds ++ '.' :: fs) = (false, ds ++ '.' :: fs) := readSign_of_head fun c hc => by
    cases ds with
    | nil => exact .inr (Option.some.inj hc).symm
    | cons d ds => exact .inl (hint c (Option.some.inj hc ▸ List.mem_cons_self))
  have hsome : (ds.isEmpty && fs.isEmpty) = false := by
    rw [Bool.eq_false_iff, ne_eq, Bool.and_eq_true, List.isEmpty_iff, List.isEmpty_iff]
    rintro ⟨rfl, rfl⟩
    exact hne rfl
  simp [readNumeral?, hsign, hspan, hspan', hsome, readExponent?]

/-- The digits of a number are its numeral. -/
theorem readNumeral?_toDigits (n : Nat) : readNumeral? (Nat.toDigits 10 n) = some ⟨false, n, 0⟩ := by
  rw [readNumeral?_digits Nat.toDigits_ne_nil fun _ hd => isDigit_of_mem_toDigits hd, natOfDigits_toDigits]

end

end Number

/-- A numeral of digits and points is no word, and has nothing around it. -/
theorem numberOfText_of_readNumeral? {cs : List Char} {m : Number.Numeral}
    (hcs : ∀ c ∈ cs, c.isDigit = true ∨ c = '.') (h : Number.readNumeral? cs = some m) :
    numberOfText (String.ofList cs) = m.toFloat := by
  have htrim : Text.trim cs = cs := Text.trim_eq_self fun c hc => by
    rcases hcs c hc with hdigit | rfl
    · exact isBlank_of_isDigit hdigit
    · decide +kernel
  have hword : ∀ {c : Char} {cs' : List Char}, (c.isDigit || c == '.') = false → (cs == c :: cs') = false := by
    intro c cs' hc
    rw [beq_eq_false_iff_ne]
    rintro rfl
    rcases hcs c List.mem_cons_self with hdigit | rfl
    · simp [hdigit] at hc
    · exact absurd hc (by decide)
  have hplain : (cs == "Infinity".toList) = false := hword rfl
  have hplus : (cs == "+Infinity".toList) = false := hword rfl
  have hminus : (cs == "-Infinity".toList) = false := hword rfl
  simp only [numberOfText, String.toList_ofList, htrim, hplain, hplus, hminus, Bool.or_self, Bool.false_eq_true, if_false,
    h]

/-- Digits are read as a numeral without a sign, a fraction and an exponent. -/
theorem numberOfText_toString (n : Nat) : numberOfText (toString n) = (Number.Numeral.mk false n 0).toFloat := by
  have hcs : (toString n).toList = Nat.toDigits 10 n := Nat.toList_repr
  rw [← String.ofList_toList (s := toString n), hcs]
  exact numberOfText_of_readNumeral? (fun _ hd => .inl (isDigit_of_mem_toDigits hd)) (Number.readNumeral?_toDigits n)

/-- The numeral of a number that can be a position denotes it. -/
theorem numberOfText_repr (hpos : 0 < n) (hn : n ≤ Number.exactBound) : numberOfText (toString n) = Number.ofNat n := by
  have hlog : n.log2 < 54 := (Nat.log2_lt (Nat.ne_of_gt hpos)).mpr (Nat.lt_of_le_of_lt hn (by decide))
  have hzero : (n == 0) = false := beq_eq_false_iff_ne.mpr (Nat.ne_of_gt hpos)
  have hhigh : ¬ (0 : Int) + (n.log2 : Int) * 30103 / 100000 > 1000 := by omega
  have hlow : ¬ (0 : Int) + (n.log2 : Int) * 30103 / 100000 < -1000 := by omega
  rw [numberOfText_toString]
  simp only [Number.Numeral.toFloat, hzero, Bool.false_eq_true, if_false, if_neg hhigh, if_neg hlow]
  rfl

/-- The numeral of a greater number denotes none that can be a position. -/
theorem numberOfText_ne_of_bound_lt {i : Nat} (hn : Number.exactBound < n) (hpos : 1 ≤ i) (hi : i ≤ Number.exactBound) :
    (numberOfText (toString n) == Number.ofNat i) = false := by
  have hzero : (n == 0) = false := beq_eq_false_iff_ne.mpr (by omega)
  have hlow : ¬ (0 : Int) + (n.log2 : Int) * 30103 / 100000 < -1000 := by omega
  rw [numberOfText_toString]
  simp only [Number.Numeral.toFloat, hzero, Bool.false_eq_true, if_false, if_neg hlow]
  split_ifs with hhigh
  · -- So many digits are read as the infinity.
    have hinfinite : Number.isFinite (1 / 0) = false := by decide +kernel
    rw [Number.beq_ofNat hpos hi, Number.isWhole, hinfinite]
    rfl
  · exact Number.ofNat_ne_of_bound_lt hn hpos hi

end

/-! ## §B  Keys -/

/-- **Addressable** says of a key that it can be asked for in a path: it lacks one of the two quotes, and has something
in front of its first colon. -/
def JsonRef.Addressable (k : String) : Prop := Quotable k ∧ k.toList.head? ≠ some ':'

theorem quotable_iff {s : String} : Quotable s ↔ '\'' ∉ s.toList ∨ '"' ∉ s.toList := by
  constructor
  · rintro ⟨q, rfl | rfl, hq⟩
    · exact .inl hq
    · exact .inr hq
  · rintro (h | h)
    · exact ⟨_, .inl rfl, h⟩
    · exact ⟨_, .inr rfl, h⟩

instance (s : String) : Decidable (Quotable s) := decidable_of_iff _ quotable_iff.symm

instance (k : String) : Decidable (JsonRef.Addressable k) := inferInstanceAs (Decidable (_ ∧ _))

namespace QName

theorem splitColon_eq_some {cs q l : List Char} (h : splitColon cs = some (q, l)) : cs = q ++ ':' :: l := by
  induction cs generalizing q with
  | nil => cases h
  | cons c cs ih =>
    by_cases hc : c = ':'
    · subst hc
      cases h
      rfl
    · simp only [splitColon, Option.map_eq_some_iff] at h
      obtain ⟨⟨q', l'⟩, hsplit, he⟩ := h
      cases he
      rw [ih hsplit]
      rfl

/-- The name that a key stands for is written as the key. -/
theorem written_ofWritten {k : String} (hk : k.toList.head? ≠ some ':') : (ofWritten k).written = k := by
  unfold ofWritten
  cases hsplit : splitColon k.toList with
  | none => rfl
  | some p =>
    obtain ⟨q, l⟩ := p
    have heq := splitColon_eq_some hsplit
    -- A key that begins with a colon would lose it: its qualifier is empty.
    have hne : (String.ofList q).isEmpty = false := by
      rw [String.isEmpty_eq_false_iff]
      intro he
      have hq : q = [] := by simpa using congrArg String.toList he
      rw [heq, hq] at hk
      exact hk rfl
    simp only [make, Option.filter, hne, Bool.not_false, if_true, written]
    rw [← String.toList_inj, String.toList_append, String.toList_append, String.toList_ofList, String.toList_ofList, heq]
    simp

end QName

namespace JsonRef

theorem isNcName_of_isName {cs : List Char} (h : isName cs = true) : IsNcName (String.ofList cs) := by
  cases cs with
  | nil => cases h
  | cons c cs =>
    obtain ⟨hc, hcs⟩ := (Bool.and_eq_true _ _).mp h
    exact ⟨c, cs, String.toList_ofList, hc, List.all_eq_true.mp hcs⟩

/-- A key that is found to be a name can be written as one. -/
theorem wellFormed_ofWritten {k : String} (h : isQualifiedName k = true) : (QName.ofWritten k).WellFormed := by
  unfold isQualifiedName at h
  unfold QName.ofWritten
  cases hsplit : QName.splitColon k.toList with
  | none =>
    rw [hsplit] at h
    have hname := isNcName_of_isName h
    rw [String.ofList_toList] at hname
    show (QName.plain k).WellFormed
    exact ⟨fun _ hq => (nomatch hq), hname⟩
  | some p =>
    rw [hsplit] at h
    obtain ⟨hq, hl⟩ := (Bool.and_eq_true _ _).mp h
    dsimp only
    rw [QName.make_of_isNcName (isNcName_of_isName hq)]
    refine ⟨fun q he => ?_, isNcName_of_isName hl⟩
    cases he
    exact isNcName_of_isName hq

theorem head_ne_of_isQualifiedName {k : String} (h : isQualifiedName k = true) : k.toList.head? ≠ some ':' := by
  intro hhead
  obtain ⟨cs, hk⟩ := List.head?_eq_some_iff.mp hhead
  simp [isQualifiedName, hk, QName.splitColon, isName] at h

/-! ## §C  Steps -/

/-- The test that the step to a key makes: of its name, or of no name in particular. -/
def keyTest (k : String) : NodeTest := .name (if isQualifiedName k then .ofWritten k else .plain "*")

/-- The predicate that asks for a name. -/
def named (k : String) : Expr := .binary .equal (.core .name []) (.text k)

/-- The predicates of the step to a key. -/
def keyPredicates (k : String) : List Expr := if isQualifiedName k then [] else [named k]

/-- The predicate that asks for an element. Positions count from one. -/
def position (i : Nat) : Expr := .number (numberOfText (toString (i + 1)))

/-- **stepsTo** are the steps to a place. `asAttribute` says that the last key is an attribute. -/
def stepsTo (asAttribute : Bool) : List Segment → List Step
  | [] => []
  | .key k :: .index i :: path => ⟨.child, keyTest k, keyPredicates k ++ [position i]⟩ :: stepsTo asAttribute path
  | .key k :: path =>
    ⟨if asAttribute && path.isEmpty then .attributes else .child, keyTest k, keyPredicates k⟩ :: stepsTo asAttribute path
  | .index i :: path => ⟨.child, .type .node, [position i]⟩ :: stepsTo asAttribute path

/-! ## §D  Texts -/

end JsonRef

section

variable {clear : Operator → List Char → Prop}

theorem Spells.predicates_append {es es' : List Expr} {cs ds : List Char} (h : Spells clear (.predicates es) cs)
    (h' : Spells clear (.predicates es') ds) : Spells clear (.predicates (es ++ es')) (cs ++ ds) := by
  induction es generalizing cs with
  | nil =>
    cases h
    exact h'
  | cons e es ih =>
    cases h with
    | predicate he hes =>
      have hmore := Spells.predicate he (ih hes)
      simpa using hmore

/-- The text in front of the test of a step along the children, or of one along the attributes. -/
theorem Axis.spells_abbreviated (asAttribute : Bool) :
    Axis.Spells (if asAttribute then .attributes else .child) (if asAttribute then ['@'] else []) := by
  cases asAttribute with
  | true => exact .attributes
  | false => exact .child

namespace JsonRef

theorem spells_position (i : Nat) : Spells clear (.predicates [position i]) (positionStep i).toList := by
  have hnumber : Spells clear (.expr .primary (position i)) (toString (i + 1)).toList :=
    .number (isDigitLiteral_repr (i + 1)) (by rw [String.ofList_toList])
  have htext : (positionStep i).toList = '[' :: ((toString (i + 1)).toList ++ ']' :: []) := by
    simp [positionStep]
  rw [htext]
  exact .predicate (hnumber.loosen (Nat.zero_le _)) .noPredicates

theorem spells_named {k : String} {q : Char} (hclear : clear .equal "name()".toList) (hq : IsQuote q)
    (hk : q ∉ k.toList) :
    Spells clear (.predicates [named k]) ("[name()=".toList ++ q :: (k.toList ++ [q, ']'])) := by
  have hname : Spells clear (.expr .primary (.core .name [])) "name()".toList := .core .noArguments
  have htext : Spells clear (.expr .primary (.text k)) (q :: (k.toList ++ [q])) := .text hq hk
  have hboth := @Spells.binary _ .equal _ _ _ _ _ rfl (by decide) .equals (hname.loosen (by decide)) hclear
    (htext.loosen (by decide))
  have hpredicate := Spells.predicate (hboth.loosen (l := .disjunction) (by decide)) .noPredicates
  simpa [named] using hpredicate

/-- The step to a key is written as the test and the predicates of the step. -/
theorem spells_key {k : String} (hclear : clear .equal "name()".toList) (hk : Quotable k) :
    ∃ ts cs, (keyStep k).toList = ts ++ cs ∧ (keyTest k).Spells ts ∧ Spells clear (.predicates (keyPredicates k)) cs := by
  unfold keyStep keyTest keyPredicates
  cases hname : isQualifiedName k with
  | true =>
    refine ⟨k.toList, [], (List.append_nil _).symm, ?_, .noPredicates⟩
    show k.toList = (QName.ofWritten k).written.toList
    rw [QName.written_ofWritten (head_ne_of_isQualifiedName hname)]
  | false =>
    simp only [Bool.false_eq_true, if_false]
    obtain ⟨q, hq, hmem⟩ := hk
    split
    · next hsingle =>
      have hq : q = '"' := by
        rcases hq with rfl | rfl
        · exact absurd (by simpa using hsingle) hmem
        · rfl
      subst hq
      exact ⟨['*'], _, by simp, rfl, spells_named hclear (.inr rfl) hmem⟩
    · next hsingle => exact ⟨['*'], _, by simp, rfl, spells_named hclear (.inl rfl) (by simpa using hsingle)⟩

/-- **The text of a path** is written as its steps. -/
theorem spells_stepsTo {asAttribute : Bool} {path : List Segment} (hclear : clear .equal "name()".toList)
    (hpath : ∀ k, .key k ∈ path → Quotable k) :
    Spells clear (.steps (stepsTo asAttribute path)) (stepsText asAttribute false path).toList := by
  fun_induction stepsTo asAttribute path with
  | case1 => exact .noSteps
  | case2 k i path ih =>
    obtain ⟨ts, cs, htext, htest, hcs⟩ := spells_key hclear (hpath k List.mem_cons_self)
    have hstep := Spells.step .child htest (hcs.predicates_append (spells_position i))
    have hsteps := Spells.slash hstep (ih fun k' hk' => hpath k' (List.mem_cons_of_mem _ (List.mem_cons_of_mem _ hk')))
    simpa [stepsText, htext] using hsteps
  | case3 k path hne ih =>
    obtain ⟨ts, cs, htext, htest, hcs⟩ := spells_key hclear (hpath k List.mem_cons_self)
    have hstep := Spells.step (Axis.spells_abbreviated (asAttribute && path.isEmpty)) htest hcs
    have hsteps := Spells.slash hstep (ih fun k' hk' => hpath k' (List.mem_cons_of_mem _ hk'))
    have heq : stepsText asAttribute false (.key k :: path) =
        (if asAttribute && path.isEmpty then "/@" else "/") ++ keyStep k ++ stepsText asAttribute false path := by
      match path with
      | [] => rfl
      | .key _ :: _ => rfl
      | .index i :: path => exact absurd rfl (hne i path)
    rw [heq]
    cases hattribute : (asAttribute && path.isEmpty) <;> simpa [htext, hattribute] using hsteps
  | case4 i path ih =>
    have htest : (NodeTest.type .node).Spells "node()".toList := rfl
    have hstep : Spells clear (.step ⟨.child, .type .node, [position i]⟩) _ := .step .child htest (spells_position i)
    have hsteps := Spells.slash hstep (ih fun k' hk' => hpath k' (List.mem_cons_of_mem _ hk'))
    simpa [stepsText] using hsteps

theorem wellFormed_keyTest (k : String) : (keyTest k).WellFormed := by
  unfold keyTest
  split
  · next hname =>
    have hwf := wellFormed_ofWritten hname
    exact ⟨hwf.1, .inr hwf.2⟩
  · exact ⟨fun _ hq => (nomatch hq), .inl rfl⟩

theorem wellFormed_position (i : Nat) : (position i).WellFormed DigitValue :=
  .number ⟨_, isDigitLiteral_repr (i + 1), by rw [String.ofList_toList]⟩

theorem wellFormed_keyPredicates {k : String} (hk : Quotable k) : ∀ e ∈ keyPredicates k, e.WellFormed DigitValue := by
  intro e he
  unfold keyPredicates at he
  split at he
  · cases he
  · obtain rfl := List.mem_singleton.mp he
    refine .operation rfl (List.forall_mem_cons.mpr ⟨.core fun _ h => (nomatch h), ?_⟩)
    exact List.forall_mem_singleton.mpr (.text hk)

/-- All tests and predicates on the way to a place can be written. -/
theorem wellFormed_stepsTo {asAttribute : Bool} {path : List Segment} (hpath : ∀ k, .key k ∈ path → Quotable k) :
    ∀ s ∈ stepsTo asAttribute path, s.test.WellFormed ∧ ∀ e ∈ s.predicates, e.WellFormed DigitValue := by
  fun_induction stepsTo asAttribute path with
  | case1 => exact fun _ h => nomatch h
  | case2 k i path ih =>
    refine List.forall_mem_cons.mpr ⟨⟨wellFormed_keyTest k, fun e he => ?_⟩, ih fun k' hk' => ?_⟩
    · rcases List.mem_append.mp he with he | he
      · exact wellFormed_keyPredicates (hpath k List.mem_cons_self) e he
      · obtain rfl := List.mem_singleton.mp he
        exact wellFormed_position i
    · exact hpath k' (List.mem_cons_of_mem _ (List.mem_cons_of_mem _ hk'))
  | case3 k path hne ih =>
    refine List.forall_mem_cons.mpr ⟨⟨wellFormed_keyTest k, ?_⟩, ih fun k' hk' => ?_⟩
    · exact wellFormed_keyPredicates (hpath k List.mem_cons_self)
    · exact hpath k' (List.mem_cons_of_mem _ hk')
  | case4 i path ih =>
    refine List.forall_mem_cons.mpr ⟨⟨trivial, ?_⟩, ih fun k' hk' => hpath k' (List.mem_cons_of_mem _ hk')⟩
    exact List.forall_mem_singleton.mpr (wellFormed_position i)

/-- **The path text of a place is read** as the location path from the top with the steps to the place. -/
theorem parse_pathText {r : JsonRef} (hbase : r.base = none) (hpath : ∀ k, .key k ∈ r.path → Quotable k) :
    Expr.parse r.pathText = .ok (.path true (stepsTo r.asAttribute r.path)) := by
  have hwf : Expr.WellFormed DigitValue (.path true (stepsTo r.asAttribute r.path)) :=
    .path (fun h => (nomatch h)) (fun s hs => (wellFormed_stepsTo hpath s hs).1)
      fun s hs => (wellFormed_stepsTo hpath s hs).2
  have hclear : Operator.Clear .equal "name()".toList := fun h => nomatch h
  obtain ⟨cs, hcs⟩ : ∃ cs, cs = (stepsText r.asAttribute false r.path).toList := ⟨_, rfl⟩
  have hsteps : Spells Operator.Clear (.steps (stepsTo r.asAttribute r.path)) cs := hcs ▸ spells_stepsTo hclear hpath
  have htext : r.pathText.toList = if cs.isEmpty then ['/'] else cs := by
    have hempty : (stepsText r.asAttribute false r.path).isEmpty = cs.isEmpty := by
      rw [Bool.eq_iff_iff, String.isEmpty_iff, List.isEmpty_iff, hcs, String.toList_eq_nil_iff]
    simp only [pathText, hbase, String.empty_append, Option.isSome_none, hempty]
    split
    · rfl
    · exact hcs.symm
  have hspells : Spells Operator.Clear (.expr .path (.path true (stepsTo r.asAttribute r.path))) r.pathText.toList := by
    rw [htext]
    generalize stepsTo r.asAttribute r.path = steps at hsteps
    cases hsteps with
    | noSteps => exact .root
    | slash hs hss => exact .absolute hs hss
  have hparse := (hspells.loosen (l := .disjunction) (Nat.zero_le _)).parse hwf
  rwa [String.ofList_toList] at hparse

end JsonRef

end

end NodePath
