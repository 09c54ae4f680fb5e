/-
# NodePath.Proofs.PatternReading — what a pattern says

A pattern is told apart without a word on how it is searched: what stands before the number, the number, and what
stands behind it. The number asks for as many digits as there are zeros in it, and for groups as long as what stands
behind its last comma; the last percent or per mille sign beside it says what is multiplied by. A pattern is accepted
exactly if it can be told apart in this way, and what it says is then what is read of it.

* §A  Texts that are divided.
* §B  What stands beside the number.
* §C  Groups.
* §D  `Parts`, and `Reads`.
* §E  `parse_eq_ok_iff`.
-/
import NodePath.Function.Format
import Mathlib.Data.List.Forall2
import Mathlib.Data.List.Induction

namespace NodePath.SubPattern

variable {c : Char} {cs ds as bs int : List Char} {rest? : Option (List Char)} {m : Float} {n : Nat}
  {s : DecimalSymbols} {p : SubPattern}

/-! ## §A  Divided texts -/

/-- What is taken from the front of a text, and what is left, if the one has only characters of a kind and the other
does not begin with one. -/
theorem span_iff {q : Char → Bool} :
    cs.takeWhile q = as ∧ cs.dropWhile q = bs ↔ cs = as ++ bs ∧ (∀ c ∈ as, q c = true) ∧ ∀ c ∈ bs.head?, q c = false := by
  constructor
  · rintro ⟨rfl, rfl⟩
    refine ⟨List.takeWhile_append_dropWhile.symm, fun c hc => List.all_eq_true.mp List.all_takeWhile c hc, fun c hc => ?_⟩
    have hhead := List.head?_dropWhile_not q cs
    rw [hc] at hhead
    simpa using hhead
  · rintro ⟨rfl, has, hbs⟩
    rw [List.takeWhile_append_of_pos has, List.dropWhile_append_of_pos has]
    cases bs with
    | nil => simp
    | cons c bs => simp [hbs c rfl]

/-- **Divided** says that a text is all there is before the first `c`, or else what stands before and behind it. -/
inductive Divided (c : Char) : List Char → List Char → Option (List Char) → Prop
  | whole {as : List Char} : c ∉ as → Divided c as as none
  | parts {as bs : List Char} : c ∉ as → Divided c (as ++ c :: bs) as (some bs)

theorem Divided.splitAt_eq (h : Divided c cs as rest?) : splitAt c cs = (as, rest?) := by
  have hne : c ∉ as → ∀ d ∈ as, (d != c) = true := fun hc d hd => bne_iff_ne.mpr fun heq => hc (heq ▸ hd)
  cases h with
  | whole hc =>
    obtain ⟨htake, hdrop⟩ : cs.takeWhile (· != c) = cs ∧ cs.dropWhile (· != c) = [] :=
      span_iff.mpr ⟨(List.append_nil _).symm, hne hc, nofun⟩
    rw [splitAt, htake, hdrop]
    rfl
  | @parts _ bs hc =>
    obtain ⟨htake, hdrop⟩ : (as ++ c :: bs).takeWhile (· != c) = as ∧ (as ++ c :: bs).dropWhile (· != c) = c :: bs :=
      span_iff.mpr ⟨rfl, hne hc, by simp⟩
    rw [splitAt, htake, hdrop]
    rfl

theorem Divided.notMem (h : Divided c cs as rest?) : c ∉ as := by
  cases h <;> assumption

theorem Divided.subset (h : Divided c cs as rest?) : as ⊆ cs ∧ rest?.getD [] ⊆ cs := by
  cases h with
  | whole => exact ⟨fun _ h => h, nofun⟩
  | parts => exact ⟨List.subset_append_left _ _, fun d hd => List.mem_append_right _ (List.mem_cons_of_mem _ hd)⟩

/-- **A text is divided** at its first `c`. -/
theorem divided_splitAt (c : Char) (cs : List Char) : Divided c cs (splitAt c cs).1 (splitAt c cs).2 := by
  by_cases hc : c ∈ cs
  · obtain ⟨as, bs, rfl, hfirst⟩ := List.eq_append_cons_of_mem hc
    have hdivided : Divided c (as ++ c :: bs) as (some bs) := .parts hfirst
    rwa [hdivided.splitAt_eq]
  · have hdivided : Divided c cs cs none := .whole hc
    rwa [hdivided.splitAt_eq]

/-! ## §B  Beside the number -/

/-- **Shows** says what is printed for a character beside the number: a sign of the symbols for each of the two signs,
and any other character as it is. -/
inductive Shows (s : DecimalSymbols) : Char → Char → Prop
  | percent : Shows s '%' s.percent
  | perMille : Shows s '‰' s.perMille
  | other {c : Char} : c ≠ '%' → c ≠ '‰' → Shows s c c

theorem shows_iff {d : Char} : Shows s c d ↔ affixChar s c = d := by
  constructor
  · intro h
    cases h with
    | percent => rfl
    | perMille => rfl
    | other hpercent hmille => simp [affixChar, hpercent, hmille]
  · rintro rfl
    by_cases hpercent : c = '%'
    · subst hpercent
      exact .percent
    · by_cases hmille : c = '‰'
      · subst hmille
        exact .perMille
      · simpa [affixChar, hpercent, hmille] using Shows.other hpercent hmille

theorem forall₂_shows_iff : List.Forall₂ (Shows s) cs ds ↔ cs.map (affixChar s) = ds := by
  have hshows : Shows s = fun c d => affixChar s c = d := by
    funext c d
    exact propext shows_iff
  rw [hshows, ← List.forall₂_map_left_iff (R := Eq), List.forall₂_eq_eq_eq]

/-- **Multiplies** says what the last of the two signs in a text asks to multiply by. -/
inductive Multiplies : List Char → Float → Prop
  | nothing {cs : List Char} : '%' ∉ cs → '‰' ∉ cs → Multiplies cs 1
  | percent {cs ds : List Char} : '%' ∉ ds → '‰' ∉ ds → Multiplies (cs ++ '%' :: ds) 100
  | perMille {cs ds : List Char} : '%' ∉ ds → '‰' ∉ ds → Multiplies (cs ++ '‰' :: ds) 1000

theorem multiplierOf_append (m : Float) (cs ds : List Char) :
    multiplierOf m (cs ++ ds) = multiplierOf (multiplierOf m cs) ds := List.foldl_append

theorem multiplierOf_of_notMem (hpercent : '%' ∉ cs) (hmille : '‰' ∉ cs) : multiplierOf m cs = m := by
  induction cs with
  | nil => rfl
  | cons c cs ih =>
    rw [List.mem_cons, not_or] at hpercent hmille
    have hc : multiplierOf m [c] = m := by
      simp [multiplierOf, Ne.symm hpercent.1, Ne.symm hmille.1]
    rw [← List.singleton_append, multiplierOf_append, hc]
    exact ih hpercent.2 hmille.2

theorem Multiplies.multiplierOf_eq (h : Multiplies cs m) : multiplierOf 1 cs = m := by
  cases h with
  | nothing hpercent hmille => exact multiplierOf_of_notMem hpercent hmille
  | @percent cs ds hpercent hmille =>
    rw [multiplierOf_append]
    exact multiplierOf_of_notMem hpercent hmille
  | @perMille cs ds hpercent hmille =>
    rw [multiplierOf_append]
    exact multiplierOf_of_notMem hpercent hmille

theorem Multiplies.snoc (h : Multiplies cs m) (hpercent : c ≠ '%') (hmille : c ≠ '‰') : Multiplies (cs ++ [c]) m := by
  have hnone : ∀ {sign : Char} {cs : List Char}, sign ∉ cs → c ≠ sign → sign ∉ cs ++ [c] := by
    intro sign cs hcs hc
    simpa [hcs] using Ne.symm hc
  cases h with
  | nothing hpercents hmilles => exact .nothing (hnone hpercents hpercent) (hnone hmilles hmille)
  | @percent cs ds hpercents hmilles =>
    rw [List.append_assoc]
    exact .percent (hnone hpercents hpercent) (hnone hmilles hmille)
  | @perMille cs ds hpercents hmilles =>
    rw [List.append_assoc]
    exact .perMille (hnone hpercents hpercent) (hnone hmilles hmille)

/-- **Every text says** what to multiply by. -/
theorem exists_multiplies (cs : List Char) : ∃ m, Multiplies cs m := by
  -- From the right, since the last sign decides.
  induction cs using List.reverseRecOn with
  | nil => exact ⟨1, .nothing nofun nofun⟩
  | append_singleton cs c ih =>
    by_cases hpercent : c = '%'
    · subst hpercent
      exact ⟨100, .percent nofun nofun⟩
    · by_cases hmille : c = '‰'
      · subst hmille
        exact ⟨1000, .perMille nofun nofun⟩
      · obtain ⟨m, hm⟩ := ih
        exact ⟨m, hm.snoc hpercent hmille⟩

theorem multiplies_iff : Multiplies cs m ↔ multiplierOf 1 cs = m := by
  refine ⟨Multiplies.multiplierOf_eq, fun h => ?_⟩
  obtain ⟨m', hm'⟩ := exists_multiplies cs
  rwa [← h, hm'.multiplierOf_eq]

/-! ## §C  Groups -/

/-- **GroupedBy** says how long groups are: as long as what stands behind the last comma, if there is one. -/
inductive GroupedBy : List Char → Nat → Prop
  | nothing {int : List Char} : ',' ∉ int → GroupedBy int 0
  | behind {front group : List Char} : ',' ∉ group → GroupedBy (front ++ ',' :: group) group.length

theorem GroupedBy.groupSize_eq (h : GroupedBy int n) : groupSize int = n := by
  cases h with
  | nothing hcomma => simp [groupSize, hcomma]
  | @behind front group hcomma =>
    have hne : ∀ d ∈ group.reverse, (d != ',') = true := fun d hd =>
      bne_iff_ne.mpr fun heq => hcomma (heq ▸ List.mem_reverse.mp hd)
    have hspan : (front ++ ',' :: group).reverse.takeWhile (· != ',') = group.reverse ∧
        (front ++ ',' :: group).reverse.dropWhile (· != ',') = ',' :: front.reverse :=
      span_iff.mpr ⟨by simp, hne, by simp⟩
    have htake := hspan.1
    rw [groupSize, htake, List.length_reverse]
    simp

theorem groupedBy_iff : GroupedBy int n ↔ groupSize int = n := by
  refine ⟨GroupedBy.groupSize_eq, fun h => ?_⟩
  rw [← h]
  by_cases hcomma : ',' ∈ int
  · obtain ⟨as, bs, hreverse, hlast⟩ := List.eq_append_cons_of_mem (List.mem_reverse.mpr hcomma)
    obtain rfl : int = bs.reverse ++ ',' :: as.reverse := by
      simpa using congrArg List.reverse hreverse
    have hgroup : GroupedBy (bs.reverse ++ ',' :: as.reverse) as.reverse.length := .behind (by simpa using hlast)
    rwa [hgroup.groupSize_eq]
  · have hgroup : GroupedBy int 0 := .nothing hcomma
    rwa [hgroup.groupSize_eq]

/-! ## §D  Parts -/

/-- The characters that stand for digits. -/
def numberChars : List Char := ['#', '0', ',', '.']

theorem isNumberChar_iff : isNumberChar c = true ↔ c ∈ numberChars := by
  simp [isNumberChar, numberChars, or_assoc]

theorem isNumberChar_eq_false_iff : isNumberChar c = false ↔ c ∉ numberChars := by
  rw [← isNumberChar_iff, Bool.not_eq_true]

/-- **Parts** are a pattern in its parts: what stands before the number, its integer part, its fraction if there is a
point, and what stands behind. -/
structure Parts where
  before : List Char
  int : List Char
  frac? : Option (List Char)
  behind : List Char

namespace Parts

/-- The fraction, empty without a point. -/
def frac (parts : Parts) : List Char := parts.frac?.getD []

/-- The number, with its point if it has one. -/
def number (parts : Parts) : List Char :=
  match parts.frac? with
  | none => parts.int
  | some frac => parts.int ++ '.' :: frac

/-- The parts put together. -/
def text (parts : Parts) : List Char := parts.before ++ (parts.number ++ parts.behind)

/-- **Says** tells what is said by a pattern in its parts. -/
structure Says (parts : Parts) (s : DecimalSymbols) (p : SubPattern) : Prop where
  /-- The number is the first run of digit characters. -/
  before : ∀ c ∈ parts.before, c ∉ numberChars
  number : parts.number ≠ []
  behind : ∀ c ∈ parts.behind.head?, c ∉ numberChars
  int : ∀ c ∈ parts.int, c = '#' ∨ c = '0' ∨ c = ','
  frac : ∀ c ∈ parts.frac, c = '#' ∨ c = '0'
  lead : List.Forall₂ (Shows s) parts.before p.lead
  tail : List.Forall₂ (Shows s) parts.behind p.tail
  minInt : p.minInt = parts.int.count '0'
  grouping : GroupedBy parts.int p.grouping
  minFrac : p.minFrac = parts.frac.count '0'
  maxFrac : p.maxFrac = parts.frac.length
  multiplier : Multiplies (parts.before ++ parts.behind) p.multiplier

variable {parts : Parts}

/-- The integer part and the fraction are what the number is divided into at its point. -/
theorem divided_number (h : '.' ∉ parts.int) : Divided '.' parts.number parts.int parts.frac? := by
  obtain ⟨before, int, frac?, behind⟩ := parts
  cases frac? with
  | none => exact .whole h
  | some frac => exact .parts h

theorem mem_number (h : c ∈ parts.number) : c ∈ parts.int ∨ c = '.' ∨ c ∈ parts.frac := by
  obtain ⟨before, int, frac?, behind⟩ := parts
  cases frac? with
  | none => exact .inl h
  | some frac => exact (List.mem_append.mp h).imp_right List.mem_cons.mp

theorem number_of_divided {number : List Char} {frac? : Option (List Char)} (h : Divided '.' number int frac?)
    (before behind : List Char) : (mk before int frac? behind).number = number := by
  cases h <;> rfl

end Parts

/-- **Reads** says what a pattern says. -/
def Reads (s : DecimalSymbols) (pattern : List Char) (p : SubPattern) : Prop :=
  ∃ parts : Parts, parts.text = pattern ∧ parts.Says s p

/-! ## §E  What is read -/

/-- What is read of a pattern is what it says. -/
theorem reads_of_parse {pattern : List Char} (h : parse s pattern = .ok p) : Reads s pattern p := by
  obtain ⟨before, rest, hbefore⟩ : ∃ before rest, pattern.takeWhile (!isNumberChar ·) = before ∧
      pattern.dropWhile (!isNumberChar ·) = rest := ⟨_, _, rfl, rfl⟩
  obtain ⟨number, behind, hnumber⟩ : ∃ number behind, rest.takeWhile isNumberChar = number ∧
      rest.dropWhile isNumberChar = behind := ⟨_, _, rfl, rfl⟩
  obtain ⟨int, frac?, hsplit⟩ : ∃ int frac?, splitAt '.' number = (int, frac?) := ⟨_, _, rfl⟩
  have hdivided := divided_splitAt '.' number
  obtain ⟨htext, hplain, -⟩ := span_iff.mp hbefore
  obtain ⟨hrest, hchars, hstop⟩ := span_iff.mp hnumber
  unfold parse at h
  simp only [hbefore.1, hbefore.2, hnumber.1, hnumber.2, hsplit] at h hdivided
  split at h
  · cases h
  · rename_i hgood
    simp only [Bool.or_eq_true, List.isEmpty_iff, List.contains_iff_mem, not_or] at hgood
    obtain ⟨⟨hsome, hpoint⟩, hcomma⟩ := hgood
    obtain ⟨hint, hfrac⟩ := hdivided.subset
    have hwhole := Parts.number_of_divided hdivided before behind
    obtain rfl := Except.ok.inj h
    refine ⟨⟨before, int, frac?, behind⟩, by rw [Parts.text, hwhole, htext, hrest], ?_⟩
    exact
      { before := fun c hc => by simpa [← isNumberChar_eq_false_iff] using hplain c hc
        number := by rwa [hwhole]
        behind := fun c hc => isNumberChar_eq_false_iff.mp (hstop c hc)
        int := fun c hc => by
          have hchar := isNumberChar_iff.mp (hchars c (hint hc))
          have hne : c ≠ '.' := fun heq => hdivided.notMem (heq ▸ hc)
          simpa [numberChars, hne] using hchar
        frac := fun c hc => by
          have hchar := isNumberChar_iff.mp (hchars c (hfrac hc))
          have hne : c ≠ '.' := fun heq => hpoint (heq ▸ hc)
          have hne' : c ≠ ',' := fun heq => hcomma (heq ▸ hc)
          simpa [numberChars, hne, hne'] using hchar
        lead := forall₂_shows_iff.mpr rfl
        tail := forall₂_shows_iff.mpr rfl
        minInt := rfl
        grouping := groupedBy_iff.mpr rfl
        minFrac := rfl
        maxFrac := rfl
        multiplier := multiplies_iff.mpr (multiplierOf_append 1 before behind) }

/-- **A pattern that says something** is accepted. -/
theorem Parts.Says.parse_eq {parts : Parts} (h : parts.Says s p) : parse s parts.text = .ok p := by
  have hpoint : '.' ∉ parts.int := fun hc => by simpa using h.int _ hc
  have hdivided := divided_number hpoint
  have hchars : ∀ c ∈ parts.number, isNumberChar c = true := fun c hc => by
    rw [isNumberChar_iff]
    rcases mem_number hc with hint | rfl | hfrac
    · rcases h.int c hint with rfl | rfl | rfl <;> decide
    · decide
    · rcases h.frac c hfrac with rfl | rfl <;> decide
  have hhead : ∀ c ∈ (parts.number ++ parts.behind).head?, isNumberChar c = true := by
    obtain ⟨c, cs, hnumber⟩ := List.exists_cons_of_ne_nil h.number
    rw [hnumber] at hchars ⊢
    exact fun d hd => hchars d (Option.some.inj hd ▸ List.mem_cons_self)
  obtain ⟨htake, hdrop⟩ := (span_iff (q := (!isNumberChar ·))).mpr
    ⟨(rfl : parts.text = parts.before ++ (parts.number ++ parts.behind)),
      fun c hc => by simpa [isNumberChar_eq_false_iff] using h.before c hc, fun c hc => by simpa using hhead c hc⟩
  obtain ⟨htake', hdrop'⟩ := (span_iff (q := isNumberChar)).mpr
    ⟨(rfl : parts.number ++ parts.behind = _), hchars, fun c hc => isNumberChar_eq_false_iff.mpr (h.behind c hc)⟩
  have hgood : (parts.number.isEmpty || parts.frac.contains '.' || parts.frac.contains ',') = false := by
    have hnone : ∀ c, c = '.' ∨ c = ',' → c ∉ parts.frac := by
      rintro c hc hmem
      rcases hc with rfl | rfl <;> simpa using h.frac _ hmem
    simp [h.number, hnone]
  unfold parse
  simp only [htake, hdrop, htake', hdrop', hdivided.splitAt_eq]
  rw [← Parts.frac, hgood, if_neg Bool.false_ne_true, ← multiplierOf_append, multiplies_iff.mp h.multiplier,
    groupedBy_iff.mp h.grouping, forall₂_shows_iff.mp h.lead, forall₂_shows_iff.mp h.tail, ← h.minInt, ← h.minFrac,
    ← h.maxFrac]

/-- **What a pattern says** is what is read of it, and nothing is read of a pattern that says nothing. -/
theorem parse_eq_ok_iff {pattern : List Char} : parse s pattern = .ok p ↔ Reads s pattern p := by
  refine ⟨reads_of_parse, ?_⟩
  rintro ⟨parts, rfl, h⟩
  exact h.parse_eq

end NodePath.SubPattern
