/-
# NodePath.Proofs.ParsedTree — what is read is an expression

**Gives** says what holds of the value that a reader gives and of the input it leaves, if it gives one. Through the
grammar it shows that a tree that is read is well formed. Only the name of a call needs to know the input: that it is
no node type follows from there being no path in front.

* §A  `Parser.Gives` and its rules.
* §B  Names, numerals and quoted texts.
* §C  Sequences.
* §D  Steps and paths.
* §E  Primary expressions.
* §F  Operators.
-/
import NodePath.Proofs.Grammar

namespace NodePath

/-! ## §A  Giving -/

namespace Parser

/-- **Gives** says that whatever a reader gives, from an input with `P`, and the input it leaves satisfy `Q`. -/
def Gives {α : Type} (P : Input → Prop) (p : Parser α) (Q : α → Input → Prop) : Prop :=
  ∀ i, P i → ∀ a j, p.run i = .ok (a, j) → Q a j

/-- What a reader gives from any input, whatever it leaves. -/
abbrev Yields {α : Type} (p : Parser α) (Q : α → Prop) : Prop := Gives (fun _ => True) p fun a _ => Q a

namespace Gives

variable {α β : Type} {P P' : Input → Prop} {p : Parser α} {f : α → Parser β} {Q Q' : α → Input → Prop}
  {R : β → Input → Prop}

theorem pure {a : α} (h : ∀ i, P i → Q a i) : Gives P (Pure.pure a) Q := by
  rintro i hi _ _ ⟨⟩
  exact h i hi

theorem bind (hp : Gives P p Q) (hf : ∀ a, Gives (Q a) (f a) R) : Gives P (p >>= f) R := by
  intro i hi b j h
  rw [StateT.run_bind] at h
  cases hrun : p.run i with
  | error e =>
    rw [hrun] at h
    cases h
  | ok r =>
    rw [hrun] at h
    exact hf r.1 r.2 (hp i hi _ _ hrun) b j h

theorem mono (h : Gives P p Q) (hP : ∀ i, P' i → P i) (hQ : ∀ a j, Q a j → Q' a j) : Gives P' p Q' :=
  fun i hi a j hrun => hQ a j (h i (hP i hi) a j hrun)

theorem get : Gives P MonadState.get fun i j => P j ∧ i = j := by
  rintro i hi _ _ ⟨⟩
  exact ⟨hi, rfl⟩

theorem set {j : Input} : Gives P (MonadStateOf.set j) fun _ k => k = j ∧ ∃ i, P i := by
  rintro i hi _ _ ⟨⟩
  exact ⟨rfl, i, hi⟩

theorem fail {fault : SyntaxFault} : Gives P (Parser.fail fault : Parser α) Q := by
  rintro i _ _ _ ⟨⟩

/-- What an outcome that is already there gives. -/
theorem lift {r : Except ParseError α} : Gives P (liftM r : Parser α) fun a j => P j ∧ r = .ok a := by
  intro i hi a j h
  cases r with
  | error e => cases h
  | ok b =>
    cases h
    exact ⟨hi, rfl⟩

theorem ite {c : Prop} [Decidable c] {q : Parser α} (ht : c → Gives P p Q) (he : ¬c → Gives P q Q) :
    Gives P (if c then p else q) Q := by
  by_cases h : c
  · rw [if_pos h]
    exact ht h
  · rw [if_neg h]
    exact he h

end Gives

namespace Yields

variable {α β : Type} {p : Parser α} {f : α → Parser β} {Q Q' : α → Prop} {R : β → Prop}

theorem any (p : Parser α) : Yields p fun _ => True := fun _ _ _ _ _ => trivial

theorem pure {a : α} (h : Q a) : Yields (Pure.pure a) Q := Gives.pure fun _ _ => h

theorem bind (hp : Yields p Q) (hf : ∀ a, Q a → Yields (f a) R) : Yields (p >>= f) R :=
  Gives.bind hp fun a i hi => hf a hi i trivial

/-- A reader whose value does not matter. -/
theorem andThen (hf : ∀ a, Yields (f a) R) : Yields (p >>= f) R := (any p).bind fun a _ => hf a

theorem mono (h : Yields p Q) (hQ : ∀ a, Q a → Q' a) : Yields p Q' := Gives.mono h (fun _ h => h) fun a _ => hQ a

theorem gives {P : Input → Prop} (h : Yields p Q) : Gives P p fun a _ => Q a :=
  Gives.mono h (fun _ _ => trivial) fun _ _ h => h

theorem bounded {p : Nat → Parser α} (h : ∀ n, Yields (p n) Q) : Yields (Parser.bounded p) Q :=
  andThen fun _ => h _

end Yields

/-! ## §B  Names, numerals, quoted texts -/

theorem isNcName_of_name {i : Input} (h : i.name ≠ []) : IsNcName (String.ofList i.name) := by
  unfold Input.name at h ⊢
  cases hrest : i.rest with
  | nil => simp [hrest] at h
  | cons c cs =>
    rw [hrest] at h
    cases hc : isNameStart c with
    | false => simp [hc] at h
    | true => exact ⟨c, cs.takeWhile isNameChar, by simp [hc], hc, fun d hd => List.all_eq_true.mp List.all_takeWhile d hd⟩

/-- A name, and the input behind it. -/
theorem gives_name (i : Input) : Gives (· = i) name fun s j =>
    IsNcName s ∧ s = String.ofList i.name ∧ j = i.drop i.name.length := by
  refine Gives.get.bind fun k => Gives.lift.bind fun r => Gives.set.bind fun _ => Gives.pure ?_
  rintro _ ⟨rfl, j, ⟨rfl, rfl⟩, hr⟩
  simp only [Input.takeName] at hr
  split at hr
  · cases hr
  · next hne =>
    cases hr
    exact ⟨isNcName_of_name (by simpa using hne), rfl, rfl⟩

theorem yields_name : Yields name IsNcName :=
  fun i _ a j h => (gives_name i i rfl a j h).1

theorem yields_quoted : Yields quoted Quotable := by
  refine Gives.get.bind fun k => Gives.lift.bind fun r => Gives.set.bind fun _ => Gives.pure ?_
  rintro _ ⟨-, j, -, hr⟩
  unfold Input.takeQuoted at hr
  split at hr
  · cases hr
  · next q cs hrest =>
    split at hr
    · cases hr
    · next hq =>
      simp only at hr
      split at hr
      · cases hr
      · cases hr
        refine ⟨q, ?_, fun hmem => ?_⟩
        · simp only [Bool.and_eq_true, bne_iff_ne, ne_eq, not_and, Decidable.not_not] at hq
          by_cases h : q = '\''
          · exact .inl h
          · exact .inr (hq h)
        · rw [String.toList_ofList] at hmem
          have := List.all_eq_true.mp List.all_takeWhile q hmem
          simp at this

/-- What is skipped as digits is a run of digits. -/
theorem exists_skipDigits (i : Input) :
    ∃ ds : List Char, (∀ d ∈ ds, d.isDigit = true) ∧ i.rest = ds ++ i.skipDigits.rest := by
  refine ⟨i.rest.takeWhile Char.isDigit, fun d hd => List.all_eq_true.mp List.all_takeWhile d hd, ?_⟩
  rw [Input.skipDigits, Input.rest_drop_front, List.takeWhile_append_dropWhile]

/-- What is skipped as a number is digits with at most one point. -/
theorem exists_skipNumber (i : Input) : ∃ cs : List Char,
    (cs = [] ∨ cs = ['.'] ∨ IsDigitLiteral cs) ∧ i.rest = cs ++ i.skipNumber.rest := by
  obtain ⟨ds, hds, hrest⟩ := exists_skipDigits i
  cases hskip : i.skipDigits.skip? ['.'] with
  | none =>
    refine ⟨ds, ?_, by simpa only [Input.skipNumber, hskip] using hrest⟩
    by_cases hne : ds = []
    · exact .inl hne
    · exact .inr (.inr (.whole hne hds))
  | some j =>
    have hpoint : i.skipDigits.rest = '.' :: j.rest := by
      simp only [Input.skip?] at hskip
      split at hskip
      · next hstarts =>
        cases hskip
        obtain ⟨tail, htail⟩ := List.isPrefixOf_iff_prefix.mp hstarts
        simp only [Input.drop, ← htail]
        rfl
      · cases hskip
    obtain ⟨fs, hfs, hrest'⟩ := exists_skipDigits j
    refine ⟨ds ++ '.' :: fs, ?_, ?_⟩
    · by_cases hne : ds ++ fs = []
      · obtain ⟨rfl, rfl⟩ := List.append_eq_nil_iff.mp hne
        exact .inr (.inl rfl)
      · refine .inr (.inr (.point hne fun d hd => ?_))
        rcases List.mem_append.mp hd with hd | hd
        · exact hds d hd
        · exact hfs d hd
    · simp only [Input.skipNumber, hskip]
      rw [hrest, hpoint, hrest', List.append_assoc, List.cons_append]

theorem yields_number : Yields number fun s => IsDigitLiteral s.toList := by
  refine Gives.get.bind fun k => Gives.set.bind fun _ => Gives.lift.mono (fun _ h => h) ?_
  rintro a _ ⟨⟨-, j, -⟩, hr⟩
  obtain ⟨cs, hcs, hrest⟩ := exists_skipNumber k
  have htake : k.rest.take (k.rest.length - k.skipNumber.rest.length) = cs := by
    conv => lhs; rw [hrest]
    simp
  change k.takeNumber.1 = .ok a at hr
  simp only [Input.takeNumber, htake] at hr
  rcases hcs with rfl | rfl | hcs
  · cases hr
  · cases hr
  · obtain ⟨hne, hpoint⟩ := ne_nil_of_isDigitLiteral hcs
    simp only [List.isEmpty_eq_false_iff.mpr hne, beq_eq_false_iff_ne.mpr hpoint, Bool.or_self, Bool.false_eq_true,
      if_false] at hr
    cases hr
    rwa [String.toList_ofList]

/-! ## §C  Sequences -/

theorem yields_itemsFrom {α : Type} {Q : α → Prop} {more : Parser Bool} {item : Parser α} (hitem : Yields item Q) :
    ∀ n {taken : List α}, (∀ a ∈ taken, Q a) → Yields (itemsFrom more item n taken) fun as => ∀ a ∈ as, Q a
  | 0, _, htaken => Yields.pure fun a ha => htaken a (List.mem_reverse.mp ha)
  | n + 1, taken, htaken => by
    refine Yields.andThen fun found => Gives.ite (fun _ => ?_) fun _ => Yields.pure fun a ha =>
      htaken a (List.mem_reverse.mp ha)
    exact Yields.bind hitem fun a ha => yields_itemsFrom hitem n (List.forall_mem_cons.mpr ⟨ha, htaken⟩)

/-- A sequence from its beginning. -/
theorem yields_items {α : Type} {Q : α → Prop} {more : Parser Bool} {item : Parser α} (hitem : Yields item Q) :
    Yields (bounded fun n => itemsFrom more item n []) fun as => ∀ a ∈ as, Q a :=
  Yields.bounded fun n => yields_itemsFrom hitem n fun _ h => nomatch h

/-! ## §D  Steps and paths -/

/-- Whether a step is one that can be written. -/
def StepWellFormed (s : Step) : Prop := s.test.WellFormed ∧ ∀ e ∈ s.predicates, e.WellFormed DigitValue

theorem yields_nodeTypeTail (t : NodeType) : Yields (nodeTypeTail t) NodeTest.WellFormed := by
  refine Yields.andThen fun _ => Yields.andThen fun _ => Gives.ite (fun _ => ?_) fun _ =>
    Yields.andThen fun _ => Yields.pure trivial
  exact Yields.bind yields_quoted fun target htarget =>
    Yields.andThen fun _ => Yields.andThen fun _ => Yields.pure htarget

theorem yields_nodeTest : Yields nodeTest NodeTest.WellFormed := by
  have hplain : ∀ {l : String}, l = "*" ∨ IsNcName l → (NodeTest.name (.plain l)).WellFormed := fun hl =>
    ⟨fun _ h => (nomatch h), hl⟩
  have hqualified : ∀ {q l : String}, IsNcName q → l = "*" ∨ IsNcName l →
      (NodeTest.name (.make (some q) l)).WellFormed := by
    intro q l hq hl
    rw [QName.make_of_isNcName hq]
    refine ⟨?_, hl⟩
    rintro _ ⟨⟩
    exact hq
  refine Yields.andThen fun star => Gives.ite (fun _ => Yields.pure (hplain (.inl rfl))) fun _ => ?_
  refine Yields.andThen fun start => Yields.bind yields_name fun first hfirst => Yields.andThen fun i => ?_
  refine Gives.ite (fun _ => Yields.andThen fun _ => Yields.andThen fun star => ?_) fun _ => ?_
  · refine Gives.ite (fun _ => Yields.pure (hqualified hfirst (.inl rfl))) fun _ => ?_
    exact Yields.bind yields_name fun l hl => Yields.pure (hqualified hfirst (.inr hl))
  · refine Gives.ite (fun _ => ?_) fun _ => Yields.pure (hplain (.inr hfirst))
    split
    · exact Yields.andThen fun _ => Gives.fail
    · exact Yields.andThen fun _ => yields_nodeTypeTail _

section

variable {inner : Parser Expr} (hinner : Yields inner (Expr.WellFormed DigitValue))

include hinner

theorem yields_predicates : Yields (predicates inner) fun es => ∀ e ∈ es, e.WellFormed DigitValue :=
  yields_items (Yields.bind hinner fun _ he => Yields.andThen fun _ => Yields.andThen fun _ => Yields.pure he)

theorem yields_step : Yields (step inner) StepWellFormed := by
  have hany : ∀ a, StepWellFormed (anyNode a) := fun a => ⟨trivial, fun _ h => nomatch h⟩
  refine Yields.andThen fun _ => Yields.andThen fun _ => Gives.ite (fun _ => Yields.pure (hany _)) fun _ => ?_
  refine Yields.andThen fun _ => Gives.ite (fun _ => Yields.pure (hany _)) fun _ => ?_
  refine Yields.andThen fun a => Yields.andThen fun _ => Yields.bind yields_nodeTest fun test htest => ?_
  exact Yields.bind (yields_predicates hinner) fun es hes => Yields.pure ⟨htest, hes⟩

theorem yields_stepsFrom : ∀ n {taken : List Step}, (∀ s ∈ taken, StepWellFormed s) →
    Yields (stepsFrom inner n taken) fun ss => (∀ s ∈ ss, StepWellFormed s) ∧ taken.length ≤ ss.length
  | 0, taken, htaken => Yields.pure ⟨fun s hs => htaken s (List.mem_reverse.mp hs), by simp⟩
  | n + 1, taken, htaken => by
    have hany : StepWellFormed (anyNode .descendantOrSelf) := ⟨trivial, fun _ h => nomatch h⟩
    have hmore : ∀ {others : List Step}, (∀ s ∈ others, StepWellFormed s) → taken.length ≤ others.length →
        Yields (do stepsFrom inner n ((← step inner) :: others)) fun ss =>
          (∀ s ∈ ss, StepWellFormed s) ∧ taken.length ≤ ss.length := by
      intro others hothers hlength
      refine Yields.bind (yields_step hinner) fun s hs => ?_
      refine (yields_stepsFrom n (List.forall_mem_cons.mpr ⟨hs, hothers⟩)).mono fun ss hss => ⟨hss.1, ?_⟩
      exact Nat.le_trans (Nat.le_succ_of_le hlength) hss.2
    refine Yields.andThen fun _ => Yields.andThen fun _ => Gives.ite (fun _ => ?_) fun _ => ?_
    · exact hmore (List.forall_mem_cons.mpr ⟨hany, htaken⟩) (Nat.le_succ _)
    · refine Yields.andThen fun _ => Gives.ite (fun _ => hmore htaken (Nat.le_refl _)) fun _ => ?_
      exact Yields.pure ⟨fun s hs => htaken s (List.mem_reverse.mp hs), by simp⟩

theorem yields_steps {taken : List Step} (htaken : ∀ s ∈ taken, StepWellFormed s) :
    Yields (steps inner taken) fun ss => (∀ s ∈ ss, StepWellFormed s) ∧ taken.length ≤ ss.length :=
  Yields.bounded fun n => yields_stepsFrom hinner n htaken

theorem yields_locationPath : Yields (locationPath inner) (Expr.WellFormed DigitValue) := by
  have hpath : ∀ (absolute : Bool) {ss : List Step}, (∀ s ∈ ss, StepWellFormed s) ∧ 1 ≤ ss.length →
      (Expr.path absolute ss).WellFormed DigitValue := by
    rintro absolute ss ⟨hss, hlength⟩
    refine .path (fun _ => ?_) (fun s hs => (hss s hs).1) fun s hs => (hss s hs).2
    rintro rfl
    cases hlength
  have hany : StepWellFormed (anyNode .descendantOrSelf) := ⟨trivial, fun _ h => nomatch h⟩
  have hsingle : ∀ absolute, Yields (do pure (Expr.path absolute (← steps inner [← step inner])))
      (Expr.WellFormed DigitValue) := fun absolute =>
    Yields.bind (yields_step hinner) fun s hs =>
      Yields.bind (yields_steps hinner (List.forall_mem_cons.mpr ⟨hs, fun _ h => nomatch h⟩)) fun ss hss =>
        Yields.pure (hpath absolute hss)
  refine Yields.andThen fun _ => Gives.ite (fun _ => ?_) fun _ => ?_
  · refine Yields.bind (yields_step hinner) fun s hs => ?_
    refine Yields.bind (yields_steps hinner (List.forall_mem_cons.mpr
      ⟨hs, List.forall_mem_cons.mpr ⟨hany, fun _ h => nomatch h⟩⟩)) fun ss hss => Yields.pure (hpath _ ⟨hss.1, ?_⟩)
    exact Nat.le_trans (Nat.le_add_left 1 1) hss.2
  · refine Yields.andThen fun _ => Gives.ite (fun _ => ?_) fun _ => hsingle false
    refine Yields.andThen fun _ => Yields.andThen fun i => Gives.ite (fun _ => ?_) fun _ => hsingle true
    exact Yields.pure (.path (fun h => nomatch h) (fun _ h => nomatch h) fun _ h => nomatch h)

end

/-! ## §E  Primary expressions -/

/-- A name with its qualifier; without one it is the name at the front, and the input behind it is left. -/
theorem gives_qualifiedName (i : Input) : Gives (· = i) qualifiedName fun n j =>
    (QName.mk n.1 n.2).WellFormed ∧ (n.1 = none → n.2 = String.ofList i.name ∧ j = i.drop i.name.length) := by
  refine (gives_name i).bind fun first => Gives.get.bind fun k => Gives.ite (fun _ => ?_) fun _ => ?_
  · refine Gives.set.bind fun _ => ?_
    refine Gives.bind (Q := fun l _ => IsNcName first ∧ IsNcName l) ?_ fun l => Gives.pure fun j hj => ?_
    · rintro j ⟨-, k, ⟨hfirst, -⟩, -⟩ l k' hl
      exact ⟨hfirst, yields_name j trivial l k' hl⟩
    · refine ⟨⟨?_, hj.2⟩, fun h => nomatch h⟩
      rintro _ ⟨⟩
      exact hj.1
  · refine Gives.pure ?_
    rintro _ ⟨⟨hfirst, hname, hdrop⟩, rfl⟩
    exact ⟨⟨fun _ h => (nomatch h), hfirst⟩, fun _ => ⟨hname, hdrop⟩⟩

theorem skipBlanks_skipBlanks (i : Input) : i.skipBlanks.skipBlanks = i.skipBlanks := by
  have hsplit := List.takeWhile_append_dropWhile (p := Text.isBlank) (l := i.skipBlanks.rest)
  have htrim : i.skipBlanks.rest.dropWhile Text.isBlank = i.skipBlanks.rest := by
    rw [Input.rest_skipBlanks]
    exact Text.trimStart_trimStart i.rest
  rw [htrim] at hsplit
  have hfront : i.skipBlanks.front Text.isBlank = [] := List.append_left_eq_self.mp hsplit
  conv => lhs; rw [Input.skipBlanks, hfront]
  rfl

/-- The name of a call in front of which no path begins is no node type. -/
theorem ofName?_eq_none_of_nameStartsPath {i : Input} (h : nameStartsPath i = false)
    (hopen : (i.drop i.name.length).skipBlanks.peek? = some '(') : NodeType.ofName? (String.ofList i.name) = none := by
  have hcolons : (i.drop i.name.length).skipBlanks.startsWith [':', ':'] = false :=
    isPrefixOf_eq_false (by rw [← Input.peek?, hopen]; decide)
  simp only [nameStartsPath, hcolons, hopen] at h
  exact Option.isSome_eq_false_iff.mp h |> Option.isNone_iff_eq_none.mp

theorem gives_expect {P : Input → Prop} (c : Char) : Gives P (expect c) fun _ _ => ∃ i, P i ∧ i.peek? = some c := by
  refine Gives.get.bind fun k => Gives.lift.bind fun r => Gives.set.mono (fun _ h => h) ?_
  rintro _ _ ⟨-, j, ⟨hj, rfl⟩, hr⟩
  refine ⟨k, hj, Decidable.byContradiction fun hpeek => ?_⟩
  have hskip : k.skip? [c] = none := Input.skip?_eq_none (isPrefixOf_eq_false hpeek)
  simp only [Input.expect, hskip] at hr
  cases hr

/-- A bare expression with predicates and steps. -/
theorem StepWellFormed.filterOf {head : Expr} {es : List Expr} {ss : List Step} (hhead : head.WellFormed DigitValue)
    (hes : ∀ e ∈ es, e.WellFormed DigitValue) (hss : ∀ s ∈ ss, StepWellFormed s) :
    (Expr.filterOf head es ss).WellFormed DigitValue := by
  unfold Expr.filterOf
  split
  · exact hhead
  · next hne =>
    refine .filter hhead ?_ hes (fun s hs => (hss s hs).1) fun s hs => (hss s hs).2
    simpa [Decidable.imp_iff_not_or] using hne

section

variable {inner : Parser Expr} (hinner : Yields inner (Expr.WellFormed DigitValue))

include hinner

theorem yields_arguments : Yields (arguments inner) fun es => ∀ e ∈ es, e.WellFormed DigitValue := by
  refine Yields.andThen fun _ => Yields.andThen fun _ => Gives.ite (fun _ => Yields.pure fun _ h => nomatch h) fun _ => ?_
  refine Yields.bind hinner fun e he => Yields.bind (yields_items hinner) fun es hes => Yields.andThen fun _ => ?_
  exact Yields.pure (List.forall_mem_cons.mpr ⟨he, hes⟩)

theorem gives_functionCall : Gives (fun i => nameStartsPath i = false) (functionCall inner)
    fun e _ => e.WellFormed DigitValue := by
  intro i hi
  refine (gives_qualifiedName i).bind (fun n => ?_) i rfl
  obtain ⟨qualifier, l⟩ := n
  have hblanks : Gives (fun j => (QName.mk qualifier l).WellFormed ∧
      (qualifier = none → l = String.ofList i.name ∧ j = i.drop i.name.length)) blanks
      fun _ k => (QName.mk qualifier l).WellFormed ∧
        (qualifier = none → k.peek? = some '(' → NodeType.ofName? l = none) := by
    rintro j ⟨hwf, hnone⟩ _ _ ⟨⟩
    refine ⟨hwf, fun hq hpeek => ?_⟩
    obtain ⟨rfl, rfl⟩ := hnone hq
    exact ofName?_eq_none_of_nameStartsPath hi hpeek
  refine hblanks.bind fun _ => (gives_expect '(').bind fun _ => ?_
  rintro j ⟨k, ⟨hwf, htype⟩, hpeek⟩
  refine Yields.bind (yields_arguments hinner) (fun es hes => ?_) j trivial
  rw [QName.make_of_wellFormed hwf]
  cases qualifier with
  | some q => exact Yields.pure (.call hwf (fun h => nomatch h) hes)
  | none =>
    cases hcore : CoreFunction.ofName? l with
    | some f => exact Yields.pure (.core hes)
    | none => exact Yields.pure (.call hwf (fun _ => ⟨hcore, htype rfl hpeek⟩) hes)

/-- What is read where no path begins. -/
theorem gives_primary : Gives (fun i => startsPath i.skipBlanks = false) (primary inner)
    fun e _ => e.WellFormed DigitValue := by
  intro i hi
  have hblanks : Gives (· = i) blanks fun _ j => j = i.skipBlanks := by
    rintro _ rfl _ _ ⟨⟩
    rfl
  refine (hblanks.bind fun _ => Gives.get.bind fun j => ?_) i rfl
  split
  · exact Gives.fail
  next c hpeek =>
  refine Gives.ite (fun _ => ?_) fun _ => ?_
  · refine Yields.gives (Yields.andThen fun _ => ?_)
    refine Yields.bind (Q := fun n => (QName.mk n.1 n.2).WellFormed) ?_ fun n hn => Yields.pure (.var ?_)
    · exact fun k _ n j h => (gives_qualifiedName k k rfl n j h).1
    · rwa [QName.make_of_wellFormed hn]
  refine Gives.ite (fun _ => ?_) fun _ => ?_
  · exact Yields.gives (Yields.andThen fun _ => Yields.bind hinner fun e he =>
      Yields.andThen fun _ => Yields.andThen fun _ => Yields.pure he)
  refine Gives.ite (fun _ => ?_) fun _ => ?_
  · exact Yields.gives (Yields.bind yields_quoted fun s hs => Yields.pure (.text hs))
  refine Gives.ite (fun _ => ?_) fun _ => ?_
  · refine Yields.gives (Yields.bind yields_number fun s hs => Yields.pure (.number ⟨s.toList, hs, ?_⟩))
    rw [String.ofList_toList]
  refine Gives.ite (fun hname => ?_) fun _ => Gives.fail
  refine (gives_functionCall hinner).mono ?_ fun _ _ h => h
  rintro _ ⟨rfl, rfl⟩
  -- What is left is a name; it starts no path, or the path would have been read before.
  generalize i.skipBlanks = j at hi hpeek
  obtain ⟨rest, n⟩ := j
  obtain ⟨cs, rfl⟩ : ∃ cs, rest = c :: cs := List.head?_eq_some_iff.mp hpeek
  rwa [startsPath_cons hname] at hi

theorem yields_path : Yields (Parser.path inner) (Expr.WellFormed DigitValue) := by
  intro i _
  have hblanks : Gives (· = i) blanks fun _ j => j = i.skipBlanks := by
    rintro _ rfl _ _ ⟨⟩
    rfl
  refine (hblanks.bind fun _ => Gives.get.bind fun j => Gives.ite (fun _ => ?_) fun hstart => ?_) i rfl
  · exact Yields.gives (yields_locationPath hinner)
  refine Gives.bind (Q := fun e _ => e.WellFormed DigitValue) ?_ fun head => ?_
  · refine (gives_primary hinner).mono ?_ fun _ _ h => h
    rintro _ ⟨rfl, rfl⟩
    rw [skipBlanks_skipBlanks]
    exact Bool.eq_false_iff.mpr hstart
  intro k hhead
  refine Yields.bind (yields_predicates hinner) (fun es hes => ?_) k trivial
  refine Yields.andThen fun _ => Yields.andThen fun _ => Gives.ite (fun _ => ?_) fun _ => ?_
  · refine Yields.bind (yields_steps hinner fun _ h => nomatch h) fun ss hss => ?_
    exact Yields.pure (StepWellFormed.filterOf hhead hes hss.1)
  · exact Yields.pure (StepWellFormed.filterOf hhead hes fun _ h => (nomatch h))

end

/-! ## §F  Operators -/

theorem yields_operands {op : Operator} {more : Parser Bool} {operand : Parser Expr} (hop : ∀ n, 2 ≤ n → op.Takes n)
    (hoperand : Yields operand (Expr.WellFormed DigitValue)) :
    Yields (operands op more operand) (Expr.WellFormed DigitValue) := by
  refine Yields.bind hoperand fun e he => Yields.bind (yields_items hoperand) fun es hes => ?_
  cases es with
  | nil => exact Yields.pure he
  | cons e' es => exact Yields.pure (.operation (hop _ (by simp)) (List.forall_mem_cons.mpr ⟨he, hes⟩))

theorem yields_leftFrom {operator : Parser (Option Operator)} {operand : Parser Expr}
    (hoperator : Yields operator fun op => ∀ o ∈ op, o.Takes 2)
    (hoperand : Yields operand (Expr.WellFormed DigitValue)) :
    ∀ n {e : Expr}, e.WellFormed DigitValue → Yields (leftFrom operator operand n e) (Expr.WellFormed DigitValue)
  | 0, _, he => Yields.pure he
  | n + 1, e, he => by
    refine Yields.bind hoperator fun op hop => ?_
    cases op with
    | none => exact Yields.pure he
    | some op =>
      refine Yields.bind hoperand fun e' he' => yields_leftFrom hoperator hoperand n ?_
      exact .operation (hop op rfl) (List.forall_mem_cons.mpr ⟨he, List.forall_mem_cons.mpr ⟨he', fun _ h => nomatch h⟩⟩)

theorem yields_left {operator : Parser (Option Operator)} {operand : Parser Expr}
    (hoperator : Yields operator fun op => ∀ o ∈ op, o.Takes 2)
    (hoperand : Yields operand (Expr.WellFormed DigitValue)) :
    Yields (left operator operand) (Expr.WellFormed DigitValue) :=
  Yields.bind hoperand fun _ he => Yields.bounded fun n => yields_leftFrom hoperator hoperand n he

theorem yields_symbolic {ops : List Operator} (h : ∀ op ∈ ops, op.Takes 2) :
    Yields (symbolic ops) fun op => ∀ o ∈ op, o.Takes 2 := by
  refine Yields.andThen fun _ => ?_
  induction ops with
  | nil => exact Yields.pure fun _ h => nomatch h
  | cons op ops ih =>
    obtain ⟨hop, hops⟩ := List.forall_mem_cons.mp h
    refine Yields.andThen fun _ => Gives.ite (fun _ => Yields.pure ?_) fun _ => ih hops
    rintro _ ⟨⟩
    exact hop

theorem yields_multiplicativeOperator : Yields multiplicativeOperator fun op => ∀ o ∈ op, o.Takes 2 := by
  have hsome : ∀ {op : Operator}, op.Takes 2 → ∀ o ∈ some op, o.Takes 2 := by
    rintro op hop _ ⟨⟩
    exact hop
  refine Yields.andThen fun _ => Yields.andThen fun _ => Gives.ite (fun _ => Yields.pure (hsome rfl)) fun _ => ?_
  refine Yields.andThen fun _ => Gives.ite (fun _ => Yields.pure (hsome rfl)) fun _ => ?_
  exact Yields.andThen fun _ => Gives.ite (fun _ => Yields.pure (hsome rfl)) fun _ => Yields.pure fun _ h => nomatch h

section

variable {inner : Parser Expr} (hinner : Yields inner (Expr.WellFormed DigitValue))

include hinner

theorem yields_union : Yields (union inner) (Expr.WellFormed DigitValue) :=
  yields_operands (fun _ h => h) (yields_path hinner)

theorem yields_unaryFrom : ∀ n, Yields (unaryFrom inner n) (Expr.WellFormed DigitValue)
  | 0 => Gives.fail
  | n + 1 => by
    refine Yields.andThen fun _ => Yields.andThen fun _ => Gives.ite (fun _ => ?_) fun _ => yields_union hinner
    refine Yields.bind (yields_unaryFrom n) fun e he => Yields.pure (.operation rfl ?_)
    exact List.forall_mem_cons.mpr ⟨he, fun _ h => nomatch h⟩

theorem yields_disjunction : Yields (disjunction inner) (Expr.WellFormed DigitValue) := by
  have hunary : Yields (unary inner) (Expr.WellFormed DigitValue) := Yields.bounded (yields_unaryFrom hinner)
  have hmultiplicative := yields_left yields_multiplicativeOperator hunary
  have hsymbolic : ∀ ops : List Operator, (∀ op ∈ ops, op.joins = false ∧ op ≠ .negate) →
      Yields (symbolic ops) fun op => ∀ o ∈ op, o.Takes 2 := by
    refine fun ops h => yields_symbolic fun op hop => ?_
    obtain ⟨hjoins, hne⟩ := h op hop
    cases op <;> first | rfl | exact absurd hjoins (by decide) | exact absurd rfl hne
  have hadditive := yields_left (hsymbolic [.sum, .minus] (by decide)) hmultiplicative
  have hrelational := yields_left (hsymbolic [.lessOrEqual, .greaterOrEqual, .less, .greater] (by decide)) hadditive
  have hequality := yields_left (hsymbolic [.notEqual, .equal] (by decide)) hrelational
  exact yields_operands (fun _ h => h) (yields_operands (fun _ h => h) hequality)

end

theorem yields_expression : ∀ depth, Yields (expression depth) (Expr.WellFormed DigitValue)
  | 0 => Gives.fail
  | depth + 1 => yields_disjunction (yields_expression depth)

theorem yields_wholeText : Yields wholeText (Expr.WellFormed DigitValue) := by
  refine Yields.andThen fun _ => Yields.bind (Yields.bounded yields_expression) fun e he => ?_
  exact Yields.andThen fun _ => Yields.andThen fun _ => Gives.ite (fun _ => Yields.pure he) fun _ => Gives.fail

end Parser

theorem Expr.exists_run_of_parse {s : String} {e : Expr} (h : Expr.parse s = .ok e) :
    ∃ j, Parser.wholeText.run (Input.ofString s) = .ok (e, j) := by
  unfold Expr.parse at h
  rw [StateT.run'_eq] at h
  cases hrun : Parser.wholeText.run (Input.ofString s) with
  | error err =>
    rw [hrun] at h
    cases h
  | ok r =>
    rw [hrun] at h
    cases h
    exact ⟨r.2, rfl⟩

/-- A tree that is read from a text is well formed. -/
theorem Expr.wellFormed_of_parse {s : String} {e : Expr} (h : Expr.parse s = .ok e) : e.WellFormed DigitValue := by
  obtain ⟨j, hrun⟩ := Expr.exists_run_of_parse h
  exact Parser.yields_wholeText _ trivial _ _ hrun

end NodePath
