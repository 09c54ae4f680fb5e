/-
# NodePath.Proofs.Abbreviation — abbreviated steps mean their expansions

A step can be written with its axis spelled out, and often shorter: the child axis need not be written, an at sign
stands for the attribute axis, one and two points for the nodes that are reached along the self and the parent axis,
and two slashes for a step to any node below. Each choice is made step by step, and whatever is chosen, the path is
read as the steps that are meant. What stands in the brackets of a step is any text that is read as an expression.

* §A  Steps and paths with their texts.
* §B  Predicates.
* §C  A single step.
* §D  Further steps.
* §E  Whole paths.
-/
import NodePath.Proofs.Locality
import NodePath.Proofs.Reading

namespace NodePath

open NodePath.Parser

/-! ## §A  Texts -/

/-- **WrittenPredicate** is the text of a predicate, with the expression that it is read as. -/
structure WrittenPredicate where
  text : List Char
  tree : Expr
  parses : Expr.parse (String.ofList text) = .ok tree

/-- **WrittenStep** is a step with the texts of its test and of its predicates. -/
structure WrittenStep where
  axis : Axis
  test : NodeTest
  testText : List Char
  predicates : List WrittenPredicate
  wellFormed : test.WellFormed
  spells : test.Spells testText

namespace WrittenPredicate

/-- Predicates, each in its brackets. -/
def bracketed (ps : List WrittenPredicate) : List Char := ps.flatMap fun p => '[' :: (p.text ++ [']'])

end WrittenPredicate

namespace WrittenStep

/-- The step that is meant. -/
def step (s : WrittenStep) : Step := ⟨s.axis, s.test, s.predicates.map (·.tree)⟩

/-- What is written behind the axis. -/
def behindAxis (s : WrittenStep) : List Char := s.testText ++ WrittenPredicate.bracketed s.predicates

/-- A step with its axis spelled out. -/
def spelledOut (s : WrittenStep) : List Char := s.axis.name.toList ++ [':', ':'] ++ s.behindAxis

/-- **Spells** says that a text is the step, written out or abbreviated. -/
inductive Spells (s : WrittenStep) : List Char → Prop
  /-- The axis is spelled out, or it is the child axis and left out, or the attribute axis and an at sign. -/
  | axis {as : List Char} : s.axis.Spells as → Spells s (as ++ s.behindAxis)
  | self : s.step = anyNode .self → Spells s ['.']
  | parent : s.step = anyNode .parent → Spells s ['.', '.']

/-- **SpellsFurther** says that a text is steps, each behind a slash. Two slashes stand for a step to any node below
and one slash around it; so such a step is followed by one that is written in another way. -/
inductive SpellsFurther : List WrittenStep → List Char → Prop
  | nil : SpellsFurther [] []
  | slash {s : WrittenStep} {ss : List WrittenStep} {cs ds : List Char} : s.Spells cs → SpellsFurther ss ds →
      SpellsFurther (s :: ss) ('/' :: (cs ++ ds))
  | slashes {any s : WrittenStep} {ss : List WrittenStep} {cs ds : List Char} :
      any.step = anyNode .descendantOrSelf → s.Spells cs → SpellsFurther ss ds →
      SpellsFurther (any :: s :: ss) ('/' :: '/' :: (cs ++ ds))

/-- **SpellsPath** says that a text is a path of at least one step. -/
inductive SpellsPath : Bool → List WrittenStep → List Char → Prop
  | relative {s : WrittenStep} {ss : List WrittenStep} {cs ds : List Char} : s.Spells cs → SpellsFurther ss ds →
      SpellsPath false (s :: ss) (cs ++ ds)
  | absolute {ss : List WrittenStep} {cs : List Char} : ss ≠ [] → SpellsFurther ss cs → SpellsPath true ss cs

/-- Steps that are all spelled out, each behind a slash. -/
def furtherSpelledOut (ss : List WrittenStep) : List Char := ss.flatMap fun s => '/' :: s.spelledOut

/-- A path in which every step is spelled out. -/
def pathSpelledOut : Bool → List WrittenStep → List Char
  | true, ss => furtherSpelledOut ss
  | false, [] => []
  | false, s :: ss => s.spelledOut ++ furtherSpelledOut ss

theorem spells_spelledOut (s : WrittenStep) : s.Spells s.spelledOut := .axis (.full s.axis)

theorem spellsFurther_spelledOut (ss : List WrittenStep) : SpellsFurther ss (furtherSpelledOut ss) := by
  induction ss with
  | nil => exact .nil
  | cons s ss ih => exact .slash s.spells_spelledOut ih

theorem SpellsPath.ne_nil {absolute : Bool} {ss : List WrittenStep} {cs : List Char} (h : SpellsPath absolute ss cs) :
    ss ≠ [] := by
  cases h with
  | relative => exact List.cons_ne_nil _ _
  | absolute hne => exact hne

/-- To spell out every step is one of the choices. -/
theorem spellsPath_spelledOut {ss : List WrittenStep} (hne : ss ≠ []) (absolute : Bool) :
    SpellsPath absolute ss (pathSpelledOut absolute ss) := by
  cases absolute with
  | true => exact .absolute hne (spellsFurther_spelledOut ss)
  | false =>
    obtain ⟨s, ss, rfl⟩ := List.exists_cons_of_ne_nil hne
    exact .relative s.spells_spelledOut (spellsFurther_spelledOut ss)

end WrittenStep

/-! ## §B  Predicates -/

theorem WrittenPredicate.takes {ps : List WrittenPredicate} {depth : Nat} {rest : List Char}
    (hdepth : (bracketed ps).length ≤ depth) (hrest : (Text.trimStart rest).head? ≠ some '[') {n : Nat}
    {taken : List Expr} (hn : (bracketed ps ++ rest).length < n) :
    Takes (itemsFrom (mark '[') (predicate (expression depth)) n taken) (bracketed ps ++ rest)
      (taken.reverse ++ ps.map (·.tree)) (Text.trimStart rest) := by
  induction ps generalizing n taken with
  | nil =>
    rw [List.map_nil, List.append_nil]
    exact takes_mark_items_none hrest (by omega)
  | cons p ps ih =>
    obtain ⟨n, rfl⟩ : ∃ m, n = m + 1 := ⟨n - 1, by omega⟩
    have htext : bracketed (p :: ps) ++ rest = '[' :: (p.text ++ ']' :: (bracketed ps ++ rest)) := by
      simp [bracketed]
    have hlength : (bracketed (p :: ps)).length = p.text.length + 2 + (bracketed ps).length := by
      simp [bracketed]
      omega
    have hothers := @ih (by omega) n (p.tree :: taken) (by
      rw [List.length_append] at hn ⊢
      omega)
    rw [List.reverse_cons, List.append_assoc] at hothers
    rw [htext]
    exact takes_itemsFrom_cons (takes_mark (Text.trimStart_cons (isBlank_eq_false (by decide))))
      (takes_predicate_of_parse p.parses (by omega)) hothers

theorem WrittenPredicate.takes_predicates {ps : List WrittenPredicate} {depth : Nat} {rest : List Char}
    (hdepth : (bracketed ps).length ≤ depth) (hrest : (Text.trimStart rest).head? ≠ some '[') :
    Takes (predicates (expression depth)) (bracketed ps ++ rest) (ps.map (·.tree)) (Text.trimStart rest) :=
  Takes.bounded (takes hdepth hrest (Nat.lt_succ_self _))

/-- A test ends where predicates begin, or where its step ends. -/
theorem WrittenPredicate.delimits (ps : List WrittenPredicate) {rest : List Char} (hrest : Delimits rest) :
    Delimits (bracketed ps ++ rest) := by
  cases ps with
  | nil => exact hrest
  | cons p ps => exact delimits_cons (.inl rfl) _

namespace WrittenStep

/-! ## §C  A single step -/

/-- **EndsStep** says that a text is empty or begins with a slash. -/
def EndsStep (rest : List Char) : Prop := ∀ c ∈ rest.head?, c = '/'

namespace EndsStep

variable {rest : List Char}

theorem cases (h : EndsStep rest) : rest = [] ∨ ∃ tail, rest = '/' :: tail := by
  cases rest with
  | nil => exact .inl rfl
  | cons c tail =>
    obtain rfl := h c rfl
    exact .inr ⟨tail, rfl⟩

theorem trimStart (h : EndsStep rest) : Text.trimStart rest = rest := by
  rcases h.cases with rfl | ⟨tail, rfl⟩
  · rfl
  · exact Text.trimStart_cons (isBlank_eq_false (by decide))

theorem head?_ne (h : EndsStep rest) {c : Char} (hc : c ≠ '/') : rest.head? ≠ some c := fun hhead => hc (h c hhead)

theorem delimits (h : EndsStep rest) : Delimits rest := by
  rcases h.cases with rfl | ⟨tail, rfl⟩
  · exact ⟨fun _ h => (nomatch h), fun _ h => (nomatch h)⟩
  · exact delimits_cons (.inr rfl) tail

end EndsStep

section

variable {s : WrittenStep} {cs rest : List Char}

/-- The first character of a step. -/
theorem Spells.front (h : s.Spells cs) :
    ∃ c tail, cs = c :: tail ∧ Text.isBlank c = false ∧ c ≠ '/' ∧ startsStep c = true := by
  cases h with
  | axis ha =>
    obtain ⟨c, tail, hstart, hblank, hslash, -, hc⟩ := s.spells.front ha s.wellFormed
    exact ⟨c, _, by rw [behindAxis, ← List.append_assoc, hstart]; rfl, hblank, hslash, hc⟩
  | self => exact ⟨'.', [], rfl, isBlank_eq_false (by decide), by decide, rfl⟩
  | parent => exact ⟨'.', ['.'], rfl, isBlank_eq_false (by decide), by decide, rfl⟩

/-- Where a step is next, a path begins: no call and no number is seen there. -/
theorem Spells.startsPath (h : s.Spells cs) (hrest : EndsStep rest) (n : Nat) :
    startsPath ⟨cs ++ rest, n⟩ = true := by
  cases h with
  | axis ha =>
    have hbehind := WrittenPredicate.delimits s.predicates hrest.delimits
    rw [behindAxis, List.append_assoc, List.append_assoc]
    exact startsPath_step ha (s.spells.testFront s.wellFormed hbehind)
  | self =>
    rcases hrest.cases with rfl | ⟨tail, rfl⟩
    · rfl
    · rfl
  | parent => rfl

/-- **However a step is written**, it is read as the step that is meant. -/
theorem Spells.takes (h : s.Spells cs) (hrest : EndsStep rest) {depth : Nat} (hdepth : cs.length ≤ depth) :
    Takes (Parser.step (expression depth)) (cs ++ rest) s.step rest := by
  cases h with
  | @axis as ha =>
    have hbracket : (Text.trimStart rest).head? ≠ some '[' := by
      rw [hrest.trimStart]
      exact hrest.head?_ne (by decide)
    simp only [behindAxis, List.length_append] at hdepth
    have hbrackets : (WrittenPredicate.bracketed s.predicates).length ≤ depth := by omega
    have hpredicates := WrittenPredicate.takes_predicates hbrackets hbracket
    rw [hrest.trimStart] at hpredicates
    have hbehind := WrittenPredicate.delimits s.predicates hrest.delimits
    rw [behindAxis, List.append_assoc, List.append_assoc]
    exact takes_step ha s.spells s.wellFormed hbehind hpredicates
  | self hs =>
    have hpoint : ['.'].isPrefixOf rest = false := isPrefixOf_eq_false (hrest.head?_ne (by decide))
    have hpoints : ['.', '.'].isPrefixOf ('.' :: rest) = false := by
      show ('.' == '.' && ['.'].isPrefixOf rest) = false
      rw [hpoint, Bool.and_false]
    rw [hs]
    refine (takes_blanks _).bind ?_
    rw [List.cons_append, Text.trimStart_cons (isBlank_eq_false (by decide))]
    exact (takes_accept_false hpoints).bind ((takes_accept ['.'] rest).bind (Takes.pure _ _))
  | parent hs =>
    rw [hs]
    refine (takes_blanks _).bind ?_
    rw [List.cons_append, Text.trimStart_cons (isBlank_eq_false (by decide))]
    exact (takes_accept ['.', '.'] rest).bind (Takes.pure _ _)

end

/-! ## §D  Further steps -/

section

variable {ss : List WrittenStep} {cs : List Char}

theorem SpellsFurther.endsStep (h : SpellsFurther ss cs) : EndsStep cs := by
  cases h with
  | nil => exact fun _ h => nomatch h
  | slash =>
    rintro _ ⟨⟩
    rfl
  | slashes =>
    rintro _ ⟨⟩
    rfl

/-- A step behind two slashes, and the steps behind it. -/
theorem takes_slashes {inner : Parser Expr} {mid behind rest : List Char} {s : Step} {taken ss : List Step} {n : Nat}
    (hstep : Takes (Parser.step inner) mid s behind)
    (hsteps : Takes (stepsFrom inner n (s :: anyNode .descendantOrSelf :: taken)) behind ss rest) :
    Takes (stepsFrom inner (n + 1) taken) ('/' :: '/' :: mid) ss rest := by
  refine (takes_blanks _).bind ?_
  rw [Text.trimStart_cons (isBlank_eq_false (by decide))]
  exact (takes_accept ['/', '/'] mid).bind (hstep.bind hsteps)

/-- **The steps behind the first one**, each written as it may be, are read as what is meant. -/
theorem SpellsFurther.takes (h : SpellsFurther ss cs) {depth : Nat} (hdepth : cs.length ≤ depth) {n : Nat}
    {taken : List Step} (hn : cs.length < n) :
    Takes (stepsFrom (expression depth) n taken) cs (taken.reverse ++ ss.map step) [] := by
  induction h generalizing n taken with
  | nil =>
    obtain ⟨n, rfl⟩ : ∃ m, n = m + 1 := ⟨n - 1, by omega⟩
    have hnil : ([] : List Char).head? ≠ some '/' := by rintro ⟨⟩
    rw [List.map_nil, List.append_nil]
    exact (takes_blanks []).bind ((takes_accept_cons_false hnil).bind ((takes_accept_cons_false hnil).bind
      (Takes.pure _ _)))
  | @slash s ss cs ds hs hss ih =>
    obtain ⟨n, rfl⟩ : ∃ m, n = m + 1 := ⟨n - 1, by omega⟩
    obtain ⟨c, tail, hstart, -, hslash, -⟩ := hs.front
    have hhead : (cs ++ ds).head? ≠ some '/' := by
      rw [hstart]
      rintro ⟨⟩
      exact hslash rfl
    simp only [List.length_cons, List.length_append] at hdepth hn
    have hothers := @ih (by omega) n (s.step :: taken) (by omega)
    rw [List.reverse_cons, List.append_assoc] at hothers
    have hstep := hs.takes hss.endsStep (show cs.length ≤ depth by omega)
    exact takes_slash (Text.trimStart_cons (isBlank_eq_false (by decide))) hhead hstep hothers
  | @slashes any s ss cs ds hany hs hss ih =>
    obtain ⟨n, rfl⟩ : ∃ m, n = m + 1 := ⟨n - 1, by omega⟩
    simp only [List.length_cons, List.length_append] at hdepth hn
    -- Two slashes are read as one step more in front of the step behind them.
    have hothers := @ih (by omega) n (s.step :: anyNode .descendantOrSelf :: taken) (by omega)
    rw [List.reverse_cons, List.reverse_cons, List.append_assoc, List.append_assoc] at hothers
    rw [List.map_cons, hany]
    exact takes_slashes (hs.takes hss.endsStep (by omega)) hothers

theorem SpellsFurther.takes_steps (h : SpellsFurther ss cs) {depth : Nat} (hdepth : cs.length ≤ depth)
    (taken : List Step) :
    Takes (Parser.steps (expression depth) taken) cs (taken.reverse ++ ss.map step) [] :=
  Takes.bounded (h.takes hdepth (Nat.lt_succ_self _))

end

/-! ## §E  Whole paths -/

section

variable {absolute : Bool} {ss : List WrittenStep} {cs : List Char}

/-- A path that begins with two slashes. -/
theorem takes_absolute_slashes {inner : Parser Expr} {mid behind rest : List Char} {s : Step} {ss : List Step}
    (hstep : Takes (Parser.step inner) mid s behind)
    (hsteps : Takes (Parser.steps inner [s, anyNode .descendantOrSelf]) behind ss rest) :
    Takes (Parser.path inner) ('/' :: '/' :: mid) (.path true ss) rest := by
  refine (takes_blanks _).bind (Takes.get_bind fun n => ?_)
  rw [Text.trimStart_cons (isBlank_eq_false (by decide))]
  exact (takes_accept ['/', '/'] mid).bind (hstep.bind (hsteps.bind (Takes.pure _ _)))

/-- The first character of a path is no blank and no sign. -/
theorem SpellsPath.front (h : SpellsPath absolute ss cs) :
    ∃ c tail, cs = c :: tail ∧ Text.isBlank c = false ∧ c ≠ '-' := by
  cases h with
  | @relative s ss cs ds hs hss =>
    obtain ⟨c, tail, hstart, hblank, -, hc⟩ := hs.front
    refine ⟨c, tail ++ ds, by rw [hstart]; rfl, hblank, ?_⟩
    rintro rfl
    exact absurd hc (by decide)
  | absolute hne hss =>
    cases hss with
    | nil => exact absurd rfl hne
    | slash => exact ⟨'/', _, rfl, isBlank_eq_false (by decide), by decide⟩
    | slashes => exact ⟨'/', _, rfl, isBlank_eq_false (by decide), by decide⟩

theorem SpellsPath.takes (h : SpellsPath absolute ss cs) {depth : Nat} (hdepth : cs.length ≤ depth) :
    Takes (Parser.path (expression depth)) cs (.path absolute (ss.map step)) [] := by
  cases h with
  | @relative s ss cs ds hs hss =>
    obtain ⟨c, tail, hstart, hblank, hslash, -⟩ := hs.front
    have hopen : Text.trimStart (cs ++ ds) = cs ++ ds := by
      rw [hstart]
      exact Text.trimStart_cons hblank
    have hhead : (cs ++ ds).head? ≠ some '/' := by
      rw [hstart]
      rintro ⟨⟩
      exact hslash rfl
    rw [List.length_append] at hdepth
    exact takes_relative hopen (hs.startsPath hss.endsStep) hhead (hs.takes hss.endsStep (by omega))
      (hss.takes_steps (by omega) [s.step])
  | absolute hne hss =>
    cases hss with
    | nil => exact absurd rfl hne
    | @slash s ss cs ds hs hss =>
      obtain ⟨c, tail, hstart, hblank, hslash, hc⟩ := hs.front
      have hhead : (cs ++ ds).head? = some c := by
        rw [hstart]
        rfl
      simp only [List.length_cons, List.length_append] at hdepth
      exact takes_absolute (Text.trimStart_cons (isBlank_eq_false (by decide))) hhead ⟨hblank, hslash⟩ hc
        (hs.takes hss.endsStep (by omega)) (hss.takes_steps (by omega) [s.step])
    | @slashes any s ss cs ds hany hs hss =>
      simp only [List.length_cons, List.length_append] at hdepth
      rw [List.map_cons, hany]
      exact takes_absolute_slashes (hs.takes hss.endsStep (by omega)) (hss.takes_steps (by omega) _)

end

/-- What is read as a path is read as an expression. -/
theorem takes_expression_of_path {cs : List Char} {e : Expr} {depth : Nat} (hopen : Text.trimStart cs = cs)
    (hminus : cs.head? ≠ some '-') (h : Takes (Parser.path (expression depth)) cs e []) :
    Takes (expression (depth + 1)) cs e [] := by
  have hpath : Level.path.Reads (expression depth) (Text.trimStart cs) e [] := fun _ => by rwa [hopen]
  have hunion := @Level.Reads.loosen_joins _ _ _ _ .union rfl hpath
  have hunary : Level.unary.Reads (expression depth) cs e [] := .loosen_unary (by rwa [hopen]) hunion
  have hadditive : Level.additive.Reads (expression depth) cs e [] := .loosen_left rfl (.loosen_left rfl hunary)
  have hequality : Level.equality.Reads (expression depth) cs e [] := .loosen_left rfl (.loosen_left rfl hadditive)
  have hconjunction := @Level.Reads.loosen_joins _ _ _ _ .and rfl hequality
  have hdisjunction := @Level.Reads.loosen_joins _ _ _ _ .or rfl hconjunction
  exact hdisjunction.takes (by decide) (.of_closes .nil)

/-- **A path is read as the steps that are meant**, however each of them is written. -/
theorem SpellsPath.parse {absolute : Bool} {ss : List WrittenStep} {cs : List Char} (h : SpellsPath absolute ss cs) :
    Expr.parse (String.ofList cs) = .ok (.path absolute (ss.map step)) := by
  obtain ⟨c, tail, hstart, hblank, hminus⟩ := h.front
  have hopen : Text.trimStart cs = cs := by
    rw [hstart]
    exact Text.trimStart_cons hblank
  have hhead : cs.head? ≠ some '-' := by
    rw [hstart]
    rintro ⟨⟩
    exact hminus rfl
  exact Expr.parse_of_takes hopen (takes_expression_of_path hopen hhead (h.takes (Nat.le_refl _)))

/-- **Abbreviated steps mean their expansions**: a path with some of its steps abbreviated is read as the same tree as
the path with all its steps spelled out. -/
theorem parse_abbreviated {absolute : Bool} {ss : List WrittenStep} {cs : List Char} (h : SpellsPath absolute ss cs) :
    Expr.parse (String.ofList cs) = .ok (.path absolute (ss.map step)) ∧
      Expr.parse (String.ofList (pathSpelledOut absolute ss)) = Expr.parse (String.ofList cs) := by
  refine ⟨h.parse, ?_⟩
  rw [h.parse]
  exact (spellsPath_spelledOut h.ne_nil absolute).parse

/-- A step to the nodes of a name. -/
def named (a : Axis) {name : String} (hname : IsNcName name) (ps : List WrittenPredicate) : WrittenStep where
  axis := a
  test := .name (.plain name)
  testText := name.toList
  predicates := ps
  wellFormed := ⟨by rintro _ ⟨⟩, .inr hname⟩
  spells := rfl

/-- A step to any nodes. -/
def toAny (a : Axis) : WrittenStep := ⟨a, .type .node, _, [], trivial, rfl⟩

theorem isNcName_or : IsNcName "or" := ⟨'o', ['r'], rfl, by decide, List.all_eq_true.mp (by decide)⟩

theorem isNcName_div : IsNcName "div" := ⟨'d', ['i', 'v'], rfl, by decide, List.all_eq_true.mp (by decide)⟩

theorem isNcName_mod : IsNcName "mod" := ⟨'m', ['o', 'd'], rfl, by decide, List.all_eq_true.mp (by decide)⟩

/-- A path below the context node, to the elements named `mod`. -/
def belowMod : List WrittenStep := [toAny .self, toAny .descendantOrSelf, named .child isNcName_mod []]

theorem spells_belowMod : SpellsPath false belowMod ".//mod".toList := by
  have h : SpellsPath false belowMod _ := .relative (.self rfl) (.slashes rfl (.axis .child) .nil)
  exact h

/-- The attributes `div` of the elements `or` that have an element `mod` below them, and what those belong to. -/
def orWithMod : List WrittenStep :=
  [toAny .descendantOrSelf, named .child isNcName_or [⟨".//mod".toList, _, spells_belowMod.parse⟩],
    named .attributes isNcName_div [], toAny .parent]

theorem spells_orWithMod : SpellsPath true orWithMod "//or[.//mod]/@div/..".toList := by
  have h : SpellsPath true orWithMod _ := .absolute (List.cons_ne_nil _ _)
    (.slashes rfl (.axis .child) (.slash (.axis .attributes) (.slash (.parent rfl) .nil)))
  exact h

theorem parse_abbreviated_operators :
    SpellsPath true orWithMod "//or[.//mod]/@div/..".toList ∧
      Expr.parse "//or[.//mod]/@div/.." = .ok (.path true (orWithMod.map step)) ∧
      Expr.parse "/descendant-or-self::node()/child::or[.//mod]/attribute::div/parent::node()" =
        Expr.parse "//or[.//mod]/@div/.." :=
  ⟨spells_orWithMod, parse_abbreviated spells_orWithMod⟩

end WrittenStep

end NodePath
