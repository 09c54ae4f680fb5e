/-
# NodePath.Proofs.Printing — printed expressions are spellings

The printer puts every operation of two or more operands in parentheses and spells out every axis. What it prints
is a spelling of the tree, and so is read as the tree, but for four kinds of trees, which **Printable** leaves out: a
negation as an operand of a union, the bare root in front of an operator that reads as a step, the target of an
instruction with a single quote in it, and an infinite number.

* §A  `Expr.Printable`.
* §B  The last character of a text.
* §C  Texts and tests.
* §D  Lists of expressions.
* §E  The induction.
* §F  What is printed is parsed again.
* §G  Trees that are not printable.
-/
import NodePath.Proofs.NumeralReading
import NodePath.Proofs.ParsedTree
import NodePath.Proofs.Reading
import NodePath.Expr.Printer

namespace NodePath

/-! ## §A  Printable trees -/

/-- **EndsInRoot** says that the text of a tree ends in the bare root. -/
inductive Expr.EndsInRoot : Expr → Prop
  | root : EndsInRoot (.path true [])
  | negate {e : Expr} : EndsInRoot e → EndsInRoot (.operation .negate [e])

/-- Whether the target of an instruction, if there is one, can stand between single quotes. -/
def NodeTest.Printable (test : NodeTest) : Prop := ∀ target, test = .instruction target → '\'' ∉ target.toList

/-- **Printable** says that nothing in a tree is printed in a way in which it cannot be read. -/
inductive Expr.Printable : Expr → Prop
  | number {x : Float} : Number.isFinite x = true → Printable (.number x)
  | text {s : String} : Printable (.text s)
  | operation {op : Operator} {args : List Expr} :
      (op = .union → ∀ e ∈ args, ∀ es, e ≠ .operation .negate es) →
      (op.looksLikeStep = true → ∀ e ∈ args.dropLast, ¬e.EndsInRoot) → (∀ e ∈ args, Printable e) →
      Printable (.operation op args)
  | var {n : QName} : Printable (.var n)
  | core {f : CoreFunction} {args : List Expr} : (∀ e ∈ args, Printable e) → Printable (.core f args)
  | call {n : QName} {args : List Expr} : (∀ e ∈ args, Printable e) → Printable (.call n args)
  | path {absolute : Bool} {steps : List Step} : (∀ s ∈ steps, s.test.Printable) →
      (∀ s ∈ steps, ∀ e ∈ s.predicates, Printable e) → Printable (.path absolute steps)
  | filter {head : Expr} {predicates : List Expr} {steps : List Step} : Printable head →
      (∀ e ∈ predicates, Printable e) → (∀ s ∈ steps, s.test.Printable) →
      (∀ s ∈ steps, ∀ e ∈ s.predicates, Printable e) → Printable (.filter head predicates steps)

/-- The level at which the printer writes a tree. -/
def Expr.printLevel : Expr → Level
  | .operation .negate _ => .unary
  | .path _ _ => .path
  | .filter _ _ _ => .path
  | _ => .primary

/-! ## §B  The last character -/

/-- **EndsPlainly** says that a text ends, and not in a slash. -/
def EndsPlainly (cs : List Char) : Prop := ∃ init c, cs = init ++ [c] ∧ c ≠ '/'

namespace EndsPlainly

variable {cs ds : List Char}

theorem append (h : EndsPlainly ds) (cs : List Char) : EndsPlainly (cs ++ ds) := by
  obtain ⟨init, c, rfl, hc⟩ := h
  exact ⟨cs ++ init, c, (List.append_assoc _ _ _).symm, hc⟩

theorem snoc {c : Char} (hc : c ≠ '/') (cs : List Char) : EndsPlainly (cs ++ [c]) := ⟨cs, c, rfl, hc⟩

theorem getLast?_ne (h : EndsPlainly cs) : cs.getLast? ≠ some '/' := by
  obtain ⟨init, c, rfl, hc⟩ := h
  simpa using hc

theorem of_all (hne : cs ≠ []) (h : ∀ c ∈ cs, c ≠ '/') : EndsPlainly cs :=
  ⟨cs.dropLast, cs.getLast hne, (List.dropLast_concat_getLast hne).symm, h _ (List.getLast_mem hne)⟩

theorem of_isNcName {s : String} (h : IsNcName s) : EndsPlainly s.toList := by
  obtain ⟨c, cs, hs, hc, hcs⟩ := h
  rw [hs]
  have hslash : isNameChar '/' = false := by decide
  have hne : ∀ {d : Char}, isNameChar d = true → d ≠ '/' := by
    rintro _ hd rfl
    rw [hslash] at hd
    cases hd
  exact of_all (List.cons_ne_nil _ _)
    (List.forall_mem_cons.mpr ⟨hne (isNameChar_of_isNameStart hc), fun d hd => hne (hcs d hd)⟩)

theorem of_isDigitLiteral (h : IsDigitLiteral cs) : EndsPlainly cs := by
  have hne : ∀ {d : Char}, d.isDigit = true → d ≠ '/' := by
    rintro _ hd rfl
    exact absurd hd (by decide)
  cases h with
  | whole hne' hds => exact of_all hne' fun d hd => hne (hds d hd)
  | @point ds fs _ hds =>
    refine (of_all (List.cons_ne_nil _ _) (List.forall_mem_cons.mpr ⟨by decide, fun d hd => ?_⟩)).append ds
    exact hne (hds d (List.mem_append_right _ hd))

theorem of_written {n : QName} (h : IsNcName n.localName ∨ n.localName = "*") : EndsPlainly n.written.toList := by
  have hlocal : EndsPlainly n.localName.toList := by
    rcases h with h | h
    · exact of_isNcName h
    · rw [h]
      exact ⟨[], '*', rfl, by decide⟩
  unfold QName.written
  cases n.qualifier with
  | none => exact hlocal
  | some q =>
    rw [String.toList_append]
    exact hlocal.append _

end EndsPlainly

theorem NodeTest.Spells.endsPlainly {test : NodeTest} {ts : List Char} (h : test.Spells ts) (hwf : test.WellFormed) :
    EndsPlainly ts := by
  cases test with
  | name n =>
    obtain rfl := h
    exact .of_written hwf.2.symm
  | type t =>
    obtain rfl := h
    exact EndsPlainly.append ⟨['('], ')', rfl, by decide⟩ _
  | instruction target =>
    obtain ⟨q, -, -, rfl⟩ := h
    refine EndsPlainly.append ⟨'(' :: q :: (target.toList ++ [q]), ')', ?_, by decide⟩ _
    simp

/-- Of the parts of paths, only what is empty does not end plainly. -/
def Phrase.EndsPlainly : Phrase → List Char → Prop
  | .predicates es, cs => es ≠ [] → NodePath.EndsPlainly cs
  | .step s, cs => s.test.WellFormed → NodePath.EndsPlainly cs
  | .steps ss, cs => ss ≠ [] → (∀ s ∈ ss, s.test.WellFormed) → NodePath.EndsPlainly cs
  | _, _ => True

theorem Spells.endsPlainly {clear : Operator → List Char → Prop} {phrase : Phrase} {cs : List Char}
    (h : Spells clear phrase cs) : phrase.EndsPlainly cs := by
  induction h with
  | noPredicates => exact fun h => absurd rfl h
  | @predicate e es cs ds _ hes _ ih =>
    intro _
    cases hes with
    | noPredicates => exact EndsPlainly.snoc (by decide) ('[' :: cs)
    | predicate => exact ((ih (List.cons_ne_nil _ _)).append [']']).append ('[' :: cs)
  | @step axis test es as ts cs ha ht hes ih =>
    intro hwf
    refine EndsPlainly.append ?_ as
    cases hes with
    | noPredicates => simpa using ht.endsPlainly hwf
    | predicate => exact (ih (List.cons_ne_nil _ _)).append ts
  | noSteps => exact fun h => absurd rfl h
  | @slash s ss cs ds _ hss ihs ihss =>
    intro _ hwf
    obtain ⟨hs, hwfss⟩ := List.forall_mem_cons.mp hwf
    cases hss with
    | noSteps => simpa using (ihs hs).append ['/']
    | slash => exact ((ihss (List.cons_ne_nil _ _) hwfss).append cs).append ['/']
  | _ => trivial

/-! ## §C  Texts and tests -/

namespace Expr

open Spells

theorem spells_printText {clear : Operator → List Char → Prop} {s : String} (h : Quotable s) :
    Spells clear (.expr .primary (.text s)) (printText s).toList ∧ NodePath.EndsPlainly (printText s).toList := by
  have hquoted : ∀ q : Char, q ∉ s.toList → IsQuote q → Spells clear (.expr .primary (.text s)) (q :: (s.toList ++ [q])) ∧
      NodePath.EndsPlainly (q :: (s.toList ++ [q])) := by
    intro q hq hquote
    refine ⟨.text hquote hq, EndsPlainly.snoc ?_ (q :: s.toList)⟩
    rcases hquote with rfl | rfl <;> decide
  unfold printText
  by_cases hsingle : '\'' ∈ s.toList
  -- One of the two quotation marks does not occur in the text; it is the one that is taken.
  · have hdouble : '"' ∉ s.toList := by
      obtain ⟨q, rfl | rfl, hq⟩ := h
      · exact absurd hsingle hq
      · exact hq
    have htext : ("\"" ++ s ++ "\"").toList = '"' :: (s.toList ++ ['"']) := by simp [String.toList_append]
    rw [if_pos (List.contains_iff_mem.mpr hsingle), if_neg (by simpa using hdouble), htext]
    exact hquoted _ hdouble (.inr rfl)
  · have htext : ("'" ++ s ++ "'").toList = '\'' :: (s.toList ++ ['\'']) := by simp [String.toList_append]
    rw [if_neg (by simpa using hsingle), htext]
    exact hquoted _ hsingle (.inl rfl)

theorem spells_printTest {test : NodeTest} (h : test.Printable) : test.Spells (printTest test).toList := by
  cases test with
  | name n => rfl
  | type t =>
    show (t.name ++ "()").toList = t.name.toList ++ ['(', ')']
    rw [String.toList_append]
    rfl
  | instruction target =>
    have hword : "processing-instruction('".toList =
        NodeType.processingInstruction.name.toList ++ ['(', '\''] := by decide
    refine ⟨'\'', .inl rfl, h target rfl, ?_⟩
    show ("processing-instruction('" ++ target ++ "')").toList = _
    rw [String.toList_append, String.toList_append, hword]
    simp

/-! ## §D  Lists of expressions -/

/-- What is shown of every part: its print spells it, and does not end in a slash but for the bare root. -/
def Prints (e : Expr) : Prop :=
  Spells Operator.Clear (.expr e.printLevel e) e.print.toList ∧
    (e.EndsInRoot ∨ NodePath.EndsPlainly e.print.toList)

variable {e : Expr} {es : List Expr}

theorem printLevel_ge (e : Expr) : Level.unary.rank ≤ e.printLevel.rank := by
  unfold printLevel
  split <;> decide

theorem printLevel_ge_path {e : Expr} (h : ∀ es, e ≠ .operation .negate es) :
    Level.path.rank ≤ e.printLevel.rank := by
  unfold printLevel
  split
  · next es => exact absurd rfl (h es)
  all_goals decide

theorem Prints.at (h : e.Prints) {l : Level} (hl : l.rank ≤ Level.unary.rank) :
    Spells Operator.Clear (.expr l e) e.print.toList :=
  h.1.loosen (Nat.le_trans hl e.printLevel_ge)

theorem Prints.clear (h : e.Prints) {op : Operator} (hroot : op.looksLikeStep = true → ¬e.EndsInRoot) :
    op.Clear e.print.toList := fun hlook => (h.2.resolve_left (hroot hlook)).getLast?_ne

theorem printList_cons_cons (between : String) (e e' : Expr) (es : List Expr) :
    printList between (e :: e' :: es) = e.print ++ between ++ printList between (e' :: es) := by
  simp [printList]

theorem toList_between (op : Operator) : (Operator.between op).toList = op.spaced := by
  simp [Operator.between, Operator.spaced, String.toList_append]

/-- The operands behind the first one. -/
theorem spells_printOperands {op : Operator} (hlevel : ∀ e ∈ es, op.level.tighter.rank ≤ e.printLevel.rank)
    (h : ∀ e ∈ es, e.Prints) (hroot : op.looksLikeStep = true → ∀ e ∈ es.dropLast, ¬e.EndsInRoot) :
    ∃ ds, Spells Operator.Clear (.operands op es) ds ∧
      ∀ e : Expr, (printList (Operator.between op) (e :: es)).toList = e.print.toList ++ ds := by
  induction es with
  | nil => exact ⟨[], .noOperands, fun e => by simp [printList]⟩
  | cons e' es ih =>
    obtain ⟨hlevel', hlevel⟩ := List.forall_mem_cons.mp hlevel
    obtain ⟨h', h⟩ := List.forall_mem_cons.mp h
    have hroots : op.looksLikeStep = true → ∀ e ∈ es.dropLast, ¬e.EndsInRoot := by
      intro hlook e he
      refine hroot hlook e ?_
      cases es with
      | nil => cases he
      | cons e'' es => exact List.mem_cons_of_mem _ he
    obtain ⟨ds, hds, htext⟩ := ih hlevel h hroots
    -- Behind an operand that ends in a bare root, the next operator may read as a step.
    have hclear : es ≠ [] → op.Clear e'.print.toList := by
      intro hne
      refine h'.clear fun hlook => hroot hlook e' ?_
      cases es with
      | nil => exact absurd rfl hne
      | cons e'' es => exact List.mem_cons_self
    refine ⟨_, .operand (h'.1.loosen hlevel') hclear hds, fun e => ?_⟩
    rw [printList_cons_cons, String.toList_append, String.toList_append, toList_between, htext, List.append_assoc]

theorem spells_printFurther (h : ∀ e ∈ es, e.Prints) : ∃ ds, Spells Operator.Clear (.further es) ds ∧
    ∀ e : Expr, (printList ", " (e :: es)).toList = e.print.toList ++ ds := by
  induction es with
  | nil => exact ⟨[], .noFurther, fun e => by simp [printList]⟩
  | cons e' es ih =>
    obtain ⟨h', h⟩ := List.forall_mem_cons.mp h
    obtain ⟨ds, hds, htext⟩ := ih h
    have hblank : ∀ b ∈ [' '], Text.isBlank b = true := List.forall_mem_singleton.mpr (by decide +kernel)
    refine ⟨_, .comma hblank (h'.at (by decide)) hds, fun e => ?_⟩
    rw [printList_cons_cons, String.toList_append, String.toList_append, htext]
    simp

theorem spells_printArguments (h : ∀ e ∈ es, e.Prints) :
    Spells Operator.Clear (.arguments es) (printList ", " es).toList := by
  cases es with
  | nil => exact .noArguments
  | cons e es =>
    obtain ⟨h', h⟩ := List.forall_mem_cons.mp h
    obtain ⟨ds, hds, htext⟩ := spells_printFurther h
    rw [htext]
    exact .argument (h'.at (by decide)) hds

theorem spells_printPredicates (h : ∀ e ∈ es, e.Prints) :
    Spells Operator.Clear (.predicates es) (printPredicates es).toList := by
  induction es with
  | nil => exact .noPredicates
  | cons e es ih =>
    obtain ⟨h', h⟩ := List.forall_mem_cons.mp h
    have htext : (printPredicates (e :: es)).toList = '[' :: (e.print.toList ++ ']' :: (printPredicates es).toList) := by
      simp [printPredicates, String.toList_append]
    rw [htext]
    exact .predicate (h'.at (by decide)) (ih h)

/-- The text of a step behind its slash. -/
def printStep (s : Step) : String := s.axis.name ++ "::" ++ printTest s.test ++ printPredicates s.predicates

theorem spells_printStep {s : Step} (htest : s.test.Printable) (h : ∀ e ∈ s.predicates, e.Prints) :
    Spells Operator.Clear (.step s) (printStep s).toList := by
  have htext : (printStep s).toList =
      (s.axis.name.toList ++ [':', ':']) ++ ((printTest s.test).toList ++ (printPredicates s.predicates).toList) := by
    simp [printStep, String.toList_append]
  rw [htext]
  exact .step (.full s.axis) (spells_printTest htest) (spells_printPredicates h)

theorem printSteps_cons (s : Step) (ss : List Step) : printSteps (s :: ss) = "/" ++ printStep s ++ printSteps ss := by
  obtain ⟨axis, test, es⟩ := s
  simp [printSteps, printStep, String.append_assoc]

theorem spells_printSteps {ss : List Step} (htest : ∀ s ∈ ss, s.test.Printable)
    (h : ∀ s ∈ ss, ∀ e ∈ s.predicates, e.Prints) : Spells Operator.Clear (.steps ss) (printSteps ss).toList := by
  induction ss with
  | nil => exact .noSteps
  | cons s ss ih =>
    obtain ⟨htest', htest⟩ := List.forall_mem_cons.mp htest
    obtain ⟨h', h⟩ := List.forall_mem_cons.mp h
    have htext : (printSteps (s :: ss)).toList = '/' :: ((printStep s).toList ++ (printSteps ss).toList) := by
      simp [printSteps_cons, String.toList_append]
    rw [htext]
    exact .slash (spells_printStep htest' h') (ih htest h)

/-! ## §E  The induction -/

theorem prints_parentheses {op : Operator} (hop : op ≠ .negate) {args : List Expr}
    (h : Spells Operator.Clear (.expr op.level (.operation op args)) (printList (Operator.between op) args).toList) :
    (operation op args).Prints := by
  have hprint : (operation op args).print = "(" ++ printList (Operator.between op) args ++ ")" := by
    cases op <;> first | rfl | exact absurd rfl hop
  have htext : (operation op args).print.toList = '(' :: ((printList (Operator.between op) args).toList ++ [')']) := by
    rw [hprint]
    simp [String.toList_append]
  have hlevel : (operation op args).printLevel = .primary := by
    cases op <;> first | rfl | exact absurd rfl hop
  rw [Prints, htext, hlevel]
  exact ⟨h.grouped .primary, .inr (EndsPlainly.snoc (by decide) ('(' :: (printList (Operator.between op) args).toList))⟩

theorem prints_operation {op : Operator} (hn : op.Takes es.length)
    (hunion : op = .union → ∀ e ∈ es, ∀ es', e ≠ .operation .negate es')
    (hroot : op.looksLikeStep = true → ∀ e ∈ es.dropLast, ¬e.EndsInRoot) (h : ∀ e ∈ es, e.Prints) :
    (operation op es).Prints := by
  by_cases hneg : op = .negate
  · subst hneg
    obtain ⟨e, rfl⟩ := List.length_eq_one_iff.mp hn
    have he := h e List.mem_cons_self
    have htext : (operation .negate [e]).print.toList = '-' :: e.print.toList := by
      simp [print, printList, String.toList_append]
    rw [Prints, htext]
    exact ⟨.negate (he.at (Nat.le_refl _)), he.2.imp .negate fun hplain => hplain.append ['-']⟩
  refine prints_parentheses hneg ?_
  cases hjoins : op.joins with
  | true =>
    obtain ⟨e, es, rfl⟩ : ∃ e es', es = e :: es' := by
      refine List.exists_cons_of_ne_nil ?_
      rintro rfl
      cases op <;> first | exact absurd hjoins (by decide) | exact absurd hn (by simp [Operator.Takes])
    have hne : es ≠ [] := by
      rintro rfl
      cases op <;> first | exact absurd hjoins (by decide) | exact absurd hn (by simp [Operator.Takes])
    -- Only a union is tighter than a negation, and it has no operand that is one.
    have hlevel : ∀ e' ∈ e :: es, op.level.tighter.rank ≤ e'.printLevel.rank := by
      intro e' he'
      by_cases hop : op = .union
      · subst hop
        exact printLevel_ge_path (hunion rfl e' he')
      · refine Nat.le_trans ?_ e'.printLevel_ge
        cases op <;> first | decide | exact absurd rfl hop | exact absurd hjoins (by decide)
    obtain ⟨hlevel, hlevels⟩ := List.forall_mem_cons.mp hlevel
    obtain ⟨he, hes⟩ := List.forall_mem_cons.mp h
    have hroots : op.looksLikeStep = true → ¬e.EndsInRoot ∧ ∀ e ∈ es.dropLast, ¬e.EndsInRoot := by
      intro hlook
      have hroot := hroot hlook
      rw [List.dropLast_cons_of_ne_nil hne] at hroot
      exact List.forall_mem_cons.mp hroot
    obtain ⟨ds, hds, htext⟩ := spells_printOperands hlevels hes fun hlook => (hroots hlook).2
    rw [htext]
    exact .join hjoins (he.1.loosen hlevel) (he.clear fun hlook => (hroots hlook).1) hds
  | false =>
    have hlength : es.length = 2 := by
      cases op <;> first | exact hn | exact absurd rfl hneg | exact absurd hjoins (by decide)
    obtain ⟨a, es, rfl⟩ := List.exists_cons_of_length_eq_add_one hlength
    obtain ⟨b, rfl⟩ := List.length_eq_one_iff.mp (Nat.succ.inj hlength)
    have ha := h a List.mem_cons_self
    have hb := h b (List.mem_cons_of_mem _ List.mem_cons_self)
    have hlevel : op.level.rank ≤ Level.unary.rank ∧ op.level.tighter.rank ≤ Level.unary.rank := by
      cases op <;> first | decide | exact absurd rfl hneg | exact absurd hjoins (by decide)
    have htext : (printList (Operator.between op) [a, b]).toList = a.print.toList ++ (op.spaced ++ b.print.toList) := by
      rw [printList_cons_cons, String.toList_append, String.toList_append, toList_between, List.append_assoc]
      rfl
    rw [htext]
    exact .binary hjoins hneg (.spaced op) (ha.at hlevel.1) (ha.clear fun hlook => hroot hlook a List.mem_cons_self)
      (hb.at hlevel.2)

theorem prints_path {s : Step} {ss : List Step} (absolute : Bool) (hwf : ∀ s' ∈ s :: ss, s'.test.WellFormed)
    (htest : ∀ s' ∈ s :: ss, s'.test.Printable) (h : ∀ s' ∈ s :: ss, ∀ e ∈ s'.predicates, e.Prints) :
    (path absolute (s :: ss)).Prints := by
  obtain ⟨htest', htest⟩ := List.forall_mem_cons.mp htest
  obtain ⟨h', h⟩ := List.forall_mem_cons.mp h
  have hs := spells_printStep htest' h'
  have hss := spells_printSteps htest h
  have hplain : EndsPlainly (printSteps (s :: ss)).toList :=
    (spells_printSteps (List.forall_mem_cons.mpr ⟨htest', htest⟩) (List.forall_mem_cons.mpr ⟨h', h⟩)).endsPlainly
      (List.cons_ne_nil _ _) hwf
  have htext : (printSteps (s :: ss)).toList = '/' :: ((printStep s).toList ++ (printSteps ss).toList) := by
    simp [printSteps_cons, String.toList_append]
  cases absolute with
  | true =>
    have hprint : (path true (s :: ss)).print = printSteps (s :: ss) := rfl
    rw [Prints, hprint, htext]
    exact ⟨.absolute hs hss, .inr (htext ▸ hplain)⟩
  | false =>
    have hprint : (path false (s :: ss)).print = printStep s ++ printSteps ss := rfl
    rw [Prints, hprint, String.toList_append]
    refine ⟨.relative hs hss, .inr ?_⟩
    cases ss with
    | nil => simpa [printSteps] using hs.endsPlainly (hwf s List.mem_cons_self)
    | cons s' ss =>
      exact (hss.endsPlainly (List.cons_ne_nil _ _) fun s'' hs'' => hwf s'' (List.mem_cons_of_mem _ hs'')).append _

theorem prints_filter {head : Expr} {ss : List Step} (hne : es ≠ [] ∨ ss ≠ []) (hwf : ∀ s ∈ ss, s.test.WellFormed)
    (hhead : head.Prints) (hes : ∀ e ∈ es, e.Prints) (htest : ∀ s ∈ ss, s.test.Printable)
    (hss : ∀ s ∈ ss, ∀ e ∈ s.predicates, e.Prints) : (filter head es ss).Prints := by
  have htext : (filter head es ss).print.toList =
      '(' :: (head.print.toList ++ [')']) ++ ((printPredicates es).toList ++ (printSteps ss).toList) := by
    simp [print, String.toList_append]
  have hpredicates := spells_printPredicates hes
  have hsteps := spells_printSteps htest hss
  rw [Prints, htext]
  refine ⟨.filter (hhead.1.grouped .primary) hpredicates hsteps, .inr (EndsPlainly.append ?_ _)⟩
  by_cases hnil : ss = []
  · subst hnil
    simpa [printSteps] using hpredicates.endsPlainly (hne.resolve_right fun h => h rfl)
  · exact (hsteps.endsPlainly hnil hwf).append _

/-- **What is printed is a spelling.** -/
theorem prints_of_wellFormed (hwf : e.WellFormed DigitValue) (hp : e.Printable) : e.Prints := by
  -- By the tree: what a constructor asks for beyond its parts is what `Printable` says of it.
  induction hwf with
  | number hdigits =>
    cases hp with
    | number hfinite =>
      obtain ⟨hdigits, hback⟩ := numeral_readsBack hfinite hdigits.isNegative
      refine ⟨.number hdigits ?_, .inr (EndsPlainly.of_isDigitLiteral hdigits)⟩
      rwa [print, String.ofList_toList]
  | text hs =>
    obtain ⟨hspells, hplain⟩ := @spells_printText Operator.Clear _ hs
    exact ⟨hspells, .inr hplain⟩
  | operation hn _ ih =>
    cases hp with
    | operation hunion hroot hargs => exact prints_operation hn hunion hroot fun e he => ih e he (hargs e he)
  | @var n hn =>
    have htext : (var n).print.toList = '$' :: n.written.toList := by simp [print, String.toList_append]
    rw [Prints, htext]
    exact ⟨.var, .inr ((EndsPlainly.of_written (.inl hn.2)).append ['$'])⟩
  | @core f args _ ih =>
    cases hp with
    | core hargs =>
      have htext : (core f args).print.toList = f.spelling.toList ++ '(' :: ((printList ", " args).toList ++ [')']) := by
        simp [print, String.toList_append]
      rw [Prints, htext]
      refine ⟨.core (spells_printArguments fun e he => ih e he (hargs e he)), .inr (EndsPlainly.append ?_ _)⟩
      exact EndsPlainly.snoc (by decide) ('(' :: (printList ", " args).toList)
  | @call n args _ _ _ ih =>
    cases hp with
    | call hargs =>
      have htext : (call n args).print.toList = n.written.toList ++ '(' :: ((printList ", " args).toList ++ [')']) := by
        simp [print, String.toList_append]
      rw [Prints, htext]
      refine ⟨.call (spells_printArguments fun e he => ih e he (hargs e he)), .inr (EndsPlainly.append ?_ _)⟩
      exact EndsPlainly.snoc (by decide) ('(' :: (printList ", " args).toList)
  | @path absolute steps hne hwftest _ ih =>
    cases hp with
    | path htest hpred =>
      cases steps with
      | cons s ss => exact prints_path absolute hwftest htest fun s hs e he => ih s hs e he (hpred s hs e he)
      | nil =>
        cases absolute with
        | true => exact ⟨.root, .inl .root⟩
        | false => exact absurd rfl (hne rfl)
  | filter _ hne _ hwftest _ ihhead ihpred ihsteps =>
    cases hp with
    | filter hhead hpred htest hsteps =>
      exact prints_filter hne hwftest (ihhead hhead) (fun e he => ihpred e he (hpred e he)) htest
        fun s hs e he => ihsteps s hs e he (hsteps s hs e he)

/-! ## §F  Parsed again -/

/-- **What is printed is parsed again** as the tree that was printed, if that came from the parser and is printable. -/
theorem parse_print {s : String} (hparse : Expr.parse s = .ok e) (hp : e.Printable) :
    Expr.parse e.print = .ok e := by
  have hwf := Expr.wellFormed_of_parse hparse
  have hspells := (prints_of_wellFormed hwf hp).at (l := .disjunction) (by decide)
  rw [← String.ofList_toList (s := e.print)]
  exact hspells.parse hwf

/-- The children of a name. -/
def childNamed (name : String) : Expr := .path false [⟨.child, .name (.plain name), []⟩]

/-- A product of a union and a negation. -/
def sampleProduct : Expr :=
  .operation .multiply [.operation .union [childNamed "a", childNamed "b"], .operation .negate [childNamed "c"]]

/-- The product and a number that no double is equal to. -/
def sampleSum : Expr := .operation .sum [sampleProduct, .number 0.1]

theorem printable_childNamed (name : String) : (childNamed name).Printable :=
  .path (List.forall_mem_singleton.mpr fun _ h => nomatch h) (List.forall_mem_singleton.mpr fun _ h => nomatch h)

theorem printable_sampleProduct : sampleProduct.Printable := by
  have hne : ∀ name es, childNamed name ≠ .operation .negate es := fun _ _ h => nomatch h
  have hunion : (Expr.operation .union [childNamed "a", childNamed "b"]).Printable := by
    refine .operation (fun _ => ?_) (fun h => nomatch h) ?_
    · exact List.forall_mem_cons.mpr ⟨hne _, List.forall_mem_singleton.mpr (hne _)⟩
    · exact List.forall_mem_cons.mpr ⟨printable_childNamed _, List.forall_mem_singleton.mpr (printable_childNamed _)⟩
  have hnegation : (Expr.operation .negate [childNamed "c"]).Printable :=
    .operation (fun h => nomatch h) (fun h => nomatch h) (List.forall_mem_singleton.mpr (printable_childNamed "c"))
  refine .operation (fun h => nomatch h) (fun _ e he => ?_) ?_
  · obtain rfl := List.mem_singleton.mp he
    exact fun h => nomatch h
  · exact List.forall_mem_cons.mpr ⟨hunion, List.forall_mem_singleton.mpr hnegation⟩

theorem parse_print_twin :
    Expr.parse "(a | b) * -c + 0.1" = .ok sampleSum ∧
      sampleSum.print = "(((child::a | child::b) * -child::c) + 0.1)" ∧
      Expr.parse "(((child::a | child::b) * -child::c) + 0.1)" = .ok sampleSum := by
  have hparse : Expr.parse "(a | b) * -c + 0.1" = .ok sampleSum := by decide +kernel
  have hprint : sampleSum.print = "(((child::a | child::b) * -child::c) + 0.1)" := by decide +kernel
  have hnumber : (Expr.number 0.1).Printable := .number (by decide)
  refine ⟨hparse, hprint, hprint ▸ parse_print hparse (.operation (fun h => nomatch h) (fun h => nomatch h) ?_)⟩
  exact List.forall_mem_cons.mpr ⟨printable_sampleProduct, List.forall_mem_singleton.mpr hnumber⟩

/-! ## §G  Trees that are not printable -/

/-- A digit literal is parsed as the number that it denotes. -/
theorem parse_digitLiteral {cs : List Char} (h : IsDigitLiteral cs) :
    Expr.parse (String.ofList cs) = .ok (.number (numberOfText (String.ofList cs))) := by
  have hspells : Spells Operator.Clear (.expr .primary (.number (numberOfText (String.ofList cs)))) cs := .number h rfl
  exact (hspells.loosen (by decide)).parse (.number ⟨cs, h, rfl⟩)

/-- Three hundred and ten nines are beyond every double. -/
theorem parse_nines : Expr.parse (String.ofList (List.replicate 310 '9')) = .ok (.number (1 / 0)) := by
  have hdigits : ∀ c ∈ List.replicate 310 '9', c.isDigit = true := fun c hc => (List.mem_replicate.mp hc).2 ▸ rfl
  have hnumeral := Number.readNumeral?_digits (by decide) hdigits
  rw [parse_digitLiteral (.whole (by decide) hdigits),
    numberOfText_of_readNumeral? (fun c hc => .inl (hdigits c hc)) hnumeral]
  have hvalue : (Number.Numeral.mk false (Number.natOfDigits (List.replicate 310 '9')) 0).toFloat = 1 / 0 := by
    decide +kernel
  rw [hvalue]

/-- A negation in a union loses its parentheses, the target of an instruction is put between quotes that it may hold,
behind the bare root an operator may read as a step, and a number with too many digits is infinite and printed as a
name: what is printed of such trees is not read as the tree. -/
theorem parse_print_ne :
    (∃ e, Expr.parse "(-a) | b" = .ok e ∧ e.print = "(-child::a | child::b)" ∧
      Expr.parse "(-child::a | child::b)" ≠ .ok e) ∧
    (∃ e, Expr.parse "processing-instruction(\"it's\")" = .ok e ∧
      e.print = "child::processing-instruction('it's')" ∧
      Expr.parse "child::processing-instruction('it's')" ≠ .ok e) ∧
    (∃ e, Expr.parse "(/) * a" = .ok e ∧ e.print = "(/ * child::a)" ∧ Expr.parse "(/ * child::a)" ≠ .ok e) ∧
    ∃ e, Expr.parse (String.ofList (List.replicate 310 '9')) = .ok e ∧ e.print = "Infinity" ∧
      Expr.parse "Infinity" ≠ .ok e := by
  refine ⟨⟨.operation .union [.operation .negate [childNamed "a"], childNamed "b"], by decide +kernel, by decide +kernel, ?_⟩,
    ⟨.path false [⟨.child, .instruction "it's", []⟩], by decide +kernel, by decide +kernel, ?_⟩,
    ⟨.operation .multiply [.path true [], childNamed "a"], by decide +kernel, by decide +kernel, ?_⟩,
    ⟨.number (1 / 0), parse_nines, by decide +kernel, ?_⟩⟩
  · have hparse : Expr.parse "(-child::a | child::b)" =
        .ok (.operation .negate [.operation .union [childNamed "a", childNamed "b"]]) := by decide +kernel
    rw [hparse]
    intro h
    injection h with h
    injection h with h
    cases h
  · have hparse : Expr.parse "child::processing-instruction('it's')" = .error ⟨34, .expected ')'⟩ := by decide +kernel
    rw [hparse]
    exact fun h => nomatch h
  · have hparse : (Expr.parse "(/ * child::a)").toBool = false := by decide +kernel
    intro h
    rw [h] at hparse
    cases hparse
  · have hparse : Expr.parse "Infinity" = .ok (childNamed "Infinity") := by decide +kernel
    rw [hparse]
    exact fun h => nomatch h

end Expr

end NodePath
