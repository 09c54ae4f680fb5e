/-
# NodePath.Proofs.Grammar — trees and their spellings

Which trees are expressions at all, and which texts spell a tree. A well-formed tree has the number of operands
that each operator takes, and names, numerals and texts that can be written down. A spelling puts an operand whose
operator binds less than its place demands in parentheses, and may put any other expression in parentheses too.

* §A  Names, numerals and quoted texts.
* §B  `Expr.WellFormed`.
* §C  `Level`: how tightly operators bind.
* §D  `Spells`, the grammar of texts.
* §E  The first and the last character of a text.
* §F  Every well-formed tree has a spelling.
-/
import NodePath.Proofs.Taking

namespace NodePath

/-! ## §A  Names, numerals, quoted texts -/

/-- Whether both parts of a name can be written. -/
def QName.WellFormed (n : QName) : Prop := (∀ q ∈ n.qualifier, IsNcName q) ∧ IsNcName n.localName

theorem QName.make_of_isNcName {q : String} (hq : IsNcName q) (l : String) : QName.make (some q) l = ⟨some q, l⟩ := by
  obtain ⟨c, cs, hcs, -⟩ := hq
  have hne : q.isEmpty = false := by
    rw [String.isEmpty_eq_false_iff]
    rintro rfl
    cases hcs
  simp [QName.make, Option.filter, hne]

/-- A name that can be written is made of its parts. -/
theorem QName.make_of_wellFormed {n : QName} (hn : n.WellFormed) : QName.make n.qualifier n.localName = n := by
  obtain ⟨qualifier, l⟩ := n
  cases qualifier with
  | none => rfl
  | some q => exact QName.make_of_isNcName (hn.1 q rfl) l

/-- The numbers that digit literals denote. -/
def DigitValue (x : Float) : Prop := ∃ cs, IsDigitLiteral cs ∧ numberOfText (String.ofList cs) = x

/-- Whether a text lacks one of the two quotes, so that it can be written between two of them. -/
def Quotable (s : String) : Prop := ∃ q, IsQuote q ∧ q ∉ s.toList

/-! ## §B  Well-formed trees -/

/-- Whether a node test can be written. Its local name may be a star. -/
def NodeTest.WellFormed : NodeTest → Prop
  | .name n => (∀ q ∈ n.qualifier, IsNcName q) ∧ (n.localName = "*" ∨ IsNcName n.localName)
  | .type _ => True
  | .instruction target => Quotable target

/-- How many operands an operator takes. -/
def Operator.Takes : Operator → Nat → Prop
  | .negate, n => n = 1
  | .and, n => 2 ≤ n
  | .or, n => 2 ≤ n
  | .union, n => 2 ≤ n
  | _, n => n = 2

/-- Whether a call of a name calls neither a core function nor reads as a test by the kind of node. -/
def QName.IsExtension (n : QName) : Prop :=
  n.qualifier = none → CoreFunction.ofName? n.localName = none ∧ NodeType.ofName? n.localName = none

/-- **WellFormed** says that a tree is an expression: `constant` holds of its numbers, its names and texts can be
written, its operators have the operands they take, and its paths go somewhere. -/
inductive Expr.WellFormed (constant : Float → Prop) : Expr → Prop
  | number {x : Float} : constant x → WellFormed constant (.number x)
  | text {s : String} : Quotable s → WellFormed constant (.text s)
  | operation {op : Operator} {args : List Expr} : op.Takes args.length →
      (∀ e ∈ args, WellFormed constant e) → WellFormed constant (.operation op args)
  | var {n : QName} : n.WellFormed → WellFormed constant (.var n)
  | core {f : CoreFunction} {args : List Expr} : (∀ e ∈ args, WellFormed constant e) →
      WellFormed constant (.core f args)
  | call {n : QName} {args : List Expr} : n.WellFormed → n.IsExtension →
      (∀ e ∈ args, WellFormed constant e) → WellFormed constant (.call n args)
  | path {absolute : Bool} {steps : List Step} : (absolute = false → steps ≠ []) →
      (∀ s ∈ steps, s.test.WellFormed) → (∀ s ∈ steps, ∀ e ∈ s.predicates, WellFormed constant e) →
      WellFormed constant (.path absolute steps)
  | filter {head : Expr} {predicates : List Expr} {steps : List Step} : WellFormed constant head →
      (predicates ≠ [] ∨ steps ≠ []) → (∀ e ∈ predicates, WellFormed constant e) →
      (∀ s ∈ steps, s.test.WellFormed) → (∀ s ∈ steps, ∀ e ∈ s.predicates, WellFormed constant e) →
      WellFormed constant (.filter head predicates steps)

/-! ## §C  Levels -/

/-- **Level** is a place in the ladder of operators: what stands there must bind at least as tightly. -/
inductive Level where
  | disjunction
  | conjunction
  | equality
  | relational
  | additive
  | multiplicative
  | unary
  | union
  | path
  | primary
deriving DecidableEq

namespace Level

/-- The number of looser levels. -/
def rank (l : Level) : Nat := l.ctorIdx

/-- The next tighter level; primary expressions are the tightest. -/
def tighter : Level → Level
  | disjunction => conjunction
  | conjunction => equality
  | equality => relational
  | relational => additive
  | additive => multiplicative
  | multiplicative => unary
  | unary => union
  | union => path
  | path => primary
  | primary => primary

theorem rank_tighter {l : Level} (h : l ≠ primary) : l.tighter.rank = l.rank + 1 := by
  cases l <;> first | rfl | exact absurd rfl h

theorem rank_le_tighter (l : Level) : l.rank ≤ l.tighter.rank := by
  cases l <;> decide

theorem rank_le_primary (l : Level) : l.rank ≤ primary.rank := by
  cases l <;> decide

theorem eq_of_rank_eq {l l' : Level} (h : l.rank = l'.rank) : l = l' := by
  cases l <;> cases l' <;> first | rfl | exact absurd h (by decide)

end Level

namespace Operator

/-- The level of an operator. -/
def level : Operator → Level
  | or => .disjunction
  | and => .conjunction
  | equal => .equality
  | notEqual => .equality
  | less => .relational
  | lessOrEqual => .relational
  | greater => .relational
  | greaterOrEqual => .relational
  | sum => .additive
  | minus => .additive
  | multiply => .multiplicative
  | divide => .multiplicative
  | modulo => .multiplicative
  | negate => .unary
  | union => .union

/-- Whether an operator stands between any number of operands at once. -/
def joins : Operator → Bool
  | and => true
  | or => true
  | union => true
  | _ => false

/-- Whether the symbol of an operator reads as a step where a step may stand: a star, or a word. -/
def looksLikeStep : Operator → Bool
  | multiply => true
  | divide => true
  | modulo => true
  | and => true
  | or => true
  | _ => false

/-- **Clear** says that what is written in front of an operator does not end in a slash if the symbol of the
operator could be the step behind it. -/
def Clear (op : Operator) (before : List Char) : Prop :=
  op.looksLikeStep = true → before.getLast? ≠ some '/'

/-- An operator between two spaces. -/
def spaced (op : Operator) : List Char := ' ' :: (op.symbol.toList ++ [' '])

/-- **Parts** says that a text may stand between two operands: the operator between spaces, or an equals sign alone. -/
inductive Parts : Operator → List Char → Prop
  | spaced (op : Operator) : Parts op op.spaced
  | equals : Parts .equal ['=']

end Operator

/-! ## §D  Spellings -/

/-- The text of an axis in front of a node test: its name, or what abbreviates it. -/
inductive Axis.Spells : Axis → List Char → Prop
  | full (a : Axis) : Spells a (a.name.toList ++ [':', ':'])
  | child : Spells .child []
  | attributes : Spells .attributes ['@']

/-- The text of a node test behind its axis. -/
def NodeTest.Spells : NodeTest → List Char → Prop
  | .name n, cs => cs = n.written.toList
  | .type t, cs => cs = t.name.toList ++ ['(', ')']
  | .instruction target, cs => ∃ q, IsQuote q ∧ q ∉ target.toList ∧
      cs = NodeType.processingInstruction.name.toList ++ '(' :: q :: (target.toList ++ [q, ')'])

/-- **Phrase** is what a part of a text may spell. -/
inductive Phrase where
  /-- An expression that binds at least as tightly as a level. -/
  | expr (level : Level) (e : Expr)
  /-- Operands, each behind the operator. -/
  | operands (op : Operator) (es : List Expr)
  /-- Predicates, each in square brackets. -/
  | predicates (es : List Expr)
  /-- A step. -/
  | step (s : Step)
  /-- Steps, each behind a slash. -/
  | steps (ss : List Step)
  /-- Arguments with commas between them. -/
  | arguments (es : List Expr)
  /-- Arguments, each behind a comma. -/
  | further (es : List Expr)

/-- **Spells** says that a text spells a phrase. What stands in front of an operator has to satisfy `clear`. -/
inductive Spells (clear : Operator → List Char → Prop) : Phrase → List Char → Prop
  -- an expression at a level, from the loosest operators to the tightest
  | tighter {l : Level} {e : Expr} {cs : List Char} : Spells clear (.expr l.tighter e) cs →
      Spells clear (.expr l e) cs
  | join {op : Operator} {e : Expr} {es : List Expr} {cs ds : List Char} : op.joins = true →
      Spells clear (.expr op.level.tighter e) cs → clear op cs → Spells clear (.operands op es) ds →
      Spells clear (.expr op.level (.operation op (e :: es))) (cs ++ ds)
  | binary {op : Operator} {a b : Expr} {cs ms ds : List Char} : op.joins = false → op ≠ .negate → op.Parts ms →
      Spells clear (.expr op.level a) cs → clear op cs → Spells clear (.expr op.level.tighter b) ds →
      Spells clear (.expr op.level (.binary op a b)) (cs ++ (ms ++ ds))
  | negate {e : Expr} {cs : List Char} : Spells clear (.expr .unary e) cs →
      Spells clear (.expr .unary (.operation .negate [e])) ('-' :: cs)
  | relative {s : Step} {ss : List Step} {cs ds : List Char} : Spells clear (.step s) cs →
      Spells clear (.steps ss) ds → Spells clear (.expr .path (.path false (s :: ss))) (cs ++ ds)
  | root : Spells clear (.expr .path (.path true [])) ['/']
  | absolute {s : Step} {ss : List Step} {cs ds : List Char} : Spells clear (.step s) cs →
      Spells clear (.steps ss) ds → Spells clear (.expr .path (.path true (s :: ss))) ('/' :: (cs ++ ds))
  | filter {head : Expr} {es : List Expr} {ss : List Step} {cs ds fs : List Char} :
      Spells clear (.expr .primary head) cs → Spells clear (.predicates es) ds → Spells clear (.steps ss) fs →
      Spells clear (.expr .path (.filter head es ss)) (cs ++ (ds ++ fs))
  | group {e : Expr} {cs : List Char} : Spells clear (.expr .disjunction e) cs →
      Spells clear (.expr .primary e) ('(' :: (cs ++ [')']))
  | number {x : Float} {cs : List Char} : IsDigitLiteral cs → numberOfText (String.ofList cs) = x →
      Spells clear (.expr .primary (.number x)) cs
  | text {s : String} {q : Char} : IsQuote q → q ∉ s.toList →
      Spells clear (.expr .primary (.text s)) (q :: (s.toList ++ [q]))
  | var {n : QName} : Spells clear (.expr .primary (.var n)) ('$' :: n.written.toList)
  | core {f : CoreFunction} {es : List Expr} {cs : List Char} : Spells clear (.arguments es) cs →
      Spells clear (.expr .primary (.core f es)) (f.spelling.toList ++ '(' :: (cs ++ [')']))
  | call {n : QName} {es : List Expr} {cs : List Char} : Spells clear (.arguments es) cs →
      Spells clear (.expr .primary (.call n es)) (n.written.toList ++ '(' :: (cs ++ [')']))
  -- the parts of expressions
  | noOperands {op : Operator} : Spells clear (.operands op []) []
  | operand {op : Operator} {e : Expr} {es : List Expr} {cs ds : List Char} :
      Spells clear (.expr op.level.tighter e) cs → (es ≠ [] → clear op cs) → Spells clear (.operands op es) ds →
      Spells clear (.operands op (e :: es)) (op.spaced ++ (cs ++ ds))
  | noPredicates : Spells clear (.predicates []) []
  | predicate {e : Expr} {es : List Expr} {cs ds : List Char} : Spells clear (.expr .disjunction e) cs →
      Spells clear (.predicates es) ds → Spells clear (.predicates (e :: es)) ('[' :: (cs ++ ']' :: ds))
  | step {axis : Axis} {test : NodeTest} {es : List Expr} {as ts cs : List Char} : axis.Spells as →
      test.Spells ts → Spells clear (.predicates es) cs →
      Spells clear (.step ⟨axis, test, es⟩) (as ++ (ts ++ cs))
  | noSteps : Spells clear (.steps []) []
  | slash {s : Step} {ss : List Step} {cs ds : List Char} : Spells clear (.step s) cs →
      Spells clear (.steps ss) ds → Spells clear (.steps (s :: ss)) ('/' :: (cs ++ ds))
  | noArguments : Spells clear (.arguments []) []
  | argument {e : Expr} {es : List Expr} {cs ds : List Char} : Spells clear (.expr .disjunction e) cs →
      Spells clear (.further es) ds → Spells clear (.arguments (e :: es)) (cs ++ ds)
  | noFurther : Spells clear (.further []) []
  | comma {e : Expr} {es : List Expr} {bs cs ds : List Char} : (∀ b ∈ bs, Text.isBlank b = true) →
      Spells clear (.expr .disjunction e) cs → Spells clear (.further es) ds →
      Spells clear (.further (e :: es)) (',' :: (bs ++ (cs ++ ds)))

/-! ## §E  The first and the last character -/

theorem Axis.isNcName_name (a : Axis) : IsNcName a.name := by
  cases a <;> exact ⟨_, _, rfl, by decide, List.all_eq_true.mp (by decide)⟩

theorem NodeType.isNcName_name (t : NodeType) : IsNcName t.name := by
  cases t <;> exact ⟨_, _, rfl, by decide, List.all_eq_true.mp (by decide)⟩

theorem CoreFunction.isNcName_spelling (f : CoreFunction) : IsNcName f.spelling := by
  cases f <;> exact ⟨_, _, rfl, by decide, List.all_eq_true.mp (by decide)⟩

/-- Whether a character is neither a blank nor the end of an argument list. -/
def IsOpening (c : Char) : Prop := Text.isBlank c = false ∧ c ≠ ')'

theorem isOpening_of_notMem {c : Char} (h : c.toNat ∉ blankValues ∧ c ≠ ')') : IsOpening c :=
  ⟨isBlank_eq_false h.1, h.2⟩

/-- **Opens** says that a text begins with an expression that has no minus sign in front. -/
def Opens (cs : List Char) : Prop := ∃ c tail, cs = c :: tail ∧ IsOpening c ∧ c ≠ '-'

namespace Opens

variable {cs : List Char}

theorem append (h : Opens cs) (ds : List Char) : Opens (cs ++ ds) := by
  obtain ⟨c, tail, rfl, hc⟩ := h
  exact ⟨c, tail ++ ds, rfl, hc⟩

theorem trimStart (h : Opens cs) (ds : List Char) : Text.trimStart (cs ++ ds) = cs ++ ds := by
  obtain ⟨c, tail, rfl, hopening, -⟩ := h
  exact Text.trimStart_cons hopening.1

theorem isOpening_of_isNameStart {c : Char} (hc : isNameStart c = true) : IsOpening c ∧ c ≠ '-' := by
  refine ⟨⟨isBlank_of_isNameStart hc, ?_⟩, ?_⟩
  · rintro rfl
    exact absurd hc (by decide)
  · rintro rfl
    exact absurd hc (by decide)

theorem of_isNcName {s : String} (h : IsNcName s) : Opens s.toList := by
  obtain ⟨c, tail, hs, hc, -⟩ := h
  exact ⟨c, tail, hs, isOpening_of_isNameStart hc⟩

theorem of_isDigitLiteral (h : IsDigitLiteral cs) : Opens cs := by
  have hdigit : ∀ {d : Char}, d.isDigit = true → IsOpening d ∧ d ≠ '-' := by
    intro d hd
    refine ⟨⟨isBlank_of_isDigit hd, ?_⟩, ?_⟩
    · rintro rfl
      exact absurd hd (by decide)
    · rintro rfl
      exact absurd hd (by decide)
  cases h with
  | whole hne hds =>
    obtain ⟨d, ds, rfl⟩ := List.exists_cons_of_ne_nil hne
    exact ⟨d, ds, rfl, hdigit (hds d List.mem_cons_self)⟩
  | @point ds fs hne hds =>
    cases ds with
    | nil => exact ⟨'.', fs, rfl, isOpening_of_notMem (by decide), by decide⟩
    | cons d ds => exact ⟨d, _, rfl, hdigit (hds d List.mem_cons_self)⟩

theorem of_written {n : QName} (h : n.WellFormed) : Opens n.written.toList := by
  unfold QName.written
  cases hq : n.qualifier with
  | none => exact of_isNcName h.2
  | some q =>
    rw [String.toList_append, String.toList_append, List.append_assoc]
    exact (of_isNcName (h.1 q hq)).append _

end Opens

/-- The first character of a step begins a step, and is no point. -/
theorem NodeTest.Spells.starts {axis : Axis} {test : NodeTest} {as ts : List Char} (ha : axis.Spells as)
    (ht : test.Spells ts) (hwf : test.WellFormed) :
    ∃ c tail, as ++ ts = c :: tail ∧ (c = '@' ∨ c = '*' ∨ isNameStart c = true) := by
  have hname : ∀ {s : String}, IsNcName s → ∀ ds : List Char,
      ∃ c tail, s.toList ++ ds = c :: tail ∧ (c = '@' ∨ c = '*' ∨ isNameStart c = true) := by
    rintro s ⟨c, tail, hs, hc, -⟩ ds
    exact ⟨c, tail ++ ds, by rw [hs]; rfl, .inr (.inr hc)⟩
  cases ha with
  | full =>
    rw [List.append_assoc]
    exact hname axis.isNcName_name _
  | attributes => exact ⟨'@', ts, rfl, .inl rfl⟩
  | child =>
    cases test with
    | type t =>
      obtain rfl := ht
      exact hname t.isNcName_name _
    | instruction target =>
      obtain ⟨q, -, -, rfl⟩ := ht
      exact hname (NodeType.isNcName_name _) _
    | name n =>
      obtain rfl := ht
      unfold QName.written
      cases hq : n.qualifier with
      | some q =>
        rw [String.toList_append, String.toList_append, List.append_assoc]
        exact hname (hwf.1 q hq) _
      | none =>
        rcases hwf.2 with hstar | hlocal
        · exact ⟨'*', [], by rw [hstar]; rfl, .inr (.inl rfl)⟩
        · simpa using hname hlocal []

theorem Opens.of_step {axis : Axis} {test : NodeTest} {as ts : List Char} (ha : axis.Spells as)
    (ht : test.Spells ts) (hwf : test.WellFormed) : Opens (as ++ ts) := by
  obtain ⟨c, tail, hcs, hc⟩ := ht.starts ha hwf
  refine ⟨c, tail, hcs, ?_⟩
  rcases hc with rfl | rfl | hc
  · exact ⟨isOpening_of_notMem (by decide), by decide⟩
  · exact ⟨isOpening_of_notMem (by decide), by decide⟩
  · exact isOpening_of_isNameStart hc

/-- The first character of a phrase that is an expression is no blank and closes nothing; it is a minus sign only at
the levels at which signs are read. -/
def Phrase.OpensWell (constant : Float → Prop) : Phrase → List Char → Prop
  | .expr l e, cs => e.WellFormed constant →
      ∃ c tail, cs = c :: tail ∧ IsOpening c ∧ (Level.unary.rank < l.rank → c ≠ '-')
  | _, _ => True

theorem Opens.opensWell {constant : Float → Prop} {l : Level} {e : Expr} {cs : List Char} (h : Opens cs) :
    (Phrase.expr l e).OpensWell constant cs := by
  obtain ⟨c, tail, hcs, hopening, hc⟩ := h
  exact fun _ => ⟨c, tail, hcs, hopening, fun _ => hc⟩

/-- A text that goes on behind one that opens well. -/
theorem Phrase.OpensWell.append {constant : Float → Prop} {l : Level} {e e' : Expr} {cs : List Char}
    (h : (Phrase.expr l e).OpensWell constant cs) (hwf : e'.WellFormed constant → e.WellFormed constant)
    {l' : Level} (hl : Level.unary.rank < l'.rank → Level.unary.rank < l.rank) (ds : List Char) :
    (Phrase.expr l' e').OpensWell constant (cs ++ ds) := by
  intro he'
  obtain ⟨c, tail, rfl, hopening, hc⟩ := h (hwf he')
  exact ⟨c, tail ++ ds, rfl, hopening, fun h => hc (hl h)⟩

theorem Expr.WellFormed.of_operation {constant : Float → Prop} {op : Operator} {args : List Expr} {e : Expr}
    (h : (Expr.operation op args).WellFormed constant) (he : e ∈ args) : e.WellFormed constant := by
  cases h with
  | operation _ hargs => exact hargs e he

theorem Spells.opensWell {constant : Float → Prop} {clear : Operator → List Char → Prop} {phrase : Phrase}
    {cs : List Char} (h : Spells clear phrase cs) : phrase.OpensWell constant cs := by
  -- A spelling opens as its first part does, and what is no expression opens nothing.
  induction h with
  | @tighter l e cs _ ih =>
    intro he
    obtain ⟨c, tail, hcs, hopening, hc⟩ := ih he
    exact ⟨c, tail, hcs, hopening, fun h => hc (Nat.lt_of_lt_of_le h l.rank_le_tighter)⟩
  | @join op e es cs ds hop _ _ _ ih _ =>
    exact ih.append (fun h => h.of_operation List.mem_cons_self)
      (fun h => Nat.lt_of_lt_of_le h op.level.rank_le_tighter) ds
  | binary _ _ _ _ _ _ ih _ => exact ih.append (fun h => h.of_operation List.mem_cons_self) id _
  | negate => exact fun _ => ⟨'-', _, rfl, isOpening_of_notMem (by decide), fun h => absurd h (by decide)⟩
  | relative hstep =>
    cases hstep with
    | step ha ht =>
      intro he
      cases he with
      | path hne htest hpred =>
        rw [← List.append_assoc, List.append_assoc]
        exact ((Opens.of_step ha ht (htest _ List.mem_cons_self)).append _).opensWell (.path hne htest hpred)
  | root => exact Opens.opensWell ⟨'/', [], rfl, isOpening_of_notMem (by decide), by decide⟩
  | absolute => exact Opens.opensWell ⟨'/', _, rfl, isOpening_of_notMem (by decide), by decide⟩
  | filter _ _ _ ih =>
    refine ih.append (fun h => ?_) (fun _ => by decide) _
    cases h with
    | filter hhead => exact hhead
  | group => exact Opens.opensWell ⟨'(', _, rfl, isOpening_of_notMem (by decide), by decide⟩
  | number hcs _ => exact (Opens.of_isDigitLiteral hcs).opensWell
  | text hq _ =>
    rcases hq with rfl | rfl
    · exact Opens.opensWell ⟨_, _, rfl, isOpening_of_notMem (by decide), by decide⟩
    · exact Opens.opensWell ⟨_, _, rfl, isOpening_of_notMem (by decide), by decide⟩
  | var => exact Opens.opensWell ⟨'$', _, rfl, isOpening_of_notMem (by decide), by decide⟩
  | @core f => exact ((Opens.of_isNcName f.isNcName_spelling).append _).opensWell
  | call _ =>
    intro he
    cases he with
    | call hn hext hargs => exact ((Opens.of_written hn).append _).opensWell (.call hn hext hargs)
  | _ => trivial

/-! ## §F  Every well-formed tree has a spelling -/

namespace Spells

variable {clear : Operator → List Char → Prop}

/-- What stands at a level stands at every looser one. -/
theorem loosen {l' : Level} {e : Expr} {cs : List Char} (h : Spells clear (.expr l' e) cs) {l : Level}
    (hl : l.rank ≤ l'.rank) : Spells clear (.expr l e) cs := by
  obtain ⟨n, hn⟩ := Nat.exists_eq_add_of_le hl
  induction n generalizing l with
  | zero =>
    obtain rfl := Level.eq_of_rank_eq hn
    exact h
  | succ n ih =>
    have hne : l ≠ .primary := by
      rintro rfl
      have := l'.rank_le_primary
      omega
    have htighter := Level.rank_tighter hne
    exact .tighter (ih (by omega) (by omega))

/-- Any expression in parentheses stands at any level. -/
theorem grouped {l' : Level} {e : Expr} {cs : List Char} (h : Spells clear (.expr l' e) cs) (l : Level) :
    Spells clear (.expr l e) ('(' :: (cs ++ [')'])) :=
  (group (h.loosen (Nat.zero_le _))).loosen l.rank_le_primary

/-- Whether an expression can be spelled in parentheses. -/
def Groups (clear : Operator → List Char → Prop) (e : Expr) : Prop :=
  ∃ cs, Spells clear (.expr .primary e) cs

theorem Groups.of_spells {l : Level} {e : Expr} {cs : List Char} (h : Spells clear (.expr l e) cs) :
    Groups clear e :=
  ⟨_, h.grouped .primary⟩

theorem Groups.operand {e : Expr} (h : Groups clear e) (l : Level) :
    ∃ cs, Spells clear (.expr l e) (cs ++ [')']) := by
  obtain ⟨cs, h⟩ := h
  exact ⟨'(' :: cs, h.grouped l⟩

variable {es : List Expr}

theorem exists_operands {op : Operator} (hclear : ∀ cs, clear op (cs ++ [')'])) (h : ∀ e ∈ es, Groups clear e) :
    ∃ cs, Spells clear (.operands op es) cs := by
  induction es with
  | nil => exact ⟨_, .noOperands⟩
  | cons e es ih =>
    obtain ⟨he, hes⟩ := List.forall_mem_cons.mp h
    obtain ⟨cs, hcs⟩ := he.operand op.level.tighter
    obtain ⟨ds, hds⟩ := ih hes
    exact ⟨_, .operand hcs (fun _ => hclear cs) hds⟩

theorem exists_predicates (h : ∀ e ∈ es, Groups clear e) : ∃ cs, Spells clear (.predicates es) cs := by
  induction es with
  | nil => exact ⟨_, .noPredicates⟩
  | cons e es ih =>
    obtain ⟨he, hes⟩ := List.forall_mem_cons.mp h
    obtain ⟨cs, hcs⟩ := he.operand .disjunction
    obtain ⟨ds, hds⟩ := ih hes
    exact ⟨_, .predicate hcs hds⟩

theorem exists_further (h : ∀ e ∈ es, Groups clear e) : ∃ cs, Spells clear (.further es) cs := by
  induction es with
  | nil => exact ⟨_, .noFurther⟩
  | cons e es ih =>
    obtain ⟨he, hes⟩ := List.forall_mem_cons.mp h
    obtain ⟨cs, hcs⟩ := he.operand .disjunction
    obtain ⟨ds, hds⟩ := ih hes
    exact ⟨_, .comma (fun _ hb => absurd hb List.not_mem_nil) hcs hds⟩

theorem exists_arguments (h : ∀ e ∈ es, Groups clear e) : ∃ cs, Spells clear (.arguments es) cs := by
  cases es with
  | nil => exact ⟨_, .noArguments⟩
  | cons e es =>
    obtain ⟨he, hes⟩ := List.forall_mem_cons.mp h
    obtain ⟨cs, hcs⟩ := he.operand .disjunction
    obtain ⟨ds, hds⟩ := exists_further hes
    exact ⟨_, .argument hcs hds⟩

theorem exists_step {s : Step} (hwf : s.test.WellFormed) (h : ∀ e ∈ s.predicates, Groups clear e) :
    ∃ cs, Spells clear (.step s) cs := by
  have htest : ∃ ts, s.test.Spells ts := by
    cases ht : s.test with
    | name n => exact ⟨_, rfl⟩
    | type t => exact ⟨_, rfl⟩
    | instruction target =>
      rw [ht] at hwf
      obtain ⟨q, hq, hmem⟩ := hwf
      exact ⟨_, q, hq, hmem, rfl⟩
  obtain ⟨ts, hts⟩ := htest
  obtain ⟨cs, hcs⟩ := exists_predicates h
  exact ⟨_, .step (.full s.axis) hts hcs⟩

theorem exists_steps {ss : List Step} (hwf : ∀ s ∈ ss, s.test.WellFormed)
    (h : ∀ s ∈ ss, ∀ e ∈ s.predicates, Groups clear e) : ∃ cs, Spells clear (.steps ss) cs := by
  induction ss with
  | nil => exact ⟨_, .noSteps⟩
  | cons s ss ih =>
    obtain ⟨hs, hss⟩ := List.forall_mem_cons.mp hwf
    obtain ⟨he, hes⟩ := List.forall_mem_cons.mp h
    obtain ⟨cs, hcs⟩ := exists_step hs he
    obtain ⟨ds, hds⟩ := ih hss hes
    exact ⟨_, .slash hcs hds⟩

theorem exists_operation {op : Operator} (hclear : ∀ op cs, clear op (cs ++ [')'])) (hn : op.Takes es.length)
    (h : ∀ e ∈ es, Groups clear e) : Groups clear (.operation op es) := by
  by_cases hneg : op = .negate
  · subst hneg
    obtain ⟨e, rfl⟩ := List.length_eq_one_iff.mp hn
    obtain ⟨cs, hcs⟩ := (h e List.mem_cons_self).operand .unary
    exact .of_spells (.negate hcs)
  cases hjoins : op.joins with
  | true =>
    cases es with
    | nil => cases op <;> simp [Operator.Takes] at hn hjoins
    | cons e es =>
      obtain ⟨he, hes⟩ := List.forall_mem_cons.mp h
      obtain ⟨cs, hcs⟩ := he.operand op.level.tighter
      obtain ⟨ds, hds⟩ := exists_operands (hclear op) hes
      exact .of_spells (.join hjoins hcs (hclear op cs) hds)
  | false =>
    have hlen : es.length = 2 := by
      cases op <;> first | exact hn | exact absurd rfl hneg | exact absurd hjoins (by decide)
    obtain ⟨a, b, rfl⟩ : ∃ a b, es = [a, b] := by
      match es, hlen with
      | [a, b], _ => exact ⟨a, b, rfl⟩
    obtain ⟨cs, hcs⟩ := (h a List.mem_cons_self).operand op.level
    obtain ⟨ds, hds⟩ := (h b (List.mem_cons_of_mem _ List.mem_cons_self)).operand op.level.tighter
    exact .of_spells (.binary hjoins hneg (.spaced op) hcs (hclear op cs) hds)

end Spells

/-- A well-formed tree can be spelled: put every operand in parentheses. -/
theorem Expr.WellFormed.groups {clear : Operator → List Char → Prop} (hclear : ∀ op cs, clear op (cs ++ [')']))
    {e : Expr} (h : e.WellFormed DigitValue) : Spells.Groups clear e := by
  -- Every operand is spelled in parentheses, behind which any operator may stand.
  induction h with
  | number hx =>
    obtain ⟨cs, hcs, hx⟩ := hx
    exact .of_spells (.number hcs hx)
  | text hs =>
    obtain ⟨q, hq, hmem⟩ := hs
    exact .of_spells (.text hq hmem)
  | operation hn _ ih => exact Spells.exists_operation hclear hn ih
  | var => exact .of_spells .var
  | core _ ih =>
    obtain ⟨cs, hcs⟩ := Spells.exists_arguments ih
    exact .of_spells (.core hcs)
  | call _ _ _ ih =>
    obtain ⟨cs, hcs⟩ := Spells.exists_arguments ih
    exact .of_spells (.call hcs)
  | @path absolute steps hne htest _ ih =>
    obtain ⟨cs, hcs⟩ := Spells.exists_steps htest ih
    cases hcs with
    | noSteps =>
      cases absolute with
      | true => exact .of_spells .root
      | false => exact absurd rfl (hne rfl)
    | slash hs hss =>
      cases absolute with
      | true => exact .of_spells (.absolute hs hss)
      | false => exact .of_spells (.relative hs hss)
  | filter _ _ _ htest _ ihhead ihpred ihsteps =>
    obtain ⟨cs, hcs⟩ := ihhead
    obtain ⟨ds, hds⟩ := Spells.exists_predicates ihpred
    obtain ⟨fs, hfs⟩ := Spells.exists_steps htest ihsteps
    exact .of_spells (.filter hcs hds hfs)

end NodePath
