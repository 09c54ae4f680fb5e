/-
# NodePath.Proofs.Following — what stands behind an expression

An expression at a level ends where the text closes it or goes on with an operator of a looser level. There no
reader of the level takes any more of the text; in front of an operator of its own level it takes just the operator.

* §A  The ends of an expression.
* §B  Behind a slash.
* §C  Operators that group to the left.
* §D  Operators between any number of operands.
-/
import NodePath.Proofs.Grammar

namespace NodePath

open NodePath.Parser

/-! ## §A  Ends -/

/-- Whether a text closes what stands in front of it. -/
def Closes (rest : List Char) : Prop := ∀ c ∈ rest.head?, c = ')' ∨ c = ']' ∨ c = ','

/-- **Ends** says that an expression at a level ends in front of a text: the text closes it, or begins with an
operator of a looser level. -/
def Level.Ends (l : Level) (rest : List Char) : Prop :=
  Closes rest ∨ ∃ op ms more, Operator.Parts op ms ∧ op ≠ .negate ∧ op.level.rank < l.rank ∧ rest = ms ++ more

theorem Closes.nil : Closes [] := fun _ h => nomatch h

theorem Closes.parenthesis (rest : List Char) : Closes (')' :: rest) := by
  rintro _ ⟨⟩
  exact .inl rfl

theorem Closes.bracket (rest : List Char) : Closes (']' :: rest) := by
  rintro _ ⟨⟩
  exact .inr (.inl rfl)

theorem Closes.comma (rest : List Char) : Closes (',' :: rest) := by
  rintro _ ⟨⟩
  exact .inr (.inr rfl)

theorem Closes.trimStart {rest : List Char} (h : Closes rest) : Text.trimStart rest = rest := by
  cases rest with
  | nil => rfl
  | cons c rest => rcases h c rfl with rfl | rfl | rfl <;> exact Text.trimStart_cons (isBlank_eq_false (by decide))

theorem Operator.trimStart_spaced (op : Operator) (more : List Char) :
    Text.trimStart (op.spaced ++ more) = op.symbol.toList ++ ' ' :: more := by
  rw [Operator.spaced, List.cons_append, Text.trimStart_space, List.append_assoc]
  cases op <;> exact Text.trimStart_cons (isBlank_eq_false (by decide))

/-- In front of the operator there may be a space, and behind it there may be one. -/
theorem Operator.Parts.trimStart {op : Operator} {ms : List Char} (h : op.Parts ms) (more : List Char) :
    ∃ tail, Text.trimStart (ms ++ more) = op.symbol.toList ++ tail ∧
      (tail = ' ' :: more ∨ op = .equal ∧ tail = more) := by
  cases h with
  | spaced => exact ⟨' ' :: more, op.trimStart_spaced more, .inl rfl⟩
  | equals => exact ⟨more, Text.trimStart_cons (isBlank_eq_false (by decide)), .inr ⟨rfl, rfl⟩⟩

namespace Level

variable {l l' : Level} {rest : List Char}

theorem Ends.of_closes (h : Closes rest) : l.Ends rest := .inl h

theorem ends_parts {op : Operator} {ms : List Char} (hms : op.Parts ms) (hop : op ≠ .negate)
    (hl : op.level.rank < l.rank) (more : List Char) : l.Ends (ms ++ more) :=
  .inr ⟨op, ms, more, hms, hop, hl, rfl⟩

theorem Ends.mono (h : l.Ends rest) (hl : l.rank ≤ l'.rank) : l'.Ends rest := by
  rcases h with h | ⟨op, ms, more, hms, hop, hlt, rfl⟩
  · exact .inl h
  · exact ends_parts hms hop (Nat.lt_of_lt_of_le hlt hl) more

theorem Ends.tighter (h : l.Ends rest) : l.tighter.Ends rest := h.mono l.rank_le_tighter

/-- The first character behind an expression is no part of a name. -/
theorem Ends.head (h : l.Ends rest) : ∀ c ∈ rest.head?, isNameChar c = false ∧ c ≠ ':' := by
  rcases h with h | ⟨op, ms, more, hms, -, -, rfl⟩
  · intro c hc
    rcases h c hc with rfl | rfl | rfl <;> exact ⟨by decide, by decide⟩
  · cases hms <;> rintro c ⟨⟩ <;> exact ⟨by decide, by decide⟩

/-- Nor do any parentheses, predicates, steps or colons stand behind it. -/
theorem Ends.trimStart_head (h : l.Ends rest) :
    ∀ c ∈ (Text.trimStart rest).head?, c ≠ '(' ∧ c ≠ '[' ∧ c ≠ '/' ∧ c ≠ ':' := by
  rcases h with h | ⟨op, ms, more, hms, -, -, rfl⟩
  · intro c hc
    rw [h.trimStart] at hc
    rcases h c hc with rfl | rfl | rfl <;> decide
  · intro c hc
    obtain ⟨tail, htext, -⟩ := hms.trimStart more
    rw [htext] at hc
    cases op <;> cases hc <;> decide

end Level

/-! ## §B  Behind a slash -/

/-- **Fits** says that what stands behind a text cannot be taken for a step behind its last slash. -/
def Fits (cs rest : List Char) : Prop :=
  cs.getLast? = some '/' → ∀ c ∈ (Text.trimStart rest).head?, startsStep c = false

namespace Fits

variable {cs ds rest : List Char}

theorem of_closes (h : Closes rest) : Fits cs rest := by
  intro _ c hc
  rw [h.trimStart] at hc
  rcases h c hc with rfl | rfl | rfl <;> decide

theorem of_delimiter {c : Char} (hc : c = '[' ∨ c = '/') : Fits cs (c :: rest) := by
  intro _ d hd
  have hblank : Text.isBlank c = false := by rcases hc with rfl | rfl <;> exact isBlank_eq_false (by decide)
  rw [Text.trimStart_cons hblank] at hd
  cases hd
  rcases hc with rfl | rfl <;> decide

theorem of_append (h : Fits (cs ++ ds) rest) : Fits ds rest := by
  intro hds
  refine h ?_
  rw [List.getLast?_append, hds]
  rfl

theorem of_cons {c : Char} (h : Fits (c :: cs) rest) : Fits cs rest :=
  @of_append [c] cs rest h

theorem of_clear {op : Operator} {ms : List Char} (hms : op.Parts ms) (h : op.Clear cs) (more : List Char) :
    Fits cs (ms ++ more) := by
  intro hcs c hc
  have hlook : op.looksLikeStep = false := Bool.eq_false_iff.mpr fun hlook => h hlook hcs
  obtain ⟨tail, htext, -⟩ := hms.trimStart more
  rw [htext] at hc
  cases op <;> first | exact absurd hlook (by decide) | (cases hc; decide)

end Fits

/-! ## §C  Operators that group to the left -/

/-- The symbol of an operator is not next where an expression at the level of the operator ends. -/
theorem Operator.isPrefixOf_of_ends {op : Operator} (hop : op ≠ .negate) {rest : List Char}
    (h : op.level.Ends rest) : op.symbol.toList.isPrefixOf (Text.trimStart rest) = false := by
  rcases h with h | ⟨op', ms, more, hms, hop', hlt, rfl⟩
  · rw [h.trimStart]
    cases rest with
    | nil => cases op <;> rfl
    | cons c rest => rcases h c rfl with rfl | rfl | rfl <;> cases op <;> rfl
  · obtain ⟨tail, htext, -⟩ := hms.trimStart more
    rw [htext]
    cases op <;> cases op' <;> first | rfl | exact absurd hlt (by decide) | exact absurd rfl hop

/-- Takes an operator that groups to the left, if one of a level is next. -/
def Level.operator : Level → Parser (Option Operator)
  | .equality => symbolic [.notEqual, .equal]
  | .relational => symbolic [.lessOrEqual, .greaterOrEqual, .less, .greater]
  | .additive => symbolic [.sum, .minus]
  | .multiplicative => multiplicativeOperator
  | _ => pure none

section

variable {cs more text : List Char}

theorem takes_symbolOf_none {ops : List Operator}
    (h : ∀ op ∈ ops, op.symbol.toList.isPrefixOf cs = false) : Takes (symbolOf ops) cs none cs := by
  induction ops with
  | nil => exact Takes.pure none cs
  | cons op ops ih =>
    obtain ⟨hop, hops⟩ := List.forall_mem_cons.mp h
    exact (takes_accept_false hop).bind (ih hops)

/-- The first operator of a list whose symbol is next. -/
theorem takes_symbolOf (before after : List Operator) {op : Operator}
    (h : (before.any fun op' => op'.symbol.toList.isPrefixOf (op.symbol.toList ++ cs)) = false) :
    Takes (symbolOf (before ++ op :: after)) (op.symbol.toList ++ cs) (some op) cs := by
  induction before with
  | nil => exact (takes_accept _ _).bind (Takes.pure _ _)
  | cons op' before ih =>
    obtain ⟨hop, hops⟩ := Bool.or_eq_false_iff.mp h
    exact (takes_accept_false hop).bind (ih hops)

theorem takes_symbolic (before after : List Operator) {op : Operator}
    (htext : Text.trimStart text = op.symbol.toList ++ more)
    (h : (before.any fun op' => op'.symbol.toList.isPrefixOf (op.symbol.toList ++ more)) = false) :
    Takes (symbolic (before ++ op :: after)) text (some op) more := by
  refine (takes_blanks text).bind ?_
  rw [htext]
  exact takes_symbolOf before after h

theorem takes_symbolic_none {ops : List Operator}
    (h : ∀ op ∈ ops, op.symbol.toList.isPrefixOf (Text.trimStart text) = false) :
    Takes (symbolic ops) text none (Text.trimStart text) :=
  (takes_blanks text).bind (takes_symbolOf_none h)

theorem isNameChar_space : ∀ c ∈ (' ' :: more).head?, isNameChar c = false := by
  rintro _ ⟨⟩
  decide

theorem takes_multiplicativeOperator {op : Operator} (hop : op.level = .multiplicative)
    (htext : Text.trimStart text = op.symbol.toList ++ ' ' :: more) :
    Takes multiplicativeOperator text (some op) (' ' :: more) := by
  refine (takes_blanks text).bind ?_
  have htrim : Text.trimStart (op.symbol.toList ++ ' ' :: more) = op.symbol.toList ++ ' ' :: more := by
    rw [← htext, Text.trimStart_trimStart]
  rw [htext]
  cases op <;> try exact absurd hop (by decide)
  case multiply => exact (takes_accept ['*'] _).bind (Takes.pure _ _)
  case divide =>
    exact (takes_accept_false rfl).bind ((takes_keyword htrim isNameChar_space).bind (Takes.pure _ _))
  case modulo =>
    refine (takes_accept_false rfl).bind ((takes_keyword_false ?_).bind ?_)
    · rw [htrim]
      rfl
    · rw [htrim]
      exact (takes_keyword htrim isNameChar_space).bind (Takes.pure _ _)

/-- Between two operands, the operator of a level that groups to the left is taken. -/
theorem takes_operator {op : Operator} {tail : List Char} (hjoins : op.joins = false) (hop : op ≠ .negate)
    (htext : Text.trimStart text = op.symbol.toList ++ tail) (htail : tail = ' ' :: more ∨ op = .equal ∧ tail = more) :
    Takes op.level.operator text (some op) tail := by
  rcases htail with rfl | ⟨rfl, rfl⟩
  case inr => exact takes_symbolic [.notEqual] [] htext rfl
  cases op
  case sum => exact takes_symbolic [] [.minus] htext rfl
  case minus => exact takes_symbolic [.sum] [] htext rfl
  case equal => exact takes_symbolic [.notEqual] [] htext rfl
  case notEqual => exact takes_symbolic [] [.equal] htext rfl
  case lessOrEqual => exact takes_symbolic [] [.greaterOrEqual, .less, .greater] htext rfl
  case greaterOrEqual => exact takes_symbolic [.lessOrEqual] [.less, .greater] htext rfl
  case less => exact takes_symbolic [.lessOrEqual, .greaterOrEqual] [.greater] htext rfl
  case greater => exact takes_symbolic [.lessOrEqual, .greaterOrEqual, .less] [] htext rfl
  case negate => exact absurd rfl hop
  all_goals first | exact takes_multiplicativeOperator rfl htext | exact absurd hjoins (by decide)

/-- Where an expression at a level ends, no operator of the level is taken. -/
theorem takes_operator_none (l : Level) (h : l.Ends more) :
    Takes l.operator (Text.trimStart more) none (Text.trimStart more) := by
  have hnext : ∀ op : Operator, op ≠ .negate → op.level = l →
      op.symbol.toList.isPrefixOf (Text.trimStart (Text.trimStart more)) = false := by
    rintro op hop rfl
    rw [Text.trimStart_trimStart]
    exact Operator.isPrefixOf_of_ends hop h
  have hsymbolic : ∀ ops : List Operator, (∀ op ∈ ops, op ≠ .negate ∧ op.level = l) →
      Takes (symbolic ops) (Text.trimStart more) none (Text.trimStart more) := by
    intro ops hops
    have htake : Takes (symbolic ops) (Text.trimStart more) none (Text.trimStart (Text.trimStart more)) :=
      takes_symbolic_none fun op hop => hnext op (hops op hop).1 (hops op hop).2
    rwa [Text.trimStart_trimStart] at htake
  cases l
  case equality => exact hsymbolic _ (by decide)
  case relational => exact hsymbolic _ (by decide)
  case additive => exact hsymbolic _ (by decide)
  case multiplicative =>
    rw [Text.trimStart_trimStart] at hnext
    refine (takes_blanks _).bind ?_
    rw [Text.trimStart_trimStart]
    have hkeyword : ∀ op : Operator, op ≠ .negate → op.level = .multiplicative →
        Takes (keyword op.symbol) (Text.trimStart more) false (Text.trimStart more) := by
      intro op hop hl
      have htake : Takes (keyword op.symbol) (Text.trimStart more) false (Text.trimStart (Text.trimStart more)) :=
        takes_keyword_false (by rw [Text.trimStart_trimStart]; exact hnext op hop hl)
      rwa [Text.trimStart_trimStart] at htake
    refine (takes_accept_false (hnext .multiply (by decide) rfl)).bind ?_
    refine (hkeyword .divide (by decide) rfl).bind ?_
    exact (hkeyword .modulo (by decide) rfl).bind (Takes.pure _ _)
  all_goals exact Takes.pure _ _

end

/-! ## §D  Operators between any number of operands -/

/-- Takes an operator that joins any number of operands, if the one of a level is next. -/
def Level.joiner : Level → Parser Bool
  | .disjunction => keyword "or"
  | .conjunction => keyword "and"
  | .union => mark '|'
  | _ => pure false

theorem takes_joiner {op : Operator} (hjoins : op.joins = true) {text more : List Char}
    (htext : Text.trimStart text = op.symbol.toList ++ ' ' :: more) :
    Takes op.level.joiner text true (' ' :: more) := by
  cases op
  case and => exact takes_keyword htext isNameChar_space
  case or => exact takes_keyword htext isNameChar_space
  case union => exact takes_mark htext
  all_goals exact absurd hjoins (by decide)

theorem takes_joiner_false {op : Operator} (hjoins : op.joins = true) {text rest : List Char}
    (htext : Text.trimStart text = Text.trimStart rest) (h : op.level.Ends rest) :
    Takes op.level.joiner text false (Text.trimStart rest) := by
  have hnext : op.symbol.toList.isPrefixOf (Text.trimStart rest) = false := by
    refine Operator.isPrefixOf_of_ends ?_ h
    rintro rfl
    exact absurd hjoins (by decide)
  rw [← htext] at hnext ⊢
  cases op
  case and => exact takes_keyword_false hnext
  case or => exact takes_keyword_false hnext
  case union => exact (takes_blanks text).bind (takes_accept_false hnext)
  all_goals exact absurd hjoins (by decide)

end NodePath
