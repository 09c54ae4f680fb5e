/-
# NodePath.Proofs.Reading — a spelling is read as the tree it spells

Each level of the grammar is read by a reader of its own. For each kind of phrase it is said what its reader takes
of a spelling, whatever stands behind it, and the induction on the spelling shows that it does. A level whose
operators group to the left has to be spoken of from within its loop: having read a spelling of `e`, the reader
is where it would be had `e` been the first operand.

* §A  The readers of the levels.
* §B  What reading a phrase means.
* §C  From a level to the one above it.
* §D  Operations.
* §E  Paths.
* §F  Primary expressions and arguments.
* §G  The induction, and whole texts.
-/
import NodePath.Proofs.StepReading

namespace NodePath

open NodePath.Parser

/-! ## §A  Readers -/

namespace Level

/-- The reader of a level. -/
def reader (inner : Parser Expr) : Level → Parser Expr
  | .disjunction => Parser.disjunction inner
  | .conjunction => Parser.conjunction inner
  | .equality => Parser.equality inner
  | .relational => Parser.relational inner
  | .additive => Parser.additive inner
  | .multiplicative => Parser.multiplicative inner
  | .unary => Parser.unary inner
  | .union => Parser.union inner
  | .path => Parser.path inner
  | .primary => Parser.primary inner

/-- Whether the operators of a level group to the left. -/
def groupsLeft : Level → Bool
  | .equality => true
  | .relational => true
  | .additive => true
  | .multiplicative => true
  | _ => false

theorem reader_of_groupsLeft {l : Level} (h : l.groupsLeft = true) (inner : Parser Expr) :
    l.reader inner = Parser.left l.operator (l.tighter.reader inner) := by
  cases l <;> first | rfl | exact absurd h (by decide)

end Level

theorem Operator.reader_of_joins {op : Operator} (h : op.joins = true) (inner : Parser Expr) :
    op.level.reader inner = operands op op.level.joiner (op.level.tighter.reader inner) := by
  cases op <;> first | rfl | exact absurd h (by decide)

theorem Operator.groupsLeft_of_binary {op : Operator} (hjoins : op.joins = false) (hop : op ≠ .negate) :
    op.level.groupsLeft = true := by
  cases op <;> first | rfl | exact absurd hjoins (by decide) | exact absurd rfl hop

/-! ## §B  What reading means -/

/-- **Reads** says that the reader of a level takes `e` from the front of `text` and leaves `rest`, or, at a level
whose operators group to the left, goes on with `e` as the operand read so far. -/
def Level.Reads (inner : Parser Expr) (text : List Char) (e : Expr) (rest : List Char) (l : Level) : Prop :=
  if l.groupsLeft then
    l.tighter.Ends rest → ∀ r final,
      (∀ n, (Text.trimStart rest).length < n →
        Takes (leftFrom l.operator (l.tighter.reader inner) n e) (Text.trimStart rest) r final) →
      Takes (l.reader inner) text r final
  else
    match l with
    | .unary => l.Ends rest → ∀ n, text.length < n → Takes (unaryFrom inner n) text e (Text.trimStart rest)
    | .primary => (∀ c ∈ rest.head?, isNameChar c = false ∧ c ≠ ':') →
        (∀ n, startsPath ⟨Text.trimStart text, n⟩ = false) ∧ Takes (Parser.primary inner) text e rest
    | l => l.Ends rest → Takes (l.reader inner) text e (Text.trimStart rest)

/-- What is taken of a phrase that is spelled by `cs`, in front of any `rest` that ends it. -/
def Phrase.Reads : Phrase → List Char → Prop
  | .expr l e, cs => e.WellFormed DigitValue → ∀ {depth : Nat} {text rest : List Char}, cs.length ≤ depth →
      Text.trimStart text = cs ++ rest → Fits cs rest → l.Reads (expression depth) text e rest
  | .operands op es, cs => op.joins = true → (∀ e ∈ es, e.WellFormed DigitValue) →
      ∀ {depth : Nat} {text rest : List Char}, cs.length ≤ depth →
      Text.trimStart text = Text.trimStart (cs ++ rest) → Fits cs rest → op.level.Ends rest →
      ∀ n taken, text.length < n →
        Takes (itemsFrom op.level.joiner (op.level.tighter.reader (expression depth)) n taken) text
          (taken.reverse ++ es) (Text.trimStart rest)
  | .predicates es, cs => (∀ e ∈ es, e.WellFormed DigitValue) →
      ∀ {depth : Nat} {rest : List Char}, cs.length ≤ depth → (∀ c ∈ (Text.trimStart rest).head?, c ≠ '[') →
      ∀ n taken, (cs ++ rest).length < n →
        Takes (itemsFrom (mark '[') (predicate (expression depth)) n taken) (cs ++ rest) (taken.reverse ++ es)
          (Text.trimStart rest)
  | .step s, cs => s.test.WellFormed → (∀ e ∈ s.predicates, e.WellFormed DigitValue) →
      ∀ {depth : Nat} {rest : List Char}, cs.length ≤ depth → Delimits rest →
      (∀ c ∈ (Text.trimStart rest).head?, c ≠ '[') →
      Takes (Parser.step (expression depth)) (cs ++ rest) s (Text.trimStart rest)
  | .steps ss, cs => (∀ s ∈ ss, s.test.WellFormed) → (∀ s ∈ ss, ∀ e ∈ s.predicates, e.WellFormed DigitValue) →
      ∀ {depth : Nat} {text rest : List Char}, cs.length ≤ depth →
      Text.trimStart text = Text.trimStart (cs ++ rest) → Level.path.Ends rest → ∀ n taken, text.length < n →
        Takes (stepsFrom (expression depth) n taken) text (taken.reverse ++ ss) (Text.trimStart rest)
  | .arguments es, cs => (∀ e ∈ es, e.WellFormed DigitValue) →
      ∀ {depth : Nat} (rest : List Char), cs.length < depth →
        Takes (Parser.arguments (expression depth)) (cs ++ ')' :: rest) es rest
  | .further es, cs => (∀ e ∈ es, e.WellFormed DigitValue) →
      ∀ {depth : Nat} (rest : List Char), cs.length ≤ depth → ∀ n taken, (cs ++ ')' :: rest).length < n →
        Takes (itemsFrom (mark ',') (expression depth) n taken) (cs ++ ')' :: rest) (taken.reverse ++ es)
          (')' :: rest)

section

variable {inner : Parser Expr} {text rest cs : List Char} {e : Expr} {l : Level}

theorem Level.reads_iff_of_groupsLeft (h : l.groupsLeft = true) : l.Reads inner text e rest ↔
    (l.tighter.Ends rest → ∀ r final,
      (∀ n, (Text.trimStart rest).length < n →
        Takes (leftFrom l.operator (l.tighter.reader inner) n e) (Text.trimStart rest) r final) →
      Takes (l.reader inner) text r final) := by
  simp only [Level.Reads, h, if_true]

/-- At the end of an expression, the reader of its level has taken it. -/
theorem Level.Reads.takes (h : l.Reads inner text e rest) (hl : l ≠ .primary) (hrest : l.Ends rest) :
    Takes (l.reader inner) text e (Text.trimStart rest) := by
  cases hleft : l.groupsLeft with
  | true =>
    refine (Level.reads_iff_of_groupsLeft hleft).mp h hrest.tighter e _ fun n hn => ?_
    obtain ⟨n, rfl⟩ : ∃ m, n = m + 1 := ⟨n - 1, by omega⟩
    exact (takes_operator_none l hrest).bind (Takes.pure _ _)
  | false =>
    cases l <;> first | exact h hrest | exact absurd rfl hl | exact absurd hleft (by decide) | skip
    exact Takes.bounded (h hrest _ (Nat.lt_succ_self _))

end

/-! ## §C  From a level to the one above it -/

section

variable {inner : Parser Expr} {text mid rest : List Char} {e : Expr}

theorem takes_operands_single {op : Operator} {more : Parser Bool} {operand : Parser Expr}
    (hfirst : Takes operand text e mid)
    (hmore : ∀ n, mid.length < n → Takes (itemsFrom more operand n []) mid [] rest) :
    Takes (operands op more operand) text e rest :=
  hfirst.bind ((Takes.bounded (hmore _ (Nat.lt_succ_self _))).bind (Takes.pure _ _))

theorem takes_operands_several {op : Operator} {more : Parser Bool} {operand : Parser Expr} {e' : Expr}
    {es : List Expr} (hfirst : Takes operand text e mid)
    (hmore : ∀ n, mid.length < n → Takes (itemsFrom more operand n []) mid (e' :: es) rest) :
    Takes (operands op more operand) text (.operation op (e :: e' :: es)) rest :=
  hfirst.bind ((Takes.bounded (hmore _ (Nat.lt_succ_self _))).bind (Takes.pure _ _))

/-- No further operand is read where the level ends. -/
theorem takes_items_none {op : Operator} (hjoins : op.joins = true) {operand : Parser Expr} {taken : List Expr}
    (htext : Text.trimStart text = Text.trimStart rest) (hrest : op.level.Ends rest) {n : Nat} (hn : 0 < n) :
    Takes (itemsFrom op.level.joiner operand n taken) text taken.reverse (Text.trimStart rest) := by
  obtain ⟨n, rfl⟩ : ∃ m, n = m + 1 := ⟨n - 1, by omega⟩
  exact takes_itemsFrom_nil (takes_joiner_false hjoins htext hrest)

theorem takes_mark_items_none {α : Type} {c : Char} {item : Parser α} {taken : List α}
    (hrest : (Text.trimStart rest).head? ≠ some c) {n : Nat} (hn : 0 < n) :
    Takes (itemsFrom (mark c) item n taken) rest taken.reverse (Text.trimStart rest) := by
  obtain ⟨n, rfl⟩ : ∃ m, n = m + 1 := ⟨n - 1, by omega⟩
  exact takes_itemsFrom_nil (takes_mark_false hrest)

/-- A primary expression with predicates behind it, and nothing more. -/
theorem takes_path_head {es : List Expr} (hstart : ∀ n, startsPath ⟨Text.trimStart text, n⟩ = false)
    (hhead : Takes (primary inner) (Text.trimStart text) e mid)
    (hpredicates : Takes (predicates inner) mid es (Text.trimStart rest))
    (hrest : (Text.trimStart rest).head? ≠ some '/') :
    Takes (Parser.path inner) text (.filterOf e es []) (Text.trimStart rest) := by
  refine (takes_blanks text).bind (Takes.get_bind fun n => ?_)
  rw [hstart n]
  refine hhead.bind (hpredicates.bind ((takes_blanks _).bind ?_))
  rw [Text.trimStart_trimStart]
  refine Takes.get_bind fun m => ?_
  have hslash : ((Text.trimStart rest).head? == some '/') = false := beq_eq_false_iff_ne.mpr hrest
  simp only [Input.peek?, hslash, Bool.false_eq_true, if_false]
  exact Takes.pure _ _

/-- A primary expression with predicates and steps behind it. -/
theorem takes_path_steps {es : List Expr} {ss : List Step} {behind : List Char}
    (hstart : ∀ n, startsPath ⟨Text.trimStart text, n⟩ = false)
    (hhead : Takes (primary inner) (Text.trimStart text) e mid)
    (hpredicates : Takes (predicates inner) mid es (Text.trimStart behind))
    (hbehind : (Text.trimStart behind).head? = some '/')
    (hsteps : Takes (Parser.steps inner []) (Text.trimStart behind) ss rest) :
    Takes (Parser.path inner) text (.filterOf e es ss) rest := by
  refine (takes_blanks text).bind (Takes.get_bind fun n => ?_)
  rw [hstart n]
  refine hhead.bind (hpredicates.bind ((takes_blanks _).bind ?_))
  rw [Text.trimStart_trimStart]
  refine Takes.get_bind fun m => ?_
  simp only [Input.peek?, hbehind, BEq.rfl, if_true]
  exact hsteps.bind (Takes.pure _ _)

end

/-- No operator takes primary expressions for operands: paths are between. -/
theorem Operator.tighter_ne_primary (op : Operator) : op.level.tighter ≠ .primary := by
  cases op <;> decide

/-- The operands of an operator are of a tighter level than what it makes. -/
theorem Operator.rank_lt_tighter (op : Operator) : op.level.rank < op.level.tighter.rank := by
  cases op <;> decide

theorem Operator.exists_joins_of_level {l : Level} (hleft : l.groupsLeft = false) (hunary : l ≠ .unary)
    (hpath : l ≠ .path) (hprimary : l ≠ .primary) : ∃ op : Operator, op.joins = true ∧ op.level = l := by
  cases l
  case disjunction => exact ⟨.or, rfl, rfl⟩
  case conjunction => exact ⟨.and, rfl, rfl⟩
  case union => exact ⟨.union, rfl, rfl⟩
  all_goals first
    | exact absurd hleft (by decide) | exact absurd rfl hunary | exact absurd rfl hpath | exact absurd rfl hprimary

section

variable {inner : Parser Expr} {text rest : List Char} {e : Expr} {l : Level}

theorem Level.Reads.of_joins {op : Operator} (hop : op.joins = true)
    (h : op.level.Ends rest → Takes (op.level.reader inner) text e (Text.trimStart rest)) :
    op.level.Reads inner text e rest := by
  cases op <;> first | exact h | exact absurd hop (by decide)

theorem Level.Reads.loosen_left (hleft : l.groupsLeft = true) (h : l.tighter.Reads inner text e rest) :
    l.Reads inner text e rest := by
  refine (Level.reads_iff_of_groupsLeft hleft).mpr fun hrest r final hgo => ?_
  have hne : l.tighter ≠ .primary := by cases l <;> first | decide | exact absurd hleft (by decide)
  rw [Level.reader_of_groupsLeft hleft]
  exact (h.takes hne hrest).bind (Takes.bounded (hgo _ (Nat.lt_succ_self _)))

theorem Level.Reads.loosen_joins {op : Operator} (hop : op.joins = true)
    (h : op.level.tighter.Reads inner text e rest) : op.level.Reads inner text e rest := by
  refine .of_joins hop fun hrest => ?_
  rw [Operator.reader_of_joins hop]
  exact takes_operands_single (h.takes op.tighter_ne_primary hrest.tighter) fun n hn =>
    takes_items_none hop (Text.trimStart_trimStart rest) hrest (by omega)

theorem Level.Reads.loosen_unary (hminus : (Text.trimStart text).head? ≠ some '-')
    (h : Level.union.Reads inner (Text.trimStart text) e rest) : Level.unary.Reads inner text e rest := by
  intro hrest n hn
  obtain ⟨n, rfl⟩ : ∃ m, n = m + 1 := ⟨n - 1, by omega⟩
  exact (takes_blanks text).bind ((takes_accept_cons_false hminus).bind (h hrest.tighter))

theorem Level.Reads.loosen_path (h : Level.primary.Reads inner (Text.trimStart text) e rest) :
    Level.path.Reads inner text e rest := by
  intro hrest
  obtain ⟨hstart, htake⟩ := h hrest.head
  rw [Text.trimStart_trimStart] at hstart
  have hfront : ∀ {c : Char}, c = '[' ∨ c = '/' → (Text.trimStart rest).head? ≠ some c := by
    intro c hc hhead
    have hne := hrest.trimStart_head c hhead
    rcases hc with rfl | rfl
    · exact hne.2.1 rfl
    · exact hne.2.2.1 rfl
  exact takes_path_head hstart htake
    (Takes.bounded (takes_mark_items_none (hfront (.inl rfl)) (Nat.succ_pos _))) (hfront (.inr rfl))

end

/-- What is read at a level is read at the level above it. -/
theorem Phrase.Reads.loosen {l : Level} {e : Expr} {cs : List Char} (h : (Phrase.expr l.tighter e).Reads cs)
    (hopens : (Phrase.expr l.tighter e).OpensWell DigitValue cs) : (Phrase.expr l e).Reads cs := by
  intro hwf depth text rest hdepth htext hfits
  have htrim : Text.trimStart (Text.trimStart text) = cs ++ rest := by rw [Text.trimStart_trimStart, htext]
  cases hleft : l.groupsLeft with
  | true => exact .loosen_left hleft (h hwf hdepth htext hfits)
  | false =>
    by_cases hprimary : l = .primary
    · subst hprimary
      exact h hwf hdepth htext hfits
    by_cases hpath : l = .path
    · subst hpath
      exact .loosen_path (h hwf hdepth htrim hfits)
    by_cases hunary : l = .unary
    · subst hunary
      refine .loosen_unary ?_ (h hwf hdepth htrim hfits)
      obtain ⟨c, tail, rfl, -, hc⟩ := hopens hwf
      rw [htext]
      rintro ⟨⟩
      exact hc (by decide) rfl
    obtain ⟨op, hop, rfl⟩ := Operator.exists_joins_of_level hleft hunary hpath hprimary
    exact .loosen_joins hop (h hwf hdepth htext hfits)

/-! ## §D  Operations -/

section

variable {op : Operator} {e a b : Expr} {es : List Expr} {cs ds ms : List Char}

theorem Phrase.OpensWell.trimStart {l : Level} {e : Expr} {cs : List Char}
    (h : (Phrase.expr l e).OpensWell DigitValue cs) (hwf : e.WellFormed DigitValue) (rest : List Char) :
    Text.trimStart (cs ++ rest) = cs ++ rest := by
  obtain ⟨c, tail, rfl, hopening, -⟩ := h hwf
  exact Text.trimStart_cons hopening.1

/-- Further operands begin with the operator. -/
theorem Spells.operands_cases {clear : Operator → List Char → Prop} (h : Spells clear (.operands op es) ds) :
    es = [] ∧ ds = [] ∨ es ≠ [] ∧ ∃ more, ds = op.spaced ++ more := by
  cases h with
  | noOperands => exact .inl ⟨rfl, rfl⟩
  | operand => exact .inr ⟨List.cons_ne_nil _ _, _, rfl⟩

/-- An operand ends where the further ones begin, or where the operation ends. -/
theorem ends_operands (hjoins : op.joins = true) {rest : List Char} (h : Spells Operator.Clear (.operands op es) ds)
    (hclear : es ≠ [] → op.Clear cs) (hrest : op.level.Ends rest) (hfits : Fits (cs ++ ds) rest) :
    op.level.tighter.Ends (ds ++ rest) ∧ Fits cs (ds ++ rest) := by
  rcases h.operands_cases with ⟨-, rfl⟩ | ⟨hne, more, rfl⟩
  · rw [List.append_nil] at hfits
    exact ⟨hrest.tighter, hfits⟩
  · rw [List.append_assoc]
    have hop : op ≠ .negate := by
      rintro rfl
      exact absurd hjoins (by decide)
    exact ⟨Level.ends_parts (.spaced op) hop op.rank_lt_tighter _, .of_clear (.spaced op) (hclear hne) _⟩

theorem reads_operand (hcs : (Phrase.expr op.level.tighter e).Reads cs)
    (hopens : (Phrase.expr op.level.tighter e).OpensWell DigitValue cs) (hclear : es ≠ [] → op.Clear cs)
    (hspells : Spells Operator.Clear (.operands op es) ds) (hds : (Phrase.operands op es).Reads ds) :
    (Phrase.operands op (e :: es)).Reads (op.spaced ++ (cs ++ ds)) := by
  intro hjoins hwf depth text rest hdepth htext hfits hrest n taken hn
  obtain ⟨he, hes⟩ := List.forall_mem_cons.mp hwf
  obtain ⟨hends, hfitscs⟩ := ends_operands hjoins hspells hclear hrest hfits.of_append
  obtain ⟨n, rfl⟩ : ∃ m, n = m + 1 := ⟨n - 1, by omega⟩
  have hspace : Text.trimStart (' ' :: (cs ++ ds ++ rest)) = cs ++ (ds ++ rest) := by
    rw [Text.trimStart_space, List.append_assoc, hopens.trimStart he]
  rw [List.append_assoc, Operator.trimStart_spaced] at htext
  simp only [List.length_append] at hdepth
  have hcsdepth : cs.length ≤ depth := by omega
  have hdsdepth : ds.length ≤ depth := by omega
  have hlength : (Text.trimStart (ds ++ rest)).length < n := by
    have hle := Text.trimStart_length_le text
    rw [htext] at hle
    have := Text.trimStart_length_le (ds ++ rest)
    simp only [List.length_append, List.length_cons] at hle this hn ⊢
    omega
  have hothers := hds hjoins hes hdsdepth (Text.trimStart_trimStart (ds ++ rest)) hfits.of_append.of_append hrest n
    (e :: taken) hlength
  rw [List.reverse_cons, List.append_assoc] at hothers
  exact takes_itemsFrom_cons (takes_joiner hjoins htext)
    ((hcs he hcsdepth hspace hfitscs).takes op.tighter_ne_primary hends) hothers

theorem reads_join (hjoins : op.joins = true) (hcs : (Phrase.expr op.level.tighter e).Reads cs)
    (hclear : op.Clear cs) (hspells : Spells Operator.Clear (.operands op es) ds)
    (hds : (Phrase.operands op es).Reads ds) : (Phrase.expr op.level (.operation op (e :: es))).Reads (cs ++ ds) := by
  intro hwf depth text rest hdepth htext hfits
  have he : ∀ e' ∈ e :: es, e'.WellFormed DigitValue := fun _ => hwf.of_operation
  obtain ⟨he, hes⟩ := List.forall_mem_cons.mp he
  refine .of_joins hjoins fun hrest => ?_
  obtain ⟨hends, hfitscs⟩ := ends_operands hjoins hspells (fun _ => hclear) hrest hfits
  simp only [List.length_append] at hdepth
  have hcsdepth : cs.length ≤ depth := by omega
  have hdsdepth : ds.length ≤ depth := by omega
  rw [List.append_assoc] at htext
  have hfirst := (hcs he hcsdepth htext hfitscs).takes op.tighter_ne_primary hends
  have hothers := fun n => hds hjoins hes hdsdepth (Text.trimStart_trimStart (ds ++ rest)) hfits.of_append hrest n []
  rw [Operator.reader_of_joins hjoins]
  cases es with
  | nil =>
    cases hwf with
    | operation htakes =>
      cases op <;> first | exact absurd hjoins (by decide) | exact absurd htakes (by simp [Operator.Takes])
  | cons e' es => exact takes_operands_several hfirst hothers

theorem reads_binary (hjoins : op.joins = false) (hop : op ≠ .negate) (hms : op.Parts ms)
    (hcs : (Phrase.expr op.level a).Reads cs)
    (hclear : op.Clear cs) (hds : (Phrase.expr op.level.tighter b).Reads ds)
    (hopens : (Phrase.expr op.level.tighter b).OpensWell DigitValue ds) :
    (Phrase.expr op.level (.binary op a b)).Reads (cs ++ (ms ++ ds)) := by
  intro hwf depth text rest hdepth htext hfits
  have ha : a.WellFormed DigitValue := hwf.of_operation List.mem_cons_self
  have hb : b.WellFormed DigitValue := hwf.of_operation (List.mem_cons_of_mem _ List.mem_cons_self)
  have hleft := Operator.groupsLeft_of_binary hjoins hop
  simp only [List.length_append] at hdepth
  have hcsdepth : cs.length ≤ depth := by omega
  have hdsdepth : ds.length ≤ depth := by omega
  rw [List.append_assoc, List.append_assoc] at htext
  refine (Level.reads_iff_of_groupsLeft hleft).mpr fun hrest r final hgo => ?_
  -- The left operand is read as a level that goes on, and the operator is what it goes on with.
  have hleftmost := hcs ha hcsdepth htext (.of_clear hms hclear (ds ++ rest))
  refine (Level.reads_iff_of_groupsLeft hleft).mp hleftmost (Level.ends_parts hms hop op.rank_lt_tighter _) r final
    fun n hn => ?_
  obtain ⟨n, rfl⟩ : ∃ m, n = m + 1 := ⟨n - 1, by omega⟩
  obtain ⟨tail, hfront, htail⟩ := hms.trimStart (ds ++ rest)
  have hspace : Text.trimStart tail = ds ++ rest := by
    rcases htail with rfl | ⟨-, rfl⟩
    · rw [Text.trimStart_space, hopens.trimStart hb]
    · rw [hopens.trimStart hb]
  have hlength : (Text.trimStart rest).length < n := by
    have hrest := Text.trimStart_length_le rest
    have htrim := Text.trimStart_length_le tail
    have hsymbol : 0 < op.symbol.toList.length := by cases op <;> decide
    rw [hspace] at htrim
    rw [hfront] at hn
    simp only [List.length_append] at hn htrim
    omega
  refine (takes_operator hjoins hop (by rw [Text.trimStart_trimStart, hfront]) htail).bind ?_
  exact ((hds hb hdsdepth hspace hfits.of_append.of_append).takes op.tighter_ne_primary hrest).bind (hgo n hlength)

theorem reads_negate (hcs : (Phrase.expr .unary e).Reads cs)
    (hopens : (Phrase.expr .unary e).OpensWell DigitValue cs) :
    (Phrase.expr .unary (.operation .negate [e])).Reads ('-' :: cs) := by
  intro hwf depth text rest hdepth htext hfits hrest n hn
  have he : e.WellFormed DigitValue := hwf.of_operation List.mem_cons_self
  obtain ⟨n, rfl⟩ : ∃ m, n = m + 1 := ⟨n - 1, by omega⟩
  have hle := Text.trimStart_length_le text
  rw [htext] at hle
  simp only [List.length_cons, List.cons_append] at hle hdepth
  refine (takes_blanks text).bind ?_
  rw [htext]
  refine (takes_accept ['-'] (cs ++ rest)).bind ?_
  exact (hcs he (by omega) (hopens.trimStart he rest) hfits.of_cons hrest n (by omega)).bind (Takes.pure _ _)

end

/-! ## §E  Paths -/

section

variable {e : Expr} {es : List Expr} {s : Step} {ss : List Step} {cs ds fs : List Char}

/-- What stands between brackets or parentheses. -/
theorem takes_inner (hcs : (Phrase.expr .disjunction e).Reads cs) (hwf : e.WellFormed DigitValue) {depth : Nat}
    {text rest : List Char} (hdepth : cs.length < depth) (htext : Text.trimStart text = cs ++ rest)
    (hrest : Closes rest) : Takes (expression depth) text e rest := by
  obtain ⟨depth, rfl⟩ : ∃ m, depth = m + 1 := ⟨depth - 1, by omega⟩
  have htake := (hcs hwf (Nat.le_of_lt_succ hdepth) htext (.of_closes hrest)).takes (by decide) (.of_closes hrest)
  rwa [hrest.trimStart] at htake

theorem reads_noPredicates : (Phrase.predicates []).Reads [] := by
  intro _ depth rest _ hrest n taken hn
  rw [List.append_nil]
  exact takes_mark_items_none (fun h => hrest '[' h rfl) (by omega)

theorem reads_predicate (hcs : (Phrase.expr .disjunction e).Reads cs)
    (hopens : (Phrase.expr .disjunction e).OpensWell DigitValue cs) (hds : (Phrase.predicates es).Reads ds) :
    (Phrase.predicates (e :: es)).Reads ('[' :: (cs ++ ']' :: ds)) := by
  intro hwf depth rest hdepth hrest n taken hn
  obtain ⟨he, hes⟩ := List.forall_mem_cons.mp hwf
  obtain ⟨n, rfl⟩ : ∃ m, n = m + 1 := ⟨n - 1, by omega⟩
  simp only [List.length_cons, List.length_append] at hdepth hn
  have htext : '[' :: (cs ++ ']' :: ds) ++ rest = '[' :: (cs ++ ']' :: (ds ++ rest)) := by simp
  rw [htext]
  have hinner : Takes (predicate (expression depth)) (cs ++ ']' :: (ds ++ rest)) e (ds ++ rest) := by
    have hclose := Closes.bracket (ds ++ rest)
    refine (takes_inner hcs he (by omega) (hopens.trimStart he _) hclose).bind ((takes_blanks _).bind ?_)
    rw [hclose.trimStart]
    exact (takes_expect ']' _).bind (Takes.pure _ _)
  have hdsdepth : ds.length ≤ depth := by omega
  have hothers := hds hes hdsdepth hrest n (e :: taken) (by simp only [List.length_append]; omega)
  rw [List.reverse_cons, List.append_assoc] at hothers
  exact takes_itemsFrom_cons (takes_mark (Text.trimStart_cons (isBlank_eq_false (by decide)))) hinner hothers

theorem takes_predicates (hds : (Phrase.predicates es).Reads ds) (hwf : ∀ e ∈ es, e.WellFormed DigitValue)
    {depth : Nat} {rest : List Char} (hdepth : ds.length ≤ depth)
    (hrest : ∀ c ∈ (Text.trimStart rest).head?, c ≠ '[') :
    Takes (predicates (expression depth)) (ds ++ rest) es (Text.trimStart rest) :=
  Takes.bounded (hds hwf hdepth hrest _ [] (Nat.lt_succ_self _))

/-- A test ends where predicates begin, or where its step ends. -/
theorem Spells.delimits_predicates {clear : Operator → List Char → Prop} (h : Spells clear (.predicates es) ds)
    {rest : List Char} (hrest : Delimits rest) : Delimits (ds ++ rest) := by
  cases h with
  | noPredicates => exact hrest
  | predicate => exact delimits_cons (.inl rfl) _

/-- Where a step is next, a path begins. -/
theorem Spells.startsPath {clear : Operator → List Char → Prop} (h : Spells clear (.step s) cs)
    (hwf : s.test.WellFormed) {rest : List Char} (hrest : Delimits rest) (n : Nat) :
    startsPath ⟨cs ++ rest, n⟩ = true := by
  cases h with
  | @step a test es as ts ds ha ht hes =>
    have htext : as ++ (ts ++ ds) ++ rest = as ++ (ts ++ (ds ++ rest)) := by simp only [List.append_assoc]
    rw [htext]
    exact startsPath_step ha (ht.testFront hwf (hes.delimits_predicates hrest))

/-- The first character of an axis and a test. -/
theorem NodeTest.Spells.front {a : Axis} {test : NodeTest} {as ts : List Char} (ht : test.Spells ts)
    (ha : a.Spells as) (hwf : test.WellFormed) :
    ∃ c tail, as ++ ts = c :: tail ∧ Text.isBlank c = false ∧ c ≠ '/' ∧ c ≠ '.' ∧ startsStep c = true := by
  obtain ⟨c, tail, hstart, hc⟩ := ht.starts ha hwf
  refine ⟨c, tail, hstart, ?_⟩
  rcases hc with rfl | rfl | hc
  · exact ⟨isBlank_eq_false (by decide), by decide, by decide, rfl⟩
  · exact ⟨isBlank_eq_false (by decide), by decide, by decide, rfl⟩
  · refine ⟨isBlank_of_isNameStart hc, ?_, ?_, by simp [startsStep, hc]⟩
    · rintro rfl
      exact absurd hc (by decide)
    · rintro rfl
      exact absurd hc (by decide)

/-- The first character of a step. -/
theorem Spells.step_starts {clear : Operator → List Char → Prop} (h : Spells clear (.step s) cs)
    (hwf : s.test.WellFormed) :
    ∃ c tail, cs = c :: tail ∧ Text.isBlank c = false ∧ c ≠ '/' ∧ startsStep c = true := by
  cases h with
  | @step a test es as ts ds ha ht hes =>
    obtain ⟨c, tail, hstart, hblank, hslash, -, hc⟩ := ht.front ha hwf
    exact ⟨c, tail ++ ds, by rw [← List.append_assoc, hstart]; rfl, hblank, hslash, hc⟩

/-- A step whose axis and test are spelled, in front of its predicates. -/
theorem takes_step {inner : Parser Expr} {a : Axis} {test : NodeTest} {as ts behind rest : List Char}
    (ha : a.Spells as) (ht : test.Spells ts) (hwf : test.WellFormed) (hbehind : Delimits behind)
    (hpredicates : Takes (predicates inner) behind es rest) :
    Takes (Parser.step inner) (as ++ (ts ++ behind)) ⟨a, test, es⟩ rest := by
  obtain ⟨c, tail, hstart, hblank, -, hpoint, -⟩ := ht.front ha hwf
  have hstart : as ++ (ts ++ behind) = c :: (tail ++ behind) := by rw [← List.append_assoc, hstart]; rfl
  have hopen : Text.trimStart (as ++ (ts ++ behind)) = as ++ (ts ++ behind) := by
    rw [hstart]
    exact Text.trimStart_cons hblank
  have hhead : (as ++ (ts ++ behind)).head? ≠ some '.' := by
    rw [hstart]
    rintro ⟨⟩
    exact hpoint rfl
  have htest : Text.trimStart (ts ++ behind) = ts ++ behind := (Opens.of_step .child ht hwf).trimStart _
  refine (takes_blanks _).bind ?_
  rw [hopen]
  refine (takes_accept_cons_false hhead).bind ((takes_accept_cons_false hhead).bind ?_)
  refine (takes_axis ha (ht.testFront hwf hbehind)).bind ((takes_blanks _).bind ?_)
  rw [htest]
  exact (takes_nodeTest ht hwf hbehind).bind (hpredicates.bind (Takes.pure _ _))

theorem reads_step {a : Axis} {test : NodeTest} {as ts : List Char} (ha : a.Spells as) (ht : test.Spells ts)
    (hspells : Spells Operator.Clear (.predicates es) ds) (hds : (Phrase.predicates es).Reads ds) :
    (Phrase.step ⟨a, test, es⟩).Reads (as ++ (ts ++ ds)) := by
  intro hwf hes depth rest hdepth hdelimits hbracket
  have htext : as ++ (ts ++ ds) ++ rest = as ++ (ts ++ (ds ++ rest)) := by simp only [List.append_assoc]
  simp only [List.length_append] at hdepth
  have hdsdepth : ds.length ≤ depth := by omega
  rw [htext]
  exact takes_step ha ht hwf (hspells.delimits_predicates hdelimits) (takes_predicates hds hes hdsdepth hbracket)

theorem Level.Ends.ne_head {l : Level} {rest : List Char} (h : l.Ends rest) {c : Char}
    (hc : c = '(' ∨ c = '[' ∨ c = '/') : (Text.trimStart rest).head? ≠ some c := by
  intro hhead
  have hne := h.trimStart_head c hhead
  rcases hc with rfl | rfl | rfl
  · exact hne.1 rfl
  · exact hne.2.1 rfl
  · exact hne.2.2.1 rfl

theorem reads_noSteps : (Phrase.steps []).Reads [] := by
  intro _ _ depth text rest _ htext hrest n taken hn
  obtain ⟨n, rfl⟩ : ∃ m, n = m + 1 := ⟨n - 1, by omega⟩
  have hslash := hrest.ne_head (.inr (.inr rfl))
  rw [List.append_nil]
  refine (takes_blanks text).bind ?_
  rw [htext, List.nil_append]
  exact (takes_accept_cons_false hslash).bind ((takes_accept_cons_false hslash).bind (Takes.pure _ _))

/-- A step ends where further steps begin, or where the path ends. -/
theorem ends_step (hspells : Spells Operator.Clear (.steps ss) ds) {rest : List Char} (hrest : Level.path.Ends rest) :
    Delimits (ds ++ rest) ∧ ∀ c ∈ (Text.trimStart (ds ++ rest)).head?, c ≠ '[' := by
  cases hspells with
  | noSteps => exact ⟨hrest.delimits, fun c hc => (hrest.trimStart_head c hc).2.1⟩
  | slash =>
    refine ⟨delimits_cons (.inr rfl) _, ?_⟩
    rw [List.cons_append, Text.trimStart_cons (isBlank_eq_false (by decide))]
    rintro _ ⟨⟩
    decide

/-- Two slashes are not next where only one is. -/
theorem isPrefixOf_slashes_cons {text : List Char} (h : text.head? ≠ some '/') :
    ['/', '/'].isPrefixOf ('/' :: text) = false := by
  show ('/' == '/' && ['/'].isPrefixOf text) = false
  rw [isPrefixOf_eq_false h, Bool.and_false]

/-- A step behind a slash, and the steps behind it. -/
theorem takes_slash {inner : Parser Expr} {text mid behind rest : List Char} {taken : List Step} {n : Nat}
    (htext : Text.trimStart text = '/' :: mid) (hmid : mid.head? ≠ some '/')
    (hstep : Takes (Parser.step inner) mid s behind)
    (hsteps : Takes (stepsFrom inner n (s :: taken)) behind ss rest) :
    Takes (stepsFrom inner (n + 1) taken) text ss rest := by
  refine (takes_blanks text).bind ?_
  rw [htext]
  refine (takes_accept_false (isPrefixOf_slashes_cons hmid)).bind ((takes_accept ['/'] mid).bind ?_)
  exact hstep.bind hsteps

theorem reads_slash (hspells : Spells Operator.Clear (.step s) cs) (hcs : (Phrase.step s).Reads cs)
    (hspells' : Spells Operator.Clear (.steps ss) ds) (hds : (Phrase.steps ss).Reads ds) :
    (Phrase.steps (s :: ss)).Reads ('/' :: (cs ++ ds)) := by
  intro hwf hes depth text rest hdepth htext hrest n taken hn
  obtain ⟨hs, hss⟩ := List.forall_mem_cons.mp hwf
  obtain ⟨he, hes⟩ := List.forall_mem_cons.mp hes
  obtain ⟨hdelimits, hbracket⟩ := ends_step hspells' hrest
  obtain ⟨c, tail, hstart, -, hslash, -⟩ := hspells.step_starts hs
  obtain ⟨n, rfl⟩ : ∃ m, n = m + 1 := ⟨n - 1, by omega⟩
  have htext : Text.trimStart text = '/' :: (cs ++ (ds ++ rest)) := by
    rw [htext, List.cons_append, List.append_assoc]
    exact Text.trimStart_cons (isBlank_eq_false (by decide))
  have hhead : (cs ++ (ds ++ rest)).head? ≠ some '/' := by
    rw [hstart]
    rintro ⟨⟩
    exact hslash rfl
  have hlength : (Text.trimStart (ds ++ rest)).length < n := by
    have hle := Text.trimStart_length_le text
    have := Text.trimStart_length_le (ds ++ rest)
    rw [htext] at hle
    simp only [List.length_append, List.length_cons] at hle this ⊢
    omega
  simp only [List.length_cons, List.length_append] at hdepth
  have hcsdepth : cs.length ≤ depth := by omega
  have hdsdepth : ds.length ≤ depth := by omega
  have hothers := hds hss hes hdsdepth (Text.trimStart_trimStart _) hrest n (s :: taken) hlength
  rw [List.reverse_cons, List.append_assoc] at hothers
  exact takes_slash htext hhead (hcs hs he hcsdepth hdelimits hbracket) hothers

/-- The steps of a path, behind its first one. -/
theorem takes_steps (hds : (Phrase.steps ss).Reads ds) (hwf : ∀ s ∈ ss, s.test.WellFormed)
    (hes : ∀ s ∈ ss, ∀ e ∈ s.predicates, e.WellFormed DigitValue) {depth : Nat} {rest : List Char}
    (hdepth : ds.length ≤ depth) (hrest : Level.path.Ends rest) (taken : List Step) :
    Takes (Parser.steps (expression depth) taken) (Text.trimStart (ds ++ rest)) (taken.reverse ++ ss)
      (Text.trimStart rest) :=
  Takes.bounded (hds hwf hes hdepth (Text.trimStart_trimStart _) hrest _ taken (Nat.lt_succ_self _))

theorem Expr.WellFormed.of_path {absolute : Bool} (h : (Expr.path absolute ss).WellFormed DigitValue) :
    (∀ s ∈ ss, s.test.WellFormed) ∧ ∀ s ∈ ss, ∀ e ∈ s.predicates, e.WellFormed DigitValue := by
  cases h with
  | path _ htest hpred => exact ⟨htest, hpred⟩

/-- A path that begins with a step. -/
theorem takes_relative {inner : Parser Expr} {text mid behind rest : List Char} (htext : Text.trimStart text = mid)
    (hstart : ∀ n, startsPath ⟨mid, n⟩ = true) (hmid : mid.head? ≠ some '/')
    (hstep : Takes (Parser.step inner) mid s behind) (hsteps : Takes (Parser.steps inner [s]) behind ss rest) :
    Takes (Parser.path inner) text (.path false ss) rest := by
  refine (takes_blanks text).bind (Takes.get_bind fun n => ?_)
  rw [htext, hstart n]
  refine (takes_accept_cons_false hmid).bind ((takes_accept_cons_false hmid).bind ?_)
  exact hstep.bind (hsteps.bind (Takes.pure _ _))

/-- A path that begins at the root, with a step behind the slash. -/
theorem takes_absolute {inner : Parser Expr} {text mid behind rest : List Char} {c : Char}
    (htext : Text.trimStart text = '/' :: mid) (hmid : mid.head? = some c) (hc : Text.isBlank c = false ∧ c ≠ '/')
    (hstarts : startsStep c = true) (hstep : Takes (Parser.step inner) mid s behind)
    (hsteps : Takes (Parser.steps inner [s]) behind ss rest) :
    Takes (Parser.path inner) text (.path true ss) rest := by
  obtain ⟨mid, rfl⟩ : ∃ tail, mid = c :: tail := List.head?_eq_some_iff.mp hmid
  have hany : (c :: mid).head?.any startsStep = true := hstarts
  have hslash : (c :: mid).head? ≠ some '/' := by
    rintro ⟨⟩
    exact hc.2 rfl
  refine (takes_blanks text).bind (Takes.get_bind fun n => ?_)
  rw [htext]
  refine (takes_accept_false (isPrefixOf_slashes_cons hslash)).bind ((takes_accept ['/'] (c :: mid)).bind ?_)
  refine (takes_blanks _).bind ?_
  rw [Text.trimStart_cons hc.1]
  refine Takes.get_bind fun m => ?_
  simp only [Input.peek?, hany, Bool.not_true, Bool.false_eq_true, if_false]
  exact hstep.bind (hsteps.bind (Takes.pure _ _))

theorem reads_relative (hspells : Spells Operator.Clear (.step s) cs) (hcs : (Phrase.step s).Reads cs)
    (hspells' : Spells Operator.Clear (.steps ss) ds) (hds : (Phrase.steps ss).Reads ds) :
    (Phrase.expr .path (.path false (s :: ss))).Reads (cs ++ ds) := by
  intro hwf depth text rest hdepth htext hfits hrest
  obtain ⟨htest, hpred⟩ := hwf.of_path
  obtain ⟨hs, hss⟩ := List.forall_mem_cons.mp htest
  obtain ⟨he, hes⟩ := List.forall_mem_cons.mp hpred
  obtain ⟨hdelimits, hbracket⟩ := ends_step hspells' hrest
  obtain ⟨c, tail, hstart, -, hslash, -⟩ := hspells.step_starts hs
  simp only [List.length_append] at hdepth
  have hcsdepth : cs.length ≤ depth := by omega
  have hdsdepth : ds.length ≤ depth := by omega
  have hhead : (cs ++ (ds ++ rest)).head? ≠ some '/' := by
    rw [hstart]
    rintro ⟨⟩
    exact hslash rfl
  rw [List.append_assoc] at htext
  exact takes_relative htext (hspells.startsPath hs hdelimits) hhead (hcs hs he hcsdepth hdelimits hbracket)
    (takes_steps hds hss hes hdsdepth hrest [s])

theorem reads_absolute (hspells : Spells Operator.Clear (.step s) cs) (hcs : (Phrase.step s).Reads cs)
    (hspells' : Spells Operator.Clear (.steps ss) ds) (hds : (Phrase.steps ss).Reads ds) :
    (Phrase.expr .path (.path true (s :: ss))).Reads ('/' :: (cs ++ ds)) := by
  intro hwf depth text rest hdepth htext hfits hrest
  obtain ⟨htest, hpred⟩ := hwf.of_path
  obtain ⟨hs, hss⟩ := List.forall_mem_cons.mp htest
  obtain ⟨he, hes⟩ := List.forall_mem_cons.mp hpred
  obtain ⟨hdelimits, hbracket⟩ := ends_step hspells' hrest
  obtain ⟨c, tail, hstart, hblank, hslash, hstep⟩ := hspells.step_starts hs
  simp only [List.length_cons, List.length_append] at hdepth
  have hcsdepth : cs.length ≤ depth := by omega
  have hdsdepth : ds.length ≤ depth := by omega
  have hhead : (cs ++ (ds ++ rest)).head? = some c := by
    rw [hstart]
    rfl
  rw [List.cons_append, List.append_assoc] at htext
  exact takes_absolute htext hhead ⟨hblank, hslash⟩ hstep (hcs hs he hcsdepth hdelimits hbracket)
    (takes_steps hds hss hes hdsdepth hrest [s])

theorem reads_root : (Phrase.expr .path (.path true [])).Reads ['/'] := by
  intro hwf depth text rest hdepth htext hfits hrest
  have hslash : rest.head? ≠ some '/' := by
    intro hhead
    obtain ⟨tail, rfl⟩ := List.head?_eq_some_iff.mp hhead
    exact hrest.ne_head (.inr (.inr rfl)) (by rw [Text.trimStart_cons (isBlank_eq_false (by decide))]; rfl)
  have hany : (Text.trimStart rest).head?.any startsStep = false := by
    cases hhead : (Text.trimStart rest).head? with
    | none => rfl
    | some c => exact hfits rfl c hhead
  refine (takes_blanks text).bind (Takes.get_bind fun n => ?_)
  rw [htext, List.cons_append, List.nil_append]
  refine (takes_accept_false (isPrefixOf_slashes_cons hslash)).bind ((takes_accept ['/'] rest).bind ?_)
  refine (takes_blanks rest).bind ?_
  refine Takes.get_bind fun m => ?_
  simp only [Input.peek?, hany, Bool.not_false, if_true]
  exact Takes.pure _ _

/-- A bare expression with predicates and steps is a path as soon as it has one of either. -/
theorem Expr.filterOf_of_ne {head : Expr} (h : es ≠ [] ∨ ss ≠ []) : Expr.filterOf head es ss = .filter head es ss := by
  have hsome : (es.isEmpty && ss.isEmpty) = false := by
    rcases h with h | h
    · simp [h]
    · simp [h]
  simp only [Expr.filterOf, hsome, Bool.false_eq_true, if_false]

theorem reads_filter (hcs : (Phrase.expr .primary e).Reads cs) (hspells : Spells Operator.Clear (.predicates es) ds)
    (hds : (Phrase.predicates es).Reads ds) (hspells' : Spells Operator.Clear (.steps ss) fs)
    (hfs : (Phrase.steps ss).Reads fs) : (Phrase.expr .path (.filter e es ss)).Reads (cs ++ (ds ++ fs)) := by
  intro hwf depth text rest hdepth htext hfits hrest
  obtain ⟨he, hne, hes, htest, hpred⟩ : e.WellFormed DigitValue ∧ (es ≠ [] ∨ ss ≠ []) ∧
      (∀ e ∈ es, e.WellFormed DigitValue) ∧ (∀ s ∈ ss, s.test.WellFormed) ∧
      ∀ s ∈ ss, ∀ e ∈ s.predicates, e.WellFormed DigitValue := by
    cases hwf with
    | filter he hne hes htest hpred => exact ⟨he, hne, hes, htest, hpred⟩
  obtain ⟨hdelimits, hbracket⟩ := ends_step hspells' hrest
  simp only [List.length_append] at hdepth
  have hcsdepth : cs.length ≤ depth := by omega
  have hdsdepth : ds.length ≤ depth := by omega
  have hfsdepth : fs.length ≤ depth := by omega
  have htext' : Text.trimStart (Text.trimStart text) = cs ++ (ds ++ (fs ++ rest)) := by
    rw [Text.trimStart_trimStart, htext]
    simp only [List.append_assoc]
  -- Behind the head stands a bracket or a slash, for something follows it.
  have hfitscs : Fits cs (ds ++ (fs ++ rest)) := by
    cases hspells with
    | predicate => exact .of_delimiter (.inl rfl)
    | noPredicates =>
      cases hspells' with
      | slash => exact .of_delimiter (.inr rfl)
      | noSteps => exact absurd rfl (hne.resolve_left (fun h => h rfl))
  obtain ⟨hstart, hhead⟩ := hcs he hcsdepth htext' hfitscs (hspells.delimits_predicates hdelimits).1
  have hpredicates := takes_predicates hds hes hdsdepth hbracket
  rw [Text.trimStart_trimStart] at hstart
  rw [← Expr.filterOf_of_ne hne]
  cases hspells' with
  | noSteps => exact takes_path_head hstart hhead hpredicates (hrest.ne_head (.inr (.inr rfl)))
  | slash _ _ =>
    refine takes_path_steps hstart hhead hpredicates ?_ (takes_steps hfs htest hpred hfsdepth hrest [])
    rw [List.cons_append, Text.trimStart_cons (isBlank_eq_false (by decide))]
    rfl

end

/-! ## §F  Primary expressions -/

section

variable {e : Expr} {es : List Expr} {cs ds : List Char}

/-- No path begins with a character that begins neither a step nor the root. -/
theorem startsPath_eq_false {c : Char} {tail : List Char} {n : Nat} (hslash : c ≠ '/') (hc : startsStep c = false) :
    startsPath ⟨c :: tail, n⟩ = false := by
  simp only [startsStep, Bool.or_eq_false_iff] at hc
  obtain ⟨⟨⟨hpoint, hat⟩, hstar⟩, hname⟩ := hc
  simp only [startsPath, beq_eq_false_iff_ne.mpr hslash, hpoint, hat, hstar, hname, Bool.or_self, Bool.false_eq_true,
    if_false]

theorem reads_group (hcs : (Phrase.expr .disjunction e).Reads cs)
    (hopens : (Phrase.expr .disjunction e).OpensWell DigitValue cs) :
    (Phrase.expr .primary e).Reads ('(' :: (cs ++ [')'])) := by
  intro hwf depth text rest hdepth htext _ hrest
  have htext : Text.trimStart text = '(' :: (cs ++ ')' :: rest) := by
    rw [htext]
    simp
  have hclose := Closes.parenthesis rest
  simp only [List.length_cons, List.length_append] at hdepth
  rw [htext]
  refine ⟨fun n => startsPath_eq_false (by decide) (by decide), ?_⟩
  refine (takes_blanks text).bind (Takes.get_bind fun n => ?_)
  rw [htext]
  refine Takes.set_bind ?_
  refine (takes_inner hcs hwf (by omega) (hopens.trimStart hwf _) hclose).bind ((takes_blanks _).bind ?_)
  rw [hclose.trimStart]
  exact (takes_expect ')' rest).bind (Takes.pure _ _)

theorem reads_text {s : String} {q : Char} (hq : IsQuote q) (hs : q ∉ s.toList) :
    (Phrase.expr .primary (.text s)).Reads (q :: (s.toList ++ [q])) := by
  intro hwf depth text rest hdepth htext _ hrest
  have htext : Text.trimStart text = q :: (s.toList ++ q :: rest) := by
    rw [htext]
    simp
  have htake : Takes quoted (q :: (s.toList ++ q :: rest)) s rest := takes_quoted hq hs
  rw [htext]
  refine ⟨fun n => ?_, (takes_blanks text).bind (Takes.get_bind fun n => ?_)⟩
  · rcases hq with rfl | rfl
    · exact startsPath_eq_false (by decide) (by decide)
    · exact startsPath_eq_false (by decide) (by decide)
  rw [htext]
  rcases hq with rfl | rfl
  · exact htake.bind (Takes.pure _ _)
  · exact htake.bind (Takes.pure _ _)

theorem IsDigitLiteral.front (h : IsDigitLiteral cs) : ∃ c tail, cs = c :: tail ∧
    (c.isDigit = true ∨ c = '.' ∧ tail.head?.any Char.isDigit = true) := by
  cases h with
  | whole hne hds =>
    obtain ⟨d, ds, rfl⟩ := List.exists_cons_of_ne_nil hne
    exact ⟨d, ds, rfl, .inl (hds d List.mem_cons_self)⟩
  | @point ds fs hne hds =>
    cases ds with
    | cons d ds => exact ⟨d, _, rfl, .inl (hds d List.mem_cons_self)⟩
    | nil =>
      obtain ⟨f, fs, rfl⟩ := List.exists_cons_of_ne_nil hne
      exact ⟨'.', f :: fs, rfl, .inr ⟨rfl, hds f List.mem_cons_self⟩⟩

theorem startsStep_of_isDigit {c : Char} (h : c.isDigit = true) : c ≠ '/' ∧ startsStep c = false := by
  have hne : ∀ {d : Char}, d.isDigit = false → c ≠ d := by
    rintro d hd rfl
    rw [h] at hd
    cases hd
  refine ⟨hne rfl, ?_⟩
  simp only [startsStep, Bool.or_eq_false_iff]
  exact ⟨⟨⟨beq_eq_false_iff_ne.mpr (hne rfl), beq_eq_false_iff_ne.mpr (hne rfl)⟩, beq_eq_false_iff_ne.mpr (hne rfl)⟩,
    isNameStart_of_isDigit h⟩

theorem reads_number {x : Float} (hcs : IsDigitLiteral cs) (hx : numberOfText (String.ofList cs) = x) :
    (Phrase.expr .primary (.number x)).Reads cs := by
  intro hwf depth text rest hdepth htext _ hrest
  subst hx
  have htake : Takes number (cs ++ rest) (String.ofList cs) rest := by
    refine takes_number hcs fun d hd => ⟨?_, ?_⟩
    · refine Bool.eq_false_iff.mpr fun hdigit => ?_
      have hname := (hrest d hd).1
      rw [isNameChar_of_isDigit hdigit] at hname
      cases hname
    · rintro rfl
      exact absurd (hrest _ hd).1 (by decide)
  obtain ⟨c, tail, rfl, hc⟩ := hcs.front
  rw [htext]
  refine ⟨fun n => ?_, (takes_blanks text).bind (Takes.get_bind fun n => ?_)⟩
  · rcases hc with hc | ⟨rfl, hany⟩
    · exact startsPath_eq_false (startsStep_of_isDigit hc).1 (startsStep_of_isDigit hc).2
    · cases tail with
      | nil => cases hany
      | cons d tail =>
        have hd : d.isDigit = true := hany
        simp [startsPath, hd]
  rw [htext]
  -- The first character of the literal opens no other primary expression.
  have hne : ∀ {d : Char}, d.isDigit = false → d ≠ '.' → (c == d) = false := by
    rintro d hd hpoint
    refine beq_eq_false_iff_ne.mpr ?_
    rintro rfl
    rcases hc with hc | ⟨rfl, -⟩
    · rw [hc] at hd
      cases hd
    · exact hpoint rfl
  have hdigit : (c.isDigit || c == '.') = true := by
    rcases hc with hc | ⟨rfl, -⟩
    · rw [hc, Bool.true_or]
    · rfl
  simp only [Input.peek?, List.cons_append, List.head?_cons, hne (d := '$') rfl (by decide),
    hne (d := '(') rfl (by decide), hne (d := '\'') rfl (by decide), hne (d := '"') rfl (by decide), hdigit,
    Bool.or_self, Bool.false_eq_true, if_false, if_true]
  exact htake.bind (Takes.pure _ _)

theorem reads_var {n : QName} : (Phrase.expr .primary (.var n)).Reads ('$' :: n.written.toList) := by
  intro hwf depth text rest hdepth htext _ hrest
  have hn : n.WellFormed := by
    cases hwf with
    | var hn => exact hn
  rw [htext]
  refine ⟨fun n => startsPath_eq_false (by decide) (by decide), ?_⟩
  refine (takes_blanks text).bind (Takes.get_bind fun _ => ?_)
  rw [htext]
  refine Takes.set_bind ((takes_qualifiedName hn hrest).bind ?_)
  show Takes (pure (Expr.var (.make n.qualifier n.localName))) rest _ rest
  rw [QName.make_of_wellFormed hn]
  exact Takes.pure _ _

/-- A call, up to its closing parenthesis. -/
theorem takes_functionCall {n : QName} (hn : n.WellFormed) (hcs : (Phrase.arguments es).Reads cs)
    (hes : ∀ e ∈ es, e.WellFormed DigitValue) {depth : Nat} (rest : List Char) (hdepth : cs.length < depth) :
    Takes (functionCall (expression depth)) (n.written.toList ++ '(' :: (cs ++ ')' :: rest))
      (match n.qualifier, CoreFunction.ofName? n.localName with
      | none, some f => .core f es
      | _, _ => .call n es) rest := by
  refine (takes_qualifiedName hn (by rintro _ ⟨⟩; exact ⟨by decide, by decide⟩)).bind ?_
  refine (takes_blanks _).bind ?_
  rw [Text.trimStart_cons (isBlank_eq_false (by decide))]
  refine (takes_expect '(' _).bind ((hcs hes rest hdepth).bind ?_)
  rw [QName.make_of_wellFormed hn]
  -- Whether the name is that of a core function decides the tree, not how the text is read.
  generalize CoreFunction.ofName? n.localName = f
  cases n.qualifier <;> cases f <;> exact Takes.pure _ _

/-- Where a name is next, a primary expression is a call. -/
theorem takes_primary_name {inner : Parser Expr} {s : String} {text behind rest : List Char} (hs : IsNcName s)
    (htext : Text.trimStart text = s.toList ++ behind)
    (h : Takes (functionCall inner) (s.toList ++ behind) e rest) : Takes (primary inner) text e rest := by
  obtain ⟨c, cs, hcs, hc, -⟩ := hs
  have hne : ∀ {d : Char}, isNameStart d = false → (c == d) = false := fun hd => ne_of_isNameStart hc hd
  have hdigit : c.isDigit = false := by
    refine Bool.eq_false_iff.mpr fun hdigit => ?_
    rw [isNameStart_of_isDigit hdigit] at hc
    cases hc
  refine (takes_blanks text).bind (Takes.get_bind fun n => ?_)
  rw [htext]
  rw [hcs] at h ⊢
  simp only [Input.peek?, List.cons_append, List.head?_cons, hne (d := '$') (by decide),
    hne (d := '(') (by decide), hne (d := '\'') (by decide), hne (d := '"') (by decide),
    hne (d := '.') (by decide), hdigit, hc, Bool.or_self, Bool.false_eq_true, if_false, if_true]
  exact h

theorem QName.exists_written {n : QName} (hn : n.WellFormed) (behind : List Char) :
    ∃ s mid, IsNcName s ∧ n.written.toList ++ behind = s.toList ++ mid := by
  obtain ⟨qualifier, l⟩ := n
  cases qualifier with
  | none => exact ⟨l, behind, hn.2, rfl⟩
  | some q => exact ⟨q, _, hn.1 q rfl, by simp [QName.written, String.toList_append]; rfl⟩

/-- A call that is no test by kind of node. -/
theorem reads_functionCall {n : QName} (hn : n.WellFormed)
    (htype : n.qualifier = none → NodeType.ofName? n.localName = none)
    (hcs : (Phrase.arguments es).Reads cs) (hes : ∀ e ∈ es, e.WellFormed DigitValue)
    (he : (match n.qualifier, CoreFunction.ofName? n.localName with
      | none, some f => .core f es
      | _, _ => .call n es) = e) :
    (Phrase.expr .primary e).Reads (n.written.toList ++ '(' :: (cs ++ [')'])) := by
  intro hwf depth text rest hdepth htext _ hrest
  have htext : Text.trimStart text = n.written.toList ++ '(' :: (cs ++ ')' :: rest) := by
    rw [htext]
    simp
  simp only [List.length_append, List.length_cons] at hdepth
  have hcsdepth : cs.length < depth := by omega
  have htake := takes_functionCall hn hcs hes rest hcsdepth
  rw [he] at htake
  refine ⟨fun k => ?_, ?_⟩
  · rw [htext]
    exact startsPath_call hn htype k
  · obtain ⟨s, mid, hs, hmid⟩ := QName.exists_written hn ('(' :: (cs ++ ')' :: rest))
    rw [hmid] at htext htake
    exact takes_primary_name hs htext htake

theorem CoreFunction.ofName?_spelling (f : CoreFunction) :
    CoreFunction.ofName? f.spelling = some f ∧ NodeType.ofName? f.spelling = none := by
  cases f <;> decide

theorem reads_core {f : CoreFunction} (hcs : (Phrase.arguments es).Reads cs) :
    (Phrase.expr .primary (.core f es)).Reads (f.spelling.toList ++ '(' :: (cs ++ [')'])) := by
  intro hwf
  have hes : ∀ e ∈ es, e.WellFormed DigitValue := by
    cases hwf with
    | core hes => exact hes
  have hn : (QName.plain f.spelling).WellFormed := ⟨fun _ h => (nomatch h), f.isNcName_spelling⟩
  refine @reads_functionCall _ es cs (.plain f.spelling) hn (fun _ => f.ofName?_spelling.2) hcs hes ?_ hwf
  simp only [QName.plain, f.ofName?_spelling.1]

theorem reads_call {n : QName} (hcs : (Phrase.arguments es).Reads cs) :
    (Phrase.expr .primary (.call n es)).Reads (n.written.toList ++ '(' :: (cs ++ [')'])) := by
  intro hwf
  obtain ⟨hn, hext, hes⟩ : n.WellFormed ∧ n.IsExtension ∧ ∀ e ∈ es, e.WellFormed DigitValue := by
    cases hwf with
    | call hn hext hes => exact ⟨hn, hext, hes⟩
  refine reads_functionCall hn (fun h => (hext h).2) hcs hes ?_ hwf
  cases hq : n.qualifier with
  | none => rw [(hext hq).1]
  | some q => rfl

theorem reads_noArguments : (Phrase.arguments []).Reads [] := by
  intro _ depth rest _
  refine (takes_blanks _).bind ?_
  rw [List.nil_append, (Closes.parenthesis rest).trimStart]
  exact (takes_accept [')'] rest).bind (Takes.pure _ _)

theorem reads_noFurther : (Phrase.further []).Reads [] := by
  intro _ depth rest _ n taken hn
  have hclose := Closes.parenthesis rest
  have hcomma : (Text.trimStart (')' :: rest)).head? ≠ some ',' := by
    rw [hclose.trimStart]
    rintro ⟨⟩
  have htake : Takes (itemsFrom (mark ',') (expression depth) n taken) (')' :: rest) taken.reverse
      (Text.trimStart (')' :: rest)) := takes_mark_items_none hcomma (by omega)
  rw [hclose.trimStart] at htake
  rwa [List.append_nil]

theorem Spells.closes_further {clear : Operator → List Char → Prop} (h : Spells clear (.further es) ds)
    (rest : List Char) : Closes (ds ++ ')' :: rest) := by
  cases h with
  | noFurther => exact .parenthesis rest
  | comma => exact .comma _

theorem reads_comma {bs : List Char} (hbs : ∀ b ∈ bs, Text.isBlank b = true)
    (hcs : (Phrase.expr .disjunction e).Reads cs) (hopens : (Phrase.expr .disjunction e).OpensWell DigitValue cs)
    (hspells : Spells Operator.Clear (.further es) ds) (hds : (Phrase.further es).Reads ds) :
    (Phrase.further (e :: es)).Reads (',' :: (bs ++ (cs ++ ds))) := by
  intro hwf depth rest hdepth n taken hn
  obtain ⟨he, hes⟩ := List.forall_mem_cons.mp hwf
  obtain ⟨n, rfl⟩ : ∃ m, n = m + 1 := ⟨n - 1, by omega⟩
  simp only [List.length_cons, List.length_append] at hdepth hn
  have htext : ',' :: (bs ++ (cs ++ ds)) ++ ')' :: rest = ',' :: (bs ++ (cs ++ (ds ++ ')' :: rest))) := by simp
  have hblanks : Text.trimStart (bs ++ (cs ++ (ds ++ ')' :: rest))) = cs ++ (ds ++ ')' :: rest) := by
    rw [Text.trimStart_append hbs, hopens.trimStart he]
  have hdsdepth : ds.length ≤ depth := by omega
  have hothers := hds hes rest hdsdepth n (e :: taken) (by simp only [List.length_append, List.length_cons]; omega)
  rw [List.reverse_cons, List.append_assoc] at hothers
  rw [htext]
  exact takes_itemsFrom_cons (takes_mark (Text.trimStart_cons (isBlank_eq_false (by decide))))
    (takes_inner hcs he (by omega) hblanks (hspells.closes_further rest)) hothers

theorem reads_argument (hcs : (Phrase.expr .disjunction e).Reads cs)
    (hopens : (Phrase.expr .disjunction e).OpensWell DigitValue cs)
    (hspells : Spells Operator.Clear (.further es) ds) (hds : (Phrase.further es).Reads ds) :
    (Phrase.arguments (e :: es)).Reads (cs ++ ds) := by
  intro hwf depth rest hdepth
  obtain ⟨he, hes⟩ := List.forall_mem_cons.mp hwf
  simp only [List.length_append] at hdepth
  have hdsdepth : ds.length ≤ depth := by omega
  have hclose : (cs ++ (ds ++ ')' :: rest)).head? ≠ some ')' := by
    obtain ⟨c, tail, rfl, hopening, -⟩ := hopens he
    rintro ⟨⟩
    exact hopening.2 rfl
  have hothers := hds hes rest hdsdepth _ [] (Nat.lt_succ_self _)
  refine (takes_blanks _).bind ?_
  rw [List.append_assoc, hopens.trimStart he]
  refine (takes_accept_cons_false hclose).bind ?_
  refine (takes_inner hcs he (by omega) (hopens.trimStart he _) (hspells.closes_further rest)).bind ?_
  exact (Takes.bounded hothers).bind ((takes_expect ')' rest).bind (Takes.pure _ _))

end

/-! ## §G  The induction, and whole texts -/

theorem Spells.reads {phrase : Phrase} {cs : List Char} (h : Spells Operator.Clear phrase cs) : phrase.Reads cs := by
  induction h with
  | tighter h ih => exact ih.loosen h.opensWell
  | join hjoins _ hclear hspells ihe ihes => exact reads_join hjoins ihe hclear hspells ihes
  | binary hjoins hop hms _ hclear hb iha ihb => exact reads_binary hjoins hop hms iha hclear ihb hb.opensWell
  | negate h ih => exact reads_negate ih h.opensWell
  | relative hs hss ihs ihss => exact reads_relative hs ihs hss ihss
  | root => exact reads_root
  | absolute hs hss ihs ihss => exact reads_absolute hs ihs hss ihss
  | filter _ hes hss ihe ihes ihss => exact reads_filter ihe hes ihes hss ihss
  | group h ih => exact reads_group ih h.opensWell
  | number hcs hx => exact reads_number hcs hx
  | text hq hs => exact reads_text hq hs
  | var => exact reads_var
  | core _ ih => exact reads_core ih
  | call _ ih => exact reads_call ih
  | noOperands =>
    intro hjoins _ depth text rest _ htext _ hrest n taken hn
    rw [List.append_nil]
    exact takes_items_none hjoins htext hrest (by omega)
  | operand he hclear hes ihe ihes => exact reads_operand ihe he.opensWell hclear hes ihes
  | noPredicates => exact reads_noPredicates
  | predicate h _ ihe ihes => exact reads_predicate ihe h.opensWell ihes
  | step ha ht hes ih => exact reads_step ha ht hes ih
  | noSteps => exact reads_noSteps
  | slash hs hss ihs ihss => exact reads_slash hs ihs hss ihss
  | noArguments => exact reads_noArguments
  | argument h hes ihe ihes => exact reads_argument ihe h.opensWell hes ihes
  | noFurther => exact reads_noFurther
  | comma hbs h hes ihe ihes => exact reads_comma hbs ihe h.opensWell hes ihes

/-- A text that begins with no blank is parsed as the expression that is taken from it. -/
theorem Expr.parse_of_takes {e : Expr} {cs : List Char} (hopen : Text.trimStart cs = cs)
    (h : Takes (expression (cs.length + 1)) cs e []) : Expr.parse (String.ofList cs) = .ok e := by
  have htake : Takes wholeText cs e [] := by
    refine (takes_blanks cs).bind ?_
    rw [hopen]
    exact (Takes.bounded h).bind ((takes_blanks []).bind (Takes.get_bind fun n => Takes.pure _ _))
  obtain ⟨m, hm⟩ := htake 0
  unfold Expr.parse Input.ofString
  rw [String.toList_ofList, StateT.run'_eq, hm]
  rfl

/-- A spelling of a well-formed tree is read as the tree. -/
theorem Spells.parse {e : Expr} {cs : List Char} (h : Spells Operator.Clear (.expr .disjunction e) cs)
    (hwf : e.WellFormed DigitValue) : Expr.parse (String.ofList cs) = .ok e := by
  have hopen : Text.trimStart cs = cs := by
    have hopens : (Phrase.expr .disjunction e).OpensWell DigitValue cs := h.opensWell
    have htrim := hopens.trimStart hwf []
    rwa [List.append_nil] at htrim
  refine Expr.parse_of_takes hopen ?_
  exact takes_inner h.reads hwf (Nat.lt_succ_self _) (by rw [hopen, List.append_nil]) .nil

end NodePath
