/-
# NodePath.Proofs.Parsing — the parser and the grammar

The parser gives well-formed trees only, and reads every spelling of a well-formed tree as that tree. A spelling may
put parentheses around any expression and leaves them away where an operator binds tightly enough. One thing it may
not do: behind the bare root, a star or a word that is an operator reads as the first step of a path, so what stands
in front of such an operator must not end in a slash.

* §A  Soundness and completeness.
* §B  Why an operator must not follow a slash.
-/
import NodePath.Proofs.ParsedTree
import NodePath.Proofs.Reading

namespace NodePath

/-! ## §A  Soundness and completeness -/

/-- What is parsed is a well-formed tree; every well-formed tree has spellings, and each of them is parsed as the
tree. -/
theorem Expr.parse_sound_complete :
    (∀ s e, Expr.parse s = .ok e → e.WellFormed DigitValue) ∧
    ∀ e : Expr, e.WellFormed DigitValue →
      (∃ cs, Spells Operator.Clear (.expr .disjunction e) cs) ∧
      ∀ cs, Spells Operator.Clear (.expr .disjunction e) cs → Expr.parse (String.ofList cs) = .ok e := by
  refine ⟨fun s e => Expr.wellFormed_of_parse, fun e hwf => ⟨?_, fun cs h => h.parse hwf⟩⟩
  have hclear : ∀ (op : Operator) (cs : List Char), op.Clear (cs ++ [')']) := by
    intro op cs _ hlast
    simp at hlast
  obtain ⟨cs, hcs⟩ := hwf.groups hclear
  exact ⟨cs, hcs.loosen (Nat.zero_le _)⟩

/-- A difference of a path and a product, with a sign in front of the last factor. -/
def sampleDifference : Expr :=
  .binary .minus (.path false [⟨.child, .name (.plain "a"), []⟩])
    (.binary .multiply (.number (numberOfText "2")) (.operation .negate [.number (numberOfText "3")]))

theorem isDigitLiteral_digit {c : Char} (hc : c.isDigit = true) : IsDigitLiteral [c] :=
  .whole (List.cons_ne_nil _ _) (List.forall_mem_singleton.mpr hc)

theorem digitValue_digit {c : Char} (hc : c.isDigit = true) : DigitValue (numberOfText (String.ofList [c])) :=
  ⟨[c], isDigitLiteral_digit hc, rfl⟩

theorem sampleDifference_wellFormed : sampleDifference.WellFormed DigitValue := by
  have hpair : ∀ {a b : Expr}, a.WellFormed DigitValue → b.WellFormed DigitValue →
      ∀ e ∈ [a, b], e.WellFormed DigitValue := by
    intro a b ha hb
    exact List.forall_mem_cons.mpr ⟨ha, List.forall_mem_singleton.mpr hb⟩
  have hname : (NodeTest.name (.plain "a")).WellFormed :=
    ⟨fun _ h => (nomatch h), .inr ⟨'a', [], rfl, by decide, fun _ h => nomatch h⟩⟩
  refine .operation rfl (hpair (.path (fun _ => List.cons_ne_nil _ _) (List.forall_mem_singleton.mpr hname) ?_) ?_)
  · exact List.forall_mem_singleton.mpr fun _ h => nomatch h
  · refine .operation rfl (hpair (.number (digitValue_digit (c := '2') rfl)) (.operation rfl ?_))
    exact List.forall_mem_singleton.mpr (.number (digitValue_digit (c := '3') rfl))

theorem spells_digit {c : Char} (hc : c.isDigit = true) (clear : Operator → List Char → Prop) (l : Level) :
    Spells clear (.expr l (.number (numberOfText (String.ofList [c])))) [c] :=
  Spells.loosen (.number (isDigitLiteral_digit hc) rfl) l.rank_le_primary

theorem sampleDifference_spells :
    Spells Operator.Clear (.expr .disjunction sampleDifference) "child::a - 2 * -3".toList := by
  have hname : NodeTest.Spells (.name (.plain "a")) ['a'] := rfl
  have hpath : Spells Operator.Clear (.expr .path (.path false [⟨.child, .name (.plain "a"), []⟩]))
      "child::a".toList := .relative (.step (.full .child) hname .noPredicates) .noSteps
  have hthree : Spells Operator.Clear (.expr .unary (.operation .negate [.number (numberOfText "3")])) ['-', '3'] :=
    .negate (spells_digit rfl _ _)
  have htwo : Spells Operator.Clear (.expr .multiplicative (.number (numberOfText "2"))) ['2'] := spells_digit rfl _ _
  have hproduct := @Spells.binary _ .multiply _ _ _ _ _ rfl (by decide) (.spaced _) htwo (fun _ => by decide) hthree
  exact (@Spells.binary _ .minus _ _ _ _ _ rfl (by decide) (.spaced _) (hpath.loosen (by decide)) (fun h => nomatch h)
    hproduct).loosen (by decide)

theorem Expr.parse_sound_complete_twin :
    Spells Operator.Clear (.expr .disjunction sampleDifference) "child::a - 2 * -3".toList ∧
      Expr.parse "child::a - 2 * -3" = .ok sampleDifference ∧ sampleDifference.WellFormed DigitValue := by
  have hparse : Expr.parse "child::a - 2 * -3" = .ok sampleDifference :=
    (Expr.parse_sound_complete.2 sampleDifference sampleDifference_wellFormed).2 _ sampleDifference_spells
  exact ⟨sampleDifference_spells, hparse, Expr.parse_sound_complete.1 _ _ hparse⟩

/-! ## §B  Operators behind a slash -/

/-- The root times two. -/
def rootTimesTwo : Expr := .binary .multiply (.path true []) (.number (numberOfText "2"))

/-- The text `/ * 2` puts the operator between spellings of its operands, each at its level, but is not read as the
product of the root and two: the star is the first step of a path, and nothing may follow that path. -/
theorem parse_root_times_two :
    rootTimesTwo.WellFormed DigitValue ∧
      Spells (fun _ _ => True) (.expr .disjunction rootTimesTwo) "/ * 2".toList ∧
      Expr.parse "/ * 2" = .error ⟨4, .trailing⟩ := by
  refine ⟨.operation rfl (List.forall_mem_cons.mpr ⟨?_, List.forall_mem_singleton.mpr ?_⟩), ?_, by decide +kernel⟩
  · exact .path (fun h => (nomatch h)) (fun _ h => (nomatch h)) fun _ h => nomatch h
  · exact .number (digitValue_digit (c := '2') rfl)
  · exact (@Spells.binary _ .multiply _ _ _ _ _ rfl (by decide) (.spaced _) (Spells.loosen .root (by decide)) trivial
      (spells_digit rfl _ _)).loosen (by decide)

end NodePath
