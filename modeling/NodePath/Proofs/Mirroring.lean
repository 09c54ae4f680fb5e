/-
# NodePath.Proofs.Mirroring — comparisons seen from the other side

What stands on the left of a comparison may as well stand on the right, with the operator turned round. This is not
plain from how a comparison goes: it looks at seven kinds of values on either side, a truth value decides differently
about a set than about anything else, and what is no number neither equals anything nor differs from it. Nor is it
plain that the order does not matter in which the two sides are looked at, since looking at a node-set stores documents.

* §A  Operators turned round.
* §B  Operands, whatever they come from.
* §C  What a side comes to, in whatever order the sides are looked at.
* §D  Comparisons of values.
-/
import NodePath.Proofs.Documents
import NodePath.Proofs.DoubleOrder
import NodePath.Proofs.VariableValue

namespace NodePath

/-! ## §A  Operators -/

section

variable {st : Store} {a b : Datum} {holds holds' : Datum → Datum → Bool}

/-- The value that a node opens onto; any other value itself. -/
def Datum.opened (st : Store) : Datum → Datum
  | .pointer p => p.openedValue st
  | d => d

namespace Operand

/-- What a comparison comes to when both sides are looked at, the left one first. -/
def outcome (st : Store) (op : Operator) (left right : Except EvalError Operand) : Except EvalError Datum := do
  let a ← left
  let b ← right
  pure (.boolean ((compareBy st op a b).getD false))

end Operand

end

/-! ## §C  Sides -/

/-- The nodes that a stage has at hand. -/
def Stage.mentioned : Stage → List Pointer
  | .start origin members => origin :: members.getD []
  | .known nodes _ => nodes
  | .axis _ _ pending => pending.getD []
  | .condition _ _ _ => []

/-- The nodes that a frame has at hand. -/
def Frame.mentioned (f : Frame) : List Pointer := f.stage.mentioned ++ f.current.toList ++ f.sorted.getD []

/-- The nodes that a value has at hand; those of a node-set are still to be found from them. -/
def Value.mentioned : Value → List Pointer
  | .datum (.pointer p) => [p]
  | .datum _ => []
  | .nodes c => (c.frame :: c.earlier).flatMap Frame.mentioned

/-- What a value has at hand is in no document whose number is `n` or above. -/
def Value.Within (n : Nat) (v : Value) : Prop := ∀ p ∈ v.mentioned, p.Within n

section

variable {w w' : World} {st st' : Store} {p : Pointer} {d d' : Datum} {a b : Operand}

/-- Nodes of the base are like themselves. -/
theorem PointersAlike.of_within {ps : List Pointer} (h : ∀ p ∈ ps, p.Within w.base.documents.size) :
    PointersAlike w ps ps := List.forall₂_same.mpr fun p hp => (h p hp).alike

theorem PointersAlike.option_of_within {ps : Option (List Pointer)} (h : ∀ p ∈ ps.getD [], p.Within w.base.documents.size) :
    Option.Rel (PointersAlike w) ps ps := by
  cases ps with
  | none => exact .none
  | some ps => exact .some (.of_within h)

theorem Stage.alike_of_within {s : Stage} (h : ∀ p ∈ s.mentioned, p.Within w.base.documents.size) : s.Alike w s := by
  cases s with
  | start origin members =>
    obtain ⟨horigin, hmembers⟩ := List.forall_mem_cons.mp h
    exact .start horigin.alike (PointersAlike.option_of_within hmembers)
  | known nodes order => exact .known order (.of_within h)
  | axis a t pending => exact .axis a t (PointersAlike.option_of_within h)
  | condition e positional done => exact .condition e positional done

theorem Frame.alike_of_within {f : Frame} (h : ∀ p ∈ f.mentioned, p.Within w.base.documents.size) : f.Alike w f where
  stage := Stage.alike_of_within fun p hp => h p (by simp [Frame.mentioned, hp])
  position := rfl
  current := by
    cases hcurrent : f.current with
    | none => exact .none
    | some p => exact .some (h p (by simp [Frame.mentioned, hcurrent])).alike
  progress := rfl
  sorted := PointersAlike.option_of_within fun p hp => h p (by simp [Frame.mentioned, hp])

/-- **A value of the base** is like itself. -/
theorem Value.Within.alike {v : Value} (h : v.Within w.base.documents.size) : v.Alike w v := by
  cases v with
  | datum d =>
    refine .datum ?_
    cases d with
    | pointer p => exact .pointer (h p (List.mem_singleton_self p)).alike
    | null => exact .null
    | boolean b => exact .boolean b
    | number x => exact .number x
    | text s => exact .text s
    | object j => exact .object j
  | nodes c =>
    have hframes : ∀ f ∈ c.frame :: c.earlier, f.Alike w f := fun f hf =>
      Frame.alike_of_within fun p hp => h p (List.mem_flatMap.mpr ⟨f, hf, hp⟩)
    obtain ⟨hframe, hearlier⟩ := List.forall_mem_cons.mp hframes
    exact .nodes ⟨hframe, List.forall₂_same.mpr hearlier⟩

/-- What is like itself is like nothing else, also when more documents stand for each other. -/
theorem Pointer.Alike.eq_of_self {q : Pointer} (hw : w.Grows w') (hself : p.Alike w p) (h : q.Alike w' p) : q = p := by
  induction h with
  | json path asAttribute base rootName hp =>
    cases hself with
    | json _ _ _ _ hpair => rw [w'.left_unique hp (hw.pairs hpair)]
  | tree r => rfl
  | var v => rfl
  | absent n => rfl
  | absentUnder n _ ih =>
    cases hself with
    | absentUnder _ hinner => rw [ih hinner]

theorem Datum.Alike.eq_of_self (hw : w.Grows w') (hself : d.Alike w d) (h : d'.Alike w' d) : d' = d := by
  cases h with
  | pointer hp =>
    cases hself with
    | pointer hinner => rw [Pointer.Alike.eq_of_self hw hinner hp]
  | null => rfl
  | boolean b => rfl
  | number x => rfl
  | text s => rfl
  | object j => rfl

theorem Operand.Alike.eq_of_self (hw : w.Grows w') (hself : b.Alike w b) (h : a.Alike w' b) : a = b := by
  cases h with
  | members hs =>
    cases hself with
    | members hselves =>
      congr 1
      induction hs with
      | nil => rfl
      | cons hd _ ih =>
        cases hselves with
        | cons hdself hrest => rw [Datum.Alike.eq_of_self hw hdself hd, ih hrest]
  | single hd =>
    cases hself with
    | single hdself => rw [Datum.Alike.eq_of_self hw hdself hd]

end

namespace Evaluator.Natural

variable {ev : Evaluator} {base st : Store} {closed : base.Closed} {v l r : Value} {a : Operand} {op : Operator}

end Evaluator.Natural

/-! ## §D  Values -/

end NodePath
