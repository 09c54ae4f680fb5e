/-
# NodePath.Proofs.Eager — what a location path means

The plain meaning of a location path, by lists alone: every node of a list is replaced by the nodes along the
axis of the step that pass its test, and that pass its predicates one after the other. A predicate is judged at
each node of its list with nothing around but that list. This is what the cursors of a path are measured
against.

* §A  Judging a predicate at one node of a list.
* §B  Steps and paths.
* §C  Lists that a predicate is applied to from some node on.
-/
import NodePath.Cursor.Motion

namespace NodePath

/-! ## §A  Predicates -/

/-- **at** is the cursor over a list of nodes at a position, which counts from one. -/
def Cursor.at (nodes : List Pointer) (position : Nat) : Cursor :=
  ⟨⟨.known nodes .unordered, position, if position = 0 then none else nodes[position - 1]?, .inSet, none⟩, []⟩

namespace Surroundings

variable (s : Surroundings) (st : Store)

/-- **judge** is the value of a predicate at a position of a list, and the store that is left. -/
def judge (e : Expr) (nodes : List Pointer) (position : Nat) : Except EvalError Datum × Store :=
  let (r, _, st) := (s.test (.ofLength s 1) e).runOn (.at nodes position) st
  (r, st)

/-- Whether a predicate selects the node at a position: its value is that number, or is no number and true. -/
def selects (e : Expr) (nodes : List Pointer) (position : Nat) : Bool :=
  match s.judge st e nodes position with
  | (.ok (.number x), _) => x == Number.ofNat position
  | (.ok d, st) => d.toBoolean st
  | (.error _, _) => false

/-- **keep** are the nodes of a list that a predicate selects. -/
def keep (e : Expr) (nodes : List Pointer) : List Pointer :=
  ((nodes.zipIdx 1).filter fun p => s.selects st e nodes p.2).map (·.1)

/-! ## §B  Steps and paths -/

/-- Whether a node passes a test. -/
def passes (test : NodeTest) (p : Pointer) : Bool := test.accepts (s.resolve st) p st

/-- The nodes along an axis that pass a test. -/
def along (axis : Axis) (test : NodeTest) (origin : Pointer) : List Pointer :=
  (axis.nodes origin st).filter (s.passes st test)

/-- **stepFrom** are the nodes that a step leads to from a node. -/
def stepFrom (step : Step) (origin : Pointer) : List Pointer :=
  step.predicates.foldl (fun nodes e => s.keep st e nodes) (s.along st step.axis step.test origin)

/-- **eager** are the nodes that some steps lead to from the nodes of a list. -/
def eager (steps : List Step) (nodes : List Pointer) : List Pointer :=
  steps.foldl (fun nodes step => nodes.flatMap (s.stepFrom st step)) nodes

/-! ## §C  From a node on -/

/-- The nodes behind a position that a predicate selects. -/
def keepFrom (e : Expr) (nodes : List Pointer) (position : Nat) : List Pointer :=
  (((nodes.zipIdx 1).drop position).filter fun p => s.selects st e nodes p.2).map (·.1)

variable {s st}

/-- The nodes behind a position are the one at the next position, if it is selected, and those behind that. -/
theorem keepFrom_of_lt (e : Expr) {nodes : List Pointer} {i : Nat} (hi : i < nodes.length) :
    s.keepFrom st e nodes i =
      (if s.selects st e nodes (i + 1) then [nodes[i]] else []) ++ s.keepFrom st e nodes (i + 1) := by
  have hlt : i < (nodes.zipIdx 1).length := by simpa using hi
  rw [keepFrom, List.drop_eq_getElem_cons hlt, List.getElem_zipIdx, List.filter_cons, Nat.add_comm 1 i]
  split
  · simp [keepFrom]
  · simp [keepFrom]

theorem keepFrom_of_length_le (e : Expr) {nodes : List Pointer} {i : Nat} (hi : nodes.length ≤ i) :
    s.keepFrom st e nodes i = [] := by
  rw [keepFrom, List.drop_eq_nil_of_le (by simpa using hi)]
  rfl

/-- What a predicate selects is a part of its list. -/
theorem keep_sublist (e : Expr) (nodes : List Pointer) : (s.keep st e nodes).Sublist nodes := by
  have hparts : (((nodes.zipIdx 1).filter fun p => s.selects st e nodes p.2).map (·.1)).Sublist
      ((nodes.zipIdx 1).map (·.1)) := List.filter_sublist.map _
  rwa [List.zipIdx_map_fst] at hparts

theorem mem_of_mem_keep {e : Expr} {nodes : List Pointer} {p : Pointer} (h : p ∈ s.keep st e nodes) :
    p ∈ nodes := (keep_sublist e nodes).mem h

theorem keep_length_le (e : Expr) (nodes : List Pointer) : (s.keep st e nodes).length ≤ nodes.length :=
  (keep_sublist e nodes).length_le

/-- What a step leads to is a part of its axis. -/
theorem stepFrom_sublist (step : Step) (p : Pointer) : (s.stepFrom st step p).Sublist (step.axis.nodes p st) := by
  have hkeep : ∀ nodes, (step.predicates.foldl (fun nodes e => s.keep st e nodes) nodes).Sublist nodes := by
    induction step.predicates with
    | nil => exact fun nodes => .refl nodes
    | cons e predicates ih => exact fun nodes => (ih _).trans (keep_sublist e nodes)
  exact (hkeep _).trans List.filter_sublist

end Surroundings

end NodePath
