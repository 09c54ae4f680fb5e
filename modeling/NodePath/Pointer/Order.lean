/-
# NodePath.Pointer.Order — document order

Two nodes of one tree are ordered by the node where their ancestries part: that node ranks the two
branches, and a node comes before everything below it. Nodes of different trees have no order.

* §A  `compare`.
* §B  Sorting, which reports the first two nodes that it meets and cannot order.
-/
import NodePath.Pointer.Node

namespace NodePath

/-! ## §A  Comparison -/

namespace Pointer

/-- The order of two nodes directly below a node. -/
def compareBelow (st : Store) (parent a b : Pointer) : Ordering :=
  match parent, a, b with
  | json r, json a, json b => r.compareChildren ((st.document? r.doc).getD .null) a b
  | tree _, a, b =>
    let rank : Pointer → Nat × Nat
      | tree r => r.rank st.forest
      | _ => (0, 0)
    TreeRef.compareRanks (rank a) (rank b)
  | _, _, _ => .eq

/-- The order of two nodes by the rests of their ancestries below `common`, the last node they share. -/
def compareAncestries (st : Store) (common : Pointer) : List Pointer → List Pointer → Ordering
  | [], [] => .eq
  | [], _ :: _ => .lt
  | _ :: _, [] => .gt
  | a :: as, b :: bs =>
    if a == b then compareAncestries st a as bs else compareBelow st common a b

/-- **compare?** is the document order of two nodes, if one tree holds both. -/
def compare? (st : Store) (a b : Pointer) : Option Ordering :=
  if a == b then some .eq
  else
    match a.ancestry, b.ancestry with
    | x :: as, y :: bs => if x == y then some (compareAncestries st x as bs) else none
    | _, _ => none

/-- The failure to order two nodes. -/
def unrelated (st : Store) (a b : Pointer) : EvalError :=
  .evaluation (.unrelated (a.pathText st) (b.pathText st))

end Pointer

/-! ## §B  Sorting -/

/-- **Order** is the order in which the nodes of a set are delivered. -/
inductive Order where
  | unordered
  | ascending
  | descending
deriving DecidableEq, Repr, Inhabited

/-- The nodes with each one kept only where it stands first. -/
def distinct (ps : List Pointer) : List Pointer :=
  (ps.foldl (fun kept p => if kept.contains p then kept else p :: kept) []).reverse

/-- Puts `p` into a list that is sorted backwards, behind its equals. The second answer is the first
pair that could not be ordered; such a pair counts as equal. -/
def insertBackwards (st : Store) (p : Pointer) : List Pointer → List Pointer × Option EvalError
  | [] => ([p], none)
  | q :: qs =>
    match p.compare? st q with
    | some .lt =>
      let (rest, failure) := insertBackwards st p qs
      (q :: rest, failure)
    | some _ => (p :: q :: qs, none)
    | none => (p :: q :: qs, some (Pointer.unrelated st p q))

/-- Sorts nodes behind those of `sorted`, which holds sorted nodes backwards. -/
def sortFrom (st : Store) (sorted : List Pointer) (failure : Option EvalError) :
    List Pointer → List Pointer × Option EvalError
  | [] => (sorted, failure)
  | p :: ps =>
    let (sorted, f) := insertBackwards st p sorted
    sortFrom st sorted (failure <|> f) ps

/-- **sortDistinct** are the distinct nodes in document order, backwards for descending order. -/
def sortDistinct (st : Store) (ps : List Pointer) (order : Order) : Except EvalError (List Pointer) :=
  match sortFrom st [] none (distinct ps) with
  | (_, some e) => .error e
  | (sorted, none) => .ok (if order == .descending then sorted else sorted.reverse)

end NodePath
