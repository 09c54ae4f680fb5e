/-
# NodePath.Proofs.AlikeAxis — alike nodes along axes and in order

* §A  Lists that are alike: the parts of them that equality decides.
* §B  Siblings, descendants, axes.
* §C  Node tests.
* §D  Document order, and sorting.
-/
import NodePath.Pointer.Axis
import NodePath.Proofs.AlikeNode

namespace NodePath

variable {w : World} {st st' : Store} {p q p' q' : Pointer} {ps qs ps' qs' : List Pointer}

/-! ## §A  Lists -/

namespace PointersAlike

theorem dropWhile {f g : Pointer → Bool} (hfg : ∀ {p q}, p.Alike w q → f p = g q)
    (h : PointersAlike w ps qs) : PointersAlike w (ps.dropWhile f) (qs.dropWhile g) := by
  induction h with
  | nil => exact .nil
  | cons hp hs ih =>
    simp only [List.dropWhile_cons, hfg hp]
    split
    · exact ih
    · exact .cons hp hs

theorem takeWhile {f g : Pointer → Bool} (hfg : ∀ {p q}, p.Alike w q → f p = g q)
    (h : PointersAlike w ps qs) : PointersAlike w (ps.takeWhile f) (qs.takeWhile g) := by
  induction h with
  | nil => exact .nil
  | cons hp _ ih =>
    simp only [List.takeWhile_cons, hfg hp]
    split
    · exact .cons hp ih
    · exact .nil

theorem drop (n : Nat) (h : PointersAlike w ps qs) : PointersAlike w (ps.drop n) (qs.drop n) :=
  List.forall₂_drop n h

theorem reverse (h : PointersAlike w ps qs) : PointersAlike w ps.reverse qs.reverse := List.rel_reverse h

theorem append (h : PointersAlike w ps qs) (h' : PointersAlike w ps' qs') :
    PointersAlike w (ps ++ ps') (qs ++ qs') := List.rel_append h h'

theorem flatMap {f g : Pointer → List Pointer} (hfg : ∀ {p q}, p.Alike w q → PointersAlike w (f p) (g q))
    (h : PointersAlike w ps qs) : PointersAlike w (ps.flatMap f) (qs.flatMap g) := by
  induction h with
  | nil => exact .nil
  | cons hp _ ih => exact append (hfg hp) ih

theorem head? (h : PointersAlike w ps qs) : Option.Rel (Pointer.Alike w) ps.head? qs.head? := by
  cases h with
  | nil => exact .none
  | cons hp _ => exact .some hp

theorem getElem? (h : PointersAlike w ps qs) (i : Nat) : Option.Rel (Pointer.Alike w) ps[i]? qs[i]? := by
  induction h generalizing i with
  | nil => exact .none
  | cons hp _ ih =>
    cases i with
    | zero => exact .some hp
    | succ i => simpa using ih i

theorem contains (h : PointersAlike w ps qs) (hp : p.Alike w q) : ps.contains p = qs.contains q := by
  induction h with
  | nil => rfl
  | cons hr _ ih => simp only [List.contains_cons, hp.beq hr, ih]

theorem ofOption {p? q? : Option Pointer} (h : Option.Rel (Pointer.Alike w) p? q?) :
    PointersAlike w p?.toList q?.toList := by
  cases h with
  | none => exact .nil
  | some hp => exact .cons hp .nil

end PointersAlike

/-! ## §B  Axes -/

namespace World.Holds

theorem hasSiblings (h : w.Holds st st') (hp : p.Alike w q) : p.hasSiblings st = q.hasSiblings st' := by
  simp only [Pointer.hasSiblings, h.kind hp]

theorem siblings (h : w.Holds st st') (hp : p.Alike w q) :
    PointersAlike w (p.siblings st) (q.siblings st') := by
  simp only [Pointer.siblings, h.hasSiblings hp]
  split
  · have hn := hp.nodeParent?
    generalize p.nodeParent? = p?, q.nodeParent? = q? at hn ⊢
    cases hn with
    | none => exact .nil
    | some hr => exact h.children hr
  · exact .nil

theorem siblingsAfter (h : w.Holds st st') (hp : p.Alike w q) :
    PointersAlike w (p.siblingsAfter st) (q.siblingsAfter st') :=
  ((h.siblings hp).dropWhile fun hr => hr.bne hp).drop 1

theorem siblingsBefore (h : w.Holds st st') (hp : p.Alike w q) :
    PointersAlike w (p.siblingsBefore st) (q.siblingsBefore st') :=
  ((h.siblings hp).takeWhile fun hr => hr.bne hp).reverse

theorem descendantsFrom (h : w.Holds st st') (levels : Nat) (hp : p.Alike w q) :
    PointersAlike w (Pointer.descendantsFrom st levels p) (Pointer.descendantsFrom st' levels q) := by
  induction levels generalizing p q with
  | zero => exact .nil
  | succ levels ih => exact (h.children hp).flatMap fun hc => .cons hc (ih hc)

theorem descendants (h : w.Holds st st') (hp : p.Alike w q) :
    PointersAlike w (p.descendants st) (q.descendants st') := by
  simp only [Pointer.descendants, h.levelsBelow hp]
  exact h.descendantsFrom _ hp

theorem subtree (h : w.Holds st st') (hp : p.Alike w q) : PointersAlike w (p.subtree st) (q.subtree st') :=
  .cons hp (h.descendants hp)

theorem following (h : w.Holds st st') (hp : p.Alike w q) :
    PointersAlike w (p.following st) (q.following st') := by
  have after {p q : Pointer} (hp : p.Alike w q) :
      PointersAlike w ((p :: p.nodesAbove).flatMap fun n => (n.siblingsAfter st).flatMap (·.subtree st))
        ((q :: q.nodesAbove).flatMap fun n => (n.siblingsAfter st').flatMap (·.subtree st')) :=
    PointersAlike.flatMap (fun hn => (h.siblingsAfter hn).flatMap h.subtree) (.cons hp hp.nodesAbove)
  simp only [Pointer.following, h.hasSiblings hp]
  split
  · exact after hp
  · have hn := hp.nodeParent?
    generalize p.nodeParent? = p?, q.nodeParent? = q? at hn ⊢
    cases hn with
    | none => exact .nil
    | some hr => exact (h.descendants hr).append (after hr)

theorem preceding (h : w.Holds st st') (hp : p.Alike w q) :
    PointersAlike w (p.preceding st) (q.preceding st') := by
  have hs : Option.Rel (Pointer.Alike w) (if p.hasSiblings st then some p else p.nodeParent?)
      (if q.hasSiblings st' then some q else q.nodeParent?) := by
    rw [h.hasSiblings hp]
    split
    · exact .some hp
    · exact hp.nodeParent?
  simp only [Pointer.preceding]
  generalize (if p.hasSiblings st then some p else p.nodeParent?) = p?,
    (if q.hasSiblings st' then some q else q.nodeParent?) = q? at hs ⊢
  cases hs with
  | none => exact .nil
  | some hr =>
    exact PointersAlike.flatMap
      (fun hn => (h.siblingsBefore hn).flatMap fun hc => (h.subtree hc).reverse) (.cons hr hr.nodesAbove)

/-- The nodes along an axis from alike origins are alike. -/
theorem nodes (h : w.Holds st st') (a : Axis) (hp : p.Alike w q) :
    PointersAlike w (a.nodes p st) (a.nodes q st') := by
  cases a with
  | self => exact .cons hp .nil
  | child => exact h.children hp
  | attributes => exact h.attributes hp
  | namespaces => exact h.declarations hp
  | parent => exact .ofOption hp.nodeParent?
  | ancestor => exact hp.nodesAbove
  | ancestorOrSelf => exact .cons hp hp.nodesAbove
  | descendant => exact h.descendants hp
  | descendantOrSelf => exact h.subtree hp
  | followingSibling => exact h.siblingsAfter hp
  | precedingSibling => exact h.siblingsBefore hp
  | following => exact h.following hp
  | preceding => exact h.preceding hp

/-! ## §C  Node tests -/

theorem nameAccepts (h : w.Holds st st') (n : QName) (resolve : String → Option String) (hp : p.Alike w q) :
    NodePath.nameAccepts n resolve p st = NodePath.nameAccepts n resolve q st' := by
  simp only [NodePath.nameAccepts, h.name hp, h.namespaceUri hp]

theorem accepts (h : w.Holds st st') (t : NodeTest) (resolve : String → Option String) (hp : p.Alike w q) :
    t.accepts resolve p st = t.accepts resolve q st' := by
  cases t with
  | type t => cases t <;> simp only [NodeTest.accepts, h.kind hp]
  | instruction target => simp only [NodeTest.accepts, h.kind hp, h.name hp]
  | name n => simp only [NodeTest.accepts, hp.isContainer, h.kind hp, h.nameAccepts n resolve hp]

/-! ## §D  Document order -/

theorem compareBelow (h : w.Holds st st') (hp : p.Alike w q) {a a' b b' : Pointer} (ha : a.Alike w a')
    (hb : b.Alike w b') : Pointer.compareBelow st p a b = Pointer.compareBelow st' q a' b' := by
  cases hp with
  | json path i v n hp =>
    cases ha <;> cases hb <;> simp only [Pointer.compareBelow]
    simp only [h.document? hp, JsonRef.compareChildren, JsonRef.rank, JsonRef.part?]
  | tree r =>
    cases ha <;> cases hb <;> simp only [Pointer.compareBelow, h.left.forest, h.right.forest]
  | _ => rfl

theorem compareAncestries (h : w.Holds st st') (hp : p.Alike w q) (hs : PointersAlike w ps ps')
    (ht : PointersAlike w qs qs') :
    Pointer.compareAncestries st p ps qs = Pointer.compareAncestries st' q ps' qs' := by
  induction hs generalizing p q qs qs' with
  | nil => cases ht <;> rfl
  | cons ha _ ih =>
    cases ht with
    | nil => rfl
    | cons hb hbs =>
      simp only [Pointer.compareAncestries, ha.beq hb]
      split
      · exact ih ha hbs
      · exact h.compareBelow hp ha hb

theorem compare? (h : w.Holds st st') (hp : p.Alike w q) (hp' : p'.Alike w q') :
    Pointer.compare? st p p' = Pointer.compare? st' q q' := by
  simp only [Pointer.compare?, hp.beq hp']
  split
  · rfl
  · have ha := hp.ancestry
    have hb := hp'.ancestry
    generalize p.ancestry = as, q.ancestry = as', p'.ancestry = bs, q'.ancestry = bs' at ha hb ⊢
    cases ha with
    | nil => rfl
    | cons hx has =>
      cases hb with
      | nil => rfl
      | cons hy hbs =>
        simp only [hx.beq hy]
        split
        · rw [h.compareAncestries hx has hbs]
        · rfl

theorem unrelated (h : w.Holds st st') (hp : p.Alike w q) (hp' : p'.Alike w q') :
    Pointer.unrelated st p p' = Pointer.unrelated st' q q' := by
  simp only [Pointer.unrelated, h.pathText hp, h.pathText hp']

end World.Holds

theorem PointersAlike.distinct (h : PointersAlike w ps qs) : PointersAlike w (distinct ps) (distinct qs) := by
  have hfold : ∀ {kept kept' : List Pointer}, PointersAlike w kept kept' →
      PointersAlike w (ps.foldl (fun kept p => if kept.contains p then kept else p :: kept) kept)
        (qs.foldl (fun kept p => if kept.contains p then kept else p :: kept) kept') := by
    induction h with
    | nil => exact id
    | cons hp _ ih =>
      intro kept kept' hk
      simp only [List.foldl_cons, hk.contains hp]
      split
      · exact ih hk
      · exact ih (.cons hp hk)
  exact (hfold .nil).reverse

namespace World.Holds

theorem insertBackwards (h : w.Holds st st') (hp : p.Alike w q) (hs : PointersAlike w ps qs) :
    PointersAlike w (NodePath.insertBackwards st p ps).1 (NodePath.insertBackwards st' q qs).1 ∧
      (NodePath.insertBackwards st p ps).2 = (NodePath.insertBackwards st' q qs).2 := by
  induction hs with
  | nil => exact ⟨.cons hp .nil, rfl⟩
  | cons hr hs ih =>
    simp only [NodePath.insertBackwards, h.compare? hp hr]
    split
    · exact ⟨.cons hr ih.1, ih.2⟩
    · exact ⟨.cons hp (.cons hr hs), rfl⟩
    · exact ⟨.cons hp (.cons hr hs), congrArg some (h.unrelated hp hr)⟩

theorem sortFrom (h : w.Holds st st') (hs : PointersAlike w ps qs) (ht : PointersAlike w ps' qs')
    (failure : Option EvalError) :
    PointersAlike w (NodePath.sortFrom st ps' failure ps).1 (NodePath.sortFrom st' qs' failure qs).1 ∧
      (NodePath.sortFrom st ps' failure ps).2 = (NodePath.sortFrom st' qs' failure qs).2 := by
  induction hs generalizing ps' qs' failure with
  | nil => exact ⟨ht, rfl⟩
  | cons hp _ ih =>
    obtain ⟨hi, hf⟩ := h.insertBackwards hp ht
    simp only [NodePath.sortFrom, hf]
    exact ih hi _

/-- Sorting alike lists fails in the same way, or gives alike lists. -/
theorem sortDistinct (h : w.Holds st st') (hs : PointersAlike w ps qs) (order : Order) :
    ExceptAlike (PointersAlike w) (NodePath.sortDistinct st ps order) (NodePath.sortDistinct st' qs order) := by
  obtain ⟨hr, hf⟩ := h.sortFrom hs.distinct .nil none
  simp only [NodePath.sortDistinct]
  generalize NodePath.sortFrom st [] none (distinct ps) = r, NodePath.sortFrom st' [] none (distinct qs) = r'
    at hr hf ⊢
  obtain ⟨rs, f⟩ := r
  obtain ⟨rs', f'⟩ := r'
  obtain rfl : f = f' := hf
  cases f with
  | some e => exact .error e
  | none =>
    refine .ok ?_
    split
    · exact hr
    · exact hr.reverse

end World.Holds

end NodePath
