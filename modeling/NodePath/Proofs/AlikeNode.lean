/-
# NodePath.Proofs.AlikeNode — what alike nodes show

In stores that fit in a world, alike nodes answer every question alike: texts, numbers, kinds and orders are
equal, and the nodes along an axis are alike one by one.

* §A  Equality, names, parents.
* §B  Opening variables.
* §C  Presence and value.
* §D  Relatives.
* §E  Names, namespaces, language, paths.
-/
import NodePath.Proofs.World

namespace NodePath

variable {w : World} {st st' : Store} {p q p' q' : Pointer}

/-! ## §A  Equality, names, parents -/

namespace Pointer.Alike

theorem isVariable (h : p.Alike w q) : p.isVariable = q.isVariable := by cases h <;> rfl

theorem isContainer (h : p.Alike w q) : p.isContainer = q.isContainer := h.isVariable

theorem depth (h : p.Alike w q) : p.depth = q.depth := by
  induction h with
  | absentUnder n _ ih => simp only [Pointer.depth, ih]
  | _ => rfl

/-- Alikeness keeps equality: paired documents are equal or different on both sides. -/
theorem beq (h : p.Alike w q) (h' : p'.Alike w q') : (p == p') = (q == q') := by
  show Pointer.same p p' = Pointer.same q q'
  induction h generalizing p' q' with
  | json path a b n hp =>
    cases h' with
    | json path' a' b' n' hp' =>
      simp only [Pointer.same, JsonRef.same]
      congr 2
      rw [Bool.eq_iff_iff, beq_iff_eq, beq_iff_eq]
      constructor
      · rintro rfl; exact w.right_unique hp hp'
      · rintro rfl; exact w.left_unique hp hp'
    | _ => rfl
  | absentUnder n _ ih =>
    cases h' with
    | absentUnder n' h' => simp only [Pointer.same, ih h']
    | _ => rfl
  | _ => cases h' <;> rfl

theorem bne (h : p.Alike w q) (h' : p'.Alike w q') : (p != p') = (q != q') := by
  show (!(p == p')) = !(q == q')
  rw [h.beq h']

theorem parent? (h : p.Alike w q) : Option.Rel (Pointer.Alike w) p.parent? q.parent? := by
  cases h with
  | json path a b n hp =>
    simp only [Pointer.parent?, JsonRef.parent?]
    split
    · cases b with
      | none => exact .none
      | some v => exact .some (.var v)
    · split
      · exact .some (.json _ _ _ _ hp)
      · exact .some (.json _ _ _ _ hp)
  | tree r =>
    cases hr : r.parent? with
    | none => simp [Pointer.parent?, hr]
    | some s => simpa [Pointer.parent?, hr] using Option.Rel.some (.tree s)
  | var v => exact .none
  | absent n => exact .none
  | absentUnder n h => exact .some h

theorem nodeParent? (h : p.Alike w q) : Option.Rel (Pointer.Alike w) p.nodeParent? q.nodeParent? := by
  unfold Pointer.nodeParent?
  have hr := h.parent?
  generalize p.parent? = p?, q.parent? = q? at hr ⊢
  cases hr with
  | none => exact .none
  | some hr =>
    simp only [Option.filter, hr.isContainer]
    split
    · exact .some hr
    · exact .none

theorem chainFrom {next : Pointer → Option Pointer}
    (hnext : ∀ {p q}, p.Alike w q → Option.Rel (Pointer.Alike w) (next p) (next q)) (fuel : Nat)
    {p? q? : Option Pointer} (h : Option.Rel (Pointer.Alike w) p? q?) :
    PointersAlike w (Pointer.chainFrom next fuel p?) (Pointer.chainFrom next fuel q?) := by
  induction fuel generalizing p? q? with
  | zero => exact .nil
  | succ fuel ih =>
    cases h with
    | none => exact .nil
    | some h => exact .cons h (ih (hnext h))

theorem above (h : p.Alike w q) : PointersAlike w p.above q.above := by
  unfold Pointer.above
  rw [h.depth]
  exact chainFrom parent? _ h.parent?

theorem nodesAbove (h : p.Alike w q) : PointersAlike w p.nodesAbove q.nodesAbove := by
  unfold Pointer.nodesAbove
  rw [h.depth]
  exact chainFrom nodeParent? _ h.nodeParent?

theorem ancestry (h : p.Alike w q) : PointersAlike w p.ancestry q.ancestry :=
  List.rel_reverse (.cons h h.above)

end Pointer.Alike

/-! ## §B  Opening variables -/

/-- What is inside a variable of an extended store is what was inside it in the base. -/
theorem Store.Extends.opening {base : Store} (h : base.Extends st) (v : VarRef) :
    (Pointer.var v).opening st = (Pointer.var v).opening base := by
  simp only [Pointer.opening, h.slot?, h.opensDocuments]

/-- **Alike** insides are paired documents, alike nodes, or equal. -/
inductive Opening.Alike (w : World) : Opening → Opening → Prop
  | shut : Alike w .shut .shut
  | onto {p q : Pointer} : p.Alike w q → Alike w (.onto p) (.onto q)
  | onDocument {d e : DocId} : w.pairs d e → Alike w (.onDocument d) (.onDocument e)
  | onCopy (j : Json) : Alike w (.onCopy j) (.onCopy j)

/-- A variable of the base holds what is like itself. -/
theorem World.slot_within (w : World) {v : VarRef} {slot : Slot} (h : w.base.slot? v = some slot) :
    slot.Within w.base.documents.size := w.closed v slot h

theorem World.opening_base (w : World) (v : VarRef) :
    Opening.Alike w ((Pointer.var v).opening w.base) ((Pointer.var v).opening w.base) := by
  simp only [Pointer.opening]
  cases hs : w.base.slot? v with
  | none => exact .shut
  | some slot =>
    have hw := w.slot_within hs
    match slot with
    | .document doc => dsimp only; split; exacts [.onDocument (w.refl hw), .shut]
    | .value (.pointer p) => exact .onto (Pointer.Within.alike hw)
    | .value .null => dsimp only; split; exacts [.onCopy _, .shut]
    | .value (.boolean b) => dsimp only; split; exacts [.onCopy _, .shut]
    | .value (.number x) => dsimp only; split; exacts [.onCopy _, .shut]
    | .value (.text s) => dsimp only; split; exacts [.onCopy _, .shut]
    | .value (.object j) => dsimp only; split; exacts [.onCopy _, .shut]

theorem World.Holds.opening (h : w.Holds st st') (hp : p.Alike w q) :
    Opening.Alike w (p.opening st) (q.opening st') := by
  cases hp with
  | var v =>
    rw [h.left.opening, h.right.opening]
    exact w.opening_base v
  | _ => exact .shut

theorem World.Holds.followFrom (h : w.Holds st st') (fuel : Nat) (hp : p.Alike w q) :
    (Pointer.followFrom st fuel p).Alike w (Pointer.followFrom st' fuel q) := by
  induction fuel generalizing p q with
  | zero => exact hp
  | succ fuel ih =>
    simp only [Pointer.followFrom]
    have ho := h.opening hp
    generalize p.opening st = o, q.opening st' = o' at ho ⊢
    cases ho with
    | onto hr =>
      simp only [hr.beq hp]
      split
      · exact hp
      · exact ih hr
    | _ => exact hp

theorem World.Holds.follow (h : w.Holds st st') (hp : p.Alike w q) : (p.follow st).Alike w (q.follow st') := by
  unfold Pointer.follow Pointer.patience
  rw [h.left.variableCount, h.right.variableCount]
  exact h.followFrom _ hp

theorem Pointer.Alike.documentOf (hp : p.Alike w q) {d e : DocId} (hd : w.pairs d e) :
    (p.documentOf d).Alike w (q.documentOf e) := by
  cases hp <;> exact .json _ _ _ _ hd

/-! ## §C  Presence and value -/

/-- The part of a document that an alike place addresses. -/
theorem World.Holds.at? (h : w.Holds st st') {d e : DocId} (hp : w.pairs d e) (path : List Segment) :
    st.at? d path = st'.at? e path := by
  simp only [Store.at?, h.document? hp]

theorem World.Holds.isActual (h : w.Holds st st') (hp : p.Alike w q) : p.isActual st = q.isActual st' := by
  cases hp with
  | json path a b n hp => simp only [Pointer.isActual, h.at? hp]
  | tree r => simp only [Pointer.isActual, h.left.forest, h.right.forest]
  | var v => simp only [Pointer.isActual, h.left.slot?, h.right.slot?]
  | absent n => rfl
  | absentUnder n _ => rfl

theorem World.Holds.slotValue (h : w.Holds st st') {slot : Slot} (hs : slot.Within w.base.documents.size) :
    (st.slotValue slot).Alike w (st'.slotValue slot) := by
  match slot with
  | .document doc =>
    simp only [Store.slotValue, h.document? (w.refl hs)]
    exact .object _
  | .value (.pointer p) => exact .pointer (Pointer.Within.alike hs)
  | .value .null => exact .null
  | .value (.boolean b) => exact .boolean b
  | .value (.number x) => exact .number x
  | .value (.text s) => exact .text s
  | .value (.object j) => exact .object j

theorem World.Holds.value (h : w.Holds st st') (hp : p.Alike w q) : (p.value st).Alike w (q.value st') := by
  cases hp with
  | json path a b n hp =>
    simp only [Pointer.value, h.at? hp]
    cases st'.at? _ path with
    | none => exact .null
    | some j => exact .ofJson w j
  | tree r =>
    simp only [Pointer.value, h.left.forest, h.right.forest, TreeRef.value]
    split
    · split
      · exact .text _
      · exact .null
    · exact .text _
    · exact .text _
  | var v =>
    simp only [Pointer.value, h.left.slot?, h.right.slot?]
    cases hs : w.base.slot? v with
    | none => exact .null
    | some slot => exact h.slotValue (w.slot_within hs)
  | absent n => exact .null
  | absentUnder n _ => exact .null

theorem World.Holds.isOpenedActual (h : w.Holds st st') (hp : p.Alike w q) :
    p.isOpenedActual st = q.isOpenedActual st' := by
  have hf := h.follow hp
  simp only [Pointer.isOpenedActual]
  have ho := h.opening hf
  generalize (p.follow st).opening st = o, (q.follow st').opening st' = o' at ho ⊢
  cases ho with
  | shut => exact h.isActual hf
  | onto _ => exact h.isActual hf
  | onDocument hd => simp only [h.document? hd]
  | onCopy j => rfl

theorem World.Holds.openedValue (h : w.Holds st st') (hp : p.Alike w q) :
    (p.openedValue st).Alike w (q.openedValue st') := by
  have hf := h.follow hp
  simp only [Pointer.openedValue]
  have ho := h.opening hf
  generalize (p.follow st).opening st = o, (q.follow st').opening st' = o' at ho ⊢
  cases ho with
  | shut => exact h.value hf
  | onto _ => exact h.value hf
  | onDocument hd =>
    simp only [h.document? hd]
    cases st'.document? _ with
    | none => exact .null
    | some j => exact .ofJson w j
  | onCopy j => exact .ofJson w j

/-! ## §D  Relatives -/

/-- Lists are alike when they are made of one list in ways that make alike nodes. -/
theorem PointersAlike.map {α : Type} {f g : α → Pointer} {as : List α}
    (h : ∀ a ∈ as, (f a).Alike w (g a)) : PointersAlike w (as.map f) (as.map g) :=
  List.forall₂_map_left_iff.mpr (List.forall₂_map_right_iff.mpr (List.forall₂_same.mpr h))

theorem JsonRef.children_alike {d e : DocId} (hp : w.pairs d e) (r : JsonRef) (root : Json) :
    PointersAlike w (({ r with doc := d }.children root).map .json)
      (({ r with doc := e }.children root).map .json) := by
  simp only [JsonRef.children, JsonRef.part?]
  split
  · exact .nil
  · split
    · exact .nil
    · simp only [List.map_map]
      exact .map fun path _ => .json _ _ _ _ hp

theorem JsonRef.attributes_alike {d e : DocId} (hp : w.pairs d e) (r : JsonRef) (root : Json) :
    PointersAlike w (({ r with doc := d }.attributes root).map .json)
      (({ r with doc := e }.attributes root).map .json) := by
  simp only [JsonRef.attributes, JsonRef.part?]
  split
  · exact .nil
  · split
    · exact .nil
    · simp only [List.map_map]
      exact .map fun path _ => .json _ _ _ _ hp

/-- A list of tree nodes is like itself. -/
theorem PointersAlike.trees (w : World) (rs : List TreeRef) : PointersAlike w (rs.map .tree) (rs.map .tree) :=
  .map fun r _ => .tree r

theorem World.Holds.plainChildren (h : w.Holds st st') (hp : p.Alike w q) :
    PointersAlike w (p.plainChildren st) (q.plainChildren st') := by
  cases hp with
  | json path a b n hp =>
    simp only [Pointer.plainChildren, h.document? hp]
    cases st'.document? _ with
    | none => exact .nil
    | some j => exact JsonRef.children_alike hp ⟨0, path, a, b, n⟩ j
  | tree r =>
    simp only [Pointer.plainChildren, h.left.forest, h.right.forest]
    exact .trees w _
  | var v => exact .nil
  | absent n => exact .nil
  | absentUnder n _ => exact .nil

theorem World.Holds.children (h : w.Holds st st') (hp : p.Alike w q) :
    PointersAlike w (p.children st) (q.children st') := by
  have hf := h.follow hp
  simp only [Pointer.children]
  have ho := h.opening hf
  generalize (p.follow st).opening st = o, (q.follow st').opening st' = o' at ho ⊢
  cases ho with
  | shut => exact h.plainChildren hf
  | onto _ => exact h.plainChildren hf
  | onDocument hd => exact h.plainChildren (hf.documentOf hd)
  | onCopy j => exact .nil

theorem World.Holds.attributes (h : w.Holds st st') (hp : p.Alike w q) :
    PointersAlike w (p.attributes st) (q.attributes st') := by
  cases hp with
  | json path a b n hp =>
    simp only [Pointer.attributes, h.document? hp]
    cases st'.document? _ with
    | none => exact .nil
    | some j => exact JsonRef.attributes_alike hp ⟨0, path, a, b, n⟩ j
  | tree r =>
    simp only [Pointer.attributes, h.left.forest, h.right.forest]
    exact .trees w _
  | var v => exact .nil
  | absent n => exact .nil
  | absentUnder n _ => exact .nil

theorem World.Holds.declarations (h : w.Holds st st') (hp : p.Alike w q) :
    PointersAlike w (p.declarations st) (q.declarations st') := by
  cases hp with
  | tree r =>
    simp only [Pointer.declarations, h.left.forest, h.right.forest]
    exact .trees w _
  | _ => exact .nil

theorem World.Holds.plainLevels (h : w.Holds st st') (hp : p.Alike w q) :
    p.plainLevels st = q.plainLevels st' := by
  cases hp with
  | json path a b n hp => simp only [Pointer.plainLevels, h.document? hp]
  | tree r => simp only [Pointer.plainLevels, h.left.forest, h.right.forest]
  | _ => rfl

theorem World.Holds.levelsBelow (h : w.Holds st st') (hp : p.Alike w q) :
    p.levelsBelow st = q.levelsBelow st' := by
  have hf := h.follow hp
  simp only [Pointer.levelsBelow]
  have ho := h.opening hf
  generalize (p.follow st).opening st = o, (q.follow st').opening st' = o' at ho ⊢
  cases ho with
  | shut => exact h.plainLevels hf
  | onto _ => exact h.plainLevels hf
  | onDocument hd => exact h.plainLevels (hf.documentOf hd)
  | onCopy j => rfl

/-! ## §E  Names, namespaces, language, paths -/

theorem World.Holds.name (h : w.Holds st st') (hp : p.Alike w q) : p.name st = q.name st' := by
  cases hp with
  | tree r => simp only [Pointer.name, h.left.forest, h.right.forest]
  | _ => rfl

theorem World.Holds.kind (h : w.Holds st st') (hp : p.Alike w q) : p.kind st = q.kind st' := by
  cases hp with
  | tree r => simp only [Pointer.kind, h.left.forest, h.right.forest]
  | _ => rfl

theorem World.Holds.namespaceUri (h : w.Holds st st') (hp : p.Alike w q) :
    p.namespaceUri st = q.namespaceUri st' := by
  cases hp with
  | tree r => simp only [Pointer.namespaceUri, h.left.forest, h.right.forest]
  | _ => rfl

theorem World.Holds.addressOf (h : w.Holds st st') (hp : p.Alike w q) (label : String) :
    p.addressOf st label = q.addressOf st' label := by
  induction hp with
  | tree r => simp only [Pointer.addressOf, h.left.forest, h.right.forest]
  | absentUnder n _ ih => simpa only [Pointer.addressOf] using ih
  | _ => rfl

theorem World.Holds.language (h : w.Holds st st') (hp : p.Alike w q) : p.language st = q.language st' := by
  induction hp with
  | tree r => simp only [Pointer.language, h.left.forest, h.right.forest]
  | absentUnder n _ ih => simpa only [Pointer.language] using ih
  | _ => rfl

theorem World.Holds.pathText (h : w.Holds st st') (hp : p.Alike w q) : p.pathText st = q.pathText st' := by
  induction hp with
  | tree r => simp only [Pointer.pathText, h.left.forest, h.right.forest]
  | absentUnder n _ ih => simp only [Pointer.pathText, ih]
  | _ => rfl

end NodePath
