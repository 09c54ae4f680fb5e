/-
# NodePath.Proofs.Purity — pure extension functions

An extension function sees the evaluation that calls it, and may pull nodes and evaluate further expressions.
It is pure when that is all it goes by: called alike, with alike arguments, it answers alike or fails with the
same error, and all it leaves in the store is new documents and compiled trees. The functions of every context
are pure, and so are those of the stock.

* §A  `Context.Within` and `Call.Alike`.
* §B  `Action.Pure` and `Host.Pure`.
* §C  What a call is asked for.
* §D  The functions of every context.
* §E  The stock.
-/
import NodePath.Function.Builtin
import NodePath.Function.Stock
import NodePath.Proofs.Relate

namespace NodePath

variable {w w' : World}

/-! ## §A  Calls -/

/-- **Within** says that a context points to no document whose number is `n` or above. -/
structure Context.Within (n : Nat) (c : Context) : Prop where
  contextPointer : c.contextPointer.Within n
  rootPointer : c.rootPointer.Within n
  namespaceNode : ∀ p, c.own.namespaces.node = some p → p.Within n

theorem Context.Within.setLenient {n : Nat} {c : Context} (h : c.Within n) (lenient : Bool) :
    (c.setLenient lenient).Within n := ⟨h.contextPointer, h.rootPointer, h.namespaceNode⟩

/-- **Alike** calls happen in one context, at alike nodes, and answer what they are asked for alike. -/
structure Call.Alike (w : World) (a b : Call) : Prop where
  context : a.context = b.context
  within : a.context.Within w.base.documents.size
  node : Option.Rel (Pointer.Alike w) a.node b.node
  position : a.position = b.position
  evaluate : ∀ text, EvalAlike w .datum (a.evaluate text) (b.evaluate text)
  first : ∀ v c d, w.Grows v → c.Alike v d → EvalAlike v Relation.pointer.option (a.first c) (b.first d)
  nodes : ∀ v c d, w.Grows v → c.Alike v d → EvalAlike v Relation.pointer.list (a.nodes c) (b.nodes d)

theorem Call.Alike.grow {a b : Call} (hw : w.Grows w') (h : a.Alike w b) : a.Alike w' b where
  context := h.context
  within := by rw [hw.base]; exact h.within
  node := Relation.pointer.option.grow hw h.node
  position := h.position
  evaluate text := (h.evaluate text).grow hw
  first v c d hv := h.first v c d (hw.trans hv)
  nodes v c d hv := h.nodes v c d (hw.trans hv)

/-- Calls. -/
def Relation.call : Relation Call Call := ⟨Call.Alike, Call.Alike.grow⟩

/-! ## §B  Purity -/

/-- **Pure** says that what a function does follows from its call and its arguments. -/
def Action.Pure (f : Action) : Prop :=
  ∀ w a b vs vs', Call.Alike w a b → Relation.value.list.rel w vs vs' → EvalAlike w .value (f a vs) (f b vs')

/-- **Pure** says that all functions of a host are pure. -/
def Host.Pure (host : Host) : Prop := ∀ handle, Action.Pure (host handle)

/-! ## §C  Questions -/

/-- An argument; a missing one is null. -/
theorem Call.argument_alike {vs vs' : List Value} (h : Relation.value.list.rel w vs vs') (i : Nat) :
    (Call.argument vs i).Alike w (Call.argument vs' i) := by
  induction h generalizing i with
  | nil => exact .datum .null
  | cons hv _ ih =>
    cases i with
    | zero => exact hv
    | succ i => exact ih i

theorem Call.ofNode_alike {p? q? : Option Pointer} (h : Option.Rel (Pointer.Alike w) p? q?) :
    (Call.ofNode p?).Alike w (Call.ofNode q?) := by
  cases h with
  | none => exact .null
  | some hp => exact .pointer hp

namespace Call.Alike

variable {a b : Call} {v v' : Value}

theorem collapse (h : a.Alike w b) (hv : v.Alike w v') : EvalAlike w .datum (a.collapse v) (b.collapse v') := by
  cases hv with
  | datum hd => exact .pure hd
  | nodes hc => exact (h.first w _ _ (.refl w) hc).bind fun _ _ _ _ hp => .pure (Call.ofNode_alike hp)

theorem text (h : a.Alike w b) (hv : v.Alike w v') : EvalAlike w (.eq String) (a.text v) (b.text v') :=
  (h.collapse hv).bind fun _ _ _ _ hd => .get_bind fun _ _ _ hu hst => .pure (hst.toText (Datum.Alike.grow hu hd))

theorem glance (h : a.Alike w b) (hv : v.Alike w v') :
    EvalAlike w Relation.datum.option (a.glance v) (b.glance v') := by
  cases hv with
  | datum hd => exact .pure (.some hd)
  | nodes hc =>
    refine EvalAlike.tryCatch ((h.first w _ _ (.refl w) hc).bind fun u p? q? hu hp => ?_) fun _ _ _ => .pure .none
    cases hp with
    | none => exact .pure .none
    | some hp => exact .pure (.some (.pointer hp))

end Call.Alike

/-! ## §D  The functions of every context -/

namespace Extension

theorem onText_pure (f : List Char → List Char) : (onText f).Pure := fun _ _ _ _ _ hc hs =>
  (hc.text (Call.argument_alike hs 0)).bind fun _ s t _ h => .pure (by cases h; exact .datum (.text _))

theorem members_alike {st st' : Store} (h : w.Holds st st') {d d' : Datum} (hd : d.Alike w d') :
    members st d = members st' d' := by
  cases hd with
  | pointer hp => simp only [members, h.toJson (.pointer hp)]
  | object j => cases j <;> rfl
  | _ => rfl

theorem membersOf_alike {a b : Call} (hc : a.Alike w b) {v v' : Value} (hv : v.Alike w v') :
    EvalAlike w (.eq (List Json)) (membersOf a v) (membersOf b v') := by
  cases hv with
  | nodes hn =>
    refine (hc.nodes w _ _ (.refl w) hn).bind fun u ps qs hu hs => .get_bind fun x st st' hx hst => .pure ?_
    refine List.forall₂_eq_eq_eq.le _ _ ?_
    exact List.forall₂_map_left_iff.mpr (List.forall₂_map_right_iff.mpr
      ((PointersAlike.grow hx hs).imp fun p q hp => hst.toJson (hst.openedValue hp)))
  | datum hd =>
    cases hd with
    | pointer hp =>
      exact .get_bind fun u st st' hu hst => .pure (members_alike hst (hst.openedValue (hp.grow hu)))
    | null => exact .get_bind fun _ _ _ _ hst => .pure (members_alike hst .null)
    | boolean b => exact .get_bind fun _ _ _ _ hst => .pure (members_alike hst (.boolean b))
    | number x => exact .get_bind fun _ _ _ _ hst => .pure (members_alike hst (.number x))
    | text s => exact .get_bind fun _ _ _ _ hst => .pure (members_alike hst (.text s))
    | object j => exact .get_bind fun _ _ _ _ hst => .pure (members_alike hst (.object j))

theorem distinctValues_pure : Action.Pure distinctValues := fun _ _ _ _ _ hc hs =>
  (membersOf_alike hc (Call.argument_alike hs 0)).bind fun _ _ _ _ h => .pure (by cases h; exact .datum (.object _))

theorem isPresent_alike {st st' : Store} (h : w.Holds st st') {d d' : Datum} (hd : d.Alike w d') :
    isPresent st d = isPresent st' d' := by
  have hb := h.toBoolean hd
  cases hd <;> first | rfl | exact hb

theorem valueOf_alike {st st' : Store} (h : w.Holds st st') {v v' : Value} (hv : v.Alike w v') :
    (valueOf st v).Alike w (valueOf st' v') := by
  cases hv with
  | nodes hc => exact .nodes hc
  | datum hd =>
    cases hd with
    | pointer hp => exact .datum (h.openedValue hp)
    | null => exact .datum .null
    | boolean b => exact .datum (.boolean b)
    | number x => exact .datum (.number x)
    | text s => exact .datum (.text s)
    | object j => exact .datum (.object j)

theorem orDefault_pure : Action.Pure orDefault := fun _ _ _ _ _ hc hs =>
  (hc.collapse (Call.argument_alike hs 0)).bind fun _ d d' hu hd => .get_bind fun _ st st' hx hst => by
    have hd := Datum.Alike.grow hx hd
    refine .pure (valueOf_alike hst ?_)
    rw [isPresent_alike hst hd]
    split
    · exact .datum hd
    · exact (Call.argument_alike hs 1).grow (hu.trans hx)

theorem fromJson_pure : Action.Pure fromJson := fun _ _ _ _ _ hc hs =>
  (hc.text (Call.argument_alike hs 0)).bind fun _ s t _ h => by
    cases h
    cases Json.read? s with
    | none => exact .throw _
    | some j => exact .pure (Value.Alike.datum (.ofJson _ j))

end Extension

theorem Builtin.pure (b : Builtin) : b.action.Pure := by
  cases b with
  | lowerCase => exact Extension.onText_pure _
  | upperCase => exact Extension.onText_pure _
  | distinctValues => exact Extension.distinctValues_pure
  | orDefault => exact Extension.orDefault_pure
  | fromJson => exact Extension.fromJson_pure

/-! ## §E  The stock -/

namespace Stock

/-- A function of the first argument is pure when it does not tell alike values apart. -/
theorem onFirst_pure {usual : Datum} {f : Store → Datum → Value} (husual : ∀ w, usual.Alike w usual)
    (hf : ∀ {w st st' d d'}, World.Holds w st st' → Datum.Alike w d d' → (f st d).Alike w (f st' d')) :
    Action.Pure (onFirst usual f) := fun _ _ _ _ _ hc hs =>
  (hc.glance (Call.argument_alike hs 0)).bind fun _ d? d'? _ hd => .get_bind fun _ st st' hx hst => by
    refine .pure (hf hst ?_)
    cases hd with
    | none => exact husual _
    | some hd => exact Datum.Alike.grow hx hd

theorem nodePath_pure : Action.Pure nodePath := fun _ a b _ _ hc _ => .get_bind fun _ st st' hx hst => by
  refine .pure (.datum ?_)
  have hn := Relation.pointer.option.grow hx hc.node
  generalize a.node = p?, b.node = q? at hn ⊢
  cases hn with
  | none => exact .text _
  | some hp => simp only [Option.map_some, hst.pathText hp]; exact .text _

theorem evaluate_pure : Action.Pure evaluate := fun _ _ _ _ _ hc hs =>
  (hc.glance (Call.argument_alike hs 0)).bind fun _ d? d'? hu hd => .get_bind fun _ st st' hx hst => by
    have htext : (d?.getD .null).toText st = (d'?.getD .null).toText st' := by
      cases hd with
      | none => rfl
      | some hd => exact hst.toText (Datum.Alike.grow hx hd)
    rw [htext]
    exact ((hc.evaluate _).grow (hu.trans hx)).bind fun _ _ _ _ hd => .pure (.datum hd)

theorem kindOf_alike {vs vs' : List Value} (hs : Relation.value.list.rel w vs vs') :
    kindOf (first vs) = kindOf (first vs') := by
  have h := Call.argument_alike hs 0
  simp only [first]
  generalize Call.argument vs 0 = v, Call.argument vs' 0 = v' at h ⊢
  cases h with
  | nodes _ => rfl
  | datum hd => cases hd <;> rfl

/-- **The stock is pure.** -/
theorem pure : Host.Pure stockHost := by
  intro handle
  show (action handle).Pure
  unfold action
  split
  · exact onFirst_pure (fun _ => .null) fun h hd => by rw [h.toNumber hd]; exact .datum (.number _)
  · exact fun _ _ _ _ _ _ hs => .pure (by rw [hs.length_eq]; exact .datum (.number _))
  · exact fun _ _ _ _ _ hc _ => .pure (by rw [hc.position]; exact .datum (.number _))
  · exact nodePath_pure
  · exact fun _ _ _ _ _ _ hs => .pure (by rw [kindOf_alike hs]; exact .datum (.text _))
  · exact onFirst_pure (fun _ => .null) fun h hd => by rw [h.toText hd]; exact .datum (.text _)
  · exact onFirst_pure (fun _ => .number _) fun h hd => by rw [h.toDouble hd]; exact .datum (.number _)
  · exact onFirst_pure (fun _ => .null) fun h hd => by rw [h.toBoolean hd]; exact .datum (.boolean _)
  · exact onFirst_pure (fun _ => .null) fun h hd => by rw [h.toJson hd]; exact .datum (.text _)
  · exact fun _ _ _ _ _ _ hs => .pure (Call.argument_alike hs 0)
  · exact fun _ _ _ _ _ hc _ => .pure (by rw [hc.context]; exact .datum (.boolean _))
  · exact evaluate_pure
  · exact fun _ _ _ _ _ _ _ => .throw _
  · exact fun _ _ _ _ _ _ _ => .throw _
  · exact fun _ _ _ _ _ _ _ => .pure (.datum .null)

end Stock

end NodePath
