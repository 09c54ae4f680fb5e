/-
# NodePath.Proofs.AlikeValue — what alike values are converted to, and how they compare

* §A  Coercions.
* §B  Comparison.
* §C  Alike stages, cursors and values of expressions.
* §D  Cursors that are built, ordered and started again.
-/
import NodePath.Comparison
import NodePath.Cursor.Basic
import NodePath.Proofs.AlikeAxis
import NodePath.Shown

namespace NodePath

variable {w w' : World} {st st' : Store}

/-! ## §A  Coercions -/

theorem Datum.Alike.scalarJson {d d' : Datum} (h : d.Alike w d') : d.scalarJson = d'.scalarJson := by
  cases h <;> rfl

theorem Datum.Alike.scalarText {d d' : Datum} (h : d.Alike w d') : d.scalarText = d'.scalarText := by
  cases h <;> rfl

theorem Datum.Alike.scalarNumber {d d' : Datum} (h : d.Alike w d') : d.scalarNumber = d'.scalarNumber := by
  cases h <;> rfl

theorem Datum.Alike.scalarDouble {d d' : Datum} (h : d.Alike w d') : d.scalarDouble = d'.scalarDouble := by
  cases h <;> rfl

theorem Datum.Alike.isTruth {d d' : Datum} (h : d.Alike w d') : d.isTruth = d'.isTruth := by
  cases h <;> rfl

theorem Datum.Alike.isNumber {d d' : Datum} (h : d.Alike w d') : d.isNumber = d'.isNumber := by
  cases h <;> rfl

namespace World.Holds

variable {d d' e e' : Datum} {ds ds' es es' : List Datum}

theorem toJson (h : w.Holds st st') (hd : d.Alike w d') : d.toJson st = d'.toJson st' := by
  cases hd with
  | pointer hp => exact (h.openedValue hp).scalarJson
  | _ => rfl

theorem held (h : w.Holds st st') (hd : d.Alike w d') : (d.held st).Alike w (d'.held st') := by
  cases hd with
  | pointer hp =>
    have hv := h.value (h.follow hp)
    simp only [Datum.held]
    generalize (Pointer.follow _ st).value st = v, (Pointer.follow _ st').value st' = v' at hv ⊢
    cases hv with
    | pointer _ => exact .null
    | null => exact .null
    | boolean b => exact .boolean b
    | number x => exact .number x
    | text s => exact .text s
    | object j => exact .object j
  | null => exact .null
  | boolean b => exact .boolean b
  | number x => exact .number x
  | text s => exact .text s
  | object j => exact .object j

theorem toText (h : w.Holds st st') (hd : d.Alike w d') : d.toText st = d'.toText st' :=
  (h.held hd).scalarText

theorem toNumber (h : w.Holds st st') (hd : d.Alike w d') : d.toNumber st = d'.toNumber st' :=
  (h.held hd).scalarNumber

theorem toDouble (h : w.Holds st st') (hd : d.Alike w d') : d.toDouble st = d'.toDouble st' :=
  (h.held hd).scalarDouble

theorem toBoolean (h : w.Holds st st') (hd : d.Alike w d') : d.toBoolean st = d'.toBoolean st' := by
  cases hd with
  | pointer hp =>
    have hf := h.follow hp
    have hv := h.value hf
    simp only [Datum.toBoolean, hf.isVariable, h.isActual hf]
    generalize (Pointer.follow _ st).value st = v, (Pointer.follow _ st').value st' = v' at hv ⊢
    cases hv <;> rfl
  | _ => rfl

end World.Holds

/-! ## §B  Comparison -/

/-- **Alike** lists of values are alike one by one. -/
abbrev DataAlike (w : World) : List Datum → List Datum → Prop := List.Forall₂ (Datum.Alike w)

/-- The values of a list of parts of documents are like themselves. -/
theorem DataAlike.ofJson (w : World) (items : List Json) :
    DataAlike w (items.map Datum.ofJson) (items.map Datum.ofJson) :=
  List.forall₂_map_left_iff.mpr
    (List.forall₂_map_right_iff.mpr (List.forall₂_same.mpr fun j _ => Datum.Alike.ofJson w j))

/-- The values of alike nodes are alike. -/
theorem World.Holds.openedValues (h : w.Holds st st') {ps qs : List Pointer} (hs : PointersAlike w ps qs) :
    DataAlike w (ps.map (·.openedValue st)) (qs.map (·.openedValue st')) :=
  List.forall₂_map_left_iff.mpr
    (List.forall₂_map_right_iff.mpr (hs.imp fun _ _ hp => h.openedValue hp))

/-- **Alike** operands have alike members, or are alike values. -/
inductive Operand.Alike (w : World) : Operand → Operand → Prop
  | members {ds ds' : List Datum} : DataAlike w ds ds' → Alike w (.members ds) (.members ds')
  | single {d d' : Datum} : d.Alike w d' → Alike w (.single d) (.single d')

theorem Operand.Alike.grow {a b : Operand} (hw : w.Grows w') (h : a.Alike w b) : a.Alike w' b := by
  cases h with
  | members hs => exact .members (hs.imp fun _ _ => Datum.Alike.grow hw)
  | single hd => exact .single (hd.grow hw)

theorem Datum.Alike.spread {d d' : Datum} (h : d.Alike w d') :
    (Operand.spread d).Alike w (Operand.spread d') := by
  cases h with
  | object j =>
    cases j with
    | array items => exact .members (.ofJson w items)
    | _ => exact .single (.object _)
  | null => exact .single .null
  | boolean b => exact .single (.boolean b)
  | number x => exact .single (.number x)
  | text s => exact .single (.text s)
  | pointer hp => exact .single (.pointer hp)

theorem List.Forall₂.any_eq {α β : Type} {R : α → β → Prop} {f : α → Bool} {g : β → Bool}
    {as : List α} {bs : List β} (h : List.Forall₂ R as bs) (hfg : ∀ {a b}, R a b → f a = g b) :
    as.any f = bs.any g := by
  induction h with
  | nil => rfl
  | cons hab _ ih => simp only [List.any_cons, hfg hab, ih]

namespace World.Holds

theorem ofDatum (h : w.Holds st st') {d d' : Datum} (hd : d.Alike w d') :
    (Operand.ofDatum st d).Alike w (Operand.ofDatum st' d') := by
  cases hd with
  | pointer hp =>
    simp only [Operand.ofDatum, h.isOpenedActual hp]
    split
    · exact (h.openedValue hp).spread
    · exact .members .nil
  | null => exact Datum.Alike.null.spread
  | boolean b => exact (Datum.Alike.boolean b).spread
  | number x => exact (Datum.Alike.number x).spread
  | text s => exact (Datum.Alike.text s).spread
  | object j => exact (Datum.Alike.object j).spread

theorem ofNodes (h : w.Holds st st') {ps qs : List Pointer} (hs : PointersAlike w ps qs) :
    (Operand.ofNodes st ps).Alike w (Operand.ofNodes st' qs) := .members (h.openedValues hs)

/-- A relation that alike values do not tell apart does not tell alike operands apart. -/
theorem relates {f g : Datum → Datum → Bool}
    (hfg : ∀ {a a' b b' : Datum}, a.Alike w a' → b.Alike w b' → f a b = g a' b') {a a' b b' : Operand}
    (ha : a.Alike w a') (hb : b.Alike w b') : Operand.relates f a b = Operand.relates g a' b' := by
  cases ha with
  | members has =>
    cases hb with
    | members hbs => exact List.Forall₂.any_eq has fun ha => List.Forall₂.any_eq hbs fun hb => hfg ha hb
    | single hb => exact List.Forall₂.any_eq has fun ha => hfg ha hb
  | single ha =>
    cases hb with
    | members hbs => exact List.Forall₂.any_eq hbs fun hb => hfg ha hb
    | single hb => exact hfg ha hb

theorem datumAlike (h : w.Holds st st') (differ : Bool) {a a' b b' : Datum} (ha : a.Alike w a')
    (hb : b.Alike w b') : Datum.alike st differ a b = Datum.alike st' differ a' b' := by
  simp only [Datum.alike, ha.isTruth, hb.isTruth, ha.isNumber, hb.isNumber, h.toBoolean ha, h.toBoolean hb,
    h.toDouble ha, h.toDouble hb, h.toText ha, h.toText hb]

theorem operandAlike (h : w.Holds st st') (differ : Bool) {a a' b b' : Operand} (ha : a.Alike w a')
    (hb : b.Alike w b') : Operand.alike st differ a b = Operand.alike st' differ a' b' := by
  have hr := relates (fun hx hy => h.datumAlike differ hx hy) ha hb
  cases ha with
  | members has =>
    have he := has.length_eq
    cases hb with
    | members _ => exact hr
    | single hb => cases hb <;> first | exact hr | (cases has <;> rfl)
  | single ha =>
    cases hb with
    | members hbs => cases ha <;> first | exact hr | (cases hbs <;> rfl)
    | single hb => cases ha <;> cases hb <;> exact hr

theorem inOrder (h : w.Holds st st') (test : Float → Float → Bool) {a a' b b' : Operand} (ha : a.Alike w a')
    (hb : b.Alike w b') : Operand.inOrder st test a b = Operand.inOrder st' test a' b' :=
  relates (fun hx hy => by simp only [h.toDouble hx, h.toDouble hy]) ha hb

/-- Alike operands compare alike. -/
theorem compareBy (h : w.Holds st st') (op : Operator) {a a' b b' : Operand} (ha : a.Alike w a')
    (hb : b.Alike w b') : Operand.compareBy st op a b = Operand.compareBy st' op a' b' := by
  cases op <;> simp only [Operand.compareBy, h.operandAlike _ ha hb, h.inOrder _ ha hb]

end World.Holds

/-! ## §C  Stages, cursors, values -/

/-- **Alike** stages have alike nodes and the same tests. -/
inductive Stage.Alike (w : World) : Stage → Stage → Prop
  | start {p q : Pointer} {ps qs : Option (List Pointer)} :
    p.Alike w q → Option.Rel (PointersAlike w) ps qs → Alike w (.start p ps) (.start q qs)
  | known {ps qs : List Pointer} (order : Order) :
    PointersAlike w ps qs → Alike w (.known ps order) (.known qs order)
  | axis (a : Axis) (t : NodeTest) {ps qs : Option (List Pointer)} :
    Option.Rel (PointersAlike w) ps qs → Alike w (.axis a t ps) (.axis a t qs)
  | condition (e : Expr) (positional done : Bool) :
    Alike w (.condition e positional done) (.condition e positional done)

/-- **Alike** frames have alike stages at the same position. -/
structure Frame.Alike (w : World) (f g : Frame) : Prop where
  stage : f.stage.Alike w g.stage
  position : f.position = g.position
  current : Option.Rel (Pointer.Alike w) f.current g.current
  progress : f.progress = g.progress
  sorted : Option.Rel (PointersAlike w) f.sorted g.sorted

/-- **Alike** lists of frames are alike one by one. -/
abbrev FramesAlike (w : World) : List Frame → List Frame → Prop := List.Forall₂ (Frame.Alike w)

/-- **Alike** cursors have alike frames. -/
structure Cursor.Alike (w : World) (c d : Cursor) : Prop where
  frame : c.frame.Alike w d.frame
  earlier : FramesAlike w c.earlier d.earlier

/-- **Alike** values are alike data, or alike node-sets. -/
inductive Value.Alike (w : World) : Value → Value → Prop
  | datum {d d' : Datum} : d.Alike w d' → Alike w (.datum d) (.datum d')
  | nodes {c d : Cursor} : c.Alike w d → Alike w (.nodes c) (.nodes d)

/-- Alikeness of what may be there. -/
theorem Option.Rel.imp {α β : Type} {R S : α → β → Prop} (h : ∀ {a b}, R a b → S a b) {a? : Option α}
    {b? : Option β} (hr : Option.Rel R a? b?) : Option.Rel S a? b? := by
  cases hr with
  | none => exact .none
  | some hr => exact .some (h hr)

theorem Stage.Alike.grow {s t : Stage} (hw : w.Grows w') (h : s.Alike w t) : s.Alike w' t := by
  cases h with
  | start hp hs => exact .start (hp.grow hw) (Option.Rel.imp (PointersAlike.grow hw) hs)
  | known order hs => exact .known order (PointersAlike.grow hw hs)
  | axis a t hs => exact .axis a t (Option.Rel.imp (PointersAlike.grow hw) hs)
  | condition e positional done => exact .condition e positional done

theorem Frame.Alike.grow {f g : Frame} (hw : w.Grows w') (h : f.Alike w g) : f.Alike w' g where
  stage := h.stage.grow hw
  position := h.position
  current := Option.Rel.imp (Pointer.Alike.grow hw) h.current
  progress := h.progress
  sorted := Option.Rel.imp (PointersAlike.grow hw) h.sorted

theorem Cursor.Alike.grow {c d : Cursor} (hw : w.Grows w') (h : c.Alike w d) : c.Alike w' d :=
  ⟨h.frame.grow hw, h.earlier.imp fun _ _ => Frame.Alike.grow hw⟩

theorem Value.Alike.grow {v v' : Value} (hw : w.Grows w') (h : v.Alike w v') : v.Alike w' v' := by
  cases h with
  | datum hd => exact .datum (hd.grow hw)
  | nodes hc => exact .nodes (hc.grow hw)

/-! ## §D  Cursors -/

theorem Stage.Alike.fresh {s t : Stage} (h : s.Alike w t) : (Frame.fresh s).Alike w (Frame.fresh t) :=
  ⟨h, rfl, .none, rfl, .none⟩

theorem Cursor.Alike.ofNodes {ps qs : List Pointer} (h : PointersAlike w ps qs) (order : Order) :
    (Cursor.ofNodes ps order).Alike w (Cursor.ofNodes qs order) := ⟨(Stage.Alike.known order h).fresh, .nil⟩

theorem Cursor.Alike.empty : Cursor.empty.Alike w Cursor.empty := .ofNodes .nil .unordered

theorem Cursor.Alike.push {c d : Cursor} (h : c.Alike w d) {s t : Stage} (hs : s.Alike w t) :
    (c.push s).Alike w (d.push t) := ⟨hs.fresh, .cons h.frame h.earlier⟩

theorem Cursor.Alike.pushConditions {c d : Cursor} (h : c.Alike w d) (es : List Expr) :
    (es.foldl Cursor.pushCondition c).Alike w (es.foldl Cursor.pushCondition d) := by
  induction es generalizing c d with
  | nil => exact h
  | cons e es ih => exact ih (h.push (.condition e _ false))

theorem Cursor.Alike.pushSteps {c d : Cursor} (h : c.Alike w d) (steps : List Step) :
    (c.pushSteps steps).Alike w (d.pushSteps steps) := by
  induction steps generalizing c d with
  | nil => exact h
  | cons s steps ih => exact ih ((h.push (.axis s.axis s.test .none)).pushConditions s.predicates)

theorem Stage.Alike.sortsNext {s t : Stage} (h : s.Alike w t) (order : Order) :
    Cursor.Stage.sortsNext s order = Cursor.Stage.sortsNext t order := by
  cases h with
  | axis a t _ => cases a <;> rfl
  | _ => rfl

theorem FramesAlike.orderOf {fs gs : List Frame} (h : FramesAlike w fs gs) :
    Cursor.orderOf fs = Cursor.orderOf gs := by
  induction h with
  | nil => rfl
  | @cons f g fs gs hf hs ih =>
    have hstage := hf.stage
    simp only [Cursor.orderOf]
    generalize f.stage = s, g.stage = t at hstage ⊢
    cases hstage with
    | start _ _ => rfl
    | known order _ => rfl
    | axis a t _ =>
      cases hs with
      | nil => cases a <;> rfl
      | cons hg _ => cases a <;> simp only [hg.stage.sortsNext, ih]
    | condition e positional done =>
      cases hs with
      | nil => rfl
      | cons hg _ => simp only [hg.stage.sortsNext, ih]

theorem Cursor.Alike.order {c d : Cursor} (h : c.Alike w d) : c.order = d.order :=
  FramesAlike.orderOf (.cons h.frame h.earlier)

theorem Stage.Alike.rewound {s t : Stage} (h : s.Alike w t) :
    (Cursor.Stage.rewound s).Alike w (Cursor.Stage.rewound t) := by
  cases h with
  | start hp hs => exact .start hp hs
  | known order hs => exact .known order hs
  | axis a t _ => exact .axis a t .none
  | condition e positional _ => exact .condition e positional false

theorem Frame.Alike.rewound {f g : Frame} (h : f.Alike w g) :
    (Cursor.Frame.rewound f).Alike w (Cursor.Frame.rewound g) :=
  ⟨h.stage.rewound, rfl, .none, h.progress, h.sorted⟩

theorem FramesAlike.rewoundFrames {fs gs : List Frame} (h : FramesAlike w fs gs) :
    FramesAlike w (Cursor.rewoundFrames fs) (Cursor.rewoundFrames gs) := by
  induction h with
  | nil => exact .nil
  | @cons f g fs gs hf hs ih =>
    have hstage := hf.stage
    have hr := hf.rewound
    simp only [Cursor.rewoundFrames]
    generalize f.stage = s, g.stage = t at hstage ⊢
    cases hstage with
    | condition e positional done => exact .cons hr ih
    | _ => exact .cons hr hs

theorem Cursor.Alike.rewound {c d : Cursor} (h : c.Alike w d) : c.rewound.Alike w d.rewound := by
  have hf := FramesAlike.rewoundFrames (.cons h.frame h.earlier)
  simp only [Cursor.rewound]
  generalize Cursor.rewoundFrames (c.frame :: c.earlier) = fs,
    Cursor.rewoundFrames (d.frame :: d.earlier) = gs at hf ⊢
  cases hf with
  | nil => exact h
  | cons hf hs => exact ⟨hf, hs⟩

theorem Cursor.Alike.restarted {c d : Cursor} (h : c.Alike w d) : c.restarted.Alike w d.restarted :=
  ⟨h.frame.stage.rewound.fresh,
    List.forall₂_map_left_iff.mpr (List.forall₂_map_right_iff.mpr
      (h.earlier.imp fun _ _ hf => hf.stage.rewound.fresh))⟩

end NodePath
