/-
# NodePath.Proofs.LocationPath — location paths mean what their steps say

The nodes that a location path delivers in a document are those that its steps lead to, one after the other:
`Surroundings.eager` says which these are, by lists alone, and `arranged` in which order they come. Nothing of how
a cursor finds them is left in that answer.

* §A  The cursor of a path.
* §B  All nodes of a path.
-/
import NodePath.Proofs.Documents

namespace NodePath

section

variable {st : Store} {root p : Pointer} {s : Surroundings}

/-! ## §A  Cursors -/

/-- The node that a path starts from. -/
def Context.startOf (c : Context) (absolute : Bool) : Pointer :=
  if absolute then c.rootPointer else c.contextPointer

/-- **The cursor of a path**, from where it starts. -/
def Cursor.ofPath (st : Store) (origin : Pointer) (steps : List Step) : Cursor := (Cursor.startAt st origin).pushSteps steps

theorem Evaluator.runOn_on {α : Type} (ev : Evaluator) (c : Cursor) (m : Motion → Walk α) (st : Store) :
    (ev.on c m).runOn st =
      (((m (c.motion ev.surroundings)).runOn c st).1, ((m (c.motion ev.surroundings)).runOn c st).2.2) := by
  have hhere : (ev.here m).runOn c st = (m (c.motion ev.surroundings)).runOn c st := by
    rw [Evaluator.here, Walk.moving, Walk.runOn_bind, Walk.runOn_cursor]
  rw [Evaluator.on, Walk.runOn_within, hhere]

theorem Setting.evaluatorTo_setting (s : Setting) (around : Surroundings) (depth : Nat) :
    (s.evaluatorTo around depth).setting = s := by
  induction depth with
  | zero => rfl
  | succ depth ih => exact ih

theorem Setting.evaluatorTo_surroundings (s : Setting) (around : Surroundings) (depth : Nat) :
    (s.evaluatorTo around depth).surroundings = around := by
  induction depth with
  | zero => rfl
  | succ depth ih => exact ih

/-- All cursors of a setting are moved in the same surroundings. -/
theorem Setting.runOn_on {α : Type} (s : Setting) (e : Expr) (c : Cursor) (m : Motion → Walk α) (st : Store) :
    ((s.evaluator e).on c m).runOn st =
      (((m (c.motion s.surroundings)).runOn c st).1, ((m (c.motion s.surroundings)).runOn c st).2.2) := by
  rw [Evaluator.runOn_on, Setting.evaluator, Setting.evaluatorTo_surroundings]

/-- Where a cursor at one node is, is that node. -/
theorem Motion.runOn_current_start (s : Surroundings) (origin : Pointer) :
    ((Motion.ofLength s 1).current).runOn ⟨.fresh (.start origin none), []⟩ st =
      (.ok (some origin), ⟨.fresh (.start origin none), []⟩, st) := by
  show (Walk.runOn (Motion.nodeHere s .still) _ _) = _
  rw [Motion.nodeHere, Walk.runOn_bind, Walk.runOn_frame]
  rfl

/-- The cursor of a path does not depend on the store in which it is made. -/
theorem Evaluator.runOn_locationPath (st st₁ : Store) (steps : List Step) {ev : Evaluator} {absolute : Bool} {r : JsonRef}
    (hstart : ev.context.startOf absolute = .json r) (s : Surroundings) :
    (ev.locationPath (.ofLength s 1) absolute steps).runOn (.startAt st ev.context.contextPointer) st₁ =
      (.ok (.ofPath st (.json r) steps), .startAt st ev.context.contextPointer, st₁) := by
  cases absolute with
  | true =>
    have hroot : ev.context.rootPointer = .json r := hstart
    rw [Evaluator.locationPath, if_pos rfl, Walk.runOn_bind, Walk.runOn_pure, hroot]
    rfl
  | false =>
    have hcontext : ev.context.contextPointer = .json r := hstart
    have hstage : Cursor.startAt st ev.context.contextPointer = ⟨.fresh (.start (.json r) none), []⟩ := by
      rw [hcontext]
      rfl
    rw [Evaluator.locationPath, if_neg Bool.false_ne_true, Walk.runOn_bind, hstage, Motion.runOn_current_start]
    rfl

theorem Setting.runOn_start (s : Setting) :
    s.start.runOn st = (.ok (.startAt st s.context.contextPointer), st) := rfl

theorem Setting.runOn_locationPath (st st₁ : Store) (steps : List Step) {s : Setting} {absolute : Bool} {r : JsonRef}
    (hstart : s.context.startOf absolute = .json r) (inner : Surroundings) (depth : Nat) (around : Surroundings) :
    ((s.evaluatorTo inner depth).locationPath (.ofLength around 1) absolute steps).runOn
        (.startAt st s.context.contextPointer) st₁ =
      (.ok (.ofPath st (.json r) steps), .startAt st s.context.contextPointer, st₁) := by
  have hcontext : (s.evaluatorTo inner depth).context = s.context := by
    rw [Evaluator.context, Setting.evaluatorTo_setting]
  have hpath := Evaluator.runOn_locationPath st st₁ steps (hcontext ▸ hstart) around
  rwa [hcontext] at hpath

/-- The lazy value of a path is its cursor, at any depth. -/
theorem Setting.runOn_lazyTo_path (st st₁ : Store) {s : Setting} {absolute : Bool} {steps : List Step} {r : JsonRef}
    (hstart : s.context.startOf absolute = .json r) (inner : Surroundings) (depth : Nat) (around : Surroundings) :
    ((s.evaluatorTo inner (depth + 1)).lazy (.ofLength around 1) (.path absolute steps)).runOn
        (.startAt st s.context.contextPointer) st₁ =
      (.ok (.nodes (.ofPath st (.json r) steps)), .startAt st s.context.contextPointer, st₁) := by
  show Walk.runOn (Value.nodes <$> _) _ _ = _
  rw [Walk.runOn_map, Setting.runOn_locationPath st st₁ steps hstart]
  rfl

theorem Setting.runOn_lazy_path {s : Setting} {absolute : Bool} {steps : List Step} {r : JsonRef}
    (hstart : s.context.startOf absolute = .json r) (around : Surroundings) :
    (((s.evaluator (.path absolute steps)).lazy (.ofLength around 1) (.path absolute steps)).runOn
      (.startAt st s.context.contextPointer) st) =
        (.ok (.nodes (.ofPath st (.json r) steps)), .startAt st s.context.contextPointer, st) :=
  Setting.runOn_lazyTo_path st st hstart _ _ around

theorem Cursor.motion_startAt (st : Store) (p : Pointer) (s : Surroundings) :
    (Cursor.startAt st p).motion s = .ofLength s 1 := rfl

/-- **A path comes to its cursor**, and pulls nothing. -/
theorem Setting.runOn_compute_path {s : Setting} {absolute : Bool} {steps : List Step} {r : JsonRef}
    (hstart : s.context.startOf absolute = .json r) :
    (s.compute (.path absolute steps)).runOn st = (.ok (.nodes (.ofPath st (.json r) steps)), st) := by
  rw [Setting.compute, Eval.runOn_bind, Setting.runOn_start]
  dsimp only
  rw [Setting.runOn_on, Cursor.motion_startAt, Setting.runOn_lazy_path hstart]

/-- An expression comes to the datum that its value is. -/
theorem Setting.runOn_glanceValue {s : Setting} {e : Expr} {d : Datum} {c : Cursor} {st' : Store}
    (h : ∀ around, ((s.evaluator e).value (.ofLength around 1) e).runOn (.startAt st s.context.contextPointer) st =
      (.ok (.datum d), c, st')) : (s.glanceValue e).runOn st = (.ok d, st') := by
  have hcompute : (s.computeValue e).runOn st = (.ok (.datum d), st') := by
    rw [Setting.computeValue, Eval.runOn_bind, Setting.runOn_start]
    dsimp only
    rw [Setting.runOn_on, Cursor.motion_startAt, h]
  rw [Setting.glanceValue, Eval.runOn_bind, hcompute]
  rfl

/-- **The cursor of a path in a document** delivers sets that are, all together, what the steps lead to. -/
theorem IsDocument.delivers (h : IsDocument st root) (hs : Grounded st s) {r : JsonRef}
    (hstart : .json r ∈ root.listing st) (steps : List Step) :
    ∃ sets, (Cursor.ofPath st (.json r) steps).Delivers st s (· ∈ root.listing st) sets ∧
      sets.flatten = s.eager st steps [.json r] := by
  have hchart := h.charted hs
  have hdelivers : (Cursor.startAt st (.json r)).Delivers st s (· ∈ root.listing st) [[.json r]] := by
    refine Cursor.Delivers.known hs hchart.realm rfl (fun w hw => ?_) (by simpa using hstart)
      (show 1 ≤ Number.exactBound by decide)
    exact .start (hchart.realm.alike hstart hw) .none
  exact hdelivers.pushSteps hs hchart.realm steps

/-! ## §B  All nodes -/

/-- What the cursor of a path delivers, up to the end and without an error. -/
theorem IsDocument.of_deliverRest (h : IsDocument st root) (hs : Grounded st s) {r : JsonRef}
    (hstart : .json r ∈ root.listing st) {steps : List Step} {st₁ st' : Store} (hst : st.Extends st₁)
    {nodes : List Pointer} {c' : Cursor}
    (hrun : ((Cursor.ofPath st (.json r) steps).motion s).deliverRest.runOn (.ofPath st (.json r) steps) st₁ =
      (.ok (nodes, none), c', st')) :
    st.Extends st' ∧
      nodes = arranged (root.listing st) (Cursor.ofPath st (.json r) steps).order (s.eager st steps [.json r]) := by
  obtain ⟨sets, hdelivers, hsets⟩ := h.delivers hs hstart steps
  obtain ⟨stands, htraverses, hc⟩ := hdelivers.traverses
  have hmem : ∀ p ∈ sets.flatten, p ∈ root.listing st := fun p hp => hdelivers.covers.mem_flatten hp
  rw [← hsets]
  exact (htraverses.deliverRest (h.charted hs) hmem hc hst hrun).imp_left hst.trans

/-- The store in which a text has been compiled. -/
def Store.compiled (st : Store) (text : String) : Store := { st with engine := (st.engine.compile text).2 }

/-- A text is compiled and then used. -/
theorem Reading.runOn_withText {α : Type} {text : String} {e : Expr} (hsound : st.engine.Sound)
    (htext : Expr.parse text = .ok e) (use : Expr → Eval α) :
    (Reading.withText text use).runOn st =
      (((use e).runOn (st.compiled text)).1.mapError (·.atPath text), ((use e).runOn (st.compiled text)).2) := by
  have hcompile : (compileText text).runOn st = (.ok e, st.compiled text) := by
    rw [runOn_compileText, (hsound.compile text).1, htext]
    rfl
  rw [Reading.withText, Eval.atPath, Eval.runOn_tryCatch, Eval.runOn_bind, hcompile]
  dsimp only
  rcases (use e).runOn (st.compiled text) with ⟨r, st'⟩
  cases r <;> rfl

/-- All nodes of an expression that is a path are those that its cursor delivers. -/
theorem Setting.runOn_pointers_path {s : Setting} {absolute : Bool} {steps : List Step} {r : JsonRef}
    (hstart : s.context.startOf absolute = .json r) :
    (s.pointers (.path absolute steps)).runOn st =
      ((s.evaluator (.path absolute steps)).on (.ofPath st (.json r) steps) Motion.deliverRest).runOn st := by
  rw [Setting.pointers, Eval.runOn_bind, Setting.runOn_compute_path hstart]

/-- All that an iteration delivers, without an error, comes from the cursor of the path. -/
theorem Context.deliverRest_of_iteratePointers {c : Context} {host : Host} {text : String} {absolute : Bool}
    {steps : List Step} {r : JsonRef} {nodes : List Pointer} {st' : Store} (hc : c.Settled host st)
    (hr : c.startOf absolute = .json r) (htext : Expr.parse text = .ok (.path absolute steps))
    (hrun : (c.iteratePointers host text).runOn st = (.ok (nodes, none), st')) :
    ∃ c', ((Cursor.ofPath st (.json r) steps).motion (c.surroundings host)).deliverRest.runOn
      (.ofPath st (.json r) steps) (st.compiled text) = (.ok (nodes, none), c', st') := by
  have hsetting : (c.setting host).context.startOf absolute = .json r := hr
  have hcursor : Cursor.ofPath (st.compiled text) (.json r) steps = .ofPath st (.json r) steps := rfl
  rw [Context.iteratePointers, Reading.runOn_withText hc.sound htext, Eval.runOn_bind,
    Setting.runOn_pointers_path hsetting, Setting.runOn_on, hcursor] at hrun
  generalize hall : (Motion.deliverRest _).runOn _ (st.compiled text) = all at hrun
  obtain ⟨delivered, c', st₂⟩ := all
  cases delivered with
  | error e => cases hrun
  | ok d =>
    obtain ⟨ps, e?⟩ := d
    cases e? with
    | some e => cases hrun
    | none =>
      cases hrun
      exact ⟨c', hall⟩

/-- An iteration that finds all nodes only adds to the store, and finds what the steps lead to. -/
theorem IsDocument.of_iteratePointers {c : Context} {host : Host} {text : String} {absolute : Bool} {steps : List Step}
    {nodes : List Pointer} {st' : Store} (hroot : IsDocument st root) (hc : c.Settled host st)
    (hstart : c.startOf absolute ∈ root.listing st) (htext : Expr.parse text = .ok (.path absolute steps))
    (hrun : (c.iteratePointers host text).runOn st = (.ok (nodes, none), st')) :
    st.Extends st' ∧ nodes = arranged (root.listing st) (Cursor.ofPath st (c.startOf absolute) steps).order
      ((c.surroundings host).eager st steps [c.startOf absolute]) := by
  obtain ⟨r, hr, -⟩ := hroot.place hstart
  obtain ⟨c', hall⟩ := Context.deliverRest_of_iteratePointers hc hr htext hrun
  rw [hr] at hstart ⊢
  exact hroot.of_deliverRest (hc.grounded) hstart ((Store.Extends.refl hc.sound).compile text) hall

/-- What the steps of a path lead to is in the document. -/
theorem IsDocument.mem_of_mem_eager (h : IsDocument st root) (hs : Grounded st s) {r : JsonRef} {steps : List Step}
    (hstart : .json r ∈ root.listing st) (hp : p ∈ s.eager st steps [.json r]) : p ∈ root.listing st := by
  obtain ⟨sets, hdelivers, hsets⟩ := h.delivers hs hstart steps
  exact hdelivers.covers.mem_flatten (hsets ▸ hp)

/-- An iteration has the nodes that the steps lead to. -/
theorem IsDocument.mem_iteratePointers {c : Context} {host : Host} {text : String} {absolute : Bool}
    {steps : List Step} {nodes : List Pointer} {st' : Store} (hroot : IsDocument st root) (hc : c.Settled host st)
    (hstart : c.startOf absolute ∈ root.listing st)
    (htext : Expr.parse text = .ok (.path absolute steps))
    (hrun : (c.iteratePointers host text).runOn st = (.ok (nodes, none), st')) :
    p ∈ nodes ↔ p ∈ (c.surroundings host).eager st steps [c.startOf absolute] := by
  obtain ⟨r, hr, -⟩ := hroot.place hstart
  have hs := hc.grounded
  rw [(hroot.of_iteratePointers hc hstart htext hrun).2]
  rw [hr] at hstart ⊢
  exact (hroot.charted hs).mem_arranged fun q hq => hroot.mem_of_mem_eager hs hstart hq

/-- The nodes that an iteration has are in the document. -/
theorem IsDocument.mem_of_iteratePointers {c : Context} {host : Host} {text : String} {absolute : Bool}
    {steps : List Step} {nodes : List Pointer} {st' : Store} (hroot : IsDocument st root) (hc : c.Settled host st)
    (hstart : c.startOf absolute ∈ root.listing st) (htext : Expr.parse text = .ok (.path absolute steps))
    (hrun : (c.iteratePointers host text).runOn st = (.ok (nodes, none), st')) (hp : p ∈ nodes) :
    p ∈ root.listing st := by
  have hreached := (hroot.mem_iteratePointers hc hstart htext hrun).mp hp
  obtain ⟨r, hr, -⟩ := hroot.place hstart
  rw [hr] at hstart hreached
  exact hroot.mem_of_mem_eager hc.grounded hstart hreached

/-- **Location paths mean what their steps say**: the nodes that a path delivers in a document, when no error
comes up, are those that its steps lead to from its start, in the order of its last stage. No error does come up when
all predicates can be judged (`IsDocument.runOn_iteratePointers`). -/
theorem iteratePointers_eq_eager {c : Context} {host : Host} {text : String} {absolute : Bool} {steps : List Step}
    {nodes : List Pointer} {st' : Store} (hc : c.Settled host st) (hroot : IsDocument st root)
    (hstart : c.startOf absolute ∈ root.listing st) (htext : Expr.parse text = .ok (.path absolute steps))
    (hrun : (c.iteratePointers host text).runOn st = (.ok (nodes, none), st')) :
    nodes = arranged (root.listing st) (Cursor.ofPath st (c.startOf absolute) steps).order
      ((c.surroundings host).eager st steps [c.startOf absolute]) :=
  (hroot.of_iteratePointers hc hstart htext hrun).2

/-- What an iteration delivers, when no error comes up. -/
def iterated? (c : Context) (host : Host) (text : String) (st : Store) : Option (List Pointer) :=
  match (c.iteratePointers host text).runOn st with
  | (.ok (nodes, none), _) => some nodes
  | _ => none

theorem runOn_of_iterated? {c : Context} {host : Host} {text : String} {nodes : List Pointer}
    (h : iterated? c host text st = some nodes) :
    ∃ st', (c.iteratePointers host text).runOn st = (.ok (nodes, none), st') := by
  unfold iterated? at h
  split at h
  · cases h
    exact ⟨_, by assumption⟩
  · cases h

/-- A document with two objects in an array. -/
def twinDocument : Json := .object [("a", .array [.object [("b", .int 1)], .object [("b", .int 2)]])]

theorem isDocument_twin : IsDocument (.holding twinDocument) .firstTop :=
  isDocument_firstTop (by decide +kernel) (by decide +kernel)

theorem firstTop_mem_listing (st : Store) : Pointer.firstTop ∈ Pointer.firstTop.listing st := by
  unfold Pointer.listing
  cases Pointer.firstTop.levelsBelow st <;> exact List.mem_cons_self

/-- The last of two objects is the one whose member a path with a predicate delivers. -/
theorem iteratePointers_eq_eager_twin :
    ∃ nodes st', (Context.atTop.iteratePointers stockHost "a[last()]/b").runOn (.holding twinDocument) =
        (.ok (nodes, none), st') ∧
      nodes.map (·.pathText (.holding twinDocument)) = ["/a[2]/b"] ∧
      nodes = (Context.atTop.surroundings stockHost).eager
        (.holding twinDocument) [⟨.child, .name (.plain "a"), [.core .last []]⟩, ⟨.child, .name (.plain "b"), []⟩]
        [.firstTop] := by
  have hpaths : (iterated? .atTop stockHost "a[last()]/b" (.holding twinDocument)).map
      (·.map (·.pathText (.holding twinDocument))) = some ["/a[2]/b"] := by decide +kernel
  obtain ⟨nodes, hnodes, hpaths⟩ := Option.map_eq_some_iff.mp hpaths
  obtain ⟨st', hrun⟩ := runOn_of_iterated? hnodes
  have htext : Expr.parse "a[last()]/b" = .ok (.path false [⟨.child, .name (.plain "a"), [.core .last []]⟩,
      ⟨.child, .name (.plain "b"), []⟩]) := by decide +kernel
  refine ⟨nodes, st', hrun, hpaths, ?_⟩
  exact iteratePointers_eq_eager (Context.settled_atTop _) isDocument_twin (firstTop_mem_listing _) htext hrun

end

end NodePath
