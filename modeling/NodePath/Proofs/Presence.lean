/-
# NodePath.Proofs.Presence — whether a path selects anything, and how much

A path is counted, listed, tested and read by different means: some take all nodes, some the first one only, some ask
whether that one is there, and some look at its value. All of them agree with an iteration on how many nodes there
are, which is what they are asked about and not what the nodes hold: a node whose value is null is there.

* §A  Truth values.
* §B  Listing values.
* §C  `TellsAbsence`: failing for want of a node.
* §D  All reads.
-/
import NodePath.Context.Write
import NodePath.Proofs.FirstNode
import NodePath.Proofs.Leniency
import NodePath.Proofs.NodeSet

namespace NodePath

section

variable {st st' : Store} {root : Pointer} {set : Setting} {text : String} {absolute : Bool} {steps : List Step}
variable {r : JsonRef} {nodes : List Pointer} {c : Context} {host : Host}

/-! ## §A  Truth values -/

/-- A node of a document is true, whatever it holds. -/
theorem IsDocument.toBoolean (h : IsDocument st root) {p : Pointer} (hp : p ∈ root.listing st) {st₁ : Store}
    (hst : st.Extends st₁) : (Datum.pointer p).toBoolean st₁ = true := by
  obtain ⟨hactual, -, -⟩ := h.opened hp hst
  obtain ⟨r, rfl, -⟩ := h.place hp
  have hfollow : (Pointer.json r).follow st₁ = .json r := by simp [Pointer.follow, Pointer.followFrom, Pointer.opening]
  simpa [Datum.toBoolean, hfollow, Pointer.isVariable] using hactual

/-- So whether a first node is true is whether there is one: without one, the truth value is that of null. -/
theorem IsDocument.toBoolean_ofNode (h : IsDocument st root) {p? : Option Pointer}
    (hmem : ∀ p, p? = some p → p ∈ root.listing st) {st₁ : Store} (hst : st.Extends st₁) :
    (Call.ofNode p?).toBoolean st₁ = p?.isSome := by
  cases p? with
  | none => rfl
  | some p => exact h.toBoolean (hmem p rfl) hst

/-- The truth value of a node-set is that of its first node, or false without one. -/
theorem Evaluator.runOn_truth {ev : Evaluator} {m : Motion} {e : Expr} {c c' d : Cursor} {st st' st'' : Store}
    {p? : Option Pointer} (hlazy : (ev.lazy m e).runOn c st = (.ok (.nodes d), c', st'))
    (hfirst : (ev.first d).runOn st' = (.ok p?, st'')) :
    (ev.truth m e).runOn c st = (.ok ((Call.ofNode p?).toBoolean st''), c', st'') := by
  have hof : (ev.firstOf (.nodes d)).runOn st' = (.ok (Call.ofNode p?), st'') := by
    rw [Evaluator.firstOf, Eval.runOn_bind, hfirst]
    rfl
  have hoperand : (ev.operand m e).runOn c st = (.ok (Call.ofNode p?), c', st'') := by
    rw [Evaluator.operand, Walk.runOn_bind, hlazy]
    dsimp only
    rw [Walk.runOn_monadLift, hof]
  rw [Evaluator.truth, Walk.runOn_bind, hoperand]
  dsimp only
  rw [Walk.runOn_bind, Walk.runOn_store]
  rfl

/-- A core function of one operand that only looks at its truth value. -/
inductive Judges : CoreFunction → (Bool → Bool) → Prop
  | boolean : Judges .boolean id
  | not : Judges .not (!·)

theorem Judges.runOn_callCore {f : CoreFunction} {judge : Bool → Bool} (h : Judges f judge) {ev : Evaluator} {m : Motion}
    {e : Expr} {c c' : Cursor} {st st' : Store} {b : Bool} (htruth : (ev.truth m e).runOn c st = (.ok b, c', st')) :
    (ev.callCore m f [e]).runOn c st = (.ok (.datum (.boolean (judge b))), c', st') := by
  cases h with
  | boolean =>
    have htakes : CoreFunction.boolean.takes [e].length = true := rfl
    rw [Evaluator.callCore, if_pos htakes, Evaluator.coreValue, Walk.runOn_bind, htruth]
    rfl
  | not =>
    have htakes : CoreFunction.not.takes [e].length = true := rfl
    rw [Evaluator.callCore, if_pos htakes, Evaluator.coreValue, Walk.runOn_bind, htruth]
    rfl

/-- The truth value of a path, as it is read. -/
theorem Judges.runOn_readValue {f : CoreFunction} {judge : Bool → Bool} (h : Judges f judge)
    (hstart : set.context.startOf absolute = .json r) {p? : Option Pointer}
    (hfirst : ((set.evaluator (.path absolute steps)).first (.ofPath st (.json r) steps)).runOn st = (.ok p?, st')) :
    (set.readValue text (.core f [.path absolute steps])).runOn st =
      (.ok (.boolean (judge ((Call.ofNode p?).toBoolean st'))), st') := by
  have hglance : (set.glanceValue (.core f [.path absolute steps])).runOn st =
      (.ok (.boolean (judge ((Call.ofNode p?).toBoolean st'))), st') :=
    Setting.runOn_glanceValue fun around =>
      h.runOn_callCore (Evaluator.runOn_truth (Setting.runOn_lazy_path hstart around) hfirst)
  rw [Setting.readValue, Eval.runOn_bind, hglance]
  rfl

/-! ## §B  Values -/

/-- All values of a path are those of the nodes that its cursor delivers. -/
theorem Setting.runOn_values_path (hstart : set.context.startOf absolute = .json r) {error? : Option EvalError}
    (hall : (set.pointers (.path absolute steps)).runOn st = (.ok (nodes, error?), st')) :
    (set.values (.path absolute steps)).runOn st = (.ok (nodes.map (·.openedValue st'), error?), st') := by
  rw [Setting.runOn_pointers_path hstart] at hall
  rw [Setting.values, Eval.runOn_bind, Setting.runOn_compute_path hstart]
  dsimp only
  rw [Eval.runOn_bind, hall]
  rfl

/-- **The values of an iteration** are those of the nodes that it finds. -/
theorem IsDocument.runOn_iterate (hroot : IsDocument st root) (hc : c.Settled host st)
    (hstart : c.startOf absolute ∈ root.listing st) (htext : Expr.parse text = .ok (.path absolute steps))
    (hrun : (c.iteratePointers host text).runOn st = (.ok (nodes, none), st')) :
    (c.iterate host text).runOn st = (.ok (nodes.map (·.openedValue st), none), st') := by
  obtain ⟨hst', -⟩ := hroot.of_iteratePointers hc hstart htext hrun
  have hvalues : nodes.map (·.openedValue st') = nodes.map (·.openedValue st) :=
    List.map_congr_left fun p hp => (hroot.opened (hroot.mem_of_iteratePointers hc hstart htext hrun hp) hst').2.2
  obtain ⟨r, hr, -⟩ := hroot.place hstart
  have hsetting : (c.setting host).context.startOf absolute = .json r := hr
  obtain ⟨c', hall⟩ := Context.deliverRest_of_iteratePointers hc hr htext hrun
  have hpointers : ((c.setting host).pointers (.path absolute steps)).runOn (st.compiled text) =
      (.ok (nodes, none), st') := by
    rw [Setting.runOn_pointers_path hsetting, Setting.runOn_on]
    exact congrArg (fun run => (run.1, run.2.2)) hall
  rw [Context.iterate, Reading.runOn_withText hc.sound htext, Eval.runOn_bind,
    Setting.runOn_values_path hsetting hpointers, hvalues]
  rfl

/-! ## §C  Absence -/

/-- **TellsAbsence** says that an outcome is the failure to find anything for a text exactly if `nothing` holds. -/
structure TellsAbsence {α : Type} (text : String) (nothing : Prop) (r : Except EvalError α) : Prop where
  absent : nothing → r = .error (.notFound text)
  present : ∀ path, r = .error (.notFound path) → nothing

namespace TellsAbsence

variable {α : Type} {nothing : Prop} {outcome : Except EvalError α}

theorem of_absent (hnothing : nothing) (h : outcome = .error (.notFound text)) : TellsAbsence text nothing outcome :=
  ⟨fun _ => h, fun _ _ => hnothing⟩

/-- Where there is something, all failures are other ones. -/
theorem of_present (hnothing : ¬nothing) (h : ∀ e, outcome = .error e → e.isAbsence = false) :
    TellsAbsence text nothing outcome :=
  ⟨fun hn => absurd hn hnothing, fun path hpath => absurd (h _ hpath) (by simp [EvalError.isAbsence])⟩

theorem of_ok (hnothing : ¬nothing) {a : α} (h : outcome = .ok a) : TellsAbsence text nothing outcome :=
  of_present hnothing fun e he => by rw [h] at he; cases he

end TellsAbsence

/-- An error that a text is attached to says no more that something is absent than it did before. -/
theorem EvalError.isAbsence_atPath (e : EvalError) (text : String) : (e.atPath text).isAbsence = e.isAbsence := by
  cases e <;> rfl

theorem isAbsence_of_mapError {α : Type} {outcome : Except EvalError α} {e : EvalError}
    (hoccurs : ∀ e, outcome = .error e → e.isAbsence = false) (h : outcome.mapError (·.atPath text) = .error e) :
    e.isAbsence = false := by
  cases outcome with
  | ok a => cases h
  | error cause =>
    cases h
    rw [EvalError.isAbsence_atPath]
    exact hoccurs cause rfl

/-- A change of a document fails for no other reason than the change itself. -/
theorem Pointer.isAbsence_of_editDocument {α : Type} {edit : Json → Except EvalError (Json × α)} {e : EvalError}
    (hedit : ∀ root e, edit root = .error e → e.isAbsence = false)
    (h : ((Pointer.editDocument r edit).runOn st).1 = .error e) : e.isAbsence = false := by
  rw [Pointer.editDocument, Eval.runOn_bind, Eval.runOn_get] at h
  dsimp only at h
  cases hresult : edit ((st.document? r.doc).getD .null) with
  | error cause =>
    rw [hresult] at h
    cases h
    exact hedit _ _ hresult
  | ok changed =>
    rw [hresult] at h
    cases h

/-- A node of a document may refuse to be removed, but never for want of a node. -/
theorem Pointer.isAbsence_of_remove {e : EvalError} (h : ((Pointer.json r).remove.runOn st).1 = .error e) :
    e.isAbsence = false := by
  have hedit : ((Pointer.editDocument r fun root => (r.remove root).map (·, ())).runOn st).1 = .error e := h
  refine Pointer.isAbsence_of_editDocument (fun root cause hcause => ?_) hedit
  cases hremove : r.remove root with
  | error cause' =>
    rw [hremove] at hcause
    cases hcause
    exact JsonRef.remove_usual hremove
  | ok root' =>
    rw [hremove] at hcause
    cases hcause

/-- And so may it refuse a value. -/
theorem Pointer.isAbsence_of_setValue {d : Datum} {e : EvalError}
    (h : (((Pointer.json r).setValue d).runOn st).1 = .error e) : e.isAbsence = false := by
  have hedit : ((Pointer.editDocument r fun root => (r.setValue (d.toJson st) root).map (·, ())).runOn st).1 = .error e := h
  refine Pointer.isAbsence_of_editDocument (fun root cause hcause => ?_) hedit
  rw [JsonRef.setValue] at hcause
  split at hcause
  · cases hcause
  · cases hcause
    rfl

/-! ## §D  All reads -/

/-- What is done to the node that a path reads. -/
theorem Setting.runOn_removeOne_path (hstart : set.context.startOf absolute = .json r) {p : Pointer}
    (hfirst : ((set.evaluator (.path absolute steps)).first (.ofPath st (.json r) steps)).runOn st =
      (.ok (some p), st')) (hactual : p.isActual st' = true) :
    (set.removeOne text (.path absolute steps)).runOn st = p.remove.runOn st' := by
  rw [Setting.removeOne, Eval.runOn_bind, Setting.runOn_readPointer_path hstart hfirst hactual]
  dsimp only
  rw [Eval.runOn_bind, Eval.runOn_get]
  dsimp only
  rw [if_pos hactual]

theorem Setting.runOn_assign_path (hstart : set.context.startOf absolute = .json r) {p : Pointer} (d : Datum)
    (hfirst : ((set.evaluator (.path absolute steps)).first (.ofPath st (.json r) steps)).runOn st =
      (.ok (some p), st')) (hactual : p.isActual st' = true) :
    (set.assign text d (.path absolute steps)).runOn st = (p.setValue d).runOn st' := by
  rw [Setting.assign, Eval.runOn_bind, Setting.runOn_readPointer_path hstart hfirst hactual]
  dsimp only
  rw [Eval.runOn_bind, Eval.runOn_get]
  dsimp only
  rw [if_pos hactual]

/-- **Where a path selects nothing**, whoever reads it in a strict context is told so. -/
theorem Context.notFound_of_none (hc : c.Settled host st) (hr : c.startOf absolute = .json r)
    (hstrict : c.isLenient = false) (htext : Expr.parse text = .ok (.path absolute steps))
    (hread : (((c.setting host).evaluator (.path absolute steps)).first
      (.ofPath (st.compiled text) (.json r) steps)).runOn (st.compiled text) = (.ok none, st')) :
    ((c.getPointer host text).runOn st).1 = .error (.notFound text) ∧
      ((c.getValue host text).runOn st).1 = .error (.notFound text) ∧
      ((c.removePath host text).runOn st).1 = .error (.notFound text) ∧
      ∀ d, ((c.setValue host text d).runOn st).1 = .error (.notFound text) := by
  have hsetting : (c.setting host).context.startOf absolute = .json r := hr
  have hpointer : ((c.setting host).readPointer text (.path absolute steps)).runOn (st.compiled text) =
      (.error (.notFound text), st') := by
    rw [Setting.runOn_readPointer_absent hsetting hread]
    show (if c.isLenient then _ else _, _) = _
    rw [hstrict]
    rfl
  refine ⟨?_, ?_, ?_, fun d => ?_⟩
  · rw [Context.getPointer, Reading.runOn_withText hc.sound htext, hpointer]
    rfl
  · rw [Context.getValue, Reading.runOn_withText hc.sound htext, Setting.readValue, Eval.runOn_bind,
      Setting.runOn_glanceValue_path hsetting hread]
    show Except.mapError _ ((if c.isLenient then _ else _ : Eval Datum).runOn st').1 = _
    rw [hstrict]
    rfl
  · rw [Context.removePath, Reading.runOn_withText hc.sound htext, Setting.removeOne, Eval.runOn_bind, hpointer]
    rfl
  · rw [Context.setValue, Reading.runOn_withText hc.sound htext, Setting.assign, Eval.runOn_bind, hpointer]
    rfl

/-- **Whoever reads, removes or sets the first node** in a strict context tells whether there is one. -/
theorem Context.tellsAbsence (hc : c.Settled host st) (hroot : IsDocument st root) (hr : c.startOf absolute = .json r)
    (hstrict : c.isLenient = false) (htext : Expr.parse text = .ok (.path absolute steps)) {p? : Option Pointer}
    (hmem : ∀ p, p? = some p → p ∈ root.listing st) (hst : st.Extends st')
    (hread : (((c.setting host).evaluator (.path absolute steps)).first
      (.ofPath (st.compiled text) (.json r) steps)).runOn (st.compiled text) = (.ok p?, st')) :
    TellsAbsence text (p? = none) ((c.getPointer host text).runOn st).1 ∧
      TellsAbsence text (p? = none) ((c.getValue host text).runOn st).1 ∧
      TellsAbsence text (p? = none) ((c.removePath host text).runOn st).1 ∧
      ∀ d, TellsAbsence text (p? = none) ((c.setValue host text d).runOn st).1 := by
  have hsetting : (c.setting host).context.startOf absolute = .json r := hr
  cases p? with
  | none =>
    obtain ⟨hpointer, hvalue, hremove, hset⟩ := Context.notFound_of_none hc hr hstrict htext hread
    exact ⟨.of_absent rfl hpointer, .of_absent rfl hvalue, .of_absent rfl hremove, fun d => .of_absent rfl (hset d)⟩
  | some p =>
    -- There is a node: it is read, and an edit of it that fails says so for another reason.
    have hsome : some p ≠ none := Option.some_ne_none p
    obtain ⟨hactual, hopened, -⟩ := hroot.opened (hmem p rfl) hst
    obtain ⟨q, rfl, -⟩ := hroot.place (hmem p rfl)
    refine ⟨.of_ok hsome (a := some (.json q)) ?_, .of_ok hsome (a := (Pointer.json q).openedValue st') ?_,
      .of_present hsome fun e he => ?_, fun d => .of_present hsome fun e he => ?_⟩
    · rw [Context.getPointer, Reading.runOn_withText hc.sound htext,
        Setting.runOn_readPointer_path hsetting hread hactual]
      rfl
    · rw [Context.getValue, Reading.runOn_withText hc.sound htext, Setting.runOn_readValue_path hsetting hread hopened]
      rfl
    · rw [Context.removePath, Reading.runOn_withText hc.sound htext,
        Setting.runOn_removeOne_path hsetting hread hactual] at he
      exact isAbsence_of_mapError (fun _ => Pointer.isAbsence_of_remove) he
    · rw [Context.setValue, Reading.runOn_withText hc.sound htext,
        Setting.runOn_assign_path hsetting d hread hactual] at he
      exact isAbsence_of_mapError (fun _ => Pointer.isAbsence_of_setValue) he

/-- **All reads agree** on whether a path selects anything, and on how much. When an iteration comes to its end, the
count is how many nodes it found, and the values are those of these nodes in the same order; the path is true if there
are any; and in a strict context, whoever reads, removes or sets a single node fails to find it if there are none, and
in no other case. -/
theorem reads_agree {counting truth denial : String} (hc : c.Settled host st) (hroot : IsDocument st root)
    (hstart : c.startOf absolute ∈ root.listing st) (htext : Expr.parse text = .ok (.path absolute steps))
    (hcounting : Expr.parse counting = .ok (.core .count [.path absolute steps]))
    (htruth : Expr.parse truth = .ok (.core .boolean [.path absolute steps]))
    (hdenial : Expr.parse denial = .ok (.core .not [.path absolute steps]))
    (hrun : (c.iteratePointers host text).runOn st = (.ok (nodes, none), st')) :
    ((c.getValue host counting).runOn st).1 = .ok (.number (Number.ofNat nodes.length)) ∧
      ((c.iterate host text).runOn st).1 = .ok (nodes.map (·.openedValue st), none) ∧
      ((c.selectNodes host text).runOn st).1 = .ok (nodes.map (·.openedValue st)) ∧
      ((c.getValue host truth).runOn st).1 = .ok (.boolean !nodes.isEmpty) ∧
      ((c.getValue host denial).runOn st).1 = .ok (.boolean nodes.isEmpty) ∧
      (c.isLenient = false →
        TellsAbsence text (nodes = []) ((c.getPointer host text).runOn st).1 ∧
        TellsAbsence text (nodes = []) ((c.getValue host text).runOn st).1 ∧
        TellsAbsence text (nodes = []) ((c.removePath host text).runOn st).1 ∧
        ∀ d, TellsAbsence text (nodes = []) ((c.setValue host text d).runOn st).1) := by
  have hmem := fun q => hroot.mem_iteratePointers (p := q) hc hstart htext hrun
  have hplace := fun q (hq : q ∈ nodes) => hroot.mem_of_iteratePointers hc hstart htext hrun hq
  have hcount := hroot.runOn_getValue_count hc hstart htext hcounting hrun
  have hiterate := hroot.runOn_iterate hc hstart htext hrun
  have hselect := hroot.runOn_selectNodes hc hstart htext hrun
  obtain ⟨r, hr, -⟩ := hroot.place hstart
  have hsetting : (c.setting host).context.startOf absolute = .json r := hr
  rw [hr] at hstart hmem
  have hfirst := hroot.runOn_first_of_iteratePointers hc hr hstart htext hrun
  have hempty : ((c.surroundings host).eager st steps [.json r]).head? = none ↔ nodes = [] := by
    rw [List.head?_eq_none_iff, List.eq_nil_iff_forall_not_mem, List.eq_nil_iff_forall_not_mem]
    exact forall_congr' fun q => not_congr (hmem q).symm
  have hhead : ∀ p, ((c.surroundings host).eager st steps [.json r]).head? = some p → p ∈ nodes := fun p hp =>
    (hmem p).mpr (List.mem_of_mem_head? hp)
  -- What a single reading tells depends on the first node alone, so nothing else of the set is needed from here on.
  generalize ((c.surroundings host).eager st steps [.json r]).head? = p? at hfirst hempty hhead
  have hlisted : ∀ p, p? = some p → p ∈ root.listing st := fun p hp => hplace p (hhead p hp)
  have hsome : p?.isSome = !nodes.isEmpty := by
    rw [Bool.eq_iff_iff, Option.isSome_iff_ne_none, Ne, hempty]
    simp
  have hjudged : ∀ {f judge other}, Judges f judge → Expr.parse other = .ok (.core f [.path absolute steps]) →
      ((c.getValue host other).runOn st).1 = .ok (.boolean (judge !nodes.isEmpty)) := by
    intro f judge other hf hother
    obtain ⟨st₂, hst₂, hread⟩ := hfirst other
    rw [Context.getValue, Reading.runOn_withText hc.sound hother, hf.runOn_readValue hsetting hread,
      hroot.toBoolean_ofNode hlisted hst₂, hsome]
    rfl
  refine ⟨hcount, congrArg Prod.fst hiterate, congrArg Prod.fst hselect, hjudged .boolean htruth,
    (hjudged .not hdenial).trans (by simp), fun hstrict => ?_⟩
  obtain ⟨st₂, hst₂, hread⟩ := hfirst text
  simpa only [hempty] using Context.tellsAbsence hc hroot hr hstrict htext hlisted hst₂ hread

/-- A document with a member that holds null. -/
def voidDocument : Json := .object [("a", .null)]

/-- A node that holds null is there: it is counted, it makes the path true, and it is found. -/
theorem reads_agree_null :
    ∃ nodes st', (Context.atTop.iteratePointers stockHost "a").runOn (.holding voidDocument) = (.ok (nodes, none), st') ∧
      nodes.length = 1 ∧
      ((Context.atTop.getValue stockHost "count(a)").runOn (.holding voidDocument)).1 =
        .ok (.number (Number.ofNat nodes.length)) ∧
      ((Context.atTop.getValue stockHost "boolean(a)").runOn (.holding voidDocument)).1 =
        .ok (.boolean !nodes.isEmpty) ∧
      TellsAbsence "a" (nodes = []) ((Context.atTop.getValue stockHost "a").runOn (.holding voidDocument)).1 := by
  have hlength : (iterated? .atTop stockHost "a" (.holding voidDocument)).map List.length = some 1 := by
    decide +kernel
  obtain ⟨nodes, hnodes, hlength⟩ := Option.map_eq_some_iff.mp hlength
  obtain ⟨st', hrun⟩ := runOn_of_iterated? hnodes
  have htext : Expr.parse "a" = .ok (.path false [⟨.child, .name (.plain "a"), []⟩]) := by decide +kernel
  have hcounting : Expr.parse "count(a)" = .ok (.core .count [.path false [⟨.child, .name (.plain "a"), []⟩]]) := by
    decide +kernel
  have htruth : Expr.parse "boolean(a)" = .ok (.core .boolean [.path false [⟨.child, .name (.plain "a"), []⟩]]) := by
    decide +kernel
  have hdenial : Expr.parse "not(a)" = .ok (.core .not [.path false [⟨.child, .name (.plain "a"), []⟩]]) := by
    decide +kernel
  obtain ⟨hcount, -, -, htrue, -, hstrict⟩ := reads_agree (Context.settled_atTop _)
    (isDocument_firstTop (by decide +kernel) (by decide +kernel)) (firstTop_mem_listing _) htext hcounting htruth
    hdenial hrun
  exact ⟨nodes, st', hrun, hlength, hcount, htrue, (hstrict rfl).2.1⟩

end

end NodePath
