/-
# NodePath.Proofs.NodeSet — no node twice

A path that delivers its nodes in document order delivers none of them twice, since they are sorted. All other
paths go along axes that stay on one level, but for the last one, so that two nodes come to one only along an axis
to parents or siblings. Unless that happens, no node is delivered twice; counting counts what is delivered.

* §A  The order in which a path delivers nodes.
* §B  Steps that keep nodes apart.
* §C  Nodes that are told apart.
* §D  Counting.
* §E  Distinct nodes.
* §F  A node twice.
-/
import NodePath.Proofs.Levels
import NodePath.Proofs.LocationPath
import NodePath.Proofs.Working

namespace NodePath

/-! ## §A  Order -/

namespace Cursor

variable {c : Cursor}

/-- What follows a predicate or a plain axis is sorted if what is before it has to be. -/
theorem order_of_sortsNext (c : Cursor) :
    (if c.sortsNext then Order.ascending else .unordered) = .unordered ↔ c.sortsNext = false := by
  cases c.sortsNext <;> simp

theorem order_pushCondition (c : Cursor) (e : Expr) :
    (c.pushCondition e).order = if c.sortsNext then .ascending else .unordered := rfl

theorem sortsNext_pushCondition (c : Cursor) (e : Expr) :
    (c.pushCondition e).sortsNext = ((c.pushCondition e).order != .unordered) := rfl

/-- Behind some predicates nothing has to be sorted if that was so before them. -/
theorem of_pushConditions {predicates : List Expr} :
    ((predicates.foldl pushCondition c).sortsNext = false → c.sortsNext = false) ∧
      (predicates ≠ [] → (predicates.foldl pushCondition c).order = .unordered → c.sortsNext = false) := by
  have hone : ∀ {c : Cursor} {e : Expr}, (c.pushCondition e).sortsNext = false → c.sortsNext = false := by
    intro c e h
    rw [sortsNext_pushCondition, bne_eq_false_iff_eq, order_pushCondition] at h
    exact c.order_of_sortsNext.mp h
  induction predicates generalizing c with
  | nil => exact ⟨id, fun hne => absurd rfl hne⟩
  | cons e predicates ih =>
    refine ⟨fun h => hone (ih.1 h), fun _ h => ?_⟩
    cases predicates with
    | nil => exact c.order_of_sortsNext.mp h
    | cons e' predicates => exact hone (ih.2 (List.cons_ne_nil _ _) h)

theorem of_order_pushAxis {a : Axis} {t : NodeTest} (h : (c.push (.axis a t none)).order = .unordered) :
    c.sortsNext = false := by
  cases a with
  | ancestor => cases h
  | ancestorOrSelf => cases h
  | preceding => cases h
  | following => cases h
  | _ => exact c.order_of_sortsNext.mp h

theorem of_sortsNext_pushAxis {a : Axis} {t : NodeTest} (h : (c.push (.axis a t none)).sortsNext = false) :
    c.sortsNext = false ∧ a.isFlat = true := by
  have horder : ((c.push (.axis a t none)).order != .unordered) = false → c.sortsNext = false := fun ho =>
    of_order_pushAxis (bne_eq_false_iff_eq.mp ho)
  cases a with
  | ancestor => cases h
  | ancestorOrSelf => cases h
  | preceding => cases h
  | following => cases h
  | descendant => cases h
  | descendantOrSelf => cases h
  | _ => exact ⟨horder h, rfl⟩

/-- **A step behind which nothing has to be sorted** stays on one level. -/
theorem of_sortsNext_pushStep {step : Step} (h : (c.pushStep step).sortsNext = false) :
    c.sortsNext = false ∧ step.axis.isFlat = true := of_sortsNext_pushAxis (of_pushConditions.1 h)

theorem of_order_pushStep {step : Step} (h : (c.pushStep step).order = .unordered) : c.sortsNext = false := by
  unfold pushStep at h
  cases hpredicates : step.predicates with
  | nil =>
    rw [hpredicates] at h
    exact of_order_pushAxis h
  | cons e predicates =>
    rw [hpredicates] at h
    exact (of_sortsNext_pushAxis (of_pushConditions.2 (List.cons_ne_nil _ _) h)).1

/-- Where the last of some steps delivers in no order, nothing has to be sorted before them. -/
theorem of_order_pushSteps {step : Step} {steps : List Step} (h : (c.pushSteps (step :: steps)).order = .unordered) :
    c.sortsNext = false := by
  induction steps generalizing c step with
  | nil => exact of_order_pushStep h
  | cons step' steps ih => exact (of_sortsNext_pushStep (ih h)).1

end Cursor

/-! ## §B  Steps -/

/-- **KeepsApart** says that no step along an axis that may lead from two nodes to one does so. -/
def Surroundings.KeepsApart (s : Surroundings) (st : Store) : List Step → List Pointer → Prop
  | [], _ => True
  | step :: steps, nodes =>
    (step.axis.rejoins = true → nodes.Pairwise fun p q => (s.stepFrom st step p).Disjoint (s.stepFrom st step q)) ∧
      s.KeepsApart st steps (nodes.flatMap (s.stepFrom st step))

/-- **Spread** says that some nodes of a tree are on one level, none of them twice. -/
structure Spread (st : Store) (root : Pointer) (nodes : List Pointer) : Prop where
  nodup : nodes.Nodup
  inTree : ∀ p ∈ nodes, InTree st root p
  level : ∀ p ∈ nodes, ∀ q ∈ nodes, p.level = q.level

section

variable {st : Store} {root : Pointer} {s : Surroundings}

namespace IsDocument

variable {nodes : List Pointer} {step : Step} {steps : List Step}

/-- A step from nodes of one level comes to no node twice, if it keeps them apart. -/
theorem nodup_step (h : IsDocument st root) (hnodes : Spread st root nodes)
    (hapart : step.axis.rejoins = true →
      nodes.Pairwise fun p q => (s.stepFrom st step p).Disjoint (s.stepFrom st step q)) :
    (nodes.flatMap (s.stepFrom st step)).Nodup := by
  obtain ⟨hrooted, hranked⟩ := h.rooted
  have hone : ∀ p ∈ nodes, (s.stepFrom st step p).Nodup := fun p hp =>
    (hrooted.axis_nodup hranked (hnodes.inTree p hp) step.axis).sublist (Surroundings.stepFrom_sublist step p)
  refine List.nodup_flatMap.mpr ⟨hone, ?_⟩
  cases hrejoins : step.axis.rejoins with
  | true => exact hapart hrejoins
  | false =>
    refine hnodes.nodup.imp_of_mem fun {p q} hp hq hne x hxp hxq => ?_
    have hdisjoint := hrooted.axis_disjoint (hnodes.inTree p hp) (hnodes.inTree q hq)
      (hnodes.level p hp q hq) hne hrejoins
    exact hdisjoint ((Surroundings.stepFrom_sublist step p).mem hxp) ((Surroundings.stepFrom_sublist step q).mem hxq)

/-- **A flat step** keeps nodes on one level. -/
theorem spread_step (h : IsDocument st root) (hnodes : Spread st root nodes) (hflat : step.axis.isFlat = true)
    (hapart : step.axis.rejoins = true →
      nodes.Pairwise fun p q => (s.stepFrom st step p).Disjoint (s.stepFrom st step q)) :
    Spread st root (nodes.flatMap (s.stepFrom st step)) := by
  obtain ⟨hrooted, hranked⟩ := h.rooted
  have hof : ∀ x ∈ nodes.flatMap (s.stepFrom st step), ∃ p ∈ nodes, x ∈ step.axis.nodes p st := by
    intro x hx
    obtain ⟨p, hp, hx⟩ := List.mem_flatMap.mp hx
    exact ⟨p, hp, (Surroundings.stepFrom_sublist step p).mem hx⟩
  refine ⟨h.nodup_step hnodes hapart, fun x hx => ?_, fun x hx y hy => ?_⟩
  · obtain ⟨p, hp, hx⟩ := hof x hx
    exact hrooted.mem_listing.mp (hrooted.mem_of_axis (hrooted.mem_listing.mpr (hnodes.inTree p hp)) hx)
  · obtain ⟨p, hp, hx⟩ := hof x hx
    obtain ⟨q, hq, hy⟩ := hof y hy
    have hxlevel := hrooted.level_of_axis (hnodes.inTree p hp) hflat hx
    rw [hnodes.level p hp q hq, hrooted.level_of_axis (hnodes.inTree q hq) hflat hy] at hxlevel
    exact (Option.some.inj hxlevel).symm

/-- **Steps that are not sorted in the end** lead to no node twice, if they keep nodes apart. -/
theorem nodup_eager (h : IsDocument st root) {c : Cursor} (horder : (c.pushSteps steps).order = .unordered)
    (hnodes : Spread st root nodes) (hapart : s.KeepsApart st steps nodes) : (s.eager st steps nodes).Nodup := by
  induction steps generalizing c nodes with
  | nil => exact hnodes.nodup
  | cons step steps ih =>
    obtain ⟨hstep, hsteps⟩ := hapart
    cases steps with
    | nil => exact h.nodup_step hnodes hstep
    | cons step' steps =>
      have hflat := (Cursor.of_sortsNext_pushStep (Cursor.of_order_pushSteps (c := c.pushStep step) horder)).2
      exact ih horder (h.spread_step hnodes hflat hstep) hsteps

end IsDocument

/-! ## §C  Nodes that are told apart -/

/-- Nodes of a document of which none is there twice are told apart. -/
theorem Listing.pairwise_beq {all nodes : List Pointer} (h : Listing st all) (hnodes : ∀ p ∈ nodes, p ∈ all)
    (hnodup : nodes.Nodup) : nodes.Pairwise fun p q => (p == q) = false := by
  refine hnodup.imp_of_mem fun {p q} hp hq hne => ?_
  cases hbeq : p == q with
  | false => rfl
  | true => exact absurd (h.eq_of_beq p (hnodes p hp) q (hnodes q hq) hbeq) hne

theorem Listing.nodup_arranged {all nodes : List Pointer} (h : Listing st all) {order : Order}
    (hnodes : order = .unordered → nodes.Nodup) : (arranged all order nodes).Nodup := by
  cases order with
  | unordered => exact hnodes rfl
  | ascending => exact h.nodup.filter _
  | descending => exact List.nodup_reverse.mpr (h.nodup.filter _)

/-! ## §D  Counting -/

variable {set : Setting} {text : String} {absolute : Bool} {steps : List Step} {r : JsonRef} {nodes : List Pointer}

/-- Counting the nodes of a cursor that a walk comes to. -/
theorem Evaluator.runOn_count {ev : Evaluator} {m : Motion} {e : Expr} {c c' d : Cursor} {st st' st'' : Store}
    (hlazy : (ev.lazy m e).runOn c st = (.ok (.nodes d), c', st'))
    (hall : (ev.deliverAll d).runOn st' = (.ok nodes, st'')) :
    (ev.callCore m .count [e]).runOn c st = (.ok (.number (Number.ofNat nodes.length)), c', st'') := by
  have hcount : (ev.countOf (.nodes d)).runOn st' = (.ok nodes.length, st'') := by
    rw [Evaluator.countOf, Eval.runOn_bind, hall]
    rfl
  have htakes : CoreFunction.count.takes [e].length = true := rfl
  rw [Evaluator.callCore, if_pos htakes, Evaluator.coreValue, Walk.runOn_bind, hlazy]
  dsimp only
  rw [Walk.runOn_bind, Walk.runOn_monadLift, hcount]
  rfl

/-- **Counting a path** counts all nodes that its cursor delivers. -/
theorem Setting.runOn_readValue_count (hstart : set.context.startOf absolute = .json r) {st st' : Store}
    (hall : ((set.evaluator (.path absolute steps)).deliverAll (.ofPath st (.json r) steps)).runOn st =
      (.ok nodes, st')) :
    (set.readValue text (.core .count [.path absolute steps])).runOn st =
      (.ok (.number (Number.ofNat nodes.length)), st') := by
  have hglance : (set.glanceValue (.core .count [.path absolute steps])).runOn st =
      (.ok (.number (Number.ofNat nodes.length)), st') :=
    Setting.runOn_glanceValue fun around => Evaluator.runOn_count (Setting.runOn_lazy_path hstart around) hall
  rw [Setting.readValue, Eval.runOn_bind, hglance]
  rfl

/-- Delivering all nodes fails in no other store that extends the base, and delivers the same. -/
theorem IsDocument.runOn_deliverAll (h : IsDocument st root) (hs : Grounded st s) (hstart : .json r ∈ root.listing st)
    {st₁ st₂ st' : Store} {c' : Cursor} (hst₁ : st.Extends st₁) (hst₂ : st.Extends st₂)
    (hrun : ((Cursor.ofPath st (.json r) steps).motion s).deliverRest.runOn (.ofPath st (.json r) steps) st₁ =
      (.ok (nodes, none), c', st')) :
    ∃ c'' st'', ((Cursor.ofPath st (.json r) steps).motion s).deliverAll.runOn (.ofPath st (.json r) steps) st₂ =
      (.ok nodes, c'', st'') := by
  obtain ⟨sets, hdelivers, hsets⟩ := h.delivers hs hstart steps
  obtain ⟨stands, htraverses, hc⟩ := hdelivers.traverses
  have hmem : ∀ p ∈ sets.flatten, p ∈ root.listing st := fun p hp => hdelivers.covers.mem_flatten hp
  have hall : ((Cursor.ofPath st (.json r) steps).motion s).deliverAll.runOn (.ofPath st (.json r) steps) st₁ =
      (.ok nodes, c', st') := Motion.runOn_deliverUpTo hrun
  obtain ⟨nodes₂, c₂, st₃, hall₂⟩ := hs.works_of_runOn (fun w hw => (htraverses.natural w hw).deliverAll)
    (htraverses.settled hc) hst₁ hall st₂ hst₂
  have hdeliver := htraverses.deliverAll (h.charted hs) hmem hc
  have hsame : nodes₂ = nodes :=
    (hdeliver _ hst₂ _ _ _ hall₂).2.1.trans (hdeliver _ hst₁ _ _ _ hall).2.1.symm
  exact ⟨c₂, st₃, by rw [hall₂, hsame]⟩

/-- **A count** is how many nodes an iteration finds. -/
theorem IsDocument.runOn_getValue_count {c : Context} {host : Host} {counting : String} (hroot : IsDocument st root)
    (hc : c.Settled host st) (hstart : c.startOf absolute ∈ root.listing st)
    (htext : Expr.parse text = .ok (.path absolute steps))
    (hcounting : Expr.parse counting = .ok (.core .count [.path absolute steps])) {st' : Store}
    (hrun : (c.iteratePointers host text).runOn st = (.ok (nodes, none), st')) :
    ((c.getValue host counting).runOn st).1 = .ok (.number (Number.ofNat nodes.length)) := by
  obtain ⟨r, hr, -⟩ := hroot.place hstart
  have hsetting : (c.setting host).context.startOf absolute = .json r := hr
  have hcompiled : ∀ text, st.Extends (st.compiled text) := (Store.Extends.refl hc.sound).compile
  obtain ⟨c', hall⟩ := Context.deliverRest_of_iteratePointers hc hr htext hrun
  rw [hr] at hstart
  obtain ⟨c₂, st₂, hcount⟩ := hroot.runOn_deliverAll hc.grounded hstart (hcompiled text) (hcompiled counting) hall
  have hdeliver : (((c.setting host).evaluator (.path absolute steps)).deliverAll
      (.ofPath (st.compiled counting) (.json r) steps)).runOn (st.compiled counting) = (.ok nodes, st₂) := by
    rw [Evaluator.deliverAll, Setting.runOn_on]
    exact congrArg (fun run => (run.1, run.2.2)) hcount
  rw [Context.getValue, Reading.runOn_withText hc.sound hcounting, Setting.runOn_readValue_count hsetting hdeliver]
  rfl

/-! ## §E  Distinct nodes -/

/-- A node that is alone is on one level. -/
theorem IsDocument.spread_singleton (h : IsDocument st root) {p : Pointer} (hp : p ∈ root.listing st) :
    Spread st root [p] where
  nodup := List.nodup_singleton p
  inTree q hq := List.mem_singleton.mp hq ▸ h.rooted.1.mem_listing.mp hp
  level q hq q' hq' := by rw [List.mem_singleton.mp hq, List.mem_singleton.mp hq']

/-- **A path delivers no node twice** when it delivers in document order, or when its steps keep nodes apart; and
counting it counts all that it delivers. -/
theorem pairwise_iteratePointers {c : Context} {host : Host} {counting : String} (hc : c.Settled host st)
    (hroot : IsDocument st root) (hstart : c.startOf absolute ∈ root.listing st)
    (htext : Expr.parse text = .ok (.path absolute steps))
    (hcounting : Expr.parse counting = .ok (.core .count [.path absolute steps])) {st' : Store}
    (hrun : (c.iteratePointers host text).runOn st = (.ok (nodes, none), st')) :
    ((c.getValue host counting).runOn st).1 = .ok (.number (Number.ofNat nodes.length)) ∧
      (((Cursor.ofPath st (c.startOf absolute) steps).order = .unordered →
        (c.surroundings host).KeepsApart st steps [c.startOf absolute]) →
          nodes.Pairwise fun p q => (p == q) = false) := by
  have hlisting := (hroot.charted hc.grounded).listing
  have hmem := fun p (hp : p ∈ nodes) => hroot.mem_of_iteratePointers hc hstart htext hrun hp
  refine ⟨hroot.runOn_getValue_count hc hstart htext hcounting hrun, fun hapart => hlisting.pairwise_beq hmem ?_⟩
  rw [(hroot.of_iteratePointers hc hstart htext hrun).2]
  exact hlisting.nodup_arranged fun ho => hroot.nodup_eager ho (hroot.spread_singleton hstart) (hapart ho)

/-- Children of several nodes are not the same, and are all counted. -/
theorem pairwise_iteratePointers_twin :
    ∃ nodes st', (Context.atTop.iteratePointers stockHost "a/b").runOn (.holding twinDocument) =
        (.ok (nodes, none), st') ∧ nodes.length = 2 ∧
      ((Context.atTop.getValue stockHost "count(a/b)").runOn (.holding twinDocument)).1 =
        .ok (.number (Number.ofNat nodes.length)) ∧
      nodes.Pairwise fun p q => (p == q) = false := by
  have hlength : (iterated? .atTop stockHost "a/b" (.holding twinDocument)).map List.length = some 2 := by
    decide +kernel
  obtain ⟨nodes, hnodes, hlength⟩ := Option.map_eq_some_iff.mp hlength
  obtain ⟨st', hrun⟩ := runOn_of_iterated? hnodes
  have htext : Expr.parse "a/b" =
      .ok (.path false [⟨.child, .name (.plain "a"), []⟩, ⟨.child, .name (.plain "b"), []⟩]) := by decide +kernel
  have hcounting : Expr.parse "count(a/b)" = .ok (.core .count
      [.path false [⟨.child, .name (.plain "a"), []⟩, ⟨.child, .name (.plain "b"), []⟩]]) := by decide +kernel
  obtain ⟨hcount, hpairwise⟩ := pairwise_iteratePointers (Context.settled_atTop _) isDocument_twin
    (firstTop_mem_listing _) htext hcounting hrun
  refine ⟨nodes, st', hrun, hlength, hcount, hpairwise fun _ => ⟨?_, ?_, trivial⟩⟩
  · intro hrejoins
    cases hrejoins
  · intro hrejoins
    cases hrejoins

/-! ## §F  A node twice -/

/-- A document with two members. -/
def pairDocument : Json := .object [("a", .int 1), ("b", .int 2)]

/-- The parent of two members is delivered twice, and counted twice. -/
theorem iteratePointers_parent_twice :
    ∃ nodes st', (Context.atTop.iteratePointers stockHost "*/..").runOn (.holding pairDocument) =
        (.ok (nodes, none), st') ∧
      nodes.map (·.pathText (.holding pairDocument)) = ["/", "/"] ∧
      ¬nodes.Pairwise fun p q => (p == q) = false := by
  have htwice : (iterated? .atTop stockHost "*/.." (.holding pairDocument)).map (fun nodes =>
      (nodes.map (·.pathText (.holding pairDocument)), decide (nodes.Pairwise fun p q => (p == q) = false))) =
        some (["/", "/"], false) := by decide +kernel
  obtain ⟨nodes, hnodes, htwice⟩ := Option.map_eq_some_iff.mp htwice
  obtain ⟨hpaths, hpairwise⟩ := Prod.mk.inj htwice
  obtain ⟨st', hrun⟩ := runOn_of_iterated? hnodes
  exact ⟨nodes, st', hrun, hpaths, of_decide_eq_false hpairwise⟩

end

end NodePath
