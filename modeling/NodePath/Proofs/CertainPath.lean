/-
# NodePath.Proofs.CertainPath — paths that are sure to be read

Whether the cursor of a path can fail is told from the lists that its steps lead through: when every predicate can be
judged at every position of its list, and no list is longer than a repetition has rounds, the path is read, and the
node that is read is the first one that its steps lead to.

* §A  `Surroundings.CanWalk`.
* §B  Cursors that cannot fail.
* §C  Reads that succeed.
-/
import NodePath.Proofs.FirstNode
import NodePath.Proofs.Working

namespace NodePath

/-! ## §A  Steps -/

namespace Surroundings

variable (s : Surroundings) (st : Store)

/-- Whether predicates can be judged, each on the list that those before it leave. -/
def CanJudgeAll : List Expr → List Pointer → Prop
  | [], _ => True
  | e :: es, nodes => s.CanJudge st e nodes ∧ CanJudgeAll es (s.keep st e nodes)

/-- **CanWalk** says that steps can be taken from the nodes of a list, and that no step is taken from more nodes than a
repetition has rounds. -/
def CanWalk : List Step → List Pointer → Prop
  | [], _ => True
  | step :: steps, nodes => nodes.length < Walk.limit ∧
      (∀ p ∈ nodes, s.CanJudgeAll st step.predicates (s.along st step.axis step.test p)) ∧
        CanWalk steps (nodes.flatMap (s.stepFrom st step))

end Surroundings

/-! ## §B  Cursors -/

/-- **Succeeds** says that a cursor that has not started goes through sets and cannot fail. -/
structure Cursor.Succeeds (base : Store) (s : Surroundings) (has : Pointer → Prop) (c : Cursor)
    (sets : List (List Pointer)) : Prop where
  delivers : c.Delivers base s has sets
  unfailing : ∃ stands, Traverses base (c.motion s) stands sets ∧ Unfailing base (c.motion s) stands sets ∧
    stands c .before

namespace Cursor.Succeeds

variable {base : Store} {s : Surroundings} {has : Pointer → Prop} {c : Cursor} {sets : List (List Pointer)}

/-- Known nodes cannot fail, be they of the realm or not. -/
theorem unfailing_known {stage : Stage} {nodes : List Pointer} (hs : Grounded base s)
    (hstage : stage.knows = some nodes) (halike : ∀ w, base.Extends w.base → stage.Alike w stage)
    (hnodes : ∀ p ∈ nodes, ∀ w, base.Extends w.base → p.Alike w p) (hshort : nodes.length < Walk.limit) :
    ∃ stands, Traverses base ((⟨.fresh stage, []⟩ : Cursor).motion s) stands [nodes] ∧
      Unfailing base ((⟨.fresh stage, []⟩ : Cursor).motion s) stands [nodes] ∧ stands ⟨.fresh stage, []⟩ .before := by
  have hsupplies : Supplies base s .still (KnowsAt stage) [nodes] := supplies_known hstage halike hnodes
  refine ⟨_, hsupplies.traverses fun w hw => (hs.natural w hw).alike,
    (suppliesSafely_known hstage hshort).unfailing hsupplies, ?_⟩
  exact ⟨⟨rfl, rfl, fun _ _ he => by cases he⟩, ⟨rfl, rfl, rfl⟩, rfl⟩

theorem known {stage : Stage} {nodes : List Pointer} (hs : Grounded base s) (hr : Realm base has)
    (hstage : stage.knows = some nodes) (halike : ∀ w, base.Extends w.base → stage.Alike w stage)
    (hnodes : ∀ p ∈ nodes, has p) (hnarrow : nodes.length ≤ Number.exactBound) :
    (⟨.fresh stage, []⟩ : Cursor).Succeeds base s has [nodes] where
  delivers := Delivers.known hs hr hstage halike hnodes hnarrow
  unfailing := unfailing_known hs hstage halike (fun p hp _ hw => hr.alike (hnodes p hp) hw)
    (hnarrow.trans_lt Number.exactBound_lt_limit)

/-- **An axis behind a node that is opened** to one of the realm, be it a node of the realm itself or not. -/
theorem ofOpened {o q : Pointer} (hs : Grounded base s) (hr : Realm base has)
    (halike : ∀ w, base.Extends w.base → o.Alike w o) (hopens : Realm.Opens base has o q) (a : Axis) (t : NodeTest) :
    ((⟨.fresh (.start o none), []⟩ : Cursor).push (.axis a t none)).Succeeds base s has [s.along base a t q] := by
  have hcovers : Realm.Covers has [s.along base a t q] :=
    Realm.Covers.single (fun _ hp => hr.along hopens.1 hp) ((List.length_filter_le _ _).trans (hr.narrow hopens.1))
  have hknows : (Stage.start o none).knows = some [o] := rfl
  obtain ⟨stands, htraverses, hunfailing, hc⟩ := unfailing_known hs hknows
    (fun w hw => .start (halike w hw) .none) (by simpa using halike) (show 1 < Walk.limit by decide)
  have hmade : MadeAlong base has s a t (fun _ => s.along base a t q) [[o]].flatten := fun _ hx =>
    ⟨q, List.mem_singleton.mp hx ▸ hopens, rfl⟩
  have hsupplies := htraverses.supplies_madeAlong hs hr hmade
  have htraverses' := hsupplies.traverses fun w hw => (hs.natural w hw).alike
  refine ⟨⟨hcovers, rfl, _, htraverses', ?_⟩, _, htraverses',
    (hunfailing.suppliesSafely_madeAlong htraverses hs hr hmade (show 1 < Walk.limit by decide)).unfailing hsupplies, ?_⟩
  all_goals exact ⟨.before rfl hc, ⟨rfl, rfl, rfl⟩, rfl⟩

theorem pushAxis (h : c.Succeeds base s has sets) (hs : Grounded base s) (hr : Realm base has) (a : Axis) (t : NodeTest)
    (hshort : sets.flatten.length < Walk.limit) :
    (c.push (.axis a t none)).Succeeds base s has (sets.flatten.map (s.along base a t)) where
  delivers := h.delivers.pushAxis hs hr a t
  unfailing := by
    obtain ⟨stands, htraverses, hunfailing, hc⟩ := h.unfailing
    have hcovers := h.delivers.covers
    have hsupplies := htraverses.supplies_along hs hr hcovers a t
    refine ⟨_, hsupplies.traverses fun w hw => (hs.natural w hw).alike,
      (hunfailing.suppliesSafely_along htraverses hs hr hcovers a t hshort).unfailing hsupplies, ?_⟩
    exact ⟨.before rfl hc, ⟨rfl, rfl, rfl⟩, rfl⟩

theorem pushCondition (h : c.Succeeds base s has sets) (hs : Grounded base s) (hr : Realm base has) {e : Expr}
    (hjudge : ∀ nodes ∈ sets, s.CanJudge base e nodes) :
    (c.pushCondition e).Succeeds base s has (sets.map (s.keep base e)) where
  delivers := h.delivers.pushCondition hs hr e
  unfailing := by
    obtain ⟨stands, htraverses, hunfailing, hc⟩ := h.unfailing
    have hcovers := h.delivers.covers
    have hsupplies := htraverses.supplies_condition hs hr hcovers e
    have hall : ∀ j, s.CanJudge base e (nthSet sets j) := by
      intro j i hi
      cases hj : sets[j]? with
      | none =>
        rw [nthSet, hj] at hi
        exact absurd hi (Nat.not_lt_zero i)
      | some nodes =>
        rw [nthSet, hj] at hi ⊢
        exact hjudge nodes (List.mem_of_getElem? hj) i hi
    refine ⟨_, hsupplies.traverses fun w hw => (hs.natural w hw).alike,
      (hunfailing.suppliesSafely_condition htraverses hs hr hcovers hall).unfailing hsupplies, ?_⟩
    exact ⟨.before rfl hc, ⟨rfl, rfl, rfl⟩, rfl⟩

theorem pushConditions {along : Pointer → List Pointer} {nodes : List Pointer} (hs : Grounded base s)
    (hr : Realm base has) (predicates : List Expr) (h : c.Succeeds base s has (nodes.map along))
    (hjudge : ∀ p ∈ nodes, s.CanJudgeAll base predicates (along p)) :
    (predicates.foldl Cursor.pushCondition c).Succeeds base s has
      (nodes.map fun p => predicates.foldl (fun nodes e => s.keep base e nodes) (along p)) := by
  induction predicates generalizing c along with
  | nil => exact h
  | cons e predicates ih =>
    have hkeep := h.pushCondition hs hr (e := e) (List.forall_mem_map.mpr fun p hp => (hjudge p hp).1)
    rw [List.map_map] at hkeep
    exact ih hkeep fun p hp => (hjudge p hp).2

/-- **Steps that can be taken** make a cursor that cannot fail. -/
theorem pushSteps (h : c.Succeeds base s has sets) (hs : Grounded base s) (hr : Realm base has) {steps : List Step}
    (hwalk : s.CanWalk base steps sets.flatten) :
    ∃ sets', (c.pushSteps steps).Succeeds base s has sets' ∧ sets'.flatten = s.eager base steps sets.flatten := by
  induction steps generalizing c sets with
  | nil => exact ⟨sets, h, rfl⟩
  | cons step steps ih =>
    obtain ⟨hshort, hjudge, hwalk⟩ := hwalk
    have hstep : (c.pushStep step).Succeeds base s has (sets.flatten.map (s.stepFrom base step)) :=
      pushConditions hs hr step.predicates (h.pushAxis hs hr step.axis step.test hshort) hjudge
    obtain ⟨sets', hsucceeds, heq⟩ := ih hstep hwalk
    exact ⟨sets', hsucceeds, heq⟩

/-- **The first node of a cursor that cannot fail** is the first one of all its sets, and nothing is changed but what is
kept beside the documents. -/
theorem runOn_first {c : Context} {host : Host} {d : Cursor} {st st₁ : Store}
    (h : d.Succeeds st (c.surroundings host) has sets) (e : Expr) (hst : st.Extends st₁) :
    ∃ st', (((c.setting host).evaluator e).first d).runOn st₁ = (.ok sets.flatten.head?, st') ∧ st.Extends st' := by
  obtain ⟨stands, htraverses, hunfailing, hbefore⟩ := h.unfailing
  have hfresh := h.delivers.fresh
  obtain ⟨p?, c₂, st₂, hrun⟩ := hunfailing.first htraverses hbefore hfresh _ hst
  obtain ⟨hst₂, rfl⟩ := htraverses.first hbefore hfresh _ hst _ _ _ hrun
  refine ⟨st₂, ?_, hst.trans hst₂⟩
  rw [Evaluator.first, Setting.runOn_on]
  exact congrArg (fun run => (run.1, run.2.2)) hrun

end Cursor.Succeeds

/-! ## §C  Reads -/

section

variable {st : Store} {root p : Pointer} {s : Surroundings} {steps : List Step} {r : JsonRef}

theorem IsDocument.succeeds (h : IsDocument st root) (hs : Grounded st s) (hstart : .json r ∈ root.listing st)
    (hwalk : s.CanWalk st steps [.json r]) :
    ∃ sets, (Cursor.ofPath st (.json r) steps).Succeeds st s (· ∈ root.listing st) sets ∧
      sets.flatten = s.eager st steps [.json r] := by
  have hchart := h.charted hs
  have hstage : (Cursor.startAt st (.json r)).Succeeds st s (· ∈ root.listing st) [[.json r]] := by
    refine Cursor.Succeeds.known hs hchart.realm rfl (fun w hw => ?_) (by simpa using hstart)
      (show 1 ≤ Number.exactBound by decide)
    exact .start (hchart.realm.alike hstart hw) .none
  exact hstage.pushSteps hs hchart.realm hwalk

/-- From a node that is opened to a place of a document, steps lead to what they lead to from there. -/
theorem IsDocument.succeeds_of_opens (h : IsDocument st root) (hs : Grounded st s) {o : Pointer} {step : Step}
    (halike : ∀ w, st.Extends w.base → o.Alike w o) (hmembers : o.members? st = none)
    (hopens : Realm.Opens st (· ∈ root.listing st) o (.json r)) (hwalk : s.CanWalk st (step :: steps) [.json r]) :
    ∃ sets, (Cursor.ofPath st o (step :: steps)).Succeeds st s (· ∈ root.listing st) sets ∧
      sets.flatten = s.eager st (step :: steps) [.json r] := by
  have hrealm := (h.charted hs).realm
  obtain ⟨-, hjudge, hwalk⟩ := hwalk
  have hfirst := Cursor.Succeeds.ofOpened hs hrealm halike hopens step.axis step.test
  have hstep : ((Cursor.mk (.fresh (.start o none)) []).pushStep step).Succeeds st s (· ∈ root.listing st)
      ([.json r].map (s.stepFrom st step)) := Cursor.Succeeds.pushConditions hs hrealm step.predicates hfirst hjudge
  have hstart : Cursor.startAt st o = ⟨.fresh (.start o none), []⟩ := by rw [Cursor.startAt, hmembers]
  rw [Cursor.ofPath, hstart]
  exact hstep.pushSteps hs hrealm hwalk

variable {c : Context} {host : Host} {text : String} {absolute : Bool} {st₁ : Store}

/-- **The first node of a path whose steps can be taken** is the first one that its steps lead to, and nothing is changed
but what is kept beside the documents. -/
theorem IsDocument.runOn_first_of_canWalk (h : IsDocument st root) (hc : c.Settled host st)
    (hstart : .json r ∈ root.listing st) (hwalk : (c.surroundings host).CanWalk st steps [.json r])
    (hst : st.Extends st₁) :
    ∃ st', (((c.setting host).evaluator (.path absolute steps)).first (.ofPath st₁ (.json r) steps)).runOn st₁ =
      (.ok ((c.surroundings host).eager st steps [.json r]).head?, st') ∧ st.Extends st' := by
  obtain ⟨sets, hsucceeds, hsets⟩ := h.succeeds hc.grounded hstart hwalk
  obtain ⟨st₂, hfirst, hst₂⟩ := hsucceeds.runOn_first (.path absolute steps) hst
  rw [hsets] at hfirst
  exact ⟨st₂, hfirst, hst₂⟩

variable (h : IsDocument st root) (hc : c.Settled host st) (hr : c.startOf absolute = .json r)
  (hstart : .json r ∈ root.listing st) (hwalk : (c.surroundings host).CanWalk st steps [.json r])
  (hp : ((c.surroundings host).eager st steps [.json r]).head? = some p) (hst : st.Extends st₁)

include h hc hr hstart hwalk hp hst

/-- **A path whose steps can be taken** is read: it comes to the first node that its steps lead to, -/
theorem IsDocument.runOn_readPointer :
    ∃ st', ((c.setting host).readPointer text (.path absolute steps)).runOn st₁ = (.ok (some p), st') ∧
      st.Extends st' := by
  have hsetting : (c.setting host).context.startOf absolute = .json r := hr
  obtain ⟨st₂, hread, hst₂⟩ := h.runOn_first_of_canWalk hc hstart hwalk hst
  rw [hp] at hread
  have hmem : p ∈ root.listing st := h.mem_of_mem_eager hc.grounded hstart (List.mem_of_mem_head? hp)
  obtain ⟨hactual, -, -⟩ := h.opened hmem hst₂
  exact ⟨st₂, Setting.runOn_readPointer_path hsetting hread hactual, hst₂⟩

/-- or to the value of that node. -/
theorem IsDocument.runOn_readValue :
    ∃ st', ((c.setting host).readValue text (.path absolute steps)).runOn st₁ = (.ok (p.openedValue st), st') ∧
      st.Extends st' := by
  have hsetting : (c.setting host).context.startOf absolute = .json r := hr
  obtain ⟨st₂, hread, hst₂⟩ := h.runOn_first_of_canWalk hc hstart hwalk hst
  rw [hp] at hread
  have hmem : p ∈ root.listing st := h.mem_of_mem_eager hc.grounded hstart (List.mem_of_mem_head? hp)
  obtain ⟨-, hopened, hvalue⟩ := h.opened hmem hst₂
  exact ⟨st₂, by rw [Setting.runOn_readValue_path hsetting hread hopened, hvalue], hst₂⟩

end

end NodePath
