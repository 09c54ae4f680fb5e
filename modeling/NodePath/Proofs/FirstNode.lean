/-
# NodePath.Proofs.FirstNode — reads of a single node

Those who read a single node get the first one that the steps of a path lead to, and nothing behind it is looked
at. Whoever takes all nodes gets them in the order of the last stage. When that is a document order, the first of
all nodes may be another one.

* §A  What does not fail.
* §B  The first node of a path.
* §C  Reads of a single node.
* §D  Where they differ from an iteration.
-/
import NodePath.Proofs.NodeSet

namespace NodePath

/-! ## §A  Answers -/

/-- **Answers** says that a walk does not fail. -/
def Walk.Answers {α : Type} (m : Walk α) (c : Cursor) (st : Store) : Prop :=
  ∃ a c' st', m.runOn c st = (.ok a, c', st')

section

variable {α β : Type} {c c' : Cursor} {st st' : Store} {m : Motion}

theorem Walk.Answers.of_bind {w : Walk α} {f : α → Walk β} (h : (w >>= f).Answers c st) : w.Answers c st := by
  obtain ⟨b, c', st', h⟩ := h
  obtain ⟨a, c₁, st₁, hw, -⟩ := Walk.of_runOn_bind h
  exact ⟨a, c₁, st₁, hw⟩

theorem Walk.Answers.bind_run {w : Walk α} {f : α → Walk β} {a : α} (h : w.runOn c st = (.ok a, c', st'))
    (hf : (f a).Answers c' st') : (w >>= f).Answers c st := by
  obtain ⟨b, c₂, st₂, hf⟩ := hf
  exact ⟨b, c₂, st₂, by rw [Walk.runOn_bind, h]; exact hf⟩

/-- To take all nodes is to take the first one. -/
theorem Motion.deliver_answers {nodes : List Pointer} (h : m.deliverAll.runOn c st = (.ok nodes, c', st')) :
    m.deliver.Answers c st := by
  obtain ⟨times, htimes⟩ : ∃ n, Walk.limit = n + 1 := Nat.exists_eq_succ_of_ne_zero (by decide)
  rw [Motion.deliverAll, Walk.collectAll, htimes, Walk.collect] at h
  exact Walk.Answers.of_bind ⟨_, _, _, h⟩

/-- A cursor that delivers in document order has taken all nodes before it delivers the first one. -/
theorem Motion.drain_answers (m : Motion) (hsorted : c.frame.sorted = none) (ho : c.order ≠ .unordered)
    (h : m.deliver.Answers c st) : m.drain.Answers c st := by
  obtain ⟨_, c', st', h⟩ := Walk.Answers.of_bind h
  have hneeded : (c.frame.sorted.isNone && c.order != .unordered) = true := by
    rw [hsorted]
    simpa using ho
  rw [Motion.prepare, Walk.runOn_cursor_bind, Walk.runOn_frame_bind] at h
  rw [if_pos hneeded, Walk.runOn_bind, Walk.runOn_attempt] at h
  rcases hnodes : (m.sortedNodes c.order).runOn c st with ⟨r, c₁, st₁⟩
  rw [hnodes] at h
  cases r with
  | error e =>
    dsimp only at h
    rw [Walk.runOn_bind] at h
    cases h
  | ok nodes =>
    have hall : (m.sortedNodes c.order).Answers c st := ⟨nodes, c₁, st₁, hnodes⟩
    exact hall.of_bind

/-- **A cursor that has not started enters its first set** before it can deliver a node in any order. -/
theorem Motion.enter_answers (hposition : c.frame.position = 0) (hsorted : c.frame.sorted = none)
    (h : m.deliver.Answers c st) : m.enter.Answers c st := by
  by_cases ho : c.order = .unordered
  · obtain ⟨p?, c', st', h⟩ := h
    rw [m.runOn_deliver_of_unordered hsorted ho] at h
    have hadvance : m.advance.Answers c st := Walk.Answers.of_bind ⟨p?, c', st', h⟩
    obtain ⟨found, c₁, st₁, hadvance⟩ := hadvance
    rw [Motion.advance_eq, Walk.runOn_frame_bind, hposition] at hadvance
    exact ⟨found, c₁, st₁, hadvance⟩
  · exact (m.drain_answers hsorted ho h).of_bind

/-! ## §B  The first node -/

variable {s : Surroundings} {root : Pointer} {steps : List Step} {r : JsonRef}

/-- **The first node of a path** is the first one that its steps lead to; it is found when all nodes are. -/
theorem IsDocument.runOn_first (h : IsDocument st root) (hs : Grounded st s) (hstart : .json r ∈ root.listing st)
    {st₁ : Store} (hst : st.Extends st₁) {nodes : List Pointer}
    (hrun : ((Cursor.ofPath st (.json r) steps).motion s).deliverAll.runOn (.ofPath st (.json r) steps) st₁ =
      (.ok nodes, c', st')) :
    ∃ c₂ st₂, ((Cursor.ofPath st (.json r) steps).motion s).first.runOn (.ofPath st (.json r) steps) st₁ =
      (.ok (s.eager st steps [.json r]).head?, c₂, st₂) ∧ st.Extends st₂ := by
  obtain ⟨sets, hdelivers, hsets⟩ := h.delivers hs hstart steps
  obtain ⟨stands, htraverses, hc⟩ := hdelivers.traverses
  have henter := Motion.enter_answers (htraverses.faces hc).2.1 (htraverses.unsorted hc) (Motion.deliver_answers hrun)
  obtain ⟨found, c₁, st₂, henter⟩ := henter
  have hfirst : ((Cursor.ofPath st (.json r) steps).motion s).first.Answers (.ofPath st (.json r) steps) st₁ := by
    refine Walk.Answers.bind_run (Walk.runOn_move _ _ _) ?_
    rw [hdelivers.fresh]
    refine Walk.Answers.bind_run henter ?_
    cases found with
    | true => exact ⟨_, _, _, Walk.runOn_frame_bind _ _ _⟩
    | false => exact ⟨_, _, _, Walk.runOn_pure _ _ _⟩
  obtain ⟨p?, c₂, st₃, hfirst⟩ := hfirst
  obtain ⟨hst', rfl⟩ := htraverses.first hc hdelivers.fresh st₁ hst _ _ _ hfirst
  rw [hsets] at hfirst
  exact ⟨c₂, st₃, hfirst, hst.trans hst'⟩

/-! ## §C  Reads -/

variable {set : Setting} {text : String} {absolute : Bool}

/-- The node that a path reads is the first one of its cursor. -/
theorem Setting.runOn_firstPointer_path (hstart : set.context.startOf absolute = .json r) (st : Store) :
    (set.firstPointer (.path absolute steps)).runOn st =
      ((set.evaluator (.path absolute steps)).first (.ofPath st (.json r) steps)).runOn st := by
  rw [Setting.firstPointer, Eval.runOn_bind, Setting.runOn_compute_path hstart]

/-- The first node of a cursor that a walk comes to, as a value. -/
theorem Evaluator.runOn_firstNode {ev : Evaluator} {path : Walk Cursor} {c c' d : Cursor} {st st' st'' : Store}
    {p? : Option Pointer} (hpath : path.runOn c st = (.ok d, c', st')) (hfirst : (ev.first d).runOn st' = (.ok p?, st'')) :
    (ev.firstNode path).runOn c st = (.ok (.datum (Call.ofNode p?)), c', st'') := by
  have hof : (ev.firstOf (.nodes d)).runOn st' = (.ok (Call.ofNode p?), st'') := by
    rw [Evaluator.firstOf, Eval.runOn_bind, hfirst]
    rfl
  rw [Evaluator.firstNode, Walk.runOn_bind, hpath]
  dsimp only
  rw [Walk.runOn_bind, Walk.runOn_monadLift, hof]
  rfl

/-- The value of a path is that node, too. -/
theorem Setting.runOn_glanceValue_path (hstart : set.context.startOf absolute = .json r) {st st' : Store}
    {p? : Option Pointer}
    (hfirst : ((set.evaluator (.path absolute steps)).first (.ofPath st (.json r) steps)).runOn st = (.ok p?, st')) :
    (set.glanceValue (.path absolute steps)).runOn st = (.ok (Call.ofNode p?), st') :=
  Setting.runOn_glanceValue fun around =>
    Evaluator.runOn_firstNode (Setting.runOn_locationPath st st steps hstart _ _ around) hfirst

/-- A node that is there is read as it is. -/
theorem Setting.runOn_readPointer_path (hstart : set.context.startOf absolute = .json r) {st st' : Store} {p : Pointer}
    (hfirst : ((set.evaluator (.path absolute steps)).first (.ofPath st (.json r) steps)).runOn st =
      (.ok (some p), st')) (hactual : p.isActual st' = true) :
    (set.readPointer text (.path absolute steps)).runOn st = (.ok (some p), st') := by
  rw [Setting.readPointer, Eval.runOn_bind, Setting.runOn_firstPointer_path hstart, hfirst]
  dsimp only
  rw [Eval.runOn_bind, Eval.runOn_get]
  dsimp only
  rw [hactual, Bool.true_or, if_pos rfl, Eval.runOn_pure]

/-- Where there is none, there is nothing to be read. -/
theorem Setting.runOn_readPointer_absent (hstart : set.context.startOf absolute = .json r) {st st' : Store}
    (hfirst : ((set.evaluator (.path absolute steps)).first (.ofPath st (.json r) steps)).runOn st = (.ok none, st')) :
    (set.readPointer text (.path absolute steps)).runOn st =
      (if set.context.isLenient then .ok none else .error (.notFound text), st') := by
  rw [Setting.readPointer, Eval.runOn_bind, Setting.runOn_firstPointer_path hstart, hfirst]
  dsimp only [Setting.absent]
  split <;> rfl

/-- And so is its value, -/
theorem Setting.runOn_readValue_node {e : Expr} {st st' : Store} {p : Pointer}
    (hglance : (set.glanceValue e).runOn st = (.ok (.pointer p), st')) (hactual : p.isOpenedActual st' = true) :
    (set.readValue text e).runOn st = (.ok (p.openedValue st'), st') := by
  rw [Setting.readValue, Eval.runOn_bind, hglance]
  dsimp only
  rw [Eval.runOn_bind, Eval.runOn_get]
  dsimp only
  rw [if_pos hactual, Eval.runOn_pure]

/-- which a path comes to when its first node is there. -/
theorem Setting.runOn_readValue_path (hstart : set.context.startOf absolute = .json r) {st st' : Store} {p : Pointer}
    (hfirst : ((set.evaluator (.path absolute steps)).first (.ofPath st (.json r) steps)).runOn st =
      (.ok (some p), st')) (hactual : p.isOpenedActual st' = true) :
    (set.readValue text (.path absolute steps)).runOn st = (.ok (p.openedValue st'), st') :=
  Setting.runOn_readValue_node (Setting.runOn_glanceValue_path hstart hfirst) hactual

/-- When an iteration finds all nodes of a path, whoever reads the first one of its cursor finds it, also when another
text is compiled for that. -/
theorem IsDocument.runOn_first_of_iteratePointers {c : Context} {host : Host} {nodes : List Pointer}
    (hroot : IsDocument st root) (hc : c.Settled host st) (hr : c.startOf absolute = .json r)
    (hstart : .json r ∈ root.listing st) (htext : Expr.parse text = .ok (.path absolute steps))
    (hrun : (c.iteratePointers host text).runOn st = (.ok (nodes, none), st')) (other : String) :
    ∃ st₂, st.Extends st₂ ∧
      (((c.setting host).evaluator (.path absolute steps)).first (.ofPath (st.compiled other) (.json r) steps)).runOn
        (st.compiled other) =
          (.ok ((c.surroundings host).eager st steps [.json r]).head?, st₂) := by
  have hcompiled : ∀ text, st.Extends (st.compiled text) := (Store.Extends.refl hc.sound).compile
  obtain ⟨c', hall⟩ := Context.deliverRest_of_iteratePointers hc hr htext hrun
  obtain ⟨c₁, st₁, hall⟩ := hroot.runOn_deliverAll hc.grounded hstart (hcompiled text) (hcompiled other) hall
  obtain ⟨c₂, st₂, hfirst, hst₂⟩ := hroot.runOn_first hc.grounded hstart (hcompiled other) hall
  refine ⟨st₂, hst₂, ?_⟩
  rw [Evaluator.first, Setting.runOn_on]
  exact congrArg (fun run => (run.1, run.2.2)) hfirst

/-- **The values of all nodes** are those of the nodes that an iteration finds. -/
theorem IsDocument.runOn_selectNodes {c : Context} {host : Host} {nodes : List Pointer} (hroot : IsDocument st root)
    (hc : c.Settled host st) (hstart : c.startOf absolute ∈ root.listing st)
    (htext : Expr.parse text = .ok (.path absolute steps))
    (hrun : (c.iteratePointers host text).runOn st = (.ok (nodes, none), st')) :
    (c.selectNodes host text).runOn st = (.ok (nodes.map (·.openedValue st)), st') := by
  obtain ⟨hst', -⟩ := hroot.of_iteratePointers hc hstart htext hrun
  have hvalues : nodes.map (·.openedValue st') = nodes.map (·.openedValue st) :=
    List.map_congr_left fun p hp => (hroot.opened (hroot.mem_of_iteratePointers hc hstart htext hrun hp) hst').2.2
  rw [Context.selectNodes, Eval.runOn_bind, hrun]
  dsimp only [Context.allOf]
  rw [Eval.runOn_bind, Eval.runOn_pure]
  dsimp only
  rw [Eval.runOn_bind, Eval.runOn_get, ← hvalues]
  rfl

/-- **Reads of a single node** come to the first node that the steps of the path lead to. An iteration has the same
nodes; it begins with the same one when it has no order of its own. -/
theorem getPointer_eq_head_eager {c : Context} {host : Host} {nodes : List Pointer} (hc : c.Settled host st)
    (hroot : IsDocument st root) (hstart : c.startOf absolute ∈ root.listing st)
    (htext : Expr.parse text = .ok (.path absolute steps))
    (hrun : (c.iteratePointers host text).runOn st = (.ok (nodes, none), st')) (hne : nodes ≠ []) :
    ∃ p ∈ nodes,
      ((c.surroundings host).eager st steps [c.startOf absolute]).head? = some p ∧
      nodes = arranged (root.listing st) (Cursor.ofPath st (c.startOf absolute) steps).order
        ((c.surroundings host).eager st steps [c.startOf absolute]) ∧
      ((Cursor.ofPath st (c.startOf absolute) steps).order = .unordered → nodes.head? = some p) ∧
      ((c.getPointer host text).runOn st).1 = .ok (some p) ∧
      ((c.getValue host text).runOn st).1 = .ok (p.openedValue st) ∧
      ((c.selectSingleNode host text).runOn st).1 = .ok (p.openedValue st) ∧
      ((c.selectNodes host text).runOn st).1 = .ok (nodes.map (·.openedValue st)) := by
  obtain ⟨-, hnodes⟩ := hroot.of_iteratePointers hc hstart htext hrun
  have hmem := fun q => hroot.mem_iteratePointers (p := q) hc hstart htext hrun
  have hplace := fun q (hq : q ∈ nodes) => hroot.mem_of_iteratePointers hc hstart htext hrun hq
  have hselect := hroot.runOn_selectNodes hc hstart htext hrun
  obtain ⟨r, hr, -⟩ := hroot.place hstart
  have hsetting : (c.setting host).context.startOf absolute = .json r := hr
  rw [hr] at hstart hnodes hmem ⊢
  obtain ⟨st₂, hst₂, hread⟩ := hroot.runOn_first_of_iteratePointers hc hr hstart htext hrun text
  generalize (c.surroundings host).eager st steps [.json r] = list at hnodes hmem hread ⊢
  cases list with
  | nil => exact absurd (hnodes.trans (arranged_nil _ _)) hne
  | cons p rest =>
    have hp : p ∈ nodes := (hmem p).mpr List.mem_cons_self
    obtain ⟨hactual, hopened, hvalue⟩ := hroot.opened (hplace p hp) hst₂
    have hpointer : (c.getPointer host text).runOn st = (.ok (some p), st₂) := by
      rw [Context.getPointer, Reading.runOn_withText hc.sound htext,
        Setting.runOn_readPointer_path hsetting hread hactual]
      rfl
    have hget : (c.getValue host text).runOn st = (.ok (p.openedValue st), st₂) := by
      rw [Context.getValue, Reading.runOn_withText hc.sound htext,
        Setting.runOn_readValue_path hsetting hread hopened, hvalue]
      rfl
    refine ⟨p, hp, rfl, hnodes, fun ho => ?_, congrArg Prod.fst hpointer, congrArg Prod.fst hget, ?_,
      congrArg Prod.fst hselect⟩
    · rw [hnodes, ho]
      rfl
    · rw [Context.selectSingleNode, Eval.runOn_bind, hpointer]
      dsimp only
      rw [Eval.runOn_bind, Eval.runOn_get]
      exact congrArg Except.ok hvalue

/-- In a document with two objects, the first of two members is read and iterated over first. -/
theorem getPointer_eq_head_eager_twin :
    ∃ nodes st', (Context.atTop.iteratePointers stockHost "a/b").runOn (.holding twinDocument) =
        (.ok (nodes, none), st') ∧
      nodes.map (·.pathText (.holding twinDocument)) = ["/a[1]/b", "/a[2]/b"] ∧
      ∃ p, nodes.head? = some p ∧
        ((Context.atTop.getPointer stockHost "a/b").runOn (.holding twinDocument)).1 = .ok (some p) ∧
        ((Context.atTop.getValue stockHost "a/b").runOn (.holding twinDocument)).1 =
          .ok (p.openedValue (.holding twinDocument)) := by
  have hpaths : (iterated? .atTop stockHost "a/b" (.holding twinDocument)).map
      (·.map (·.pathText (.holding twinDocument))) = some ["/a[1]/b", "/a[2]/b"] := by decide +kernel
  obtain ⟨nodes, hnodes, hpaths⟩ := Option.map_eq_some_iff.mp hpaths
  obtain ⟨st', hrun⟩ := runOn_of_iterated? hnodes
  have hne : nodes ≠ [] := by
    rintro rfl
    cases hpaths
  have htext : Expr.parse "a/b" =
      .ok (.path false [⟨.child, .name (.plain "a"), []⟩, ⟨.child, .name (.plain "b"), []⟩]) := by decide +kernel
  obtain ⟨p, -, -, -, hfirst, hpointer, hvalue, -⟩ :=
    getPointer_eq_head_eager (Context.settled_atTop _) isDocument_twin (firstTop_mem_listing _) htext hrun hne
  exact ⟨nodes, st', hrun, hpaths, p, hfirst rfl, hpointer, hvalue⟩

/-! ## §D  Ancestors -/

/-- The node that is read, if there is one and no error comes up. -/
def pointed? (c : Context) (host : Host) (text : String) (st : Store) : Option Pointer :=
  match ((c.getPointer host text).runOn st).1 with
  | .ok p? => p?
  | .error _ => none

theorem getPointer_of_pointed? {c : Context} {host : Host} {p : Pointer} (h : pointed? c host text st = some p) :
    ((c.getPointer host text).runOn st).1 = .ok (some p) := by
  unfold pointed? at h
  split at h
  · rename_i p? hread
    rw [hread, h]
  · cases h

/-- The ancestors of two members are iterated over from the last one on, but the first one is read: the parent of the
first member. -/
theorem getPointer_ne_head_of_ancestors :
    ∃ nodes st' p q, (Context.atTop.iteratePointers stockHost "a/b/ancestor::*").runOn (.holding twinDocument) =
        (.ok (nodes, none), st') ∧ nodes.head? = some q ∧
      ((Context.atTop.getPointer stockHost "a/b/ancestor::*").runOn (.holding twinDocument)).1 = .ok (some p) ∧
      p.pathText (.holding twinDocument) = "/a[1]" ∧ q.pathText (.holding twinDocument) = "/a[2]" ∧ p ≠ q := by
  have hpaths : (iterated? .atTop stockHost "a/b/ancestor::*" (.holding twinDocument)).map
      (·.map (·.pathText (.holding twinDocument))) = some ["/a[2]", "/a[1]"] := by decide +kernel
  have hread : (pointed? .atTop stockHost "a/b/ancestor::*" (.holding twinDocument)).map
      (·.pathText (.holding twinDocument)) = some "/a[1]" := by decide +kernel
  obtain ⟨nodes, hnodes, hpaths⟩ := Option.map_eq_some_iff.mp hpaths
  obtain ⟨st', hrun⟩ := runOn_of_iterated? hnodes
  obtain ⟨p, hpointer, hp⟩ := Option.map_eq_some_iff.mp hread
  obtain ⟨q, rest, rfl, hq, -⟩ := List.map_eq_cons_iff.mp hpaths
  refine ⟨_, st', p, q, hrun, rfl, getPointer_of_pointed? hpointer, hp, hq, ?_⟩
  rintro rfl
  rw [hp] at hq
  exact absurd hq (by decide)

end

end NodePath
