/-
# NodePath.Proofs.Parenthesised — paths in parentheses are one set of nodes

The predicates behind a location path are applied to the nodes of each step from one node. Behind a path in
parentheses they are applied to all nodes of the path at once: these are taken, sorted into document order, and make up
one set, in which a predicate counts. In which order the path itself delivers its nodes, and how often each, is not seen
any more.

* §A  The start of a path from the value of an expression.
* §B  The nodes of a path, or of a union, in another store.
* §C  What a predicate sees.
* §D  One predicate behind known nodes.
* §E  Paths in parentheses.
-/
import NodePath.Proofs.Depth
import NodePath.Proofs.FullDelivery
import NodePath.Proofs.PlacePath
import NodePath.Proofs.Unions

namespace NodePath

/-! ## §A  Starts -/

/-- **opening** is the cursor that an expression starts a path with. -/
def Setting.opening (s : Setting) (e : Expr) : Eval Cursor := do (s.evaluator e).startOf (← s.compute e)

/-- **A path from the value of an expression** starts from what that expression comes to where it stands alone. -/
theorem Setting.runOn_compute_filter (s : Setting) (head : Expr) (predicates : List Expr) (steps : List Step)
    (st : Store) : (s.compute (.filter head predicates steps)).runOn st =
      (do
        let start ← s.opening head
        pure (Value.nodes ((predicates.foldl Cursor.pushCondition start).pushSteps steps)) : Eval Value).runOn st := by
  have hsize : (Expr.filter head predicates steps).size =
      head.size + Expr.sizeAll predicates + Expr.sizeSteps steps + 1 := rfl
  have hsame := s.sameTo_evaluatorTo s.surroundings
    (show head.size ≤ head.size + Expr.sizeAll predicates + Expr.sizeSteps steps by omega)
  have hlazy : ∀ m, (s.evaluator (.filter head predicates steps)).lazy m (.filter head predicates steps) =
      (do pure (.nodes (← (s.evaluator head).filterPath m head predicates steps))) := by
    intro m
    rw [Setting.evaluator, hsize]
    show Evaluator.lazyValueOf _ m (.filter head predicates steps) = _
    rw [Evaluator.lazyValueOf, hsame.filterPath (Nat.le_refl _)]
    rfl
  rw [Setting.opening, Setting.compute, Setting.compute, Eval.runOn_bind, Eval.runOn_bind, Eval.runOn_bind,
    Eval.runOn_bind, Setting.runOn_start]
  dsimp only
  rw [Setting.runOn_on, Setting.runOn_on, Cursor.motion_startAt, hlazy, Evaluator.filterPath]
  -- On both sides the value of the head comes first, and then the start that is made of it.
  rw [Walk.runOn_bind, Walk.runOn_bind]
  rcases ((s.evaluator head).lazy (.ofLength s.surroundings 1) head).runOn (.startAt st s.context.contextPointer) st with
    ⟨r, c', st'⟩
  cases r with
  | error e => rfl
  | ok v =>
    dsimp only
    rw [Walk.runOn_bind, Walk.runOn_monadLift]
    rcases ((s.evaluator head).startOf v).runOn st' with ⟨r, st''⟩
    cases r <;> rfl

/-- **A node-set starts** a cursor over its nodes in document order. -/
theorem Charted.runOn_startOf {base : Store} {s : Surroundings} {all ps : List Pointer} {c : Cursor} {st st' : Store}
    {ev : Evaluator} (hg : Charted base s all) (hps : ∀ p ∈ ps, p ∈ all) (hst : base.Extends st')
    (h : (ev.nodeSet c).runOn st = (.ok ps, st')) :
    (ev.startOf (.nodes c)).runOn st = (.ok (.ofNodes (arranged all .ascending ps) .ascending), st') := by
  rw [Evaluator.startOf, Eval.runOn_bind, h]
  dsimp only
  rw [Eval.runOn_bind, Eval.runOn_get]
  dsimp only
  rw [hg.sortDistinct hps Order.noConfusion hst]
  rfl

/-! ## §B  Paths and unions -/

/-- **Comprises** says that an expression is a location path in a document or a union, and that an iteration over a text
of it delivers these nodes, all of them in the document, and no error. -/
structure Context.Comprises (c : Context) (host : Host) (st : Store) (root : Pointer) (p : Expr) (nodes : List Pointer) :
    Prop where
  isPathOrUnion : (∃ absolute steps, p = .path absolute steps ∧ c.startOf absolute ∈ root.listing st) ∨
    ∃ es, p = .operation .union es ∧ ∀ q ∈ nodes, q ∈ root.listing st
  delivered : ∃ text st', Expr.parse text = .ok p ∧ (c.iteratePointers host text).runOn st = (.ok (nodes, none), st')

section

variable {cx : Context} {host : Host} {st st₁ st' : Store} {root : Pointer} {p : Expr} {es : List Expr}
  {nodes : List Pointer}

/-- An iteration delivers, without an error, all nodes of the expression that it is about. -/
theorem Context.runOn_iteratePointers_iff {text : String} (hsound : st.engine.Sound) (htext : Expr.parse text = .ok p) :
    (cx.iteratePointers host text).runOn st = (.ok (nodes, none), st') ↔
      ((cx.setting host).pointers p).runOn (st.compiled text) = (.ok (nodes, none), st') := by
  rw [Context.iteratePointers, Reading.runOn_withText hsound htext, Eval.runOn_bind]
  rcases ((cx.setting host).pointers p).runOn (st.compiled text) with ⟨r, st₁⟩
  cases r with
  | error e => constructor <;> rintro ⟨⟩
  | ok d =>
    obtain ⟨ps, e?⟩ := d
    cases e? with
    | some e => constructor <;> rintro ⟨⟩
    | none => exact Iff.rfl

/-- A union comes to a cursor over nodes that are known, in document order. -/
theorem Setting.of_runOn_compute_union {s : Setting} {v : Value}
    (h : (s.compute (.operation .union es)).runOn st = (.ok v, st')) :
    ∃ ps, v = .nodes (.ofNodes ps .ascending) := by
  rw [Setting.compute, Eval.runOn_bind, Setting.runOn_start] at h
  dsimp only at h
  rw [Setting.runOn_on] at h
  obtain ⟨hok, -⟩ := Prod.mk.inj h
  generalize hrun : Walk.runOn _ _ _ = run at hok
  obtain ⟨r, c', st₁⟩ := run
  obtain rfl : r = .ok v := hok
  obtain ⟨u, c₁, st₂, hunion, hv⟩ := Walk.of_runOn_bind (show Walk.runOn (Evaluator.unionOf
    (s.evaluatorTo s.surroundings _) _ es >>= fun u => pure (Value.nodes u)) _ _ = _ from hrun)
  obtain ⟨parts, c₂, st₃, -, hsort⟩ := Walk.of_runOn_bind hunion
  obtain ⟨stored, c₃, st₄, -, hsort⟩ := Walk.of_runOn_bind hsort
  obtain ⟨ps, c₄, st₅, -, hu⟩ := Walk.of_runOn_bind hsort
  cases hu
  cases hv
  exact ⟨ps, rfl⟩

namespace Context.Comprises

variable (h : cx.Comprises host st root p nodes) (hroot : IsDocument st root) (hc : cx.Settled host st)

include h hroot hc

theorem among : ∀ q ∈ nodes, q ∈ root.listing st := by
  rcases h.isPathOrUnion with ⟨absolute, steps, hp, hstart⟩ | ⟨es, -, hmem⟩
  · obtain ⟨text, st', htext, hrun⟩ := h.delivered
    exact Context.Locates.among ⟨⟨absolute, steps, rfl, hstart⟩, text, st', hp ▸ htext, hrun⟩ hroot hc
  · exact hmem

omit hroot in
/-- An iteration over a union delivers the nodes of the union, sorted once more. -/
theorem runOn_nodeSet_of_union (hp : p = .operation .union es) : ∃ c st₁ st₂ st₃, st.Extends st₁ ∧
    ((cx.setting host).compute p).runOn st₁ = (.ok (.nodes c), st₂) ∧
    (((cx.setting host).evaluator p).nodeSet c).runOn st₂ = (.ok nodes, st₃) ∧ st.Extends st₃ := by
  obtain ⟨text, st', htext, hrun⟩ := h.delivered
  have hst : st.Extends (st.compiled text) := (Store.Extends.refl hc.sound).compile text
  have hpointers := (Context.runOn_iteratePointers_iff hc.sound htext).mp hrun
  -- A natural operation only adds to the store.
  have hnatural : (cx.setting host).Natural (.only st hc.closed) := hc.within.setting hc.host
  obtain ⟨v, hv, hholds, -⟩ := hnatural.pointers p _ (.refl _) _ _ (World.holds_only hst hst)
  have hext : st.Extends st' := by
    have hleft := hholds.left
    rw [hpointers, show v.base = st from hv.base] at hleft
    exact hleft
  rw [Setting.pointers, Eval.runOn_bind] at hpointers
  rcases hcompute : ((cx.setting host).compute p).runOn (st.compiled text) with ⟨r, st₂⟩
  rw [hcompute] at hpointers
  cases r with
  | error e => cases hpointers
  | ok v =>
    obtain ⟨qs, rfl⟩ := Setting.of_runOn_compute_union (hp ▸ hcompute)
    dsimp only at hpointers
    rw [Setting.runOn_on] at hpointers
    rcases hall : (Motion.deliverRest _).runOn (.ofNodes qs .ascending) st₂ with ⟨r, c', st₄⟩
    rw [hall] at hpointers
    cases hpointers
    obtain ⟨c₁, hsorted⟩ := Motion.runOn_sortedNodes_of_deliverRest rfl Order.noConfusion hall
    obtain ⟨c₂, hnodes⟩ := Motion.runOn_nodeSet_of_sortedNodes Order.noConfusion rfl hsorted
    refine ⟨_, _, _, _, hst, hcompute, ?_, hext⟩
    rw [Evaluator.nodeSet, Setting.runOn_on, hnodes]

/-- **The start of a path** from a location path or a union is a cursor over all nodes in document order, in every
store that extends the base. -/
theorem runOn_opening (hst : st.Extends st₁) : ∃ st₂, st.Extends st₂ ∧ ((cx.setting host).opening p).runOn st₁ =
    (.ok (.ofNodes (arranged (root.listing st) .ascending nodes) .ascending), st₂) := by
  have hg := hroot.charted hc.grounded
  have hmem := h.among hroot hc
  have hopening : ∀ {c st₁ st₂ st₃}, ((cx.setting host).compute p).runOn st₁ = (.ok (.nodes c), st₂) →
      (((cx.setting host).evaluator p).nodeSet c).runOn st₂ = (.ok nodes, st₃) → st.Extends st₃ →
      ((cx.setting host).opening p).runOn st₁ =
        (.ok (.ofNodes (arranged (root.listing st) .ascending nodes) .ascending), st₃) := by
    intro c st₁ st₂ st₃ hcompute hnodes hext
    rw [Setting.opening, Eval.runOn_bind, hcompute]
    exact hg.runOn_startOf hmem hext hnodes
  rcases h.isPathOrUnion with ⟨absolute, steps, hp, hstart⟩ | ⟨es, hp, -⟩
  · -- The cursor of a path does not depend on the store, and drains the same nodes in all of them.
    obtain ⟨text, st', htext, hrun⟩ := h.delivered
    obtain ⟨r, hr, -⟩ := hroot.place hstart
    obtain ⟨c', hall⟩ := Context.deliverRest_of_iteratePointers hc hr (hp ▸ htext) hrun
    rw [hr] at hstart
    obtain ⟨_, c₂, st₂, hnodes, hext, rfl⟩ := (hroot.nodeSet_of_deliverRest hc.grounded hstart
      ((Store.Extends.refl hc.sound).compile text) hall).runOn hst
    have hsetting : (cx.setting host).context.startOf absolute = .json r := hr
    refine ⟨st₂, hst.trans hext, hopening (hp ▸ Setting.runOn_compute_path hsetting) ?_ (hst.trans hext)⟩
    rw [Evaluator.nodeSet, Setting.runOn_on]
    exact congrArg (fun run => (run.1, run.2.2)) hnodes
  · -- A union may look at anything; but what it finds in one store it finds in all of them.
    obtain ⟨c, st₀, st₂, st₃, hst₀, hcompute, hnodes, hext⟩ := h.runOn_nodeSet_of_union hc hp
    have hrun := hopening hcompute hnodes hext
    have hbase : st.Extends (World.only st hc.closed).base := .refl hc.sound
    have hnatural : (cx.setting host).Natural (.only st hc.closed) := hc.within.setting hc.host
    have halike : EvalAlike (.only st hc.closed) .cursor ((cx.setting host).opening p) ((cx.setting host).opening p) :=
      (hnatural.compute p).bind fun v a b hv hab => ((hnatural.grow hv).evaluator p).startOf hab
    obtain ⟨v, hv, hholds, hresult⟩ := halike _ (.refl _) _ _ (World.holds_only hst₀ hst)
    rw [hrun] at hresult
    rcases hrun' : ((cx.setting host).opening p).runOn st₁ with ⟨r, st₄⟩
    rw [hrun'] at hholds hresult
    cases hresult with
    | ok hcursor =>
      have hself : (Cursor.ofNodes (arranged (root.listing st) .ascending nodes) .ascending).Alike v
          (.ofNodes (arranged (root.listing st) .ascending nodes) .ascending) :=
        .ofNodes (List.forall₂_same.mpr fun q hq => hg.realm.alike ((List.filter_sublist).mem hq)
          (hv.base ▸ hbase : st.Extends v.base)) _
      refine ⟨st₄, (show v.base = st from hv.base) ▸ hholds.right, ?_⟩
      rw [Cursor.Alike.rightUnique hself hcursor]

end Context.Comprises

/-! ## §C  What a predicate sees -/

/-- The step to the node itself, as a path. -/
def Expr.itself : Expr := .path false [⟨.self, .type .node, []⟩]

end

section

variable {cx : Context} {host : Host} {st : Store} {root : Pointer} {S : List Pointer} {i : Nat}

/-- A predicate is told the position. -/
theorem Context.judge_position (cx : Context) (host : Host) (st : Store) (S : List Pointer) (k : Nat) :
    (cx.surroundings host).judge st (.core .position []) S k = (.ok (.number (Number.ofNat k)), st) := by
  simp only [Surroundings.judge, Context.surroundings, Setting.surroundings_test]
  rfl

/-- It is told the size of the set. -/
theorem Context.judge_last (hi : i < S.length) (hlen : S.length < Walk.limit) :
    (cx.surroundings host).judge st (.core .last []) S (i + 1) = (.ok (.number (Number.ofNat S.length)), st) := by
  have hrun : ((cx.surroundings host).test (listMotion (cx.surroundings host)) (.core .last [])).runOn
      (.at S (i + 1)) st = (.ok (.number (Number.ofNat S.length)), .at S (i + 1), st) := by
    rw [Context.surroundings, Setting.surroundings_test]
    show Walk.runOn (((listMotion (cx.surroundings host)).listSet >>= fun nodes =>
      pure (Value.number (Number.ofNat nodes.length))) >>= fun v => _) _ _ = _
    rw [Walk.runOn_bind, Walk.runOn_bind, runOn_listSet_at hi hlen]
    rfl
  simp only [Surroundings.judge, hrun]

/-- The context node is the node at the position. -/
theorem IsDocument.judge_itself (h : IsDocument st root) (hc : cx.Settled host st) (hS : S.Sublist (root.listing st))
    (hi : i < S.length) : ((cx.surroundings host).judge st .itself S (i + 1)).1 = .ok (.pointer S[i]) := by
  have hmem : S[i] ∈ root.listing st := hS.mem (List.getElem_mem hi)
  obtain ⟨r, hr, -⟩ := h.place hmem
  -- The path moves its cursor in surroundings that are one level less deep.
  have hgrounded : Grounded st (cx.setting host).inner := by
    refine ⟨hc.closed, hc.sound, fun _ hw => ?_⟩
    rw [Setting.inner]
    exact ((hc.within.mono hw.size_le).setting hc.host).surroundingsTo _
  rw [hr] at hmem
  have hwalk : (cx.setting host).inner.CanWalk st [⟨.self, .type .node, []⟩] [.json r] :=
    ⟨show 1 < Walk.limit by decide, fun _ _ => trivial, trivial⟩
  obtain ⟨sets, hsucceeds, hsets⟩ := h.succeeds hgrounded hmem hwalk
  obtain ⟨stands, htraverses, hunfailing, hbefore⟩ := hsucceeds.unfailing
  have hst : st.Extends st := .refl hc.sound
  obtain ⟨p?, c₂, st₂, hrun⟩ := hunfailing.first htraverses hbefore hsucceeds.delivers.fresh _ hst
  obtain ⟨-, rfl⟩ := htraverses.first hbefore hsucceeds.delivers.fresh _ hst _ _ _ hrun
  rw [hsets, show (cx.setting host).inner.eager st [⟨.self, .type .node, []⟩] [.json r] = [.json r] from rfl]
    at hrun
  have hfirst : (((cx.setting host).evaluatorTo (cx.setting host).inner 0).first
      (.ofPath st (.json r) [⟨.self, .type .node, []⟩])).runOn st = (.ok (some (.json r)), st₂) := by
    rw [Evaluator.first, Evaluator.runOn_on, Setting.evaluatorTo_surroundings]
    exact congrArg (fun run => (run.1, run.2.2)) hrun
  have hpath : (((cx.setting host).evaluatorTo (cx.setting host).inner 0).locationPath
      (listMotion (cx.surroundings host)) false [⟨.self, .type .node, []⟩]).runOn (.at S (i + 1)) st =
        (.ok (.ofPath st (.json r) [⟨.self, .type .node, []⟩]), .at S (i + 1), st) := by
    rw [Evaluator.locationPath, if_neg Bool.false_ne_true, Walk.runOn_bind, runOn_current_at hi, hr]
    rfl
  have hvalue : (((cx.setting host).evaluatorTo (cx.setting host).inner 1).value
      (listMotion (cx.surroundings host)) .itself).runOn (.at S (i + 1)) st =
        (.ok (.pointer (.json r)), .at S (i + 1), st₂) := Evaluator.runOn_firstNode hpath hfirst
  have hsize : Expr.itself.size = 1 := rfl
  rw [hr, Surroundings.judge, Context.surroundings, Setting.surroundings_test]
  dsimp only
  rw [Setting.predicateEvaluator, hsize, Walk.runOn_bind, ← Context.surroundings, hvalue]
  rfl

end

/-! ## §D  One predicate -/

section

variable {st st₁ st' : Store} {s : Surroundings} {root : Pointer} {S nodes : List Pointer} {e : Expr} {c' : Cursor}

/-- The cursor of a predicate over one set in document order. -/
def Cursor.ofSet (S : List Pointer) (e : Expr) : Cursor := (Cursor.ofNodes S .ascending).pushCondition e

namespace IsDocument

variable (h : IsDocument st root) (hs : Grounded st s) (hS : S.Sublist (root.listing st))

include h hs hS

/-- Nodes of a document that are in its order are arranged. -/
theorem arranged_eq_self : arranged (root.listing st) .ascending S = S := by
  have hg := h.charted hs
  exact eq_of_pairwise_before (hg.pairwise_arranged S) (hg.listing.before.sublist hS) fun _ =>
    hg.mem_arranged fun _ => hS.mem

omit hs in
theorem length_le_of_sublist : S.length ≤ Number.exactBound := hS.length_le.trans h.narrow

/-- The nodes of a document are the same in every store. -/
theorem known_alike {w : World} (hw : st.Extends w.base) :
    (Stage.known S .ascending).Alike w (.known S .ascending) :=
  .known _ (List.forall₂_same.mpr fun _ hp => (h.charted hs).realm.alike (hS.mem hp) hw)

theorem delivers_ofSet (e : Expr) : (Cursor.ofSet S e).Delivers st s (· ∈ root.listing st) [s.keep st e S] :=
  (Cursor.Delivers.known hs (h.charted hs).realm rfl (fun _ => h.known_alike hs hS) (fun _ => hS.mem)
    (h.length_le_of_sublist hS)).pushCondition hs (h.charted hs).realm e

theorem succeeds_ofSet (hjudge : s.CanJudge st e S) :
    (Cursor.ofSet S e).Succeeds st s (· ∈ root.listing st) [s.keep st e S] :=
  (Cursor.Succeeds.known hs (h.charted hs).realm rfl (fun _ => h.known_alike hs hS) (fun _ => hS.mem)
    (h.length_le_of_sublist hS)).pushCondition hs (h.charted hs).realm (List.forall_mem_singleton.mpr hjudge)

/-- **What a predicate over one set delivers** without an error are the nodes that it selects. -/
theorem eq_keep_of_deliverRest (hst : st.Extends st₁)
    (hrun : ((Cursor.ofSet S e).motion s).deliverRest.runOn (.ofSet S e) st₁ = (.ok (nodes, none), c', st')) :
    nodes = s.keep st e S := by
  have hdelivers := h.delivers_ofSet hs hS e
  obtain ⟨stands, htraverses, hc⟩ := hdelivers.traverses
  have hmem : ∀ p ∈ [s.keep st e S].flatten, p ∈ root.listing st := fun p hp => hdelivers.covers.mem_flatten hp
  rw [(htraverses.deliverRest (h.charted hs) hmem hc hst hrun).2, List.flatten_singleton]
  exact h.arranged_eq_self hs ((Surroundings.keep_sublist e S).trans hS)

/-- **A predicate that can be judged** at every node of the set delivers the nodes that it selects. -/
theorem runOn_deliverRest_ofSet (hst : st.Extends st₁) (hjudge : s.CanJudge st e S) :
    ∃ c' st', ((Cursor.ofSet S e).motion s).deliverRest.runOn (.ofSet S e) st₁ = (.ok (s.keep st e S, none), c', st') := by
  have hkept : (s.keep st e S).Sublist (root.listing st) := (Surroundings.keep_sublist e S).trans hS
  have hshort : [s.keep st e S].flatten.length < Walk.limit := by
    rw [List.flatten_singleton]
    exact Nat.lt_of_le_of_lt (h.length_le_of_sublist hkept) Number.exactBound_lt_limit
  obtain ⟨c', st', hrest⟩ := (h.succeeds_ofSet hs hS hjudge).runOn_deliverRest (h.charted hs) h.narrow hshort hst
  have horder : (Cursor.ofSet S e).order = .ascending := rfl
  rw [horder, List.flatten_singleton, h.arranged_eq_self hs hkept] at hrest
  exact ⟨c', st', hrest⟩

end IsDocument

end

/-! ## §E  Parentheses -/

/-- **IsOneSet** says that the nodes of an expression in parentheses are one set. A predicate sees a node of the set as
the context node, its position, and the size of the set; what it selects comes in document order, and is all that is
delivered; and a position selects one node, or none beyond the last. -/
structure Context.IsOneSet (c : Context) (host : Host) (st : Store) (p : Expr) (S : List Pointer) : Prop where
  sees : ∀ i (hi : i < S.length),
    ((c.surroundings host).judge st .itself S (i + 1)).1 = .ok (.pointer S[i]) ∧
    ((c.surroundings host).judge st (.core .position []) S (i + 1)).1 = .ok (.number (Number.ofNat (i + 1))) ∧
    ((c.surroundings host).judge st (.core .last []) S (i + 1)).1 = .ok (.number (Number.ofNat S.length))
  ordered : ∀ e, ((c.surroundings host).keep st e S).Pairwise (Pointer.Before st)
  selected : ∀ e, e.WellFormed DigitValue → (c.surroundings host).CanJudge st e S →
    c.Iterates host st (.filter p [e] []) ((c.surroundings host).keep st e S)
  delivered : ∀ e text nodes st', Expr.parse text = .ok (.filter p [e] []) →
    (c.iteratePointers host text).runOn st = (.ok (nodes, none), st') → nodes = (c.surroundings host).keep st e S
  numbered : ∀ i, c.Iterates host st (.filter p [JsonRef.position i] []) S[i]?.toList

section

variable {cx : Context} {host : Host} {st st₁ : Store} {root : Pointer} {p e : Expr} {nodes : List Pointer}

/-- A predicate behind parentheses is applied to all nodes in document order. -/
theorem Context.Comprises.runOn_pointers_filter (h : cx.Comprises host st root p nodes) (hroot : IsDocument st root)
    (hc : cx.Settled host st) (hst : st.Extends st₁) (e : Expr) : ∃ st₂, st.Extends st₂ ∧
      ((cx.setting host).pointers (.filter p [e] [])).runOn st₁ =
        (((cx.setting host).evaluator (.filter p [e] [])).on
          (.ofSet (arranged (root.listing st) .ascending nodes) e) Motion.deliverRest).runOn st₂ := by
  obtain ⟨st₂, hext, hopening⟩ := h.runOn_opening hroot hc hst
  refine ⟨st₂, hext, ?_⟩
  rw [Setting.pointers, Eval.runOn_bind, Setting.runOn_compute_filter, Eval.runOn_bind, hopening]
  rfl

/-- **A position** selects the node there, if there is one, also when it is greater than every position. -/
theorem Context.keep_position_eq (hlen : nodes.length ≤ Number.exactBound) (i : Nat) :
    (cx.surroundings host).keep st (JsonRef.position i) nodes = nodes[i]?.toList := by
  by_cases hi : i < Number.exactBound
  · exact Context.keep_position cx host st hi hlen
  · rw [List.getElem?_eq_none (by omega), Option.toList_none, List.eq_nil_iff_forall_not_mem]
    intro p hp
    obtain ⟨⟨q, k⟩, hk, rfl⟩ := List.mem_map.mp hp
    obtain ⟨hk, hselects⟩ := List.mem_filter.mp hk
    obtain ⟨h1, h2, -⟩ := List.mem_zipIdx hk
    rw [JsonRef.position, Surroundings.selects_number (congrArg Prod.fst (Context.judge_number _ _)),
      numberOfText_ne_of_bound_lt (by omega) h1 (by omega)] at hselects
    cases hselects

/-- **A path in parentheses is one set of nodes in document order**: a location path or a union that delivers some nodes
of a document without an error is, in parentheses, the set of these nodes in strict document order, whatever order it
delivers them in and however often. -/
theorem parenthesised_isOneSet (hc : cx.Settled host st) (hroot : IsDocument st root)
    (h : cx.Comprises host st root p nodes) :
    ∃ S, S.Pairwise (Pointer.Before st) ∧ (∀ q, q ∈ S ↔ q ∈ nodes) ∧ cx.IsOneSet host st p S := by
  have hs := hc.grounded
  have hg := hroot.charted hs
  have hmem := h.among hroot hc
  have hsublist : (arranged (root.listing st) .ascending nodes).Sublist (root.listing st) := List.filter_sublist
  have hlen := hroot.length_le_of_sublist hsublist
  have hwf : p.WellFormed DigitValue := by
    obtain ⟨text, -, htext, -⟩ := h.delivered
    exact Expr.wellFormed_of_parse htext
  have hselected : ∀ e, e.WellFormed DigitValue →
      (cx.surroundings host).CanJudge st e (arranged (root.listing st) .ascending nodes) →
      cx.Iterates host st (.filter p [e] [])
        ((cx.surroundings host).keep st e (arranged (root.listing st) .ascending nodes)) := by
    intro e he hjudge
    refine ⟨Expr.WellFormed.exists_parse (.filter hwf (.inl (List.cons_ne_nil _ _)) (List.forall_mem_singleton.mpr he)
      (fun _ hs => nomatch hs) fun _ hs => nomatch hs), fun text htext => ?_⟩
    have hst : st.Extends (st.compiled text) := (Store.Extends.refl hc.sound).compile text
    obtain ⟨st₂, hext, hpointers⟩ := h.runOn_pointers_filter hroot hc hst e
    obtain ⟨c', st₃, hrest⟩ := hroot.runOn_deliverRest_ofSet hs hsublist hext hjudge
    refine ⟨st₃, (Context.runOn_iteratePointers_iff hc.sound htext).mpr ?_⟩
    rw [hpointers, Setting.runOn_on]
    exact congrArg (fun run => (run.1, run.2.2)) hrest
  refine ⟨arranged (root.listing st) .ascending nodes, hg.pairwise_arranged nodes, fun q => hg.mem_arranged hmem, {
    sees := fun i hi => ⟨hroot.judge_itself hc hsublist hi, congrArg Prod.fst (Context.judge_position ..),
      congrArg Prod.fst (Context.judge_last hi (Nat.lt_of_le_of_lt hlen Number.exactBound_lt_limit))⟩
    ordered := fun e => (hg.pairwise_arranged nodes).sublist (Surroundings.keep_sublist e _)
    selected := hselected
    delivered := fun e text qs st' htext hrun => ?_
    numbered := fun i => ?_ }⟩
  · have hst : st.Extends (st.compiled text) := (Store.Extends.refl hc.sound).compile text
    obtain ⟨st₂, hext, hpointers⟩ := h.runOn_pointers_filter hroot hc hst e
    rw [Context.runOn_iteratePointers_iff hc.sound htext, hpointers, Setting.runOn_on] at hrun
    rcases hrest : (Motion.deliverRest _).runOn (.ofSet (arranged (root.listing st) .ascending nodes) e) st₂ with
      ⟨r, c', st₃⟩
    rw [hrest] at hrun
    cases hrun
    exact hroot.eq_keep_of_deliverRest hs hsublist hext hrest
  · have hkeep : (cx.surroundings host).keep st (JsonRef.position i) (arranged (root.listing st) .ascending nodes) = _ :=
      Context.keep_position_eq hlen i
    rw [← hkeep]
    exact hselected _ (JsonRef.wellFormed_position i) (Context.canJudge_position i)

end

/-- The steps to both members of the twins and from there upwards to named nodes. -/
def bothUpwards : List Step :=
  [⟨.child, .name (.plain "a"), []⟩, ⟨.child, .name (.plain "b"), []⟩, ⟨.ancestor, .name (.plain "*"), []⟩]

/-- The ancestors of both members are iterated over from the last one on; in parentheses they are counted from the first
one on, and there is no third. -/
theorem parenthesised_isOneSet_twins :
    ∃ nodes S : List Pointer, twinPaths nodes = ["/a[2]", "/a[1]"] ∧ (∀ q, q ∈ S ↔ q ∈ nodes) ∧
      twinPaths S[0]?.toList = ["/a[1]"] ∧ twinPaths S[1]?.toList = ["/a[2]"] ∧ twinPaths S[2]?.toList = [] ∧
      (∃ st', (Context.atTop.iteratePointers stockHost "(a/b/ancestor::*)[2]").runOn (.holding twinDocument) =
        (.ok (S[1]?.toList, none), st')) := by
  have htext : Expr.parse "a/b/ancestor::*" = .ok (.path false bothUpwards) := by decide +kernel
  obtain ⟨nodes, hpaths, ⟨absolute, steps, hpath, hstart⟩, hdelivered⟩ :=
    @locates_twins _ _ ["/a[2]", "/a[1]"] htext (by decide +kernel)
  obtain ⟨S, -, hmem, hset⟩ := parenthesised_isOneSet (Context.settled_atTop _) isDocument_twin
    ⟨.inl ⟨absolute, steps, hpath, hstart⟩, hdelivered⟩
  have hat : ∀ {i text paths}, Expr.parse text = .ok (.filter (.path false bothUpwards) [JsonRef.position i] []) →
      (iterated? .atTop stockHost text (.holding twinDocument)).map twinPaths = some paths →
      twinPaths S[i]?.toList = paths := by
    intro i text paths htext hpaths
    obtain ⟨st', hrun⟩ := (hset.numbered i).delivered text htext
    rw [iterated?, hrun] at hpaths
    exact Option.some.inj hpaths
  refine ⟨nodes, S, hpaths, hmem, ?_, ?_, ?_, (hset.numbered 1).delivered _ (by decide +kernel)⟩
  · exact @hat 0 "(a/b/ancestor::*)[1]" _ (by decide +kernel) (by decide +kernel)
  · exact @hat 1 "(a/b/ancestor::*)[2]" _ (by decide +kernel) (by decide +kernel)
  · exact @hat 2 "(a/b/ancestor::*)[3]" _ (by decide +kernel) (by decide +kernel)

end NodePath
