/-
# NodePath.Proofs.Unions — unions are sets of nodes in document order

A union takes all nodes of its operands and sorts them. All nodes of a path are those that are delivered when it is
iterated over; those of a union are known. So a union has every node of its operands once, in document order, whatever
the operands are: in which order and how often each of them delivers its nodes, in which order they stand, and how they
are put together by unions.

* §A  All nodes of a path.
* §B  Arranged nodes.
* §C  Operands.
* §D  Unions of location paths.
-/
import NodePath.Proofs.Operations
import NodePath.Proofs.ParsedTree
import NodePath.Proofs.Reading

namespace NodePath

section

variable {base st st₁ st' : Store} {s : Surroundings} {m : Motion} {all nodes : List Pointer} {c c' : Cursor}
  {root : Pointer}

/-! ## §A  All nodes of a path -/

/-- **All nodes of a path** are those that it delivers, in every store that extends the base. -/
theorem IsDocument.nodeSet_of_deliverRest (h : IsDocument st root) (hs : Grounded st s) {r : JsonRef}
    (hstart : .json r ∈ root.listing st) {steps : List Step} (hst : st.Extends st₁)
    (hrun : ((Cursor.ofPath st (.json r) steps).motion s).deliverRest.runOn (.ofPath st (.json r) steps) st₁ =
      (.ok (nodes, none), c', st')) :
    ((Cursor.ofPath st (.json r) steps).motion s).nodeSet.Yields st (.ofPath st (.json r) steps) fun ps _ => ps = nodes := by
  obtain ⟨sets, hdelivers, -⟩ := h.delivers hs hstart steps
  obtain ⟨stands, htraverses, hc⟩ := hdelivers.traverses
  have hmem : ∀ p ∈ sets.flatten, p ∈ root.listing st := fun p hp => hdelivers.covers.mem_flatten hp
  -- Draining does not fail where all nodes were delivered, and so it does not fail in any other store.
  obtain ⟨drained, _, _, hdrain⟩ := htraverses.drain_answers hc hst hrun
  have hworks := hs.works_of_runOn (fun w hw => (htraverses.natural w hw).drain) (htraverses.settled hc) hst hdrain
  have hyields : ((Cursor.ofPath st (.json r) steps).motion s).drain.Yields st (.ofPath st (.json r) steps)
      fun ps _ => ps = sets.flatten ∧ True := ⟨hworks, (htraverses.drain hc).mono fun _ _ hd => ⟨hd.1, trivial⟩⟩
  rw [(htraverses.deliverRest (h.charted hs) hmem hc hst hrun).2]
  exact ((h.charted hs).nodeSet (Q := fun _ => True) (htraverses.faces hc).2.1 hmem hyields).mono fun _ _ hps => hps.1

/-! ## §B  Arranged nodes -/

variable {ps qs : List Pointer}

theorem Charted.pairwise_arranged (hg : Charted base s all) (ps : List Pointer) :
    (arranged all .ascending ps).Pairwise (Pointer.Before base) := hg.listing.before.filter _

/-- The same nodes are arranged alike, whatever their order and however often they come. -/
theorem Charted.arranged_congr (hg : Charted base s all) (hps : ∀ p ∈ ps, p ∈ all) (hmem : ∀ p, p ∈ ps ↔ p ∈ qs) :
    arranged all .ascending ps = arranged all .ascending qs := by
  have hqs : ∀ p ∈ qs, p ∈ all := fun p hp => hps p ((hmem p).mpr hp)
  refine eq_of_pairwise_before (hg.pairwise_arranged ps) (hg.pairwise_arranged qs) fun p => ?_
  rw [hg.mem_arranged hps, hg.mem_arranged hqs, hmem p]

/-- **A cursor over arranged nodes** roams, and delivers them. -/
theorem IsDocument.roams_arranged (h : IsDocument st root) (hs : Grounded st s) (hps : ∀ p ∈ ps, p ∈ root.listing st) :
    ∃ stands, Roams st s .still (root.listing st) stands [arranged (root.listing st) .ascending ps]
        (.ofNodes (arranged (root.listing st) .ascending ps) .ascending) ∧
      Place.before.toDeliver (root.listing st) .ascending [arranged (root.listing st) .ascending ps] =
        arranged (root.listing st) .ascending ps := by
  have hg := h.charted hs
  have hnodes : ∀ p ∈ arranged (root.listing st) .ascending ps, p ∈ root.listing st := fun p hp =>
    (List.filter_sublist).mem hp
  have hlimit : ∀ ps, (arranged (root.listing st) .ascending ps).length < Walk.limit := fun ps =>
    Nat.lt_of_le_of_lt ((List.length_filter_le _ _).trans h.narrow) Number.exactBound_lt_limit
  have hknows : (Stage.known (arranged (root.listing st) .ascending ps) .ascending).knows = some _ := rfl
  refine ⟨_, roams_known hg hknows (fun w hw => ?_) hnodes (hlimit ps) (hlimit _), ?_⟩
  · exact .known _ (List.forall₂_same.mpr fun p hp => hg.realm.alike (hnodes p hp) hw)
  · rw [Place.toDeliver, if_neg Order.noConfusion, Place.later, List.flatten_singleton]
    exact hg.arranged_congr hnodes fun p => hg.mem_arranged hps

/-! ## §C  Operands -/

/-- **Operands** says that some expressions are leaves, or unions of operands, and which nodes the leaves have. -/
inductive Operands (leaf : Expr → List Pointer → Prop) : List Expr → List Pointer → Prop
  | nil : Operands leaf [] []
  | single {e : Expr} {es : List Expr} {ps qs : List Pointer} : leaf e ps → Operands leaf es qs →
    Operands leaf (e :: es) (ps ++ qs)
  | union {args es : List Expr} {ps qs : List Pointer} : Operands leaf args ps → Operands leaf es qs →
    Operands leaf (.operation .union args :: es) (ps ++ qs)

/-- **Locates** says that an expression is a location path in a document, and that an iteration over a text of it
delivers these nodes and no error. -/
structure Context.Locates (c : Context) (host : Host) (st : Store) (root : Pointer) (e : Expr) (nodes : List Pointer) :
    Prop where
  isPath : ∃ absolute steps, e = .path absolute steps ∧ c.startOf absolute ∈ root.listing st
  delivered : ∃ text st', Expr.parse text = .ok e ∧
    (c.iteratePointers host text).runOn st = (.ok (nodes, none), st')

/-- **Gathers** says that a walk comes to the same nodes as those of a list, and moves nothing. -/
def Gathers (c : Cursor) (ps qs : List Pointer) (d : Cursor) : Prop := (∀ p, p ∈ qs ↔ p ∈ ps) ∧ d = c

/-- All nodes of another cursor, as a part of a walk. -/
theorem Evaluator.yields_nodeSet {ev : Evaluator} {d : Cursor} {Q : List Pointer → Prop}
    (h : (d.motion ev.surroundings).nodeSet.Yields base d fun ps _ => Q ps) (c : Cursor) :
    (liftM (ev.nodeSet d) : Walk (List Pointer)).Yields base c fun ps c' => Q ps ∧ c' = c := by
  have hrun : ∀ st, (liftM (ev.nodeSet d) : Walk (List Pointer)).runOn c st =
      (((d.motion ev.surroundings).nodeSet.runOn d st).1, c, ((d.motion ev.surroundings).nodeSet.runOn d st).2.2) := by
    intro st
    rw [Walk.runOn_monadLift, Evaluator.nodeSet, Evaluator.runOn_on]
  constructor
  · intro st hst
    obtain ⟨ps, d', st', hd⟩ := h.works st hst
    exact ⟨ps, c, st', by rw [hrun, hd]⟩
  · intro st hst ps c' st' hc'
    obtain ⟨ps', d', st₁, hd⟩ := h.works st hst
    obtain ⟨hext, hps⟩ := h.ensures st hst _ _ _ hd
    rw [hrun, hd] at hc'
    cases hc'
    exact ⟨hext, hps, rfl⟩

/-- The nodes of one more operand. -/
theorem Walk.Yields.mapM_cons {f : Expr → Walk (List Pointer)} {e : Expr} {es : List Expr}
    (he : (f e).Yields base c (Gathers c ps))
    (hes : (es.mapM f).Yields base c fun parts => Gathers c qs parts.flatten) :
    ((e :: es).mapM f).Yields base c fun parts => Gathers c (ps ++ qs) parts.flatten := by
  rw [List.mapM_cons]
  refine he.bind fun part d hpart => ?_
  obtain ⟨hpart, rfl⟩ := hpart
  refine hes.bind fun parts d hparts => .pure ⟨fun p => ?_, hparts.2⟩
  rw [List.flatten_cons, List.mem_append, List.mem_append, hpart, hparts.1]

section

variable {cx : Context} {host : Host} {e : Expr} {es : List Expr} {around : Surroundings} {depth : Nat} {st₀ : Store}

theorem Context.Locates.among (h : cx.Locates host st root e nodes) (hroot : IsDocument st root)
    (hc : cx.Settled host st) : ∀ p ∈ nodes, p ∈ root.listing st := by
  obtain ⟨⟨absolute, steps, rfl, hstart⟩, text, st', htext, hrun⟩ := h
  intro p hp
  have hmem := (hroot.mem_iteratePointers hc hstart htext hrun).mp hp
  obtain ⟨r, hr, -⟩ := hroot.place hstart
  rw [hr] at hstart hmem
  exact hroot.mem_of_mem_eager hc.grounded hstart hmem

/-- A path that is an operand has the nodes that it delivers. -/
theorem Context.Locates.unionNodes (h : cx.Locates host st root e nodes) (hroot : IsDocument st root)
    (hc : cx.Settled host st) (hdepth : e.size ≤ depth) :
    (((cx.setting host).evaluatorTo (cx.surroundings host) depth).unionNodes (.ofLength around 1) e).Yields st
      (.startAt st₀ cx.contextPointer) (Gathers (.startAt st₀ cx.contextPointer) nodes) := by
  obtain ⟨⟨absolute, steps, rfl, hstart⟩, text, st', htext, hrun⟩ := h
  obtain ⟨r, hr, -⟩ := hroot.place hstart
  obtain ⟨c', hall⟩ := Context.deliverRest_of_iteratePointers hc hr htext hrun
  rw [hr] at hstart
  have hnodes := hroot.nodeSet_of_deliverRest hc.grounded hstart ((Store.Extends.refl hc.sound).compile text) hall
  obtain ⟨depth, rfl⟩ : ∃ n, depth = n + 1 := ⟨depth - 1, by rw [Expr.size] at hdepth; omega⟩
  have hstart' : (cx.setting host).context.startOf absolute = .json r := hr
  have hlazy := fun st₁ => @Setting.runOn_lazyTo_path st₀ st₁ _ _ steps _ hstart' (cx.surroundings host) depth around
  refine (Walk.Yields.of_runOn hlazy (Q := fun v d => v = .nodes (.ofPath st (.json r) steps) ∧
    d = .startAt st₀ cx.contextPointer) ⟨rfl, rfl⟩).bind fun v d hv => ?_
  obtain ⟨rfl, rfl⟩ := hv
  refine (Evaluator.yields_nodeSet (Q := (· = nodes)) ?_ _).mono fun ps d hps => ⟨fun p => by rw [hps.1], hps.2⟩
  rw [Setting.evaluatorTo_surroundings]
  exact hnodes

/-- **A union of operands** is a cursor over their nodes in document order. -/
theorem IsDocument.yields_unionOf (hroot : IsDocument st root) (hs : Grounded st s) {ev : Evaluator}
    (hps : ∀ p ∈ ps, p ∈ root.listing st)
    (h : (es.mapM (ev.unionNodes m)).Yields st c fun parts => Gathers c ps parts.flatten) :
    (ev.unionOf m es).Yields st c fun u d =>
      u = .ofNodes (arranged (root.listing st) .ascending ps) .ascending ∧ d = c := by
  have hg := hroot.charted hs
  refine h.bind fun parts d hparts => .store_bind fun st₁ hst => ?_
  obtain ⟨hmem, rfl⟩ := hparts
  have hparts : ∀ p ∈ parts.flatten, p ∈ root.listing st := fun p hp => hps p ((hmem p).mp hp)
  rw [hg.sortDistinct hparts Order.noConfusion hst, hg.arranged_congr hparts hmem]
  exact (Walk.Yields.pure (Q := fun nodes d' => nodes = arranged (root.listing st) .ascending ps ∧ d' = d)
    ⟨rfl, rfl⟩).bind fun nodes d' hnodes => .pure ⟨by rw [hnodes.1], hnodes.2⟩

namespace Operands

theorem among (h : Operands (cx.Locates host st root) es ps) (hroot : IsDocument st root) (hc : cx.Settled host st) :
    ∀ p ∈ ps, p ∈ root.listing st := by
  induction h with
  | nil => exact fun p hp => nomatch hp
  | single he _ ih => exact fun p hp => (List.mem_append.mp hp).elim (he.among hroot hc p) (ih p)
  | union _ _ ihargs ih => exact fun p hp => (List.mem_append.mp hp).elim (ihargs p) (ih p)

/-- **The nodes of operands** are those of their leaves. -/
theorem gathers (h : Operands (cx.Locates host st root) es ps) (hroot : IsDocument st root) (hc : cx.Settled host st)
    (hdepth : Expr.sizeAll es ≤ depth) (around : Surroundings) (st₀ : Store) :
    (es.mapM (((cx.setting host).evaluatorTo (cx.surroundings host) depth).unionNodes (.ofLength around 1))).Yields st
      (.startAt st₀ cx.contextPointer) fun parts => Gathers (.startAt st₀ cx.contextPointer) ps parts.flatten := by
  induction h generalizing depth with
  | nil => exact .pure ⟨fun p => Iff.rfl, rfl⟩
  | single he _ ih =>
    rw [Expr.sizeAll] at hdepth
    exact .mapM_cons (he.unionNodes hroot hc (by omega)) (ih (by omega))
  | @union args es ps qs hargs _ ihargs ih =>
    rw [Expr.sizeAll, Expr.size] at hdepth
    refine .mapM_cons ?_ (ih (by omega))
    -- The operands of the inner union are evaluated one level less deep.
    obtain ⟨depth, rfl⟩ : ∃ n, depth = n + 1 := ⟨depth - 1, by omega⟩
    have hps := hargs.among hroot hc
    have hg := hroot.charted hc.grounded
    have hunion := hroot.yields_unionOf hc.grounded hps (@ihargs depth (by omega))
    obtain ⟨stands, hroams, hdeliver⟩ := hroot.roams_arranged hc.grounded hps
    have hlazy := hunion.bind (R := fun v d => v = .nodes (.ofNodes (arranged (root.listing st) .ascending ps) .ascending) ∧
      d = .startAt st₀ cx.contextPointer) fun u d hu => .pure (a := Value.nodes u) ⟨by rw [hu.1], hu.2⟩
    refine Walk.Yields.bind (m := ((cx.setting host).evaluatorTo (cx.surroundings host) (depth + 1)).lazy _ _) hlazy
      fun v d hv => ?_
    obtain ⟨rfl, rfl⟩ := hv
    refine (Evaluator.yields_nodeSet (Q := (· = arranged (root.listing st) .ascending ps)) ?_ _).mono fun nodes d hnodes =>
      ⟨fun p => by rw [hnodes.1, hg.mem_arranged hps], hnodes.2⟩
    rw [Setting.evaluatorTo_surroundings]
    exact (hroams.nodeSet (.walking hroams.begins) rfl).mono fun nodes d hnodes => hnodes.1.trans ((if_pos rfl).trans hdeliver)

/-! ## §D  Unions of location paths -/

/-- A union comes to a cursor over its nodes. -/
theorem runOn_compute (h : Operands (cx.Locates host st root) es ps) (hroot : IsDocument st root)
    (hc : cx.Settled host st) (hst : st.Extends st₁) : ∃ st₂, st₁.Extends st₂ ∧
      ((cx.setting host).compute (.operation .union es)).runOn st₁ =
        (.ok (.nodes (.ofNodes (arranged (root.listing st) .ascending ps) .ascending)), st₂) := by
  obtain ⟨u, d, st₂, hunion, hext, rfl, rfl⟩ := (hroot.yields_unionOf hc.grounded (h.among hroot hc)
    (h.gathers hroot hc le_rfl (cx.surroundings host) st₁)).runOn hst
  have hlazy : (((cx.setting host).evaluator (.operation .union es)).lazy (.ofLength (cx.surroundings host) 1)
      (.operation .union es)).runOn (.startAt st₁ cx.contextPointer) st₁ =
        (.ok (.nodes (.ofNodes (arranged (root.listing st) .ascending ps) .ascending)),
          .startAt st₁ cx.contextPointer, st₂) := by
    show Walk.runOn (Evaluator.unionOf ((cx.setting host).evaluatorTo (cx.surroundings host) _) _ _ >>= fun u =>
      pure (Value.nodes u)) _ _ = _
    rw [Walk.runOn_bind, hunion]
    rfl
  refine ⟨st₂, hext, ?_⟩
  rw [Setting.compute, Eval.runOn_bind, Setting.runOn_start]
  dsimp only
  rw [Setting.runOn_on, Cursor.motion_startAt]
  exact congrArg (fun run => (run.1, run.2.2)) hlazy

/-- **A union is iterated over** in document order, each node of its operands once. -/
theorem iteratePointers (h : Operands (cx.Locates host st root) es ps) (hroot : IsDocument st root)
    (hc : cx.Settled host st) {text : String} (htext : Expr.parse text = .ok (.operation .union es)) :
    ∃ st', (cx.iteratePointers host text).runOn st = (.ok (arranged (root.listing st) .ascending ps, none), st') := by
  have hst : st.Extends (st.compiled text) := (Store.Extends.refl hc.sound).compile text
  obtain ⟨st₁, hext, hcompute⟩ := h.runOn_compute hroot hc hst
  obtain ⟨stands, hroams, hdeliver⟩ := hroot.roams_arranged hc.grounded (h.among hroot hc)
  obtain ⟨_, _, st', hrest, -, rfl⟩ := (hroams.deliverRest (.walking hroams.begins)).runOn (hst.trans hext)
  have hpointers : ((cx.setting host).pointers (.operation .union es)).runOn (st.compiled text) =
      (.ok (arranged (root.listing st) .ascending ps, none), st') := by
    rw [Setting.pointers, Eval.runOn_bind, hcompute]
    dsimp only
    rw [Setting.runOn_on]
    refine (congrArg (fun run => (run.1, run.2.2)) hrest).trans ?_
    exact congrArg (fun nodes => (Except.ok (nodes, none), st')) hdeliver
  refine ⟨st', ?_⟩
  rw [Context.iteratePointers, Reading.runOn_withText hc.sound htext, Eval.runOn_bind, hpointers]
  rfl

end Operands

/-- Every well-formed tree is read from some text. -/
theorem Expr.WellFormed.exists_parse (h : e.WellFormed DigitValue) : ∃ text, Expr.parse text = .ok e := by
  have hclear : ∀ (op : Operator) (cs : List Char), op.Clear (cs ++ [')']) := by
    intro op cs _ hlast
    simp at hlast
  obtain ⟨cs, hcs⟩ := h.groups hclear
  exact ⟨_, (hcs.loosen (Nat.zero_le _)).parse h⟩

/-- **Iterates** says that an expression has a text, and that an iteration over any of its texts delivers these nodes
and no error. -/
structure Context.Iterates (c : Context) (host : Host) (st : Store) (e : Expr) (nodes : List Pointer) : Prop where
  hasText : ∃ text, Expr.parse text = .ok e
  delivered : ∀ text, Expr.parse text = .ok e → ∃ st', (c.iteratePointers host text).runOn st = (.ok (nodes, none), st')

theorem Context.Locates.wellFormed (h : cx.Locates host st root e nodes) : e.WellFormed DigitValue := by
  obtain ⟨-, text, -, htext, -⟩ := h
  exact Expr.wellFormed_of_parse htext

/-- **Two unions with the same nodes** are iterated over alike. -/
theorem Operands.iterates (h : Operands (cx.Locates host st root) es qs) (hroot : IsDocument st root)
    (hc : cx.Settled host st) (hmem : ∀ p, p ∈ qs ↔ p ∈ ps)
    (hwf : (Expr.operation .union es).WellFormed DigitValue) :
    cx.Iterates host st (.operation .union es) (arranged (root.listing st) .ascending ps) where
  hasText := hwf.exists_parse
  delivered text htext := by
    rw [← (hroot.charted hc.grounded).arranged_congr (h.among hroot hc) hmem]
    exact h.iteratePointers hroot hc htext

/-- **A union is the set of the nodes of its operands in document order.** The union of two location paths delivers
exactly the nodes of both, in strict document order, whichever of them comes first; that of a path with itself delivers
the nodes of the path; and three paths come to the same list however the unions are nested. -/
theorem iteratePointers_union (hc : cx.Settled host st) (hroot : IsDocument st root) {a b d : Expr}
    {as bs ds : List Pointer} (ha : cx.Locates host st root a as) (hb : cx.Locates host st root b bs)
    (hd : cx.Locates host st root d ds) :
    (∃ nodes, nodes.Pairwise (Pointer.Before st) ∧ (∀ p, p ∈ nodes ↔ p ∈ as ∨ p ∈ bs) ∧
      cx.Iterates host st (.operation .union [a, b]) nodes ∧ cx.Iterates host st (.operation .union [b, a]) nodes) ∧
    (∃ nodes, nodes.Pairwise (Pointer.Before st) ∧ (∀ p, p ∈ nodes ↔ p ∈ as) ∧
      cx.Iterates host st (.operation .union [a, a]) nodes) ∧
    ∃ nodes, nodes.Pairwise (Pointer.Before st) ∧ (∀ p, p ∈ nodes ↔ p ∈ as ∨ p ∈ bs ∨ p ∈ ds) ∧
      cx.Iterates host st (.operation .union [.operation .union [a, b], d]) nodes ∧
      cx.Iterates host st (.operation .union [a, .operation .union [b, d]]) nodes ∧
      cx.Iterates host st (.operation .union [a, b, d]) nodes := by
  have hg := hroot.charted hc.grounded
  have pair : ∀ {e e' : Expr}, e.WellFormed DigitValue → e'.WellFormed DigitValue →
      (Expr.operation .union [e, e']).WellFormed DigitValue := fun he he' =>
    .operation le_rfl (List.forall_mem_cons.mpr ⟨he, List.forall_mem_singleton.mpr he'⟩)
  have two : ∀ {e e' : Expr} {ps qs : List Pointer}, cx.Locates host st root e ps → cx.Locates host st root e' qs →
      Operands (cx.Locates host st root) [e, e'] (ps ++ (qs ++ [])) := fun he he' => .single he (.single he' .nil)
  -- However unions are nested, their leaves are the operands, and the nodes of the leaves are what counts.
  have hwa := ha.wellFormed
  have hwb := hb.wellFormed
  have hwd := hd.wellFormed
  refine ⟨⟨arranged (root.listing st) .ascending (as ++ bs), hg.pairwise_arranged _, fun p => ?_, ?_, ?_⟩,
    ⟨arranged (root.listing st) .ascending as, hg.pairwise_arranged _, fun p => hg.mem_arranged (ha.among hroot hc), ?_⟩,
    ⟨arranged (root.listing st) .ascending (as ++ (bs ++ ds)), hg.pairwise_arranged _, fun p => ?_, ?_, ?_, ?_⟩⟩
  · have hall := (two ha hb).among hroot hc
    rw [hg.mem_arranged (by simpa using hall), List.mem_append]
  · exact (two ha hb).iterates hroot hc (fun p => by simp) (pair hwa hwb)
  · exact (two hb ha).iterates hroot hc (fun p => by simp [or_comm]) (pair hwb hwa)
  · exact (two ha ha).iterates hroot hc (fun p => by simp) (pair hwa hwa)
  · have hall := (Operands.single ha (two hb hd)).among hroot hc
    rw [hg.mem_arranged (by simpa using hall), List.mem_append, List.mem_append]
  · exact (Operands.union (two ha hb) (.single hd .nil)).iterates hroot hc (fun p => by simp)
      (pair (pair hwa hwb) hwd)
  · exact (Operands.single ha (.union (two hb hd) .nil)).iterates hroot hc (fun p => by simp) (pair hwa (pair hwb hwd))
  · refine (Operands.single ha (two hb hd)).iterates hroot hc (fun p => by simp) (.operation (Nat.le_succ 2) ?_)
    exact List.forall_mem_cons.mpr ⟨hwa, List.forall_mem_cons.mpr ⟨hwb, List.forall_mem_singleton.mpr hwd⟩⟩

end

end

/-- The steps to both members of the twins, those from the last of them upwards, and those from both objects to the
top. -/
def bothMembers : List Step := [⟨.child, .name (.plain "a"), []⟩, ⟨.child, .name (.plain "b"), []⟩]

def lastUpwards : List Step :=
  [⟨.child, .name (.plain "a"), [.core .last []]⟩, ⟨.child, .name (.plain "b"), []⟩, ⟨.ancestorOrSelf, .type .node, []⟩]

def topTwice : List Step := [⟨.child, .name (.plain "a"), []⟩, ⟨.parent, .type .node, []⟩]

theorem locates_twins {text : String} {steps : List Step} {paths : List String}
    (htext : Expr.parse text = .ok (.path false steps))
    (hpaths : (iterated? .atTop stockHost text (.holding twinDocument)).map twinPaths = some paths) :
    ∃ nodes, twinPaths nodes = paths ∧
      Context.atTop.Locates stockHost (.holding twinDocument) .firstTop (.path false steps) nodes := by
  obtain ⟨nodes, hnodes, hpaths⟩ := Option.map_eq_some_iff.mp hpaths
  obtain ⟨st', hrun⟩ := runOn_of_iterated? hnodes
  exact ⟨nodes, hpaths, ⟨false, steps, rfl, firstTop_mem_listing _⟩, text, st', htext, hrun⟩

/-- One path delivers in no order, one upwards, and one the same node twice: however they are united, their nodes come
in document order, and each comes once. -/
theorem iteratePointers_union_twins :
    ∃ as bs ds nodes, twinPaths as = ["/a[1]/b", "/a[2]/b"] ∧ twinPaths bs = ["/a[2]/b", "/a[2]", "/"] ∧
      twinPaths ds = ["/", "/"] ∧ twinPaths nodes = ["/", "/a[1]/b", "/a[2]", "/a[2]/b"] ∧
      (∀ p, p ∈ nodes ↔ p ∈ as ∨ p ∈ bs ∨ p ∈ ds) ∧
      (∃ st', (Context.atTop.iteratePointers stockHost "(a/b | a[last()]/b/ancestor-or-self::node()) | a/..").runOn
        (.holding twinDocument) = (.ok (nodes, none), st')) ∧
      (∃ st', (Context.atTop.iteratePointers stockHost "a/b | (a[last()]/b/ancestor-or-self::node() | a/..)").runOn
        (.holding twinDocument) = (.ok (nodes, none), st')) ∧
      ∃ st', (Context.atTop.iteratePointers stockHost "a/b | a[last()]/b/ancestor-or-self::node() | a/..").runOn
        (.holding twinDocument) = (.ok (nodes, none), st') := by
  have htextA : Expr.parse "a/b" = .ok (.path false bothMembers) := by decide +kernel
  have htextB : Expr.parse "a[last()]/b/ancestor-or-self::node()" = .ok (.path false lastUpwards) := by decide +kernel
  have htextD : Expr.parse "a/.." = .ok (.path false topTwice) := by decide +kernel
  obtain ⟨as, hpathsA, ha⟩ := @locates_twins _ _ ["/a[1]/b", "/a[2]/b"] htextA (by decide +kernel)
  obtain ⟨bs, hpathsB, hb⟩ := @locates_twins _ _ ["/a[2]/b", "/a[2]", "/"] htextB (by decide +kernel)
  obtain ⟨ds, hpathsD, hd⟩ := @locates_twins _ _ ["/", "/"] htextD (by decide +kernel)
  obtain ⟨-, -, nodes, -, hmem, hleft, hright, hflat⟩ :=
    iteratePointers_union (Context.settled_atTop _) isDocument_twin ha hb hd
  obtain ⟨st', hrun⟩ := hflat.delivered "a/b | a[last()]/b/ancestor-or-self::node() | a/.." (by decide +kernel)
  refine ⟨as, bs, ds, nodes, hpathsA, hpathsB, hpathsD, ?_, hmem,
    hleft.delivered _ (by decide +kernel), hright.delivered _ (by decide +kernel), st', hrun⟩
  have hpaths : (iterated? .atTop stockHost "a/b | a[last()]/b/ancestor-or-self::node() | a/.."
      (.holding twinDocument)).map twinPaths = some ["/", "/a[1]/b", "/a[2]", "/a[2]/b"] := by decide +kernel
  rw [iterated?, hrun] at hpaths
  exact Option.some.inj hpaths

end NodePath
