/-
# NodePath.Proofs.FullDelivery — paths that are delivered to their end

Every repetition of a cursor ends at a limit. This cuts off nothing: when the predicates of a path can be judged on the
lists that its steps lead through, and none of these lists has as many nodes as a repetition has rounds, no error comes
up, and all nodes are delivered.

* §A  Cursors that deliver in document order.
* §B  Cursors that cannot fail.
* §C  Iterating over a path.
-/
import NodePath.Proofs.CertainPath
import NodePath.Proofs.Operations

namespace NodePath

/-! ## §A  Document order -/

/-- The cursor with a list of nodes that are left to be delivered. -/
def Cursor.withSorted (c : Cursor) (nodes : List Pointer) : Cursor :=
  { c with frame := { c.frame with sorted := some nodes } }

section

variable {m : Motion} {c c' : Cursor} {st st' : Store} {nodes : List Pointer}

namespace Motion

/-- A cursor with such a list delivers the first node of it. -/
theorem runOn_deliver_withSorted (m : Motion) (c : Cursor) (nodes : List Pointer) (st : Store) :
    m.deliver.runOn (c.withSorted nodes) st = (.ok nodes.head?, c.withSorted (nodes.drop 1), st) := by
  have hprepare : m.prepare.runOn (c.withSorted nodes) st = (.ok (), c.withSorted nodes, st) := by
    rw [Motion.prepare, Walk.runOn_cursor_bind, Walk.runOn_frame_bind]
    rfl
  rw [Motion.deliver, Walk.runOn_bind, hprepare]
  rfl

/-- It delivers all of them, if there are rounds enough. -/
theorem runOn_deliverUpTo_withSorted (m : Motion) (c : Cursor) (nodes : List Pointer) (times : Nat)
    (taken : List Pointer) (st : Store) : ∃ c', (m.deliverUpTo times taken).runOn (c.withSorted nodes) st =
      (.ok (if nodes.length < times then (taken.reverse ++ nodes, none)
        else (taken.reverse ++ nodes.take times, some (.evaluation .exhausted))), c', st) := by
  induction times generalizing nodes taken with
  | zero =>
    refine ⟨c.withSorted nodes, ?_⟩
    rw [if_neg (Nat.not_lt_zero _), List.take_zero, List.append_nil]
    rfl
  | succ times ih =>
    rw [Motion.deliverUpTo, Walk.runOn_bind, Walk.runOn_attempt, m.runOn_deliver_withSorted]
    cases nodes with
    | nil =>
      refine ⟨c.withSorted [], ?_⟩
      rw [if_pos (show [].length < times + 1 from Nat.succ_pos times), List.append_nil]
      rfl
    | cons p nodes =>
      obtain ⟨c', hrest⟩ := ih nodes (p :: taken)
      refine ⟨c', hrest.trans ?_⟩
      simp only [List.length_cons, Nat.add_lt_add_iff_right, List.reverse_cons, List.append_assoc, List.singleton_append,
        List.take_succ_cons]

variable (hsorted : c.frame.sorted = none) (horder : c.order ≠ .unordered)

include hsorted horder

/-- Before a cursor delivers its first node in document order, it sorts all of them. -/
theorem runOn_prepare (m : Motion) (st : Store) : m.prepare.runOn c st =
    match (m.sortedNodes c.order).runOn c st with
    | (.ok nodes, c₁, st₁) => (.ok (), c₁.withSorted nodes, st₁)
    | (.error e, c₁, st₁) => (.error e, c₁.withSorted [], st₁) := by
  have hneeded : (c.frame.sorted.isNone && c.order != .unordered) = true := by
    rw [hsorted]
    simpa using horder
  rw [Motion.prepare, Walk.runOn_cursor_bind, Walk.runOn_frame_bind, if_pos hneeded, Walk.runOn_bind,
    Walk.runOn_attempt]
  rcases (m.sortedNodes c.order).runOn c st with ⟨r, c₁, st₁⟩
  cases r <;> rfl

/-- **Delivering all nodes in document order** comes down to sorting them. -/
theorem runOn_deliverRest (m : Motion) (st : Store) : ∃ c', m.deliverRest.runOn c st =
    (.ok (match ((m.sortedNodes c.order).runOn c st).1 with
      | .ok nodes =>
        if nodes.length < Walk.limit then (nodes, none) else (nodes.take Walk.limit, some (.evaluation .exhausted))
      | .error e => ([], some e)), c', ((m.sortedNodes c.order).runOn c st).2.2) := by
  have hprepare := runOn_prepare hsorted horder m st
  obtain ⟨times, htimes⟩ : ∃ n, Walk.limit = n + 1 := Nat.exists_eq_succ_of_ne_zero (by decide)
  rcases hnodes : (m.sortedNodes c.order).runOn c st with ⟨r, c₁, st₁⟩
  rw [hnodes] at hprepare
  cases r with
  | error e =>
    refine ⟨c₁.withSorted [], ?_⟩
    rw [Motion.deliverRest, htimes, Motion.deliverUpTo, Walk.runOn_bind, Walk.runOn_attempt, Motion.deliver,
      Walk.runOn_bind, hprepare]
    rfl
  | ok nodes =>
    -- The first node is delivered as if the list had been there before.
    have hdeliver : m.deliver.runOn c st = m.deliver.runOn (c₁.withSorted nodes) st₁ := by
      rw [m.runOn_deliver_withSorted, Motion.deliver, Walk.runOn_bind, hprepare]
      rfl
    obtain ⟨c', hall⟩ := m.runOn_deliverUpTo_withSorted c₁ nodes Walk.limit [] st₁
    refine ⟨c', Eq.trans ?_ hall⟩
    rw [Motion.deliverRest, htimes, Motion.deliverUpTo, Walk.runOn_bind, Walk.runOn_attempt, hdeliver, Walk.runOn_bind,
      Walk.runOn_attempt]

/-- What is delivered in document order without an error is what is sorted. -/
theorem runOn_sortedNodes_of_deliverRest (h : m.deliverRest.runOn c st = (.ok (nodes, none), c', st')) :
    ∃ c₁, (m.sortedNodes c.order).runOn c st = (.ok nodes, c₁, st') := by
  obtain ⟨c₂, hrest⟩ := runOn_deliverRest hsorted horder m st
  rw [h] at hrest
  generalize (m.sortedNodes c.order).runOn c st = run at hrest ⊢
  obtain ⟨r, c₁, st₁⟩ := run
  cases r with
  | error e => cases hrest
  | ok sorted =>
    dsimp only at hrest
    split at hrest
    · cases hrest
      exact ⟨c₁, rfl⟩
    · cases hrest

omit hsorted in
/-- **What is sorted to be delivered** is what is taken at once. -/
theorem runOn_nodeSet_of_sortedNodes (hposition : c.frame.position = 0)
    (h : (m.sortedNodes c.order).runOn c st = (.ok nodes, c', st')) :
    ∃ c₁, m.nodeSet.runOn c st = (.ok nodes, c₁, st') := by
  obtain ⟨drained, c₂, st₂, hdrain, hsort⟩ := Walk.of_runOn_bind h
  rw [Walk.runOn_bind, Walk.runOn_store] at hsort
  dsimp only at hsort
  rw [Walk.runOn_ofExcept] at hsort
  obtain ⟨hnodes, rfl, rfl⟩ : sortDistinct st₂ drained c.order = .ok nodes ∧ c₂ = c' ∧ st₂ = st' := by simpa using hsort
  have hne : (c.order == .unordered) = false := beq_eq_false_iff_ne.mpr horder
  refine ⟨c₂.restarted, ?_⟩
  rw [Motion.nodeSet, Walk.runOn_frame_bind, hposition]
  show Walk.runOn (Walk.cursor >>= _) c st = _
  rw [Walk.runOn_cursor_bind, Walk.runOn_bind, Walk.runOn_attempt, hdrain]
  dsimp only
  rw [Walk.runOn_bind, Walk.runOn_move]
  dsimp only
  rw [hne, Walk.runOn_bind, Walk.runOn_ofExcept]
  show Walk.runOn (Walk.store >>= fun st => Walk.ofExcept (sortDistinct st drained c.order)) c₂.restarted st₂ = _
  rw [Walk.runOn_bind, Walk.runOn_store]
  dsimp only
  rw [Walk.runOn_ofExcept, hnodes]

end Motion

end

/-! ## §B  Cursors that cannot fail -/

section

variable {base st : Store} {s : Surroundings} {m : Motion} {all l nodes : List Pointer}
  {stands : Cursor → Place → Prop} {sets : List (List Pointer)} {c d : Cursor} {p : Place} {order : Order}

/-- All nodes that can be listed are fewer than a repetition has rounds, in whatever order they are delivered. -/
theorem arranged_length_lt (hall : all.length ≤ Number.exactBound) (hnodes : nodes.length < Walk.limit) (order : Order) :
    (arranged all order nodes).length < Walk.limit := by
  have hfilter : (all.filter nodes.contains).length < Walk.limit :=
    Nat.lt_of_le_of_lt ((List.length_filter_le _ _).trans hall) Number.exactBound_lt_limit
  cases order with
  | unordered => exact hnodes
  | ascending => exact hfilter
  | descending => simpa only [arranged, List.length_reverse] using hfilter

/-- In no order, the nodes that are left are pulled one by one. -/
theorem Unfailing.deliverRest (hu : Unfailing base m stands sets) (h : Traverses base m stands sets)
    (horder : ∀ {c p}, stands c p → c.order = .unordered) (hc : stands c .before)
    (hshort : sets.flatten.length < Walk.limit) :
    m.deliverRest.Yields base c fun delivered _ => delivered = (sets.flatten, none) := by
  refine Walk.Yields.deliverUpTo (I := fun l c => ∃ p : Place, stands c p ∧ p.left sets = l) ?_ hshort ⟨.before, hc, rfl⟩
  rintro _ c ⟨p, hc, rfl⟩
  have hpull := (hu.pull h hc).congr fun st =>
    Motion.runOn_deliver_of_unordered m (h.unsorted hc) (horder hc) st
  refine hpull.mono fun q? c' hc' => ⟨hc'.1, ?_⟩
  have hleft := hc'.2
  split at hleft
  · rw [‹p.left sets = []›]
    exact ⟨.after, hleft, rfl⟩
  · exact hleft

/-- In document order, all of them are sorted first. -/
theorem Unfailing.runOn_sortedNodes (hu : Unfailing base m stands sets) (h : Traverses base m stands sets)
    (hg : Charted base s all) (hsets : ∀ p ∈ sets.flatten, p ∈ all) (horder : order ≠ .unordered) (hc : stands c .before)
    (hshort : sets.flatten.length ≤ Walk.limit) (hst : base.Extends st) :
    ∃ c' st', (m.sortedNodes order).runOn c st = (.ok (arranged all order sets.flatten), c', st') := by
  obtain ⟨drained, c₁, st₁, hdrain, hext, rfl, -⟩ := (hu.drain h hc hshort).runOn hst
  refine ⟨c₁, st₁, ?_⟩
  rw [Motion.sortedNodes, Walk.runOn_bind, hdrain]
  dsimp only
  rw [Walk.runOn_bind, Walk.runOn_store]
  dsimp only
  rw [Walk.runOn_ofExcept, show Place.before.later sets = sets.flatten from rfl,
    hg.sortDistinct hsets horder (hst.trans hext)]

/-- **A cursor that cannot fail delivers all its nodes**, if there are fewer than a repetition has rounds. -/
theorem Cursor.Succeeds.runOn_deliverRest (h : d.Succeeds base s (· ∈ all) sets) (hg : Charted base s all)
    (hall : all.length ≤ Number.exactBound) (hshort : sets.flatten.length < Walk.limit) (hst : base.Extends st) :
    ∃ c' st', (d.motion s).deliverRest.runOn d st = (.ok (arranged all d.order sets.flatten, none), c', st') := by
  obtain ⟨stands, htraverses, hunfailing, hbefore⟩ := h.unfailing
  have hsets : ∀ p ∈ sets.flatten, p ∈ all := fun p hp => h.delivers.covers.mem_flatten hp
  by_cases horder : d.order = .unordered
  · have hsame : ∀ {c p}, stands c p → c.order = .unordered := fun hc => (htraverses.order hc hbefore).1.trans horder
    obtain ⟨_, c', st', hrun, -, rfl⟩ := (hunfailing.deliverRest htraverses hsame hbefore hshort).runOn hst
    rw [horder]
    exact ⟨c', st', hrun⟩
  · obtain ⟨c₁, st₁, hsorted⟩ :=
      hunfailing.runOn_sortedNodes htraverses hg hsets horder hbefore (Nat.le_of_lt hshort) hst
    obtain ⟨c', hrest⟩ := Motion.runOn_deliverRest (htraverses.unsorted hbefore) horder (d.motion s) st
    rw [hsorted] at hrest
    dsimp only at hrest
    rw [if_pos (arranged_length_lt hall hshort _)] at hrest
    exact ⟨c', st₁, hrest⟩

end

/-! ## §C  Iterating over a path -/

/-- **A path is iterated to its end** when its steps can be taken and lead to fewer nodes than a repetition has rounds: it
delivers the nodes that its steps lead to, and no error comes up. -/
theorem IsDocument.runOn_iteratePointers {c : Context} {host : Host} {st : Store} {root : Pointer} {text : String}
    {absolute : Bool} {steps : List Step} (hroot : IsDocument st root) (hc : c.Settled host st)
    (hstart : c.startOf absolute ∈ root.listing st) (htext : Expr.parse text = .ok (.path absolute steps))
    (hwalk : (c.surroundings host).CanWalk st steps [c.startOf absolute])
    (hshort : ((c.surroundings host).eager st steps [c.startOf absolute]).length < Walk.limit) :
    ∃ st', (c.iteratePointers host text).runOn st =
      (.ok (arranged (root.listing st) (Cursor.ofPath st (c.startOf absolute) steps).order
        ((c.surroundings host).eager st steps [c.startOf absolute]), none), st') := by
  obtain ⟨r, hr, -⟩ := hroot.place hstart
  rw [hr] at hstart hwalk hshort ⊢
  have hsetting : (c.setting host).context.startOf absolute = .json r := hr
  have hcursor : Cursor.ofPath (st.compiled text) (.json r) steps = .ofPath st (.json r) steps := rfl
  obtain ⟨sets, hsucceeds, hsets⟩ := hroot.succeeds hc.grounded hstart hwalk
  rw [← hsets] at hshort ⊢
  have hcompiled : st.Extends (st.compiled text) := (Store.Extends.refl hc.sound).compile text
  obtain ⟨c', st', hall⟩ := hsucceeds.runOn_deliverRest (hroot.charted hc.grounded) hroot.narrow hshort hcompiled
  refine ⟨st', ?_⟩
  rw [Context.iteratePointers, Reading.runOn_withText hc.sound htext, Eval.runOn_bind,
    Setting.runOn_pointers_path hsetting, Setting.runOn_on, hcursor]
  generalize hrest : (Motion.deliverRest _).runOn _ (st.compiled text) = rest
  obtain rfl := hall.symm.trans hrest
  rfl

end NodePath
