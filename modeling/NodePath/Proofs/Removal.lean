/-
# NodePath.Proofs.Removal — removing all nodes of a path

All nodes of a path are removed from the last one to the first, and all but the last one are looked up anew by the text of
their paths. A node that comes later in document order does not disturb the place of an earlier one, so in an addressable
document each of these texts still leads to its node, and exactly the nodes of the path are gone at the end. Where the
names of two keys differ in their prefix only, the text of one may lead to the other.

* §A  The places of nodes.
* §B  Later nodes do not disturb earlier ones.
* §C  Stores that are left.
* §D  Removing nodes one after the other.
* §E  Removing all nodes of a text.
* §F  Keys with one local name.
-/
import Mathlib.Data.Set.List
import NodePath.Context.Write
import NodePath.Proofs.Pruning

namespace NodePath

/-! ## §A  Places -/

/-- **IsNode** says that a part of a document is a node: an array that is a member is none. -/
def Json.IsNode (j : Json) (path : List Segment) : Prop :=
  ∃ part, j.at? path = some part ∧ ∀ k, path.getLast? = some (.key k) → part.isArray = false

/-- The element at a place of a document. -/
def Pointer.element (d : DocId) (n : QName) (path : List Segment) : Pointer := .json ⟨d, path, false, none, n⟩

section

variable {st : Store} {d : DocId} {n : QName} {j : Json} {p : Pointer} {path : List Segment}

/-- What is at the end of a way to a child. -/
theorem JsonRef.isNode_of_mem_childPaths {member : Bool} {part : Json} (hkeys : part.keysApart = true)
    {more : List Segment} (h : more ∈ childPaths member part) : part.IsNode more := by
  obtain ⟨hway, hsome⟩ := childPaths_spec hkeys h
  obtain ⟨c, hc⟩ := Option.isSome_iff_exists.mp hsome
  refine ⟨c, hc, fun k hlast => ?_⟩
  cases hway with
  | key k' =>
    cases part with
    | object ms =>
      obtain ⟨m, hm, hmore⟩ := List.mem_flatMap.mp h
      have hget := Json.child?_of_mem hkeys hm
      obtain ⟨k'', v⟩ := m
      cases v with
      | array items =>
        obtain ⟨i, -, he⟩ := mem_elementsBelow.mp hmore
        cases he
      | _ =>
        cases List.mem_singleton.mp hmore
        rw [Json.at?, hget] at hc
        cases hc
        rfl
    | _ => cases hc
  | element => cases hlast
  | index => cases hlast

theorem Json.IsNode.append {part : Json} {more : List Segment} (hpart : j.at? path = some part) (hmore : part.IsNode more)
    (hne : more ≠ []) : j.IsNode (path ++ more) := by
  obtain ⟨c, hc, hlast⟩ := hmore
  refine ⟨c, (Json.at?_append_of_at? hpart more).trans hc, fun k hk => hlast k ?_⟩
  rwa [List.getLast?_append_of_ne_nil _ hne] at hk

/-- The places of the children of a part are nodes, too. -/
theorem Json.IsNode.of_mem_childPaths {member : Bool} {part : Json} (hkeys : j.keysApart = true)
    (hpart : j.at? path = some part) {more : List Segment} (hmore : more ∈ JsonRef.childPaths member part) :
    j.IsNode (path ++ more) ∧ more ≠ [] := by
  have hkeys' := (Json.at?_spec hpart).2 hkeys
  have hne := (JsonRef.childPaths_spec hkeys' hmore).1.ne_nil
  exact ⟨.append hpart (JsonRef.isNode_of_mem_childPaths hkeys' hmore) hne, hne⟩

/-- **The elements inside a document** are its nodes, -/
theorem isNode_of_inside (hj : st.document? d = some j) (hkeys : j.keysApart = true)
    (hp : Inside st (.json (.root d none n)) p) : ∃ path, p = .element d n path ∧ j.IsNode path := by
  induction hp with
  | root => exact ⟨[], rfl, j, rfl, fun _ h => nomatch h⟩
  | child hq hc ih =>
    obtain ⟨path, rfl, part, hpart, hlast⟩ := ih
    have hat : st.at? d path = some part := Store.at?_of_document? hj hpart
    rw [Pointer.element, JsonRef.children_of_at? rfl hat] at hc
    obtain ⟨r, hr, rfl⟩ := List.mem_map.mp hc
    obtain ⟨more, hmore, rfl⟩ := List.mem_map.mp hr
    exact ⟨path ++ more, rfl, (Json.IsNode.of_mem_childPaths hkeys hpart hmore).1⟩

theorem Inside.append (hj : st.document? d = some j) (hin : Inside st (.json (.root d none n)) (.element d n path))
    {part : Json} (hpart : j.at? path = some part) {more : List Segment}
    (hmore : more ∈ JsonRef.childPaths (JsonRef.mk d path false none n).isMember part) :
    Inside st (.json (.root d none n)) (.element d n (path ++ more)) := by
  have hat : st.at? d path = some part := Store.at?_of_document? hj hpart
  refine .child hin ?_
  rw [Pointer.element, JsonRef.children_of_at? rfl hat]
  exact List.mem_map.mpr ⟨_, List.mem_map.mpr ⟨more, hmore, rfl⟩, rfl⟩

/-- A node below the top is a child of another one: a key leads on from the object that it is in, an index from the array,
or from the object that has the array as a member. -/
theorem Json.IsNode.parent (h : j.IsNode path) (hne : path ≠ []) :
    ∃ front more part, path = front ++ more ∧ more ≠ [] ∧ j.IsNode front ∧ j.at? front = some part ∧
      more ∈ JsonRef.childPaths (JsonRef.mk d front false none n).isMember part := by
  obtain ⟨part, hpart, hlast⟩ := h
  obtain ⟨front, s, rfl⟩ := (List.eq_nil_or_concat' path).resolve_left hne
  obtain ⟨above, habove, hc⟩ := Json.at?_concat.mp hpart
  cases above with
  | object ms =>
    cases s with
    | index i => cases hc
    | key k =>
      refine ⟨front, [.key k], _, rfl, List.cons_ne_nil _ _, ⟨_, habove, fun _ _ => rfl⟩, habove,
        List.mem_flatMap.mpr ⟨_, Json.Members.mem_of_get? hc, ?_⟩⟩
      have hleaf : part.isArray = false := hlast k (by simp)
      cases part with
      | array items => cases hleaf
      | _ => exact List.mem_singleton.mpr rfl
  | array items =>
    cases s with
    | key k => cases hc
    | index i =>
      have hi : i < items.length := (List.getElem?_eq_some_iff.mp hc).1
      -- The array is a node, unless it is a member.
      by_cases hmember : (JsonRef.mk d front false none n).isMember = true
      · obtain ⟨front, k, rfl⟩ : ∃ front' k, front = front' ++ [.key k] := by
          rw [JsonRef.isMember] at hmember
          split at hmember
          · next k hk => exact ⟨_, k, (List.dropLast_append_getLast? _ hk).symm⟩
          · cases hmember
        obtain ⟨object, hobject, hc'⟩ := Json.at?_concat.mp habove
        cases object with
        | object ms =>
          exact ⟨front, [.key k, .index i], _, List.append_assoc _ _ _, List.cons_ne_nil _ _,
            ⟨_, hobject, fun _ _ => rfl⟩, hobject, List.mem_flatMap.mpr ⟨_, Json.Members.mem_of_get? hc',
              JsonRef.mem_elementsBelow.mpr ⟨i, hi, rfl⟩⟩⟩
        | _ => cases hc'
      · have hfront : j.IsNode front := by
          refine ⟨_, habove, fun k hk => absurd ?_ hmember⟩
          rw [JsonRef.isMember, hk]
        refine ⟨front, [.index i], _, rfl, List.cons_ne_nil _ _, hfront, habove, ?_⟩
        rw [Bool.eq_false_iff.mpr hmember]
        exact JsonRef.mem_elementsBelow.mpr ⟨i, hi, rfl⟩
  | _ => cases s <;> cases hc

/-- and all of them are. -/
theorem Json.IsNode.inside (h : j.IsNode path) (hj : st.document? d = some j) :
    Inside st (.json (.root d none n)) (.element d n path) := by
  -- Upwards to the top: a node's path is longer than its parent's.
  induction hlen : path.length using Nat.strong_induction_on generalizing path with
  | _ len ih =>
    rcases eq_or_ne path [] with rfl | hne
    · exact .root
    obtain ⟨front, more, part, rfl, hmore, hfront, hpart, hchild⟩ := h.parent (d := d) (n := n) hne
    have hshorter : front.length < len := by
      rw [← hlen, List.length_append]
      exact Nat.lt_add_of_pos_right (List.length_pos_iff.mpr hmore)
    exact (ih _ hshorter hfront rfl).append hj hpart hchild

end

/-! ## §B  Order -/

theorem not_disturbs_below (q : List Segment) {more : List Segment} (hne : more ≠ []) : ¬Disturbs (q ++ more) q := by
  induction q with
  | nil =>
    obtain ⟨s, more, rfl⟩ := List.exists_cons_of_ne_nil hne
    exact id
  | cons s q ih =>
    obtain ⟨t, rest, he⟩ := List.exists_cons_of_ne_nil (show q ++ more ≠ [] by simp [hne])
    rw [List.cons_append, he]
    rw [he] at ih
    cases s <;> exact fun h => ih h.2

/-- A common front makes no difference. -/
theorem Disturbs.of_append {front g q : List Segment} (hne : g ≠ []) (h : Disturbs (front ++ g) (front ++ q)) :
    Disturbs g q := by
  induction front with
  | nil => exact h
  | cons s front ih =>
    obtain ⟨t, rest, he⟩ := List.exists_cons_of_ne_nil (show front ++ g ≠ [] by simp [hne])
    rw [List.cons_append, List.cons_append, he] at h
    rw [he] at ih
    cases s <;> exact ih h.2

/-- **Calm** says that one element does not disturb the place of another one. -/
def Pointer.Calm (p q : Pointer) : Prop :=
  ∀ r s, p = .json r → q = .json s → r.asAttribute = false → s.asAttribute = false → ¬Disturbs s.path r.path

/-- The ways to the children of a part: what is at or below a later one does not disturb what is at or below an earlier
one. -/
theorem childPaths_calm {member : Bool} {part : Json} (hkeys : part.keysApart = true) :
    (JsonRef.childPaths member part).Pairwise fun more more' =>
      ∀ xs ys, ¬Disturbs (more' ++ ys) (more ++ xs) := by
  have hindices : ∀ (above : List Segment) (n : Nat), (JsonRef.elementsBelow above n).Pairwise fun more more' =>
      ∀ xs ys, ¬Disturbs (more' ++ ys) (more ++ xs) := by
    refine fun above n => JsonRef.elementsBelow_pairwise fun i k hik xs ys h => ?_
    rw [List.append_assoc, List.append_assoc] at h
    have h := h.of_append (List.cons_ne_nil _ _)
    cases ys with
    | nil => exact absurd h (Nat.not_le_of_gt hik)
    | cons y ys => exact absurd h.1 (by simpa using Nat.ne_of_gt hik)
  cases part with
  | object ms =>
    have hne : ms.Pairwise fun m m' => m.1 ≠ m'.1 := List.pairwise_map.mp (Json.nodup_of_keysApart hkeys)
    refine List.pairwise_flatMap.mpr ⟨fun m hm => ?_, hne.imp fun {m m'} hne more hmore more' hmore' xs ys h => ?_⟩
    · show (JsonRef.memberPaths m).Pairwise _
      unfold JsonRef.memberPaths
      split
      · exact hindices _ _
      · exact List.pairwise_singleton _ _
    · have hway : ∀ {m : String × Json} {more : List Segment}, more ∈ JsonRef.memberPaths m → ∀ xs,
          ∃ rest, more ++ xs = .key m.1 :: rest := by
        intro m more hmore xs
        rcases JsonRef.mem_memberPaths hmore with rfl | ⟨i, rfl⟩
        · exact ⟨xs, rfl⟩
        · exact ⟨.index i :: xs, rfl⟩
      obtain ⟨rest, he⟩ := hway hmore xs
      obtain ⟨rest', he'⟩ := hway hmore' ys
      rw [he, he'] at h
      exact hne (Segment.key.inj h.1).symm
  | array items =>
    cases member with
    | true => exact List.Pairwise.nil
    | false => exact hindices [] items.length
  | _ => exact List.Pairwise.nil

section

variable {st : Store} {d : DocId} {n : QName} {j part : Json} {path : List Segment}

/-- Only places of elements are disturbed, -/
theorem Pointer.calm_of_attribute_left {q : Pointer} : (Pointer.json ⟨d, path, true, none, n⟩).Calm q := by
  intro r s hr _ hplain
  cases hr
  cases hplain

/-- and only by elements. -/
theorem Pointer.calm_of_attribute_right {p : Pointer} : p.Calm (.json ⟨d, path, true, none, n⟩) := by
  intro r s _ hs _ hplain
  cases hs
  cases hplain

/-- What is listed from an element has its place at or below it. -/
theorem path_of_mem_listingFrom (hj : st.document? d = some j) (hkeys : j.keysApart = true)
    (hpart : j.at? path = some part) {m : Nat} {r : JsonRef}
    (h : .json r ∈ (Pointer.element d n path).listingFrom st m) : path <+: r.path := by
  induction m generalizing path part with
  | zero =>
    cases List.mem_singleton.mp h
    exact List.prefix_rfl
  | succ m ih =>
    rw [Pointer.element, listingFrom_json hj hpart] at h
    rcases List.mem_cons.mp h with he | h
    · cases he
      exact List.prefix_rfl
    rcases List.mem_append.mp h with h | h
    · obtain ⟨more, -, he⟩ := List.mem_map.mp h
      cases he
      exact List.prefix_append path more
    · obtain ⟨more, hmore, h⟩ := List.mem_flatMap.mp h
      obtain ⟨⟨c, hc, -⟩, -⟩ := Json.IsNode.of_mem_childPaths hkeys hpart hmore
      exact (List.prefix_append path more).trans (ih hc h)

/-- **Later nodes do not disturb earlier ones.** -/
theorem calm_listingFrom (hj : st.document? d = some j) (hkeys : j.keysApart = true) (hpart : j.at? path = some part)
    (m : Nat) : ((Pointer.element d n path).listingFrom st m).Pairwise Pointer.Calm := by
  induction m generalizing path part with
  | zero => exact List.pairwise_singleton _ _
  | succ m ih =>
    rw [Pointer.element, listingFrom_json hj hpart]
    have hbelow : ∀ {more : List Segment} {r : JsonRef},
        more ∈ JsonRef.childPaths (JsonRef.mk d path false none n).isMember part →
        .json r ∈ (Pointer.element d n (path ++ more)).listingFrom st m → ∃ xs, r.path = path ++ (more ++ xs) := by
      intro more r hmore hr
      obtain ⟨⟨c, hc, -⟩, -⟩ := Json.IsNode.of_mem_childPaths hkeys hpart hmore
      obtain ⟨xs, hxs⟩ := path_of_mem_listingFrom hj hkeys hc hr
      exact ⟨xs, by rw [← hxs, List.append_assoc]⟩
    refine List.pairwise_cons.mpr ⟨?self, List.pairwise_append.mpr ⟨?attributes, ?children, ?across⟩⟩
    case self =>
      intro x hx
      rcases List.mem_append.mp hx with hx | hx
      · obtain ⟨more, -, rfl⟩ := List.mem_map.mp hx
        exact Pointer.calm_of_attribute_right
      · obtain ⟨more, hmore, hx⟩ := List.mem_flatMap.mp hx
        intro r s hr hs _ _
        cases hr
        obtain ⟨xs, hxs⟩ := hbelow hmore (hs ▸ hx)
        obtain ⟨-, hne⟩ := Json.IsNode.of_mem_childPaths hkeys hpart hmore
        rw [hxs]
        exact not_disturbs_below path (by simp [hne])
    case attributes =>
      exact List.pairwise_map.mpr (List.pairwise_of_forall fun _ _ => Pointer.calm_of_attribute_left)
    case children =>
      refine List.pairwise_flatMap.mpr ⟨fun more hmore => ?_, ?_⟩
      · obtain ⟨⟨c, hc, -⟩, -⟩ := Json.IsNode.of_mem_childPaths hkeys hpart hmore
        exact ih hc
      · have hkeys' := (Json.at?_spec hpart).2 hkeys
        refine (childPaths_calm hkeys').imp_of_mem fun {more more'} hmore hmore' hcalm x hx y hy r s hr hs _ _ h => ?_
        obtain ⟨xs, hxs⟩ := hbelow hmore (hr ▸ hx)
        obtain ⟨ys, hys⟩ := hbelow hmore' (hs ▸ hy)
        obtain ⟨-, hne⟩ := Json.IsNode.of_mem_childPaths hkeys hpart hmore'
        rw [hxs, hys] at h
        exact hcalm xs ys (h.of_append (by simp [hne]))
    case across =>
      intro x hx _ _
      obtain ⟨more, -, rfl⟩ := List.mem_map.mp hx
      exact Pointer.calm_of_attribute_left

end

/-! ## §C  Documents that are left -/

section

variable {st st' : Store} {d : DocId} {n : QName} {j left : Json}

/-- **The top of a document**: what makes it one is told from the document. -/
theorem isDocument_iff (hj : st.document? d = some j) :
    IsDocument st (.json (.root d none n)) ↔ j.keysApart = true ∧ j.nodesBelow + 1 ≤ Number.exactBound := by
  have hlength : j.keysApart = true → ((Pointer.json (.root d none n)).listing st).length = j.nodesBelow + 1 := by
    intro hkeys
    have hlevels : (Pointer.json (.root d none n)).levelsBelow st = j.height := by
      simp [Pointer.levelsBelow, Pointer.follow, Pointer.followFrom, Pointer.opening, Pointer.plainLevels, JsonRef.root, hj]
    rw [Pointer.listing, hlevels]
    refine length_listingFrom hj hkeys rfl (fun _ h => ?_) (Nat.le_refl _)
    cases h
  constructor
  · intro h
    obtain ⟨d', b', n', j', hroot, hj', hkeys⟩ := h.top
    cases hroot
    obtain rfl : j' = j := Option.some_inj.mp (hj'.symm.trans hj)
    exact ⟨hkeys, hlength hkeys ▸ h.narrow⟩
  · rintro ⟨hkeys, hnarrow⟩
    exact ⟨⟨d, none, n, j, rfl, hj, hkeys⟩, (hlength hkeys).trans_le hnarrow⟩

namespace Store

theorem document?_setDocument (hd : d < st.documents.size) (left : Json) :
    (st.setDocument d left).document? d = some left := by
  simp [document?, setDocument, hd]

theorem document?_setDocument_ne {e : DocId} (hne : d ≠ e) (left : Json) :
    (st.setDocument d left).document? e = st.document? e := by
  simp [document?, setDocument, Array.getElem?_setIfInBounds_ne hne]

theorem size_setDocument (st : Store) (d : DocId) (left : Json) :
    (st.setDocument d left).documents.size = st.documents.size := Array.size_setIfInBounds

theorem setDocument_setDocument (st : Store) (d : DocId) (left left' : Json) :
    (st.setDocument d left).setDocument d left' = st.setDocument d left' := by
  simp [setDocument]

/-- A document that is put back changes nothing. -/
theorem setDocument_document? (hj : st.document? d = some j) : st.setDocument d j = st := by
  obtain ⟨hd, rfl⟩ := Array.getElem?_eq_some_iff.mp hj
  simp [setDocument, Array.setIfInBounds, hd]

/-- What was stored since is there when a document of both stores is changed. -/
theorem Extends.setDocument (h : st.Extends st') (hd : d < st.documents.size) (left : Json) :
    (st.setDocument d left).Extends (st'.setDocument d left) where
  documents e he := by
    rw [size_setDocument] at he
    by_cases hne : d = e
    · subst hne
      exact (document?_setDocument (Nat.lt_of_lt_of_le hd h.size_le) left).trans (document?_setDocument hd left).symm
    · exact (document?_setDocument_ne hne left).trans ((h.documents e he).trans (document?_setDocument_ne hne left).symm)
  size_le := by
    rw [size_setDocument, size_setDocument]
    exact h.size_le
  forest := h.forest
  scopes := h.scopes
  registry := h.registry
  sound := h.sound

end Store

/-- A context is settled whatever the documents are. -/
theorem Context.Settled.setDocument {c : Context} {host : Host} (h : c.Settled host st) (d : DocId) (left : Json) :
    c.Settled host (st.setDocument d left) where
  host := h.host
  within := by
    rw [Store.size_setDocument]
    exact h.within
  closed := by
    intro v slot hslot
    rw [Store.size_setDocument]
    exact h.closed v slot hslot
  sound := h.sound

/-- What is left of a document is one. -/
theorem IsDocument.setDocument (h : IsDocument st (.json (.root d none n))) (hj : st.document? d = some j)
    (gone : List Segment → Bool) : IsDocument (st.setDocument d (j.without gone)) (.json (.root d none n)) := by
  have hd : d < st.documents.size := (Array.getElem?_eq_some_iff.mp hj).1
  obtain ⟨hkeys, hnarrow⟩ := (isDocument_iff hj).mp h
  refine (isDocument_iff (Store.document?_setDocument hd _)).mpr ⟨Json.keysApart_without hkeys gone, ?_⟩
  exact Nat.le_trans (Nat.succ_le_succ (Json.nodesBelow_without j gone)) hnarrow

/-- A node that is not disturbed is still one. -/
theorem Json.IsNode.without {path : List Segment} {gone : List Segment → Bool} (h : j.IsNode path)
    (hcalm : ∀ g, gone g = true → ¬Disturbs g path) : (j.without gone).IsNode path := by
  obtain ⟨part, hpart, hlast⟩ := h
  refine ⟨part.without fun more => gone (path ++ more), ?_, fun k hk => ?_⟩
  · rw [Json.at?_without hcalm, hpart]
    rfl
  · rw [Json.isArray_without]
    exact hlast k hk

/-! ## §D  One after the other -/

/-- An element that is there is taken out. -/
theorem Pointer.runOn_remove {path : List Segment} (hne : path ≠ []) (hj : st.document? d = some j)
    (hleft : j.erase? path = some left) :
    (Pointer.element d n path).remove.runOn st = (.ok (), st.setDocument d left) := by
  have hedit : (JsonRef.mk d path false none n).remove j = .ok left := by
    rw [JsonRef.remove, if_neg (by simpa using hne), hleft]
  rw [Pointer.element, Pointer.remove, Pointer.editDocument, Eval.runOn_bind, Eval.runOn_get]
  dsimp only
  rw [hj, Option.getD_some, hedit]
  rfl

variable {c : Context} {host : Host} {path : List Segment} {gone : List Segment → Bool}

/-- **A node that is not disturbed is taken out** by the text of its path. -/
theorem IsDocument.runOn_removePath (h : IsDocument st (.json (.root d none n))) (hc : c.Settled host st)
    (htop : c.rootPointer = .json (.root d none n)) (hj : st.document? d = some j) (hclear : j.addressable = true)
    (hne : path ≠ []) (hnode : j.IsNode path) (hcalm : ∀ g, gone g = true → ¬Disturbs g path)
    (hst : (st.setDocument d (j.without gone)).Extends st') :
    ∃ st'', (c.removePath host ((Pointer.element d n path).pathText st')).runOn st' = (.ok (), st'') ∧
      (st.setDocument d (j.without fun g => gone g || g == path)).Extends st'' := by
  obtain ⟨base, hbase⟩ : ∃ base, base = st.setDocument d (j.without gone) := ⟨_, rfl⟩
  rw [← hbase] at hst
  have hd : d < st.documents.size := (Array.getElem?_eq_some_iff.mp hj).1
  have hleft : base.document? d = some (j.without gone) := hbase ▸ Store.document?_setDocument hd _
  have hroot : IsDocument base (.json (.root d none n)) := hbase ▸ h.setDocument hj gone
  have hcb : c.Settled host base := hbase ▸ hc.setDocument d _
  have hmem : Pointer.element d n path ∈ (Pointer.json (.root d none n)).listing base :=
    hroot.rooted.1.mem_listing.mpr ⟨_, (hnode.without hcalm).inside hleft, .inl rfl⟩
  -- The text of its path leads to the node, in what is left as in the document.
  obtain ⟨r, hr, hplain, hkeys, hfinds⟩ :=
    hroot.finds c host hleft (Json.addressable_without hclear gone) hmem
  have htext : (Pointer.element d n path).pathText st' = r.pathText := by
    rw [hr]
    rfl
  obtain ⟨st₂, hread, hst₂⟩ :=
    hroot.runOn_readPointer_finds hcb htop hfinds r.pathText (hst.compile r.pathText)
  have hactual := (hroot.opened hmem hst₂).1
  obtain ⟨hkeysApart, -⟩ := (isDocument_iff hj).mp h
  have hd₂ : d < base.documents.size := by rw [hbase, Store.size_setDocument]; exact hd
  have hj₂ : st₂.document? d = some (j.without gone) := (hst₂.document? hd₂).trans hleft
  have hsome : (j.at? path).isSome := by
    obtain ⟨part, hpart, -⟩ := hnode
    exact Option.isSome_of_eq_some hpart
  have hremove := Pointer.runOn_remove (n := n) hne hj₂ (Json.erase?_without hne hkeysApart hsome hcalm)
  refine ⟨st₂.setDocument d (j.without fun g => gone g || g == path), ?_, ?_⟩
  · rw [htext, Context.removePath, Reading.runOn_withText hst.sound (JsonRef.parse_pathText hplain hkeys),
      Setting.removeOne, Eval.runOn_bind]
    have hread' : ((c.setting host).readPointer r.pathText (.path true (JsonRef.stepsTo r.asAttribute r.path))).runOn
        (st'.compiled r.pathText) = (.ok (some (.element d n path)), st₂) := hread
    rw [hread']
    dsimp only
    rw [Eval.runOn_bind, Eval.runOn_get]
    dsimp only
    rw [if_pos hactual, hremove]
    rfl
  · have hall := hst₂.setDocument hd₂ (j.without fun g => gone g || g == path)
    rw [hbase, Store.setDocument_setDocument] at hall
    exact hall

/-- **Nodes are taken out one after the other**, if none of them disturbs one that comes after it. -/
theorem IsDocument.runOn_removeByPath (h : IsDocument st (.json (.root d none n))) (hc : c.Settled host st)
    (htop : c.rootPointer = .json (.root d none n)) (hj : st.document? d = some j) (hclear : j.addressable = true)
    {paths : List (List Segment)} (hnodes : ∀ path ∈ paths, path ≠ [] ∧ j.IsNode path)
    (hcalm : ∀ path ∈ paths, ∀ g, gone g = true → ¬Disturbs g path)
    (hapart : paths.Pairwise fun path path' => ¬Disturbs path path')
    (hst : (st.setDocument d (j.without gone)).Extends st') :
    ∃ st'', (c.removeByPath host (paths.map (Pointer.element d n))).runOn st' = (.ok (), st'') ∧
      (st.setDocument d (j.without fun g => gone g || paths.contains g)).Extends st'' := by
  induction paths generalizing gone st' with
  | nil =>
    refine ⟨st', rfl, ?_⟩
    simpa using hst
  | cons path paths ih =>
    obtain ⟨⟨hne, hnode⟩, hnodes⟩ := List.forall_mem_cons.mp hnodes
    obtain ⟨hcalmHere, hcalm⟩ := List.forall_mem_cons.mp hcalm
    obtain ⟨hothers, hapart⟩ := List.pairwise_cons.mp hapart
    obtain ⟨st₁, hone, hst₁⟩ := h.runOn_removePath hc htop hj hclear hne hnode hcalmHere hst
    have hcalmNext : ∀ path' ∈ paths, ∀ g, (gone g || g == path) = true → ¬Disturbs g path' := by
      intro path' hpath' g hg
      rcases Bool.or_eq_true_iff.mp hg with hg | hg
      · exact hcalm path' hpath' g hg
      · exact eq_of_beq hg ▸ hothers path' hpath'
    obtain ⟨st'', hrest, hst''⟩ := ih hnodes hcalmNext hapart hst₁
    have hgone : (fun g => gone g || (path :: paths).contains g) = fun g => gone g || g == path || paths.contains g := by
      funext g
      rw [List.contains_cons, Bool.or_assoc]
    refine ⟨st'', ?_, hgone ▸ hst''⟩
    rw [List.map_cons, Context.removeByPath, Eval.runOn_bind, Eval.runOn_get]
    dsimp only
    rw [Eval.runOn_bind, hone]
    exact hrest

end

/-! ## §E  All nodes of a text -/

section

variable {st st₁ st₂ st' : Store} {d : DocId} {n : QName} {j : Json} {c : Context} {host : Host} {nodes : List Pointer}

/-- Looking for nodes changes no document that is there. -/
theorem Context.Settled.runOn_pointers (hc : c.Settled host st) (hst : st.Extends st₁) {e : Expr}
    {r : Except EvalError (Setting.Delivered Pointer)}
    (hrun : ((c.setting host).pointers e).runOn st₁ = (r, st₂)) : st.Extends st₂ := by
  have hnatural : (c.setting host).Natural (World.only st hc.closed) := Context.Within.setting hc.within hc.host
  obtain ⟨v, hv, hholds, -⟩ := hnatural.pointers e _ (.refl _) st₁ st₁ (World.holds_only hst hst)
  rw [hrun] at hholds
  have hleft := hholds.left
  rwa [hv.base] at hleft

/-- A text that is used without an error is the text of an expression. -/
theorem Reading.of_runOn_withText {α : Type} {text : String} {use : Expr → Eval α} {a : α} (hsound : st.engine.Sound)
    (hrun : (Reading.withText text use).runOn st = (.ok a, st')) :
    ∃ e, Expr.parse text = .ok e ∧ (use e).runOn (st.compiled text) = (.ok a, st') := by
  cases htext : Expr.parse text with
  | error e =>
    have hcompile := runOn_compileText text st
    rw [(hsound.compile text).1, htext] at hcompile
    rw [Reading.withText, Eval.atPath, Eval.runOn_tryCatch, Eval.runOn_bind, hcompile] at hrun
    cases hrun
  | ok e =>
    rw [Reading.runOn_withText hsound htext] at hrun
    refine ⟨e, rfl, ?_⟩
    rcases hused : (use e).runOn (st.compiled text) with ⟨r, st₂⟩
    rw [hused] at hrun
    cases r with
    | error e => cases hrun
    | ok a' =>
      cases hrun
      rfl

/-- What a node that is no attribute is. -/
theorem IsDocument.place_of_element (h : IsDocument st (.json (.root d none n))) (hj : st.document? d = some j) {p : Pointer}
    (hp : p ∈ (Pointer.json (.root d none n)).listing st) (hkind : p.kind st ≠ .attr) :
    ∃ path, p = .element d n path ∧ j.IsNode path := by
  obtain ⟨hkeys, -⟩ := (isDocument_iff hj).mp h
  obtain ⟨q, hq, hp⟩ := h.rooted.1.mem_listing.mp hp
  obtain ⟨path, rfl, hnode⟩ := isNode_of_inside hj hkeys hq
  rcases hp with rfl | hp
  · exact ⟨path, rfl, hnode⟩
  · obtain ⟨k, rfl, -⟩ := attribute_of_document hj hp
    exact absurd rfl hkind

/-- What an element that is no root is. -/
theorem IsDocument.element (h : IsDocument st (.json (.root d none n))) (hj : st.document? d = some j) {p : Pointer}
    (hp : p ∈ (Pointer.json (.root d none n)).listing st) (hkind : p.kind st = .element) :
    ∃ path, p = .element d n path ∧ path ≠ [] ∧ j.IsNode path := by
  obtain ⟨path, rfl, hnode⟩ := h.place_of_element hj hp fun hattr => nomatch hkind.symm.trans hattr
  refine ⟨path, rfl, ?_, hnode⟩
  rintro rfl
  cases hkind

theorem Pointer.element_injective : Function.Injective (Pointer.element d n) := by
  intro path path' he
  cases he
  rfl

/-- Among elements of one document, a list contains what is a member of it. -/
theorem contains_element_iff (hnodes : ∀ p ∈ nodes, ∃ path, p = .element d n path) {path : List Segment} :
    nodes.contains (.element d n path) = true ↔ .element d n path ∈ nodes := by
  rw [List.contains_iff_exists_mem_beq]
  constructor
  · rintro ⟨q, hq, hbeq⟩
    obtain ⟨path', rfl⟩ := hnodes q hq
    have hsame : (JsonRef.mk d path false none n).same ⟨d, path', false, none, n⟩ = true := hbeq
    simp only [JsonRef.same, beq_self_eq_true, Bool.true_and, Bool.and_true, beq_iff_eq] at hsame
    exact hsame ▸ hq
  · exact fun hp => ⟨_, hp, Pointer.same_self _⟩

/-- The elements among some nodes, sorted backwards, have places of which none disturbs one that comes after it. -/
theorem IsDocument.sortDistinct_elements (h : IsDocument st (.json (.root d none n))) (hj : st.document? d = some j)
    (hnodes : ∀ p ∈ nodes, ∃ path, p = .element d n path ∧ path ≠ [] ∧ j.IsNode path) :
    ∃ paths : List (List Segment), sortDistinct st nodes .descending = .ok (paths.map (Pointer.element d n)) ∧
      (∀ path ∈ paths, path ≠ [] ∧ j.IsNode path) ∧ (paths.Pairwise fun path path' => ¬Disturbs path path') ∧
      ∀ path, paths.contains path = nodes.contains (.element d n path) := by
  obtain ⟨hkeys, -⟩ := (isDocument_iff hj).mp h
  have hlisting : Listing st ((Pointer.json (.root d none n)).listing st) := h.rooted.1.listing h.rooted.2
  have hall : ∀ p ∈ nodes, p ∈ (Pointer.json (.root d none n)).listing st := by
    intro p hp
    obtain ⟨path, rfl, -, hnode⟩ := hnodes p hp
    exact h.rooted.1.mem_listing.mpr ⟨_, hnode.inside hj, .inl rfl⟩
  -- In document order, the nodes have these paths.
  obtain ⟨paths, hpaths⟩ : ((Pointer.json (.root d none n)).listing st).filter nodes.contains ∈
      Set.range (List.map (Pointer.element d n)) := by
    rw [Set.range_list_map]
    intro p hp
    obtain ⟨path, rfl, -⟩ := hnodes p ((hlisting.mem_filter_contains hall).mp hp)
    exact ⟨path, rfl⟩
  have hmem : ∀ path, path ∈ paths ↔ .element d n path ∈ nodes := by
    intro path
    rw [← hlisting.mem_filter_contains hall, ← hpaths, List.mem_map_of_injective Pointer.element_injective]
  refine ⟨paths.reverse, ?sorted, fun path hpath => ?places, ?apart, fun path => ?same⟩
  case sorted =>
    rw [hlisting.sortDistinct hall, ← hpaths, List.map_reverse]
    rfl
  case places =>
    obtain ⟨path', he, hplace⟩ := hnodes _ ((hmem path).mp (List.mem_reverse.mp hpath))
    cases he
    exact hplace
  case apart =>
    have htop : j.at? [] = some j := rfl
    have hcalm := calm_listingFrom (n := n) hj hkeys htop ((Pointer.json (.root d none n)).levelsBelow st)
    have hsorted : (paths.map (Pointer.element d n)).Pairwise Pointer.Calm := by
      rw [hpaths]
      exact hcalm.sublist List.filter_sublist
    exact List.pairwise_reverse.mpr ((List.pairwise_map.mp hsorted).imp fun hpath => hpath _ _ rfl rfl rfl rfl)
  case same =>
    have helements : ∀ p ∈ nodes, ∃ path, p = .element d n path := fun p hp => (hnodes p hp).imp fun _ he => he.1
    rw [Bool.eq_iff_iff, contains_element_iff helements, List.contains_iff_mem, List.mem_reverse, hmem]

/-- **Removing all nodes of an expression**, when all of them are elements, leaves the document without them. -/
theorem IsDocument.runOn_removeEvery (h : IsDocument st (.json (.root d none n))) (hc : c.Settled host st)
    (htop : c.rootPointer = .json (.root d none n)) (hj : st.document? d = some j) (hclear : j.addressable = true)
    {e : Expr} (hrun : ((c.setting host).pointers e).runOn st₁ = (.ok (nodes, none), st₂)) (hst : st.Extends st₂)
    (hnodes : ∀ p ∈ nodes, ∃ path, p = .element d n path ∧ path ≠ [] ∧ j.IsNode path) :
    ∃ st', (c.removeEvery host e).runOn st₁ = (.ok (), st') ∧
      (st.setDocument d (j.without fun path => nodes.contains (.element d n path))).Extends st' := by
  have hd : d < st.documents.size := (Array.getElem?_eq_some_iff.mp hj).1
  have hj₂ : st₂.document? d = some j := (hst.document? hd).trans hj
  have hdocument := (isDocument_iff hj).mp h
  have hroot₂ : IsDocument st₂ (.json (.root d none n)) := (isDocument_iff hj₂).mpr hdocument
  obtain ⟨paths, hsorted, hplaces, hapart, hsame⟩ := hroot₂.sortDistinct_elements hj₂ hnodes
  have hfound : (c.removeEvery host e).runOn st₁ =
      Eval.runOn (paths.head?.elim (pure ()) fun path => do
        (Pointer.element d n path).remove
        c.removeByPath host (paths.tail.map (Pointer.element d n))) st₂ := by
    rw [Context.removeEvery, Eval.runOn_bind, hrun]
    dsimp only
    rw [Context.allOf, Eval.runOn_bind, Eval.runOn_pure]
    dsimp only
    rw [Eval.runOn_bind, Eval.runOn_get]
    dsimp only
    rw [hsorted]
    cases paths <;> rfl
  have hgone : (fun path => nodes.contains (.element d n path)) = fun path => paths.contains path :=
    funext fun path => (hsame path).symm
  rw [hfound, hgone]
  cases paths with
  | nil =>
    refine ⟨st₂, rfl, ?_⟩
    rwa [Json.without_none fun path => by simp, Store.setDocument_document? hj]
  | cons path paths =>
    obtain ⟨⟨hne, part, hpart, hlast⟩, hplaces⟩ := List.forall_mem_cons.mp hplaces
    obtain ⟨hothers, hapart⟩ := List.pairwise_cons.mp hapart
    have herase : j.erase? path = some (j.without (· == path)) := by
      have hnone : ∀ g : List Segment, (fun _ => false) g = true → ¬Disturbs g path := fun g hg => by cases hg
      have h := Json.erase?_without hne hdocument.1 (Option.isSome_of_eq_some hpart) hnone
      rw [Json.without_none fun _ => rfl] at h
      simpa using h
    have hone := Pointer.runOn_remove (n := n) hne hj₂ herase
    have hcalm : ∀ path' ∈ paths, ∀ g, (g == path) = true → ¬Disturbs g path' := fun path' hpath' g hg =>
      eq_of_beq hg ▸ hothers path' hpath'
    obtain ⟨st', hrest, hst'⟩ :=
      h.runOn_removeByPath hc htop hj hclear hplaces hcalm hapart (hst.setDocument hd _)
    refine ⟨st', ?_, ?_⟩
    · rw [List.head?_cons, List.tail_cons, Option.elim_some, Eval.runOn_bind, hone]
      exact hrest
    · have hboth : (fun g => g == path || paths.contains g) = fun g => (path :: paths).contains g :=
        funext fun g => List.contains_cons.symm
      exact hboth ▸ hst'

/-- **Removing all nodes of a text**: when it succeeds, the nodes of the text can be iterated over, and if they are elements
of an addressable document other than its root, the document is left without them, and nothing else is changed. -/
theorem removeAll_elements (hc : c.Settled host st) (htop : c.rootPointer = .json (.root d none n))
    (hroot : IsDocument st (.json (.root d none n))) (hj : st.document? d = some j) (hclear : j.addressable = true)
    {text : String} (hrun : (c.removeAll host text).runOn st = (.ok (), st')) :
    ∃ nodes st₁, (c.iteratePointers host text).runOn st = (.ok (nodes, none), st₁) ∧
      ((∀ p ∈ nodes, p ∈ (Pointer.json (.root d none n)).listing st ∧ p.kind st = .element) →
        st'.document? d = some (j.without fun path => nodes.contains (.element d n path)) ∧
          (st.setDocument d (j.without fun path => nodes.contains (.element d n path))).Extends st') := by
  obtain ⟨e, htext, hrun⟩ := Reading.of_runOn_withText hc.sound hrun
  have hcompiled : st.Extends (st.compiled text) := (Store.Extends.refl hc.sound).compile text
  rcases hall : ((c.setting host).pointers e).runOn (st.compiled text) with ⟨r, st₁⟩
  have hst₁ := hc.runOn_pointers hcompiled hall
  have hremove := hrun
  rw [Context.removeEvery, Eval.runOn_bind, hall] at hremove
  -- The removal has succeeded, so all nodes were found before the first one was removed.
  cases r with
  | error err => cases hremove
  | ok delivered =>
    obtain ⟨nodes, err?⟩ := delivered
    cases err? with
    | some err => cases hremove
    | none =>
      refine ⟨nodes, st₁, ?_, fun hnodes => ?_⟩
      · rw [Context.iteratePointers, Reading.runOn_withText hc.sound htext, Eval.runOn_bind, hall]
        rfl
      · obtain ⟨st'', hrun', hst''⟩ := hroot.runOn_removeEvery hc htop hj hclear hall hst₁ fun p hp =>
          hroot.element hj (hnodes p hp).1 (hnodes p hp).2
        rw [hrun] at hrun'
        cases hrun'
        have hd : d < st.documents.size := (Array.getElem?_eq_some_iff.mp hj).1
        have hd' := (Store.size_setDocument st d (j.without fun path => nodes.contains (.element d n path))).symm ▸ hd
        exact ⟨(hst''.document? hd').trans (Store.document?_setDocument hd _), hst''⟩

/-- What is left of the first document when all nodes of a text are removed, as text, if they can be. -/
def leftAfter? (c : Context) (host : Host) (text : String) (st : Store) : Option String :=
  match (c.removeAll host text).runOn st with
  | (.ok (), st') => (st'.document? 0).map Json.write
  | _ => none

theorem runOn_of_leftAfter? {text left : String} (h : leftAfter? c host text st = some left) :
    ∃ st', (c.removeAll host text).runOn st = (.ok (), st') ∧ (st'.document? 0).map Json.write = some left := by
  unfold leftAfter? at h
  split at h
  · exact ⟨_, by assumption, h⟩
  · cases h

/-- A document in which a node that is removed has a node below it that is removed, too, and stands before another one. -/
def nestedDocument : Json := .object [("a", .array [.int 1, .object [("b", .int 2)], .int 3]), ("c:d", .text "e")]

/-- All elements but those that are one are removed. -/
theorem removeAll_elements_twin :
    ∃ nodes st₁ st', (Context.atTop.iteratePointers stockHost "//*[not(. = '1')]").runOn (.holding nestedDocument) =
        (.ok (nodes, none), st₁) ∧
      nodes.map (·.pathText (.holding nestedDocument)) = ["/a[2]", "/a[2]/b", "/a[3]", "/c:d"] ∧
      (Context.atTop.removeAll stockHost "//*[not(. = '1')]").runOn (.holding nestedDocument) = (.ok (), st') ∧
      st'.document? 0 =
        some (nestedDocument.without fun path => nodes.contains (.element 0 (.plain "") path)) := by
  obtain ⟨st', hrun, -⟩ := runOn_of_leftAfter? (show leftAfter? .atTop stockHost "//*[not(. = '1')]"
    (.holding nestedDocument) = some "\x7b\"a\":[1]\x7d" by decide +kernel)
  have hroot : IsDocument (.holding nestedDocument) .firstTop :=
    isDocument_firstTop (by decide +kernel) (by decide +kernel)
  have hc := Context.settled_atTop nestedDocument
  obtain ⟨nodes, st₁, hnodes, hleft⟩ := removeAll_elements hc rfl hroot rfl (by decide +kernel) hrun
  have hseen : (iterated? .atTop stockHost "//*[not(. = '1')]" (.holding nestedDocument)).map (fun nodes =>
      (nodes.map (·.pathText (.holding nestedDocument)), nodes.all (·.kind (.holding nestedDocument) = .element))) =
        some (["/a[2]", "/a[2]/b", "/a[3]", "/c:d"], true) := by decide +kernel
  rw [iterated?, hnodes] at hseen
  obtain ⟨hpaths, hkinds⟩ := Prod.mk.inj (Option.some_inj.mp hseen)
  refine ⟨nodes, st₁, st', hnodes, hpaths, hrun, (hleft fun p hp => ⟨?_, ?_⟩).1⟩
  · have htext : Expr.parse "//*[not(. = '1')]" = .ok (.path true [⟨.descendantOrSelf, .type .node, []⟩,
        ⟨.child, .name (.plain "*"),
          [.core .not [.operation .equal [.path false [⟨.self, .type .node, []⟩], .text "1"]]]⟩]) := by
      decide +kernel
    have hstart : Context.atTop.startOf true ∈ Pointer.firstTop.listing (.holding nestedDocument) :=
      firstTop_mem_listing _
    have hplaces := (hroot.mem_iteratePointers hc hstart htext hnodes).mp hp
    exact hroot.mem_of_mem_eager hc.grounded hstart hplaces
  · exact of_decide_eq_true (List.all_eq_true.mp hkinds p hp)

/-! ## §F  Keys with one local name -/

/-- A document with three keys that differ in their prefixes only. -/
def prefixesDocument : Json := .object [("p:b", .int 1), ("q:b", .int 2), ("r:b", .int 3)]

/-- Of three members with one local name, the last two are to be removed; the second one stays, and the first one is gone:
the path of the second one leads to the first one. -/
theorem removeAll_another :
    ∃ nodes st₁ st', (Context.atTop.iteratePointers stockHost "*[. > 1]").runOn (.holding prefixesDocument) =
        (.ok (nodes, none), st₁) ∧
      nodes.map (fun p => (p.pathText (.holding prefixesDocument), p.kind (.holding prefixesDocument))) =
        [("/q:b", .element), ("/r:b", .element)] ∧
      (Context.atTop.removeAll stockHost "*[. > 1]").runOn (.holding prefixesDocument) = (.ok (), st') ∧
      (st'.document? 0).map Json.write = some "\x7b\"q:b\":2\x7d" ∧
      st'.document? 0 ≠
        some (prefixesDocument.without fun path => nodes.contains (.element 0 (.plain "") path)) := by
  obtain ⟨st', hrun, hleft⟩ := runOn_of_leftAfter? (show leftAfter? .atTop stockHost "*[. > 1]"
    (.holding prefixesDocument) = some "\x7b\"q:b\":2\x7d" by decide +kernel)
  have hseen : (iterated? .atTop stockHost "*[. > 1]" (.holding prefixesDocument)).map (fun nodes =>
      (nodes.map fun p => (p.pathText (.holding prefixesDocument), p.kind (.holding prefixesDocument)),
        (prefixesDocument.without fun path => nodes.contains (.element 0 (.plain "") path)).write)) =
      some ([("/q:b", .element), ("/r:b", .element)], "\x7b\"p:b\":1\x7d") := by decide +kernel
  obtain ⟨nodes, hnodes, hseen⟩ := Option.map_eq_some_iff.mp hseen
  obtain ⟨hpaths, hwithout⟩ := Prod.mk.inj hseen
  obtain ⟨st₁, hiterate⟩ := runOn_of_iterated? hnodes
  refine ⟨nodes, st₁, st', hiterate, hpaths, hrun, hleft, fun he => ?_⟩
  rw [he, Option.map_some, hwithout] at hleft
  exact absurd hleft (by decide)

end

end NodePath
