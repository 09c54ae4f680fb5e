/-
# NodePath.Proofs.PlainPath — where plain steps lead

A plain step asks for the n-th child of a name. Whoever evaluates it filters all children by the name and counts; whoever
creates it looks for that child, too, but makes a missing one by its key. Both mean the same slot when no other member has
children of the name: when no key has a colon, say, or when there was no child of the name at all. `Json.LeadsTo` says
where plain steps lead from slot to slot, and a change at the end of the way, or below it, leaves the way as it is.

* §A  The children that a name finds.
* §B  Plain steps.
* §C  `Json.LeadsTo`.
* §D  Evaluating plain steps.
* §E  Creating plain steps that are there.
-/
import NodePath.Proofs.Making
import NodePath.Proofs.NodeSet

namespace NodePath

variable {c : Context} {host : Host} {s : Setting} {st : Store} {root : Pointer} {r : JsonRef} {step : Step}
  {steps : List Step} {i : Nat} {ms ms' : Json.Members} {k : String} {part child v j' : Json} {path more : List Segment}

/-! ## §A  Names -/

/-- **colonFree** says that no key of some members has a colon. -/
def Json.Members.colonFree (ms : Json.Members) : Bool := ms.all fun m => !m.1.toList.contains ':'

/-- A key without a colon is the local name that it stands for. -/
theorem QName.ofWritten_of_colonFree (hcolon : ms.colonFree = true) {m : String × Json} (hm : m ∈ ms) :
    QName.ofWritten m.1 = .plain m.1 := by
  have hnone : ':' ∉ m.1.toList := by simpa using List.all_eq_true.mp hcolon m hm
  rw [ofWritten, splitColon_of_not_mem hnone]

/-- A local name is the local name of itself as a key. -/
theorem QName.localName_ofWritten (hk : IsNcName k) : (QName.ofWritten k).localName = k := by
  rw [ofWritten, splitColon_of_not_mem (colon_not_mem hk)]
  rfl

/-- A letter is a name. -/
theorem IsNcName.letter {a : Char} (ha : isNameStart a = true) : IsNcName (String.ofList [a]) :=
  ⟨a, [], String.toList_ofList, ha, fun _ h => nomatch h⟩

theorem IsNcName.ne_empty (hk : IsNcName k) : k ≠ "" := by
  rintro rfl
  obtain ⟨c, cs, hcs, -⟩ := hk
  cases hcs

namespace JsonRef

variable {resolve : String → Option String}

/-- A place below a place. -/
theorem at?_below (hpart : st.at? r.doc r.path = some part) (hchild : part.at? more = some child) (asAttribute : Bool) :
    st.at? (r.below more asAttribute).doc (r.below more asAttribute).path = some child := by
  obtain ⟨j, hj, hpart⟩ := part?_of_at? hpart
  have hat : j.at? r.path = some part := hpart
  refine Store.at?_of_document? hj ?_
  show j.at? (r.path ++ more) = _
  rw [Json.at?_append_of_at? hat, hchild]

theorem below_below (r : JsonRef) (more path : List Segment) (asAttribute : Bool) :
    (r.below more asAttribute).below path false = r.below (more ++ path) false := by
  simp [below, move]

theorem below_nil (hr : r.asAttribute = false) : r.below [] false = r := by
  obtain ⟨d, path, asAttribute, b, n⟩ := r
  cases hr
  simp [below, move]

/-- A plain name accepts what has it as its local name. -/
theorem accepts_plain (hk : IsNcName k) {p : JsonRef} (hkind : p.kind.isNamed = true) :
    (NodeTest.name (.plain k)).accepts resolve (.json p) st = (k == p.name.localName) := by
  have hlocal : (QName.plain k).localName = k := rfl
  rw [accepts_json hk hkind, hlocal]
  exact Bool.and_true _

/-- **waysTo** are the ways to the children of some members that have a local name, in their order. -/
def waysTo (ms : Json.Members) (k : String) : List (List Segment) :=
  ms.flatMap fun m => if (QName.ofWritten m.1).localName = k then memberPaths m else []

/-- **The children that a plain name finds** in an object are those that have it as their local name. -/
theorem named_children (hr : r.asAttribute = false) (hpart : st.at? r.doc r.path = some (.object ms)) (hk : IsNcName k) :
    ((Pointer.json r).children st).filter ((NodeTest.name (.plain k)).accepts resolve · st) =
      (waysTo ms k).map fun more => .json (r.below more false) := by
  have hpaths : childPaths r.isMember (.object ms) = ms.flatMap memberPaths := rfl
  rw [children_of_at? hr hpart, hpaths, waysTo, List.map_map, List.map_flatMap, List.filter_flatMap, List.map_flatMap]
  refine List.flatMap_congr fun m _ => ?_
  -- A member makes children of the name when it has the name, and then all that it makes are.
  have haccepts : ∀ more ∈ memberPaths m, (NodeTest.name (.plain k)).accepts resolve (.json (r.below more false)) st =
      (k == (QName.ofWritten m.1).localName) := by
    intro more hmore
    rw [accepts_plain hk (isNamed_kind r (mem_memberPaths hmore) false), name_below r (mem_memberPaths hmore)]
  split
  · rename_i hsame
    refine List.filter_eq_self.mpr fun p hp => ?_
    obtain ⟨more, hmore, rfl⟩ := List.mem_map.mp hp
    rw [Function.comp_apply, haccepts more hmore, hsame, beq_self_eq_true]
  · rename_i hother
    refine List.filter_eq_nil_iff.mpr fun p hp => ?_
    obtain ⟨more, hmore, rfl⟩ := List.mem_map.mp hp
    rw [Function.comp_apply, haccepts more hmore]
    simpa using Ne.symm hother

theorem memberPaths_of_other (key : String) (hv : v.isArray = false) : memberPaths (key, v) = [[.key key]] := by
  cases v with
  | array items => cases hv
  | _ => rfl

/-- **A child that has a name** is an element of a member, or the member itself. -/
theorem waysTo_cases (hkeys : (ms.map (·.1)).Nodup) (h : more ∈ waysTo ms k) :
    ∃ key v, ms.get? key = some v ∧ ((∃ items l, v = .array items ∧ l < items.length ∧ more = [.key key, .index l]) ∨
      v.isArray = false ∧ more = [.key key]) := by
  obtain ⟨⟨key, v⟩, hm, hmore⟩ := List.mem_flatMap.mp h
  refine ⟨key, v, Json.Members.get?_of_mem hkeys hm, ?_⟩
  split at hmore
  · cases v with
    | array items =>
      obtain ⟨l, hl, rfl⟩ := mem_elementsBelow.mp hmore
      exact .inl ⟨items, l, rfl, hl, rfl⟩
    | _ => exact .inr ⟨rfl, List.mem_singleton.mp hmore⟩
  · cases hmore

/-- A member with as many children as before. -/
theorem waysTo_set {key : String} {old w : Json} (hget : ms.get? key = some old)
    (hshape : memberPaths (key, w) = memberPaths (key, old)) : waysTo (Json.Members.set key w ms) k = waysTo ms k := by
  induction ms with
  | nil => cases hget
  | cons m ms ih =>
    rw [Json.Members.get?_cons] at hget
    rw [Json.Members.set]
    cases hkey : m.1 == key with
    | true =>
      rw [hkey, if_pos rfl] at hget
      obtain ⟨key', old'⟩ := m
      obtain rfl : key' = key := beq_iff_eq.mp hkey
      obtain rfl : old' = old := Option.some.inj hget
      rw [if_pos rfl, waysTo, waysTo, List.flatMap_cons, List.flatMap_cons, hshape]
    | false =>
      rw [hkey, if_neg Bool.false_ne_true] at hget
      have hrest := ih hget
      rw [waysTo, waysTo] at hrest
      rw [if_neg Bool.false_ne_true, waysTo, waysTo, List.flatMap_cons, List.flatMap_cons, hrest]

/-- **Alone** says of a key that no member of another key has children of its name. -/
def Alone (ms : Json.Members) (k : String) : Prop :=
  ∀ m ∈ ms, m.1 ≠ k → (QName.ofWritten m.1).localName = k → memberPaths m = []

theorem alone_of_colonFree (hcolon : ms.colonFree = true) : Alone ms k := by
  intro m hm hne hlocal
  rw [QName.ofWritten_of_colonFree hcolon hm] at hlocal
  exact absurd hlocal hne

theorem alone_of_waysTo_nil (hnone : waysTo ms k = []) : Alone ms k := by
  intro m hm _ hlocal
  have hm' := List.flatMap_eq_nil_iff.mp hnone m hm
  rwa [if_pos hlocal] at hm'

theorem Alone.set (h : Alone ms k) (v : Json) : Alone (Json.Members.set k v ms) k := by
  intro m hm hne
  rcases Json.Members.mem_set hm with rfl | hm
  · exact absurd rfl hne
  · exact h m hm hne

theorem Alone.withChild (h : Alone ms k) (i : Nat) : Alone (withChild ms k i).1 k := by
  unfold JsonRef.withChild
  split
  any_goals exact h.set _
  exact h

/-- **The children of a name** are then the slots of its key. -/
theorem Alone.waysTo_eq (h : Alone ms k) (hkeys : (ms.map (·.1)).Nodup) (hk : IsNcName k) : waysTo ms k = slots ms k := by
  unfold slots
  cases hget : ms.get? k with
  | none =>
    refine List.flatMap_eq_nil_iff.mpr fun m hm => ?_
    split
    · rename_i hlocal
      refine h m hm ?_ hlocal
      rintro rfl
      rw [Json.Members.get?_of_mem hkeys hm] at hget
      cases hget
    · rfl
  | some v =>
    refine (flatMap_eq_of_key hkeys (Json.Members.mem_of_get? hget) fun m hm hne => ?_).trans ?_
    · split
      · rename_i hlocal
        exact h m hm hne hlocal
      · rfl
    · exact if_pos (QName.localName_ofWritten hk)

/-- What is no object has no children with names. -/
theorem unnamed_children (hr : r.asAttribute = false) (hpart : st.at? r.doc r.path = some part)
    (hnone : ∀ ms, part ≠ .object ms) (hk : IsNcName k) :
    ((Pointer.json r).children st).filter ((NodeTest.name (.plain k)).accepts resolve · st) = [] := by
  refine List.filter_eq_nil_iff.mpr fun p hp => ?_
  rw [children_of_at? hr hpart] at hp
  obtain ⟨q, hq, rfl⟩ := List.mem_map.mp hp
  obtain ⟨more, hmore, rfl⟩ := List.mem_map.mp hq
  cases part with
  | object ms => exact absurd rfl (hnone ms)
  | array items =>
    have hitems : childPaths r.isMember (.array items) = if r.isMember then [] else elementsBelow [] items.length := rfl
    rw [hitems] at hmore
    split at hmore
    · cases hmore
    · rename_i hmember
      obtain ⟨i, -, rfl⟩ := mem_elementsBelow.mp hmore
      -- The array is no member, so that its elements have no names.
      have hname : (r.below [.index i] false).name = .plain "" := by
        unfold isMember at hmember
        rcases List.eq_nil_or_concat' r.path with hpath | ⟨front, s, hpath⟩
        · simp [name, below, move, nameOf, hpath]
        · cases s with
          | key k' => simp [hpath] at hmember
          | index i' => simp [name, below, move, nameOf, hpath]
      have hkind : (r.below [.index i] false).kind.isNamed = true := by simp [kind, below, move, NodeKind.isNamed]
      rw [List.nil_append, accepts_plain hk hkind, hname]
      simpa [QName.plain] using hk.ne_empty
  | _ => cases hmore

end JsonRef

/-! ## §B  Plain steps -/

/-- **AsksFor** says of a step to a child of a name which slot it asks for, counted from zero. -/
inductive StepOf.AsksFor (k : String) : Step → Nat → Prop
  | first : AsksFor k ⟨.child, .name (.plain k), []⟩ 0
  | position {x : Float} {i : Nat} : i + 1 < 2 ^ 31 → (x == Number.ofNat (i + 1)) = true →
      AsksFor k ⟨.child, .name (.plain k), [.number x]⟩ i

/-- **IsPlain** steps stay where they are, or lead to a child of an unprefixed name, if need be at a position. -/
inductive StepOf.IsPlain : Step → Prop
  | stay : IsPlain ⟨.self, .type .node, []⟩
  | child {k : String} {i : Nat} {step : Step} : IsNcName k → step.AsksFor k i → IsPlain step

namespace StepOf.AsksFor

/-- The position that is asked for is a whole number. -/
theorem toIndex {x : Float} (hi : i + 1 < 2 ^ 31) (hx : (x == Number.ofNat (i + 1)) = true) :
    (Number.isWhole x && decide (x ≥ 1)) = true ∧ Number.toIndex x = i + 1 := by
  have hbound : i + 1 ≤ Number.exactBound := hi.le.trans (by decide)
  rw [Number.beq_ofNat (Nat.succ_pos i) hbound] at hx
  simpa using hx

/-- Evaluating the predicate changes nothing. -/
theorem runOn_index (h : step.AsksFor k i) (s : Setting) (st : Store) :
    ∃ index, (s.index step).runOn st = (.ok index, st) ∧ index.getD 0 = i := by
  cases h with
  | first => exact ⟨none, rfl, rfl⟩
  | position hi hx =>
    obtain ⟨hguard, hindex⟩ := toIndex hi hx
    rw [Bool.and_comm] at hguard
    refine ⟨some i, ?_, rfl⟩
    rw [s.runOn_index_number, if_pos hguard, hindex]
    rfl

/-- Its predicates can be judged anywhere. -/
theorem canJudge (h : step.AsksFor k i) :
    ∀ e ∈ step.predicates, ∀ nodes, (c.surroundings host).CanJudge st e nodes := by
  cases h with
  | first => exact fun _ he => nomatch he
  | position =>
    intro e he nodes i _
    obtain rfl := List.mem_singleton.mp he
    exact ⟨_, congrArg Prod.fst (Context.judge_number _ (i + 1))⟩

/-- Without a predicate it asks for the first child. -/
theorem first_of_none (h : step.AsksFor k i) (hnone : step.predicates = []) : i = 0 := by
  cases h with
  | first => rfl
  | position => cases hnone

theorem axis_test (h : step.AsksFor k i) : step.axis = .child ∧ step.test = .name (.plain k) := by
  cases h with
  | first => exact ⟨rfl, rfl⟩
  | position => exact ⟨rfl, rfl⟩

end StepOf.AsksFor

/-- Plain steps are simple. -/
theorem StepOf.IsPlain.isSimple (h : step.IsPlain) : step.isSimple = true := by
  cases h with
  | stay => rfl
  | @child k i _ hk hasks =>
    have hwildcard : (NodeTest.name (.plain k)).isWildcard = false := JsonRef.ne_star_of_isNcName hk
    cases hasks with
    | first => simp [isSimple, hwildcard, Expr.anyDependent]
    | position => simp [isSimple, hwildcard, Expr.anyDependent, Expr.isContextDependent]

/-! ## §C  Ways -/

namespace Json

/-- **LeadsTo** says that plain steps lead from a part of a document along a path, from one slot to the next. -/
inductive LeadsTo : Json → List Step → List Segment → Prop
  | here {part : Json} : part.LeadsTo [] []
  | stay {part : Json} {steps : List Step} {path : List Segment} : part.LeadsTo steps path →
      part.LeadsTo (⟨.self, .type .node, []⟩ :: steps) path
  | child {ms : Members} {child : Json} {k : String} {i : Nat} {step : Step} {steps : List Step}
      {more path : List Segment} : IsNcName k → step.AsksFor k i → (ms.map (·.1)).Nodup →
      (JsonRef.waysTo ms k)[i]? = some more → (object ms).at? more = some child → child.LeadsTo steps path →
        (object ms).LeadsTo (step :: steps) (more ++ path)

/-- **A slot stays where it is** when something else is put there, unless that is an array in the place of something that
is none: then the slot becomes as many slots as the array has elements. -/
theorem waysTo_replace? (hkeys : (ms.map (·.1)).Nodup) (hslot : (JsonRef.waysTo ms k)[i]? = some more)
    (hchild : (object ms).at? more = some child) (hv : v.isArray = true → child.isArray = true)
    (hj' : replace? v more (object ms) = some j') :
    ∃ ms', j' = object ms' ∧ ms'.map (·.1) = ms.map (·.1) ∧ JsonRef.waysTo ms' k = JsonRef.waysTo ms k := by
  obtain ⟨key, old, hget, hold⟩ := JsonRef.waysTo_cases hkeys (List.mem_of_getElem? hslot)
  have hsame : ∀ w, (Members.set key w ms).map (·.1) = ms.map (·.1) := Members.keys_set (by rw [hget]; rfl)
  have hobject : (object ms).child? (.key key) = some old := hget
  have hset : ∀ w, (object ms).setChild? (.key key) w = some (object (Members.set key w ms)) := by
    intro w
    rw [setChild?, hget, Option.isSome_some, if_pos rfl]
  rcases hold with ⟨items, l, rfl, hl, rfl⟩ | ⟨hplain, rfl⟩
  · have helement : (array items).child? (.index l) = some items[l] := List.getElem?_eq_getElem hl
    rw [replace?_cons, hobject, Option.bind_some, replace?_cons, helement, Option.bind_some, replace?, Option.bind_some,
      setChild?, if_pos hl, Option.bind_some, hset] at hj'
    refine ⟨_, (Option.some.inj hj').symm, hsame _, JsonRef.waysTo_set hget ?_⟩
    simp [JsonRef.memberPaths]
  · -- What is no array is its own only slot, and so is what it gives way to.
    rw [at?, hobject] at hchild
    cases hchild
    have hv' : v.isArray = false := by
      by_contra harray
      have htrue := hv (by simpa using harray)
      rw [hplain] at htrue
      cases htrue
    rw [replace?_cons, hobject, Option.bind_some, replace?, Option.bind_some, hset] at hj'
    refine ⟨_, (Option.some.inj hj').symm, hsame _, JsonRef.waysTo_set hget ?_⟩
    rw [JsonRef.memberPaths_of_other key hv', JsonRef.memberPaths_of_other key hplain]

/-- A way leads to something. -/
theorem LeadsTo.at? (h : part.LeadsTo steps path) : ∃ target, part.at? path = some target := by
  induction h with
  | here => exact ⟨_, rfl⟩
  | stay _ ih => exact ih
  | child _ _ _ _ hchild _ ih =>
    obtain ⟨target, htarget⟩ := ih
    exact ⟨target, by rw [at?_append_of_at? hchild, htarget]⟩

/-- **A way stays as it is** when something that is no array is put at its end. -/
theorem LeadsTo.replace? (h : part.LeadsTo steps path) (hv : v.isArray = false)
    (hj' : Json.replace? v path part = some j') : j'.LeadsTo steps path ∧ (j'.isArray = true → part.isArray = true) := by
  induction h generalizing j' with
  | here =>
    cases hj'
    refine ⟨.here, fun harray => ?_⟩
    rw [hv] at harray
    cases harray
  | stay _ ih =>
    obtain ⟨hway, harray⟩ := ih hj'
    exact ⟨.stay hway, harray⟩
  | child hk hasks hkeys hslot hchild _ ih =>
    rw [replace?_append, hchild, Option.bind_some] at hj'
    obtain ⟨child', hchild', hj'⟩ := Option.bind_eq_some_iff.mp hj'
    obtain ⟨hway, harray⟩ := ih hchild'
    obtain ⟨ms', rfl, hsame, hways⟩ := waysTo_replace? hkeys hslot hchild harray hj'
    exact ⟨.child hk hasks (hsame ▸ hkeys) (hways ▸ hslot) (at?_replace? hj') hway, fun h => nomatch h⟩

end Json

/-! ## §D  Evaluating -/

namespace JsonRef

/-- **What a plain step leads to first** is the slot that it asks for. -/
theorem stepFrom_slot (c : Context) (host : Host) (hr : r.asAttribute = false)
    (hpart : st.at? r.doc r.path = some (.object ms)) (hk : IsNcName k) (hasks : step.AsksFor k i)
    (hslot : (waysTo ms k)[i]? = some more)
    (hlen : ((Pointer.json r).children st).length ≤ Number.exactBound) :
    ((c.surroundings host).stepFrom st step (.json r)).head? = some (.json (r.below more false)) := by
  have halong : (c.surroundings host).along st .child (.name (.plain k)) (.json r) =
      (waysTo ms k).map fun more => .json (r.below more false) := named_children hr hpart hk
  have hfound : ((c.surroundings host).along st .child (.name (.plain k)) (.json r))[i]? =
      some (.json (r.below more false)) := by
    rw [halong, List.getElem?_map, hslot]
    rfl
  cases hasks with
  | first => exact List.head?_eq_getElem?.trans hfound
  | @position x i hi hx =>
    obtain ⟨hguard, hindex⟩ := StepOf.AsksFor.toIndex hi hx
    have hkeep : (c.surroundings host).keep st (.number x)
        ((c.surroundings host).along st .child (.name (.plain k)) (.json r)) = _ :=
      keep_of_number ((List.length_filter_le _ _).trans hlen) fun j =>
        Surroundings.selects_number (congrArg Prod.fst (Context.judge_number x j))
    rw [if_pos hguard, hindex, Nat.add_sub_cancel, hfound] at hkeep
    exact congrArg List.head? hkeep

end JsonRef

/-- A node in front stays in front. -/
theorem Surroundings.eager_cons (around : Surroundings) (steps : List Step) (p : Pointer) (nodes : List Pointer) :
    around.eager st steps (p :: nodes) = around.eager st steps [p] ++ around.eager st steps nodes := by
  have happend : ∀ nodes' nodes, around.eager st steps (nodes' ++ nodes) =
      around.eager st steps nodes' ++ around.eager st steps nodes := by
    induction steps with
    | nil => exact fun _ _ => rfl
    | cons step steps ih =>
      intro nodes' nodes
      show around.eager st steps ((nodes' ++ nodes).flatMap (around.stepFrom st step)) = _
      rw [List.flatMap_append, ih]
      rfl
  exact happend [p] nodes

namespace IsDocument

/-- **Where plain steps lead** is what they lead to first, whoever evaluates them. -/
theorem head?_eager (h : IsDocument st root) (c : Context) (host : Host) (hway : part.LeadsTo steps path)
    (hmem : .json r ∈ root.listing st) (hr : r.asAttribute = false) (hpart : st.at? r.doc r.path = some part) :
    ((c.surroundings host).eager st steps [.json r]).head? = some (.json (r.below path false)) := by
  induction hway generalizing r with
  | here =>
    rw [JsonRef.below_nil hr]
    rfl
  | stay _ ih => exact ih hmem hr hpart
  | @child ms child k i step steps more path hk hasks _ hslot hchild _ ih =>
    have hlen : ((Pointer.json r).children st).length ≤ Number.exactBound :=
      (h.rooted.1.axis_length_le hmem .child).trans h.narrow
    have hfirst := JsonRef.stepFrom_slot c host hr hpart hk hasks hslot hlen
    obtain ⟨rest, hrest⟩ := List.head?_eq_some_iff.mp hfirst
    have hmem' : Pointer.json (r.below more false) ∈ root.listing st :=
      h.rooted.1.mem_of_axis hmem ((Surroundings.stepFrom_sublist step _).mem (List.mem_of_mem_head? hfirst))
    have hbehind := ih hmem' rfl (JsonRef.at?_below hpart hchild false)
    show ((c.surroundings host).eager st steps ([Pointer.json r].flatMap _)).head? = _
    rw [List.flatMap_singleton, hrest, Surroundings.eager_cons, List.head?_append, hbehind, JsonRef.below_below]
    rfl

/-- **Plain steps can be taken**: they never lead to a node twice, so that there are no more nodes than a document has. -/
theorem canWalk (h : IsDocument st root) (hplain : ∀ step ∈ steps, step.IsPlain) {nodes : List Pointer}
    (hnodes : Spread st root nodes) : (c.surroundings host).CanWalk st steps nodes := by
  induction steps generalizing nodes with
  | nil => trivial
  | cons step steps ih =>
    obtain ⟨hstep, hsteps⟩ := List.forall_mem_cons.mp hplain
    obtain ⟨hflat, hrejoins, hjudge⟩ : step.axis.isFlat = true ∧ step.axis.rejoins = false ∧
        ∀ e ∈ step.predicates, ∀ nodes, (c.surroundings host).CanJudge st e nodes := by
      cases hstep with
      | stay => exact ⟨rfl, rfl, fun _ he => nomatch he⟩
      | child _ hasks =>
        rw [hasks.axis_test.1]
        exact ⟨rfl, rfl, hasks.canJudge⟩
    have hsubset : nodes ⊆ root.listing st := fun p hp => h.rooted.1.mem_listing.mpr (hnodes.inTree p hp)
    have hlen : nodes.length ≤ Number.exactBound := (hnodes.nodup.subperm hsubset).length_le.trans h.narrow
    refine ⟨hlen.trans_lt Number.exactBound_lt_limit, fun p _ => Surroundings.canJudgeAll_of_forall hjudge _, ih hsteps ?_⟩
    exact h.spread_step hnodes hflat fun hc => by rw [hrejoins] at hc; cases hc

end IsDocument

/-! ## §E  Creating -/

/-- **Steps that lead somewhere** are not made: creating them finds what they lead to, and changes nothing. -/
theorem Setting.runOn_createSteps_of_leadsTo (s : Setting) (hway : part.LeadsTo steps path) (hr : r.asAttribute = false)
    (hpart : st.at? r.doc r.path = some part) :
    (s.createSteps (.json r) steps).runOn st = (.ok (.json (r.below path false)), st) := by
  induction hway generalizing r with
  | here =>
    rw [JsonRef.below_nil hr]
    rfl
  | stay _ ih =>
    rw [runOn_createSteps_cons]
    exact ih hr hpart
  | @child ms child k i step steps more path hk hasks _ hslot hchild _ ih =>
    obtain ⟨index, hindex, hasked⟩ := hasks.runOn_index s st
    have hnamed : s.named? st (.name (.plain k)) (index.getD 0) ((Pointer.json r).children st) =
        some (.json (r.below more false)) := by
      rw [named?, JsonRef.named_children hr hpart hk, hasked, List.getElem?_map, hslot]
      rfl
    have hstep : (s.createStep (.json r) step).runOn st = (.ok (.json (r.below more false)), st) := by
      obtain ⟨haxis, htest⟩ := hasks.axis_test
      rw [Setting.index] at hindex
      rw [createStep, Eval.runOn_bind, hindex]
      dsimp only
      rw [Eval.runOn_bind, Eval.runOn_get, haxis, htest]
      dsimp only
      rw [hnamed]
      rfl
    have hbehind := ih rfl (JsonRef.at?_below hpart hchild false)
    rw [runOn_createSteps_cons, hstep]
    dsimp only
    rw [hbehind, JsonRef.below_below]

end NodePath
