/-
# NodePath.Proofs.PlacePath — the path text of a place leads to it

A document is addressable when every key can be asked for and no object has two keys with one local name. The steps to a
place of such a document lead from the top to the place and to nothing else, whatever the prefixes of names stand for,
and no cursor can fail on the way; so whoever reads the path text of a place gets that place.

* §A  `Json.addressable`.
* §B  The predicates that ask for a name and for an element.
* §C  Where the members of an object lie, and which of them have a name.
* §D  One step down.
* §E  All steps.
* §F  Reading the path text of a place.
-/
import NodePath.Proofs.CertainPath
import NodePath.Proofs.PlaceText

namespace NodePath

/-! ## §A  Addressable documents -/

namespace Json

mutual
/-- **everyObject** says that something holds of the members of every object of a document. -/
def everyObject (holds : Members → Bool) : Json → Bool
  | array items => everyObjectItems holds items
  | object members => holds members && everyObjectMembers holds members
  | _ => true
termination_by structural j => j
/-- The same of all elements. -/
def everyObjectItems (holds : Members → Bool) : List Json → Bool
  | [] => true
  | j :: js => j.everyObject holds && everyObjectItems holds js
termination_by structural js => js
/-- The same of all members. -/
def everyObjectMembers (holds : Members → Bool) : List (String × Json) → Bool
  | [] => true
  | (_, j) :: ms => j.everyObject holds && everyObjectMembers holds ms
termination_by structural ms => ms
end

variable {holds : Members → Bool}

theorem everyObjectItems_iff {items : List Json} :
    everyObjectItems holds items = true ↔ ∀ c ∈ items, c.everyObject holds = true := by
  induction items with
  | nil => simp [everyObjectItems]
  | cons j js ih => simp [everyObjectItems, ih]

theorem everyObjectMembers_iff {ms : Members} :
    everyObjectMembers holds ms = true ↔ ∀ m ∈ ms, m.2.everyObject holds = true := by
  induction ms with
  | nil => simp [everyObjectMembers]
  | cons m ms ih => simp [everyObjectMembers, ih]

theorem everyObject_array {items : List Json} :
    (array items).everyObject holds = true ↔ ∀ c ∈ items, c.everyObject holds = true := everyObjectItems_iff

theorem everyObject_object {ms : Members} :
    (object ms).everyObject holds = true ↔ holds ms = true ∧ ∀ m ∈ ms, m.2.everyObject holds = true := by
  rw [everyObject, Bool.and_eq_true, everyObjectMembers_iff]

theorem everyObject_child? {j c : Json} {s : Segment} (h : j.everyObject holds = true) (hc : j.child? s = some c) :
    c.everyObject holds = true := by
  cases j with
  | object ms =>
    cases s with
    | index i => cases hc
    | key k => exact (everyObject_object.mp h).2 _ (Members.mem_of_get? hc)
  | array items =>
    cases s with
    | key k => cases hc
    | index i => exact everyObject_array.mp h _ (List.mem_of_getElem? hc)
  | _ => cases s <;> cases hc

theorem everyObject_at? {j c : Json} {path : List Segment} (h : j.everyObject holds = true) (hc : j.at? path = some c) :
    c.everyObject holds = true := by
  induction path generalizing j with
  | nil => cases hc; exact h
  | cons s path ih =>
    obtain ⟨d, hd, hc⟩ := Option.bind_eq_some_iff.mp hc
    exact ih (everyObject_child? h hd) hc

/-- The part of a key behind its first colon. -/
def localKey (k : String) : String := (QName.ofWritten k).localName

/-- Whether the members of an object can be told apart by steps: every key can be asked for, and no two keys have one
local name. -/
def apartByName (ms : Members) : Bool :=
  (ms.all fun m => decide (JsonRef.Addressable m.1)) && decide (ms.map fun m => localKey m.1).Nodup

/-- **addressable** says of a document that the members of every object can be told apart by steps. -/
def addressable (j : Json) : Bool := j.everyObject apartByName

theorem apartByName_iff {ms : Members} :
    apartByName ms = true ↔ (∀ m ∈ ms, JsonRef.Addressable m.1) ∧ (ms.map fun m => localKey m.1).Nodup := by
  simp [apartByName]

end Json

/-! ## §B  Names and positions -/

section

variable {m : Motion} {c : Cursor} {st : Store} {p : Pointer}

theorem Evaluator.runOn_name (ev : Evaluator) (hcurrent : m.current.runOn c st = (.ok (some p), c, st)) :
    (ev.next.lazy m (.core .name [])).runOn c st = (.ok (.text (p.name st).written), c, st) := by
  show (Walk.runOn (m.current >>= fun p? => _) _ _) = _
  rw [Walk.runOn_bind, hcurrent]
  rfl

theorem Evaluator.runOn_equal_texts (ev : Evaluator) (a b : String) :
    (ev.onBoth .equal (.text a) (.text b)).runOn st = (.ok (.boolean (a == b)), st) := by
  have halike : Operand.alike st false (.single (.text a)) (.single (.text b)) = (a == b) := by
    simp [Operand.alike, Operand.relates, Datum.alike, Datum.isTruth, Datum.isNumber, Datum.toText, Datum.held,
      Datum.scalarText]
  rw [← halike]
  rfl

/-- Asking for a name compares the name of the context node. -/
theorem Evaluator.runOn_named (ev : Evaluator) (k : String) (hcurrent : m.current.runOn c st = (.ok (some p), c, st)) :
    (ev.next.next.value m (JsonRef.named k)).runOn c st = (.ok (.boolean ((p.name st).written == k)), c, st) := by
  have htext : (ev.next.lazy m (.text k)).runOn c st = (.ok (.text k), c, st) := rfl
  show (Walk.runOn (ev.next.lazy m (.core .name []) >>= fun l => ev.next.lazy m (.text k) >>= fun r => _) _ _) = _
  rw [Walk.runOn_bind, ev.runOn_name hcurrent]
  dsimp only
  rw [Walk.runOn_bind, htext]
  dsimp only
  rw [Walk.runOn_bind, Walk.runOn_monadLift, ev.next.runOn_equal_texts]
  rfl

end

/-- A predicate is evaluated as deep as it is. -/
theorem Setting.surroundings_test (s : Setting) (m : Motion) (e : Expr) :
    s.surroundings.test m e = (do
      let ev := s.predicateEvaluator e
      ev.firstOf (← ev.value m e)) := by
  obtain ⟨n, hn⟩ : ∃ n, Walk.limit = n + 1 := Nat.exists_eq_succ_of_ne_zero (by decide)
  unfold Setting.predicateEvaluator Setting.surroundings Setting.inner
  rw [hn]
  rfl

/-- A number that can be a position equals itself. -/
theorem Number.ofNat_beq_self {i : Nat} (hpos : 0 < i) (hi : i ≤ exactBound) : (ofNat i == ofNat i) = true := by
  obtain ⟨k, hk, h⟩ := exists_isNormal hpos hi
  have hunpack := unpack_ofNat hi hk h
  rw [beq_eq h.pos hunpack, hunpack]
  simp [Float.Model.UnpackedFloat.compare]

namespace Context

variable {c : Context} {host : Host} {st : Store} {nodes : List Pointer}

theorem judge_number (x : Float) (k : Nat) :
    (c.surroundings host).judge st (.number x) nodes k = (.ok (.number x), st) := by
  simp only [Surroundings.judge, Context.surroundings, Setting.surroundings_test]
  rfl

theorem judge_named {k : String} {i : Nat} (hi : i < nodes.length) :
    (c.surroundings host).judge st (JsonRef.named k) nodes (i + 1) =
      (.ok (.boolean ((nodes[i].name st).written == k)), st) := by
  have hvalue := ((c.setting host).evaluatorTo (c.setting host).inner 1).runOn_named k
    (show (listMotion (c.surroundings host)).current.runOn _ st = _ from runOn_current_at hi)
  have hrun : ((c.surroundings host).test (listMotion (c.surroundings host)) (JsonRef.named k)).runOn
      (.at nodes (i + 1)) st = (.ok (.boolean ((nodes[i].name st).written == k)), .at nodes (i + 1), st) := by
    rw [Context.surroundings, Setting.surroundings_test]
    show (Walk.runOn (((c.setting host).evaluatorTo _ 1).next.next.value _ _ >>= fun v => _) _ _) = _
    rw [Walk.runOn_bind, ← Context.surroundings, hvalue]
    rfl
  simp only [Surroundings.judge, hrun]

/-- **The nodes of a name** are selected by asking for it. -/
theorem keep_named (k : String) :
    (c.surroundings host).keep st (JsonRef.named k) nodes = nodes.filter fun p => (p.name st).written == k := by
  have hselects : ∀ p ∈ nodes.zipIdx 1,
      (c.surroundings host).selects st (JsonRef.named k) nodes p.2 = ((p.1.name st).written == k) := by
    intro p hp
    obtain ⟨h1, h2, heq⟩ := List.mem_zipIdx hp
    obtain ⟨i, hi⟩ : ∃ i, p.2 = i + 1 := ⟨p.2 - 1, by omega⟩
    rw [Surroundings.selects, hi, judge_named (by omega), heq]
    simp only [hi, Nat.add_sub_cancel]
    rfl
  rw [Surroundings.keep, List.filter_congr hselects]
  conv => rhs; rw [← List.zipIdx_map_fst 1 nodes, List.filter_map]
  rfl

/-- **The element at an index** is selected by asking for its position. -/
theorem keep_position (c : Context) (host : Host) (st : Store) {i : Nat} (hi : i < Number.exactBound)
    (hlen : nodes.length ≤ Number.exactBound) :
    (c.surroundings host).keep st (JsonRef.position i) nodes = nodes[i]?.toList := by
  have hx : numberOfText (toString (i + 1)) = Number.ofNat (i + 1) := numberOfText_repr (Nat.succ_pos i) hi
  have hselects : ∀ k, (c.surroundings host).selects st (JsonRef.position i) nodes k =
      (Number.ofNat (i + 1) == Number.ofNat k) := by
    intro k
    rw [JsonRef.position, hx]
    exact Surroundings.selects_number (congrArg Prod.fst (judge_number _ k))
  have hself := Number.ofNat_beq_self (Nat.succ_pos i) hi
  rw [Number.beq_ofNat (Nat.succ_pos i) hi] at hself
  simp only [Bool.and_eq_true, beq_iff_eq] at hself
  rw [keep_of_number hlen hselects, if_pos (by simpa using hself.1), hself.2]
  rfl

/-- Both predicates can be judged at every node. -/
theorem canJudge_position (i : Nat) : (c.surroundings host).CanJudge st (JsonRef.position i) nodes :=
  fun k _ => ⟨_, congrArg Prod.fst (judge_number _ (k + 1))⟩

theorem canJudge_named (k : String) : (c.surroundings host).CanJudge st (JsonRef.named k) nodes :=
  fun _ hi => ⟨_, congrArg Prod.fst (judge_named hi)⟩

end Context

/-! ## §C  The members of an object -/

/-- Of some members with different names, only one makes something when only the member of one name does. -/
theorem flatMap_eq_of_key {α : Type} {ms : Json.Members} (hkeys : (ms.map (·.1)).Nodup) {m : String × Json} (hm : m ∈ ms)
    {f : String × Json → List α} (hf : ∀ m' ∈ ms, m'.1 ≠ m.1 → f m' = []) : ms.flatMap f = f m := by
  induction ms with
  | nil => cases hm
  | cons m' ms ih =>
    obtain ⟨hnew, hkeys⟩ := List.nodup_cons.mp hkeys
    rw [List.flatMap_cons]
    rcases List.mem_cons.mp hm with rfl | hm
    · have hrest : ms.flatMap f = [] := by
        refine List.flatMap_eq_nil_iff.mpr fun m' hm' => hf m' (List.mem_cons_of_mem _ hm') fun he => ?_
        exact hnew (List.mem_map.mpr ⟨m', hm', he⟩)
      rw [hrest, List.append_nil]
    · have hfirst : f m' = [] := hf m' List.mem_cons_self fun he => hnew (List.mem_map.mpr ⟨m, hm, he.symm⟩)
      rw [hfirst, List.nil_append, ih hkeys hm fun m'' hm'' => hf m'' (List.mem_cons_of_mem _ hm'')]

namespace JsonRef

section

variable {r : JsonRef} {ms : Json.Members} {st : Store}

/-- The ways to what a member makes: to the member, or to its elements. -/
theorem mem_memberPaths {m : String × Json} {more : List Segment} (h : more ∈ memberPaths m) :
    more = [.key m.1] ∨ ∃ i, more = [.key m.1, .index i] := by
  unfold memberPaths at h
  split at h
  · obtain ⟨i, -, rfl⟩ := mem_elementsBelow.mp h
    exact .inr ⟨i, rfl⟩
  · exact .inl (List.mem_singleton.mp h)

/-- What is there has the key of the member as its name, -/
theorem name_below (r : JsonRef) {k : String} {more : List Segment} (h : more = [.key k] ∨ ∃ i, more = [.key k, .index i])
    (asAttribute : Bool) : (r.below more asAttribute).name = .ofWritten k := by
  rcases h with rfl | ⟨i, rfl⟩ <;> simp [name, below, move, nameOf]

/-- and a kind of which names can be tested. -/
theorem isNamed_kind (r : JsonRef) {k : String} {more : List Segment}
    (h : more = [.key k] ∨ ∃ i, more = [.key k, .index i]) (asAttribute : Bool) :
    (r.below more asAttribute).kind.isNamed = true := by
  have hne : (r.path ++ more).isEmpty = false := by rcases h with rfl | ⟨i, rfl⟩ <;> simp
  cases asAttribute <;> simp [kind, below, move, hne, NodeKind.isNamed]

/-- No name is a star. -/
theorem ne_star_of_isNcName {k : String} (hk : IsNcName k) : (k == "*") = false := by
  rw [beq_eq_false_iff_ne]
  rintro rfl
  obtain ⟨c, cs, hcs, hc, -⟩ := hk
  cases hcs
  exact absurd hc (by decide)

/-- A test of a name compares local names, and then what the prefix of the test stands for, or the prefixes: nodes of
documents have no namespaces. -/
theorem accepts_json {name : QName} {p : JsonRef} {resolve : String → Option String} (hname : IsNcName name.localName)
    (hkind : p.kind.isNamed = true) :
    (NodeTest.name name).accepts resolve (.json p) st = (name.localName == p.name.localName &&
      (name.qualifier.bind resolve == none || name.qualifier == p.name.qualifier)) := by
  have hpname : (Pointer.json p).name st = p.name := rfl
  have haddress : (Pointer.json p).namespaceUri st = none := rfl
  have hpkind : ((Pointer.json p).kind st).isNamed = true := hkind
  have hcontainer : (Pointer.json p).isContainer = false := rfl
  simp only [NodeTest.accepts, nameAccepts, hcontainer, hpkind, hpname, haddress, ne_star_of_isNcName hname,
    Bool.false_and, Bool.false_eq_true, if_false, Bool.not_false, Bool.true_and, Option.isNone_none]
  by_cases hsame : name.localName = p.name.localName
  · simp [hsame]
  · simp [hsame]

/-- **A test of a name** accepts what has the key as its name, whatever prefixes stand for. -/
theorem accepts_name {k k' : String} {p : JsonRef} {resolve : String → Option String} (hk : isQualifiedName k = true)
    (hlocal : Json.localKey k' = Json.localKey k → k' = k) (hname : p.name = .ofWritten k') (hkind : p.kind.isNamed = true) :
    (NodeTest.name (.ofWritten k)).accepts resolve (.json p) st = (k' == k) := by
  rw [accepts_json (wellFormed_ofWritten hk).2 hkind, hname]
  by_cases he : k' = k
  · subst he
    simp
  · have hdiffer : (QName.ofWritten k).localName ≠ (QName.ofWritten k').localName := fun h => he (hlocal h.symm)
    rw [beq_eq_false_iff_ne.mpr hdiffer, beq_eq_false_iff_ne.mpr he, Bool.false_and]

/-- The test of no name in particular accepts whatever has a name. -/
theorem accepts_anyName {p : JsonRef} {resolve : String → Option String} (hkind : p.kind.isNamed = true) :
    (NodeTest.name (.plain "*")).accepts resolve (.json p) st = true := by
  have hpkind : ((Pointer.json p).kind st).isNamed = true := hkind
  have hcontainer : (Pointer.json p).isContainer = false := rfl
  have hany : nameAccepts (.plain "*") resolve (.json p) st = true := rfl
  rw [NodeTest.accepts, hcontainer, hpkind, hany]
  rfl

end

section

variable {c : Context} {host : Host} {st : Store} {ms : Json.Members} {r : JsonRef} {j : Json}

/-- What a test leaves of what the members make. -/
theorem filter_made {made : String × Json → List JsonRef} {f t : Pointer → Bool}
    (h : ∀ m ∈ ms, ∀ p ∈ made m, f (.json p) = t (.json p)) :
    ((ms.flatMap made).map Pointer.json).filter f = ((ms.flatMap made).map Pointer.json).filter t := by
  refine List.filter_congr fun q hq => ?_
  obtain ⟨p, hp, rfl⟩ := List.mem_map.mp hq
  obtain ⟨m, hm, hp⟩ := List.mem_flatMap.mp hp
  exact h m hm p hp

/-- **The step to a key** keeps what has the key as its name: by its test, or by a predicate when the key is no name. -/
theorem keep_written (c : Context) (host : Host) (st : Store) (hms : Json.apartByName ms = true) {m : String × Json}
    (hm : m ∈ ms) {made : String × Json → List JsonRef}
    (hmade : ∀ m ∈ ms, ∀ p ∈ made m, p.name = .ofWritten m.1 ∧ p.kind.isNamed = true) :
    (keyPredicates m.1).foldl (fun nodes e => (c.surroundings host).keep st e nodes)
        (((ms.flatMap made).map .json).filter ((c.surroundings host).passes st (keyTest m.1))) =
      ((ms.flatMap made).map Pointer.json).filter fun p => (p.name st).written == m.1 := by
  obtain ⟨haddressable, hlocal⟩ := Json.apartByName_iff.mp hms
  unfold keyPredicates
  cases hname : isQualifiedName m.1 with
  | true =>
    refine filter_made fun m' hm' p hp => ?_
    obtain ⟨hpname, hkind⟩ := hmade m' hm' p hp
    have hapart : Json.localKey m'.1 = Json.localKey m.1 → m'.1 = m.1 :=
      fun he => congrArg Prod.fst (List.inj_on_of_nodup_map hlocal hm' hm he)
    have hwritten : ((Pointer.json p).name st).written = m'.1 := by
      show p.name.written = m'.1
      rw [hpname, QName.written_ofWritten (haddressable m' hm').2]
    rw [hwritten]
    unfold keyTest
    rw [if_pos hname]
    exact accepts_name hname hapart hpname hkind
  | false =>
    have hany : ∀ m' ∈ ms, ∀ p ∈ made m', (c.surroundings host).passes st (keyTest m.1) (.json p) = true := by
      intro m' hm' p hp
      unfold keyTest
      rw [hname]
      exact accepts_anyName (hmade m' hm' p hp).2
    rw [filter_made (t := fun _ => true) hany, List.filter_true]
    exact Context.keep_named m.1

/-- So it leads to what the member makes, among what all members make. -/
theorem keep_key (c : Context) (host : Host) (st : Store) (hms : Json.apartByName ms = true) {m : String × Json}
    (hm : m ∈ ms) {made : String × Json → List JsonRef}
    (hmade : ∀ m ∈ ms, ∀ p ∈ made m, p.name = .ofWritten m.1 ∧ p.kind.isNamed = true) :
    (keyPredicates m.1).foldl (fun nodes e => (c.surroundings host).keep st e nodes)
        (((ms.flatMap made).map .json).filter ((c.surroundings host).passes st (keyTest m.1))) = (made m).map .json := by
  obtain ⟨haddressable, hlocal⟩ := Json.apartByName_iff.mp hms
  have hkeys : (ms.map (·.1)).Nodup := by
    have hmap : (ms.map fun m => Json.localKey m.1) = (ms.map (·.1)).map Json.localKey := by rw [List.map_map]; rfl
    rw [hmap] at hlocal
    exact hlocal.of_map _
  have hwritten : ∀ m' ∈ ms, ∀ q ∈ (made m').map Pointer.json, (q.name st).written = m'.1 := by
    intro m' hm' q hq
    obtain ⟨p, hp, rfl⟩ := List.mem_map.mp hq
    show p.name.written = m'.1
    rw [(hmade m' hm' p hp).1, QName.written_ofWritten (haddressable m' hm').2]
  rw [keep_written c host st hms hm hmade, List.map_flatMap, List.filter_flatMap]
  refine (flatMap_eq_of_key hkeys hm fun m' hm' hne => ?_).trans ?_
  · exact List.filter_eq_nil_iff.mpr fun q hq => by simpa [hwritten m' hm' q hq] using hne
  · exact List.filter_eq_self.mpr fun q hq => by simp [hwritten m hm q hq]

/-! ## §D  One step down -/

/-- What is below a place when a step to it is taken. -/
structure Leads (s : Surroundings) (st : Store) (r : JsonRef) (step : Step) (p : JsonRef) : Prop where
  stepFrom : s.stepFrom st step (.json r) = [.json p]
  canJudge : ∀ e ∈ step.predicates, ∀ nodes, s.CanJudge st e nodes

theorem canJudge_keyPredicates (k : String) :
    ∀ e ∈ keyPredicates k, ∀ nodes, (c.surroundings host).CanJudge st e nodes := by
  intro e he nodes
  unfold keyPredicates at he
  split at he
  · cases he
  · obtain rfl := List.mem_singleton.mp he
    exact Context.canJudge_named k

/-- A place and the part at it. -/
theorem part?_of_at? {part : Json} (hpart : st.at? r.doc r.path = some part) :
    ∃ j, st.document? r.doc = some j ∧ r.part? j = some part := Option.bind_eq_some_iff.mp hpart

theorem children_of_at? {part : Json} (hr : r.asAttribute = false) (hpart : st.at? r.doc r.path = some part) :
    (Pointer.json r).children st = ((childPaths r.isMember part).map fun more => r.below more false).map .json := by
  obtain ⟨j, hj, hpart⟩ := part?_of_at? hpart
  obtain ⟨d, path, asAttribute, b, n⟩ := r
  obtain rfl : asAttribute = false := hr
  rw [Pointer.children_json hj, children, hpart]
  rfl

theorem attributes_of_at? {part : Json} (hr : r.asAttribute = false) (hpart : st.at? r.doc r.path = some part) :
    (Pointer.json r).attributes st = ((attributePaths part).map fun more => r.below more true).map .json := by
  obtain ⟨j, hj, hpart⟩ := part?_of_at? hpart
  obtain ⟨d, path, asAttribute, b, n⟩ := r
  obtain rfl : asAttribute = false := hr
  rw [Pointer.attributes_json hj, attributes, hpart]
  rfl

/-- The ways to the children, or to the attribute, that one member makes. -/
def madePaths (asAttribute : Bool) (m : String × Json) : List (List Segment) :=
  if asAttribute then (if m.2.isArray then [] else [[.key m.1]]) else memberPaths m

theorem mem_madePaths {asAttribute : Bool} {m : String × Json} {more : List Segment} (h : more ∈ madePaths asAttribute m) :
    more = [.key m.1] ∨ ∃ i, more = [.key m.1, .index i] := by
  unfold madePaths at h
  split at h
  · split at h
    · cases h
    · exact .inl (List.mem_singleton.mp h)
  · exact mem_memberPaths h

/-- The children and the attributes of an object are what its members make. -/
theorem axis_of_object (hr : r.asAttribute = false) (hpart : st.at? r.doc r.path = some (.object ms)) (asAttribute : Bool) :
    (if asAttribute then Axis.attributes else .child).nodes (.json r) st =
      (ms.flatMap fun m => (madePaths asAttribute m).map fun more => r.below more asAttribute).map .json := by
  rw [← List.map_flatMap]
  cases asAttribute with
  | false => exact children_of_at? hr hpart
  | true =>
    have hmembers : attributePaths (.object ms) = ms.flatMap (madePaths true) := by
      show (ms.filter (!·.2.isArray)).map (fun m => ([.key m.1] : List Segment)) = _
      clear hpart
      induction ms with
      | nil => rfl
      | cons m ms ih =>
        rw [List.filter_cons, List.flatMap_cons, ← ih]
        cases hm : m.2.isArray <;> simp [madePaths, hm]
    rw [← hmembers]
    exact attributes_of_at? hr hpart

/-- The step to a key leads to what the member makes. -/
theorem stepFrom_key (c : Context) (host : Host) (hr : r.asAttribute = false)
    (hpart : st.at? r.doc r.path = some (.object ms)) (hms : Json.apartByName ms = true)
    {m : String × Json} (hm : m ∈ ms) (asAttribute : Bool) :
    (c.surroundings host).stepFrom st ⟨if asAttribute then .attributes else .child, keyTest m.1, keyPredicates m.1⟩
        (.json r) =
      ((madePaths asAttribute m).map fun more => r.below more asAttribute).map .json := by
  have hmade : ∀ m ∈ ms, ∀ p ∈ (madePaths asAttribute m).map fun more => r.below more asAttribute,
      p.name = .ofWritten m.1 ∧ p.kind.isNamed = true := by
    intro m hm p hp
    obtain ⟨more, hmore, rfl⟩ := List.mem_map.mp hp
    exact ⟨name_below r (mem_madePaths hmore) asAttribute, isNamed_kind r (mem_madePaths hmore) asAttribute⟩
  have hkeep := keep_key c host st hms hm hmade
  rw [← axis_of_object hr hpart asAttribute] at hkeep
  exact hkeep

/-- The step to a member that is no array. -/
theorem leads_key (hr : r.asAttribute = false) (hpart : st.at? r.doc r.path = some (.object ms))
    (hms : Json.apartByName ms = true) {m : String × Json} (hm : m ∈ ms) (hleaf : m.2.isArray = false)
    (asAttribute : Bool) :
    Leads (c.surroundings host) st r ⟨if asAttribute then .attributes else .child, keyTest m.1, keyPredicates m.1⟩
      (r.below [.key m.1] asAttribute) where
  stepFrom := by
    have hmade : madePaths asAttribute m = [[.key m.1]] := by
      obtain ⟨k, v⟩ := m
      unfold madePaths memberPaths
      cases v with
      | array items => cases hleaf
      | _ => cases asAttribute <;> rfl
    rw [stepFrom_key c host hr hpart hms hm, hmade]
    rfl
  canJudge := canJudge_keyPredicates m.1

/-- Behind other predicates, the one that asks for an element selects it. -/
theorem stepFrom_position {axis : Axis} {test : NodeTest} {es : List Expr} {nodes : List Pointer}
    (h : (c.surroundings host).stepFrom st ⟨axis, test, es⟩ (.json r) = nodes) {i : Nat} (hi : i < Number.exactBound)
    (hlen : nodes.length ≤ Number.exactBound) :
    (c.surroundings host).stepFrom st ⟨axis, test, es ++ [position i]⟩ (.json r) = nodes[i]?.toList := by
  rw [← Context.keep_position c host st hi hlen, ← h]
  exact List.foldl_append

/-- The step to an element of a member. -/
theorem leads_element (hr : r.asAttribute = false) (hpart : st.at? r.doc r.path = some (.object ms))
    (hms : Json.apartByName ms = true) {k : String} {items : List Json} (hm : (k, .array items) ∈ ms) {i : Nat}
    (hi : i < items.length) (hlen : ((Pointer.json r).children st).length ≤ Number.exactBound) :
    Leads (c.surroundings host) st r ⟨.child, keyTest k, keyPredicates k ++ [position i]⟩
      (r.below [.key k, .index i] false) where
  stepFrom := by
    have hkey := stepFrom_key c host hr hpart hms hm false
    have hpaths : (madePaths false (k, .array items)).map (fun more => r.below more false) =
        (List.range items.length).map fun i => r.below [.key k, .index i] false := by
      simp [madePaths, memberPaths, elementsBelow]
    rw [hpaths] at hkey
    have hcount : items.length ≤ Number.exactBound := by
      have hsublist : ((c.surroundings host).stepFrom st ⟨.child, keyTest k, keyPredicates k⟩ (.json r)).Sublist _ :=
        Surroundings.stepFrom_sublist _ _
      have hstep : (c.surroundings host).stepFrom st ⟨.child, keyTest k, keyPredicates k⟩ (.json r) = _ := hkey
      rw [hstep] at hsublist
      have hlength := hsublist.length_le
      rw [List.length_map, List.length_map, List.length_range] at hlength
      exact Nat.le_trans hlength hlen
    refine (stepFrom_position hkey (Nat.lt_of_lt_of_le hi hcount) (by simpa using hcount)).trans ?_
    simp [hi]
  canJudge := by
    intro e he nodes
    rcases List.mem_append.mp he with he | he
    · exact canJudge_keyPredicates k e he nodes
    · obtain rfl := List.mem_singleton.mp he
      exact Context.canJudge_position i

/-- The step to an element of an array that is no member. -/
theorem leads_index (hr : r.asAttribute = false) {items : List Json} (hpart : st.at? r.doc r.path = some (.array items))
    (hmember : r.isMember = false) {i : Nat} (hi : i < items.length)
    (hlen : ((Pointer.json r).children st).length ≤ Number.exactBound) :
    Leads (c.surroundings host) st r ⟨.child, .type .node, [position i]⟩ (r.below [.index i] false) where
  stepFrom := by
    have hpaths : childPaths r.isMember (.array items) = elementsBelow [] items.length := by
      rw [hmember]
      rfl
    have hchildren : (c.surroundings host).stepFrom st ⟨.child, .type .node, []⟩ (.json r) =
        ((List.range items.length).map fun i => r.below [.index i] false).map .json := by
      show ((Pointer.json r).children st).filter ((c.surroundings host).passes st (.type .node)) = _
      have hall : (c.surroundings host).passes st (.type .node) = fun _ => true := rfl
      rw [children_of_at? hr hpart, hpaths, hall, List.filter_true]
      simp [elementsBelow]
    have hcount : items.length ≤ Number.exactBound := by
      rw [children_of_at? hr hpart, hpaths, elementsBelow] at hlen
      simpa using hlen
    refine (stepFrom_position hchildren (Nat.lt_of_lt_of_le hi hcount) (by simpa using hcount)).trans ?_
    simp [hi]
  canJudge := by
    intro e he nodes
    obtain rfl := List.mem_singleton.mp he
    exact Context.canJudge_position i

end

/-! ## §E  All steps -/

theorem stepsTo_key (asAttribute : Bool) (k : String) {path : List Segment} (h : ∀ i, path.head? ≠ some (.index i)) :
    stepsTo asAttribute (.key k :: path) =
      ⟨if asAttribute && path.isEmpty then .attributes else .child, keyTest k, keyPredicates k⟩ ::
        stepsTo asAttribute path := by
  match path with
  | [] => rfl
  | .key _ :: _ => rfl
  | .index i :: _ => exact absurd rfl (h i)

/-- The steps to a place that goes on below another one, unless it goes on from a member to one of its elements. -/
theorem stepsTo_append {asAttribute : Bool} {path more : List Segment}
    (hseam : ∀ k i, path.getLast? = some (.key k) → more.head? ≠ some (.index i)) (hne : more ≠ []) :
    stepsTo asAttribute (path ++ more) = stepsTo false path ++ stepsTo asAttribute more := by
  have hlater : ∀ {s : Segment} {path : List Segment},
      (∀ k i, (s :: path).getLast? = some (.key k) → more.head? ≠ some (.index i)) →
      ∀ k i, path.getLast? = some (.key k) → more.head? ≠ some (.index i) := by
    intro s path h k i hlast
    exact h k i (by rw [List.getLast?_cons, hlast]; rfl)
  fun_induction stepsTo false path with
  | case1 => rfl
  | case2 k i path ih =>
    show _ = _ :: (stepsTo false path ++ stepsTo asAttribute more)
    rw [← ih (hlater (hlater hseam))]
    rfl
  | case3 k path hpath ih =>
    have hfront : ∀ i, (path ++ more).head? ≠ some (.index i) := by
      intro i he
      cases path with
      | nil => exact hseam k i rfl he
      | cons s path =>
        cases he
        exact hpath _ _ rfl
    have hempty : (path ++ more).isEmpty = false := by simp [hne]
    rw [List.cons_append, List.cons_append, ← ih (hlater hseam), stepsTo_key asAttribute k hfront, hempty]
    simp
  | case4 i path ih =>
    show _ = _ :: (stepsTo false path ++ stepsTo asAttribute more)
    rw [← ih (hlater hseam)]
    rfl

theorem ChildPath.ne_nil {member : Bool} {more : List Segment} (h : ChildPath member more) : more ≠ [] := by
  cases h <;> exact List.cons_ne_nil _ _

/-- What goes on below a member is no element of it. -/
theorem ChildPath.seam {r : JsonRef} {more : List Segment} (h : ChildPath r.isMember more) :
    ∀ k i, r.path.getLast? = some (.key k) → more.head? ≠ some (.index i) := by
  intro k i hlast
  cases h with
  | key => simp
  | element => simp
  | index _ hmember => simp [isMember, hlast] at hmember

section

variable {c : Context} {host : Host} {st : Store} {r : JsonRef} {part : Json}

/-- **A child is found** from its parent by one step. -/
theorem leads_child (c : Context) (host : Host) (hr : r.asAttribute = false)
    (hpart : st.at? r.doc r.path = some part) (hkeys : part.keysApart = true)
    (hclear : part.addressable = true) (hlen : ((Pointer.json r).children st).length ≤ Number.exactBound) {p : Pointer}
    (hp : p ∈ (Pointer.json r).children st) :
    ∃ more step, p = .json (r.below more false) ∧ ChildPath r.isMember more ∧ (part.at? more).isSome ∧
      stepsTo false more = [step] ∧ Leads (c.surroundings host) st r step (r.below more false) := by
  have hway := hp
  rw [children_of_at? hr hpart] at hway
  obtain ⟨q, hq, rfl⟩ := List.mem_map.mp hway
  obtain ⟨more, hmore, rfl⟩ := List.mem_map.mp hq
  obtain ⟨hpath, hsome⟩ := childPaths_spec hkeys hmore
  cases part with
  | object ms =>
    obtain ⟨hms, -⟩ := Json.everyObject_object.mp hclear
    obtain ⟨m, hm, hmore⟩ := List.mem_flatMap.mp hmore
    obtain ⟨k, v⟩ := m
    cases v with
    | array items =>
      obtain ⟨i, hi, rfl⟩ := mem_elementsBelow.mp hmore
      exact ⟨_, _, rfl, hpath, hsome, rfl, leads_element hr hpart hms hm hi hlen⟩
    | _ =>
      obtain rfl := List.mem_singleton.mp hmore
      exact ⟨_, _, rfl, hpath, hsome, rfl, leads_key hr hpart hms hm rfl false⟩
  | array items =>
    cases hmember : r.isMember with
    | true =>
      rw [hmember] at hmore
      cases hmore
    | false =>
      rw [hmember] at hmore hpath
      obtain ⟨i, hi, rfl⟩ := mem_elementsBelow.mp hmore
      exact ⟨_, _, rfl, hpath, hsome, rfl, leads_index hr hpart hmember hi hlen⟩
  | _ => cases hmore

/-- **An attribute is found** from its element by one step. -/
theorem leads_attribute (c : Context) (host : Host) (hr : r.asAttribute = false)
    (hpart : st.at? r.doc r.path = some part) (hclear : part.addressable = true) {p : Pointer}
    (hp : p ∈ (Pointer.json r).attributes st) :
    ∃ k step, p = .json (r.below [.key k] true) ∧ (part.at? [.key k]).isSome ∧ stepsTo true [.key k] = [step] ∧
      Leads (c.surroundings host) st r step (r.below [.key k] true) := by
  have hway := hp
  rw [attributes_of_at? hr hpart] at hway
  obtain ⟨q, hq, rfl⟩ := List.mem_map.mp hway
  obtain ⟨more, hmore, rfl⟩ := List.mem_map.mp hq
  obtain ⟨-, -, hsome⟩ := mem_attributePaths hmore
  cases part with
  | object ms =>
    obtain ⟨hms, -⟩ := Json.everyObject_object.mp hclear
    obtain ⟨m, hm, rfl⟩ := List.mem_map.mp hmore
    obtain ⟨hm, hleaf⟩ := List.mem_filter.mp hm
    exact ⟨_, _, rfl, hsome, rfl, leads_key hr hpart hms hm (by simpa using hleaf) true⟩
  | _ => cases hmore

end

end JsonRef

namespace Surroundings

variable {s : Surroundings} {st : Store}

theorem canJudgeAll_of_forall {es : List Expr} (h : ∀ e ∈ es, ∀ nodes, s.CanJudge st e nodes) (nodes : List Pointer) :
    s.CanJudgeAll st es nodes := by
  induction es generalizing nodes with
  | nil => trivial
  | cons e es ih => exact ⟨h e List.mem_cons_self nodes, ih (fun e he => h e (List.mem_cons_of_mem _ he)) _⟩

theorem eager_append (steps steps' : List Step) (nodes : List Pointer) :
    s.eager st (steps ++ steps') nodes = s.eager st steps' (s.eager st steps nodes) := List.foldl_append

theorem canWalk_append {steps steps' : List Step} {nodes : List Pointer} (h : s.CanWalk st steps nodes)
    (h' : s.CanWalk st steps' (s.eager st steps nodes)) : s.CanWalk st (steps ++ steps') nodes := by
  induction steps generalizing nodes with
  | nil => exact h'
  | cons step steps ih => exact ⟨h.1, h.2.1, ih h.2.2 h'⟩

/-- **Finds** says that steps from a node lead to one node and that no cursor can fail on the way. -/
structure Finds (s : Surroundings) (st : Store) (root : Pointer) (steps : List Step) (p : Pointer) : Prop where
  eager : s.eager st steps [root] = [p]
  canWalk : s.CanWalk st steps [root]

theorem Finds.nil (root : Pointer) : s.Finds st root [] root := ⟨rfl, trivial⟩

theorem Finds.snoc {root : Pointer} {steps : List Step} {step : Step} {r p : JsonRef}
    (h : s.Finds st root steps (.json r)) (hstep : JsonRef.Leads s st r step p) :
    s.Finds st root (steps ++ [step]) (.json p) where
  eager := by
    rw [eager_append, h.eager]
    show [Pointer.json r].flatMap (s.stepFrom st step) = _
    rw [List.flatMap_singleton, hstep.stepFrom]
  canWalk := by
    refine canWalk_append h.canWalk ?_
    rw [h.eager]
    refine ⟨show 1 < Walk.limit by decide, List.forall_mem_singleton.mpr ?_, trivial⟩
    exact canJudgeAll_of_forall hstep.canJudge _

end Surroundings

section

variable {c : Context} {host : Host} {st : Store} {d : DocId} {n : QName} {j : Json}

/-- The keys on the way to a part of an addressable document can be asked for. -/
theorem Json.addressable_keys {path : List Segment} (hclear : j.addressable = true) (hsome : (j.at? path).isSome) :
    ∀ k, .key k ∈ path → JsonRef.Addressable k := by
  induction path generalizing j with
  | nil => exact fun k hk => nomatch hk
  | cons s path ih =>
    intro k hk
    obtain ⟨c, hc⟩ : ∃ c, j.child? s = some c := by
      rw [Json.at?] at hsome
      cases hc : j.child? s with
      | none => rw [hc] at hsome; cases hsome
      | some c => exact ⟨c, rfl⟩
    -- The first key is one of the object's own; the others lie below it.
    rcases List.mem_cons.mp hk with rfl | hk
    · cases j with
      | object ms =>
        obtain ⟨hms, -⟩ := Json.everyObject_object.mp hclear
        exact (Json.apartByName_iff.mp hms).1 _ (Members.mem_of_get? hc)
      | _ => cases hc
    · refine ih (everyObject_child? hclear hc) ?_ k hk
      rw [Json.at?, hc] at hsome
      exact hsome

/-- **The steps to a part of an addressable document** lead to it, -/
theorem finds_inside (c : Context) (host : Host) (hj : st.document? d = some j)
    (hkeys : j.keysApart = true) (hclear : j.addressable = true)
    (hlen : ∀ q, Inside st (.json (.root d none n)) q → (q.children st).length ≤ Number.exactBound) {p : Pointer}
    (hp : Inside st (.json (.root d none n)) p) :
    ∃ path part, p = .json ⟨d, path, false, none, n⟩ ∧ j.at? path = some part ∧
      (c.surroundings host).Finds st (.json (.root d none n)) (JsonRef.stepsTo false path) p := by
  induction hp with
  | root => exact ⟨[], j, rfl, rfl, .nil _⟩
  | @child q p hq hp ih =>
    obtain ⟨path, part, rfl, hpart, hfinds⟩ := ih
    have hat : st.at? d path = some part := Store.at?_of_document? hj hpart
    obtain ⟨more, step, rfl, hway, hsome, hsteps, hleads⟩ := JsonRef.leads_child c host rfl hat
      ((Json.at?_spec hpart).2 hkeys) (Json.everyObject_at? hclear hpart) (hlen _ hq) hp
    obtain ⟨part', hpart'⟩ := Option.isSome_iff_exists.mp hsome
    refine ⟨path ++ more, part', rfl, (Json.at?_append_of_at? hpart more).trans hpart', ?_⟩
    rw [JsonRef.stepsTo_append hway.seam hway.ne_nil, hsteps]
    exact hfinds.snoc hleads

/-- and so do the steps to any node of it. -/
theorem IsDocument.finds (h : IsDocument st (.json (.root d none n))) (c : Context) (host : Host)
    (hj : st.document? d = some j) (hclear : j.addressable = true) {p : Pointer}
    (hp : p ∈ (Pointer.json (.root d none n)).listing st) :
    ∃ r, p = .json r ∧ r.base = none ∧ (∀ k, .key k ∈ r.path → Quotable k) ∧
      (c.surroundings host).Finds st (.json (.root d none n)) (JsonRef.stepsTo r.asAttribute r.path) p := by
  obtain ⟨d', b', n', j', hroot, hj', hkeys⟩ := h.top
  cases hroot
  obtain rfl : j' = j := Option.some_inj.mp (hj'.symm.trans hj)
  have hrooted := h.rooted.1
  have hlen : ∀ q, Inside st (.json (.root d none n)) q → (q.children st).length ≤ Number.exactBound := by
    intro q hq
    have hmem := hrooted.mem_listing.mpr ⟨q, hq, .inl rfl⟩
    exact Nat.le_trans (hrooted.axis_length_le hmem .child) h.narrow
  obtain ⟨q, hq, hp⟩ := hrooted.mem_listing.mp hp
  obtain ⟨path, part, rfl, hpart, hfinds⟩ := finds_inside c host hj hkeys hclear hlen hq
  rcases hp with rfl | hp
  · refine ⟨_, rfl, rfl, fun k hk => ?_, hfinds⟩
    exact (Json.addressable_keys hclear (Option.isSome_of_eq_some hpart) k hk).1
  · have hat : st.at? d path = some part := Store.at?_of_document? hj hpart
    obtain ⟨k, step, rfl, hsome, hsteps, hleads⟩ := JsonRef.leads_attribute c host rfl hat
      (Json.everyObject_at? hclear hpart) hp
    have hway : JsonRef.ChildPath false [.key k] := .key k
    refine ⟨_, rfl, rfl, fun k' hk' => ?_, ?_⟩
    · have hplace : (j'.at? (path ++ [.key k])).isSome = true := by
        rwa [Json.at?_append_of_at? hpart]
      exact (Json.addressable_keys hclear hplace k' hk').1
    · show (c.surroundings host).Finds st _ (JsonRef.stepsTo true (path ++ [.key k])) _
      rw [JsonRef.stepsTo_append (fun _ _ _ => by simp) (List.cons_ne_nil _ _), hsteps]
      exact hfinds.snoc hleads

/-! ## §F  Reading -/

variable {p : Pointer}

/-- The node that steps lead to is the one that is read with them. -/
theorem IsDocument.runOn_readPointer_finds (h : IsDocument st (.json (.root d none n))) (hc : c.Settled host st)
    (htop : c.rootPointer = .json (.root d none n)) {steps : List Step}
    (hfinds : (c.surroundings host).Finds st (.json (.root d none n)) steps p) (text : String) {st₁ : Store}
    (hst : st.Extends st₁) :
    ∃ st', ((c.setting host).readPointer text (.path true steps)).runOn st₁ = (.ok (some p), st') ∧ st.Extends st' := by
  have hstart : c.startOf true = .json (.root d none n) := htop
  have hmem : Pointer.json (.root d none n) ∈ (Pointer.json (.root d none n)).listing st :=
    h.rooted.1.mem_listing.mpr ⟨_, .root, .inl rfl⟩
  exact h.runOn_readPointer hc hstart hmem hfinds.canWalk (by rw [hfinds.eager]; rfl) hst

/-- **The path text of a node leads to the node**: in an addressable document it is read as a path, and whoever asks a
context at the top of the document for the node at that path gets the node, whatever prefixes the context knows. -/
theorem getPointer_pathText (hc : c.Settled host st) (htop : c.rootPointer = .json (.root d none n))
    (hroot : IsDocument st (.json (.root d none n))) (hj : st.document? d = some j) (hclear : j.addressable = true)
    (hp : p ∈ (Pointer.json (.root d none n)).listing st) :
    (∃ steps, Expr.parse (p.pathText st) = .ok (.path true steps)) ∧
      ∃ st', (c.getPointer host (p.pathText st)).runOn st = (.ok (some p), st') ∧ st.Extends st' := by
  obtain ⟨r, rfl, hbase, hkeys, hfinds⟩ := hroot.finds c host hj hclear hp
  have hparse := JsonRef.parse_pathText hbase hkeys
  have hcompiled : st.Extends (st.compiled r.pathText) := (Store.Extends.refl hc.sound).compile r.pathText
  obtain ⟨st', hread, hst'⟩ := hroot.runOn_readPointer_finds hc htop hfinds r.pathText hcompiled
  refine ⟨⟨_, hparse⟩, st', ?_, hst'⟩
  show (c.getPointer host r.pathText).runOn st = _
  rw [Context.getPointer, Reading.runOn_withText hc.sound hparse, hread]
  rfl

theorem Context.Settled.registerNamespace (h : c.Settled host st) (label address : String) :
    (c.registerNamespace label address).Settled host st where
  host := h.host
  within := ⟨h.within.contextPointer, h.within.rootPointer, h.within.namespaceNode⟩
  closed := h.closed
  sound := h.sound

/-- A document with a key that has a prefix, and keys that are no names. -/
def prefixedDocument : Json := .object [("x:y", .array [.int 1, .object [("a b", .int 2)]]), ("it's", .null)]

/-- The member of that document that is named `a b`. -/
def spacedPlace : Pointer := .json ⟨0, [.key "x:y", .index 1, .key "a b"], false, none, .plain ""⟩

/-- A key that is no name and one with a prefix that stands for an address. -/
theorem getPointer_pathText_twin :
    spacedPlace.pathText (.holding prefixedDocument) = "/x:y[2]/*[name()='a b']" ∧
      ∃ st', ((Context.atTop.registerNamespace "x" "urn:other").getPointer stockHost "/x:y[2]/*[name()='a b']").runOn
        (.holding prefixedDocument) = (.ok (some spacedPlace), st') := by
  have htext : spacedPlace.pathText (.holding prefixedDocument) = "/x:y[2]/*[name()='a b']" := by decide +kernel
  have hroot : IsDocument (.holding prefixedDocument) .firstTop :=
    isDocument_firstTop (by decide +kernel) (by decide +kernel)
  have hmem : spacedPlace ∈ Pointer.firstTop.listing (.holding prefixedDocument) := List.mem_of_getElem? (i := 5) rfl
  have hc := (Context.settled_atTop prefixedDocument).registerNamespace "x" "urn:other"
  obtain ⟨st', hrun, -⟩ := (getPointer_pathText hc rfl hroot rfl (by decide +kernel) hmem).2
  rw [htext] at hrun
  exact ⟨htext, st', hrun⟩

end

end NodePath
