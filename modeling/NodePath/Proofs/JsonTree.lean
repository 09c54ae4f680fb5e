/-
# NodePath.Proofs.JsonTree — documents are trees

The places of a document make a tree, if no object in it has two members of one name: from every place the path of
its parent can be read off its own, and what is below a part is less high than the part. Children are ranked by
the members and elements that they are, so that the tree is listed in document order.

* §A  `Json.keysApart`.
* §B  What is at a place.
* §C  Where the children and attributes of a part lie.
* §D  A document is `Rooted`.
* §E  A document is `Ranked`.
-/
import NodePath.Proofs.DocumentOrder

namespace NodePath

/-! ## §A  Keys -/

namespace Json

mutual
/-- **keysApart** says that no object of a document has two members of one name. -/
def keysApart : Json → Bool
  | array items => keysApartItems items
  | object members => decide (members.map (·.1)).Nodup && keysApartMembers members
  | _ => true
termination_by structural j => j
/-- The same of all elements. -/
def keysApartItems : List Json → Bool
  | [] => true
  | j :: js => j.keysApart && keysApartItems js
termination_by structural js => js
/-- The same of all members. -/
def keysApartMembers : List (String × Json) → Bool
  | [] => true
  | (_, j) :: ms => j.keysApart && keysApartMembers ms
termination_by structural ms => ms
end

theorem keysApart_of_mem_items {items : List Json} (h : keysApartItems items = true) {c : Json} (hc : c ∈ items) :
    c.keysApart = true := by
  induction items with
  | nil => cases hc
  | cons j js ih =>
    obtain ⟨hj, hjs⟩ := (Bool.and_eq_true _ _).mp h
    rcases List.mem_cons.mp hc with rfl | hc
    · exact hj
    · exact ih hjs hc

theorem keysApart_of_mem_members {ms : Members} (h : keysApartMembers ms = true) {m : String × Json} (hm : m ∈ ms) :
    m.2.keysApart = true := by
  induction ms with
  | nil => cases hm
  | cons m' ms ih =>
    obtain ⟨hj, hms⟩ := (Bool.and_eq_true _ _).mp h
    rcases List.mem_cons.mp hm with rfl | hm
    · exact hj
    · exact ih hms hm

theorem height_le_heightItems {items : List Json} {c : Json} (hc : c ∈ items) : c.height ≤ heightItems items := by
  induction items with
  | nil => cases hc
  | cons j js ih =>
    rcases List.mem_cons.mp hc with rfl | hc
    · exact Nat.le_max_left _ _
    · exact Nat.le_trans (ih hc) (Nat.le_max_right _ _)

theorem height_le_heightMembers {ms : Members} {m : String × Json} (hm : m ∈ ms) : m.2.height ≤ heightMembers ms := by
  induction ms with
  | nil => cases hm
  | cons m' ms ih =>
    rcases List.mem_cons.mp hm with rfl | hm
    · exact Nat.le_max_left _ _
    · exact Nat.le_trans (ih hm) (Nat.le_max_right _ _)

theorem height_pos (j : Json) : 0 < j.height := by
  cases j <;> simp [height]

/-! ## §B  Places -/

theorem Members.get?_cons (m : String × Json) (ms : Members) (key : String) :
    Members.get? (m :: ms) key = if m.1 == key then some m.2 else Members.get? ms key := by
  rw [Members.get?, List.find?_cons]
  cases hkey : m.1 == key <;> simp [Members.get?]

/-- The member that is found is one of the members. -/
theorem Members.mem_of_get? {ms : Members} {k : String} {c : Json} (h : Members.get? ms k = some c) : (k, c) ∈ ms := by
  obtain ⟨m, hm, rfl⟩ := Option.map_eq_some_iff.mp h
  have hkey : m.1 = k := by simpa using List.find?_some hm
  exact hkey ▸ List.mem_of_find?_eq_some hm

/-- Where keys are apart, every member is the one that is found. -/
theorem Members.get?_of_mem {ms : Members} (hkeys : (ms.map (·.1)).Nodup) {m : String × Json} (hm : m ∈ ms) :
    Members.get? ms m.1 = some m.2 := by
  induction ms with
  | nil => cases hm
  | cons m' ms ih =>
    obtain ⟨hnew, hkeys⟩ := List.nodup_cons.mp hkeys
    rcases List.mem_cons.mp hm with rfl | hm
    · simp [Members.get?]
    · have hne : (m'.1 == m.1) = false := by
        rw [beq_eq_false_iff_ne]
        exact fun he => hnew (List.mem_map.mpr ⟨m, hm, he.symm⟩)
      rw [Members.get?, List.find?_cons, hne]
      exact ih hkeys hm

theorem nodup_of_keysApart {ms : Members} (h : (object ms).keysApart = true) : (ms.map (·.1)).Nodup :=
  of_decide_eq_true ((Bool.and_eq_true _ _).mp h).1

/-- A member is found by its key. -/
theorem child?_of_mem {ms : Members} (h : (object ms).keysApart = true) {m : String × Json} (hm : m ∈ ms) :
    (object ms).child? (.key m.1) = some m.2 := Members.get?_of_mem (nodup_of_keysApart h) hm

/-- What is one step down is less high, and has its keys apart, too. -/
theorem child?_spec {j c : Json} {s : Segment} (h : j.child? s = some c) :
    c.height < j.height ∧ (j.keysApart = true → c.keysApart = true) := by
  cases j with
  | object ms =>
    cases s with
    | index i => cases h
    | key k =>
      have hmem := Members.mem_of_get? h
      refine ⟨Nat.lt_succ_of_le (height_le_heightMembers hmem), fun hkeys => ?_⟩
      exact keysApart_of_mem_members ((Bool.and_eq_true _ _).mp hkeys).2 hmem
  | array items =>
    cases s with
    | key k => cases h
    | index i =>
      have hmem := List.mem_of_getElem? h
      exact ⟨Nat.lt_succ_of_le (height_le_heightItems hmem), fun hkeys => keysApart_of_mem_items hkeys hmem⟩
  | _ => cases s <;> cases h

theorem at?_append (path more : List Segment) (j : Json) : j.at? (path ++ more) = (j.at? path).bind (at? more) := by
  induction path generalizing j with
  | nil => rfl
  | cons s path ih =>
    rw [List.cons_append, at?, at?]
    cases j.child? s with
    | none => rfl
    | some c => exact ih c

theorem at?_append_of_at? {j part : Json} {path : List Segment} (hpart : j.at? path = some part) (more : List Segment) :
    j.at? (path ++ more) = part.at? more := by
  rw [at?_append, hpart, Option.bind_some]

/-- One step further. -/
theorem at?_concat {j c : Json} {path : List Segment} {s : Segment} :
    j.at? (path ++ [s]) = some c ↔ ∃ part, j.at? path = some part ∧ part.child? s = some c := by
  simp [at?_append, at?, Option.bind_eq_some_iff]

/-- What is at a place is no higher than the whole, and has its keys apart, too. -/
theorem at?_spec {j c : Json} {path : List Segment} (h : j.at? path = some c) :
    c.height ≤ j.height ∧ (j.keysApart = true → c.keysApart = true) := by
  induction path generalizing j with
  | nil => cases h; exact ⟨Nat.le_refl _, id⟩
  | cons s path ih =>
    obtain ⟨d, hd, hc⟩ := Option.bind_eq_some_iff.mp h
    obtain ⟨hlt, hkeys⟩ := child?_spec hd
    obtain ⟨hle, hkeys'⟩ := ih hc
    exact ⟨Nat.le_trans hle (Nat.le_of_lt hlt), hkeys' ∘ hkeys⟩

/-- Below the place itself, everything is less high. -/
theorem at?_cons_height {j c : Json} {s : Segment} {path : List Segment} (h : j.at? (s :: path) = some c) :
    c.height < j.height := by
  obtain ⟨d, hd, hc⟩ := Option.bind_eq_some_iff.mp h
  exact Nat.lt_of_le_of_lt (at?_spec hc).1 (child?_spec hd).1

end Json

/-! ## §C  Children and attributes -/

namespace JsonRef

/-- **ChildPath** are the ways from a part to its children: to a member, to an element of a member, or to an element,
unless the part is itself a member. -/
inductive ChildPath (member : Bool) : List Segment → Prop
  | key (k : String) : ChildPath member [.key k]
  | element (k : String) (i : Nat) : ChildPath member [.key k, .index i]
  | index (i : Nat) : member = false → ChildPath member [.index i]

theorem mem_elementsBelow {above more : List Segment} {n : Nat} :
    more ∈ elementsBelow above n ↔ ∃ i < n, more = above ++ [.index i] := by
  simp only [elementsBelow, List.mem_map, List.mem_range]
  constructor
  · rintro ⟨i, hi, rfl⟩
    exact ⟨i, hi, rfl⟩
  · rintro ⟨i, hi, rfl⟩
    exact ⟨i, hi, rfl⟩

/-- **HasChild** says which parts of a part of a document are its children: a member that is no array, each element of
an array that is a member, and each element of an array that is no member itself. -/
inductive HasChild (member : Bool) : Json → List Segment → Json → Prop
  | member {ms : Json.Members} {k : String} {v : Json} : (k, v) ∈ ms → v.isArray = false →
      HasChild member (.object ms) [.key k] v
  | element {ms : Json.Members} {k : String} {items : List Json} {i : Nat} {v : Json} : (k, .array items) ∈ ms →
      items[i]? = some v → HasChild member (.object ms) [.key k, .index i] v
  | item {items : List Json} {i : Nat} {v : Json} : member = false → items[i]? = some v →
      HasChild member (.array items) [.index i] v

theorem HasChild.childPath {member : Bool} {j v : Json} {more : List Segment} (h : HasChild member j more v) :
    ChildPath member more := by
  cases h with
  | member => exact .key _
  | element => exact .element _ _
  | item hmember => exact .index _ hmember

/-- What is at the end of the way to a child is that child. -/
theorem HasChild.at?_eq {member : Bool} {j v : Json} {more : List Segment} (hkeys : j.keysApart = true)
    (h : HasChild member j more v) : j.at? more = some v := by
  cases h with
  | member hm => rw [Json.at?, Json.child?_of_mem hkeys hm, Option.bind_some, Json.at?]
  | element hm hv =>
    rw [Json.at?, Json.child?_of_mem hkeys hm, Option.bind_some, Json.at?, Json.child?, hv, Option.bind_some, Json.at?]
  | item _ hv => rw [Json.at?, Json.child?, hv, Option.bind_some, Json.at?]

/-- **The ways to the children** are told by the members of an object and the elements of arrays. -/
theorem mem_childPaths_iff {member : Bool} {j : Json} {more : List Segment} :
    more ∈ childPaths member j ↔ ∃ v, HasChild member j more v := by
  constructor
  · intro h
    cases j with
    | object ms =>
      obtain ⟨⟨k, v⟩, hm, h⟩ := List.mem_flatMap.mp h
      cases v with
      | array items =>
        obtain ⟨i, hi, rfl⟩ := mem_elementsBelow.mp h
        exact ⟨items[i], .element hm (List.getElem?_eq_getElem hi)⟩
      | _ =>
        obtain rfl := List.mem_singleton.mp h
        exact ⟨_, .member hm rfl⟩
    | array items =>
      cases member with
      | true => cases h
      | false =>
        obtain ⟨i, hi, rfl⟩ := mem_elementsBelow.mp h
        exact ⟨items[i], .item rfl (List.getElem?_eq_getElem hi)⟩
    | _ => cases h
  · rintro ⟨v, h⟩
    cases h with
    | @member ms k v hm hv =>
      refine List.mem_flatMap.mpr ⟨(k, v), hm, ?_⟩
      cases v <;> first | exact List.mem_singleton_self _ | cases hv
    | element hm hi =>
      exact List.mem_flatMap.mpr ⟨_, hm, mem_elementsBelow.mpr ⟨_, (List.getElem?_eq_some_iff.mp hi).1, rfl⟩⟩
    | item hmember hi =>
      rw [hmember]
      exact mem_elementsBelow.mpr ⟨_, (List.getElem?_eq_some_iff.mp hi).1, rfl⟩

/-- Something is at the end of each of these ways. -/
theorem childPaths_spec {member : Bool} {j : Json} (hkeys : j.keysApart = true) {more : List Segment}
    (h : more ∈ childPaths member j) : ChildPath member more ∧ (j.at? more).isSome := by
  obtain ⟨v, hv⟩ := mem_childPaths_iff.mp h
  exact ⟨hv.childPath, Option.isSome_of_eq_some (hv.at?_eq hkeys)⟩

/-- **HasAttribute** says which members of an object are its attributes: those that are no arrays. -/
inductive HasAttribute : Json → List Segment → Json → Prop
  | member {ms : Json.Members} {k : String} {v : Json} : (k, v) ∈ ms → v.isArray = false →
      HasAttribute (.object ms) [.key k] v

theorem mem_attributePaths_iff {j : Json} {more : List Segment} :
    more ∈ attributePaths j ↔ ∃ v, HasAttribute j more v := by
  constructor
  · intro h
    cases j with
    | object ms =>
      obtain ⟨⟨k, v⟩, hm, rfl⟩ := List.mem_map.mp h
      obtain ⟨hm, hv⟩ := List.mem_filter.mp hm
      exact ⟨v, .member hm (by simpa using hv)⟩
    | _ => cases h
  · rintro ⟨v, h⟩
    cases h with
    | member hm hv => exact List.mem_map.mpr ⟨_, List.mem_filter.mpr ⟨hm, by simp [hv]⟩, rfl⟩

theorem HasAttribute.at?_eq {j v : Json} {more : List Segment} (hkeys : j.keysApart = true)
    (h : HasAttribute j more v) : j.at? more = some v := by
  cases h with
  | member hm => rw [Json.at?, Json.child?_of_mem hkeys hm, Option.bind_some, Json.at?]

theorem mem_attributePaths {j : Json} {more : List Segment} (h : more ∈ attributePaths j) :
    ∃ k, more = [.key k] ∧ (j.at? more).isSome := by
  obtain ⟨v, hv⟩ := mem_attributePaths_iff.mp h
  cases hv with
  | @member ms k v hm _ =>
    have hmember : (ms.find? fun m' => m'.1 == k).isSome := List.find?_isSome.mpr ⟨(k, v), hm, beq_self_eq_true _⟩
    exact ⟨k, rfl, by simpa [Json.at?, Json.child?, Json.Members.get?] using hmember⟩

/-- The path of the parent can be read off the path of a child. -/
theorem parentPath_append {r : JsonRef} {more : List Segment} (h : ChildPath r.isMember more) :
    parentPath (r.path ++ more).reverse = r.path.reverse := by
  cases h with
  | key k => simp [parentPath]
  | element k i => simp [parentPath]
  | index i hmember =>
    rcases List.eq_nil_or_concat r.path with hnil | ⟨path, s, hpath⟩
    · simp [hnil, parentPath]
    · cases s with
      | key k => simp [isMember, hpath] at hmember
      | index k => simp [hpath, parentPath]

end JsonRef

/-! ## §D  A tree -/

/-- The height of the part of a document at a place. -/
def Pointer.partHeight (st : Store) : Pointer → Nat
  | .json r => ((st.at? r.doc r.path).map Json.height).getD 0
  | _ => 0

section

variable {st : Store} {d : DocId} {j : Json} {b : Option VarRef} {n : QName} {p : Pointer}

theorem Pointer.children_json (hj : st.document? d = some j) (path : List Segment) (asAttribute : Bool) :
    (Pointer.json ⟨d, path, asAttribute, b, n⟩).children st =
      (JsonRef.children ⟨d, path, asAttribute, b, n⟩ j).map .json := by
  simp [Pointer.children, Pointer.follow, Pointer.followFrom, Pointer.opening, Pointer.plainChildren, hj]

theorem Pointer.attributes_json (hj : st.document? d = some j) (path : List Segment) (asAttribute : Bool) :
    (Pointer.json ⟨d, path, asAttribute, b, n⟩).attributes st =
      (JsonRef.attributes ⟨d, path, asAttribute, b, n⟩ j).map .json := by
  simp [Pointer.attributes, hj]

theorem JsonRef.mem_children {r c : JsonRef} (hr : r.asAttribute = false) (hkeys : j.keysApart = true)
    (hc : c ∈ r.children j) :
    ∃ more, c = r.below more false ∧ ChildPath r.isMember more ∧ (j.at? (r.path ++ more)).isSome := by
  rw [JsonRef.children, if_neg (by simp [hr])] at hc
  cases hpart : r.part? j with
  | none => rw [hpart] at hc; cases hc
  | some part =>
    rw [hpart] at hc
    obtain ⟨more, hmore, rfl⟩ := List.mem_map.mp hc
    obtain ⟨hpath, hsome⟩ := childPaths_spec ((Json.at?_spec hpart).2 hkeys) hmore
    exact ⟨more, rfl, hpath, by rwa [Json.at?_append_of_at? hpart]⟩

theorem JsonRef.mem_attributes {r a : JsonRef} (ha : a ∈ r.attributes j) :
    ∃ k, a = r.below [.key k] true ∧ (j.at? (r.path ++ [.key k])).isSome := by
  unfold JsonRef.attributes at ha
  split at ha
  · cases ha
  · cases hpart : r.part? j with
    | none => rw [hpart] at ha; cases ha
    | some part =>
      rw [hpart] at ha
      obtain ⟨more, hmore, rfl⟩ := List.mem_map.mp ha
      obtain ⟨k, rfl, hsome⟩ := mem_attributePaths hmore
      exact ⟨k, rfl, by rwa [Json.at?_append_of_at? hpart]⟩

/-- **What is inside a document** is a part of it. -/
theorem inside_document (hj : st.document? d = some j) (hkeys : j.keysApart = true)
    (hp : Inside st (.json (.root d b n)) p) :
    ∃ path part, p = .json ⟨d, path, false, b, n⟩ ∧ j.at? path = some part := by
  induction hp with
  | root => exact ⟨[], j, rfl, rfl⟩
  | child hp hc ih =>
    obtain ⟨path, part, rfl, hpart⟩ := ih
    rw [Pointer.children_json hj] at hc
    obtain ⟨r, hr, rfl⟩ := List.mem_map.mp hc
    obtain ⟨more, rfl, -, hsome⟩ := JsonRef.mem_children rfl hkeys hr
    obtain ⟨part', hpart'⟩ := Option.isSome_iff_exists.mp hsome
    exact ⟨path ++ more, part', rfl, hpart'⟩

/-- A part of a document is at its place. -/
theorem Store.at?_of_document? (hj : st.document? d = some j) {path : List Segment} {part : Json}
    (hpart : j.at? path = some part) : st.at? d path = some part := Option.bind_eq_some_iff.mpr ⟨j, hj, hpart⟩

theorem Pointer.partHeight_json (hj : st.document? d = some j) {path : List Segment} {part : Json}
    (hpart : j.at? path = some part) (asAttribute : Bool) :
    (Pointer.json ⟨d, path, asAttribute, b, n⟩).partHeight st = part.height := by
  simp [Pointer.partHeight, Store.at?, hj, hpart]

/-- A child has its parent, and is less high. -/
theorem child_of_document (hj : st.document? d = some j) (hkeys : j.keysApart = true) {path : List Segment}
    {part : Json} (hpart : j.at? path = some part) {c : Pointer}
    (hc : c ∈ (Pointer.json ⟨d, path, false, b, n⟩).children st) :
    c.parent? = some (.json ⟨d, path, false, b, n⟩) ∧ c.partHeight st < part.height := by
  rw [Pointer.children_json hj] at hc
  obtain ⟨r, hr, rfl⟩ := List.mem_map.mp hc
  obtain ⟨more, rfl, hmore, hsome⟩ := JsonRef.mem_children rfl hkeys hr
  obtain ⟨part', hpart'⟩ := Option.isSome_iff_exists.mp hsome
  have hparent := JsonRef.parentPath_append (r := ⟨d, path, false, b, n⟩) hmore
  have hne : path ++ more ≠ [] := by cases hmore <;> simp
  constructor
  · simp only [Pointer.parent?, JsonRef.below, JsonRef.move, JsonRef.parent?, List.isEmpty_iff, hne, if_false,
      Bool.false_eq_true]
    rw [hparent, List.reverse_reverse]
  · rw [JsonRef.below, JsonRef.move, Pointer.partHeight_json hj hpart']
    rw [Json.at?_append_of_at? hpart] at hpart'
    cases hmore <;> exact Json.at?_cons_height hpart'

/-- An attribute has its element, and nothing below it. -/
theorem attribute_of_document (hj : st.document? d = some j) {path : List Segment} {a : Pointer}
    (ha : a ∈ (Pointer.json ⟨d, path, false, b, n⟩).attributes st) :
    ∃ k, a = .json ⟨d, path ++ [.key k], true, b, n⟩ ∧ (j.at? (path ++ [.key k])).isSome := by
  rw [Pointer.attributes_json hj] at ha
  obtain ⟨r, hr, rfl⟩ := List.mem_map.mp ha
  obtain ⟨k, rfl, hsome⟩ := JsonRef.mem_attributes hr
  exact ⟨k, rfl, hsome⟩

/-- All nodes of a document are there. -/
theorem actual_of_document (hj : st.document? d = some j) (hkeys : j.keysApart = true)
    (hp : InTree st (.json (.root d b n)) p) : p.isActual st = true := by
  obtain ⟨q, hq, hp⟩ := hp
  obtain ⟨path, part, rfl, hpart⟩ := inside_document hj hkeys hq
  rcases hp with rfl | hp
  · simp [Pointer.isActual, Store.at?, hj, hpart]
  · obtain ⟨k, rfl, hsome⟩ := attribute_of_document hj hp
    simpa [Pointer.isActual, Store.at?, hj] using hsome

theorem place_of_inTree (hj : st.document? d = some j) (hkeys : j.keysApart = true)
    (hp : InTree st (.json (.root d b n)) p) : ∃ path asAttribute, p = .json ⟨d, path, asAttribute, b, n⟩ := by
  obtain ⟨q, hq, hp⟩ := hp
  obtain ⟨path, part, rfl, -⟩ := inside_document hj hkeys hq
  rcases hp with rfl | hp
  · exact ⟨path, false, rfl⟩
  · obtain ⟨k, rfl, -⟩ := attribute_of_document hj hp
    exact ⟨_, true, rfl⟩

/-- **A document is a tree.** -/
theorem rooted_document (hj : st.document? d = some j) (hkeys : j.keysApart = true) :
    Rooted st (.json (.root d b n)) (Pointer.partHeight st) where
  top := by cases b <;> rfl
  children := by
    intro p c hp hc
    obtain ⟨path, part, rfl, hpart⟩ := inside_document hj hkeys hp
    rw [Pointer.partHeight_json hj hpart]
    exact child_of_document hj hkeys hpart hc
  attributes := by
    intro p a hp ha
    obtain ⟨path, part, rfl, hpart⟩ := inside_document hj hkeys hp
    obtain ⟨k, rfl, -⟩ := attribute_of_document hj ha
    refine ⟨?_, ?_, ?_⟩
    · simp [Pointer.parent?, JsonRef.parent?, JsonRef.move]
    · rw [Pointer.children_json hj]
      rfl
    · rw [Pointer.attributes_json hj]
      rfl
  declarations := by
    intro p q hp hq
    obtain ⟨path, asAttribute, rfl⟩ := place_of_inTree hj hkeys ⟨p, hp, hq⟩
    rfl
  contained := by
    intro p hp
    obtain ⟨path, part, rfl, hpart⟩ := inside_document hj hkeys hp
    rfl
  stands := by
    intro p a hp
    obtain ⟨path, part, rfl, hpart⟩ := inside_document hj hkeys hp
    constructor
    · simp only [Pointer.hasSiblings, Pointer.kind, JsonRef.kind, Bool.false_eq_true, if_false]
      cases path.isEmpty && b.isNone <;> rfl
    · intro ha
      obtain ⟨k, rfl, -⟩ := attribute_of_document hj ha
      rfl
  height_pos := by
    intro p hp
    obtain ⟨path, part, rfl, hpart⟩ := inside_document hj hkeys hp
    rw [Pointer.partHeight_json hj hpart]
    exact part.height_pos
  height_le := by
    intro p hp
    obtain ⟨path, part, rfl, hpart⟩ := inside_document hj hkeys hp
    rw [Pointer.partHeight_json hj hpart]
    simpa [Pointer.levelsBelow, Pointer.follow, Pointer.followFrom, Pointer.opening, Pointer.plainLevels, hj]
      using (Json.at?_spec hpart).1
  eq_of_beq := by
    intro p q x y hp hq hx hy hbeq
    obtain ⟨path, f, rfl⟩ := place_of_inTree hj hkeys ⟨p, hp, hx⟩
    obtain ⟨path', f', rfl⟩ := place_of_inTree hj hkeys ⟨q, hq, hy⟩
    have hsame : (JsonRef.mk d path f b n).same ⟨d, path', f', b, n⟩ = true := hbeq
    simp only [JsonRef.same, beq_self_eq_true, Bool.true_and, Bool.and_eq_true, beq_iff_eq] at hsame
    rw [hsame.1, hsame.2]

end

/-! ## §E  Ranks -/

namespace JsonRef

/-- Ranks that differ in what is ranked. -/
theorem compareRanks_kind {x y : Nat × Option Nat × Nat} (h : x.1 < y.1) :
    compareRanks x y = .lt ∧ compareRanks y x = .gt := by
  simp [compareRanks, Nat.compare_eq_lt.mpr h, Nat.compare_eq_gt.mpr h]

/-- Ranks of different members. -/
theorem compareRanks_place {x y : Nat × Option Nat × Nat} {s t : Nat} (h : x.1 = y.1) (hs : x.2.1 = some s)
    (ht : y.2.1 = some t) (hlt : s < t) : compareRanks x y = .lt ∧ compareRanks y x = .gt := by
  simp [compareRanks, h, hs, ht, comparePlaces, Nat.compare_eq_lt.mpr hlt, Nat.compare_eq_gt.mpr hlt]

/-- Ranks of elements of one member. -/
theorem compareRanks_index {x y : Nat × Option Nat × Nat} {s : Nat} (h : x.1 = y.1) (hs : x.2.1 = some s)
    (ht : y.2.1 = some s) (hlt : x.2.2 < y.2.2) : compareRanks x y = .lt ∧ compareRanks y x = .gt := by
  simp [compareRanks, h, hs, ht, comparePlaces, Nat.compare_eq_lt.mpr hlt, Nat.compare_eq_gt.mpr hlt]

/-- Where keys are apart, a member has the place at which it stands. -/
theorem position?_getElem {ms : Json.Members} (hkeys : (ms.map (·.1)).Nodup) {i : Nat} (hi : i < ms.length) :
    Json.Members.position? ms ms[i].1 = some i := by
  refine List.findIdx?_eq_some_iff_getElem.mpr ⟨hi, beq_self_eq_true _, fun k hk => ?_⟩
  have hne := List.pairwise_iff_getElem.mp hkeys k i (by simp; omega) (by simpa using hi) hk
  simpa using hne

/-- The members of an object are placed as they stand. -/
theorem members_pairwise {ms : Json.Members} (hkeys : (ms.map (·.1)).Nodup) :
    ms.Pairwise fun m m' => ∃ s t, Json.Members.position? ms m.1 = some s ∧ Json.Members.position? ms m'.1 = some t ∧
      s < t := by
  exact List.pairwise_iff_getElem.mpr fun i k hi hk hik =>
    ⟨i, k, position?_getElem hkeys hi, position?_getElem hkeys hk, hik⟩

theorem drop_below (r : JsonRef) (more : List Segment) (asAttribute : Bool) :
    (r.below more asAttribute).path.drop r.path.length = more := List.drop_left

section

variable {r : JsonRef} {j : Json} {ms : Json.Members}

theorem rank_member (hpart : r.part? j = some (.object ms)) (k : String) (asAttribute : Bool) :
    r.rank j (r.below [.key k] asAttribute) = (if asAttribute then 0 else 1, Json.Members.position? ms k, 0) := by
  simp only [rank, drop_below, hpart]
  rfl

theorem rank_element (hpart : r.part? j = some (.object ms)) (k : String) (i : Nat) :
    r.rank j (r.below [.key k, .index i] false) = (1, Json.Members.position? ms k, i) := by
  simp only [rank, drop_below, hpart]
  rfl

theorem rank_index (i : Nat) : r.rank j (r.below [.index i] false) = (1, some i, 0) := by
  simp only [rank, drop_below]

/-- The ways to the children that one member makes. -/
def memberPaths (m : String × Json) : List (List Segment) :=
  match m.2 with
  | .array items => elementsBelow [.key m.1] items.length
  | _ => [[.key m.1]]

/-- The rank of a child that a member makes. -/
theorem rank_of_member (hpart : r.part? j = some (.object ms)) {m : String × Json} {more : List Segment}
    (h : more ∈ memberPaths m) :
    ∃ i, r.rank j (r.below more false) = (1, Json.Members.position? ms m.1, i) := by
  obtain ⟨k, c⟩ := m
  unfold memberPaths at h
  split at h
  · obtain ⟨i, -, rfl⟩ := mem_elementsBelow.mp h
    exact ⟨i, rank_element hpart k i⟩
  · obtain rfl := List.mem_singleton.mp h
    exact ⟨0, rank_member hpart k false⟩

/-- Elements are ranked by their index. -/
theorem elementsBelow_pairwise {above : List Segment} {n : Nat} {before : List Segment → List Segment → Prop}
    (h : ∀ i k, i < k → before (above ++ [.index i]) (above ++ [.index k])) : (elementsBelow above n).Pairwise before :=
  List.pairwise_map.mpr (List.pairwise_lt_range.imp fun {i k} hik => h i k hik)

/-- **The attributes and children of an object** are ranked as they stand, attributes first. -/
theorem ranked_object (hpart : r.part? j = some (.object ms)) (hkeys : (ms.map (·.1)).Nodup) :
    (((attributePaths (.object ms)).map fun more => r.below more true) ++
      (ms.flatMap memberPaths).map fun more => r.below more false).Pairwise
        fun x y => r.compareChildren j x y = .lt ∧ r.compareChildren j y x = .gt := by
  have hmembers := members_pairwise hkeys
  -- Ranks are compared by kind first, then by the place of the member, then by the index in its array.
  refine List.pairwise_append.mpr ⟨List.pairwise_map.mpr ?attributes, List.pairwise_map.mpr ?children, ?across⟩
  case attributes =>
    refine List.pairwise_map.mpr ((hmembers.filter _).imp ?_)
    rintro m m' ⟨s, t, hs, ht, hst⟩
    refine compareRanks_place (s := s) (t := t) ?_ ?_ ?_ hst <;> simp [rank_member hpart, hs, ht]
  case children =>
    refine List.pairwise_flatMap.mpr ⟨fun m hm => ?_, hmembers.imp ?_⟩
    · obtain ⟨s, hs, rfl⟩ := List.mem_iff_getElem.mp hm
      have hplace := position?_getElem hkeys hs
      generalize ms[s] = m at hplace
      unfold memberPaths
      split
      · refine elementsBelow_pairwise fun i i' hi => ?_
        refine compareRanks_index (s := s) ?_ ?_ ?_ ?_ <;> simp [rank_element hpart, hplace, hi]
      · exact List.pairwise_singleton _ _
    · rintro m m' ⟨s, t, hs, ht, hst⟩ more hmore more' hmore'
      obtain ⟨i, hi⟩ := rank_of_member hpart hmore
      obtain ⟨i', hi'⟩ := rank_of_member hpart hmore'
      refine compareRanks_place (s := s) (t := t) ?_ ?_ ?_ hst <;> simp [hi, hi', hs, ht]
  case across =>
    intro x hx y hy
    obtain ⟨more, hmore, rfl⟩ := List.mem_map.mp hx
    obtain ⟨more', hmore', rfl⟩ := List.mem_map.mp hy
    obtain ⟨k, rfl, -⟩ := mem_attributePaths hmore
    obtain ⟨m, -, hmore'⟩ := List.mem_flatMap.mp hmore'
    obtain ⟨i, hi⟩ := rank_of_member hpart hmore'
    exact compareRanks_kind (by simp [rank_member hpart, hi])

/-- **The children of an array** are ranked as they stand. -/
theorem ranked_array (n : Nat) :
    ((elementsBelow [] n).map fun more => r.below more false).Pairwise
      fun x y => r.compareChildren j x y = .lt ∧ r.compareChildren j y x = .gt := by
  refine List.pairwise_map.mpr (elementsBelow_pairwise fun i k hik => ?_)
  refine compareRanks_place (s := i) (t := k) ?_ ?_ ?_ hik <;> simp [rank_index]

end

end JsonRef

/-- **A document is ranked.** -/
theorem ranked_document {st : Store} {d : DocId} {j : Json} {b : Option VarRef} {n : QName}
    (hj : st.document? d = some j) (hkeys : j.keysApart = true) : Ranked st (.json (.root d b n)) := by
  intro p hp
  obtain ⟨path, part, rfl, hpart⟩ := inside_document hj hkeys hp
  have hpart' : (JsonRef.mk d path false b n).part? j = some part := hpart
  rw [Pointer.attributes_json hj, Pointer.children_json hj, ← List.map_append]
  refine List.pairwise_map.mpr ?_
  have hcompare : ∀ x y : JsonRef, Pointer.compareBelow st (.json ⟨d, path, false, b, n⟩) (.json x) (.json y) =
      (JsonRef.mk d path false b n).compareChildren j x y := fun x y => by simp [Pointer.compareBelow, hj]
  simp only [hcompare, JsonRef.attributes, JsonRef.children, Bool.false_eq_true, if_false, hpart']
  have hkeys' := (Json.at?_spec hpart).2 hkeys
  cases part with
  | object ms =>
    exact JsonRef.ranked_object hpart' (of_decide_eq_true ((Bool.and_eq_true _ _).mp hkeys').1)
  | array items =>
    simp only [JsonRef.attributePaths, List.map_nil, List.nil_append, JsonRef.childPaths]
    split
    · exact List.Pairwise.nil
    · exact JsonRef.ranked_array items.length
  | _ => exact List.Pairwise.nil

end NodePath
