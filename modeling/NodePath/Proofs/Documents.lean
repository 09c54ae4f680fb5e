/-
# NodePath.Proofs.Documents — documents and the contexts over them

A document is read from a text, gets a place in a store, and is evaluated in by a context. What is proved of
location paths asks for three things: the node at the top is the top of a document, all that the context points to
is there, and what extension functions answer depends on nothing else. All of this holds of a document that is
read and of a context at its top.

* §A  `IsDocument`.
* §B  Documents that are read.
* §C  `Context.Settled`.
* §D  A context at the top of a document.
-/
import NodePath.Json.Reader
import NodePath.Proofs.AlikeReading
import NodePath.Proofs.JsonTree
import NodePath.Proofs.Pulling

namespace NodePath

/-! ## §A  Documents -/

/-- **IsDocument** says that a node is the top of a document, in which no object has two members of one name, and
which has no more nodes than there are positions. -/
structure IsDocument (st : Store) (root : Pointer) : Prop where
  top : ∃ d b n j, root = .json (.root d b n) ∧ st.document? d = some j ∧ j.keysApart = true
  narrow : (root.listing st).length ≤ Number.exactBound

section

variable {st : Store} {root p : Pointer} {s : Surroundings}

theorem IsDocument.rooted (h : IsDocument st root) : Rooted st root (Pointer.partHeight st) ∧ Ranked st root := by
  obtain ⟨d, b, n, j, rfl, hj, hkeys⟩ := h.top
  exact ⟨rooted_document hj hkeys, ranked_document hj hkeys⟩

/-- The nodes of a document are places in it. -/
theorem IsDocument.place (h : IsDocument st root) (hp : p ∈ root.listing st) :
    ∃ r, p = .json r ∧ r.doc < st.documents.size := by
  have htree := h.rooted.1.mem_listing.mp hp
  obtain ⟨d, b, n, j, rfl, hj, hkeys⟩ := h.top
  obtain ⟨path, asAttribute, rfl⟩ := place_of_inTree hj hkeys htree
  exact ⟨_, rfl, (Array.getElem?_eq_some_iff.mp hj).1⟩

/-- They are there, and what they hold is the same in every store that extends the base. -/
theorem IsDocument.opened (h : IsDocument st root) (hp : p ∈ root.listing st) {st' : Store} (hst : st.Extends st') :
    p.isActual st' = true ∧ p.isOpenedActual st' = true ∧ p.openedValue st' = p.openedValue st := by
  obtain ⟨r, rfl, hdoc⟩ := h.place hp
  obtain ⟨d, b, n, j, rfl, hj, hkeys⟩ := h.top
  have hactual := actual_of_document hj hkeys (h.rooted.1.mem_listing.mp hp)
  have hat : st'.at? r.doc r.path = st.at? r.doc r.path := by
    rw [Store.at?, Store.document?, hst.documents _ hdoc]
    rfl
  have hactual' : (Pointer.json r).isActual st' = true := by
    rw [Pointer.isActual, hat]
    exact hactual
  have hfollow : ∀ st : Store, (Pointer.json r).follow st = .json r := fun st => by
    simp [Pointer.follow, Pointer.followFrom, Pointer.opening]
  refine ⟨hactual', ?_, ?_⟩
  · simp only [Pointer.isOpenedActual, hfollow, Pointer.opening, hactual']
  · simp only [Pointer.openedValue, hfollow, Pointer.opening, Pointer.value, hat]

/-- **A document is charted** by the listing of its nodes. -/
theorem IsDocument.charted (h : IsDocument st root) (hs : Grounded st s) : Charted st s (root.listing st) where
  grounded := hs
  realm := {
    json := h.place
    closed := h.rooted.1.mem_of_axis
    narrow := fun hp => Nat.le_trans (h.rooted.1.axis_length_le hp _) h.narrow }
  listing := h.rooted.1.listing h.rooted.2

end

/-! ## §B  Reading -/

namespace Json

theorem keysApart_set {ms : Members} {key : String} {value : Json} (hvalue : value.keysApart = true)
    (hnames : (ms.map (·.1)).Nodup) (hms : keysApartMembers ms = true) :
    ((Members.set key value ms).map (·.1)).Nodup ∧ keysApartMembers (Members.set key value ms) = true ∧
      ∀ name ∈ (Members.set key value ms).map (·.1), name = key ∨ name ∈ ms.map (·.1) := by
  induction ms with
  | nil => simp [Members.set, keysApartMembers, hvalue]
  | cons m ms ih =>
    obtain ⟨hnew, hnames⟩ := List.nodup_cons.mp hnames
    obtain ⟨hm, hms⟩ := (Bool.and_eq_true _ _).mp hms
    rw [Members.set]
    by_cases hkey : m.1 = key
    · subst hkey
      rw [if_pos (beq_self_eq_true _)]
      refine ⟨List.nodup_cons.mpr ⟨hnew, hnames⟩, (Bool.and_eq_true _ _).mpr ⟨hvalue, hms⟩, fun name hname => ?_⟩
      exact .inr hname
    · rw [if_neg (by simpa using hkey)]
      obtain ⟨hnodup, hkeys, hfrom⟩ := ih hnames hms
      refine ⟨List.nodup_cons.mpr ⟨fun hmem => ?_, hnodup⟩, (Bool.and_eq_true _ _).mpr ⟨hm, hkeys⟩, fun name hname => ?_⟩
      · exact (hfrom _ hmem).elim hkey hnew
      · rcases List.mem_cons.mp hname with rfl | hname
        · exact .inr List.mem_cons_self
        · exact (hfrom _ hname).imp_right (List.mem_cons_of_mem _)

/-- Members that are written one after the other end up with names that differ. -/
theorem keysApart_ofWritten {written : Members} (hwritten : ∀ m ∈ written, m.2.keysApart = true) :
    (object (Members.ofWritten written)).keysApart = true := by
  have hfrom : ∀ ms : Members, (ms.map (·.1)).Nodup → keysApartMembers ms = true →
      (object (written.foldl (fun ms m => Members.set m.1 m.2 ms) ms)).keysApart = true := by
    induction written with
    | nil =>
      intro ms hnames hms
      exact (Bool.and_eq_true _ _).mpr ⟨decide_eq_true hnames, hms⟩
    | cons m written ih =>
      obtain ⟨hm, hwritten⟩ := List.forall_mem_cons.mp hwritten
      intro ms hnames hms
      obtain ⟨hnames', hms', -⟩ := keysApart_set hm hnames hms
      exact ih hwritten _ hnames' hms'
  exact hfrom [] List.nodup_nil rfl

theorem keysApart_of_forall {items : List Json} (h : ∀ j ∈ items, j.keysApart = true) :
    (array items).keysApart = true := by
  show keysApartItems items = true
  induction items with
  | nil => rfl
  | cons j js ih =>
    obtain ⟨hj, hjs⟩ := List.forall_mem_cons.mp h
    exact (Bool.and_eq_true _ _).mpr ⟨hj, ih hjs⟩

/-- What holds of every item that is read holds of all items. -/
theorem forall_of_readItemsFrom {α : Type} {good : α → Prop} {close : Char} {item : Reader α}
    (hitem : ∀ cs x rest, item cs = some (x, rest) → good x) {fuel : Nat} {taken : List α} {cs rest : List Char}
    {xs : List α} (htaken : ∀ x ∈ taken, good x) (h : readItemsFrom close item fuel taken cs = some (xs, rest)) :
    ∀ x ∈ xs, good x := by
  -- What has been taken so far is good; every round adds an item that the reader answers for.
  induction fuel generalizing taken cs with
  | zero => cases h
  | succ fuel ih =>
    rw [readItemsFrom, Option.bind_eq_bind, Option.bind_eq_some_iff] at h
    obtain ⟨⟨x, cs'⟩, hx, h⟩ := h
    have htaken' : ∀ y ∈ x :: taken, good y := List.forall_mem_cons.mpr ⟨hitem _ _ _ hx, htaken⟩
    dsimp only at h
    split at h
    · cases h
    · split_ifs at h
      · cases h
        exact fun y hy => htaken' y (List.mem_reverse.mp hy)
      · exact ih htaken' h

theorem forall_of_readItems {α : Type} {good : α → Prop} {close : Char} {item : Reader α}
    (hitem : ∀ cs x rest, item cs = some (x, rest) → good x) {cs rest : List Char} {xs : List α}
    (h : readItems close item cs = some (xs, rest)) : ∀ x ∈ xs, good x := by
  rw [readItems] at h
  split at h
  · cases h
  · split_ifs at h
    · cases h
      simp
    · exact forall_of_readItemsFrom hitem (by simp) h

theorem keysApart_of_readMember {value : Reader Json}
    (hvalue : ∀ cs j rest, value cs = some (j, rest) → j.keysApart = true) {cs rest : List Char}
    {m : String × Json} (h : readMember value cs = some (m, rest)) : m.2.keysApart = true := by
  unfold readMember at h
  split at h
  · rw [Option.bind_eq_bind, Option.bind_eq_some_iff] at h
    obtain ⟨⟨key, cs'⟩, -, h⟩ := h
    dsimp only at h
    split at h
    · rw [Option.bind_eq_bind, Option.bind_eq_some_iff] at h
      obtain ⟨⟨v, cs''⟩, hv, h⟩ := h
      cases h
      exact hvalue _ _ _ hv
    · cases h
  · cases h

theorem keysApart_ofMagnitude (negative : Bool) (n : Nat) : (ofMagnitude negative n).keysApart = true := by
  unfold ofMagnitude
  split_ifs <;> rfl

theorem keysApart_of_readMagnitude {negative : Bool} {cs rest : List Char} {j : Json}
    (h : readMagnitude negative cs = some (j, rest)) : j.keysApart = true := by
  simp only [readMagnitude] at h
  split_ifs at h
  split at h
  · obtain ⟨r, -, heq⟩ := Option.map_eq_some_iff.mp h
    cases heq
    rfl
  · split_ifs at h
    · cases h
      exact keysApart_ofMagnitude _ _
    · obtain ⟨r, -, heq⟩ := Option.map_eq_some_iff.mp h
      cases heq
      rfl

theorem keysApart_of_readNumber {cs rest : List Char} {j : Json} (h : readNumber cs = some (j, rest)) :
    j.keysApart = true := by
  unfold readNumber at h
  split at h <;> exact keysApart_of_readMagnitude h

theorem keysApart_of_readValue {depth : Nat} {cs rest : List Char} {j : Json}
    (h : readValue Members.ofWritten depth cs = some (j, rest)) : j.keysApart = true := by
  -- One level of nesting less is left for the items of an array and the members of an object.
  induction depth generalizing cs rest j with
  | zero =>
    unfold readValue at h
    split at h
    all_goals first
      | exact keysApart_of_readNumber h
      | cases h
      | (obtain ⟨r, -, heq⟩ := Option.map_eq_some_iff.mp h; cases heq; rfl)
  | succ depth ih =>
    have hvalue : ∀ cs j rest, readValue Members.ofWritten depth cs = some (j, rest) → j.keysApart = true :=
      fun _ _ _ => ih
    unfold readValue at h
    split at h
    case h_5 =>
      obtain ⟨r, hr, heq⟩ := Option.map_eq_some_iff.mp h
      cases heq
      exact keysApart_of_forall (forall_of_readItems hvalue hr)
    case h_6 =>
      obtain ⟨r, hr, heq⟩ := Option.map_eq_some_iff.mp h
      cases heq
      exact keysApart_ofWritten (forall_of_readItems (fun _ _ _ => keysApart_of_readMember hvalue) hr)
    case h_7 => exact keysApart_of_readNumber h
    all_goals
      obtain ⟨r, -, heq⟩ := Option.map_eq_some_iff.mp h
      cases heq
      rfl

/-- **A document that is read** has no object with two members of one name. -/
theorem keysApart_of_read? {text : String} {j : Json} (h : read? text = some j) : j.keysApart = true := by
  rw [read?, readWith?, Option.bind_eq_bind, Option.bind_eq_some_iff] at h
  obtain ⟨⟨k, rest⟩, hk, h⟩ := h
  dsimp only at h
  split_ifs at h
  cases h
  exact keysApart_of_readValue hk

end Json

/-! ## §C  Contexts -/

/-- **Settled** says that a context can be evaluated with in a store: it points to what is there, so do all
variables, the cache holds what texts compile to, and the functions of the host are pure. -/
structure Context.Settled (c : Context) (host : Host) (st : Store) : Prop where
  host : host.Pure
  within : c.Within st.documents.size
  closed : st.Closed
  sound : st.engine.Sound

/-- What evaluates the predicates of paths in a context. -/
def Context.surroundings (c : Context) (host : Host) : Surroundings := (c.setting host).surroundings

theorem Context.Within.mono {c : Context} {m n : Nat} (hmn : m ≤ n) (h : c.Within m) : c.Within n where
  contextPointer := h.contextPointer.mono hmn
  rootPointer := h.rootPointer.mono hmn
  namespaceNode p hp := (h.namespaceNode p hp).mono hmn

theorem Context.Settled.grounded {c : Context} {host : Host} {st : Store} (h : c.Settled host st) :
    Grounded st (c.surroundings host) where
  closed := h.closed
  sound := h.sound
  natural _ hw := ((h.within.mono hw.size_le).setting h.host).surroundings

/-! ## §D  The top of a document -/

/-- The node at the top of the first document. -/
def Pointer.firstTop : Pointer := .json (.root 0 none (.plain ""))

/-- **holding** is the store that holds nothing but a document, and the variables of one context. -/
def Store.holding (j : Json) : Store := ⟨#[j], #[], #[[]], .new {}⟩

/-- **atTop** is the context at the top of that document. -/
def Context.atTop : Context := ⟨Context.freshLayer .firstTop .firstTop 0, []⟩

/-- A context that is made over a document is the one at its top. -/
theorem Context.runOn_atRoot (j : Json) :
    (do Context.atRoot (← Pointer.make (.plain "") (.json j)) : Eval Context).runOn (.ofEngine (.new {})) =
      (.ok .atTop, .holding j) := rfl

/-- No variable is declared yet. -/
theorem Store.slot?_holding (j : Json) (v : VarRef) : (Store.holding j).slot? v = none := by
  have hscope : ∀ s, (Store.holding j).scope s = [] := by
    intro s
    cases s <;> rfl
  rw [Store.slot?]
  cases v.scope with
  | none => rfl
  | some s =>
    rw [Option.bind_some, hscope]
    rfl

theorem Context.settled_atTop (j : Json) : Context.atTop.Settled stockHost (.holding j) where
  host := Stock.pure
  within := ⟨Nat.one_pos, Nat.one_pos, fun _ hp => by cases hp⟩
  closed v slot h := by
    rw [Store.slot?_holding] at h
    cases h
  sound _ he := by cases he

theorem isDocument_firstTop {j : Json} (hkeys : j.keysApart = true)
    (hnarrow : (Pointer.firstTop.listing (.holding j)).length ≤ Number.exactBound) :
    IsDocument (.holding j) .firstTop := ⟨⟨0, none, .plain "", j, rfl, rfl, hkeys⟩, hnarrow⟩

end NodePath
