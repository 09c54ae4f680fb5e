/-
# NodePath.Proofs.Creation — creating a path loses no data

A path is created step by step: a null becomes an object, a member is appended, a value is wrapped into an array, an
array is padded with nulls. Each step may be the last one before an error, and what was written before stays. Whatever
happens, every document contains afterwards what it was before.

* §A  `Json.Contains`, which is an order.
* §B  Changes at a place.
* §C  New children and attributes.
* §D  `Store.Retains`, and operations and hosts that retain.
* §E  Steps and paths.
-/
import NodePath.Proofs.AgreedWriting
import NodePath.Proofs.Coupling
import NodePath.Proofs.Documents

namespace NodePath

/-! ## §A  Containment -/

namespace Json

/-- **Contains** says that a document still has all data of another one. Nulls may have become anything; objects may
have got more members, behind the others, and arrays more elements; and what was no array may have become the first
element of one. -/
inductive Contains : Json → Json → Prop
  | null {w : Json} : Contains w .null
  | scalar {v : Json} : v.isBranching = false → Contains v v
  | object {ws vs : List (String × Json)} : vs.map (·.1) <+: ws.map (·.1) →
    (∀ (i : Nat) (w v : String × Json), ws[i]? = some w → vs[i]? = some v → Contains w.2 v.2) →
    Contains (.object ws) (.object vs)
  | array {ws vs : List Json} : vs.length ≤ ws.length →
    (∀ (i : Nat) (w v : Json), ws[i]? = some w → vs[i]? = some v → Contains w v) → Contains (.array ws) (.array vs)
  | first {w v : Json} {ws : List Json} : v.isArray = false → Contains w v → Contains (.array (w :: ws)) v

namespace Contains

/-- A document contains itself. -/
theorem refl (v : Json) : v.Contains v := by
  -- Values are nested in lists of their own, so the induction is on how high they are.
  have hheight : ∀ n (v : Json), v.height ≤ n → v.Contains v := by
    intro n
    induction n with
    | zero =>
      intro v hv
      cases v <;> simp only [height] at hv <;> omega
    | succ n ih =>
      intro v hv
      cases v with
      | array items =>
        refine array (Nat.le_refl _) fun i w v hw hv' => ?_
        obtain rfl := Option.some.inj (hw.symm.trans hv')
        have hle := height_le_heightItems (List.mem_of_getElem? hw)
        rw [height] at hv
        exact ih w (by omega)
      | object ms =>
        refine object (List.prefix_refl _) fun i w v hw hv' => ?_
        obtain rfl := Option.some.inj (hw.symm.trans hv')
        have hle := height_le_heightMembers (List.mem_of_getElem? hw)
        rw [height] at hv
        exact ih w.2 (by omega)
      | _ => exact scalar rfl
  exact hheight _ v (Nat.le_refl _)

/-- An array is contained in arrays only. -/
theorem isArray_of_isArray {w v : Json} (h : w.Contains v) (hv : v.isArray = true) : w.isArray = true := by
  cases h with
  | null => cases hv
  | scalar _ => exact hv
  | object _ _ => cases hv
  | array _ _ => rfl
  | first _ _ => rfl

/-- **Containment is transitive**, by induction on how the last document contains the one in the middle. -/
theorem trans {x w v : Json} (hx : x.Contains w) (hw : w.Contains v) : x.Contains v := by
  induction hx generalizing v with
  | null =>
    cases hw with
    | null => exact null
    | scalar _ => exact null
  | scalar _ => exact hw
  | @object xs ws hkeys hvalues ih =>
    cases hw with
    | null => exact null
    | scalar hbranching => cases hbranching
    | @object _ vs hkeys' hvalues' =>
      refine object (hkeys'.trans hkeys) fun i x v hx hv => ?_
      -- a place of the innermost object is one of the middle one
      have hi : i < ws.length := by
        have hlength := hkeys'.length_le
        have hvs := (List.getElem?_eq_some_iff.mp hv).1
        simp only [List.length_map] at hlength
        omega
      exact ih i x ws[i] hx (List.getElem?_eq_getElem hi) (hvalues' i ws[i] v (List.getElem?_eq_getElem hi) hv)
  | @array xs ws hlength hitems ih =>
    cases hw with
    | null => exact null
    | scalar hbranching => cases hbranching
    | @array _ vs hlength' hitems' =>
      refine array (Nat.le_trans hlength' hlength) fun i x v hx hv => ?_
      have hi : i < ws.length := Nat.lt_of_lt_of_le (List.getElem?_eq_some_iff.mp hv).1 hlength'
      exact ih i x ws[i] hx (List.getElem?_eq_getElem hi) (hitems' i ws[i] v (List.getElem?_eq_getElem hi) hv)
    -- What was no array became the first element in the middle, and that one contains it still in the end.
    | @first w _ ws hv hfirst =>
      cases xs with
      | nil => cases hlength
      | cons x xs => exact first hv (ih 0 x w rfl rfl hfirst)
  | @first x w xs hnot _ ih =>
    cases hv : v.isArray with
    | true => exact absurd (hw.isArray_of_isArray hv) (by rw [hnot]; exact Bool.false_ne_true)
    | false => exact first hv (ih hw)

/-- Elements behind others. -/
theorem append (items more : List Json) : (Json.array (items ++ more)).Contains (.array items) := by
  refine array (by simp) fun i w v hw hv => ?_
  have hi := (List.getElem?_eq_some_iff.mp hv).1
  rw [List.getElem?_append_left hi] at hw
  obtain rfl := Option.some.inj (hw.symm.trans hv)
  exact refl w

/-- A member behind others. -/
theorem concat (ms : Members) (m : String × Json) : (Json.object (ms ++ [m])).Contains (.object ms) := by
  refine object (by simp) fun i w v hw hv => ?_
  have hi := (List.getElem?_eq_some_iff.mp hv).1
  rw [List.getElem?_append_left hi] at hw
  obtain rfl := Option.some.inj (hw.symm.trans hv)
  exact refl w.2

/-! ## §B  Changes -/

/-- Setting a member that is there puts its value in the place of the one that look-up finds. -/
theorem set {ms : Members} {key : String} {old new : Json} (h : Members.get? ms key = some old)
    (hnew : new.Contains old) : (Json.object (Members.set key new ms)).Contains (.object ms) := by
  have hboth : (Members.set key new ms).map (·.1) = ms.map (·.1) ∧
      ∀ (i : Nat) (w v : String × Json), (Members.set key new ms)[i]? = some w → ms[i]? = some v →
        w.2.Contains v.2 := by
    induction ms with
    | nil => cases h
    | cons m ms ih =>
      -- Look-up and change stop at the same member, the first one with the key.
      by_cases hkey : (m.1 == key) = true
      · have hvalue : m.2 = old := by
          simpa [Members.get?, List.find?_cons, hkey] using h
        have hset : Members.set key new (m :: ms) = (key, new) :: ms := by rw [Members.set, if_pos hkey]
        rw [hset]
        refine ⟨by rw [List.map_cons, List.map_cons, (beq_iff_eq.mp hkey)], fun i w v hw hv => ?_⟩
        cases i with
        | zero =>
          cases hw
          cases hv
          rw [hvalue]
          exact hnew
        | succ i =>
          obtain rfl := Option.some.inj (hw.symm.trans hv)
          exact refl w.2
      · have hget : Members.get? ms key = some old := by
          rw [Members.get?_cons, if_neg hkey] at h
          exact h
        have hset : Members.set key new (m :: ms) = m :: Members.set key new ms := by rw [Members.set, if_neg hkey]
        obtain ⟨hkeys, hvalues⟩ := ih hget
        rw [hset]
        refine ⟨by rw [List.map_cons, List.map_cons, hkeys], fun i w v hw hv => ?_⟩
        cases i with
        | zero =>
          cases hw
          cases hv
          exact refl m.2
        | succ i => exact hvalues i w v hw hv
  exact object (hboth.1 ▸ List.prefix_refl _) hboth.2

/-- Setting a member that is not there puts it behind the others. -/
theorem set_of_none {ms : Members} {key : String} (h : Members.get? ms key = none) (new : Json) :
    (Json.object (Members.set key new ms)).Contains (.object ms) := by
  have happend : Members.set key new ms = ms ++ [(key, new)] := by
    induction ms with
    | nil => rfl
    | cons m ms ih =>
      have hkey : ¬(m.1 == key) = true := by
        intro hkey
        rw [Members.get?_cons, if_pos hkey] at h
        cases h
      rw [Members.get?_cons, if_neg hkey] at h
      rw [Members.set, if_neg hkey, ih h, List.cons_append]
  rw [happend]
  exact concat ms _

/-- Containment is compatible with a change one step down. -/
theorem setChild? {j j' old new : Json} {s : Segment} (hold : j.child? s = some old) (hnew : new.Contains old)
    (h : j.setChild? s new = some j') : j'.Contains j := by
  cases j with
  | object ms =>
    cases s with
    | index i => cases hold
    | key key =>
      rw [Json.setChild?] at h
      split at h
      · cases h
        exact set hold hnew
      · cases h
  | array items =>
    cases s with
    | key key => cases hold
    | index i =>
      rw [Json.setChild?] at h
      split at h
      · cases h
        refine array (by rw [List.length_set]) fun k w v hw hv => ?_
        by_cases hk : i = k
        · subst hk
          rw [List.getElem?_set_self ‹_›] at hw
          cases hw
          obtain rfl := Option.some.inj (hold.symm.trans hv)
          exact hnew
        · rw [List.getElem?_set_ne hk] at hw
          obtain rfl := Option.some.inj (hw.symm.trans hv)
          exact refl w
      · cases h
  | _ => cases hold

/-- **Containment is compatible with a change at a place**, by induction on the way to it. -/
theorem replace? {root root' old new : Json} {path : List Segment} (hold : root.at? path = some old)
    (hnew : new.Contains old) (h : Json.replace? new path root = some root') : root'.Contains root := by
  induction path generalizing root root' with
  | nil =>
    cases hold
    cases h
    exact hnew
  | cons s path ih =>
    obtain ⟨c, hc, hat⟩ := Option.bind_eq_some_iff.mp hold
    rw [Json.replace?, hc] at h
    obtain ⟨c', hc', hset⟩ := Option.bind_eq_some_iff.mp h
    exact setChild? hc (ih hat hc') hset

end Contains

end Json

/-! ## §C  Children and attributes -/

namespace JsonRef

variable {r r' : JsonRef} {root root' : Json} {name : QName}

/-- **With a child** an object contains what it was: a member is appended, padded, or becomes the first element. -/
theorem contains_withChild (ms : Json.Members) (key : String) (i : Nat) :
    (Json.object (withChild ms key i).1).Contains (.object ms) := by
  unfold withChild
  split
  · exact .set_of_none ‹_› _
  · exact .set ‹_› (.append _ _)
  · exact .refl _
  · exact .set_of_none ‹_› _
  · exact .set ‹_› .null
  · rename_i j harray _ hj _
    -- the value is no array: that is a case above
    have hnot : j.isArray = false := by
      cases j with
      | array items => exact absurd rfl (harray items)
      | _ => rfl
    exact .set hj (.first hnot (.refl j))

theorem contains_withMember (ms : Json.Members) (key : String) :
    (Json.object (withMember ms key)).Contains (.object ms) := by
  unfold withMember
  split
  · exact .refl _
  · exact .set_of_none (Option.not_isSome_iff_eq_none.mp ‹_›) _

/-- Members that contain those of a place, put there. -/
theorem contains_putMembers {ms ms' : Json.Members} {what : String} (h : r.membersOf root what = .ok ms)
    (hms : (Json.object ms').Contains (.object ms)) : (r.putMembers ms' root).Contains root := by
  have hpart : ∃ old, root.at? r.path = some old ∧ (Json.object ms').Contains old := by
    -- A null counts as an object without members.
    unfold membersOf at h
    split at h
    · cases h
    · exact ⟨.null, ‹_›, .null⟩
    · cases h
      exact ⟨_, ‹_›, hms⟩
    · cases h
  obtain ⟨old, hold, hcontains⟩ := hpart
  unfold putMembers
  cases hreplace : Json.replace? (.object ms') r.path root with
  | none => exact .refl root
  | some root' => exact .replace? hold hcontains hreplace

theorem contains_createChild {i : Nat} (h : r.createChild name i root = .ok (root', r')) : root'.Contains root := by
  unfold createChild at h
  dsimp only at h
  cases hms : r.membersOf root ("create child '" ++ name.written ++ "'") with
  | error e =>
    rw [hms] at h
    cases h
  | ok ms =>
    rw [hms] at h
    cases h
    exact contains_putMembers hms (contains_withChild ms name.written i)

theorem contains_createAttribute (h : r.createAttribute name root = .ok (root', r')) : root'.Contains root := by
  unfold createAttribute at h
  dsimp only at h
  cases hms : r.membersOf root ("create attribute '" ++ name.written ++ "'") with
  | error e =>
    rw [hms] at h
    cases h
  | ok ms =>
    rw [hms] at h
    cases h
    exact contains_putMembers hms (contains_withMember ms name.written)

end JsonRef

/-! ## §D  Stores -/

/-- **Retains** says that every document of a store contains in another store what it was. -/
def Store.Retains (st st' : Store) : Prop :=
  ∀ d j, st.document? d = some j → ∃ w, st'.document? d = some w ∧ w.Contains j

namespace Store.Retains

theorem refl (st : Store) : st.Retains st := fun _ j hj => ⟨j, hj, .refl j⟩

theorem trans {st st' st'' : Store} (h : st.Retains st') (h' : st'.Retains st'') : st.Retains st'' := by
  intro d j hj
  obtain ⟨w, hw, hwj⟩ := h d j hj
  obtain ⟨x, hx, hxw⟩ := h' d w hw
  exact ⟨x, hx, hxw.trans hwj⟩

theorem addDocument (st : Store) (j : Json) : st.Retains (st.addDocument j).1 := by
  intro d old hold
  exact ⟨old, Store.document?_addDocument hold j, .refl old⟩

theorem setDocument {st : Store} {d : DocId} {new : Json} (h : ∀ old, st.document? d = some old → new.Contains old) :
    st.Retains (st.setDocument d new) := by
  intro d' old hold
  by_cases hd : d = d'
  · subst hd
    refine ⟨new, ?_, h old hold⟩
    have hd := (Array.getElem?_eq_some_iff.mp hold).1
    show (st.documents.setIfInBounds d new)[d]? = some new
    rw [Array.getElem?_setIfInBounds_self_of_lt hd]
  · refine ⟨old, ?_, .refl old⟩
    show (st.documents.setIfInBounds d new)[d']? = some old
    rw [Array.getElem?_setIfInBounds_ne hd]
    exact hold

end Store.Retains

/-- **EvalRetains** says that an operation loses no data, whatever it answers. -/
def EvalRetains {α : Type} (m : Eval α) : Prop := ∀ st : Store, st.Retains (m.runOn st).2

/-- **Retains** says that a call loses no data when it is asked for something. -/
structure Call.Retains (a : Call) : Prop where
  evaluate : ∀ text, EvalRetains (a.evaluate text)
  first : ∀ c, EvalRetains (a.first c)
  nodes : ∀ c, EvalRetains (a.nodes c)

/-- **Retains** says that the functions of a host lose no data themselves. -/
def Host.Retains (host : Host) : Prop :=
  ∀ (a : Call), a.Retains → ∀ handle vs, EvalRetains (host handle a vs)

/-- The coupling of every context with itself in which no data may be lost. -/
def Coupling.retaining : Coupling where
  good _ := True
  allows := Store.Retains
  pairs := Eq
  refl := .refl
  trans := .trans
  stays _ _ := trivial
  addDocument := .addDocument
  compile _ _ := fun _ j hj => ⟨j, hj, .refl j⟩
  concur h := h ▸ .refl _ _
  setLenient h := congrArg (Context.setLenient · true) h

theorem evalConcur_retaining {α : Type} {m : Eval α} : EvalConcur .retaining m m ↔ EvalRetains m :=
  ⟨fun h st => (h st trivial).2, fun h st _ => ⟨rfl, h st⟩⟩

/-- The regime in which no data may be lost. -/
abbrev Regime.retaining : Regime := Coupling.retaining.regime

theorem evalAgree_retaining {α : Type} {m : Eval α} (h : EvalRetains m) : EvalAgree .retaining m m :=
  evalConcur_iff.mp (evalConcur_retaining.mpr h)

/-- Calls and functions that retain concur with themselves. -/
theorem Host.Retains.concurs {host : Host} (h : host.Retains) : host.Concurs .retaining := by
  rintro c _ rfl level depth node position hcall handle vs
  refine evalConcur_retaining.mpr (h _ ⟨?_, ?_, ?_⟩ handle vs)
  · exact fun text => evalConcur_retaining.mp (hcall.evaluate text)
  · exact fun c => evalConcur_retaining.mp (hcall.first c)
  · exact fun c => evalConcur_retaining.mp (hcall.nodes c)

theorem Stock.retains : stockHost.Retains := by
  intro a ha handle vs
  have hcall : a.Concur .retaining a := {
    pairs := rfl
    node := rfl
    position := rfl
    evaluate := fun text => evalConcur_retaining.mpr (ha.evaluate text)
    first := fun c => evalConcur_retaining.mpr (ha.first c)
    nodes := fun c => evalConcur_retaining.mpr (ha.nodes c) }
  exact evalConcur_retaining.mp (Stock.concurs handle hcall vs)

/-! ## §E  Paths -/

/-- **Editing a document** retains data if the edit does. -/
theorem evalRetains_editDocument {α : Type} {r : JsonRef} {edit : Json → Except EvalError (Json × α)}
    (h : ∀ root root' a, edit root = .ok (root', a) → root'.Contains root) :
    EvalRetains (Pointer.editDocument r edit) := by
  intro st
  rw [Pointer.editDocument, Eval.runOn_bind, Eval.runOn_get]
  dsimp only
  cases hedit : edit ((st.document? r.doc).getD .null) with
  | error e => exact .refl st
  | ok answer =>
    obtain ⟨root', a⟩ := answer
    refine Store.Retains.setDocument fun old hold => ?_
    rw [hold, Option.getD_some] at hedit
    exact h old root' a hedit

/-- Element trees are not among the documents. -/
theorem evalRetains_editForest {α : Type} {edit : Forest → Except EvalError (Forest × α)} :
    EvalRetains (Pointer.editForest edit) := by
  intro st
  rw [Pointer.editForest, Eval.runOn_bind, Eval.runOn_get]
  dsimp only
  cases edit st.forest with
  | error e => exact .refl st
  | ok answer => exact fun _ j hj => ⟨j, hj, .refl j⟩

namespace Pointer

theorem agree_createChild (p : Pointer) (name : QName) (index : Option Nat) :
    EvalAgree .retaining (p.createChild name index) (p.createChild name index) := by
  have hrefuse : ∀ p : Pointer, EvalAgree .retaining (p.refuseAt "create a child" : Eval Pointer)
      (p.refuseAt "create a child") := fun p => .get_bind fun _ _ => .throw trivial
  cases p with
  | json r =>
    have hedit : EvalRetains (editDocument r (r.createChild name (index.getD 0))) :=
      evalRetains_editDocument fun _ _ _ => JsonRef.contains_createChild
    exact (evalAgree_retaining hedit).bind fun _ => .pure _
  | tree r => exact (evalAgree_retaining evalRetains_editForest).bind fun _ => .pure _
  | _ => exact hrefuse _

theorem agree_createAttribute (p : Pointer) (name : QName) :
    EvalAgree .retaining (p.createAttribute name) (p.createAttribute name) := by
  have hrefuse : ∀ p : Pointer, EvalAgree .retaining (p.refuseAt "create an attribute" : Eval Pointer)
      (p.refuseAt "create an attribute") := fun p => .get_bind fun _ _ => .throw trivial
  cases p with
  | json r =>
    have hedit : EvalRetains (editDocument r (r.createAttribute name)) :=
      evalRetains_editDocument fun _ _ _ => JsonRef.contains_createAttribute
    exact (evalAgree_retaining hedit).bind fun _ => .pure _
  | tree r => exact (evalAgree_retaining evalRetains_editForest).bind fun _ => .pure _
  | _ => exact hrefuse _

end Pointer

/-- **A path** loses no data, wherever it ends: each step makes at most one child or attribute. -/
theorem Setting.concur_create {s : Setting} (h : s.Ready .retaining s) (text : String) (e : Expr) :
    EvalConcur .retaining (s.create text e) (s.create text e) :=
  evalConcur_iff.mpr (h.create ⟨Pointer.agree_createChild, Pointer.agree_createAttribute⟩ text e)

/-- **Creating a path loses no data**, whether it succeeds or fails. Every document that the store holds, and so the one
that the context is over, contains afterwards what it was before, unless a function of the host program itself loses
something. -/
theorem createPath_retains {host : Host} (hhost : host.Retains) (c : Context) (text : String) {st : Store} {d : DocId}
    {before : Json} (hbefore : st.document? d = some before) :
    ∃ after, ((c.createPath host text).runOn st).2.document? d = some after ∧ after.Contains before := by
  have hready : Setting.Ready .retaining (c.setting host) (c.setting host) := hhost.concurs.setting rfl
  have hcreate : EvalConcur .retaining (c.createPath host text) (c.createPath host text) :=
    Reading.concur_withText text (Setting.concur_create hready text)
  exact evalConcur_retaining.mp hcreate st d before hbefore

/-- A document with an object that a path can wrap into an array. -/
def wrappableDocument : Json := .object [("a", .object [("b", .int 1)])]

/-- A path that fails at its second step, after the first one has wrapped a member and padded the array. -/
theorem createPath_retains_wrapped :
    ((Context.atTop.createPath stockHost "a[2]/c[0]").runOn (.holding wrappableDocument)).1.isOk = false ∧
      ∃ after, ((Context.atTop.createPath stockHost "a[2]/c[0]").runOn (.holding wrappableDocument)).2.document? 0 =
          some after ∧
        after.write = "\x7b\"a\":[\x7b\"b\":1\x7d,null]\x7d" ∧ after.Contains wrappableDocument := by
  have hbefore : (Store.holding wrappableDocument).document? 0 = some wrappableDocument := rfl
  obtain ⟨after, hafter, hcontains⟩ := createPath_retains Stock.retains .atTop "a[2]/c[0]" hbefore
  have hwritten : (((Context.atTop.createPath stockHost "a[2]/c[0]").runOn
      (.holding wrappableDocument)).2.document? 0).map Json.write =
        some "\x7b\"a\":[\x7b\"b\":1\x7d,null]\x7d" := by
    decide +kernel
  rw [hafter] at hwritten
  exact ⟨by decide +kernel, after, hafter, Option.some.inj hwritten, hcontains⟩

end NodePath
