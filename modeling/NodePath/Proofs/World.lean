/-
# NodePath.Proofs.World — two stores that stand for each other

Evaluating an expression stores documents: whenever a plain value is looked at as a node, it becomes a
document of its own. How many there are depends on how often a stage was replayed, so two evaluations that
mean the same end in stores that differ, and what they answer points to documents of different numbers. A
**World** says which documents of the one store stand for which of the other, and **Alike** is equality up to
that.

* §A  `Store.Extends`: a store that has been read from.
* §B  `Within`: values that a store can hold.
* §C  `World`, what it is for two stores to fit in it, and how it grows.
* §D  `Alike`, for nodes, values and results.
-/
import Mathlib.Data.List.Forall2
import Mathlib.Data.Nat.Basic
import Mathlib.Order.Basic
import NodePath.Pointer.Order

namespace NodePath

/-! ## §A  Stores that have been read from -/

/-- A document stays where it is when another one is put in. -/
theorem Store.document?_addDocument {st : Store} {d : DocId} {old : Json} (h : st.document? d = some old) (j : Json) :
    (st.addDocument j).1.document? d = some old := by
  have hd := (Array.getElem?_eq_some_iff.mp h).1
  show (st.documents.push j)[d]? = some old
  rw [Array.getElem?_push_lt hd, ← h]
  exact (Array.getElem?_eq_getElem hd).symm

/-- A kept tree is the tree of its text. -/
def Engine.Sound (e : Engine) : Prop :=
  ∀ entry ∈ e.cache.entries, Expr.parse entry.1 = .ok entry.2.expr

/-- **Extends** says that a store holds what `base` holds, and besides it only documents that were stored
since and trees that were compiled since. -/
structure Store.Extends (base st : Store) : Prop where
  documents : ∀ d, d < base.documents.size → st.documents[d]? = base.documents[d]?
  size_le : base.documents.size ≤ st.documents.size
  forest : st.forest = base.forest
  scopes : st.scopes = base.scopes
  registry : st.engine.registry = base.engine.registry
  sound : st.engine.Sound

namespace Store.Extends

variable {base st : Store}

theorem refl (h : base.engine.Sound) : base.Extends base := ⟨fun _ _ => rfl, le_rfl, rfl, rfl, rfl, h⟩

theorem trans {st' : Store} (h : base.Extends st) (h' : st.Extends st') : base.Extends st' where
  documents d hd := (h'.documents d (lt_of_lt_of_le hd h.size_le)).trans (h.documents d hd)
  size_le := h.size_le.trans h'.size_le
  forest := h'.forest.trans h.forest
  scopes := h'.scopes.trans h.scopes
  registry := h'.registry.trans h.registry
  sound := h'.sound

theorem document? (h : base.Extends st) {d : DocId} (hd : d < base.documents.size) :
    st.document? d = base.document? d := h.documents d hd

/-- A document put in changes nothing else. -/
theorem addDocument (h : base.Extends st) (j : Json) : base.Extends (st.addDocument j).1 where
  documents d hd := by
    have hlt : d < st.documents.size := lt_of_lt_of_le hd h.size_le
    rw [← h.documents d hd]
    simp [Store.addDocument, Array.getElem?_push, Nat.ne_of_lt hlt]
  size_le := h.size_le.trans (by simp [Store.addDocument])
  forest := h.forest
  scopes := h.scopes
  registry := h.registry
  sound := h.sound

theorem slot? (h : base.Extends st) (v : VarRef) : st.slot? v = base.slot? v := by
  simp [Store.slot?, Store.scope, h.scopes]

theorem opensDocuments (h : base.Extends st) : st.engine.opensDocuments = base.engine.opensDocuments := by
  simp [Engine.opensDocuments, h.registry]

theorem variableCount (h : base.Extends st) : st.variableCount = base.variableCount := by
  simp [Store.variableCount, h.scopes]

end Store.Extends

/-! ## §B  Values that a store can hold -/

/-- The node is not in a document whose number is `n` or above. -/
def Pointer.Within (n : Nat) : Pointer → Prop
  | .json r => r.doc < n
  | .tree _ => True
  | .var _ => True
  | .absent _ => True
  | .absentUnder p _ => p.Within n

/-- What a variable holds is no document, and in no document, whose number is `n` or above. -/
def Slot.Within (n : Nat) : Slot → Prop
  | .value (.pointer p) => p.Within n
  | .value _ => True
  | .document doc => doc < n

/-- **Closed** says that all variables hold what is in the store. -/
def Store.Closed (st : Store) : Prop :=
  ∀ v slot, st.slot? v = some slot → slot.Within st.documents.size

/-! ## §C  Worlds -/

/-- **World** pairs documents of two stores that both extend `base`. The documents of `base` stand for
themselves, and no document stands for two. -/
structure World where
  base : Store
  closed : base.Closed
  pairs : DocId → DocId → Prop
  left_unique : ∀ {a b c}, pairs a c → pairs b c → a = b
  right_unique : ∀ {a b c}, pairs a b → pairs a c → b = c
  refl : ∀ {d}, d < base.documents.size → pairs d d

namespace World

/-- **Holds** says that two stores extend the base, and that paired documents are the same. -/
structure Holds (w : World) (st st' : Store) : Prop where
  left : w.base.Extends st
  right : w.base.Extends st'
  same : ∀ {a b}, w.pairs a b → ∃ j, st.document? a = some j ∧ st'.document? b = some j

/-- **Grows** says that a world has the pairs of another one, and maybe more. -/
structure Grows (w w' : World) : Prop where
  base : w'.base = w.base
  pairs : ∀ {a b}, w.pairs a b → w'.pairs a b

variable {w w' w'' : World} {st st' : Store}

theorem Grows.refl (w : World) : w.Grows w := ⟨rfl, id⟩

theorem Grows.trans (h : w.Grows w') (h' : w'.Grows w'') : w.Grows w'' :=
  ⟨h'.base.trans h.base, fun hp => h'.pairs (h.pairs hp)⟩

theorem Holds.document? (h : w.Holds st st') {a b : DocId} (hp : w.pairs a b) :
    st.document? a = st'.document? b := by
  obtain ⟨j, hj, hj'⟩ := h.same hp
  rw [hj, hj']

theorem Holds.lt_left (h : w.Holds st st') {a b : DocId} (hp : w.pairs a b) : a < st.documents.size := by
  obtain ⟨j, hj, -⟩ := h.same hp
  exact (Array.getElem?_eq_some_iff.mp hj).1

theorem Holds.lt_right (h : w.Holds st st') {a b : DocId} (hp : w.pairs a b) : b < st'.documents.size := by
  obtain ⟨j, -, hj⟩ := h.same hp
  exact (Array.getElem?_eq_some_iff.mp hj).1

/-- The world in which a document of its own in each of two stores stands for the other. -/
def pair (w : World) (h : w.Holds st st') : World where
  base := w.base
  closed := w.closed
  pairs a b := w.pairs a b ∨ (a = st.documents.size ∧ b = st'.documents.size)
  left_unique := by
    rintro a b c (ha | ⟨rfl, rfl⟩) (hb | ⟨rfl, hc⟩)
    · exact w.left_unique ha hb
    · exact absurd (h.lt_right ha) (hc ▸ lt_irrefl _)
    · exact absurd (h.lt_right hb) (lt_irrefl _)
    · rfl
  right_unique := by
    rintro a b c (ha | ⟨rfl, rfl⟩) (hb | ⟨hc, rfl⟩)
    · exact w.right_unique ha hb
    · exact absurd (h.lt_left ha) (hc ▸ lt_irrefl _)
    · exact absurd (h.lt_left hb) (lt_irrefl _)
    · rfl
  refl hd := Or.inl (w.refl hd)

theorem grows_pair (h : w.Holds st st') : w.Grows (w.pair h) := ⟨rfl, Or.inl⟩

/-- The same document put into two stores stands for itself. -/
theorem holds_pair (h : w.Holds st st') (j : Json) :
    (w.pair h).Holds (st.addDocument j).1 (st'.addDocument j).1 where
  left := h.left.addDocument j
  right := h.right.addDocument j
  same := by
    rintro a b (hp | ⟨rfl, rfl⟩)
    · obtain ⟨i, hi, hi'⟩ := h.same hp
      exact ⟨i, Store.document?_addDocument hi j, Store.document?_addDocument hi' j⟩
    · exact ⟨j, by simp [Store.document?, Store.addDocument], by simp [Store.document?, Store.addDocument]⟩

/-- The world in which documents of a store stand for themselves, and no other documents do. -/
def only (base : Store) (closed : base.Closed) : World where
  base := base
  closed := closed
  pairs a b := a = b ∧ a < base.documents.size
  left_unique := by rintro a b c ⟨rfl, -⟩ ⟨rfl, -⟩; rfl
  right_unique := by rintro a b c ⟨rfl, -⟩ ⟨rfl, -⟩; rfl
  refl hd := ⟨rfl, hd⟩

theorem holds_only {base : Store} {closed : base.Closed} (h : base.Extends st) (h' : base.Extends st') :
    (only base closed).Holds st st' where
  left := h
  right := h'
  same := by
    rintro a b ⟨rfl, ha⟩
    exact ⟨base.documents[a], (h.document? ha).trans (Array.getElem?_eq_getElem ha),
      (h'.document? ha).trans (Array.getElem?_eq_getElem ha)⟩

end World

/-! ## §D  Alikeness -/

/-- **Alike** nodes are the same place of documents that stand for each other. -/
inductive Pointer.Alike (w : World) : Pointer → Pointer → Prop
  | json {d e : DocId} (path : List Segment) (asAttribute : Bool) (base : Option VarRef) (rootName : QName) :
    w.pairs d e → Alike w (.json ⟨d, path, asAttribute, base, rootName⟩)
      (.json ⟨e, path, asAttribute, base, rootName⟩)
  | tree (r : TreeRef) : Alike w (.tree r) (.tree r)
  | var (v : VarRef) : Alike w (.var v) (.var v)
  | absent (n : QName) : Alike w (.absent n) (.absent n)
  | absentUnder {p q : Pointer} (n : QName) : Alike w p q → Alike w (.absentUnder p n) (.absentUnder q n)

/-- **Alike** values are the same, or alike nodes. -/
inductive Datum.Alike (w : World) : Datum → Datum → Prop
  | null : Alike w .null .null
  | boolean (b : Bool) : Alike w (.boolean b) (.boolean b)
  | number (x : Float) : Alike w (.number x) (.number x)
  | text (s : String) : Alike w (.text s) (.text s)
  | object (j : Json) : Alike w (.object j) (.object j)
  | pointer {p q : Pointer} : p.Alike w q → Alike w (.pointer p) (.pointer q)

/-- **Alike** lists of nodes are alike one by one. -/
abbrev PointersAlike (w : World) : List Pointer → List Pointer → Prop := List.Forall₂ (Pointer.Alike w)

/-- Results are alike when both are answers, and these are, or both are the same error. -/
inductive ExceptAlike {α β : Type} (R : α → β → Prop) : Except EvalError α → Except EvalError β → Prop
  | ok {a : α} {b : β} : R a b → ExceptAlike R (.ok a) (.ok b)
  | error (e : EvalError) : ExceptAlike R (.error e) (.error e)

theorem ExceptAlike.imp {α β : Type} {R S : α → β → Prop} (h : ∀ {a b}, R a b → S a b)
    {r : Except EvalError α} {r' : Except EvalError β} (hr : ExceptAlike R r r') : ExceptAlike S r r' := by
  cases hr with
  | ok hab => exact .ok (h hab)
  | error e => exact .error e

variable {w w' : World}

theorem Pointer.Alike.grow {p q : Pointer} (hw : w.Grows w') (h : p.Alike w q) : p.Alike w' q := by
  induction h with
  | json path asAttribute base rootName hp => exact .json path asAttribute base rootName (hw.pairs hp)
  | tree r => exact .tree r
  | var v => exact .var v
  | absent n => exact .absent n
  | absentUnder n _ ih => exact .absentUnder n ih

theorem Datum.Alike.grow {d d' : Datum} (hw : w.Grows w') (h : d.Alike w d') : d.Alike w' d' := by
  cases h with
  | null => exact .null
  | boolean b => exact .boolean b
  | number x => exact .number x
  | text s => exact .text s
  | object j => exact .object j
  | pointer hp => exact .pointer (hp.grow hw)

theorem PointersAlike.grow {ps qs : List Pointer} (hw : w.Grows w') (h : PointersAlike w ps qs) :
    PointersAlike w' ps qs := h.imp fun _ _ => Pointer.Alike.grow hw

/-- A node of the base is like itself. -/
theorem Pointer.Within.alike {p : Pointer} (h : p.Within w.base.documents.size) : p.Alike w p := by
  induction p with
  | json r => exact .json r.path r.asAttribute r.base r.rootName (w.refl h)
  | tree r => exact .tree r
  | var v => exact .var v
  | absent n => exact .absent n
  | absentUnder p n ih => exact .absentUnder n (ih h)

theorem Pointer.Within.mono {p : Pointer} {m n : Nat} (hmn : m ≤ n) (h : p.Within m) : p.Within n := by
  induction p with
  | json r => exact lt_of_lt_of_le h hmn
  | tree r => trivial
  | var v => trivial
  | absent n => trivial
  | absentUnder p n ih => exact ih h

/-- What a part of a document is as a value is like itself. -/
theorem Datum.Alike.ofJson (w : World) (j : Json) : (Datum.ofJson j).Alike w (Datum.ofJson j) := by
  cases j with
  | null => exact .null
  | bool b => exact .boolean b
  | int i => exact .number _
  | double x => exact .number x
  | text s => exact .text s
  | array items => exact .object _
  | object ms => exact .object _

end NodePath
