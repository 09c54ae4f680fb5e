/-
# NodePath.Proofs.Making — what one step of a creation does

A step of a path that is being created evaluates its predicate, which changes no document, and then either leads to a
node that is there or makes one. What it can do is said once, in `Setting.Makes`; everything else about created paths is
told from that.

* §A  Documents, and evaluating a predicate in one.
* §B  `Setting.Makes`.
* §C  The steps of a path, one after the other.
* §D  The place of a new child.
* §E  What a name finds.
-/
import NodePath.Proofs.FailedCreation
import NodePath.Proofs.Independence
import NodePath.Proofs.Removal
import NodePath.Proofs.Replacement

namespace NodePath

variable {c : Context} {host : Host} {s : Setting} {st st₁ st' : Store} {r : JsonRef} {p : Pointer} {step : Step}
  {i : Nat}

/-! ## §A  Documents and predicates -/

/-- The keys of a document are apart. -/
theorem IsDocument.keysApart {d : DocId} {b : Option VarRef} {n : QName} {j : Json}
    (h : IsDocument st (.json (.root d b n))) (hj : st.document? d = some j) : j.keysApart = true := by
  obtain ⟨d', b', n', j', he, hj', hkeys⟩ := h.top
  cases he
  cases hj.symm.trans hj'
  exact hkeys

/-- Its nodes are places in it. -/
theorem IsDocument.place_of_mem {d : DocId} {b : Option VarRef} {n : QName}
    (h : IsDocument st (.json (.root d b n))) (hp : p ∈ (Pointer.json (.root d b n)).listing st) :
    ∃ r, p = .json r ∧ r.doc = d := by
  obtain ⟨d', b', n', j, he, hj, hkeys⟩ := h.top
  cases he
  obtain ⟨path, asAttribute, rfl⟩ := place_of_inTree hj hkeys (h.rooted.1.mem_listing.mp hp)
  exact ⟨_, rfl, rfl⟩

/-- A context stays settled when documents are added. -/
theorem Context.Settled.grow (h : c.Settled host st) (hst : st.Extends st₁) : c.Settled host st₁ where
  host := h.host
  within := h.within.mono hst.size_le
  closed := hst.closed h.closed
  sound := hst.sound

/-- The index that the predicate of a step asks for. -/
def Setting.index (s : Setting) (step : Step) : Eval (Option Nat) := step.predicates.head?.mapM s.indexOf

/-- The value of a predicate is alike in stores that are alike. -/
theorem Setting.Natural.predicateValue {w : World} (h : s.Natural w) (e : Expr) :
    EvalAlike w .datum (s.predicateValue e) (s.predicateValue e) := by
  refine h.start.bind fun v c c' hv hc => ?_
  have hev := (h.grow hv).predicateEvaluator e
  have hvalue := hev.on hc fun _ m n hu hmn => hev.value _ .alike False m n e hu fun _ => hmn.queries
  refine hvalue.bind fun u a b hu hab => ?_
  cases hab with
  | datum hd => exact .pure hd
  | nodes hc => exact EvalAlike.tryCatch ((hev.grow hu).firstOf (.nodes hc)) fun _ _ _ => .pure .null

/-- Evaluating a predicate changes no document. -/
theorem Context.Settled.runOn_index (hc : c.Settled host st) {answer : Except EvalError (Option Nat)}
    (hrun : ((c.setting host).index step).runOn st = (answer, st₁)) : st.Extends st₁ := by
  have hst : st.Extends st := .refl hc.sound
  rw [Setting.index] at hrun
  cases hhead : step.predicates.head? with
  | none =>
    rw [hhead] at hrun
    cases hrun
    exact hst
  | some e =>
    -- An evaluation only adds documents, and making an index of what it comes to looks at the store, no more.
    have hnatural : (c.setting host).Natural (World.only st hc.closed) := Context.Within.setting hc.within hc.host
    obtain ⟨v, hv, hholds, -⟩ := hnatural.predicateValue e _ (.refl _) st st (World.holds_only hst hst)
    have hleft := hholds.left
    rw [hv.base] at hleft
    have hindex : (((c.setting host).indexOf e).runOn st).2 = (((c.setting host).predicateValue e).runOn st).2 := by
      rw [Setting.indexOf, Eval.runOn_bind]
      rcases ((c.setting host).predicateValue e).runOn st with ⟨error | d, st₂⟩
      · rfl
      · cases d with
        | number x =>
          dsimp only
          rw [Eval.runOn_bind, Eval.runOn_get]
          dsimp only
          split <;> rfl
        | _ => rfl
    have hmap : ((some <$> (c.setting host).indexOf e).runOn st).2 = (((c.setting host).indexOf e).runOn st).2 := by
      rw [map_eq_pure_bind, Eval.runOn_bind]
      rcases ((c.setting host).indexOf e).runOn st with ⟨error | d, st₂⟩ <;> rfl
    rw [hhead] at hrun
    have hafter : st₁ = ((some <$> (c.setting host).indexOf e).runOn st).2 := (congrArg Prod.snd hrun).symm
    rw [hafter, hmap, hindex]
    exact hleft

/-- **What a step asks for** is a number that its predicate is, if it has one, and the index in front of it. -/
theorem Setting.of_runOn_index {axis : Axis} {test : NodeTest} {e : Expr} {index : Option Nat}
    (hrun : (s.index ⟨axis, test, [e]⟩).runOn st = (.ok index, st')) :
    ∃ x, (s.predicateValue e).runOn st = (.ok (.number x), st') ∧ (x >= 1 && Number.isWhole x) = true ∧
      index = some (Number.toIndex x - 1) := by
  have hindex : (some <$> s.indexOf e).runOn st = (.ok index, st') := hrun
  rw [map_eq_pure_bind, Eval.runOn_bind, indexOf, Eval.runOn_bind] at hindex
  rcases hvalue : (s.predicateValue e).runOn st with ⟨error | d, st₂⟩
  · rw [hvalue] at hindex
    cases hindex
  · rw [hvalue] at hindex
    cases d with
    | number x =>
      dsimp only at hindex
      rw [Eval.runOn_bind, Eval.runOn_get] at hindex
      dsimp only at hindex
      by_cases hposition : (x >= 1 && Number.isWhole x) = true
      · rw [if_pos hposition] at hindex
        cases hindex
        exact ⟨x, rfl, hposition, rfl⟩
      · rw [if_neg hposition] at hindex
        cases hindex
    | _ => cases hindex

/-- The value of a predicate that does not depend on its context is found without a cursor. -/
theorem Setting.runOn_predicateValue {e : Expr} {r : Eval Value}
    (hr : ∀ m, (s.predicateEvaluator e).value m e = Walk.lift r) (st : Store) :
    (s.predicateValue e).runOn st = (r >>= fun v => match v with
      | .datum d => pure d
      | v => tryCatch ((s.predicateEvaluator e).firstOf v) fun _ => pure .null).runOn st := by
  have hwithin : ((s.predicateEvaluator e).on (.startAt st s.context.contextPointer)
      ((s.predicateEvaluator e).value · e)).runOn st = r.runOn st := by
    rw [Evaluator.runOn_on, hr]
    rfl
  rw [Setting.predicateValue, Eval.runOn_bind, Setting.runOn_start]
  dsimp only
  rw [Eval.runOn_bind, hwithin]
  refine Eq.trans ?_ (Eval.runOn_bind ..).symm
  rcases r.runOn st with ⟨error | v, st'⟩
  · rfl
  · cases v <;> rfl

/-- A number is found as a position, or refused as one. -/
theorem Setting.runOn_index_number (s : Setting) (axis : Axis) (test : NodeTest) (x : Float) (st : Store) :
    (s.index ⟨axis, test, [.number x]⟩).runOn st =
      (if x >= 1 && Number.isWhole x then .ok (some (Number.toIndex x - 1))
        else .error (.evaluation (.positionNotUsable ((Datum.number x).toText st))), st) := by
  have hvalue : (s.predicateValue (.number x)).runOn st = (.ok (.number x), st) :=
    Setting.runOn_predicateValue (r := pure (.datum (.number x))) (fun _ => rfl) st
  show (some <$> s.indexOf (.number x)).runOn st = _
  rw [map_eq_pure_bind, indexOf, bind_assoc, Eval.runOn_bind, hvalue]
  dsimp only
  rw [bind_assoc, Eval.runOn_bind, Eval.runOn_get]
  dsimp only
  split <;> rfl

/-- **A predicate that is a number at the context node** is that number wherever it is judged, if it does not depend on
its context. -/
theorem Context.Settled.judge_number (hc : c.Settled host st) (hst : st.Extends st₁) {e : Expr}
    (he : e.isContextDependent = false) {x : Float}
    (hvalue : ((c.setting host).predicateValue e).runOn st₁ = (.ok (.number x), st')) (nodes : List Pointer) (k : Nat) :
    ((c.surroundings host).judge st e nodes k).1 = .ok (.number x) := by
  obtain ⟨r, hr⟩ := ((c.setting host).aloof_evaluatorTo (c.setting host).inner e.size).value e he
  -- It is the same number before the documents were added.
  have hnatural : (c.setting host).Natural (World.only st hc.closed) := Context.Within.setting hc.within hc.host
  obtain ⟨v, -, -, halike⟩ := hnatural.predicateValue e _ (.refl _) st st₁ (World.holds_only (.refl hc.sound) hst)
  rw [hvalue] at halike
  have hnumber : (((c.setting host).predicateValue e).runOn st).1 = .ok (.number x) := by
    generalize (((c.setting host).predicateValue e).runOn st).1 = answer at halike
    cases halike with
    | ok hd => cases hd; rfl
  -- A node-set is no number.
  rw [Setting.runOn_predicateValue hr, Eval.runOn_bind] at hnumber
  rw [Surroundings.judge, Context.surroundings, Setting.surroundings_test, Walk.runOn_bind]
  have hvalue : ∀ m, ((c.setting host).predicateEvaluator e).value m e = Walk.lift r := hr
  rw [hvalue, Walk.runOn_lift]
  rcases hrun : r.runOn st with ⟨error | v, st₂⟩
  · rw [hrun] at hnumber
    cases hnumber
  · rw [hrun] at hnumber
    cases v with
    | datum d =>
      cases hnumber
      rfl
    | nodes cursor =>
      dsimp only at hnumber
      rw [Eval.runOn_tryCatch, Evaluator.firstOf, Eval.runOn_bind] at hnumber
      generalize (((c.setting host).predicateEvaluator e).first cursor).runOn st₂ = first at hnumber
      obtain ⟨error | p?, st₃⟩ := first
      · cases hnumber
      · cases p? <;> cases hnumber

/-! ## §B  Steps -/

/-- **Makes** says what a step comes to at a place, when its predicate asks for an index: it stays there, leads to a
child or an attribute that is there, or makes one. -/
inductive Setting.Makes (s : Setting) (st : Store) (r : JsonRef) (index : Option Nat) : Step → Pointer → Store → Prop
  | stay {test : NodeTest} {es : List Expr} : s.Makes st r index ⟨.self, test, es⟩ (.json r) st
  | child {name : QName} {es : List Expr} {p : Pointer} :
    s.named? st (.name name) (index.getD 0) ((Pointer.json r).children st) = some p →
      s.Makes st r index ⟨.child, .name name, es⟩ p st
  | newChild {name : QName} {es : List Expr} {j' : Json} {r' : JsonRef} :
    s.named? st (.name name) (index.getD 0) ((Pointer.json r).children st) = none →
      r.createChild name (index.getD 0) ((st.document? r.doc).getD .null) = .ok (j', r') →
        s.Makes st r index ⟨.child, .name name, es⟩ (.json r') (st.setDocument r.doc j')
  | attr {name : QName} {es : List Expr} {p : Pointer} :
    s.named? st (.name name) (index.getD 0) ((Pointer.json r).attributes st) = some p →
      s.Makes st r index ⟨.attributes, .name name, es⟩ p st
  | newAttr {name : QName} {es : List Expr} {j' : Json} {r' : JsonRef} :
    s.named? st (.name name) (index.getD 0) ((Pointer.json r).attributes st) = none →
      r.createAttribute name ((st.document? r.doc).getD .null) = .ok (j', r') →
        s.Makes st r index ⟨.attributes, .name name, es⟩ (.json r') (st.setDocument r.doc j')

/-- What a name finds is one of the nodes among which it is looked for. -/
theorem Setting.mem_of_named? {test : NodeTest} {ps : List Pointer} (h : s.named? st test i ps = some p) : p ∈ ps :=
  (List.mem_filter.mp (List.mem_of_getElem? h)).1

/-- Children are below their parent, -/
theorem Pointer.below_of_mem_children (h : p ∈ (Pointer.json r).children st) : ∃ more, p = .json (r.below more false) := by
  have hchildren : (Pointer.json r).children st = (((st.document? r.doc).map r.children).getD []).map json := by
    simp [children, follow, followFrom, opening, plainChildren]
  rw [hchildren] at h
  obtain ⟨q, hq, rfl⟩ := List.mem_map.mp h
  cases hj : st.document? r.doc with
  | none => rw [hj] at hq; cases hq
  | some j =>
    rw [hj, Option.map_some, Option.getD_some, JsonRef.children] at hq
    split at hq
    · cases hq
    · split at hq
      · cases hq
      · obtain ⟨more, -, rfl⟩ := List.mem_map.mp hq
        exact ⟨more, rfl⟩

/-- and so are attributes. -/
theorem Pointer.below_of_mem_attributes (h : p ∈ (Pointer.json r).attributes st) :
    ∃ more, p = .json (r.below more true) := by
  obtain ⟨q, hq, rfl⟩ := List.mem_map.mp h
  cases hj : st.document? r.doc with
  | none => rw [hj] at hq; cases hq
  | some j =>
    rw [hj, Option.map_some, Option.getD_some] at hq
    obtain ⟨k, rfl, -⟩ := JsonRef.mem_attributes hq
    exact ⟨_, rfl⟩

/-- An edit of a document that succeeds. -/
theorem Pointer.of_runOn_editDocument {edit : Json → Except EvalError (Json × JsonRef)}
    (hrun : (json <$> editDocument r edit : Eval Pointer).runOn st = (.ok p, st')) :
    ∃ j' r', edit ((st.document? r.doc).getD .null) = .ok (j', r') ∧ p = .json r' ∧ st' = st.setDocument r.doc j' := by
  rw [map_eq_pure_bind, editDocument, bind_assoc, Eval.runOn_bind, Eval.runOn_get] at hrun
  dsimp only at hrun
  rcases hedit : edit ((st.document? r.doc).getD .null) with error | ⟨j', r'⟩
  · rw [hedit] at hrun
    cases hrun
  · rw [hedit] at hrun
    cases hrun
    exact ⟨j', r', rfl, rfl, rfl⟩

/-- **What a step can do** when it succeeds. -/
theorem Setting.makes_of_createStep (hsimple : step.isSimple = true)
    (hrun : (s.createStep (.json r) step).runOn st = (.ok p, st')) :
    ∃ index st₁, (s.index step).runOn st = (.ok index, st₁) ∧ s.Makes st₁ r index step p st' := by
  rw [createStep, Eval.runOn_bind] at hrun
  rcases hindex : (s.index step).runOn st with ⟨error | index, st₁⟩
  · rw [index] at hindex
    rw [hindex] at hrun
    cases hrun
  refine ⟨index, st₁, rfl, ?_⟩
  rw [Setting.index] at hindex
  rw [hindex] at hrun
  dsimp only at hrun
  rw [Eval.runOn_bind, Eval.runOn_get] at hrun
  dsimp only at hrun
  obtain ⟨axis, test, es⟩ := step
  -- A simple step stays, or asks for a name among the children or the attributes.
  cases axis with
  | self =>
    cases hrun
    exact .stay
  | child =>
    cases test with
    | name name =>
      dsimp only at hrun
      cases hnamed : s.named? st₁ (.name name) (index.getD 0) ((Pointer.json r).children st₁) with
      | some q =>
        rw [hnamed] at hrun
        cases hrun
        exact .child hnamed
      | none =>
        rw [hnamed] at hrun
        obtain ⟨j', r', hmade, rfl, rfl⟩ := Pointer.of_runOn_editDocument hrun
        exact .newChild hnamed hmade
    | _ => cases hsimple
  | attributes =>
    cases test with
    | name name =>
      dsimp only at hrun
      cases hnamed : s.named? st₁ (.name name) (index.getD 0) ((Pointer.json r).attributes st₁) with
      | some q =>
        rw [hnamed] at hrun
        cases hrun
        exact .attr hnamed
      | none =>
        rw [hnamed] at hrun
        obtain ⟨j', r', hmade, rfl, rfl⟩ := Pointer.of_runOn_editDocument hrun
        exact .newAttr hnamed hmade
    | _ => cases hsimple
  | _ => cases test <;> cases hsimple

/-- A context stays settled. -/
theorem Context.Settled.makes {index : Option Nat} (hc : c.Settled host st) (hmakes : s.Makes st r index step p st') :
    c.Settled host st' := by
  cases hmakes with
  | newChild => exact hc.setDocument _ _
  | newAttr => exact hc.setDocument _ _
  | _ => exact hc

/-- Which nodes of documents a name finds does not change as documents are added: it finds those that pass its test. -/
theorem Context.Settled.named?_eq (hc : c.Settled host st) (hst : st.Extends st₁) (test : NodeTest) (k : Nat)
    (rs : List JsonRef) :
    (c.setting host).named? st₁ test k (rs.map .json) =
      ((rs.map .json).filter ((c.surroundings host).passes st test))[k]? := by
  have hresolve : (c.surroundings host).resolve st = c.addressOf st₁ := by
    obtain ⟨n, hn⟩ : ∃ n, Walk.limit = n + 1 := Nat.exists_eq_succ_of_ne_zero (by decide)
    have haddress : (c.surroundings host).resolve = c.addressOf := by
      rw [Context.surroundings, Setting.surroundings, hn]
      rfl
    have hholds : (World.only st hc.closed).Holds st st₁ := World.holds_only (.refl hc.sound) hst
    rw [haddress]
    exact funext fun label => hholds.contextAddressOf hc.within label
  have haccepts : ∀ q : JsonRef, test.accepts (c.addressOf st₁) (.json q) st₁ =
      (c.surroundings host).passes st test (.json q) := by
    intro q
    rw [Surroundings.passes, hresolve]
    cases test with
    | type t => cases t <;> rfl
    | _ => rfl
  show ((rs.map Pointer.json).filter (test.accepts (c.addressOf st₁) · st₁))[k]? = _
  rw [List.filter_congr fun q hq => ?_]
  obtain ⟨q, -, rfl⟩ := List.mem_map.mp hq
  exact haccepts q

/-! ## §C  Paths -/

/-- The steps behind the first one go on from where it comes to. -/
theorem Setting.runOn_createSteps_cons (s : Setting) (r : JsonRef) (step : Step) (steps : List Step) (st : Store) :
    (s.createSteps (.json r) (step :: steps)).runOn st =
      match (s.createStep (.json r) step).runOn st with
      | (.ok p, st₁) => (s.createSteps p steps).runOn st₁
      | (.error e, st₁) => (.error e, st₁) := by
  have hopened : (Pointer.json r).opened.runOn st = (.ok (.json r), st) := rfl
  rw [createSteps, Eval.runOn_bind, hopened]
  dsimp only
  rw [Eval.runOn_bind]
  rcases (s.createStep (.json r) step).runOn st with ⟨error | q, st₁⟩ <;> rfl

/-- **Steps that can be created**: what the first one makes, and what the others make behind it. -/
theorem Setting.of_createSteps_cons {steps : List Step} (hsimple : step.isSimple = true)
    (hrun : (s.createSteps (.json r) (step :: steps)).runOn st = (.ok p, st')) :
    ∃ index st₁ q st₂, (s.index step).runOn st = (.ok index, st₁) ∧ s.Makes st₁ r index step q st₂ ∧
      (s.createSteps q steps).runOn st₂ = (.ok p, st') := by
  rw [runOn_createSteps_cons] at hrun
  rcases hstep : (s.createStep (.json r) step).runOn st with ⟨error | q, st₂⟩
  · rw [hstep] at hrun
    cases hrun
  · rw [hstep] at hrun
    obtain ⟨index, st₁, hindex, hmakes⟩ := makes_of_createStep hsimple hstep
    exact ⟨index, st₁, q, st₂, hindex, hmakes, hrun⟩

/-! ## §D  New children -/

namespace JsonRef

variable {ms : Json.Members} {j j' : Json} {r' : JsonRef} {name : QName} {key what : String}

/-- The members of a part are its own, or it is a null and has none. -/
theorem membersOf_spec (h : r.membersOf j what = .ok ms) :
    ∃ part, j.at? r.path = some part ∧ (part = .null ∧ ms = [] ∨ part = .object ms) := by
  unfold membersOf at h
  split at h
  · cases h
  · cases h
    exact ⟨_, ‹_›, .inl ⟨rfl, rfl⟩⟩
  · cases h
    exact ⟨_, ‹_›, .inr rfl⟩
  · cases h

theorem putMembers_spec (h : r.membersOf j what = .ok ms) (ms' : Json.Members) :
    Json.replace? (.object ms') r.path j = some (r.putMembers ms' j) := by
  obtain ⟨part, hpart, -⟩ := membersOf_spec h
  obtain ⟨j', hj'⟩ := Json.replace?_of_at? hpart (.object ms')
  rw [putMembers, hj']
  rfl

/-- What a new child changes, and where it is. -/
theorem of_createChild (h : r.createChild name i j = .ok (j', r')) :
    ∃ part ms, j.at? r.path = some part ∧ (part = .null ∧ ms = [] ∨ part = .object ms) ∧
      Json.replace? (.object (withChild ms name.written i).1) r.path j = some j' ∧
      r' = r.below (withChild ms name.written i).2 false := by
  unfold createChild at h
  dsimp only at h
  rcases hms : r.membersOf j ("create child '" ++ name.written ++ "'") with error | ms
  · rw [hms] at h
    cases h
  · rw [hms] at h
    cases h
    obtain ⟨part, hpart, hmembers⟩ := membersOf_spec hms
    exact ⟨part, ms, hpart, hmembers, putMembers_spec hms _, rfl⟩

theorem of_createAttribute (h : r.createAttribute name j = .ok (j', r')) :
    ∃ part ms, j.at? r.path = some part ∧ (part = .null ∧ ms = [] ∨ part = .object ms) ∧
      Json.replace? (.object (withMember ms name.written)) r.path j = some j' ∧
      r' = r.below [.key name.written] true := by
  unfold createAttribute at h
  dsimp only at h
  rcases hms : r.membersOf j ("create attribute '" ++ name.written ++ "'") with error | ms
  · rw [hms] at h
    cases h
  · rw [hms] at h
    cases h
    obtain ⟨part, hpart, hmembers⟩ := membersOf_spec hms
    exact ⟨part, ms, hpart, hmembers, putMembers_spec hms _, rfl⟩

/-- **slots** are the ways to the children that the member of a key makes. -/
def slots (ms : Json.Members) (key : String) : List (List Segment) :=
  match ms.get? key with
  | some v => memberPaths (key, v)
  | none => []

theorem length_padded {items : List Json} (h : items.length ≤ i) : (padded items i).length = i + 1 := by
  rw [padded, List.length_append, List.length_replicate]
  omega

/-- **Where there is no slot yet** for an index, either the member is made, or it is given an array that contains what
the member was and is as long as it takes. -/
theorem withChild_of_missing (h : (slots ms key)[i]? = none) :
    (ms.get? key = none ∧ withChild ms key i = (Json.Members.set key .null ms, [.key key]) ∧ i = 0) ∨
      ∃ items, items.length ≤ i ∧
        withChild ms key i = (Json.Members.set key (.array (padded items i)) ms, [.key key, .index i]) ∧
        ∀ old, ms.get? key = some old → ∀ more, (Json.array (items ++ more)).Contains old := by
  cases hget : ms.get? key with
  | none =>
    cases i with
    | zero => exact .inl ⟨rfl, by simp only [withChild, hget], rfl⟩
    | succ i => exact .inr ⟨[], Nat.zero_le _, by simp only [withChild, hget], fun old hold => nomatch hold⟩
  | some v =>
    rw [slots, hget] at h
    have hwrap : v.isArray = false → v ≠ .null → ∀ k, withChild ms key (k + 1) =
        (Json.Members.set key (.array (padded [v] (k + 1))) ms, [.key key, .index (k + 1)]) := by
      intro hv hnull k
      cases v with
      | array items => cases hv
      | null => exact absurd rfl hnull
      | _ => simp only [withChild, hget]
    cases v with
    | array items =>
      have hlen : items.length ≤ i := by simpa [memberPaths, elementsBelow] using h
      refine .inr ⟨items, hlen, by simp only [withChild, hget], fun old hold more => ?_⟩
      cases hold
      exact .append items more
    | null =>
      -- a member that is no array is its own first child
      obtain ⟨i, rfl⟩ : ∃ k, i = k + 1 := Nat.exists_eq_succ_of_ne_zero (by rintro rfl; cases h)
      refine .inr ⟨[], Nat.zero_le _, by simp only [withChild, hget], fun old hold more => ?_⟩
      cases hold
      exact .null
    | _ =>
      obtain ⟨i, rfl⟩ : ∃ k, i = k + 1 := Nat.exists_eq_succ_of_ne_zero (by rintro rfl; cases h)
      refine .inr ⟨[_], Nat.succ_le_succ (Nat.zero_le i), hwrap rfl Json.noConfusion i, fun old hold more => ?_⟩
      cases hold
      exact .first rfl (.refl _)

/-- **A new child** is in the slot that was missing, and is null. -/
theorem new_slot (h : (slots ms key)[i]? = none) :
    (slots (withChild ms key i).1 key)[i]? = some (withChild ms key i).2 ∧
      (Json.object (withChild ms key i).1).at? (withChild ms key i).2 = some .null := by
  rcases withChild_of_missing h with ⟨-, hmade, rfl⟩ | ⟨items, hlen, hmade, -⟩
  · rw [hmade, slots, Json.Members.get?_set]
    refine ⟨rfl, ?_⟩
    rw [Json.at?, Json.child?, Json.Members.get?_set]
    rfl
  · have hlast : (padded items i)[i]? = some .null := by
      rw [padded, List.getElem?_append_right hlen, List.getElem?_replicate_of_lt (by omega)]
    rw [hmade, slots, Json.Members.get?_set]
    constructor
    · simp [memberPaths, elementsBelow, length_padded hlen]
    · rw [Json.at?, Json.child?, Json.Members.get?_set, Option.bind_some, Json.at?, Json.child?, hlast]
      rfl

/-- **Whatever is put in the place of a new child**, all that the members were is there still. -/
theorem contains_of_new_slot (h : (slots ms key)[i]? = none) {v w : Json}
    (hw : Json.replace? v (withChild ms key i).2 (.object (withChild ms key i).1) = some w) :
    w.Contains (.object ms) := by
  rcases withChild_of_missing h with ⟨hnone, hmade, rfl⟩ | ⟨items, hlen, hmade, hcontains⟩
  · rw [hmade, Json.replace?_cons, Json.child?, Json.Members.get?_set, Option.bind_some, Json.replace?, Option.bind_some,
      Json.setChild?, Json.Members.get?_set, Option.isSome_some, if_pos rfl, Json.Members.set_set] at hw
    cases hw
    exact .set_of_none hnone v
  · have hset : (padded items i).set i v =
        items ++ (List.replicate (i + 1 - items.length) .null).set (i - items.length) v := by
      rw [padded, List.set_append_right _ _ hlen]
    have hi : i < (padded items i).length := by
      rw [length_padded hlen]
      exact Nat.lt_succ_self i
    rw [hmade, Json.replace?_cons, Json.child?, Json.Members.get?_set, Option.bind_some, Json.replace?_cons, Json.child?,
      List.getElem?_eq_getElem hi, Option.bind_some, Json.replace?, Option.bind_some, Json.setChild?, if_pos hi,
      Option.bind_some, Json.setChild?, Json.Members.get?_set, Option.isSome_some, if_pos rfl, Json.Members.set_set,
      hset] at hw
    cases hw
    cases hget : ms.get? key with
    | none => exact .set_of_none hget _
    | some old => exact .set hget (hcontains old hget _)

end JsonRef

/-! ## §E  Names -/

namespace QName

theorem splitColon_of_not_mem {cs : List Char} (h : ':' ∉ cs) : splitColon cs = none := by
  induction cs with
  | nil => rfl
  | cons c cs ih =>
    obtain ⟨hc, hcs⟩ := List.ne_and_not_mem_of_not_mem_cons h
    simp [splitColon, Ne.symm hc, ih hcs]

theorem splitColon_append {q : List Char} (h : ':' ∉ q) (l : List Char) :
    splitColon (q ++ ':' :: l) = some (q, l) := by
  induction q with
  | nil => rfl
  | cons c q ih =>
    obtain ⟨hc, hq⟩ := List.ne_and_not_mem_of_not_mem_cons h
    simp [splitColon, Ne.symm hc, ih hq]

theorem colon_not_mem {s : String} (h : IsNcName s) : ':' ∉ s.toList := by
  obtain ⟨c, cs, hcs, hc, hrest⟩ := h
  rw [hcs]
  refine List.not_mem_cons_of_ne_of_not_mem ?_ fun hmem => absurd (hrest _ hmem) (by decide)
  rintro rfl
  exact absurd hc (by decide)

/-- A name is what its written form stands for. -/
theorem ofWritten_written {n : QName} (hn : n.WellFormed) : ofWritten n.written = n := by
  obtain ⟨qualifier, l⟩ := n
  cases qualifier with
  | none =>
    show ofWritten l = plain l
    rw [ofWritten, splitColon_of_not_mem (colon_not_mem hn.2)]
  | some q =>
    have hq := hn.1 q rfl
    have hlist : (q ++ ":" ++ l).toList = q.toList ++ ':' :: l.toList := by simp
    show ofWritten (q ++ ":" ++ l) = ⟨some q, l⟩
    rw [ofWritten, hlist, splitColon_append (colon_not_mem hq)]
    dsimp only
    rw [String.ofList_toList, String.ofList_toList, make_of_isNcName hq]

end QName

namespace JsonRef

variable {ms : Json.Members} {name : QName} {resolve : String → Option String}

/-- A name finds what has its written form as a key. -/
theorem accepts_written (hname : name.WellFormed) {more : List Segment}
    (hmore : more = [.key name.written] ∨ ∃ k, more = [.key name.written, .index k]) (asAttribute : Bool) :
    (NodeTest.name name).accepts resolve (.json (r.below more asAttribute)) st = true := by
  rw [accepts_json hname.2 (isNamed_kind r hmore asAttribute), name_below r hmore, QName.ofWritten_written hname]
  simp

/-- **A slot that a name does not find** is missing. -/
theorem slot_missing (hr : r.asAttribute = false) (hname : name.WellFormed)
    (hpart : st.at? r.doc r.path = some (.object ms))
    (hnone : s.named? st (.name name) i ((Pointer.json r).children st) = none) :
    (slots ms name.written)[i]? = none := by
  unfold slots
  cases hget : ms.get? name.written with
  | none => rfl
  | some v =>
    have hmem : (name.written, v) ∈ ms := Json.Members.mem_of_get? hget
    -- the slots are among the children that the name finds, so that there are no more of them
    have hsublist : ((memberPaths (name.written, v)).map fun more => Pointer.json (r.below more false)).Sublist
        (((Pointer.json r).children st).filter ((NodeTest.name name).accepts (s.context.addressOf st) · st)) := by
      have hself : ((memberPaths (name.written, v)).map fun more => Pointer.json (r.below more false)).filter
          ((NodeTest.name name).accepts (s.context.addressOf st) · st) =
            (memberPaths (name.written, v)).map fun more => Pointer.json (r.below more false) := by
        refine List.filter_eq_self.mpr fun p hp => ?_
        obtain ⟨more, hmore, rfl⟩ := List.mem_map.mp hp
        exact accepts_written hname (mem_memberPaths hmore) false
      have hpaths : childPaths r.isMember (.object ms) = (ms.map memberPaths).flatten := rfl
      rw [← hself, children_of_at? hr hpart, hpaths, List.map_map]
      refine List.Sublist.filter _ (List.Sublist.map _ ?_)
      exact List.sublist_flatten_of_mem (List.mem_map.mpr ⟨_, hmem, rfl⟩)
    have hlen := hsublist.length_le
    rw [List.length_map] at hlen
    exact List.getElem?_eq_none (Nat.le_trans hlen (List.getElem?_eq_none_iff.mp hnone))

end JsonRef

end NodePath
