/-
# NodePath.Proofs.VariableRings — when opening a variable ends

A variable may hold a node that is a variable again. Opening goes on from each to the next, and stops at a node that
holds no other one, or only itself; nothing else stops it. Since every variable holds at most one node, it goes on for
ever exactly if it comes into a ring, to a variable from which it leads away and back. Declarations and assignments
make no ring as long as none of them gives a variable a node that leads to it already, but two of them are enough to
make one.

* §A  Keys of variables.
* §B  Opening, turn by turn.
* §C  Rings.
* §D  Changes that make no ring.
* §E  Requests.
-/
import Mathlib.Data.List.Nodup
import NodePath.Proofs.NearestDeclaration

namespace NodePath

/-! ## §A  Keys -/

/-- **Key** is the set of variables of a declared variable, and its name. -/
abbrev Key := ScopeId × String

/-- The key of the variable that a node is. -/
def Pointer.key? : Pointer → Option Key
  | .var ⟨name, some s⟩ => some (s, name.written)
  | _ => none

namespace Store

variable {st : Store} {key : Key}

/-- The keys of all variables. -/
def keys (st : Store) : List Key :=
  st.scopes.toList.zipIdx.flatMap fun numbered => numbered.1.map fun entry => (numbered.2, entry.1)

/-- What the variable of a key holds. -/
def held? (st : Store) (key : Key) : Option Slot := (st.scope key.1).get? key.2

theorem length_keys (st : Store) : st.keys.length = st.variableCount := by
  have hcount : ∀ (l : List Variables) (n : Nat),
      l.foldl (fun n vs => n + vs.length) n = n + (l.map List.length).sum := by
    intro l
    induction l with
    | nil => exact fun n => rfl
    | cons vs l ih =>
      intro n
      rw [List.foldl_cons, ih, List.map_cons, List.sum_cons, Nat.add_assoc]
  have hnumbered : ∀ (l : List Variables) (n : Nat),
      ((l.zipIdx n).map fun numbered => numbered.1.length) = l.map List.length := by
    intro l
    induction l with
    | nil => exact fun n => rfl
    | cons vs l ih =>
      intro n
      rw [List.zipIdx_cons, List.map_cons, ih, List.map_cons]
  rw [variableCount, ← Array.foldl_toList, hcount, Nat.zero_add, keys, List.length_flatMap]
  simp only [List.length_map]
  rw [hnumbered]

/-- A variable that holds something has its key among them. -/
theorem mem_keys {slot : Slot} (h : st.held? key = some slot) : key ∈ st.keys := by
  obtain ⟨entry, hfind, -⟩ := Option.map_eq_some_iff.mp h
  have hname : entry.1 = key.2 := by simpa using List.find?_some hfind
  have hmem : entry ∈ st.scope key.1 := List.mem_of_find?_eq_some hfind
  have hscope : st.scopes.toList[key.1]? = some (st.scope key.1) := by
    rw [Array.getElem?_toList, scope, Array.getD_eq_getD_getElem?]
    cases hget : st.scopes[key.1]? with
    | some vs => rfl
    | none =>
      -- Beyond the sets of variables there are none.
      rw [scope, Array.getD_eq_getD_getElem?, hget] at hmem
      cases hmem
  refine List.mem_flatMap.mpr ⟨(st.scope key.1, key.1), List.mem_zipIdx_iff_getElem?.mpr hscope, ?_⟩
  exact List.mem_map.mpr ⟨entry, hmem, by rw [hname]⟩

end Store

namespace Pointer

variable {st st' : Store} {p q r : Pointer} {key : Key}

/-- A node holds another one if it is a variable that does. -/
theorem opening_onto_iff :
    p.opening st = .onto q ↔ ∃ key, p.key? = some key ∧ st.held? key = some (.value (.pointer q)) := by
  cases p with
  | var v =>
    obtain ⟨name, scope⟩ := v
    cases scope with
    | none => simp [opening, Store.slot?, key?]
    | some s =>
      have hslot : st.slot? ⟨name, some s⟩ = st.held? (s, name.written) := rfl
      have hkey : ∀ key, (Pointer.var ⟨name, some s⟩).key? = some key ↔ key = (s, name.written) := by
        intro key
        rw [key?, Option.some.injEq, eq_comm]
      simp only [hkey, exists_eq_left, opening, hslot]
      cases hheld : st.held? (s, name.written) with
      | none => simp
      | some slot =>
        cases slot with
        | document doc => simp only; split <;> simp
        | value d =>
          cases d with
          | pointer q' => simp
          | _ => simp only; split <;> simp
  | _ => simp [opening, key?]

/-- Nodes are the same variable if they have one key. -/
theorem beq_iff_key? (hp : p.key? = some key) : (q == p) = true ↔ q.key? = some key := by
  have hvar : ∃ name s, p = .var ⟨name, some s⟩ ∧ key = (s, name.written) := by
    cases p with
    | var v =>
      obtain ⟨name, scope⟩ := v
      cases scope with
      | none => cases hp
      | some s => exact ⟨name, s, rfl, (Option.some.inj hp).symm⟩
    | _ => cases hp
  obtain ⟨name, s, rfl, rfl⟩ := hvar
  show Pointer.same q (.var ⟨name, some s⟩) = true ↔ _
  cases q with
  | var v =>
    obtain ⟨name', scope⟩ := v
    cases scope with
    | none => simp [same, VarRef.same, key?]
    | some s' =>
      have hname : (name' == name) = (name'.written == name.written) := rfl
      simp [same, VarRef.same, key?, hname, and_comm]
  | _ => simp [same, key?]

/-! ## §B  Turns -/

/-- **onward?** is the node that opening goes on to from a node, unless it ends there. -/
def onward? (st : Store) (p : Pointer) : Option Pointer :=
  match p.opening st with
  | .onto q => if q == p then none else some q
  | _ => none

/-- **Unfolds** says that opening a node ends, at which node, and in what store. A node that holds none, and one that
holds itself, is the end. A variable with a plain value has a document as its end, which for a scalar is a new one. -/
inductive Unfolds : Store → Pointer → Pointer → Store → Prop
  | shut {st : Store} {p : Pointer} : p.opening st = .shut → Unfolds st p p st
  | self {st : Store} {p q : Pointer} : p.opening st = .onto q → (q == p) = true → Unfolds st p p st
  | document {st : Store} {p : Pointer} {doc : DocId} : p.opening st = .onDocument doc →
      Unfolds st p (p.documentOf doc) st
  | copy {st : Store} {p : Pointer} {j : Json} : p.opening st = .onCopy j →
      Unfolds st p (p.documentOf st.documents.size) (st.addDocument j).1
  | onto {st st' : Store} {p q r : Pointer} : p.opening st = .onto q → (q == p) = false → Unfolds st q r st' →
      Unfolds st p r st'

/-- Where opening is that goes on no more. -/
def landing (st : Store) (p : Pointer) : Pointer × Store :=
  match p.opening st with
  | .onDocument doc => (p.documentOf doc, st)
  | .onCopy j => (p.documentOf st.documents.size, (st.addDocument j).1)
  | _ => (p, st)

theorem onward?_eq_some_iff : onward? st p = some q ↔ p.opening st = .onto q ∧ (q == p) = false := by
  unfold onward?
  cases hopening : p.opening st with
  | onto r =>
    dsimp only
    split
    · rename_i hsame
      simp only [reduceCtorEq, Opening.onto.injEq, false_iff, not_and]
      rintro rfl
      simp [hsame]
    · rename_i hother
      simp only [Option.some.injEq, Opening.onto.injEq]
      refine ⟨?_, fun h => h.1⟩
      rintro rfl
      exact ⟨rfl, by simpa using hother⟩
  | _ => simp

theorem followFrom_succ (st : Store) (n : Nat) (p : Pointer) :
    p.followFrom st (n + 1) = match onward? st p with
      | some q => q.followFrom st n
      | none => p := by
  rw [followFrom, onward?]
  cases p.opening st with
  | onto q => dsimp only; split <;> rfl
  | _ => rfl

/-- At its end, opening stays. -/
theorem followFrom_of_end (hp : onward? st p = none) (n : Nat) : p.followFrom st n = p := by
  cases n with
  | zero => rfl
  | succ n => rw [followFrom_succ, hp]

/-- Once opening has come to its end, more turns do nothing. -/
theorem followFrom_of_le {m n : Nat} (hend : onward? st (p.followFrom st m) = none) (hle : m ≤ n) :
    p.followFrom st n = p.followFrom st m := by
  induction m generalizing p n with
  | zero => exact followFrom_of_end hend n
  | succ m ih =>
    obtain ⟨n, rfl⟩ : ∃ k, n = k + 1 := ⟨n - 1, by omega⟩
    rw [followFrom_succ] at hend
    rw [followFrom_succ, followFrom_succ]
    cases hp : onward? st p with
    | none => rfl
    | some q =>
      rw [hp] at hend
      exact ih hend (Nat.le_of_succ_le_succ hle)

theorem unfolds_landing (hp : onward? st p = none) : Unfolds st p (landing st p).1 (landing st p).2 := by
  unfold landing
  cases hopening : p.opening st with
  | shut => exact .shut hopening
  | onDocument doc => exact .document hopening
  | onCopy j => exact .copy hopening
  | onto q =>
    refine .self hopening ?_
    by_contra hother
    rw [onward?_eq_some_iff.mpr ⟨hopening, Bool.eq_false_of_not_eq_true hother⟩] at hp
    cases hp

/-- **Opening ends** when a number of turns comes to an end, -/
theorem unfolds_of_end {n : Nat} (hend : onward? st (p.followFrom st n) = none) :
    Unfolds st p (landing st (p.followFrom st n)).1 (landing st (p.followFrom st n)).2 := by
  induction n generalizing p with
  | zero => exact unfolds_landing hend
  | succ n ih =>
    rw [followFrom_succ] at hend ⊢
    cases hp : onward? st p with
    | none => exact unfolds_landing hp
    | some q =>
      rw [hp] at hend
      obtain ⟨hopening, hother⟩ := onward?_eq_some_iff.mp hp
      exact .onto hopening hother (ih hend)

/-- and only then, and there. -/
theorem Unfolds.exists_end (h : Unfolds st p r st') :
    ∃ n, onward? st (p.followFrom st n) = none ∧ (r, st') = landing st (p.followFrom st n) := by
  induction h with
  | shut hopening => exact ⟨0, by simp [followFrom, onward?, hopening], by simp [followFrom, landing, hopening]⟩
  | self hopening hsame =>
    exact ⟨0, by simp [followFrom, onward?, hopening, hsame], by simp [followFrom, landing, hopening]⟩
  | document hopening => exact ⟨0, by simp [followFrom, onward?, hopening], by simp [followFrom, landing, hopening]⟩
  | copy hopening => exact ⟨0, by simp [followFrom, onward?, hopening], by simp [followFrom, landing, hopening]⟩
  | onto hopening hother _ ih =>
    obtain ⟨n, hend, hlanding⟩ := ih
    refine ⟨n + 1, ?_, ?_⟩ <;> rw [followFrom_succ, onward?_eq_some_iff.mpr ⟨hopening, hother⟩]
    · exact hend
    · exact hlanding

theorem runOn_opened (p : Pointer) (st : Store) :
    p.opened.runOn st = (.ok (landing st (p.follow st)).1, (landing st (p.follow st)).2) := by
  rw [opened, Eval.runOn_bind, Eval.runOn_get]
  dsimp only
  rw [Eval.runOn_bind, Eval.runOn_get]
  dsimp only [landing]
  cases (p.follow st).opening st <;> rfl

/-! ## §C  Rings -/

/-- **Leads** says that opening comes from a node to another one. -/
inductive Leads (st : Store) : Pointer → Pointer → Prop
  | refl (p : Pointer) : Leads st p p
  | turn {p q r : Pointer} : onward? st p = some q → Leads st q r → Leads st p r

/-- **LeadsIntoRing** says that opening comes to a variable from which it goes on and comes back. -/
def LeadsIntoRing (st : Store) (p : Pointer) : Prop :=
  ∃ q r back, Leads st p q ∧ onward? st q = some r ∧ Leads st r back ∧ (back == q) = true

/-- A node that opening goes on from has a key, and what it goes on to is held under it. -/
theorem key_of_onward (h : onward? st p = some q) :
    ∃ key, p.key? = some key ∧ st.held? key = some (.value (.pointer q)) ∧ q.key? ≠ some key := by
  obtain ⟨hopening, hother⟩ := onward?_eq_some_iff.mp h
  obtain ⟨key, hkey, hheld⟩ := opening_onto_iff.mp hopening
  refine ⟨key, hkey, hheld, fun hsame => ?_⟩
  rw [(beq_iff_key? hkey).mpr hsame] at hother
  cases hother

/-- What opening goes on to depends on the variable alone. -/
theorem onward_congr (h : onward? st p = some q) {p' : Pointer} (hsame : (p' == p) = true) :
    onward? st p' = some q := by
  obtain ⟨key, hkey, hheld, hother⟩ := key_of_onward h
  have hkey' := (beq_iff_key? hkey).mp hsame
  refine onward?_eq_some_iff.mpr ⟨opening_onto_iff.mpr ⟨key, hkey', hheld⟩, ?_⟩
  exact Bool.eq_false_of_not_eq_true fun hback => hother ((beq_iff_key? hkey').mp hback)

/-- From a ring, opening comes into a ring. -/
theorem LeadsIntoRing.onward (hring : LeadsIntoRing st p) : ∃ q, onward? st p = some q ∧ LeadsIntoRing st q := by
  obtain ⟨q, r, back, hlead, honward, hback, hsame⟩ := hring
  cases hlead with
  | refl =>
    obtain ⟨key, hkey, -⟩ := key_of_onward honward
    have hback' := (beq_iff_key? hkey).mp hsame
    exact ⟨r, honward, back, r, back, hback, onward_congr honward hsame, hback, (beq_iff_key? hback').mpr hback'⟩
  | turn hp hlead => exact ⟨_, hp, q, r, back, hlead, honward, hback, hsame⟩

theorem not_leadsIntoRing_of_unfolds (h : Unfolds st p r st') : ¬ LeadsIntoRing st p := by
  intro hring
  obtain ⟨n, hend, -⟩ := h.exists_end
  clear h
  induction n generalizing p with
  | zero =>
    obtain ⟨q, hq, -⟩ := hring.onward
    change onward? st p = none at hend
    rw [hq] at hend
    cases hend
  | succ n ih =>
    obtain ⟨q, hq, hring⟩ := hring.onward
    rw [followFrom_succ, hq] at hend
    exact ih hring hend

theorem Leads.trans (h : Leads st p q) (h' : Leads st q r) : Leads st p r := by
  induction h with
  | refl p => exact h'
  | turn hp _ ih => exact .turn hp (ih h')

/-- **Without a ring opening ends** after as many turns as there are variables: each turn comes from a variable that it
has not come from before. -/
theorem exists_end_of_visited {n : Nat} {visited : List Key} (hnodup : visited.Nodup) (hvisited : visited ⊆ st.keys)
    (hlength : st.keys.length ≤ visited.length + n) (hnew : ∀ q key, Leads st p q → q.key? = some key → key ∉ visited)
    (hring : ¬ LeadsIntoRing st p) : onward? st (p.followFrom st n) = none := by
  induction n generalizing p visited with
  | zero =>
    -- All variables have been visited, so this node cannot be one that holds another.
    show onward? st p = none
    by_contra hsome
    obtain ⟨q, hq⟩ := Option.ne_none_iff_exists'.mp hsome
    obtain ⟨key, hkey, hheld, -⟩ := key_of_onward hq
    have hmore : (key :: visited).Subperm st.keys :=
      (List.nodup_cons.mpr ⟨hnew p key (.refl p) hkey, hnodup⟩).subperm
        (List.cons_subset.mpr ⟨Store.mem_keys hheld, hvisited⟩)
    have := hmore.length_le
    simp only [List.length_cons] at this
    omega
  | succ n ih =>
    rw [followFrom_succ]
    cases hp : onward? st p with
    | none => exact hp
    | some q =>
      obtain ⟨key, hkey, hheld, -⟩ := key_of_onward hp
      have hnodup' : (key :: visited).Nodup := List.nodup_cons.mpr ⟨hnew p key (.refl p) hkey, hnodup⟩
      refine ih hnodup' ?_ ?_ ?_ ?_
      · exact List.cons_subset.mpr ⟨Store.mem_keys hheld, hvisited⟩
      · simp only [List.length_cons]
        omega
      · intro r key' hlead hkey' hmem
        rcases List.mem_cons.mp hmem with rfl | hmem
        · exact hring ⟨p, q, r, .refl p, hp, hlead, (beq_iff_key? hkey).mpr hkey'⟩
        · exact hnew r key' (.turn hp hlead) hkey' hmem
      · rintro ⟨a, b, back, hlead, honward, hback, hsame⟩
        exact hring ⟨a, b, back, .turn hp hlead, honward, hback, hsame⟩

theorem end_of_not_leadsIntoRing (hring : ¬ LeadsIntoRing st p) :
    onward? st (p.followFrom st st.variableCount) = none := by
  refine exists_end_of_visited List.nodup_nil (List.nil_subset _) ?_ (fun _ _ _ _ hmem => nomatch hmem) hring
  rw [Store.length_keys, List.length_nil, Nat.zero_add]

/-- **Opening ends exactly without a ring**, -/
theorem exists_unfolds_iff (st : Store) (p : Pointer) : (∃ r st', Unfolds st p r st') ↔ ¬ LeadsIntoRing st p := by
  refine ⟨fun ⟨_, _, h⟩ => not_leadsIntoRing_of_unfolds h, fun hring => ?_⟩
  exact ⟨_, _, unfolds_of_end (end_of_not_leadsIntoRing hring)⟩

/-- and where it ends is what is opened. -/
theorem Unfolds.runOn_opened (h : Unfolds st p r st') : p.opened.runOn st = (.ok r, st') := by
  obtain ⟨n, hend, hlanding⟩ := h.exists_end
  have hends := end_of_not_leadsIntoRing (not_leadsIntoRing_of_unfolds h)
  have hfollow : p.follow st = p.followFrom st n := by
    have hle : st.variableCount ≤ patience st + 1 := by
      have : st.variableCount ≤ patience st := Nat.le_add_left _ _
      omega
    rw [follow, followFrom_of_le hends hle]
    rcases Nat.le_total n st.variableCount with hn | hn
    · exact followFrom_of_le hend hn
    · exact (followFrom_of_le hends hn).symm
  rw [Pointer.runOn_opened, hfollow, ← hlanding]

end Pointer

/-! ## §D  Changes -/

namespace Store

variable {st st' : Store} {s : ScopeId} {name : String} {d : Datum} {key : Key} {p q : Pointer}

open Pointer (Leads LeadsIntoRing onward? key_of_onward)

/-- **RingFree** says that no opening comes into a ring. -/
def RingFree (st : Store) : Prop := ∀ p, ¬ LeadsIntoRing st p

theorem onward_of_held (hheld : st.held? key = st'.held? key) (hkey : p.key? = some key) (hp : onward? st p = some q) :
    onward? st' p = some q := by
  obtain ⟨key', hkey', hheld', hother⟩ := key_of_onward hp
  obtain rfl := Option.some.inj (hkey.symm.trans hkey')
  rw [hheld] at hheld'
  refine Pointer.onward?_eq_some_iff.mpr ⟨Pointer.opening_onto_iff.mpr ⟨key, hkey, hheld'⟩, ?_⟩
  exact Bool.eq_false_of_not_eq_true fun hback => hother ((Pointer.beq_iff_key? hkey).mp hback)

/-- Where less is held, opening goes no further, -/
theorem leads_of_held (hheld : ∀ key slot, st'.held? key = some slot → st.held? key = some slot) (h : Leads st' p q) :
    Leads st p q := by
  induction h with
  | refl p => exact .refl p
  | turn hp _ ih =>
    obtain ⟨key, hkey, hslot, -⟩ := key_of_onward hp
    exact .turn (onward_of_held (hslot.trans (hheld key _ hslot).symm) hkey hp) ih

/-- and there are no more rings. -/
theorem RingFree.of_held (h : st.RingFree) (hheld : ∀ key slot, st'.held? key = some slot → st.held? key = some slot) :
    st'.RingFree := by
  rintro p ⟨q, r, back, hlead, hq, hback, hsame⟩
  obtain ⟨key, hkey, hslot, -⟩ := key_of_onward hq
  exact h p ⟨q, r, back, leads_of_held hheld hlead, onward_of_held (hslot.trans (hheld key _ hslot).symm) hkey hq,
    leads_of_held hheld hback, hsame⟩

theorem held?_setScope (st : Store) (s : ScopeId) (vs : Variables) (key : Key) :
    (st.setScope s vs).held? key = if key.1 = s ∧ s < st.scopes.size then vs.get? key.2 else st.held? key := by
  by_cases hs : s < st.scopes.size
  · rw [held?, scope_setScope hs]
    by_cases hscope : s = key.1
    · rw [if_pos hscope, if_pos ⟨hscope.symm, hs⟩]
    · rw [if_neg hscope, if_neg fun h => hscope h.1.symm, held?]
  · have hsame : st.setScope s vs = st := by
      rw [setScope, Array.setIfInBounds_eq_of_size_le (Nat.le_of_not_lt hs)]
    rw [hsame, if_neg fun h => hs h.2]

/-- A set of variables that is not there holds none. -/
theorem held?_eq_none (hs : ¬ key.1 < st.scopes.size) : st.held? key = none := by
  simp [held?, scope, hs, Variables.get?]

/-- A declaration leaves all other variables as they are. -/
theorem held?_declare_of_ne (d : Datum) (hkey : key ≠ (s, name)) : (st.declare s name d).held? key = st.held? key := by
  have hset : ∀ (st : Store) (slot : Slot),
      (st.setScope s ((st.scope s).set name slot)).held? key = st.held? key := by
    intro st slot
    rw [held?_setScope]
    split
    · rename_i h
      rw [Variables.get?_set, if_neg fun hname => hkey (Prod.ext h.1 hname.symm), held?, h.1]
    · rfl
  cases d with
  | object j => exact hset (st.addDocument j).1 _
  | _ => exact hset st _

/-- A variable that has been declared holds no node but the one that it was given. -/
theorem eq_of_held?_declare (hheld : (st.declare s name d).held? (s, name) = some (.value (.pointer q))) :
    d = .pointer q := by
  have hset : ∀ (st : Store) (slot : Slot),
      (st.setScope s ((st.scope s).set name slot)).held? (s, name) = some (.value (.pointer q)) →
        slot = .value (.pointer q) := by
    intro st slot hheld
    rw [held?_setScope] at hheld
    split at hheld
    · rw [Variables.get?_set, if_pos rfl] at hheld
      exact Option.some.inj hheld
    · rename_i hs
      rw [held?_eq_none fun hlt => hs ⟨rfl, hlt⟩] at hheld
      cases hheld
  cases d with
  | object j => cases hset (st.addDocument j).1 _ hheld
  | pointer r => cases hset st _ hheld; rfl
  | _ => cases hset st _ hheld

/-- **LeadsTo** says that opening a node comes to a variable. -/
def LeadsTo (st : Store) (q : Pointer) (key : Key) : Prop := ∃ w, Leads st q w ∧ w.key? = some key

/-- What opening comes to after a declaration it came to before, unless it comes to the declared variable. -/
theorem leads_declare {x y : Pointer} (h : Leads (st.declare s name d) x y) :
    Leads st x y ∨ ∃ w q, Leads st x w ∧ Leads (st.declare s name d) x w ∧ w.key? = some (s, name) ∧
      onward? (st.declare s name d) w = some q ∧ Leads (st.declare s name d) q y := by
  induction h with
  | refl x => exact .inl (.refl x)
  | @turn x z y hx hz ih =>
    obtain ⟨key, hkey, hheld, -⟩ := key_of_onward hx
    by_cases hdeclared : key = (s, name)
    · exact .inr ⟨x, z, .refl x, .refl x, hdeclared ▸ hkey, hx, hz⟩
    · have hold : onward? st x = some z := onward_of_held (held?_declare_of_ne d hdeclared) hkey hx
      rcases ih with hlead | ⟨w, q, hlead, hlead', hw, hq, hy⟩
      · exact .inl (.turn hold hlead)
      · exact .inr ⟨w, q, .turn hold hlead, .turn hx hlead', hw, hq, hy⟩

/-- **A declaration makes no ring** if the variable is given no node that leads to it, unless it is the variable. -/
theorem RingFree.declare (h : st.RingFree)
    (hout : ∀ q, d = .pointer q → st.LeadsTo q (s, name) → q.key? = some (s, name)) :
    (st.declare s name d).RingFree := by
  -- Behind the variable, opening does not come to it again.
  have haway : ∀ w q, w.key? = some (s, name) → onward? (st.declare s name d) w = some q →
      ¬ (st.declare s name d).LeadsTo q (s, name) := by
    rintro w q hw hq ⟨back, hlead, hback⟩
    obtain ⟨key, hkey, hheld, hother⟩ := key_of_onward hq
    obtain rfl := Option.some.inj (hw.symm.trans hkey)
    refine hother (hout q (eq_of_held?_declare hheld) ?_)
    rcases leads_declare hlead with hlead | ⟨w', -, hlead, -, hw', -⟩
    · exact ⟨back, hlead, hback⟩
    · exact ⟨w', hlead, hw'⟩
  rintro p ⟨q, r, back, -, hq, hback, hsame⟩
  obtain ⟨key, hkey, hheld, -⟩ := key_of_onward hq
  have hback' := (Pointer.beq_iff_key? hkey).mp hsame
  by_cases hdeclared : key = (s, name)
  · subst hdeclared
    exact haway q r hkey hq ⟨back, hback, hback'⟩
  · rcases leads_declare hback with hlead | ⟨w, z, -, hw, hwkey, hz, hback⟩
    · exact h q ⟨q, r, back, .refl q, onward_of_held (held?_declare_of_ne d hdeclared) hkey hq, hlead, hsame⟩
    · -- The ring goes through the variable, and from behind it comes back to it.
      refine haway w z hwkey hz ⟨w, hback.trans (.turn (Pointer.onward_congr hq hsame) hw), hwkey⟩

theorem RingFree.undeclare (h : st.RingFree) (s : ScopeId) (name : String) : (st.undeclare s name).1.RingFree := by
  refine h.of_held fun key slot hheld => ?_
  rw [Store.undeclare, held?_setScope] at hheld
  split at hheld
  · rename_i hkey
    rw [Variables.get?_erase] at hheld
    split at hheld
    · cases hheld
    · rwa [held?, hkey.1]
  · exact hheld

theorem RingFree.addScope (h : st.RingFree) : st.addScope.1.RingFree := by
  refine h.of_held fun key slot hheld => ?_
  have hscope : st.addScope.1.scope key.1 = st.scope key.1 := by
    by_cases hkey : key.1 = st.scopes.size
    · simp [scope, Store.addScope, hkey]
    · simp [scope, Store.addScope, Array.getElem?_push, hkey]
  rwa [held?, hscope] at hheld

theorem RingFree.compiled (h : st.RingFree) (text : String) : (st.compiled text).RingFree :=
  h.of_held fun _ _ hheld => hheld

end Store

/-! ## §E  Requests -/

namespace ContextTree

variable {host : Host} {t : ContextTree} {r : VariableRequest} {h : History}

/-- The variable that a request gives a value. -/
def target? (t : ContextTree) (r : VariableRequest) : Option Key :=
  match t.contexts[r.asked]?, r.action with
  | some c, .declare x _ => some (c.own.scope, x)
  | some c, .assign x _ => (c.variableRef t.store x).scope.map (·, x.written)
  | _, _ => none

/-- **LeadsOut** says that a request gives no variable a node that leads to it, unless it is the variable. -/
def LeadsOut (t : ContextTree) (r : VariableRequest) : Prop :=
  ∀ key q, t.target? r = some key → r.action.datum? = some (.pointer q) → t.store.LeadsTo q key → q.key? = some key

/-- Each of the requests leads out of what those before it left. -/
def AllLeadOut (host : Host) (t : ContextTree) : History → Prop
  | [] => True
  | r :: h => AllLeadOut host t h ∧ (t.after host h).LeadsOut r

/-- **A request makes no ring** if it leads out. -/
theorem ringFree_perform (hsound : t.store.engine.Sound) (hfree : t.store.RingFree) (hproper : r.action.IsProper)
    (hout : t.LeadsOut r) : (t.perform host r).2.store.RingFree := by
  obtain ⟨asked, action⟩ := r
  rw [perform]
  cases hc : t.contexts[asked]? with
  | none => exact hfree
  | some c =>
    cases action with
    | relative p => exact hfree.addScope
    | copy => exact hfree
    | adjust f => exact hfree
    | declare x d =>
      exact hfree.declare fun q hq => hout (c.own.scope, x) q (by rw [target?, hc]) (congrArg some hq)
    | undeclare x => exact hfree.undeclare c.own.scope x
    | assign x d =>
      have hrun := c.runOn_setValue_variableText host hsound hproper d
      have hcompiled := hfree.compiled x.variableText
      cases hscope : (c.variableRef (t.store.compiled x.variableText) x).scope with
      | none =>
        rw [hscope] at hrun
        dsimp only
        rw [act, run_of_error hrun]
        exact hcompiled
      | some s =>
        rw [hscope] at hrun
        dsimp only
        rw [act, run_of_ok hrun]
        -- An assignment declares the variable anew where it is found, so it leads where the request said.
        refine hcompiled.declare fun q hq hleads => hout (s, x.written) q ?_ (congrArg some hq) ?_
        · have hscope' : (c.variableRef t.store x).scope = some s := hscope
          rw [target?, hc]
          dsimp only
          rw [hscope', Option.map_some]
        · obtain ⟨w, hlead, hw⟩ := hleads
          have hheld : ∀ key slot, (t.store.compiled x.variableText).held? key = some slot →
              t.store.held? key = some slot := fun _ _ h => h
          exact ⟨w, Store.leads_of_held hheld hlead, hw⟩
    | read x =>
      have hstore := c.store_getValue_variableText host hsound hproper
      show ((c.getValue host x.variableText).runOn t.store).2.RingFree
      rw [hstore]
      exact hfree.compiled x.variableText

theorem ringFree_after {st : Store} (hsound : st.engine.Sound) (hfree : st.RingFree) (root : Pointer)
    (hproper : ∀ r ∈ h, r.action.IsProper) (hout : AllLeadOut host (atRoot st root) h) :
    ((atRoot st root).after host h).store.RingFree := by
  induction h with
  | nil => exact hfree.addScope
  | cons r h ih =>
    have hproper' : ∀ r' ∈ h, r'.action.IsProper := fun r' hr' => hproper r' (List.mem_cons_of_mem _ hr')
    exact ringFree_perform (follows_after hsound root hproper').sound (ih hproper' hout.1)
      (hproper r List.mem_cons_self) hout.2

end ContextTree

open Pointer (Unfolds LeadsIntoRing)

/-- **Opening ends where no ring is.** In a store in which there is none, requests to declare variables and to give them
values, be it nodes, leave none, as long as no variable is given a node that leads to it already, unless it is the
variable itself; so the opening of every node ends, and what it ends at is what is opened. In any store, the opening
of a node ends exactly if it does not come into a ring. -/
theorem opening_ends {host : Host} {st : Store} {root : Pointer} {h : History} (hsound : st.engine.Sound)
    (hfree : st.RingFree) (hproper : ∀ r ∈ h, r.action.IsProper)
    (hout : ContextTree.AllLeadOut host (.atRoot st root) h) :
    (∀ p : Pointer, ∃ q st', Unfolds ((ContextTree.atRoot st root).after host h).store p q st' ∧
        p.opened.runOn ((ContextTree.atRoot st root).after host h).store = (.ok q, st')) ∧
      ∀ (st : Store) (p : Pointer), (∃ q st', Unfolds st p q st') ↔ ¬ LeadsIntoRing st p := by
  refine ⟨fun p => ?_, Pointer.exists_unfolds_iff⟩
  have hfree' := ContextTree.ringFree_after hsound hfree root hproper hout
  obtain ⟨q, st', hunfolds⟩ := (Pointer.exists_unfolds_iff _ p).mpr (hfree' p)
  exact ⟨q, st', hunfolds, hunfolds.runOn_opened⟩

/-- Variables of the first context that is made in a store with one set of variables. -/
def Pointer.ofVariable (name : String) : Pointer := .var ⟨.plain name, some 1⟩

/-- Two variables are declared; then one is given the other as a node, and the other itself. -/
def selfHistory : History :=
  [⟨0, .declare "x" (.pointer (.ofVariable "x"))⟩, ⟨0, .declare "y" (.pointer (.ofVariable "x"))⟩,
    ⟨0, .declare "y" (.number 2)⟩, ⟨0, .declare "x" (.number 1)⟩]

theorem ringFree_holding (j : Json) : (Store.holding j).RingFree := by
  rintro p ⟨q, r, -, -, hq, -⟩
  obtain ⟨⟨s, name⟩, -, hheld, -⟩ := Pointer.key_of_onward hq
  cases s <;> cases hheld

/-- The tree that these leave. -/
def selfTree : ContextTree := (ContextTree.atRoot (.holding .null) .firstTop).after stockHost selfHistory

/-- Opening the one leads to the other, and ends there. -/
theorem opening_ends_self :
    ∃ q st', Unfolds selfTree.store (.ofVariable "y") q st' ∧ q.pathText selfTree.store = "$x" := by
  have hproper : ∀ r ∈ selfHistory, r.action.IsProper := by
    simp only [selfHistory, List.forall_mem_cons]
    exact ⟨trivial, trivial, trivial, trivial, fun _ h => nomatch h⟩
  have hout : ContextTree.AllLeadOut stockHost (.atRoot (.holding .null) .firstTop) selfHistory := by
    refine ⟨⟨⟨⟨trivial, ?_⟩, ?_⟩, ?_⟩, ?_⟩
    · rintro key q - ⟨⟩
    · rintro key q - ⟨⟩
    · rintro key q ⟨⟩ ⟨⟩ ⟨w, hlead, hw⟩
      cases hlead with
      | refl => exact absurd hw (by decide)
      | turn hq _ => cases hq
    · rintro key q ⟨⟩ ⟨⟩ -
      rfl
  have hsound : (Store.holding .null).engine.Sound := fun _ he => nomatch he
  obtain ⟨q, st', hunfolds, hrun⟩ := (opening_ends hsound (ringFree_holding .null) hproper hout).1 (.ofVariable "y")
  refine ⟨q, st', hunfolds, ?_⟩
  have hpath : ((Pointer.ofVariable "y").opened.runOn selfTree.store).1.toOption.map (·.pathText selfTree.store) =
      some "$x" := by decide +kernel
  rw [selfTree] at hpath
  rw [hrun] at hpath
  exact Option.some.inj hpath

theorem Context.runOn_getPointer_variableText (c : Context) (host : Host) {st : Store} {name : QName}
    (hsound : st.engine.Sound) (hname : name.WellFormed) (hdeclared : (c.variableRef st name).scope.isSome = true) :
    ((c.getPointer host name.variableText).runOn st).1 = .ok (some (.var (c.variableRef st name))) := by
  have hactual : (Pointer.var (c.variableRef (st.compiled name.variableText) name)).isActual
      (st.compiled name.variableText) = true := (c.isActual_variableRef _ name).trans hdeclared
  rw [getPointer, Reading.runOn_withText hsound hname.parse_variableText, Setting.runOn_readPointer_var]
  show Except.mapError _ (if (Pointer.var (c.variableRef (st.compiled name.variableText) name)).isActual
    (st.compiled name.variableText) || _ then _ else _) = _
  rw [hactual]
  rfl

/-- Two variables have been declared. -/
def pairTree : ContextTree :=
  (ContextTree.atRoot (.holding .null) .firstTop).after stockHost
    [⟨0, .declare "y" (.number 2)⟩, ⟨0, .declare "x" (.number 1)⟩]

/-- The context of that tree. -/
def pairContext : Context := ⟨Context.freshLayer .firstTop .firstTop 1, []⟩

theorem pairTree_sound : pairTree.store.engine.Sound := by
  have hsound : (Store.holding .null).engine.Sound := fun _ he => nomatch he
  refine (ContextTree.follows_after hsound .firstTop ?_).sound
  simp only [List.forall_mem_cons]
  exact ⟨trivial, trivial, fun _ h => nomatch h⟩

theorem runOn_getPointer_pairTree {name : String} (hname : IsNcName name)
    (hdeclared : (pairContext.variableRef pairTree.store (.plain name)).scope = some 1) :
    ((pairContext.getPointer stockHost (QName.plain name).variableText).runOn pairTree.store).1 =
      .ok (some (.ofVariable name)) := by
  have hwellFormed : (QName.plain name).WellFormed := ⟨fun _ h => (nomatch h), hname⟩
  rw [Context.runOn_getPointer_variableText _ _ pairTree_sound hwellFormed (by rw [hdeclared]; rfl)]
  have hvariable : pairContext.variableRef pairTree.store (.plain name) = ⟨.plain name, some 1⟩ :=
    congrArg (VarRef.mk (.plain name)) hdeclared
  rw [hvariable]
  rfl

/-- **A ring is made by two declarations.** Each of two variables is given the node that the other one's text reads, and
opening them does not end. -/
theorem opening_never_ends :
    pairTree.contexts[0]? = some pairContext ∧ ∃ x y : Pointer,
      ((pairContext.getPointer stockHost "$x").runOn pairTree.store).1 = .ok (some x) ∧
        ((pairContext.getPointer stockHost "$y").runOn pairTree.store).1 = .ok (some y) ∧
        ¬ ∃ q st', Unfolds (pairTree.after stockHost
          [⟨0, .declare "y" (.pointer x)⟩, ⟨0, .declare "x" (.pointer y)⟩]).store x q st' := by
  have hx : (QName.plain "x").variableText = "$x" := by decide +kernel
  have hy : (QName.plain "y").variableText = "$y" := by decide +kernel
  rw [← hx, ← hy]
  refine ⟨rfl, .ofVariable "x", .ofVariable "y", ?_, ?_, ?_⟩
  · exact runOn_getPointer_pairTree isNcName_x (by decide +kernel)
  · exact runOn_getPointer_pairTree ⟨'y', [], rfl, by decide, fun _ h => nomatch h⟩ (by decide +kernel)
  · rw [Pointer.exists_unfolds_iff, not_not]
    exact ⟨.ofVariable "x", .ofVariable "y", .ofVariable "x", .refl _, by rfl, .turn (by rfl) (.refl _), by decide⟩

end NodePath
