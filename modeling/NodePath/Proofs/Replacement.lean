/-
# NodePath.Proofs.Replacement — putting a part in the place of another

What is put at a place is there afterwards; what is put there later takes its place; and a change further down is a
change of the part that it is made in. From these three facts everything follows that is proved of several changes one
after the other.

* §A  Members.
* §B  One step down.
* §C  Places.
* §D  What replacement keeps.
-/
import NodePath.Proofs.Pruning

namespace NodePath.Json

variable {ms : Members} {key : String} {j j' old new v w : Json} {s : Segment} {path more : List Segment}

/-! ## §A  Members -/

theorem Members.get?_set (ms : Members) (key : String) (v : Json) : Members.get? (Members.set key v ms) key = some v := by
  induction ms with
  | nil => simp [Members.set, Members.get?_cons]
  | cons m ms ih =>
    rw [Members.set]
    cases hkey : m.1 == key with
    | true => rw [if_pos rfl, Members.get?_cons, if_pos (beq_self_eq_true key)]
    | false => rw [if_neg Bool.false_ne_true, Members.get?_cons, hkey, if_neg Bool.false_ne_true, ih]

/-- The value that is given last is the one that stays. -/
theorem Members.set_set (ms : Members) (key : String) (v w : Json) :
    Members.set key w (Members.set key v ms) = Members.set key w ms := by
  induction ms with
  | nil => simp [Members.set]
  | cons m ms ih =>
    cases hkey : m.1 == key with
    | true => simp [Members.set, hkey]
    | false => simp [Members.set, hkey, ih]

/-- A member that is given the value that it has. -/
theorem Members.set_of_get? (h : Members.get? ms key = some v) : Members.set key v ms = ms := by
  induction ms with
  | nil => cases h
  | cons m ms ih =>
    rw [Members.get?_cons] at h
    rw [Members.set]
    cases hkey : m.1 == key with
    | true =>
      rw [hkey, if_pos rfl] at h
      rw [if_pos rfl, ← beq_iff_eq.mp hkey, ← Option.some.inj h]
    | false =>
      rw [hkey, if_neg Bool.false_ne_true] at h
      rw [if_neg Bool.false_ne_true, ih h]

/-- Which keys there are does not depend on the value that one of them is given. -/
theorem Members.keys_set (h : (Members.get? ms key).isSome) (v : Json) :
    (Members.set key v ms).map (·.1) = ms.map (·.1) := by
  induction ms with
  | nil => cases h
  | cons m ms ih =>
    rw [Members.get?_cons] at h
    rw [Members.set]
    cases hkey : m.1 == key with
    | true => rw [if_pos rfl, List.map_cons, List.map_cons, beq_iff_eq.mp hkey]
    | false =>
      rw [hkey, if_neg Bool.false_ne_true] at h
      rw [if_neg Bool.false_ne_true, List.map_cons, List.map_cons, ih h]

theorem Members.mem_set {m : String × Json} (h : m ∈ Members.set key v ms) : m = (key, v) ∨ m ∈ ms := by
  induction ms with
  | nil => exact .inl (List.mem_singleton.mp h)
  | cons m' ms ih =>
    rw [Members.set] at h
    split at h
    · exact (List.mem_cons.mp h).imp_right (List.mem_cons_of_mem _)
    · rcases List.mem_cons.mp h with rfl | h
      · exact .inr List.mem_cons_self
      · exact (ih h).imp_right (List.mem_cons_of_mem _)

/-! ## §B  One step down -/

/-- Something can be put where something is. -/
theorem setChild?_of_child? (h : j.child? s = some old) (new : Json) : ∃ j', j.setChild? s new = some j' := by
  cases j with
  | object ms =>
    cases s with
    | index i => cases h
    | key k =>
      have hget : Members.get? ms k = some old := h
      exact ⟨_, by rw [setChild?, hget, Option.isSome_some, if_pos rfl]⟩
  | array items =>
    cases s with
    | key k => cases h
    | index i => exact ⟨_, if_pos (List.getElem?_eq_some_iff.mp h).1⟩
  | _ => cases s <;> cases h

/-- What was put there is there, and is what gives way to the next. -/
theorem setChild?_spec (h : j.setChild? s v = some j') :
    j'.child? s = some v ∧ j'.isArray = j.isArray ∧ ∀ w, j'.setChild? s w = j.setChild? s w := by
  cases j with
  | object ms =>
    cases s with
    | index i => cases h
    | key k =>
      rw [setChild?] at h
      split at h
      · rename_i hsome
        cases h
        refine ⟨Members.get?_set ms k v, rfl, fun w => ?_⟩
        rw [setChild?, setChild?, Members.get?_set, if_pos hsome, Option.isSome_some, if_pos rfl, Members.set_set]
      · cases h
  | array items =>
    cases s with
    | key k => cases h
    | index i =>
      rw [setChild?] at h
      split at h
      · rename_i hi
        cases h
        refine ⟨by simp [child?, hi], rfl, fun w => ?_⟩
        simp [setChild?, hi]
      · cases h
  | _ => cases s <;> cases h

theorem setChild?_self (h : j.child? s = some v) : j.setChild? s v = some j := by
  cases j with
  | object ms =>
    cases s with
    | index i => cases h
    | key k =>
      have hget : Members.get? ms k = some v := h
      rw [setChild?, hget, Option.isSome_some, if_pos rfl, Members.set_of_get? hget]
  | array items =>
    cases s with
    | key k => cases h
    | index i =>
      obtain ⟨hi, rfl⟩ := List.getElem?_eq_some_iff.mp h
      rw [setChild?, if_pos hi, List.set_getElem_self]
  | _ => cases s <;> cases h

/-! ## §C  Places -/

theorem replace?_cons (new : Json) (s : Segment) (path : List Segment) (j : Json) :
    replace? new (s :: path) j = (j.child? s).bind fun c => (replace? new path c).bind (j.setChild? s) := by
  rw [replace?]
  cases j.child? s <;> rfl

/-- A part can be put where there is one. -/
theorem replace?_of_at? (h : j.at? path = some old) (new : Json) : ∃ j', replace? new path j = some j' := by
  induction path generalizing j with
  | nil => exact ⟨new, rfl⟩
  | cons s path ih =>
    obtain ⟨c, hc, hold⟩ := Option.bind_eq_some_iff.mp h
    obtain ⟨c', hc'⟩ := ih hold
    obtain ⟨j', hj'⟩ := setChild?_of_child? hc c'
    exact ⟨j', by rw [replace?_cons, hc, Option.bind_some, hc', Option.bind_some, hj']⟩

/-- **What is put at a place** is there, -/
theorem at?_replace? (h : replace? new path j = some j') : j'.at? path = some new := by
  induction path generalizing j j' with
  | nil => exact h.symm
  | cons s path ih =>
    rw [replace?_cons] at h
    obtain ⟨c, -, h⟩ := Option.bind_eq_some_iff.mp h
    obtain ⟨c', hc', hset⟩ := Option.bind_eq_some_iff.mp h
    rw [at?, (setChild?_spec hset).1, Option.bind_some, ih hc']

/-- and gives way to what is put there next. -/
theorem replace?_replace? (h : replace? v path j = some j') (w : Json) : replace? w path j' = replace? w path j := by
  induction path generalizing j j' with
  | nil => rfl
  | cons s path ih =>
    rw [replace?_cons] at h
    obtain ⟨c, hc, h⟩ := Option.bind_eq_some_iff.mp h
    obtain ⟨c', hc', hset⟩ := Option.bind_eq_some_iff.mp h
    obtain ⟨hchild, -, hagain⟩ := setChild?_spec hset
    rw [replace?_cons, replace?_cons, hchild, hc, Option.bind_some, Option.bind_some, ih hc', funext hagain]

/-- **A change further down** is a change of the part that it is made in. -/
theorem replace?_append (new : Json) (path more : List Segment) (j : Json) :
    replace? new (path ++ more) j =
      (j.at? path).bind fun part => (replace? new more part).bind fun part' => replace? part' path j := by
  induction path generalizing j with
  | nil =>
    rw [List.nil_append, at?, Option.bind_some]
    exact (Option.bind_fun_some _).symm
  | cons s path ih =>
    rw [List.cons_append, replace?_cons, at?]
    cases hc : j.child? s with
    | none => rfl
    | some c =>
      rw [Option.bind_some, Option.bind_some, ih c]
      cases c.at? path with
      | none => rfl
      | some part =>
        rw [Option.bind_some, Option.bind_some]
        cases replace? new more part with
        | none => rfl
        | some part' =>
          rw [Option.bind_some, Option.bind_some, replace?_cons, hc, Option.bind_some]

/-- A part that is put where it is changes nothing. -/
theorem replace?_self (h : j.at? path = some v) : replace? v path j = some j := by
  induction path generalizing j with
  | nil => exact h.symm
  | cons s path ih =>
    obtain ⟨c, hc, hv⟩ := Option.bind_eq_some_iff.mp h
    rw [replace?_cons, hc, Option.bind_some, ih hv, Option.bind_some, setChild?_self hc]

/-! ## §D  What stays -/

variable {holds : Members → Bool}

theorem everyObject_setChild? (hkeys : ∀ {ms ms' : Members}, ms'.map (·.1) = ms.map (·.1) → holds ms' = holds ms)
    (hj : j.everyObject holds = true) (hv : v.everyObject holds = true) (h : j.setChild? s v = some j') :
    j'.everyObject holds = true := by
  cases j with
  | object ms =>
    cases s with
    | index i => cases h
    | key k =>
      rw [setChild?] at h
      split at h
      · rename_i hsome
        cases h
        obtain ⟨hms, hvalues⟩ := everyObject_object.mp hj
        refine everyObject_object.mpr ⟨(hkeys (Members.keys_set hsome v)).trans hms, fun m hm => ?_⟩
        rcases Members.mem_set hm with rfl | hm
        · exact hv
        · exact hvalues m hm
      · cases h
  | array items =>
    cases s with
    | key k => cases h
    | index i =>
      rw [setChild?] at h
      split at h
      · cases h
        refine everyObject_array.mpr fun c hc => ?_
        rcases List.mem_or_eq_of_mem_set hc with hc | rfl
        · exact everyObject_array.mp hj c hc
        · exact hv
      · cases h
  | _ => cases s <;> cases h

/-- **What is said of the keys of every object** holds still, when it does in what is put there. -/
theorem everyObject_replace? (hkeys : ∀ {ms ms' : Members}, ms'.map (·.1) = ms.map (·.1) → holds ms' = holds ms)
    (hj : j.everyObject holds = true) (hnew : new.everyObject holds = true) (h : replace? new path j = some j') :
    j'.everyObject holds = true := by
  induction path generalizing j j' with
  | nil => exact Option.some.inj h ▸ hnew
  | cons s path ih =>
    rw [replace?_cons] at h
    obtain ⟨c, hc, h⟩ := Option.bind_eq_some_iff.mp h
    obtain ⟨c', hc', hset⟩ := Option.bind_eq_some_iff.mp h
    exact everyObject_setChild? hkeys hj (ih (everyObject_child? hj hc) hc') hset

/-- **Keys stay apart** when those of what is put there are apart. -/
theorem keysApart_replace? (hj : j.keysApart = true) (hnew : new.keysApart = true)
    (h : replace? new path j = some j') : j'.keysApart = true := by
  rw [keysApart_eq] at hj hnew ⊢
  exact everyObject_replace? (fun hkeys => by rw [hkeys]) hj hnew h

end NodePath.Json
