/-
# NodePath.Proofs.Edits — edits of a document are local

A value that is put at a place is found there, a part that is taken out is gone, and what lies elsewhere is found where
it was. Taking an element out of an array has one more effect, and no other: the later elements of that array are found
one index lower. An edit that fails changes nothing, and it fails only where nothing is at the place, or where the whole
document was to be taken out.

Two places of which neither lies at or above the other part ways at one part of the document, and an edit below that part
is a change of one thing in it. So everything here is proved of one step down; on the way there nothing has to be
said.

* §A  `Apart`: places that part ways.
* §B  One step down.
* §C  `Overwritten`: another value at a place.
* §D  `TakenOut`: one part less.
* §E  Edits through a pointer.
-/
import NodePath.Proofs.Removal
import NodePath.Proofs.Replacement

namespace NodePath

variable {path q : List Segment}

/-! ## §A  Places that part ways -/

/-- **Apart** says that a place is neither at, nor below, nor above another one. -/
def Apart (path q : List Segment) : Prop := ¬path <+: q ∧ ¬q <+: path

instance : Decidable (Apart path q) := inferInstanceAs (Decidable (_ ∧ _))

/-- Places that are apart have a last part in common, and go on from there by different steps. -/
theorem Apart.fork (h : Apart path q) :
    ∃ front s t more more', path = front ++ s :: more ∧ q = front ++ t :: more' ∧ t ≠ s := by
  induction path generalizing q with
  | nil => exact absurd List.nil_prefix h.1
  | cons s path ih =>
    cases q with
    | nil => exact absurd List.nil_prefix h.2
    | cons t q =>
      by_cases hst : t = s
      · subst hst
        have hrest : Apart path q :=
          ⟨fun hp => h.1 (List.cons_prefix_cons.mpr ⟨rfl, hp⟩), fun hp => h.2 (List.cons_prefix_cons.mpr ⟨rfl, hp⟩)⟩
        obtain ⟨front, s', t', more, more', rfl, rfl, hne⟩ := ih hrest
        exact ⟨t :: front, s', t', more, more', rfl, rfl, hne⟩
      · exact ⟨[], s, t, path, q, rfl, rfl, hst⟩

namespace Json

variable {ms : Members} {key k : String} {j j' root left new part part' v : Json} {s t : Segment} {front more : List Segment}

/-- The keys of an object, in their order. -/
def keys? : Json → Option (List String)
  | object ms => some (ms.map (·.1))
  | _ => none

/-- **keysAt?** are the keys of the object at a place, in their order. -/
def keysAt? (root : Json) (path : List Segment) : Option (List String) := (root.at? path).bind keys?

/-! ## §B  One step down -/

theorem Members.get?_set_of_ne (hne : k ≠ key) (v : Json) : Members.get? (Members.set key v ms) k = Members.get? ms k := by
  have hskip : (key == k) = false := beq_eq_false_iff_ne.mpr hne.symm
  induction ms with
  | nil => simp [Members.set, Members.get?_cons, hskip]
  | cons m ms ih =>
    rw [Members.set]
    cases hkey : m.1 == key with
    | true =>
      obtain rfl : m.1 = key := beq_iff_eq.mp hkey
      simp [Members.get?_cons, hskip]
    | false => simp [Members.get?_cons, ih]

/-- A member is taken out where it stands. -/
theorem Members.erase_eq_eraseP (key : String) (ms : Members) : Members.erase key ms = ms.eraseP (·.1 == key) := by
  induction ms with
  | nil => rfl
  | cons m ms ih =>
    rw [Members.erase, List.eraseP_cons, ih]
    cases m.1 == key <;> rfl

theorem Members.get?_eraseP_of_ne (hne : k ≠ key) : Members.get? (ms.eraseP (·.1 == key)) k = Members.get? ms k := by
  have hskip : (key == k) = false := beq_eq_false_iff_ne.mpr hne.symm
  induction ms with
  | nil => rfl
  | cons m ms ih =>
    rw [List.eraseP_cons]
    cases hkey : m.1 == key with
    | true =>
      obtain rfl : m.1 = key := beq_iff_eq.mp hkey
      simp [Members.get?_cons, hskip]
    | false => simp [Members.get?_cons, ih]

/-- Where keys are apart, there is no second member of the name. -/
theorem Members.get?_eraseP_self (hkeys : (ms.map (·.1)).Nodup) : Members.get? (ms.eraseP (·.1 == key)) key = none := by
  induction ms with
  | nil => rfl
  | cons m ms ih =>
    obtain ⟨hnew, hkeys⟩ := List.nodup_cons.mp hkeys
    rw [List.eraseP_cons]
    cases hkey : m.1 == key with
    | true =>
      obtain rfl : m.1 = key := beq_iff_eq.mp hkey
      cases hfound : Members.get? ms m.1 with
      | none => simp [hfound]
      | some c => exact absurd (List.mem_map_of_mem (Members.mem_of_get? hfound)) hnew
    | false => simp [Members.get?_cons, hkey, ih hkeys]

/-- **What taking out one step down can do.** -/
theorem eraseChild?_cases (h : j.eraseChild? s = some j') :
    (∃ k ms, s = .key k ∧ (Members.get? ms k).isSome ∧ j = object ms ∧ j' = object (ms.eraseP (·.1 == k))) ∨
      ∃ i items, s = .index i ∧ i < items.length ∧ j = array items ∧ j' = array (items.eraseIdx i) := by
  cases j with
  | object ms =>
    cases s with
    | index i => cases h
    | key k =>
      rw [eraseChild?, Members.erase_eq_eraseP] at h
      split at h
      · rename_i hsome
        cases h
        exact .inl ⟨k, ms, rfl, hsome, rfl, rfl⟩
      · cases h
  | array items =>
    cases s with
    | key k => cases h
    | index i =>
      rw [eraseChild?] at h
      split at h
      · rename_i hi
        cases h
        exact .inr ⟨i, items, rfl, hi, rfl, rfl⟩
      · cases h
  | _ => cases s <;> cases h

/-- Something can be taken out exactly where something is. -/
theorem isSome_eraseChild? (j : Json) (s : Segment) : (j.eraseChild? s).isSome = (j.child? s).isSome := by
  cases j with
  | object ms =>
    cases s with
    | index i => rfl
    | key k => cases hget : (Members.get? ms k).isSome <;> simp [eraseChild?, child?, hget]
  | array items =>
    cases s with
    | key k => rfl
    | index i => by_cases hi : i < items.length <;> simp [eraseChild?, child?, hi]
  | _ => cases s <;> rfl

/-- **What putting something one step down can do.** -/
theorem setChild?_cases (h : j.setChild? s v = some j') :
    (∃ k ms, s = .key k ∧ (Members.get? ms k).isSome ∧ j = object ms ∧ j' = object (Members.set k v ms)) ∨
      ∃ i items, s = .index i ∧ i < items.length ∧ j = array items ∧ j' = array (items.set i v) := by
  cases j with
  | object ms =>
    cases s with
    | index i => cases h
    | key k =>
      rw [setChild?] at h
      split at h
      · rename_i hsome
        cases h
        exact .inl ⟨k, ms, rfl, hsome, rfl, rfl⟩
      · cases h
  | array items =>
    cases s with
    | key k => cases h
    | index i =>
      rw [setChild?] at h
      split at h
      · rename_i hi
        cases h
        exact .inr ⟨i, items, rfl, hi, rfl, rfl⟩
      · cases h
  | _ => cases s <;> cases h

/-- What another step leads to is not changed by what is put somewhere, -/
theorem child?_setChild?_of_ne (h : j.setChild? s v = some j') (hne : t ≠ s) : j'.child? t = j.child? t := by
  obtain ⟨k, ms, rfl, -, rfl, rfl⟩ | ⟨i, items, rfl, -, rfl, rfl⟩ := setChild?_cases h
  · cases t with
    | key k' => exact Members.get?_set_of_ne (fun he => hne (congrArg Segment.key he)) v
    | index i => rfl
  · cases t with
    | key k => rfl
    | index i' => exact List.getElem?_set_ne fun he => hne (congrArg Segment.index he.symm)

/-- and no key comes or goes. -/
theorem keys?_setChild? (h : j.setChild? s v = some j') : j'.keys? = j.keys? := by
  obtain ⟨k, ms, rfl, hsome, rfl, rfl⟩ | ⟨i, items, rfl, -, rfl, rfl⟩ := setChild?_cases h
  · exact congrArg some (Members.keys_set hsome v)
  · rfl

/-- What another step leads to is not changed by what is taken out, unless it is a later element. -/
theorem child?_eraseChild?_of_ne (h : j.eraseChild? s = some j') (hne : t ≠ s)
    (hlater : ∀ i k, s = .index i → t = .index k → i < k → j.child? t = none) : j'.child? t = j.child? t := by
  obtain ⟨k, ms, rfl, -, rfl, rfl⟩ | ⟨i, items, rfl, -, rfl, rfl⟩ := eraseChild?_cases h
  · cases t with
    | key k' => exact Members.get?_eraseP_of_ne fun he => hne (congrArg Segment.key he)
    | index i => rfl
  · cases t with
    | key k => rfl
    | index i' =>
      rcases Nat.lt_trichotomy i' i with hlt | rfl | hgt
      · exact List.getElem?_eraseIdx_of_lt hlt
      · exact absurd rfl hne
      · -- Behind the end of the array there is nothing, before and after.
        have hnone : items[i']? = none := hlater i i' rfl rfl hgt
        have hlength : items.length ≤ i' := List.getElem?_eq_none_iff.mp hnone
        have hnone' : items[i' + 1]? = none := List.getElem?_eq_none_iff.mpr (Nat.le_succ_of_le hlength)
        exact (List.getElem?_eraseIdx_of_ge hgt.le).trans (hnone'.trans hnone.symm)

/-- What lies below two parts is the same where the steps from them lead to the same. -/
theorem at?_append_congr (hpart : root.at? front = some part) (hpart' : left.at? front = some part')
    (hchild : part'.child? t = part.child? s) : left.at? (front ++ t :: more) = root.at? (front ++ s :: more) := by
  rw [at?_append_of_at? hpart, at?_append_of_at? hpart', at?, at?, hchild]

/-! ## §C  Another value at a place -/

/-- **Overwritten** says that `left` is the document with `new` at a place, and that nothing else is changed. -/
structure Overwritten (root : Json) (path : List Segment) (new left : Json) : Prop where
  /-- There was something at the place. -/
  present : (root.at? path).isSome
  /-- The new value is found there. -/
  here : left.at? path = some new
  /-- Every place that is neither at, below nor above leads to what it led to, or to nothing as before. -/
  elsewhere : ∀ q, Apart path q → left.at? q = root.at? q
  /-- The objects above have the same keys in the same order. -/
  keys : ∀ q s more, path = q ++ s :: more → left.keysAt? q = root.keysAt? q

/-- A change below a part is a change of that part. -/
theorem of_replace?_append (h : replace? new (front ++ more) root = some left) :
    ∃ part part', root.at? front = some part ∧ replace? new more part = some part' ∧ left.at? front = some part' := by
  rw [replace?_append] at h
  obtain ⟨part, hpart, h⟩ := Option.bind_eq_some_iff.mp h
  obtain ⟨part', hmore, hput⟩ := Option.bind_eq_some_iff.mp h
  exact ⟨part, part', hpart, hmore, at?_replace? hput⟩

/-- The part where a changed place goes on is changed one step down. -/
theorem of_replace?_cons (h : replace? new (s :: more) part = some left) : ∃ v, part.setChild? s v = some left := by
  rw [replace?_cons] at h
  obtain ⟨c, -, h⟩ := Option.bind_eq_some_iff.mp h
  obtain ⟨c', -, hset⟩ := Option.bind_eq_some_iff.mp h
  exact ⟨c', hset⟩

/-- **Putting a value at a place is local.** -/
theorem overwritten_of_replace? (h : replace? new path root = some left) : root.Overwritten path new left where
  present := by
    have happend : replace? new (path ++ []) root = some left := by rwa [List.append_nil]
    obtain ⟨part, -, hpart, -⟩ := of_replace?_append happend
    exact Option.isSome_of_eq_some hpart
  here := at?_replace? h
  elsewhere q hq := by
    obtain ⟨front, s, t, more, more', rfl, rfl, hne⟩ := hq.fork
    obtain ⟨part, part', hpart, hmore, hpart'⟩ := of_replace?_append h
    obtain ⟨v, hset⟩ := of_replace?_cons hmore
    exact at?_append_congr hpart hpart' (child?_setChild?_of_ne hset hne)
  keys q s more hpath := by
    subst hpath
    obtain ⟨part, part', hpart, hmore, hpart'⟩ := of_replace?_append h
    obtain ⟨v, hset⟩ := of_replace?_cons hmore
    rw [keysAt?, keysAt?, hpart, hpart', Option.bind_some, Option.bind_some, keys?_setChild? hset]

/-! ## §D  One part less -/

/-- **Behind** says that a place is at or below a later element of the array that has the element at `path`. -/
def Behind (root : Json) (path q : List Segment) : Prop :=
  ∃ above i k more, path = above ++ [.index i] ∧ q = above ++ .index k :: more ∧ i < k ∧
    (root.at? (above ++ [.index k])).isSome

/-- **TakenOut** says that `left` is the document without the part at a place, and that nothing else is changed but what
this brings about. -/
structure TakenOut (root : Json) (path : List Segment) (left : Json) : Prop where
  /-- There was something at the place, and it was not the whole document. -/
  present : path ≠ [] ∧ (root.at? path).isSome
  /-- Every place that is neither at, below nor above, and not at or below a later element of the same array, leads to what
  it led to, or to nothing as before. -/
  elsewhere : ∀ q, Apart path q → ¬root.Behind path q → left.at? q = root.at? q
  /-- Each later element is found one index lower, with all that is below it. -/
  later : ∀ above i k more, path = above ++ [.index i] → i ≤ k →
    left.at? (above ++ .index k :: more) = root.at? (above ++ .index (k + 1) :: more)
  /-- An object loses the one member, and the others stay in their order. -/
  members : ∀ above k, path = above ++ [.key k] → ∃ ms, root.at? above = some (object ms) ∧
    left.at? above = some (object (ms.eraseP (·.1 == k)))
  /-- An array loses the one element, and the others stay in their order. -/
  elements : ∀ above i, path = above ++ [.index i] → ∃ items, root.at? above = some (array items) ∧
    left.at? above = some (array (items.eraseIdx i))
  /-- The objects further up have the same keys in the same order. -/
  keys : ∀ q s t more, path = q ++ s :: t :: more → left.keysAt? q = root.keysAt? q
  /-- Where keys are apart, a member that is taken out is gone. -/
  gone : root.keysApart = true → ∀ above k, path = above ++ [.key k] → left.at? path = none

theorem erase?_cons (hmore : more ≠ []) (s : Segment) (j : Json) :
    j.erase? (s :: more) = (j.child? s).bind fun c => (erase? more c).bind (j.setChild? s) := by
  cases more with
  | nil => exact absurd rfl hmore
  | cons t more =>
    rw [erase?]
    · cases j.child? s <;> rfl
    · intro h
      cases h

/-- **Taking out further down** is a change of the part that something is taken out of. -/
theorem erase?_append (hmore : more ≠ []) (front : List Segment) (j : Json) :
    j.erase? (front ++ more) =
      (j.at? front).bind fun part => (part.erase? more).bind fun part' => replace? part' front j := by
  induction front generalizing j with
  | nil =>
    rw [List.nil_append, at?, Option.bind_some]
    exact (Option.bind_fun_some _).symm
  | cons s front ih =>
    rw [List.cons_append, erase?_cons (List.append_ne_nil_of_right_ne_nil _ hmore), at?]
    cases hc : j.child? s with
    | none => rfl
    | some c =>
      rw [Option.bind_some, Option.bind_some, ih c]
      cases c.at? front with
      | none => rfl
      | some part =>
        rw [Option.bind_some, Option.bind_some]
        cases part.erase? more with
        | none => rfl
        | some part' => rw [Option.bind_some, Option.bind_some, replace?_cons, hc, Option.bind_some]

theorem of_erase?_append (hmore : more ≠ []) (h : root.erase? (front ++ more) = some left) :
    ∃ part part', root.at? front = some part ∧ part.erase? more = some part' ∧ left.at? front = some part' := by
  rw [erase?_append hmore] at h
  obtain ⟨part, hpart, h⟩ := Option.bind_eq_some_iff.mp h
  obtain ⟨part', herase, hput⟩ := Option.bind_eq_some_iff.mp h
  exact ⟨part, part', hpart, herase, at?_replace? hput⟩

/-- Where something is taken out further down, something is put one step down. -/
theorem of_erase?_cons_cons (h : part.erase? (s :: t :: more) = some left) : ∃ v, part.setChild? s v = some left := by
  rw [erase?_cons (List.cons_ne_nil _ _)] at h
  obtain ⟨c, -, h⟩ := Option.bind_eq_some_iff.mp h
  obtain ⟨c', -, hset⟩ := Option.bind_eq_some_iff.mp h
  exact ⟨c', hset⟩

/-- Anything but the whole document can be taken out. -/
theorem erase?_of_at? (hpath : path ≠ []) (h : root.at? path = some v) : ∃ left, root.erase? path = some left := by
  obtain rfl | ⟨above, s, rfl⟩ := path.eq_nil_or_concat'
  · exact absurd rfl hpath
  · obtain ⟨part, hpart, hc⟩ := at?_concat.mp h
    have hsome : (part.eraseChild? s).isSome := (isSome_eraseChild? part s).trans (Option.isSome_of_eq_some hc)
    obtain ⟨part', herase⟩ := Option.isSome_iff_exists.mp hsome
    obtain ⟨left, hleft⟩ := replace?_of_at? hpart part'
    refine ⟨left, ?_⟩
    rw [erase?_append (List.cons_ne_nil _ _), hpart, Option.bind_some, erase?, herase, Option.bind_some, hleft]

/-- What is taken out of an object is the one member, -/
theorem of_erase?_key (h : root.erase? (front ++ [.key k]) = some left) :
    ∃ ms, root.at? front = some (object ms) ∧ left.at? front = some (object (ms.eraseP (·.1 == k))) := by
  obtain ⟨part, part', hpart, herase, hpart'⟩ := of_erase?_append (List.cons_ne_nil _ _) h
  obtain ⟨k', ms, hs, -, rfl, rfl⟩ | ⟨i, items, hs, -⟩ := eraseChild?_cases herase
  · cases hs
    exact ⟨ms, hpart, hpart'⟩
  · cases hs

/-- and of an array the one element. -/
theorem of_erase?_index {i : Nat} (h : root.erase? (front ++ [.index i]) = some left) :
    ∃ items, root.at? front = some (array items) ∧ left.at? front = some (array (items.eraseIdx i)) := by
  obtain ⟨part, part', hpart, herase, hpart'⟩ := of_erase?_append (List.cons_ne_nil _ _) h
  obtain ⟨k, ms, hs, -⟩ | ⟨i', items, hs, -, rfl, rfl⟩ := eraseChild?_cases herase
  · cases hs
  · cases hs
    exact ⟨items, hpart, hpart'⟩

/-- **Taking out a part is local.** -/
theorem takenOut_of_erase? (hpath : path ≠ []) (h : root.erase? path = some left) : root.TakenOut path left where
  present := by
    obtain rfl | ⟨above, s, rfl⟩ := path.eq_nil_or_concat'
    · exact absurd rfl hpath
    · obtain ⟨part, part', hpart, herase, -⟩ := of_erase?_append (List.cons_ne_nil _ _) h
      have hchild : (part.child? s).isSome := (isSome_eraseChild? part s).symm.trans (Option.isSome_of_eq_some herase)
      obtain ⟨c, hc⟩ := Option.isSome_iff_exists.mp hchild
      have hfound : root.at? (above ++ [s]) = some c := at?_concat.mpr ⟨part, hpart, hc⟩
      exact ⟨hpath, Option.isSome_of_eq_some hfound⟩
  elsewhere q hq hbehind := by
    obtain ⟨front, s, t, more, more', rfl, rfl, hne⟩ := hq.fork
    obtain ⟨part, part', hpart, hmore, hpart'⟩ := of_erase?_append (List.cons_ne_nil _ _) h
    refine at?_append_congr hpart hpart' ?_
    -- Where the two places part ways something is taken out, or something is put that has one part less.
    cases more with
    | nil =>
      refine child?_eraseChild?_of_ne hmore hne fun i k hs ht hik => ?_
      subst hs ht
      cases hlater : part.child? (.index k) with
      | none => rfl
      | some c => exact absurd ⟨front, i, k, more', rfl, rfl, hik, by simp [at?_append, hpart, at?, hlater]⟩ hbehind
    | cons s' more =>
      obtain ⟨v, hset⟩ := of_erase?_cons_cons hmore
      exact child?_setChild?_of_ne hset hne
  later above i k more hpath hik := by
    subst hpath
    obtain ⟨items, hpart, hpart'⟩ := of_erase?_index h
    have hmoved : (array (items.eraseIdx i)).child? (.index k) = (array items).child? (.index (k + 1)) :=
      List.getElem?_eraseIdx_of_ge hik
    exact at?_append_congr hpart hpart' hmoved
  members above k hpath := of_erase?_key (hpath ▸ h)
  elements above i hpath := of_erase?_index (hpath ▸ h)
  keys q s t more hpath := by
    subst hpath
    obtain ⟨part, part', hpart, herase, hpart'⟩ := of_erase?_append (List.cons_ne_nil _ _) h
    obtain ⟨v, hset⟩ := of_erase?_cons_cons herase
    rw [keysAt?, keysAt?, hpart, hpart', Option.bind_some, Option.bind_some, keys?_setChild? hset]
  gone hkeys above k hpath := by
    subst hpath
    obtain ⟨ms, hpart, hpart'⟩ := of_erase?_key h
    have hapart : (object ms).keysApart = true := (at?_spec hpart).2 hkeys
    have hnodup : (ms.map (·.1)).Nodup := nodup_of_keysApart hapart
    have hnone : (object (ms.eraseP (·.1 == k))).child? (.key k) = none := Members.get?_eraseP_self hnodup
    rw [at?_append_of_at? hpart', at?, hnone, Option.bind_none]

end Json

/-! ## §E  Edits through a pointer -/

namespace Pointer

variable {st : Store} {r : JsonRef} {root : Json}

/-- **An edit through a pointer** changes the document that the pointer is into, or fails and leaves all as it is. -/
theorem runOn_editDocument {α : Type} (hroot : st.document? r.doc = some root) (edit : Json → Except EvalError (Json × α)) :
    (editDocument r edit).runOn st =
      match edit root with
      | .error e => (.error e, st)
      | .ok (left, a) => (.ok a, st.setDocument r.doc left) := by
  rw [editDocument, Eval.runOn_bind, Eval.runOn_get]
  dsimp only
  rw [hroot, Option.getD_some]
  cases edit root <;> rfl

/-- What giving a value can do: where something is, the value takes its place. -/
theorem runOn_setValue_json (hroot : st.document? r.doc = some root) (v : Datum) :
    (∃ left, ((json r).setValue v).runOn st = (.ok (), st.setDocument r.doc left) ∧
      root.Overwritten r.path (v.toJson st) left) ∨
    (∃ e, ((json r).setValue v).runOn st = (.error e, st)) ∧ root.at? r.path = none := by
  have hedit : ((json r).setValue v).runOn st =
      (editDocument r fun root => (r.setValue (v.toJson st) root).map (·, ())).runOn st := rfl
  rw [hedit, runOn_editDocument hroot, JsonRef.setValue]
  cases hput : Json.replace? (v.toJson st) r.path root with
  | some left => exact .inl ⟨left, rfl, Json.overwritten_of_replace? hput⟩
  | none =>
    refine .inr ⟨⟨_, rfl⟩, ?_⟩
    cases hpart : root.at? r.path with
    | none => rfl
    | some old =>
      obtain ⟨left, hleft⟩ := Json.replace?_of_at? hpart (v.toJson st)
      rw [hput] at hleft
      cases hleft

/-- What removing can do: where something is below the whole document, it is taken out. -/
theorem runOn_remove_json (hroot : st.document? r.doc = some root) :
    (∃ left, (json r).remove.runOn st = (.ok (), st.setDocument r.doc left) ∧ root.TakenOut r.path left) ∨
    (∃ e, (json r).remove.runOn st = (.error e, st)) ∧ (r.path = [] ∨ root.at? r.path = none) := by
  rw [remove, runOn_editDocument hroot, JsonRef.remove]
  cases hempty : r.path.isEmpty with
  | true => exact .inr ⟨⟨_, rfl⟩, .inl (List.isEmpty_iff.mp hempty)⟩
  | false =>
    have hpath : r.path ≠ [] := List.isEmpty_eq_false_iff.mp hempty
    cases htaken : root.erase? r.path with
    | some left => exact .inl ⟨left, rfl, Json.takenOut_of_erase? hpath htaken⟩
    | none =>
      refine .inr ⟨⟨_, rfl⟩, .inr ?_⟩
      cases hpart : root.at? r.path with
      | none => rfl
      | some old =>
        obtain ⟨left, hleft⟩ := Json.erase?_of_at? hpath hpart
        rw [htaken] at hleft
        cases hleft

end Pointer

/-- **Edits of a document are local.** Let a pointer lead into a document, whether or not something is at its place, and
whether or not it is an attribute. A value that it is given is found at the place, as a document, and nothing else is
changed. A part that is removed through it is gone, the later elements of the same array are found one index lower, what is
left is in the order in which it was, and nothing else is changed. Either fails only where nothing is at the place,
or, for removal, at the whole document; and then all is as it was. -/
theorem edit_isLocal {st : Store} {r : JsonRef} {root : Json} (hroot : st.document? r.doc = some root) (v : Datum) :
    (∀ st', ((Pointer.json r).setValue v).runOn st = (.ok (), st') →
      ∃ left, st' = st.setDocument r.doc left ∧ st'.document? r.doc = some left ∧
        root.Overwritten r.path (v.toJson st) left) ∧
    (∀ st', (Pointer.json r).remove.runOn st = (.ok (), st') →
      ∃ left, st' = st.setDocument r.doc left ∧ st'.document? r.doc = some left ∧ root.TakenOut r.path left) ∧
    (∀ e st', ((Pointer.json r).setValue v).runOn st = (.error e, st') → st' = st ∧ root.at? r.path = none) ∧
    (∀ e st', (Pointer.json r).remove.runOn st = (.error e, st') →
      st' = st ∧ (r.path = [] ∨ root.at? r.path = none)) := by
  have hsize : r.doc < st.documents.size := (Array.getElem?_eq_some_iff.mp hroot).1
  have hset := Pointer.runOn_setValue_json hroot v
  have hremove := Pointer.runOn_remove_json hroot
  refine ⟨fun st' hrun => ?_, fun st' hrun => ?_, fun e st' hrun => ?_, fun e st' hrun => ?_⟩
  · rw [hrun] at hset
    obtain ⟨left, hleft, hlocal⟩ | ⟨⟨e, he⟩, -⟩ := hset
    · cases hleft
      exact ⟨left, rfl, Store.document?_setDocument hsize left, hlocal⟩
    · cases he
  · rw [hrun] at hremove
    obtain ⟨left, hleft, hlocal⟩ | ⟨⟨e, he⟩, -⟩ := hremove
    · cases hleft
      exact ⟨left, rfl, Store.document?_setDocument hsize left, hlocal⟩
    · cases he
  · rw [hrun] at hset
    obtain ⟨left, hleft, -⟩ | ⟨⟨e', he⟩, hnone⟩ := hset
    · cases hleft
    · cases he
      exact ⟨rfl, hnone⟩
  · rw [hrun] at hremove
    obtain ⟨left, hleft, -⟩ | ⟨⟨e', he⟩, hnone⟩ := hremove
    · cases hleft
    · cases he
      exact ⟨rfl, hnone⟩

/-- The first element of an array is removed, and what was in the second one is in the first one then; a member of the
second one is given a text through its attribute; and an element that is not there is not removed. -/
theorem edit_isLocal_nested :
    (∃ st' left, (Pointer.element 0 (.plain "") [.key "a", .index 0]).remove.runOn (.holding nestedDocument) = (.ok (), st') ∧
      st'.document? 0 = some left ∧ left.at? [.key "a", .index 0, .key "b"] = some (.int 2) ∧
      left.at? [.key "c:d"] = some (.text "e")) ∧
    (∃ st' left, ((Pointer.json ⟨0, [.key "a", .index 1, .key "b"], true, none, .plain ""⟩).setValue (.text "x")).runOn
        (.holding nestedDocument) = (.ok (), st') ∧
      st'.document? 0 = some left ∧ left.at? [.key "a", .index 1, .key "b"] = some (.text "x") ∧
      left.at? [.key "a", .index 2] = some (.int 3)) ∧
    ∃ e st', (Pointer.element 0 (.plain "") [.key "a", .index 3]).remove.runOn (.holding nestedDocument) = (.error e, st') ∧
      st' = .holding nestedDocument := by
  have hroot : (Store.holding nestedDocument).document? 0 = some nestedDocument := rfl
  refine ⟨?_, ?_, ?_⟩
  · obtain ⟨left, -, hleft, hout⟩ :=
      (edit_isLocal (r := ⟨0, [.key "a", .index 0], false, none, .plain ""⟩) hroot .null).2.1 _ rfl
    refine ⟨_, left, rfl, hleft, hout.later [.key "a"] 0 0 [.key "b"] rfl (Nat.le_refl 0), ?_⟩
    refine hout.elsewhere [.key "c:d"] (by decide) ?_
    rintro ⟨above, i, k, more, -, hq, -⟩
    cases above <;> simp at hq
  · obtain ⟨left, -, hleft, hput⟩ :=
      (edit_isLocal (r := ⟨0, [.key "a", .index 1, .key "b"], true, none, .plain ""⟩) hroot (.text "x")).1 _ rfl
    exact ⟨_, left, rfl, hleft, hput.here, hput.elsewhere [.key "a", .index 2] (by decide)⟩
  · obtain ⟨hst, -⟩ :=
      (edit_isLocal (r := ⟨0, [.key "a", .index 3], false, none, .plain ""⟩) hroot .null).2.2.2 _ _ rfl
    exact ⟨_, _, rfl, hst⟩

end NodePath
