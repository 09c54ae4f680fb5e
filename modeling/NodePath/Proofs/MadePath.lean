/-
# NodePath.Proofs.MadePath — what is made is what is read

A plain path that has been created leads, slot by slot, to the node that was made last. Each step leaves the slot that it
was asked for, whether it found it or made it: it may have been missing, null, a value that becomes the first element of
an array, or an array that was too short. What the steps behind it make lies at the slot or below it, and is no array in
the place of something else, so the slot stays where it is. The evaluator counts children of a name to the same slot.

* §A  What a new child keeps.
* §B  The slot that one step leaves.
* §C  Where created steps lead.
* §D  Reading where steps lead.
* §E  Values.
* §F  Paths that are created.
-/
import NodePath.Proofs.Overwriting
import NodePath.Proofs.PlainPath
import NodePath.Proofs.StoredNumber

namespace NodePath

variable {c : Context} {host : Host} {s : Setting} {st st' : Store} {root p : Pointer} {r : JsonRef} {step : Step}
  {steps : List Step} {index : Option Nat} {i : Nat} {ms : Json.Members} {k key : String} {j part v : Json}
  {path : List Segment}

/-! ## §A  New children -/

namespace Json

variable {holds : Members → Bool}

theorem everyObject_set (hset : holds (Members.set key v ms) = true) (hms : (object ms).everyObject holds = true)
    (hv : v.everyObject holds = true) : (object (Members.set key v ms)).everyObject holds = true := by
  refine everyObject_object.mpr ⟨hset, fun m hm => ?_⟩
  rcases Members.mem_set hm with rfl | hm
  · exact hv
  · exact (everyObject_object.mp hms).2 m hm

theorem everyObject_padded {items : List Json} (hitems : ∀ w ∈ items, w.everyObject holds = true) (i : Nat) :
    (array (JsonRef.padded items i)).everyObject holds = true := by
  refine everyObject_array.mpr fun w hw => ?_
  rcases List.mem_append.mp hw with hw | hw
  · exact hitems w hw
  · obtain rfl := List.eq_of_mem_replicate hw
    rfl

/-- **What is said of the keys of every object** holds with a new child, if it does with its key. -/
theorem everyObject_withChild (hset : ∀ v, holds (Members.set key v ms) = true)
    (hms : (object ms).everyObject holds = true) (i : Nat) :
    (object (JsonRef.withChild ms key i).1).everyObject holds = true := by
  have hold : ∀ {w : Json}, ms.get? key = some w → w.everyObject holds = true := fun hget =>
    (everyObject_object.mp hms).2 _ (Members.mem_of_get? hget)
  have hnone : (array (JsonRef.padded [] i)).everyObject holds = true := everyObject_padded (List.forall_mem_nil _) i
  unfold JsonRef.withChild
  split
  · exact everyObject_set (hset _) hms rfl
  · rename_i hget
    exact everyObject_set (hset _) hms (everyObject_padded (everyObject_array.mp (hold hget)) _)
  · exact hms
  · exact everyObject_set (hset _) hms hnone
  · exact everyObject_set (hset _) hms hnone
  · rename_i hget _
    exact everyObject_set (hset _) hms (everyObject_padded (List.forall_mem_singleton.mpr (hold hget)) _)

theorem Members.colonFree_set (hcolon : ms.colonFree = true) (hkey : ':' ∉ key.toList) (v : Json) :
    (Members.set key v ms).colonFree = true := by
  refine List.all_eq_true.mpr fun m hm => ?_
  rcases Members.mem_set hm with rfl | hm
  · simpa using hkey
  · exact List.all_eq_true.mp hcolon m hm

theorem Members.nodup_keys_set (hkeys : (ms.map (·.1)).Nodup) (key : String) (v : Json) :
    ((Members.set key v ms).map (·.1)).Nodup := by
  induction ms with
  | nil => exact List.nodup_singleton key
  | cons m ms ih =>
    obtain ⟨hnew, hkeys⟩ := List.nodup_cons.mp hkeys
    rw [Members.set]
    split
    · rename_i hkey
      rw [← beq_iff_eq.mp hkey]
      exact List.nodup_cons.mpr ⟨hnew, hkeys⟩
    · rename_i hkey
      refine List.nodup_cons.mpr ⟨fun hmem => ?_, ih hkeys⟩
      obtain ⟨m', hm', he⟩ := List.mem_map.mp hmem
      rcases Members.mem_set hm' with rfl | hm'
      · exact hkey (beq_iff_eq.mpr he.symm)
      · exact hnew (List.mem_map.mpr ⟨m', hm', he⟩)

end Json

/-! ## §B  One step -/

/-- **Leaves** says what a plain step leaves at a place: an object with a slot that the step asks for, in the place of
one or of a null. No key of it has a colon if none had one before. -/
structure JsonRef.Leaves (r : JsonRef) (j part : Json) (k : String) (i : Nat) (ms : Json.Members) (more : List Segment)
    (child j' : Json) : Prop where
  replaced : Json.replace? (.object ms) r.path j = some j'
  noArray : part.isArray = false
  slot : (JsonRef.waysTo ms k)[i]? = some more
  child : (Json.object ms).at? more = some child
  keysApart : (Json.object ms).keysApart = true
  colonFree : part.everyObject Json.Members.colonFree = true → (Json.object ms).everyObject Json.Members.colonFree = true

theorem JsonRef.Leaves.nodup {j' child : Json} {more : List Segment} (h : r.Leaves j part k i ms more child j') :
    (ms.map (·.1)).Nodup := Json.nodup_of_keysApart h.keysApart

section

variable (hr : r.asAttribute = false) (hj : st.document? r.doc = some j) (hpart : j.at? r.path = some part)
  (hkeys : part.keysApart = true)

include hr hj hpart hkeys

/-- **What a plain step finds** is the slot that it asks for. -/
theorem JsonRef.leaves_of_named? (hk : IsNcName k)
    (hnamed : s.named? st (.name (.plain k)) i ((Pointer.json r).children st) = some p) :
    ∃ ms more child, r.Leaves j part k i ms more child j ∧ p = .json (r.below more false) := by
  have hat : st.at? r.doc r.path = some part := Store.at?_of_document? hj hpart
  by_cases hobject : ∃ ms, part = .object ms
  · obtain ⟨ms, rfl⟩ := hobject
    have hnodup : (ms.map (·.1)).Nodup := Json.nodup_of_keysApart hkeys
    rw [Setting.named?, named_children hr hat hk, List.getElem?_map] at hnamed
    obtain ⟨more, hslot, rfl⟩ := Option.map_eq_some_iff.mp hnamed
    obtain ⟨child, hchild⟩ : ∃ child, (Json.object ms).at? more = some child := by
      obtain ⟨key, v, hget, ⟨items, l, rfl, hl, rfl⟩ | ⟨-, rfl⟩⟩ := waysTo_cases hnodup (List.mem_of_getElem? hslot)
      · exact ⟨items[l], by simp [Json.at?, Json.child?, hget, hl]⟩
      · exact ⟨v, by simp [Json.at?, Json.child?, hget]⟩
    exact ⟨ms, more, child, ⟨Json.replace?_self hpart, rfl, hslot, hchild, hkeys, id⟩, rfl⟩
  · have hnone : ∀ ms, part ≠ .object ms := fun ms he => hobject ⟨ms, he⟩
    rw [Setting.named?, unnamed_children hr hat hnone hk] at hnamed
    cases hnamed

/-- **What a plain step makes** is the slot that it asks for, when no other key has children of its name: when no key has
a colon, or when it asks for the first child and there was none. -/
theorem JsonRef.leaves_of_createChild (hk : IsNcName k) (hcounts : part.everyObject Json.Members.colonFree = true ∨ i = 0)
    (hnone : s.named? st (.name (.plain k)) i ((Pointer.json r).children st) = none) {j' : Json} {r' : JsonRef}
    (hmade : r.createChild (.plain k) i j = .ok (j', r')) :
    ∃ ms more child, r.Leaves j part k i ms more child j' ∧ r' = r.below more false := by
  obtain ⟨part', ms, hpart', hmembers, hj', rfl⟩ := of_createChild hmade
  obtain rfl : part' = part := Option.some.inj (hpart'.symm.trans hpart)
  have hwritten : (QName.plain k).written = k := rfl
  rw [hwritten] at hj' ⊢
  obtain ⟨hkeys', hcolons', harray⟩ : (Json.object ms).keysApart = true ∧
      (part'.everyObject Json.Members.colonFree = true → (Json.object ms).everyObject Json.Members.colonFree = true) ∧
        part'.isArray = false := by
    rcases hmembers with ⟨rfl, rfl⟩ | rfl
    · exact ⟨rfl, id, rfl⟩
    · exact ⟨hkeys, id, rfl⟩
  have hnodup : (ms.map (·.1)).Nodup := Json.nodup_of_keysApart hkeys'
  have hways : (waysTo ms k)[i]? = none := by
    rcases hmembers with ⟨-, rfl⟩ | rfl
    · rfl
    · have hat : st.at? r.doc r.path = some (.object ms) := Store.at?_of_document? hj hpart
      rw [Setting.named?, named_children hr hat hk, List.getElem?_map, Option.map_eq_none_iff] at hnone
      exact hnone
  have halone : Alone ms k := by
    rcases hcounts with hcolons | rfl
    · exact alone_of_colonFree (Json.everyObject_object.mp (hcolons' hcolons)).1
    · exact alone_of_waysTo_nil (List.head?_eq_none_iff.mp (List.head?_eq_getElem?.trans hways))
  obtain ⟨hnew, hnull⟩ := new_slot (halone.waysTo_eq hnodup hk ▸ hways)
  have hapart : (Json.object (withChild ms k i).1).keysApart = true := by
    rw [Json.keysApart_eq] at hkeys' ⊢
    exact Json.everyObject_withChild (fun v => decide_eq_true (Json.Members.nodup_keys_set hnodup k v)) hkeys' i
  have hnodup' : ((withChild ms k i).1.map (·.1)).Nodup := Json.nodup_of_keysApart hapart
  refine ⟨_, _, .null, ⟨hj', harray, ?_, hnull, hapart, fun hcolons => ?_⟩, rfl⟩
  · rw [(halone.withChild i).waysTo_eq hnodup' hk]
    exact hnew
  · have hcolon : Json.Members.colonFree ms = true := (Json.everyObject_object.mp (hcolons' hcolons)).1
    exact Json.everyObject_withChild (Json.Members.colonFree_set hcolon (QName.colon_not_mem hk)) (hcolons' hcolons) i

/-- **Each plain step that is created** leaves the slot that it asks for. -/
theorem Setting.Makes.leaves (hmakes : s.Makes st r index step p st') (hk : IsNcName k) (hasks : step.AsksFor k i)
    (hindex : index.getD 0 = i) (hcounts : part.everyObject Json.Members.colonFree = true ∨ i = 0) :
    ∃ ms more child j', r.Leaves j part k i ms more child j' ∧ p = .json (r.below more false) ∧
      st' = st.setDocument r.doc j' := by
  obtain ⟨haxis, htest⟩ := hasks.axis_test
  subst hindex
  cases hmakes with
  | stay => cases haxis
  | child hnamed =>
    cases htest
    obtain ⟨ms, more, child, hleaves, rfl⟩ := JsonRef.leaves_of_named? hr hj hpart hkeys hk hnamed
    exact ⟨ms, more, child, j, hleaves, rfl, (Store.setDocument_document? hj).symm⟩
  | newChild hnone hmade =>
    cases htest
    rw [hj, Option.getD_some] at hmade
    obtain ⟨ms, more, child, hleaves, rfl⟩ := JsonRef.leaves_of_createChild hr hj hpart hkeys hk hcounts hnone hmade
    exact ⟨ms, more, child, _, hleaves, rfl, rfl⟩
  | attr => cases haxis
  | newAttr => cases haxis

/-! ## §C  All steps -/

/-- **Where created steps lead**: to the node that is created, from the part that they leave where they started. If a key
has a colon, no step may ask for another child than the first one. -/
theorem Setting.leadsTo_of_createSteps
    (hcounts : part.everyObject Json.Members.colonFree = true ∨ ∀ step ∈ steps, step.predicates = [])
    (hplain : ∀ step ∈ steps, step.IsPlain)
    (hrun : (s.createSteps (.json r) steps).runOn st = (.ok p, st')) :
    ∃ part' path j', p = .json (r.below path false) ∧ st' = st.setDocument r.doc j' ∧
      Json.replace? part' r.path j = some j' ∧ part'.LeadsTo steps path ∧ part'.keysApart = true ∧
        (part'.isArray = true → part.isArray = true) := by
  induction steps generalizing r st j part with
  | nil =>
    cases hrun
    refine ⟨part, [], j, ?_, (Store.setDocument_document? hj).symm, Json.replace?_self hpart, .here, hkeys, id⟩
    rw [JsonRef.below_nil hr]
  | cons step steps ih =>
    obtain ⟨hstep, hsteps⟩ := List.forall_mem_cons.mp hplain
    obtain ⟨index, st₁, q, st₂, hindex, hmakes, hrest⟩ := of_createSteps_cons hstep.isSimple hrun
    have hbehind := hcounts.imp_right fun hnone => (List.forall_mem_cons.mp hnone).2
    cases hstep with
    | stay =>
      cases hindex
      cases hmakes
      obtain ⟨part', path, j', hp, hst', hj', hway, hkeys', harray⟩ := ih hr hj hpart hkeys hbehind hsteps hrest
      exact ⟨part', path, j', hp, hst', hj', .stay hway, hkeys', harray⟩
    | @child k i _ hk hasks =>
      obtain ⟨index', hindex', hasked⟩ := hasks.runOn_index s st
      cases hindex'.symm.trans hindex
      have hcount : part.everyObject Json.Members.colonFree = true ∨ i = 0 :=
        hcounts.imp_right fun hnone => hasks.first_of_none (hnone _ List.mem_cons_self)
      obtain ⟨ms, more, child, j₁, hleaves, rfl, rfl⟩ := hmakes.leaves hr hj hpart hkeys hk hasks hasked hcount
      have hsize : r.doc < st.documents.size := (Array.getElem?_eq_some_iff.mp hj).1
      have hpart₁ : j₁.at? r.path = some (.object ms) := Json.at?_replace? hleaves.replaced
      have hchild : j₁.at? (r.path ++ more) = some child := by
        rw [Json.at?_append_of_at? hpart₁, hleaves.child]
      obtain ⟨child', path, j₂, hp, hst', hj₂, hway, hkeys', harray⟩ :=
        ih (r := r.below more false) rfl (Store.document?_setDocument hsize j₁) hchild
          ((Json.at?_spec hleaves.child).2 hleaves.keysApart)
          (hbehind.imp_left fun hcolons => Json.everyObject_at? (hleaves.colonFree hcolons) hleaves.child) hsteps hrest
      -- The steps behind this one change what is in its slot, so that the object here has another child in it.
      have hj₂' : Json.replace? child' (r.path ++ more) j₁ = some j₂ := hj₂
      rw [Json.replace?_append, hpart₁, Option.bind_some] at hj₂'
      obtain ⟨part', hpart', hj₂'⟩ := Option.bind_eq_some_iff.mp hj₂'
      rw [Json.replace?_replace? hleaves.replaced] at hj₂'
      obtain ⟨ms', rfl, hsame, hways⟩ := Json.waysTo_replace? hleaves.nodup hleaves.slot hleaves.child harray hpart'
      refine ⟨.object ms', more ++ path, j₂, ?_, ?_, hj₂', ?_, ?_, fun h => nomatch h⟩
      · rw [hp, JsonRef.below_below]
      · rw [hst']
        exact Store.setDocument_setDocument st r.doc j₁ j₂
      · exact .child hk hasks (hsame ▸ hleaves.nodup) (hways ▸ hleaves.slot) (Json.at?_replace? hpart') hway
      · exact Json.keysApart_replace? hleaves.keysApart hkeys' hpart'

end

/-! ## §D  Reading -/

/-- What is below a place has the value of what is there. -/
theorem JsonRef.openedValue_below {target : Json} (hpart : st.at? r.doc r.path = some part)
    (htarget : part.at? path = some target) : (Pointer.json (r.below path false)).openedValue st = .ofJson target := by
  have hfollow : (Pointer.json (r.below path false)).follow st = .json (r.below path false) := by
    simp [Pointer.follow, Pointer.followFrom, Pointer.opening]
  simp only [Pointer.openedValue, hfollow, Pointer.opening, Pointer.value, at?_below hpart htarget]
  rfl

section

variable {text : String} {absolute : Bool} (h : IsDocument st root) (hc : c.Settled host st)
  (hstart : c.startOf absolute = .json r) (hmem : .json r ∈ root.listing st) (hr : r.asAttribute = false)
  (hpart : st.at? r.doc r.path = some part) (hway : part.LeadsTo steps path)
  (htext : Expr.parse text = .ok (.path absolute steps)) (hplain : ∀ step ∈ steps, step.IsPlain)

include h hc hstart hmem hr hpart hway htext hplain

/-- **Where plain steps lead** is what a path of them is read as, -/
theorem IsDocument.getPointer_of_leadsTo :
    ((c.getPointer host text).runOn st).1 = .ok (some (.json (r.below path false))) := by
  have hwalk : (c.surroundings host).CanWalk st steps [.json r] := h.canWalk hplain (h.spread_singleton hmem)
  have hhead := h.head?_eager c host hway hmem hr hpart
  have hcompiled : st.Extends (st.compiled text) := (Store.Extends.refl hc.sound).compile text
  obtain ⟨st', hread, -⟩ : ∃ st', ((c.setting host).readPointer text (.path absolute steps)).runOn (st.compiled text) =
      (.ok (some (.json (r.below path false))), st') ∧ st.Extends st' :=
    h.runOn_readPointer hc hstart hmem hwalk hhead hcompiled
  rw [Context.getPointer, Reading.runOn_withText hc.sound htext, hread]
  rfl

/-- and what is there is its value. -/
theorem IsDocument.getValue_of_leadsTo {target : Json} (htarget : part.at? path = some target) :
    ((c.getValue host text).runOn st).1 = .ok (.ofJson target) := by
  have hwalk : (c.surroundings host).CanWalk st steps [.json r] := h.canWalk hplain (h.spread_singleton hmem)
  have hhead := h.head?_eager c host hway hmem hr hpart
  have hcompiled : st.Extends (st.compiled text) := (Store.Extends.refl hc.sound).compile text
  obtain ⟨st', hread, -⟩ : ∃ st', ((c.setting host).readValue text (.path absolute steps)).runOn (st.compiled text) =
      (.ok ((Pointer.json (r.below path false)).openedValue st), st') ∧ st.Extends st' :=
    h.runOn_readValue hc hstart hmem hwalk hhead hcompiled
  rw [Context.getValue, Reading.runOn_withText hc.sound htext, hread, JsonRef.openedValue_below hpart htarget]
  rfl

omit h hmem in
/-- **Creating it** finds it, and changes no document. -/
theorem Context.Settled.createPath_of_leadsTo :
    (c.createPath host text).runOn st = (.ok (.json (r.below path false)), st.compiled text) := by
  have hsimple : (Expr.path absolute steps).isSimplePath = true :=
    List.all_eq_true.mpr fun step hstep => (hplain step hstep).isSimple
  have hsetting : (c.setting host).context.startOf absolute = .json r := hstart
  have hat : (st.compiled text).at? r.doc r.path = some part := hpart
  rw [Context.createPath, Reading.runOn_withText hc.sound htext, Setting.create_path hsimple, hsetting,
    Setting.runOn_createSteps_of_leadsTo _ hway hr hat]
  rfl

end

/-! ## §E  Values -/

namespace Datum

/-- **IsPlain** values are those that a node of a document can have, arrays apart. -/
inductive IsPlain : Datum → Prop
  | null : IsPlain .null
  | boolean (b : Bool) : IsPlain (.boolean b)
  | number {x : Float} : Number.isFinite x = true → IsPlain (.number x)
  | text (s : String) : IsPlain (.text s)
  | object {ms : Json.Members} : (Json.object ms).keysApart = true → IsPlain (.object (.object ms))

/-- **SameAs** says that two values are the same, numbers if they are equal. -/
def SameAs : Datum → Datum → Prop
  | .number x, .number y => (x == y) = true
  | d, d' => d = d'

theorem ofJson_of_toFloat? {x : Float} (h : j.toFloat? = some x) : ofJson j = .number x := by
  cases j with
  | int i => exact congrArg number (Option.some.inj h)
  | double y => exact congrArg number (Option.some.inj h)
  | _ => cases h

/-- **A plain value that is stored** is read as the same value. -/
theorem IsPlain.toJson {v : Datum} (hv : v.IsPlain) (st : Store) :
    (v.toJson st).isArray = false ∧ (v.toJson st).keysApart = true ∧ (ofJson (v.toJson st)).SameAs v := by
  cases hv with
  | null => exact ⟨rfl, rfl, rfl⟩
  | boolean b => exact ⟨rfl, rfl, rfl⟩
  | @number x hx =>
    have hjson : (Datum.number x).toJson st = .ofFloat x := rfl
    obtain ⟨y, hy, hsame⟩ := Json.toFloat?_ofFloat hx
    rw [hjson, ofJson_of_toFloat? hy]
    refine ⟨?_, ?_, hsame⟩
    · cases hj : Json.ofFloat x with
      | array items => rw [hj] at hy; cases hy
      | _ => rfl
    · cases hj : Json.ofFloat x with
      | array items => rw [hj] at hy; cases hy
      | object ms => rw [hj] at hy; cases hy
      | _ => rfl
  | text s => exact ⟨rfl, rfl, rfl⟩
  | object hkeys => exact ⟨rfl, hkeys, rfl⟩

end Datum

/-- **Where created steps lead when their end is given a plain value**: to that value. -/
theorem Setting.leadsTo_of_setValue (hr : r.asAttribute = false) (hj : st.document? r.doc = some j)
    (hpart : j.at? r.path = some part) (hkeys : part.keysApart = true)
    (hcounts : part.everyObject Json.Members.colonFree = true ∨ ∀ step ∈ steps, step.predicates = [])
    (hplain : ∀ step ∈ steps, step.IsPlain) {d : Datum} (hd : d.IsPlain) {st₁ : Store}
    (hrun : (s.createSteps (.json r) steps).runOn st = (.ok p, st₁))
    (hset : (p.setValue d).runOn st₁ = (.ok (), st')) :
    ∃ part' path j' target, p = .json (r.below path false) ∧ st' = st.setDocument r.doc j' ∧
      Json.replace? part' r.path j = some j' ∧ part'.LeadsTo steps path ∧ part'.keysApart = true ∧
        (part'.isArray = true → part.isArray = true) ∧ part'.at? path = some target ∧ (Datum.ofJson target).SameAs d := by
  obtain ⟨part₁, path, j₁, rfl, rfl, hj₁, hway, hkeys₁, harray₁⟩ :=
    leadsTo_of_createSteps hr hj hpart hkeys hcounts hplain hrun
  have hsize : r.doc < st.documents.size := (Array.getElem?_eq_some_iff.mp hj).1
  have hst₁ : (st.setDocument r.doc j₁).document? r.doc = some j₁ := Store.document?_setDocument hsize j₁
  obtain ⟨j₂, hput, rfl⟩ := Pointer.of_runOn_setValue (r := r.below path false) hst₁ hset
  obtain ⟨hleaf, hkeysd, hsame⟩ := hd.toJson (st.setDocument r.doc j₁)
  -- The value is put at the end of the way, which is a change of the part that the steps have made.
  have hput : Json.replace? (d.toJson _) (r.path ++ path) j₁ = some j₂ := hput
  rw [Json.replace?_append, Json.at?_replace? hj₁, Option.bind_some] at hput
  obtain ⟨part₂, hpart₂, hput⟩ := Option.bind_eq_some_iff.mp hput
  rw [Json.replace?_replace? hj₁] at hput
  obtain ⟨hway', harray₂⟩ := hway.replace? hleaf hpart₂
  exact ⟨part₂, path, j₂, _, rfl, Store.setDocument_setDocument st r.doc j₁ j₂, hput, hway',
    Json.keysApart_replace? hkeys₁ hkeysd hpart₂, fun h => harray₁ (harray₂ h), Json.at?_replace? hpart₂, hsame⟩

/-! ## §F  Created paths -/

section

variable {d : DocId} {n : QName} {part' j' : Json}

/-- **A document in which something was put in the place of an element** is one, with an element at that place, unless it
has become too large or an array has become a member. -/
theorem IsDocument.of_replaced (h : IsDocument st (.json (.root d none n))) (hj : st.document? d = some j)
    (hnode : j.IsNode path) (hj' : Json.replace? part' path j = some j') (hkeys : part'.keysApart = true)
    (harray : ∀ part, j.at? path = some part → part'.isArray = true → part.isArray = true)
    (hst' : st'.document? d = some j')
    (hnarrow : ((Pointer.json (.root d none n)).listing st').length ≤ Number.exactBound) :
    IsDocument st' (.json (.root d none n)) ∧
      .element d n path ∈ (Pointer.json (.root d none n)).listing st' ∧ st'.at? d path = some part' := by
  have hkeys' : j'.keysApart = true := Json.keysApart_replace? (h.keysApart hj) hkeys hj'
  have hdocument : IsDocument st' (.json (.root d none n)) := ⟨⟨d, none, n, j', rfl, hst', hkeys'⟩, hnarrow⟩
  have hpart' : j'.at? path = some part' := Json.at?_replace? hj'
  have hnode' : j'.IsNode path := by
    obtain ⟨part, hpart, hlast⟩ := hnode
    refine ⟨part', hpart', fun k hk => ?_⟩
    by_contra hnew
    have hold := harray part hpart (by simpa using hnew)
    rw [hlast k hk] at hold
    cases hold
  refine ⟨hdocument, hdocument.rooted.1.mem_listing.mpr ⟨_, hnode'.inside hst', .inl rfl⟩, ?_⟩
  exact Store.at?_of_document? hst' hpart'

/-- A path that is created: all steps of it are. -/
theorem Context.Settled.of_createPath (hc : c.Settled host st) {text : String} {absolute : Bool}
    (htext : Expr.parse text = .ok (.path absolute steps)) (hplain : ∀ step ∈ steps, step.IsPlain)
    (hrun : (c.createPath host text).runOn st = (.ok p, st')) :
    ((c.setting host).createSteps (c.startOf absolute) steps).runOn (st.compiled text) = (.ok p, st') := by
  obtain ⟨e, htext', hused⟩ := Reading.of_runOn_withText hc.sound hrun
  cases htext.symm.trans htext'
  have hsimple : (Expr.path absolute steps).isSimplePath = true :=
    List.all_eq_true.mpr fun step hstep => (hplain step hstep).isSimple
  rwa [Setting.create_path hsimple] at hused

/-- **What a path makes is what it selects.** When a plain path is created at an element of a document without colons in
its keys, it is read as the node that was created, and creating it once more finds that node and changes no document; and
when it is given a plain value, it is read as that value. -/
theorem createPath_isSelected {text : String} {absolute : Bool} (hc : c.Settled host st)
    (hroot : IsDocument st (.json (.root d none n))) (hj : st.document? d = some j)
    (hcolons : j.everyObject Json.Members.colonFree = true)
    (hstart : c.startOf absolute ∈ (Pointer.json (.root d none n)).listing st)
    (helement : (c.startOf absolute).kind st ≠ .attr) (htext : Expr.parse text = .ok (.path absolute steps))
    (hplain : ∀ step ∈ steps, step.IsPlain) :
    (∀ p st', (c.createPath host text).runOn st = (.ok p, st') →
      ((Pointer.json (.root d none n)).listing st').length ≤ Number.exactBound →
        ((c.getPointer host text).runOn st').1 = .ok (some p) ∧
          ∃ st'', (c.createPath host text).runOn st' = (.ok p, st'') ∧ st''.document? d = st'.document? d) ∧
      ∀ (v : Datum) (p : Pointer) (st' : Store), v.IsPlain →
        (c.createPathAndSetValue host text v).runOn st = (.ok p, st') →
          ((Pointer.json (.root d none n)).listing st').length ≤ Number.exactBound →
            ∃ w, ((c.getValue host text).runOn st').1 = .ok w ∧ w.SameAs v := by
  obtain ⟨place, hplace, hnode⟩ := hroot.place_of_element hj hstart helement
  obtain ⟨part, hpart, hlast⟩ := id hnode
  have hkeys : part.keysApart = true := (Json.at?_spec hpart).2 (hroot.keysApart hj)
  have hcolons' := Json.everyObject_at? hcolons hpart
  have hsize : d < st.documents.size := (Array.getElem?_eq_some_iff.mp hj).1
  have hc₀ : c.Settled host (st.compiled text) := hc.grow ((Store.Extends.refl hc.sound).compile text)
  -- What the steps make, from the place where they start.
  have hmade : ∀ {p : Pointer} {st₁ : Store},
      ((c.setting host).createSteps (c.startOf absolute) steps).runOn (st.compiled text) = (.ok p, st₁) →
        ∃ part' path j', p = .json ((JsonRef.mk d place false none n).below path false) ∧
          st₁ = (st.compiled text).setDocument d j' ∧ Json.replace? part' place j = some j' ∧
          part'.LeadsTo steps path ∧ part'.keysApart = true ∧ (part'.isArray = true → part.isArray = true) := by
    intro p st₁ hrun
    rw [hplace] at hrun
    exact Setting.leadsTo_of_createSteps (r := ⟨d, place, false, none, n⟩) rfl hj hpart hkeys (.inl hcolons') hplain hrun
  constructor
  · intro p st' hrun hnarrow
    obtain ⟨part', path, j', rfl, rfl, hj', hway, hkeys', harray⟩ := hmade (hc.of_createPath htext hplain hrun)
    have hst' : ((st.compiled text).setDocument d j').document? d = some j' := Store.document?_setDocument hsize j'
    obtain ⟨hdocument, hmem, hat⟩ := hroot.of_replaced hj hnode hj' hkeys'
      (fun old hold => by rw [Option.some.inj (hold.symm.trans hpart)]; exact harray) hst' hnarrow
    have hc' := hc₀.setDocument d j'
    refine ⟨hdocument.getPointer_of_leadsTo hc' hplace hmem rfl hat hway htext hplain, _,
      hc'.createPath_of_leadsTo hplace rfl hat hway htext hplain, rfl⟩
  · intro v p st' hv hrun hnarrow
    obtain ⟨-, st₁, hsteps, hset⟩ := hc.of_createPathAndSetValue htext hrun
    rw [hplace] at hsteps
    have hj₀ : (st.compiled text).document? d = some j := hj
    obtain ⟨part', path, j', target, -, rfl, hj', hway, hkeys', harray, htarget, hsame⟩ := Setting.leadsTo_of_setValue
      (r := ⟨d, place, false, none, n⟩) rfl hj₀ hpart hkeys (.inl hcolons') hplain hv hsteps hset
    have hst' : ((st.compiled text).setDocument d j').document? d = some j' := Store.document?_setDocument hsize j'
    obtain ⟨hdocument, hmem, hat⟩ := hroot.of_replaced hj hnode hj' hkeys'
      (fun old hold => by rw [Option.some.inj (hold.symm.trans hpart)]; exact harray) hst' hnarrow
    exact ⟨_, hdocument.getValue_of_leadsTo (hc₀.setDocument d j') hplace hmem rfl hat hway htext hplain htarget,
      hsame⟩

end

/-- A value with a colon in one of its keys. -/
def prefixedValue : Datum := .object (.object [("x:y", .null)])

/-- In a document with a member in a member, a second element is made with a member of its own, or with a value. -/
theorem createPath_isSelected_nested :
    (∃ p st', (Context.atTop.createPath stockHost "a/b[2]/./c").runOn (.holding nestedMember) = (.ok p, st') ∧
        p.pathText (.holding nestedMember) = "/a/b[2]/c" ∧
        ((Context.atTop.getPointer stockHost "a/b[2]/./c").runOn st').1 = .ok (some p) ∧
        ∃ st'', (Context.atTop.createPath stockHost "a/b[2]/./c").runOn st' = (.ok p, st'') ∧
          st''.document? 0 = st'.document? 0) ∧
      ∃ p st', (Context.atTop.createPathAndSetValue stockHost "a/b[2]/./c" prefixedValue).runOn (.holding nestedMember) =
          (.ok p, st') ∧
        ((Context.atTop.getValue stockHost "a/b[2]/./c").runOn st').1 = .ok prefixedValue := by
  have htext : Expr.parse "a/b[2]/./c" = .ok (.path false [⟨.child, .name (.plain "a"), []⟩,
      ⟨.child, .name (.plain "b"), [.number (.ofNat 2)]⟩, ⟨.self, .type .node, []⟩,
      ⟨.child, .name (.plain "c"), []⟩]) := by decide +kernel
  have hroot : IsDocument (.holding nestedMember) .firstTop := isDocument_firstTop (by decide +kernel) (by decide +kernel)
  have hstart : Context.atTop.startOf false ∈ Pointer.firstTop.listing (.holding nestedMember) := firstTop_mem_listing _
  have hplain : ∀ step ∈ ([⟨.child, .name (.plain "a"), []⟩, ⟨.child, .name (.plain "b"), [.number (.ofNat 2)]⟩,
      ⟨.self, .type .node, []⟩, ⟨.child, .name (.plain "c"), []⟩] : List Step), step.IsPlain := by
    have hsecond : (Number.ofNat 2 == Number.ofNat (1 + 1)) = true := Number.ofNat_beq_self (by decide) (by decide)
    refine List.forall_mem_cons.mpr ⟨.child (.letter (a := 'a') (by decide)) .first, List.forall_mem_cons.mpr ⟨?_, ?_⟩⟩
    · exact .child (.letter (a := 'b') (by decide)) (.position (by decide) hsecond)
    · exact List.forall_mem_cons.mpr ⟨.stay,
        List.forall_mem_singleton.mpr (.child (.letter (a := 'c') (by decide)) .first)⟩
  obtain ⟨hcreated, hvalued⟩ := createPath_isSelected (Context.settled_atTop _) hroot rfl (by decide +kernel) hstart
    (by decide) htext hplain
  have hpath : ((Context.atTop.createPath stockHost "a/b[2]/./c").runOn (.holding nestedMember)).1.toOption.map
      (·.pathText (.holding nestedMember)) = some "/a/b[2]/c" := by decide +kernel
  have hnarrow : (Pointer.firstTop.listing ((Context.atTop.createPath stockHost "a/b[2]/./c").runOn
      (.holding nestedMember)).2).length ≤ Number.exactBound := by decide +kernel
  have hok : ((Context.atTop.createPathAndSetValue stockHost "a/b[2]/./c" prefixedValue).runOn
      (.holding nestedMember)).1.isOk = true := by decide +kernel
  have hnarrow' : (Pointer.firstTop.listing ((Context.atTop.createPathAndSetValue stockHost "a/b[2]/./c"
      prefixedValue).runOn (.holding nestedMember)).2).length ≤ Number.exactBound := by decide +kernel
  constructor
  · rcases hrun : (Context.atTop.createPath stockHost "a/b[2]/./c").runOn (.holding nestedMember) with ⟨e | p, st'⟩
    · rw [hrun] at hpath
      cases hpath
    · rw [hrun] at hpath hnarrow
      exact ⟨p, st', rfl, Option.some.inj hpath, hcreated p st' hrun hnarrow⟩
  · rcases hrun : (Context.atTop.createPathAndSetValue stockHost "a/b[2]/./c" prefixedValue).runOn
      (.holding nestedMember) with ⟨e | p, st'⟩
    · rw [hrun] at hok
      cases hok
    · rw [hrun] at hnarrow'
      obtain ⟨w, hread, hsame⟩ := hvalued prefixedValue p st' (.object rfl) hrun hnarrow'
      obtain rfl : w = prefixedValue := by cases w <;> exact hsame
      exact ⟨p, st', rfl, hread⟩

end NodePath
