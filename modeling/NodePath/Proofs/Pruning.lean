/-
# NodePath.Proofs.Pruning — documents with parts left out

A document without the parts at some places is made at once, part by part. It is also made by taking the parts out one
after the other, if none of those that are gone lies above the next one or in front of it in an array: then the next one
is still at its place.

* §A  `Json.without`.
* §B  `Disturbs`: what must not be gone for a part to be at its place.
* §C  Parts that are not disturbed.
* §D  Taking out one part more.
* §E  What is left is no worse a document.
-/
import NodePath.Proofs.PlacePath

namespace NodePath

/-! ## §A  Leaving out -/

namespace Json

mutual
/-- **without** is a document without the parts at some places below it. What is left keeps its order, and the elements of
an array move up. -/
def without (gone : List Segment → Bool) : Json → Json
  | array items => array (withoutItems gone 0 items)
  | object members => object (withoutMembers gone members)
  | j => j
termination_by structural j => j
/-- The same of elements, the first of which has the index `i`. -/
def withoutItems (gone : List Segment → Bool) (i : Nat) : List Json → List Json
  | [] => []
  | j :: js =>
    if gone [.index i] then withoutItems gone (i + 1) js
    else j.without (fun path => gone (.index i :: path)) :: withoutItems gone (i + 1) js
termination_by structural js => js
/-- The same of members. -/
def withoutMembers (gone : List Segment → Bool) : List (String × Json) → List (String × Json)
  | [] => []
  | (k, j) :: ms =>
    if gone [.key k] then withoutMembers gone ms
    else (k, j.without fun path => gone (.key k :: path)) :: withoutMembers gone ms
termination_by structural ms => ms
end

mutual
/-- Where nothing is gone, all is left. -/
theorem without_none {gone : List Segment → Bool} (h : ∀ path, gone path = false) : ∀ j : Json, j.without gone = j
  | array items => by rw [without, withoutItems_none h]
  | object members => by rw [without, withoutMembers_none h]
  | null => rfl
  | bool _ => rfl
  | int _ => rfl
  | double _ => rfl
  | text _ => rfl
theorem withoutItems_none {gone : List Segment → Bool} (h : ∀ path, gone path = false) {i : Nat} :
    ∀ items : List Json, withoutItems gone i items = items
  | [] => rfl
  | j :: js => by
    rw [withoutItems, h, without_none (fun _ => h _) j, withoutItems_none h js]
    rfl
theorem withoutMembers_none {gone : List Segment → Bool} (h : ∀ path, gone path = false) :
    ∀ ms : List (String × Json), withoutMembers gone ms = ms
  | [] => rfl
  | (k, j) :: ms => by
    rw [withoutMembers, h, without_none (fun _ => h _) j, withoutMembers_none h ms]
    rfl
end

end Json

/-! ## §B  Disturbing -/

/-- **Disturbs** says that the part at a place is no more where it was when another one is gone: that one is above it, or an
element that stands no later in the same array. -/
def Disturbs : List Segment → List Segment → Prop
  | [], _ => True
  | _ :: _, [] => False
  | [.index i], .index k :: _ => i ≤ k
  | s :: g, t :: q => s = t ∧ Disturbs g q

theorem Disturbs.cons {s : Segment} {g q : List Segment} (h : Disturbs g q) : Disturbs (s :: g) (s :: q) := by
  match s, g with
  | .index i, [] => exact Nat.le_refl i
  | .index i, t :: g => exact ⟨rfl, h⟩
  | .key k, g => exact ⟨rfl, h⟩

namespace Json

variable {gone : List Segment → Bool} {n i : Nat} {items : List Json} {ms : Members} {k : String}

/-! ## §C  Parts in their places -/

/-- Where no earlier element is gone, an element has its index. -/
theorem getElem?_withoutItems (h : ∀ k ≤ i, gone [.index (n + k)] = false) :
    (withoutItems gone n items)[i]? = items[i]?.map (without fun path => gone (.index (n + i) :: path)) := by
  -- The index counts from the elements that are left to go through: it goes down while the number of those before goes up.
  induction items generalizing n i with
  | nil => simp [withoutItems]
  | cons j js ih =>
    have hfirst : gone [.index n] = false := h 0 (Nat.zero_le _)
    rw [withoutItems, if_neg (by simp [hfirst])]
    cases i with
    | zero => simp
    | succ i =>
      have hlater := ih (n := n + 1) (i := i) fun k hk => by
        rw [Nat.add_assoc, Nat.add_comm 1 k]
        exact h (k + 1) (Nat.succ_le_succ hk)
      rw [List.getElem?_cons_succ, List.getElem?_cons_succ, hlater, Nat.add_assoc, Nat.add_comm 1 i]

/-- A member that is not gone is found. -/
theorem get?_withoutMembers (h : gone [.key k] = false) :
    Members.get? (withoutMembers gone ms) k = (Members.get? ms k).map (without fun path => gone (.key k :: path)) := by
  induction ms with
  | nil => rfl
  | cons m ms ih =>
    obtain ⟨k', j⟩ := m
    rw [withoutMembers]
    by_cases hk : k' = k
    · subst hk
      rw [if_neg (by simp [h])]
      simp [Members.get?]
    · have hne : (k' == k) = false := beq_eq_false_iff_ne.mpr hk
      have hskip : ∀ (j : Json) (ms : Members), Members.get? ((k', j) :: ms) k = Members.get? ms k := by
        intro j ms
        simp [Members.get?, hne]
      split
      · rw [ih, hskip]
      · rw [hskip, ih, hskip]

/-- What is not gone on the way down to a part that is not disturbed. -/
theorem child?_without {j : Json} {s : Segment} {q : List Segment}
    (h : ∀ g, gone g = true → ¬Disturbs g (s :: q)) :
    (j.without gone).child? s = (j.child? s).map (without fun path => gone (s :: path)) := by
  have hfalse : ∀ g, Disturbs g (s :: q) → gone g = false := fun g hg =>
    Bool.eq_false_iff.mpr fun hgone => h g hgone hg
  cases j with
  | array items =>
    cases s with
    | key k => rfl
    | index i =>
      have hlow : ∀ k ≤ i, gone [.index (0 + k)] = false := fun k hk => hfalse _ (by simpa [Disturbs] using hk)
      have hitems : (withoutItems gone 0 items)[i]? = _ := getElem?_withoutItems hlow
      rw [Nat.zero_add] at hitems
      exact hitems
  | object ms =>
    cases s with
    | index i => rfl
    | key k => exact get?_withoutMembers (hfalse _ ⟨rfl, trivial⟩)
  | _ => cases s <;> rfl

/-- What is at a place that is not disturbed. -/
theorem at?_without {j : Json} {q : List Segment} (h : ∀ g, gone g = true → ¬Disturbs g q) :
    (j.without gone).at? q = (j.at? q).map (without fun path => gone (q ++ path)) := by
  induction q generalizing j gone with
  | nil => rfl
  | cons s q ih =>
    rw [at?, at?, child?_without h]
    cases j.child? s with
    | none => rfl
    | some c => exact ih fun g hg hdisturbs => h (s :: g) hg hdisturbs.cons

/-! ## §D  One part more -/

variable {more : List Segment → Bool}

theorem withoutItems_congr (h : ∀ k, n ≤ k → ∀ path, more (.index k :: path) = gone (.index k :: path)) :
    withoutItems more n items = withoutItems gone n items := by
  induction items generalizing n with
  | nil => rfl
  | cons j js ih =>
    have hpart : (fun path => more (.index n :: path)) = fun path => gone (.index n :: path) :=
      funext (h n (Nat.le_refl n))
    rw [withoutItems, withoutItems, h n (Nat.le_refl n), hpart, ih fun k hk => h k (Nat.le_of_succ_le hk)]

/-- What is gone more of an array is what is gone more at one index. -/
theorem set_withoutItems (h : ∀ k ≤ i, gone [.index (n + k)] = false) (hi : i < items.length)
    (hsame : ∀ k, k ≠ n + i → ∀ path, more (.index k :: path) = gone (.index k :: path)) :
    withoutItems more n items =
      if more [.index (n + i)] then (withoutItems gone n items).eraseIdx i
      else (withoutItems gone n items).set i (items[i].without fun path => more (.index (n + i) :: path)) := by
  induction items generalizing n i with
  | nil => cases hi
  | cons j js ih =>
    have hfirst : gone [.index n] = false := h 0 (Nat.zero_le _)
    cases i with
    | zero =>
      have hrest : withoutItems more (n + 1) js = withoutItems gone (n + 1) js :=
        withoutItems_congr fun k hk path => hsame k (by omega) path
      simp only [withoutItems, hfirst, Bool.false_eq_true, if_false, hrest, Nat.add_zero]
      split <;> simp
    | succ i =>
      have hnew : more [.index n] = false := (hsame n (by omega) []).trans hfirst
      have hpart : (fun path => more (.index n :: path)) = fun path => gone (.index n :: path) :=
        funext (hsame n (by omega))
      have hassoc : n + (i + 1) = n + 1 + i := by omega
      have hlater := ih (n := n + 1) (i := i)
        (fun k hk => by rw [Nat.add_assoc, Nat.add_comm 1 k]; exact h (k + 1) (Nat.succ_le_succ hk))
        (Nat.lt_of_succ_lt_succ hi) fun k hk => hsame k (by omega)
      simp only [withoutItems, hfirst, hnew, Bool.false_eq_true, if_false, hpart, hassoc, hlater, List.getElem_cons_succ]
      split <;> simp

theorem withoutMembers_congr (h : ∀ m ∈ ms, ∀ path, more (.key m.1 :: path) = gone (.key m.1 :: path)) :
    withoutMembers more ms = withoutMembers gone ms := by
  induction ms with
  | nil => rfl
  | cons m ms ih =>
    obtain ⟨k, j⟩ := m
    obtain ⟨hfirst, hrest⟩ := List.forall_mem_cons.mp h
    have hpart : (fun path => more (.key k :: path)) = fun path => gone (.key k :: path) := funext hfirst
    rw [withoutMembers, withoutMembers, hfirst, hpart, ih hrest]

/-- What is gone more of an object is what is gone more of one member. -/
theorem set_withoutMembers (hkeys : (ms.map (·.1)).Nodup) (h : gone [.key k] = false) {c : Json}
    (hc : Members.get? ms k = some c)
    (hsame : ∀ k', k' ≠ k → ∀ path, more (.key k' :: path) = gone (.key k' :: path)) :
    withoutMembers more ms =
      if more [.key k] then Members.erase k (withoutMembers gone ms)
      else Members.set k (c.without fun path => more (.key k :: path)) (withoutMembers gone ms) := by
  induction ms with
  | nil => cases hc
  | cons m ms ih =>
    obtain ⟨k', j⟩ := m
    obtain ⟨hnew, hkeys⟩ := List.nodup_cons.mp hkeys
    by_cases hk : k' = k
    · subst hk
      obtain rfl : j = c := by simpa [Members.get?] using hc
      have hrest : withoutMembers more ms = withoutMembers gone ms := by
        refine withoutMembers_congr fun m hm path => hsame m.1 ?_ path
        rintro rfl
        exact hnew (List.mem_map.mpr ⟨m, hm, rfl⟩)
      simp only [withoutMembers, h, Bool.false_eq_true, if_false, hrest]
      split <;> simp [Members.erase, Members.set]
    · have hne : (k' == k) = false := beq_eq_false_iff_ne.mpr hk
      have hget : Members.get? ms k = some c := by simpa [Members.get?, hne] using hc
      have hpart : (fun path => more (.key k' :: path)) = fun path => gone (.key k' :: path) := funext (hsame k' hk)
      have hfirst : more [.key k'] = gone [.key k'] := hsame k' hk []
      have hlater := ih hkeys hget
      simp only [withoutMembers, hfirst, hpart, hlater]
      cases gone [.key k'] <;> cases more [.key k] <;> simp [Members.erase, Members.set, hk]

section

variable {j c : Json} {s : Segment} {q : List Segment}

theorem gone_eq_false (h : ∀ g, gone g = true → ¬Disturbs g q) {g : List Segment} (hg : Disturbs g q) : gone g = false :=
  Bool.eq_false_iff.mpr fun hgone => h g hgone hg

/-- What is left of a part, taken out or put in the place of what was left before. -/
theorem changeChild?_without (hkeys : j.keysApart = true) (hc : j.child? s = some c)
    (h : ∀ g, gone g = true → ¬Disturbs g (s :: q))
    (hsame : ∀ t, t ≠ s → ∀ path, more (t :: path) = gone (t :: path)) :
    (if more [s] then (j.without gone).eraseChild? s
      else (j.without gone).setChild? s (c.without fun path => more (s :: path))) = some (j.without more) := by
  have hchild := child?_without (j := j) h
  rw [hc, Option.map_some] at hchild
  cases j with
  | array items =>
    cases s with
    | key k => cases hc
    | index i =>
      obtain ⟨hi, rfl⟩ := List.getElem?_eq_some_iff.mp hc
      have hlength : i < (withoutItems gone 0 items).length := (List.getElem?_eq_some_iff.mp hchild).1
      have hlow : ∀ k ≤ i, gone [.index (0 + k)] = false := fun k hk =>
        gone_eq_false h (by simpa [Disturbs] using hk)
      have hothers : ∀ k, k ≠ 0 + i → ∀ path, more (.index k :: path) = gone (.index k :: path) := fun k hk =>
        hsame (.index k) (by simpa using hk)
      have hset := set_withoutItems hlow hi hothers
      rw [Nat.zero_add] at hset
      simp only [without, eraseChild?, setChild?, hlength, if_true, hset]
      split <;> rfl
  | object ms =>
    cases s with
    | index i => cases hc
    | key k =>
      have hfound : (Members.get? (withoutMembers gone ms) k).isSome = true := Option.isSome_of_eq_some hchild
      have hothers : ∀ k', k' ≠ k → ∀ path, more (.key k' :: path) = gone (.key k' :: path) := fun k' hk =>
        hsame (.key k') (by simpa using hk)
      have hset := set_withoutMembers (nodup_of_keysApart hkeys) (gone_eq_false h ⟨rfl, trivial⟩) hc hothers
      simp only [without, eraseChild?, setChild?, hfound, if_true, hset]
      split <;> rfl
  | _ => cases s <;> cases hc

/-- **Taking out a part that is not disturbed** leaves the document without one part more. -/
theorem erase?_without (hq : q ≠ []) (hkeys : j.keysApart = true) (hsome : (j.at? q).isSome)
    (h : ∀ g, gone g = true → ¬Disturbs g q) :
    (j.without gone).erase? q = some (j.without fun path => gone path || path == q) := by
  induction q generalizing j gone with
  | nil => exact absurd rfl hq
  | cons s q ih =>
    obtain ⟨c, hc, hsome⟩ : ∃ c, j.child? s = some c ∧ (c.at? q).isSome := by
      rw [at?] at hsome
      cases hc : j.child? s with
      | none => rw [hc] at hsome; cases hsome
      | some c => rw [hc] at hsome; exact ⟨c, rfl, hsome⟩
    obtain ⟨more, hmore⟩ : ∃ more : List Segment → Bool, more = fun path => gone path || path == s :: q := ⟨_, rfl⟩
    rw [← hmore]
    have hother : ∀ t, t ≠ s → ∀ path, more (t :: path) = gone (t :: path) := by
      intro t ht path
      have hne : (t :: path == s :: q) = false := beq_eq_false_iff_ne.mpr fun he => ht (List.cons.inj he).1
      rw [hmore]
      dsimp only
      rw [hne, Bool.or_false]
    -- The part one step down is not gone itself; what is gone below it is told from there.
    have hhere : gone [s] = false := gone_eq_false h (Disturbs.cons trivial)
    have hchange := changeChild?_without hkeys hc h hother
    cases q with
    | nil =>
      have hone : more [s] = true := by simp [hmore]
      rw [if_pos hone] at hchange
      exact hchange
    | cons t q =>
      have hone : more [s] = false := by simp [hmore, hhere]
      have hbelow : (fun path => more (s :: path)) = fun path => gone (s :: path) || path == t :: q := by
        funext path
        simp [hmore]
      have hpart := ih (List.cons_ne_nil _ _) ((child?_spec hc).2 hkeys) hsome fun g hg hd => h (s :: g) hg hd.cons
      rw [if_neg (by simp [hone]), hbelow] at hchange
      have hdown : ((j.without gone).child? s) = some (c.without fun path => gone (s :: path)) := by
        rw [child?_without h, hc, Option.map_some]
      have hstep : ∀ j : Json, j.erase? (s :: t :: q) =
          (j.child? s).bind fun c => (erase? (t :: q) c).bind (j.setChild? s) := by
        intro j
        rw [erase?]
        · cases j.child? s <;> rfl
        · intro h
          cases h
      rw [hstep, hdown, Option.bind_some, hpart, Option.bind_some, hchange]

end

/-! ## §E  What is left -/

/-- The keys of what is left of an object are some of its keys, in their order. -/
theorem keys_withoutMembers (gone : List Segment → Bool) (ms : Members) :
    ((withoutMembers gone ms).map (·.1)).Sublist (ms.map (·.1)) := by
  induction ms with
  | nil => exact .slnil
  | cons m ms ih =>
    rw [withoutMembers]
    split
    · exact ih.cons _
    · exact ih.cons_cons _

mutual
/-- What holds of the keys of every object of a document, and of fewer keys, holds of what is left of it. -/
theorem everyObject_without {holds : Members → Bool}
    (hfewer : ∀ ms ms' : Members, (ms'.map (·.1)).Sublist (ms.map (·.1)) → holds ms = true → holds ms' = true) :
    ∀ (j : Json) (gone : List Segment → Bool), j.everyObject holds = true → (j.without gone).everyObject holds = true
  | array items, gone, h => by
    rw [without, everyObject]
    exact everyObjectItems_without hfewer items gone 0 h
  | object ms, gone, h => by
    obtain ⟨hms, hparts⟩ := (Bool.and_eq_true _ _).mp h
    rw [without, everyObject, hfewer ms _ (keys_withoutMembers gone ms) hms]
    exact everyObjectMembers_without hfewer ms gone hparts
  | null, _, _ => rfl
  | bool _, _, _ => rfl
  | int _, _, _ => rfl
  | double _, _, _ => rfl
  | text _, _, _ => rfl
theorem everyObjectItems_without {holds : Members → Bool}
    (hfewer : ∀ ms ms' : Members, (ms'.map (·.1)).Sublist (ms.map (·.1)) → holds ms = true → holds ms' = true) :
    ∀ (items : List Json) (gone : List Segment → Bool) (i : Nat), everyObjectItems holds items = true →
      everyObjectItems holds (withoutItems gone i items) = true
  | [], _, _, _ => rfl
  | j :: js, gone, i, h => by
    obtain ⟨hj, hjs⟩ := (Bool.and_eq_true _ _).mp h
    have hrest := everyObjectItems_without hfewer js gone (i + 1) hjs
    rw [withoutItems]
    split
    · exact hrest
    · rw [everyObjectItems, everyObject_without hfewer j _ hj, hrest]
      rfl
theorem everyObjectMembers_without {holds : Members → Bool}
    (hfewer : ∀ ms ms' : Members, (ms'.map (·.1)).Sublist (ms.map (·.1)) → holds ms = true → holds ms' = true) :
    ∀ (ms : List (String × Json)) (gone : List Segment → Bool), everyObjectMembers holds ms = true →
      everyObjectMembers holds (withoutMembers gone ms) = true
  | [], _, _ => rfl
  | (k, j) :: ms, gone, h => by
    obtain ⟨hj, hms⟩ := (Bool.and_eq_true _ _).mp h
    have hrest := everyObjectMembers_without hfewer ms gone hms
    rw [withoutMembers]
    split
    · exact hrest
    · rw [everyObjectMembers, everyObject_without hfewer j _ hj, hrest]
      rfl
end

mutual
/-- That keys are apart is said of every object. -/
theorem keysApart_eq : ∀ j : Json, j.keysApart = j.everyObject fun ms => decide (ms.map (·.1)).Nodup
  | array items => by rw [keysApart, everyObject, keysApartItems_eq items]
  | object ms => by rw [keysApart, everyObject, keysApartMembers_eq ms]
  | null => rfl
  | bool _ => rfl
  | int _ => rfl
  | double _ => rfl
  | text _ => rfl
theorem keysApartItems_eq : ∀ items : List Json,
    keysApartItems items = everyObjectItems (fun ms => decide (ms.map (·.1)).Nodup) items
  | [] => rfl
  | j :: js => by rw [keysApartItems, everyObjectItems, keysApart_eq j, keysApartItems_eq js]
theorem keysApartMembers_eq : ∀ ms : List (String × Json),
    keysApartMembers ms = everyObjectMembers (fun ms => decide (ms.map (·.1)).Nodup) ms
  | [] => rfl
  | (k, j) :: ms => by rw [keysApartMembers, everyObjectMembers, keysApart_eq j, keysApartMembers_eq ms]
end

theorem keysApart_without {j : Json} (h : j.keysApart = true) (gone : List Segment → Bool) :
    (j.without gone).keysApart = true := by
  rw [keysApart_eq] at h ⊢
  refine everyObject_without (fun ms ms' hfewer hms => ?_) j gone h
  exact decide_eq_true ((of_decide_eq_true hms).sublist hfewer)

theorem addressable_without {j : Json} (h : j.addressable = true) (gone : List Segment → Bool) :
    (j.without gone).addressable = true := by
  refine everyObject_without (fun ms ms' hfewer hms => ?_) j gone h
  obtain ⟨hkeys, hlocal⟩ := apartByName_iff.mp hms
  refine apartByName_iff.mpr ⟨fun m hm => ?_, ?_⟩
  · obtain ⟨m', hm', he⟩ := List.mem_map.mp (hfewer.mem (List.mem_map_of_mem hm))
    exact he ▸ hkeys m' hm'
  · have hmap : ∀ ms : Members, (ms.map fun m => localKey m.1) = (ms.map (·.1)).map localKey := fun ms => by
      rw [List.map_map]
      rfl
    rw [hmap] at hlocal ⊢
    exact hlocal.sublist (hfewer.map _)

/-- Whether it is an array is not changed. -/
theorem isArray_without (gone : List Segment → Bool) (j : Json) : (j.without gone).isArray = j.isArray := by
  cases j <;> rfl

mutual
/-- **nodesBelow** is the number of nodes below a part: a member that is no array is a child and an attribute, and the
elements of an array are children. -/
def nodesBelow : Json → Nat
  | array items => nodesBelowItems items
  | object members => nodesBelowMembers members
  | _ => 0
termination_by structural j => j
/-- The number of elements and the nodes below them. -/
def nodesBelowItems : List Json → Nat
  | [] => 0
  | j :: js => j.nodesBelow + 1 + nodesBelowItems js
termination_by structural js => js
/-- The number of children and attributes that members make, and the nodes below them. -/
def nodesBelowMembers : List (String × Json) → Nat
  | [] => 0
  | (_, j) :: ms => j.nodesBelow + (if j.isArray then 0 else 2) + nodesBelowMembers ms
termination_by structural ms => ms
end

mutual
/-- What is left of a document has no more nodes. -/
theorem nodesBelow_without : ∀ (j : Json) (gone : List Segment → Bool), (j.without gone).nodesBelow ≤ j.nodesBelow
  | array items, gone => by
    rw [without, nodesBelow, nodesBelow]
    exact nodesBelowItems_without items gone 0
  | object ms, gone => by
    rw [without, nodesBelow, nodesBelow]
    exact nodesBelowMembers_without ms gone
  | null, _ => Nat.le_refl _
  | bool _, _ => Nat.le_refl _
  | int _, _ => Nat.le_refl _
  | double _, _ => Nat.le_refl _
  | text _, _ => Nat.le_refl _
theorem nodesBelowItems_without : ∀ (items : List Json) (gone : List Segment → Bool) (i : Nat),
    nodesBelowItems (withoutItems gone i items) ≤ nodesBelowItems items
  | [], _, _ => Nat.le_refl _
  | j :: js, gone, i => by
    have hrest := nodesBelowItems_without js gone (i + 1)
    rw [withoutItems]
    split
    · exact Nat.le_trans hrest (Nat.le_add_left _ _)
    · have hpart := nodesBelow_without j fun path => gone (.index i :: path)
      rw [nodesBelowItems, nodesBelowItems]
      omega
theorem nodesBelowMembers_without : ∀ (ms : List (String × Json)) (gone : List Segment → Bool),
    nodesBelowMembers (withoutMembers gone ms) ≤ nodesBelowMembers ms
  | [], _ => Nat.le_refl _
  | (k, j) :: ms, gone => by
    have hrest := nodesBelowMembers_without ms gone
    rw [withoutMembers]
    split
    · exact Nat.le_trans hrest (Nat.le_add_left _ _)
    · have hpart := nodesBelow_without j fun path => gone (.key k :: path)
      rw [nodesBelowMembers, nodesBelowMembers, isArray_without]
      omega
end

end Json

section

variable {st : Store} {d : DocId} {j part : Json} {b : Option VarRef} {n : QName} {path : List Segment} {m : Nat}

/-- What is counted at the elements of an array. -/
theorem sum_elementsBelow {above : List Segment} {items : List Json} {f : List Segment → Nat}
    (hf : ∀ i (hi : i < items.length), f (above ++ [.index i]) = items[i].nodesBelow + 1) :
    ((JsonRef.elementsBelow above items.length).map f).sum = Json.nodesBelowItems items := by
  have hmap : (JsonRef.elementsBelow above items.length).map f = items.map fun j => j.nodesBelow + 1 := by
    refine List.ext_getElem (by simp [JsonRef.elementsBelow]) fun i hi hi' => ?_
    simpa [JsonRef.elementsBelow] using hf i (by simpa using hi')
  rw [hmap]
  clear hf hmap
  induction items with
  | nil => rfl
  | cons j js ih => rw [List.map_cons, List.sum_cons, ih, Json.nodesBelowItems]

/-- What is counted at the children of an object, and its attributes. -/
theorem sum_memberPaths {ms : Json.Members} {f : List Segment → Nat}
    (hleaf : ∀ m ∈ ms, m.2.isArray = false → f [.key m.1] = m.2.nodesBelow + 1)
    (hitem : ∀ m ∈ ms, ∀ items, m.2 = .array items → ∀ i (hi : i < items.length),
      f [.key m.1, .index i] = items[i].nodesBelow + 1) :
    ((ms.flatMap JsonRef.memberPaths).map f).sum + (JsonRef.attributePaths (.object ms)).length =
      Json.nodesBelowMembers ms := by
  induction ms with
  | nil => rfl
  | cons m ms ih =>
    obtain ⟨hleafm, hleaf⟩ := List.forall_mem_cons.mp hleaf
    obtain ⟨hitemm, hitem⟩ := List.forall_mem_cons.mp hitem
    have hrest := ih hleaf hitem
    obtain ⟨k, j⟩ := m
    have hmember : ((JsonRef.memberPaths (k, j)).map f).sum +
        (if j.isArray then 0 else 1) = j.nodesBelow + if j.isArray then 0 else 2 := by
      cases j with
      | array items => exact sum_elementsBelow (hitemm items rfl)
      | _ =>
        have hone := hleafm rfl
        simp only [JsonRef.memberPaths, List.map_cons, List.map_nil, List.sum_cons, List.sum_nil, hone, Json.isArray]
        rfl
    have hattributes : (JsonRef.attributePaths (.object ((k, j) :: ms))).length =
        (if j.isArray then 0 else 1) + (JsonRef.attributePaths (.object ms)).length := by
      cases hj : j.isArray <;> simp [JsonRef.attributePaths, hj, Nat.add_comm]
    rw [List.flatMap_cons, List.map_append, List.sum_append, hattributes, Json.nodesBelowMembers]
    omega

/-- What is listed from a part: itself, its attributes, and what is listed from the places of its children. -/
theorem listingFrom_json (hj : st.document? d = some j) (hpart : j.at? path = some part) (m : Nat) :
    (Pointer.json ⟨d, path, false, b, n⟩).listingFrom st (m + 1) = .json ⟨d, path, false, b, n⟩ ::
      ((JsonRef.attributePaths part).map (fun more => .json ⟨d, path ++ more, true, b, n⟩) ++
        (JsonRef.childPaths (JsonRef.mk d path false b n).isMember part).flatMap fun more =>
          (Pointer.json ⟨d, path ++ more, false, b, n⟩).listingFrom st m) := by
  have hat : st.at? d path = some part := Store.at?_of_document? hj hpart
  rw [Pointer.listingFrom, JsonRef.children_of_at? rfl hat, JsonRef.attributes_of_at? rfl hat, List.map_map,
    List.map_map, List.flatMap_map]
  rfl

/-- **The nodes of a part** are counted. -/
theorem length_listingFrom (hj : st.document? d = some j) (hkeys : j.keysApart = true) (hpart : j.at? path = some part)
    (hnode : ∀ k, path.getLast? = some (.key k) → part.isArray = false) (hm : part.height ≤ m) :
    ((Pointer.json ⟨d, path, false, b, n⟩).listingFrom st m).length = part.nodesBelow + 1 := by
  induction m generalizing path part with
  | zero => exact absurd part.height_pos (by omega)
  | succ m ih =>
    -- What is listed from a child gets a name here, so that rewriting does not unfold it.
    obtain ⟨f, hf⟩ : ∃ f : List Segment → Nat,
        f = fun more => ((Pointer.json ⟨d, path ++ more, false, b, n⟩).listingFrom st m).length := ⟨_, rfl⟩
    rw [listingFrom_json hj hpart, List.length_cons, List.length_append, List.length_map, List.length_flatMap, ← hf,
      Nat.add_comm (JsonRef.attributePaths part).length]
    have hbelow : ∀ {more : List Segment} {c : Json}, part.at? more = some c → more ≠ [] →
        (∀ k, more.getLast? = some (.key k) → c.isArray = false) → f more = c.nodesBelow + 1 := by
      intro more c hc hne hlast
      rw [hf]
      have hpart' : j.at? (path ++ more) = some c := (Json.at?_append_of_at? hpart more).trans hc
      refine ih hpart' (fun k hk => hlast k ?_) ?_
      · rwa [List.getLast?_append_of_ne_nil _ hne] at hk
      · obtain ⟨s, rest, rfl⟩ := List.exists_cons_of_ne_nil hne
        have := Json.at?_cons_height hc
        omega
    congr 1
    cases part with
    | object ms =>
      have hkeys' := (Json.at?_spec hpart).2 hkeys
      have hget : ∀ m ∈ ms, (Json.object ms).child? (.key m.1) = some m.2 := fun m hm => Json.child?_of_mem hkeys' hm
      refine sum_memberPaths (fun m hm hleaf => ?_) fun m hm items hitems i hi => ?_
      · refine hbelow (by rw [Json.at?, hget m hm]; rfl) (List.cons_ne_nil _ _) fun _ _ => hleaf
      · refine hbelow ?_ (List.cons_ne_nil _ _) fun _ h => by cases h
        rw [Json.at?, hget m hm, hitems, Option.bind_some, Json.at?, Json.child?, List.getElem?_eq_getElem hi]
        rfl
    | array items =>
      have hmember : (JsonRef.mk d path false b n).isMember = false := by
        rw [JsonRef.isMember]
        split
        · next k hk => exact absurd (hnode k hk) (by simp [Json.isArray])
        · rfl
      rw [hmember]
      refine sum_elementsBelow fun i hi => ?_
      refine hbelow ?_ (List.cons_ne_nil _ _) fun _ h => by cases h
      rw [List.nil_append, Json.at?, Json.child?, List.getElem?_eq_getElem hi]
      rfl
    | _ => rfl

end

end NodePath
