/-
# NodePath.Proofs.Enumeration — comparison is the order of enumeration

The nodes of a tree can be written down in a row: a node first, then its attributes, then the same of each of its
children. That row is given here by its rule alone, with no bound on how deep the tree is. Comparing two nodes, which
looks at nothing but the chains of nodes above them, finds out which of them comes first in the row.

* §A  `Reached`, the nodes that one comes to from the top.
* §B  `Enumerates`, the rule of the row.
* §C  A list in document order is compared by places.
* §D  Documents.
-/
import Mathlib.Order.Defs.Unbundled
import NodePath.Proofs.Documents

namespace NodePath

/-! ## §A  Nodes that are reached -/

/-- **Reached** are the nodes that one comes to from a node through children and attributes, again and again. -/
inductive Reached (st : Store) (root : Pointer) : Pointer → Prop
  | root : Reached st root root
  | child {p c : Pointer} : Reached st root p → c ∈ p.children st → Reached st root c
  | attr {p a : Pointer} : Reached st root p → a ∈ p.attributes st → Reached st root a

section

variable {st : Store} {root p : Pointer} {height : Pointer → Nat}

theorem Inside.reached (h : Inside st root p) : Reached st root p := by
  induction h with
  | root => exact .root
  | child _ hc ih => exact .child ih hc

theorem InTree.reached (h : InTree st root p) : Reached st root p := by
  obtain ⟨q, hq, rfl | hp⟩ := h
  · exact hq.reached
  · exact .attr hq.reached hp

/-- Below an attribute nothing is reached. -/
theorem Rooted.reached_iff (h : Rooted st root height) : Reached st root p ↔ InTree st root p := by
  constructor
  · intro hp
    induction hp with
    | root => exact ⟨root, .root, .inl rfl⟩
    | child _ hc ih =>
      obtain ⟨q, hq, rfl | hattribute⟩ := ih
      · exact ⟨_, hq.child hc, .inl rfl⟩
      · rw [(h.attributes hq hattribute).2.1] at hc
        cases hc
    | attr _ ha ih =>
      obtain ⟨q, hq, rfl | hattribute⟩ := ih
      · exact ⟨_, hq, .inr ha⟩
      · rw [(h.attributes hq hattribute).2.2] at ha
        cases ha
  · exact InTree.reached

/-! ## §B  The rule of the row -/

/-- **Enumerates** says that a row has a node, then its attributes, then the rows of its children one after the
other. -/
inductive Enumerates (st : Store) : Pointer → List Pointer → Prop
  | node {p : Pointer} {rows : List (List Pointer)} :
    List.Forall₂ (Enumerates st) (p.children st) rows →
    Enumerates st p (p :: (p.attributes st ++ rows.flatten))

/-- Rows that are each told by a function are the values of that function. -/
theorem forall₂_eq_map {α β : Type} {f : α → β} {holds : α → β → Prop} {l : List α}
    (h : ∀ a ∈ l, ∀ b, holds a b ↔ b = f a) {l' : List β} : List.Forall₂ holds l l' ↔ l' = l.map f := by
  induction l generalizing l' with
  | nil => rw [List.forall₂_nil_left_iff, List.map_nil]
  | cons a l ih =>
    obtain ⟨ha, hl⟩ := List.forall_mem_cons.mp h
    rw [List.forall₂_cons_left_iff, List.map_cons]
    constructor
    · rintro ⟨b, l', hb, hl', rfl⟩
      rw [(ha b).mp hb, (ih hl).mp hl']
    · rintro rfl
      exact ⟨f a, l.map f, (ha _).mpr rfl, (ih hl).mpr rfl, rfl⟩

/-- **The row of a node is its listing**, whatever number of levels the listing goes down. -/
theorem Rooted.enumerates_iff (h : Rooted st root height) {m : Nat} (hp : Inside st root p) (hm : height p ≤ m)
    {row : List Pointer} : Enumerates st p row ↔ row = p.listingFrom st m := by
  induction m generalizing p row with
  | zero => exact absurd (h.height_pos hp) (by omega)
  | succ m ih =>
    -- the children are on fewer levels than their parent, so the rule holds of each of them
    have hchildren : ∀ c ∈ p.children st, ∀ row, Enumerates st c row ↔ row = c.listingFrom st m := by
      intro c hc row
      have hheight := (h.children hp hc).2
      exact ih (hp.child hc) (by omega)
    show Enumerates st p row ↔ row = p :: (p.attributes st ++ (p.children st).flatMap (·.listingFrom st m))
    constructor
    · rintro ⟨hrows⟩
      rw [(forall₂_eq_map hchildren).mp hrows, List.flatMap_def]
    · rintro rfl
      rw [List.flatMap_def]
      exact .node ((forall₂_eq_map hchildren).mpr rfl)

end

/-! ## §C  Places -/

section

variable {st : Store} {all : List Pointer} {i k : Nat}

/-- **Nodes are compared as their places are.** -/
theorem Listing.compare?_getElem (h : Listing st all) (hi : i < all.length) (hk : k < all.length) :
    all[i].compare? st all[k] = some (compare i k) ∧ ((all[i] == all[k]) = true ↔ i = k) := by
  have hbefore := List.pairwise_iff_getElem.mp h.before
  rcases Nat.lt_trichotomy i k with hlt | rfl | hgt
  · have hb := hbefore i k hi hk hlt
    refine ⟨by rw [hb.1, Nat.compare_eq_lt.mpr hlt], fun hbeq => ?_, fun he => absurd he (by omega)⟩
    exact absurd (h.eq_of_beq _ (List.getElem_mem hi) _ (List.getElem_mem hk) hbeq) hb.ne
  · exact ⟨by rw [Pointer.compare?_self, Nat.compare_eq_eq.mpr rfl], fun _ => rfl, fun _ => beq_self_eq_true _⟩
  · have hb := hbefore k i hk hi hgt
    refine ⟨by rw [hb.2, Nat.compare_eq_gt.mpr hgt], fun hbeq => ?_, fun he => absurd he (by omega)⟩
    exact absurd (h.eq_of_beq _ (List.getElem_mem hi) _ (List.getElem_mem hk) hbeq) hb.ne.symm

/-- **The nodes of a list in document order** are totally ordered, with no node before itself. -/
theorem Listing.isStrictTotalOrder (h : Listing st all) {holds : Pointer → Prop} (hall : ∀ p, holds p → p ∈ all) :
    IsStrictTotalOrder {p // holds p} fun a b => a.1.compare? st b.1 = some .lt := by
  have hlt : ∀ i k (hi : i < all.length) (hk : k < all.length),
      all[i].compare? st all[k] = some .lt ↔ i < k := by
    intro i k hi hk
    rw [(h.compare?_getElem hi hk).1, Option.some.injEq, Nat.compare_eq_lt]
  have hplace : ∀ a : {p // holds p}, ∃ i, ∃ hi : i < all.length, all[i] = a.1 := fun a =>
    List.mem_iff_getElem.mp (hall a.1 a.2)
  refine { trichotomous := ?_, irrefl := ?_, trans := ?_ }
  · intro a b hab hba
    obtain ⟨i, hi, ha⟩ := hplace a
    obtain ⟨k, hk, hb⟩ := hplace b
    rw [← ha, ← hb, hlt] at hab
    rw [← ha, ← hb, hlt] at hba
    -- Neither comes before the other, so their places are the same.
    obtain rfl : i = k := by omega
    exact Subtype.ext (ha.symm.trans hb)
  · intro a hself
    rw [Pointer.compare?_self] at hself
    cases hself
  · intro a b c hab hbc
    obtain ⟨i, hi, ha⟩ := hplace a
    obtain ⟨k, hk, hb⟩ := hplace b
    obtain ⟨l, hl, hc⟩ := hplace c
    rw [← ha, ← hb, hlt] at hab
    rw [← hb, ← hc, hlt] at hbc
    rw [← ha, ← hc, hlt]
    omega

end

/-! ## §D  Documents -/

section

variable {st : Store} {d : DocId} {j : Json} {b : Option VarRef} {n : QName}

/-- **Comparison is document order.** The nodes that are reached in a document make one row by the rule of
enumeration; any two of them can be compared, and compare as their places in that row do; and they are the same only
at the same place. So the nodes of a document are in a strict total order. -/
theorem compare?_eq_compare_place (hj : st.document? d = some j) (hkeys : j.keysApart = true) :
    ∃ row, (∀ row', Enumerates st (.json (.root d b n)) row' ↔ row' = row) ∧
      (∀ p, Reached st (.json (.root d b n)) p ↔ p ∈ row) ∧
      (∀ i k, ∀ hi : i < row.length, ∀ hk : k < row.length,
        row[i].compare? st row[k] = some (compare i k) ∧ ((row[i] == row[k]) = true ↔ i = k)) ∧
      IsStrictTotalOrder {p // Reached st (.json (.root d b n)) p} fun p q => p.1.compare? st q.1 = some .lt := by
  have hrooted := rooted_document (b := b) (n := n) hj hkeys
  have hlisting := hrooted.listing (ranked_document hj hkeys)
  have hreached : ∀ p, Reached st (.json (.root d b n)) p ↔ p ∈ (Pointer.json (.root d b n)).listing st := by
    intro p
    rw [hrooted.reached_iff, hrooted.mem_listing]
  refine ⟨(Pointer.json (.root d b n)).listing st, ?_, hreached, ?_, ?_⟩
  · intro row'
    exact hrooted.enumerates_iff .root (hrooted.height_le .root)
  · intro i k hi hk
    exact hlisting.compare?_getElem hi hk
  · exact hlisting.isStrictTotalOrder fun p hp => (hreached p).mp hp

end

/-- An array among members, and an object that has attributes: the shapes of the ways down are all different. -/
def mixedDocument : Json :=
  .object [("a", .array [.int 1, .array [.object [("b", .null)]]]), ("c", .object [("d", .int 2)])]

/-- The row of that document: the attribute `c`, the elements of `a`, an array in an array with its object, and `c`
with its own attribute and child. -/
theorem compare?_eq_compare_place_mixed :
    ∃ row, row.map (·.pathText (.holding mixedDocument)) = ["/", "/@c", "/a[1]", "/a[2]", "/a[2]/node()[1]",
        "/a[2]/node()[1]/@b", "/a[2]/node()[1]/b", "/c", "/c/@d", "/c/d"] ∧
      Enumerates (.holding mixedDocument) .firstTop row ∧
      ∀ i k, ∀ hi : i < row.length, ∀ hk : k < row.length,
        row[i].compare? (.holding mixedDocument) row[k] = some (compare i k) := by
  have hj : (Store.holding mixedDocument).document? 0 = some mixedDocument := rfl
  have hkeys : mixedDocument.keysApart = true := by decide +kernel
  obtain ⟨row, hrow, -, hplaces, -⟩ := compare?_eq_compare_place (b := none) (n := .plain "") hj hkeys
  have hrooted := rooted_document (b := none) (n := .plain "") hj hkeys
  have hlisting := (hrooted.enumerates_iff .root (hrooted.height_le .root)).mp ((hrow row).mpr rfl)
  refine ⟨row, ?_, (hrow row).mpr rfl, fun i k hi hk => (hplaces i k hi hk).1⟩
  rw [hlisting]
  decide +kernel

end NodePath
