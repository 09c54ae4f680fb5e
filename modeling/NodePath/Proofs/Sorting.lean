/-
# NodePath.Proofs.Sorting — sorting in document order

Nodes are sorted by comparing two of them at a time. Where some list has all nodes in document order, the result
is what is left of that list when all other nodes are taken out of it.

* §A  `Pointer.Before` and `Listing`.
* §B  Distinct nodes.
* §C  Sorting by insertion.
* §D  `sortDistinct`.
-/
import Mathlib.Data.List.Forall2
import Mathlib.Data.List.Nodup
import NodePath.Pointer.Order

namespace NodePath

/-! ## §A  Listings -/

instance : ReflBEq QName := ⟨fun {n} => beq_self_eq_true n.written⟩

/-- A node is the same as itself. -/
theorem Pointer.same_self (p : Pointer) : p.same p = true := by
  induction p with
  | json r => simp [Pointer.same, JsonRef.same]
  | tree r => simp [Pointer.same, TreeRef.same]
  | var v => simp [Pointer.same, VarRef.same]
  | absent n => simp [Pointer.same]
  | absentUnder p n ih => simp [Pointer.same, ih]

instance : ReflBEq Pointer := ⟨fun {p} => p.same_self⟩

/-- **Before** says that a node comes before another one in document order, whichever way they are compared. -/
def Pointer.Before (st : Store) (p q : Pointer) : Prop :=
  p.compare? st q = some .lt ∧ q.compare? st p = some .gt

/-- **Listing** says that a list has nodes in document order, none of them twice. -/
structure Listing (st : Store) (all : List Pointer) : Prop where
  before : all.Pairwise (Pointer.Before st)
  eq_of_beq : ∀ p ∈ all, ∀ q ∈ all, p == q → p = q

section

variable {st : Store} {all ps qs sorted : List Pointer} {p q : Pointer}

theorem Pointer.compare?_self (p : Pointer) : p.compare? st p = some .eq := if_pos p.same_self

theorem Pointer.Before.ne (h : p.Before st q) : p ≠ q := by
  rintro rfl
  rw [Pointer.Before, Pointer.compare?_self] at h
  cases h.1

theorem Pointer.Before.asymm (h : p.Before st q) : ¬q.Before st p := by
  intro h'
  cases h.2.symm.trans h'.1

/-- Two lists with the same nodes, both in order, are the same list. -/
theorem eq_of_pairwise_before (hps : ps.Pairwise (Pointer.Before st)) (hqs : qs.Pairwise (Pointer.Before st))
    (hmem : ∀ p, p ∈ ps ↔ p ∈ qs) : ps = qs := by
  refine List.Perm.eq_of_pairwise (fun p q _ _ hb hb' => absurd hb' hb.asymm) hps hqs ?_
  exact (List.perm_ext_iff_of_nodup (hps.imp fun hb => hb.ne) (hqs.imp fun hb => hb.ne)).mpr hmem

namespace Listing

theorem nodup (h : Listing st all) : all.Nodup := h.before.imp fun hb => hb.ne

/-- One of two nodes comes before the other. -/
theorem total (h : Listing st all) (hp : p ∈ all) (hq : q ∈ all) (hne : p ≠ q) :
    p.Before st q ∨ q.Before st p := by
  obtain ⟨i, hi, rfl⟩ := List.mem_iff_getElem.mp hp
  obtain ⟨j, hj, rfl⟩ := List.mem_iff_getElem.mp hq
  rcases Nat.lt_trichotomy i j with hij | rfl | hij
  · exact .inl (List.pairwise_iff_getElem.mp h.before i j hi hj hij)
  · exact absurd rfl hne
  · exact .inr (List.pairwise_iff_getElem.mp h.before j i hj hi hij)

/-- A node that comes before another one stands in front of it. -/
theorem lt_of_before (h : Listing st all) {i j : Nat} {hi : i < all.length} {hj : j < all.length}
    (hb : all[i].Before st all[j]) : i < j := by
  rcases Nat.lt_trichotomy i j with hij | rfl | hij
  · exact hij
  · exact absurd rfl hb.ne
  · exact absurd (List.pairwise_iff_getElem.mp h.before j i hj hi hij) hb.asymm

theorem trans (h : Listing st all) {r : Pointer} (hp : p ∈ all) (hq : q ∈ all) (hr : r ∈ all) (hpq : p.Before st q)
    (hqr : q.Before st r) : p.Before st r := by
  obtain ⟨i, hi, rfl⟩ := List.mem_iff_getElem.mp hp
  obtain ⟨j, hj, rfl⟩ := List.mem_iff_getElem.mp hq
  obtain ⟨k, hk, rfl⟩ := List.mem_iff_getElem.mp hr
  exact List.pairwise_iff_getElem.mp h.before i k hi hk (Nat.lt_trans (h.lt_of_before hpq) (h.lt_of_before hqr))

/-- Among the nodes of a listing, a list contains what is a member of it. -/
theorem contains_iff_mem (h : Listing st all) (hps : ∀ p ∈ ps, p ∈ all) (hp : p ∈ all) :
    ps.contains p = true ↔ p ∈ ps := by
  rw [List.contains_iff_exists_mem_beq]
  constructor
  · rintro ⟨q, hq, hbeq⟩
    exact h.eq_of_beq p hp q (hps q hq) hbeq ▸ hq
  · exact fun hmem => ⟨p, hmem, p.same_self⟩

theorem mem_filter_contains (h : Listing st all) (hps : ∀ p ∈ ps, p ∈ all) : p ∈ all.filter ps.contains ↔ p ∈ ps := by
  rw [List.mem_filter]
  exact ⟨fun hp => (h.contains_iff_mem hps hp.1).mp hp.2, fun hp => ⟨hps p hp, (h.contains_iff_mem hps (hps p hp)).mpr hp⟩⟩

/-! ## §B  Distinct nodes -/

/-- What is kept of some nodes, when `kept` are kept already. -/
theorem distinct_from (h : Listing st all) (hps : ∀ p ∈ ps, p ∈ all) {kept : List Pointer}
    (hkept : ∀ p ∈ kept, p ∈ all) (hnodup : kept.Nodup) :
    let ds := ps.foldl (fun kept p => if kept.contains p then kept else p :: kept) kept
    ds.Nodup ∧ ∀ p, p ∈ ds ↔ p ∈ kept ∨ p ∈ ps := by
  induction ps generalizing kept with
  | nil => simpa using hnodup
  | cons p ps ih =>
    obtain ⟨hp, hps⟩ := List.forall_mem_cons.mp hps
    have hcontains := h.contains_iff_mem hkept hp
    rw [List.foldl_cons]
    -- What `==` finds in the list is the node itself, because all nodes are from one listing.
    by_cases hmem : p ∈ kept
    · rw [if_pos (hcontains.mpr hmem)]
      refine ⟨(ih hps hkept hnodup).1, fun q => ?_⟩
      rw [(ih hps hkept hnodup).2, List.mem_cons]
      constructor
      · rintro (hq | hq)
        · exact .inl hq
        · exact .inr (.inr hq)
      · rintro (hq | rfl | hq)
        · exact .inl hq
        · exact .inl hmem
        · exact .inr hq
    · rw [if_neg fun hc => hmem (hcontains.mp hc)]
      have hall : ∀ q ∈ p :: kept, q ∈ all := List.forall_mem_cons.mpr ⟨hp, hkept⟩
      have hnodup' : (p :: kept).Nodup := List.nodup_cons.mpr ⟨hmem, hnodup⟩
      refine ⟨(ih hps hall hnodup').1, fun q => ?_⟩
      rw [(ih hps hall hnodup').2, List.mem_cons, List.mem_cons]
      tauto

theorem nodup_distinct (h : Listing st all) (hps : ∀ p ∈ ps, p ∈ all) : (distinct ps).Nodup :=
  List.nodup_reverse.mpr (h.distinct_from hps (by simp) List.nodup_nil).1

theorem mem_distinct (h : Listing st all) (hps : ∀ p ∈ ps, p ∈ all) : p ∈ distinct ps ↔ p ∈ ps := by
  rw [distinct, List.mem_reverse, (h.distinct_from hps (by simp) List.nodup_nil).2]
  simp

/-! ## §C  Insertion -/

/-- A node is put where it belongs. -/
theorem insertBackwards (h : Listing st all) (hp : p ∈ all) (hall : ∀ q ∈ sorted, q ∈ all) (hnew : p ∉ sorted)
    (hsorted : sorted.Pairwise fun q p => p.Before st q) :
    (insertBackwards st p sorted).2 = none ∧ (insertBackwards st p sorted).1.Perm (p :: sorted) ∧
      (insertBackwards st p sorted).1.Pairwise fun q p => p.Before st q := by
  induction sorted with
  | nil => exact ⟨rfl, .refl _, List.pairwise_singleton _ p⟩
  | cons q qs ih =>
    obtain ⟨hq, hqs⟩ := List.forall_mem_cons.mp hall
    obtain ⟨hfirst, hrest⟩ := List.pairwise_cons.mp hsorted
    obtain ⟨hne, hnew⟩ := not_or.mp (List.mem_cons.not.mp hnew)
    rw [NodePath.insertBackwards]
    rcases h.total hp hq hne with hb | hb
    -- The node comes before the last one, so its place is further to the front.
    · obtain ⟨hnone, hperm, hpairwise⟩ := ih hqs hnew hrest
      simp only [hb.1]
      refine ⟨hnone, (hperm.cons q).trans (.swap p q qs), List.pairwise_cons.mpr ⟨fun r hr => ?_, hpairwise⟩⟩
      rcases List.mem_cons.mp (hperm.mem_iff.mp hr) with rfl | hr
      · exact hb
      · exact hfirst r hr
    · simp only [hb.2]
      refine ⟨trivial, .refl _, List.pairwise_cons.mpr ⟨fun r hr => ?_, hsorted⟩⟩
      rcases List.mem_cons.mp hr with rfl | hr
      · exact hb
      · exact h.trans (hqs r hr) hq hp (hfirst r hr) hb

/-- Nodes are put where they belong one after the other. -/
theorem sortFrom (h : Listing st all) (hps : ∀ p ∈ ps, p ∈ all) (hnodup : ps.Nodup) (hall : ∀ q ∈ sorted, q ∈ all)
    (hnew : ∀ p ∈ ps, p ∉ sorted) (hsorted : sorted.Pairwise fun q p => p.Before st q) :
    (sortFrom st sorted none ps).2 = none ∧ (sortFrom st sorted none ps).1.Perm (ps ++ sorted) ∧
      (sortFrom st sorted none ps).1.Pairwise fun q p => p.Before st q := by
  induction ps generalizing sorted with
  | nil => exact ⟨rfl, .refl _, hsorted⟩
  | cons p ps ih =>
    obtain ⟨hp, hps⟩ := List.forall_mem_cons.mp hps
    obtain ⟨hfresh, hnodup⟩ := List.nodup_cons.mp hnodup
    obtain ⟨hnewp, hnew⟩ := List.forall_mem_cons.mp hnew
    obtain ⟨hnone, hperm, hpairwise⟩ := h.insertBackwards hp hall hnewp hsorted
    rw [NodePath.sortFrom]
    generalize NodePath.insertBackwards st p sorted = inserted at hnone hperm hpairwise ⊢
    obtain ⟨sorted', failure⟩ := inserted
    obtain rfl : failure = none := hnone
    have hmem : ∀ {q}, q ∈ sorted' ↔ q = p ∨ q ∈ sorted := fun {q} => by rw [hperm.mem_iff, List.mem_cons]
    obtain ⟨hnone', hperm', hpairwise'⟩ := ih hps hnodup
      (fun q hq => (hmem.mp hq).elim (fun he => he ▸ hp) (hall q))
      (fun q hq hq' => (hmem.mp hq').elim (fun he => hfresh (he ▸ hq)) (hnew q hq)) hpairwise
    exact ⟨hnone', hperm'.trans ((hperm.append_left ps).trans List.perm_middle), hpairwise'⟩

/-! ## §D  Sorting -/

/-- **Sorting** keeps the nodes of the listing that are asked for. -/
theorem sortDistinct (h : Listing st all) (hps : ∀ p ∈ ps, p ∈ all) (order : Order) :
    sortDistinct st ps order = .ok
      (if order == .descending then (all.filter ps.contains).reverse else all.filter ps.contains) := by
  obtain ⟨hnone, hperm, hpairwise⟩ := h.sortFrom (fun p hp => hps p ((h.mem_distinct hps).mp hp))
    (h.nodup_distinct hps) (by simp) (by simp) List.Pairwise.nil
  have hsorted : (NodePath.sortFrom st [] none (distinct ps)).1.reverse = all.filter ps.contains := by
    have hmem : ∀ p, p ∈ (NodePath.sortFrom st [] none (distinct ps)).1.reverse ↔ p ∈ all.filter ps.contains := by
      intro p
      rw [List.mem_reverse, hperm.mem_iff, List.append_nil, h.mem_distinct hps, h.mem_filter_contains hps]
    exact eq_of_pairwise_before (List.pairwise_reverse.mpr hpairwise) (h.before.filter ps.contains) hmem
  rw [NodePath.sortDistinct]
  generalize NodePath.sortFrom st [] none (distinct ps) = sorted at hnone hsorted ⊢
  obtain ⟨sorted, failure⟩ := sorted
  obtain rfl : failure = none := hnone
  rw [← hsorted, List.reverse_reverse]

end Listing

end

end NodePath
