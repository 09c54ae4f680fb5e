/-
# NodePath.Proofs.Kinship — the nodes along an axis

An axis is put together from sibling lists, chains of parents and subtrees turned around. What it is meant to be is a
relation between two nodes: one is a child of the other, or lies above it, or comes behind it in document order
without lying below it. Here both are the same: along every axis there are exactly the related nodes, each one
once, in document order or against it.

What makes this work is that, seen from one element, every element is either that one, or above it, or below it, or in
front of it, or behind it. Where an element is in a listing decides which.

* §A  `Axis.Relates`, the relation that an axis is meant to be.
* §B  Chains of parents and children.
* §C  Every element is somewhere, seen from any other.
* §D  In front and behind.
* §E  Siblings.
* §F  Elements and attributes.
* §G  Documents.
-/
import Mathlib.Logic.Relation
import NodePath.Proofs.Enumeration
import NodePath.Proofs.Levels

namespace NodePath

/-! ## §A  Relations -/

section

variable (st : Store) (root : Pointer)

/-- **IsParent** says that a node has another one among its children or attributes. -/
def IsParent (p c : Pointer) : Prop := Reached st root p ∧ (c ∈ p.children st ∨ c ∈ p.attributes st)

/-- **IsAbove** says that a node is the parent of another one, or its parent's parent, and so on. -/
def IsAbove (p c : Pointer) : Prop := Relation.TransGen (IsParent st root) p c

/-- **IsBelow** says that a node is a child of another one, or a child's child, and so on. -/
def IsBelow (c p : Pointer) : Prop := Relation.TransGen (fun p c => c ∈ p.children st) p c

/-- **Comes** says that a node comes before another one in document order. -/
def Comes (p q : Pointer) : Prop := p.compare? st q = some .lt

/-- **Relates** is what an axis says of its origin `o` and a node `x` along it. The elements are the nodes inside
the top one; attributes are none. -/
def Axis.Relates (o x : Pointer) : Axis → Prop
  | self => x = o
  | child => x ∈ o.children st
  | attributes => x ∈ o.attributes st
  | namespaces => False
  | parent => IsParent st root x o
  | ancestor => IsAbove st root x o
  | ancestorOrSelf => x = o ∨ IsAbove st root x o
  | descendant => IsBelow st x o
  | descendantOrSelf => x = o ∨ IsBelow st x o
  | followingSibling => ∃ p, Reached st root p ∧ o ∈ p.children st ∧ x ∈ p.children st ∧ Comes st o x
  | precedingSibling => ∃ p, Reached st root p ∧ o ∈ p.children st ∧ x ∈ p.children st ∧ Comes st x o
  | following => Inside st root x ∧ Comes st o x ∧ ¬IsBelow st x o
  | preceding => Inside st root x ∧ Comes st x o ∧ ¬IsAbove st root x o

end

/-- The axes that an element divides all elements into. -/
def Axis.parts : List Axis := [self, ancestor, descendant, following, preceding]

section

variable {st : Store} {root o p q x y : Pointer} {height : Pointer → Nat}

/-- Of two nodes of a list in document order, the one that comes before the other is told by either comparison. -/
theorem Listing.comes_iff {all : List Pointer} (h : Listing st all) (hx : x ∈ all) (hy : y ∈ all) :
    Comes st x y ↔ x.Before st y := by
  constructor
  · intro hlt
    have hne : x ≠ y := by
      rintro rfl
      rw [Comes, Pointer.compare?_self] at hlt
      cases hlt
    rcases h.total hx hy hne with hb | hb
    · exact hb
    · cases hlt.symm.trans hb.2
  · intro hb
    exact hb.1

namespace Rooted

/-! ## §B  Chains -/

/-- Only elements are parents. -/
theorem inside_of_isParent (h : Rooted st root height) (hp : IsParent st root p o) : Inside st root p := by
  obtain ⟨hreached, ho⟩ := hp
  obtain ⟨q, hq, rfl | hattribute⟩ := h.reached_iff.mp hreached
  · exact hq
  · rw [(h.attributes hq hattribute).2.1, (h.attributes hq hattribute).2.2] at ho
    rcases ho with ho | ho <;> cases ho

/-- A node has one parent, which it knows. -/
theorem isParent_iff (h : Rooted st root height) (ho : Reached st root o) :
    IsParent st root p o ↔ o.nodeParent? = some p := by
  constructor
  · intro hp
    have hin := h.inside_of_isParent hp
    obtain ⟨-, hchild | hattribute⟩ := hp
    · exact h.nodeParent? hin (h.children hin hchild).1
    -- An attribute has its element as its parent, though it is none of its children.
    · exact h.nodeParent? hin (h.attributes hin hattribute).1
  · intro hp
    cases ho with
    | root => cases h.top.symm.trans hp
    | @child q _ hq hc =>
      have hin := h.inside_of_isParent ⟨hq, .inl hc⟩
      obtain rfl := Option.some.inj ((h.nodeParent? hin (h.children hin hc).1).symm.trans hp)
      exact ⟨hq, .inl hc⟩
    | @attr q _ hq ha =>
      have hin := h.inside_of_isParent ⟨hq, .inr ha⟩
      obtain rfl := Option.some.inj ((h.nodeParent? hin (h.attributes hin ha).1).symm.trans hp)
      exact ⟨hq, .inr ha⟩

/-- What is above a node is its parent and what is above that. -/
theorem isAbove_iff (hparent : IsParent st root p o) (hunique : ∀ q, IsParent st root q o → q = p) :
    IsAbove st root x o ↔ x = p ∨ IsAbove st root x p := by
  rw [IsAbove, Relation.TransGen.tail'_iff]
  constructor
  · rintro ⟨q, hx, hq⟩
    obtain rfl := hunique q hq
    rcases Relation.reflTransGen_iff_eq_or_transGen.mp hx with rfl | hx
    · exact .inl rfl
    · exact .inr hx
  · rintro (rfl | hx)
    · exact ⟨x, .refl, hparent⟩
    · exact ⟨p, hx.to_reflTransGen, hparent⟩

/-- The chain above a node is its parent and the chain above that. -/
theorem mem_nodesAbove_of_isParent (h : Rooted st root height) (ho : Reached st root o)
    (hparent : IsParent st root p o) (hchain : x ∈ p.nodesAbove ↔ IsAbove st root x p) :
    x ∈ o.nodesAbove ↔ IsAbove st root x o := by
  have hknown := (h.isParent_iff ho).mp hparent
  have hunique : ∀ q, IsParent st root q o → q = p := by
    intro q hq
    exact Option.some.inj (((h.isParent_iff ho).mp hq).symm.trans hknown)
  rw [Pointer.nodesAbove_of_nodeParent hknown, List.mem_cons, hchain, isAbove_iff hparent hunique]

/-- **The chain above a node** has exactly what is above it. -/
theorem mem_nodesAbove (h : Rooted st root height) (ho : Reached st root o) :
    x ∈ o.nodesAbove ↔ IsAbove st root x o := by
  induction ho with
  | root =>
    rw [Pointer.nodesAbove_of_top h.top]
    constructor
    · intro hx
      cases hx
    · intro hx
      obtain ⟨p, -, hp⟩ := Relation.TransGen.tail'_iff.mp hx
      cases h.top.symm.trans ((h.isParent_iff .root).mp hp)
  | child hp hc ih => exact h.mem_nodesAbove_of_isParent (.child hp hc) ⟨hp, .inl hc⟩ ih
  | attr hp ha ih => exact h.mem_nodesAbove_of_isParent (.attr hp ha) ⟨hp, .inr ha⟩ ih

theorem inside_of_isAbove (h : Rooted st root height) (hx : IsAbove st root x o) : Inside st root x := by
  obtain ⟨c, hc, -⟩ := Relation.TransGen.head'_iff.mp hx
  exact h.inside_of_isParent hc

/-- What is below a node are its children and what is below these. -/
theorem isBelow_iff : IsBelow st x p ↔ ∃ c ∈ p.children st, x = c ∨ IsBelow st x c := by
  rw [IsBelow, Relation.TransGen.head'_iff]
  constructor
  · rintro ⟨c, hc, hx⟩
    exact ⟨c, hc, Relation.reflTransGen_iff_eq_or_transGen.mp hx⟩
  · rintro ⟨c, hc, hx⟩
    exact ⟨c, hc, Relation.reflTransGen_iff_eq_or_transGen.mpr hx⟩

theorem mem_descendantsFrom (h : Rooted st root height) (hp : Inside st root p) {m : Nat} (hm : height p ≤ m) :
    x ∈ p.descendantsFrom st m ↔ IsBelow st x p := by
  induction m generalizing p with
  | zero => exact absurd (h.height_pos hp) (by omega)
  | succ m ih =>
    rw [Pointer.descendantsFrom, List.mem_flatMap, isBelow_iff]
    refine exists_congr fun c => and_congr_right fun hc => ?_
    have hheight := (h.children hp hc).2
    rw [List.mem_cons, ih (hp.child hc) (by omega)]

/-- **The descendants of an element** are exactly what is below it. -/
theorem mem_descendants (h : Rooted st root height) (hp : Inside st root p) :
    x ∈ p.descendants st ↔ IsBelow st x p :=
  h.mem_descendantsFrom hp (h.height_le hp)

theorem inside_of_isBelow (hp : Inside st root p) (hx : IsBelow st x p) : Inside st root x := by
  induction hx with
  | single hc => exact hp.child hc
  | tail _ hc ih => exact ih.child hc

theorem inside_of_subtree (h : Rooted st root height) (hp : Inside st root p) (hx : x ∈ p.subtree st) :
    Inside st root x := by
  rcases List.mem_cons.mp hx with rfl | hx
  · exact hp
  · exact inside_of_isBelow hp ((h.mem_descendants hp).mp hx)

/-! ## §C  Somewhere -/

/-- **Every element is somewhere**, seen from any other: it is that one, above it, below it, behind it or in front
of it. -/
theorem somewhere (h : Rooted st root height) (ho : Inside st root o) (hx : Inside st root x) :
    x = o ∨ x ∈ o.nodesAbove ∨ x ∈ o.descendants st ∨ x ∈ o.behind st ∨ x ∈ o.inFront st := by
  induction ho with
  | root =>
    have hbelow : x = root ∨ IsBelow st x root := by
      induction hx with
      | root => exact .inl rfl
      | child _ hc ih =>
        rcases ih with rfl | ih
        · exact .inr (.single hc)
        · exact .inr (ih.tail hc)
    rcases hbelow with hx | hx
    · exact .inl hx
    · exact .inr (.inr (.inl ((h.mem_descendants .root).mpr hx)))
  | @child p c hp hc ih =>
    obtain ⟨l, r, hchildren, hbefore, hafter⟩ := h.siblings hp hc
    have habove := Pointer.nodesAbove_of_nodeParent (h.nodeParent? hp (h.children hp hc).1)
    have hbehind : c.behind st = (r.flatMap (·.subtree st)) ++ p.behind st := by
      rw [Pointer.behind, habove, List.flatMap_cons, hafter]
      rfl
    have hinFront : c.inFront st = (l.reverse.flatMap fun s => (s.subtree st).reverse) ++ p.inFront st := by
      rw [Pointer.inFront, habove, List.flatMap_cons, hbefore]
      rfl
    rw [habove, hbehind, hinFront]
    rcases ih with rfl | hx | hx | hx | hx
    · exact .inr (.inl List.mem_cons_self)
    · exact .inr (.inl (List.mem_cons_of_mem _ hx))
    · -- what is below the parent is in the subtree of the child, or of one of its siblings on either side
      obtain ⟨d, hd, hx⟩ := isBelow_iff.mp ((h.mem_descendants hp).mp hx)
      have hsubtree : x ∈ d.subtree st :=
        List.mem_cons.mpr (hx.imp_right (h.mem_descendants (hp.child hd)).mpr)
      rw [hchildren] at hd
      rcases List.mem_append.mp hd with hd | hd
      · refine .inr (.inr (.inr (.inr (List.mem_append_left _ ?_))))
        exact List.mem_flatMap.mpr ⟨d, List.mem_reverse.mpr hd, List.mem_reverse.mpr hsubtree⟩
      · rcases List.mem_cons.mp hd with rfl | hd
        · rcases List.mem_cons.mp hsubtree with hx | hx
          · exact .inl hx
          · exact .inr (.inr (.inl hx))
        · refine .inr (.inr (.inr (.inl (List.mem_append_left _ ?_))))
          exact List.mem_flatMap.mpr ⟨d, hd, hsubtree⟩
    · exact .inr (.inr (.inr (.inl (List.mem_append_right _ hx))))
    · exact .inr (.inr (.inr (.inr (List.mem_append_right _ hx))))

/-- The siblings of the nodes on the way up to an element are elements. -/
theorem inside_of_around (h : Rooted st root height) (ho : Inside st root o) :
    (x ∈ o.behind st → Inside st root x) ∧ (x ∈ o.inFront st → Inside st root x) := by
  have hway : ∀ n ∈ o :: o.nodesAbove, Inside st root n := by
    intro n hn
    rcases List.mem_cons.mp hn with rfl | hn
    · exact ho
    · exact h.inside_of_isAbove ((h.mem_nodesAbove ho.reached).mp hn)
  -- Both are made of the subtrees of siblings of nodes on the way up.
  have hsiblings : ∀ n, Inside st root n → ∀ s, s ∈ n.siblingsAfter st ∨ s ∈ n.siblingsBefore st →
      Inside st root s := by
    intro n hn s hs
    cases hn with
    | root =>
      have hnone : root.siblings st = [] := by
        rw [Pointer.siblings, h.top]
        split <;> rfl
      rw [Pointer.siblingsAfter, Pointer.siblingsBefore, hnone] at hs
      rcases hs with hs | hs <;> cases hs
    | child hp hc =>
      obtain ⟨l, r, hchildren, hbefore, hafter⟩ := h.siblings hp hc
      rw [hbefore, hafter, List.mem_reverse] at hs
      refine hp.child ?_
      rw [hchildren, List.mem_append, List.mem_cons]
      exact hs.elim (fun hs => .inr (.inr hs)) .inl
  constructor
  · intro hx
    obtain ⟨n, hn, hx⟩ := List.mem_flatMap.mp hx
    obtain ⟨s, hs, hx⟩ := List.mem_flatMap.mp hx
    exact h.inside_of_subtree (hsiblings n (hway n hn) s (.inl hs)) hx
  · intro hx
    obtain ⟨n, hn, hx⟩ := List.mem_flatMap.mp hx
    obtain ⟨s, hs, hx⟩ := List.mem_flatMap.mp hx
    exact h.inside_of_subtree (hsiblings n (hway n hn) s (.inr hs)) (List.mem_reverse.mp hx)

/-! ## §D  In front and behind -/

/-- Where things are, seen from an element and its attributes: what is behind comes after them, what is above or in
front comes before them, and nothing in front is above. -/
structure Around (st : Store) (o : Pointer) : Prop where
  behind : ∀ x ∈ o.behind st, ∀ y ∈ o :: o.attributes st, y.Before st x
  apart : ∀ x ∈ o.behind st, x ∉ o.descendants st
  inFront : ∀ x ∈ o.inFront st, ∀ y ∈ o :: o.attributes st, x.Before st y
  above : ∀ x ∈ o.nodesAbove, ∀ y ∈ o :: o.attributes st, x.Before st y
  descendants : ∀ x ∈ o.descendants st, ∀ y ∈ o :: o.attributes st, y.Before st x
  attributes : ∀ y ∈ o.attributes st, o.Before st y

theorem around (h : Rooted st root height) (hr : Ranked st root) (ho : Inside st root o) : Around st o := by
  obtain ⟨levels, front, back, hs⟩ := h.situated ho
  have hbefore := (h.listing hr).before
  rw [hs.split] at hbefore
  obtain ⟨-, hrest, hfront⟩ := List.pairwise_append.mp hbefore
  obtain ⟨hmiddle, -, hback⟩ := List.pairwise_append.mp hrest
  have hself : ∀ y ∈ o :: o.attributes st, y ∈ o.listingFrom st levels := fun y hy =>
    (h.attributes_sublist ho hs.height_le).mem hy
  have hsubtree : ∀ x ∈ o.subtree st, x ∈ o.listingFrom st levels := fun x hx =>
    (h.subtree_sublist _ ho hs.height_le).mem hx
  obtain ⟨m, rfl⟩ : ∃ m, levels = m + 1 := ⟨levels - 1, by
    have := h.height_pos ho
    have := hs.height_le
    omega⟩
  -- within the listing of the element itself: the element, its attributes, and then what is below it
  have hown : o.listingFrom st (m + 1) =
      o :: (o.attributes st ++ (o.children st).flatMap (·.listingFrom st m)) := rfl
  rw [hown] at hmiddle
  obtain ⟨hfirst, hbelow⟩ := List.pairwise_cons.mp hmiddle
  have hacross := (List.pairwise_append.mp hbelow).2.2
  refine { behind := ?_, apart := ?_, inFront := ?_, above := ?_, descendants := ?_, attributes := ?_ }
  · intro x hx y hy
    exact hback y (hself y hy) x (hs.behind.mem hx)
  · intro x hx hx'
    exact (hback x (hsubtree x (List.mem_cons_of_mem _ hx')) x (hs.behind.mem hx)).ne rfl
  · intro x hx y hy
    exact hfront x (hs.inFront.mem (List.mem_reverse.mpr hx)) y (List.mem_append_left _ (hself y hy))
  · intro x hx y hy
    exact hfront x (hs.above.mem (List.mem_reverse.mpr hx)) y (List.mem_append_left _ (hself y hy))
  · intro x hx y hy
    obtain ⟨c, hc, hx⟩ := isBelow_iff.mp ((h.mem_descendants ho).mp hx)
    have hheight := (h.children ho hc).2
    have hle := hs.height_le
    have hlisted : x ∈ (o.children st).flatMap (·.listingFrom st m) := by
      refine List.mem_flatMap.mpr ⟨c, hc, ?_⟩
      refine (h.subtree_sublist (height c) (ho.child hc) (by omega)).mem (List.mem_cons.mpr ?_)
      exact hx.imp_right (h.mem_descendantsFrom (ho.child hc) (Nat.le_refl _)).mpr
    rcases List.mem_cons.mp hy with rfl | hy
    · exact hfirst x (List.mem_append_right _ hlisted)
    · exact hacross y hy x hlisted
  · intro y hy
    exact hfirst y (List.mem_append_left _ hy)

/-- **Nothing in front of an element is above it.** -/
theorem not_above_of_inFront (h : Rooted st root height) (hr : Ranked st root) (ho : Inside st root o)
    (hx : x ∈ o.inFront st) : x ∉ o.nodesAbove := by
  induction ho with
  | root =>
    rw [Pointer.nodesAbove_of_top h.top]
    exact List.not_mem_nil
  | @child p c hp hc ih =>
    obtain ⟨l, r, hchildren, hbefore, -⟩ := h.siblings hp hc
    have haround := h.around hr hp
    rw [Pointer.nodesAbove_of_nodeParent (h.nodeParent? hp (h.children hp hc).1)]
    rw [Pointer.inFront, Pointer.nodesAbove_of_nodeParent (h.nodeParent? hp (h.children hp hc).1),
      List.flatMap_cons, hbefore] at hx
    rcases List.mem_append.mp hx with hx | hx
    · -- below the parent, so neither the parent nor above it
      obtain ⟨s, hs, hx⟩ := List.mem_flatMap.mp hx
      have hs' : s ∈ p.children st := by
        rw [hchildren]
        exact List.mem_append_left _ (List.mem_reverse.mp hs)
      have hbelow : x ∈ p.descendants st := by
        refine (h.mem_descendants hp).mpr (isBelow_iff.mpr ⟨s, hs', ?_⟩)
        exact (List.mem_cons.mp (List.mem_reverse.mp hx)).imp_right (h.mem_descendants (hp.child hs')).mp
      have hbehind := haround.descendants x hbelow p List.mem_cons_self
      intro habove
      rcases List.mem_cons.mp habove with rfl | habove
      · exact hbehind.ne rfl
      · exact hbehind.asymm (haround.above x habove p List.mem_cons_self)
    · intro habove
      rcases List.mem_cons.mp habove with rfl | habove
      · exact (haround.inFront x hx x List.mem_cons_self).ne rfl
      · exact ih hx habove

/-- **What is behind** an element, or an attribute of it: the elements that come after it, but for those below the
element. -/
theorem mem_behind (h : Rooted st root height) (hr : Ranked st root) (ho : Inside st root o)
    (hy : y ∈ o :: o.attributes st) :
    x ∈ o.behind st ↔ Inside st root x ∧ y.Before st x ∧ ¬IsBelow st x o := by
  have haround := h.around hr ho
  rw [← h.mem_descendants ho]
  constructor
  · intro hx
    exact ⟨(h.inside_of_around ho).1 hx, haround.behind x hx y hy, haround.apart x hx⟩
  · rintro ⟨hx, hb, hbelow⟩
    rcases h.somewhere ho hx with rfl | hx | hx | hx | hx
    · rcases List.mem_cons.mp hy with rfl | hy
      · exact absurd rfl hb.ne
      · exact absurd hb (haround.attributes y hy).asymm
    · exact absurd hb (haround.above x hx y hy).asymm
    · exact absurd hx hbelow
    · exact hx
    · exact absurd hb (haround.inFront x hx y hy).asymm

/-- **What is in front** of an element, or an attribute of it: the elements that come before it, but for the element
itself and those above it. -/
theorem mem_inFront (h : Rooted st root height) (hr : Ranked st root) (ho : Inside st root o)
    (hy : y ∈ o :: o.attributes st) :
    x ∈ o.inFront st ↔ Inside st root x ∧ x.Before st y ∧ x ≠ o ∧ ¬IsAbove st root x o := by
  have haround := h.around hr ho
  rw [← h.mem_nodesAbove ho.reached]
  constructor
  · intro hx
    refine ⟨(h.inside_of_around ho).2 hx, haround.inFront x hx y hy, ?_, h.not_above_of_inFront hr ho hx⟩
    exact (haround.inFront x hx o List.mem_cons_self).ne
  · rintro ⟨hx, hb, hne, habove⟩
    rcases h.somewhere ho hx with rfl | hx | hx | hx | hx
    · exact absurd rfl hne
    · exact absurd hx habove
    · exact absurd hb (haround.descendants x hx y hy).asymm
    · exact absurd hb (haround.behind x hx y hy).asymm
    · exact hx

/-! ## §E  Siblings -/

/-- In a list in document order, what stands on either side of a node comes before or after it. -/
theorem mem_sides {l r : List Pointer} (hordered : (l ++ o :: r).Pairwise (Pointer.Before st)) :
    (x ∈ r ↔ x ∈ l ++ o :: r ∧ o.Before st x) ∧ (x ∈ l ↔ x ∈ l ++ o :: r ∧ x.Before st o) := by
  obtain ⟨-, hright, hacross⟩ := List.pairwise_append.mp hordered
  have hafter : ∀ y ∈ r, o.Before st y := (List.pairwise_cons.mp hright).1
  have hbefore : ∀ y ∈ l, y.Before st o := fun y hy => hacross y hy o List.mem_cons_self
  constructor
  · constructor
    · intro hx
      exact ⟨List.mem_append_right _ (List.mem_cons_of_mem _ hx), hafter x hx⟩
    · rintro ⟨hx, hb⟩
      rcases List.mem_append.mp hx with hx | hx
      · exact absurd hb (hbefore x hx).asymm
      · rcases List.mem_cons.mp hx with rfl | hx
        · exact absurd rfl hb.ne
        · exact hx
  · constructor
    · intro hx
      exact ⟨List.mem_append_left _ hx, hbefore x hx⟩
    · rintro ⟨hx, hb⟩
      rcases List.mem_append.mp hx with hx | hx
      · exact hx
      · rcases List.mem_cons.mp hx with rfl | hx
        · exact absurd rfl hb.ne
        · exact absurd hb (hafter x hx).asymm

/-- A node is a child of one node only. -/
theorem exists_children_iff (h : Rooted st root height) (hp : Reached st root p) (hc : o ∈ p.children st) {R : Prop} :
    (∃ q, Reached st root q ∧ o ∈ q.children st ∧ x ∈ q.children st ∧ R) ↔ x ∈ p.children st ∧ R := by
  constructor
  · rintro ⟨q, hq, hoq, hx, hR⟩
    have ho : Reached st root o := .child hp hc
    have hparent := (h.isParent_iff ho).mp ⟨hp, .inl hc⟩
    obtain rfl := Option.some.inj (hparent.symm.trans ((h.isParent_iff ho).mp ⟨hq, .inl hoq⟩))
    exact ⟨hx, hR⟩
  · rintro ⟨hx, hR⟩
    exact ⟨p, hp, hc, hx, hR⟩

/-- **The siblings of an element** on either side are the children of its parent that come after or before it. -/
theorem mem_siblings (h : Rooted st root height) (hr : Ranked st root) (ho : Inside st root o) :
    (x ∈ o.siblingsAfter st ↔ ∃ p, Reached st root p ∧ o ∈ p.children st ∧ x ∈ p.children st ∧ o.Before st x) ∧
      (x ∈ o.siblingsBefore st ↔
        ∃ p, Reached st root p ∧ o ∈ p.children st ∧ x ∈ p.children st ∧ x.Before st o) := by
  cases ho with
  | root =>
    -- The top node is nobody's child.
    have hnone : root.siblings st = [] := by
      rw [Pointer.siblings, h.top]
      split <;> rfl
    have hnobody : ∀ R : Prop, ¬∃ p, Reached st root p ∧ root ∈ p.children st ∧ x ∈ p.children st ∧ R := by
      rintro R ⟨p, hp, hroot, -⟩
      cases h.top.symm.trans ((h.isParent_iff .root).mp ⟨hp, .inl hroot⟩)
    rw [Pointer.siblingsAfter, Pointer.siblingsBefore, hnone]
    exact ⟨iff_of_false (fun hx => by cases hx) (hnobody _), iff_of_false (fun hx => by cases hx) (hnobody _)⟩
  | @child p _ hp hc =>
    obtain ⟨l, r, hchildren, hbefore, hafter⟩ := h.siblings hp hc
    have hordered : (p.children st).Pairwise (Pointer.Before st) :=
      (h.listing hr).before.sublist (h.axis_sublist ⟨p, hp, .inl rfl⟩ .child)
    rw [h.exists_children_iff hp.reached hc, h.exists_children_iff hp.reached hc, hbefore, hafter, List.mem_reverse]
    rw [hchildren] at hordered ⊢
    exact mem_sides hordered

/-! ## §F  Elements and attributes -/

/-- Nothing is below an attribute. -/
theorem not_isBelow_attribute (h : Rooted st root height) (hp : Inside st root p) (ho : o ∈ p.attributes st) :
    ¬IsBelow st x o := by
  rw [isBelow_iff, (h.attributes hp ho).2.1]
  rintro ⟨c, hc, -⟩
  cases hc

/-- **What precedes, in the form of a relation.** An element has itself and what is above it in front of nothing, so
that only those above it need to be left out. -/
theorem mem_inFront_element (h : Rooted st root height) (hr : Ranked st root) (ho : Inside st root o) :
    x ∈ o.inFront st ↔ Inside st root x ∧ x.Before st o ∧ ¬IsAbove st root x o := by
  rw [h.mem_inFront hr ho List.mem_cons_self]
  refine and_congr_right fun _ => and_congr_right fun hb => ?_
  exact and_iff_right hb.ne

theorem comes_iff (h : Rooted st root height) (hr : Ranked st root) (hx : Reached st root x) (hy : Reached st root y) :
    Comes st x y ↔ x.Before st y :=
  (h.listing hr).comes_iff (h.mem_listing.mpr (h.reached_iff.mp hx)) (h.mem_listing.mpr (h.reached_iff.mp hy))

/-- **The axes of an element** are their relations. -/
theorem mem_element_axis (h : Rooted st root height) (hr : Ranked st root) (ho : Inside st root o) (a : Axis) :
    x ∈ a.nodes o st ↔ a.Relates st root o x := by
  obtain ⟨hfollowing, hpreceding⟩ := h.following_element ho
  have hcomes : ∀ {y z}, Inside st root y → Inside st root z → (Comes st y z ↔ y.Before st z) := fun hy hz =>
    h.comes_iff hr hy.reached hz.reached
  cases a with
  | self => exact List.mem_singleton
  | child => exact Iff.rfl
  | attributes => exact Iff.rfl
  | namespaces =>
    show x ∈ o.declarations st ↔ False
    rw [h.declarations ho (.inl rfl)]
    exact List.mem_nil_iff x
  | parent =>
    show x ∈ o.nodeParent?.toList ↔ IsParent st root x o
    rw [Option.mem_toList, h.isParent_iff ho.reached]
  | ancestor => exact h.mem_nodesAbove ho.reached
  | ancestorOrSelf => exact List.mem_cons.trans (or_congr_right (h.mem_nodesAbove ho.reached))
  | descendant => exact h.mem_descendants ho
  | descendantOrSelf => exact List.mem_cons.trans (or_congr_right (h.mem_descendants ho))
  | followingSibling =>
    refine (h.mem_siblings hr ho).1.trans (exists_congr fun p => ?_)
    refine and_congr_right fun hp => and_congr_right fun hop => and_congr_right fun hx => ?_
    exact (hcomes ho ((h.inside_of_isParent ⟨hp, .inl hx⟩).child hx)).symm
  | precedingSibling =>
    refine (h.mem_siblings hr ho).2.trans (exists_congr fun p => ?_)
    refine and_congr_right fun hp => and_congr_right fun hop => and_congr_right fun hx => ?_
    exact (hcomes ((h.inside_of_isParent ⟨hp, .inl hx⟩).child hx) ho).symm
  | following =>
    show x ∈ o.following st ↔ Inside st root x ∧ Comes st o x ∧ ¬IsBelow st x o
    rw [hfollowing, h.mem_behind hr ho List.mem_cons_self]
    exact and_congr_right fun hx => and_congr_left fun _ => (hcomes ho hx).symm
  | preceding =>
    show x ∈ o.preceding st ↔ Inside st root x ∧ Comes st x o ∧ ¬IsAbove st root x o
    rw [hpreceding, h.mem_inFront_element hr ho]
    exact and_congr_right fun hx => and_congr_left fun _ => (hcomes hx ho).symm

/-- An attribute is nobody's child, -/
theorem not_mem_children_attribute (h : Rooted st root height) (hp : Inside st root p) (ho : o ∈ p.attributes st)
    (hq : Reached st root q) : o ∉ q.children st := by
  intro hchild
  have hin := h.inside_of_isParent ⟨hq, .inl hchild⟩
  have helement := (h.stands (hin.child hchild) (a := o)).1
  cases helement.symm.trans ((h.stands hp).2 ho)

/-- its element and what is above that are above it, -/
theorem isAbove_attribute_iff (h : Rooted st root height) (hp : Inside st root p) (ho : o ∈ p.attributes st) :
    IsAbove st root x o ↔ x = p ∨ IsAbove st root x p := by
  have hnodeParent := h.nodeParent? hp (h.attributes hp ho).1
  rw [← h.mem_nodesAbove (.attr hp.reached ho), ← h.mem_nodesAbove hp.reached,
    Pointer.nodesAbove_of_nodeParent hnodeParent, List.mem_cons]

/-- and what follows it is what is below its element or behind that. -/
theorem mem_following_attribute (h : Rooted st root height) (hr : Ranked st root) (hp : Inside st root p)
    (ho : o ∈ p.attributes st) : x ∈ o.following st ↔ Inside st root x ∧ o.Before st x := by
  have hmem : o ∈ p :: p.attributes st := List.mem_cons_of_mem _ ho
  rw [(h.following_attribute hp ho).1, List.mem_append, h.mem_behind hr hp hmem, h.mem_descendants hp]
  constructor
  · rintro (hx | ⟨hx, hb, -⟩)
    · exact ⟨inside_of_isBelow hp hx, (h.around hr hp).descendants x ((h.mem_descendants hp).mpr hx) o hmem⟩
    · exact ⟨hx, hb⟩
  · rintro ⟨hx, hb⟩
    by_cases hbelow : IsBelow st x p
    · exact .inl hbelow
    · exact .inr ⟨hx, hb, hbelow⟩

/-- **The axes of an attribute** are their relations: it has no children or siblings, and what is below its element
follows it. -/
theorem mem_attribute_axis (h : Rooted st root height) (hr : Ranked st root) (hp : Inside st root p)
    (ho : o ∈ p.attributes st) (a : Axis) : x ∈ a.nodes o st ↔ a.Relates st root o x := by
  have hreached : Reached st root o := .attr hp.reached ho
  obtain ⟨hnoneAfter, hnoneBefore⟩ := h.siblings_attribute hp ho
  cases a with
  | self => exact List.mem_singleton
  | child => exact Iff.rfl
  | attributes => exact Iff.rfl
  | namespaces =>
    show x ∈ o.declarations st ↔ False
    rw [h.declarations hp (.inr ho)]
    exact List.mem_nil_iff x
  | parent =>
    show x ∈ o.nodeParent?.toList ↔ IsParent st root x o
    rw [Option.mem_toList, h.isParent_iff hreached]
  | ancestor => exact h.mem_nodesAbove hreached
  | ancestorOrSelf => exact List.mem_cons.trans (or_congr_right (h.mem_nodesAbove hreached))
  | descendant =>
    show x ∈ o.descendants st ↔ IsBelow st x o
    rw [h.descendants_attribute hp ho, List.mem_nil_iff, false_iff]
    exact h.not_isBelow_attribute hp ho
  | descendantOrSelf =>
    show x ∈ o :: o.descendants st ↔ x = o ∨ IsBelow st x o
    rw [h.descendants_attribute hp ho, List.mem_singleton]
    exact (or_iff_left (h.not_isBelow_attribute hp ho)).symm
  | followingSibling =>
    show x ∈ o.siblingsAfter st ↔ _
    rw [hnoneAfter]
    exact iff_of_false List.not_mem_nil fun ⟨q, hq, hchild, _⟩ => h.not_mem_children_attribute hp ho hq hchild
  | precedingSibling =>
    show x ∈ o.siblingsBefore st ↔ _
    rw [hnoneBefore]
    exact iff_of_false List.not_mem_nil fun ⟨q, hq, hchild, _⟩ => h.not_mem_children_attribute hp ho hq hchild
  | following =>
    show x ∈ o.following st ↔ Inside st root x ∧ Comes st o x ∧ ¬IsBelow st x o
    rw [h.mem_following_attribute hr hp ho, and_iff_left (h.not_isBelow_attribute hp ho)]
    exact and_congr_right fun hx => (h.comes_iff hr hreached hx.reached).symm
  | preceding =>
    show x ∈ o.preceding st ↔ Inside st root x ∧ Comes st x o ∧ ¬IsAbove st root x o
    rw [(h.following_attribute hp ho).2, h.mem_inFront hr hp (List.mem_cons_of_mem _ ho), h.isAbove_attribute_iff hp ho,
      not_or]
    exact and_congr_right fun hx => and_congr_left fun _ => (h.comes_iff hr hx.reached hreached).symm

/-- **Every axis is its relation**, from every node of the tree. -/
theorem mem_axis (h : Rooted st root height) (hr : Ranked st root) (ho : Reached st root o) (a : Axis) :
    x ∈ a.nodes o st ↔ a.Relates st root o x := by
  obtain ⟨p, hp, rfl | hattribute⟩ := h.reached_iff.mp ho
  · exact h.mem_element_axis hr hp a
  · exact h.mem_attribute_axis hr hp hattribute a

/-- **Every axis is in document order**, or against it if it is a reverse one. -/
theorem axis_ordered (h : Rooted st root height) (hr : Ranked st root) (ho : Reached st root o) (a : Axis) :
    (a.nodes o st).Pairwise fun x y => if a.isReverse then y.Before st x else x.Before st y := by
  have hforward := (h.listing hr).before.sublist (h.axis_sublist (h.reached_iff.mp ho) a)
  unfold Axis.forward at hforward
  cases hreverse : a.isReverse with
  | true =>
    rw [hreverse, if_pos rfl, List.pairwise_reverse] at hforward
    exact hforward
  | false =>
    rw [hreverse] at hforward
    exact hforward

/-- The five axes that divide the elements, seen from an element. -/
theorem parts_nodes (h : Rooted st root height) (ho : Inside st root o) :
    Axis.parts.flatMap (·.nodes o st) = [[o], o.nodesAbove, o.descendants st, o.behind st, o.inFront st].flatten := by
  obtain ⟨hfollowing, hpreceding⟩ := h.following_element ho
  rw [← hfollowing, ← hpreceding]
  rfl

/-- No element is on two of them: the side of the origin that it is on tells them from each other, but for those of one
side. -/
theorem nodup_parts (h : Rooted st root height) (hr : Ranked st root) (ho : Inside st root o) :
    (Axis.parts.flatMap (·.nodes o st)).Nodup := by
  have haround := h.around hr ho
  obtain ⟨hfollowing, hpreceding⟩ := h.following_element ho
  have hsides : ∀ {l m : List Pointer} {s t : Ordering}, (∀ x ∈ l, x.compare? st o = some s) →
      (∀ x ∈ m, x.compare? st o = some t) → s ≠ t → l.Disjoint m := by
    intro l m s t hl hm hst x hxl hxm
    exact hst (Option.some.inj ((hl x hxl).symm.trans (hm x hxm)))
  have hself : ∀ x ∈ [o], x.compare? st o = some .eq := by
    intro x hx
    rw [List.mem_singleton.mp hx, Pointer.compare?_self]
  have habove : ∀ x ∈ o.nodesAbove, x.compare? st o = some .lt := fun x hx =>
    (haround.above x hx o List.mem_cons_self).1
  have hinFront : ∀ x ∈ o.inFront st, x.compare? st o = some .lt := fun x hx =>
    (haround.inFront x hx o List.mem_cons_self).1
  have hbelow : ∀ x ∈ o.descendants st, x.compare? st o = some .gt := fun x hx =>
    (haround.descendants x hx o List.mem_cons_self).2
  have hbehind : ∀ x ∈ o.behind st, x.compare? st o = some .gt := fun x hx =>
    (haround.behind x hx o List.mem_cons_self).2
  have hnodup : ∀ a : Axis, (a.nodes o st).Nodup := h.axis_nodup hr ⟨o, ho, .inl rfl⟩
  rw [h.parts_nodes ho]
  refine List.nodup_flatten.mpr ⟨?each, ?apart⟩
  case each =>
    simp only [List.forall_mem_cons, List.not_mem_nil, false_imp_iff, implies_true, and_true]
    exact ⟨hnodup .self, hnodup .ancestor, hnodup .descendant, hfollowing ▸ hnodup .following,
      hpreceding ▸ hnodup .preceding⟩
  case apart =>
    simp only [List.pairwise_cons, List.forall_mem_cons, List.not_mem_nil, false_imp_iff, implies_true,
      List.Pairwise.nil, and_true]
    refine ⟨⟨?_, ?_, ?_, ?_⟩, ⟨?_, ?_, ?_⟩, ⟨?_, ?_⟩, ?_⟩
    · exact hsides hself habove (by decide)
    · exact hsides hself hbelow (by decide)
    · exact hsides hself hbehind (by decide)
    · exact hsides hself hinFront (by decide)
    · exact hsides habove hbelow (by decide)
    · exact hsides habove hbehind (by decide)
    · intro x habove hinFront
      exact h.not_above_of_inFront hr ho hinFront habove
    · intro x hbelow hbehind
      exact haround.apart x hbehind hbelow
    · exact hsides hbelow hinFront (by decide)
    · exact hsides hbehind hinFront (by decide)

/-- **An element divides all elements** into itself, those above it, those below it, those behind and those in
front: these five axes have every element, and have it once. -/
theorem parts_partition (h : Rooted st root height) (hr : Ranked st root) (ho : Inside st root o) :
    (Axis.parts.flatMap (·.nodes o st)).Nodup ∧
      ∀ x, x ∈ Axis.parts.flatMap (·.nodes o st) ↔ Inside st root x := by
  refine ⟨h.nodup_parts hr ho, fun x => ?_⟩
  rw [h.parts_nodes ho]
  simp only [List.flatten_cons, List.flatten_nil, List.append_nil, List.mem_append, List.mem_singleton]
  constructor
  · rintro (rfl | hx | hx | hx | hx)
    · exact ho
    · exact h.inside_of_isAbove ((h.mem_nodesAbove ho.reached).mp hx)
    · exact inside_of_isBelow ho ((h.mem_descendants ho).mp hx)
    · exact (h.inside_of_around ho).1 hx
    · exact (h.inside_of_around ho).2 hx
  · exact h.somewhere ho

end Rooted

end

/-! ## §G  Documents -/

section

variable {st : Store} {d : DocId} {j : Json} {b : Option VarRef} {n : QName} {o : Pointer}

/-- **Children and attributes are told by the document:** a child is a member that is no array, an element of an array
that is a member, or an element of an array that is no member; an attribute is a member that is no array. Each of them
is the part of the document at its place, and an attribute has neither children nor attributes. -/
theorem relates_of_document (hj : st.document? d = some j) (hkeys : j.keysApart = true) {path : List Segment}
    {part : Json} (hpart : j.at? path = some part) (root x : Pointer) :
    (Axis.child.Relates st root (.json ⟨d, path, false, b, n⟩) x ↔
        ∃ more v, JsonRef.HasChild (JsonRef.mk d path false b n).isMember part more v ∧
          j.at? (path ++ more) = some v ∧ x = .json ⟨d, path ++ more, false, b, n⟩) ∧
      (Axis.attributes.Relates st root (.json ⟨d, path, false, b, n⟩) x ↔
        ∃ more v, JsonRef.HasAttribute part more v ∧
          j.at? (path ++ more) = some v ∧ x = .json ⟨d, path ++ more, true, b, n⟩) ∧
      ¬Axis.child.Relates st root (.json ⟨d, path, true, b, n⟩) x ∧
      ¬Axis.attributes.Relates st root (.json ⟨d, path, true, b, n⟩) x := by
  have hkeys' : part.keysApart = true := (Json.at?_spec hpart).2 hkeys
  have hat : ∀ more, j.at? (path ++ more) = part.at? more := Json.at?_append_of_at? hpart
  refine ⟨?_, ?_, ?_, ?_⟩
  · show x ∈ Pointer.children _ st ↔ _
    rw [Pointer.children_json hj, JsonRef.children, if_neg Bool.false_ne_true, JsonRef.part?, hpart]
    simp only [List.map_map, List.mem_map, JsonRef.mem_childPaths_iff]
    constructor
    · rintro ⟨more, ⟨v, hv⟩, rfl⟩
      exact ⟨more, v, hv, (hat more).trans (hv.at?_eq hkeys'), rfl⟩
    · rintro ⟨more, v, hv, -, rfl⟩
      exact ⟨more, ⟨v, hv⟩, rfl⟩
  · show x ∈ Pointer.attributes _ st ↔ _
    rw [Pointer.attributes_json hj, JsonRef.attributes, if_neg Bool.false_ne_true, JsonRef.part?, hpart]
    simp only [List.map_map, List.mem_map, JsonRef.mem_attributePaths_iff]
    constructor
    · rintro ⟨more, ⟨v, hv⟩, rfl⟩
      exact ⟨more, v, hv, (hat more).trans (hv.at?_eq hkeys'), rfl⟩
    · rintro ⟨more, v, hv, -, rfl⟩
      exact ⟨more, ⟨v, hv⟩, rfl⟩
  · show x ∉ Pointer.children _ st
    rw [Pointer.children_json hj, JsonRef.children, if_pos rfl]
    exact List.not_mem_nil
  · show x ∉ Pointer.attributes _ st
    rw [Pointer.attributes_json hj, JsonRef.attributes, if_pos rfl]
    exact List.not_mem_nil

/-- **Every axis is its relation, in its order.** From a node of a document, an axis has exactly the nodes that are
related to it, each one once; they are in document order, or against it along a reverse axis. An attribute has no
siblings. An element divides the elements of the document: itself, those above it, those below it, those behind it
and those in front. -/
theorem axis_relates_in_order (hj : st.document? d = some j) (hkeys : j.keysApart = true)
    (ho : Reached st (.json (.root d b n)) o) :
    (∀ a : Axis, (∀ x, x ∈ a.nodes o st ↔ a.Relates st (.json (.root d b n)) o x) ∧ (a.nodes o st).Nodup ∧
        (a.nodes o st).Pairwise fun x y => if a.isReverse then Comes st y x else Comes st x y) ∧
      (∀ p, Reached st (.json (.root d b n)) p → o ∈ p.attributes st →
        Axis.followingSibling.nodes o st = [] ∧ Axis.precedingSibling.nodes o st = []) ∧
      (Inside st (.json (.root d b n)) o →
        (Axis.parts.flatMap (·.nodes o st)).Nodup ∧
          ∀ x, x ∈ Axis.parts.flatMap (·.nodes o st) ↔ Inside st (.json (.root d b n)) x) := by
  have h := rooted_document (b := b) (n := n) hj hkeys
  have hr := ranked_document (b := b) (n := n) hj hkeys
  refine ⟨fun a => ⟨fun x => h.mem_axis hr ho a, h.axis_nodup hr (h.reached_iff.mp ho) a, ?_⟩, ?_, ?_⟩
  · refine (h.axis_ordered hr ho a).imp fun hb => ?_
    split
    · rw [if_pos ‹_›] at hb
      exact hb.1
    · rw [if_neg ‹_›] at hb
      exact hb.1
  · intro p hp hattribute
    exact h.siblings_attribute (h.inside_of_isParent ⟨hp, .inr hattribute⟩) hattribute
  · exact h.parts_partition hr

end

/-- Around the second element of a member: what is below it, in front of it and behind it. -/
theorem axis_relates_in_order_mixed :
    ∃ o ∈ Pointer.firstTop.children (.holding mixedDocument),
      [Axis.self, .parent, .descendant, .preceding, .following].map (fun a =>
          (a.nodes o (.holding mixedDocument)).map (·.pathText (.holding mixedDocument))) =
        [["/a[2]"], ["/"], ["/a[2]/node()[1]", "/a[2]/node()[1]/b"], ["/a[1]"], ["/c", "/c/d"]] ∧
      ∀ a x, x ∈ Axis.nodes a o (.holding mixedDocument) ↔
        Axis.Relates (.holding mixedDocument) .firstTop o x a := by
  have hj : (Store.holding mixedDocument).document? 0 = some mixedDocument := rfl
  have hkeys : mixedDocument.keysApart = true := by decide +kernel
  obtain ⟨o, ho, hnodes⟩ : ∃ o ∈ Pointer.firstTop.children (.holding mixedDocument),
      [Axis.self, .parent, .descendant, .preceding, .following].map (fun a =>
          (a.nodes o (.holding mixedDocument)).map (·.pathText (.holding mixedDocument))) =
        [["/a[2]"], ["/"], ["/a[2]/node()[1]", "/a[2]/node()[1]/b"], ["/a[1]"], ["/c", "/c/d"]] := by
    decide +kernel
  exact ⟨o, ho, hnodes, fun a => ((axis_relates_in_order hj hkeys (.child .root ho)).1 a).1⟩

end NodePath
