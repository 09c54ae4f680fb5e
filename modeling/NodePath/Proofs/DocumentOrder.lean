/-
# NodePath.Proofs.DocumentOrder — all nodes of a tree, in order

The nodes of a tree can be listed: each node first, then its attributes, then what is below it. Every axis is a
part of that listing, forwards or backwards, and the comparison of two nodes finds out which of them is listed
first. What a tree is, for this, is said by **Rooted**; it is told apart from the graphs that have such trees.

* §A  `Pointer.listing`, and the chains of nodes above a node.
* §B  `Rooted`.
* §C  Where a node stands in the listing.
* §D  Axes are parts of the listing.
* §E  The listing is in document order.
-/
import Mathlib.Data.List.Flatten
import NodePath.Pointer.Axis
import NodePath.Proofs.Sorting

namespace NodePath

/-! ## §A  Listings and chains -/

namespace Pointer

/-- The nodes from a node on, on at most `levels` levels below it. -/
def listingFrom (st : Store) : Nat → Pointer → List Pointer
  | 0, p => [p]
  | levels + 1, p => p :: (p.attributes st ++ (p.children st).flatMap (listingFrom st levels))

/-- **listing** are a node and all nodes below it in document order: a node comes before its attributes, and
these come before its children. -/
def listing (p : Pointer) (st : Store) : List Pointer := listingFrom st (p.levelsBelow st) p

/-- How many nodes a chain of parents from a node on has at most. -/
def chainLength : Pointer → Nat
  | json r => r.path.length + 2
  | tree r => r.above.length + (if r.facet = .node then 1 else 2)
  | .var _ => 1
  | absent _ => 1
  | absentUnder p _ => p.chainLength + 1

theorem chainLength_le_depth (p : Pointer) : p.chainLength ≤ p.depth := by
  induction p with
  | absentUnder p n ih => simpa [chainLength, depth] using ih
  | tree r =>
    simp only [chainLength, depth]
    split <;> omega
  | _ => simp [chainLength, depth]

theorem chainLength_pos (p : Pointer) : 0 < p.chainLength := by
  cases p with
  | tree r =>
    simp only [chainLength]
    split <;> omega
  | _ => simp [chainLength]

theorem parentPath_length_le (path : List Segment) (h : path ≠ []) :
    (JsonRef.parentPath path).length < path.length := by
  unfold JsonRef.parentPath
  split
  · exact absurd rfl h
  · simp only [List.length_cons]
    omega
  · simp only [List.length_cons]
    omega

theorem chainLength_parent? {p q : Pointer} (h : p.parent? = some q) : q.chainLength < p.chainLength := by
  cases p with
  | json r =>
    simp only [parent?, JsonRef.parent?] at h
    split at h
    · obtain ⟨v, -, rfl⟩ := Option.map_eq_some_iff.mp h
      simp [chainLength]
    · have hpath : r.path ≠ [] := by simpa using ‹¬r.path.isEmpty = true›
      have hlength : 0 < r.path.length := List.length_pos_iff.mpr hpath
      split at h
      · cases h
        simp only [chainLength, JsonRef.move, List.length_dropLast]
        omega
      · cases h
        have := parentPath_length_le r.path.reverse (by simpa using hpath)
        simp only [chainLength, JsonRef.move, List.length_reverse] at this ⊢
        omega
  | tree r =>
    obtain ⟨r', hr', rfl⟩ := Option.map_eq_some_iff.mp h
    obtain ⟨node, above, facet⟩ := r
    cases facet with
    | node =>
      cases above with
      | nil => cases hr'
      | cons n above => cases hr'; simp [chainLength]
    | attr name => cases hr'; simp [chainLength]
    | declaration label address => cases hr'; simp [chainLength]
  | var v => cases h
  | absent n => cases h
  | absentUnder p n => cases h; simp [chainLength]

/-- A chain is as long as it is, given enough steps. -/
theorem chainFrom_eq {next : Pointer → Option Pointer}
    (hnext : ∀ p q, next p = some q → q.chainLength < p.chainLength) {m n : Nat} {p? : Option Pointer}
    (hm : ∀ p, p? = some p → p.chainLength ≤ m) (hn : ∀ p, p? = some p → p.chainLength ≤ n) :
    chainFrom next m p? = chainFrom next n p? := by
  -- With every node of the chain the bound on the rest goes down by one.
  induction m generalizing n p? with
  | zero =>
    cases p? with
    | none => cases n <;> rfl
    | some p => exact absurd (hm p rfl) (by have := p.chainLength_pos; omega)
  | succ m ih =>
    cases p? with
    | none => cases n <;> rfl
    | some p =>
      have hm := hm p rfl
      have hn := hn p rfl
      cases n with
      | zero => exact absurd hn (by have := p.chainLength_pos; omega)
      | succ n =>
        refine congrArg (p :: ·) (ih (fun q hq => ?_) fun q hq => ?_)
        · have := hnext p q hq
          omega
        · have := hnext p q hq
          omega

/-- The chain above a node is its parent and the chain above that. -/
theorem chain_of_parent {next : Pointer → Option Pointer}
    (hnext : ∀ p q, next p = some q → q.chainLength < p.chainLength) {p q : Pointer} (h : next p = some q) :
    chainFrom next p.depth (next p) = q :: chainFrom next q.depth (next q) := by
  have hp := p.chainLength_le_depth
  have hlt := hnext p q h
  obtain ⟨fuel, hfuel⟩ : ∃ fuel, p.depth = fuel + 1 := ⟨p.depth - 1, by omega⟩
  rw [h, hfuel, chainFrom]
  refine congrArg (q :: ·) (chainFrom_eq hnext (fun r hr => ?_) fun r hr => ?_)
  · have := hnext q r hr
    omega
  · have := hnext q r hr
    have := q.chainLength_le_depth
    omega

theorem above_of_parent {p q : Pointer} (h : p.parent? = some q) : p.above = q :: q.above :=
  chain_of_parent (fun _ _ => chainLength_parent?) h

theorem nodesAbove_of_nodeParent {p q : Pointer} (h : p.nodeParent? = some q) : p.nodesAbove = q :: q.nodesAbove :=
  chain_of_parent (fun _ _ h => chainLength_parent? (Option.filter_eq_some_iff.mp h).1) h

theorem nodesAbove_of_top {p : Pointer} (h : p.nodeParent? = none) : p.nodesAbove = [] := by
  rw [nodesAbove, h]
  cases p.depth <;> rfl

theorem ancestry_of_parent {p q : Pointer} (h : p.parent? = some q) : p.ancestry = q.ancestry ++ [p] := by
  rw [ancestry, above_of_parent h, List.reverse_cons]
  rfl

end Pointer

/-! ## §B  Trees -/

/-- **Inside** are a node and its children, their children, and so on. -/
inductive Inside (st : Store) (root : Pointer) : Pointer → Prop
  | root : Inside st root root
  | child {p c : Pointer} : Inside st root p → c ∈ p.children st → Inside st root c

/-- **Rooted** says that what is inside a node is a tree: every child is a level lower than its parent, and
attributes have nothing below them. -/
structure Rooted (st : Store) (root : Pointer) (height : Pointer → Nat) : Prop where
  top : root.nodeParent? = none
  children : ∀ {p c}, Inside st root p → c ∈ p.children st → c.parent? = some p ∧ height c < height p
  attributes : ∀ {p a}, Inside st root p → a ∈ p.attributes st →
    a.parent? = some p ∧ a.children st = [] ∧ a.attributes st = []
  declarations : ∀ {p q}, Inside st root p → q = p ∨ q ∈ p.attributes st → q.declarations st = []
  contained : ∀ {p}, Inside st root p → p.isContainer = false
  stands : ∀ {p a}, Inside st root p → p.hasSiblings st = true ∧ (a ∈ p.attributes st → a.hasSiblings st = false)
  height_pos : ∀ {p}, Inside st root p → 0 < height p
  height_le : ∀ {p}, Inside st root p → height p ≤ p.levelsBelow st
  eq_of_beq : ∀ {p q c d}, Inside st root p → Inside st root q → c = p ∨ c ∈ p.attributes st →
    d = q ∨ d ∈ q.attributes st → c == d → c = d

/-- **InTree** are the nodes inside another one and their attributes. -/
def InTree (st : Store) (root p : Pointer) : Prop := ∃ q, Inside st root q ∧ (p = q ∨ p ∈ q.attributes st)

section

variable {st : Store} {root p c : Pointer} {height : Pointer → Nat}

/-- What is listed below a node is of the tree. -/
theorem Inside.inTree_of_mem (hp : Inside st root p) {levels : Nat} {q : Pointer}
    (hq : q ∈ p.listingFrom st levels) : InTree st root q := by
  induction levels generalizing p with
  | zero =>
    obtain rfl := List.mem_singleton.mp hq
    exact ⟨q, hp, .inl rfl⟩
  | succ levels ih =>
    rcases List.mem_cons.mp hq with rfl | hq
    · exact ⟨q, hp, .inl rfl⟩
    · rcases List.mem_append.mp hq with hq | hq
      · exact ⟨p, hp, .inr hq⟩
      · obtain ⟨c, hc, hq⟩ := List.mem_flatMap.mp hq
        exact ih (hp.child hc) hq

namespace Rooted

theorem nodeParent? (h : Rooted st root height) (hp : Inside st root p) (hc : c.parent? = some p) :
    c.nodeParent? = some p := by
  rw [Pointer.nodeParent?, hc, Option.filter_some, h.contained hp]
  rfl

/-! ## §C  Where a node stands -/

/-- **Descendants** are listed below their node, in the same order. -/
theorem subtree_sublist (h : Rooted st root height) {m : Nat} (n : Nat) (hp : Inside st root p) (hm : height p ≤ m) :
    (p :: p.descendantsFrom st n).Sublist (p.listingFrom st m) := by
  induction m generalizing n p with
  | zero => exact absurd (h.height_pos hp) (by omega)
  | succ m ih =>
    refine List.Sublist.cons_cons p ?_
    cases n with
    | zero => exact List.nil_sublist _
    | succ n =>
      refine List.Sublist.trans (List.Sublist.flatMap_right _ fun c hc => ?_) (List.sublist_append_right _ _)
      have := (h.children hp hc).2
      exact ih n (hp.child hc) (by omega)

end Rooted

/-- The nodes behind a node and those above it, as far as they are below siblings. -/
def Pointer.behind (p : Pointer) (st : Store) : List Pointer :=
  (p :: p.nodesAbove).flatMap fun n => (n.siblingsAfter st).flatMap (·.subtree st)

/-- The nodes in front of a node and of those above it, nearest first. -/
def Pointer.inFront (p : Pointer) (st : Store) : List Pointer :=
  (p :: p.nodesAbove).flatMap fun n => (n.siblingsBefore st).flatMap fun s => (s.subtree st).reverse

/-- **Situated** says where in a listing a node stands, with what is below it. -/
structure Situated (st : Store) (height : Pointer → Nat) (all : List Pointer) (p : Pointer) (levels : Nat)
    (front back : List Pointer) : Prop where
  height_le : height p ≤ levels
  split : all = front ++ (p.listingFrom st levels ++ back)
  above : p.nodesAbove.reverse.Sublist front
  behind : (p.behind st).Sublist back
  inFront : (p.inFront st).reverse.Sublist front

namespace Rooted

/-- A list is divided by the first of its nodes that is some node. -/
theorem split_at_first {l : List Pointer} (hc : c ∈ l) (heq : ∀ d ∈ l, d == c → d = c) :
    ∃ r, l = l.takeWhile (· != c) ++ c :: r ∧ (l.dropWhile (· != c)).drop 1 = r := by
  induction l with
  | nil => cases hc
  | cons d l ih =>
    obtain ⟨hd, hl⟩ := List.forall_mem_cons.mp heq
    by_cases hdc : d = c
    · subst hdc
      exact ⟨l, by simp [bne], by simp [bne]⟩
    · have hne : (d == c) = false := by simpa using fun hbeq => hdc (hd hbeq)
      obtain ⟨r, hsplit, hr⟩ := ih ((List.mem_cons.mp hc).resolve_left (Ne.symm hdc)) hl
      refine ⟨r, ?_, ?_⟩
      · rw [List.takeWhile_cons_of_pos (by simp [bne, hne]), List.cons_append, ← hsplit]
      · rw [List.dropWhile_cons_of_pos (by simp [bne, hne]), hr]

/-- The siblings of a child. -/
theorem siblings (h : Rooted st root height) (hp : Inside st root p) (hc : c ∈ p.children st) :
    ∃ l r, p.children st = l ++ c :: r ∧ c.siblingsBefore st = l.reverse ∧ c.siblingsAfter st = r := by
  have hsiblings : c.siblings st = p.children st := by
    rw [Pointer.siblings, (h.stands (hp.child hc) (a := c)).1, h.nodeParent? hp (h.children hp hc).1]
    rfl
  obtain ⟨r, hsplit, hr⟩ := split_at_first hc fun d hd hbeq =>
    h.eq_of_beq (hp.child hd) (hp.child hc) (.inl rfl) (.inl rfl) hbeq
  refine ⟨(p.children st).takeWhile (· != c), r, hsplit, ?_, ?_⟩
  · rw [Pointer.siblingsBefore, hsiblings]
  · rw [Pointer.siblingsAfter, hsiblings, hr]

/-- The root stands at the front, with everything below it. -/
theorem situated_root (h : Rooted st root height) : Situated st height (root.listing st) root (root.levelsBelow st) [] [] where
  height_le := h.height_le .root
  split := by simp [Pointer.listing]
  above := by rw [Pointer.nodesAbove_of_top h.top]; exact .slnil
  behind := by
    rw [Pointer.behind, Pointer.nodesAbove_of_top h.top]
    simp [Pointer.siblingsAfter, Pointer.siblings, h.top]
  inFront := by
    rw [Pointer.inFront, Pointer.nodesAbove_of_top h.top]
    simp [Pointer.siblingsBefore, Pointer.siblings, h.top]

/-- A child stands among what is below its parent. -/
theorem situated_child (h : Rooted st root height) (hp : Inside st root p) (hc : c ∈ p.children st)
    {all front back : List Pointer} {m : Nat} (hs : Situated st height all p m front back) :
    ∃ n front back, Situated st height all c n front back := by
  obtain ⟨hparent, hheight⟩ := h.children hp hc
  obtain ⟨m, rfl⟩ : ∃ n, m = n + 1 := ⟨m - 1, by have := hs.height_le; omega⟩
  obtain ⟨l, r, hchildren, hbefore, hafter⟩ := h.siblings hp hc
  have habove := Pointer.nodesAbove_of_nodeParent (h.nodeParent? hp hparent)
  have hsubtree : ∀ d ∈ p.children st, (d.subtree st).Sublist (d.listingFrom st m) := fun d hd => by
    have := (h.children hp hd).2
    have := hs.height_le
    exact h.subtree_sublist _ (hp.child hd) (by omega)
  have hl : (l.flatMap (·.subtree st)).Sublist (l.flatMap (·.listingFrom st m)) :=
    List.Sublist.flatMap_right _ fun d hd => hsubtree d (by rw [hchildren]; simp [hd])
  have hr : (r.flatMap (·.subtree st)).Sublist (r.flatMap (·.listingFrom st m)) :=
    List.Sublist.flatMap_right _ fun d hd => hsubtree d (by rw [hchildren]; simp [hd])
  refine ⟨m, front ++ p :: (p.attributes st ++ l.flatMap (·.listingFrom st m)),
    r.flatMap (·.listingFrom st m) ++ back, ?_, ?_, ?_, ?_, ?_⟩
  · have := hs.height_le
    omega
  · rw [hs.split, Pointer.listingFrom, hchildren]
    simp [List.flatMap_append, List.append_assoc]
  · rw [habove, List.reverse_cons]
    exact hs.above.append (List.singleton_sublist.mpr List.mem_cons_self)
  · rw [Pointer.behind, habove, List.flatMap_cons, hafter]
    exact hr.append hs.behind
  · have hback : (l.reverse.flatMap fun s => (s.subtree st).reverse).reverse = l.flatMap (·.subtree st) := by
      simp [List.reverse_flatMap, Function.comp_def]
    rw [Pointer.inFront, habove, List.flatMap_cons, hbefore, List.reverse_append, hback]
    exact hs.inFront.append ((hl.trans (List.sublist_append_right _ _)).cons p)

/-- **Every node stands somewhere in the listing.** -/
theorem situated (h : Rooted st root height) (hp : Inside st root p) :
    ∃ levels front back, Situated st height (root.listing st) p levels front back := by
  induction hp with
  | root => exact ⟨_, [], [], h.situated_root⟩
  | child hp hc ih =>
    obtain ⟨levels, front, back, hs⟩ := ih
    exact h.situated_child hp hc hs

/-! ## §D  Axes -/

/-- **A node** is listed, and so are its attributes right behind it, and the nodes below it. -/
theorem attributes_sublist (h : Rooted st root height) (hp : Inside st root p) {m : Nat} (hm : height p ≤ m) :
    (p :: p.attributes st).Sublist (p.listingFrom st m) := by
  obtain ⟨m, rfl⟩ : ∃ n, m = n + 1 := ⟨m - 1, by have := h.height_pos hp; omega⟩
  exact (List.sublist_append_left _ _).cons_cons p

theorem children_sublist (h : Rooted st root height) (hp : Inside st root p) {m : Nat} (hm : height p ≤ m) :
    (p.children st).Sublist (p.listingFrom st m) := by
  have hone : p.descendantsFrom st 1 = p.children st := by simp [Pointer.descendantsFrom]
  exact hone ▸ (List.sublist_cons_self p _).trans (h.subtree_sublist 1 hp hm)

end Rooted

/-- A list is part of what its elements are replaced by, if each one is part of its own. -/
theorem sublist_flatMap {l : List Pointer} {f : Pointer → List Pointer} (h : ∀ c, c ∈ f c) : l.Sublist (l.flatMap f) := by
  have hflat : (l.flatMap fun c => [c]).Sublist (l.flatMap f) :=
    List.Sublist.flatMap_right l fun c _ => List.singleton_sublist.mpr (h c)
  simpa using hflat

/-- The nodes along an axis, in the order in which a listing has them. -/
def Axis.forward (a : Axis) (p : Pointer) (st : Store) : List Pointer :=
  if a.isReverse then (a.nodes p st).reverse else a.nodes p st

namespace Rooted

variable {q : Pointer}

/-- What follows an element is what is behind it, and what precedes it is in front of it. -/
theorem following_element (h : Rooted st root height) (hp : Inside st root p) :
    p.following st = p.behind st ∧ p.preceding st = p.inFront st := by
  have hstands : p.hasSiblings st = true := (h.stands hp (a := p)).1
  rw [Pointer.following, Pointer.preceding, if_pos hstands, if_pos hstands]
  exact ⟨rfl, rfl⟩

/-- An attribute has no siblings on either side. -/
theorem siblings_attribute (h : Rooted st root height) (hp : Inside st root p) (hq : q ∈ p.attributes st) :
    q.siblingsAfter st = [] ∧ q.siblingsBefore st = [] := by
  have hnone : q.siblings st = [] := by
    rw [Pointer.siblings, (h.stands hp).2 hq]
    rfl
  rw [Pointer.siblingsAfter, Pointer.siblingsBefore, hnone]
  exact ⟨rfl, rfl⟩

theorem descendants_attribute (h : Rooted st root height) (hp : Inside st root p) (hq : q ∈ p.attributes st) :
    q.descendants st = [] := by
  rw [Pointer.descendants]
  cases q.levelsBelow st with
  | zero => rfl
  | succ n => rw [Pointer.descendantsFrom, (h.attributes hp hq).2.1, List.flatMap_nil]

/-- What follows an attribute is below its element or behind it, and what precedes it is in front of the element. -/
theorem following_attribute (h : Rooted st root height) (hp : Inside st root p) (hq : q ∈ p.attributes st) :
    q.following st = p.descendants st ++ p.behind st ∧ q.preceding st = p.inFront st := by
  have hstands : q.hasSiblings st = false := (h.stands hp).2 hq
  have hparent : q.nodeParent? = some p := h.nodeParent? hp (h.attributes hp hq).1
  rw [Pointer.following, Pointer.preceding, hstands, hparent]
  exact ⟨rfl, rfl⟩

end Rooted

namespace Situated

variable {all front back : List Pointer} {levels : Nat}

/-- What is in front of, at and behind a node is listed. -/
theorem sublist (hs : Situated st height all p levels front back) {l m r : List Pointer} (hl : l.Sublist front)
    (hm : m.Sublist (p.listingFrom st levels)) (hr : r.Sublist back) : (l ++ (m ++ r)).Sublist all :=
  hs.split ▸ hl.append (hm.append hr)

theorem at_node (hs : Situated st height all p levels front back) {m : List Pointer}
    (hm : m.Sublist (p.listingFrom st levels)) : m.Sublist all := by
  simpa using hs.sublist (List.nil_sublist _) hm (List.nil_sublist _)

theorem in_front (hs : Situated st height all p levels front back) {l : List Pointer} (hl : l.Sublist front) :
    l.Sublist all := by
  simpa using hs.sublist hl (List.nil_sublist _) (List.nil_sublist _)

theorem behind_node (hs : Situated st height all p levels front back) {r : List Pointer} (hr : r.Sublist back) :
    r.Sublist all := by
  simpa using hs.sublist (List.nil_sublist _) (List.nil_sublist _) hr

/-- **The axes of an element** are parts of the listing. -/
theorem element_axis (hs : Situated st height all p levels front back) (h : Rooted st root height)
    (hp : Inside st root p) (a : Axis) : (a.forward p st).Sublist all := by
  have hself : [p].Sublist (p.listingFrom st levels) :=
    (List.singleton_sublist.mpr List.mem_cons_self).trans (h.attributes_sublist hp hs.height_le)
  obtain ⟨hfollowing, hpreceding⟩ := h.following_element hp
  cases a with
  | self => exact hs.at_node hself
  | child => exact hs.at_node (h.children_sublist hp hs.height_le)
  | attributes => exact hs.at_node ((List.sublist_cons_self p _).trans (h.attributes_sublist hp hs.height_le))
  | namespaces =>
    show (p.declarations st).Sublist all
    rw [h.declarations hp (.inl rfl)]
    exact List.nil_sublist _
  | parent =>
    show p.nodeParent?.toList.Sublist all
    cases hparent : p.nodeParent? with
    | none => exact List.nil_sublist _
    | some q =>
      have hmem : q ∈ p.nodesAbove.reverse := by
        rw [Pointer.nodesAbove_of_nodeParent hparent]
        simp
      exact hs.in_front ((List.singleton_sublist.mpr hmem).trans hs.above)
  | ancestor => exact hs.in_front hs.above
  | ancestorOrSelf =>
    have hboth := hs.sublist hs.above hself (List.nil_sublist _)
    simpa [Axis.forward, Axis.isReverse, Axis.nodes] using hboth
  | descendant => exact hs.at_node ((List.sublist_cons_self p _).trans (h.subtree_sublist _ hp hs.height_le))
  | descendantOrSelf => exact hs.at_node (h.subtree_sublist _ hp hs.height_le)
  | followingSibling =>
    have hbehind : (p.siblingsAfter st).Sublist (p.behind st) := by
      rw [Pointer.behind, List.flatMap_cons]
      exact (sublist_flatMap fun c => List.mem_cons_self).trans (List.sublist_append_left _ _)
    exact hs.behind_node (hbehind.trans hs.behind)
  | precedingSibling =>
    have hinFront : (p.siblingsBefore st).Sublist (p.inFront st) := by
      rw [Pointer.inFront, List.flatMap_cons]
      exact (sublist_flatMap fun c => List.mem_reverse.mpr List.mem_cons_self).trans (List.sublist_append_left _ _)
    exact hs.in_front (hinFront.reverse.trans hs.inFront)
  | following =>
    show (p.following st).Sublist all
    exact hfollowing ▸ hs.behind_node hs.behind
  | preceding =>
    show (p.preceding st).reverse.Sublist all
    exact hpreceding ▸ hs.in_front hs.inFront

/-- **The axes of an attribute** are parts of the listing: it has its element and what is around that. -/
theorem attribute_axis (hs : Situated st height all p levels front back) (h : Rooted st root height)
    (hp : Inside st root p) {q : Pointer} (hq : q ∈ p.attributes st) (a : Axis) : (a.forward q st).Sublist all := by
  obtain ⟨hparent, hchildren, hattributes⟩ := h.attributes hp hq
  have hattrs := h.attributes_sublist hp hs.height_le
  have hself : [q].Sublist (p.listingFrom st levels) :=
    (List.singleton_sublist.mpr (List.mem_cons_of_mem _ hq)).trans hattrs
  have hnode : [p].Sublist (p.listingFrom st levels) := (List.singleton_sublist.mpr List.mem_cons_self).trans hattrs
  have hnodeParent := h.nodeParent? hp hparent
  have habove := Pointer.nodesAbove_of_nodeParent hnodeParent
  have hdescendants := h.descendants_attribute hp hq
  obtain ⟨hafter, hbefore⟩ := h.siblings_attribute hp hq
  obtain ⟨hfollowing, hpreceding⟩ := h.following_attribute hp hq
  -- Most axes have nothing to offer to an attribute.
  have hempty : ∀ {a : Axis}, a.nodes q st = [] → (a.forward q st).Sublist all := by
    intro a hnone
    rw [Axis.forward, hnone, List.reverse_nil, ite_self]
    exact List.nil_sublist _
  cases a with
  | self => exact hs.at_node hself
  | child => exact hempty hchildren
  | attributes => exact hempty hattributes
  | namespaces => exact hempty (h.declarations hp (.inr hq))
  | parent =>
    show q.nodeParent?.toList.Sublist all
    rw [hnodeParent]
    exact hs.at_node hnode
  | ancestor =>
    show q.nodesAbove.reverse.Sublist all
    rw [habove, List.reverse_cons]
    simpa using hs.sublist hs.above hnode (List.nil_sublist _)
  | ancestorOrSelf =>
    show (q :: q.nodesAbove).reverse.Sublist all
    have hboth : [p, q].Sublist (p.listingFrom st levels) :=
      ((List.singleton_sublist.mpr hq).cons_cons p).trans hattrs
    rw [habove, List.reverse_cons, List.reverse_cons]
    simpa using hs.sublist hs.above hboth (List.nil_sublist _)
  | descendant => exact hempty hdescendants
  | descendantOrSelf =>
    show (q :: q.descendants st).Sublist all
    rw [hdescendants]
    exact hs.at_node hself
  | followingSibling => exact hempty hafter
  | precedingSibling => exact hempty hbefore
  | following =>
    show (q.following st).Sublist all
    have hbelow := (List.sublist_cons_self p _).trans (h.subtree_sublist (p.levelsBelow st) hp hs.height_le)
    rw [hfollowing]
    have hboth := hs.sublist (List.nil_sublist _) hbelow hs.behind
    exact hboth
  | preceding =>
    show (q.preceding st).reverse.Sublist all
    exact hpreceding ▸ hs.in_front hs.inFront

end Situated

namespace Rooted

/-- **Every axis is a part of the listing**, in its order or against it. -/
theorem axis_sublist (h : Rooted st root height) (hp : InTree st root p) (a : Axis) :
    (a.forward p st).Sublist (root.listing st) := by
  obtain ⟨q, hq, rfl | hattribute⟩ := hp
  · obtain ⟨levels, front, back, hs⟩ := h.situated hq
    exact hs.element_axis h hq a
  · obtain ⟨levels, front, back, hs⟩ := h.situated hq
    exact hs.attribute_axis h hq hattribute a

/-- What is listed is what is in the tree. -/
theorem mem_listing (h : Rooted st root height) : p ∈ root.listing st ↔ InTree st root p :=
  ⟨Inside.root.inTree_of_mem, fun hp => (h.axis_sublist hp .self).mem List.mem_cons_self⟩

/-- No axis leaves the tree. -/
theorem mem_of_axis (h : Rooted st root height) {q : Pointer} {a : Axis} (hp : p ∈ root.listing st)
    (hq : q ∈ a.nodes p st) : q ∈ root.listing st := by
  refine (h.axis_sublist (h.mem_listing.mp hp) a).mem ?_
  unfold Axis.forward
  split
  · exact List.mem_reverse.mpr hq
  · exact hq

/-- No axis is longer than the listing. -/
theorem axis_length_le (h : Rooted st root height) (hp : p ∈ root.listing st) (a : Axis) :
    (a.nodes p st).length ≤ (root.listing st).length := by
  have hlength := (h.axis_sublist (h.mem_listing.mp hp) a).length_le
  unfold Axis.forward at hlength
  split at hlength
  · rwa [List.length_reverse] at hlength
  · exact hlength

end Rooted

/-! ## §E  The order of the listing -/

/-- Ancestries are compared from where they part. -/
theorem Pointer.compareAncestries_append (common : Pointer) (l xs ys : List Pointer) :
    compareAncestries st common (l ++ xs) (l ++ ys) = compareAncestries st (l.getLastD common) xs ys := by
  induction l generalizing common with
  | nil => rfl
  | cons a l ih =>
    rw [List.cons_append, List.cons_append, compareAncestries, if_pos (beq_self_eq_true a), ih]
    cases l <;> rfl

/-- Nodes below a node are compared by their ways down from there. -/
theorem Pointer.compare?_below {x y : Pointer} {xs ys : List Pointer} (hx : x.ancestry = p.ancestry ++ xs)
    (hy : y.ancestry = p.ancestry ++ ys) (hne : (x == y) = false) :
    x.compare? st y = some (compareAncestries st p xs ys) := by
  have hp : p.ancestry = p.above.reverse ++ [p] := List.reverse_cons
  rw [compare?, hne, if_neg Bool.false_ne_true, hx, hy, hp]
  cases hup : p.above.reverse with
  | nil => simp
  | cons q qs =>
    simp only [List.cons_append, beq_self_eq_true, if_true]
    rw [compareAncestries_append, List.getLastD_concat]

/-- **Ranked** says that the attributes and children of every node inside a node are ranked as they stand. -/
def Ranked (st : Store) (root : Pointer) : Prop :=
  ∀ p, Inside st root p → (p.attributes st ++ p.children st).Pairwise fun a b =>
    Pointer.compareBelow st p a b = .lt ∧ Pointer.compareBelow st p b a = .gt

namespace Rooted

/-- Different nodes of the tree are told apart. -/
theorem beq_false (h : Rooted st root height) {x y : Pointer} (hx : InTree st root x) (hy : InTree st root y)
    (hne : x ≠ y) : (x == y) = false := by
  obtain ⟨p, hp, hx⟩ := hx
  obtain ⟨q, hq, hy⟩ := hy
  cases hbeq : x == y with
  | false => rfl
  | true => exact absurd (h.eq_of_beq hp hq hx hy hbeq) hne

/-- A node comes before what is below it. -/
theorem before_of_below (h : Rooted st root height) {x y : Pointer} {ys : List Pointer} (hx : InTree st root x)
    (hy : InTree st root y) (hway : y.ancestry = x.ancestry ++ ys) (hne : ys ≠ []) : x.Before st y := by
  have hxy : x ≠ y := by
    rintro rfl
    exact hne (by simpa using hway)
  obtain ⟨b, ys, rfl⟩ := List.exists_cons_of_ne_nil hne
  have hself : x.ancestry = x.ancestry ++ [] := by simp
  exact ⟨Pointer.compare?_below hself hway (h.beq_false hx hy hxy),
    Pointer.compare?_below hway hself (h.beq_false hy hx hxy.symm)⟩

/-- Nodes in different branches come in the order of the branches. -/
theorem before_of_branches (h : Rooted st root height) {x y a b : Pointer} {xs ys : List Pointer}
    (hx : InTree st root x) (hy : InTree st root y) (hway : x.ancestry = p.ancestry ++ a :: xs)
    (hway' : y.ancestry = p.ancestry ++ b :: ys) (ha : InTree st root a) (hb : InTree st root b)
    (hab : Pointer.compareBelow st p a b = .lt ∧ Pointer.compareBelow st p b a = .gt) : x.Before st y := by
  have hne : a ≠ b := by
    rintro rfl
    cases hab.1.symm.trans hab.2
  have hxy : x ≠ y := by
    rintro rfl
    have hheads := List.append_cancel_left (hway.symm.trans hway')
    exact hne (List.cons.inj hheads).1
  constructor
  · rw [Pointer.compare?_below hway hway' (h.beq_false hx hy hxy), Pointer.compareAncestries, h.beq_false ha hb hne]
    exact congrArg some hab.1
  · rw [Pointer.compare?_below hway' hway (h.beq_false hy hx hxy.symm), Pointer.compareAncestries,
      h.beq_false hb ha hne.symm]
    exact congrArg some hab.2

/-- The way to what is listed below a node leads through the node. -/
theorem ancestry_of_mem_listingFrom (h : Rooted st root height) (hp : Inside st root p) {x : Pointer} {m : Nat}
    (hx : x ∈ p.listingFrom st m) : ∃ xs, x.ancestry = p.ancestry ++ xs := by
  induction m generalizing p with
  | zero =>
    obtain rfl := List.mem_singleton.mp hx
    exact ⟨[], by simp⟩
  | succ m ih =>
    rcases List.mem_cons.mp hx with rfl | hx
    · exact ⟨[], by simp⟩
    rcases List.mem_append.mp hx with hx | hx
    · exact ⟨[x], Pointer.ancestry_of_parent (h.attributes hp hx).1⟩
    · obtain ⟨c, hc, hx⟩ := List.mem_flatMap.mp hx
      obtain ⟨xs, hway⟩ := ih (hp.child hc) hx
      exact ⟨c :: xs, by rw [hway, Pointer.ancestry_of_parent (h.children hp hc).1]; simp⟩

/-- **What is listed below a node is in document order.** -/
theorem before_from (h : Rooted st root height) (hr : Ranked st root) {m : Nat} (hp : Inside st root p)
    (hm : height p ≤ m) : (p.listingFrom st m).Pairwise (Pointer.Before st) := by
  induction m generalizing p with
  | zero => exact absurd (h.height_pos hp) (by omega)
  | succ m ih =>
    have hself : InTree st root p := ⟨p, hp, .inl rfl⟩
    have hchild : ∀ c ∈ p.children st, InTree st root c := fun c hc => ⟨c, hp.child hc, .inl rfl⟩
    have hattr : ∀ a ∈ p.attributes st, InTree st root a ∧ a.ancestry = p.ancestry ++ [a] := fun a ha =>
      ⟨⟨p, hp, .inr ha⟩, Pointer.ancestry_of_parent (h.attributes hp ha).1⟩
    have hbelow : ∀ c ∈ p.children st, ∀ x ∈ c.listingFrom st m,
        InTree st root x ∧ ∃ xs, x.ancestry = p.ancestry ++ c :: xs := by
      intro c hc x hx
      obtain ⟨xs, hway⟩ := h.ancestry_of_mem_listingFrom (hp.child hc) hx
      refine ⟨(hp.child hc).inTree_of_mem hx, xs, ?_⟩
      rw [hway, Pointer.ancestry_of_parent (h.children hp hc).1]
      simp
    obtain ⟨hattrs, hchildren, hacross⟩ := List.pairwise_append.mp (hr p hp)
    rw [Pointer.listingFrom]
    -- The node comes before all that is below it; its attributes and the listings of its children are in order in
    -- themselves, and across because attributes and children are ranked.
    refine List.pairwise_cons.mpr ⟨?below, List.pairwise_append.mpr ⟨?attributes, ?children, ?across⟩⟩
    case below =>
      intro x hx
      rcases List.mem_append.mp hx with hx | hx
      · obtain ⟨hin, hway⟩ := hattr x hx
        exact h.before_of_below hself hin hway (List.cons_ne_nil _ _)
      · obtain ⟨c, hc, hx⟩ := List.mem_flatMap.mp hx
        obtain ⟨hin, xs, hway⟩ := hbelow c hc x hx
        exact h.before_of_below hself hin hway (List.cons_ne_nil _ _)
    case attributes =>
      refine hattrs.imp_of_mem fun {a b} ha hb hab => ?_
      obtain ⟨hina, hwaya⟩ := hattr a ha
      obtain ⟨hinb, hwayb⟩ := hattr b hb
      exact h.before_of_branches hina hinb hwaya hwayb hina hinb hab
    case children =>
      refine List.pairwise_flatMap.mpr ⟨fun c hc => ?_, hchildren.imp_of_mem fun {c d} hc hd hcd x hx y hy => ?_⟩
      · have hheight := (h.children hp hc).2
        exact ih (hp.child hc) (by omega)
      · obtain ⟨hinx, xs, hwayx⟩ := hbelow c hc x hx
        obtain ⟨hiny, ys, hwayy⟩ := hbelow d hd y hy
        exact h.before_of_branches hinx hiny hwayx hwayy (hchild c hc) (hchild d hd) hcd
    case across =>
      intro a ha y hy
      obtain ⟨d, hd, hy⟩ := List.mem_flatMap.mp hy
      obtain ⟨hina, hwaya⟩ := hattr a ha
      obtain ⟨hiny, ys, hwayy⟩ := hbelow d hd y hy
      exact h.before_of_branches hina hiny hwaya hwayy hina (hchild d hd) (hacross a ha d hd)

/-- **The listing of a tree is in document order.** -/
theorem listing (h : Rooted st root height) (hr : Ranked st root) : Listing st (root.listing st) where
  before := h.before_from hr .root (h.height_le .root)
  eq_of_beq := by
    intro p hp q hq
    obtain ⟨p', hp', hp⟩ := h.mem_listing.mp hp
    obtain ⟨q', hq', hq⟩ := h.mem_listing.mp hq
    exact h.eq_of_beq hp' hq' hp hq

end Rooted

end

end NodePath
