/-
# NodePath.Proofs.Levels — nodes of one level

The nodes of a tree are on levels. Most axes lead from the nodes of one level to nodes of one level, and two nodes
of one level have no descendant in common. This is what keeps the nodes of a path apart where nothing sorts them.

* §A  Levels.
* §B  Axes that stay on one level.
* §C  Axes along which two nodes never come to one.
-/
import NodePath.Proofs.DocumentOrder

namespace NodePath

/-! ## §A  Levels -/

/-- **level** is how far down a node is: how many nodes there are from the top down to it. -/
def Pointer.level (p : Pointer) : Nat := p.ancestry.length

theorem Pointer.level_of_parent {p q : Pointer} (h : p.parent? = some q) : p.level = q.level + 1 := by
  rw [level, Pointer.ancestry_of_parent h, List.length_append]
  rfl

theorem Pointer.parent_of_nodeParent {p q : Pointer} (h : p.nodeParent? = some q) : p.parent? = some q :=
  (Option.filter_eq_some_iff.mp h).1

section

variable {st : Store} {root p q x : Pointer} {height : Pointer → Nat}

namespace Rooted

theorem parent_of_child (h : Rooted st root height) (hp : InTree st root p) (hx : x ∈ p.children st) :
    x.parent? = some p := by
  obtain ⟨r, hr, rfl | hp⟩ := hp
  · exact (h.children hr hx).1
  · rw [(h.attributes hr hp).2.1] at hx
    cases hx

theorem parent_of_attribute (h : Rooted st root height) (hp : InTree st root p) (hx : x ∈ p.attributes st) :
    x.parent? = some p := by
  obtain ⟨r, hr, rfl | hp⟩ := hp
  · exact (h.attributes hr hx).1
  · rw [(h.attributes hr hp).2.2] at hx
    cases hx

theorem no_declaration (h : Rooted st root height) (hp : InTree st root p) : p.declarations st = [] := by
  obtain ⟨r, hr, hp⟩ := hp
  exact h.declarations hr hp

/-- A sibling has the same parent. -/
theorem parent_of_sibling (h : Rooted st root height) (hp : InTree st root p) (hx : x ∈ p.siblings st) :
    ∃ r, p.parent? = some r ∧ x.parent? = some r := by
  obtain ⟨r, hr, rfl | hp⟩ := hp
  · cases hr with
    | root =>
      rw [Pointer.siblings, h.top] at hx
      split at hx <;> cases hx
    | @child r _ hr hp =>
      have hparent := (h.children hr hp).1
      have hstands : p.hasSiblings st = true := (h.stands (hr.child hp) (a := p)).1
      rw [Pointer.siblings, if_pos hstands, h.nodeParent? hr hparent] at hx
      exact ⟨r, hparent, (h.children hr hx).1⟩
  · have hstands : p.hasSiblings st = false := (h.stands hr).2 hp
    rw [Pointer.siblings, hstands] at hx
    cases hx

/-! ## §B  Flat axes -/

end Rooted

/-- The level of the nodes along an axis from a node of a level, for an axis that stays on one. -/
def Axis.levelFrom? (n : Nat) : Axis → Option Nat
  | .self => some n
  | .child => some (n + 1)
  | .attributes => some (n + 1)
  | .namespaces => some (n + 1)
  | .parent => some (n - 1)
  | .followingSibling => some n
  | .precedingSibling => some n
  | _ => none

/-- **isFlat** says that an axis stays on one level. -/
def Axis.isFlat (a : Axis) : Bool := (a.levelFrom? 0).isSome

theorem Pointer.mem_siblings_of_after (hx : x ∈ p.siblingsAfter st) : x ∈ p.siblings st :=
  (List.dropWhile_sublist _).mem (List.mem_of_mem_drop hx)

theorem Pointer.mem_siblings_of_before (hx : x ∈ p.siblingsBefore st) : x ∈ p.siblings st :=
  (List.takeWhile_sublist _).mem (List.mem_reverse.mp hx)

namespace Rooted

/-- **A flat axis** leads to the level that it says. -/
theorem level_of_axis (h : Rooted st root height) (hp : InTree st root p) {a : Axis} (ha : a.isFlat = true)
    (hx : x ∈ a.nodes p st) : a.levelFrom? p.level = some x.level := by
  have hsibling : x ∈ p.siblings st → x.level = p.level := by
    intro hx
    obtain ⟨r, hpr, hxr⟩ := h.parent_of_sibling hp hx
    rw [Pointer.level_of_parent hpr, Pointer.level_of_parent hxr]
  cases a with
  | self =>
    obtain rfl := List.mem_singleton.mp hx
    rfl
  | child => exact congrArg some (Pointer.level_of_parent (h.parent_of_child hp hx)).symm
  | attributes => exact congrArg some (Pointer.level_of_parent (h.parent_of_attribute hp hx)).symm
  | namespaces =>
    have hnone : x ∈ p.declarations st := hx
    rw [h.no_declaration hp] at hnone
    cases hnone
  | parent =>
    have hparent := Pointer.parent_of_nodeParent (Option.mem_toList.mp hx)
    exact congrArg some (by rw [Pointer.level_of_parent hparent]; rfl)
  | followingSibling => exact congrArg some (hsibling (Pointer.mem_siblings_of_after hx)).symm
  | precedingSibling => exact congrArg some (hsibling (Pointer.mem_siblings_of_before hx)).symm
  | _ => cases ha

/-! ## §C  Apart -/

/-- The way to a node leads through all nodes that it is below. -/
theorem ancestry_of_subtree (h : Rooted st root height) (hp : InTree st root p) (hx : x ∈ p.subtree st) :
    ∃ xs, x.ancestry = p.ancestry ++ xs := by
  rcases List.mem_cons.mp hx with rfl | hx
  · exact ⟨[], (List.append_nil _).symm⟩
  · obtain ⟨r, hin, rfl | hp⟩ := hp
    · have hbelow := (h.subtree_sublist (p.levelsBelow st) hin (Nat.le_refl _)).mem (List.mem_cons_of_mem _ hx)
      exact h.ancestry_of_mem_listingFrom hin hbelow
    · rw [h.descendants_attribute hin hp] at hx
      cases hx

/-- **Two nodes of one level** have no node below them in common. -/
theorem subtree_disjoint (h : Rooted st root height) (hp : InTree st root p) (hq : InTree st root q)
    (hlevel : p.level = q.level) (hne : p ≠ q) : (p.subtree st).Disjoint (q.subtree st) := by
  intro x hxp hxq
  obtain ⟨xs, hxs⟩ := h.ancestry_of_subtree hp hxp
  obtain ⟨ys, hys⟩ := h.ancestry_of_subtree hq hxq
  obtain ⟨hway, -⟩ := List.append_inj (hxs.symm.trans hys) hlevel
  have hlast : (p.above.reverse ++ [p]).getLast? = (q.above.reverse ++ [q]).getLast? := by
    simpa [Pointer.ancestry] using congrArg List.getLast? hway
  rw [List.getLast?_concat, List.getLast?_concat] at hlast
  exact hne (Option.some.inj hlast)

end Rooted

/-- **rejoins** says that an axis may lead from two nodes of one level to one node. -/
def Axis.rejoins : Axis → Bool
  | .self => false
  | .child => false
  | .attributes => false
  | .namespaces => false
  | .descendant => false
  | .descendantOrSelf => false
  | _ => true

namespace Rooted

theorem axis_disjoint (h : Rooted st root height) (hp : InTree st root p) (hq : InTree st root q)
    (hlevel : p.level = q.level) (hne : p ≠ q) {a : Axis} (ha : a.rejoins = false) :
    (a.nodes p st).Disjoint (a.nodes q st) := by
  have hparent : ∀ {x : Pointer}, x.parent? = some p → x.parent? = some q → False := fun hxp hxq =>
    hne (Option.some.inj (hxp.symm.trans hxq))
  have hbelow := h.subtree_disjoint hp hq hlevel hne
  intro x hxp hxq
  cases a with
  | self => exact hne ((List.mem_singleton.mp hxp).symm.trans (List.mem_singleton.mp hxq))
  | child => exact hparent (h.parent_of_child hp hxp) (h.parent_of_child hq hxq)
  | attributes => exact hparent (h.parent_of_attribute hp hxp) (h.parent_of_attribute hq hxq)
  | namespaces =>
    have hnone : x ∈ p.declarations st := hxp
    rw [h.no_declaration hp] at hnone
    cases hnone
  | descendant => exact hbelow (List.mem_cons_of_mem _ hxp) (List.mem_cons_of_mem _ hxq)
  | descendantOrSelf => exact hbelow hxp hxq
  | _ => cases ha

/-- No axis has a node twice. -/
theorem axis_nodup (h : Rooted st root height) (hr : Ranked st root) (hp : InTree st root p) (a : Axis) :
    (a.nodes p st).Nodup := by
  have hforward := (h.listing hr).nodup.sublist (h.axis_sublist hp a)
  unfold Axis.forward at hforward
  split at hforward
  · exact List.nodup_reverse.mp hforward
  · exact hforward

end Rooted

end

end NodePath
