/-
# NodePath.Proofs.ScopePath — the way outward from a scope in memory

Each scope in memory lies inside an older one, or inside none. So from each of them a way leads outward, and looking
something up goes along it. A change concerns those only who come by the scope that is changed.

* §A  The scopes on the way outward, and their registrations.
* §B  Scopes and their numbers.
* §C  Changing and sealing scopes.
-/
import NodePath.Namespace.Sharing

namespace NodePath

/-! ## §A  The way outward -/

namespace ScopeNode

/-- The numbers of a scope and of the scopes around it, from the inside. -/
def path : List ScopeNode → Nat → List Nat
  | [], _ => []
  | n :: older, r => if r = older.length then r :: n.outer.elim [] (path older) else path older r

/-- The registrations of a scope and of the scopes around it. -/
def chain : List ScopeNode → Nat → NamespaceChain
  | [], _ => []
  | n :: older, r => if r = older.length then n.scope :: n.outer.elim [] (chain older) else chain older r

variable {nodes older : List ScopeNode} {n : ScopeNode} {r k : Nat} {f : NamespaceScope → NamespaceScope}

theorem at?_new : at? (n :: older) older.length = some n := if_pos rfl

theorem at?_of_ne (h : r ≠ older.length) : at? (n :: older) r = at? older r := if_neg h

theorem path_new : path (n :: older) older.length = older.length :: n.outer.elim [] (path older) := if_pos rfl

theorem path_old (h : r < older.length) : path (n :: older) r = path older r := if_neg (Nat.ne_of_lt h)

theorem chain_new : chain (n :: older) older.length = n.scope :: n.outer.elim [] (chain older) := if_pos rfl

theorem chain_old (h : r < older.length) : chain (n :: older) r = chain older r := if_neg (Nat.ne_of_lt h)

/-- Looking up goes through the chain. -/
theorem lookUp_eq (ask : NamespaceScope → Option String) (nodes : List ScopeNode) (r : Nat) :
    lookUp ask nodes r = (chain nodes r).findSome? ask := by
  induction nodes generalizing r with
  | nil => rfl
  | cons n older ih =>
    simp only [lookUp, chain]
    split
    · rw [List.findSome?_cons]
      cases ask n.scope with
      | some answer => rfl
      | none =>
        cases n.outer with
        | none => rfl
        | some outer => exact ih outer
    · exact ih r

/-- The innermost scope of a chain. -/
theorem head?_chain (nodes : List ScopeNode) (r : Nat) : (chain nodes r).head? = (at? nodes r).map (·.scope) := by
  induction nodes generalizing r with
  | nil => rfl
  | cons n older ih =>
    simp only [chain, at?]
    split
    · rfl
    · exact ih r

/-! ## §B  Numbers -/

theorem at?_isSome (h : r < nodes.length) : ∃ n, at? nodes r = some n := by
  induction nodes with
  | nil => exact absurd h (Nat.not_lt_zero r)
  | cons n older ih =>
    by_cases hr : r = older.length
    · exact ⟨n, if_pos hr⟩
    · rw [at?_of_ne hr]
      exact ih (by simp only [List.length_cons] at h; omega)

theorem lt_of_at? (h : at? nodes r = some n) : r < nodes.length := by
  induction nodes with
  | nil => cases h
  | cons newest older ih =>
    by_cases hr : r = older.length
    · rw [hr]
      exact Nat.lt_succ_self _
    · rw [at?_of_ne hr] at h
      exact Nat.lt_succ_of_lt (ih h)

/-- All numbers on the way outward are numbers of scopes. -/
theorem lt_of_mem_path (h : k ∈ path nodes r) : k < nodes.length := by
  induction nodes generalizing r with
  | nil => cases h
  | cons n older ih =>
    simp only [path] at h
    split at h
    · rename_i hr
      rcases List.mem_cons.mp h with rfl | h
      · simp [hr]
      · cases houter : n.outer with
        | none => simp [houter] at h
        | some outer =>
          rw [houter] at h
          exact Nat.lt_succ_of_lt (ih h)
    · exact Nat.lt_succ_of_lt (ih h)

/-- A scope is the first one on its way outward, and does not come again. -/
theorem path_eq (h : r < nodes.length) : ∃ rest, path nodes r = r :: rest ∧ ∀ k ∈ rest, k < r := by
  induction nodes with
  | nil => exact absurd h (Nat.not_lt_zero r)
  | cons n older ih =>
    by_cases hr : r = older.length
    · subst hr
      refine ⟨_, path_new, fun k hk => ?_⟩
      cases houter : n.outer with
      | none => simp [houter] at hk
      | some outer =>
        rw [houter] at hk
        exact lt_of_mem_path hk
    · rw [path, if_neg hr]
      exact ih (by simp only [List.length_cons] at h; omega)

/-! ## §C  Changes -/

@[simp] theorem length_modifyAt (nodes : List ScopeNode) (r : Nat) : (modifyAt f nodes r).length = nodes.length := by
  induction nodes with
  | nil => rfl
  | cons n older ih =>
    simp only [modifyAt]
    split
    · rfl
    · simp [ih]

@[simp] theorem length_sealFrom (nodes : List ScopeNode) (r : Nat) : (sealFrom nodes r).length = nodes.length := by
  induction nodes generalizing r with
  | nil => rfl
  | cons n older ih =>
    simp only [sealFrom]
    split
    · cases n.outer with
      | none => rfl
      | some outer => simp [ih]
    · simp [ih]

/-- Changing registrations moves no scope. -/
theorem path_modifyAt (nodes : List ScopeNode) (r k : Nat) : path (modifyAt f nodes r) k = path nodes k := by
  induction nodes generalizing k with
  | nil => rfl
  | cons n older ih =>
    simp only [modifyAt]
    split
    · rfl
    · simp only [path, length_modifyAt]
      split
      · cases n.outer with
        | none => rfl
        | some outer => exact congrArg _ (ih outer)
      · exact ih k

theorem isSealed_modifyAt (nodes : List ScopeNode) (r k : Nat) :
    (at? (modifyAt f nodes r) k).any (·.isSealed) = (at? nodes k).any (·.isSealed) := by
  induction nodes with
  | nil => rfl
  | cons n older ih =>
    simp only [modifyAt]
    split
    · simp only [at?]
      split <;> rfl
    · simp only [at?, length_modifyAt]
      split
      · rfl
      · exact ih

/-- Whoever does not come by a scope sees nothing of its change. -/
theorem chain_modifyAt_of_notMem (h : r ∉ path nodes k) : chain (modifyAt f nodes r) k = chain nodes k := by
  induction nodes generalizing k with
  | nil => rfl
  | cons n older ih =>
    by_cases hk : k = older.length
    · subst hk
      rw [path_new] at h
      obtain ⟨hne, hrest⟩ := List.ne_and_not_mem_of_not_mem_cons h
      rw [modifyAt, if_neg hne, chain_new]
      have hnew : chain (n :: modifyAt f older r) (modifyAt f older r).length =
          n.scope :: n.outer.elim [] (chain (modifyAt f older r)) := chain_new
      rw [length_modifyAt] at hnew
      rw [hnew]
      cases houter : n.outer with
      | none => rfl
      | some outer =>
        rw [houter] at hrest
        exact congrArg _ (ih hrest)
    · rw [path, if_neg hk] at h
      simp only [modifyAt]
      split
      · rw [chain, chain, if_neg hk, if_neg hk]
      · rw [chain, chain, length_modifyAt, if_neg hk, if_neg hk, ih h]

/-- The chain of the scope that is changed. -/
theorem chain_modifyAt (h : r < nodes.length) :
    chain (modifyAt f nodes r) r = (chain nodes r).modifyOwn f := by
  induction nodes with
  | nil => exact absurd h (Nat.not_lt_zero r)
  | cons n older ih =>
    by_cases hr : r = older.length
    · subst hr
      rw [modifyAt, if_pos rfl, chain_new, chain_new]
      rfl
    · rw [modifyAt, if_neg hr, chain, chain, length_modifyAt, if_neg hr, if_neg hr]
      exact ih (by simp only [List.length_cons] at h; omega)

theorem outer_modifyAt (nodes : List ScopeNode) (r : Nat) :
    (modifyAt f nodes r).map (·.outer) = nodes.map (·.outer) := by
  induction nodes with
  | nil => rfl
  | cons n older ih =>
    simp only [modifyAt]
    split
    · rfl
    · simp [ih]

theorem outer_sealFrom (nodes : List ScopeNode) (r : Nat) :
    (sealFrom nodes r).map (·.outer) = nodes.map (·.outer) := by
  induction nodes generalizing r with
  | nil => rfl
  | cons n older ih =>
    obtain ⟨scope, outer?, isSealed⟩ := n
    simp only [sealFrom]
    split
    · cases outer? with
      | none => rfl
      | some outer => simp [ih]
    · simp [ih]

/-- Sealing moves no scope and changes no registration. -/
theorem path_sealFrom (nodes : List ScopeNode) (r k : Nat) : path (sealFrom nodes r) k = path nodes k := by
  induction nodes generalizing r k with
  | nil => rfl
  | cons n older ih =>
    obtain ⟨scope, outer?, isSealed⟩ := n
    simp only [sealFrom]
    split
    · cases outer? with
      | none => rfl
      | some outer => simp only [path, length_sealFrom, Option.elim, ih]
    · cases outer? with
      | none => simp only [path, length_sealFrom, Option.elim, ih]
      | some outer => simp only [path, length_sealFrom, Option.elim, ih]

theorem chain_sealFrom (nodes : List ScopeNode) (r k : Nat) : chain (sealFrom nodes r) k = chain nodes k := by
  induction nodes generalizing r k with
  | nil => rfl
  | cons n older ih =>
    obtain ⟨scope, outer?, isSealed⟩ := n
    simp only [sealFrom]
    split
    · cases outer? with
      | none => rfl
      | some outer => simp only [chain, length_sealFrom, Option.elim, ih]
    · cases outer? with
      | none => simp only [chain, length_sealFrom, Option.elim, ih]
      | some outer => simp only [chain, length_sealFrom, Option.elim, ih]

/-- Sealed are the scopes that were so before, and those on the way outward. -/
theorem isSealed_sealFrom (nodes : List ScopeNode) (r k : Nat) :
    (at? (sealFrom nodes r) k).any (·.isSealed) =
      ((path nodes r).contains k || (at? nodes k).any (·.isSealed)) := by
  induction nodes generalizing r with
  | nil => rfl
  | cons n older ih =>
    obtain ⟨scope, outer?, isSealed⟩ := n
    by_cases hr : r = older.length
    · subst hr
      rw [path_new, sealFrom, if_pos rfl]
      by_cases hk : k = older.length
      · -- the scope itself
        subst hk
        cases outer? with
        | none => simp [at?]
        | some outer => simp [at?]
      · cases outer? with
        | none => simp [at?, hk]
        | some outer => simp [at?, hk, ih]
    · rw [sealFrom, if_neg hr, path, if_neg hr]
      by_cases hk : k = older.length
      · -- a newer scope is not on the way outward
        have hnot : older.length ∉ path older r := fun hmem => Nat.lt_irrefl _ (lt_of_mem_path hmem)
        subst hk
        simp [at?, hnot]
      · simp [at?, hk, ih]

end ScopeNode

end NodePath
