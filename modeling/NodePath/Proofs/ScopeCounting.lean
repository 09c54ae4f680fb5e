/-
# NodePath.Proofs.ScopeCounting — how many hold a scope

The holders of a scope in memory are counted: handles hold it, and so does every scope inside of it that is held
itself. As long as that count is exact, a scope with one holder is on no way outward but its holder's, and it may be
changed where it lies.

* §A  References, and exact counts.
* §B  Releases.
* §C  What exact counts say, and how they are kept.
* §D  New scopes and copies.
-/
import Mathlib.Tactic.ByContra
import Mathlib.Tactic.SplitIfs
import NodePath.Proofs.ScopePath

namespace NodePath

namespace ScopeNode

variable {nodes older : List ScopeNode} {n : ScopeNode} {r k : Nat}

/-! ## §A  Counts -/

/-- One reference more to a scope. -/
def plus (refs : Nat → Nat) (r : Nat) : Nat → Nat := fun k => if k = r then refs k + 1 else refs k

/-- One reference less to a scope. -/
def minus (refs : Nat → Nat) (r : Nat) : Nat → Nat := fun k => if k = r then refs k - 1 else refs k

/-- The references to the scopes behind a scope: those from elsewhere, and that of the scope itself if it is
held. -/
def passed (n : ScopeNode) (number : Nat) (refs : Nat → Nat) : Nat → Nat :=
  let rest := fun k => if k = number then 0 else refs k
  match n.outer with
  | some outer => if 0 < refs number then plus rest outer else rest
  | none => rest

/-- **Counted** says that the holders of each scope are as many as the references to it: those in `refs`, and those
of scopes that are held themselves. Nothing refers to what is no scope. -/
def Counted (holders : Nat → Nat) : List ScopeNode → (Nat → Nat) → Prop
  | [], refs => ∀ r, refs r = 0
  | n :: older, refs =>
    holders older.length = refs older.length ∧ Counted holders older (passed n older.length refs)

/-- From elsewhere, a scope is referred to as before. -/
theorem le_passed {refs : Nat → Nat} {number : Nat} (h : k ≠ number) : refs k ≤ passed n number refs k := by
  unfold passed
  cases n.outer with
  | none => simp [h]
  | some outer =>
    by_cases hpos : 0 < refs number
    · simp only [hpos, if_true, plus, h, if_false]
      split <;> omega
    · simp [hpos, h]

/-- The scope around a scope that is held is referred to. -/
theorem passed_outer {refs : Nat → Nat} {number outer : Nat} (houter : n.outer = some outer)
    (hpos : 0 < refs number) : 0 < passed n number refs outer := by
  simp [passed, houter, hpos, plus]

theorem plus_comm (refs : Nat → Nat) (r k : Nat) : plus (plus refs r) k = plus (plus refs k) r := by
  funext j
  simp only [plus]
  split_ifs <;> rfl

/-- Another reference to a scope behind is one more there. -/
theorem passed_plus {refs : Nat → Nat} {number : Nat} (h : r ≠ number) :
    passed n number (plus refs r) = plus (passed n number refs) r := by
  have hnumber : plus refs r number = refs number := if_neg (Ne.symm h)
  have hrest : (fun k => if k = number then 0 else plus refs r k) =
      plus (fun k => if k = number then 0 else refs k) r := by
    funext k
    by_cases hk : k = number
    · subst hk
      simp [plus, Ne.symm h]
    · by_cases hkr : k = r <;> simp [plus, hk, hkr, h]
  unfold passed
  rw [hrest, hnumber]
  cases n.outer with
  | none => rfl
  | some outer =>
    by_cases hpos : 0 < refs number
    · simp only [hpos, if_true, plus_comm]
    · simp only [hpos, if_false]

theorem minus_plus (refs : Nat → Nat) (r : Nat) : minus (plus refs r) r = refs := by
  funext k
  by_cases hk : k = r <;> simp [minus, plus, hk]

theorem plus_minus {refs : Nat → Nat} (h : 0 < refs r) : plus (minus refs r) r = refs := by
  funext k
  by_cases hk : k = r
  · subst hk
    simp only [minus, plus, if_true]
    omega
  · simp [minus, plus, hk]

/-- What is behind a scope depends on the references from elsewhere, and on whether the scope refers to one around it. -/
theorem passed_congr {refs refs' : Nat → Nat} {number : Nat} (helsewhere : ∀ k, k ≠ number → refs' k = refs k)
    (hheld : n.outer ≠ none → (0 < refs' number ↔ 0 < refs number)) : passed n number refs' = passed n number refs := by
  have hrest : (fun k => if k = number then 0 else refs' k) = fun k => if k = number then 0 else refs k := by
    funext k
    by_cases hk : k = number
    · rw [if_pos hk, if_pos hk]
    · rw [if_neg hk, if_neg hk, helsewhere k hk]
  unfold passed
  rw [hrest]
  cases houter : n.outer with
  | none => rfl
  | some outer =>
    have hiff := hheld (by simp [houter])
    simp only [hiff]

/-- Another reference to a scope behind is one less there. -/
theorem passed_minus {refs : Nat → Nat} {number : Nat} (h : r ≠ number) (hr : 0 < refs r) :
    passed n number (minus refs r) = minus (passed n number refs) r := by
  -- Putting the reference back shows what is lost.
  have hback : passed n number (plus (minus refs r) r) = plus (passed n number (minus refs r)) r := passed_plus h
  rw [plus_minus hr] at hback
  rw [hback, minus_plus]

/-- The last reference to a scope takes that to the scope around it along. -/
theorem passed_minus_last {refs : Nat → Nat} {number outer : Nat} (houter : n.outer = some outer)
    (hone : refs number = 1) : passed n number (minus refs number) = minus (passed n number refs) outer := by
  have hrest : (fun k => if k = number then 0 else minus refs number k) = fun k => if k = number then 0 else refs k := by
    funext k
    by_cases hk : k = number <;> simp [minus, hk]
  have hnumber : minus refs number number = 0 := (if_pos rfl).trans (by rw [hone])
  unfold passed
  rw [hrest, hnumber]
  simp only [houter, hone, Nat.lt_irrefl, if_false, Nat.one_pos, if_true, minus_plus]

/-! ## §B  Releases -/

/-- What a release from the newest scope does: if that has no holder left, the scope around it is released. -/
theorem release_new (n : ScopeNode) (older : List ScopeNode) (holders : Nat → Nat) :
    (release (n :: older) holders older.length = minus holders older.length ∧
      (holders older.length = 1 → n.outer = none)) ∨
    (∃ outer, n.outer = some outer ∧ holders older.length = 1 ∧
      release (n :: older) holders older.length = release older (minus holders older.length) outer) := by
  simp only [release, if_true]
  cases n.outer with
  | none => exact .inl ⟨rfl, fun _ => rfl⟩
  | some outer =>
    by_cases hone : holders older.length = 1
    · exact .inr ⟨outer, rfl, hone, if_pos hone⟩
    · exact .inl ⟨if_neg hone, fun h => absurd h hone⟩

theorem release_old {holders : Nat → Nat} (h : r ≠ older.length) :
    release (n :: older) holders r = release older holders r := if_neg h

/-- A release concerns scopes in memory only. -/
theorem release_of_le (holders : Nat → Nat) (h : nodes.length ≤ k) : release nodes holders r k = holders k := by
  induction nodes generalizing holders r with
  | nil => rfl
  | cons n older ih =>
    have hk : older.length < k := Nat.lt_of_succ_le h
    by_cases hr : r = older.length
    · subst hr
      have hminus : minus holders older.length k = holders k := if_neg (Nat.ne_of_gt hk)
      rcases release_new n older holders with ⟨heq, -⟩ | ⟨outer, -, -, heq⟩
      · rw [heq, hminus]
      · rw [heq, ih _ (Nat.le_of_lt hk), hminus]
    · rw [release_old hr]
      exact ih holders (Nat.le_of_lt hk)

theorem minus_le (holders : Nat → Nat) (r k : Nat) : minus holders r k ≤ holders k := by
  unfold minus
  split
  · exact Nat.sub_le _ _
  · exact Nat.le_refl _

/-- No scope has more holders after a release. -/
theorem release_le (nodes : List ScopeNode) (holders : Nat → Nat) (r k : Nat) :
    release nodes holders r k ≤ holders k := by
  induction nodes generalizing holders r with
  | nil => exact Nat.le_refl _
  | cons n older ih =>
    by_cases hr : r = older.length
    · subst hr
      rcases release_new n older holders with ⟨heq, -⟩ | ⟨outer, -, -, heq⟩
      · rw [heq]
        exact minus_le holders _ k
      · rw [heq]
        exact Nat.le_trans (ih _ outer) (minus_le holders _ k)
    · rw [release_old hr]
      exact ih holders r

/-! ## §C  Exact counts -/

namespace Counted

variable {holders other refs : Nat → Nat}

/-- Only the holders of scopes are looked at. -/
theorem congr (h : Counted holders nodes refs) (heq : ∀ k < nodes.length, other k = holders k) :
    Counted other nodes refs := by
  induction nodes generalizing refs with
  | nil => exact h
  | cons n older ih =>
    refine ⟨(heq _ (Nat.lt_succ_self _)).trans h.1, ih h.2 fun k hk => heq k (Nat.lt_succ_of_lt hk)⟩

/-- What is referred to is a scope, and is held. -/
theorem held (h : Counted holders nodes refs) (hr : 0 < refs r) : r < nodes.length ∧ 0 < holders r := by
  induction nodes generalizing refs with
  | nil => exact absurd (h r) (Nat.ne_of_gt hr)
  | cons n older ih =>
    by_cases hn : r = older.length
    · subst hn
      exact ⟨Nat.lt_succ_self _, h.1 ▸ hr⟩
    · obtain ⟨hlt, hpos⟩ := ih h.2 (Nat.lt_of_lt_of_le hr (le_passed hn))
      exact ⟨Nat.lt_succ_of_lt hlt, hpos⟩

/-- Nothing refers to a scope that is still to be made. -/
theorem refs_length (h : Counted holders nodes refs) : refs nodes.length = 0 := by
  by_contra hne
  exact Nat.lt_irrefl _ (h.held (Nat.pos_of_ne_zero hne)).1

/-- **The way outward from a scope that is held** has scopes only that are held. -/
theorem held_path (h : Counted holders nodes refs) (hr : r < nodes.length) (hpos : 0 < holders r) :
    ∀ k ∈ path nodes r, 0 < holders k := by
  induction nodes generalizing refs r with
  | nil => exact absurd hr (Nat.not_lt_zero r)
  | cons n older ih =>
    intro k hk
    by_cases hn : r = older.length
    · subst hn
      rw [path_new] at hk
      rcases List.mem_cons.mp hk with rfl | hk
      · exact hpos
      · cases houter : n.outer with
        | none => simp [houter] at hk
        | some outer =>
          rw [houter] at hk
          obtain ⟨hlt, hheld⟩ := h.2.held (passed_outer houter (h.1 ▸ hpos))
          exact ih h.2 hlt hheld k hk
    · rw [path, if_neg hn] at hk
      exact ih h.2 (by simp only [List.length_cons] at hr; omega) hpos k hk

/-- **A scope with one holder** is on no way outward from anywhere else: who comes by it holds it, or holds a scope
that does. -/
theorem two_le_holders (h : Counted holders nodes (plus refs r)) (hk : 0 < refs k) (hmem : r ∈ path nodes k) :
    2 ≤ holders r := by
  induction nodes generalizing refs k with
  | nil => cases hmem
  | cons n older ih =>
    obtain ⟨hheld, hrest⟩ := h
    by_cases hr : r = older.length
    · -- only the scope itself is as new as that
      subst hr
      have hkr : k = older.length := by
        by_contra hne
        rw [path, if_neg hne] at hmem
        exact Nat.lt_irrefl _ (lt_of_mem_path hmem)
      subst hkr
      simp only [plus, if_true] at hheld
      omega
    · rw [passed_plus hr] at hrest
      by_cases hkn : k = older.length
      · subst hkn
        rw [path_new] at hmem
        rcases List.mem_cons.mp hmem with hmem | hmem
        · exact absurd hmem hr
        · cases houter : n.outer with
          | none => simp [houter] at hmem
          | some outer =>
            rw [houter] at hmem
            exact ih hrest (passed_outer houter hk) hmem
      · rw [path, if_neg hkn] at hmem
        exact ih hrest (Nat.lt_of_lt_of_le hk (le_passed hkn)) hmem

/-- One reference more to a scope that is held. -/
theorem retain (h : Counted holders nodes refs) (hr : r < nodes.length) (hpos : 0 < holders r) :
    Counted (plus holders r) nodes (plus refs r) := by
  induction nodes generalizing refs with
  | nil => exact absurd hr (Nat.not_lt_zero r)
  | cons n older ih =>
    obtain ⟨hheld, hrest⟩ := h
    by_cases hn : r = older.length
    · -- the scope stays held, so what it refers to stays as it was
      subst hn
      have hpassed : passed n older.length (plus refs older.length) = passed n older.length refs :=
        passed_congr (fun k hk => if_neg hk) fun _ => ⟨fun _ => hheld ▸ hpos, fun _ => by simp [plus]⟩
      refine ⟨by simp [plus, hheld], ?_⟩
      rw [hpassed]
      exact hrest.congr fun k hk => if_neg (Nat.ne_of_lt hk)
    · refine ⟨?_, ?_⟩
      · show plus holders r older.length = plus refs r older.length
        rw [plus, plus, if_neg (Ne.symm hn), if_neg (Ne.symm hn), hheld]
      · rw [passed_plus hn]
        exact ih hrest (by simp only [List.length_cons] at hr; omega)

/-- **One reference less** to a scope that is referred to. -/
theorem release (h : Counted holders nodes refs) (hr : 0 < refs r) :
    Counted (ScopeNode.release nodes holders r) nodes (minus refs r) := by
  induction nodes generalizing holders refs r with
  | nil => exact absurd (h r) (Nat.ne_of_gt hr)
  | cons n older ih =>
    obtain ⟨hheld, hrest⟩ := h
    by_cases hn : r = older.length
    · subst hn
      -- the older scopes are referred to as before, but for the one around it if nothing holds it any more
      have hnumber : minus refs older.length older.length = refs older.length - 1 := if_pos rfl
      have hminus : Counted (minus holders older.length) older (passed n older.length refs) :=
        hrest.congr fun k hk => if_neg (Nat.ne_of_lt hk)
      rcases release_new n older holders with ⟨heq, hnone⟩ | ⟨outer, houter, hone, heq⟩
      · have hpassed : passed n older.length (minus refs older.length) = passed n older.length refs := by
          refine passed_congr (fun k hk => if_neg hk) fun houter => ?_
          have hmore : holders older.length ≠ 1 := fun hone => houter (hnone hone)
          omega
        rw [heq]
        refine ⟨by simp [minus, hheld], ?_⟩
        rw [hpassed]
        exact hminus
      · rw [heq]
        refine ⟨?_, ?_⟩
        · rw [release_of_le _ (Nat.le_refl _)]
          simp [minus, hheld]
        · rw [passed_minus_last houter (hheld ▸ hone)]
          exact ih hminus (passed_outer houter hr)
    · rw [release_old hn]
      refine ⟨?_, ?_⟩
      · rw [release_of_le _ (Nat.le_refl _), hheld]
        exact (if_neg (Ne.symm hn)).symm
      · rw [passed_minus hn hr]
        exact ih hrest (Nat.lt_of_lt_of_le hr (le_passed hn))

/-- **A scope that is held** lies inside an older one that is held, or inside none. -/
theorem outward (h : Counted holders nodes refs) (hpos : 0 < holders r) (hn : at? nodes r = some n) :
    (∀ outer ∈ n.outer, outer < r ∧ 0 < holders outer) ∧
      chain nodes r = n.scope :: n.outer.elim [] (chain nodes) ∧
      path nodes r = r :: n.outer.elim [] (path nodes) := by
  -- By the age of scopes: what the newest one refers to is older, and the chains of older ones are as they were.
  induction nodes generalizing refs with
  | nil => cases hn
  | cons newest older ih =>
    by_cases hr : r = older.length
    · subst hr
      obtain rfl : newest = n := by simpa [at?] using hn
      have hrefs : 0 < refs older.length := h.1 ▸ hpos
      rw [chain_new, path_new]
      cases houter : newest.outer with
      | none => exact ⟨fun k hk => absurd hk (Option.not_mem_none k), rfl, rfl⟩
      | some outer =>
        obtain ⟨hlt, hheld⟩ := h.2.held (passed_outer houter hrefs)
        refine ⟨?_, ?_, ?_⟩
        · rintro _ ⟨⟩
          exact ⟨hlt, hheld⟩
        · simp only [Option.elim, chain_old hlt]
        · simp only [Option.elim, path_old hlt]
    · rw [at?_of_ne hr] at hn
      have hlt := lt_of_at? hn
      obtain ⟨houter, hchain, hpath⟩ := ih h.2 hn
      rw [chain_old hlt, path_old hlt, hchain, hpath]
      refine ⟨houter, ?_, ?_⟩
      · cases hn : n.outer with
        | none => rfl
        | some outer => exact congrArg _ (chain_old (Nat.lt_trans (houter outer hn).1 hlt)).symm
      · cases hn : n.outer with
        | none => rfl
        | some outer => exact congrArg _ (path_old (Nat.lt_trans (houter outer hn).1 hlt)).symm

/-- Registrations and seals are not counted. -/
theorem of_outer {nodes' : List ScopeNode} (h : Counted holders nodes refs)
    (heq : nodes'.map (·.outer) = nodes.map (·.outer)) : Counted holders nodes' refs := by
  induction nodes generalizing nodes' refs with
  | nil =>
    obtain rfl := List.map_eq_nil_iff.mp heq
    exact h
  | cons n older ih =>
    cases nodes' with
    | nil => cases heq
    | cons n' older' =>
      obtain ⟨hn, holder⟩ := List.cons.inj heq
      replace hn : n'.outer = n.outer := hn
      have hlength : older'.length = older.length := by simpa using congrArg List.length holder
      have hpassed : passed n' older.length refs = passed n older.length refs := by
        unfold passed
        rw [hn]
      refine ⟨?_, ?_⟩
      · rw [hlength]
        exact h.1
      · rw [hlength, hpassed]
        exact ih h.2 holder

end Counted

end ScopeNode

/-! ## §D  New scopes and copies -/

namespace ScopeMemory

open ScopeNode

variable {m m' : ScopeMemory} {r k : Nat} {refs : Nat → Nat}

/-- **Live** scopes are those that something holds. -/
def Live (m : ScopeMemory) (r : Nat) : Prop := r < m.nodes.length ∧ 0 < m.holders r

/-- **Counts** says that the holders of all scopes are counted, when some are referred to from outside. -/
def Counts (m : ScopeMemory) (refs : Nat → Nat) : Prop := Counted m.holders m.nodes refs

/-! What a new scope changes: it is unsealed, and the one around it has a holder more. -/

section

variable (m) (scope : NamespaceScope) (outer : Option Nat)

theorem allocate_snd : (m.allocate scope outer).2 = m.nodes.length := by cases outer <;> rfl

theorem allocate_nodes : (m.allocate scope outer).1.nodes = ⟨scope, outer, false⟩ :: m.nodes := by cases outer <;> rfl

theorem allocate_holders :
    (m.allocate scope outer).1.holders =
      fun k => if k = m.nodes.length then 1 else (outer.elim m.holders (plus m.holders)) k := by
  cases outer <;> rfl

end

variable {scope : NamespaceScope} {outer : Option Nat}

theorem live_of_allocate (houter : ∀ o ∈ outer, m.Live o) (h : (m.allocate scope outer).1.Live k)
    (hk : k ≠ m.nodes.length) : m.Live k := by
  obtain ⟨hlt, hpos⟩ := h
  rw [allocate_nodes, List.length_cons] at hlt
  simp only [allocate_holders, hk, if_false] at hpos
  refine ⟨by omega, ?_⟩
  cases outer with
  | none => exact hpos
  | some o =>
    by_cases hko : k = o
    · exact hko ▸ (houter o rfl).2
    · simpa [plus, hko] using hpos

theorem Counts.allocate (h : m.Counts refs) (houter : ∀ o ∈ outer, m.Live o) :
    (m.allocate scope outer).1.Counts (plus refs m.nodes.length) := by
  have hlength := Counted.refs_length h
  have hrest : (fun k => if k = m.nodes.length then 0 else plus refs m.nodes.length k) = refs := by
    funext k
    by_cases hk : k = m.nodes.length
    · simp [hk, hlength]
    · simp [plus, hk]
  rw [Counts, allocate_nodes, allocate_holders]
  refine ⟨by simp [plus, hlength], ?_⟩
  have hnumber : 0 < plus refs m.nodes.length m.nodes.length := by simp [plus]
  unfold passed
  rw [hrest]
  cases outer with
  | none => exact Counted.congr h fun k hk => if_neg (Nat.ne_of_lt hk)
  | some o =>
    obtain ⟨hlt, hpos⟩ := houter o rfl
    simp only [hnumber, if_true]
    exact (Counted.retain h hlt hpos).congr fun k hk => if_neg (Nat.ne_of_lt hk)

/-- The scope around a live one is live. -/
theorem Counts.live_path (h : m.Counts refs) (hr : m.Live r) (hk : k ∈ path m.nodes r) : m.Live k :=
  ⟨lt_of_mem_path hk, Counted.held_path h hr.1 hr.2 k hk⟩

theorem Live.of_release (h : (m.release r).Live k) : m.Live k :=
  ⟨h.1, Nat.lt_of_lt_of_le h.2 (release_le m.nodes m.holders r k)⟩

/-- **A copy** is a new scope, and one holder less of the old one. -/
theorem copy_eq {n : ScopeNode} (h : at? m.nodes r = some n) :
    m.copy r = ((m.allocate n.scope n.outer).1.release r, m.nodes.length) := by
  rw [copy, h]
  dsimp only
  rw [allocate_snd]

/-- What a holder may change is the scope itself, if it is not sealed and has no other holder, or else a copy. -/
theorem writable_cases (h : r < m.nodes.length) :
    (m.writable r = (m, r) ∧ m.isSealed r = false ∧ m.holders r = 1) ∨ m.writable r = m.copy r := by
  obtain ⟨n, hn⟩ := at?_isSome h
  cases hsealed : m.isSealed r with
  | false =>
    by_cases hone : m.holders r = 1
    · exact .inl ⟨by simp [writable, hsealed, hone], rfl, hone⟩
    · exact .inr (by simp [writable, hsealed, hone])
  | true =>
    -- the copy has one holder, so it is not copied again
    have hone : (m.copy r).1.holders (m.copy r).2 = 1 := by
      rw [copy_eq hn]
      show ScopeNode.release _ _ r m.nodes.length = 1
      rw [allocate_nodes, release_old (Nat.ne_of_lt h), release_of_le _ (Nat.le_refl _), allocate_holders]
      exact if_pos rfl
    exact .inr (by simp [writable, hsealed, hone])

end ScopeMemory

end NodePath
