/-
# NodePath.Proofs.ScopeSharing — shared scopes behave as copied ones

Handles share scopes in memory, but no one can tell: each handle answers as if it had a chain of scopes of its own,
copied when the handle was made. What carries this is that the holders of every scope are counted exactly: a scope
that is changed where it lies is on no other handle's way outward. Sealing is the one thing that handles share, and it
is told apart by numbers: the handle that changes its scope gets a scope with a number of its own.

* §A  Handles with chains of their own.
* §B  The numbers of scopes.
* §C  Handles that stand for each other.
* §D  Every request keeps both kinds of handles in step.
* §E  What handles answer.
-/
import Mathlib.Data.Option.Basic
import Mathlib.Logic.Function.Basic
import NodePath.Namespace.Handle
import NodePath.Proofs.ScopeCounting

namespace NodePath

/-! ## §A  Copied chains -/

/-- **Copies** are handles with chains of their own, as far as they are in use. -/
structure Copies where
  seals : Seals
  handles : List (Option Handle)

namespace Copies

/-- No handles. -/
def empty : Copies := ⟨⟨0, []⟩, []⟩

/-- A handle that is in use. -/
def handle? (t : Copies) (i : Nat) : Option Handle := t.handles[i]?.join

/-- One handle more. -/
def add (t : Copies) (make : Handle.Sealing Handle) : Copies :=
  let (h, seals) := make.run t.seals
  ⟨seals, t.handles ++ [some h]⟩

/-- Another handle in the stead of one. -/
def put (t : Copies) (i : Nat) (make : Handle.Sealing Handle) : Copies :=
  let (h, seals) := make.run t.seals
  ⟨seals, t.handles.set i (some h)⟩

/-- **serve** does what is asked. A copy of a handle has the whole chain, and a change concerns its own handle. -/
def serve (t : Copies) : ResolverRequest → Copies
  | .new => t.add Handle.new
  | .inside i => (t.handle? i).elim t fun h => t.add h.inside
  | .clone i => (t.handle? i).elim t fun h => t.add (pure h)
  | .register i label address => (t.handle? i).elim t fun h => t.put i (h.register label address)
  | .setNode i node => (t.handle? i).elim t fun h => t.put i (h.setNode node)
  | .sealScopes i => (t.handle? i).elim t fun h => { t with seals := (h.sealScopes.run t.seals).2 }
  | .discard i => (t.handle? i).elim t fun _ => { t with handles := t.handles.set i none }

/-- The handles after some requests. -/
def after (requests : List ResolverRequest) : Copies := requests.foldl serve empty

end Copies

/-! ## §B  Numbers -/

open ScopeNode

/-- **Numbered** says that live scopes have numbers of their own, by which they are known to be sealed. -/
structure Numbered (ν : Nat → Nat) (m : ScopeMemory) (s : Seals) : Prop where
  isSealed : ∀ r, m.Live r → m.isSealed r = s.sealedScopes.contains (ν r)
  distinct : ∀ r k, m.Live r → m.Live k → ν r = ν k → r = k
  below : ∀ r, m.Live r → ν r < s.next
  sealedBelow : ∀ k ∈ s.sealedScopes, k < s.next

namespace Numbered

variable {ν : Nat → Nat} {m m' : ScopeMemory} {s : Seals} {r : Nat}

/-- Other memory in which fewer scopes are live, but none is sealed or unsealed. -/
theorem mono (h : Numbered ν m s) (hlive : ∀ k, m'.Live k → m.Live k)
    (hsealed : ∀ k, m'.isSealed k = m.isSealed k) : Numbered ν m' s where
  isSealed k hk := (hsealed k).trans (h.isSealed k (hlive k hk))
  distinct k j hk hj := h.distinct k j (hlive k hk) (hlive j hj)
  below k hk := h.below k (hlive k hk)
  sealedBelow := h.sealedBelow

/-- A fresh number for one unsealed scope. -/
theorem fresh (h : Numbered ν m s) (hr : m'.isSealed r = false) (hlive : ∀ k, k ≠ r → m'.Live k → m.Live k)
    (hsealed : ∀ k, k ≠ r → m'.isSealed k = m.isSealed k) :
    Numbered (Function.update ν r s.next) m' { s with next := s.next + 1 } where
  isSealed k hk := by
    by_cases hkr : k = r
    · subst hkr
      have hnot : s.next ∉ s.sealedScopes := fun hmem => Nat.lt_irrefl _ (h.sealedBelow _ hmem)
      simp [hr, hnot]
    · rw [hsealed k hkr, Function.update_of_ne hkr]
      exact h.isSealed k (hlive k hkr hk)
  distinct k j hk hj heq := by
    by_cases hkr : k = r <;> by_cases hjr : j = r
    · rw [hkr, hjr]
    · rw [hkr, Function.update_self, Function.update_of_ne hjr] at heq
      exact absurd (h.below j (hlive j hjr hj)) (by omega)
    · rw [hjr, Function.update_self, Function.update_of_ne hkr] at heq
      exact absurd (h.below k (hlive k hkr hk)) (by omega)
    · rw [Function.update_of_ne hkr, Function.update_of_ne hjr] at heq
      exact h.distinct k j (hlive k hkr hk) (hlive j hjr hj) heq
  below k hk := by
    by_cases hkr : k = r
    · rw [hkr, Function.update_self]
      exact Nat.lt_succ_self _
    · rw [Function.update_of_ne hkr]
      exact Nat.lt_succ_of_lt (h.below k (hlive k hkr hk))
  sealedBelow k hk := Nat.lt_succ_of_lt (h.sealedBelow k hk)

/-- A fresh number for a new scope. -/
theorem allocate (h : Numbered ν m s) {scope : NamespaceScope} {outer : Option Nat} (houter : ∀ o ∈ outer, m.Live o) :
    Numbered (Function.update ν m.nodes.length s.next) (m.allocate scope outer).1 { s with next := s.next + 1 } := by
  apply h.fresh
  · show (at? (m.allocate scope outer).1.nodes m.nodes.length).any _ = false
    rw [ScopeMemory.allocate_nodes, at?_new]
    rfl
  · exact fun k hk hlive => ScopeMemory.live_of_allocate houter hlive hk
  · intro k hk
    show (at? (m.allocate scope outer).1.nodes k).any _ = _
    rw [ScopeMemory.allocate_nodes, at?_of_ne hk]
    rfl

/-- Sealing scopes is sealing their numbers. -/
theorem sealFrom (h : Numbered ν m s) {refs : Nat → Nat} (hcounts : m.Counts refs) (hr : m.Live r) :
    Numbered ν { m with nodes := ScopeNode.sealFrom m.nodes r }
      { s with sealedScopes := (path m.nodes r).map ν ++ s.sealedScopes } := by
  have hlive : ∀ k, ScopeMemory.Live { m with nodes := ScopeNode.sealFrom m.nodes r } k → m.Live k := fun k hk =>
    ⟨by simpa using hk.1, hk.2⟩
  refine ⟨fun k hk => ?_, fun k j hk hj => h.distinct k j (hlive k hk) (hlive j hj),
    fun k hk => h.below k (hlive k hk), fun k hk => ?_⟩
  · have hmem : (path m.nodes r).contains k = ((path m.nodes r).map ν).contains (ν k) := by
      rw [Bool.eq_iff_iff, List.contains_iff_mem, List.contains_iff_mem]
      refine ⟨fun hk => List.mem_map_of_mem hk, fun hνk => ?_⟩
      obtain ⟨j, hj, heq⟩ := List.mem_map.mp hνk
      exact h.distinct j k (hcounts.live_path hr hj) (hlive k hk) heq ▸ hj
    show (at? (ScopeNode.sealFrom m.nodes r) k).any (·.isSealed) = _
    rw [isSealed_sealFrom, hmem, List.contains_append]
    exact congrArg _ (h.isSealed k (hlive k hk))
  · rcases List.mem_append.mp hk with hk | hk
    · obtain ⟨j, hj, rfl⟩ := List.mem_map.mp hk
      exact h.below j (hcounts.live_path hr hj)
    · exact h.sealedBelow k hk

end Numbered

/-! ## §C  Counterparts -/

/-- **Stands** says that a handle with a chain of its own is what a handle to a scope shows. -/
structure Stands (ν : Nat → Nat) (m : ScopeMemory) (r : Nat) (h : Handle) : Prop where
  chain : h.chain = ScopeNode.chain m.nodes r
  numbers : h.numbers = (path m.nodes r).map ν

/-- Fresh numbers do not matter where they are not used. -/
theorem map_update_of_notMem {ν : Nat → Nat} {r x : Nat} {ks : List Nat} (h : r ∉ ks) :
    ks.map (Function.update ν r x) = ks.map ν :=
  List.map_congr_left fun k hk => Function.update_of_ne (fun heq : k = r => h (heq ▸ hk)) x ν

namespace Stands

variable {ν : Nat → Nat} {m : ScopeMemory} {r x : Nat} {h : Handle} {scope : NamespaceScope} {outer : Option Nat}

/-- A new scope is not on the way outward from an old one. -/
theorem allocate (hr : r < m.nodes.length) (hs : Stands ν m r h) :
    Stands (Function.update ν m.nodes.length x) (m.allocate scope outer).1 r h where
  chain := by rw [ScopeMemory.allocate_nodes, chain_old hr, hs.chain]
  numbers := by
    have hnot : m.nodes.length ∉ path m.nodes r := fun hmem => Nat.lt_irrefl _ (lt_of_mem_path hmem)
    rw [ScopeMemory.allocate_nodes, path_old hr, map_update_of_notMem hnot, hs.numbers]

/-- The handle to a new scope. -/
theorem new (hchain : h.chain = scope :: outer.elim [] (ScopeNode.chain m.nodes))
    (hnumbers : h.numbers = x :: (outer.elim [] (path m.nodes)).map ν) :
    Stands (Function.update ν m.nodes.length x) (m.allocate scope outer).1 m.nodes.length h where
  chain := by rw [ScopeMemory.allocate_nodes, chain_new, hchain]
  numbers := by
    have hnot : m.nodes.length ∉ outer.elim [] (path m.nodes) := by
      cases outer with
      | none => exact List.not_mem_nil
      | some outer => exact fun hmem => Nat.lt_irrefl _ (lt_of_mem_path hmem)
    rw [ScopeMemory.allocate_nodes, path_new, List.map_cons, Function.update_self, map_update_of_notMem hnot,
      hnumbers]

end Stands

/-- How many handles hold a scope. -/
def references (handles : List (Option Nat)) : Nat → Nat := fun r => handles.count (some r)

section

variable {α : Type} {hs : List (Option α)} {handles : List (Option Nat)} {i r : Nat}

theorem lt_of_join {a : α} (h : hs[i]?.join = some a) : i < hs.length := by
  by_contra hi
  simp [List.getElem?_eq_none (Nat.le_of_not_lt hi)] at h

theorem join_append (hs : List (Option α)) (a : α) (i : Nat) :
    (hs ++ [some a])[i]?.join = if i = hs.length then some a else hs[i]?.join := by
  rcases Nat.lt_trichotomy i hs.length with hi | hi | hi
  · rw [List.getElem?_append_left hi, if_neg (Nat.ne_of_lt hi)]
  · simp [hi]
  · rw [List.getElem?_eq_none (by simp; omega), List.getElem?_eq_none (Nat.le_of_lt hi),
      if_neg (Nat.ne_of_gt hi)]

theorem join_set (hi : i < hs.length) (a : Option α) (j : Nat) :
    (hs.set i a)[j]?.join = if j = i then a else hs[j]?.join := by
  by_cases hj : j = i
  · simp [hj, hi]
  · rw [List.getElem?_set_ne (Ne.symm hj), if_neg hj]

/-- Lists that are related entry by entry are related with one entry more. -/
theorem rel_append {β : Type} {R : α → β → Prop} {gs : List (Option β)} (hlength : hs.length = gs.length)
    (hold : ∀ i : Nat, Option.Rel R (hs[i]?.join) (gs[i]?.join)) {a : α} {b : β} (hnew : R a b) (i : Nat) :
    Option.Rel R ((hs ++ [some a])[i]?.join) ((gs ++ [some b])[i]?.join) := by
  rw [join_append, join_append, hlength]
  by_cases hi : i = gs.length
  · rw [if_pos hi, if_pos hi]
    exact .some hnew
  · rw [if_neg hi, if_neg hi]
    exact hold i

/-- Lists that are related entry by entry are related with another entry in the stead of one. -/
theorem rel_set {β : Type} {R : α → β → Prop} {gs : List (Option β)} (hlength : hs.length = gs.length)
    (hi : i < hs.length) (hold : ∀ j : Nat, j ≠ i → Option.Rel R (hs[j]?.join) (gs[j]?.join)) {a : Option α}
    {b : Option β} (hnew : Option.Rel R a b) (j : Nat) :
    Option.Rel R ((hs.set i a)[j]?.join) ((gs.set i b)[j]?.join) := by
  rw [join_set hi, join_set (hlength ▸ hi)]
  by_cases hj : j = i
  · rw [if_pos hj, if_pos hj]
    exact hnew
  · rw [if_neg hj, if_neg hj]
    exact hold j hj

theorem references_append (handles : List (Option Nat)) (r : Nat) :
    references (handles ++ [some r]) = plus (references handles) r := by
  funext k
  by_cases hk : k = r
  · simp [references, plus, hk]
  · simp [references, plus, hk, Ne.symm hk]

/-- The handle that changes its scope refers to another one, or to none. -/
theorem references_set (h : handles[i]?.join = some r) (new : Option Nat) :
    references (handles.set i new) = new.elim (minus (references handles) r) (plus (minus (references handles) r)) := by
  have hi := lt_of_join h
  have hget : handles[i] = some r := by simpa [List.getElem?_eq_getElem hi] using h
  funext k
  rw [references, List.count_set hi, hget]
  cases new with
  | none =>
    simp only [Option.elim, minus, references, beq_iff_eq, Option.some.injEq, reduceCtorEq, if_false]
    split_ifs <;> omega
  | some r' =>
    simp only [Option.elim, plus, minus, references, beq_iff_eq, Option.some.injEq]
    split_ifs <;> omega

end

/-- What is referred to by a handle is counted. -/
theorem references_pos {handles : List (Option Nat)} {i r : Nat} (h : handles[i]?.join = some r) :
    0 < references handles r := by
  have hi := lt_of_join h
  have hget : handles[i] = some r := by simpa [List.getElem?_eq_getElem hi] using h
  exact List.count_pos_iff.mpr (hget ▸ List.getElem_mem hi)

/-! ## §D  Requests -/

/-- **Mirrors** says that handles to scopes in memory and handles with chains of their own are in step: the holders
of all scopes are counted, their numbers tell which of them are sealed, and each handle stands for its
counterpart. -/
structure Mirrors (ν : Nat → Nat) (s : Resolvers) (t : Copies) : Prop where
  counts : s.memory.Counts (references s.handles)
  numbered : Numbered ν s.memory t.seals
  length : s.handles.length = t.handles.length
  handles : ∀ i, Option.Rel (Stands ν s.memory) (s.scope? i) (t.handle? i)

namespace Mirrors

variable {ν : Nat → Nat} {s : Resolvers} {t : Copies} {i r : Nat} {f : NamespaceScope → NamespaceScope}

theorem live (h : Mirrors ν s t) (hr : s.scope? i = some r) : s.memory.Live r :=
  Counted.held h.counts (references_pos hr)

/-- A handle is in use on both sides, or on neither. -/
theorem cases (h : Mirrors ν s t) (i : Nat) :
    (s.scope? i = none ∧ t.handle? i = none) ∨
      ∃ r g, s.scope? i = some r ∧ t.handle? i = some g ∧ Stands ν s.memory r g := by
  have hrel := h.handles i
  generalize s.scope? i = a, t.handle? i = b at hrel ⊢
  cases hrel with
  | none => exact .inl ⟨rfl, rfl⟩
  | some hst => exact .inr ⟨_, _, rfl, rfl, hst⟩

/-- Handles are related by whatever holds of all that stand for each other. -/
theorem rel (h : Mirrors ν s t) {R : Nat → Handle → Prop} {i : Nat}
    (hR : ∀ k g, s.scope? i = some k → Stands ν s.memory k g → R k g) :
    Option.Rel R (s.scope? i) (t.handle? i) := by
  rcases h.cases i with ⟨hs, ht⟩ | ⟨k, g, hs, ht, hst⟩
  · rw [hs, ht]
    exact .none
  · rw [hs, ht]
    exact .some (hR k g hs hst)

theorem empty : Mirrors id .empty .empty where
  counts := fun _ => rfl
  numbered := ⟨fun _ h => absurd h.1 (Nat.not_lt_zero _), fun _ _ h => absurd h.1 (Nat.not_lt_zero _),
    fun _ h => absurd h.1 (Nat.not_lt_zero _), fun _ h => nomatch h⟩
  length := rfl
  handles _ := .none

/-- One handle more on both sides. -/
theorem handles_append (h : Mirrors ν s t) {ν' : Nat → Nat} {m : ScopeMemory} {g : Handle}
    (hold : ∀ i k g, s.scope? i = some k → Stands ν s.memory k g → Stands ν' m k g) (hnew : Stands ν' m r g) :
    ∀ i : Nat, Option.Rel (Stands ν' m) ((s.handles ++ [some r])[i]?.join) ((t.handles ++ [some g])[i]?.join) :=
  rel_append h.length (fun i => h.rel (hold i)) hnew

/-- Another handle in the stead of one, on both sides. -/
theorem handles_set (h : Mirrors ν s t) (hr : s.scope? i = some r) {ν' : Nat → Nat} {m : ScopeMemory}
    {r' : Option Nat} {g : Option Handle}
    (hold : ∀ j k g, j ≠ i → s.scope? j = some k → Stands ν s.memory k g → Stands ν' m k g)
    (hnew : Option.Rel (Stands ν' m) r' g) :
    ∀ j : Nat, Option.Rel (Stands ν' m) ((s.handles.set i r')[j]?.join) ((t.handles.set i g)[j]?.join) :=
  rel_set h.length (lt_of_join hr) (fun j hj => h.rel fun k g hs hst => hold j k g hj hs hst) hnew

/-- **A new scope** inside another one, or inside none. -/
theorem allocate (h : Mirrors ν s t) {scope : NamespaceScope} {outer : Option Nat}
    (houter : ∀ o ∈ outer, s.memory.Live o) {g : Handle}
    (hchain : g.chain = scope :: outer.elim [] (chain s.memory.nodes))
    (hnumbers : g.numbers = t.seals.next :: (outer.elim [] (path s.memory.nodes)).map ν) :
    Mirrors (Function.update ν s.memory.nodes.length t.seals.next)
      ⟨(s.memory.allocate scope outer).1, s.handles ++ [some (s.memory.allocate scope outer).2]⟩
      ⟨{ t.seals with next := t.seals.next + 1 }, t.handles ++ [some g]⟩ := by
  rw [ScopeMemory.allocate_snd]
  constructor
  · rw [references_append]
    exact h.counts.allocate houter
  · exact h.numbered.allocate houter
  · simp [h.length]
  · exact h.handles_append (fun i k g hs hst => hst.allocate (h.live hs).1) (.new hchain hnumbers)

/-- **A copy of a handle** holds the same scope. -/
theorem clone (h : Mirrors ν s t) {g : Handle} (hr : s.scope? i = some r) (hst : Stands ν s.memory r g) :
    Mirrors ν ⟨s.memory.retain r, s.handles ++ [some r]⟩ { t with handles := t.handles ++ [some g] } := by
  obtain ⟨hlt, hpos⟩ := h.live hr
  constructor
  · rw [references_append]
    exact Counted.retain h.counts hlt hpos
  · apply h.numbered.mono
    · intro k hk
      by_cases hkr : k = r
      · exact hkr ▸ ⟨hlt, hpos⟩
      · exact ⟨hk.1, by simpa [ScopeMemory.retain, hkr] using hk.2⟩
    · exact fun _ => rfl
  · simp [h.length]
  · exact h.handles_append (fun i k g _ hst => ⟨hst.chain, hst.numbers⟩) ⟨hst.chain, hst.numbers⟩

/-- **A handle less** leaves the others as they are. -/
theorem discard (h : Mirrors ν s t) (hr : s.scope? i = some r) :
    Mirrors ν ⟨s.memory.release r, s.handles.set i none⟩ { t with handles := t.handles.set i none } := by
  constructor
  · rw [references_set hr]
    exact Counted.release h.counts (references_pos hr)
  · exact h.numbered.mono (fun k hk => hk.of_release) fun _ => rfl
  · simp [h.length]
  · exact h.handles_set hr (fun j k g _ _ hst => ⟨hst.chain, hst.numbers⟩) .none

/-- **Sealing** reaches all scopes of a handle. -/
theorem sealing (h : Mirrors ν s t) {g : Handle} (hr : s.scope? i = some r) (hst : Stands ν s.memory r g) :
    Mirrors ν { s with memory := { s.memory with nodes := sealFrom s.memory.nodes r } }
      { t with seals := { t.seals with sealedScopes := g.numbers ++ t.seals.sealedScopes } } := by
  constructor
  · exact Counted.of_outer h.counts (outer_sealFrom _ _)
  · rw [hst.numbers]
    exact h.numbered.sealFrom h.counts (h.live hr)
  · exact h.length
  · refine fun j => h.rel fun k g _ hst => ⟨?_, ?_⟩
    · rw [chain_sealFrom, hst.chain]
    · rw [path_sealFrom, hst.numbers]

/-- What a handle with a chain of its own becomes by a write. -/
def written (g : Handle) (next : Nat) (f : NamespaceScope → NamespaceScope) : Handle :=
  ⟨next :: g.numbers.drop 1, g.chain.modifyOwn f⟩

/-- **A write where the scope lies.** The scope has one holder, so it is on no other handle's way outward. -/
theorem inPlace (h : Mirrors ν s t) {g : Handle} (hr : s.scope? i = some r) (hst : Stands ν s.memory r g)
    (hsealed : s.memory.isSealed r = false) (hone : s.memory.holders r = 1) :
    Mirrors (Function.update ν r t.seals.next)
      ⟨{ s.memory with nodes := modifyAt f s.memory.nodes r }, s.handles.set i (some r)⟩
      ⟨{ t.seals with next := t.seals.next + 1 }, t.handles.set i (some (written g t.seals.next f))⟩ := by
  obtain ⟨hlt, hpos⟩ := h.live hr
  have hback : plus (minus (references s.handles) r) r = references s.handles := plus_minus (references_pos hr)
  constructor
  · rw [references_set hr]
    show Counted _ _ (plus (minus (references s.handles) r) r)
    rw [hback]
    exact Counted.of_outer h.counts (outer_modifyAt _ _)
  · apply h.numbered.fresh
    · exact (isSealed_modifyAt _ _ _).trans hsealed
    · exact fun k _ hk => ⟨by simpa using hk.1, hk.2⟩
    · exact fun k _ => isSealed_modifyAt _ _ _
  · simp [h.length]
  · refine h.handles_set hr (fun j k g hj hs hst => ?_) (.some ?_)
    · -- another handle that came by the scope would be a second one to hold it
      have hnot : r ∉ path s.memory.nodes k := fun hmem => by
        have hk : (s.handles.set i none)[j]?.join = some k := by
          rw [join_set (lt_of_join hr), if_neg hj]
          exact hs
        have hother : 0 < minus (references s.handles) r k := by
          have := references_pos hk
          rwa [references_set hr] at this
        have hcounted : Counted s.memory.holders s.memory.nodes (plus (minus (references s.handles) r) r) := by
          rw [hback]
          exact h.counts
        have := hcounted.two_le_holders hother hmem
        omega
      refine ⟨?_, ?_⟩
      · rw [chain_modifyAt_of_notMem hnot, hst.chain]
      · rw [path_modifyAt, map_update_of_notMem hnot, hst.numbers]
    · obtain ⟨rest, hpath, hrest⟩ := path_eq hlt
      have hnot : r ∉ rest := fun hmem => Nat.lt_irrefl _ (hrest r hmem)
      refine ⟨?_, ?_⟩
      · rw [chain_modifyAt hlt, written, hst.chain]
      · rw [path_modifyAt, written, hst.numbers, hpath, List.map_cons, List.map_cons, Function.update_self,
          map_update_of_notMem hnot]
        rfl

/-- **A write to a copy.** The old scope stays as it is for the others that hold it. -/
theorem toCopy (h : Mirrors ν s t) {g : Handle} (hr : s.scope? i = some r) (hst : Stands ν s.memory r g)
    {n : ScopeNode} (hn : at? s.memory.nodes r = some n) :
    Mirrors (Function.update ν s.memory.nodes.length t.seals.next)
      ⟨(s.memory.allocate (f n.scope) n.outer).1.release r, s.handles.set i (some s.memory.nodes.length)⟩
      ⟨{ t.seals with next := t.seals.next + 1 }, t.handles.set i (some (written g t.seals.next f))⟩ := by
  obtain ⟨hlt, hpos⟩ := h.live hr
  obtain ⟨houter, hchain, hpath⟩ := Counted.outward h.counts hpos hn
  have hlive : ∀ o ∈ n.outer, s.memory.Live o := fun o ho =>
    ⟨Nat.lt_trans (houter o ho).1 hlt, (houter o ho).2⟩
  have hne : r ≠ s.memory.nodes.length := Nat.ne_of_lt hlt
  constructor
  · -- the handle refers to the copy in the stead of the old scope
    have hcounts : (s.memory.allocate (f n.scope) n.outer).1.Counts
        (plus (references s.handles) s.memory.nodes.length) := h.counts.allocate hlive
    have hrefs : 0 < plus (references s.handles) s.memory.nodes.length r := by
      rw [plus, if_neg hne]
      exact references_pos hr
    have hmoved : minus (plus (references s.handles) s.memory.nodes.length) r =
        plus (minus (references s.handles) r) s.memory.nodes.length := by
      funext k
      simp only [plus, minus]
      split_ifs <;> omega
    rw [references_set hr]
    show Counted _ _ (plus (minus (references s.handles) r) s.memory.nodes.length)
    rw [← hmoved]
    exact Counted.release hcounts hrefs
  · exact (h.numbered.allocate hlive).mono (fun k hk => hk.of_release) fun _ => rfl
  · simp [h.length]
  · refine h.handles_set hr (fun j k g _ hs hst => ?_) (.some ?_)
    · have hold : Stands (Function.update ν s.memory.nodes.length t.seals.next)
          (s.memory.allocate (f n.scope) n.outer).1 k g := hst.allocate (h.live hs).1
      exact ⟨hold.chain, hold.numbers⟩
    · have hnew : Stands (Function.update ν s.memory.nodes.length t.seals.next)
          (s.memory.allocate (f n.scope) n.outer).1 s.memory.nodes.length (written g t.seals.next f) := by
        apply Stands.new
        · rw [written, hst.chain, hchain]
          rfl
        · rw [written, hst.numbers, hpath]
          rfl
      exact ⟨hnew.chain, hnew.numbers⟩

/-- **A write** concerns its own handle, whether the scope is changed where it lies or copied first. -/
theorem write (h : Mirrors ν s t) {g : Handle} (hr : s.scope? i = some r) (hst : Stands ν s.memory r g)
    (f : NamespaceScope → NamespaceScope) :
    ∃ ν', Mirrors ν' (s.write i f)
      ⟨{ t.seals with next := t.seals.next + 1 }, t.handles.set i (some (written g t.seals.next f))⟩ := by
  obtain ⟨hlt, -⟩ := h.live hr
  rcases ScopeMemory.writable_cases hlt with ⟨heq, hsealed, hone⟩ | heq
  · refine ⟨Function.update ν r t.seals.next, ?_⟩
    rw [Resolvers.write, hr]
    dsimp only
    rw [heq]
    exact h.inPlace hr hst hsealed hone
  · obtain ⟨n, hn⟩ := at?_isSome hlt
    refine ⟨Function.update ν s.memory.nodes.length t.seals.next, ?_⟩
    rw [Resolvers.write, hr]
    dsimp only
    rw [heq, ScopeMemory.copy_eq hn]
    -- changing the new scope is making it from what it is changed to
    have hmemory : ({ (s.memory.allocate n.scope n.outer).1.release r with
          nodes := modifyAt f (s.memory.allocate n.scope n.outer).1.nodes s.memory.nodes.length } : ScopeMemory) =
        (s.memory.allocate (f n.scope) n.outer).1.release r := by
      simp only [ScopeMemory.release, ScopeMemory.allocate_nodes, ScopeMemory.allocate_holders, modifyAt, if_true,
        release_old (Nat.ne_of_lt hlt)]
    show Mirrors _ ⟨{ (s.memory.allocate n.scope n.outer).1.release r with
      nodes := modifyAt f (s.memory.allocate n.scope n.outer).1.nodes s.memory.nodes.length }, _⟩ _
    rw [hmemory]
    exact h.toCopy hr hst hn

/-- **One request** keeps the two in step. -/
theorem serve (h : Mirrors ν s t) (request : ResolverRequest) :
    ∃ ν', Mirrors ν' (s.serve request) (t.serve request) := by
  have hwrite : ∀ (i : Nat) (f : NamespaceScope → NamespaceScope), ∃ ν', Mirrors ν' (s.write i f)
      ((t.handle? i).elim t fun g => t.put i (g.change f)) := by
    intro i f
    rcases h.cases i with ⟨hs, ht⟩ | ⟨r, g, hs, ht, hst⟩
    · refine ⟨ν, ?_⟩
      rw [Resolvers.write, hs, ht]
      exact h
    · rw [ht]
      exact h.write hs hst f
  cases request with
  | new => exact ⟨_, h.allocate (by simp) (g := ⟨[t.seals.next], [.empty]⟩) rfl rfl⟩
  | inside i =>
    simp only [Resolvers.serve, Copies.serve]
    rcases h.cases i with ⟨hs, ht⟩ | ⟨r, g, hs, ht, hst⟩
    · rw [hs, ht]
      exact ⟨ν, h⟩
    · rw [hs, ht]
      refine ⟨_, h.allocate (fun o ho => by cases ho; exact h.live hs) ?_ ?_⟩
      · exact congrArg _ hst.chain
      · exact congrArg _ hst.numbers
  | clone i =>
    simp only [Resolvers.serve, Copies.serve]
    rcases h.cases i with ⟨hs, ht⟩ | ⟨r, g, hs, ht, hst⟩
    · rw [hs, ht]
      exact ⟨ν, h⟩
    · rw [hs, ht]
      exact ⟨ν, h.clone hs hst⟩
  | register i label address => exact hwrite i _
  | setNode i node => exact hwrite i _
  | sealScopes i =>
    simp only [Resolvers.serve, Copies.serve]
    rcases h.cases i with ⟨hs, ht⟩ | ⟨r, g, hs, ht, hst⟩
    · rw [hs, ht]
      exact ⟨ν, h⟩
    · rw [hs, ht]
      exact ⟨ν, h.sealing hs hst⟩
  | discard i =>
    simp only [Resolvers.serve, Copies.serve]
    rcases h.cases i with ⟨hs, ht⟩ | ⟨r, g, hs, ht, hst⟩
    · rw [hs, ht]
      exact ⟨ν, h⟩
    · rw [hs, ht]
      exact ⟨ν, h.discard hs⟩

end Mirrors

/-- **All requests** keep the two in step. -/
theorem Resolvers.mirrors_after (requests : List ResolverRequest) :
    ∃ ν, Mirrors ν (Resolvers.after requests) (Copies.after requests) := by
  have hrun : ∀ (requests : List ResolverRequest) {ν s t}, Mirrors ν s t →
      ∃ ν', Mirrors ν' (requests.foldl Resolvers.serve s) (requests.foldl Copies.serve t) := by
    intro requests
    induction requests with
    | nil => exact fun h => ⟨_, h⟩
    | cons request requests ih =>
      intro ν s t h
      obtain ⟨ν', h'⟩ := h.serve request
      exact ih h'
  exact hrun requests .empty

/-! ## §E  Answers -/

/-- What a handle answers: what labels and addresses stand for, what is registered, and the node of its scope. -/
structure ResolverAnswers where
  address : Store → String → Option String
  label : Store → String → Option String
  registeredAddress : String → Option String
  registeredLabel : String → Option String
  node? : Option Pointer

/-- What a chain answers. -/
def NamespaceChain.answers (c : NamespaceChain) : ResolverAnswers where
  address := c.address
  label := c.label
  registeredAddress := c.registeredAddress
  registeredLabel := c.registeredLabel
  node? := c.node?

/-- What a scope in memory answers. -/
def ScopeMemory.answers (m : ScopeMemory) (r : Nat) : ResolverAnswers where
  address := m.address r
  label := m.label r
  registeredAddress := m.registeredAddress r
  registeredLabel := m.registeredLabel r
  node? := m.node? r

/-- A scope in memory answers as the chain that begins with it. -/
theorem ScopeMemory.answers_eq (m : ScopeMemory) (r : Nat) :
    m.answers r = (ScopeNode.chain m.nodes r).answers := by
  have hnode : m.node? r = NamespaceChain.node? (ScopeNode.chain m.nodes r) := by
    rw [ScopeMemory.node?, NamespaceChain.node?, head?_chain, Option.bind_map]
    rfl
  have haddress : m.registeredAddress r = NamespaceChain.registeredAddress (ScopeNode.chain m.nodes r) :=
    funext fun label => lookUp_eq _ _ _
  have hlabel : m.registeredLabel r = NamespaceChain.registeredLabel (ScopeNode.chain m.nodes r) :=
    funext fun address => lookUp_eq _ _ _
  unfold ScopeMemory.answers NamespaceChain.answers
  congr 1
  · funext st label
    rw [ScopeMemory.address, NamespaceChain.address, haddress, hnode]
  · funext st address
    rw [ScopeMemory.label, NamespaceChain.label, hlabel, hnode]

namespace Resolvers

/-- What a handle that is in use answers. -/
def answers (s : Resolvers) (i : Nat) : Option ResolverAnswers := (s.scope? i).map s.memory.answers

/-- Whether the scope of a handle that is in use is sealed. -/
def isSealed (s : Resolvers) (i : Nat) : Option Bool := (s.scope? i).map s.memory.isSealed

end Resolvers

namespace Copies

variable {t : Copies} {i : Nat} {g : Handle}

/-- What a handle that is in use answers. -/
def answers (t : Copies) (i : Nat) : Option ResolverAnswers := (t.handle? i).map fun g => NamespaceChain.answers g.chain

/-- Whether the scope of a handle that is in use is sealed. -/
def isSealed (t : Copies) (i : Nat) : Option Bool := (t.handle? i).map (·.isSealed t.seals)

/-- What is asked of a handle changes nothing when it is not in use. -/
theorem elim_handle? {P : Copies → Prop} (h : P t) (j : Nat) (f : Handle → Copies) (hf : ∀ g, P (f g)) :
    P ((t.handle? j).elim t f) := by
  cases t.handle? j with
  | none => exact h
  | some g => exact hf g

/-- **Nothing but a write through a handle** changes it. -/
theorem handle?_serve (h : t.handle? i = some g) {request : ResolverRequest} (hrequest : request.writes i = false) :
    (t.serve request).handle? i = some g := by
  have hadd : ∀ make, (t.add make).handle? i = some g := fun make => by
    show ((t.handles ++ [some (make.run t.seals).1])[i]?).join = some g
    rw [join_append, if_neg (Nat.ne_of_lt (lt_of_join h))]
    exact h
  have hset : ∀ j (new : Option Handle), j ≠ i → ((t.handles.set j new)[i]?).join = some g := fun j new hj => by
    rw [List.getElem?_set_ne hj]
    exact h
  have helim := elim_handle? (P := (·.handle? i = some g)) h
  cases request with
  | new => exact hadd _
  | inside j => exact helim j _ fun _ => hadd _
  | clone j => exact helim j _ fun _ => hadd _
  | register j label address =>
    have hj : j ≠ i := by simpa [ResolverRequest.writes] using hrequest
    exact helim j _ fun _ => hset j _ hj
  | setNode j node =>
    have hj : j ≠ i := by simpa [ResolverRequest.writes] using hrequest
    exact helim j _ fun _ => hset j _ hj
  | sealScopes j => exact helim j _ fun _ => h
  | discard j =>
    have hj : j ≠ i := by simpa [ResolverRequest.writes] using hrequest
    exact helim j _ fun _ => hset j _ hj

/-- No number is ever unsealed. -/
theorem mem_sealedScopes_serve {k : Nat} (h : k ∈ t.seals.sealedScopes) (request : ResolverRequest) :
    k ∈ (t.serve request).seals.sealedScopes := by
  have helim := elim_handle? (P := (k ∈ ·.seals.sealedScopes)) h
  cases request with
  | new => exact h
  | sealScopes j => exact helim j _ fun g => List.mem_append_right g.numbers h
  | _ => exact helim _ _ fun _ => h

end Copies

namespace Mirrors

variable {ν : Nat → Nat} {s : Resolvers} {t : Copies}

/-- Handles that are in step answer the same. -/
theorem answers_eq (h : Mirrors ν s t) (i : Nat) : s.answers i = t.answers i := by
  rcases h.cases i with ⟨hs, ht⟩ | ⟨r, g, hs, ht, hst⟩
  · rw [Resolvers.answers, Copies.answers, hs, ht]
    rfl
  · rw [Resolvers.answers, Copies.answers, hs, ht, Option.map_some, Option.map_some, ScopeMemory.answers_eq, hst.chain]

/-- Handles that are in step are sealed together. -/
theorem isSealed_eq (h : Mirrors ν s t) (i : Nat) : s.isSealed i = t.isSealed i := by
  rcases h.cases i with ⟨hs, ht⟩ | ⟨r, g, hs, ht, hst⟩
  · rw [Resolvers.isSealed, Copies.isSealed, hs, ht]
    rfl
  · obtain ⟨rest, hpath, -⟩ := path_eq (h.live hs).1
    rw [Resolvers.isSealed, Copies.isSealed, hs, ht, Option.map_some, Option.map_some, Handle.isSealed, hst.numbers,
      hpath, h.numbered.isSealed r (h.live hs)]
    rfl

end Mirrors

/-- A handle that nothing is written through keeps its chain, whatever else is asked. -/
theorem Copies.handle?_run {t : Copies} {i : Nat} {g : Handle} (h : t.handle? i = some g)
    (requests : List ResolverRequest) (hrequests : ∀ request ∈ requests, request.writes i = false) :
    (requests.foldl Copies.serve t).handle? i = some g := by
  induction requests generalizing t with
  | nil => exact h
  | cons request requests ih =>
    obtain ⟨hrequest, hrest⟩ := List.forall_mem_cons.mp hrequests
    exact ih (Copies.handle?_serve h hrequest) hrest

/-- A handle that is sealed is unsealed by nothing but a write through it. -/
theorem Copies.writes_of_unsealed {t : Copies} {i : Nat} {request : ResolverRequest} (hsealed : t.isSealed i = some true)
    (hunsealed : (t.serve request).isSealed i = some false) :
    (∃ label address, request = .register i label address) ∨ ∃ node, request = .setNode i node := by
  rw [Copies.isSealed, Option.map_eq_some_iff] at hsealed
  obtain ⟨g, hg, hin⟩ := hsealed
  rw [Copies.isSealed] at hunsealed
  cases hwrites : request.writes i with
  | false =>
    -- the handle has its numbers still, and they are sealed still
    rw [Copies.handle?_serve hg hwrites, Option.map_some, Option.some_inj] at hunsealed
    obtain ⟨k, hk, hmem⟩ : ∃ k, g.numbers.head? = some k ∧ k ∈ t.seals.sealedScopes := by
      simpa [Handle.isSealed, Option.any_eq_true] using hin
    have hstill : g.isSealed (t.serve request).seals = true := by
      simp only [Handle.isSealed, hk, Option.any_some, List.contains_iff_mem]
      exact Copies.mem_sealedScopes_serve hmem request
    rw [hstill] at hunsealed
    cases hunsealed
  | true =>
    cases request with
    | register j label address =>
      obtain rfl : j = i := by simpa [ResolverRequest.writes] using hwrites
      exact .inl ⟨label, address, rfl⟩
    | setNode j node =>
      obtain rfl : j = i := by simpa [ResolverRequest.writes] using hwrites
      exact .inr ⟨node, rfl⟩
    | discard j =>
      -- a handle that is done away with is neither sealed nor unsealed
      obtain rfl : j = i := by simpa [ResolverRequest.writes] using hwrites
      have hnone : (t.serve (.discard j)).handle? j = none := by
        simp only [Copies.serve, hg, Option.elim]
        show (t.handles.set j none)[j]?.join = none
        rw [join_set (lt_of_join hg), if_pos rfl]
      rw [hnone] at hunsealed
      cases hunsealed
    | new => cases hwrites
    | inside j => cases hwrites
    | clone j => cases hwrites
    | sealScopes j => cases hwrites

/-- **Handles to shared scopes behave as values.** After every sequence of requests, each handle answers as if every
copy of a handle, and every scope made inside of it, had been given the whole chain at that moment, and as if a write
changed the chain of its own handle only. So whatever is asked of others later on, a handle that nothing is written
through answers as it did. Scopes are sealed together with those around them, and a handle that is sealed is unsealed
by nothing but a write through that handle. -/
theorem Resolvers.behave_as_values (requests : List ResolverRequest) (i : Nat) :
    (after requests).answers i = (Copies.after requests).answers i ∧
    (after requests).isSealed i = (Copies.after requests).isSealed i ∧
    (∀ later : List ResolverRequest, (∀ request ∈ later, request.writes i = false) →
      ((after requests).answers i).isSome = true →
        (after (requests ++ later)).answers i = (after requests).answers i) ∧
    (∀ request, (after requests).isSealed i = some true →
      (after (requests ++ [request])).isSealed i = some false →
        (∃ label address, request = .register i label address) ∨ ∃ node, request = .setNode i node) := by
  obtain ⟨ν, h⟩ := mirrors_after requests
  refine ⟨h.answers_eq i, h.isSealed_eq i, fun later hlater hsome => ?_, fun request hsealed hunsealed => ?_⟩
  · obtain ⟨ν', h'⟩ := mirrors_after (requests ++ later)
    rw [h.answers_eq] at hsome
    rw [h'.answers_eq, h.answers_eq]
    cases hg : (Copies.after requests).handle? i with
    | none => simp [Copies.answers, hg] at hsome
    | some g =>
      have hlast : (Copies.after (requests ++ later)).handle? i = some g := by
        rw [Copies.after, List.foldl_append]
        exact Copies.handle?_run hg later hlater
      rw [Copies.answers, Copies.answers, hlast, hg]
  · obtain ⟨ν', h'⟩ := mirrors_after (requests ++ [request])
    have hserve : Copies.after (requests ++ [request]) = (Copies.after requests).serve request := by
      rw [Copies.after, List.foldl_append]
      rfl
    rw [h.isSealed_eq] at hsealed
    rw [h'.isSealed_eq, hserve] at hunsealed
    exact Copies.writes_of_unsealed hsealed hunsealed

end NodePath
