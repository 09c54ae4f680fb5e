/-
# NodePath.Proofs.Registration — what labels and addresses are registered for

A scope has a table for each direction of look-up, and keeps the two in step by hand. What a handle answers is told
from the requests alone: a label stands for the address it was last registered for, and an address is known by the
label that was last registered for it, as long as that label stands for it still. So the two directions are inverse
to each other but for two cases, which are told here exactly: a label that a nearer scope registers anew still
answers for the address that it had, and an address whose last label was given away is not known by an earlier one.

* §A  The registrations of one scope.
* §B  The registrations of all handles.
* §C  The two directions of look-up.
-/
import Mathlib.Data.List.Forall2
import NodePath.Proofs.ScopeSharing

namespace NodePath

/-! ## §A  One scope -/

/-- **Registrations** are the labels that were registered in a scope with their addresses, the latest first. -/
abbrev Registrations := List (String × String)

namespace Registrations

/-- The address that a label was last registered for. -/
def address (r : Registrations) (label : String) : Option String := (r.find? (·.1 == label)).map (·.2)

/-- The label that was last registered for an address. -/
def latest (r : Registrations) (address : String) : Option String := (r.find? (·.2 == address)).map (·.1)

/-- The label that was last registered for an address, as long as it stands for that address still. -/
def label (r : Registrations) (address : String) : Option String :=
  (r.latest address).filter fun label => r.address label == some address

variable {r : Registrations} {label address other : String}

theorem address_cons : Registrations.address ((label, address) :: r) other =
    if label = other then some address else r.address other := by
  by_cases h : label = other <;> simp [Registrations.address, h]

theorem latest_cons : latest ((label, address) :: r) other = if address = other then some label else r.latest other := by
  by_cases h : address = other <;> simp [latest, h]

theorem label_eq_some : r.label address = some label ↔ r.latest address = some label ∧ r.address label = some address := by
  simp [Registrations.label, Option.filter_eq_some_iff]

theorem label_eq_none :
    r.label address = none ↔ ∀ label, r.latest address = some label → r.address label ≠ some address := by
  simp [Registrations.label, Option.filter_eq_none_iff]

/-- The latest registration makes its label the one that answers for its address, and no longer for another. -/
theorem label_cons : Registrations.label ((label, address) :: r) other =
    if address = other then some label else (r.label other).filter (· != label) := by
  by_cases h : address = other
  · rw [if_pos h, label_eq_some, latest_cons, address_cons, if_pos h, if_pos rfl]
    exact ⟨rfl, congrArg some h⟩
  · rw [if_neg h]
    refine Option.ext fun l => ?_
    rw [label_eq_some, latest_cons, address_cons, if_neg h, Option.filter_eq_some_iff, label_eq_some]
    by_cases hl : label = l
    · simp [hl, h]
    · simp [hl, Ne.symm hl]

end Registrations

namespace NamespaceScope

variable {table : List (String × String)} {key other value : String}

theorem look_drop : look (drop table key) other = if key = other then none else look table other := by
  induction table with
  | nil => simp [look, drop]
  | cons entry table ih =>
    by_cases hentry : entry.1 = key
    · have hdrop : drop (entry :: table) key = drop table key := by simp [drop, hentry]
      rw [hdrop, ih]
      by_cases hkey : key = other
      · rw [if_pos hkey, if_pos hkey]
      · rw [if_neg hkey, if_neg hkey]
        simp [look, hentry, hkey]
    · have hdrop : drop (entry :: table) key = entry :: drop table key := by simp [drop, hentry]
      rw [hdrop]
      by_cases hother : entry.1 = other
      · have hkey : key ≠ other := fun h => hentry (hother.trans h.symm)
        simp [look, hother, hkey]
      · have hcons : ∀ rest, look (entry :: rest) other = look rest other := fun rest => by simp [look, hother]
        rw [hcons, hcons, ih]

theorem look_put : look (put table key value) other = if key = other then some value else look table other := by
  by_cases hkey : key = other
  · simp [look, put, hkey]
  · have hcons : look (put table key value) other = look (drop table key) other := by simp [look, put, hkey]
    rw [hcons, look_drop, if_neg hkey, if_neg hkey]

/-- **Records** says that a scope knows the registrations that were made in it, in both directions of look-up. -/
structure Records (s : NamespaceScope) (r : Registrations) : Prop where
  address : ∀ label, look s.addresses label = r.address label
  label : ∀ address, look s.labels address = r.label address

namespace Records

variable {s : NamespaceScope} {r : Registrations}

theorem empty : Records .empty [] := ⟨fun _ => rfl, fun _ => rfl⟩

/-- **One registration** is the latest one in both directions. The entry of the address that the label had is the
only one that goes, and it goes exactly if the label was the one that answered for it. -/
theorem register (h : Records s r) (label address : String) : Records (s.register label address) ((label, address) :: r) where
  address l := by
    show look (put s.addresses label address) l = _
    rw [look_put, Registrations.address_cons, h.address]
  label a := by
    rw [Registrations.label_cons, ← h.label]
    show look (put _ address label) a = _
    rw [look_put]
    by_cases ha : address = a
    · rw [if_pos ha, if_pos ha]
    rw [if_neg ha, if_neg ha, h.address]
    by_cases hknown : look s.labels a = some label
    · -- then the label stands for this address, which is the old one
      have hold : r.address label = some a := (Registrations.label_eq_some.mp ((h.label a).symm.trans hknown)).2
      simp [hold, hknown, look_drop, Option.filter]
    · have hkept : (look s.labels a).filter (· != label) = look s.labels a := by
        cases hl : look s.labels a with
        | none => rfl
        | some l =>
          have hne : l ≠ label := fun heq => hknown (hl.trans (congrArg some heq))
          simp [hne]
      rw [hkept]
      cases r.address label with
      | none => rfl
      | some old =>
        dsimp only
        split
        next hdrop =>
          have hne : old ≠ a := fun heq => hknown (heq ▸ beq_iff_eq.mp hdrop)
          rw [look_drop, if_neg hne]
        next => rfl

end Records

end NamespaceScope

/-! ## §B  All handles -/

/-- **Ledger** has the registrations in the scopes of each handle that is in use, the innermost scope first. -/
abbrev Ledger := List (Option (List Registrations))

namespace Ledger

/-- The registrations in the scopes of a handle that is in use. -/
def scopes? (l : Ledger) (i : Nat) : Option (List Registrations) := l[i]?.join

/-- One registration more in the innermost scope. -/
def enter (scopes : List Registrations) (label address : String) : List Registrations :=
  match scopes with
  | [] => [[(label, address)]]
  | r :: outer => ((label, address) :: r) :: outer

/-- **serve** writes down what is asked. Nodes and seals have no part in it. -/
def serve (l : Ledger) : ResolverRequest → Ledger
  | .new => l ++ [some [[]]]
  | .inside i => (l.scopes? i).elim l fun scopes => l ++ [some ([] :: scopes)]
  | .clone i => (l.scopes? i).elim l fun scopes => l ++ [some scopes]
  | .register i label address => (l.scopes? i).elim l fun scopes => l.set i (some (enter scopes label address))
  | .setNode _ _ => l
  | .sealScopes _ => l
  | .discard i => (l.scopes? i).elim l fun _ => l.set i none

/-- What is written down after some requests. -/
def after (requests : List ResolverRequest) : Ledger := requests.foldl serve []

end Ledger

namespace NamespaceChain

/-- **Records** says that the scopes of a chain, of which there is one at least, know the registrations that were made
in them. -/
structure Records (c : NamespaceChain) (scopes : List Registrations) : Prop where
  each : List.Forall₂ NamespaceScope.Records c scopes
  nonempty : c ≠ []

namespace Records

variable {c : NamespaceChain} {scopes : List Registrations}

theorem new : Records [.empty] [[]] := ⟨.cons .empty .nil, List.cons_ne_nil _ _⟩

theorem inside (h : Records c scopes) : Records (.empty :: c) ([] :: scopes) :=
  ⟨.cons .empty h.each, List.cons_ne_nil _ _⟩

theorem register (h : Records c scopes) (label address : String) :
    Records (c.modifyOwn (·.register label address)) (Ledger.enter scopes label address) := by
  obtain ⟨hs, hne⟩ := h
  cases hs with
  | nil => exact absurd rfl hne
  | cons hs houter => exact ⟨.cons (hs.register label address) houter, List.cons_ne_nil _ _⟩

theorem setNode (h : Records c scopes) (node : Option Pointer) : Records (c.modifyOwn ({ · with node })) scopes := by
  obtain ⟨hs, hne⟩ := h
  cases hs with
  | nil => exact absurd rfl hne
  | cons hs houter => exact ⟨.cons ⟨hs.address, hs.label⟩ houter, List.cons_ne_nil _ _⟩

theorem registeredAddress (h : Records c scopes) (label : String) :
    c.registeredAddress label = scopes.findSome? fun r => r.address label := by
  unfold NamespaceChain.registeredAddress
  obtain ⟨hs, -⟩ := h
  induction hs with
  | nil => rfl
  | cons hs _ ih => rw [List.findSome?_cons, List.findSome?_cons, hs.address, ih]

theorem registeredLabel (h : Records c scopes) (address : String) :
    c.registeredLabel address = scopes.findSome? fun r => r.label address := by
  unfold NamespaceChain.registeredLabel
  obtain ⟨hs, -⟩ := h
  induction hs with
  | nil => rfl
  | cons hs _ ih => rw [List.findSome?_cons, List.findSome?_cons, hs.label, ih]

end Records

end NamespaceChain

/-- **Keeps** says that a ledger has what was registered in the scopes of every handle. -/
structure Copies.Keeps (t : Copies) (l : Ledger) : Prop where
  length : t.handles.length = l.length
  scopes : ∀ i, Option.Rel (fun h scopes => NamespaceChain.Records h.chain scopes) (t.handle? i) (l.scopes? i)

namespace Copies.Keeps

variable {t : Copies} {l : Ledger}

/-- A handle is in use on both sides, or on neither. -/
theorem cases (h : Keeps t l) (i : Nat) :
    (t.handle? i = none ∧ l.scopes? i = none) ∨
      ∃ g scopes, t.handle? i = some g ∧ l.scopes? i = some scopes ∧ NamespaceChain.Records g.chain scopes := by
  have hrel := h.scopes i
  generalize t.handle? i = a, l.scopes? i = b at hrel ⊢
  cases hrel with
  | none => exact .inl ⟨rfl, rfl⟩
  | some hrecords => exact .inr ⟨_, _, rfl, rfl, hrecords⟩

/-- One handle more. -/
theorem add (h : Keeps t l) (make : Handle.Sealing Handle) {scopes : List Registrations}
    (hrecords : NamespaceChain.Records (make.run t.seals).1.chain scopes) : Keeps (t.add make) (l ++ [some scopes]) where
  length := by
    show (t.handles ++ [some (make.run t.seals).1]).length = (l ++ [some scopes]).length
    rw [List.length_append, List.length_append, h.length]
    rfl
  scopes := rel_append h.length h.scopes hrecords

/-- Another handle in the stead of one. -/
theorem put (h : Keeps t l) {i : Nat} {g : Handle} (hg : t.handle? i = some g) (make : Handle.Sealing Handle)
    {scopes : List Registrations} (hrecords : NamespaceChain.Records (make.run t.seals).1.chain scopes) :
    Keeps (t.put i make) (l.set i (some scopes)) where
  length := by
    show (t.handles.set i (some (make.run t.seals).1)).length = (l.set i (some scopes)).length
    rw [List.length_set, List.length_set, h.length]
  scopes := rel_set h.length (lt_of_join hg) (fun j _ => h.scopes j) (.some hrecords)

/-- What is asked of a handle changes nothing on both sides when it is not in use. -/
theorem elim (h : Keeps t l) (i : Nat) {f : Handle → Copies} {k : List Registrations → Ledger}
    (hstep : ∀ g scopes, t.handle? i = some g → NamespaceChain.Records g.chain scopes → Keeps (f g) (k scopes)) :
    Keeps ((t.handle? i).elim t f) ((l.scopes? i).elim l k) := by
  rcases h.cases i with ⟨hg, hl⟩ | ⟨g, scopes, hg, hl, hrecords⟩
  · rw [hg, hl]
    exact h
  · rw [hg, hl]
    exact hstep g scopes hg hrecords

/-- **One request** is written down. -/
theorem serve (h : Keeps t l) (request : ResolverRequest) : Keeps (t.serve request) (l.serve request) := by
  -- A request that the ledger has no part in leaves the scopes of its handle as they are.
  have hunchanged : ∀ {i : Nat} {f : Handle → Copies}, (∀ g scopes, t.handle? i = some g →
      NamespaceChain.Records g.chain scopes → l.scopes? i = some scopes → Keeps (f g) l) →
      Keeps ((t.handle? i).elim t f) l := by
    intro i f hstep
    rcases h.cases i with ⟨hg, -⟩ | ⟨g, scopes, hg, hl, hrecords⟩
    · rw [hg]
      exact h
    · rw [hg]
      exact hstep g scopes hg hrecords hl
  cases request with
  | new => exact h.add Handle.new .new
  | inside i => exact h.elim i fun g _ _ hrecords => h.add g.inside hrecords.inside
  | clone i => exact h.elim i fun g _ _ hrecords => h.add (pure g) hrecords
  | register i label address =>
    exact h.elim i fun g _ hg hrecords => h.put hg (g.register label address) (hrecords.register label address)
  | setNode i node =>
    refine hunchanged fun g scopes hg hrecords hl => ?_
    have hsame : l.set i (some scopes) = l := by
      have hi := lt_of_join hl
      have hget : l[i] = some scopes := by simpa [Ledger.scopes?, List.getElem?_eq_getElem hi] using hl
      rw [← hget, List.set_getElem_self]
    exact hsame ▸ h.put hg (g.setNode node) (hrecords.setNode node)
  | sealScopes i => exact hunchanged fun _ _ _ _ _ => ⟨h.length, h.scopes⟩
  | discard i =>
    exact h.elim i fun g _ hg _ =>
      ⟨by simp [h.length], rel_set h.length (lt_of_join hg) (fun j _ => h.scopes j) .none⟩

end Copies.Keeps

/-- **All requests** are written down. -/
theorem Copies.keeps_after (requests : List ResolverRequest) : (Copies.after requests).Keeps (Ledger.after requests) := by
  have hrun : ∀ (requests : List ResolverRequest) {t l}, Keeps t l →
      Keeps (requests.foldl Copies.serve t) (requests.foldl Ledger.serve l) := by
    intro requests
    induction requests with
    | nil => exact fun h => h
    | cons request requests ih => exact fun h => ih (h.serve request)
  exact hrun requests ⟨rfl, fun _ => .none⟩

/-! ## §C  Both directions -/

namespace Registrations

variable {scopes : List Registrations} {label address : String}

/-- **A label that a nearer scope registers anew** is what keeps it from standing for the address that it is still
given as the label of. -/
theorem address_ne_iff (h : (scopes.findSome? fun r => r.label address) = some label) :
    (scopes.findSome? fun r => r.address label) ≠ some address ↔
      ∃ nearer r farther other, scopes = nearer ++ r :: farther ∧ r.label address = some label ∧
        (nearer.findSome? fun r => r.address label) = some other ∧ other ≠ address := by
  obtain ⟨nearer, r, farther, hscopes, hr, hnearer⟩ := List.findSome?_eq_some_iff.mp h
  have hlabel : r.address label = some address := (label_eq_some.mp hr).2
  constructor
  · intro hne
    rw [hscopes, List.findSome?_append, List.findSome?_cons, hlabel] at hne
    cases hfound : nearer.findSome? fun r => r.address label with
    | none => exact absurd (by simp [hfound]) hne
    | some other => exact ⟨nearer, r, farther, other, hscopes, hr, hfound, fun heq => hne (by simp [hfound, heq])⟩
  · rintro ⟨nearer, r, farther, other, hscopes, -, hfound, hother⟩
    rw [hscopes, List.findSome?_append, hfound]
    simpa using hother

end Registrations

/-- **The two directions of look-up** are told by what was registered. Of every handle in use, a label stands for the
address it was last registered for, in the innermost scope in which it was registered; and the label of an address is
the one last registered for it in the innermost scope in which that label still stands for it. So the label `label` of
an address stands for that address, unless another one was registered for it in a nearer scope than the one that
answers; and an address that a label stands for has a label, unless in every scope in which it was registered the last
label to be registered for it was given to another address since. -/
theorem Resolvers.registered_by_history (requests : List ResolverRequest) (i : Nat) {answers : ResolverAnswers}
    (h : (after requests).answers i = some answers) :
    ∃ scopes, (Ledger.after requests).scopes? i = some scopes ∧
      (∀ label, answers.registeredAddress label = scopes.findSome? fun r => r.address label) ∧
      (∀ address, answers.registeredLabel address = scopes.findSome? fun r => r.label address) ∧
      (∀ label address, answers.registeredLabel address = some label →
        (answers.registeredAddress label ≠ some address ↔
          ∃ nearer r farther other, scopes = nearer ++ r :: farther ∧ r.label address = some label ∧
            (nearer.findSome? fun r => r.address label) = some other ∧ other ≠ address)) ∧
      (∀ label address, answers.registeredAddress label = some address →
        (answers.registeredLabel address = none ↔
          ∀ r ∈ scopes, ∀ last, r.latest address = some last → r.address last ≠ some address)) := by
  obtain ⟨ν, hmirrors⟩ := mirrors_after requests
  rw [hmirrors.answers_eq] at h
  rcases (Copies.keeps_after requests).cases i with ⟨hg, -⟩ | ⟨g, scopes, hg, hl, hrecords⟩
  · simp [Copies.answers, hg] at h
  rw [Copies.answers, hg, Option.map_some, Option.some_inj] at h
  have haddress : ∀ label, answers.registeredAddress label = scopes.findSome? fun r => r.address label := fun label =>
    h ▸ hrecords.registeredAddress label
  have hlabel : ∀ address, answers.registeredLabel address = scopes.findSome? fun r => r.label address := fun address =>
    h ▸ hrecords.registeredLabel address
  refine ⟨scopes, hl, haddress, hlabel, fun label address hknown => ?_, fun label address _ => ?_⟩
  · rw [haddress]
    exact Registrations.address_ne_iff ((hlabel address).symm.trans hknown)
  · rw [hlabel, List.findSome?_eq_none_iff]
    exact forall₂_congr fun r _ => Registrations.label_eq_none

/-- A label registered for one address in a scope and for another inside of it. -/
def shadowedLabel : List ResolverRequest := [.new, .register 0 "p" "u", .inside 0, .register 1 "p" "v"]

/-- A second label for an address, which is given to another address. -/
def labelGivenAway : List ResolverRequest := [.new, .register 0 "p" "u", .register 0 "q" "u", .register 0 "q" "v"]

/-- In the inner scope `u` has the label `p`, which stands for `v` there, because `v` was registered for it in a
nearer scope. -/
theorem Resolvers.registered_by_history_shadowed :
    ∃ answers, (after shadowedLabel).answers 1 = some answers ∧ answers.registeredLabel "u" = some "p" ∧
      (answers.registeredAddress "p" ≠ some "u" ↔
        ∃ nearer r farther other, [[("p", "v")], [("p", "u")]] = nearer ++ r :: farther ∧
          Registrations.label r "u" = some "p" ∧
          (nearer.findSome? fun r => Registrations.address r "p") = some other ∧ other ≠ "u") := by
  obtain ⟨scopes, hscopes, -, -, hlabel, -⟩ := registered_by_history shadowedLabel 1 rfl
  have hknown : (((after shadowedLabel).memory.answers 1).registeredLabel "u") = some "p" := by decide +kernel
  obtain rfl : [[("p", "v")], [("p", "u")]] = scopes := Option.some_inj.mp hscopes
  exact ⟨_, rfl, hknown, hlabel "p" "u" hknown⟩

/-- **The two directions are not inverse to each other.** A label that an address has need not stand for it, and an
address that a label stands for need not have a label. -/
theorem Resolvers.registered_not_inverse :
    ((after shadowedLabel).answers 1).map (fun a => (a.registeredLabel "u", a.registeredAddress "p")) =
      some (some "p", some "v") ∧
    ((after labelGivenAway).answers 0).map (fun a => (a.registeredAddress "p", a.registeredLabel "u")) =
      some (some "u", none) := by
  decide +kernel

end NodePath
