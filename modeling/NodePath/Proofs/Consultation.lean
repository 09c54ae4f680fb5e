/-
# NodePath.Proofs.Consultation — factories are asked in order at all times

The list that readers are served from is published apart from the registrations, so it could be an old one; and it is
sorted at once from all registrations, where an engine puts each factory into its place as it comes. Whatever was
registered, taken out and read before, both serve the registrations that remain: those added and not taken out since,
by order, and among equal orders by the time when they were added. A factory may remain more than once.

* §A  `Remains` and `Sooner`: what a list of factories must be.
* §B  Sorting registrations at once, and one by one.
* §C  One request.
* §D  All requests.
-/
import Mathlib.Data.List.Induction
import NodePath.Engine.Publication
import NodePath.Pointer.Make
import NodePath.Proofs.Relate

namespace NodePath

variable {α σ : Type}

/-! ## §A  What remains -/

/-- **Remains** says that a factory was added at a time, and was not taken out since. -/
def Remains (requests : List (FactoryRequest α)) (time : Nat) (f : Factory) : Prop :=
  requests[time]? = some (.add f) ∧ ∀ later > time, requests[later]? ≠ some (.remove f.number)

/-- **Sooner** says that a registration is asked before another one. -/
def Sooner (a b : Nat × Factory) : Prop := a.2.order < b.2.order ∨ a.2.order = b.2.order ∧ a.1 < b.1

/-- **ServesFrom** says that requests are served from some registrations, in this order. -/
structure ServesFrom (serve : σ → FactoryRequest α → FactoryAnswer α × σ) (s : σ) (consulted : List (Nat × Factory)) :
    Prop where
  listed : (serve s .list).1 = .listed (consulted.map (·.2))
  removed : ∀ number, (serve s (.remove number)).1 = .removed (consulted.any (·.2.number == number))
  remaining : ∀ number,
    (serve (serve s (.remove number)).2 .list).1 = .listed ((consulted.filter (·.2.number != number)).map (·.2))
  made : ∀ name offer node, (serve s (.make name offer)).1 = .made (.ok node) ↔
    ∃ earlier first later, consulted = earlier ++ first :: later ∧ offer first.2 = some node ∧
      ∀ e ∈ earlier, offer e.2 = none
  refused : ∀ name offer, (serve s (.make name offer)).1 = .made (.error (.unsupported (.noFactory name.written))) ↔
    ∀ e ∈ consulted, offer e.2 = none

theorem Sooner.asymm {a b : Nat × Factory} (h : Sooner a b) : ¬Sooner b a := by
  unfold Sooner at *
  omega

namespace Publication

variable {entries : List (Nat × Factory)} {a b : Nat × Factory}

/-! ## §B  Sorting -/

theorem noLater_iff : noLater a b ↔ a.2.order < b.2.order ∨ a.2.order = b.2.order ∧ a.1 ≤ b.1 := by
  simp [noLater]

/-- Registrations with different numbers are sorted strictly. -/
theorem pairwise_sooner (h : entries.Pairwise fun a b => a.1 < b.1) : (entries.mergeSort noLater).Pairwise Sooner := by
  have htrans : ∀ a b c, noLater a b → noLater b c → noLater a c := by
    simp only [noLater_iff]
    omega
  have htotal : ∀ a b, noLater a b || noLater b a := by
    simp only [Bool.or_eq_true, noLater_iff]
    omega
  have hnumbers : (entries.mergeSort noLater).Pairwise fun a b => a.1 ≠ b.1 :=
    (List.mergeSort_perm ..).symm.pairwise (h.imp Nat.ne_of_lt) Ne.symm
  refine (List.pairwise_mergeSort htrans htotal entries).imp₂ (fun a b hle hne => ?_) hnumbers
  rw [noLater_iff] at hle
  unfold Sooner
  omega

/-- What has the registrations in order is what sorting them gives. -/
theorem eq_mergeSort {placed : List (Nat × Factory)} (h : entries.Pairwise fun a b => a.1 < b.1)
    (hperm : placed.Perm entries) (hplaced : placed.Pairwise Sooner) : placed = entries.mergeSort noLater :=
  List.Perm.eq_of_pairwise (fun _ _ _ _ hb hb' => absurd hb' hb.asymm) hplaced (pairwise_sooner h)
    (hperm.trans (List.mergeSort_perm ..).symm)

/-- What is taken out may be taken out before or after sorting. -/
theorem filter_mergeSort (h : entries.Pairwise fun a b => a.1 < b.1) (keep : Nat × Factory → Bool) :
    (entries.mergeSort noLater).filter keep = (entries.filter keep).mergeSort noLater :=
  eq_mergeSort (h.filter keep) ((List.mergeSort_perm ..).filter keep) ((pairwise_sooner h).filter keep)

/-- A registration that came after all others has its place behind those of its order. -/
theorem exists_place (a : Nat × Factory) (hentries : entries.Pairwise Sooner) (hlast : ∀ e ∈ entries, e.1 < a.1) :
    ∃ placed : List (Nat × Factory), placed.Perm (a :: entries) ∧ placed.Pairwise Sooner ∧
      placed.map (·.2) = Registry.place a.2 (entries.map (·.2)) := by
  induction entries with
  | nil => exact ⟨[a], .refl _, List.pairwise_singleton .., rfl⟩
  | cons e es ih =>
    obtain ⟨he, hes⟩ := List.pairwise_cons.mp hentries
    by_cases horder : a.2.order < e.2.order
    · refine ⟨a :: e :: es, .refl _, List.pairwise_cons.mpr ⟨fun x hx => .inl ?_, hentries⟩, ?_⟩
      · rcases List.mem_cons.mp hx with rfl | hx
        · exact horder
        · have hsooner : Sooner e x := he x hx
          unfold Sooner at hsooner
          omega
      · simp [Registry.place, horder]
    · obtain ⟨placed, hperm, hsorted, hplace⟩ := ih hes fun x hx => hlast x (List.mem_cons_of_mem _ hx)
      refine ⟨e :: placed, (hperm.cons e).trans (.swap a e es), List.pairwise_cons.mpr ⟨fun x hx => ?_, hsorted⟩, ?_⟩
      · rcases List.mem_cons.mp (hperm.mem_iff.mp hx) with rfl | hx
        · have hnumber : e.1 < x.1 := hlast e List.mem_cons_self
          unfold Sooner
          omega
        · exact he x hx
      · simp [Registry.place, horder, hplace]

/-- **Both ways of sorting agree**: to put each factory into its place, in the order in which they came, is to sort
the registrations by order and number. -/
theorem foldl_place (h : entries.Pairwise fun a b => a.1 < b.1) :
    (entries.map (·.2)).foldl (fun fs f => Registry.place f fs) [] = sorted entries := by
  suffices hplaced : ∃ placed : List (Nat × Factory), placed.Perm entries ∧ placed.Pairwise Sooner ∧
      placed.map (·.2) = (entries.map (·.2)).foldl (fun fs f => Registry.place f fs) [] by
    obtain ⟨placed, hperm, hsorted, hplace⟩ := hplaced
    rw [← hplace, eq_mergeSort h hperm hsorted, sorted]
  induction entries using List.reverseRecOn with
  | nil => exact ⟨[], .refl _, .nil, rfl⟩
  | append_singleton es a ih =>
    obtain ⟨hes, -, hlast⟩ := List.pairwise_append.mp h
    obtain ⟨placed, hperm, hsorted, hplace⟩ := ih hes
    obtain ⟨placed', hperm', hsorted', hplace'⟩ :=
      exists_place a hsorted fun e he => hlast e (hperm.mem_iff.mp he) a (List.mem_singleton_self a)
    refine ⟨placed', hperm'.trans ((hperm.cons a).trans (List.perm_append_singleton a es).symm), hsorted', ?_⟩
    rw [hplace', hplace, List.map_append, List.foldl_append]
    rfl

end Publication

/-! ## §C  One request -/

/-- The registrations that remain after a request, when some remained before it. -/
def remainingAfter (time : Nat) (remaining : List (Nat × Factory)) : FactoryRequest α → List (Nat × Factory)
  | .add f => remaining ++ [(time, f)]
  | .remove number => remaining.filter (·.2.number != number)
  | .list | .make .. => remaining

/-- **AllRemaining** says that a list has the registrations that remain, the earliest first. -/
structure AllRemaining (requests : List (FactoryRequest α)) (remaining : List (Nat × Factory)) : Prop where
  mem : ∀ time f, (time, f) ∈ remaining ↔ Remains requests time f
  rising : remaining.Pairwise fun a b => a.1 < b.1

/-- **Keeps** says that a publication has registrations of these factories, and that what is published is not older
than they are. -/
structure Publication.Keeps (p : Publication) (factories : List Factory) : Prop where
  factories : p.entries.map (·.2) = factories
  rising : p.entries.Pairwise fun a b => a.1 < b.1
  below : ∀ e ∈ p.entries, e.1 < p.next
  published : ∀ list, p.published = some list → list = sorted p.entries

section

variable {requests : List (FactoryRequest α)} {request : FactoryRequest α} {remaining : List (Nat × Factory)}
  {time number : Nat} {f : Factory}

theorem Remains.time_lt (h : Remains requests time f) : time < requests.length := (List.getElem?_eq_some_iff.mp h.1).1

theorem getElem?_concat_eq_some {last : FactoryRequest α} :
    (requests ++ [last])[time]? = some request ↔ requests[time]? = some request ∨ time = requests.length ∧ last = request := by
  rcases Nat.lt_trichotomy time requests.length with hlt | rfl | hgt
  · simp [List.getElem?_append_left hlt, Nat.ne_of_lt hlt]
  · simp
  · have hlong : (requests ++ [last]).length ≤ time := by
      rw [List.length_append]
      exact hgt
    simp [List.getElem?_eq_none hlong, List.getElem?_eq_none (Nat.le_of_lt hgt), Nat.ne_of_gt hgt]

/-- What remains after one more request remained before and is not taken out, or is what is added now. -/
theorem remains_concat : Remains (requests ++ [request]) time f ↔
    Remains requests time f ∧ request ≠ .remove f.number ∨ time = requests.length ∧ request = .add f := by
  simp only [Remains, getElem?_concat_eq_some, ne_eq, not_or, not_and]
  constructor
  · rintro ⟨hadd | hnow, hlater⟩
    · have hlt : time < requests.length := (List.getElem?_eq_some_iff.mp hadd).1
      exact .inl ⟨⟨hadd, fun later hgt => (hlater later hgt).1⟩, (hlater _ hlt).2 rfl⟩
    · exact .inr hnow
  · rintro (⟨⟨hadd, hlater⟩, hne⟩ | ⟨rfl, rfl⟩)
    · exact ⟨.inl hadd, fun later hgt => ⟨hlater later hgt, fun _ => hne⟩⟩
    · refine ⟨.inr ⟨rfl, rfl⟩, fun later hgt => ⟨?_, fun heq => absurd heq (Nat.ne_of_gt hgt)⟩⟩
      simp [List.getElem?_eq_none (Nat.le_of_lt hgt)]

namespace AllRemaining

theorem nil : AllRemaining ([] : List (FactoryRequest α)) [] := ⟨by simp [Remains], .nil⟩

theorem concat (h : AllRemaining requests remaining) (request : FactoryRequest α) :
    AllRemaining (requests ++ [request]) (remainingAfter requests.length remaining request) := by
  cases request with
  | add f =>
    refine ⟨fun time g => ?_, List.pairwise_append.mpr ⟨h.rising, List.pairwise_singleton .., fun e he e' he' => ?_⟩⟩
    · simp [remainingAfter, remains_concat, h.mem, eq_comm]
    · rw [List.mem_singleton.mp he']
      exact ((h.mem e.1 e.2).mp he).time_lt
  | remove number =>
    refine ⟨fun time g => ?_, h.rising.filter _⟩
    have hne : FactoryRequest.remove (α := α) number ≠ .remove g.number ↔ g.number ≠ number := by
      rw [ne_eq, FactoryRequest.remove.injEq, ne_comm]
    simp [remainingAfter, remains_concat, h.mem, hne]
  | list => exact ⟨fun time g => by simp [remainingAfter, remains_concat, h.mem], h.rising⟩
  | make name offer => exact ⟨fun time g => by simp [remainingAfter, remains_concat, h.mem], h.rising⟩

end AllRemaining

/-- Some are left out of a list if it gets shorter by leaving them out. -/
theorem length_remaining (fs : List Factory) (number : Nat) :
    ((fs.filter (·.number != number)).length != fs.length) = fs.any (·.number == number) := by
  rw [Bool.eq_iff_iff]
  simp [bne_iff_ne, List.length_filter_eq_length_iff]

namespace Publication.Keeps

variable {p : Publication} {factories : List Factory}

theorem empty : Publication.empty.Keeps [] := ⟨rfl, .nil, by simp [Publication.empty], by simp [Publication.empty]⟩

theorem snapshot_fst (h : p.Keeps factories) : p.snapshot.1 = sorted p.entries := by
  unfold snapshot
  cases hp : p.published with
  | some list => exact h.published list hp
  | none => rfl

theorem snapshot_snd (h : p.Keeps factories) : p.snapshot.2.Keeps factories := by
  unfold snapshot
  cases hp : p.published with
  | some list => exact h
  | none => exact ⟨h.factories, h.rising, h.below, fun list heq => (Option.some.inj heq).symm⟩

theorem remove_snd (h : p.Keeps factories) (number : Nat) :
    (p.remove number).2 = factories.any (·.number == number) := by
  rw [← length_remaining, ← h.factories, List.filter_map, List.length_map, List.length_map]
  rfl

/-- **One request** leaves the registrations of the factories that remain. Only if nothing is taken out is what was
published still served. -/
theorem serve (h : p.Keeps (remaining.map (·.2))) (time : Nat) (request : FactoryRequest α) :
    (p.serve request).2.Keeps ((remainingAfter time remaining request).map (·.2)) := by
  cases request with
  | add f =>
    refine ⟨?_, List.pairwise_append.mpr ⟨h.rising, List.pairwise_singleton .., fun e he e' he' => ?_⟩, ?_, nofun⟩
    · show (p.entries ++ [(p.next, f)]).map (·.2) = (remaining ++ [(time, f)]).map (·.2)
      simp [h.factories]
    · rw [List.mem_singleton.mp he']
      exact h.below e he
    · intro e he
      rcases List.mem_append.mp he with he | he
      · exact Nat.lt_succ_of_lt (h.below e he)
      · rw [List.mem_singleton.mp he]
        exact Nat.lt_succ_self p.next
  | remove number =>
    refine ⟨?_, h.rising.filter _, fun e he => h.below e (List.mem_filter.mp he).1, fun list hlist => ?_⟩
    · show (p.entries.filter (·.2.number != number)).map (·.2) = (remaining.filter (·.2.number != number)).map (·.2)
      have hfilter : ∀ es : List (Nat × Factory),
          (es.filter (·.2.number != number)).map (·.2) = (es.map (·.2)).filter (·.number != number) := by
        simp [List.filter_map, Function.comp_def]
      rw [hfilter, hfilter, h.factories]
    · -- What is published is withdrawn as soon as a factory is taken out.
      obtain ⟨hnone, hlist⟩ : p.entries.filter (·.2.number != number) = p.entries ∧ p.published = some list := by
        have hpublished : (if ((p.entries.filter (·.2.number != number)).length != p.entries.length) = true then none
            else p.published) = some list := hlist
        split at hpublished
        · cases hpublished
        · rename_i hlength
          refine ⟨List.filter_eq_self.mpr ?_, hpublished⟩
          simpa [List.length_filter_eq_length_iff] using hlength
      exact (h.published list hlist).trans (congrArg sorted hnone.symm)
  | list => exact h.snapshot_snd
  | make name offer => exact h.snapshot_snd

end Publication.Keeps

/-- An engine has the factories that remain after a request, in the order in which they were added. -/
theorem Engine.factories_serveFactory {e : Engine} (h : e.registry.factories = remaining.map (·.2)) (time : Nat)
    (request : FactoryRequest α) :
    (e.serveFactory request).2.registry.factories = (remainingAfter time remaining request).map (·.2) := by
  cases request with
  | add f =>
    show e.registry.factories ++ [f] = (remaining ++ [(time, f)]).map (·.2)
    simp [h]
  | remove number =>
    show e.registry.factories.filter (·.number != number) = (remaining.filter (·.2.number != number)).map (·.2)
    rw [h, List.filter_map]
    rfl
  | list => exact h
  | make name offer => exact h

/-! ## §D  All requests -/

/-- **After any requests** both have the factories that remain. -/
theorem exists_allRemaining (config : EngineConfig) (requests : List (FactoryRequest α)) :
    ∃ remaining, AllRemaining (Engine.builtins config ++ requests) remaining ∧
      (Publication.after (Engine.builtins config ++ requests)).Keeps (remaining.map (·.2)) ∧
      (Engine.afterRequests config requests).registry.factories = remaining.map (·.2) := by
  -- By the last request: what remains before it decides what remains after it.
  induction requests using List.reverseRecOn with
  | nil =>
    rw [List.append_nil]
    by_cases hbuiltin : config.builtinFactories
    · refine ⟨[(0, ⟨0, documentOrder, .documents⟩)], ?_, ?_, ?_⟩
      · rw [Engine.builtins, if_pos hbuiltin]
        exact AllRemaining.nil.concat (.add ⟨0, documentOrder, .documents⟩)
      · rw [Engine.builtins, if_pos hbuiltin]
        have hempty : Publication.empty.Keeps (([] : List (Nat × Factory)).map (·.2)) := .empty
        exact hempty.serve 0 (.add ⟨0, documentOrder, .documents⟩)
      · simp [Engine.afterRequests, Engine.new, hbuiltin, Registry.add, Registry.empty]
    · refine ⟨[], ?_, ?_, ?_⟩
      · rw [Engine.builtins, if_neg hbuiltin]
        exact .nil
      · rw [Engine.builtins, if_neg hbuiltin]
        exact .empty
      · simp [Engine.afterRequests, Engine.new, hbuiltin, Registry.empty]
  | append_singleton requests request ih =>
    obtain ⟨remaining, hall, hkeeps, hengine⟩ := ih
    rw [← List.append_assoc]
    refine ⟨remainingAfter _ remaining request, hall.concat request, ?_, ?_⟩
    · rw [Publication.after, List.foldl_append]
      exact hkeeps.serve _ request
    · rw [Engine.afterRequests, List.foldl_append]
      exact Engine.factories_serveFactory hengine _ request

end

theorem FactoryAnswer.firstOffer_eq_ok {name : QName} {offer : Factory → Option α} {factories : List Factory} {a : α} :
    firstOffer name offer factories = .made (.ok a) ↔ factories.findSome? offer = some a := by
  unfold firstOffer
  cases factories.findSome? offer with
  | some b => simp
  | none => simp

theorem FactoryAnswer.firstOffer_eq_error {name : QName} {offer : Factory → Option α} {factories : List Factory} :
    firstOffer name offer factories = .made (.error (.unsupported (.noFactory name.written))) ↔
      factories.findSome? offer = none := by
  unfold firstOffer
  cases factories.findSome? offer with
  | some b => simp
  | none => simp

section

variable {serve : σ → FactoryRequest α → FactoryAnswer α × σ} {s : σ} {remaining : List (Nat × Factory)}

/-- What serves from the list of the factories that remain, whatever is taken out of it, serves from their
registrations in order. -/
theorem ServesFrom.of_sorted (hrising : remaining.Pairwise fun a b => a.1 < b.1)
    (hlisted : (serve s .list).1 = .listed (Publication.sorted remaining))
    (hremoved : ∀ number, (serve s (.remove number)).1 = .removed ((remaining.map (·.2)).any (·.number == number)))
    (hremaining : ∀ number, (serve (serve s (.remove number)).2 .list).1 =
      .listed (Publication.sorted (remaining.filter (·.2.number != number))))
    (hmake : ∀ name offer, (serve s (.make name offer)).1 = .firstOffer name offer (Publication.sorted remaining)) :
    ServesFrom serve s (remaining.mergeSort Publication.noLater) where
  listed := hlisted
  removed number := by
    rw [hremoved, List.any_map]
    exact congrArg _ ((List.mergeSort_perm remaining Publication.noLater).symm.any_eq)
  remaining number := by
    rw [hremaining, Publication.filter_mergeSort hrising]
    rfl
  made name offer node := by
    rw [hmake, FactoryAnswer.firstOffer_eq_ok, Publication.sorted, List.findSome?_map, List.findSome?_eq_some_iff]
    rfl
  refused name offer := by
    rw [hmake, FactoryAnswer.firstOffer_eq_error, Publication.sorted, List.findSome?_map, List.findSome?_eq_none_iff]
    rfl

end

/-- What is published serves from the registrations that remain. -/
theorem Publication.Keeps.servesFrom {p : Publication} {remaining : List (Nat × Factory)}
    (h : p.Keeps (remaining.map (·.2))) (hrising : remaining.Pairwise fun a b => a.1 < b.1) :
    ServesFrom (α := α) Publication.serve p (remaining.mergeSort noLater) := by
  have hsnapshot : ∀ {p : Publication} {remaining : List (Nat × Factory)}, p.Keeps (remaining.map (·.2)) →
      remaining.Pairwise (fun a b => a.1 < b.1) → p.snapshot.1 = sorted remaining := fun h hrising => by
    rw [h.snapshot_fst, ← foldl_place h.rising, h.factories, foldl_place hrising]
  refine .of_sorted hrising (congrArg FactoryAnswer.listed (hsnapshot h hrising))
    (fun number => congrArg FactoryAnswer.removed (h.remove_snd number)) (fun number => ?_)
    (fun name offer => congrArg (FactoryAnswer.firstOffer name offer) (hsnapshot h hrising))
  exact congrArg FactoryAnswer.listed
    (hsnapshot (h.serve (α := α) 0 (.remove number)) (hrising.filter (·.2.number != number)))

/-- An engine serves from the registrations that remain. -/
theorem Engine.servesFrom {e : Engine} {remaining : List (Nat × Factory)}
    (h : e.registry.factories = remaining.map (·.2)) (hrising : remaining.Pairwise fun a b => a.1 < b.1) :
    ServesFrom (α := α) Engine.serveFactory e (remaining.mergeSort Publication.noLater) := by
  have hordered : ∀ {e : Engine} {remaining : List (Nat × Factory)}, e.registry.factories = remaining.map (·.2) →
      remaining.Pairwise (fun a b => a.1 < b.1) → e.registry.ordered = Publication.sorted remaining := fun h hrising => by
    rw [Registry.ordered, h, Publication.foldl_place hrising]
  refine .of_sorted hrising (congrArg FactoryAnswer.listed (hordered h hrising)) (fun number => ?_) (fun number => ?_)
    (fun name offer => congrArg (FactoryAnswer.firstOffer name offer) (hordered h hrising))
  · exact congrArg FactoryAnswer.removed ((length_remaining _ number).trans (by rw [h]))
  · exact congrArg FactoryAnswer.listed
      (hordered (Engine.factories_serveFactory (α := α) h 0 (.remove number)) (hrising.filter (·.2.number != number)))

/-- **Factories are asked in order at all times.** Whatever an engine was asked before, the factories are asked in
one order: those that were added and not taken out since, by order, and among equal orders by the time when they were
added. From these the list is answered, a factory is taken out with all its registrations, and a node is made by the
first that accepts the object; it is the same whether readers are served from a published list or from the registry,
and this is how an evaluation makes its nodes. -/
theorem Engine.factories_consulted (config : EngineConfig) (requests : List (FactoryRequest α)) :
    ∃ consulted : List (Nat × Factory),
      (∀ time f, (time, f) ∈ consulted ↔ Remains (builtins config ++ requests) time f) ∧
      consulted.Pairwise Sooner ∧
      ServesFrom (α := α) Publication.serve (.after (builtins config ++ requests)) consulted ∧
      ServesFrom (α := α) Engine.serveFactory (.afterRequests config requests) consulted ∧
      ∀ (st : Store) (name : QName) (bean : Bean),
        (Pointer.make name bean).runOn { st with engine := .afterRequests config requests } =
          match consulted.find? (·.2.maker.accepts bean) with
          | some first => (Pointer.makeBy first.2 name bean).runOn { st with engine := .afterRequests config requests }
          | none => (.error (.unsupported (.noFactory name.written)),
              { st with engine := .afterRequests config requests }) := by
  obtain ⟨remaining, hall, hkeeps, hengine⟩ := exists_allRemaining config requests
  refine ⟨remaining.mergeSort Publication.noLater, fun time f => ?_, Publication.pairwise_sooner hall.rising,
    hkeeps.servesFrom hall.rising, Engine.servesFrom hengine hall.rising, fun st name bean => ?_⟩
  · rw [List.mem_mergeSort, hall.mem]
  · have hchoose : (Engine.afterRequests config requests).registry.choose? bean =
        ((remaining.mergeSort Publication.noLater).find? (·.2.maker.accepts bean)).map (·.2) := by
      rw [Registry.choose?, Registry.ordered, hengine, Publication.foldl_place hall.rising, Publication.sorted,
        List.find?_map]
      rfl
    rw [Pointer.make, Eval.runOn_bind, Eval.runOn_get]
    dsimp only
    rw [hchoose]
    cases (remaining.mergeSort Publication.noLater).find? (·.2.maker.accepts bean) with
    | some first => rfl
    | none => rfl

end NodePath
