/-
# NodePath.Proofs.Recency — the compiled expressions that an engine keeps

An engine keeps the trees of the texts it compiled last. What was asked of it is a **history**, the newest
request first, and everything that the cache holds can be read off the history: the texts in it are the most
recent of those compiled since the cache was cleared, and with each of them goes the object that its last
compilation gave. Of the cache itself nothing is used but `IsLru`.

* §A  Lists without repetitions, and the first of them.
* §B  Histories, and what they say about texts.
* §C  What an engine remembers, request by request.
* §D  Compiling against a history.
-/
import Mathlib.Data.List.Induction
import Mathlib.Data.List.Nodup
import NodePath.Proofs.AlikeReading

namespace NodePath

/-! ## §A  Lists without repetitions -/

section Distinct

variable {α : Type} [BEq α] [LawfulBEq α]

/-- Taking elements out commutes with taking repetitions out. -/
theorem eraseDups_filter (p : α → Bool) (as : List α) : (as.filter p).eraseDups = as.eraseDups.filter p := by
  -- the tail loses what repeats its head before it is looked at, so the induction is on the length
  induction hn : as.length using Nat.strong_induction_on generalizing as with
  | _ n ih =>
    cases as with
    | nil => rfl
    | cons a as =>
      have hshort : (as.filter fun b => !b == a).length < n := by
        have := List.length_filter_le (fun b => !b == a) as
        simp only [List.length_cons] at hn
        omega
      rw [List.eraseDups_cons, List.filter_cons, List.filter_cons, ← ih _ hshort _ rfl, List.filter_filter]
      split
      · rw [List.eraseDups_cons, List.filter_filter]
        simp only [Bool.and_comm]
      · rename_i hp
        congr 1
        apply List.filter_congr
        intro b _
        by_cases hb : b = a
        · subst hb
          simpa using hp
        · simp [hb]

theorem nodup_eraseDups (as : List α) : as.eraseDups.Nodup := by
  induction hn : as.length using Nat.strong_induction_on generalizing as with
  | _ n ih =>
    cases as with
    | nil => exact List.nodup_nil
    | cons a as =>
      rw [List.eraseDups_cons, List.nodup_cons, eraseDups_filter]
      refine ⟨by simp, List.Nodup.filter _ (ih as.length ?_ as rfl)⟩
      simp only [List.length_cons] at hn
      omega

/-- Of the first elements one may be another one's place: `k` others are left when it is not counted. -/
theorem take_others {as : List α} (h : as.Nodup) (a : α) (k : Nat) :
    ((as.take (k + 1)).filter (· != a)).take k = (as.filter (· != a)).take k := by
  induction as generalizing k with
  | nil => rfl
  | cons b as ih =>
    have ⟨hb, has⟩ := List.nodup_cons.mp h
    by_cases hba : b = a
    · subst hba
      -- `b` does not come again, so nothing else is taken out
      have hall : ∀ c ∈ as, (c != b) = true := fun c hc => by
        simpa using fun hcb : c = b => hb (hcb ▸ hc)
      have htake : ∀ c ∈ as.take k, (c != b) = true := fun c hc => hall c (List.mem_of_mem_take hc)
      simp only [List.take_succ_cons, List.filter_cons, bne_self_eq_false, Bool.false_eq_true, if_false]
      rw [List.filter_eq_self.mpr hall, List.filter_eq_self.mpr htake, List.take_take, Nat.min_self]
    · cases k with
      | zero => simp
      | succ k => simp [hba, ih has]

/-- Without one of them, the first elements are fewer. -/
theorem length_others {as : List α} {a : α} {k : Nat} (h : a ∈ as.take (k + 1)) :
    ((as.take (k + 1)).filter (· != a)).length ≤ k := by
  have hlt : ((as.take (k + 1)).filter (· != a)).length < (as.take (k + 1)).length :=
    List.length_filter_lt_length_iff_exists.mpr ⟨a, h, by simp⟩
  have := List.length_take_le (k + 1) as
  omega

end Distinct

/-! ## §B  Histories -/

/-- **Request** is what may be asked of the cache of an engine. -/
inductive Engine.Request where
  | compile (text : String)
  | clear
deriving Repr, DecidableEq

namespace Engine

/-- The engine after a request. -/
def serve (e : Engine) : Request → Engine
  | .compile text => (e.compile text).2
  | .clear => e.clearCache

/-- The engine after a history, whose newest request stands first. -/
def after (config : EngineConfig) : List Request → Engine
  | [] => new config
  | request :: past => (after config past).serve request

/-- Requests served in their order are the history that has them backwards. -/
theorem after_reverse (config : EngineConfig) (requests : List Request) :
    after config requests.reverse = requests.foldl serve (new config) := by
  induction requests using List.reverseRecOn with
  | nil => rfl
  | append_singleton requests request ih => simp [after, ih]

/-- The objects that the successful compilations of a history gave, the newest first. -/
def objects (config : EngineConfig) : List Request → List (String × Compiled)
  | [] => []
  | .clear :: past => objects config past
  | .compile text :: past =>
    match ((after config past).compile text).1 with
    | .ok c => (text, c) :: objects config past
    | .error _ => objects config past

/-- **previous** is the object that the last successful compilation of a text gave. -/
def previous (config : EngineConfig) (past : List Request) (text : String) : Option Compiled :=
  (objects config past).lookup text

/-- The text of a request that compiles, if it is an expression. -/
def Request.expression? : Request → Option String
  | .compile text => if (Expr.parse text).isOk then some text else none
  | .clear => none

/-- The texts that were compiled successfully since the cache was cleared last, the newest first. -/
def sinceClear (past : List Request) : List String :=
  (past.takeWhile (· ≠ .clear)).filterMap Request.expression?

/-- **recent** has each of these texts once, where it was compiled last. -/
def recent (past : List Request) : List String := (sinceClear past).eraseDups

theorem nodup_recent (past : List Request) : (recent past).Nodup := nodup_eraseDups _

theorem recent_clear (past : List Request) : recent (.clear :: past) = [] := by
  simp [recent, sinceClear]

theorem recent_error {text : String} {err : ParseError} (past : List Request)
    (h : Expr.parse text = .error err) : recent (.compile text :: past) = recent past := by
  simp [recent, sinceClear, Request.expression?, h, Except.isOk, Except.toBool]

/-- A text just compiled is the most recent one, and the others keep their order. -/
theorem recent_ok {text : String} {expr : Expr} (past : List Request) (h : Expr.parse text = .ok expr) :
    recent (.compile text :: past) = text :: (recent past).filter (· != text) := by
  have hsince : sinceClear (.compile text :: past) = text :: sinceClear past := by
    simp [sinceClear, Request.expression?, h, Except.isOk, Except.toBool]
  rw [recent, recent, hsince, List.eraseDups_cons, eraseDups_filter]
  rfl

/-! ## §C  What an engine remembers -/

/-- **Remembers** says what the cache of an engine holds after a history: the first of the recent texts, each
with its last object. The numbers of the objects made so far are below the next one to be given. -/
structure Remembers (config : EngineConfig) (past : List Request) : Prop where
  capacity : (after config past).cache.capacity = max config.cacheCapacity 1
  texts : (after config past).cache.entries.map (·.1) = (recent past).take (max config.cacheCapacity 1)
  objects : ∀ entry ∈ (after config past).cache.entries, previous config past entry.1 = some entry.2
  numbers : ∀ made ∈ Engine.objects config past, made.2.number < (after config past).nextNumber
  sound : (after config past).Sound

end Engine

/-- The keys of the other entries are the other keys. -/
theorem keys_filter {α : Type} (entries : List (String × α)) (key : String) :
    (entries.filter (·.1 != key)).map (·.1) = (entries.map (·.1)).filter (· != key) := by
  rw [List.filter_map]
  rfl

namespace Engine

variable {config : EngineConfig} {past : List Request}

/-- What compiling does, by what the cache and the parser say of the text. -/
theorem compile_cases (e : Engine) (text : String) :
    (∃ c, ∃ cache, e.cache.find? text = some (c, cache) ∧ e.compile text = (.ok c, { e with cache })) ∨
    (∃ err, e.cache.find? text = none ∧ Expr.parse text = .error err ∧ e.compile text = (.error err, e)) ∨
    (∃ expr, e.cache.find? text = none ∧ Expr.parse text = .ok expr ∧
      e.compile text = (.ok ⟨e.nextNumber, expr⟩,
        { e with cache := e.cache.insert text ⟨e.nextNumber, expr⟩, nextNumber := e.nextNumber + 1 })) := by
  unfold Engine.compile
  cases hfind : e.cache.find? text with
  | some found => exact .inl ⟨found.1, found.2, rfl, rfl⟩
  | none =>
    cases hparse : Expr.parse text with
    | error err => exact .inr (.inl ⟨err, rfl, rfl, rfl⟩)
    | ok expr => exact .inr (.inr ⟨expr, rfl, rfl, rfl⟩)

theorem objects_error {text : String} {err : ParseError} (h : ((after config past).compile text).1 = .error err) :
    objects config (.compile text :: past) = objects config past := by
  simp only [objects, h]

theorem objects_ok {text : String} {c : Compiled} (h : ((after config past).compile text).1 = .ok c) :
    objects config (.compile text :: past) = (text, c) :: objects config past := by
  simp only [objects, h]

/-- The object of a text just compiled is the last one; those of other texts stay. -/
theorem previous_ok {text : String} {c : Compiled} (h : ((after config past).compile text).1 = .ok c)
    (other : String) : previous config (.compile text :: past) other =
      if other = text then some c else previous config past other := by
  rw [previous, objects_ok h, List.lookup_cons]
  by_cases hother : other = text
  · simp [hother]
  · have : (other == text) = false := beq_false_of_ne hother
    simp [this, hother, previous]

/-- The last object of a text is one of the objects. -/
theorem mem_objects {text : String} {c : Compiled} (h : previous config past text = some c) :
    (text, c) ∈ objects config past := by
  obtain ⟨newer, older, heq, -⟩ := List.lookup_eq_some_iff.mp h
  rw [heq]
  exact List.mem_append_right newer List.mem_cons_self

namespace Remembers

/-- A new engine remembers nothing. -/
theorem new (config : EngineConfig) : Remembers config [] where
  capacity := (Cache.isLru.new _).2
  texts := by
    show (Cache.empty config.cacheCapacity).entries.map (·.1) = _
    rw [(Cache.isLru.new _).1]
    simp [recent, sinceClear]
  objects entry h := by
    replace h : entry ∈ (Cache.empty config.cacheCapacity).entries := h
    rw [(Cache.isLru.new _).1] at h
    cases h
  numbers _ h := nomatch h
  sound entry h := by
    replace h : entry ∈ (Cache.empty config.cacheCapacity).entries := h
    rw [(Cache.isLru.new _).1] at h
    cases h

theorem clear (h : Remembers config past) : Remembers config (.clear :: past) := by
  obtain ⟨hentries, hcapacity⟩ := Cache.isLru.clear (after config past).cache
  replace hentries : (after config (.clear :: past)).cache.entries = [] := hentries
  constructor
  case capacity => exact hcapacity.trans h.capacity
  case texts => rw [hentries, recent_clear, List.take_nil, List.map_nil]
  case objects =>
    intro entry hentry
    rw [hentries] at hentry
    cases hentry
  case numbers => exact h.numbers
  case sound =>
    intro entry hentry
    rw [hentries] at hentry
    cases hentry

/-- An object in front of the others: what is remembered when a text has been compiled, whether its tree was
found or made. -/
theorem inFront (h : Remembers config past) {text : String} {c : Compiled}
    (hc : ((after config past).compile text).1 = .ok c)
    (hentries : ((after config past).compile text).2.cache.entries =
      ((text, c) :: (after config past).cache.entries.filter (·.1 != text)).take (max config.cacheCapacity 1))
    (hcapacity : ((after config past).compile text).2.cache.capacity = (after config past).cache.capacity)
    (hnumber : c.number < ((after config past).compile text).2.nextNumber)
    (hnext : (after config past).nextNumber ≤ ((after config past).compile text).2.nextNumber) :
    Remembers config (.compile text :: past) where
  capacity := hcapacity.trans h.capacity
  texts := by
    show ((after config past).compile text).2.cache.entries.map (·.1) = _
    have hparse : Expr.parse text = .ok c.expr := by
      have := (h.sound.compile text).1
      rw [hc] at this
      exact this.symm
    obtain ⟨k, hk⟩ : ∃ k, max config.cacheCapacity 1 = k + 1 := ⟨max config.cacheCapacity 1 - 1, by omega⟩
    rw [hentries, List.map_take, List.map_cons, keys_filter, h.texts, recent_ok past hparse, hk,
      List.take_succ_cons, List.take_succ_cons, take_others (nodup_recent past)]
  objects entry hentry := by
    rw [previous_ok hc]
    replace hentry : entry ∈ ((after config past).compile text).2.cache.entries := hentry
    rw [hentries] at hentry
    -- An entry of another text was last compiled when it was before.
    rcases List.mem_cons.mp (List.mem_of_mem_take hentry) with rfl | hother
    · exact if_pos rfl
    · have hne : entry.1 ≠ text := by simpa using (List.mem_filter.mp hother).2
      rw [if_neg hne]
      exact h.objects entry (List.mem_of_mem_filter hother)
  numbers made hmade := by
    rw [objects_ok hc] at hmade
    rcases List.mem_cons.mp hmade with rfl | hmade
    · exact hnumber
    · exact Nat.lt_of_lt_of_le (h.numbers made hmade) hnext
  sound := (h.sound.compile text).2.1

/-- **One compilation** keeps what an engine remembers in step with the history. -/
theorem compile (h : Remembers config past) (text : String) : Remembers config (.compile text :: past) := by
  rcases compile_cases (after config past) text with
    ⟨c, cache, hfind, heq⟩ | ⟨err, -, hparse, heq⟩ | ⟨expr, -, -, heq⟩
  · -- the text is there: its entry moves to the front, and the others fit behind it
    obtain ⟨hmem, hentries, hcapacity⟩ := Cache.isLru.get_some hfind
    have hkey : text ∈ (after config past).cache.entries.map (·.1) := List.mem_map_of_mem hmem
    have hfits : ((after config past).cache.entries.filter (·.1 != text)).length < max config.cacheCapacity 1 := by
      obtain ⟨k, hk⟩ : ∃ k, max config.cacheCapacity 1 = k + 1 := ⟨max config.cacheCapacity 1 - 1, by omega⟩
      rw [h.texts, hk] at hkey
      have hlength := length_others hkey
      rw [← hk, ← h.texts, ← keys_filter, List.length_map] at hlength
      omega
    apply h.inFront (c := c)
    · rw [heq]
    · rw [heq]
      exact hentries.trans (List.take_of_length_le hfits).symm
    · rw [heq]
      exact hcapacity
    · rw [heq]
      exact h.numbers _ (mem_objects (h.objects _ hmem))
    · rw [heq]
  · -- the text is no expression: neither the engine nor the history of its texts changes
    have hafter : after config (.compile text :: past) = after config past := congrArg Prod.snd heq
    have hobjects := objects_error (congrArg Prod.fst heq)
    constructor
    · rw [hafter, h.capacity]
    · rw [hafter, recent_error past hparse, h.texts]
    · rw [hafter]
      intro entry hentry
      rw [previous, hobjects]
      exact h.objects entry hentry
    · rw [hafter, hobjects]
      exact h.numbers
    · rw [hafter]
      exact h.sound
  · -- a tree is made, with a number of its own
    apply h.inFront (c := ⟨(after config past).nextNumber, expr⟩)
    · rw [heq]
    · rw [heq, ← h.capacity]
      exact (Cache.isLru.put _ _ _).1
    · rw [heq]
      exact (Cache.isLru.put _ _ _).2
    · rw [heq]
      exact Nat.lt_succ_self _
    · rw [heq]
      exact Nat.le_succ _

end Remembers

/-- **What an engine remembers** after any history. -/
theorem remembers (config : EngineConfig) (past : List Request) : Remembers config past := by
  induction past with
  | nil => exact .new config
  | cons request past ih =>
    cases request with
    | compile text => exact ih.compile text
    | clear => exact ih.clear

/-! ## §D  Compiling against a history -/

/-- A text is found exactly if it is one of the first recent texts. -/
theorem Remembers.isSome_find? (h : Remembers config past) (text : String) :
    ((after config past).cache.find? text).isSome = true ↔
      text ∈ (recent past).take (max config.cacheCapacity 1) := by
  rw [← h.texts, Option.isSome_iff_ne_none, ne_eq, Cache.isLru.get_none, not_not]

/-- **The cache of compiled expressions is transparent, and it keeps exactly the most recently used.** After
every history of requests, each compilation gives what the parser gives; the object it gives is that of the
last successful compilation of the text if the text is among the first `max capacity 1` recent ones, and
otherwise an object that no compilation gave before; what is no expression leaves the engine as it was; and as
many expressions are kept as there are recent texts, but `max capacity 1` at most. -/
theorem compile_after (config : EngineConfig) (past : List Request) (text : String) :
    ((after config past).compile text).1.map (·.expr) = Expr.parse text ∧
    (∀ c, ((after config past).compile text).1 = .ok c →
      ((previous config past text).map (·.number) = some c.number ↔
        text ∈ (recent past).take (max config.cacheCapacity 1)) ∧
      (text ∈ (recent past).take (max config.cacheCapacity 1) → previous config past text = some c) ∧
      (text ∉ (recent past).take (max config.cacheCapacity 1) →
        ∀ made ∈ objects config past, made.2.number ≠ c.number)) ∧
    (∀ err, ((after config past).compile text).1 = .error err →
      ((after config past).compile text).2 = after config past) ∧
    (after config past).cached = min (max config.cacheCapacity 1) (recent past).length := by
  have h := remembers config past
  refine ⟨(h.sound.compile text).1, fun c hc => ?_, fun err herr => ?_, ?_⟩
  · have hfound := h.isSome_find? text
    rcases compile_cases (after config past) text with
      ⟨found, cache, hfind, heq⟩ | ⟨err, hfind, hparse, heq⟩ | ⟨expr, hfind, hparse, heq⟩
    · -- a hit gives the last object
      obtain rfl : found = c := by simpa [heq] using hc
      have hin := hfound.mp (by rw [hfind]; rfl)
      have hlast : previous config past text = some found := h.objects _ (Cache.isLru.get_some hfind).1
      exact ⟨⟨fun _ => hin, fun _ => by rw [hlast]; rfl⟩, fun _ => hlast, fun hout => absurd hin hout⟩
    · simp [heq] at hc
    · -- a miss gives an object whose number is above those of all others
      obtain rfl : ⟨(after config past).nextNumber, expr⟩ = c := by simpa [heq] using hc
      have hout : text ∉ (recent past).take (max config.cacheCapacity 1) := fun hin => by
        simpa [hfind] using hfound.mpr hin
      have hnew : ∀ made ∈ objects config past, made.2.number ≠ (after config past).nextNumber :=
        fun made hmade => Nat.ne_of_lt (h.numbers made hmade)
      refine ⟨⟨fun heqn => ?_, fun hin => absurd hin hout⟩, fun hin => absurd hin hout, fun _ => hnew⟩
      obtain ⟨d, hd, hnumber⟩ := Option.map_eq_some_iff.mp heqn
      exact absurd hnumber (hnew _ (mem_objects hd))
  · rcases compile_cases (after config past) text with
      ⟨found, cache, -, heq⟩ | ⟨err', -, -, heq⟩ | ⟨expr, -, -, heq⟩
    · simp [heq] at herr
    · rw [heq]
    · simp [heq] at herr
  · rw [cached, Cache.isLru.len, ← List.length_map (f := (·.1)), h.texts, List.length_take]

end Engine

end NodePath
