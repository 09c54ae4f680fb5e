/-
# NodePath.Engine.Cache — the most recently used entries

A **Cache** holds at most `capacity` entries, most recently used first. Looking an entry up moves it to
the front, and putting a new one in drops the last one when there is no room.

* §A  `Cache`, a list of entries.
* §B  `IsLru`: what is relied on of any cache of this kind.
-/

namespace NodePath

/-! ## §A  Lists of entries -/

/-- **Cache** maps texts to values of which only the most recently used are kept. -/
structure Cache (α : Type) where
  capacity : Nat
  entries : List (String × α)

namespace Cache

variable {α : Type}

/-- A cache for `capacity` entries, but for one at least. -/
def empty (capacity : Nat) : Cache α := ⟨max capacity 1, []⟩

/-- The number of entries. -/
def size (c : Cache α) : Nat := c.entries.length

/-- The entries other than that of `key`. -/
def others (c : Cache α) (key : String) : List (String × α) := c.entries.filter (·.1 != key)

/-- The value of `key`, and the cache with that entry in front. -/
def find? (c : Cache α) (key : String) : Option (α × Cache α) :=
  (c.entries.find? (·.1 == key)).map fun e => (e.2, { c with entries := e :: c.others key })

/-- The cache with an entry put in front; what does not fit any more is dropped from the end. -/
def insert (c : Cache α) (key : String) (value : α) : Cache α :=
  { c with entries := ((key, value) :: c.others key).take c.capacity }

/-- The cache without any entry. -/
def clear (c : Cache α) : Cache α := { c with entries := [] }

end Cache

/-! ## §B  What is relied on -/

/-- **IsLru** says of the operations on caches that they do what is documented of those that keep the most recently used
entries. All that a cache knows is told by its entries, most recently used first. -/
structure IsLru {σ α : Type} (capacity : σ → Nat) (entries : σ → List (String × α)) (new : Nat → σ) (len : σ → Nat)
    (get : σ → String → Option (α × σ)) (put : σ → String → α → σ) (clear : σ → σ) : Prop where
  new : ∀ n, entries (new n) = [] ∧ capacity (new n) = max n 1
  len : ∀ c, len c = (entries c).length
  /-- A key without an entry is not found. -/
  get_none : ∀ {c key}, get c key = none ↔ key ∉ (entries c).map (·.1)
  /-- A key that is found has an entry with that value, which becomes the first one. -/
  get_some : ∀ {c c' key a}, get c key = some (a, c') → (key, a) ∈ entries c ∧
    entries c' = (key, a) :: (entries c).filter (·.1 != key) ∧ capacity c' = capacity c
  /-- An entry that is put in is the first one, and replaces the one of its key. What does not fit goes from the end. -/
  put : ∀ c key a, entries (put c key a) = ((key, a) :: (entries c).filter (·.1 != key)).take (capacity c) ∧
    capacity (put c key a) = capacity c
  clear : ∀ c, entries (clear c) = [] ∧ capacity (clear c) = capacity c

/-- **Lists of entries** are such caches. -/
theorem Cache.isLru {α : Type} : IsLru (σ := Cache α) capacity entries empty size find? insert clear where
  new _ := ⟨rfl, rfl⟩
  len _ := rfl
  get_none := by
    simp only [find?, Option.map_eq_none_iff, List.find?_eq_none, List.mem_map, not_exists, not_and, beq_iff_eq,
      implies_true]
  get_some := by
    intro c c' key a h
    obtain ⟨entry, hfind, heq⟩ := Option.map_eq_some_iff.mp h
    cases heq
    obtain rfl : entry.1 = key := by simpa using List.find?_some hfind
    exact ⟨List.mem_of_find?_eq_some hfind, rfl, rfl⟩
  put _ _ _ := ⟨rfl, rfl⟩
  clear _ := ⟨rfl, rfl⟩

end NodePath
