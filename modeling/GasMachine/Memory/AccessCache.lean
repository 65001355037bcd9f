import GasMachine.Memory.PageTable

/-!
# Remembered access checks

Checking a range of pages takes time in proportion to its length.  The answers to the last few
checks are remembered, the most recent one first.  Whoever changes a page table has to forget them:
a cache is sound for a table as long as every answer in it is the one that the table gives.
-/

namespace GasMachine

/-- A check: may `count` pages from `first` on be used in the given way? -/
structure AccessQuery where
  first : Nat
  count : Nat
  kind : AccessKind
  deriving DecidableEq

/-- The answers to the last checks: for each the first page that refuses, if one does. -/
structure AccessCache where
  capacity : Nat
  entries : List (AccessQuery × Option Nat)

namespace AccessCache

/-- The bytes that a host sets aside for each answer. -/
def entrySize : Nat := 20

/-- The largest capacity for which a host can address the room that the answers take: fewer than
`2 ^ 63` bytes. -/
def capacityLimit : Nat := 0x7FFFFFFFFFFFFFFF / entrySize

def empty (capacity : Nat) : AccessCache := ⟨capacity, []⟩

/-- The remembered answer to a check, which then counts as the most recent one. -/
def lookup? (cache : AccessCache) (query : AccessQuery) : Option (Option Nat × AccessCache) :=
  match cache.entries.find? fun entry => entry.1 == query with
  | none => none
  | some entry =>
    some (entry.2,
      { cache with entries := entry :: cache.entries.eraseP fun other => other.1 == query })

/-- The cache with one more answer; a full cache drops its oldest one. -/
def remember (cache : AccessCache) (query : AccessQuery) (answer : Option Nat) : AccessCache :=
  if cache.capacity = 0 then cache
  else if cache.entries.length = cache.capacity then
    { cache with entries := (query, answer) :: cache.entries.dropLast }
  else { cache with entries := (query, answer) :: cache.entries }

def forget (cache : AccessCache) : AccessCache :=
  { cache with entries := [] }

/-- Every remembered answer is the one that the table gives. -/
def Sound (cache : AccessCache) (table : PageTable) : Prop :=
  ∀ entry ∈ cache.entries, entry.2 = table.scan entry.1.kind entry.1.first entry.1.count

theorem sound_empty (capacity : Nat) (table : PageTable) : (empty capacity).Sound table := by
  intro entry hentry
  cases hentry

theorem sound_forget (cache : AccessCache) (table : PageTable) : cache.forget.Sound table := by
  intro entry hentry
  cases hentry

variable {cache : AccessCache} {table : PageTable}

/-- A hit answers as the table does, and only reorders the answers. -/
theorem Sound.lookup? (hsound : cache.Sound table) {query : AccessQuery} {answer : Option Nat}
    {after : AccessCache} (hlookup : cache.lookup? query = some (answer, after)) :
    answer = table.scan query.kind query.first query.count ∧ after.Sound table := by
  rw [AccessCache.lookup?] at hlookup
  cases hfind : cache.entries.find? fun entry => entry.1 == query with
  | none =>
      rw [hfind] at hlookup
      cases hlookup
  | some entry =>
      rw [hfind] at hlookup
      cases hlookup
      have hmem := List.mem_of_find?_eq_some hfind
      have hquery : entry.1 = query := by
        simpa using List.find?_some hfind
      refine ⟨hquery ▸ hsound entry hmem, ?_⟩
      intro other hother
      rcases List.mem_cons.mp hother with rfl | hother
      · exact hsound other hmem
      · exact hsound other (List.mem_of_mem_eraseP hother)

/-- A new answer displaces old ones only. -/
theorem Sound.remember (hsound : cache.Sound table) (query : AccessQuery) :
    (cache.remember query (table.scan query.kind query.first query.count)).Sound table := by
  have hcons : ∀ entries : List (AccessQuery × Option Nat),
      (∀ entry ∈ entries, entry ∈ cache.entries) →
      Sound ⟨cache.capacity,
        (query, table.scan query.kind query.first query.count) :: entries⟩ table := by
    intro entries hold entry hentry
    rcases List.mem_cons.mp hentry with rfl | hentry
    · rfl
    · exact hsound entry (hold entry hentry)
  unfold AccessCache.remember
  split
  · exact hsound
  · split
    · exact hcons _ fun entry hentry => (List.dropLast_sublist _).subset hentry
    · exact hcons _ fun entry hentry => hentry

end AccessCache

end GasMachine
