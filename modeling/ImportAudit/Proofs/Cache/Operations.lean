import ImportAudit.Cache.Result
import Mathlib.Data.List.Nodup

/-!
# Operations on a result cache

A result cache under any run of its four operations. One step never makes two entries of one key
or more entries than there is room for; every look-up is counted once, as a hit or as a miss; and
every entry that was ever made is still held or counted as given up.
-/

namespace ImportAudit.Cache.Result

inductive Operation
  | put (fingerprint path : String) (size modified : Int) (result : Extraction)
  | get (fingerprint path : String) (size modified : Int)
  | invalidate (path : String)
  | purge
  deriving DecidableEq

namespace Operation

@[simp]
def apply (cache : Result) : Operation → Result
  | put fingerprint path size modified result =>
    cache.put fingerprint path size modified result
  | get fingerprint path size modified => (cache.get fingerprint path size modified).2
  | invalidate path => (cache.invalidate path).2
  | purge => cache.purge

@[simp]
def isGet : Operation → Bool
  | get _ _ _ _ => true
  | _ => false

/-- Whether an operation makes an entry of a key that the cache does not hold. -/
@[simp]
def creates (cache : Result) : Operation → Bool
  | put fingerprint path _ _ _ => (cache.find? (key fingerprint path)).isNone
  | _ => false

end Operation

def after (fresh : Result) : List Operation → Result
  | [] => fresh
  | operation :: earlier => operation.apply (after fresh earlier)

def creations (fresh : Result) : List Operation → Nat
  | [] => 0
  | operation :: earlier =>
    creations fresh earlier + if operation.creates (after fresh earlier) then 1 else 0

/-! ## Entries of a key -/

/-- No two entries have the same key, and there is room for all of them. -/
structure Orderly (cache : Result) : Prop where
  unique : (cache.entries.map (·.key)).Nodup
  bounded : cache.entries.length ≤ cache.capacity

@[simp]
theorem find?_isSome_iff {cache : Result} {key : String} :
    (cache.find? key).isSome = true ↔ ∃ entry ∈ cache.entries, entry.key = key := by
  rw [find?, List.find?_isSome]
  simp

theorem key_of_find?
    {cache : Result} {key : String} {entry : Entry} (found : cache.find? key = some entry) :
    entry.key = key := by
  simpa using List.find?_some found

@[simp]
theorem mem_others {cache : Result} {key : String} {entry : Entry} :
    entry ∈ cache.others key ↔ entry ∈ cache.entries ∧ entry.key ≠ key := by
  rw [others, List.mem_filter, bne_iff_ne]

/-- All entries but that of a key are the others. -/
theorem length_others
    {cache : Result} (unique : (cache.entries.map (·.key)).Nodup) (key : String) :
    (cache.others key).length + (if (cache.find? key).isSome then 1 else 0) =
      cache.entries.length := by
  have split : cache.entries.length =
      (cache.others key).length + cache.entries.countP (·.key == key) := by
    rw [others, ← List.countP_eq_length_filter, Nat.add_comm,
      List.length_eq_countP_add_countP (·.key == key)]
    refine congrArg _ (List.countP_congr fun entry _ => ?_)
    simp
  have counted : cache.entries.countP (·.key == key) =
      (cache.entries.map (·.key)).count key := by
    rw [List.count, List.countP_map]
    rfl
  rw [split, counted, unique.count]
  by_cases held : (cache.find? key).isSome = true
  · obtain ⟨entry, member, rfl⟩ := find?_isSome_iff.mp held
    rw [if_pos held, if_pos (List.mem_map_of_mem member)]
  · have absent : key ∉ cache.entries.map (·.key) := by
      intro member
      obtain ⟨entry, isEntry, named⟩ := List.mem_map.mp member
      exact held (find?_isSome_iff.mpr ⟨entry, isEntry, named⟩)
    rw [if_neg held, if_neg absent]

theorem nodup_cons_others
    {cache : Result} (unique : (cache.entries.map (·.key)).Nodup) (entry : Entry) :
    ((entry :: cache.others entry.key).map (·.key)).Nodup := by
  rw [List.map_cons, List.nodup_cons]
  constructor
  · intro member
    obtain ⟨other, isOther, sameKey⟩ := List.mem_map.mp member
    exact (mem_others.mp isOther).2 sameKey
  · exact unique.sublist (List.filter_sublist.map _)

/-! ## What an operation leaves -/

section Fields

variable (cache : Result) (fingerprint path : String) (size modified : Int) (result : Extraction)

@[simp]
theorem capacity_put :
    (cache.put fingerprint path size modified result).capacity = cache.capacity :=
  rfl

@[simp]
theorem hits_put : (cache.put fingerprint path size modified result).hits = cache.hits :=
  rfl

@[simp]
theorem misses_put : (cache.put fingerprint path size modified result).misses = cache.misses :=
  rfl

@[simp]
theorem entries_put :
    (cache.put fingerprint path size modified result).entries =
      (⟨key fingerprint path, size, modified, result⟩ ::
        cache.others (key fingerprint path)).take cache.capacity :=
  rfl

@[simp]
theorem evictions_put :
    (cache.put fingerprint path size modified result).evictions =
      cache.evictions + ((cache.others (key fingerprint path)).length + 1 - cache.capacity) :=
  rfl

@[simp]
theorem capacity_invalidate : (cache.invalidate path).2.capacity = cache.capacity :=
  rfl

@[simp]
theorem hits_invalidate : (cache.invalidate path).2.hits = cache.hits :=
  rfl

@[simp]
theorem misses_invalidate : (cache.invalidate path).2.misses = cache.misses :=
  rfl

@[simp]
theorem capacity_purge : cache.purge.capacity = cache.capacity :=
  rfl

@[simp]
theorem hits_purge : cache.purge.hits = cache.hits :=
  rfl

@[simp]
theorem misses_purge : cache.purge.misses = cache.misses :=
  rfl

@[simp]
theorem entries_purge : cache.purge.entries = [] :=
  rfl

@[simp]
theorem evictions_purge : cache.purge.evictions = cache.evictions + cache.entries.length :=
  rfl

/-- Entries that are removed and entries that were given up before add up. -/
@[simp]
theorem length_entries_invalidate :
    (cache.invalidate path).2.entries.length + (cache.invalidate path).2.evictions =
      cache.entries.length + cache.evictions := by
  have fewer := List.length_filter_le (fun entry => pathOfKey entry.key != path) cache.entries
  rw [invalidate]
  dsimp only
  omega

/-- What a look-up leaves: nothing but a miss where the key is not held; otherwise its entry is in
front of the others, and a hit or a miss is counted. -/
theorem get_cases :
    (cache.find? (key fingerprint path) = none ∧
      cache.get fingerprint path size modified =
        (none, { cache with misses := cache.misses + 1 })) ∨
    ∃ entry, cache.find? (key fingerprint path) = some entry ∧
      (entry.size = size ∧ entry.modified = modified ∧
        cache.get fingerprint path size modified =
          (some entry.result,
            { cache with
              entries := entry :: cache.others (key fingerprint path)
              hits := cache.hits + 1 }) ∨
      ¬ (entry.size = size ∧ entry.modified = modified) ∧
        cache.get fingerprint path size modified =
          (none,
            { cache with
              entries := entry :: cache.others (key fingerprint path)
              misses := cache.misses + 1 })) := by
  cases found : cache.find? (key fingerprint path) with
  | none => exact Or.inl ⟨rfl, by simp only [get, found]⟩
  | some entry =>
    refine Or.inr ⟨entry, rfl, ?_⟩
    by_cases valid : entry.size = size ∧ entry.modified = modified
    · exact Or.inl ⟨valid.1, valid.2, by simp only [get, found, if_pos valid]⟩
    · exact Or.inr ⟨valid, by simp only [get, found, if_neg valid]⟩

/-- The entries after a look-up. -/
theorem entries_get :
    (cache.get fingerprint path size modified).2.entries =
      match cache.find? (key fingerprint path) with
      | none => cache.entries
      | some entry => entry :: cache.others (key fingerprint path) := by
  rcases cache.get_cases fingerprint path size modified with
    ⟨found, got⟩ | ⟨entry, found, ⟨_, _, got⟩ | ⟨_, got⟩⟩ <;> rw [got, found]

@[simp]
theorem capacity_get : (cache.get fingerprint path size modified).2.capacity = cache.capacity := by
  rcases cache.get_cases fingerprint path size modified with
    ⟨_, got⟩ | ⟨entry, _, ⟨_, _, got⟩ | ⟨_, got⟩⟩ <;> rw [got]

@[simp]
theorem evictions_get :
    (cache.get fingerprint path size modified).2.evictions = cache.evictions := by
  rcases cache.get_cases fingerprint path size modified with
    ⟨_, got⟩ | ⟨entry, _, ⟨_, _, got⟩ | ⟨_, got⟩⟩ <;> rw [got]

@[simp]
theorem lookups_get :
    (cache.get fingerprint path size modified).2.hits +
        (cache.get fingerprint path size modified).2.misses =
      cache.hits + cache.misses + 1 := by
  rcases cache.get_cases fingerprint path size modified with
    ⟨_, got⟩ | ⟨entry, _, ⟨_, _, got⟩ | ⟨_, got⟩⟩ <;> rw [got] <;> dsimp only <;> omega

@[simp]
theorem length_entries_get (unique : (cache.entries.map (·.key)).Nodup) :
    (cache.get fingerprint path size modified).2.entries.length = cache.entries.length := by
  have counted := length_others unique (key fingerprint path)
  rw [entries_get]
  cases found : cache.find? (key fingerprint path) with
  | none => rfl
  | some entry => simpa [found] using counted

end Fields

/-! ## One operation -/

@[simp]
theorem capacity_apply (cache : Result) (operation : Operation) :
    (operation.apply cache).capacity = cache.capacity := by
  cases operation <;> simp

/-- Every operation keeps one entry for each key, and no more than the capacity allows. -/
theorem Orderly.apply
    {cache : Result} (orderly : cache.Orderly) (operation : Operation) :
    (operation.apply cache).Orderly := by
  cases operation with
  | put fingerprint path size modified result =>
    constructor
    · have unique := nodup_cons_others orderly.unique
        ⟨key fingerprint path, size, modified, result⟩
      exact unique.sublist ((List.take_sublist _ _).map _)
    · exact List.length_take_le _ _
  | get fingerprint path size modified =>
    constructor
    · rw [Operation.apply, entries_get]
      cases found : cache.find? (key fingerprint path) with
      | none => exact orderly.unique
      | some entry => exact key_of_find? found ▸ nodup_cons_others orderly.unique entry
    · simpa [orderly.unique] using orderly.bounded
  | invalidate path =>
    constructor
    · exact orderly.unique.sublist (List.filter_sublist.map _)
    · exact Nat.le_trans (List.length_filter_le _ _) orderly.bounded
  | purge => exact ⟨List.nodup_nil, Nat.zero_le _⟩

/-- A look-up is counted as a hit or as a miss, and nothing else is. -/
theorem lookups_apply (cache : Result) (operation : Operation) :
    (operation.apply cache).hits + (operation.apply cache).misses =
      cache.hits + cache.misses + if operation.isGet then 1 else 0 := by
  cases operation <;> simp

/-- An entry that is made is held from then on or counted as given up, and nothing else is. -/
theorem entries_apply
    {cache : Result} (unique : (cache.entries.map (·.key)).Nodup) (operation : Operation) :
    (operation.apply cache).entries.length + (operation.apply cache).evictions =
      cache.entries.length + cache.evictions + if operation.creates cache then 1 else 0 := by
  cases operation with
  | put fingerprint path size modified result =>
    have counted := length_others unique (key fingerprint path)
    cases found : cache.find? (key fingerprint path) with
    | none =>
      simp only [found, Option.isSome_none, Bool.false_eq_true, if_false] at counted
      simp only [Operation.apply, entries_put, evictions_put, List.length_take, List.length_cons,
        Operation.creates, found, Option.isNone_none, if_true]
      omega
    | some entry =>
      simp only [found, Option.isSome_some, if_true] at counted
      simp only [Operation.apply, entries_put, evictions_put, List.length_take, List.length_cons,
        Operation.creates, found, Option.isNone_some, Bool.false_eq_true, if_false]
      omega
  | get fingerprint path size modified => simp [unique]
  | invalidate path => simp
  | purge => simp [Nat.add_comm]

/-! ## Histories -/

section Histories

variable {fresh : Result}

@[simp]
theorem capacity_after (fresh : Result) (history : List Operation) :
    (after fresh history).capacity = fresh.capacity := by
  induction history with
  | nil => rfl
  | cons operation earlier inductionHypothesis =>
    rw [after, capacity_apply, inductionHypothesis]

theorem orderly_after (orderly : fresh.Orderly) (history : List Operation) :
    (after fresh history).Orderly := by
  induction history with
  | nil => exact orderly
  | cons operation earlier inductionHypothesis => exact inductionHypothesis.apply operation

/-- Hits and misses together count the look-ups. -/
theorem lookups_after (fresh : Result) (history : List Operation) :
    (after fresh history).hits + (after fresh history).misses =
      fresh.hits + fresh.misses + history.countP (·.isGet) := by
  induction history with
  | nil => rfl
  | cons operation earlier inductionHypothesis =>
    rw [after, lookups_apply, inductionHypothesis, List.countP_cons]
    omega

/-- The entries that were made are those held and those given up. -/
theorem entries_after (orderly : fresh.Orderly) (history : List Operation) :
    (after fresh history).entries.length + (after fresh history).evictions =
      fresh.entries.length + fresh.evictions + creations fresh history := by
  induction history with
  | nil => rfl
  | cons operation earlier inductionHypothesis =>
    rw [after, entries_apply (orderly_after orderly earlier).unique, inductionHypothesis, creations]
    omega

end Histories

end ImportAudit.Cache.Result
