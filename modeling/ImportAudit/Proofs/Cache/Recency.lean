import ImportAudit.Proofs.Cache.Truthful
import Mathlib.Data.Finset.Option
import Mathlib.Data.List.TakeWhile

/-!
# What a result cache serves

After any history of operations a result cache serves what was last put for a fingerprint and a
path, and only that; it serves it as long as fewer other keys than it has room for were touched
since. Whatever was touched since a key stands in front of it, and nothing else does.
-/

namespace ImportAudit.Cache

namespace Result

/-! ## Keys -/

/-- A path is read back from its key if the fingerprint has no NUL character. -/
theorem pathOfKey_key
    {fingerprint : String} (free : '\x00' ∉ fingerprint.toList) (path : String) :
    pathOfKey (key fingerprint path) = path := by
  have passes : ∀ c ∈ fingerprint.toList, (c != '\x00') = true := by
    intro c member
    rw [bne_iff_ne]
    rintro rfl
    exact free member
  have shape : (key fingerprint path).toList =
      fingerprint.toList ++ '\x00' :: path.toList := by
    simp [key]
  rw [pathOfKey, shape, List.dropWhile_append_of_pos passes,
    List.dropWhile_cons_of_neg (by decide), List.drop_one, List.tail_cons, String.ofList_toList]

theorem key_inj_of_fingerprint
    {fingerprint other path otherPath : String} (free : '\x00' ∉ fingerprint.toList)
    (otherFree : '\x00' ∉ other.toList) (same : key fingerprint path = key other otherPath) :
    fingerprint = other ∧ path = otherPath := by
  have samePath : path = otherPath := by
    rw [← pathOfKey_key free path, same, pathOfKey_key otherFree]
  subst samePath
  refine ⟨?_, rfl⟩
  have sameLists := congrArg String.toList same
  simp only [key, String.toList_append, List.append_left_inj] at sameLists
  exact String.toList_inj.mp sameLists

end Result

/-- An entry that is held for a path, under some fingerprint. -/
def Entry.IsOf (path : String) (entry : Entry) : Prop :=
  ∃ fingerprint : String, '\x00' ∉ fingerprint.toList ∧ entry.key = Result.key fingerprint path

/-- An entry is held for the path that stands behind the first NUL character of its key. -/
theorem Entry.isOf_iff {path : String} {entry : Entry} :
    entry.IsOf path ↔ '\x00' ∈ entry.key.toList ∧ Result.pathOfKey entry.key = path := by
  constructor
  · rintro ⟨fingerprint, free, named⟩
    rw [named]
    refine ⟨?_, Result.pathOfKey_key free path⟩
    simp [Result.key]
  · rintro ⟨divided, rfl⟩
    have split := List.takeWhile_append_dropWhile (p := (· != '\x00')) (l := entry.key.toList)
    have front : '\x00' ∉ entry.key.toList.takeWhile (· != '\x00') := fun member => by
      simpa using List.mem_takeWhile_imp member
    cases back : entry.key.toList.dropWhile (· != '\x00') with
    | nil =>
      rw [back, List.append_nil] at split
      rw [split] at front
      exact absurd divided front
    | cons c rest =>
      have divider : c = '\x00' := by
        simpa [back] using List.head?_dropWhile_not (· != '\x00') entry.key.toList
      refine ⟨String.ofList (entry.key.toList.takeWhile (· != '\x00')), ?_, ?_⟩
      · rw [String.toList_ofList]
        exact front
      · rw [← String.toList_inj, Result.key, Result.pathOfKey, back]
        simpa [back, divider] using split.symm

instance (path : String) : DecidablePred (Entry.IsOf path) :=
  fun _ => decidable_of_iff _ Entry.isOf_iff.symm

namespace Result

/-! ## Histories -/

namespace Operation

/-- A fingerprint of the operation is free of the character that divides keys. Paths may hold it,
since a key is divided at the first one. -/
def Plain : Operation → Prop
  | put fingerprint _ _ _ _ => '\x00' ∉ fingerprint.toList
  | get fingerprint _ _ _ => '\x00' ∉ fingerprint.toList
  | _ => True

/-- Whether an operation puts a result for this fingerprint and path. -/
def putsFor (fingerprint path : String) : Operation → Bool
  | put other otherPath _ _ _ => other == fingerprint && otherPath == path
  | _ => false

/-- Whether an operation removes what is held for a path. -/
def drops (path : String) : Operation → Bool
  | invalidate other => other == path
  | purge => true
  | _ => false

/-- The key that an operation touches: by putting a result for it, or by finding it, even if what
is found is out of date. -/
def touches? (cache : Result) : Operation → Option String
  | put fingerprint path _ _ _ => some (key fingerprint path)
  | get fingerprint path _ _ =>
    (cache.find? (key fingerprint path)).map fun _ => key fingerprint path
  | _ => none

end Operation

/-- The keys touched by the later operations of a history, given the earlier ones. -/
def touchedSince (fresh : Result) (earlier : List Operation) : List Operation → Finset String
  | [] => ∅
  | operation :: later =>
    (operation.touches? (after fresh (later ++ earlier))).toFinset ∪
      touchedSince fresh earlier later

/-! ## Where an entry comes from -/

section Histories

variable {fresh : Result} {history : List Operation} {fingerprint path : String}

theorem Operation.eq_put
    {operation : Operation} (puts : operation.putsFor fingerprint path = true) :
    ∃ size modified result, operation = .put fingerprint path size modified result := by
  cases operation with
  | put other otherPath size modified result =>
    simp only [putsFor, Bool.and_eq_true, beq_iff_eq] at puts
    obtain ⟨rfl, rfl⟩ := puts
    exact ⟨size, modified, result, rfl⟩
  | get _ _ _ _ => cases puts
  | invalidate _ => cases puts
  | purge => cases puts

/-- The result was the last that was put for the fingerprint and the path, and nothing has removed
it since. -/
structure Standing (history : List Operation) (fingerprint path : String) (size modified : Int)
    (result : Extraction) : Prop where
  latest : history.find? (·.putsFor fingerprint path) =
    some (.put fingerprint path size modified result)
  kept : ∀ operation ∈ history.takeWhile fun operation => !operation.putsFor fingerprint path,
    operation.drops path = false

theorem Standing.put
    (earlier : List Operation) (fingerprint path : String) (size modified : Int)
    (result : Extraction) :
    Standing (.put fingerprint path size modified result :: earlier) fingerprint path size
      modified result := by
  have puts : (Operation.put fingerprint path size modified result).putsFor fingerprint path =
      true := by
    simp [Operation.putsFor]
  refine ⟨List.find?_cons_of_pos puts, ?_⟩
  simp [puts]

theorem Standing.cons
    {size modified : Int} {result : Extraction}
    (standing : Standing history fingerprint path size modified result) {operation : Operation}
    (other : operation.putsFor fingerprint path = false) (keeps : operation.drops path = false) :
    Standing (operation :: history) fingerprint path size modified result := by
  refine ⟨?_, ?_⟩
  · rw [List.find?_cons_of_neg (by simp [other])]
    exact standing.latest
  · rw [List.takeWhile_cons_of_pos (by simp [other])]
    exact List.forall_mem_cons.mpr ⟨keeps, standing.kept⟩

/-- Where an entry comes from: what it holds was put last for its key, and not removed since. -/
def Recorded (history : List Operation) (entry : Entry) : Prop :=
  ∃ fingerprint path, '\x00' ∉ fingerprint.toList ∧ entry.key = key fingerprint path ∧
    Standing history fingerprint path entry.size entry.modified entry.result

/-- An entry that survives an operation which puts nothing in its place stays recorded. -/
theorem Recorded.cons
    {entry : Entry} (recorded : Recorded history entry) {operation : Operation}
    (survives : entry ∈ (operation.apply (after fresh history)).entries)
    (unput : ∀ fingerprint path size modified result,
      operation = .put fingerprint path size modified result → entry.key ≠ key fingerprint path) :
    Recorded (operation :: history) entry := by
  obtain ⟨fingerprint, path, free, named, standing⟩ := recorded
  refine ⟨fingerprint, path, free, named, standing.cons ?_ ?_⟩
  · by_contra puts
    obtain ⟨size, modified, result, rfl⟩ := Operation.eq_put (eq_true_of_ne_false puts)
    exact unput fingerprint path size modified result rfl named
  · cases operation with
    | put _ _ _ _ _ => rfl
    | get _ _ _ _ => rfl
    | invalidate other =>
      have outside := (List.mem_filter.mp survives).2
      rw [named, pathOfKey_key free, bne_iff_ne] at outside
      rw [Operation.drops, beq_eq_false_iff_ne]
      exact outside.symm
    | purge => cases survives

/-- Every entry of a cache that started empty was put by its history. -/
theorem recorded_after
    (empty : fresh.entries = []) (plain : ∀ operation ∈ history, operation.Plain) :
    ∀ entry ∈ (after fresh history).entries, Recorded history entry := by
  induction history with
  | nil =>
    intro entry member
    rw [after, empty] at member
    cases member
  | cons operation earlier inductionHypothesis =>
    obtain ⟨plainHere, plainEarlier⟩ := List.forall_mem_cons.mp plain
    have earlierRecorded := inductionHypothesis plainEarlier
    intro entry member
    cases operation with
    | put fingerprint path size modified result =>
      rcases List.mem_cons.mp (List.mem_of_mem_take member) with rfl | other
      · exact ⟨fingerprint, path, plainHere, rfl,
          .put earlier fingerprint path size modified result⟩
      · obtain ⟨held, differs⟩ := mem_others.mp other
        refine (earlierRecorded entry held).cons member ?_
        rintro _ _ _ _ _ ⟨⟩
        exact differs
    | get fingerprint path size modified =>
      have held := mem_of_mem_get member
      exact (earlierRecorded entry held).cons member (by rintro _ _ _ _ _ ⟨⟩)
    | invalidate path =>
      have held := (List.mem_filter.mp member).1
      exact (earlierRecorded entry held).cons member (by rintro _ _ _ _ _ ⟨⟩)
    | purge => cases member

/-- The entry that is found for a fingerprint and a path holds what was last put for them. -/
theorem standing_of_find?
    (empty : fresh.entries = []) (plain : ∀ operation ∈ history, operation.Plain)
    (free : '\x00' ∉ fingerprint.toList) {entry : Entry}
    (found : (after fresh history).find? (key fingerprint path) = some entry) :
    Standing history fingerprint path entry.size entry.modified entry.result := by
  obtain ⟨other, otherPath, otherFree, named, standing⟩ :=
    recorded_after empty plain entry (List.mem_of_find?_eq_some found)
  rw [key_of_find? found] at named
  obtain ⟨rfl, rfl⟩ := key_inj_of_fingerprint free otherFree named
  exact standing

/-! ## What stands in front of a key -/

/-- An entry of the key is held, and whatever stands in front of it has one of the keys. -/
def Within (keys : Finset String) (key : String) (entries : List Entry) : Prop :=
  ∃ front entry back, entries = front ++ entry :: back ∧ entry.key = key ∧
    ∀ other ∈ front, other.key ∈ keys

theorem Within.head (keys : Finset String) (entry : Entry) (back : List Entry) :
    Within keys entry.key (entry :: back) :=
  ⟨[], entry, back, rfl, rfl, by simp⟩

theorem Within.mono
    {keys more : Finset String} {key : String} {entries : List Entry}
    (within : Within keys key entries) (fewer : keys ⊆ more) : Within more key entries := by
  obtain ⟨front, entry, back, whole, named, touched⟩ := within
  exact ⟨front, entry, back, whole, named, fun other member => fewer (touched other member)⟩

/-- Taking away entries of other keys brings the entry of a key no further back. -/
theorem Within.filter
    {keys : Finset String} {key : String} {entries : List Entry}
    (within : Within keys key entries) {test : Entry → Bool}
    (passes : ∀ entry, entry.key = key → test entry = true) :
    Within keys key (entries.filter test) := by
  obtain ⟨front, entry, back, rfl, named, touched⟩ := within
  refine ⟨front.filter test, entry, back.filter test, ?_, named, ?_⟩
  · rw [List.filter_append, List.filter_cons_of_pos (passes entry named)]
  · exact fun other member => touched other (List.mem_filter.mp member).1

theorem Within.cons
    {keys : Finset String} {key : String} {entries : List Entry}
    (within : Within keys key entries) {first : Entry} (touched : first.key ∈ keys) :
    Within keys key (first :: entries) := by
  obtain ⟨front, entry, back, rfl, named, earlier⟩ := within
  exact ⟨first :: front, entry, back, rfl, named, List.forall_mem_cons.mpr ⟨touched, earlier⟩⟩

/-- With room for more entries than there are other keys, giving up the last ones leaves the entry
of the key: no two of those in front have the same key, and none has its own. -/
theorem Within.take
    {keys : Finset String} {key : String} {entries : List Entry} {capacity : Nat}
    (within : Within keys key entries) (unique : (entries.map (·.key)).Nodup)
    (room : (keys.erase key).card < capacity) : Within keys key (entries.take capacity) := by
  obtain ⟨front, entry, back, rfl, rfl, touched⟩ := within
  rw [List.map_append, List.nodup_append] at unique
  obtain ⟨frontUnique, _, apart⟩ := unique
  have others : (front.map (·.key)).toFinset ⊆ keys.erase entry.key := by
    intro name member
    obtain ⟨other, isOther, rfl⟩ := List.mem_map.mp (List.mem_toFinset.mp member)
    refine Finset.mem_erase.mpr ⟨?_, touched other isOther⟩
    exact apart _ (List.mem_map_of_mem isOther) _ (List.mem_map_of_mem List.mem_cons_self)
  have short : front.length < capacity := by
    calc front.length = (front.map (·.key)).toFinset.card := by
          rw [List.toFinset_card_of_nodup frontUnique, List.length_map]
      _ ≤ (keys.erase entry.key).card := Finset.card_le_card others
      _ < capacity := room
  obtain ⟨spare, capacityEq⟩ := Nat.exists_eq_add_of_lt short
  refine ⟨front, entry, back.take spare, ?_, rfl, touched⟩
  rw [capacityEq, Nat.add_assoc, List.take_length_add_append, List.take_succ_cons]

/-- Nothing stands in front of the entry that was touched last. -/
theorem within_touch
    {cache : Result} (room : 0 < cache.capacity) {operation : Operation} {key : String}
    (touches : operation.touches? cache = some key) (keys : Finset String) :
    Within keys key (operation.apply cache).entries := by
  cases operation with
  | put fingerprint path size modified result =>
    cases touches
    obtain ⟨places, capacity⟩ := Nat.exists_eq_add_one.mpr room
    rw [Operation.apply, put, capacity]
    exact .head keys ⟨Result.key fingerprint path, size, modified, result⟩ _
  | get fingerprint path size modified =>
    obtain ⟨entry, found, rfl⟩ := Option.map_eq_some_iff.mp touches
    rw [Operation.apply, entries_get, found, ← key_of_find? found]
    exact .head keys entry _
  | invalidate path => cases touches
  | purge => cases touches

/-- One operation that does not remove the path moves its entry back by no more than the key that
it touches. -/
theorem Within.apply
    {cache : Result} (orderly : cache.Orderly) {operation : Operation}
    (free : '\x00' ∉ fingerprint.toList) (keeps : operation.drops path = false)
    {keys : Finset String} (within : Within keys (key fingerprint path) cache.entries)
    (touched : ∀ other, operation.touches? cache = some other → other ∈ keys)
    (room : (keys.erase (key fingerprint path)).card < cache.capacity) :
    Within keys (key fingerprint path) (operation.apply cache).entries := by
  have positive : 0 < cache.capacity := Nat.zero_lt_of_lt room
  by_cases same : operation.touches? cache = some (key fingerprint path)
  · exact within_touch positive same keys
  · cases operation with
    | put other otherPath size modified result =>
      have differs : key other otherPath ≠ key fingerprint path := fun equal =>
        same (congrArg some equal)
      have aside : Within keys (key fingerprint path) (cache.others (key other otherPath)) :=
        within.filter fun entry named => by
          rw [named, bne_iff_ne]
          exact differs.symm
      exact (aside.cons (touched _ rfl)).take (nodup_cons_others orderly.unique _) room
    | get other otherPath size modified =>
      rw [Operation.apply, entries_get]
      cases found : cache.find? (key other otherPath) with
      | none => exact within
      | some entry =>
        have touchesOther : (Operation.get other otherPath size modified).touches? cache =
            some (key other otherPath) := by
          rw [Operation.touches?, found]
          rfl
        have differs : key other otherPath ≠ key fingerprint path := fun equal =>
          same (touchesOther.trans (congrArg some equal))
        have aside : Within keys (key fingerprint path) (cache.others (key other otherPath)) :=
          within.filter fun entry named => by
            rw [named, bne_iff_ne]
            exact differs.symm
        refine aside.cons ?_
        rw [key_of_find? found]
        exact touched _ touchesOther
    | invalidate other =>
      refine within.filter fun entry named => ?_
      rw [named, pathOfKey_key free, bne_iff_ne]
      exact (beq_eq_false_iff_ne.mp keeps).symm
    | purge => cases keeps

/-- Since a key was touched, only keys that were touched later have come to stand in front of it,
so it is still held while there is room for all of them. -/
theorem within_after
    (orderly : fresh.Orderly) (free : '\x00' ∉ fingerprint.toList) {touch : Operation}
    {later earlier : List Operation}
    (touches : touch.touches? (after fresh earlier) = some (key fingerprint path))
    (kept : ∀ operation ∈ later, operation.drops path = false)
    (room : ((touchedSince fresh (touch :: earlier) later).erase
      (key fingerprint path)).card < fresh.capacity) :
    Within (touchedSince fresh (touch :: earlier) later) (key fingerprint path)
      (after fresh (later ++ touch :: earlier)).entries := by
  induction later with
  | nil =>
    refine within_touch ?_ touches _
    rw [capacity_after]
    exact Nat.zero_lt_of_lt room
  | cons operation later inductionHypothesis =>
    obtain ⟨keeps, keptLater⟩ := List.forall_mem_cons.mp kept
    have fewer : touchedSince fresh (touch :: earlier) later ⊆
        touchedSince fresh (touch :: earlier) (operation :: later) :=
      Finset.subset_union_right
    have roomLater := Nat.lt_of_le_of_lt
      (Finset.card_le_card (Finset.erase_subset_erase (key fingerprint path) fewer)) room
    have within := (inductionHypothesis keptLater roomLater).mono fewer
    refine within.apply (orderly_after orderly _) free keeps ?_ ?_
    · intro other touchesOther
      refine Finset.mem_union_left _ ?_
      rw [touchesOther]
      exact Finset.mem_singleton_self other
    · rw [capacity_after]
      exact room

/-! ## The laws of a cache -/

/-- Invalidating a path takes away its entries and no others, and brings their number. -/
theorem invalidate_eq
    {cache : Result} (recorded : ∀ entry ∈ cache.entries, Recorded history entry)
    (path : String) :
    cache.invalidate path =
      (cache.entries.countP (·.IsOf path),
        { cache with
          entries := cache.entries.filter (¬ ·.IsOf path)
          evictions := cache.evictions + cache.entries.countP (·.IsOf path) }) := by
  have kept : cache.entries.filter (fun entry => pathOfKey entry.key != path) =
      cache.entries.filter (¬ ·.IsOf path) := by
    refine List.filter_congr fun entry member => ?_
    obtain ⟨fingerprint, ownPath, free, named, _⟩ := recorded entry member
    have divided : '\x00' ∈ entry.key.toList := by
      simp [named, key]
    rw [Bool.eq_iff_iff, bne_iff_ne, decide_eq_true_iff, Entry.isOf_iff]
    simp [divided]
  have counted : cache.entries.length - (cache.entries.filter (¬ ·.IsOf path)).length =
      cache.entries.countP (·.IsOf path) := by
    have split := List.length_eq_countP_add_countP (·.IsOf path) (l := cache.entries)
    rw [← List.countP_eq_length_filter]
    simp only [decide_eq_true_eq] at split ⊢
    omega
  rw [invalidate, kept]
  simp only [counted]

/-- What is served was put for this path, at this size and time, and not removed since. -/
theorem served_standing
    (empty : fresh.entries = []) (plain : ∀ operation ∈ history, operation.Plain)
    (free : '\x00' ∉ fingerprint.toList) {size modified : Int} {result : Extraction}
    (served : ((after fresh history).get fingerprint path size modified).1 = some result) :
    Standing history fingerprint path size modified result := by
  rcases (after fresh history).get_cases fingerprint path size modified with
    ⟨_, got⟩ | ⟨entry, found, ⟨sameSize, sameTime, got⟩ | ⟨_, got⟩⟩
  · rw [got] at served
    cases served
  · rw [got] at served
    cases served
    have standing := standing_of_find? empty plain free found
    rw [sameSize, sameTime] at standing
    exact standing
  · rw [got] at served
    cases served

/-- What was put last is served as long as its entry is held. -/
theorem served_of_within
    (empty : fresh.entries = []) (plain : ∀ operation ∈ history, operation.Plain)
    (free : '\x00' ∉ fingerprint.toList) {keys : Finset String}
    (within : Within keys (key fingerprint path) (after fresh history).entries)
    {size modified : Int} {result : Extraction}
    (latest : history.find? (·.putsFor fingerprint path) =
      some (.put fingerprint path size modified result)) :
    ((after fresh history).get fingerprint path size modified).1 = some result := by
  obtain ⟨front, held, back, whole, named, _⟩ := within
  have member : held ∈ (after fresh history).entries := by
    rw [whole]
    exact List.mem_append_right front List.mem_cons_self
  obtain ⟨entry, found⟩ := Option.isSome_iff_exists.mp (find?_isSome_iff.mpr ⟨held, member, named⟩)
  have same := (standing_of_find? empty plain free found).latest.symm.trans latest
  cases same
  simp only [get, found, and_self, if_true]

/-- A result cache can be made with any capacity from one on, and after any history of operations
the following hold. No two entries have the same key, and there are no more than the capacity. A
look-up is served only with what was put last for its fingerprint and path, at the same size and
time and with nothing that removed it since. It is served if since some touch of its key fewer
other keys were touched than the capacity is and the path was not removed. Invalidating a path
takes away exactly its entries, whatever their fingerprints, and leaves the others in order. Hits
and misses add up to the look-ups, and entries held and given up to those that were made. -/
theorem validated_lru
    {capacity : Int} (positive : 1 ≤ capacity) :
    ∃ fresh, Result.new capacity = .ok fresh ∧ fresh.capacity = capacity ∧
      ∀ history, (∀ operation ∈ history, operation.Plain) →
        ((after fresh history).entries.map (·.key)).Nodup ∧
        (after fresh history).size ≤ fresh.capacity ∧
        (∀ fingerprint path size modified result, '\x00' ∉ fingerprint.toList →
          ((after fresh history).get fingerprint path size modified).1 = some result →
            Standing history fingerprint path size modified result) ∧
        (∀ fingerprint path size modified result later touch earlier,
          '\x00' ∉ fingerprint.toList →
          history.find? (·.putsFor fingerprint path) =
            some (.put fingerprint path size modified result) →
          history = later ++ touch :: earlier →
          touch.touches? (after fresh earlier) = some (key fingerprint path) →
          (∀ operation ∈ later, operation.drops path = false) →
          ((touchedSince fresh (touch :: earlier) later).erase (key fingerprint path)).card <
            fresh.capacity →
          ((after fresh history).get fingerprint path size modified).1 = some result) ∧
        (∀ path, (after fresh history).invalidate path =
          ((after fresh history).entries.countP (·.IsOf path),
            { after fresh history with
              entries := (after fresh history).entries.filter (¬ ·.IsOf path)
              evictions := (after fresh history).evictions +
                (after fresh history).entries.countP (·.IsOf path) })) ∧
        (after fresh history).hits + (after fresh history).misses = history.countP (·.isGet) ∧
        creations fresh history = (after fresh history).size + (after fresh history).evictions := by
  have notNegative : ¬ capacity < 0 := by omega
  have notZero : ¬ capacity = 0 := by omega
  refine ⟨⟨capacity.toNat, [], 0, 0, 0⟩, ?_, Int.toNat_of_nonneg (by omega), ?_⟩
  · rw [Result.new, if_neg notNegative, if_neg notZero]
  · intro history plain
    have orderly : Orderly ⟨capacity.toNat, [], 0, 0, 0⟩ := ⟨List.nodup_nil, Nat.zero_le _⟩
    have bounded := (orderly_after orderly history).bounded
    rw [capacity_after] at bounded
    refine ⟨(orderly_after orderly history).unique, bounded, ?_, ?_, ?_, ?_, ?_⟩
    · intro fingerprint path size modified result free served
      exact served_standing rfl plain free served
    · rintro fingerprint path size modified result later touch earlier free latest rfl touches kept
        room
      exact served_of_within rfl plain free (within_after orderly free touches kept room) latest
    · exact invalidate_eq (recorded_after rfl plain)
    · rw [lookups_after]
      exact Nat.zero_add _
    · have made := entries_after orderly history
      rw [size, made]
      exact (Nat.zero_add _).symm

end Histories

def emptyResult (path : String) : Extraction :=
  ⟨path, ⟨path, []⟩, []⟩

/-- Three results for two places. The first is looked for before the third comes; it is out of date
for whoever looks, but touched. -/
def crowdedHistory : List Operation :=
  [.put "f" "c" 1 1 (emptyResult "c"), .get "f" "a" 2 2, .put "f" "b" 1 1 (emptyResult "b"),
    .put "f" "a" 1 1 (emptyResult "a")]

theorem validated_lru_crowded :
    ∃ fresh, Result.new 2 = .ok fresh ∧
      ((after fresh crowdedHistory).get "f" "a" 1 1).1 = some (emptyResult "a") ∧
        (after fresh crowdedHistory).hits + (after fresh crowdedHistory).misses = 1 ∧
          (after fresh crowdedHistory).size + (after fresh crowdedHistory).evictions = 3 := by
  obtain ⟨fresh, made, _, laws⟩ := @validated_lru 2 (by decide)
  have isFresh : fresh = ⟨2, [], 0, 0, 0⟩ := by
    have computed : Result.new 2 = .ok ⟨2, [], 0, 0, 0⟩ := rfl
    rw [computed] at made
    exact (Except.ok.inj made).symm
  subst isFresh
  have plain : ∀ operation ∈ crowdedHistory, operation.Plain := by
    simp [crowdedHistory, Operation.Plain]
  obtain ⟨_, _, _, served, _, lookups, creations⟩ := laws crowdedHistory plain
  refine ⟨_, made, ?_, lookups.trans rfl, creations.symm.trans ?_⟩
  · exact served "f" "a" 1 1 (emptyResult "a") [.put "f" "c" 1 1 (emptyResult "c")]
      (.get "f" "a" 2 2)
      [.put "f" "b" 1 1 (emptyResult "b"), .put "f" "a" 1 1 (emptyResult "a")]
      (by decide) (by decide) rfl (by decide) (by decide) (by decide)
  · decide

end Result

end ImportAudit.Cache
