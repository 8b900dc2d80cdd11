import ImportAudit.Proofs.Matching
import ImportAudit.Proofs.Text.Bytes

/-!
# Searching a word among bytes

Words can be searched in the bytes of a text: find the next occurrence, look at the two bytes
beside it, and go on one byte behind its start if one of them belongs to an identifier. The search
finds every occurrence that stands by itself, also one that overlaps a rejected one, and it finds
among the bytes of a specifier what `occursAsWord` finds among its characters.
-/

namespace ImportAudit.Usage

open ImportAudit.Text

/-- How far into the text the part occurs first. -/
def firstIndex? (part : List UInt8) : List UInt8 → Option Nat
  | [] => if part.isEmpty then some 0 else none
  | byte :: rest =>
    if part.isPrefixOf (byte :: rest) then some 0 else (firstIndex? part rest).map (· + 1)

/-- Whether no byte of an identifier touches the bytes from one place up to another. -/
def isApart (text : List UInt8) (start stop : Nat) : Bool :=
  (start == 0 || !(text[start - 1]?.any isWordByte)) && !(text[stop]?.any isWordByte)

/-- Whether the name occurs by itself at a place or behind it. -/
def searchFrom (name text : List UInt8) (place : Nat) : Bool :=
  if place + name.length ≤ text.length then
    match firstIndex? name (text.drop place) with
    | none => false
    | some offset =>
      isApart text (place + offset) (place + offset + name.length) ||
        searchFrom name text (place + offset + 1)
  else false
termination_by text.length + 1 - place

/-- Whether the name occurs by itself among the bytes of the text; the empty name does not. -/
def searchWord (name text : List UInt8) : Bool :=
  !name.isEmpty && searchFrom name text 0

/-! ## The first occurrence -/

variable {name text : List UInt8}

/-- The first place found is an occurrence, and there is none before it. -/
theorem firstIndex?_spec (nonempty : name ≠ []) :
    (∀ offset, firstIndex? name text = some offset →
      name <+: text.drop offset ∧ ∀ earlier < offset, ¬ name <+: text.drop earlier) ∧
    (firstIndex? name text = none → ∀ offset, ¬ name <+: text.drop offset) := by
  induction text with
  | nil =>
    have never : ∀ offset, ¬ name <+: ([] : List UInt8).drop offset := by
      intro offset starts
      rw [List.drop_nil] at starts
      exact nonempty (List.prefix_nil.mp starts)
    have notFound : firstIndex? name [] = none := by simp [firstIndex?, nonempty]
    rw [notFound]
    exact ⟨fun _ found => (nomatch found), fun _ => never⟩
  | cons byte rest inductionHypothesis =>
    obtain ⟨whereFound, notFound⟩ := inductionHypothesis
    by_cases starts : name.isPrefixOf (byte :: rest) = true
    · simp only [firstIndex?, if_pos starts]
      refine ⟨fun offset found => ?_, fun absent => by cases absent⟩
      cases found
      exact ⟨List.isPrefixOf_iff_prefix.mp starts, by simp⟩
    · have notHere : ¬ name <+: byte :: rest := fun here =>
        starts (List.isPrefixOf_iff_prefix.mpr here)
      simp only [firstIndex?, if_neg starts]
      refine ⟨fun offset found => ?_, fun absent offset => ?_⟩
      · obtain ⟨inRest, foundThere, rfl⟩ := Option.map_eq_some_iff.mp found
        obtain ⟨here, first⟩ := whereFound inRest foundThere
        refine ⟨here, fun earlier before => ?_⟩
        cases earlier with
        | zero => exact notHere
        | succ earlier => exact first earlier (by omega)
      · cases offset with
        | zero => exact notHere
        | succ offset => exact notFound (Option.map_eq_none_iff.mp absent) offset

/-! ## Where the name stands -/

/-- The name stands at a place of the text with no byte of an identifier on either side. -/
def StandsAt (name text : List UInt8) (start : Nat) : Prop :=
  ∃ before after, text = before ++ (name ++ after) ∧ before.length = start ∧
    (∀ byte, before.getLast? = some byte → isWordByte byte = false) ∧
      ∀ byte, after.head? = some byte → isWordByte byte = false

/-- The name stands among the bytes with no byte of an identifier on either side. -/
def StandsInBytes (name text : List UInt8) : Prop :=
  ∃ before after, text = before ++ (name ++ after) ∧
    (∀ byte, before.getLast? = some byte → isWordByte byte = false) ∧
      ∀ byte, after.head? = some byte → isWordByte byte = false

theorem standsInBytes_iff_standsAt :
    StandsInBytes name text ↔ ∃ start, StandsAt name text start := by
  constructor
  · rintro ⟨before, after, whole, apart⟩
    exact ⟨before.length, before, after, whole, rfl, apart⟩
  · rintro ⟨start, before, after, whole, _, apart⟩
    exact ⟨before, after, whole, apart⟩

/-- A name stands apart if no byte of an identifier touches it. -/
theorem isApart_append (before name after : List UInt8) :
    isApart (before ++ (name ++ after)) before.length (before.length + name.length) = true ↔
      (∀ byte, before.getLast? = some byte → isWordByte byte = false) ∧
        ∀ byte, after.head? = some byte → isWordByte byte = false := by
  have behind : (before ++ (name ++ after))[before.length + name.length]? = after.head? := by
    rw [List.getElem?_append_right (by omega), List.getElem?_append_right (by omega),
      List.head?_eq_getElem?]
    congr 1
    omega
  have inFront : (before.length == 0 ||
      !((before ++ (name ++ after))[before.length - 1]?.any isWordByte)) = true ↔
        ∀ byte, before.getLast? = some byte → isWordByte byte = false := by
    by_cases empty : before = []
    · simp [empty]
    · have some := List.length_pos_iff.mpr empty
      rw [List.getElem?_append_left (by omega), ← List.getLast?_eq_getElem?]
      cases before.getLast? <;> simp [empty]
  rw [isApart, Bool.and_eq_true, inFront, behind]
  cases after.head? <;> simp

theorem StandsAt.fits {start : Nat} (stands : StandsAt name text start) :
    start + name.length ≤ text.length := by
  obtain ⟨before, after, rfl, rfl, _⟩ := stands
  simp only [List.length_append]
  omega

theorem StandsAt.occurs {start : Nat} (stands : StandsAt name text start) :
    name <+: text.drop start := by
  obtain ⟨before, after, rfl, rfl, _⟩ := stands
  rw [List.drop_left]
  exact List.prefix_append name after

theorem standsAt_iff (nonempty : name ≠ []) {start : Nat} :
    StandsAt name text start ↔
      name <+: text.drop start ∧ isApart text start (start + name.length) = true := by
  constructor
  · intro stands
    refine ⟨stands.occurs, ?_⟩
    obtain ⟨before, after, rfl, rfl, apart⟩ := stands
    exact (isApart_append before name after).mpr apart
  · rintro ⟨⟨after, found⟩, apart⟩
    have inside : start ≤ text.length := by
      by_contra beyond
      rw [List.drop_eq_nil_of_le (by omega)] at found
      exact nonempty (List.append_eq_nil_iff.mp found).1
    have whole : text = text.take start ++ (name ++ after) := by
      rw [found, List.take_append_drop]
    have place : (text.take start).length = start := List.length_take_of_le inside
    refine ⟨text.take start, after, whole, place, (isApart_append _ name after).mp ?_⟩
    rwa [place, ← whole]

/-! ## All occurrences -/

section Places

variable {place offset start : Nat}

theorem not_standsAt_of_short
    (short : ¬ place + name.length ≤ text.length) (behind : place ≤ start) :
    ¬ StandsAt name text start := by
  intro stands
  have := stands.fits
  omega

theorem not_standsAt_of_absent
    (nonempty : name ≠ []) (absent : firstIndex? name (text.drop place) = none)
    (behind : place ≤ start) : ¬ StandsAt name text start := by
  intro stands
  refine (firstIndex?_spec nonempty).2 absent (start - place) ?_
  rw [List.drop_drop, Nat.add_sub_cancel' behind]
  exact stands.occurs

theorem not_standsAt_of_earlier
    (nonempty : name ≠ []) (found : firstIndex? name (text.drop place) = some offset)
    (behind : place ≤ start) (earlier : start < place + offset) : ¬ StandsAt name text start := by
  intro stands
  refine ((firstIndex?_spec nonempty).1 offset found).2 (start - place) (by omega) ?_
  rw [List.drop_drop, Nat.add_sub_cancel' behind]
  exact stands.occurs

theorem prefix_of_found
    (nonempty : name ≠ []) (found : firstIndex? name (text.drop place) = some offset) :
    name <+: text.drop (place + offset) := by
  rw [← List.drop_drop]
  exact ((firstIndex?_spec nonempty).1 offset found).1

theorem standsAt_found_iff
    (nonempty : name ≠ []) (found : firstIndex? name (text.drop place) = some offset) :
    StandsAt name text (place + offset) ↔
      isApart text (place + offset) (place + offset + name.length) = true := by
  rw [standsAt_iff nonempty]
  exact and_iff_right (prefix_of_found nonempty found)

end Places

/-- The search finds an occurrence that stands by itself wherever there is one. -/
theorem searchFrom_iff (nonempty : name ≠ []) (place : Nat) :
    searchFrom name text place = true ↔ ∃ start, place ≤ start ∧ StandsAt name text start := by
  fun_induction searchFrom name text place with
  | case1 place fits absent =>
    simp only [Bool.false_eq_true, false_iff, not_exists, not_and]
    intro start behind
    exact not_standsAt_of_absent nonempty absent behind
  | case2 place fits offset found inductionHypothesis =>
    rw [Bool.or_eq_true, ← standsAt_found_iff nonempty found, inductionHypothesis]
    constructor
    · rintro (here | ⟨start, behind, stands⟩)
      · exact ⟨place + offset, by omega, here⟩
      · exact ⟨start, by omega, stands⟩
    · rintro ⟨start, behind, stands⟩
      -- The name stands nowhere before its first occurrence: this is the first one or a later one.
      rcases Nat.lt_trichotomy start (place + offset) with earlier | rfl | later
      · exact absurd stands (not_standsAt_of_earlier nonempty found behind earlier)
      · exact Or.inl stands
      · exact Or.inr ⟨start, later, stands⟩
  | case3 place short =>
    simp only [Bool.false_eq_true, false_iff, not_exists, not_and]
    intro start behind
    exact not_standsAt_of_short short behind

theorem searchWord_iff (nonempty : name ≠ []) :
    searchWord name text = true ↔ StandsInBytes name text := by
  have searched : searchWord name text = searchFrom name text 0 := by
    simp [searchWord, nonempty]
  rw [searched, searchFrom_iff nonempty, standsInBytes_iff_standsAt]
  simp

/-! ## Bytes and characters -/

theorem endsApart_bytes (text : List Char) :
    (∀ byte, (bytes text).getLast? = some byte → isWordByte byte = false) ↔
      ∀ c, text.getLast? = some c → isWordChar c = false := by
  rcases List.eq_nil_or_concat text with rfl | ⟨front, c, rfl⟩
  · simp
  · have nonempty := String.utf8EncodeChar_ne_nil (c := c)
    have last : (bytes (front.concat c)).getLast? =
        some ((String.utf8EncodeChar c).getLast nonempty) := by
      rw [List.concat_eq_append, bytes_append, bytes_cons, bytes_nil, List.append_nil,
        List.getLast?_append_of_ne_nil _ nonempty, List.getLast?_eq_some_getLast nonempty]
    have sameClass := isWordByte_of_mem (List.getLast_mem nonempty)
    rw [last]
    simp [sameClass]

theorem startsApart_bytes (text : List Char) :
    (∀ byte, (bytes text).head? = some byte → isWordByte byte = false) ↔
      endsWord text = true := by
  cases text with
  | nil => simp [endsWord]
  | cons c rest =>
    obtain ⟨first, others, shape, _, _⟩ := exists_first_byte c
    have sameClass : isWordByte first = isWordChar c :=
      isWordByte_of_mem (shape ▸ List.mem_cons_self)
    simp [shape, endsWord, sameClass]

/-- A name stands among the bytes of a text where it stands among its characters. -/
theorem standsInBytes_iff {name text : List Char} (nonempty : name ≠ []) :
    StandsInBytes (bytes name) (bytes text) ↔ StandsIn name text := by
  constructor
  · rintro ⟨before, after, whole, detached, ends⟩
    obtain ⟨front, back, rfl, rfl, rfl⟩ := exists_chars_of_bytes nonempty whole
    exact ⟨front, back, by rw [List.append_assoc], (endsApart_bytes front).mp detached,
      (startsApart_bytes back).mp ends⟩
  · rintro ⟨front, back, rfl, detached, ends⟩
    exact ⟨bytes front, bytes back, by simp,
      (endsApart_bytes front).mpr detached, (startsApart_bytes back).mpr ends⟩

theorem matches_substring_iff_bytes {specifier name : String} :
    matches? .substring specifier name = true ↔ bytesOf name <:+: bytesOf specifier := by
  rw [matches_substring_iff, bytesOf_eq, bytesOf_eq, bytes_infix_iff]

theorem matches_word_eq_searchWord (specifier name : String) :
    matches? .word specifier name = searchWord (bytesOf name) (bytesOf specifier) := by
  rw [bytesOf_eq, bytesOf_eq]
  by_cases empty : name = ""
  · subst empty
    rfl
  · have nonempty : name.toList ≠ [] := toList_ne_nil.mpr empty
    rw [Bool.eq_iff_iff, matches_word_iff, searchWord_iff (bytes_ne_nil.mpr nonempty),
      standsInBytes_iff nonempty]
    exact and_iff_right empty

end ImportAudit.Usage
