import ImportAudit.Proofs.WordSearch

/-!
# The passes of a word search

The search goes through the bytes of a text in passes. A pass finds the next occurrence and either
answers or goes on one byte behind the start of that occurrence. Here every look at the text is
checked: a pass that cuts the text beyond its end or reads a byte outside of it gives nothing, and
so does a search that runs out of passes. It always gives an answer, so neither ever happens.
-/

namespace ImportAudit.Usage

open ImportAudit.Text

/-- What a pass comes to: an answer, or the place where the next pass begins. -/
inductive Pass
  | answered (found : Bool)
  | onward (place : Nat)
  deriving DecidableEq, Repr

def behind? (text : List UInt8) (place : Nat) : Option (List UInt8) :=
  if place ≤ text.length then some (text.drop place) else none

/-- Whether the byte at a place of the text belongs to no identifier. -/
def foreignAt? (text : List UInt8) (place : Nat) : Option Bool :=
  text[place]?.map fun byte => !isWordByte byte

/-- Whether no byte of an identifier touches the bytes from one place up to another. The byte
behind them is read only where the one in front of them does not decide. -/
def isApart? (text : List UInt8) (start stop : Nat) : Option Bool :=
  let detached? := if start = 0 then some true else foreignAt? text (start - 1)
  detached?.bind fun detached =>
    if detached then
      if stop = text.length then some true else foreignAt? text stop
    else
      some false

/-- One pass of the search for the name, from a place of the text. -/
def pass? (name text : List UInt8) (place : Nat) : Option Pass :=
  if place + name.length ≤ text.length then do
    let rest ← behind? text place
    match firstIndex? name rest with
    | none => some (.answered false)
    | some offset =>
      let apart ← isApart? text (place + offset) (place + offset + name.length)
      some (if apart then .answered true else .onward (place + offset + 1))
  else
    some (.answered false)

/-- The search from a place of the text, with at most so many passes. -/
def searchWithin? (name text : List UInt8) : Nat → Nat → Option Bool
  | 0, _ => none
  | limit + 1, place => do
    match ← pass? name text place with
    | .answered found => some found
    | .onward next => searchWithin? name text limit next

/-- The search from the start of the text, with at most so many passes. -/
def searchWord? (limit : Nat) (name text : List UInt8) : Option Bool :=
  if name.isEmpty then some false else searchWithin? name text limit 0

variable {name text : List UInt8}

/-! ## Looks at the text -/

theorem behind?_inside {place : Nat} (inside : place ≤ text.length) :
    behind? text place = some (text.drop place) :=
  if_pos inside

theorem foreignAt?_inside {place : Nat} (inside : place < text.length) :
    foreignAt? text place = some (!text[place]?.any isWordByte) := by
  simp [foreignAt?, inside]

/-- Both neighbours of a stretch inside the text can be looked at. -/
theorem isApart?_inside {start stop : Nat} (ordered : start ≤ stop) (inside : stop ≤ text.length) :
    isApart? text start stop = some (isApart text start stop) := by
  have inFront : (if start = 0 then some true else foreignAt? text (start - 1)) =
      some (start == 0 || !text[start - 1]?.any isWordByte) := by
    by_cases first : start = 0
    · simp [first]
    · rw [if_neg first, foreignAt?_inside (by omega)]
      simp [first]
  have inBack : (if stop = text.length then some true else foreignAt? text stop) =
      some (!text[stop]?.any isWordByte) := by
    by_cases last : stop = text.length
    · simp [last]
    · rw [if_neg last, foreignAt?_inside (by omega)]
  rw [isApart?, inFront, inBack, isApart]
  cases start == 0 || !text[start - 1]?.any isWordByte <;> rfl

/-! ## A pass, and the search -/

/-- What a pass from a place may come to. An answer is the right one for all places from there on,
and a pass goes on only behind places where the name does not stand by itself. -/
def Pass.Right (name text : List UInt8) (place : Nat) : Pass → Prop
  | .answered found => found = true ↔ ∃ start, place ≤ start ∧ StandsAt name text start
  | .onward next => place < next ∧ next ≤ text.length ∧
      ∀ start, place ≤ start → start < next → ¬ StandsAt name text start

theorem Pass.right_of_nowhere
    {place : Nat} (nowhere : ∀ start, place ≤ start → ¬ StandsAt name text start) :
    (Pass.answered false).Right name text place := by
  simp only [Pass.Right, Bool.false_eq_true, false_iff, not_exists, not_and]
  exact nowhere

theorem pass?_of_short
    {place : Nat} (short : ¬ place + name.length ≤ text.length) :
    pass? name text place = some (.answered false) :=
  if_neg short

theorem pass?_of_absent
    {place : Nat} (fits : place + name.length ≤ text.length)
    (absent : firstIndex? name (text.drop place) = none) :
    pass? name text place = some (.answered false) := by
  simp [pass?, fits, behind?_inside (by omega : place ≤ text.length), absent]

theorem pass?_of_found
    {place offset : Nat} (inside : place + offset + name.length ≤ text.length)
    (found : firstIndex? name (text.drop place) = some offset) :
    pass? name text place =
      some (if isApart text (place + offset) (place + offset + name.length) then .answered true
        else .onward (place + offset + 1)) := by
  have fits : place + name.length ≤ text.length := by omega
  have looked : isApart? text (place + offset) (place + offset + name.length) =
      some (isApart text (place + offset) (place + offset + name.length)) :=
    isApart?_inside (Nat.le_add_right (place + offset) name.length) inside
  simp [pass?, fits, behind?_inside (by omega : place ≤ text.length), found, looked]

/-- Every pass comes to something, without a look outside the text. -/
theorem pass?_right (nonempty : name ≠ []) (place : Nat) :
    ∃ pass, pass? name text place = some pass ∧ pass.Right name text place := by
  by_cases fits : place + name.length ≤ text.length
  · cases search : firstIndex? name (text.drop place) with
    | none =>
      refine ⟨.answered false, pass?_of_absent fits search, Pass.right_of_nowhere ?_⟩
      intro start behind
      exact not_standsAt_of_absent nonempty search behind
    | some offset =>
      have someBytes := List.length_pos_iff.mpr nonempty
      have occupied := (prefix_of_found nonempty search).length_le
      rw [List.length_drop] at occupied
      have here := standsAt_found_iff nonempty search
      refine ⟨_, pass?_of_found (by omega) search, ?_⟩
      split_ifs with apart
      · simp only [Pass.Right, true_iff]
        exact ⟨place + offset, Nat.le_add_right place offset, here.mpr apart⟩
      · refine ⟨by omega, by omega, ?_⟩
        intro start behind before
        -- Only the rejected occurrence itself is passed over, and whatever is in front of it.
        rcases Nat.lt_succ_iff_lt_or_eq.mp before with earlier | rfl
        · exact not_standsAt_of_earlier nonempty search behind earlier
        · exact fun stands => apart (here.mp stands)
  · refine ⟨.answered false, pass?_of_short fits, Pass.right_of_nowhere ?_⟩
    intro start behind
    exact not_standsAt_of_short fits behind

/-- A search with a pass for every place that is left gives the right answer. -/
theorem searchWithin?_right (nonempty : name ≠ []) {limit place : Nat}
    (inside : place ≤ text.length) (enough : text.length < place + limit) :
    ∃ found, searchWithin? name text limit place = some found ∧
      (found = true ↔ ∃ start, place ≤ start ∧ StandsAt name text start) := by
  induction limit generalizing place with
  | zero => omega
  | succ limit inductionHypothesis =>
    obtain ⟨pass, passed, right⟩ := pass?_right nonempty place
    cases pass with
    | answered found =>
      exact ⟨found, by simp [searchWithin?, passed], right⟩
    | onward next =>
      obtain ⟨later, nextInside, nothing⟩ := right
      obtain ⟨found, searched, answer⟩ := inductionHypothesis nextInside (by omega)
      refine ⟨found, by simp [searchWithin?, passed, searched], answer.trans ?_⟩
      -- The places that were passed over hold nothing, so both searches are for the same places.
      constructor
      · rintro ⟨start, behind, stands⟩
        exact ⟨start, by omega, stands⟩
      · rintro ⟨start, behind, stands⟩
        refine ⟨start, ?_, stands⟩
        by_contra earlier
        exact nothing start behind (by omega) stands

theorem searchWord?_right (name : List UInt8) {limit : Nat} (enough : text.length < limit) :
    ∃ found, searchWord? limit name text = some found ∧
      (found = true ↔ name ≠ [] ∧ StandsInBytes name text) := by
  by_cases empty : name = []
  · exact ⟨false, by simp [searchWord?, empty], by simp [empty]⟩
  · obtain ⟨found, searched, answer⟩ :=
      searchWithin?_right empty (Nat.zero_le text.length) (by omega : text.length < 0 + limit)
    refine ⟨found, by simp [searchWord?, empty, searched], ?_⟩
    rw [answer, standsInBytes_iff_standsAt]
    simp [empty]

theorem matches_word_iff_bytes {specifier name : String} :
    matches? .word specifier name = true ↔
      name ≠ "" ∧ StandsInBytes (bytesOf name) (bytesOf specifier) := by
  rw [matches_word_iff]
  refine and_congr_right fun nonempty => ?_
  rw [bytesOf_eq, bytesOf_eq, standsInBytes_iff (toList_ne_nil.mpr nonempty)]

theorem searchWord?_eq_matches
    (specifier name : String) {limit : Nat} (enough : (bytesOf specifier).length < limit) :
    searchWord? limit (bytesOf name) (bytesOf specifier) =
      some (matches? .word specifier name) := by
  obtain ⟨found, searched, answer⟩ := searchWord?_right (bytesOf name) enough
  have same : found = matches? .word specifier name := by
    rw [Bool.eq_iff_iff, answer, matches_word_iff_bytes, bytesOf_eq, bytes_ne_nil, toList_ne_nil]
  rw [searched, same]

/-- A name is used as a word exactly where it is not empty and stands among the bytes of the
specifier with no byte of an identifier on either side. With more passes than there are bytes the
search finds this out, and never looks outside the text: neither do searches of any other bytes,
nor does a single pass. What a pass leaves behind, inside a rejected occurrence too, is no place
where the name stands. -/
theorem words_standInBytes :
    (∀ specifier name : String,
      (matches? .word specifier name = true ↔
        name ≠ "" ∧ StandsInBytes (bytesOf name) (bytesOf specifier)) ∧
      ∀ limit, (bytesOf specifier).length < limit →
        searchWord? limit (bytesOf name) (bytesOf specifier) =
          some (matches? .word specifier name)) ∧
    (∀ (name text : List UInt8) (limit : Nat), text.length < limit →
      ∃ found, searchWord? limit name text = some found ∧
        (found = true ↔ name ≠ [] ∧ StandsInBytes name text)) ∧
    ∀ (name text : List UInt8) (place : Nat), name ≠ [] →
      ∃ pass, pass? name text place = some pass ∧ pass.Right name text place := by
  refine ⟨fun specifier name => ⟨matches_word_iff_bytes, fun limit enough => ?_⟩,
    fun name text limit enough => searchWord?_right name enough,
    fun name text place nonempty => pass?_right nonempty place⟩
  exact searchWord?_eq_matches specifier name enough

theorem words_standInBytes_overlapping :
    matches? .word "xé-é-é" "é-é" = true ∧
      searchWord? 10 (bytesOf "é-é") (bytesOf "xé-é-é") = some true ∧
      searchWord? 4 [0x80] [0x80, 0x2D, 0x80] = some true ∧
      pass? (bytesOf "é-é") (bytesOf "xé-é-é") 0 = some (.onward 2) ∧
      (Pass.onward 2).Right (bytesOf "é-é") (bytesOf "xé-é-é") 0 := by
  have text : bytesOf "xé-é-é" = [0x78, 0xC3, 0xA9, 0x2D, 0xC3, 0xA9, 0x2D, 0xC3, 0xA9] := rfl
  have name : bytesOf "é-é" = [0xC3, 0xA9, 0x2D, 0xC3, 0xA9] := rfl
  obtain ⟨strings, lists, passes⟩ := words_standInBytes
  obtain ⟨byBytes, searched⟩ := strings "xé-é-é" "é-é"
  have rejected := passes (bytesOf "é-é") (bytesOf "xé-é-é") 0
  rw [text, name] at byBytes searched rejected ⊢
  have dash : isWordByte 0x2D = false := by decide
  have used : matches? .word "xé-é-é" "é-é" = true :=
    byBytes.mpr ⟨by decide, [0x78, 0xC3, 0xA9, 0x2D], [], rfl, by simp [dash], by simp⟩
  obtain ⟨found, invalid, answer⟩ := lists [0x80] [0x80, 0x2D, 0x80] 4 (by decide)
  have foundThere : found = true :=
    answer.mpr ⟨by decide, [], [0x2D, 0x80], rfl, by simp, by simp [dash]⟩
  have onward : pass? [0xC3, 0xA9, 0x2D, 0xC3, 0xA9]
      [0x78, 0xC3, 0xA9, 0x2D, 0xC3, 0xA9, 0x2D, 0xC3, 0xA9] 0 = some (.onward 2) := by
    decide
  obtain ⟨pass, passed, right⟩ := rejected (by decide)
  cases onward.symm.trans passed
  refine ⟨used, ?_, foundThere ▸ invalid, onward, right⟩
  rw [searched 10 (by decide), used]

end ImportAudit.Usage
