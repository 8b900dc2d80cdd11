import ImportAudit.Proofs.Import.Reading
import ImportAudit.Proofs.Loop

/-!
# Looks at the places of a text

A scan that goes by the places of one text looks at it place by place. Every look is checked: one
beyond the end gives nothing. A place stands for the rest of the text that starts there, and a loop
over places does what a scan over rests does.
-/

namespace ImportAudit.Import

/-! ## Looks at the text -/

def behind? (text : List Char) (place : Nat) : Option (List Char) :=
  if place ≤ text.length then some (text.drop place) else none

def between? (text : List Char) (start stop : Nat) : Option (List Char) :=
  if start ≤ stop ∧ stop ≤ text.length then some ((text.drop start).take (stop - start)) else none

/-- The character at a place, and the null character beyond the end. -/
def peek (text : List Char) (place : Nat) : Char :=
  text[place]?.getD '\x00'

/-- Goes on by the character at a place of the text; at the end there is none. -/
def inspect? {α : Type} (text : List Char) (place : Nat) (atEnd : α) (go? : Char → Option α) :
    Option α :=
  if place < text.length then text[place]?.bind go? else some atEnd

/-- Goes on from a state with at most one turn for each place of the text, and one at its end. -/
def travel? {State Result : Type} (text : List Char)
    (turn? : State → Option (Turn State Result)) (state : State) : Option Result :=
  loop? turn? (text.length + 1) state

/-! ## Where a rest starts -/

/-- The place of a text where a rest of it starts. -/
def placeOf (text rest : List Char) : Nat :=
  text.length - rest.length

/-- The text goes on at the place with the rest. -/
structure At (text : List Char) (place : Nat) (rest : List Char) : Prop where
  inside : place ≤ text.length
  drop : text.drop place = rest

variable {text rest tail : List Char} {place : Nat} {c : Char}

theorem at_drop (inside : place ≤ text.length) : At text place (text.drop place) :=
  ⟨inside, rfl⟩

namespace At

theorem length (here : At text place rest) : place + rest.length = text.length := by
  have inside := here.inside
  rw [← here.drop, List.length_drop]
  omega

theorem placeOf_eq (here : At text place rest) : placeOf text rest = place := by
  have whole := here.length
  unfold placeOf
  omega

theorem suffix (here : At text place rest) : rest <:+ text :=
  here.drop ▸ List.drop_suffix place text

theorem behind (here : At text place rest) : behind? text place = some rest := by
  rw [behind?, if_pos here.inside, here.drop]

theorem ahead (here : At text place rest) {ahead : Nat} (fits : ahead ≤ rest.length) :
    At text (place + ahead) (rest.drop ahead) := by
  have whole := here.length
  refine ⟨by omega, ?_⟩
  rw [← List.drop_drop, here.drop]

theorem later (here : At text place rest) (later : tail <:+ rest) :
    At text (placeOf text tail) tail := by
  have whole := here.length
  have shorter := later.length_le
  have distance : placeOf text tail = place + (rest.length - tail.length) := by
    unfold placeOf
    omega
  have reached := here.ahead (Nat.sub_le rest.length tail.length)
  rwa [← List.suffix_iff_eq_drop.mp later, ← distance] at reached

theorem next (here : At text place (c :: rest)) : At text (place + 1) rest :=
  here.ahead (Nat.le_add_left 1 rest.length)

theorem look (here : At text place (c :: rest)) : text[place]? = some c := by
  rw [← List.head?_drop, here.drop, List.head?_cons]

theorem inspect_cons
    {α : Type} (here : At text place (c :: rest)) (atEnd : α) (go? : Char → Option α) :
    inspect? text place atEnd go? = go? c := by
  have inside : place < text.length := by
    have whole := here.length
    rw [List.length_cons] at whole
    omega
  rw [inspect?, if_pos inside, here.look, Option.bind_some]

theorem inspect_nil
    {α : Type} (here : At text place []) (atEnd : α) (go? : Char → Option α) :
    inspect? text place atEnd go? = some atEnd := by
  have atEnd : ¬ place < text.length := by
    have whole := here.length
    rw [List.length_nil] at whole
    omega
  rw [inspect?, if_neg atEnd]

/-- The look ahead finds a comment only where the text goes on with one. -/
theorem opens_iff
    (here : At text place (c :: rest)) {other : Char} (visible : other ≠ '\x00') :
    (c = '/' ∧ peek text (place + 1) = other) ↔ ∃ tail, c :: rest = '/' :: other :: tail := by
  rw [peek, ← List.head?_drop, here.next.drop]
  cases rest with
  | nil => simp [visible.symm]
  | cons head others => simp

theorem opensNone
    (here : At text place (c :: rest)) (noLine : ¬ (c = '/' ∧ peek text (place + 1) = '/'))
    (noBlock : ¬ (c = '/' ∧ peek text (place + 1) = '*')) : OpensNone c rest := by
  rw [here.opens_iff (by decide)] at noLine noBlock
  rintro rfl tail
  exact ⟨fun shape => noLine ⟨tail, by rw [shape]⟩, fun shape => noBlock ⟨tail, by rw [shape]⟩⟩

end At

theorem exists_at_cons (inside : place < text.length) : ∃ c rest, At text place (c :: rest) :=
  ⟨text[place], text.drop (place + 1), Nat.le_of_lt inside, List.drop_eq_getElem_cons inside⟩

/-! ## Loops over the places -/

theorem travel?_eq
    {State Result : Type} {turn? : State → Option (Turn State Result)}
    {course : Course State Result}
    (turns : ∀ state, course.inside state →
      ∃ turn, turn? state = some turn ∧ turn.Keeps course state)
    {state : State} (inside : course.inside state) (enough : course.left state ≤ text.length) :
    travel? text turn? state = some (course.value state) :=
  loop?_eq turns inside (Nat.lt_succ_of_le enough)

/-- The course of a loop that stops where the rest starts that `scan` leaves. -/
def placeCourse (text : List Char) (scan : List Char → List Char) : Course Nat Nat where
  inside place := place ≤ text.length
  left place := text.length - place
  value place := placeOf text (scan (text.drop place))

section Travel

variable {scan : List Char → List Char}

theorem keeps_done
    (here : At text place rest) {stop : Nat} (stops : placeOf text (scan rest) = stop) :
    (Turn.done stop).Keeps (placeCourse text scan) place := by
  rw [← stops, ← here.drop]
  rfl

theorem keeps_onward
    (here : At text place rest) {next : Nat} (later : At text next tail)
    (shorter : tail.length < rest.length) (same : scan tail = scan rest) :
    (Turn.onward next).Keeps (placeCourse text scan) place := by
  have whole := here.length
  have laterWhole := later.length
  refine ⟨later.inside, ?_, ?_⟩
  · simp only [placeCourse]
    omega
  · simp only [placeCourse, later.drop, here.drop, same]

theorem travel?_at
    {turn? : Nat → Option (Turn Nat Nat)}
    (turns : ∀ {place rest}, At text place rest →
      ∃ turn, turn? place = some turn ∧ turn.Keeps (placeCourse text scan) place)
    (here : At text place rest) :
    travel? text turn? place = some (placeOf text (scan rest)) := by
  rw [travel?_eq (fun place inside => turns (at_drop inside)) here.inside (Nat.sub_le _ _)]
  simp only [placeCourse, here.drop]

end Travel

end ImportAudit.Import
