import ImportAudit.Proofs.Text.Splitting
import Mathlib.Data.List.Infix

/-!
# Occurrences in text

Where a part can occur in a text made of pieces: an occurrence never reaches over a character that
is not in the part. So searching, cutting and removing pass over everything in front of such a
character in which the part does not occur.
-/

namespace ImportAudit.Text

/-! ## Occurrences -/

theorem occurs_iff {part text : List Char} : occurs part text = true ↔ part <:+: text := by
  induction text with
  | nil => simp [occurs]
  | cons head tail inductionHypothesis =>
    rw [occurs, Bool.or_eq_true, inductionHypothesis, List.isPrefixOf_iff_prefix,
      List.infix_cons_iff]

theorem not_infix_of_occurs
    {part text : List Char} (absent : occurs part text = false) : ¬ part <:+: text := by
  intro present
  rw [occurs_iff.mpr present] at absent
  cases absent

/-- An occurrence lies on one side of a character that is not in the part. -/
theorem infix_of_append_cons
    {part front back : List Char} {c : Char} (outside : c ∉ part)
    (present : part <:+: front ++ c :: back) : part <:+: front ∨ part <:+: back := by
  obtain ⟨before, after, whole⟩ := present
  rw [List.append_assoc, List.append_eq_append_iff] at whole
  -- The occurrence starts in the front, or at the character or behind it.
  rcases whole with ⟨middle, rfl, shape⟩ | ⟨middle, rfl, shape⟩
  · rw [List.append_eq_append_iff] at shape
    rcases shape with ⟨rest, rfl, _⟩ | ⟨rest, rfl, shape⟩
    · exact Or.inl ⟨before, rest, by simp⟩
    · cases rest with
      | nil => exact Or.inl ⟨before, [], by simp⟩
      | cons first others =>
        cases shape
        simp at outside
  · cases middle with
    | nil =>
      cases part with
      | nil => exact Or.inl List.nil_infix
      | cons first others =>
        cases shape
        simp at outside
    | cons first others =>
      cases shape
      exact Or.inr ⟨others, after, by simp⟩

/-- A text in which a part does not occur, and which ends with a character that is not in it. -/
structure Clear (part text : List Char) : Prop where
  absent : ¬ part <:+: text
  ends : ∀ c, text.getLast? = some c → c ∉ part

theorem Clear.tail
    {part : List Char} {head : Char} {tail : List Char} (clear : Clear part (head :: tail)) :
    Clear part tail := by
  refine ⟨fun present => clear.absent (List.infix_cons present), fun c last => ?_⟩
  refine clear.ends c ?_
  cases tail with
  | nil => cases last
  | cons next others => simpa using last

/-- A clear text stays clear behind a text without the part and a character that is not in it. -/
theorem Clear.append
    {part front back : List Char} {c : Char} (absentFront : ¬ part <:+: front) (outside : c ∉ part)
    (clear : Clear part back) : Clear part (front ++ c :: back) := by
  refine ⟨fun present => ?_, fun last found => ?_⟩
  · rcases infix_of_append_cons outside present with inFront | inBack
    · exact absentFront inFront
    · exact clear.absent inBack
  · rw [List.getLast?_append] at found
    cases back with
    | nil =>
      simp at found
      exact found ▸ outside
    | cons next others =>
      refine clear.ends last ?_
      simpa using found

/-- No occurrence starts in a clear text, whatever follows it. -/
theorem Clear.not_starts
    {part text : List Char} (clear : Clear part text) (nonempty : text ≠ []) (rest : List Char) :
    ¬ part <+: text ++ rest := by
  intro starts
  rcases List.prefix_or_prefix_of_prefix starts (List.prefix_append text rest) with
    inside | reaches
  · exact clear.absent inside.isInfix
  · have last := List.getLast?_eq_some_getLast nonempty
    have lastMember : text.getLast nonempty ∈ part :=
      reaches.subset (List.getLast_mem nonempty)
    exact clear.ends _ last lastMember

theorem before_append
    {part text : List Char} (clear : Clear part text) (rest : List Char) :
    before part (text ++ rest) = text ++ before part rest := by
  induction text with
  | nil => rfl
  | cons head tail inductionHypothesis =>
    have notHere := clear.not_starts (List.cons_ne_nil head tail) rest
    rw [← List.isPrefixOf_iff_prefix] at notHere
    rw [List.cons_append] at notHere ⊢
    rw [before, if_neg notHere, inductionHypothesis clear.tail, List.cons_append]

theorem before_self {part : List Char} (nonempty : part ≠ []) (rest : List Char) :
    before part (part ++ rest) = [] := by
  cases part with
  | nil => exact absurd rfl nonempty
  | cons head tail =>
    have starts : (head :: tail).isPrefixOf (head :: (tail ++ rest)) = true :=
      List.isPrefixOf_iff_prefix.mpr (List.prefix_append (head :: tail) rest)
    rw [List.cons_append, before, if_pos starts]

theorem prefix_before (part text : List Char) : before part text <+: text := by
  induction text with
  | nil => exact List.prefix_refl []
  | cons head tail inductionHypothesis =>
    rw [before]
    split
    · exact List.nil_prefix
    · exact List.cons_prefix_cons.mpr ⟨rfl, inductionHypothesis⟩

/-- Nothing is left of a part where a text is cut before its first occurrence. -/
theorem not_infix_before
    {part : List Char} (nonempty : part ≠ []) (text : List Char) :
    ¬ part <:+: before part text := by
  induction text with
  | nil => simpa [before] using nonempty
  | cons head tail inductionHypothesis =>
    rw [before]
    split
    · simpa using nonempty
    · rename_i notHere
      intro present
      rcases List.infix_cons_iff.mp present with starts | later
      · have kept : head :: before part tail <+: head :: tail :=
          List.cons_prefix_cons.mpr ⟨rfl, prefix_before part tail⟩
        exact notHere (List.isPrefixOf_iff_prefix.mpr (starts.trans kept))
      · exact inductionHypothesis later

/-- A clear text stays when a longer part is removed. -/
theorem removeAll_append
    {key part text : List Char} (starts : key <+: part) (clear : Clear key text)
    (rest : List Char) :
    removeAll part (text ++ rest) = text ++ removeAll part rest := by
  induction text with
  | nil => rfl
  | cons head tail inductionHypothesis =>
    have notHere : ¬ part <+: head :: (tail ++ rest) := by
      intro here
      exact clear.not_starts (List.cons_ne_nil head tail) rest (starts.trans here)
    rw [← List.isPrefixOf_iff_prefix] at notHere
    rw [List.cons_append, removeAll, if_neg (by simp [notHere]),
      inductionHypothesis clear.tail, List.cons_append]

theorem removeAll_self {part : List Char} (nonempty : part ≠ []) (rest : List Char) :
    removeAll part (part ++ rest) = removeAll part rest := by
  cases part with
  | nil => exact absurd rfl nonempty
  | cons head tail =>
    have starts : (head :: tail).isPrefixOf (head :: (tail ++ rest)) = true :=
      List.isPrefixOf_iff_prefix.mpr (List.prefix_append (head :: tail) rest)
    rw [List.cons_append, removeAll, if_pos (by simp [starts])]
    simp

theorem prefix_append_stop_iff
    {part : List Char} {c : Char} (outside : c ∉ part) (front back : List Char) :
    part <+: front ++ c :: back ↔ part <+: front := by
  refine ⟨fun starts => ?_, fun starts => starts.trans (List.prefix_append front _)⟩
  rcases List.prefix_or_prefix_of_prefix starts (List.prefix_append front (c :: back)) with
    inside | ⟨rest, rfl⟩
  · exact inside
  · rw [List.prefix_append_right_inj] at starts
    cases rest with
    | nil => simp
    | cons head tail =>
      have same : head = c := (List.cons_prefix_cons.mp starts).1
      simp [same] at outside

/-- Removing a part works on both sides of a character that is not in it. -/
theorem removeAll_append_stop
    {part : List Char} {c : Char} (outside : c ∉ part) (front back : List Char) :
    removeAll part (front ++ c :: back) = removeAll part front ++ c :: removeAll part back := by
  have reaches := prefix_append_stop_iff outside
  simp only [← List.isPrefixOf_iff_prefix] at reaches
  fun_induction removeAll part front with
  | case1 =>
    have notHere : ¬ (!part.isEmpty && part.isPrefixOf (c :: back)) = true := by
      have atStart := reaches [] back
      cases part with
      | nil => simp
      | cons head tail => simpa using atStart
    rw [List.nil_append, removeAll, if_neg notHere, List.nil_append]
  | case2 head rest starts inductionHypothesis =>
    obtain ⟨nonempty, here⟩ := (Bool.and_eq_true _ _).mp starts
    have long : part.length - 1 ≤ rest.length := by
      have bound := (List.isPrefixOf_iff_prefix.mp here).length_le
      simp only [List.length_cons] at bound
      omega
    have alsoHere := (reaches (head :: rest) back).mpr here
    rw [List.cons_append] at alsoHere ⊢
    rw [removeAll, if_pos (by rw [nonempty, alsoHere]; rfl), List.drop_append_of_le_length long,
      inductionHypothesis]
  | case3 head rest starts inductionHypothesis =>
    have notHere : ¬ (!part.isEmpty && part.isPrefixOf (head :: (rest ++ c :: back))) = true := by
      rw [← List.cons_append, Bool.and_eq_true, reaches (head :: rest) back, ← Bool.and_eq_true]
      exact starts
    rw [List.cons_append, removeAll, if_neg notHere, inductionHypothesis, List.cons_append]

theorem removeAll_subset (part text : List Char) : removeAll part text ⊆ text := by
  fun_induction removeAll part text with
  | case1 => exact List.Subset.refl []
  | case2 head rest starts inductionHypothesis =>
    have dropped : rest.drop (part.length - 1) ⊆ head :: rest :=
      List.Subset.trans (List.drop_subset _ rest) (List.subset_cons_self head rest)
    exact List.Subset.trans inductionHypothesis dropped
  | case3 head rest starts inductionHypothesis =>
    exact List.cons_subset_cons head inductionHypothesis

/-! ## Trimming -/

/-- A text that starts and ends with a character that is not white space. -/
structure Trimmed (text : List Char) : Prop where
  starts : ∃ head tail, text = head :: tail ∧ isSpace head = false
  ends : ∃ front last, text = front ++ [last] ∧ isSpace last = false

theorem dropWhile_append_of_all
    {test : Char → Bool} {front : List Char} (passes : ∀ c ∈ front, test c = true)
    {head : Char} (stops : test head = false) (tail : List Char) :
    (front ++ head :: tail).dropWhile test = head :: tail := by
  rw [dropWhile_append_stop stops, List.dropWhile_eq_nil_iff.mpr passes, List.nil_append]

/-- Trimming takes away what surrounds a trimmed text. -/
theorem trimChars_padded
    {left right text : List Char} (leftSpace : ∀ c ∈ left, isSpace c = true)
    (rightSpace : ∀ c ∈ right, isSpace c = true) (trimmed : Trimmed text) :
    trimChars (left ++ text ++ right) = text := by
  obtain ⟨head, tail, startShape, headSolid⟩ := trimmed.starts
  obtain ⟨front, last, endShape, lastSolid⟩ := trimmed.ends
  have startsAt : (left ++ text ++ right).dropWhile isSpace = text ++ right := by
    rw [startShape, List.append_assoc, List.cons_append,
      dropWhile_append_of_all leftSpace headSolid]
  have endsAt : (text ++ right).reverse.dropWhile isSpace = text.reverse := by
    rw [List.reverse_append, endShape, List.reverse_append, List.reverse_singleton,
      List.singleton_append]
    exact dropWhile_append_of_all
      (fun c member => rightSpace c (List.mem_reverse.mp member)) lastSolid front.reverse
  rw [trimChars, startsAt, endsAt, List.reverse_reverse]

theorem prefix_trimChars (text : List Char) : trimChars text <+: text.dropWhile isSpace := by
  rw [← List.reverse_suffix, trimChars, List.reverse_reverse]
  exact List.dropWhile_suffix isSpace

theorem infix_trimChars (text : List Char) : trimChars text <:+: text :=
  (prefix_trimChars text).isInfix.trans (List.dropWhile_suffix isSpace).isInfix

/-- What trimming leaves is trimmed, if it leaves anything. -/
theorem trimmed_trimChars
    {text : List Char} (nonempty : trimChars text ≠ []) : Trimmed (trimChars text) := by
  constructor
  · -- What is trimmed at the end still starts like the text that was trimmed at the front.
    obtain ⟨head, tail, starts⟩ := List.exists_cons_of_ne_nil nonempty
    obtain ⟨more, rest⟩ := prefix_trimChars text
    rw [starts, List.cons_append] at rest
    refine ⟨head, tail, starts, ?_⟩
    simpa [← rest] using List.head?_dropWhile_not isSpace text
  · have some : (text.dropWhile isSpace).reverse.dropWhile isSpace ≠ [] := by
      intro none
      exact nonempty (by rw [trimChars, none]; rfl)
    obtain ⟨last, others, shape⟩ := List.exists_cons_of_ne_nil some
    refine ⟨others.reverse, last, ?_, ?_⟩
    · rw [trimChars, shape, List.reverse_cons]
    · simpa [shape] using List.head?_dropWhile_not isSpace (text.dropWhile isSpace).reverse

@[simp]
theorem trimChars_space (text : List Char) : trimChars (' ' :: text) = trimChars text := by
  rw [trimChars, List.dropWhile_cons_of_pos (by decide)]
  rfl

/-- Trimming leaves what follows a trimmed front behind it. -/
theorem trimChars_append
    {front : List Char} (trimmed : Trimmed front) (text : List Char) :
    ∃ more, trimChars (front ++ text) = front ++ more := by
  obtain ⟨head, tail, startShape, headSolid⟩ := trimmed.starts
  obtain ⟨initial, last, endShape, lastSolid⟩ := trimmed.ends
  have startsAt : (front ++ text).dropWhile isSpace = front ++ text := by
    rw [startShape, List.cons_append, List.dropWhile_cons_of_neg (by simp [headSolid])]
  have reversed : front.reverse = last :: initial.reverse := by
    rw [endShape, List.reverse_append, List.reverse_singleton, List.singleton_append]
  refine ⟨(text.reverse.dropWhile isSpace).reverse, ?_⟩
  rw [trimChars, startsAt, List.reverse_append, reversed, dropWhile_append_stop lastSolid,
    List.reverse_append, ← reversed, List.reverse_reverse]

end ImportAudit.Text
