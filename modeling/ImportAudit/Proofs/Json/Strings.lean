import ImportAudit.Json.Reading
import Mathlib.Tactic.SplitIfs

/-!
# Strings read back

However far a string is escaped, reading it gives the string again and stops behind its closing
quote. A character is escaped by a letter, by its code point in four digits, or not at all; code
points beyond four digits are never escaped, so no half of a character is ever written.
-/

namespace ImportAudit.Json

/-! ## Code points -/

theorem digitValue?_hexDigit {digit : Nat} (small : digit < 16) :
    Number.digitValue? (Text.hexDigit digit) = some digit := by
  have all : ∀ digit : Fin 16, Number.digitValue? (Text.hexDigit digit) = some digit.val := by
    decide
  exact all ⟨digit, small⟩

theorem hexPoint?_hexDigits {point : Nat} (small : point < 0x10000) :
    hexPoint? (Text.hexDigits 4 point) = some point := by
  have digit (n : Nat) : (Number.digitValue? (Text.hexDigit (n % 16))).filter (· < 16) =
      some (n % 16) := by
    rw [digitValue?_hexDigit (Nat.mod_lt n (by decide))]
    simp [Option.filter, Nat.mod_lt]
  simp only [Text.hexDigits, List.nil_append, List.cons_append, hexPoint?, List.foldl_cons,
    List.foldl_nil, digit]
  congr 1
  omega

/-! ## Escaped characters -/

/-- A character is written by a letter, by its code point, or as it is. -/
theorem escapeChar_cases (escaping : Escaping) (c : Char) :
    (∃ letter, escapeChar escaping c = ['\\', letter] ∧ namedChar? letter = some c) ∨
      (escapeChar escaping c = escapePoint c ∧ c.toNat < 0xD800) ∨
        (escapeChar escaping c = [c] ∧ c ≠ '"' ∧ c ≠ '\\' ∧ 0x20 ≤ c.toNat) := by
  unfold escapeChar
  split
  · rename_i special
    have isSpecial : c = '"' ∨ c = '\\' := by simpa using special
    refine Or.inl ⟨c, rfl, ?_⟩
    rcases isSpecial with rfl | rfl
    · rfl
    · rfl
  · rename_i plain
    obtain ⟨notQuote, notEscape⟩ : c ≠ '"' ∧ c ≠ '\\' := by simpa using plain
    split_ifs with feed carriage tab back form control markup separator
    · exact Or.inl ⟨'n', rfl, feed ▸ rfl⟩
    · exact Or.inl ⟨'r', rfl, carriage ▸ rfl⟩
    · exact Or.inl ⟨'t', rfl, tab ▸ rfl⟩
    · obtain ⟨_, rfl⟩ : escaping.letters = true ∧ c = '\x08' := by simpa using back
      exact Or.inl ⟨'b', rfl, rfl⟩
    · obtain ⟨_, rfl⟩ : escaping.letters = true ∧ c = '\x0c' := by simpa using form
      exact Or.inl ⟨'f', rfl, rfl⟩
    · exact Or.inr (Or.inl ⟨rfl, Nat.lt_trans control (by decide)⟩)
    · have isMarkup : c = '<' ∨ c = '>' ∨ c = '&' := by
        simpa [or_assoc] using (Bool.and_eq_true_iff.mp markup).2
      refine Or.inr (Or.inl ⟨rfl, ?_⟩)
      rcases isMarkup with rfl | rfl | rfl
      · decide
      · decide
      · decide
    · have isSeparator : c = '\u2028' ∨ c = '\u2029' := by simpa using separator
      refine Or.inr (Or.inl ⟨rfl, ?_⟩)
      rcases isSeparator with rfl | rfl
      · decide
      · decide
    · exact Or.inr (Or.inr ⟨rfl, notQuote, notEscape, Nat.le_of_not_lt control⟩)

/-! ## Reading -/

theorem readString_named
    {letter c : Char} (named : namedChar? letter = some c) (rest : List Char) :
    readString none ('\\' :: letter :: rest) = prepend [c] (readString none rest) := by
  have notPoint : letter ≠ 'u' := by
    rintro rfl
    cases named
  rw [readString]
  · rw [named]
    rfl
  · intro _ _ _ _ _ same
    exact absurd same notPoint

theorem readString_point {c : Char} (small : c.toNat < 0xD800) (rest : List Char) :
    readString none (escapePoint c ++ rest) = prepend [c] (readString none rest) := by
  have read := hexPoint?_hexDigits (Nat.lt_trans small (by decide))
  have high : isHighHalf c.toNat = false := by
    rw [isHighHalf, decide_eq_false (Nat.not_le.mpr small), Bool.false_and]
  have low : isLowHalf c.toNat = false := by
    rw [isLowHalf, decide_eq_false (by omega), Bool.false_and]
  simp only [escapePoint, Text.hexDigits, List.nil_append, List.cons_append] at read ⊢
  rw [readString, read]
  simp [high, low, lonelyHalf]

theorem readString_plain
    {c : Char} (notQuote : c ≠ '"') (notEscape : c ≠ '\\') (printed : 0x20 ≤ c.toNat)
    (rest : List Char) :
    readString none (c :: rest) = prepend [c] (readString none rest) := by
  have passes : ¬ (c = '\\' || c.toNat < 0x20) = true := by
    simp [notEscape, printed]
  rw [readString, if_neg passes]
  · rfl
  · exact notQuote
  · intro _ _ _ _ _ same
    exact absurd same notEscape
  · intro _ _ same
    exact absurd same notEscape

theorem readString_escapeChar (escaping : Escaping) (c : Char) (rest : List Char) :
    readString none (escapeChar escaping c ++ rest) = prepend [c] (readString none rest) := by
  rcases escapeChar_cases escaping c with
    ⟨letter, shape, named⟩ | ⟨shape, small⟩ | ⟨shape, notQuote, notEscape, printed⟩
  · rw [shape]
    exact readString_named named rest
  · rw [shape]
    exact readString_point small rest
  · rw [shape]
    exact readString_plain notQuote notEscape printed rest

/-- A string that was escaped is read back, up to its closing quote. -/
theorem readString_escaped (escaping : Escaping) (text rest : List Char) :
    readString none (text.flatMap (escapeChar escaping) ++ '"' :: rest) =
      some (text, rest) := by
  induction text with
  | nil => rfl
  | cons c others inductionHypothesis =>
    rw [List.flatMap_cons, List.append_assoc, readString_escapeChar, inductionHypothesis]
    rfl

end ImportAudit.Json
