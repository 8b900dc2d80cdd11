import ImportAudit.Proofs.Json.Strings

/-!
# Texts of one line

The text of a value has no control characters: those of its strings are escaped, and everything
else is punctuation, words and numbers. So the text is one line, whatever the value holds.
-/

namespace ImportAudit

def Printed (text : List Char) : Prop :=
  ∀ c ∈ text, 0x20 ≤ c.toNat

instance (text : List Char) : Decidable (Printed text) :=
  List.decidableBAll _ text

theorem Printed.append
    {front back : List Char} (first : Printed front) (second : Printed back) :
    Printed (front ++ back) :=
  List.forall_mem_append.mpr ⟨first, second⟩

theorem Printed.cons {c : Char} {text : List Char} (first : 0x20 ≤ c.toNat)
    (rest : Printed text) : Printed (c :: text) :=
  List.forall_mem_cons.mpr ⟨first, rest⟩

theorem Printed.take {text : List Char} (printed : Printed text) (count : Nat) :
    Printed (text.take count) :=
  fun c member => printed c (List.mem_of_mem_take member)

theorem Printed.drop {text : List Char} (printed : Printed text) (count : Nat) :
    Printed (text.drop count) :=
  fun c member => printed c (List.mem_of_mem_drop member)

theorem Printed.feedFree {text : List Char} (printed : Printed text) : '\n' ∉ text := by
  intro member
  exact absurd (printed '\n' member) (by decide)

/-! ## Numbers -/

namespace Number

theorem printed_decimalDigits (n : Nat) : Printed (decimalDigits n) := by
  intro c member
  have digit := Nat.isDigit_of_mem_toDigits (by decide) (by decide) member
  rw [Char.isDigit, Bool.and_eq_true, decide_eq_true_eq, decide_eq_true_eq] at digit
  exact Nat.le_trans (by decide) digit.1

theorem printed_zeros (count : Nat) : Printed (zeros count) := by
  intro c member
  rw [List.eq_of_mem_replicate member]
  decide

theorem printed_positional (digits : Nat) (power : Int) : Printed (positional digits power) := by
  have text := printed_decimalDigits digits
  rw [positional]
  dsimp only
  split
  · exact text.append (printed_zeros _)
  · split
    · exact (text.take _).append ((text.drop _).cons (by decide))
    · refine Printed.append (Printed.append ?_ (printed_zeros _)) text
      decide

theorem printed_scientific (width digits : Nat) (power : Int) :
    Printed (scientific width digits power) := by
  have text := printed_decimalDigits digits
  have fraction : Printed
      (if (decimalDigits digits).length ≤ 1 then [] else '.' :: (decimalDigits digits).drop 1) := by
    split
    · exact List.forall_mem_nil _
    · exact (text.drop 1).cons (by decide)
  have sign : Printed ['e', if leadingExponent digits power < 0 then '-' else '+'] := by
    split
    · decide
    · decide
  exact ((((text.take 1).append fraction).append sign).append (printed_zeros _)).append
    (printed_decimalDigits _)

theorem printed_signed {value : Binary} {magnitude : List Char} (printed : Printed magnitude) :
    Printed (signed value magnitude).toList := by
  rw [signed, String.toList_ofList]
  split
  · exact printed.cons (by decide)
  · exact printed

theorem printed_dataText (value : Binary) : Printed (dataText value).toList := by
  unfold dataText
  dsimp only
  split
  · exact printed_signed (printed_positional _ _)
  · exact printed_signed (printed_scientific _ _ _)

theorem printed_integer (value : Int) : Printed (toString value).toList := by
  rw [Int.toString_eq_repr]
  cases value with
  | ofNat n =>
    rw [Int.repr, Nat.repr_eq_ofList_toDigits, String.toList_ofList]
    exact printed_decimalDigits n
  | negSucc n =>
    rw [Int.repr, Nat.repr_eq_ofList_toDigits, String.toList_append]
    refine Printed.append (by decide) ?_
    rw [String.toList_ofList]
    exact printed_decimalDigits _

end Number

namespace Json

/-! ## Values -/

theorem printed_hexDigits (width n : Nat) : Printed (Text.hexDigits width n) := by
  induction width generalizing n with
  | zero => exact List.forall_mem_nil _
  | succ width inductionHypothesis =>
    have all : ∀ digit : Fin 16, 0x20 ≤ (Text.hexDigit digit).toNat := by decide
    have last := all ⟨n % 16, Nat.mod_lt n (by decide)⟩
    exact (inductionHypothesis (n / 16)).append (Printed.cons last (List.forall_mem_nil _))

theorem printed_escapeChar (escaping : Escaping) (c : Char) : Printed (escapeChar escaping c) := by
  rcases escapeChar_cases escaping c with
    ⟨letter, shape, named⟩ | ⟨shape, small⟩ | ⟨shape, notQuote, notEscape, printed⟩
  · rw [shape]
    refine Printed.cons (by decide) (Printed.cons ?_ (List.forall_mem_nil _))
    obtain ⟨before, after, listed, _⟩ := List.lookup_eq_some_iff.mp named
    have letters : Printed ['"', '\\', '/', 'b', 'f', 'n', 'r', 't'] := by decide
    have keys := congrArg (List.map Prod.fst) listed
    rw [List.map_append, List.map_cons] at keys
    exact letters letter (keys ▸ List.mem_append_right _ List.mem_cons_self)
  · rw [shape]
    exact Printed.append (by decide) (printed_hexDigits 4 c.toNat)
  · rw [shape]
    exact Printed.cons printed (List.forall_mem_nil _)

theorem printed_quote (escaping : Escaping) (text : String) :
    Printed (quote escaping text).toList := by
  rw [quote, String.toList_ofList]
  refine Printed.append (Printed.cons (by decide) ?_) (by decide)
  intro c member
  obtain ⟨written, _, inWritten⟩ := List.mem_flatMap.mp member
  exact printed_escapeChar escaping written c inWritten

theorem printed_intercalate
    {texts : List String} (printed : ∀ text ∈ texts, Printed text.toList) :
    Printed (String.intercalate "," texts).toList := by
  induction texts with
  | nil => exact List.forall_mem_nil _
  | cons first rest inductionHypothesis =>
    obtain ⟨printedFirst, printedRest⟩ := List.forall_mem_cons.mp printed
    by_cases alone : rest = []
    · rw [alone, String.intercalate_singleton]
      exact printedFirst
    · rw [String.intercalate_cons_of_ne_nil alone, String.toList_append, String.toList_append]
      exact (printedFirst.append (by decide)).append (inductionHypothesis printedRest)

mutual

/-- The text of a value has no control characters. -/
theorem printed_render (escaping : Escaping) (value : Json) :
    Printed (render escaping value).toList := by
  cases value with
  | null =>
    rw [render]
    decide
  | bool value =>
    rw [render]
    cases value with
    | false => decide
    | true => decide
  | integer value => exact Number.printed_integer value
  | number value => exact Number.printed_dataText _
  | string value => exact printed_quote escaping value
  | array items =>
    rw [render, String.toList_append, String.toList_append]
    exact ((show Printed _ by decide).append
      (printed_intercalate (printed_renderItems escaping items))).append (by decide)
  | object fields =>
    rw [render, String.toList_append, String.toList_append]
    exact ((show Printed _ by decide).append
      (printed_intercalate (printed_renderFields escaping fields))).append (by decide)

theorem printed_renderItems (escaping : Escaping) (items : List Json) :
    ∀ text ∈ renderItems escaping items, Printed text.toList := by
  cases items with
  | nil => exact List.forall_mem_nil _
  | cons item rest =>
    exact List.forall_mem_cons.mpr
      ⟨printed_render escaping item, printed_renderItems escaping rest⟩

theorem printed_renderFields (escaping : Escaping) (fields : List (String × Json)) :
    ∀ text ∈ renderFields escaping fields, Printed text.toList := by
  match fields with
  | [] => exact List.forall_mem_nil _
  | (name, value) :: rest =>
    refine List.forall_mem_cons.mpr ⟨?_, printed_renderFields escaping rest⟩
    rw [String.toList_append, String.toList_append]
    exact ((printed_quote escaping name).append (by decide)).append
      (printed_render escaping value)

end

end Json

end ImportAudit
