import ImportAudit.Text.Word
import Mathlib.Data.List.Infix

/-!
# Text as bytes

The UTF-8 bytes of a text. The first byte of a character tells it apart from the inside of
another, so the bytes of one text are found in those of another only where its characters are.
Every byte of a character outside ASCII counts as one of an identifier, as the character does.
-/

namespace ImportAudit.Text

def bytes (text : List Char) : List UInt8 :=
  text.flatMap String.utf8EncodeChar

def bytesOf (text : String) : List UInt8 :=
  text.toUTF8.data.toList

theorem bytesOf_eq (text : String) : bytesOf text = bytes text.toList := by
  rw [bytesOf, String.toUTF8_eq_toByteArray, ← String.utf8Encode_toList, List.utf8Encode,
    List.toList_data_toByteArray]
  rfl

@[simp]
theorem bytes_nil : bytes [] = [] :=
  rfl

@[simp]
theorem bytes_cons (c : Char) (rest : List Char) :
    bytes (c :: rest) = String.utf8EncodeChar c ++ bytes rest :=
  List.flatMap_cons

@[simp]
theorem bytes_append (front back : List Char) : bytes (front ++ back) = bytes front ++ bytes back :=
  List.flatMap_append

theorem bytes_ne_nil {text : List Char} : bytes text ≠ [] ↔ text ≠ [] := by
  cases text with
  | nil => simp
  | cons c rest => simp [String.utf8EncodeChar_ne_nil]

theorem fromUTF8?_toUTF8 (text : String) : String.fromUTF8? text.toUTF8 = some text := by
  unfold String.fromUTF8?
  split
  · rfl
  · rename_i invalid
    exact absurd text.isValidUTF8 invalid

/-! ## Where characters start -/

/-- Only the first byte of a character can start one. -/
theorem exists_first_byte (c : Char) :
    ∃ first others, String.utf8EncodeChar c = first :: others ∧ first.IsUTF8FirstByte ∧
      ∀ byte ∈ others, ¬ byte.IsUTF8FirstByte := by
  obtain ⟨first, others, shape⟩ :=
    List.exists_cons_of_ne_nil (String.utf8EncodeChar_ne_nil (c := c))
  have starts (place : Nat) (inside : place < (String.utf8EncodeChar c).length) :
      (String.utf8EncodeChar c)[place].IsUTF8FirstByte ↔ place = 0 :=
    UInt8.isUTF8FirstByte_getElem_utf8EncodeChar
  simp only [shape] at starts
  refine ⟨first, others, shape, (starts 0 (by simp)).mpr rfl, fun byte member starting => ?_⟩
  obtain ⟨place, inside, rfl⟩ := List.getElem_of_mem member
  have atStart := (starts (place + 1) (by simpa using inside)).mp (by simpa using starting)
  omega

theorem prefix_of_bytes_prefix
    {name text : List Char} (starts : bytes name <+: bytes text) : name <+: text := by
  obtain ⟨rest, whole⟩ := starts
  refine List.isPrefix_of_utf8Encode_append_eq_utf8Encode rest.toByteArray ?_
  rw [List.utf8Encode, List.utf8Encode, ← List.toByteArray_append]
  exact congrArg List.toByteArray whole

/-- What starts behind the start of a character, and can start one, starts behind its end. -/
theorem exists_behind
    {c : Char} {before text rest : List UInt8} {first : UInt8} (later : before ≠ [])
    (starts : first.IsUTF8FirstByte)
    (whole : String.utf8EncodeChar c ++ rest = before ++ first :: text) :
    ∃ between, before = String.utf8EncodeChar c ++ between ∧ rest = between ++ first :: text := by
  rcases List.append_eq_append_iff.mp whole with ⟨between, shape, split⟩ | ⟨inside, shape, split⟩
  · exact ⟨between, shape, split⟩
  · cases inside with
    | nil => exact ⟨[], by simp [shape], split.symm⟩
    | cons byte others =>
      obtain ⟨opening, inner, charShape, _, cannotStart⟩ := exists_first_byte c
      obtain ⟨earlier, more, rfl⟩ := List.exists_cons_of_ne_nil later
      rw [charShape, List.cons_append, List.cons.injEq] at shape
      rw [List.cons_append, List.cons.injEq] at split
      have byteInside : byte ∈ inner := by
        rw [shape.2]
        exact List.mem_append_right more List.mem_cons_self
      exact absurd (split.1 ▸ starts) (cannotStart byte byteInside)

/-- The bytes of a name are found only where the name is, and what surrounds them are the bytes of
what surrounds it. -/
theorem exists_chars_of_bytes
    {name text : List Char} (nonempty : name ≠ []) {before after : List UInt8}
    (whole : bytes text = before ++ (bytes name ++ after)) :
    ∃ front back, text = front ++ (name ++ back) ∧ bytes front = before ∧ bytes back = after := by
  by_cases atStart : before = []
  · subst atStart
    obtain ⟨back, rfl⟩ := prefix_of_bytes_prefix ⟨after, whole.symm⟩
    rw [bytes_append, List.nil_append] at whole
    exact ⟨[], back, rfl, rfl, List.append_cancel_left whole⟩
  · obtain ⟨head, tail, rfl⟩ := List.exists_cons_of_ne_nil nonempty
    obtain ⟨first, others, shape, starts, _⟩ := exists_first_byte head
    cases text with
    | nil => simp [shape] at whole
    | cons c rest =>
      have split : String.utf8EncodeChar c ++ bytes rest =
          before ++ first :: (others ++ bytes tail ++ after) := by
        rw [← bytes_cons, whole, bytes_cons, shape]
        rfl
      obtain ⟨between, rfl, restShape⟩ := exists_behind atStart starts split
      have found : bytes rest = between ++ (bytes (head :: tail) ++ after) := by
        rw [restShape, bytes_cons, shape]
        rfl
      obtain ⟨front, back, rfl, rfl, sameBack⟩ := exists_chars_of_bytes nonempty found
      exact ⟨c :: front, back, rfl, bytes_cons c front, sameBack⟩

/-- A text occurs in another one exactly if its bytes do. -/
theorem bytes_infix_iff {name text : List Char} : bytes name <:+: bytes text ↔ name <:+: text := by
  constructor
  · rintro ⟨before, after, whole⟩
    by_cases empty : name = []
    · rw [empty]
      exact List.nil_infix
    · obtain ⟨front, back, split, _, _⟩ :=
        exists_chars_of_bytes empty (by rw [← whole, List.append_assoc])
      exact ⟨front, back, by rw [split, List.append_assoc]⟩
  · rintro ⟨front, back, rfl⟩
    exact ⟨bytes front, bytes back, by simp⟩

/-! ## Bytes of identifiers -/

/-- A byte of an identifier: a letter, a digit, `_`, `$`, or any byte outside ASCII. -/
def isWordByte (byte : UInt8) : Bool :=
  byte == 0x5F || byte == 0x24 || (0x61 ≤ byte && byte ≤ 0x7A) || (0x41 ≤ byte && byte ≤ 0x5A) ||
    (0x30 ≤ byte && byte ≤ 0x39) || 0x80 ≤ byte

/-- Below the limit of ASCII a character and its byte are the same number. -/
theorem isWordByte_ascii : ∀ number < 0x80,
    isWordByte (UInt8.ofNat number) = isWordChar (Char.ofNat number) := by
  decide

theorem ascii_of_mem
    {c : Char} {byte : UInt8} (ascii : c.toNat < 0x80)
    (member : byte ∈ String.utf8EncodeChar c) : byte = UInt8.ofNat c.toNat := by
  have isAscii : c.val.toNat ≤ 0x7f := Nat.le_of_lt_succ ascii
  rw [String.utf8EncodeChar, if_pos isAscii] at member
  exact List.mem_singleton.mp member

theorem beyond_of_mem
    {c : Char} {byte : UInt8} (beyond : 0x80 ≤ c.toNat)
    (member : byte ∈ String.utf8EncodeChar c) : 0x80 ≤ byte := by
  have notAscii : ¬ c.val.toNat ≤ 0x7f := Nat.not_le_of_lt beyond
  rw [String.utf8EncodeChar, if_neg notAscii] at member
  have high : ∀ number, 0x80 ≤ number % 256 → (0x80 : UInt8) ≤ UInt8.ofNat number := by
    intro number large
    rw [UInt8.le_iff_toNat_le, UInt8.toNat_ofNat']
    exact large
  split_ifs at member
  all_goals
    simp only [List.mem_cons, List.not_mem_nil, or_false] at member
  · rcases member with rfl | rfl
    · exact high _ (by omega)
    · exact high _ (by omega)
  · rcases member with rfl | rfl | rfl
    · exact high _ (by omega)
    · exact high _ (by omega)
    · exact high _ (by omega)
  · rcases member with rfl | rfl | rfl | rfl
    · exact high _ (by omega)
    · exact high _ (by omega)
    · exact high _ (by omega)
    · exact high _ (by omega)

/-- A byte is one of an identifier if its character is. -/
theorem isWordByte_of_mem
    {c : Char} {byte : UInt8} (member : byte ∈ String.utf8EncodeChar c) :
    isWordByte byte = isWordChar c := by
  by_cases ascii : c.toNat < 0x80
  · rw [ascii_of_mem ascii member, isWordByte_ascii c.toNat ascii, Char.ofNat_toNat]
  · have beyond := Nat.le_of_not_lt ascii
    simp [isWordByte, beyond_of_mem beyond member, isWordChar, isWordStart, beyond]

end ImportAudit.Text
