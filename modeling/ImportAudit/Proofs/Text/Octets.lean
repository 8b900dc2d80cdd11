import ImportAudit.Proofs.Text.Bytes

/-!
# Bytes as characters

A byte stands for the character of its number. An ASCII character has one byte, which stands for
the character itself, and every byte of any other character stands for one outside ASCII. So a scan
that treats all characters outside ASCII alike goes over the bytes of a text as it goes over the
text.
-/

namespace ImportAudit.Text

/-- Bytes as the characters of the same numbers. -/
def octets (source : List UInt8) : List Char :=
  source.map fun byte => Char.ofNat byte.toNat

/-- The bytes of a text, each as a character. -/
def encoded (text : List Char) : List Char :=
  octets (bytes text)

def IsBeyond (c : Char) : Prop :=
  0x80 ≤ c.toNat

instance : DecidablePred IsBeyond :=
  fun c => Nat.decLe 0x80 c.toNat

variable {c : Char} {rest : List Char}

@[simp]
theorem encoded_nil : encoded [] = [] :=
  rfl

@[simp]
theorem encoded_append (front back : List Char) :
    encoded (front ++ back) = encoded front ++ encoded back := by
  simp [encoded, octets]

theorem encoded_cons (c : Char) (rest : List Char) :
    encoded (c :: rest) = encoded [c] ++ encoded rest := by
  rw [← encoded_append, List.singleton_append]

theorem encoded_singleton (ascii : ¬ IsBeyond c) : encoded [c] = [c] := by
  have below : c.val.toNat ≤ 0x7f := Nat.le_of_lt_succ (Nat.lt_of_not_le ascii)
  have single : String.utf8EncodeChar c = [UInt8.ofNat c.toNat] := by
    rw [String.utf8EncodeChar, if_pos below]
    rfl
  have small : c.toNat % 256 = c.toNat := Nat.mod_eq_of_lt (by unfold Char.toNat; omega)
  simp [encoded, octets, bytes, single, small]

theorem encoded_cons_ascii (ascii : ¬ IsBeyond c) (rest : List Char) :
    encoded (c :: rest) = c :: encoded rest := by
  rw [encoded_cons, encoded_singleton ascii, List.singleton_append]

@[simp]
theorem toNat_octet (byte : UInt8) : (Char.ofNat byte.toNat).toNat = byte.toNat := by
  have small : byte.toNat < 256 := byte.toNat_lt
  have valid : byte.toNat.isValidChar := Or.inl (by omega)
  rw [Char.ofNat, dif_pos valid]
  rfl

/-- A character outside ASCII gives characters outside ASCII. -/
theorem beyond_of_mem_encoded
    (beyond : IsBeyond c) {octet : Char} (member : octet ∈ encoded [c]) : IsBeyond octet := by
  obtain ⟨byte, inBytes, rfl⟩ := List.mem_map.mp member
  have inChar : byte ∈ String.utf8EncodeChar c := by simpa [bytes] using inBytes
  have high : (0x80 : UInt8) ≤ byte := beyond_of_mem beyond inChar
  rw [IsBeyond, toNat_octet]
  exact UInt8.le_iff_toNat_le.mp high

theorem encoded_singleton_ne_nil (c : Char) : encoded [c] ≠ [] := by
  simp [encoded, octets, bytes, String.utf8EncodeChar_ne_nil]

theorem isWordStart_of_beyond (beyond : IsBeyond c) : isWordStart c = true := by
  simp [isWordStart, show 0x80 ≤ c.toNat from beyond]

theorem isWordChar_of_beyond (beyond : IsBeyond c) : isWordChar c = true := by
  simp [isWordChar, isWordStart_of_beyond beyond]

theorem ne_of_beyond (beyond : IsBeyond c) {other : Char} (ascii : ¬ IsBeyond other) :
    c ≠ other := by
  rintro rfl
  exact ascii beyond

/-- A text starts with an ASCII character where its bytes do. -/
theorem exists_of_encoded_eq_cons
    {text tail : List Char} (ascii : ¬ IsBeyond c) (whole : encoded text = c :: tail) :
    ∃ others, text = c :: others ∧ encoded others = tail := by
  cases text with
  | nil => cases whole
  | cons first others =>
    by_cases beyond : IsBeyond first
    · obtain ⟨octet, more, shape⟩ := List.exists_cons_of_ne_nil (encoded_singleton_ne_nil first)
      have octetBeyond : IsBeyond octet :=
        beyond_of_mem_encoded beyond (shape ▸ List.mem_cons_self)
      rw [encoded_cons, shape, List.cons_append, List.cons.injEq] at whole
      exact absurd (whole.1 ▸ octetBeyond) ascii
    · rw [encoded_cons_ascii beyond, List.cons.injEq] at whole
      exact ⟨others, by rw [whole.1], whole.2⟩

/-- Texts are told apart by their bytes. -/
theorem encoded_injective {text other : List Char} (same : encoded text = encoded other) :
    text = other := by
  have sameBytes : bytes text = bytes other := by
    refine List.map_injective_iff.mpr ?_ same
    intro byte otherByte sameOctet
    have sameNumber := congrArg Char.toNat sameOctet
    exact UInt8.toNat_inj.mp (by simpa using sameNumber)
  have starts : text <+: other := prefix_of_bytes_prefix (sameBytes ▸ List.prefix_refl _)
  have startsBack : other <+: text := prefix_of_bytes_prefix (sameBytes ▸ List.prefix_refl _)
  exact starts.eq_of_length (Nat.le_antisymm starts.length_le startsBack.length_le)

theorem scan_beyond
    {α : Type} {scan : List Char → α}
    (passes : ∀ c rest, IsBeyond c → scan (c :: rest) = scan rest)
    {front : List Char} (beyond : ∀ c ∈ front, IsBeyond c) (rest : List Char) :
    scan (front ++ rest) = scan rest := by
  induction front with
  | nil => rfl
  | cons c others inductionHypothesis =>
    obtain ⟨first, later⟩ := List.forall_mem_cons.mp beyond
    rw [List.cons_append, passes c _ first, inductionHypothesis later]

/-- A scan that passes over every character outside ASCII passes over all the bytes of one. -/
theorem scan_encoded_cons
    {α : Type} {scan : List Char → α}
    (passes : ∀ c rest, IsBeyond c → scan (c :: rest) = scan rest)
    (beyond : IsBeyond c) (rest : List Char) :
    scan (encoded (c :: rest)) = scan (encoded rest) := by
  rw [encoded_cons]
  exact scan_beyond passes (fun _ member => beyond_of_mem_encoded beyond member) _

section Test

variable {test : Char → Bool} {verdict : Bool}

/-- A test with one verdict on everything beyond ASCII stops at the same character in bytes. -/
theorem dropWhile_encoded
    (uniform : ∀ c, IsBeyond c → test c = verdict) (text : List Char) :
    (encoded text).dropWhile test = encoded (text.dropWhile test) := by
  induction text with
  | nil => rfl
  | cons c rest inductionHypothesis =>
    by_cases beyond : IsBeyond c
    · have same : ∀ octet ∈ encoded [c], test octet = verdict :=
        fun octet member => uniform octet (beyond_of_mem_encoded beyond member)
      cases verdict with
      | true =>
        rw [encoded_cons, List.dropWhile_append_of_pos same, inductionHypothesis,
          List.dropWhile_cons_of_pos (uniform c beyond)]
      | false =>
        obtain ⟨first, others, shape⟩ := List.exists_cons_of_ne_nil (encoded_singleton_ne_nil c)
        have stops : ¬ test first = true := by simp [same first (shape ▸ List.mem_cons_self)]
        rw [List.dropWhile_cons_of_neg (by simp [uniform c beyond]), encoded_cons, shape,
          List.cons_append, List.dropWhile_cons_of_neg stops]
    · by_cases pass : test c = true
      · rw [encoded_cons_ascii beyond, List.dropWhile_cons_of_pos pass,
          List.dropWhile_cons_of_pos pass, inductionHypothesis]
      · rw [encoded_cons_ascii beyond, List.dropWhile_cons_of_neg pass,
          List.dropWhile_cons_of_neg pass, encoded_cons_ascii beyond]

theorem takeWhile_encoded
    (uniform : ∀ c, IsBeyond c → test c = verdict) (text : List Char) :
    (encoded text).takeWhile test = encoded (text.takeWhile test) := by
  have whole : encoded (text.takeWhile test) ++ encoded (text.dropWhile test) = encoded text := by
    rw [← encoded_append, List.takeWhile_append_dropWhile]
  have parts := List.takeWhile_append_dropWhile (p := test) (l := encoded text)
  rw [dropWhile_encoded uniform, ← whole] at parts
  rw [← whole]
  exact List.append_cancel_right parts

end Test

end ImportAudit.Text
