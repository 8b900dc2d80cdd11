import ImportAudit.Proofs.Text.Bytes

/-!
# The order of texts by their bytes

Texts are ordered by their characters, and a file system orders names by their bytes. The two
orders are the same: the bytes of a character tell its number, from the greatest part to the least,
and a longer encoding starts with a greater byte.
-/

namespace ImportAudit.Text

theorem cons_lt_of_number
    {number other : Nat} {rest otherRest : List UInt8} (small : number < 256)
    (otherSmall : other < 256) (notGreater : number ≤ other)
    (later : number = other → rest < otherRest) :
    UInt8.ofNat number :: rest < UInt8.ofNat other :: otherRest := by
  rw [List.cons_lt_cons_iff, UInt8.lt_iff_toNat_lt, UInt8.toNat_ofNat', UInt8.toNat_ofNat',
    Nat.mod_eq_of_lt small, Nat.mod_eq_of_lt otherSmall]
  rcases Nat.lt_or_eq_of_le notGreater with less | same
  · exact Or.inl less
  · exact Or.inr ⟨congrArg UInt8.ofNat same, later same⟩

theorem number_lt (c : Char) : c.val.toNat < 0x110000 := by
  rcases c.valid with below | ⟨_, above⟩
  · exact Nat.lt_trans below (by decide)
  · exact above

/-- The bytes of a lesser character are less, whatever follows them. -/
theorem utf8EncodeChar_append_lt {c d : Char} (less : c < d) (rest other : List UInt8) :
    String.utf8EncodeChar c ++ rest < String.utf8EncodeChar d ++ other := by
  have numbers : c.val.toNat < d.val.toNat := less
  have isSmall := number_lt c
  have isSmallToo := number_lt d
  unfold String.utf8EncodeChar
  generalize c.val.toNat = number, d.val.toNat = greater at *
  dsimp only
  -- The greater number cannot have the shorter encoding.
  split_ifs
  all_goals first | omega | simp only [List.cons_append, List.nil_append]
  -- The numbers differ, so some byte does.
  all_goals
    repeat' refine cons_lt_of_number (by omega) (by omega) (by omega) fun _ => ?_
  all_goals omega

/-- The order of texts is that of their bytes. -/
theorem bytes_lt {text other : List Char} (less : text < other) : bytes text < bytes other := by
  induction less with
  | @nil c rest =>
    obtain ⟨first, others, shape, _, _⟩ := exists_first_byte c
    rw [bytes_nil, bytes_cons, shape]
    exact List.nil_lt_cons first _
  | @rel c rest d otherRest isLess =>
    rw [bytes_cons, bytes_cons]
    exact utf8EncodeChar_append_lt isLess _ _
  | @cons c rest otherRest _ inductionHypothesis =>
    rw [bytes_cons, bytes_cons]
    exact List.append_left_lt inductionHypothesis

/-- Texts are ordered as their bytes are. -/
theorem bytesOf_lt_iff {text other : String} : bytesOf text < bytesOf other ↔ text < other := by
  rw [bytesOf_eq, bytesOf_eq, String.lt_iff]
  refine ⟨fun less => ?_, bytes_lt⟩
  by_contra notLess
  rcases List.le_iff_lt_or_eq.mp (List.not_lt.mp notLess) with greater | same
  · exact List.lt_asymm less (bytes_lt greater)
  · rw [same] at less
    exact List.lt_irrefl _ less

end ImportAudit.Text
