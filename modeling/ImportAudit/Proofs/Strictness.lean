import ImportAudit.Proofs.WordSearch

/-!
# Strictness of the modes

A name used by a specifier as an identifier is used as a word, and one used as a word is used as a
substring. So each mode reports, in the same order, the names that a looser one reports and
possibly more. On identifiers the two stricter modes agree.
-/

namespace ImportAudit.Usage

open ImportAudit.Text

def IsIdentifier (name : String) : Prop :=
  name ≠ "" ∧ ∀ c ∈ name.toList, isWordChar c = true

instance (name : String) : Decidable (IsIdentifier name) :=
  decidable_of_iff (name ≠ "" ∧ name.toList.all isWordChar = true) (by
    rw [List.all_eq_true]
    rfl)

/-! ## One specifier -/

theorem matches_word_of_exact
    {specifier name : String} (used : matches? .exact specifier name = true) :
    matches? .word specifier name = true := by
  obtain ⟨nonempty, _, stands⟩ := matches_exact_iff.mp used
  exact matches_word_iff.mpr ⟨nonempty, stands⟩

theorem matches_word_eq_exact
    {name : String} (identifier : IsIdentifier name) (specifier : String) :
    matches? .word specifier name = matches? .exact specifier name := by
  rw [Bool.eq_iff_iff, matches_word_iff, matches_exact_iff]
  refine and_congr_right fun _ => ?_
  exact (and_iff_right identifier.2).symm

/-! ## A surface -/

theorem isUsed_mono
    {strict loose : MatchMode}
    (looser : ∀ specifier name,
      matches? strict specifier name = true → matches? loose specifier name = true)
    {surface : List String} {name : String} (used : isUsed strict surface name = true) :
    isUsed loose surface name = true := by
  obtain ⟨specifier, named, found⟩ := List.any_eq_true.mp used
  exact List.any_eq_true.mpr ⟨specifier, named, looser specifier name found⟩

/-- A stricter mode reports what a looser one reports, in the same order. -/
theorem unused_sublist
    {strict loose : MatchMode}
    (looser : ∀ specifier name,
      matches? strict specifier name = true → matches? loose specifier name = true)
    (surface names : List String) :
    (unused loose surface names).Sublist (unused strict surface names) := by
  refine List.monotone_filter_right names fun name notUsed => ?_
  by_cases used : isUsed strict surface name = true
  · simp [isUsed_mono looser used] at notUsed
  · simpa using used

theorem unused_substring_sublist_word (surface names : List String) :
    (unused .substring surface names).Sublist (unused .word surface names) :=
  unused_sublist (fun _ _ => contains_of_matches) surface names

theorem unused_word_sublist_exact (surface names : List String) :
    (unused .word surface names).Sublist (unused .exact surface names) :=
  unused_sublist (fun _ _ => matches_word_of_exact) surface names

theorem unused_word_eq_exact
    {names : List String} (identifiers : ∀ name ∈ names, IsIdentifier name)
    (surface : List String) : unused .word surface names = unused .exact surface names := by
  refine List.filter_congr fun name member => ?_
  have agree : (fun specifier => matches? .word specifier name) =
      fun specifier => matches? .exact specifier name :=
    funext (matches_word_eq_exact (identifiers name member))
  rw [isUsed, isUsed, agree]

/-! ## An index -/

/-- Of an index, each mode reports the names that a looser one reports and possibly more, and names
that are identifiers are judged alike as words and as identifiers, whatever is imported. Substrings
and words are found among the bytes of a specifier. -/
theorem findings_by_strictness (index : Index) :
    ((findings .substring index).declarations.Sublist (findings .word index).declarations ∧
      (findings .word index).declarations.Sublist (findings .exact index).declarations) ∧
    ((findings .substring index).components.Sublist (findings .word index).components ∧
      (findings .word index).components.Sublist (findings .exact index).components) ∧
    ((∀ name ∈ index.declarationsInOrder.map (·.name) ++ index.components.map (·.name),
      IsIdentifier name) → findings .word index = findings .exact index) ∧
    (∀ names, (∀ name ∈ names, IsIdentifier name) → ∀ surface,
      unused .word surface names = unused .exact surface names) ∧
    ∀ specifier name,
      (matches? .substring specifier name = true ↔ bytesOf name <:+: bytesOf specifier) ∧
        matches? .word specifier name = searchWord (bytesOf name) (bytesOf specifier) := by
  refine ⟨⟨?_, ?_⟩, ⟨?_, ?_⟩, ?_, fun names => unused_word_eq_exact, fun specifier name => ?_⟩
  · exact unused_substring_sublist_word index.surface _
  · exact unused_word_sublist_exact index.surface _
  · exact unused_substring_sublist_word index.surface _
  · exact unused_word_sublist_exact index.surface _
  · intro identifiers
    have declarations := unused_word_eq_exact
      (fun name member => identifiers name (List.mem_append_left _ member)) index.surface
    have components := unused_word_eq_exact
      (fun name member => identifiers name (List.mem_append_right _ member)) index.surface
    rw [findings, findings, declarations, components]
  · exact ⟨matches_substring_iff_bytes, matches_word_eq_searchWord specifier name⟩

/-- A project whose specifiers hold the names it declares inside longer identifiers; one of the
names also stands by itself. -/
def nestedNames : Index :=
  { root := "p"
    files := ["a.ts"]
    imports := [("a.ts", { file := "a.ts", names := ["éé$é as $é", "Cards"] })]
    declarations :=
      [("a.ts",
        [{ file := "a.ts", name := "$é", kind := "type", line := 1 },
          { file := "a.ts", name := "é", kind := "type", line := 2 }])]
    components := [{ file := "Card.tsx", name := "Card" }] }

theorem findings_nestedNames :
    (∀ name ∈ nestedNames.declarationsInOrder.map (·.name) ++
      nestedNames.components.map (·.name), IsIdentifier name) ∧
    findings .substring nestedNames = { declarations := [], components := [] } ∧
    findings .word nestedNames = { declarations := ["é"], components := ["Card"] } ∧
    findings .exact nestedNames = { declarations := ["é"], components := ["Card"] } := by
  have identifiers : ∀ name ∈ nestedNames.declarationsInOrder.map (·.name) ++
      nestedNames.components.map (·.name), IsIdentifier name := by
    decide
  have words : findings .word nestedNames =
      { declarations := ["é"], components := ["Card"] } := by
    decide
  refine ⟨identifiers, by decide, words, ?_⟩
  rw [← (findings_by_strictness nestedNames).2.2.1 identifiers, words]

end ImportAudit.Usage
