import ImportAudit.Extraction
import ImportAudit.Proofs.Text.Bytes

/-!
# Spellings of line breaks

A source may spell a line break as a line feed, as a carriage return or as the pair of both, and
may mix the spellings. The relation between a spelled source and the source whose breaks are line
feeds says what unifying the breaks computes; all that is read from a source depends on its unified
breaks alone.
-/

namespace ImportAudit.Source

/-- How a source can be spelled. A carriage return that spells a break alone does not stand in
front of a line feed, with which it would be one break. -/
inductive Spelling : List Char → List Char → Prop
  | nil : Spelling [] []
  | other {c : Char} {spelled source : List Char} (notFeed : c ≠ '\n') (notReturn : c ≠ '\r')
      (rest : Spelling spelled source) : Spelling (c :: spelled) (c :: source)
  | feed {spelled source : List Char} (rest : Spelling spelled source) :
      Spelling ('\n' :: spelled) ('\n' :: source)
  | pair {spelled source : List Char} (rest : Spelling spelled source) :
      Spelling ('\r' :: '\n' :: spelled) ('\n' :: source)
  | alone {spelled source : List Char} (apart : spelled.head? ≠ some '\n')
      (rest : Spelling spelled source) : Spelling ('\r' :: spelled) ('\n' :: source)

/-! ## What unifying computes -/

theorem unifyBreaks_return
    {rest : List Char} (apart : rest.head? ≠ some '\n') :
    unifyBreaks ('\r' :: rest) = '\n' :: unifyBreaks rest := by
  cases rest with
  | nil => rfl
  | cons c others =>
    have notFeed : c ≠ '\n' := by simpa using apart
    exact unifyBreaks.eq_3 (c :: others) fun _ same => notFeed (List.cons.inj same).1

theorem unifyBreaks_other
    {c : Char} (notReturn : c ≠ '\r') (rest : List Char) :
    unifyBreaks (c :: rest) = c :: unifyBreaks rest :=
  unifyBreaks.eq_4 c rest (fun _ isReturn => absurd isReturn notReturn) notReturn

/-- A source is read back from every spelling of its line breaks. -/
theorem Spelling.unifyBreaks_eq
    {spelled source : List Char} (spelling : Spelling spelled source) :
    unifyBreaks spelled = source := by
  induction spelling with
  | nil => rfl
  | other notFeed notReturn rest inductionHypothesis =>
    rw [unifyBreaks_other notReturn, inductionHypothesis]
  | feed rest inductionHypothesis =>
    rw [unifyBreaks_other (by decide), inductionHypothesis]
  | pair rest inductionHypothesis => rw [unifyBreaks, inductionHypothesis]
  | alone apart rest inductionHypothesis => rw [unifyBreaks_return apart, inductionHypothesis]

theorem spelling_unifyBreaks (spelled : List Char) : Spelling spelled (unifyBreaks spelled) := by
  fun_induction unifyBreaks spelled with
  | case1 => exact Spelling.nil
  | case2 rest inductionHypothesis => exact Spelling.pair inductionHypothesis
  | case3 rest notPair inductionHypothesis =>
    refine Spelling.alone ?_ inductionHypothesis
    intro starts
    obtain ⟨others, shape⟩ := List.head?_eq_some_iff.mp starts
    exact notPair others shape
  | case4 c rest notPair notReturn inductionHypothesis =>
    by_cases isFeed : c = '\n'
    · subst isFeed
      exact Spelling.feed inductionHypothesis
    · exact Spelling.other isFeed notReturn inductionHypothesis

/-- Unifying the breaks of a text gives the one source that the text spells. -/
theorem spelling_iff {spelled source : List Char} :
    Spelling spelled source ↔ unifyBreaks spelled = source := by
  constructor
  · exact Spelling.unifyBreaks_eq
  · rintro rfl
    exact spelling_unifyBreaks spelled

/-- In the source that is spelled, every break is a line feed. -/
theorem Spelling.return_not_mem
    {spelled source : List Char} (spelling : Spelling spelled source) : '\r' ∉ source := by
  induction spelling with
  | nil => exact List.not_mem_nil
  | other notFeed notReturn rest inductionHypothesis =>
    exact List.not_mem_cons_of_ne_of_not_mem (Ne.symm notReturn) inductionHypothesis
  | feed rest inductionHypothesis =>
    exact List.not_mem_cons_of_ne_of_not_mem (by decide) inductionHypothesis
  | pair rest inductionHypothesis =>
    exact List.not_mem_cons_of_ne_of_not_mem (by decide) inductionHypothesis
  | alone apart rest inductionHypothesis =>
    exact List.not_mem_cons_of_ne_of_not_mem (by decide) inductionHypothesis

/-- What spells two sources spells the one after the other, unless a break would close up. -/
theorem Spelling.append
    {spelled source others later : List Char} (spelling : Spelling spelled source)
    (further : Spelling others later)
    (apart : spelled.getLast? = some '\r' → others.head? ≠ some '\n') :
    Spelling (spelled ++ others) (source ++ later) := by
  -- Each case goes on with a tail, whose last character is that of the whole if it has one.
  have tailApart {c : Char} {tail : List Char}
      (apart : (c :: tail).getLast? = some '\r' → others.head? ≠ some '\n') :
      tail.getLast? = some '\r' → others.head? ≠ some '\n' := by
    intro last
    refine apart ?_
    rw [List.getLast?_cons, last]
    rfl
  induction spelling with
  | nil => exact further
  | other notFeed notReturn rest inductionHypothesis =>
    exact Spelling.other notFeed notReturn (inductionHypothesis (tailApart apart))
  | feed rest inductionHypothesis =>
    exact Spelling.feed (inductionHypothesis (tailApart apart))
  | pair rest inductionHypothesis =>
    exact Spelling.pair (inductionHypothesis (tailApart (tailApart apart)))
  | @alone tail source notFeed rest inductionHypothesis =>
    refine Spelling.alone ?_ (inductionHypothesis (tailApart apart))
    cases tail with
    | nil => exact apart rfl
    | cons c more => simpa using notFeed

/-! ## One spelling for all breaks -/

/-- The text with every line feed spelled anew. -/
def respell (spelled source : List Char) : List Char :=
  source.flatMap fun c => if c = '\n' then spelled else [c]

@[simp]
theorem respell_feed (spelled source : List Char) :
    respell spelled ('\n' :: source) = spelled ++ respell spelled source := by
  rw [respell, List.flatMap_cons, if_pos rfl, respell]

theorem respell_other
    {c : Char} (notFeed : c ≠ '\n') (spelled source : List Char) :
    respell spelled (c :: source) = c :: respell spelled source := by
  rw [respell, List.flatMap_cons, if_neg notFeed, respell, List.singleton_append]

theorem feed_not_mem_respell
    {spelled : List Char} (feedFree : '\n' ∉ spelled) (source : List Char) :
    '\n' ∉ respell spelled source := by
  intro member
  obtain ⟨c, _, inSpelled⟩ := List.mem_flatMap.mp member
  by_cases isFeed : c = '\n'
  · rw [if_pos isFeed] at inSpelled
    exact feedFree inSpelled
  · rw [if_neg isFeed, List.mem_singleton] at inSpelled
    exact isFeed inSpelled.symm

section Conventions

variable {source : List Char} (returnFree : '\r' ∉ source)
include returnFree

/-- A text spells every source anew if it spells a break in front of whatever it has spelled. -/
theorem spelling_respell
    {spelled : List Char}
    (breaks : ∀ {rest source : List Char}, Spelling (respell spelled rest) source →
      Spelling (spelled ++ respell spelled rest) ('\n' :: source)) :
    Spelling (respell spelled source) source := by
  induction source with
  | nil => exact Spelling.nil
  | cons c rest inductionHypothesis =>
    rw [List.mem_cons, not_or] at returnFree
    obtain ⟨notReturn, restFree⟩ := returnFree
    by_cases isFeed : c = '\n'
    · subst isFeed
      rw [respell_feed]
      exact breaks (inductionHypothesis restFree)
    · rw [respell_other isFeed]
      exact Spelling.other isFeed (Ne.symm notReturn) (inductionHypothesis restFree)

theorem spelling_pairs : Spelling (respell ['\r', '\n'] source) source :=
  spelling_respell returnFree Spelling.pair

/-- Carriage returns alone leave no line feed with which one of them could close up. -/
theorem spelling_returns : Spelling (respell ['\r'] source) source := by
  apply spelling_respell returnFree
  intro rest source spelling
  refine Spelling.alone ?_ spelling
  intro starts
  exact feed_not_mem_respell (by decide) rest (List.mem_of_head? starts)

/-- A source without carriage returns spells itself. -/
theorem spelling_self : Spelling source source := by
  have itself : respell ['\n'] source = source := by
    have kept : (fun c : Char => if c = '\n' then ['\n'] else [c]) = fun c => [c] := by
      funext c
      by_cases isFeed : c = '\n'
      · rw [if_pos isFeed, isFeed]
      · rw [if_neg isFeed]
    rw [respell, kept, List.flatMap_singleton']
  have spelling : Spelling (respell ['\n'] source) source :=
    spelling_respell returnFree Spelling.feed
  rwa [itself] at spelling

end Conventions

def withBreaks (spelled source : String) : String :=
  String.ofList (respell spelled.toList source.toList)

end ImportAudit.Source

namespace ImportAudit

/-! ## What is read -/

/-- The import specifiers do not depend on how line breaks are spelled. -/
theorem importNames_of_unifyBreaks
    {source other : String}
    (same : Source.unifyBreaks source.toList = Source.unifyBreaks other.toList) (mode : ParseMode) :
    importNames mode source = importNames mode other := by
  have byLine : Import.scanLines source.toList = Import.scanLines other.toList := by
    rw [Import.scanLines, Import.scanLines, Source.lines, Source.lines, same]
  have byStatement : Import.scanStatements source.toList = Import.scanStatements other.toList := by
    rw [Import.scanStatements, Import.scanStatements, same]
  cases mode with
  | line => simp only [importNames, byLine]
  | statement => simp only [importNames, byStatement]
  | unrecognised label => simp only [importNames, byLine]

theorem Declaration.scan_of_unifyBreaks
    {source other : List Char} (same : Source.unifyBreaks source = Source.unifyBreaks other)
    (file : String) (markers : List Marker) :
    scan file markers source = scan file markers other := by
  rw [scan, scan, Source.lines, Source.lines, same]

namespace Extraction

theorem ofSource_of_unifyBreaks
    {source other : String}
    (same : Source.unifyBreaks source.toList = Source.unifyBreaks other.toList)
    (settings : Settings) (path : String) :
    ofSource settings path source = ofSource settings path other := by
  simp only [ofSource, importNames_of_unifyBreaks same, Declaration.scan_of_unifyBreaks same]

@[simp]
theorem ofContent_toUTF8 (settings : Settings) (path source : String) :
    ofContent settings path source.toUTF8 = .ok (ofSource settings path source) := by
  rw [ofContent, Text.fromUTF8?_toUTF8]

/-- A source is read alike in all spellings of its line breaks. -/
theorem ofContent_of_spelling
    {spelled source : String} (spelling : Source.Spelling spelled.toList source.toList)
    (settings : Settings) (path : String) :
    ofContent settings path spelled.toUTF8 = ofContent settings path source.toUTF8 := by
  have same : Source.unifyBreaks spelled.toList = Source.unifyBreaks source.toList := by
    rw [spelling.unifyBreaks_eq, (Source.spelling_self spelling.return_not_mem).unifyBreaks_eq]
  rw [ofContent_toUTF8, ofContent_toUTF8, ofSource_of_unifyBreaks same]

/-- Whatever the settings and the file, a source without carriage returns is read, and what is read
stays the same with each of its line feeds made a pair or a carriage return, or each of them
spelled in one of the three ways. -/
theorem ofContent_respelled
    (settings : Settings) (path source : String) (returnFree : '\r' ∉ source.toList) :
    ofContent settings path source.toUTF8 = .ok (ofSource settings path source) ∧
      ofContent settings path (Source.withBreaks "\r\n" source).toUTF8 =
        ofContent settings path source.toUTF8 ∧
      ofContent settings path (Source.withBreaks "\r" source).toUTF8 =
        ofContent settings path source.toUTF8 ∧
      ∀ spelled : String, Source.Spelling spelled.toList source.toList →
        ofContent settings path spelled.toUTF8 = ofContent settings path source.toUTF8 := by
  refine ⟨ofContent_toUTF8 settings path source, ?_, ?_, fun spelled spelling => ?_⟩
  · refine ofContent_of_spelling ?_ settings path
    rw [Source.withBreaks, String.toList_ofList]
    exact Source.spelling_pairs returnFree
  · refine ofContent_of_spelling ?_ settings path
    rw [Source.withBreaks, String.toList_ofList]
    exact Source.spelling_returns returnFree
  · exact ofContent_of_spelling spelling settings path

/-- A source with an empty line, and with breaks at both ends. -/
def spacedSource : String :=
  "\nimport { A } from 'm'\n\nexport type B = 1\n"

theorem ofContent_respelled_spacedSource :
    '\r' ∉ spacedSource.toList ∧
      Source.withBreaks "\r\n" spacedSource =
        "\r\nimport { A } from 'm'\r\n\r\nexport type B = 1\r\n" ∧
      Source.withBreaks "\r" spacedSource =
        "\rimport { A } from 'm'\r\rexport type B = 1\r" ∧
      ofContent .default "a.ts" (Source.withBreaks "\r\n" spacedSource).toUTF8 =
        .ok ⟨"a.ts", ⟨"a.ts", ["A"]⟩, [⟨"a.ts", "B", "type", 4⟩]⟩ ∧
      ofContent .default "a.ts" (Source.withBreaks "\r" spacedSource).toUTF8 =
        .ok ⟨"a.ts", ⟨"a.ts", ["A"]⟩, [⟨"a.ts", "B", "type", 4⟩]⟩ := by
  have returnFree : '\r' ∉ spacedSource.toList := by decide
  obtain ⟨read, pairs, returns, _⟩ := ofContent_respelled .default "a.ts" spacedSource returnFree
  have found : ofSource .default "a.ts" spacedSource =
      ⟨"a.ts", ⟨"a.ts", ["A"]⟩, [⟨"a.ts", "B", "type", 4⟩]⟩ := by
    decide +kernel
  rw [read, found] at pairs returns
  exact ⟨returnFree, by decide, by decide, pairs, returns⟩

end Extraction

end ImportAudit
