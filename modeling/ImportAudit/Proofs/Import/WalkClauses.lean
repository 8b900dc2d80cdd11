import ImportAudit.Proofs.Import.ModeAgreement

/-!
# The clauses of a walk

What the walk over a source collects are the specifiers of the clauses that it reads. A word is no
keyword behind a digit or a point, and the walk remembers just that: wherever it goes on, what it
remembers is as good as a look back at the character in front.
-/

namespace ImportAudit.Import

open ImportAudit.Text (isWordStart isWordChar)

/-- The clauses that the walk reads, in source order. -/
def clausesOf (glued : Bool) (text : List Char) : List (List Char) :=
  match text with
  | [] => []
  | '/' :: '/' :: rest => clausesOf false (afterLine rest)
  | '/' :: '*' :: rest => clausesOf false (afterBlock rest)
  | c :: rest =>
    if isQuote c then clausesOf false (afterLiteral c rest)
    else if _start : isWordStart c then
      if wordOf (c :: rest) = "import".toList && !glued then
        (readImport (afterWord (c :: rest))).text ::
          clausesOf false (readImport (afterWord (c :: rest))).rest
      else clausesOf false (afterWord (c :: rest))
    else clausesOf (isWordChar c || c == '.') rest
termination_by text.length
decreasing_by
  · have := length_afterLine_le rest
    simp only [List.length_cons]; omega
  · have := length_afterBlock_le rest
    simp only [List.length_cons]; omega
  · have := length_afterLiteral_le c rest
    simp only [List.length_cons]; omega
  · have word := length_afterWord_lt rest _start
    have clause := length_readImport_le (afterWord (c :: rest))
    omega
  · exact length_afterWord_lt rest _start
  · simp

theorem walk_eq_flatMap (glued : Bool) (text : List Char) :
    walk glued text = (clausesOf glued text).flatMap clauseSpecifiers := by
  fun_induction walk glued text with
  | case1 => simp [clausesOf]
  | case2 glued rest inductionHypothesis => rw [clausesOf, inductionHypothesis]
  | case3 glued rest inductionHypothesis => rw [clausesOf, inductionHypothesis]
  | case4 glued c rest noLine noBlock quoted inductionHypothesis =>
    rw [clausesOf.eq_4 _ _ _ noLine noBlock, if_pos quoted, inductionHypothesis]
  | case5 glued c rest noLine noBlock unquoted start keyword inductionHypothesis =>
    rw [clausesOf.eq_4 _ _ _ noLine noBlock, if_neg unquoted, dif_pos start, if_pos keyword,
      List.flatMap_cons, inductionHypothesis]
  | case6 glued c rest noLine noBlock unquoted start other inductionHypothesis =>
    rw [clausesOf.eq_4 _ _ _ noLine noBlock, if_neg unquoted, dif_pos start, if_neg other,
      inductionHypothesis]
  | case7 glued c rest noLine noBlock unquoted noStart inductionHypothesis =>
    rw [clausesOf.eq_4 _ _ _ noLine noBlock, if_neg unquoted, dif_neg noStart,
      inductionHypothesis]

/-! ## Each reading leaves a later part of the text -/

theorem skipBlanks_suffix (text : List Char) : skipBlanks text <:+ text := by
  fun_induction skipBlanks text with
  | case1 rest inductionHypothesis =>
    exact inductionHypothesis.trans ((afterLine_suffix rest).trans ⟨['/', '/'], rfl⟩)
  | case2 rest inductionHypothesis =>
    exact inductionHypothesis.trans ((afterBlock_suffix rest).trans ⟨['/', '*'], rfl⟩)
  | case3 c rest _ _ _ inductionHypothesis =>
    exact inductionHypothesis.trans (List.suffix_cons c rest)
  | case4 => exact List.suffix_refl _
  | case5 => exact List.suffix_refl _

theorem afterStatement_suffix (text : List Char) : afterStatement text <:+ text := by
  fun_induction afterStatement text with
  | case1 => exact List.suffix_refl _
  | case2 c rest ends => exact List.suffix_cons c rest
  | case3 c rest _ inductionHypothesis =>
    exact inductionHypothesis.trans (List.suffix_cons c rest)

theorem skipTerminator_suffix (text : List Char) : skipTerminator text <:+ text := by
  unfold skipTerminator
  split
  · rename_i rest found
    have blanks : text.dropWhile (fun c => c == ' ' || c == '\t') <:+ text :=
      List.dropWhile_suffix _
    rw [found] at blanks
    exact (List.suffix_cons ';' rest).trans blanks
  · exact List.suffix_refl _

theorem skipModule_suffix (text : List Char) : skipModule text <:+ text := by
  have blanks := skipBlanks_suffix text
  unfold skipModule
  split
  · rename_i c rest found
    rw [found] at blanks
    have literal := (afterLiteral_suffix c rest).trans ((List.suffix_cons c rest).trans blanks)
    split
    · exact (skipTerminator_suffix _).trans literal
    · exact (skipTerminator_suffix _).trans blanks
  · exact List.nil_suffix

/-- What a clause leaves is an end of the source. -/
theorem readClause_suffix (depth : Nat) (text : List Char) :
    (readClause depth text).rest <:+ text := by
  fun_induction readClause depth text with
  | case1 => exact List.suffix_refl _
  | case2 depth rest inductionHypothesis =>
    exact inductionHypothesis.trans ((afterLine_suffix rest).trans ⟨['/', '/'], rfl⟩)
  | case3 depth rest inductionHypothesis =>
    exact inductionHypothesis.trans ((afterBlock_suffix rest).trans ⟨['/', '*'], rfl⟩)
  | case4 depth rest _ _ inductionHypothesis =>
    exact inductionHypothesis.trans (List.suffix_cons _ rest)
  | case5 depth rest _ _ _ inductionHypothesis =>
    exact inductionHypothesis.trans (List.suffix_cons _ rest)
  | case6 depth c rest => exact List.suffix_cons c rest
  | case7 depth c rest =>
    exact (afterStatement_suffix rest).trans (List.suffix_cons c rest)
  | case8 depth c rest =>
    exact (skipTerminator_suffix _).trans
      ((afterLiteral_suffix c rest).trans (List.suffix_cons c rest))
  | case9 depth c rest => exact (skipModule_suffix _).trans (afterWord_suffix _)
  | case10 depth c rest _ _ _ _ _ _ _ _ _ inductionHypothesis =>
    exact inductionHypothesis.trans (afterWord_suffix _)
  | case11 depth c rest _ _ _ _ _ _ _ _ inductionHypothesis =>
    exact inductionHypothesis.trans (List.suffix_cons c rest)

theorem readImport_suffix (text : List Char) : (readImport text).rest <:+ text := by
  have blanks := skipBlanks_suffix text
  unfold readImport
  split
  · exact List.nil_suffix
  · rename_i c rest found
    rw [found] at blanks
    split_ifs
    · exact blanks
    · exact (afterLiteral_suffix c rest).trans ((List.suffix_cons c rest).trans blanks)
    · exact (readClause_suffix 0 _).trans blanks

/-! ## Where a word may start -/

/-- A character that makes a word behind it a part of something else. -/
def attaches (c : Char) : Bool :=
  isWordChar c || c == '.'

/-- The text goes on with a rest that starts no word, or behind a character that does not attach
to it. -/
def Fresh (text rest : List Char) : Prop :=
  (∀ c, rest.head? = some c → isWordStart c = false) ∨
    ∃ front c, text = front ++ c :: rest ∧ attaches c = false

variable {text rest : List Char}

theorem clausesOf_noWord
    (noWord : ∀ c, rest.head? = some c → isWordStart c = false) (glued other : Bool) :
    clausesOf glued rest = clausesOf other rest := by
  unfold clausesOf
  split
  · rfl
  · rfl
  · rfl
  · rename_i c tail _ _
    have noStart : isWordStart c = false := noWord c rfl
    simp [noStart]

theorem fresh_next {c : Char} (here : c :: rest <:+ text) (free : attaches c = false) :
    Fresh text rest := by
  obtain ⟨front, whole⟩ := here
  exact Or.inr ⟨front, c, whole.symm, free⟩

theorem fresh_nil (text : List Char) : Fresh text [] :=
  Or.inl fun _ first => nomatch first

theorem attaches_of_quote {c : Char} (quoted : isQuote c = true) : attaches c = false := by
  have cases : (c = '\'' ∨ c = '"') ∨ c = '\x60' := by simpa [isQuote] using quoted
  rcases cases with (rfl | rfl) | rfl <;> decide

theorem fresh_afterLine (here : rest <:+ text) : Fresh text (afterLine rest) := by
  fun_induction afterLine rest with
  | case1 => exact fresh_nil text
  | case2 tail => exact fresh_next here (by decide)
  | case3 c tail _ inductionHypothesis =>
    exact inductionHypothesis ((List.suffix_cons c tail).trans here)

theorem fresh_afterBlock (here : rest <:+ text) : Fresh text (afterBlock rest) := by
  fun_induction afterBlock rest with
  | case1 => exact fresh_nil text
  | case2 tail => exact fresh_next ((List.suffix_cons '*' _).trans here) (by decide)
  | case3 c tail _ inductionHypothesis =>
    exact inductionHypothesis ((List.suffix_cons c tail).trans here)

theorem fresh_afterLiteral
    {quote : Char} (quoted : isQuote quote = true) (here : rest <:+ text) :
    Fresh text (afterLiteral quote rest) := by
  fun_induction afterLiteral quote rest with
  | case1 => exact fresh_nil text
  | case2 skipped tail inductionHypothesis =>
    exact inductionHypothesis (List.IsSuffix.trans ⟨['\\', skipped], rfl⟩ here)
  | case3 => exact fresh_nil text
  | case4 tail => exact fresh_next here (attaches_of_quote quoted)
  | case5 c tail _ _ _ lineBreak =>
    have isBreak : c = '\n' := by simp_all
    refine Or.inl fun other first => ?_
    cases first
    rw [isBreak]
    decide
  | case6 c tail _ _ _ _ inductionHypothesis =>
    exact inductionHypothesis ((List.suffix_cons c tail).trans here)

theorem fresh_afterStatement (here : rest <:+ text) : Fresh text (afterStatement rest) := by
  fun_induction afterStatement rest with
  | case1 => exact fresh_nil text
  | case2 c tail ends =>
    have cases : c = ';' ∨ c = '\n' := by simpa using ends
    refine fresh_next here ?_
    rcases cases with rfl | rfl <;> decide
  | case3 c tail _ inductionHypothesis =>
    exact inductionHypothesis ((List.suffix_cons c tail).trans here)

theorem Fresh.skipTerminator (fresh : Fresh text rest) (here : rest <:+ text) :
    Fresh text (skipTerminator rest) := by
  unfold Import.skipTerminator
  split
  · rename_i tail found
    have blanks : rest.dropWhile (fun c => c == ' ' || c == '\t') <:+ rest :=
      List.dropWhile_suffix _
    rw [found] at blanks
    exact fresh_next (blanks.trans here) (by decide)
  · exact fresh

theorem Fresh.skipBlanks (fresh : Fresh text rest) (here : rest <:+ text) :
    Fresh text (skipBlanks rest) := by
  fun_induction Import.skipBlanks rest with
  | case1 tail inductionHypothesis =>
    have behind : tail <:+ text := List.IsSuffix.trans ⟨['/', '/'], rfl⟩ here
    exact inductionHypothesis (fresh_afterLine behind) ((afterLine_suffix tail).trans behind)
  | case2 tail inductionHypothesis =>
    have behind : tail <:+ text := List.IsSuffix.trans ⟨['/', '*'], rfl⟩ here
    exact inductionHypothesis (fresh_afterBlock behind) ((afterBlock_suffix tail).trans behind)
  | case3 c tail _ _ blank inductionHypothesis =>
    have cases : ((c = ' ' ∨ c = '\t') ∨ c = '\n') ∨ c = '\r' := by simpa using blank
    have free : attaches c = false := by
      rcases cases with ((rfl | rfl) | rfl) | rfl <;> decide
    exact inductionHypothesis (fresh_next here free) ((List.suffix_cons c tail).trans here)
  | case4 => exact fresh
  | case5 => exact fresh

theorem fresh_afterWord (text rest : List Char) : Fresh text (afterWord rest) := by
  refine Or.inl fun c first => ?_
  have stopped := List.head?_dropWhile_not isWordChar rest
  rw [← afterWord, first] at stopped
  have noWordChar : isWordChar c = false := by simpa using stopped
  exact (Bool.or_eq_false_iff.mp noWordChar).1

theorem Fresh.skipModule (fresh : Fresh text rest) (here : rest <:+ text) :
    Fresh text (skipModule rest) := by
  have there := fresh.skipBlanks here
  have blanks := (skipBlanks_suffix rest).trans here
  unfold Import.skipModule
  split
  · rename_i c tail found
    rw [found] at there blanks
    have behind : tail <:+ text := (List.suffix_cons c tail).trans blanks
    split_ifs with quoted
    · exact (fresh_afterLiteral quoted behind).skipTerminator
        ((afterLiteral_suffix c tail).trans behind)
    · exact there.skipTerminator blanks
  · exact fresh_nil text

/-- Where a clause ends, a word would start anew. -/
theorem fresh_readClause (depth : Nat) (here : rest <:+ text) :
    Fresh text (readClause depth rest).rest := by
  fun_induction readClause depth rest with
  | case1 => exact fresh_nil text
  | case2 depth tail inductionHypothesis =>
    exact inductionHypothesis
      ((afterLine_suffix tail).trans (List.IsSuffix.trans ⟨['/', '/'], rfl⟩ here))
  | case3 depth tail inductionHypothesis =>
    exact inductionHypothesis
      ((afterBlock_suffix tail).trans (List.IsSuffix.trans ⟨['/', '*'], rfl⟩ here))
  | case4 depth tail _ _ inductionHypothesis =>
    exact inductionHypothesis ((List.suffix_cons _ tail).trans here)
  | case5 depth tail _ _ _ inductionHypothesis =>
    exact inductionHypothesis ((List.suffix_cons _ tail).trans here)
  | case6 depth c tail _ _ _ _ ends =>
    have isSemicolon : c = ';' := by simpa using (Bool.and_eq_true_iff.mp ends).2
    rw [isSemicolon] at here
    exact fresh_next here (by decide)
  | case7 depth c tail =>
    exact fresh_afterStatement ((List.suffix_cons c tail).trans here)
  | case8 depth c tail _ _ _ _ _ _ quoted =>
    have isQuoted : isQuote c = true := (Bool.and_eq_true_iff.mp quoted).2
    have behind : tail <:+ text := (List.suffix_cons c tail).trans here
    exact (fresh_afterLiteral isQuoted behind).skipTerminator
      ((afterLiteral_suffix c tail).trans behind)
  | case9 depth c tail =>
    exact (fresh_afterWord text _).skipModule ((afterWord_suffix _).trans here)
  | case10 depth c tail _ _ _ _ _ _ _ _ _ inductionHypothesis =>
    exact inductionHypothesis ((afterWord_suffix _).trans here)
  | case11 depth c tail _ _ _ _ _ _ _ _ inductionHypothesis =>
    exact inductionHypothesis ((List.suffix_cons c tail).trans here)

theorem fresh_readImport (here : rest <:+ text) : Fresh text (readImport rest).rest := by
  have blanks := (skipBlanks_suffix rest).trans here
  unfold readImport
  split
  · exact fresh_nil text
  · rename_i c tail found
    rw [found] at blanks
    split_ifs with sign quoted
    · have cases : (c = '(' ∨ c = '.') ∨ c = ':' := by simpa using sign
      refine Or.inl fun other first => ?_
      cases first
      rcases cases with (rfl | rfl) | rfl <;> decide
    · exact fresh_afterLiteral quoted ((List.suffix_cons c tail).trans blanks)
    · exact fresh_readClause 0 blanks

end ImportAudit.Import
