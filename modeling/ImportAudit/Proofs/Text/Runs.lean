import ImportAudit.Proofs.Text.Splitting

/-!
# Maximal runs

The runs of a text, as a layout of runs with gaps around them, and as the spans of the text that
pass a test and cannot be made wider.
-/

namespace ImportAudit.Text

variable {test : Char → Bool} {text : List Char}

/-! ## Layouts -/

/-- How a text consists of runs that pass the test, with what fails it around them. A run ends
where the text does or where a character fails. -/
inductive Layout (test : Char → Bool) : List Char → List (List Char) → Prop
  | gap {gap : List Char} (fails : ∀ c ∈ gap, test c = false) : Layout test gap []
  | run {gap run rest : List Char} {others : List (List Char)}
      (fails : ∀ c ∈ gap, test c = false)
      (nonempty : run ≠ []) (passes : ∀ c ∈ run, test c = true)
      (ends : ∀ c, rest.head? = some c → test c = false)
      (later : Layout test rest others) :
      Layout test (gap ++ (run ++ rest)) (run :: others)

/-- A text is its runs with gaps between them. -/
theorem layout_runs (test : Char → Bool) (text : List Char) :
    Layout test text (runs test text) := by
  fun_induction runs test text with
  | case1 text found =>
    refine Layout.gap fun c member => ?_
    simpa using List.dropWhile_eq_nil_iff.mp found c member
  | case2 text head tail found inductionHypothesis =>
    have split : text = text.takeWhile (fun c => !test c) ++
        ((head :: tail.takeWhile test) ++ tail.dropWhile test) := by
      rw [List.cons_append, List.takeWhile_append_dropWhile, ← found,
        List.takeWhile_append_dropWhile]
    have opens : test head = true := by
      simpa [found] using List.head?_dropWhile_not (fun c => !test c) text
    rw [split]
    refine Layout.run ?_ (List.cons_ne_nil head _) ?_ ?_ inductionHypothesis
    · intro c member
      simpa using List.mem_takeWhile_imp member
    · intro c member
      rcases List.mem_cons.mp member with rfl | inTail
      · exact opens
      · exact List.mem_takeWhile_imp inTail
    · intro c first
      simpa [first] using List.head?_dropWhile_not test tail

theorem Layout.pass_of_mem
    {parts : List (List Char)} (layout : Layout test text parts)
    {part : List Char} (member : part ∈ parts) : part ≠ [] ∧ ∀ c ∈ part, test c = true := by
  induction layout with
  | gap fails => cases member
  | run fails nonempty passes ends later inductionHypothesis =>
    rcases List.mem_cons.mp member with rfl | inRest
    · exact ⟨nonempty, passes⟩
    · exact inductionHypothesis inRest

/-- One after the other, the runs are the text without the characters that fail. -/
theorem Layout.flatten_eq
    {parts : List (List Char)} (layout : Layout test text parts) :
    parts.flatten = text.filter test := by
  induction layout with
  | gap fails =>
    symm
    simpa using fails
  | @run gap run rest others fails nonempty passes ends later inductionHypothesis =>
    have noneOfGap : gap.filter test = [] := by simpa using fails
    have allOfRun : run.filter test = run := List.filter_eq_self.mpr passes
    rw [List.flatten_cons, inductionHypothesis, List.filter_append, List.filter_append, noneOfGap,
      allOfRun, List.nil_append]

/-! ## Places -/

/-- Whether the character at a place of the text passes the test; none does outside of it. -/
def passesAt (test : Char → Bool) (text : List Char) (place : Nat) : Bool :=
  text[place]?.any test

section Places

variable {front rest : List Char} {place : Nat}

theorem passesAt_append_left (inside : place < front.length) :
    passesAt test (front ++ rest) place = passesAt test front place := by
  rw [passesAt, List.getElem?_append_left inside, passesAt]

@[simp]
theorem passesAt_append_right (front rest : List Char) (place : Nat) :
    passesAt test (front ++ rest) (front.length + place) = passesAt test rest place := by
  rw [passesAt, List.getElem?_append_right (Nat.le_add_right _ _), Nat.add_sub_cancel_left,
    passesAt]

theorem passesAt_of_all
    {value : Bool} (all : ∀ c ∈ text, test c = value) (inside : place < text.length) :
    passesAt test text place = value := by
  rw [passesAt, List.getElem?_eq_getElem inside]
  exact all _ (List.getElem_mem inside)

theorem passesAt_of_fails (fails : ∀ c ∈ text, test c = false) :
    passesAt test text place = false := by
  by_cases inside : place < text.length
  · exact passesAt_of_all fails inside
  · rw [passesAt, List.getElem?_eq_none (by omega)]
    rfl

theorem passesAt_start (ends : ∀ c, rest.head? = some c → test c = false) :
    passesAt test rest 0 = false := by
  cases rest with
  | nil => rfl
  | cons c others => exact ends c rfl

theorem lt_length_of_passesAt (passes : passesAt test text place = true) :
    place < text.length := by
  by_contra outside
  rw [passesAt, List.getElem?_eq_none (by omega)] at passes
  cases passes

end Places

/-! ## Spans -/

/-- The characters from one place of a text up to another. -/
@[ext]
structure Span where
  start : Nat
  stop : Nat
  deriving DecidableEq, Repr

namespace Span

def cut (span : Span) (text : List Char) : List Char :=
  (text.drop span.start).take (span.stop - span.start)

/-- The span that lies so many characters further behind. -/
def behind (span : Span) (front : Nat) : Span :=
  ⟨front + span.start, front + span.stop⟩

def Passes (test : Char → Bool) (text : List Char) (span : Span) : Prop :=
  ∀ place, span.start ≤ place → place < span.stop → passesAt test text place = true

/-- The span is a run: it is not empty, it passes the test, and no wider one does. -/
structure IsRun (test : Char → Bool) (text : List Char) (span : Span) : Prop where
  nonempty : span.start < span.stop
  passes : span.Passes test text
  maximal : ∀ wider : Span, wider.start ≤ span.start → span.stop ≤ wider.stop →
    wider.Passes test text → wider = span

/-- A character that fails the test stands behind the one span and in front of the other. -/
def Apart (test : Char → Bool) (text : List Char) (earlier later : Span) : Prop :=
  ∃ place c, earlier.stop ≤ place ∧ place < later.start ∧ text[place]? = some c ∧ test c = false

variable {span : Span}

/-- A run is known by what touches it. -/
theorem isRun_iff :
    span.IsRun test text ↔
      span.start < span.stop ∧ span.Passes test text ∧
        (∀ place, place + 1 = span.start → passesAt test text place = false) ∧
          passesAt test text span.stop = false := by
  obtain ⟨start, stop⟩ := span
  constructor
  · rintro ⟨nonempty, passes, maximal⟩
    refine ⟨nonempty, passes, fun place touches => ?_, ?_⟩
    · by_contra touching
      have widerPasses : Passes test text ⟨place, stop⟩ := by
        intro other notBefore inside
        rcases Nat.eq_or_lt_of_le notBefore with rfl | later
        · simpa using touching
        · exact passes other (touches ▸ later) inside
      have same := maximal ⟨place, stop⟩ (touches ▸ Nat.le_succ place) (Nat.le_refl stop)
        widerPasses
      cases same
      exact Nat.succ_ne_self _ touches
    · by_contra touching
      have widerPasses : Passes test text ⟨start, stop + 1⟩ := by
        intro other notBefore inside
        rcases Nat.lt_succ_iff_lt_or_eq.mp inside with earlier | rfl
        · exact passes other notBefore earlier
        · simpa using touching
      have same := maximal ⟨start, stop + 1⟩ (Nat.le_refl start) (Nat.le_succ stop) widerPasses
      exact Nat.succ_ne_self stop (congrArg Span.stop same)
  · rintro ⟨nonempty, passes, detached, ends⟩
    refine ⟨nonempty, passes, ?_⟩
    rintro ⟨widerStart, widerStop⟩ notBehind notBefore widerPasses
    simp only [Passes] at nonempty detached ends notBehind notBefore widerPasses
    have sameStart : widerStart = start := by
      by_contra earlier
      have fails := detached (start - 1) (by omega)
      rw [widerPasses (start - 1) (by omega) (by omega)] at fails
      cases fails
    have sameStop : widerStop = stop := by
      by_contra later
      rw [widerPasses stop (by omega) (by omega)] at ends
      cases ends
    rw [sameStart, sameStop]

theorem IsRun.inside (isRun : span.IsRun test text) : span.stop ≤ text.length := by
  have last := isRun.passes (span.stop - 1) (by have := isRun.nonempty; omega)
    (by have := isRun.nonempty; omega)
  have := lt_length_of_passesAt last
  omega

/-- Runs that share a place are the same. -/
theorem IsRun.eq_of_overlap
    {other : Span} (isRun : span.IsRun test text) (otherIsRun : other.IsRun test text)
    (before : span.start < other.stop) (behind : other.start < span.stop) : span = other := by
  have bothPass : Passes test text
      ⟨min span.start other.start, max span.stop other.stop⟩ := by
    intro place notBefore inside
    simp only at notBefore inside
    by_cases inSpan : span.start ≤ place ∧ place < span.stop
    · exact isRun.passes place inSpan.1 inSpan.2
    · exact otherIsRun.passes place (by omega) (by omega)
  have same := isRun.maximal _ (Nat.min_le_left _ _) (Nat.le_max_left _ _) bothPass
  have otherSame := otherIsRun.maximal _ (Nat.min_le_right _ _) (Nat.le_max_right _ _) bothPass
  exact same.symm.trans otherSame

theorem IsRun.apart
    {later : Span} (isRun : span.IsRun test text) (laterIsRun : later.IsRun test text)
    (before : span.stop < later.start) : Apart test text span later := by
  have inside : span.stop < text.length := by
    have := laterIsRun.inside
    have := laterIsRun.nonempty
    omega
  have fails := (isRun_iff.mp isRun).2.2.2
  rw [passesAt, List.getElem?_eq_getElem inside] at fails
  exact ⟨span.stop, text[span.stop], Nat.le_refl _, before, List.getElem?_eq_getElem inside, fails⟩

end Span

/-! ## The spans of a layout -/

section Layouts

variable {gap run front rest : List Char} {span : Span}

theorem Span.cut_behind : (span.behind front.length).cut (front ++ rest) = span.cut rest := by
  simp only [cut, behind]
  rw [List.drop_append, List.drop_eq_nil_of_le (by omega)]
  congr 1
  · omega
  · simp

theorem Span.IsRun.start_pos
    (isRun : span.IsRun test rest) (ends : passesAt test rest 0 = false) : 0 < span.start := by
  by_contra atStart
  have first := isRun.passes 0 (by omega) (by have := isRun.nonempty; omega)
  rw [ends] at first
  cases first

/-- Where the rest does not go on with a run, its runs are those behind the front. -/
theorem Span.isRun_behind (ends : passesAt test rest 0 = false) :
    (span.behind front.length).IsRun test (front ++ rest) ↔ span.IsRun test rest := by
  constructor
  · intro isRun
    obtain ⟨nonempty, passes, detached, last⟩ := isRun_iff.mp isRun
    simp only [behind, Passes, passesAt_append_right] at nonempty passes detached last
    refine isRun_iff.mpr ⟨by omega, fun place notBefore inside => ?_, fun place touches => ?_, last⟩
    · rw [← passesAt_append_right front]
      exact passes (front.length + place) (by omega) (by omega)
    · rw [← passesAt_append_right front]
      exact detached (front.length + place) (by omega)
  · intro isRun
    have started := isRun.start_pos ends
    obtain ⟨nonempty, passes, detached, last⟩ := isRun_iff.mp isRun
    refine isRun_iff.mpr ⟨Nat.add_lt_add_left nonempty _, fun place notBefore inside => ?_,
      fun place touches => ?_, (passesAt_append_right front rest span.stop).trans last⟩
    all_goals simp only [behind] at *
    · obtain ⟨offset, rfl⟩ := Nat.exists_eq_add_of_le (by omega : front.length ≤ place)
      rw [passesAt_append_right]
      exact passes offset (by omega) (by omega)
    · obtain ⟨offset, rfl⟩ := Nat.exists_eq_add_of_le (by omega : front.length ≤ place)
      rw [passesAt_append_right]
      exact detached offset (by omega)

theorem Span.isRun_first
    (fails : ∀ c ∈ gap, test c = false) (nonempty : run ≠ []) (passes : ∀ c ∈ run, test c = true)
    (ends : passesAt test rest 0 = false) :
    IsRun test (gap ++ (run ++ rest)) ⟨gap.length, gap.length + run.length⟩ := by
  have some := List.length_pos_iff.mpr nonempty
  refine isRun_iff.mpr ⟨Nat.lt_add_of_pos_right some, fun place notBefore inside => ?_,
    fun place touches => ?_, ?_⟩
  all_goals simp only at *
  · obtain ⟨offset, rfl⟩ := Nat.exists_eq_add_of_le notBefore
    have inRun : offset < run.length := by omega
    rw [passesAt_append_right, passesAt_append_left inRun, passesAt_of_all passes inRun]
  · rw [passesAt_append_left (by omega), passesAt_of_fails fails]
  · rw [passesAt_append_right, ← Nat.add_zero run.length, passesAt_append_right, ends]

/-- The runs of a layout: the first one, and those of the rest. -/
theorem Span.isRun_layout_iff
    (fails : ∀ c ∈ gap, test c = false) (nonempty : run ≠ []) (passes : ∀ c ∈ run, test c = true)
    (ends : passesAt test rest 0 = false) :
    span.IsRun test (gap ++ (run ++ rest)) ↔
      span = ⟨gap.length, gap.length + run.length⟩ ∨
        ∃ inRest : Span, inRest.IsRun test rest ∧ span = inRest.behind (gap ++ run).length := by
  have first := isRun_first fails nonempty passes ends
  constructor
  · intro isRun
    by_cases early : span.start < gap.length + run.length
    · have notInGap : gap.length ≤ span.start := by
        by_contra inGap
        have opens := isRun.passes span.start (Nat.le_refl _) isRun.nonempty
        rw [passesAt_append_left (by omega), passesAt_of_fails fails] at opens
        cases opens
      refine Or.inl (isRun.eq_of_overlap first early ?_)
      have := isRun.nonempty
      simp only
      omega
    · have moved : span = behind ⟨span.start - (gap ++ run).length, span.stop - (gap ++ run).length⟩
          (gap ++ run).length := by
        have := isRun.nonempty
        ext
        all_goals
          simp only [behind, List.length_append]
          omega
      rw [← List.append_assoc, moved, isRun_behind ends] at isRun
      exact Or.inr ⟨_, isRun, moved⟩
  · rintro (rfl | ⟨inRest, isRun, rfl⟩)
    · exact first
    · rw [← List.append_assoc]
      exact (isRun_behind ends).mpr isRun

/-- The parts of a layout are cut from the text by the spans that are runs, all of them, in order,
and with something that fails the test in between. -/
theorem Layout.exists_spans
    {parts : List (List Char)} (layout : Layout test text parts) :
    ∃ spans : List Span, parts = spans.map (·.cut text) ∧
      (∀ span, span ∈ spans ↔ span.IsRun test text) ∧
      spans.Pairwise fun earlier later => earlier.stop < later.start := by
  induction layout with
  | gap fails =>
    refine ⟨[], rfl, fun span => ?_, List.Pairwise.nil⟩
    simp only [List.not_mem_nil, false_iff]
    intro isRun
    have opens := isRun.passes span.start (Nat.le_refl _) isRun.nonempty
    rw [passesAt_of_fails fails] at opens
    cases opens
  | @run gap run rest others fails nonempty passes ends later inductionHypothesis =>
    obtain ⟨spans, cuts, complete, ordered⟩ := inductionHypothesis
    have stops := passesAt_start ends
    let first : Span := ⟨gap.length, gap.length + run.length⟩
    refine ⟨first :: spans.map (·.behind (gap ++ run).length), ?_, fun span => ?_, ?_⟩
    · have firstCut : first.cut (gap ++ (run ++ rest)) = run := by
        simp [first, Span.cut]
      rw [List.map_cons, firstCut, List.map_map, cuts, ← List.append_assoc]
      simp only [Function.comp_def, Span.cut_behind]
    · rw [Span.isRun_layout_iff fails nonempty passes stops, List.mem_cons, List.mem_map]
      simp only [complete, eq_comm (a := span), first]
    · refine List.pairwise_cons.mpr ⟨?_, ?_⟩
      · intro span member
        obtain ⟨inRest, isLater, rfl⟩ := List.mem_map.mp member
        have started := ((complete inRest).mp isLater).start_pos stops
        simp only [first, Span.behind, List.length_append]
        omega
      · refine List.pairwise_map.mpr (ordered.imp fun before => ?_)
        simp only [Span.behind]
        omega

end Layouts

/-- The runs of a text are cut from it by the spans that are runs, in order. -/
theorem runs_spans (test : Char → Bool) (text : List Char) :
    ∃ spans : List Span, runs test text = spans.map (·.cut text) ∧
      (∀ span, span ∈ spans ↔ span.IsRun test text) ∧
      spans.Pairwise (Span.Apart test text) := by
  obtain ⟨spans, cuts, complete, ordered⟩ := (layout_runs test text).exists_spans
  refine ⟨spans, cuts, complete, ordered.imp_of_mem ?_⟩
  intro earlier later earlierMember laterMember before
  exact ((complete earlier).mp earlierMember).apart ((complete later).mp laterMember) before

theorem mem_runs_iff {run : List Char} :
    run ∈ runs test text ↔ ∃ span : Span, span.IsRun test text ∧ span.cut text = run := by
  obtain ⟨spans, cuts, complete, _⟩ := runs_spans test text
  simp only [cuts, List.mem_map, complete]

end ImportAudit.Text
