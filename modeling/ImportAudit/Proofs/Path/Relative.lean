import ImportAudit.Proofs.Path.Joining

/-!
# Paths seen from a directory

Cleaning a path once more changes nothing, so that a cleaned path can be taken apart again. Seen
from a directory, the path of what is below it is that of the names that lead there; its last
element is the last of these names, and it has an extension if that name has one.
-/

namespace ImportAudit.Path

/-! ## Cleaning once more -/

/-- Elements of a cleaned path, from last to first: an element that climbs stands only on others
that do, and in no path that starts at the top. -/
def Settled (rooted : Bool) : List String → Prop
  | [] => True
  | element :: lower =>
    IsElement element ∧ (element = ".." → rooted = false ∧ ∀ other ∈ lower, other = "..") ∧
      Settled rooted lower

variable {rooted : Bool} {reversed : List String}

theorem Settled.isElement
    (settled : Settled rooted reversed) : ∀ element ∈ reversed, IsElement element := by
  induction reversed with
  | nil => exact List.forall_mem_nil _
  | cons element lower inductionHypothesis =>
    obtain ⟨isElement, _, lowerSettled⟩ := settled
    exact List.forall_mem_cons.mpr ⟨isElement, inductionHypothesis lowerSettled⟩

/-- Pushing an element keeps the elements settled. -/
theorem Settled.pushElement
    (settled : Settled rooted reversed) {element : String} (slashFree : '/' ∉ element.toList) :
    Settled rooted (pushElement rooted reversed element) := by
  unfold Path.pushElement
  by_cases blank : (element = "" || element = ".") = true
  · rw [if_pos blank]
    exact settled
  · rw [if_neg blank]
    obtain ⟨nonempty, notHere⟩ : element ≠ "" ∧ element ≠ "." := by simpa using blank
    by_cases up : element = ".."
    · subst up
      have isElement : IsElement ".." := ⟨nonempty, notHere, slashFree⟩
      rw [if_pos rfl]
      cases reversed with
      | nil =>
        cases rooted with
        | true => trivial
        | false => exact ⟨isElement, fun _ => ⟨rfl, List.forall_mem_nil _⟩, trivial⟩
      | cons last others =>
        have ⟨_, climbs, othersSettled⟩ := settled
        by_cases lastUp : last = ".."
        · simp only [if_pos lastUp]
          obtain ⟨notRooted, othersUp⟩ := climbs lastUp
          exact ⟨isElement, fun _ => ⟨notRooted, List.forall_mem_cons.mpr ⟨lastUp, othersUp⟩⟩,
            settled⟩
        · simp only [if_neg lastUp]
          exact othersSettled
    · rw [if_neg up]
      exact ⟨⟨nonempty, notHere, slashFree⟩, fun isUp => absurd isUp up, settled⟩

theorem Settled.foldl
    (settled : Settled rooted reversed) {elements : List String}
    (slashFree : ∀ element ∈ elements, '/' ∉ element.toList) :
    Settled rooted (elements.foldl (Path.pushElement rooted) reversed) := by
  induction elements generalizing reversed with
  | nil => exact settled
  | cons element rest inductionHypothesis =>
    obtain ⟨elementFree, restFree⟩ := List.forall_mem_cons.mp slashFree
    exact inductionHypothesis (settled.pushElement elementFree) restFree

theorem settled_toClean (path : String) :
    Settled (toClean path).rooted (toClean path).elements.reverse := by
  have slashFree : ∀ part ∈ parts path, '/' ∉ part.toList := by
    intro part member
    obtain ⟨piece, isPiece, rfl⟩ := List.mem_map.mp member
    rw [String.toList_ofList]
    exact (Text.mem_of_mem_pieces isPiece).1
  have settled : Settled (isRooted path) [] := trivial
  rw [toClean, List.reverse_reverse]
  exact settled.foldl slashFree

theorem pushElement_of_settled
    {element : String} (settled : Settled rooted (element :: reversed)) :
    pushElement rooted reversed element = element :: reversed := by
  obtain ⟨isElement, climbs, _⟩ := settled
  by_cases up : element = ".."
  · subst up
    obtain ⟨notRooted, lowerUp⟩ := climbs rfl
    subst notRooted
    cases reversed with
    | nil => rfl
    | cons last others =>
      rw [lowerUp last List.mem_cons_self]
      rfl
  · exact pushElement_name rooted reversed isElement.nonempty isElement.notHere up

/-- Settled elements are what pushing them one by one gives. -/
theorem foldl_of_settled (settled : Settled rooted reversed) :
    reversed.reverse.foldl (pushElement rooted) [] = reversed := by
  induction reversed with
  | nil => rfl
  | cons element lower inductionHypothesis =>
    rw [List.reverse_cons, List.foldl_append, inductionHypothesis settled.2.2, List.foldl_cons,
      List.foldl_nil, pushElement_of_settled settled]

/-- Only the elements that a path shows are added. -/
theorem foldl_shown (rooted : Bool) (reversed : List String) (path : String) :
    (parts path).foldl (pushElement rooted) reversed =
      (shown path).foldl (pushElement rooted) reversed := by
  rw [shown]
  induction parts path generalizing reversed with
  | nil => rfl
  | cons part rest inductionHypothesis =>
    rw [List.foldl_cons, List.filter_cons]
    by_cases blank : part = "" ∨ part = "."
    · rcases blank with rfl | rfl
      · simpa using inductionHypothesis reversed
      · simpa using inductionHypothesis reversed
    · have shows : (part != "" && part != ".") = true := by
        rw [not_or] at blank
        simp [blank]
      rw [if_pos shows, List.foldl_cons, inductionHypothesis]

/-- A cleaned path is read back from its text. -/
theorem toClean_render
    {path : Clean} (settled : Settled path.rooted path.elements.reverse) :
    toClean path.render = path := by
  have areElements : ∀ element ∈ path.elements, IsElement element :=
    fun element member => settled.isElement element (List.mem_reverse.mpr member)
  have folded := foldl_of_settled settled
  rw [List.reverse_reverse] at folded
  rw [toClean, isRooted_render areElements, foldl_shown, shown_render areElements, folded,
    List.reverse_reverse]

/-! ## Below a directory -/

@[simp]
theorem dropCommon_append (elements more : List String) :
    dropCommon elements (elements ++ more) = ([], more) := by
  induction elements with
  | nil =>
    cases more with
    | nil => rfl
    | cons first others => rfl
  | cons element rest inductionHypothesis =>
    rw [List.cons_append, dropCommon, if_pos rfl, inductionHypothesis]

section Below

variable {names : List String} (areNames : ∀ name ∈ names, IsName name) (root : String)
include areNames

theorem toClean_join_below :
    toClean (join [root, below names]) =
      ⟨(toClean root).rooted, (toClean root).elements ++ names⟩ := by
  rw [join_below areNames, toClean_render]
  have settled := (settled_toClean root).foldl fun name member => (areNames name member).slashFree
  rw [foldl_pushElement_names areNames] at settled
  rwa [List.reverse_append]

/-- The names lead from the directory to what is below it. -/
theorem relative?_join_below (nonempty : names ≠ []) :
    relative? root (join [root, below names]) = some (String.intercalate "/" names) := by
  have longer : toClean root ≠ ⟨(toClean root).rooted, (toClean root).elements ++ names⟩ := by
    intro same
    have elements : (toClean root).elements = (toClean root).elements ++ names :=
      congrArg Clean.elements same
    exact nonempty (List.append_right_eq_self.mp elements.symm)
  have someElement : ((toClean root).elements ++ names).isEmpty = false :=
    List.isEmpty_eq_false_iff.mpr (List.append_ne_nil_of_right_ne_nil _ nonempty)
  simp only [relative?, toClean_join_below areNames, if_neg longer, bne_self_eq_false,
    Bool.false_eq_true, if_false, someElement, Bool.and_false, dropCommon_append]

end Below

/-! ## The last element -/

/-- Nothing or a slash stands in front of the last element of a path. -/
theorem afterLastSlash_append
    {front last : List Char} (cut : ∀ c ∈ front.getLast?, c = '/') (slashFree : '/' ∉ last) :
    afterLastSlash (front ++ last) = last := by
  have passes : ∀ c ∈ last.reverse, (c != '/') = true := by
    intro c member
    rw [bne_iff_ne]
    rintro rfl
    exact slashFree (List.mem_reverse.mp member)
  have stops : front.reverse.takeWhile (· != '/') = [] := by
    cases shape : front.reverse with
    | nil => rfl
    | cons c others =>
      have isSlash : c = '/' := by
        apply cut
        rw [← List.head?_reverse, shape]
        rfl
      rw [isSlash]
      rfl
  rw [afterLastSlash, List.reverse_append, List.takeWhile_append_of_pos passes, stops,
    List.append_nil, List.reverse_reverse]

theorem dropTrailingSlashes_append
    {front last : List Char} (slashFree : '/' ∉ last) (nonempty : last ≠ []) :
    dropTrailingSlashes (front ++ last) = front ++ last := by
  have whole := List.dropLast_concat_getLast nonempty
  have stays : ¬ (last.getLast nonempty == '/') = true := by
    rw [beq_iff_eq]
    intro isSlash
    exact slashFree (isSlash ▸ List.getLast_mem nonempty)
  rw [dropTrailingSlashes, ← whole, ← List.append_assoc, List.reverse_concat,
    List.dropWhile_cons_of_neg (p := (· == '/')) stays, ← List.reverse_concat, List.reverse_reverse]

/-- The text of a path ends with its last name, behind a slash or alone. -/
theorem render_concat
    {elements : List String} {name : String} (isName : IsName name) (rooted : Bool) :
    ∃ front, (Clean.mk rooted (elements ++ [name])).render.toList = front ++ name.toList ∧
      ∀ c ∈ front.getLast?, c = '/' := by
  have joined : ∃ front, (String.intercalate "/" (elements ++ [name])).toList =
      front ++ name.toList ∧ ∀ c ∈ front.getLast?, c = '/' := by
    by_cases alone : elements = []
    · refine ⟨[], ?_, fun c member => by cases member⟩
      rw [alone, List.nil_append, String.intercalate_singleton, List.nil_append]
    · refine ⟨(String.intercalate "/" elements ++ "/").toList, ?_, fun c member => ?_⟩
      · rw [String.intercalate_append_of_ne_nil alone (List.cons_ne_nil name []),
          String.intercalate_singleton, String.toList_append]
      · simpa [eq_comm] using member
  obtain ⟨front, whole, cut⟩ := joined
  have notEmpty : String.intercalate "/" (elements ++ [name]) ≠ "" := by
    intro empty
    rw [empty] at whole
    obtain ⟨_, noName⟩ := List.append_eq_nil_iff.mp whole.symm
    exact isName.nonempty (String.toList_inj.mp noName)
  cases rooted with
  | false =>
    rw [Clean.render, if_neg Bool.false_ne_true, if_neg notEmpty]
    exact ⟨front, whole, cut⟩
  | true =>
    refine ⟨'/' :: front, ?_, fun c member => ?_⟩
    · rw [Clean.render, if_pos rfl, String.toList_append, whole]
      rfl
    · cases front with
      | nil => exact (Option.some.inj member).symm
      | cons first others => exact cut c member

section Last

variable {front : List String} {name : String}
  (frontNames : ∀ part ∈ front, IsName part) (isName : IsName name) (root : String)
include frontNames isName

theorem exists_before_last :
    ∃ before, (join [root, below (front ++ [name])]).toList = before ++ name.toList ∧
      ∀ c ∈ before.getLast?, c = '/' := by
  have areNames : ∀ part ∈ front ++ [name], IsName part :=
    List.forall_mem_append.mpr ⟨frontNames, List.forall_mem_singleton.mpr isName⟩
  rw [join_below areNames, ← List.append_assoc]
  exact render_concat isName (toClean root).rooted

/-- The path has an extension if its last name has a dot. -/
theorem extension_join_below :
    extension (join [root, below (front ++ [name])]) = "" ↔ '.' ∉ name.toList := by
  obtain ⟨before, whole, cut⟩ := exists_before_last frontNames isName root
  rw [extension, whole, afterLastSlash_append cut isName.slashFree]
  by_cases dotted : '.' ∈ name.toList
  · simp [dotted, ← String.toList_inj]
  · simp [dotted]

theorem base_join_below : base (join [root, below (front ++ [name])]) = name := by
  have nonempty : name.toList ≠ [] := fun empty => isName.nonempty (String.toList_inj.mp empty)
  obtain ⟨before, whole, cut⟩ := exists_before_last frontNames isName root
  have someText : join [root, below (front ++ [name])] ≠ "" := by
    intro empty
    rw [empty] at whole
    exact nonempty (List.append_eq_nil_iff.mp whole.symm).2
  simp only [base, if_neg someText, whole, dropTrailingSlashes_append isName.slashFree nonempty,
    afterLastSlash_append cut isName.slashFree, List.isEmpty_eq_false_iff.mpr nonempty,
    Bool.false_eq_true, if_false, String.ofList_toList]

end Last

end ImportAudit.Path
