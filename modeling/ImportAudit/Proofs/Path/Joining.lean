import ImportAudit.Proofs.Path.Ending
import Mathlib.Data.List.Basic

/-!
# Joined paths

The path of a file below a directory has the elements of the directory and then the names that
lead to the file. A cleaned path can be read back from its text, so two files have the same path
only if the elements of their directories and their names give the same list; where neither
directory is inside the other the names are the same.
-/

namespace ImportAudit.Text

/-- A piece consists of characters of the text and has no separator. -/
theorem mem_of_mem_pieces
    {separator : Char} {text piece : List Char} (member : piece ∈ pieces separator text) :
    separator ∉ piece ∧ ∀ c ∈ piece, c ∈ text := by
  induction text generalizing piece with
  | nil =>
    rw [pieces, List.mem_singleton] at member
    simp [member]
  | cons head tail inductionHypothesis =>
    obtain ⟨first, others, shape⟩ := List.exists_cons_of_ne_nil (pieces_ne_nil separator tail)
    rw [shape] at inductionHypothesis
    by_cases isSeparator : head = separator
    · rw [pieces, if_pos isSeparator, shape] at member
      rcases List.mem_cons.mp member with rfl | later
      · simp
      · obtain ⟨free, inTail⟩ := inductionHypothesis later
        exact ⟨free, fun c inPiece => List.mem_cons_of_mem head (inTail c inPiece)⟩
    · rw [pieces, if_neg isSeparator, shape] at member
      rcases List.mem_cons.mp member with rfl | later
      · obtain ⟨free, inTail⟩ := inductionHypothesis List.mem_cons_self
        refine ⟨?_, ?_⟩
        · simp [free, Ne.symm isSeparator]
        · intro c inPiece
          rcases List.mem_cons.mp inPiece with rfl | inFirst
          · exact List.mem_cons_self
          · exact List.mem_cons_of_mem head (inTail c inFirst)
      · obtain ⟨free, inTail⟩ := inductionHypothesis (List.mem_cons_of_mem first later)
        exact ⟨free, fun c inPiece => List.mem_cons_of_mem head (inTail c inPiece)⟩

end ImportAudit.Text

namespace ImportAudit.Path

structure IsElement (element : String) : Prop where
  nonempty : element ≠ ""
  notHere : element ≠ "."
  slashFree : '/' ∉ element.toList

/-- An element that leads down. -/
structure IsName (name : String) : Prop extends IsElement name where
  notUp : name ≠ ".."

instance (name : String) : Decidable (IsName name) :=
  decidable_of_iff (name ≠ "" ∧ name ≠ "." ∧ '/' ∉ name.toList ∧ name ≠ "..")
    ⟨fun ⟨nonempty, notHere, slashFree, notUp⟩ => ⟨⟨nonempty, notHere, slashFree⟩, notUp⟩,
      fun isName => ⟨isName.nonempty, isName.notHere, isName.slashFree, isName.notUp⟩⟩

@[simp]
theorem parts_append (front back : String) :
    parts (front ++ "/" ++ back) = parts front ++ parts back := by
  have split : (front ++ "/" ++ back).toList = front.toList ++ '/' :: back.toList := by simp
  rw [parts, Text.piecesOf, split, Text.pieces_append_separator, List.map_append]
  rfl

@[simp]
theorem parts_of_free {text : String} (free : '/' ∉ text.toList) : parts text = [text] := by
  rw [parts, Text.piecesOf, Text.pieces_of_free free]
  simp

theorem parts_intercalate
    {elements : List String} (nonempty : elements ≠ [])
    (free : ∀ element ∈ elements, '/' ∉ element.toList) :
    parts (String.intercalate "/" elements) = elements := by
  induction elements with
  | nil => exact absurd rfl nonempty
  | cons first rest inductionHypothesis =>
    obtain ⟨firstFree, restFree⟩ := List.forall_mem_cons.mp free
    by_cases alone : rest = []
    · rw [alone, String.intercalate_singleton]
      exact parts_of_free firstFree
    · rw [String.intercalate_cons_of_ne_nil alone]
      simp [firstFree, inductionHypothesis alone restFree]

/-! ## Cleaned paths -/

/-- Pushing adds the element itself, `..` or nothing. -/
theorem mem_pushElement
    {rooted : Bool} {reversed : List String} {element added : String}
    (member : element ∈ pushElement rooted reversed added) :
    element ∈ reversed ∨ element = ".." ∨ (element = added ∧ added ≠ "" ∧ added ≠ ".") := by
  unfold pushElement at member
  by_cases blank : (added = "" || added = ".") = true
  · rw [if_pos blank] at member
    exact Or.inl member
  · rw [if_neg blank] at member
    by_cases up : added = ".."
    · rw [if_pos up] at member
      cases reversed with
      | nil =>
        cases rooted with
        | true => cases member
        | false => exact Or.inr (Or.inl (List.mem_singleton.mp member))
      | cons last others =>
        by_cases lastUp : last = ".."
        · simp only [if_pos lastUp] at member
          rcases List.mem_cons.mp member with isUp | earlier
          · exact Or.inr (Or.inl isUp)
          · exact Or.inl earlier
        · simp only [if_neg lastUp] at member
          exact Or.inl (List.mem_cons_of_mem last member)
    · rw [if_neg up] at member
      rcases List.mem_cons.mp member with rfl | earlier
      · exact Or.inr (Or.inr ⟨rfl, by simpa using blank⟩)
      · exact Or.inl earlier

/-- An element of a cleaned path is `..` or a part of the path as it was given. -/
theorem mem_elements
    {path element : String} (member : element ∈ (toClean path).elements) :
    element = ".." ∨ (element ∈ parts path ∧ element ≠ "" ∧ element ≠ ".") := by
  have invariant : ∀ (added reversed : List String),
      element ∈ added.foldl (pushElement (isRooted path)) reversed →
        element ∈ reversed ∨ element = ".." ∨ (element ∈ added ∧ element ≠ "" ∧ element ≠ ".") := by
    intro added
    induction added with
    | nil => exact fun reversed found => Or.inl found
    | cons first rest inductionHypothesis =>
      intro reversed found
      rcases inductionHypothesis _ found with pushed | up | ⟨inRest, proper⟩
      · rcases mem_pushElement pushed with earlier | up | ⟨rfl, proper⟩
        · exact Or.inl earlier
        · exact Or.inr (Or.inl up)
        · exact Or.inr (Or.inr ⟨List.mem_cons_self, proper⟩)
      · exact Or.inr (Or.inl up)
      · exact Or.inr (Or.inr ⟨List.mem_cons_of_mem first inRest, proper⟩)
  have found := invariant (parts path) [] (List.mem_reverse.mp member)
  simpa using found

theorem isElement_of_mem
    {path element : String} (member : element ∈ (toClean path).elements) : IsElement element := by
  rcases mem_elements member with rfl | ⟨isPart, nonempty, notHere⟩
  · exact ⟨by decide, by decide, by decide⟩
  · obtain ⟨piece, isPiece, rfl⟩ := List.mem_map.mp isPart
    refine ⟨nonempty, notHere, ?_⟩
    rw [String.toList_ofList]
    exact (Text.mem_of_mem_pieces isPiece).1

/-- Names are stacked as they come. -/
theorem foldl_pushElement_names
    {names : List String} (areNames : ∀ name ∈ names, IsName name) (rooted : Bool)
    (reversed : List String) :
    names.foldl (pushElement rooted) reversed = names.reverse ++ reversed := by
  induction names generalizing reversed with
  | nil => rfl
  | cons name rest inductionHypothesis =>
    obtain ⟨isName, restNames⟩ := List.forall_mem_cons.mp areNames
    simp [isName.nonempty, isName.notHere, isName.notUp, inductionHypothesis restNames]

/-! ## Reading a path back -/

/-- The elements that the text of a cleaned path shows. -/
def shown (text : String) : List String :=
  (parts text).filter fun part => part != "" && part != "."

theorem shown_intercalate
    {elements : List String} (areElements : ∀ element ∈ elements, IsElement element) :
    shown (String.intercalate "/" elements) = elements := by
  by_cases nonempty : elements = []
  · subst nonempty
    decide
  · have free : ∀ element ∈ elements, '/' ∉ element.toList :=
      fun element member => (areElements element member).slashFree
    rw [shown, parts_intercalate nonempty free, List.filter_eq_self]
    intro element member
    simp [(areElements element member).nonempty, (areElements element member).notHere]

@[simp]
theorem shown_slash_append (text : String) : shown ("/" ++ text) = shown text := by
  have split := parts_append "" text
  rw [String.empty_append] at split
  rw [shown, split, List.filter_append]
  rfl

theorem shown_render
    {path : Clean} (areElements : ∀ element ∈ path.elements, IsElement element) :
    shown path.render = path.elements := by
  have joined := shown_intercalate areElements
  rw [Clean.render]
  by_cases rooted : path.rooted = true
  · simp [rooted, joined]
  · rw [if_neg rooted]
    by_cases empty : String.intercalate "/" path.elements = ""
    · rw [if_pos empty, ← joined, empty]
      decide
    · rw [if_neg empty, joined]

theorem head?_intercalate
    {elements : List String} (areElements : ∀ element ∈ elements, IsElement element) :
    (String.intercalate "/" elements).toList.head? ≠ some '/' := by
  cases elements with
  | nil => decide
  | cons first rest =>
    have isFirst := areElements first List.mem_cons_self
    have shape : ∃ tail,
        (String.intercalate "/" (first :: rest)).toList = first.toList ++ tail := by
      by_cases alone : rest = []
      · exact ⟨[], by rw [alone, String.intercalate_singleton, List.append_nil]⟩
      · rw [String.intercalate_cons_of_ne_nil alone]
        exact ⟨_, by rw [String.append_assoc, String.toList_append]⟩
    obtain ⟨tail, starts⟩ := shape
    rw [starts]
    intro slash
    cases chars : first.toList with
    | nil => exact isFirst.nonempty (String.toList_inj.mp chars)
    | cons c others =>
      rw [chars, List.cons_append, List.head?_cons, Option.some.injEq] at slash
      refine isFirst.slashFree ?_
      rw [chars, slash]
      exact List.mem_cons_self

@[simp]
theorem isRooted_append {front : String} (nonempty : front ≠ "") (back : String) :
    isRooted (front ++ back) = isRooted front := by
  have someChars : front.toList ≠ [] := fun empty => nonempty (String.toList_inj.mp empty)
  obtain ⟨c, others, chars⟩ := List.exists_cons_of_ne_nil someChars
  simp [isRooted, chars]

theorem isRooted_render
    {path : Clean} (areElements : ∀ element ∈ path.elements, IsElement element) :
    isRooted path.render = path.rooted := by
  rw [Clean.render, isRooted]
  by_cases rooted : path.rooted = true
  · rw [if_pos rooted, rooted, String.toList_append]
    rfl
  · rw [if_neg rooted, eq_false_of_ne_true rooted]
    by_cases empty : String.intercalate "/" path.elements = ""
    · rw [if_pos empty]
      decide
    · rw [if_neg empty]
      exact beq_false_of_ne (head?_intercalate areElements)

theorem render_inj
    {path other : Clean} (areElements : ∀ element ∈ path.elements, IsElement element)
    (otherElements : ∀ element ∈ other.elements, IsElement element)
    (same : path.render = other.render) : path = other := by
  rw [Clean.mk.injEq, ← isRooted_render areElements, ← isRooted_render otherElements,
    ← shown_render areElements, ← shown_render otherElements, same]
  exact ⟨rfl, rfl⟩

/-! ## Files below a directory -/

/-- The path from a directory to a file below it; nothing leads to the directory itself. -/
def below (names : List String) : String :=
  (Clean.mk false names).render

@[simp]
theorem below_ne_empty (names : List String) : below names ≠ "" := by
  rw [below, Clean.render]
  by_cases empty : String.intercalate "/" names = ""
  · simp [empty]
  · simp [empty]

theorem below_of_ne_nil
    {names : List String} (nonempty : names ≠ []) (areNames : ∀ name ∈ names, IsName name) :
    below names = String.intercalate "/" names := by
  have notEmpty : String.intercalate "/" names ≠ "" := by
    intro empty
    have whole := parts_intercalate nonempty fun name member => (areNames name member).slashFree
    rw [empty] at whole
    have emptyName : "" ∈ names := whole ▸ List.mem_singleton_self ""
    exact (areNames "" emptyName).nonempty rfl
  simp [below, Clean.render, notEmpty]

@[simp]
theorem below_singleton {name : String} (isName : IsName name) : below [name] = name := by
  rw [below_of_ne_nil (List.cons_ne_nil name []) (List.forall_mem_singleton.mpr isName),
    String.intercalate_singleton]

theorem foldl_below
    {names : List String} (areNames : ∀ name ∈ names, IsName name) (rooted : Bool)
    (reversed : List String) :
    (parts (below names)).foldl (pushElement rooted) reversed = names.reverse ++ reversed := by
  by_cases none : names = []
  · subst none
    rfl
  · rw [below_of_ne_nil none areNames,
      parts_intercalate none fun name member => (areNames name member).slashFree,
      foldl_pushElement_names areNames]

theorem isRooted_below
    {names : List String} (areNames : ∀ name ∈ names, IsName name) :
    isRooted (below names) = false :=
  isRooted_render fun name member => (areNames name member).toIsElement

/-- The path of a file has the elements of the directory and then its own names. -/
theorem join_below
    {names : List String} (areNames : ∀ name ∈ names, IsName name) (root : String) :
    join [root, below names] =
      (Clean.mk (toClean root).rooted ((toClean root).elements ++ names)).render := by
  by_cases here : root = ""
  · subst here
    have cleaned : toClean (below names) = ⟨false, names⟩ := by
      simp [toClean, isRooted_below areNames, foldl_below areNames]
    rw [join_empty_left (below_ne_empty names), clean, cleaned]
    rfl
  · have sameStart : isRooted (root ++ "/" ++ below names) = isRooted root := by
      rw [String.append_assoc, isRooted_append here]
    rw [join_of_ne_empty here (below_ne_empty names), clean, toClean, toClean, sameStart]
    simp [foldl_below areNames]

def Inside (inner outer : String) : Prop :=
  (toClean outer).rooted = (toClean inner).rooted ∧
    (toClean outer).elements <+: (toClean inner).elements ∧
      (toClean outer).elements ≠ (toClean inner).elements

instance (inner outer : String) : Decidable (Inside inner outer) :=
  inferInstanceAs (Decidable (_ ∧ _))

/-- Where neither directory is inside the other, files of the same path have the same names. -/
theorem below_inj
    {root other : String} {names otherNames : List String}
    (areNames : ∀ name ∈ names, IsName name) (otherAreNames : ∀ name ∈ otherNames, IsName name)
    (notInside : ¬ Inside root other) (notOutside : ¬ Inside other root)
    (same : join [root, below names] = join [other, below otherNames]) : names = otherNames := by
  rw [join_below areNames, join_below otherAreNames] at same
  have elementsOf {root : String} {names : List String} (areNames : ∀ name ∈ names, IsName name) :
      ∀ element ∈ (toClean root).elements ++ names, IsElement element := by
    intro element member
    rcases List.mem_append.mp member with ofRoot | isName
    · exact isElement_of_mem ofRoot
    · exact (areNames element isName).toIsElement
  obtain ⟨sameStart, sameElements⟩ :=
    Clean.mk.inj (render_inj (elementsOf areNames) (elementsOf otherAreNames) same)
  have sameRoots : (toClean root).elements = (toClean other).elements := by
    rcases List.append_eq_append_iff.mp sameElements with
      ⟨between, longer, _⟩ | ⟨between, longer, _⟩
    · by_contra differ
      exact notOutside ⟨sameStart, ⟨between, longer.symm⟩, differ⟩
    · by_contra differ
      exact notInside ⟨sameStart.symm, ⟨between, longer.symm⟩, Ne.symm differ⟩
  rw [sameRoots] at sameElements
  exact List.append_cancel_left sameElements

/-! ## Characters of joined paths -/

theorem mem_intercalate
    {c : Char} {elements : List String} (member : c ∈ (String.intercalate "/" elements).toList) :
    c = '/' ∨ ∃ element ∈ elements, c ∈ element.toList := by
  rw [String.toList_intercalate] at member
  rcases Text.mem_intercalate member with slash | ⟨chars, isElement, inElement⟩
  · exact Or.inl (List.mem_singleton.mp slash)
  · obtain ⟨element, inElements, rfl⟩ := List.mem_map.mp isElement
    exact Or.inr ⟨element, inElements, inElement⟩

theorem mem_render
    {c : Char} {path : Clean} (member : c ∈ path.render.toList) :
    c = '/' ∨ c = '.' ∨ ∃ element ∈ path.elements, c ∈ element.toList := by
  rw [Clean.render] at member
  by_cases rooted : path.rooted = true
  · rw [if_pos rooted, String.toList_append, List.mem_append] at member
    rcases member with slash | inJoined
    · exact Or.inl (by simpa using slash)
    · exact (mem_intercalate inJoined).imp_right Or.inr
  · rw [if_neg rooted] at member
    by_cases empty : String.intercalate "/" path.elements = ""
    · rw [if_pos empty] at member
      exact Or.inr (Or.inl (by simpa using member))
    · rw [if_neg empty] at member
      exact (mem_intercalate member).imp_right Or.inr

/-- Joining adds no characters but slashes and dots. -/
theorem mem_join_below
    {c : Char} {root : String} {names : List String} (areNames : ∀ name ∈ names, IsName name)
    (member : c ∈ (join [root, below names]).toList) :
    c = '/' ∨ c = '.' ∨ c ∈ root.toList ∨ ∃ name ∈ names, c ∈ name.toList := by
  rw [join_below areNames] at member
  rcases mem_render member with slash | dot | ⟨element, isElement, inElement⟩
  · exact Or.inl slash
  · exact Or.inr (Or.inl dot)
  · rcases List.mem_append.mp isElement with ofRoot | isName
    · rcases mem_elements ofRoot with rfl | ⟨isPart, _, _⟩
      · exact Or.inr (Or.inl (by simpa using inElement))
      · obtain ⟨piece, isPiece, rfl⟩ := List.mem_map.mp isPart
        rw [String.toList_ofList] at inElement
        exact Or.inr (Or.inr (Or.inl ((Text.mem_of_mem_pieces isPiece).2 c inElement)))
    · exact Or.inr (Or.inr (Or.inr ⟨element, isName, inElement⟩))

end ImportAudit.Path
