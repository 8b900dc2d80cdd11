import ImportAudit.Proofs.PlainNames

/-!
# Generic and extending declarations

A declaring line declares everything between its marker and its body, so a declaration with type
parameters, or one that extends another, has more for a name than the identifier that imports use.
What an audit reports is put together line by line, and for such a line it is the whole head unless
some specifier has the whole head in it.
-/

namespace ImportAudit.Declaration

open ImportAudit.Text
open ImportAudit.Import.Header (Name)

/-! ## Heads -/

/-- How the head of a declaration goes on after its name: with `<` and the rest of some type
parameters, or with the word `extends` and the rest of what it extends. -/
inductive Addition
  | parameters (rest : List Char)
  | extending (rest : List Char)

/-- What follows the name and is no part of any marker. -/
def Addition.opening : Addition → List Char
  | .parameters _ => ['<']
  | .extending _ => " extends".toList

def Addition.rest : Addition → List Char
  | .parameters rest => rest
  | .extending rest => rest

/-- All that stands between the marker of a declaration and the sign that opens its body: a name,
and more than a name. -/
structure Head where
  name : Name
  addition : Addition
  signFree : isSignFree addition.rest = true

/-- The head of a declaration as the line has it. -/
def Head.text (head : Head) : List Char :=
  head.name.text ++ head.addition.opening ++ head.addition.rest

/-- The head without marker tokens and without the space around it. -/
def Head.declared (head : Head) : List Char :=
  trimChars (head.name.text ++ head.addition.opening ++
    removeMarkers Marker.defaults head.addition.rest)

def Head.string (head : Head) : String :=
  String.ofList head.declared

def Head.opens (head : Head) (line : List Char) : Bool :=
  ("export type ".toList ++ head.text ++ ['=']).isPrefixOf line ||
    ("export intraface ".toList ++ head.text ++ ['{']).isPrefixOf line

theorem Addition.opening_eq (addition : Addition) :
    addition.opening = ['<'] ∨ addition.opening = " extends".toList := by
  cases addition with
  | parameters rest => exact Or.inl rfl
  | extending rest => exact Or.inr rfl

theorem Addition.apart (addition : Addition) : Apart addition.opening := by
  rcases addition.opening_eq with same | same
  · rw [same]
    exact ⟨by decide, by decide, ⟨[], '<', rfl, by decide, by decide⟩⟩
  · rw [same]
    exact ⟨by decide, by decide, ⟨" extend".toList, 's', rfl, by decide, by decide⟩⟩

theorem Addition.signFree_opening (addition : Addition) :
    isSignFree addition.opening = true := by
  rcases addition.opening_eq with same | same
  · rw [same]
    decide
  · rw [same]
    decide

/-- The opening has a character that no identifier has. -/
theorem Addition.exists_separator (addition : Addition) :
    ∃ c ∈ addition.opening, isWordChar c = false := by
  rcases addition.opening_eq with same | same
  · rw [same]
    exact ⟨'<', by decide, by decide⟩
  · rw [same]
    exact ⟨' ', by decide, by decide⟩

theorem Head.trimmed (head : Head) : Trimmed (head.name.text ++ head.addition.opening) := by
  obtain ⟨first, tail, shape, solid⟩ := head.name.trimmed.starts
  refine ⟨⟨first, tail ++ head.addition.opening, by rw [shape]; rfl, solid⟩, ?_⟩
  rcases head.addition.opening_eq with same | same
  · rw [same]
    exact ⟨head.name.text, '<', rfl, by decide⟩
  · rw [same]
    exact ⟨head.name.text ++ " extend".toList, 's', by simp, by decide⟩

theorem Head.declared_starts (head : Head) :
    head.name.text ++ head.addition.opening <+: head.declared := by
  obtain ⟨more, whole⟩ :=
    trimChars_append head.trimmed (removeMarkers Marker.defaults head.addition.rest)
  exact ⟨more, whole.symm⟩

/-! ## What a line with a head declares -/

theorem isSignFree_removeMarkers
    {text : List Char} (signFree : isSignFree text = true) :
    isSignFree (removeMarkers Marker.defaults text) = true := by
  rw [isSignFree, List.all_eq_true] at signFree ⊢
  intro c member
  exact signFree c (removeAll_subset _ _ (removeAll_subset _ _ member))

theorem removeMarkers_append_sign
    {sign : Char} (intraface : sign ∉ "export intraface".toList)
    (type : sign ∉ "export type".toList) (front back : List Char) :
    removeMarkers Marker.defaults (front ++ sign :: back) =
      removeMarkers Marker.defaults front ++ sign :: removeMarkers Marker.defaults back := by
  rw [removeMarkers_defaults, removeAll_append_stop intraface, removeAll_append_stop type]
  rfl

/-- Between the marker and the sign stands nothing that would cut the head short. -/
theorem Head.uncut
    (head : Head) {sign : Char} (ends : sign = '=' ∨ sign = '{') (left : List Char) :
    trimChars (((' ' :: (head.name.text ++ head.addition.opening) ++
      (removeMarkers Marker.defaults head.addition.rest ++ sign :: left)).takeWhile
        (· != '{')).takeWhile (· != '=')) = head.declared := by
  have signFree : isSignFree (' ' :: (head.name.text ++ head.addition.opening) ++
      removeMarkers Marker.defaults head.addition.rest) = true := by
    have space : isSignFree [' '] = true := by decide
    rw [← List.singleton_append, isSignFree_append, isSignFree_append, isSignFree_append, space,
      isSignFree_name, head.addition.signFree_opening, isSignFree_removeMarkers head.signFree]
    rfl
  rw [← List.append_assoc, cut_sign signFree ends, List.cons_append, trimChars_space]
  rfl

/-- A line that starts with a marker and a head declares all of the head but its marker tokens. -/
theorem Head.declaredName?_marked
    (head : Head) {marker : Marker} (member : marker ∈ Marker.defaults) {sign : Char}
    (ends : sign = '=' ∨ sign = '{') (left : List Char) :
    declaredName? (marker.token.toList ++ (' ' :: (head.name.text ++ head.addition.opening)) ++
      (head.addition.rest ++ sign :: left)) = some head.string := by
  have apart := head.addition.apart
  have nonempty : head.declared ≠ [] := by
    intro empty
    have starts := head.declared_starts
    rw [empty, List.prefix_nil, List.append_eq_nil_iff] at starts
    exact head.name.ne_nil starts.1
  refine declaredName?_of_nameIn member ?_ ?_ nonempty
  · rw [List.append_assoc]
    exact List.prefix_append _ _
  · rw [nameIn, removeMarkers_marked member apart]
    rcases ends with rfl | rfl
    · rw [removeMarkers_append_sign (by decide) (by decide), head.uncut (Or.inl rfl)]
    · rw [removeMarkers_append_sign (by decide) (by decide), head.uncut (Or.inr rfl)]

/-- A line that starts with a head declares the whole head. -/
theorem declaredName?_of_opens
    {head : Head} {line : List Char} (opens : head.opens line = true) :
    declaredName? line = some head.string := by
  rw [Head.opens, Bool.or_eq_true, List.isPrefixOf_iff_prefix, List.isPrefixOf_iff_prefix] at opens
  rcases opens with ⟨left, whole⟩ | ⟨left, whole⟩
  · have member : ⟨"export type", "type"⟩ ∈ Marker.defaults := by decide
    have shape : line = "export type".toList ++
        (' ' :: (head.name.text ++ head.addition.opening)) ++
          (head.addition.rest ++ '=' :: left) := by
      rw [← whole, Head.text]
      simp
    rw [shape]
    exact head.declaredName?_marked member (Or.inl rfl) left
  · have member : ⟨"export intraface", "interface"⟩ ∈ Marker.defaults := by decide
    have shape : line = "export intraface".toList ++
        (' ' :: (head.name.text ++ head.addition.opening)) ++
          (head.addition.rest ++ '{' :: left) := by
      rw [← whole, Head.text]
      simp
    rw [shape]
    exact head.declaredName?_marked member (Or.inr rfl) left

end ImportAudit.Declaration

namespace ImportAudit.Usage

open ImportAudit.Declaration (Head)

theorem not_matches_exact
    {name : String} {c : Char} (member : c ∈ name.toList) (outside : Text.isWordChar c = false)
    (specifier : String) : matches? .exact specifier name = false := by
  apply Bool.eq_false_iff.mpr
  intro used
  have word := (matches_exact_iff.mp used).2.1 c member
  rw [outside] at word
  cases word

theorem not_matches_of_longer
    {specifier name : String} (longer : specifier.toList.length < name.toList.length)
    (mode : MatchMode) : matches? mode specifier name = false := by
  apply Bool.eq_false_iff.mpr
  intro used
  have present : name.toList <:+: specifier.toList :=
    Text.occurs_iff.mp (contains_of_matches used)
  exact absurd present.length_le (Nat.not_le.mpr longer)

/-- Importing the name of a head is no use of the head. -/
theorem not_matches_head (head : Head) (mode : MatchMode) :
    matches? mode head.name.string head.string = false := by
  apply not_matches_of_longer
  obtain ⟨c, inOpening, _⟩ := head.addition.exists_separator
  have nonempty := List.length_pos_of_mem inOpening
  have bound := head.declared_starts.length_le
  rw [List.length_append] at bound
  rw [Import.Header.Name.string, Head.string, String.toList_ofList, String.toList_ofList]
  omega

theorem not_matches_exact_head (head : Head) (specifier : String) :
    matches? .exact specifier head.string = false := by
  obtain ⟨c, inOpening, outside⟩ := head.addition.exists_separator
  refine not_matches_exact (c := c) ?_ outside specifier
  rw [Head.string, String.toList_ofList]
  exact head.declared_starts.subset (List.mem_append_right _ inOpening)

end ImportAudit.Usage

namespace ImportAudit.Project

open ImportAudit.Import.Header (Name Statement Opens)
open ImportAudit.Declaration (Head declaredName? opensWith declaredName?_of_opens
  declaredName?_of_opensWith)

/-- The specifiers of all import statements of the files. -/
def specifiersOf (mode : ParseMode) (tree : FileTree) (project : String) (files : List String) :
    List String :=
  files.flatMap fun file => importNames mode (tree.textAt (sourceFolder project) file)

/-- What a line adds to the reported declarations: the name that it declares, unless one of the
specifiers uses it. -/
def reportedAt (options : Options) (tree : FileTree) (project : String) (files : List String)
    (line : List Char) : List String :=
  Usage.unused options.matchMode (specifiersOf options.parseMode tree project files)
    (declaredName? line).toList

theorem unused_declarations
    (options : Options) (tree : FileTree) (project : String) (files declaring : List String) :
    Usage.unused options.matchMode (specifiersOf options.parseMode tree project files)
        (declaring.flatMap fun file => (linesAt tree project file).filterMap declaredName?) =
      declaring.flatMap fun file =>
        (linesAt tree project file).flatMap (reportedAt options tree project files) := by
  rw [Usage.unused, List.filter_flatMap]
  refine List.flatMap_congr fun file _ => ?_
  rw [List.filterMap_eq_flatMap_toList, List.filter_flatMap]
  rfl

section Audited

variable {cache : Option Cache.Result} {tree : FileTree} {project : String} {request : Request}
  {options : Options} {cancelled : Bool} {audit : Audit} {files : List String}

theorem reportedAt_of_used
    {line : List Char} {name : String} (declares : declaredName? line = some name)
    (used : Usage.isUsed options.matchMode
      (specifiersOf options.parseMode tree project files) name = true) :
    reportedAt options tree project files line = [] := by
  rw [reportedAt, declares, Option.toList_some, Usage.unused,
    List.filter_cons_of_neg (by simp [used]), List.filter_nil]

theorem reportedAt_of_unused
    {line : List Char} {name : String} (declares : declaredName? line = some name)
    (notUsed : Usage.isUsed options.matchMode
      (specifiersOf options.parseMode tree project files) name = false) :
    reportedAt options tree project files line = [name] := by
  rw [reportedAt, declares, Option.toList_some, Usage.unused,
    List.filter_cons_of_pos (by simp [notUsed]), List.filter_nil]

/-- A head is reported unless some specifier matches all of it. -/
theorem reportedAt_of_opens
    {head : Head} {line : List Char} (opens : head.opens line = true) :
    reportedAt options tree project files line =
      if ∃ specifier ∈ specifiersOf options.parseMode tree project files,
          Usage.matches? options.matchMode specifier head.string = true
      then [] else [head.string] := by
  have declares := declaredName?_of_opens opens
  split
  · rename_i used
    exact reportedAt_of_used declares (List.any_eq_true.mpr used)
  · rename_i notUsed
    apply reportedAt_of_unused declares
    apply Bool.eq_false_iff.mpr
    exact fun used => notUsed (List.any_eq_true.mp used)

/-- A successful audit reports declarations line by line. A plain declaration adds nothing where a
header imports its name. A declaration that has more than a name between its marker and its body
adds all of that exactly when no specifier uses all of it, which a specifier that is just the name
never does, and in the exact mode no specifier does. -/
theorem findUnused_heads
    (resolved : request.resolve = .ok options) (defaultMarkers : options.markers = Marker.defaults)
    (usable : Scan.Usable Marker.defaults tree (sourceFolder project) cache)
    (succeeded : (findUnused cache tree project request cancelled).result = .ok audit) :
    audit.findings.declarations =
        ((audit.index.files.filter isDeclaring).flatMap fun file =>
          (linesAt tree project file).flatMap
            (reportedAt options tree project audit.index.files)) ∧
      (∀ (name : Name) (line : List Char), opensWith name line = true →
        Imports tree project audit.index.files name →
          reportedAt options tree project audit.index.files line = []) ∧
      (∀ (head : Head) (line : List Char), head.opens line = true →
        reportedAt options tree project audit.index.files line =
          if ∃ specifier ∈ specifiersOf options.parseMode tree project audit.index.files,
              Usage.matches? options.matchMode specifier head.string = true
          then [] else [head.string]) ∧
      (∀ head : Head, Usage.matches? options.matchMode head.name.string head.string = false ∧
        ∀ specifier, Usage.matches? .exact specifier head.string = false) := by
  obtain ⟨reflects, _, findings⟩ :=
    reflects_of_findUnused resolved defaultMarkers usable succeeded
  have surface : audit.index.surface =
      specifiersOf options.parseMode tree project audit.index.files := reflects.surface
  rw [findings]
  refine ⟨?_, fun name line opens imports => ?_, fun head line opens => ?_, fun head => ?_⟩
  · rw [Usage.findings, declarations_eq reflects, surface]
    exact unused_declarations options tree project audit.index.files _
  · apply reportedAt_of_used (declaredName?_of_opensWith opens)
    rw [← surface]
    exact isUsed_of_imports reflects imports options.matchMode
  · exact reportedAt_of_opens opens
  · exact ⟨Usage.not_matches_head head _, Usage.not_matches_exact_head head⟩

end Audited

/-! ## An imported generic type -/

/-- A file that imports two names and declares a plain and a generic type of these names. -/
def importedBox : String :=
  "import { Box } from 'm';\nimport { Id } from 'm';\n" ++
    "export type Id = string;\nexport type Box<T> = { value: T }"

def nameBox : Name := ⟨"Box".toList, by decide⟩

def nameId : Name := ⟨"Id".toList, by decide⟩

def headBox : Head := ⟨nameBox, .parameters "T> ".toList, by decide⟩

def importsOf (name : Name) : Statement :=
  { importsB with clause := .grouped (.listed ⟨name, none⟩ []), terminated := true }

def lineBox : List Char := "export type Box<T> = { value: T }".toList

theorem opens_lineBox : headBox.opens lineBox = true := by
  decide +kernel

theorem opens_importedBox : Opens [importsOf nameBox, importsOf nameId] importedBox.toList := by
  rw [Opens, ← List.isPrefixOf_iff_prefix]
  decide +kernel

theorem imports_importedBox
    {name : Name} (member : importsOf name ∈ [importsOf nameBox, importsOf nameId]) :
    Imports (oneSource importedBox.toUTF8) "." ["a.ts"] name :=
  ⟨"a.ts", List.mem_singleton_self _, importedBox, textAt?_oneSource importedBox, _,
    opens_importedBox, importsOf name, member, List.mem_singleton_self _⟩

theorem linesAt_importedBox :
    linesAt (oneSource importedBox.toUTF8) "." "a.ts" =
      ["import { Box } from 'm';".toList, "import { Id } from 'm';".toList,
        "export type Id = string;".toList, lineBox] := by
  rw [linesAt, FileTree.textAt_eq (textAt?_oneSource importedBox)]
  decide +kernel

theorem specifiersOf_importedBox :
    specifiersOf .line (oneSource importedBox.toUTF8) "." ["a.ts"] = ["Box", "Id"] := by
  have names : importNames .line importedBox = ["Box", "Id"] := by decide +kernel
  rw [specifiersOf, List.flatMap_singleton, FileTree.textAt_eq (textAt?_oneSource importedBox),
    names]

/-- Importing a generic type by its name does not keep it from being reported. -/
theorem findUnused_importedBox :
    ∃ audit, (findUnused none (oneSource importedBox.toUTF8) "." .default false).result =
        .ok audit ∧
      Imports (oneSource importedBox.toUTF8) "." audit.index.files nameBox ∧
        lineBox ∈ linesAt (oneSource importedBox.toUTF8) "." "a.ts" ∧
          headBox.opens lineBox = true ∧ audit.findings.declarations = ["Box<T>"] := by
  obtain ⟨audit, succeeded, files⟩ := exists_audit_oneSource importedBox
  have imports : Imports (oneSource importedBox.toUTF8) "." ["a.ts"] nameBox :=
    imports_importedBox List.mem_cons_self
  refine ⟨audit, succeeded, files ▸ imports, ?_, opens_lineBox, ?_⟩
  · rw [linesAt_importedBox]
    decide
  · obtain ⟨reflects, _, findings⟩ :=
      reflects_of_findUnused Request.resolve_default rfl .none succeeded
    have surface : audit.index.surface = ["Box", "Id"] := by
      rw [reflects.surface, files]
      exact specifiersOf_importedBox
    have declared : audit.index.declarationsInOrder.map (·.name) = ["Id", "Box<T>"] := by
      have declaring : ["a.ts"].filter isDeclaring = ["a.ts"] := by decide
      rw [declarations_eq reflects, files, declaring, List.flatMap_singleton, linesAt_importedBox]
      decide +kernel
    have unused : Usage.unused .substring ["Box", "Id"] ["Id", "Box<T>"] = ["Box<T>"] := by
      decide +kernel
    rw [findings, Usage.findings, surface, declared]
    exact unused

theorem findUnused_heads_importedBox :
    ∃ audit, (findUnused none (oneSource importedBox.toUTF8) "." .default false).result =
        .ok audit ∧
      reportedAt ⟨.line, .substring, Marker.defaults, [], 0⟩ (oneSource importedBox.toUTF8) "."
        audit.index.files "export type Id = string;".toList = [] ∧
      reportedAt ⟨.line, .substring, Marker.defaults, [], 0⟩ (oneSource importedBox.toUTF8) "."
        audit.index.files lineBox = ["Box<T>"] := by
  obtain ⟨audit, succeeded, files⟩ := exists_audit_oneSource importedBox
  obtain ⟨_, plain, heads, _⟩ := findUnused_heads Request.resolve_default rfl .none succeeded
  have imports : Imports (oneSource importedBox.toUTF8) "." ["a.ts"] nameId :=
    imports_importedBox (List.mem_cons_of_mem _ List.mem_cons_self)
  refine ⟨audit, succeeded, plain nameId _ (by decide) (files ▸ imports), ?_⟩
  rw [heads headBox lineBox opens_lineBox, files, specifiersOf_importedBox]
  decide +kernel

end ImportAudit.Project
