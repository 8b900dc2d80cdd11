import ImportAudit.Discovery
import ImportAudit.Proofs.Path.Ending

/-!
# What discovery finds

A file found below a directory has one of the extensions that were asked for, and so has the path
by which it is opened.
-/

namespace ImportAudit.Discovery

theorem endsWith_pathText
    {ending : List Char} {name : String} (here : List String)
    (ends : Text.endsWith ending name.toList = true) :
    Text.endsWith ending (pathText (name :: here)).toList = true := by
  obtain ⟨front, whole⟩ := Text.endsWith_iff.mp ends
  rw [pathText, List.reverse_cons]
  by_cases top : here.reverse = []
  · rw [top, List.nil_append, String.intercalate_singleton]
    exact ends
  · rw [String.intercalate_append_of_ne_nil top (by simp), String.intercalate_singleton,
      String.toList_append, whole]
    exact Text.endsWith_iff.mpr ⟨_, (List.append_assoc _ _ _).symm⟩

theorem extension_of_mem_leaf
    {options : Options} {name : String} {here : List String} {file : String}
    (found : file ∈
      if isExcluded options.exclude (pathText (name :: here)) then []
      else if hasExtension options.extensions name then [pathText (name :: here)]
      else []) :
    ∃ extension ∈ options.extensions, Text.endsWith extension.toList file.toList = true := by
  by_cases excluded : isExcluded options.exclude (pathText (name :: here)) = true
  · simp [excluded] at found
  · by_cases has : hasExtension options.extensions name = true
    · simp only [excluded, has, if_true, Bool.false_eq_true, if_false,
        List.mem_singleton] at found
      subst found
      obtain ⟨extension, listed, ends⟩ := List.any_eq_true.mp has
      exact ⟨extension, listed, endsWith_pathText here ends⟩
    · simp [excluded, has] at found

mutual

/-- Every file found has one of the extensions. -/
theorem extension_of_mem_filesAt
    (options : Options) (name : String) (here : List String) (node : Node) (file : String)
    (found : file ∈ filesAt options (name :: here) node) :
    ∃ extension ∈ options.extensions, Text.endsWith extension.toList file.toList = true := by
  cases node with
  | directory entries =>
    simp only [filesAt] at found
    split at found
    · cases found
    · exact extension_of_mem_filesAmong options (name :: here) entries file found
  | file content modified =>
    simp only [filesAt, List.headD_cons] at found
    exact extension_of_mem_leaf found
  | link target =>
    simp only [filesAt, List.headD_cons] at found
    exact extension_of_mem_leaf found

theorem extension_of_mem_filesAmong
    (options : Options) (here : List String) (entries : List (String × Node)) (file : String)
    (found : file ∈ filesAmong options here entries) :
    ∃ extension ∈ options.extensions, Text.endsWith extension.toList file.toList = true := by
  cases entries with
  | nil => simp [filesAmong] at found
  | cons entry rest =>
    obtain ⟨name, node⟩ := entry
    rw [filesAmong, List.mem_append] at found
    rcases found with first | later
    · exact extension_of_mem_filesAt options name here node file first
    · exact extension_of_mem_filesAmong options here rest file later

end

/-- A file found below a directory has one of the extensions. -/
theorem extension_of_mem_files
    {tree : FileTree} {root : String} {options : Options} {files : List String} {file : String}
    (directory : ∀ node, tree.linkStat root = .ok node → node.isDirectory = true)
    (found : Discovery.files tree root options = .ok files) (member : file ∈ files) :
    ∃ extension ∈ options.extensions, Text.endsWith extension.toList file.toList = true := by
  unfold Discovery.files at found
  cases bad : badPattern? options.exclude with
  | some pattern => simp [bad] at found
  | none =>
    cases top : tree.linkStat root with
    | error fault => simp [bad, top] at found
    | ok node =>
      have isDirectory := directory node top
      cases node with
      | directory entries =>
        simp only [bad, top, Except.ok.injEq] at found
        subst found
        exact extension_of_mem_filesAmong options [] entries file member
      | file content modified => simp [Node.isDirectory] at isDirectory
      | link target => simp [Node.isDirectory] at isDirectory

theorem nameEnding_ts : Path.NameEnding ".ts".toList :=
  ⟨by decide, ['.', 't'], 's', rfl, by decide⟩

theorem nameEnding_tsx : Path.NameEnding ".tsx".toList :=
  ⟨by decide, ['.', 't', 's'], 'x', rfl, by decide⟩

theorem not_endsWith_ts_of_tsx
    {text : List Char} (ends : Text.endsWith ".tsx".toList text = true) :
    Text.endsWith ".ts".toList text = false := by
  obtain ⟨front, rfl⟩ := Text.endsWith_iff.mp ends
  rw [Bool.eq_false_iff]
  intro both
  obtain ⟨other, same⟩ := Text.endsWith_iff.mp both
  have lasts := congrArg List.getLast? same
  simp at lasts

/-- Whether a source file is a plain one shows in its path below any root. -/
theorem endsWith_ts_join
    {tree : FileTree} {root : String} {exclude files : List String} {file : String}
    (directory : ∀ node, tree.linkStat root = .ok node → node.isDirectory = true)
    (found : Discovery.files tree root ⟨sourceExtensions, exclude⟩ = .ok files)
    (member : file ∈ files) :
    Text.endsWith ".ts".toList (Path.join [root, file]).toList =
      Text.endsWith ".ts".toList file.toList := by
  obtain ⟨extension, listed, ends⟩ := extension_of_mem_files directory found member
  have isOne : extension = ".ts" ∨ extension = ".tsx" := by
    simpa [sourceExtensions] using listed
  rcases isOne with rfl | rfl
  · rw [ends, Path.endsWith_join nameEnding_ts root ends]
  · rw [not_endsWith_ts_of_tsx ends,
      not_endsWith_ts_of_tsx (Path.endsWith_join nameEnding_tsx root ends)]

end ImportAudit.Discovery
