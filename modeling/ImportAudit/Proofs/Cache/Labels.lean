import ImportAudit.Proofs.Cache.Attribution
import ImportAudit.Proofs.Text.Bytes

/-!
# Scans that keep their own names

Two scans come to the same path by the same name unless the root of one is inside that of the
other. So scans whose roots are apart may share a cache, and each of them finds its own names in
every record. A scan below a directory that an earlier one has scanned as a part of another finds
the names of that earlier scan.
-/

namespace ImportAudit

namespace Scan

variable {asked : Asked} {scans : List Asked}

/-! ## Roots that are apart -/

/-- A scan of a tree with names that a file system allows, below a root of such characters. -/
structure Asked.WellFormed (asked : Asked) : Prop where
  tree : asked.tree.top.WellNamed
  root : '\x00' ∉ asked.root.toList

theorem Asked.WellFormed.exists_names
    (wellFormed : asked.WellFormed) {file : String} (finds : asked.Finds file) :
    ∃ names, (∀ name ∈ names, Path.IsName name) ∧ file = Path.below names ∧
      '\x00' ∉ (Path.join [asked.root, file]).toList := by
  obtain ⟨files, found, listed⟩ := finds
  obtain ⟨names, areNames, rfl⟩ := Discovery.isBelow_of_mem_files wellFormed.tree found listed
  have plain : ∀ name ∈ names, Path.IsName name := fun name member =>
    (areNames name member).toIsName
  refine ⟨names, plain, rfl, fun nul => ?_⟩
  rcases Path.mem_join_below plain nul with slash | dot | inRoot | ⟨name, member, inName⟩
  · cases slash
  · cases dot
  · exact wellFormed.root inRoot
  · exact (areNames name member).nulFree inName

/-- The last place of a character shows where a text was put together. -/
theorem eq_of_last_separator
    {separator : Char} {front other back otherBack : List Char} (free : separator ∉ back)
    (otherFree : separator ∉ otherBack)
    (same : front ++ separator :: back = other ++ separator :: otherBack) :
    front = other ∧ back = otherBack := by
  rcases List.append_eq_append_iff.mp same with ⟨between, longer, tail⟩ | ⟨between, longer, tail⟩
  · cases between with
    | nil => exact ⟨by simpa using longer.symm, (List.cons.inj tail).2⟩
    | cons c others =>
      refine absurd ?_ free
      rw [(List.cons.inj tail).2]
      exact List.mem_append_right others List.mem_cons_self
  · cases between with
    | nil => exact ⟨by simpa using longer, (List.cons.inj tail).2.symm⟩
    | cons c others =>
      refine absurd ?_ otherFree
      rw [(List.cons.inj tail).2]
      exact List.mem_append_right others List.mem_cons_self

theorem key_inj_of_nulFree
    {fingerprint other path otherPath : String} (free : '\x00' ∉ path.toList)
    (otherFree : '\x00' ∉ otherPath.toList)
    (same : Cache.Result.key fingerprint path = Cache.Result.key other otherPath) :
    fingerprint = other ∧ path = otherPath := by
  have sameLists := congrArg String.toList same
  simp only [Cache.Result.key, String.toList_append, List.append_assoc] at sameLists
  obtain ⟨sameFront, sameBack⟩ := eq_of_last_separator free otherFree sameLists
  exact ⟨String.toList_inj.mp sameFront, String.toList_inj.mp sameBack⟩

/-- Scans of roots that are not nested look under one key only for files of one name. -/
theorem Asked.file_eq_of_key
    {other : Asked} (wellFormed : asked.WellFormed) (otherWellFormed : other.WellFormed)
    (apart : other.settings.fingerprint = asked.settings.fingerprint →
      ¬ Path.Inside other.root asked.root ∧ ¬ Path.Inside asked.root other.root)
    {file otherFile : String} (finds : asked.Finds file) (otherFinds : other.Finds otherFile)
    (sameKey : asked.key file = other.key otherFile) : otherFile = file := by
  obtain ⟨names, areNames, rfl, free⟩ := wellFormed.exists_names finds
  obtain ⟨otherNames, otherAreNames, rfl, otherFree⟩ := otherWellFormed.exists_names otherFinds
  obtain ⟨sameFingerprint, samePath⟩ := key_inj_of_nulFree free otherFree sameKey
  obtain ⟨notInside, notAround⟩ := apart sameFingerprint.symm
  rw [Path.below_inj otherAreNames areNames notInside notAround samePath.symm]

/-- Scans that share a cache and whose roots are apart give every record the name of its file. -/
theorem shared_ownLabels
    {capacity : Int} {cache : Cache.Result} {cancelled : Bool} {index : Index}
    {stats : ScanStats} {after : Option Cache.Result} (shared : SharedBy capacity scans cache)
    (wellFormed : ∀ scan ∈ asked :: scans, scan.WellFormed)
    (apart : ∀ scan ∈ scans, scan.settings.fingerprint = asked.settings.fingerprint →
      ¬ Path.Inside scan.root asked.root ∧ ¬ Path.Inside asked.root scan.root)
    (returns : asked.Returns cache cancelled (.built index stats) after) :
    index.OwnLabels ∧ (∀ record ∈ index.importsInOrder, record.file ∈ index.files) ∧
      ∀ declaration ∈ index.declarationsInOrder, declaration.file ∈ index.files := by
  obtain ⟨files, results, found, rfl, complete, attributed⟩ := returns.assembled shared
  have labelled : ∀ result ∈ results, result.2.1.LabelledBy result.1 := by
    intro result member
    obtain @⟨scan, file, listed, finds, sameKey, labelled⟩ := attributed result member
    have ownFinds : asked.Finds result.1 :=
      ⟨files, found, complete ▸ List.mem_map_of_mem member⟩
    have apartHere : scan.settings.fingerprint = asked.settings.fingerprint →
        ¬ Path.Inside scan.root asked.root ∧ ¬ Path.Inside asked.root scan.root := by
      rcases List.mem_cons.mp listed with rfl | earlier
      · intro _
        exact ⟨fun inside => inside.2.2 rfl, fun inside => inside.2.2 rfl⟩
      · exact apart scan earlier
    have sameName := Asked.file_eq_of_key (wellFormed asked List.mem_cons_self)
      (wellFormed scan listed) apartHere ownFinds finds sameKey
    rw [← sameName]
    exact labelled
  have own := assemble_ownLabels complete labelled asked.root asked.options.componentExtension
  exact ⟨own, own.mem_files⟩

/-! ## A directory inside another -/

def nestedText : String := "import { A } from 'm'\nexport type B = 1"

/-- One file, in a directory that is in another one of the same name. -/
def nestedFile : FileTree :=
  ⟨[("src", .directory [("src", .directory [("a.ts", .file nestedText.toUTF8 1)])])]⟩

def scanBelow (root : String) : Asked :=
  ⟨.default, nestedFile, root, .default⟩

def missedCache : Cache.Result := ⟨10, [], 0, 1, 0⟩

/-- The cache after one scan that calls the file by this name. -/
def filledCache (file : String) : Cache.Result :=
  missedCache.put Extraction.Settings.default.fingerprint "src/src/a.ts" nestedText.toUTF8.size 1
    (.ofSource .default file nestedText)

theorem below_nestedNames : Path.below ["src", "src", "a.ts"] = "src/src/a.ts" := by
  decide

theorem stat_nestedFile :
    nestedFile.stat "src/src/a.ts" = .ok (.file nestedText.toUTF8 1) := by
  rw [← below_nestedNames]
  exact FileTree.stat_of_nodeAt? (by decide) (by decide) rfl (by simp)

theorem freshOutcome_nestedFile (file : String) (id : Int) :
    (Job.mk file "src/src/a.ts" id).freshOutcome .default nestedFile =
      .ok (.ofSource .default file nestedText) := by
  have read : nestedFile.read "src/src/a.ts" = .ok nestedText.toUTF8 := by
    rw [← below_nestedNames]
    exact FileTree.read_of_nodeAt? (by decide) (by decide) rfl
  exact Job.freshOutcome_of_read read (Text.fromUTF8?_toUTF8 nestedText)

variable {root file : String}

/-- The job of the file when it is called by this name. -/
def nestedJob (file : String) : Job :=
  ⟨file, "src/src/a.ts", 0⟩

theorem jobsOf_nestedFile (placed : Path.join [root, file] = "src/src/a.ts") :
    jobsOf root [file] = [nestedJob file] := by
  simp [jobsOf, jobOf, placed, nestedJob]

/-- The first scan stores its result under the path that the second one will look for. -/
theorem build_first
    (found : discovered nestedFile root .default = .ok [file])
    (placed : Path.join [root, file] = "src/src/a.ts") :
    (build (some ⟨10, [], 0, 0, 0⟩) .default nestedFile root .default false).cache =
      some (filledCache file) := by
  have looked : (nestedJob file).look
      (freshStore .default nestedFile (some ⟨10, [], 0, 0, 0⟩)) =
        (.unread (some ⟨nestedText.toUTF8.size, 1⟩),
          freshStore .default nestedFile (some missedCache)) := by
    simp [Job.look, nestedJob, freshStore, stat_nestedFile, Cache.Result.get,
      Cache.Result.find?, missedCache, Node.size, Node.modified]
  have serves : (freshStore .default nestedFile (some missedCache)).contents.Serves
      nestedFile :=
    Cache.Content.unbounded_serves nestedFile
  obtain ⟨fresh, contents, _, same⟩ := (nestedJob file).extract_eq serves
  rcases extracted : (nestedJob file).extract
    (freshStore .default nestedFile (some missedCache)) with ⟨outcome, after, log⟩
  rw [extracted] at fresh same
  obtain rfl : outcome = .ok (.ofSource .default file nestedText) :=
    fresh.trans (freshOutcome_nestedFile file 0)
  obtain rfl := same
  rw [build_cache found, jobsOf_nestedFile placed]
  simp only [runJobs, Job.run, looked, extracted]
  rfl

/-- The second scan is served the result of the first one, with the label of that scan. -/
theorem build_again
    (found : discovered nestedFile root .default = .ok [file])
    (placed : Path.join [root, file] = "src/src/a.ts") (other : String) :
    (build (some (filledCache other)) .default nestedFile root .default false).result =
      builtFrom root .default [file]
        [⟨nestedJob file, .ok (.ofSource .default other nestedText, true)⟩] := by
  have served : ((filledCache other).get Extraction.Settings.default.fingerprint
      "src/src/a.ts" nestedText.toUTF8.size 1).1 = some (.ofSource .default other nestedText) :=
    Cache.Result.get_put (by decide) _ _ _ _ _
  rcases touched : (filledCache other).get Extraction.Settings.default.fingerprint
    "src/src/a.ts" nestedText.toUTF8.size 1 with ⟨result?, after⟩
  rw [touched] at served
  obtain rfl : result? = some (.ofSource .default other nestedText) := served
  have looked : (nestedJob file).look
      (freshStore .default nestedFile (some (filledCache other))) =
        (.settled (.ok (.ofSource .default other nestedText, true)),
          freshStore .default nestedFile (some after)) := by
    simp only [Job.look, nestedJob, freshStore, stat_nestedFile, Node.size, Node.modified, touched]
  rw [build_discovered found, jobsOf_nestedFile placed]
  simp only [runJobs, Job.run, looked]

theorem discovered_outer :
    discovered nestedFile "src" .default = .ok ["src/a.ts"] := by
  have names : Path.below ["src"] = "src" := by decide
  have looked : nestedFile.linkStat "src" =
      .ok (.directory [("src", .directory [("a.ts", .file nestedText.toUTF8 1)])]) :=
    names ▸ FileTree.linkStat_of_nodeAt? (by decide) (by decide) rfl
  rw [discovered_of_directory rfl looked]
  rfl

theorem discovered_inner :
    discovered nestedFile "src/src" .default = .ok ["a.ts"] := by
  have names : Path.below ["src", "src"] = "src/src" := by decide
  have looked : nestedFile.linkStat "src/src" =
      .ok (.directory [("a.ts", .file nestedText.toUTF8 1)]) :=
    names ▸ FileTree.linkStat_of_nodeAt? (by decide) (by decide) rfl
  rw [discovered_of_directory rfl looked]
  rfl

theorem wellFormed_scanBelow (free : '\x00' ∉ root.toList) : (scanBelow root).WellFormed where
  tree := by
    have src : EntryName "src" := by decide
    have source : EntryName "a.ts" := by decide
    simp [scanBelow, nestedFile, FileTree.top, Node.WellNamed, EntriesWellNamed, src, source]
  root := free

/-- A scan that comes to the file first leaves the name that it calls it by. -/
theorem sharedBy_first
    (found : discovered nestedFile root .default = .ok [file])
    (placed : Path.join [root, file] = "src/src/a.ts") :
    SharedBy 10 [scanBelow root] (filledCache file) := by
  obtain ⟨_, builds⟩ :=
    exists_builds_sequential root .default (some ⟨10, [], 0, 0, 0⟩) .default nestedFile
  rw [build_first found placed] at builds
  exact .scanned (.made rfl) builds

/-- A scan that comes to it later is served under that name. -/
theorem returns_again
    (found : discovered nestedFile root .default = .ok [file])
    (placed : Path.join [root, file] = "src/src/a.ts") (other : String) :
    ∃ stats after, (scanBelow root).Returns (filledCache other) false
      (.built (assemble root Component.defaultExtension [file]
        [(file, .ofSource .default other nestedText, true)]) stats) after := by
  obtain ⟨cacheHits, builds⟩ :=
    exists_builds_sequential root .default (some (filledCache other)) .default
      nestedFile
  rw [build_again found placed] at builds
  exact ⟨_, _, builds⟩

/-- The same directory is scanned again, after another one was asked for that does not exist. -/
theorem shared_ownLabels_again :
    ∃ cache index stats after,
      SharedBy 10 [scanBelow "lib", scanBelow "src/src"] cache ∧
        (scanBelow "src/src").Returns cache false (.built index stats) after ∧
          index.files = ["a.ts"] ∧ index.OwnLabels := by
  have placed : Path.join ["src/src", "a.ts"] = "src/src/a.ts" := by decide
  have missing : discovered nestedFile "lib" .default =
      .error (.system "lstat" "lib" .notExist) := by
    have names : Path.below ([] ++ ["lib"]) = "lib" := by decide
    have absent : nestedFile.linkStat "lib" = .error (.system "lstat" "lib" .notExist) := by
      rw [← names]
      exact FileTree.linkStat_of_absent (List.forall_mem_nil _) (by decide)
        (FileTree.nodeAt?_nil nestedFile.top) rfl
    rw [discovered, Discovery.files, absent]
    rfl
  have failed : (scanBelow "lib").Returns (filledCache "a.ts") false
      (.failed (.during .discovery (.system "lstat" "lib" .notExist)))
        (some (filledCache "a.ts")) :=
    .undiscovered missing
  have shared : SharedBy 10 [scanBelow "lib", scanBelow "src/src"] (filledCache "a.ts") :=
    .scanned (sharedBy_first discovered_inner placed) failed
  obtain ⟨stats, after, returns⟩ := returns_again discovered_inner placed "a.ts"
  have wellFormed : ∀ scan ∈ [scanBelow "src/src", scanBelow "lib", scanBelow "src/src"],
      scan.WellFormed := by
    simp only [List.mem_cons, List.not_mem_nil, or_false]
    rintro scan (rfl | rfl | rfl) <;> exact wellFormed_scanBelow (by decide)
  have apart : ∀ scan ∈ [scanBelow "lib", scanBelow "src/src"],
      scan.settings.fingerprint = (scanBelow "src/src").settings.fingerprint →
        ¬ Path.Inside scan.root "src/src" ∧ ¬ Path.Inside "src/src" scan.root := by
    simp only [List.mem_cons, List.not_mem_nil, or_false]
    rintro scan (rfl | rfl) _ <;> decide
  exact ⟨_, _, stats, after, shared, returns, rfl,
    (shared_ownLabels shared wellFormed apart returns).1⟩

/-- A directory is scanned after one that it is inside of: its records have the names that the
other scan used, which are not among its files. -/
theorem not_ownLabels_of_nested :
    ∃ cache index stats after,
      (∀ scan ∈ [scanBelow "src/src", scanBelow "src"], scan.WellFormed) ∧
        SharedBy 10 [scanBelow "src"] cache ∧
          (scanBelow "src/src").Returns cache false (.built index stats) after ∧
            index.files = ["a.ts"] ∧
              index.importsInOrder.map (·.file) = ["src/a.ts"] ∧ ¬ index.OwnLabels := by
  have outer : Path.join ["src", "src/a.ts"] = "src/src/a.ts" := by decide
  have inner : Path.join ["src/src", "a.ts"] = "src/src/a.ts" := by decide
  obtain ⟨stats, after, returns⟩ := returns_again discovered_inner inner "src/a.ts"
  have wellFormed : ∀ scan ∈ [scanBelow "src/src", scanBelow "src"], scan.WellFormed := by
    simp only [List.mem_cons, List.not_mem_nil, or_false]
    rintro scan (rfl | rfl) <;> exact wellFormed_scanBelow (by decide)
  refine ⟨_, _, stats, after, wellFormed, sharedBy_first discovered_outer outer, returns, rfl,
    rfl, ?_⟩
  intro own
  obtain ⟨record, looked, named⟩ := own.imports "a.ts" List.mem_cons_self
  cases looked
  revert named
  decide

end Scan

end ImportAudit
