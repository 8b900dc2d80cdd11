import ImportAudit.Proofs.Cache.Truthful
import ImportAudit.Settings

/-!
# Checked settings

Settings that pass the check are read once more wherever they are used, and there a fault would go
unnoticed or come too late. It never arises: every text that was checked is read again with the
same outcome, the labels of what was read are read as themselves, and the markers that are left
are those of the user or the usual ones. What can still fail is the scan of the files and the
writing of the report.
-/

namespace ImportAudit

/-! ## Labels -/

/-- Labels are written in lower case and without blanks, so reading leaves them alone. -/
theorem lower_trim_label :
    ∀ label ∈ ["line", "statement", "substring", "exact", "word"],
      Text.lower (Text.trim label) = label := by
  decide +kernel

@[simp]
theorem ParseMode.parse_label {mode : ParseMode} (named : mode.Named) :
    ParseMode.parse mode.label = .ok mode := by
  rcases named with rfl | rfl
  · simp [ParseMode.parse, ParseMode.label, lower_trim_label]
  · simp [ParseMode.parse, ParseMode.label, lower_trim_label]

@[simp]
theorem MatchMode.parse_label (mode : MatchMode) : MatchMode.parse mode.label = .ok mode := by
  cases mode <;> simp [MatchMode.parse, MatchMode.label, lower_trim_label]

@[simp]
theorem MatchMode.ofLabel_label (mode : MatchMode) : MatchMode.ofLabel mode.label = .ok mode := by
  cases mode <;> rfl

@[simp]
theorem Report.Format.ofLabel_label (format : Report.Format) :
    Report.Format.ofLabel format.label = .ok format := by
  cases format <;> rfl

/-! ## Resolving twice -/

namespace Project

def Options.asked (options : Options) : Request where
  parseMode := options.parseMode.label
  matchMode := options.matchMode.label
  markers := options.markers
  exclude := options.exclude
  workers := options.workers

theorem Request.resolve_of_parsed
    {request : Request} {parseMode : ParseMode} {matchMode : MatchMode}
    (parsed : ParseMode.parse request.parseMode = .ok parseMode)
    (matched : MatchMode.parse request.matchMode = .ok matchMode) :
    request.resolve =
      .ok ⟨parseMode, matchMode,
        if request.markers.isEmpty then Marker.defaults else request.markers,
        request.exclude, request.workers⟩ := by
  unfold Request.resolve
  rw [parsed, matched]

/-- Options that ask for some markers are resolved to themselves. -/
theorem Options.resolve_asked
    {options : Options} (named : options.parseMode.Named) (marked : options.markers ≠ []) :
    options.asked.resolve = .ok options := by
  have parsed : ParseMode.parse options.asked.parseMode = .ok options.parseMode :=
    ParseMode.parse_label named
  have matched : MatchMode.parse options.asked.matchMode = .ok options.matchMode :=
    MatchMode.parse_label options.matchMode
  have kept : options.asked.markers.isEmpty = false := List.isEmpty_eq_false_iff.mpr marked
  rw [Request.resolve_of_parsed parsed matched, kept]
  rfl

theorem index_of_resolved
    {request : Request} {options : Options} (resolved : request.resolve = .ok options)
    (cache : Option Cache.Result) (tree : FileTree) (project : String) (cancelled : Bool) :
    index cache tree project request cancelled =
      indexWith cache tree project options cancelled := by
  unfold index
  rw [resolved]

end Project

/-- A report in a format that is known by its label fails only in the writing of its file. -/
theorem Report.write_fault
    {tree : FileTree} {project label : String} {format : Report.Format}
    {lists : Report.Lists} {fault : Fault}
    (known : Report.Format.ofLabel label = .ok format)
    (failed : Report.write tree project label lists = .error fault) :
    ∃ cause, fault = .during .writeReport cause := by
  simp only [Report.write, known] at failed
  split at failed
  · cases failed
    exact ⟨_, rfl⟩
  · cases failed

namespace Project

/-- An audit whose request was resolved fails with a fault of the scan or in the writing of its
report. -/
theorem run_fault
    {request : Request} {options : Options} {label : String} {format : Report.Format}
    (resolved : request.resolve = .ok options)
    (known : Report.Format.ofLabel label = .ok format)
    {cache : Option Cache.Result} {tree : FileTree} {project : String} {cancelled : Bool}
    {fault : Fault}
    (failed : (run cache tree project request label cancelled).result = .error fault) :
    (indexWith cache tree project options cancelled).result = .error fault ∨
      ∃ cause, fault = .during .writeReport cause := by
  unfold run findUnused at failed
  cases scanned : (indexWith cache tree project options cancelled).result with
  | error cause =>
    simp only [resolved, scanned, Except.map] at failed
    cases failed
    exact Or.inl rfl
  | ok built =>
    simp only [resolved, scanned, Except.map] at failed
    split at failed
    · rename_i cause unwritten
      cases failed
      exact Or.inr (Report.write_fault known unwritten)
    · cases failed

end Project

/-! ## Markers -/

namespace Settings

/-- A marker that can declare something: its token is not blank and its kind is one of the two. -/
def Declares (marker : Marker) : Prop :=
  Text.trim marker.token ≠ "" ∧ (marker.kind = "interface" ∨ marker.kind = "type")

/-- The markers that a scan goes by: those of the user in their order, or the usual ones where the
user sets none. -/
def effectiveMarkers (settings : Settings) : List Marker :=
  if settings.markers = [] then Marker.defaults else settings.markers.map filledMarker

theorem declares_defaults : ∀ marker ∈ Marker.defaults, Declares marker := by
  intro marker member
  simp only [Marker.defaults, List.mem_cons, List.not_mem_nil, or_false] at member
  rcases member with rfl | rfl
  · exact ⟨by decide +kernel, Or.inl rfl⟩
  · exact ⟨by decide +kernel, Or.inr rfl⟩

/-- A marker that passes its check can declare something once its kind is filled in. -/
theorem declares_filledMarker
    {marker : Marker} (checked : checkMarker marker = .ok ()) :
    Declares (filledMarker marker) := by
  unfold checkMarker at checked
  split at checked
  · cases checked
  · rename_i solid
    split at checked
    · rename_i known
      have kinds : marker.kind = "interface" ∨ marker.kind = "type" ∨ marker.kind = "" := by
        simpa [markerKinds] using known
      unfold filledMarker
      split
      · exact ⟨solid, Or.inr rfl⟩
      · rename_i given
        refine ⟨solid, ?_⟩
        rcases kinds with isInterface | isType | none
        · exact Or.inl isInterface
        · exact Or.inr isType
        · exact absurd none given
    · cases checked

theorem checkMarker_of_mem
    {markers : List Marker} (checked : checkMarkers markers = .ok ()) :
    ∀ marker ∈ markers, checkMarker marker = .ok () := by
  induction markers with
  | nil => exact fun _ member => nomatch member
  | cons first rest inductionHypothesis =>
    rw [checkMarkers] at checked
    split at checked
    · cases checked
    · rename_i firstChecked
      intro marker member
      rcases List.mem_cons.mp member with rfl | later
      · exact firstChecked
      · exact inductionHypothesis checked marker later

theorem effectiveMarkers_ne_nil (settings : Settings) : settings.effectiveMarkers ≠ [] := by
  unfold effectiveMarkers
  split
  · exact List.cons_ne_nil _ _
  · rename_i given
    simpa using given

theorem declares_effectiveMarkers
    {settings : Settings} (checked : checkMarkers settings.markers = .ok ()) :
    ∀ marker ∈ settings.effectiveMarkers, Declares marker := by
  unfold effectiveMarkers
  split
  · exact declares_defaults
  · intro marker member
    obtain ⟨original, originalMember, rfl⟩ := List.mem_map.mp member
    exact declares_filledMarker (checkMarker_of_mem checked original originalMember)

/-! ## What the check accepts -/

/-- What the texts of settings are read as. -/
structure Meaning where
  matchMode : MatchMode
  parseMode : ParseMode
  format : Report.Format
  level : Log.Level
  layout : Log.Layout

/-- Settings whose texts are read as these modes, this format and these settings of the log. -/
structure Means (settings : Settings) (meaning : Meaning) : Prop where
  matchMode : MatchMode.parse settings.matchMode = .ok meaning.matchMode
  parseMode : ParseMode.parse settings.parseMode = .ok meaning.parseMode
  format : Report.Format.parse settings.format = .ok meaning.format
  level : Log.Level.parse settings.log.level = .ok meaning.level
  layout : Log.Layout.parse settings.log.format = .ok meaning.layout

def Meaning.options (meaning : Meaning) (settings : Settings) : Project.Options :=
  ⟨meaning.parseMode, meaning.matchMode, settings.effectiveMarkers, settings.exclude,
    settings.workers⟩

theorem means_of_validate
    {settings : Settings} (valid : settings.validate = .ok ()) :
    ∃ meaning, settings.Means meaning ∧ checkMarkers settings.markers = .ok () := by
  unfold validate at valid
  split at valid
  case h_7 matchMode parseMode format level layout markers =>
    exact ⟨⟨_, _, _, _, _⟩, ⟨matchMode, parseMode, format, level, layout⟩, markers⟩
  all_goals cases valid

namespace Means

variable {settings : Settings} {meaning : Meaning} (means : settings.Means meaning)
include means

theorem request_matchMode : settings.request.matchMode = meaning.matchMode.label := by
  rw [request, means.matchMode, labelOf]

theorem request_parseMode : settings.request.parseMode = meaning.parseMode.label := by
  rw [request, means.parseMode, labelOf]

theorem reportFormat_eq : settings.reportFormat = meaning.format.label := by
  rw [reportFormat, means.format, labelOf]

theorem logging_eq : settings.logging = ⟨meaning.level, meaning.layout⟩ := by
  rw [logging, means.level, means.layout]
  rfl

theorem resolve_request : settings.request.resolve = .ok (meaning.options settings) := by
  have parsed : ParseMode.parse settings.request.parseMode = .ok meaning.parseMode := by
    rw [means.request_parseMode]
    exact ParseMode.parse_label (ParseMode.named_of_parse means.parseMode)
  have matched : MatchMode.parse settings.request.matchMode = .ok meaning.matchMode := by
    rw [means.request_matchMode]
    exact MatchMode.parse_label meaning.matchMode
  rw [Project.Request.resolve_of_parsed parsed matched]
  simp [request, Meaning.options, effectiveMarkers]

theorem resolve_asked :
    (meaning.options settings).asked.resolve = .ok (meaning.options settings) :=
  Project.Options.resolve_asked (ParseMode.named_of_parse means.parseMode)
    settings.effectiveMarkers_ne_nil

theorem ofLabel_matchMode :
    MatchMode.ofLabel settings.request.matchMode = .ok meaning.matchMode := by
  rw [means.request_matchMode, MatchMode.ofLabel_label]

theorem ofLabel_reportFormat :
    Report.Format.ofLabel settings.reportFormat = .ok meaning.format := by
  rw [means.reportFormat_eq, Report.Format.ofLabel_label]

theorem unique {other : Meaning} (meansOther : settings.Means other) : meaning = other := by
  obtain ⟨matchMode, parseMode, format, level, layout⟩ := meaning
  cases means.matchMode.symm.trans meansOther.matchMode
  cases means.parseMode.symm.trans meansOther.parseMode
  cases means.format.symm.trans meansOther.format
  cases means.level.symm.trans meansOther.level
  cases means.layout.symm.trans meansOther.layout
  rfl

end Means

/-- Checked settings have a meaning, and it is what a scan, a report and the log get. The request
is resolved to options, these are resolved to themselves, and a scan by them is the scan that was
requested. The match mode and the format are known by their labels, so an audit fails only in the
scan of the files or in the writing of the report. The markers are those of the user in their
order, the kind of type aliases filled in, or the usual ones, and each of them can declare
something. -/
theorem validate_suffices
    {settings : Settings} (valid : settings.validate = .ok ()) :
    ∃ meaning, settings.Means meaning ∧
      (settings.request.parseMode = meaning.parseMode.label ∧
        settings.request.matchMode = meaning.matchMode.label ∧
        settings.reportFormat = meaning.format.label ∧
        settings.logging = ⟨meaning.level, meaning.layout⟩) ∧
      (settings.request.resolve = .ok (meaning.options settings) ∧
        (meaning.options settings).asked.resolve = .ok (meaning.options settings) ∧
        ∀ cache tree project cancelled,
          Project.index cache tree project (meaning.options settings).asked cancelled =
            Project.index cache tree project settings.request cancelled) ∧
      (MatchMode.ofLabel settings.request.matchMode = .ok meaning.matchMode ∧
        MatchMode.ofLabel (meaning.options settings).asked.matchMode = .ok meaning.matchMode ∧
        Report.Format.ofLabel settings.reportFormat = .ok meaning.format ∧
        ∀ cache tree project cancelled fault,
          (Project.run cache tree project settings.request settings.reportFormat
              cancelled).result = .error fault →
            (Project.index cache tree project settings.request cancelled).result =
                .error fault ∨
              ∃ cause, fault = .during .writeReport cause) ∧
      (meaning.options settings).markers =
          (if settings.markers = [] then Marker.defaults
            else settings.markers.map filledMarker) ∧
        (meaning.options settings).markers ≠ [] ∧
        ∀ marker ∈ (meaning.options settings).markers, Declares marker := by
  obtain ⟨meaning, means, checked⟩ := means_of_validate valid
  refine ⟨meaning, means, ⟨means.request_parseMode, means.request_matchMode,
    means.reportFormat_eq, means.logging_eq⟩, ⟨means.resolve_request, means.resolve_asked, ?_⟩,
    ⟨means.ofLabel_matchMode, MatchMode.ofLabel_label meaning.matchMode,
      means.ofLabel_reportFormat, ?_⟩,
    rfl, settings.effectiveMarkers_ne_nil, declares_effectiveMarkers checked⟩
  · intro cache tree project cancelled
    rw [Project.index_of_resolved means.resolve_asked,
      Project.index_of_resolved means.resolve_request]
  · intro cache tree project cancelled fault failed
    rw [Project.index_of_resolved means.resolve_request]
    exact Project.run_fault means.resolve_request means.ofLabel_reportFormat failed

def looseSettings : Settings :=
  { default with
    matchMode := " Exact\t"
    parseMode := "STATEMENT"
    format := "Yml"
    markers := [⟨"export enum", ""⟩, ⟨"export intraface", "interface"⟩]
    workers := 3
    log := ⟨"Info\n", ""⟩ }

theorem validate_suffices_looseSettings :
    looseSettings.validate = .ok () ∧
      looseSettings.Means ⟨.exact, .statement, .yaml, .info, .text⟩ ∧
      looseSettings.request.resolve =
        .ok ⟨.statement, .exact,
          [⟨"export enum", "type"⟩, ⟨"export intraface", "interface"⟩], [], 3⟩ := by
  have valid : looseSettings.validate = .ok () := by decide +kernel
  have known : looseSettings.Means ⟨.exact, .statement, .yaml, .info, .text⟩ := by
    constructor <;> decide +kernel
  obtain ⟨meaning, means, _, ⟨resolved, _⟩, _⟩ := validate_suffices valid
  rw [means.unique known] at resolved
  exact ⟨valid, known, resolved⟩

end Settings

end ImportAudit
