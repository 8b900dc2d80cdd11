import ImportAudit.Log
import ImportAudit.Project
import ImportAudit.Watcher

/-!
# Settings

What a user can set, as texts and numbers that are still to be checked. Checked settings convert
to the options of a scan, of the log and of the watcher without any further fault.
-/

namespace ImportAudit

structure LogSettings where
  level : String
  format : String
  deriving DecidableEq, Repr

structure WatchSettings where
  debounceMilliseconds : Int
  ignore : List String
  deriving DecidableEq, Repr

structure ServeSettings where
  logFile : String
  project : String
  deriving DecidableEq, Repr

structure Settings where
  matchMode : String
  parseMode : String
  format : String
  summary : Bool
  exclude : List String
  markers : List Marker
  workers : Int
  log : LogSettings
  watch : WatchSettings
  serve : ServeSettings
  deriving DecidableEq, Repr

namespace Settings

def default : Settings where
  matchMode := "substring"
  parseMode := "line"
  format := "text"
  summary := false
  exclude := []
  markers := []
  workers := 0
  log := ⟨"warn", "text"⟩
  watch := ⟨WatchOptions.defaultDebounce, []⟩
  serve := ⟨"", ""⟩

/-! ## Checking -/

/-- The kinds that a marker may have; without one it marks type aliases. -/
def markerKinds : List String := ["interface", "type", ""]

def checkMarker (marker : Marker) : Except Fault Unit :=
  if Text.trim marker.token = "" then .error .emptyMarkerToken
  else if markerKinds.contains marker.kind then .ok ()
  else .error (.unknownMarkerKind marker.kind)

def checkMarkers : List Marker → Except Fault Unit
  | [] => .ok ()
  | marker :: rest =>
    match checkMarker marker with
    | .error fault => .error fault
    | .ok () => checkMarkers rest

def checkWorkers (workers : Int) : Except Fault Unit :=
  if workers < 0 then .error (.negativeWorkers workers) else .ok ()

/-- Checks all settings: the modes, the formats, the log, the markers, the workers. -/
def validate (settings : Settings) : Except Fault Unit :=
  match MatchMode.parse settings.matchMode, ParseMode.parse settings.parseMode,
      Report.Format.parse settings.format, Log.Level.parse settings.log.level,
      Log.Layout.parse settings.log.format, checkMarkers settings.markers with
  | .error fault, _, _, _, _, _ => .error fault
  | _, .error fault, _, _, _, _ => .error fault
  | _, _, .error fault, _, _, _ => .error fault
  | _, _, _, .error fault, _, _ => .error fault
  | _, _, _, _, .error fault, _ => .error fault
  | _, _, _, _, _, .error fault => .error fault
  | .ok _, .ok _, .ok _, .ok _, .ok _, .ok () => checkWorkers settings.workers

/-! ## Using checked settings -/

/-- The label of a mode or format that was read, or nothing. -/
def labelOf {α : Type} (label : α → String) : Except Fault α → String
  | .ok value => label value
  | .error _ => ""

def filledMarker (marker : Marker) : Marker :=
  if marker.kind = "" then { marker with kind := "type" } else marker

def request (settings : Settings) : Project.Request where
  parseMode := labelOf ParseMode.label (ParseMode.parse settings.parseMode)
  matchMode := labelOf MatchMode.label (MatchMode.parse settings.matchMode)
  markers := settings.markers.map filledMarker
  exclude := settings.exclude
  workers := settings.workers

def reportFormat (settings : Settings) : String :=
  labelOf Report.Format.label (Report.Format.parse settings.format)

def logging (settings : Settings) : Log.Settings where
  level := (Log.Level.parse settings.log.level).toOption.getD .info
  layout := (Log.Layout.parse settings.log.format).toOption.getD .text

/-- The options of the watcher: the patterns set by the user come on top of the usual ones. -/
def watchOptions (settings : Settings) : WatchOptions :=
  { WatchOptions.default with
    debounceMilliseconds :=
      if 0 < settings.watch.debounceMilliseconds then settings.watch.debounceMilliseconds
      else WatchOptions.defaultDebounce
    ignore := WatchOptions.defaultIgnore ++ settings.watch.ignore }

end Settings

end ImportAudit
