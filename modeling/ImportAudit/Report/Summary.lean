import ImportAudit.Report

/-!
# Summary table

The summary of a scan as a table of two columns: a label on the left, a value set flush right.
-/

namespace ImportAudit

structure ScanStats where
  filesDiscovered : Int
  filesIndexed : Int
  filesFailed : Int
  cacheHits : Int
  importsExtracted : Int
  declarationsExtracted : Int
  componentsFound : Int
  workerCount : Int
  totalMilliseconds : Int
  deriving DecidableEq, Repr, Inhabited

namespace Report

inductive Row
  | cells (label value : String)
  | rule
  deriving DecidableEq, Repr

def widest (widths : List Nat) : Nat :=
  widths.foldl max 0

/-- The rows of the table; the header and the footer are in upper case. -/
def summaryRows (findings : Usage.Findings) (stats : Option ScanStats) : List Row :=
  let counts := fun (n : Nat) => toString n
  let unusedRows : List Row :=
    [.cells "Unused intrafaces" (counts findings.declarations.length),
      .cells "Unused components" (counts findings.components.length)]
  [.cells "METRIC" "VALUE", .rule] ++
    match stats with
    | none => unusedRows
    | some stats =>
      [.cells "Files scanned" (toString stats.filesIndexed),
        .cells "Import specifiers" (toString stats.importsExtracted),
        .cells "Exported declarations" (toString stats.declarationsExtracted),
        .cells "Components" (toString stats.componentsFound)] ++
      (if 0 < stats.cacheHits then [.cells "Cached files" (toString stats.cacheHits)] else []) ++
      [.rule] ++ unusedRows ++
      [.rule, .cells "DURATION" (toString stats.totalMilliseconds ++ " MS")]

def repeated (c : Char) (count : Nat) : String :=
  String.ofList (List.replicate count c)

def rowText (labelWidth valueWidth : Nat) : Row → String
  | .cells label value =>
    " " ++ label ++ repeated ' ' (labelWidth - label.length) ++ " │ " ++
      repeated ' ' (valueWidth - value.length) ++ value ++ " \n"
  | .rule => repeated '─' (labelWidth + 2) ++ "┼" ++ repeated '─' (valueWidth + 2) ++ "\n"

/-- The summary table of a scan; without statistics it has only the unused counts. -/
def summary (findings : Usage.Findings) (stats : Option ScanStats) : String :=
  let rows := summaryRows findings stats
  let labelWidth := widest (rows.map fun row =>
    match row with
    | .cells label _ => label.length
    | .rule => 0)
  let valueWidth := widest (rows.map fun row =>
    match row with
    | .cells _ value => value.length
    | .rule => 0)
  String.join (rows.map (rowText labelWidth valueWidth))

end Report

end ImportAudit
