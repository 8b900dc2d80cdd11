import ImportAudit.Proofs.Cache.Truthful
import ImportAudit.Proofs.Text.Bytes
import ImportAudit.Proofs.Text.Occurrence
import Mathlib.Tactic.Common

/-!
# Fingerprints

A fingerprint writes the markers one behind the other, the token and the kind of each divided by
`=` and each started by `|`, and neither sign is escaped inside a token. It can be read back as
long as no token holds what may stand between two tokens: an equals sign, a kind and a bar. Settings
of one fingerprint are then the same settings, and they read every file alike.
-/

namespace ImportAudit.Extraction.Settings

def kinds : List String := ["interface", "type"]

structure Served (settings : Settings) : Prop where
  named : settings.parseMode.Named
  token : ∀ marker ∈ settings.markers, Text.trim marker.token ≠ ""
  kind : ∀ marker ∈ settings.markers, marker.kind ∈ kinds
  extensions : settings.extensions = [".ts"]

/-- No token holds a kind between the signs that divide a fingerprint. -/
def Undivided (settings : Settings) : Prop :=
  ∀ marker ∈ settings.markers, ∀ kind ∈ kinds,
    Text.contains marker.token ("=" ++ kind ++ "|") = false

/-- A marker that can be told from what follows it. -/
structure Readable (marker : Marker) : Prop where
  kind : marker.kind ∈ kinds
  undivided : ∀ kind ∈ kinds, ¬ '=' :: (kind.toList ++ ['|']) <:+: marker.token.toList

theorem Served.readable
    {settings : Settings} (served : settings.Served) (undivided : settings.Undivided) :
    ∀ marker ∈ settings.markers, Readable marker := by
  intro marker member
  refine ⟨served.kind marker member, fun kind known holds => ?_⟩
  refine Text.not_infix_of_occurs (undivided marker member kind known) ?_
  simpa using holds

/-- What a fingerprint has behind its mode. -/
def markersText (markers : List Marker) : List Char :=
  (markers.flatMap fun marker => '|' :: (marker.token.toList ++ '=' :: marker.kind.toList)) ++
    "|.ts".toList

theorem toList_fingerprint
    {settings : Settings} (extensions : settings.extensions = [".ts"]) :
    settings.fingerprint.toList =
      settings.parseMode.label.toList ++ markersText settings.markers := by
  simp [fingerprint, markersText, extensions, String.toList_join, List.flatMap_map]

theorem markersText_cons (marker : Marker) (rest : List Marker) :
    markersText (marker :: rest) =
      '|' :: (marker.token.toList ++ '=' :: (marker.kind.toList ++ markersText rest)) := by
  simp [markersText]

theorem exists_markersText (markers : List Marker) :
    ∃ tail, markersText markers = '|' :: tail := by
  cases markers with
  | nil => exact ⟨".ts".toList, rfl⟩
  | cons marker rest => exact ⟨_, markersText_cons marker rest⟩

/-! ## Reading a fingerprint back -/

/-- A token does not reach beyond the equals sign that ends another one, if it does not hold the
kind and the bar that follow there. -/
theorem eq_nil_of_overrun
    {token extra kind rest otherRest : List Char} (plain : '=' ∉ kind ++ ['|'])
    (undivided : ¬ '=' :: (kind ++ ['|']) <:+: token ++ extra)
    (same : '=' :: (kind ++ '|' :: rest) = extra ++ '=' :: otherRest) : extra = [] := by
  cases extra with
  | nil => rfl
  | cons sign inside =>
    rw [List.cons_append, List.cons.injEq] at same
    obtain ⟨rfl, behind⟩ := same
    have split : (kind ++ ['|']) ++ rest = inside ++ '=' :: otherRest := by
      rw [← behind, List.append_assoc]
      rfl
    have notInside : ∀ beyond, inside ≠ (kind ++ ['|']) ++ beyond := by
      rintro beyond rfl
      exact undivided ⟨token, beyond, by simp⟩
    rcases List.append_eq_append_iff.mp split with ⟨beyond, shape, _⟩ | ⟨within, shape, tail⟩
    · exact absurd shape (notInside beyond)
    · cases within with
      | nil => exact absurd (by rw [shape]; simp) (notInside [])
      | cons first others =>
        rw [List.cons_append, List.cons.injEq] at tail
        rw [← tail.1] at shape
        exact absurd (by rw [shape]; simp) plain

theorem plain_of_mem_kinds : ∀ kind ∈ kinds, '=' ∉ kind.toList ++ ['|'] := by
  decide

theorem kind_inj
    {kind other : String} {rest otherRest : List Char} (known : kind ∈ kinds)
    (otherKnown : other ∈ kinds)
    (same : kind.toList ++ '|' :: rest = other.toList ++ '|' :: otherRest) :
    kind = other ∧ rest = otherRest := by
  simp only [kinds, List.mem_cons, List.not_mem_nil, or_false] at known otherKnown
  rcases known with rfl | rfl <;> rcases otherKnown with rfl | rfl <;> simp_all

/-- A readable marker is read back from a text that starts with it. -/
theorem marker_inj
    {marker other : Marker} {rest otherRest : List Char}
    (readable : Readable marker) (otherReadable : Readable other)
    (same : marker.token.toList ++ '=' :: (marker.kind.toList ++ '|' :: rest) =
      other.token.toList ++ '=' :: (other.kind.toList ++ '|' :: otherRest)) :
    marker = other ∧ rest = otherRest := by
  have sameToken : marker.token.toList = other.token.toList := by
    rcases List.append_eq_append_iff.mp same with ⟨extra, longer, behind⟩ | ⟨extra, longer, behind⟩
    · have none := eq_nil_of_overrun (plain_of_mem_kinds _ readable.kind)
        (longer ▸ otherReadable.undivided _ readable.kind) behind
      rw [longer, none, List.append_nil]
    · have none := eq_nil_of_overrun (plain_of_mem_kinds _ otherReadable.kind)
        (longer ▸ readable.undivided _ otherReadable.kind) behind
      rw [longer, none, List.append_nil]
  rw [sameToken, List.append_cancel_left_eq, List.cons.injEq] at same
  obtain ⟨sameKind, sameRest⟩ := kind_inj readable.kind otherReadable.kind same.2
  refine ⟨?_, sameRest⟩
  rw [Marker.mk.injEq]
  exact ⟨String.toList_inj.mp sameToken, sameKind⟩

theorem markersText_ne_nil
    (marker : Marker) (rest : List Marker) : markersText (marker :: rest) ≠ markersText [] := by
  intro same
  have sign : '=' ∈ markersText (marker :: rest) := by simp [markersText_cons]
  rw [same] at sign
  revert sign
  decide

/-- Readable markers are told apart by their text. -/
theorem markersText_inj
    {markers others : List Marker} (readable : ∀ marker ∈ markers, Readable marker)
    (otherReadable : ∀ marker ∈ others, Readable marker)
    (same : markersText markers = markersText others) : markers = others := by
  induction markers generalizing others with
  | nil =>
    cases others with
    | nil => rfl
    | cons other others => exact absurd same.symm (markersText_ne_nil other others)
  | cons marker rest inductionHypothesis =>
    cases others with
    | nil => exact absurd same (markersText_ne_nil marker rest)
    | cons other others =>
      obtain ⟨readableHere, readableLater⟩ := List.forall_mem_cons.mp readable
      obtain ⟨otherHere, otherLater⟩ := List.forall_mem_cons.mp otherReadable
      obtain ⟨tail, starts⟩ := exists_markersText rest
      obtain ⟨otherTail, otherStarts⟩ := exists_markersText others
      rw [markersText_cons, markersText_cons, List.cons.injEq, starts, otherStarts] at same
      obtain ⟨rfl, rfl⟩ := marker_inj readableHere otherHere same.2
      rw [inductionHypothesis readableLater otherLater (starts.trans otherStarts.symm)]

/-- Settings are told apart by their fingerprints if no token looks like the end of a marker. -/
theorem eq_of_fingerprint
    {settings other : Settings} (served : settings.Served) (otherServed : other.Served)
    (undivided : settings.Undivided) (otherUndivided : other.Undivided)
    (same : settings.fingerprint = other.fingerprint) : settings = other := by
  have sameLists := congrArg String.toList same
  rw [toList_fingerprint served.extensions, toList_fingerprint otherServed.extensions] at sameLists
  obtain ⟨sameMode, sameMarkers⟩ :=
    ParseMode.label_append_inj served.named otherServed.named sameLists
  have markers := markersText_inj (served.readable undivided) (otherServed.readable otherUndivided)
    sameMarkers
  rw [Settings.mk.injEq]
  exact ⟨sameMode, markers, served.extensions.trans otherServed.extensions.symm⟩

end Settings

open Settings

/-- Settings of one fingerprint read every file alike, if no token can be taken for several
markers. -/
theorem ofContent_eq_of_fingerprint
    {settings other : Settings} (served : settings.Served) (otherServed : other.Served)
    (undivided : settings.Undivided) (otherUndivided : other.Undivided)
    (same : settings.fingerprint = other.fingerprint) :
    settings = other ∧ ∀ path content, ofContent settings path content =
      ofContent other path content := by
  have sameSettings := eq_of_fingerprint served otherServed undivided otherUndivided same
  refine ⟨sameSettings, fun path content => ?_⟩
  rw [sameSettings]

/-- One marker whose token reads like two. -/
def joinedMarkers : Settings :=
  ⟨.line, [⟨"export a=type|export b", "type"⟩], [".ts"]⟩

def separateMarkers : Settings :=
  ⟨.line, [⟨"export a", "type"⟩, ⟨"export b", "type"⟩], [".ts"]⟩

theorem ofContent_ne_of_joinedMarkers :
    joinedMarkers.Served ∧ separateMarkers.Served ∧
      joinedMarkers.fingerprint = separateMarkers.fingerprint ∧
        ofContent joinedMarkers "a.ts" "export a X = 1".toUTF8 ≠
          ofContent separateMarkers "a.ts" "export a X = 1".toUTF8 := by
  refine ⟨⟨Or.inl rfl, by decide, by decide, rfl⟩, ⟨Or.inl rfl, by decide, by decide, rfl⟩,
    by decide, ?_⟩
  simp only [ofContent, Text.fromUTF8?_toUTF8, ne_eq, Except.ok.injEq]
  intro same
  have noneFound : (ofSource joinedMarkers "a.ts" "export a X = 1").declarations = [] := by
    decide +kernel
  have oneFound : (ofSource separateMarkers "a.ts" "export a X = 1").declarations =
      [⟨"a.ts", "X", "type", 1⟩] := by
    decide +kernel
  rw [same, oneFound] at noneFound
  cases noneFound

/-- Markers with the dividing signs in their tokens, which still cannot be taken for others. -/
def barredMarkers : Settings :=
  ⟨.statement, [⟨"a=|b", "type"⟩, ⟨"type|=interface", "interface"⟩], [".ts"]⟩

theorem ofContent_barredMarkers :
    let parts := Settings.ofParts "statement" (some barredMarkers.markers) none
    (barredMarkers.Served ∧ parts.Served) ∧ (barredMarkers.Undivided ∧ parts.Undivided) ∧
      barredMarkers.fingerprint = parts.fingerprint ∧
        ∀ path content, ofContent barredMarkers path content = ofContent parts path content := by
  intro parts
  have served : barredMarkers.Served := ⟨Or.inr rfl, by decide, by decide, rfl⟩
  have partsServed : parts.Served := ⟨Or.inr rfl, by decide, by decide, rfl⟩
  have undivided : barredMarkers.Undivided := by
    unfold Settings.Undivided
    decide
  have same : barredMarkers.fingerprint = parts.fingerprint := rfl
  exact ⟨⟨served, partsServed⟩, ⟨undivided, undivided⟩, same,
    (ofContent_eq_of_fingerprint served partsServed undivided undivided same).2⟩

end ImportAudit.Extraction
