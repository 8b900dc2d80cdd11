import ImportAudit.Proofs.Places
import ImportAudit.Proofs.Watching.Pending
import Mathlib.Logic.ExistsUnique

/-!
# What becomes of a change

The history of a watcher: changes are queued, batches are taken, and what is gathered is dropped
when the watcher stops. What is gathered can be read off the history, and where everything that
left was what had been gathered by then, every queued change has exactly one fate: it is still
pending, it gave way to a later change of its path, one flush took it, or it was dropped.
-/

namespace ImportAudit.Watcher

/-- What can happen to gathered changes. Flushes are numbered in the order in which they began. -/
inductive Happening
  | queued (path : String) (changes : Changes)
  | took (flush : Nat) (batch : List Change)
  | stopped (dropped : List Change)

/-- The changes that left, where any did. -/
def Happening.left? : Happening → Option (List Change)
  | queued _ _ => none
  | took _ batch => some batch
  | stopped dropped => some dropped

/-- Whether a happening decides what becomes of an earlier change of a path. -/
def Happening.Settles (path : String) : Happening → Prop
  | queued other _ => other = path
  | took _ _ => True
  | stopped _ => True

/-- What is gathered after a history, the latest happening first. -/
def gathered : List Happening → List Change
  | [] => []
  | .queued path changes :: earlier => insertChange path changes (gathered earlier)
  | .took _ _ :: _ => []
  | .stopped _ :: _ => []

/-- Whatever left was what had been gathered by then. -/
def Faithful : List Happening → Prop
  | [] => True
  | happening :: earlier =>
    (∀ left, happening.left? = some left → left = gathered earlier) ∧ Faithful earlier

def Unqueued (path : String) (later : List Happening) : Prop :=
  ∀ changes, Happening.queued path changes ∉ later

/-- A happening took a change away: what left has the change in it, and nothing was queued for its
path in between. -/
def Carried (later : List Happening) (path : String) (changes : Changes) (happening : Happening) :
    Prop :=
  ∃ newer left between, later = newer ++ happening :: between ∧ happening.left? = some left ∧
    (path, changes) ∈ left ∧ Unqueued path between

/-- What becomes of a change that was queued. -/
inductive Fate
  | pending
  | superseded
  | taken (flush : Nat)
  | dropped

/-- What becomes of a change when this is the first happening that decides about its path. -/
def Happening.fate : Happening → Fate
  | queued _ _ => .superseded
  | took flush _ => .taken flush
  | stopped _ => .dropped

/-- What has become of a queued change, given what happened later and what is pending now. It was
superseded if another change of its path was queued before anything left. -/
def Meets (pending : List Change) (later : List Happening) (path : String) (changes : Changes) :
    Fate → Prop
  | .pending => (path, changes) ∈ pending ∧ Unqueued path later
  | .superseded =>
    ∃ newer others between, later = newer ++ .queued path others :: between ∧
      ∀ happening ∈ between, happening.left? = none
  | .taken flush => ∃ batch, Carried later path changes (.took flush batch)
  | .dropped => ∃ dropped, Carried later path changes (.stopped dropped)

/-! ## Reading a history -/

variable {history later earlier newer between : List Happening} {happening : Happening}
  {path : String} {changes : Changes}

theorem settles_of_left? {left : List Change} (leaves : happening.left? = some left) :
    happening.Settles path := by
  cases happening with
  | queued => cases leaves
  | took => trivial
  | stopped => trivial

/-- What decides about a path and takes nothing away is a later change of that path. -/
theorem exists_queued_of_left?
    (stays : happening.left? = none) (settles : happening.Settles path) :
    ∃ others, happening = .queued path others := by
  cases happening with
  | queued other others =>
    cases settles
    exact ⟨others, rfl⟩
  | took => cases stays
  | stopped => cases stays

theorem ordered_gathered (history : List Happening) : InOrder (gathered history) := by
  induction history with
  | nil => exact List.Pairwise.nil
  | cons happening earlier inductionHypothesis =>
    cases happening with
    | queued path changes => exact ordered_insertChange inductionHypothesis path changes
    | took => exact List.Pairwise.nil
    | stopped => exact List.Pairwise.nil

/-- What is gathered for a path is the change that was queued last for it. -/
theorem exists_queued_of_mem (member : (path, changes) ∈ gathered history) :
    ∃ later earlier, history = later ++ .queued path changes :: earlier ∧ Unqueued path later := by
  induction history with
  | nil => cases member
  | cons happening earlier inductionHypothesis =>
    cases happening with
    | took => cases member
    | stopped => cases member
    | queued other others =>
      rcases (mem_insertChange (ordered_gathered earlier)).mp member with
        ⟨rfl, rfl⟩ | ⟨differs, before⟩
      · exact ⟨[], earlier, rfl, fun _ => List.not_mem_nil⟩
      · obtain ⟨later, start, rfl, unqueued⟩ := inductionHypothesis before
        refine ⟨.queued other others :: later, start, rfl, fun again queued => ?_⟩
        rcases List.mem_cons.mp queued with same | inLater
        · cases same
          exact differs rfl
        · exact unqueued again inLater

theorem mem_gathered_of_unsettled (unsettled : ∀ happening ∈ later, ¬ happening.Settles path) :
    (path, changes) ∈ gathered (later ++ .queued path changes :: earlier) := by
  induction later with
  | nil => exact (mem_insertChange (ordered_gathered earlier)).mpr (Or.inl ⟨rfl, rfl⟩)
  | cons happening later inductionHypothesis =>
    have unsettledHere := unsettled happening List.mem_cons_self
    have stillGathered := inductionHypothesis fun other member =>
      unsettled other (List.mem_cons_of_mem _ member)
    cases happening with
    | took => exact absurd trivial unsettledHere
    | stopped => exact absurd trivial unsettledHere
    | queued other others =>
      exact (mem_insertChange (ordered_gathered _)).mpr
        (Or.inr ⟨Ne.symm unsettledHere, stillGathered⟩)

/-- Once everything has left, a path is gathered only if it is queued again. -/
theorem not_mem_gathered
    {left : List Change} (member : happening ∈ later) (leaves : happening.left? = some left)
    (unqueued : Unqueued path later) : (path, changes) ∉ gathered (later ++ earlier) := by
  induction later with
  | nil => cases member
  | cons latest later inductionHypothesis =>
    cases latest with
    | took => exact List.not_mem_nil
    | stopped => exact List.not_mem_nil
    | queued other others =>
      intro held
      have inLater : happening ∈ later := by
        rcases List.mem_cons.mp member with rfl | inLater
        · cases leaves
        · exact inLater
      have unqueuedLater : Unqueued path later := fun again queued =>
        unqueued again (List.mem_cons_of_mem _ queued)
      rcases (mem_insertChange (ordered_gathered _)).mp held with ⟨rfl, _⟩ | ⟨_, before⟩
      · exact unqueued others List.mem_cons_self
      · exact inductionHypothesis inLater unqueuedLater before

theorem Faithful.left_eq
    {left : List Change} (faithful : Faithful (newer ++ happening :: earlier))
    (leaves : happening.left? = some left) : left = gathered earlier := by
  induction newer with
  | nil => exact faithful.1 left leaves
  | cons _ _ inductionHypothesis => exact inductionHypothesis faithful.2

/-! ## One fate -/

/-- The first happening that decides about a path, if there is one. -/
theorem exists_first_settling (path : String) (later : List Happening) :
    (∀ happening ∈ later, ¬ happening.Settles path) ∨
      ∃ newer happening between, later = newer ++ happening :: between ∧
        happening.Settles path ∧ ∀ other ∈ between, ¬ other.Settles path := by
  induction later with
  | nil => exact Or.inl fun _ member => absurd member List.not_mem_nil
  | cons latest later inductionHypothesis =>
    rcases inductionHypothesis with unsettled | ⟨newer, happening, between, rfl, settles, first⟩
    · by_cases settles : latest.Settles path
      · exact Or.inr ⟨[], latest, later, rfl, settles, unsettled⟩
      · refine Or.inl fun happening member => ?_
        rcases List.mem_cons.mp member with rfl | inLater
        · exact settles
        · exact unsettled happening inLater
    · exact Or.inr ⟨latest :: newer, happening, between, rfl, settles, first⟩

theorem Carried.settles (carried : Carried later path changes happening) :
    happening ∈ later ∧ happening.Settles path := by
  obtain ⟨newer, left, between, rfl, leaves, _, _⟩ := carried
  exact ⟨List.mem_append_cons_self, settles_of_left? leaves⟩

/-- Only the first happening that decides about a path can take its change away. -/
theorem Carried.eq_first
    {other : Happening}
    (faithful : Faithful ((newer ++ happening :: between) ++ .queued path changes :: earlier))
    (settles : happening.Settles path) (first : ∀ other ∈ between, ¬ other.Settles path)
    (carried : Carried (newer ++ happening :: between) path changes other) : other = happening := by
  obtain ⟨newer', left, between', same, leaves, member, unqueued⟩ := carried
  rcases place_cases same with inBetween | ⟨isSame, _⟩ | inBetween
  · exfalso
    cases leavesToo : happening.left? with
    | none =>
      obtain ⟨others, rfl⟩ := exists_queued_of_left? leavesToo settles
      exact unqueued others inBetween
    | some =>
      rw [same, List.append_assoc, List.cons_append] at faithful
      rw [faithful.left_eq leaves] at member
      exact not_mem_gathered inBetween leavesToo unqueued member
  · exact isSame.symm
  · exact absurd (settles_of_left? leaves) (first other inBetween)

theorem carried_first
    {left : List Change}
    (faithful : Faithful ((newer ++ happening :: between) ++ .queued path changes :: earlier))
    (leaves : happening.left? = some left) (first : ∀ other ∈ between, ¬ other.Settles path) :
    Carried (newer ++ happening :: between) path changes happening := by
  refine ⟨newer, left, between, rfl, leaves, ?_, fun others queued => first _ queued rfl⟩
  rw [List.append_assoc, List.cons_append] at faithful
  rw [faithful.left_eq leaves]
  exact mem_gathered_of_unsettled first

/-- A change that is still pending has not been decided about. -/
theorem not_settles_of_pending
    (pending : Meets (gathered (later ++ earlier)) later path changes .pending)
    (member : happening ∈ later) : ¬ happening.Settles path := by
  obtain ⟨held, unqueued⟩ := pending
  intro settles
  cases leaves : happening.left? with
  | none =>
    obtain ⟨others, rfl⟩ := exists_queued_of_left? leaves settles
    exact unqueued others member
  | some => exact not_mem_gathered member leaves unqueued held

/-- A change that was superseded was so by the first happening that decides about its path. -/
theorem left?_of_superseded
    {pending : List Change} (settles : happening.Settles path)
    (first : ∀ other ∈ between, ¬ other.Settles path)
    (superseded : Meets pending (newer ++ happening :: between) path changes .superseded) :
    happening.left? = none := by
  obtain ⟨newer', others, between', same, noneLeft⟩ := superseded
  rcases place_cases same with inBetween | ⟨rfl, _⟩ | inBetween
  · exact noneLeft happening inBetween
  · rfl
  · exact absurd rfl (first _ inBetween)

theorem meets_of_unsettled (unsettled : ∀ happening ∈ later, ¬ happening.Settles path) :
    Meets (gathered (later ++ .queued path changes :: earlier)) later path changes .pending :=
  ⟨mem_gathered_of_unsettled unsettled, fun _ queued => unsettled _ queued rfl⟩

theorem pending_of_unsettled
    {pending : List Change} {fate : Fate}
    (unsettled : ∀ happening ∈ later, ¬ happening.Settles path)
    (meets : Meets pending later path changes fate) : fate = .pending := by
  cases fate with
  | pending => rfl
  | superseded =>
    obtain ⟨newer, others, between, rfl, _⟩ := meets
    exact absurd rfl (unsettled _ List.mem_append_cons_self)
  | taken flush =>
    obtain ⟨batch, carried⟩ := meets
    exact absurd carried.settles.2 (unsettled _ carried.settles.1)
  | dropped =>
    obtain ⟨dropped, carried⟩ := meets
    exact absurd carried.settles.2 (unsettled _ carried.settles.1)

theorem meets_first
    {pending : List Change}
    (faithful : Faithful ((newer ++ happening :: between) ++ .queued path changes :: earlier))
    (settles : happening.Settles path) (first : ∀ other ∈ between, ¬ other.Settles path) :
    Meets pending (newer ++ happening :: between) path changes happening.fate := by
  cases happening with
  | queued other others =>
    cases settles
    refine ⟨newer, others, between, rfl, fun other member => ?_⟩
    cases leaves : other.left? with
    | none => rfl
    | some left => exact absurd (settles_of_left? leaves) (first other member)
  | took flush batch => exact ⟨batch, carried_first faithful rfl first⟩
  | stopped dropped => exact ⟨dropped, carried_first faithful rfl first⟩

/-- The first happening that settles a path decides its fate. -/
theorem fate_eq_first
    {fate : Fate}
    (faithful : Faithful ((newer ++ happening :: between) ++ .queued path changes :: earlier))
    (settles : happening.Settles path) (first : ∀ other ∈ between, ¬ other.Settles path)
    (meets : Meets (gathered ((newer ++ happening :: between) ++ .queued path changes :: earlier))
      (newer ++ happening :: between) path changes fate) : fate = happening.fate := by
  cases fate with
  | pending =>
    exact absurd settles (not_settles_of_pending meets List.mem_append_cons_self)
  | superseded =>
    obtain ⟨others, rfl⟩ :=
      exists_queued_of_left? (left?_of_superseded settles first meets) settles
    rfl
  | taken flush =>
    obtain ⟨batch, carried⟩ := meets
    rw [← carried.eq_first faithful settles first]
    rfl
  | dropped =>
    obtain ⟨dropped, carried⟩ := meets
    rw [← carried.eq_first faithful settles first]
    rfl

/-- Every queued change has exactly one fate. -/
theorem existsUnique_fate
    (faithful : Faithful (later ++ .queued path changes :: earlier)) :
    ∃! fate,
      Meets (gathered (later ++ .queued path changes :: earlier)) later path changes fate := by
  rcases exists_first_settling path later with
    unsettled | ⟨newer, happening, between, rfl, settles, first⟩
  · exact ⟨.pending, meets_of_unsettled unsettled, fun _ => pending_of_unsettled unsettled⟩
  · exact ⟨happening.fate, meets_first faithful settles first,
      fun _ => fate_eq_first faithful settles first⟩

end ImportAudit.Watcher
