import ImportAudit.Proofs.Watching.History
import Mathlib.Logic.Relation

/-!
# Watching while batches are handed on

A watcher at work: changes are queued, the delay runs out, and each time it does a flush begins.
A flush takes what is gathered, waits for its turn with the handler, looks whether the watcher was
stopped, and calls the handler if not. Any of them may take the next step, and any number of
flushes may be under way. Nothing is lost or handed on twice, calls of the handler do not overlap,
and none begins once the watcher was stopped.
-/

namespace ImportAudit.Watcher

def Happening.flush? : Happening → Option Nat
  | queued _ _ => none
  | took flush _ => some flush
  | stopped _ => none

theorem took_mem_cons
    {happening : Happening} {history : List Happening} {flush : Nat} {batch : List Change}
    (other : happening.flush? = none) :
    .took flush batch ∈ happening :: history ↔ .took flush batch ∈ history := by
  constructor
  · intro member
    rcases List.mem_cons.mp member with rfl | member
    · cases other
    · exact member
  · exact List.mem_cons_of_mem happening

theorem exists_took_of_flush?
    {happening : Happening} {flush : Nat} (takes : happening.flush? = some flush) :
    ∃ batch, happening = .took flush batch := by
  cases happening with
  | queued => cases takes
  | took other batch =>
    cases takes
    exact ⟨batch, rfl⟩
  | stopped => cases takes

/-- How far a flush has come. -/
inductive Phase
  | begun
  | idle
  | waiting (batch : List Change)
  | entered (batch : List Change)
  | calling (batch : List Change)
  | returned (batch : List Change)
  | withheld (batch : List Change)

namespace Phase

def batch? : Phase → Option (List Change)
  | begun => none
  | idle => none
  | waiting batch => some batch
  | entered batch => some batch
  | calling batch => some batch
  | returned batch => some batch
  | withheld batch => some batch

/-- Whether a flush keeps the others from the handler. -/
def exclusive : Phase → Bool
  | entered _ => true
  | calling _ => true
  | _ => false

def inCall : Phase → Bool
  | calling _ => true
  | _ => false

/-- Whether a flush has called the handler, be it that the call goes on. -/
def called : Phase → Bool
  | calling _ => true
  | returned _ => true
  | _ => false

/-- How a flush goes on, apart from taking a batch, and whether the handler is occupied before and
after. -/
inductive Turn (watcher : Watcher) : Phase → Bool → Phase → Bool → Prop
  | leave {busy : Bool} (nothing : watcher.pending = []) : Turn watcher .begun busy .idle busy
  | enter {batch : List Change} : Turn watcher (.waiting batch) false (.entered batch) true
  | call {busy : Bool} {batch handed : List Change}
      (handsOn : watcher.handOn? batch = some handed) :
      Turn watcher (.entered batch) busy (.calling handed) busy
  | withhold {busy : Bool} {batch : List Change} (keeps : watcher.handOn? batch = none) :
      Turn watcher (.entered batch) busy (.withheld batch) false
  | finish {busy : Bool} {batch : List Change} :
      Turn watcher (.calling batch) busy (.returned batch) false

end Phase

/-- A watcher at work: the flushes that have begun, the first one first, whether one of them
occupies the handler, and what has happened, the latest first. -/
structure Gathering where
  watcher : Watcher
  flushes : List Phase
  busy : Bool
  history : List Happening

namespace Gathering

def of (watcher : Watcher) : Gathering := ⟨watcher, [], false, []⟩

/-- The batch that the flush of a number took. -/
def batch? (gathering : Gathering) (flush : Nat) : Option (List Change) :=
  gathering.flushes[flush]?.bind Phase.batch?

/-- Whether the flush of a number has called the handler. -/
def called (gathering : Gathering) (flush : Nat) : Bool :=
  gathering.flushes[flush]?.any Phase.called

/-- One step of a watcher: an event, the end of the delay, a flush that goes on, or a stop. -/
inductive Step : Gathering → Gathering → Prop
  | start {gathering : Gathering} (tree : FileTree) (root : String) :
      Step gathering { gathering with watcher := (gathering.watcher.start tree root).2 }
  | queue {gathering : Gathering} (path : String) (changes : Changes) :
      Step gathering
        { gathering with
          watcher := gathering.watcher.queue path changes
          history := .queued (gathering.watcher.relative path) changes :: gathering.history }
  | fire {gathering : Gathering} (armed : gathering.watcher.armed = true) :
      Step gathering
        { gathering with
          watcher := gathering.watcher.fire
          flushes := gathering.flushes ++ [.begun] }
  | take {gathering : Gathering} {before after : List Phase}
      (flushes : gathering.flushes = before ++ .begun :: after)
      (nonempty : gathering.watcher.pending ≠ []) :
      Step gathering
        { gathering with
          watcher := gathering.watcher.take.2
          flushes := before ++ .waiting gathering.watcher.take.1 :: after
          history := .took before.length gathering.watcher.take.1 :: gathering.history }
  | turn {gathering : Gathering} {before after : List Phase} {phase next : Phase} {busy : Bool}
      (flushes : gathering.flushes = before ++ phase :: after)
      (turn : phase.Turn gathering.watcher gathering.busy next busy) :
      Step gathering { gathering with flushes := before ++ next :: after, busy }
  | stop {gathering : Gathering} (runs : gathering.watcher.stopped = false) :
      Step gathering
        { gathering with
          watcher := gathering.watcher.stop
          history := .stopped gathering.watcher.pending :: gathering.history }
  | stopAgain {gathering : Gathering} (stopped : gathering.watcher.stopped = true) :
      Step gathering { gathering with watcher := gathering.watcher.stop }

end Gathering

/-! ## What a watcher keeps -/

variable {watcher : Watcher} {batch handed : List Change}

/-- Starting changes the root and whether the watcher runs, and nothing else. -/
theorem exists_start_eq (watcher : Watcher) (tree : FileTree) (root : String) :
    ∃ root' started,
      (watcher.start tree root).2 = { watcher with root := root', started := started } := by
  unfold start
  split
  · exact ⟨watcher.root, watcher.started, rfl⟩
  · split
    · exact ⟨watcher.root, watcher.started, rfl⟩
    · dsimp only
      split
      · exact ⟨root, watcher.started, rfl⟩
      · exact ⟨root, true, rfl⟩

theorem stop_of_stopped (stopped : watcher.stopped = true) : watcher.stop = watcher := by
  rw [stop, if_pos stopped]

theorem stop_of_running (runs : watcher.stopped = false) :
    watcher.stop = { watcher with stopped := true, pending := [], armed := false } := by
  rw [stop, if_neg (Bool.eq_false_iff.mp runs)]

theorem eq_of_handOn? (handsOn : watcher.handOn? batch = some handed) :
    handed = batch ∧ watcher.stopped = false := by
  unfold handOn? at handsOn
  split at handsOn
  · cases handsOn
  · rename_i keeps
    cases handsOn
    exact ⟨rfl, (Bool.or_eq_false_iff.mp (Bool.eq_false_iff.mpr keeps)).2⟩

/-! ## Turns -/

namespace Phase.Turn

variable {phase next : Phase} {busy after : Bool}

theorem batch? (turn : phase.Turn watcher busy next after) : next.batch? = phase.batch? := by
  cases turn with
  | leave => rfl
  | enter => rfl
  | call handsOn =>
    obtain ⟨rfl, _⟩ := eq_of_handOn? handsOn
    rfl
  | withhold => rfl
  | finish => rfl

theorem ne_begun (turn : phase.Turn watcher busy next after) (nonempty : watcher.pending ≠ []) :
    phase ≠ .begun := by
  rintro rfl
  cases turn with
  | leave nothing => exact nonempty nothing

/-- A flush occupies the handler when it enters, and frees it when it leaves. -/
theorem exclusive (turn : phase.Turn watcher busy next after)
    (held : phase.exclusive = true → busy = true) :
    next.exclusive.toNat + busy.toNat = phase.exclusive.toNat + after.toNat := by
  cases turn with
  | leave => rfl
  | enter => rfl
  | call => rfl
  | withhold =>
    cases held rfl
    rfl
  | finish =>
    cases held rfl
    rfl

theorem called (turn : phase.Turn watcher busy next after) (stopped : watcher.stopped = true) :
    next.called = phase.called := by
  cases turn with
  | leave => rfl
  | enter => rfl
  | call handsOn =>
    rw [(eq_of_handOn? handsOn).2] at stopped
    cases stopped
  | withhold => rfl
  | finish => rfl

end Phase.Turn

namespace Gathering

variable {gathering next : Gathering} {before after : List Phase} {phase : Phase}

/-! ## A flush that nobody disturbs -/

/-- A flush that nobody disturbs hands on what `flush` says. -/
theorem steps_flush
    (armed : gathering.watcher.armed = true) (free : gathering.busy = false)
    (hands : gathering.watcher.flush.1 = some batch) :
    ∃ later, Relation.ReflTransGen Step gathering later ∧
      later.watcher = gathering.watcher.flush.2 ∧
      later.flushes = gathering.flushes ++ [.calling batch] := by
  have handsOn : gathering.watcher.fire.take.2.handOn? gathering.watcher.pending = some batch :=
    hands
  have nonempty : gathering.watcher.fire.pending ≠ [] := by
    intro nothing
    rw [handOn?, show gathering.watcher.pending = [] from nothing] at handsOn
    cases handsOn
  have begun : Relation.ReflTransGen Step gathering _ := .single (.fire armed)
  have taken := begun.tail (@Step.take _ gathering.flushes [] rfl nonempty)
  have entered := taken.tail (@Step.turn _ gathering.flushes [] _
    (.entered gathering.watcher.pending) true rfl (by rw [free]; exact .enter))
  have called := entered.tail (@Step.turn _ gathering.flushes [] _ _ _ rfl (.call handsOn))
  exact ⟨_, called, rfl, rfl⟩

/-! ## What every step keeps -/

/-- What holds of a watcher and its flushes in every state. -/
structure Sound (gathering : Gathering) : Prop where
  gathers : gathering.watcher.pending = gathered gathering.history
  faithful : Faithful gathering.history
  served : gathering.watcher.pending ≠ [] →
    gathering.watcher.armed = true ∨ .begun ∈ gathering.flushes
  recorded : ∀ flush batch, .took flush batch ∈ gathering.history ↔
    gathering.batch? flush = some batch
  once : (gathering.history.filterMap Happening.flush?).Nodup
  exclusive : gathering.flushes.countP Phase.exclusive = gathering.busy.toNat

theorem sound_of {watcher : Watcher} (nothing : watcher.pending = []) : (of watcher).Sound where
  gathers := nothing
  faithful := trivial
  served := fun nonempty => absurd nothing nonempty
  recorded := fun flush batch =>
    ⟨fun member => absurd member List.not_mem_nil, fun found => by cases found⟩
  once := List.nodup_nil
  exclusive := rfl

/-- Starting changes nothing that matters here. -/
theorem Sound.start (sound : gathering.Sound) (tree : FileTree) (root : String) :
    Sound { gathering with watcher := (gathering.watcher.start tree root).2 } := by
  obtain ⟨root', started, same⟩ := exists_start_eq gathering.watcher tree root
  rw [same]
  exact ⟨sound.gathers, sound.faithful, sound.served, sound.recorded, sound.once, sound.exclusive⟩

theorem Sound.queue (sound : gathering.Sound) (path : String) (changes : Changes) :
    Sound
      { gathering with
        watcher := gathering.watcher.queue path changes
        history := .queued (gathering.watcher.relative path) changes :: gathering.history } where
  gathers := congrArg (insertChange _ changes) sound.gathers
  faithful := ⟨fun _ leaves => (by cases leaves), sound.faithful⟩
  served := fun _ => Or.inl rfl
  recorded := fun flush batch => by
    rw [took_mem_cons rfl]
    exact sound.recorded flush batch
  once := sound.once
  exclusive := sound.exclusive

/-- When the delay runs out, one more flush begins. -/
theorem Sound.fire (sound : gathering.Sound) :
    Sound
      { gathering with
        watcher := gathering.watcher.fire
        flushes := gathering.flushes ++ [.begun] } where
  gathers := sound.gathers
  faithful := sound.faithful
  served := fun _ => Or.inr (List.mem_append_right _ (List.mem_singleton.mpr rfl))
  recorded := fun flush batch => by
    rw [sound.recorded, batch?, batch?, List.getElem?_append]
    split
    · rfl
    · rename_i beyond
      rw [List.getElem?_eq_none (Nat.le_of_not_lt beyond)]
      cases flush - gathering.flushes.length with
      | zero => exact Iff.rfl
      | succ => exact Iff.rfl
  once := sound.once
  exclusive := by
    rw [List.countP_append, sound.exclusive]
    rfl

/-- A flush takes all that is gathered. -/
theorem Sound.take (sound : gathering.Sound)
    (flushes : gathering.flushes = before ++ .begun :: after) :
    Sound
      { gathering with
        watcher := gathering.watcher.take.2
        flushes := before ++ .waiting gathering.watcher.take.1 :: after
        history := .took before.length gathering.watcher.take.1 :: gathering.history } := by
  have unrecorded : ∀ batch, .took before.length batch ∉ gathering.history := by
    intro batch member
    rw [sound.recorded, batch?, flushes, getElem?_place] at member
    cases member
  exact
    { gathers := rfl
      faithful := ⟨fun left leaves => by cases leaves; exact sound.gathers, sound.faithful⟩
      served := fun nonempty => absurd rfl nonempty
      recorded := fun flush batch => by
        rw [List.mem_cons, batch?,
          getElem?_replaced before after .begun (.waiting gathering.watcher.take.1)]
        by_cases here : flush = before.length
        · rw [if_pos here, here, or_iff_left (unrecorded batch), Happening.took.injEq]
          exact ⟨fun same => congrArg some same.2.symm,
            fun same => ⟨rfl, (Option.some.inj same).symm⟩⟩
        · rw [if_neg here, ← flushes, or_iff_right fun same => here (Happening.took.inj same).1]
          exact sound.recorded flush batch
      once := by
        refine List.nodup_cons.mpr ⟨fun member => ?_, sound.once⟩
        obtain ⟨happening, happened, takes⟩ := List.mem_filterMap.mp member
        obtain ⟨batch, rfl⟩ := exists_took_of_flush? takes
        exact unrecorded batch happened
      exclusive := by
        rw [← sound.exclusive, flushes, List.countP_append, List.countP_append]
        rfl }

/-- A flush that goes on keeps the gathering sound. -/
theorem Sound.turn {busy : Bool} {moved : Phase} (sound : gathering.Sound)
    (flushes : gathering.flushes = before ++ phase :: after)
    (turn : phase.Turn gathering.watcher gathering.busy moved busy) :
    Sound { gathering with flushes := before ++ moved :: after, busy } where
  gathers := sound.gathers
  faithful := sound.faithful
  served := fun nonempty => by
    refine (sound.served nonempty).imp_right fun member => ?_
    rw [flushes] at member
    exact mem_of_mem_replaced member (turn.ne_begun nonempty).symm
  recorded := fun flush batch => by
    rw [sound.recorded, batch?, batch?, flushes, getElem?_replaced before after phase moved]
    split
    · rename_i here
      rw [here, getElem?_place, Option.bind_some, Option.bind_some, turn.batch?]
    · rfl
  once := sound.once
  exclusive := by
    have counted := sound.exclusive
    rw [flushes, countP_place] at counted
    have held : phase.exclusive = true → gathering.busy = true := by
      intro occupies
      rw [occupies] at counted
      cases isBusy : gathering.busy with
      | true => rfl
      | false =>
        rw [isBusy, Bool.toNat_true, Bool.toNat_false] at counted
        omega
    have moves := turn.exclusive held
    rw [countP_place]
    dsimp only
    omega

theorem Sound.stop (sound : gathering.Sound) (runs : gathering.watcher.stopped = false) :
    Sound
      { gathering with
        watcher := gathering.watcher.stop
        history := .stopped gathering.watcher.pending :: gathering.history } := by
  rw [stop_of_running runs]
  exact
    { gathers := rfl
      faithful := ⟨fun left leaves => by cases leaves; exact sound.gathers, sound.faithful⟩
      served := fun nonempty => absurd rfl nonempty
      recorded := fun flush batch => by
        rw [took_mem_cons rfl]
        exact sound.recorded flush batch
      once := sound.once
      exclusive := sound.exclusive }

/-- Every step keeps the gathering sound. -/
theorem Sound.step (sound : gathering.Sound) (step : gathering.Step next) : next.Sound := by
  cases step with
  | start tree root => exact sound.start tree root
  | queue path changes => exact sound.queue path changes
  | fire => exact sound.fire
  | take flushes => exact sound.take flushes
  | turn flushes turn => exact sound.turn flushes turn
  | stop runs => exact sound.stop runs
  | stopAgain stopped =>
    rw [stop_of_stopped stopped]
    exact sound

theorem Sound.steps (sound : gathering.Sound)
    (run : Relation.ReflTransGen Step gathering next) : next.Sound := by
  induction run with
  | refl => exact sound
  | tail _ step inductionHypothesis => exact inductionHypothesis.step step

/-! ## After the end -/

theorem stopped_of_step (step : gathering.Step next) (stopped : gathering.watcher.stopped = true) :
    next.watcher.stopped = true := by
  cases step with
  | start tree root =>
    obtain ⟨root', started, same⟩ := exists_start_eq gathering.watcher tree root
    rw [same]
    exact stopped
  | queue => exact stopped
  | fire => exact stopped
  | take => exact stopped
  | turn => exact stopped
  | stop runs =>
    rw [stop_of_running runs]
  | stopAgain =>
    rw [stop_of_stopped stopped]
    exact stopped

/-- Once the watcher is stopped, no further flush calls the handler. -/
theorem called_of_step (step : gathering.Step next) (stopped : gathering.watcher.stopped = true)
    {flush : Nat} (called : next.called flush = true) : gathering.called flush = true := by
  cases step with
  | start => exact called
  | queue => exact called
  | fire =>
    rw [Gathering.called, List.getElem?_append] at called
    split at called
    · exact called
    · obtain ⟨phase, found, isCalled⟩ := (Option.any_eq_true _ _).mp called
      cases List.mem_singleton.mp (List.mem_of_getElem? found)
      cases isCalled
  | @take before after flushes =>
    rw [Gathering.called, getElem?_replaced before after .begun] at called
    split at called
    · cases called
    · rw [Gathering.called, flushes]
      exact called
  | @turn before after phase moved busy flushes turn =>
    rw [Gathering.called, getElem?_replaced before after phase moved] at called
    rw [Gathering.called, flushes]
    split at called
    · rename_i here
      rw [here, getElem?_place, Option.any_some, ← turn.called stopped]
      exact called
    · exact called
  | stop => exact called
  | stopAgain => exact called

theorem called_of_steps
    (run : Relation.ReflTransGen Step gathering next) (stopped : gathering.watcher.stopped = true) :
    next.watcher.stopped = true ∧
      ∀ flush, next.called flush = true → gathering.called flush = true := by
  induction run with
  | refl => exact ⟨stopped, fun _ called => called⟩
  | tail _ step inductionHypothesis =>
    obtain ⟨stillStopped, before⟩ := inductionHypothesis
    exact ⟨stopped_of_step step stillStopped,
      fun flush called => before flush (called_of_step step stillStopped called)⟩

/-! ## The whole run -/

theorem pending_new {options : WatchOptions} {hasHandler : Bool} {watcher : Watcher}
    (created : new options hasHandler = .ok watcher) : watcher.pending = [] := by
  unfold new at created
  split at created
  · cases created
  · split at created
    · cases created
    · cases created
      rfl

/-- Nothing is lost and nothing is handed on twice. -/
structure Conserved (gathering : Gathering) : Prop where
  /-- What is pending is waited for, or there is a flush that will take it. -/
  served : gathering.watcher.pending ≠ [] → gathering.watcher.stopped = false →
    gathering.watcher.armed = true ∨ .begun ∈ gathering.flushes
  fates : ∀ later path changes earlier,
    gathering.history = later ++ .queued path changes :: earlier →
      ∃! fate, Meets gathering.watcher.pending later path changes fate
  /-- A flush takes one batch, in the order of the paths, and for each of them the change that was
  queued last. -/
  batches : ∀ later flush batch earlier,
    gathering.history = later ++ .took flush batch :: earlier →
      gathering.batch? flush = some batch ∧ (∀ other, .took flush other ∉ later ++ earlier) ∧
      batch.Pairwise (fun one next => one.1 < next.1) ∧
      ∀ path changes, (path, changes) ∈ batch →
        ∃ newer older, earlier = newer ++ .queued path changes :: older ∧ Unqueued path newer
  recorded : ∀ flush batch, gathering.batch? flush = some batch →
    .took flush batch ∈ gathering.history
  apart : gathering.flushes.countP Phase.inCall ≤ 1
  /-- Once the watcher has stopped, no flush calls the handler that had not called it before,
  whether it has begun by then or not. -/
  final : gathering.watcher.stopped = true →
    ∀ after, Relation.ReflTransGen Step gathering after →
      ∀ flush, after.called flush = true → gathering.called flush = true

theorem Sound.batches (sound : gathering.Sound)
    {later earlier : List Happening} {flush : Nat} {batch : List Change}
    (isHistory : gathering.history = later ++ .took flush batch :: earlier) :
    gathering.batch? flush = some batch ∧ (∀ other, .took flush other ∉ later ++ earlier) ∧
    batch = gathered earlier := by
  have here : .took flush batch ∈ gathering.history := by
    rw [isHistory]
    exact List.mem_append_cons_self
  refine ⟨(sound.recorded flush batch).mp here, fun other member => ?_, ?_⟩
  · have once := sound.once
    rw [isHistory] at once
    have once := (List.perm_middle.filterMap Happening.flush?).nodup_iff.mp once
    exact (List.nodup_cons.mp once).1 (List.mem_filterMap.mpr ⟨_, member, rfl⟩)
  · have faithful := sound.faithful
    rw [isHistory] at faithful
    exact faithful.left_eq rfl

theorem Sound.apart (sound : gathering.Sound) : gathering.flushes.countP Phase.inCall ≤ 1 := by
  calc gathering.flushes.countP Phase.inCall
    _ ≤ gathering.flushes.countP Phase.exclusive :=
      List.countP_mono_left fun phase _ inCall => by
        cases phase with
        | calling => rfl
        | _ => cases inCall
    _ = gathering.busy.toNat := sound.exclusive
    _ ≤ 1 := Bool.toNat_le _

/-- Every change is accounted for in every state that a new watcher reaches, however events, flushes
and a stop come in between each other. -/
theorem changes_conserved
    {options : WatchOptions} {hasHandler : Bool} {watcher : Watcher} {gathering : Gathering}
    (created : new options hasHandler = .ok watcher)
    (run : Relation.ReflTransGen Step (of watcher) gathering) : gathering.Conserved := by
  have sound : gathering.Sound := (sound_of (pending_new created)).steps run
  exact
    { served := fun nonempty _ => sound.served nonempty
      fates := by
        intro later path changes earlier isHistory
        have faithful := sound.faithful
        rw [isHistory] at faithful
        rw [sound.gathers, isHistory]
        exact existsUnique_fate faithful
      batches := by
        intro later flush batch earlier isHistory
        obtain ⟨tookThis, tookOnce, isGathered⟩ := sound.batches isHistory
        refine ⟨tookThis, tookOnce, ?_, fun path changes member => ?_⟩
        · rw [isGathered]
          exact ordered_gathered earlier
        · rw [isGathered] at member
          exact exists_queued_of_mem member
      recorded := fun flush batch => (sound.recorded flush batch).mpr
      apart := sound.apart
      final := fun stopped after further => (called_of_steps further stopped).2 }

def removed : Changes := { Changes.none with remove := true }

def written : Changes := { Changes.none with write := true }

/-- A file is removed and written again while a flush is on its way, which then calls the handler.
During the call another change comes, for which a second flush begins, and the watcher stops: the
change is dropped, and so the second flush goes idle. -/
theorem changes_conserved_stopped :
    ∃ watcher gathering, new ⟨0, [], []⟩ true = .ok watcher ∧
      Relation.ReflTransGen Step (of watcher) gathering ∧
      gathering.flushes = [.calling [("a.ts", written)], .idle] ∧
      gathering.history =
        [.stopped [("b.ts", written)], .queued "b.ts" written, .took 0 [("a.ts", written)],
          .queued "a.ts" written, .queued "a.ts" removed] ∧
      gathering.Conserved := by
  have created : new ⟨0, [], []⟩ true =
      .ok ⟨WatchOptions.filled ⟨0, [], []⟩, "", false, false, [], false⟩ := rfl
  have fresh : Relation.ReflTransGen Step (of ⟨WatchOptions.filled ⟨0, [], []⟩, "", false, false,
      [], false⟩) _ := .refl
  have onTheWay := ((fresh.tail (.queue "a.ts" removed)).tail (.fire rfl)).tail
    (.queue "a.ts" written)
  have taken := onTheWay.tail (@Step.take _ [] [] rfl (by decide))
  have entered := taken.tail (@Step.turn _ [] [] _ _ _ rfl .enter)
  have called := entered.tail (@Step.turn _ [] [] _ _ _ rfl (.call rfl))
  have another := (called.tail (.queue "b.ts" written)).tail (.fire rfl)
  have ended := (another.tail (.stop rfl)).tail (@Step.turn _ [_] [] _ _ _ rfl (.leave rfl))
  exact ⟨_, _, created, ended, rfl, rfl, changes_conserved created ended⟩

end Gathering

end ImportAudit.Watcher
