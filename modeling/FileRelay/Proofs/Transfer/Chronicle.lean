import FileRelay.Proofs.Transfer.Cutting
import FileRelay.Proofs.Transfer.Tidiness

/-!
# Proofs/Transfer/Chronicle — what a transfer tells is what has happened

A download tells of each part that it accepts, each request that it answers and each anomaly that it
recovers from, and of nothing else; the numbers in what it tells are those of what has happened so far
(`Happening.telling`).  An upload tells of each part that it publishes.  After that either tells its end,
once: that it is complete if it gives a report, and that it has failed otherwise.

That is kept turn by turn (`Download.HasTold`, `Upload.HasTold`), on all ways out of a turn.
-/

namespace FileRelay

/-! ## Events -/

/-- Does an event tell of the end of a transfer? -/
def Event.isFinal : Event → Bool
  | completed .. | failed .. => true
  | _ => false

/-- The number of the part that an event tells of. -/
def Event.part? : Event → Option Nat
  | partPublished _ n _ _ | partAccepted _ n _ _ => some n
  | _ => none

/-- The retries that are left when an event tells of a recovery. -/
def Event.retriesLeft? : Event → Option Nat
  | recovering _ _ _ left => some left
  | _ => none

/-! ## Happenings -/

/-- **What a download tells of** while it goes on. -/
inductive Happening where
  /-- A part of so many octets was accepted, from a place in the log. -/
  | accepted (place length : Nat)
  /-- A request was answered. -/
  | answered
  /-- A message raised an anomaly, and the budget allowed another reader. -/
  | recovered (reason : Anomaly)
  deriving DecidableEq

namespace Happening

/-- The place of a part that was accepted. -/
def place? : Happening → Option Nat
  | accepted place _ => some place
  | _ => none

/-- The octets that were accepted. -/
def length : Happening → Nat
  | accepted _ n => n
  | _ => 0

def isAnswer : Happening → Bool
  | answered => true
  | _ => false

def isRecovery : Happening → Bool
  | recovered _ => true
  | _ => false

/-- **The places of the parts that were accepted**, in order. -/
def places (hs : List Happening) : List Nat := hs.filterMap place?

/-- **The octets of all parts that were accepted.** -/
def octets : List Happening → Nat
  | [] => 0
  | h :: hs => h.length + octets hs

/-- The number of requests that were answered. -/
def answers (hs : List Happening) : Nat := hs.countP isAnswer

/-- The number of anomalies that were recovered from. -/
def recoveries (hs : List Happening) : Nat := hs.countP isRecovery

/-- Where a new reader is opened when parts from these places were accepted. -/
def resumesAt (record : FileRecord) (places : List Nat) : Nat :=
  match places.getLast? with
  | some p => p + 1
  | none => record.firstSequence.elim 1 UInt64.toNat

/-- **What a download tells of a happening** that comes after others. -/
def telling (config : Config) (record : FileRecord) (before : List Happening) : Happening → Event
  | accepted _ n =>
    .partAccepted record.id ((places before).length + 1) record.parts.toNat (octets before + n)
  | answered => .flowControl record.id
  | recovered reason =>
    .recovering record.id reason (resumesAt record (places before))
      (config.retryBudget.toNat - (recoveries before + 1))

/-- What a download tells of happenings that come after others. -/
def tellingsAfter (config : Config) (record : FileRecord) :
    List Happening → List Happening → List Event
  | _, [] => []
  | before, h :: hs =>
    telling config record before h :: tellingsAfter config record (before ++ [h]) hs

/-- **What a download tells of all that happens.** -/
def tellings (config : Config) (record : FileRecord) (hs : List Happening) : List Event :=
  tellingsAfter config record [] hs

variable {config : Config} {record : FileRecord} (hs : List Happening)

section

variable (before : List Happening) (h : Happening)

theorem tellingsAfter_concat : tellingsAfter config record before (hs ++ [h])
    = tellingsAfter config record before hs ++ [telling config record (before ++ hs) h] := by
  induction hs generalizing before with
  | nil => rw [List.append_nil]; rfl
  | cons h' hs ih =>
    rw [List.cons_append, tellingsAfter, tellingsAfter, ih, List.append_assoc]
    rfl

/-- **One happening more is told of behind the others.** -/
theorem tellings_concat : tellings config record (hs ++ [h])
    = tellings config record hs ++ [telling config record hs h] :=
  tellingsAfter_concat hs [] h

variable (place n : Nat) (reason : Anomaly)

@[simp] theorem places_accepted : places (hs ++ [accepted place n]) = places hs ++ [place] := by
  simp [places, place?]

@[simp] theorem places_answered : places (hs ++ [answered]) = places hs := by
  simp [places, place?]

@[simp] theorem places_recovered : places (hs ++ [recovered reason]) = places hs := by
  simp [places, place?]

@[simp] theorem octets_concat : octets (hs ++ [h]) = octets hs + h.length := by
  induction hs with
  | nil => exact Nat.add_comm _ _
  | cons h' hs ih => rw [List.cons_append, octets, octets, ih, Nat.add_assoc]

@[simp] theorem answers_concat : answers (hs ++ [h]) = answers hs + h.isAnswer.toNat := by
  cases hh : h.isAnswer <;> simp [answers, hh]

@[simp] theorem recoveries_concat :
    recoveries (hs ++ [h]) = recoveries hs + h.isRecovery.toNat := by
  cases hh : h.isRecovery <;> simp [recoveries, hh]

end

/-! ## What tellings count -/

/-- Nothing that is told of a happening tells of an end. -/
theorem tellings_not_final : ∀ e ∈ tellings config record hs, e.isFinal = false := by
  induction hs using List.reverseRecOn with
  | nil => exact fun _ he => absurd he List.not_mem_nil
  | append_singleton hs h ih =>
    intro e he
    rw [tellings_concat, List.mem_append, List.mem_singleton] at he
    obtain he | rfl := he
    · exact ih e he
    · cases h <;> rfl

/-- **Parts are told of in order**, from the first on. -/
theorem part?_tellings : (tellings config record hs).filterMap Event.part?
    = List.range' 1 (places hs).length := by
  induction hs using List.reverseRecOn with
  | nil => rfl
  | append_singleton hs h ih =>
    rw [tellings_concat, List.filterMap_append, ih]
    cases h with
    | accepted place n =>
      rw [places_accepted, List.length_append, List.length_singleton, List.range'_concat]
      simp [telling, Event.part?, Nat.add_comm]
    | answered => simp [telling, Event.part?]
    | recovered reason => simp [telling, Event.part?]

/-- **Each recovery leaves one retry less.** -/
theorem retriesLeft?_tellings : (tellings config record hs).filterMap Event.retriesLeft?
    = (List.range (recoveries hs)).map fun i => config.retryBudget.toNat - (i + 1) := by
  induction hs using List.reverseRecOn with
  | nil => rfl
  | append_singleton hs h ih =>
    rw [tellings_concat, List.filterMap_append, ih, recoveries_concat]
    cases h with
    | recovered reason => simp [telling, Event.retriesLeft?, isRecovery, List.range_succ]
    | accepted | answered => simp [telling, Event.retriesLeft?, isRecovery]

theorem countP_isRecovery_tellings :
    (tellings config record hs).countP Event.isRecovery = recoveries hs := by
  induction hs using List.reverseRecOn with
  | nil => rfl
  | append_singleton hs h ih =>
    rw [tellings_concat, List.countP_append, ih, recoveries_concat]
    cases h <;> rfl

theorem countP_isReply_tellings :
    (tellings config record hs).countP Event.isReply = answers hs := by
  induction hs using List.reverseRecOn with
  | nil => rfl
  | append_singleton hs h ih =>
    rw [tellings_concat, List.countP_append, ih, answers_concat]
    cases h <;> rfl

end Happening

open Happening (places octets answers recoveries resumesAt tellings telling)

/-! ## Downloads -/

/-- A download that cannot begin has met no anomaly. -/
theorem DownloadTask.of_ne_tooManyMismatches {config : Config} {record : FileRecord} {why : Failure}
    (h : DownloadTask.of config record = .error why) (attempts parts octets : Nat) :
    why ≠ .tooManyMismatches attempts parts octets := by
  have hvalidate : ∀ e, config.validate = .error e →
      e ≠ .tooManyMismatches attempts parts octets := fun e he => by
    simp only [Config.validate, Config.digest] at he
    grind
  rintro rfl
  unfold DownloadTask.of at h
  rcases hv : config.validate with e | _
  · exact hvalidate e hv (by simpa [hv, Except.bind] using h)
  · simp only [hv, Except.bind] at h
    grind

namespace Download

/-- **What a download brings about** when it acts on what it has heard: a part counts as accepted when
it is written and counted, a request as answered when the reply is made, and an anomaly as recovered
from when there is a place to go on from. -/
def brings (d : Download) (x : Exchange) : Heard → List Happening
  | .data m =>
    match d.session.checkPart d.task.record m with
    | some (.ok data) =>
      match (d.sink.writeAll data).1, d.session.accept? m.sequence data.length with
      | .ok (), some _ => [.accepted m.sequence data.length]
      | _, _ => []
    | some (.error reason) =>
      match d.session.recover? with
      | some (some _, _) => [.recovered reason]
      | _ => []
    | none => []
  | .flowControl (some a) =>
    match (x.reply a).1 with
    | .ok () => [.answered]
    | .error _ => []
  | _ => []

/-- A download that is broken off brings nothing about. -/
theorem brings_of_not {d : Download} {x : Exchange} {h : Heard} (hdata : ∀ m, h ≠ .data m)
    (hreply : ∀ a, h = .flowControl (some a) → (x.reply a).1 ≠ .ok ()) : d.brings x h = [] := by
  unfold brings
  split
  · exact absurd rfl (hdata _)
  · split
    · rename_i hr
      exact absurd hr (hreply _ rfl)
    · rfl
  · rfl

theorem brings_nothing (d : Download) (x : Exchange) : d.brings x .nothing = [] := rfl

theorem brings_unaddressed (d : Download) (x : Exchange) : d.brings x (.flowControl none) = [] :=
  rfl

/-- What happens in a turn. -/
def happens (d : Download) (x : Exchange) : List Happening :=
  if d.session.isComplete d.task.parts then []
  else { d with reader := (d.listen x).2.1 }.brings (d.listen x).2.2 (d.listen x).1

/-- **All that happens in a download**, from its first turn to its last. -/
def history (config : Config) (record : FileRecord) (sink : Sink) (x : Exchange) :
    List Happening :=
  match DownloadTask.of config record with
  | .error _ => []
  | .ok task =>
    match x.subscribe task.subject task.origin with
    | (.error _, _) => []
    | (.ok reader, x) =>
      Turn.gather turn happens (task.patience x) (.of task sink reader x.time.now) x

/-- **A download that has told of all that happened**, and counted it. -/
structure HasTold (d : Download) (t : DownloadTask) (hs : List Happening) : Prop where
  task : d.task = t
  counts : d.session.Counts t.config.retryBudget.toNat t.origin (places hs) (octets hs)
  recoveries : d.session.recoveries = Happening.recoveries hs
  answers : d.flowReplies = answers hs
  events : d.events = tellings t.config t.record hs

variable {d : Download} {t : DownloadTask} {hs : List Happening} {x : Exchange}

namespace HasTold

/-- Another download that has counted and told the same. -/
theorem same {d' : Download} (h : d.HasTold t hs) (ht : d'.task = d.task)
    (hd : ∃ state, d'.session = { d.session with state }) (hf : d'.flowReplies = d.flowReplies)
    (he : d'.events = d.events) : d'.HasTold t hs := by
  obtain ⟨state, hd⟩ := hd
  exact ⟨ht.trans h.task, hd ▸ h.counts.withState state, by rw [hd, h.recoveries],
    hf.trans h.answers, he.trans h.events⟩

/-- The place that is told of when a new reader is opened. -/
theorem told_resumption (t : DownloadTask) (places : List Nat) :
    (Session.resumption t.origin places).told = resumesAt t.record places := by
  unfold Session.resumption resumesAt
  split
  · rename_i hlast
    rw [hlast]
    unfold DownloadTask.origin
    split
    all_goals rename_i hfirst; rw [hfirst]; rfl
  · rename_i p hlast
    rw [hlast]
    rfl

/-- **A recovery is told of**, whether or not a new reader is opened then. -/
theorem recover {d' : Download} {reason : Anomaly} {p : Position} {session : Session}
    (h : d.HasTold t hs) (hr : d.session.recover? = some (some p, session)) (ht : d'.task = d.task)
    (hd : ∃ state, d'.session = { session with state }) (hf : d'.flowReplies = d.flowReplies)
    (he : d'.events = d.events ++ [.recovering d.fileId reason p.told session.retriesLeft]) :
    d'.HasTold t (hs ++ [.recovered reason]) := by
  obtain ⟨state, hd⟩ := hd
  obtain ⟨hcounts, -, rfl⟩ := h.counts.recover hr
  obtain ⟨-, hleft, hmore⟩ := Session.recover?_counters hr
  have hbudget := h.counts.budget
  refine ⟨ht.trans h.task, ?_, ?_, ?_, ?_⟩
  · rw [hd, Happening.places_recovered, Happening.octets_concat]
    exact hcounts.withState state
  · rw [hd, Happening.recoveries_concat]
    exact hmore.trans (congrArg (· + 1) h.recoveries)
  · rw [hf, Happening.answers_concat]
    exact h.answers
  · have hretries : session.retriesLeft
        = t.config.retryBudget.toNat - (Happening.recoveries hs + 1) := by
      rw [← h.recoveries]
      omega
    rw [he, h.events, told_resumption, hretries, Happening.tellings_concat, fileId, h.task]
    rfl

/-- **A part that is accepted is told of.** -/
theorem accept {place n : Nat} {session : Session} (h : d.HasTold t hs)
    (ha : d.session.accept? place n = some session) (sink : Sink) (digester : Digest.Digester)
    (lastActivity : Nat) :
    ({ d with sink, session, digester, lastActivity }.tell (.partAccepted d.fileId
      session.partsWritten d.task.parts session.bytesWritten)).HasTold t
      (hs ++ [Happening.accepted place n]) := by
  obtain ⟨hcounts, -⟩ := h.counts.accept ha
  obtain ⟨-, -, hrecoveries⟩ := Session.accept?_counters ha
  refine ⟨h.task, ?_, ?_, ?_, ?_⟩
  · rw [Happening.places_accepted, Happening.octets_concat]
    exact hcounts
  · rw [Happening.recoveries_concat]
    exact hrecoveries.trans h.recoveries
  · rw [Happening.answers_concat]
    exact h.answers
  · rw [Happening.tellings_concat, tell]
    simp only [h.events, fileId, h.task, hcounts.partsWritten, hcounts.bytesWritten,
      List.length_append, List.length_singleton]
    rfl

/-- **A reply is told of.** -/
theorem answer (h : d.HasTold t hs) (lastActivity : Nat) :
    ({ d with lastActivity, flowReplies := d.flowReplies + 1 }.tell
      (.flowControl d.fileId)).HasTold t (hs ++ [Happening.answered]) := by
  refine ⟨h.task, ?_, ?_, ?_, ?_⟩
  · rw [Happening.places_answered, Happening.octets_concat]
    exact h.counts
  · rw [Happening.recoveries_concat]
    exact h.recoveries
  · rw [Happening.answers_concat]
    exact congrArg (· + 1) h.answers
  · rw [Happening.tellings_concat, tell]
    simp only [h.events, fileId, h.task]
    rfl

/-- **A turn tells of what happens in it**, however it ends; and if it gives up, it says how far the
download has come. -/
theorem turn (h : d.HasTold t hs) (x : Exchange) : (d.turn x).1.All
    (fun d' => d'.HasTold t (hs ++ d.happens x)) (fun d' => d'.HasTold t (hs ++ d.happens x))
    (fun d' why => d'.HasTold t (hs ++ d.happens x) ∧ ∀ attempts parts octets,
      why = .tooManyMismatches attempts parts octets → attempts = d'.session.recoveries ∧
        parts = d'.session.partsWritten ∧ octets = d'.session.bytesWritten) := by
  rcases hcomplete : d.session.isComplete d.task.parts
  swap
  · rw [turn_of_complete hcomplete, happens, if_pos hcomplete, List.append_nil]
    exact h
  have hheard : { d with reader := (d.listen x).2.1 }.HasTold t hs :=
    h.same rfl ⟨_, rfl⟩ rfl rfl
  rw [happens, if_neg (by simp [hcomplete])]
  by_cases hfits : ∀ m, (d.listen x).1 = .data m → d.session.checkPart d.task.record m ≠ none
  swap
  · push Not at hfits
    obtain ⟨m, hm, hnone⟩ := hfits
    rw [turn_overflows hcomplete hm hnone, hm]
    simp only [brings, hnone, List.append_nil]
    exact ⟨h.same rfl ⟨_, rfl⟩ rfl rfl, by simp⟩
  have ha := turn_acts_listen hcomplete hfits
  generalize (d.listen x).2.1 = s at *
  generalize (d.listen x).2.2 = x₁ at *
  generalize (d.listen x).1 = heard at *
  generalize (d.turn x).1 = r at *
  generalize (d.turn x).2 = x₂ at *
  generalize { d with reader := s } = d₁ at hheard ha ⊢
  cases ha with
  | breaksOff _ hwhy _ hdata hreply =>
    rw [brings_of_not hdata hreply, List.append_nil]
    refine ⟨hheard.same rfl ⟨_, rfl⟩ rfl rfl, ?_⟩
    obtain ⟨-, rfl⟩ | ⟨⟨e, rfl⟩, -⟩ := hwhy <;> simp
  | rests | tires =>
    rw [brings_nothing, List.append_nil]
    exact hheard
  | passes =>
    rw [brings_unaddressed, List.append_nil]
    exact hheard.same rfl ⟨_, rfl⟩ rfl rfl
  | answers hr =>
    simp only [brings, hr]
    exact hheard.answer _
  | accepts hc hw hs =>
    simp only [brings, hc, hw, hs]
    exact hheard.accept hs _ _ _
  | cannotWrite hc hw =>
    simp only [brings, hc, hw, List.append_nil]
    exact ⟨hheard.same rfl ⟨_, rfl⟩ rfl rfl, by simp⟩
  | outgrows hc hw hs =>
    simp only [brings, hc, hw, hs, List.append_nil]
    exact ⟨hheard.same rfl ⟨_, rfl⟩ rfl rfl, by simp⟩
  | recovers hc hr =>
    simp only [brings, hc, hr]
    exact hheard.recover hr rfl ⟨_, rfl⟩ rfl rfl
  | stranded hc hr =>
    simp only [brings, hc, hr]
    exact ⟨hheard.recover hr rfl ⟨_, rfl⟩ rfl rfl, by simp⟩
  | cannotResume hc hr =>
    simp only [brings, hc, hr, List.append_nil]
    exact ⟨hheard.same rfl ⟨_, rfl⟩ rfl rfl, by simp⟩
  | givesUp hc hr _ hwhy =>
    obtain ⟨-, rfl⟩ := Session.recover?_refused hr
    simp only [brings, hc, hr, List.append_nil]
    refine ⟨hheard.same rfl ⟨_, rfl⟩ rfl rfl, ?_⟩
    obtain ⟨e, -, rfl⟩ | ⟨-, rfl⟩ := hwhy
    · simp
    · rintro _ _ _ ⟨⟩
      exact ⟨rfl, rfl, rfl⟩

/-- **A download that ends with a report** tells that it is complete, and nothing else. -/
theorem finish (h : d.HasTold t hs) (x : Exchange) :
    (∃ e, (d.finish x).1 = .error (.io e) ∧ (d.finish x).2.1.HasTold t hs) ∨
      ((d.finish x).1 = .ok (d.finish x).2.1.report ∧ ∃ d' : Download, d'.HasTold t hs ∧
        d'.report = (d.finish x).2.1.report ∧
        (d.finish x).2.1.events = d'.events ++ [.completed t.record.id (octets hs)]) := by
  have hclosed : ∀ (sink : Sink) (state : SessionState),
      { (d.close x).1 with sink, session := { (d.close x).1.session with state } }.HasTold t hs :=
    fun sink state => h.same rfl ⟨state, rfl⟩ rfl rfl
  unfold Download.finish
  dsimp only
  split
  · rename_i e _
    exact .inl ⟨e, rfl, hclosed _ (d.close x).1.session.state⟩
  · refine .inr ⟨rfl, _, hclosed (d.close x).1.sink.flush.2 .done, rfl, ?_⟩
    rw [fileId, ← h.task, ← h.counts.bytesWritten]
    rfl

end HasTold

end Download

/-- **A report whose numbers are those of what has happened.** -/
structure DownloadReport.Sums (r : DownloadReport) (hs : List Happening) : Prop where
  partsWritten : r.partsWritten = (places hs).length
  bytesWritten : r.bytesWritten = octets hs
  firstSequence : r.firstSequence = (places hs).head?
  lastSequence : r.lastSequence = (places hs).getLast?
  recoveries : r.recoveries = Happening.recoveries hs
  flowReplies : r.flowReplies = answers hs

namespace Download

/-- **The last word of a download.** -/
def Outcome.lastWord (o : Outcome) (id : String) : Event :=
  match o.result with
  | .ok report => .completed id report.bytesWritten
  | .error why => .failed id why

/-- **A download that tells of all that happens, in order, and last of its end.**  Parts are numbered
from one on, each recovery leaves one retry less, and the report says the same. -/
structure Outcome.Chronicles (o : Outcome) (config : Config) (record : FileRecord)
    (hs : List Happening) : Prop where
  events : o.events = tellings config record hs ++ [o.lastWord record.id]
  ongoing : ∀ e ∈ tellings config record hs, e.isFinal = false
  parts : o.events.filterMap Event.part? = List.range' 1 (places hs).length
  retries : o.events.filterMap Event.retriesLeft?
    = (List.range (Happening.recoveries hs)).map fun i => config.retryBudget.toNat - (i + 1)
  budget : Happening.recoveries hs ≤ config.retryBudget.toNat
  recoveries : o.recoveries = Happening.recoveries hs
  replies : o.replies = answers hs
  report : ∀ report, o.result = .ok report → report.Sums hs
  exhausted : ∀ attempts parts octets', o.result = .error (.tooManyMismatches attempts parts octets') →
    attempts = Happening.recoveries hs ∧ parts = (places hs).length ∧ octets' = octets hs

section

variable {config : Config} {record : FileRecord} {o : Outcome} {d : Download} {t : DownloadTask}
  {hs : List Happening} {x x' : Exchange}

/-- What is told last of a download counts for nothing else. -/
theorem Outcome.chronicles_of
    (events : o.events = tellings config record hs ++ [o.lastWord record.id])
    (budget : Happening.recoveries hs ≤ config.retryBudget.toNat)
    (report : ∀ report, o.result = .ok report → report.Sums hs)
    (exhausted : ∀ attempts parts octets',
      o.result = .error (.tooManyMismatches attempts parts octets') →
        attempts = Happening.recoveries hs ∧ parts = (places hs).length ∧ octets' = octets hs) :
    o.Chronicles config record hs := by
  have hlast : (o.lastWord record.id).part? = none ∧ (o.lastWord record.id).retriesLeft? = none ∧
      (o.lastWord record.id).isRecovery = false ∧ (o.lastWord record.id).isReply = false := by
    unfold Outcome.lastWord
    split <;> exact ⟨rfl, rfl, rfl, rfl⟩
  obtain ⟨hpart, hretries, hrecovery, hreply⟩ := hlast
  refine ⟨events, Happening.tellings_not_final hs, ?_, ?_, budget, ?_, ?_, report, exhausted⟩
  · rw [events, List.filterMap_append, Happening.part?_tellings]
    simp [hpart]
  · rw [events, List.filterMap_append, Happening.retriesLeft?_tellings]
    simp [hretries]
  · rw [Outcome.recoveries, events, List.countP_append, Happening.countP_isRecovery_tellings]
    simp [hrecovery]
  · rw [Outcome.replies, events, List.countP_append, Happening.countP_isReply_tellings]
    simp [hreply]

/-- The numbers of a download that has told of all that happened. -/
theorem HasTold.sums (h : d.HasTold t hs) : d.report.Sums hs :=
  ⟨h.counts.partsWritten, h.counts.bytesWritten, h.counts.firstSequence, h.counts.lastSequence,
    h.recoveries, h.answers⟩

theorem HasTold.budget (h : d.HasTold t hs) :
    Happening.recoveries hs ≤ t.config.retryBudget.toNat := by
  have hbudget := h.counts.budget
  rw [h.recoveries] at hbudget
  omega

/-- **What a download that has told of nothing comes to**, and what it has told then. -/
theorem HasTold.complete (h : d.HasTold t []) (x : Exchange) :
    (∃ why, (d.complete x).1 = .error why ∧ (d.complete x).2.1.HasTold t
        (Turn.gather Download.turn happens (d.task.patience x) d x) ∧
      ∀ attempts parts octets', why = .tooManyMismatches attempts parts octets' →
        attempts = (d.complete x).2.1.session.recoveries ∧
          parts = (d.complete x).2.1.session.partsWritten ∧
          octets' = (d.complete x).2.1.session.bytesWritten) ∨
      ∃ d' : Download, (d.complete x).1 = .ok d'.report ∧
        d'.HasTold t (Turn.gather Download.turn happens (d.task.patience x) d x) ∧
        (d.complete x).2.1.events = d'.events ++ [.completed t.record.id d'.report.bytesWritten] := by
  have hleft := Turn.takeTurns_gather (P := fun hs d _ => HasTold d t hs)
    (D := fun hs d _ => HasTold d t hs)
    (B := fun hs d why _ => HasTold d t hs ∧ ∀ attempts parts octets',
      why = .tooManyMismatches attempts parts octets' → attempts = d.session.recoveries ∧
        parts = d.session.partsWritten ∧ octets' = d.session.bytesWritten)
    (fun hs d x hd => hd.turn x) (d.task.patience x) (x := x) h
  rw [List.nil_append] at hleft
  generalize Turn.gather Download.turn happens (d.task.patience x) d x = hs at *
  unfold Download.complete
  split
  all_goals rename_i d₁ x₁ he; rw [he] at hleft
  · exact .inl ⟨_, rfl, hleft, by simp⟩
  · exact .inl ⟨_, rfl, hleft.1, hleft.2⟩
  · have hleft : d₁.HasTold t hs := hleft
    obtain ⟨e, hfst, hd⟩ | ⟨hfst, d', hd, hreport, hevents⟩ := hleft.finish x₁
    · exact .inl ⟨_, hfst, hd, by simp⟩
    · refine .inr ⟨d', by rw [hfst, hreport], hd, ?_⟩
      rw [hevents, hd.sums.bytesWritten]

/-- A download that has begun has told of nothing. -/
theorem hasTold_of (t : DownloadTask) (sink : Sink) (reader : Subscription) (now : Nat) :
    (Download.of t sink reader now).HasTold t [] :=
  ⟨rfl, (Session.counts_new _ _).withState .reading, rfl, rfl, rfl⟩

/-- A download that fails before it begins tells of that alone. -/
theorem failed_chronicles {why : Failure} (sink : Sink) (hwhy : ∀ attempts parts octets',
    why ≠ .tooManyMismatches attempts parts octets') :
    (failed record.id why [] sink).Chronicles config record [] :=
  Outcome.chronicles_of rfl (Nat.zero_le _) (fun _ he => nomatch he)
    fun _ _ _ he => absurd (Except.error.inj he) (hwhy _ _ _)

/-- **A download tells of all that happens, in order, and last of its end.** -/
theorem run_chronicles (config : Config) (record : FileRecord) (sink : Sink) (x : Exchange) :
    (run config record sink x).1.Chronicles config record (history config record sink x) := by
  rcases ht : DownloadTask.of config record with why | t
  · simp only [run, history, ht]
    exact failed_chronicles sink (DownloadTask.of_ne_tooManyMismatches ht)
  rcases hs : x.subscribe t.subject t.origin with ⟨e | reader, x'⟩
  · simp only [run, history, ht, hs]
    exact failed_chronicles sink (by simp)
  have hhistory : history config record sink x = Turn.gather turn happens (t.patience x')
      (.of t sink reader x'.time.now) x' := by
    simp only [history, ht, hs]
  obtain ⟨-, rfl, rfl, -⟩ := DownloadTask.of_eq_ok_iff.1 ht
  have hcomplete := (hasTold_of t sink reader x'.time.now).complete x'
  rw [hhistory, run_eq ht hs]
  rcases hc : (Download.of t sink reader x'.time.now).complete x' with ⟨result, d, y⟩
  rw [hc] at hcomplete
  obtain ⟨why, rfl, hd, hwhy⟩ | ⟨d', rfl, hd, hevents⟩ := hcomplete
  · refine Outcome.chronicles_of (congrArg (· ++ _) hd.events) hd.budget
      (by simp [failed]) ?_
    rintro attempts parts octets' ⟨⟩
    obtain ⟨hattempts, hparts, hoctets⟩ := hwhy _ _ _ rfl
    exact ⟨hattempts.trans hd.recoveries, hparts.trans hd.counts.partsWritten,
      hoctets.trans hd.counts.bytesWritten⟩
  · refine Outcome.chronicles_of (hevents.trans (congrArg (· ++ _) hd.events)) hd.budget ?_ (by simp)
    rintro report ⟨⟩
    exact hd.sums

end

end Download

/-! ## Uploads -/

namespace Upload

/-- **What an upload tells of the parts of a file** that it has published at these places. -/
def tellings (id : String) (parts : Nat) (places : List Nat) : List Event :=
  (places.zipIdx 1).map fun e => .partPublished id e.2 parts e.1

/-- **An upload that tells of the parts that it has published**, at places of a log from one on, in
ascending order. -/
structure HasTold (id : String) (parts : Nat) (subject : String) (start : Nat) (l : Log)
    (events : List Event) (places : List Nat) : Prop where
  events : events = tellings id parts places
  ascending : places.Pairwise (· < ·)
  published : ∀ p ∈ places, ∃ m, (m, p) ∈ l.row subject start

/-- **An upload that has told of all parts that it has read**, while it goes on. -/
structure Telling (u₀ u : Upload) (start : Nat) (l : Log) (places : List Nat) : Prop where
  told : HasTold u₀.record.id u₀.record.parts.toNat u₀.subject start l u.events places
  same : u₀.Continues u
  partsRead : u.reader.partsRead = places.length
  behind : start ≤ l.messages.size + 1

section

variable {id : String} {parts start : Nat} {places : List Nat} {u₀ u : Upload} {l l' : Log}
  {x x' : Exchange} {subject : String} {events : List Event}

theorem tellings_concat (id : String) (parts : Nat) (places : List Nat) (p : Nat) :
    tellings id parts (places ++ [p])
      = tellings id parts places ++ [.partPublished id (places.length + 1) parts p] := by
  simp [tellings, List.zipIdx_append, Nat.add_comm]

theorem tellings_not_final : ∀ e ∈ tellings id parts places, e.isFinal = false := by
  intro e he
  obtain ⟨-, -, rfl⟩ := List.mem_map.1 he
  rfl

theorem part?_tellings :
    (tellings id parts places).filterMap Event.part? = List.range' 1 places.length := by
  rw [tellings, List.filterMap_map]
  change (places.zipIdx 1).filterMap (some ∘ Prod.snd) = _
  rw [List.filterMap_eq_map, List.zipIdx_map_snd]

theorem HasTold.grow (h : HasTold id parts subject start l events places) (hl : l.Grown l') :
    HasTold id parts subject start l' events places :=
  { h with
    published := fun p hp => (h.published p hp).imp fun _ hm => (hl.row _ _).subset hm }

/-- **A part more is told of** when it is published. -/
theorem Telling.publishes (h : u₀.Telling u start x.log places) {c : Chunk} {reader : ChunkReader}
    {sequence : UInt64} (hr : u.reader.Advances c reader)
    (hm : x'.log.messages = x.log.messages.push (u.messageOf c))
    (hp : sequence.toNat = x.log.messages.size + 1) (digester : Digest.Digester) (payload : Nat) :
    u₀.Telling ({ u with reader, digester }.published c payload sequence) start x'.log
      (places ++ [x.log.messages.size + 1]) where
  told := by
    have htold := h.told.grow (.of_push hm)
    refine ⟨?_, List.pairwise_append.2 ⟨h.told.ascending, List.pairwise_singleton _ _, ?_⟩, ?_⟩
    · rw [tellings_concat, ← htold.events, ← h.partsRead, ← hr.number, ← h.same.record, ← hp]
      rfl
    · intro p hp q hq
      obtain ⟨m, hmem⟩ := h.told.published p hp
      rw [List.mem_singleton.1 hq]
      exact Nat.lt_succ_of_le (Log.le_size_of_message? (Log.mem_row_iff.1 hmem).2.1)
    · intro p hp
      obtain hp | hp := List.mem_append.1 hp
      · exact htold.published p hp
      · rw [List.mem_singleton.1 hp, Log.row_push hm h.behind,
          if_pos (show (u.messageOf c).subject = u₀.subject from h.same.subject)]
        exact ⟨_, List.mem_append_right _ (List.mem_singleton_self _)⟩
  same := ⟨h.same.path, h.same.subject, h.same.algorithm, h.same.codec, h.same.record⟩
  partsRead := by
    rw [List.length_append, List.length_singleton, ← h.partsRead, hr.after]
    rfl
  behind := by
    have hbehind := h.behind
    rw [hm, Array.size_push]
    omega

/-- **A turn tells of the part that it publishes**, and of nothing if it is broken off. -/
theorem Telling.turn (h : u₀.Telling u start x.log places) : (u.turn x).1.All
    (fun u' => ∃ places, u₀.Telling u' start (u.turn x).2.log places)
    (fun u' => ∃ places, u₀.Telling u' start (u.turn x).2.log places)
    (fun u' _ => ∃ places,
      HasTold u₀.record.id u₀.record.parts.toNat u₀.subject start (u.turn x).2.log u'.events places) := by
  have ha := u.turn_acts x
  generalize (u.turn x).1 = r at ha ⊢
  generalize (u.turn x).2 = x' at ha ⊢
  have hgrown := ha.grown.1
  cases ha with
  | breaksOff _ _ he | overflows _ _ _ _ he => exact ⟨places, he ▸ h.told.grow hgrown⟩
  | ends _ hr =>
    refine ⟨places, h.told, ⟨h.same.path, h.same.subject, h.same.algorithm, h.same.codec,
      h.same.record⟩, ?_, h.behind⟩
    obtain rfl | ⟨rfl, -⟩ := hr
    · exact h.partsRead
    · exact h.partsRead
  | publishes _ hr hm _ hp => exact ⟨_, h.publishes hr hm hp _ _⟩

/-- An upload that has begun has told of nothing. -/
theorem Begun.telling {config : Config} (h : u.Begun config) (l : Log) :
    u.Telling u (l.messages.size + 1) l [] where
  told := ⟨h.events, .nil, nofun⟩
  same := ⟨rfl, rfl, rfl, rfl, rfl⟩
  partsRead := by rw [h.reader]; rfl
  behind := Nat.le_refl _

end

/-- **The last word of an upload**, which names no file if it has failed. -/
def Outcome.lastWord (o : Outcome) : Event :=
  match o.result with
  | .ok report => .completed report.record.id report.record.length.toNat
  | .error why => .failed "" why

/-- **An upload that tells of all parts that it publishes, in order, and last of its end.**  A report
comes only behind all parts on record. -/
structure Outcome.Chronicles (o : Outcome) (id : String) (parts : Nat) (subject : String)
    (start : Nat) (l : Log) (places : List Nat) : Prop where
  events : o.events = tellings id parts places ++ [o.lastWord]
  ongoing : ∀ e ∈ tellings id parts places, e.isFinal = false
  numbers : o.events.filterMap Event.part? = List.range' 1 places.length
  ascending : places.Pairwise (· < ·)
  published : ∀ p ∈ places, ∃ m, (m, p) ∈ l.row subject start
  whole : ∀ report, o.result = .ok report → places.length = parts ∧
    report.record.parts.toNat = parts ∧ report.record.id = id ∧ report.subject = subject

section

variable {config : Config} {path : Path} {options : UploadOptions} {o : Outcome} {start : Nat}
  {places : List Nat} {u₀ u : Upload} {l : Log} {x : Exchange} {id : String} {parts : Nat}
  {subject : String} {events : List Event}

theorem HasTold.chronicles (h : HasTold id parts subject start l events places)
    (he : o.events = events ++ [o.lastWord])
    (hwhole : ∀ report, o.result = .ok report → places.length = parts ∧
      report.record.parts.toNat = parts ∧ report.record.id = id ∧ report.subject = subject) :
    o.Chronicles id parts subject start l places := by
  have hlast : o.lastWord.part? = none := by
    unfold Outcome.lastWord
    split <;> rfl
  refine ⟨by rw [he, h.events], tellings_not_final, ?_, h.ascending, h.published, hwhole⟩
  rw [he, h.events, List.filterMap_append, part?_tellings]
  simp [hlast]

/-- **An upload that fails** tells of that last. -/
theorem HasTold.failed (h : HasTold id parts subject start l events places) (why : Failure) :
    (failed why events).Chronicles id parts subject start l places :=
  h.chronicles rfl fun _ he => nomatch he

/-- **What an upload has come to**: a failure that is to be told of, or a report that it has told of. -/
def Concludes (u₀ : Upload) (start : Nat) (places : List Nat)
    (r : Except Failure UploadReport × Upload × Exchange) : Prop :=
  (∃ why, r.1 = .error why ∧
      HasTold u₀.record.id u₀.record.parts.toNat u₀.subject start r.2.2.log r.2.1.events places) ∨
    ∃ report, r.1 = .ok report ∧ (Outcome.mk (.ok report) r.2.1.events).Chronicles u₀.record.id
      u₀.record.parts.toNat u₀.subject start r.2.2.log places

/-- **An upload that has read its file** gives a report behind all parts on record only. -/
theorem Telling.finish (h : u₀.Telling u start x.log places) :
    u₀.Concludes start places (u.finish x) := by
  unfold Upload.finish
  split
  · exact .inl ⟨_, rfl, h.told⟩
  rename_i hwhole
  rw [not_or, not_not, not_not] at hwhole
  dsimp only
  split
  · rename_i y hput
    obtain ⟨hlog, -⟩ := Exchange.put_error hput
    exact .inl ⟨_, rfl, h.told.grow (.of_messages (by rw [hlog]))⟩
  · rename_i revision y hput
    obtain ⟨hlog, -⟩ := Exchange.put_ok hput
    refine .inr ⟨_, rfl, (h.told.grow (.of_messages (by rw [hlog]))).chronicles rfl ?_⟩
    rintro report ⟨⟩
    rw [← h.same.record]
    exact ⟨h.partsRead.symm.trans hwhole.2, rfl, rfl, h.same.subject⟩

/-- **An upload that has begun** tells of all parts that it publishes. -/
theorem Begun.concludes (h : u.Begun config) (x : Exchange) :
    ∃ places, u.Concludes (x.log.messages.size + 1) places (u.complete x) := by
  have hleft := Turn.takeTurns_all
    (P := fun u' (x' : Exchange) => ∃ places, u.Telling u' (x.log.messages.size + 1) x'.log places)
    (D := fun u' (x' : Exchange) => ∃ places, u.Telling u' (x.log.messages.size + 1) x'.log places)
    (B := fun u' _ (x' : Exchange) => ∃ places, HasTold u.record.id u.record.parts.toNat u.subject
      (x.log.messages.size + 1) x'.log u'.events places)
    (fun _ _ ⟨_, hd⟩ => hd.turn) u.patience ⟨[], h.telling x.log⟩
  unfold complete
  split
  all_goals rename_i he; rw [he] at hleft; obtain ⟨places, hd⟩ := hleft
  · exact ⟨places, .inl ⟨_, rfl, hd.told⟩⟩
  · exact ⟨places, .inl ⟨_, rfl, hd⟩⟩
  · exact ⟨places, hd.finish⟩

/-- **An upload tells of all parts that it publishes, in order, and last of its end.** -/
theorem run_chronicles (config : Config) (path : Path) (options : UploadOptions) (x : Exchange) :
    ∃ id parts places, (run config path options x).1.Chronicles id parts
      (partSubject config.partPrefix id) (x.log.messages.size + 1)
      (run config path options x).2.log places := by
  unfold run
  split
  · rename_i why _
    exact ⟨"", 0, [], HasTold.failed ⟨rfl, .nil, nofun⟩ why⟩
  rename_i u hu
  have hb := start_begun hu
  obtain ⟨places, hconcludes⟩ := hb.concludes x
  rw [Concludes, hb.subject] at hconcludes
  refine ⟨u.record.id, u.record.parts.toNat, places, ?_⟩
  rcases hc : u.complete x with ⟨result, u', x'⟩
  rw [hc] at hconcludes
  obtain ⟨why, rfl, htold⟩ | ⟨report, rfl, hchronicles⟩ := hconcludes
  · exact htold.failed why
  · exact hchronicles

end

end Upload

/-- **Transfers tell of what happens, in order, and last of their end.**  A download tells of each part
that it accepts, each request that it answers and each anomaly that it recovers from; an upload tells
of each part that it publishes. -/
theorem transfers_chronicle (config : Config) (record : FileRecord) (sink : Sink) (path : Path)
    (options : UploadOptions) (x : Exchange) :
    (Download.run config record sink x).1.Chronicles config record
        (Download.history config record sink x) ∧
      ∃ id parts places, (Upload.run config path options x).1.Chronicles id parts
        (partSubject config.partPrefix id) (x.log.messages.size + 1)
        (Upload.run config path options x).2.log places :=
  ⟨Download.run_chronicles config record sink x, Upload.run_chronicles config path options x⟩

end FileRelay
