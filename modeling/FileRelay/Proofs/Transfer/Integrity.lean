import FileRelay.Proofs.Transfer.OneTurn
import FileRelay.Proofs.Transfer.Plain
import FileRelay.Proofs.Transfer.Turns

/-!
# Proofs/Transfer/Integrity — what was written are parts of the file, whatever happens

Others may publish, arm faults, answer requests and call the transfer off between any two turns of a
download (`Download.Reaches`), and its calls may be refused.  Whatever they do, what the download
has written are parts of its file, each of them once and in order, from messages that follow one
another in the log (`Reaches.intact`).
-/

namespace FileRelay

open Accepted (contents places)

namespace Download

variable {d : Download} {t : DownloadTask} {x x' : Exchange} {before : Bytes} {as : List Accepted}

/-- **A download that was broken off** holds what it has accepted.  A write that failed may have
left something behind that; and if the budget was spent, the failure says what is held. -/
def BrokenOff (t : DownloadTask) (before : Bytes) (d : Download) (why : Failure) (l : Log) : Prop :=
  ∃ as rest, d.Holds t before l as rest ∧ (rest ≠ [] → ∃ e, why = .io e) ∧
    ∀ attempts parts octets, why = .tooManyMismatches attempts parts octets →
      attempts = t.config.retryBudget.toNat ∧ parts = as.length ∧ octets = (contents as).length

/-- **What holds of a download after a turn**, by what the turn comes to. -/
def Intact (t : DownloadTask) (before : Bytes) (r : Turn Download) (l : Log) : Prop :=
  r.All (fun d => ∃ as, d.InStep t before l as) (fun d => ∃ as, d.Holds t before l as [])
    (fun d why => d.BrokenOff t before why l)

theorem Holds.brokenOff {why : Failure} {l : Log} (h : d.Holds t before l as [])
    (hwhy : ∀ attempts parts octets, why ≠ .tooManyMismatches attempts parts octets) :
    d.BrokenOff t before why l :=
  ⟨as, [], h, by simp, fun _ _ _ h => absurd h (hwhy _ _ _)⟩

/-- The delivery that is accepted is the next message of the row. -/
theorem InStep.accepted {m : Delivery} {data : Bytes} {s : Subscription} {timeout : Nat}
    (h : d.InStep t before x.log as) (hx : x.Honest)
    (hh : x.Hears d.reader timeout (.data m) s x')
    (hc : d.session.checkPart d.task.record m = some (.ok data)) :
    ∃ a : Accepted, a.place = m.sequence ∧ a.content = data ∧
      a.IsPart t.record (as.length + 1) ∧
      (x'.log.row t.subject t.origin.first)[as.length]? = some a.entry ∧
      s.Follows x'.log t.record t.origin.first (as.length + 1) 0 (d.session.expecting + 1) := by
  obtain ⟨j, hf⟩ := h.follows
  obtain ⟨hsubject, -, hfound⟩ := hh.follows hx hf
  obtain ⟨hnumber, hcontent⟩ := Session.checkPart_eq_ok_iff.1 hc
  rw [h.holds.task, h.holds.counts.expectedPart, Accepted.length_places] at hcontent
  obtain ⟨e, hrow, hplace, hheaders, hdelivers, hnext⟩ := hfound m rfl data hnumber hcontent
  rw [hsubject.trans h.subject] at hrow
  exact ⟨⟨e.1, e.2, m.payload, data⟩, hplace.symm, rfl, ⟨hdelivers, hheaders ▸ hcontent⟩, hrow,
    hnext⟩

/-- **A turn keeps a download in step**, or ends it with what it holds. -/
theorem InStep.turn (h : d.InStep t before x.log as) (ht : t.record.Tiled) (hx : x.Honest) :
    Intact t before (d.turn x).1 (d.turn x).2.log := by
  rcases hcomplete : d.session.isComplete d.task.parts
  swap
  · rw [turn_of_complete hcomplete]
    exact ⟨as, h.holds⟩
  obtain ⟨heard, s, x₁, hh, ha⟩ := turn_acts (h.holds.task ▸ ht) hcomplete h.one_le_cursor h.isOpen
  have hholds : { d with reader := s }.Holds t before x₁.log as [] :=
    (h.holds.grow hh.grown).same rfl rfl h.holds.counts rfl
  -- What is not data leaves the reader in step, in the log after the wait and in any other one.
  have hstep : (∀ m, heard ≠ .data m) → ∀ l, x₁.log.Grown l → ∀ lastActivity flowReplies events,
      { d with reader := s, lastActivity, flowReplies, events }.InStep t before l as :=
    fun hne l hl lastActivity flowReplies events => by
      obtain ⟨j, hf⟩ := h.follows
      obtain ⟨hsubject, hkeeps, -⟩ := hh.follows hx hf
      obtain ⟨j', hf'⟩ := hkeeps hne
      exact ⟨(hholds.grow hl).same rfl rfl hholds.counts rfl, hsubject.trans h.subject, j',
        hf'.grow hl⟩
  have hlog : x₁.log.Grown (d.turn x).2.log := .of_messages ha.beside.messages
  generalize (d.turn x).1 = r at ha ⊢
  generalize (d.turn x).2 = x₂ at ha hlog ⊢
  cases ha with
  | breaksOff _ hwhy =>
    have hnew := hholds.grow hlog
    refine Holds.brokenOff (hnew.same rfl rfl (hnew.counts.withState _) rfl) ?_
    rintro _ _ _ rfl
    simp at hwhy
  | rests => exact ⟨as, hstep (by simp) _ (.refl _) _ _ _⟩
  | tires => exact ⟨as, hholds⟩
  | passes => exact ⟨as, hstep (by simp) _ (.refl _) _ _ _⟩
  | answers => exact ⟨as, hstep (by simp) _ hlog _ _ _⟩
  | accepts hc hw hs =>
    obtain ⟨a, hplace, rfl, hpart, hrow, hnext⟩ := h.accepted hx hh hc
    rw [← hplace] at hs
    have hnew := (hholds.accept hpart hrow hw hs).grow hlog
    obtain ⟨-, hexpecting⟩ := hholds.counts.accept hs
    refine ⟨as ++ [a], hnew.same rfl rfl hnew.counts rfl, ?_, 0, ?_⟩
    · obtain ⟨j, hf⟩ := h.follows
      exact (hh.follows hx hf).1.trans h.subject
    · rw [List.length_append, List.length_singleton]
      simp only [tell, stirred, hexpecting]
      exact hnext.grow hlog
  | cannotWrite hc hw =>
    obtain ⟨done, rest, -, -, hwritten⟩ := Sink.writeAll_error hw
    refine ⟨as, done, ?_, fun _ => ⟨_, rfl⟩, by simp⟩
    exact (hholds.grow hlog).also rfl rfl (hholds.counts.withState _) hwritten
  | outgrows hc hw hs =>
    obtain ⟨a, hplace, rfl, hpart, -⟩ := h.accepted hx hh hc
    rw [← hplace] at hs
    exact absurd hs (hholds.accept?_ne_none ht hpart)
  | @recovers _ _ _ session _ hc hr =>
    obtain ⟨hcounts, hexpecting, rfl⟩ := hholds.counts.recover hr
    have hnew : { d with session := session.startReading }.Holds t before x₂.log as [] :=
      (hholds.grow hlog).same rfl rfl (hcounts.withState .reading) rfl
    refine ⟨as, hnew.same rfl rfl hnew.counts rfl, ?_, 0, ?_⟩
    · exact congrArg DownloadTask.subject h.holds.task
    · have hfresh := hnew.follows_fresh
      simp only [Session.startReading, hexpecting]
      rw [h.holds.task]
      exact hfresh
  | stranded hc hr =>
    obtain ⟨hcounts, -⟩ := hholds.counts.recover hr
    exact Holds.brokenOff ((hholds.grow hlog).same rfl rfl hcounts rfl) (by simp)
  | cannotResume hc hr =>
    exact Holds.brokenOff ((hholds.grow hlog).same rfl rfl hholds.counts rfl) (by simp)
  | givesUp hc hr _ hwhy =>
    obtain ⟨hcounts, hspent⟩ := hholds.counts.spent hr
    refine ⟨as, [], (hholds.grow hlog).same rfl rfl hcounts rfl, by simp, ?_⟩
    rintro attempts parts octets rfl
    obtain ⟨e, -, heq⟩ | ⟨-, heq⟩ := hwhy
    · simp at heq
    obtain ⟨rfl, rfl, rfl⟩ := Failure.tooManyMismatches.inj heq
    exact ⟨hspent, hcounts.partsWritten.trans (Accepted.length_places as), hcounts.bytesWritten⟩

/-! ## Runs of turns -/

/-- A turn changes no rule. -/
theorem InStep.turn_rules (h : d.InStep t before x.log as) (ht : t.record.Tiled) :
    (d.turn x).2.interference.rules = x.interference.rules := by
  rcases hcomplete : d.session.isComplete d.task.parts
  · obtain ⟨heard, s, x₁, hh, ha⟩ := turn_acts (h.holds.task ▸ ht) hcomplete h.one_le_cursor h.isOpen
    exact ha.beside.rules.trans hh.rules
  · rw [turn_of_complete hcomplete]

/-- **What others do between two turns**: whatever they like, but messages stay in the log, and a
reader is given deliveries of the log alone. -/
structure Meanwhile (x x' : Exchange) : Prop where
  grown : x.log.Grown x'.log
  honest : x'.Honest

/-- **What a download can come to**, turn by turn, among others. -/
inductive Reaches (t : DownloadTask) (sink : Sink) : Turn Download → Exchange → Prop
  | begun {reader : Subscription} {x x' : Exchange} (hx : x.Honest)
      (hs : x.subscribe t.subject t.origin = (.ok reader, x')) :
      Reaches t sink (.on (Download.of t sink reader x'.time.now)) x'
  | others {d : Download} {x x' : Exchange} (h : Reaches t sink (.on d) x)
      (hx : Meanwhile x x') : Reaches t sink (.on d) x'
  | turn {d : Download} {x : Exchange} (h : Reaches t sink (.on d) x) :
      Reaches t sink (d.turn x).1 (d.turn x).2

variable {sink : Sink} {r : Turn Download}

/-- A row of turns that others leave alone is a run among others. -/
theorem Reaches.takeTurns (h : Reaches t sink (.on d) x) (n : Nat) :
    Reaches t sink (Turn.takeTurns Download.turn n d x).1
      (Turn.takeTurns Download.turn n d x).2 := by
  induction n generalizing d x with
  | zero => exact h
  | succ n ih =>
    have hturn := h.turn
    rw [Turn.takeTurns]
    split
    all_goals rename_i he; rw [he] at hturn
    · exact ih hturn
    · exact hturn
    · exact hturn

/-- **Whatever others do, a download holds what it has accepted.** -/
theorem Reaches.intact (h : Reaches t sink r x) (ht : t.record.Tiled) :
    Intact t sink.written r x.log ∧ x.Honest := by
  induction h with
  | @begun _ y _ hx hs =>
    have hb := y.subscribe_beside t.subject t.origin
    rw [hs] at hb
    rw [Exchange.subscribe_ok hs]
    exact ⟨⟨[], inStep_of t sink _ _⟩, hx.of_rules hb.rules⟩
  | others _ hx ih =>
    obtain ⟨⟨as, hin⟩, -⟩ := ih
    exact ⟨⟨as, hin.grow hx.grown⟩, hx.honest⟩
  | turn _ ih =>
    obtain ⟨⟨as, hin⟩, hx⟩ := ih
    exact ⟨hin.turn ht hx, hx.of_rules (hin.turn_rules ht)⟩

/-- What is held after a turn, whatever it comes to. -/
theorem Intact.held {l : Log} (h : Intact t before r l) :
    ∃ as rest, r.state.Holds t before l as rest ∧
      (rest ≠ [] → ∃ d e, r = .broken d (.io e)) := by
  cases r with
  | on d =>
    obtain ⟨as, hin⟩ := h
    exact ⟨as, [], hin.holds, by simp⟩
  | done d =>
    obtain ⟨as, hd⟩ := h
    exact ⟨as, [], hd, by simp⟩
  | broken d why =>
    obtain ⟨as, rest, hd, hrest, -⟩ := h
    refine ⟨as, rest, hd, fun hne => ?_⟩
    obtain ⟨e, rfl⟩ := hrest hne
    exact ⟨d, e, rfl⟩

/-! ## Whole downloads -/

/-- **Accepted messages are drawn from a log**: they stand in the log under the subject of the file
at rising places, none of them before the download's origin, and their labels describe their
contents as the first parts of the file. -/
structure Drawn (t : DownloadTask) (l : Log) (as : List Accepted) : Prop where
  atMost : as.length ≤ t.parts
  rising : (places as).Pairwise (· < ·)
  later : ∀ p ∈ places as, t.origin.first ≤ p
  described : ∀ (i : Nat) (a : Accepted), as[i]? = some a →
    l.message? a.place = some a.message ∧ a.message.subject = t.subject ∧
      a.message.Delivers a.payload ∧ ∃ label, Label.ofHeaders a.message.headers = .ok label ∧
        label.number.toNat = i + 1 ∧ label.Describes t.record a.payload a.content

/-- What is held is drawn from the log. -/
theorem Holds.drawn {l : Log} {rest : Bytes} (h : d.Holds t before l as rest)
    (ht : t.record.Tiled) : Drawn t l as := by
  have hplaces : places as = (as.map Accepted.entry).map Prod.snd := by
    rw [places, List.map_map]
    rfl
  have hsub := h.row.sublist
  refine ⟨h.parts.length_le ht, ?_, ?_, fun i a ha => ?_⟩
  · rw [hplaces, List.pairwise_map]
    exact (Log.row_pairwise l t.subject t.origin.first).sublist hsub
  · intro p hp
    rw [hplaces] at hp
    obtain ⟨⟨m, p⟩, he, rfl⟩ := List.mem_map.1 hp
    exact (Log.mem_row_iff.1 (hsub.subset he)).1
  · have hentry : a.entry ∈ as.map Accepted.entry :=
      List.mem_map.2 ⟨a, List.mem_of_getElem? ha, rfl⟩
    obtain ⟨-, hmessage, hsubject⟩ := Log.mem_row_iff.1 (hsub.subset hentry)
    obtain ⟨hdelivers, hcontent⟩ := h.parts i a ha
    exact ⟨hmessage, hsubject, hdelivers, (FileRecord.contentAt?_eq_some_iff ht).1 hcontent⟩

/-- **A report tells of accepted messages**: how many they are, how long and from where, and whether
they are the whole file with the digest on record. -/
structure Tells (t : DownloadTask) (as : List Accepted) (report : DownloadReport) : Prop where
  partsWritten : report.partsWritten = as.length
  bytesWritten : report.bytesWritten = (contents as).length
  firstSequence : report.firstSequence = (places as).head?
  lastSequence : report.lastSequence = (places as).getLast?
  digest : report.digest = ⟨t.algorithm.name, t.algorithm.hexDigest (contents as)⟩
  verified : report.verification = .verified ↔ as.length = t.parts ∧
    Digest.Entry.agrees ⟨t.algorithm.name, t.algorithm.hexDigest (contents as)⟩ t.expected = true
  whole : as.length = t.parts → (contents as).length = t.record.length.toNat

theorem Holds.verified_iff {l : Log} {rest : Bytes} (h : d.Holds t before l as rest)
    (ht : t.record.Tiled) : d.verification = .verified ↔ as.length = t.parts ∧
      Digest.Entry.agrees ⟨t.algorithm.name, t.algorithm.hexDigest (contents as)⟩ t.expected
        = true := by
  have hle : as.length ≤ t.parts := h.parts.length_le ht
  rw [h.verification_eq, DownloadTask.verdict]
  split
  · have hne : as.length ≠ t.parts := by omega
    simp [hne]
  · have heq : as.length = t.parts := by omega
    split <;> simp_all

theorem Holds.tells {l : Log} {rest : Bytes} (h : d.Holds t before l as rest)
    (ht : t.record.Tiled) : Tells t as d.report where
  partsWritten := h.counts.partsWritten.trans (Accepted.length_places as)
  bytesWritten := h.counts.bytesWritten
  firstSequence := h.counts.firstSequence
  lastSequence := h.counts.lastSequence
  digest := h.digest_eq
  verified := h.verified_iff ht
  whole hall := by
    rw [h.parts.length_contents ht, hall]
    exact ht.reach_parts

/-- **What a download has come to**, by its result: the sink holds the contents of accepted messages
and what a failed write has left behind them, and the result tells of these messages. -/
structure Kept (t : DownloadTask) (before : Bytes) (as : List Accepted)
    (result : Except Failure DownloadReport) (written : Bytes) : Prop where
  written : ∃ rest, written = before ++ contents as ++ rest ∧
    (rest ≠ [] → ∃ e, result = .error (.io e))
  spent : ∀ attempts parts octets, result = .error (.tooManyMismatches attempts parts octets) →
    attempts = t.config.retryBudget.toNat ∧ parts = as.length ∧ octets = (contents as).length
  tells : ∀ report, result = .ok report → Tells t as report

theorem Holds.closed {d' : Download} {l : Log} {rest : Bytes} (h : d.Holds t before l as rest)
    (hd : Closed d d') : d'.Holds t before l as rest := by
  obtain ⟨state, hs⟩ := hd.session
  exact h.same hd.task hd.digester (hs ▸ h.counts.withState state) hd.written

/-- **What was reached is kept at the end.** -/
theorem Reaches.complete (h : Reaches t sink (.on d) x) (ht : t.record.Tiled) :
    ∃ as, Drawn t (d.complete x).2.2.log as ∧
      Kept t sink.written as (d.complete x).1 (d.complete x).2.1.sink.written := by
  obtain ⟨hend, -⟩ := (h.takeTurns (d.task.patience x)).intact ht
  unfold Download.complete
  split
  all_goals rename_i d' x' he; rw [he] at hend
  · obtain ⟨as, hin⟩ := hend
    exact ⟨as, hin.holds.drawn ht, ⟨[], hin.holds.written, by simp⟩, by simp, by simp⟩
  · obtain ⟨as, rest, hd, hrest, hspent⟩ := hend
    refine ⟨as, hd.drawn ht, ⟨rest, hd.written, fun hne => ?_⟩, ?_, by simp⟩
    · obtain ⟨e, rfl⟩ := hrest hne
      exact ⟨e, rfl⟩
    · rintro attempts parts octets heq
      obtain rfl := Except.error.inj heq
      exact hspent _ _ _ rfl
  · obtain ⟨as, hd⟩ := hend
    obtain ⟨hclosed, hb⟩ := d'.finish_closed x'
    have hd' := (hd.grow (.of_messages hb.messages)).closed hclosed
    refine ⟨as, hd'.drawn ht, ⟨[], hd'.written, by simp⟩, ?_, ?_⟩
    · intro attempts parts octets heq
      obtain ⟨e, -, hfst⟩ | ⟨-, hfst⟩ := d'.finish_fst x' <;> simp [hfst] at heq
    · intro report heq
      obtain ⟨e, -, hfst⟩ | ⟨-, hfst⟩ := d'.finish_fst x'
      · simp [hfst] at heq
      · rw [hfst] at heq
        obtain rfl := Except.ok.inj heq
        exact hd'.tells ht

/-- A download that cannot begin writes nothing. -/
theorem run_of_task_error {config : Config} {record : FileRecord} {why : Failure}
    (h : DownloadTask.of config record = .error why) (sink : Sink) (x : Exchange) :
    (run config record sink x).1.result = .error why ∧
      (run config record sink x).1.sink.written = sink.written := by
  rw [run, h]
  exact ⟨rfl, Sink.flush_written sink⟩

/-- **A whole download keeps what it has accepted.** -/
theorem run_kept {config : Config} {record : FileRecord} (h : DownloadTask.of config record = .ok t)
    (ht : t.record.Tiled) (sink : Sink) (hx : x.Honest) :
    ∃ as, Drawn t (run config record sink x).2.log as ∧
      Kept t sink.written as (run config record sink x).1.result
        (run config record sink x).1.sink.written := by
  unfold run
  rw [h]
  dsimp only
  split
  · rename_i e x' _
    refine ⟨[], ⟨Nat.zero_le _, List.Pairwise.nil, by simp [places], by simp⟩, ⟨[], ?_, by simp⟩,
      by simp [failed], by simp [failed]⟩
    simp [failed, Sink.flush_written, contents]
  · rename_i reader x' hs
    have hbegun : Reaches t sink _ x' := .begun hx hs
    obtain ⟨as, hdrawn, hkept⟩ := hbegun.complete ht
    split
    all_goals rename_i hc; rw [hc] at hdrawn hkept
    · exact ⟨as, hdrawn, hkept⟩
    · exact ⟨as, hdrawn, hkept⟩

/-- **What a download writes are parts of its file**, each of them once and in order, whatever is
published, armed, refused or called off, and wherever a write fails.  This holds after each turn, and
the result of the download tells of these parts. -/
theorem written_are_parts {config : Config} {record : FileRecord} (hv : record.validate = .ok ())
    (sink : Sink) :
    (∀ why, DownloadTask.of config record = .error why → ∀ x,
      (run config record sink x).1.result = .error why ∧
        (run config record sink x).1.sink.written = sink.written) ∧
    ∀ t, DownloadTask.of config record = .ok t →
      (∀ r x, Reaches t sink r x → ∃ as rest, r.state.Holds t sink.written x.log as rest ∧
        Drawn t x.log as ∧ (rest ≠ [] → ∃ d e, r = .broken d (.io e))) ∧
      ∀ x : Exchange, x.Honest → ∃ as, Drawn t (run config record sink x).2.log as ∧
        Kept t sink.written as (run config record sink x).1.result
          (run config record sink x).1.sink.written := by
  refine ⟨fun why h x => run_of_task_error h sink x, fun t h => ?_⟩
  obtain ⟨-, -, rfl, -⟩ := DownloadTask.of_eq_ok_iff.1 h
  have ht := FileRecord.tiled_of_validate hv
  refine ⟨fun r x hr => ?_, fun x hx => run_kept h ht sink hx⟩
  obtain ⟨as, rest, hd, hrest⟩ := (hr.intact ht).1.held
  exact ⟨as, rest, hd, hd.drawn ht, hrest⟩

/-- The first of two parts, which is damaged when it is delivered for the first time, is all that is
published of a file: it is written once, and told of. -/
theorem written_are_parts_of_damaged : ∃ (record : FileRecord) (t : DownloadTask) (x : Exchange),
    record.validate = .ok () ∧ DownloadTask.of .usual record = .ok t ∧ x.Honest ∧
      x.log.faults = [(1, .corrupt, 1)] ∧ ∃ as, Drawn t (run .usual record .unlimited x).2.log as ∧
        (run .usual record .unlimited x).1.sink.written = contents as ∧ contents as = [1, 2] ∧
        ∃ report, (run .usual record .unlimited x).1.result = .ok report ∧ report.recoveries = 1 ∧
          Tells t as report := by
  let record : FileRecord := ⟨"id", "name", "", "", 3, 2, 2, 1, .epoch, some "SHA-256",
    some "00", some 1⟩
  let t : DownloadTask := ⟨.usual, record, ⟨"SHA-256", "00"⟩, .sha256⟩
  let label := Label.plain "id" 1 0 2 ⟨"SHA-256", Digest.Algorithm.sha256.hexDigest [1, 2]⟩
  obtain ⟨m, hm⟩ : ∃ m : Published, m = ⟨"parts.id", label.toHeaders, [1, 2]⟩ := ⟨_, rfl⟩
  let x : Exchange := (Exchange.new default .empty).withLog
    (((Log.new default).publish m).2.arm 1 .corrupt 1)
  have hv : record.validate = .ok () := by decide
  have ht : DownloadTask.of .usual record = .ok t := by decide
  have hx : x.Honest := nofun
  have hfaults : x.log.faults = [(1, .corrupt, 1)] := rfl
  have hrun : (run .usual record .unlimited x).1.sink.written = [1, 2] ∧
      (run .usual record .unlimited x).1.result.toOption.map DownloadReport.recoveries = some 1 := by
    subst hm
    decide +kernel
  obtain ⟨as, hdrawn, hkept⟩ := ((written_are_parts hv .unlimited).2 _ ht).2 x hx
  clear_value x
  obtain ⟨hwritten, hrecoveries⟩ := hrun
  rcases hresult : (run .usual record .unlimited x).1.result with why | report
  · simp [hresult, Except.toOption] at hrecoveries
  obtain ⟨rest, hall, hrest⟩ := hkept.written
  obtain rfl : rest = [] := by
    by_contra hne
    obtain ⟨e, he⟩ := hrest hne
    simp [hresult] at he
  have hcontents : (run .usual record .unlimited x).1.sink.written = contents as :=
    hall.trans (List.append_nil _)
  refine ⟨record, t, x, hv, ht, hx, hfaults, as, hdrawn, hcontents, hcontents ▸ hwritten, report,
    hresult, ?_, hkept.tells report hresult⟩
  simpa [hresult, Except.toOption] using hrecoveries

end Download

end FileRelay
