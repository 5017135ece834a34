import FileRelay.Proofs.Log.Silence
import FileRelay.Proofs.Transfer.Bounds

/-!
# Proofs/Transfer/IdleClock — when a download gives up

A download remembers when it last heard a message or a request, and looks at the clock whenever it has
heard nothing.  A silence takes one beat, whatever others do meanwhile and whether a heartbeat ends it
or not (`Download.Silent.turn`).  So a download for which nothing comes any more gives up with the first
beat that fills its time, and not before (`Download.gives_up_on_time`).
-/

namespace FileRelay

/-- Silences fill the time after which a download gives up if there are enough of them. -/
theorem DownloadTask.silences_le_iff {t : DownloadTask} {o : LogOptions} {k : Nat}
    (hb : 0 < t.beat o) : t.silences o ≤ k ↔ t.config.maxIdleMs.toNat ≤ t.beat o * k := by
  rw [silences, ceilDiv_le_iff_le_mul hb]

namespace Download

variable {d : Download} {t : DownloadTask} {o : LogOptions} {x x' : Exchange} {sink : Sink}
  {last : Nat}

/-! ## A silence -/

/-- **A download for which nothing comes** before a moment, and that lacks parts. -/
structure Silent (d : Download) (t : DownloadTask) (o : LogOptions) (x : Exchange) (last : Nat) :
    Prop extends d.Attends t o x where
  rules : x.interference.rules = []
  lacks : d.session.isComplete t.parts = false
  quiet : x.time.Quiet d.reader last

/-- **A reader for which nothing comes hears nothing** for as long as it was told to wait. -/
theorem Silent.listens (h : d.Silent t o x last) (hpos : 0 < t.beat o)
    (hle : x.time.now + t.beat o ≤ last) : (d.listen x).1 = .nothing ∧
      (d.listen x).2.2.time.now = x.time.now + t.beat o ∧
      (d.listen x).2.2.time.Quiet (d.listen x).2.1 last := by
  have hpause : x.time.pause d.task.config.readTimeoutMs.toNat = t.beat o := by
    rw [Timeline.pause, DownloadTask.beat, h.task, ← h.options]
    rfl
  rw [← hpause] at hpos hle ⊢
  obtain ⟨hnothing, hnow, hquiet⟩ := h.quiet.next h.reader.cursor h.isOpen hpos hle
  unfold listen Exchange.hear
  rw [if_neg (by simp [h.quiet.calledOff]), Exchange.meet_of_rules_nil h.rules]
  refine ⟨?_, hnow, hquiet⟩
  dsimp only
  obtain hw | hw := hnothing
  all_goals rw [hw]; rfl

/-- **A silence takes one beat**, and nothing comes after it. -/
theorem Silent.turn (h : d.Silent t o x last) (hpos : 0 < t.beat o)
    (hle : x.time.now + t.beat o ≤ last) : ∃ s x', d.turn x = { d with reader := s }.rest x' ∧
      x'.time.now = x.time.now + t.beat o ∧ Silent { d with reader := s } t o x' last := by
  obtain ⟨hnothing, hnow, hquiet⟩ := h.listens hpos hle
  have hh : x.Hears d.reader d.task.config.readTimeoutMs.toNat (d.listen x).1 (d.listen x).2.1
    (d.listen x).2.2 := Exchange.hear_hears h.reader.cursor h.isOpen
  refine ⟨_, _, ?_, hnow, ⟨h.toAttends.listened hh, hh.rules.trans h.rules, h.lacks, hquiet⟩⟩
  have hlacks : d.session.isComplete d.task.parts = false := h.task.symm ▸ h.lacks
  unfold listen at hnothing
  simp only [Download.turn, hlacks, hnothing, Bool.false_eq_true, ↓reduceIte, listen]

/-- **A download for which nothing comes gives up** with the beat that fills its time, after so many
others. -/
theorem Silent.turns {m n : Nat} (h : d.Silent t o x (d.lastActivity + t.beat o * t.silences o))
    (hpos : 0 < t.beat o) (hnow : x.time.now = d.lastActivity + t.beat o * m)
    (hmn : m + (n + 1) = t.silences o) :
    ∃ s x', Turn.takeTurns Download.turn (n + 1) d x = (.done { d with reader := s }, x') ∧
      x'.time.now = d.lastActivity + t.beat o * t.silences o := by
  induction n generalizing d x m with
  | zero =>
    obtain ⟨s, x', hturn, hnow', hsilent⟩ := h.turn hpos (by rw [hnow, ← hmn, Nat.mul_add]; omega)
    rw [hnow, Nat.add_assoc, ← Nat.mul_succ, Nat.succ_eq_add_one, hmn] at hnow'
    have hfull : d.task.config.maxIdleMs.toNat ≤ x'.time.now - d.lastActivity := by
      rw [hnow', Nat.add_sub_cancel_left, h.task]
      exact (DownloadTask.silences_le_iff hpos).1 (Nat.le_refl _)
    refine ⟨s, x', ?_, hnow'⟩
    rw [Turn.takeTurns, hturn, rest, if_pos hfull]
  | succ n ih =>
    have hmore : t.beat o * (m + 1) ≤ t.beat o * t.silences o :=
      Nat.mul_le_mul_left _ (by omega)
    obtain ⟨s, x', hturn, hnow', hsilent⟩ := h.turn hpos (by
      rw [Nat.mul_succ] at hmore
      omega)
    rw [hnow, Nat.add_assoc, ← Nat.mul_succ, Nat.succ_eq_add_one] at hnow'
    have hidle : ¬ d.task.config.maxIdleMs.toNat ≤ x'.time.now - d.lastActivity := by
      rw [hnow', Nat.add_sub_cancel_left, h.task, ← DownloadTask.silences_le_iff hpos]
      omega
    obtain ⟨s', x'', hturns, hend⟩ := ih hsilent hnow' (by omega)
    refine ⟨s', x'', ?_, hend⟩
    rw [Turn.takeTurns, hturn, rest, if_neg hidle]
    exact hturns

/-! ## What was heard before -/

/-- **A download in its course** that has heard this: no rule interferes, its sink is reliable, and if the
last thing was not silence, it was heard at this moment. -/
structure Listening (d : Download) (t : DownloadTask) (o : LogOptions) (x : Exchange)
    (heard : List Heard) : Prop extends d.Attends t o x where
  rules : x.interference.rules = []
  sink : d.sink.Reliable
  last : heard.getLast? ≠ some .nothing → d.lastActivity = x.time.now

/-- **Every turn goes on listening.** -/
theorem Listening.turn {heard : List Heard} (h : d.Listening t o x heard) :
    (d.turn x).1.All (fun d' => d'.Listening t o (d.turn x).2 (heard ++ d.hears x)) (fun _ => True)
      (fun _ _ => True) := by
  obtain ⟨-, hturn⟩ | ⟨d', x', hturn⟩ | ⟨hcomplete, ha⟩ := d.turn_cases x
  · rw [hturn]
    trivial
  · rw [hturn]
    trivial
  have hh : x.Hears d.reader d.task.config.readTimeoutMs.toNat (d.listen x).1 (d.listen x).2.1
    (d.listen x).2.2 := Exchange.hear_hears h.reader.cursor h.isOpen
  have hattends := (h.listened hh).acts ha
  have hrules := ha.beside.rules.trans (hh.rules.trans h.rules)
  have hnow := ha.beside.now
  rw [hears, hcomplete, if_neg (by simp)]
  generalize (d.listen x).1 = heard' at *
  generalize (d.listen x).2.1 = s at *
  generalize (d.listen x).2.2 = x₁ at *
  generalize (d.turn x).1 = r at *
  generalize (d.turn x).2 = x₂ at *
  cases ha with
  | rests => exact ⟨hattends, hrules, h.sink, fun hlast => absurd (by simp) hlast⟩
  | passes | answers => exact ⟨hattends, hrules, h.sink, fun _ => hnow.symm⟩
  | recovers => exact ⟨hattends, hrules, h.sink, fun _ => hnow.symm⟩
  | accepts _ hw =>
    exact ⟨hattends, hrules, h.sink.of_limits (Sink.writeAll_ok hw).2, fun _ => hnow.symm⟩
  | breaksOff | tires | cannotWrite | outgrows | stranded | cannotResume | givesUp => trivial

/-! ## The end -/

/-- A download that has begun has heard nothing yet. -/
theorem listening_of {reader : Subscription} (hk : sink.Reliable) (hr : x.interference.rules = [])
    (hs : x.subscribe t.subject t.origin = (.ok reader, x')) :
    (Download.of t sink reader x'.time.now).Listening t x.log.options x' [] := by
  have hb := x.subscribe_beside t.subject t.origin
  rw [hs] at hb
  have hrules := hb.rules.trans hr
  rw [Exchange.subscribe_ok hs]
  exact ⟨⟨rfl, Exchange.grants_of_rules_nil hrules, hb.options, Nat.le_refl _,
    .fresh _ t.origin, rfl⟩, hrules, hk, fun _ => rfl⟩

/-- **The turns that a download takes at most are enough for it**: when it is done after some number of
turns, it has come to its end. -/
theorem complete_of_done {d' : Download} {n : Nat} (h : d.Attends t o x) (hpos : 0 < t.beat o)
    (hp : d.ahead t o x < t.patience x) (hn : Turn.takeTurns Download.turn n d x = (.done d', x')) :
    d.complete x = d'.finish x' := by
  have hends := h.ends hpos hp
  have hsame : Turn.takeTurns Download.turn (t.patience x) d x = (.done d', x') := by
    obtain hle | hle := Nat.le_total n (t.patience x)
    · exact (Turn.takeTurns_of_le hle (by rw [hn]; trivial)).trans hn
    · exact (Turn.takeTurns_of_le hle hends).symm.trans hn
  rw [complete, h.task, hsame]

/-- **The report of a download that gave up** says that it is incomplete. -/
theorem finish_incomplete (hk : d.sink.Reliable) (hc : d.session.isComplete d.task.parts = false)
    (x : Exchange) : ∃ report d' x', d.finish x = (.ok report, d', x') ∧
      report.verification = .incomplete d.task.parts d.session.partsWritten ∧
      x'.time.now = x.time.now := by
  obtain ⟨d', x', ⟨htask, ⟨state, hsession⟩, -⟩, hfinish⟩ := finish_of_reliable hk x
  have hb := (d.finish_closed x).2
  rw [hfinish] at hb
  refine ⟨_, d', x', hfinish, ?_, hb.now⟩
  have hc' : d'.session.isComplete d'.task.parts = false := by
    rw [hsession, htask]
    exact hc
  rw [report, verification, hc', Bool.not_false, if_pos rfl, htask, hsession]

/-- **The idle clock is exact, and only messages reset it.**  Let a download that lacks parts have
begun, or heard a message or a request, at this moment.  If nothing comes for it any more and nobody calls it off,
it gives up as incomplete with the beat that fills the time it has patience for, whatever wakes its
reader and however many heartbeats it gets.  So it does when it has read all of its subject and others
publish on other subjects, arm faults and reply. -/
theorem gives_up_on_time {config : Config} {record : FileRecord} {x₀ y : Exchange}
    {reader : Subscription} {k : Nat} (h : DownloadTask.of config record = .ok t)
    (hk : sink.Reliable) (hr : x.interference.rules = [])
    (ho : x.log.options.idleHeartbeatMs ≠ some 0)
    (hs : x.subscribe t.subject t.origin = (.ok reader, x₀))
    (hturns : Turn.takeTurns turn k (Download.of t sink reader x₀.time.now) x₀ = (.on d, y))
    (hlast : (Turn.gather turn hears k (Download.of t sink reader x₀.time.now) x₀).getLast?
      ≠ some .nothing)
    (hlacks : d.session.isComplete t.parts = false) :
    let ends := y.time.now + t.beat x.log.options * t.silences x.log.options
    (y.time.Quiet d.reader ends → ∃ report,
      (run config record sink x).1.result = .ok report ∧
      report.verification = .incomplete t.parts d.session.partsWritten ∧
      (run config record sink x).2.time.now = ends) ∧
    (d.reader.Idle y.log → y.time.calledOff = false →
      (∀ e ∈ y.time.agenda, e.1 < ends → e.2.IsElsewhere d.reader.subject) →
      y.time.Quiet d.reader ends) := by
  intro ends
  obtain ⟨hconfig, rfl, rfl, -⟩ := DownloadTask.of_eq_ok_iff.1 h
  have hpos := DownloadTask.beat_pos hconfig ho
  have hbegun := listening_of hk hr hs
  have hall := Turn.takeTurns_gather
    (P := fun heard d x' => Listening d t x.log.options x' heard) (D := fun _ _ _ => True)
    (B := fun _ _ _ _ => True) (fun _ _ _ hd => hd.turn) k hbegun
  rw [hturns] at hall
  have hd : d.Listening t x.log.options y _ := hall
  have hnow := hd.last hlast
  refine ⟨fun hquiet => ?_, fun hi hoff ha => hi.quiet hd.reader.cursor hoff ha⟩
  have hsilent : d.Silent t x.log.options y
      (d.lastActivity + t.beat x.log.options * t.silences x.log.options) :=
    ⟨hd.toAttends, hd.rules, hlacks, hnow ▸ hquiet⟩
  obtain ⟨n, hn⟩ := Nat.exists_eq_add_of_lt (DownloadTask.silences_pos hpos hconfig)
  obtain ⟨s, x', hdone, hend⟩ := hsilent.turns (m := 0) (n := n) hpos hnow.symm (by omega)
  rw [← Turn.takeTurns_add hturns] at hdone
  have hahead : (Download.of t sink reader x₀.time.now).ahead t x.log.options x₀ < t.patience x₀ := by
    rw [Exchange.subscribe_ok hs, ← hbegun.options]
    exact ahead_of_lt_patience t sink x₀
  have hcomplete := complete_of_done hbegun.toAttends hpos hahead hdone
  obtain ⟨report, d', x'', hfinish, hreport, htime⟩ :=
    finish_incomplete (d := { d with reader := s }) hd.sink (hd.task.symm ▸ hlacks) x'
  rw [run_eq h hs, hcomplete, hfinish]
  refine ⟨report, rfl, hd.task ▸ hreport, ?_⟩
  rw [htime, hend, hnow]

/-- With a heartbeat every 300 ms a download of one part gives up after 10.2 s, though others publish on
another subject and reply while it waits. -/
theorem gives_up_on_time_of_heartbeats : ∃ (record : FileRecord) (x : Exchange),
    x.log.options.idleHeartbeatMs = some 300 ∧
    x.time.agenda = [(100, .publish ⟨"parts.other", KeyMap.empty, []⟩), (700, .reply (.issued 1))] ∧
    ∃ report, (run .usual record .unlimited x).1.result = .ok report ∧
      report.verification = .incomplete 1 0 ∧
      (run .usual record .unlimited x).2.time.now = 10200 := by
  let record : FileRecord := ⟨"id", "name", "", "", 5, 1, 65536, 5, .epoch, some "SHA-256",
    some "00", none⟩
  let t : DownloadTask := ⟨.usual, record, ⟨"SHA-256", "00"⟩, .sha256⟩
  let x : Exchange := ((Exchange.new ⟨none, some 300⟩ .empty).plan 100
    (.publish ⟨"parts.other", KeyMap.empty, []⟩)).plan 700 (.reply (.issued 1))
  have ht : DownloadTask.of .usual record = .ok t := by decide
  have hk : Sink.unlimited.Reliable := ⟨rfl, rfl, by decide⟩
  have hs : x.subscribe t.subject t.origin
    = (.ok (.fresh t.subject t.origin), (x.subscribe t.subject t.origin).2) := rfl
  have helsewhere : ∀ e ∈ x.time.agenda, e.2.IsElsewhere t.subject := by
    rw [show x.time.agenda = [(100, .publish ⟨"parts.other", KeyMap.empty, []⟩),
      (700, .reply (.issued 1))] by decide]
    simp only [List.mem_cons, List.not_mem_nil, or_false, forall_eq_or_imp, forall_eq]
    refine ⟨⟨by simp, fun m hm => ?_⟩, by simp, by simp⟩
    obtain rfl := Deed.publish.inj hm
    decide
  have hagenda := (x.subscribe_beside t.subject t.origin).agenda
  have hmoment : (x.subscribe t.subject t.origin).2.time.now
      + t.beat x.log.options * t.silences x.log.options = 10200 := by decide
  obtain ⟨hends, hidle⟩ := gives_up_on_time (k := 0) ht hk rfl (by decide) hs rfl (by decide)
    (by decide)
  obtain ⟨report, hresult, hincomplete, hnow⟩ := hends (hidle ⟨rfl, rfl, rfl⟩ rfl
    fun e he _ => helsewhere e (hagenda ▸ he))
  exact ⟨record, x, rfl, by decide, report, hresult, hincomplete.trans (by decide),
    hnow.trans hmoment⟩

end Download

end FileRelay
