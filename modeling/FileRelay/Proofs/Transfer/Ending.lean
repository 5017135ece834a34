import FileRelay.Proofs.Config
import FileRelay.Proofs.Transfer.Integrity
import FileRelay.Proofs.Transfer.Listening

/-!
# Proofs/Transfer/Ending — every download ends

Where no rule interferes and heartbeats do not come at once, each turn of a download takes it closer
to its end: it accepts a part, spends a recovery, answers a request for which there was a delivery,
or lets time pass in which nothing was heard (`ahead`).  Hence a download is never `stalled`.
-/

namespace FileRelay

/-- How long a turn lasts in which nothing is heard. -/
def DownloadTask.beat (t : DownloadTask) (o : LogOptions) : Nat :=
  min t.config.readTimeoutMs.toNat (o.idleHeartbeatMs.getD t.config.readTimeoutMs.toNat)

/-- Valid settings and a heartbeat that does not come at once make every silence last. -/
theorem DownloadTask.beat_pos {t : DownloadTask} {o : LogOptions} (hc : t.config.validate = .ok ())
    (ho : o.idleHeartbeatMs ≠ some 0) : 0 < t.beat o := by
  obtain ⟨-, -, -, -, hpos, -⟩ := Config.validate_eq_ok_iff.1 hc
  unfold beat
  rcases h : o.idleHeartbeatMs with _ | n
  · simpa using hpos
  · rw [h] at ho
    simp only [ne_eq, Option.some.injEq] at ho
    simp only [Option.getD_some]
    omega

namespace Download

variable {d : Download} {t : DownloadTask} {before : Bytes} {o : LogOptions} {x x' : Exchange}

/-- **How much is still ahead of a download**: two deliveries' worth for each part that it lacks and
each recovery that it has left, one for a request that may come now, and after each of them so many
turns in which nothing is heard. -/
def ahead (d : Download) (t : DownloadTask) (o : LogOptions) (x : Exchange) : Nat :=
  (2 * (t.parts - d.session.partsWritten + d.session.retriesLeft)
      + (if 0 < d.reader.sinceFlow then 1 else 0)) * (t.idleTurns o + 1)
    + (t.idleTurns o - (x.time.now - d.lastActivity) / t.beat o)

/-- **A download under way** in a log with these options, where no rule interferes. -/
structure UnderWay (d : Download) (t : DownloadTask) (before : Bytes) (o : LogOptions)
    (x : Exchange) : Prop where
  inStep : ∃ as, d.InStep t before x.log as
  rules : x.interference.rules = []
  options : x.log.options = o
  past : d.lastActivity ≤ x.time.now

/-- **A download that does not wait in vain**: it hears something in its next turn, if it takes one. -/
def Hearing (d : Download) (x : Exchange) : Prop :=
  d.session.isComplete d.task.parts = false → ∀ s x',
    ¬ x.Listens d.reader d.task.config.readTimeoutMs.toNat .nothing s x'

/-- One unit less ahead is less, whatever silence comes after it. -/
theorem mul_add_lt {a b n i i' : Nat} (h : a < b) (hi : i' ≤ n) :
    a * (n + 1) + i' < b * (n + 1) + i := by
  have := Nat.mul_le_mul_right (n + 1) (Nat.succ_le_of_lt h)
  rw [Nat.succ_mul] at this
  omega

/-- Where no rule interferes, a turn takes a while, and none interferes after it. -/
theorem InStep.turn_later {as : List Accepted} (h : d.InStep t before x.log as)
    (ht : t.record.Tiled) (hr : x.interference.rules = []) : x.Later (d.turn x).2 := by
  rcases hcomplete : d.session.isComplete d.task.parts
  swap
  · rw [turn_of_complete hcomplete]
    exact (Exchange.Beside.refl x).later hr
  obtain ⟨heard, s, x₁, hh, ha⟩ := turn_acts (h.holds.task ▸ ht) hcomplete h.one_le_cursor h.isOpen
  have hlater := hh.later hr
  exact hlater.trans (ha.beside.later hlater.rules)

/-- **How a turn moves a download** that lacks parts, by what it has heard. -/
inductive Moves (d : Download) (t : DownloadTask) (o : LogOptions) (x : Exchange) :
    Heard → Turn Download → Exchange → Prop
  | accepts {m : Delivery} {d' : Download} {x' : Exchange}
      (hparts : d'.session.partsWritten = d.session.partsWritten + 1)
      (hleft : d'.session.retriesLeft = d.session.retriesLeft)
      (hnow : d'.lastActivity = x'.time.now) : Moves d t o x (.data m) (.on d') x'
  | recovers {m : Delivery} {d' : Download} {x' : Exchange}
      (hparts : d'.session.partsWritten = d.session.partsWritten)
      (hleft : d'.session.retriesLeft + 1 = d.session.retriesLeft)
      (hfresh : d'.reader.sinceFlow = 0) (hnow : d'.lastActivity = x'.time.now) :
      Moves d t o x (.data m) (.on d') x'
  | answers {a : Option Address} {d' : Download} {x' : Exchange} (hs : d'.session = d.session)
      (hdue : 0 < d.reader.sinceFlow) (hfresh : d'.reader.sinceFlow = 0)
      (hnow : d'.lastActivity = x'.time.now) : Moves d t o x (.flowControl a) (.on d') x'
  | rests {d' : Download} {x' : Exchange} (hs : d'.session = d.session)
      (hsince : d'.reader.sinceFlow = d.reader.sinceFlow)
      (hlast : d'.lastActivity = d.lastActivity) (hvain : ¬ d.Hearing x)
      (hbeat : x.time.now + t.beat o ≤ x'.time.now)
      (hidle : x'.time.now - d.lastActivity < t.config.maxIdleMs.toNat) :
      Moves d t o x .nothing (.on d') x'
  | tires {d' : Download} {x' : Exchange} : Moves d t o x .nothing (.done d') x'
  | ends {h : Heard} {d' : Download} {why : Failure} {x' : Exchange}
      (hh : h = .calledOff ∨ ∃ m, h = .data m) : Moves d t o x h (.broken d' why) x'

/-- **What a turn does moves a download**, where every call is granted. -/
theorem Acts.moves {heard : Heard} {s : Subscription} {x₁ x₂ : Exchange} {r : Turn Download}
    (ha : Acts { d with reader := s } x₁ heard r x₂) (hx : x₁.Grants)
    (hl : x.Listens d.reader d.task.config.readTimeoutMs.toNat heard s x₁)
    (hc : d.session.isComplete d.task.parts = false) (htask : d.task = t)
    (ho : x.log.options = o) : Moves d t o x heard r x₂ := by
  have hnow := ha.beside.now
  cases ha with
  | breaksOff _ hwhy =>
    cases hl with
    | calledOff => exact .ends (.inl rfl)
    | handed => exact .ends (.inr ⟨_, rfl⟩)
    | silent | asked =>
      obtain ⟨hoff, -⟩ | ⟨-, hbroken⟩ := hwhy
      · simp at hoff
      · obtain ⟨e, he⟩ := hbroken hx
        simp at he
  | cannotWrite | outgrows | stranded | cannotResume | givesUp => exact .ends (.inr ⟨_, rfl⟩)
  | tires => exact .tires
  | rests hidle =>
    cases hl with
    | silent hw hvain hpause hnext =>
      have hbeat : x.time.pause d.task.config.readTimeoutMs.toNat = t.beat o := by
        rw [Timeline.pause, DownloadTask.beat, htask, ← ho]
        rfl
      refine .rests rfl hw.sinceFlow rfl (fun hh => hh hc _ _ (.silent hw hvain hpause hnext))
        (hbeat ▸ hpause) ?_
      rw [← htask]
      exact hidle
  | passes => cases hl
  | answers =>
    cases hl with
    | asked hw _ hdue _ hs =>
      obtain ⟨hpos, hle⟩ := Subscription.flowIsDue_iff.1 hdue
      rw [hw.sinceFlow] at hle
      exact .answers rfl (Nat.lt_of_lt_of_le hpos hle) (by rw [hs]; rfl) hnow.symm
  | accepts _ _ hs =>
    obtain ⟨hparts, hleft, -⟩ := Session.accept?_counters hs
    exact .accepts hparts hleft hnow.symm
  | recovers _ hr =>
    obtain ⟨hparts, hleft, -⟩ := Session.recover?_counters hr
    exact .recovers hparts hleft rfl hnow.symm

/-- **Every move takes a download closer to its end**, if silences last or there are none. -/
theorem Moves.closer {heard : Heard} {r : Turn Download} (hm : Moves d t o x heard r x')
    (hlacks : d.session.partsWritten < t.parts) (hpast : d.lastActivity ≤ x.time.now)
    (hbeat : 0 < t.beat o ∨ d.Hearing x) :
    r.All (fun d' => d'.ahead t o x' < d.ahead t o x) (fun _ => True) (fun _ _ => True) := by
  have hidle : ∀ n, t.idleTurns o - n ≤ t.idleTurns o := fun n => Nat.sub_le _ _
  cases hm with
  | accepts hparts hleft =>
    refine mul_add_lt ?_ (hidle _)
    simp only [hparts, hleft]
    split <;> split <;> omega
  | recovers hparts hleft hfresh =>
    refine mul_add_lt ?_ (hidle _)
    simp only [hparts, ← hleft, hfresh, Nat.lt_irrefl, ↓reduceIte]
    omega
  | answers hs hdue hfresh =>
    refine mul_add_lt ?_ (hidle _)
    simp only [hs, hdue, hfresh, Nat.lt_irrefl, ↓reduceIte]
    omega
  | rests hs hsince hlast hvain hpause hrest =>
    -- The silence was a whole beat, and not yet too long.
    replace hbeat := hbeat.resolve_right hvain
    have hstep : (x.time.now - d.lastActivity) / t.beat o + 1
        ≤ (x'.time.now - d.lastActivity) / t.beat o := by
      rw [← Nat.add_div_right _ hbeat]
      exact Nat.div_le_div_right (by omega)
    have hlimit : (x'.time.now - d.lastActivity) / t.beat o < t.idleTurns o :=
      Nat.lt_succ_of_le (Nat.div_le_div_right (Nat.le_of_lt hrest))
    simp only [Turn.All, ahead, hs, hsince, hlast]
    omega
  | tires | ends => trivial

/-- **A download that listens** to a log with these options, with an open reader in order, where every
call is granted. -/
structure Attends (d : Download) (t : DownloadTask) (o : LogOptions) (x : Exchange) : Prop where
  task : d.task = t
  grants : x.Grants
  options : x.log.options = o
  past : d.lastActivity ≤ x.time.now
  reader : d.reader.Sound
  isOpen : d.reader.closed = false

namespace Attends

variable {heard : Heard} {s : Subscription} {x₁ : Exchange} {r : Turn Download}

/-- What is heard is heard where every call is granted. -/
theorem listens (h : d.Attends t o x) : x.Listens d.reader d.task.config.readTimeoutMs.toNat
    (d.listen x).1 (d.listen x).2.1 (d.listen x).2.2 :=
  (Exchange.hear_hears h.reader.cursor h.isOpen).listens h.grants h.reader.doubled

/-- A download listens when it has heard something. -/
theorem listened (h : d.Attends t o x)
    (hh : x.Hears d.reader d.task.config.readTimeoutMs.toNat heard s x₁) :
    Attends { d with reader := s } t o x₁ := by
  obtain ⟨hnow, -, hoptions⟩ := hh.passes
  exact ⟨h.task, h.grants.of_rules hh.rules, hoptions.trans h.options, Nat.le_trans h.past hnow,
    hh.sound h.reader, hh.closed.trans h.isOpen⟩

/-- **A download that acts and goes on listens still.** -/
theorem acts (h : d.Attends t o x) (ha : Acts d x heard r x') :
    r.All (fun d' => d'.Attends t o x') (fun _ => True) (fun _ _ => True) := by
  have hgrants := h.grants.of_rules ha.beside.rules
  have hoptions := ha.beside.options.trans h.options
  have hnow : x.time.now ≤ x'.time.now := Nat.le_of_eq ha.beside.now.symm
  cases ha with
  | rests => exact h
  | passes | answers | accepts => exact ⟨h.task, hgrants, hoptions, hnow, h.reader, h.isOpen⟩
  | @recovers _ _ p =>
    exact ⟨h.task, hgrants, hoptions, hnow, .fresh _ p, rfl⟩
  | breaksOff | tires | cannotWrite | outgrows | stranded | cannotResume | givesUp => trivial

/-- **Every turn takes a download that listens closer to its end**, if silences last or there are
none. -/
theorem turn (h : d.Attends t o x) (hbeat : 0 < t.beat o ∨ d.Hearing x) :
    (d.turn x).1.All
      (fun d' => d'.Attends t o (d.turn x).2 ∧ d'.ahead t o (d.turn x).2 < d.ahead t o x)
      (fun _ => True) (fun _ _ => True) := by
  obtain ⟨-, hturn⟩ | ⟨d', x', hturn⟩ | ⟨hcomplete, ha⟩ := d.turn_cases x
  · rw [hturn]
    trivial
  · rw [hturn]
    trivial
  have hlacks : d.session.partsWritten < t.parts := by
    rw [Session.isComplete, h.task] at hcomplete
    simpa using hcomplete
  have hh : x.Hears d.reader d.task.config.readTimeoutMs.toNat (d.listen x).1 (d.listen x).2.1
    (d.listen x).2.2 := Exchange.hear_hears h.reader.cursor h.isOpen
  have hmoves := ha.moves (h.grants.of_rules hh.rules) h.listens hcomplete h.task h.options
  exact (((h.listened hh).acts ha).and (hmoves.closer hlacks h.past hbeat)).imp (fun _ h => h)
    (fun _ _ => trivial) fun _ _ _ => trivial

/-- **Where silences last, a download that listens ends.** -/
theorem ends (h : d.Attends t o x) (hbeat : 0 < t.beat o) {n : Nat} (hn : d.ahead t o x < n) :
    (Turn.takeTurns Download.turn n d x).1.All (fun _ => False) (fun _ => True)
      (fun _ _ => True) :=
  Turn.takeTurns_ends (P := fun d x => d.Attends t o x) (μ := fun d x => d.ahead t o x)
    (fun _ _ hd => hd.turn (.inl hbeat)) h hn

end Attends

namespace UnderWay

/-- **Each turn moves a download under way.** -/
theorem moves (h : d.UnderWay t before o x) (ht : t.record.Tiled)
    (hc : d.session.isComplete d.task.parts = false) :
    Moves d t o x (d.listen x).1 (d.turn x).1 (d.turn x).2 := by
  obtain ⟨as, hin⟩ := h.inStep
  have ha := turn_acts_listen (x := x) hc fun m _ =>
    Session.checkPart_ne_none (hin.holds.task ▸ ht) m
  have hh : x.Hears d.reader d.task.config.readTimeoutMs.toNat (d.listen x).1 (d.listen x).2.1
    (d.listen x).2.2 := Exchange.hear_hears hin.one_le_cursor hin.isOpen
  exact ha.moves (Exchange.grants_of_rules_nil (hh.later h.rules).rules)
    (hh.listens (Exchange.grants_of_rules_nil h.rules) hin.doubled) hc hin.holds.task h.options

/-- **A download that goes on stays under way.** -/
theorem stays (h : d.UnderWay t before o x) (ht : t.record.Tiled) :
    (d.turn x).1.All (fun d' => d'.UnderWay t before o (d.turn x).2) (fun _ => True)
      (fun _ _ => True) := by
  obtain ⟨as, hin⟩ := h.inStep
  have hx : x.Honest := fun r hr => by simp [h.rules] at hr
  rcases hcomplete : d.session.isComplete d.task.parts
  swap
  · rw [turn_of_complete hcomplete]
    trivial
  have hintact := hin.turn ht hx
  have hlater := hin.turn_later ht h.rules
  have hmoves := h.moves ht hcomplete
  have hpast := h.past
  generalize (d.listen x).1 = heard at hmoves
  generalize (d.turn x).1 = r at hmoves hintact ⊢
  generalize (d.turn x).2 = x₂ at hmoves hintact hlater ⊢
  have hstays : ∀ {d' : Download}, Intact t before (.on d') x₂.log →
      d'.lastActivity ≤ x₂.time.now → d'.UnderWay t before o x₂ := fun hi hp =>
    ⟨hi, hlater.rules, hlater.options.trans h.options, hp⟩
  cases hmoves with
  | accepts _ _ hnow | recovers _ _ _ hnow | answers _ _ _ hnow =>
    exact hstays hintact (Nat.le_of_eq hnow)
  | rests _ _ hlast => exact hstays hintact (hlast ▸ Nat.le_trans hpast hlater.now)
  | tires | ends => trivial

/-- A download under way listens. -/
theorem attends (h : d.UnderWay t before o x) : d.Attends t o x := by
  obtain ⟨as, hin⟩ := h.inStep
  exact ⟨hin.holds.task, Exchange.grants_of_rules_nil h.rules, h.options, h.past,
    ⟨hin.one_le_cursor, hin.doubled⟩, hin.isOpen⟩

/-- **Every turn takes a download closer to its end**, if silences last or there are none. -/
theorem turn (h : d.UnderWay t before o x) (ht : t.record.Tiled)
    (hbeat : 0 < t.beat o ∨ d.Hearing x) :
    (d.turn x).1.All
      (fun d' => d'.UnderWay t before o (d.turn x).2 ∧ d'.ahead t o (d.turn x).2 < d.ahead t o x)
      (fun _ => True) (fun _ _ => True) :=
  ((h.stays ht).and (h.attends.turn hbeat)).imp (fun _ h => ⟨h.1, h.2.2⟩) (fun _ _ => trivial)
    fun _ _ _ => trivial

end UnderWay

/-- A download that has begun is under way. -/
theorem underWay_of (t : DownloadTask) (sink : Sink) (hr : x.interference.rules = []) :
    (Download.of t sink (.fresh t.subject t.origin) x.time.now).UnderWay t sink.written
      x.log.options x :=
  ⟨⟨[], inStep_of t sink _ _⟩, hr, rfl, Nat.le_refl _⟩

theorem ahead_of_lt_patience (t : DownloadTask) (sink : Sink) (x : Exchange) :
    (Download.of t sink (.fresh t.subject t.origin) x.time.now).ahead t x.log.options x
      < t.patience x := by
  have hcount : 2 * (t.parts - 0 + t.config.retryBudget.toNat) + 0
      < 2 * (t.parts + t.config.retryBudget.toNat + 1) + x.interference.rules.length + 1 := by
    omega
  have hlt := mul_add_lt (i := 0) hcount
    (Nat.sub_le (t.idleTurns x.log.options) ((x.time.now - x.time.now) / t.beat x.log.options))
  exact Nat.lt_of_lt_of_le hlt (Nat.le_trans (Nat.le_add_right _ _) (Nat.le_add_right _ _))

/-- **What turns keep, and what the last one leaves**, say what a download comes to before its
patience ends: it finishes, or it was broken off. -/
theorem complete_all {P D : Download → Exchange → Prop} {B : Download → Failure → Exchange → Prop}
    (step : ∀ d x, P d x → (d.turn x).1.All (P · (d.turn x).2) (D · (d.turn x).2)
      (B · · (d.turn x).2))
    (ht : t.record.Tiled) (sink : Sink) (hr : x.interference.rules = [])
    (hbeat : 0 < t.beat x.log.options ∨ ∀ d x, P d x → d.Hearing x)
    (h : P (Download.of t sink (.fresh t.subject t.origin) x.time.now) x) :
    (∃ d x', D d x' ∧ (Download.of t sink (.fresh t.subject t.origin) x.time.now).complete x
        = d.finish x') ∨
      ∃ d why x', B d why x' ∧
        (Download.of t sink (.fresh t.subject t.origin) x.time.now).complete x
          = (.error why, d, x') := by
  have hends := Turn.takeTurns_ends
    (P := fun d x' => d.UnderWay t sink.written x.log.options x' ∧ P d x')
    (μ := fun d x' => d.ahead t x.log.options x')
    (fun d x' ⟨hway, hp⟩ => by
      have hturn := (hway.turn ht (hbeat.imp_right fun hh => hh d x' hp)).and (step d x' hp)
      exact hturn.imp (fun _ ⟨⟨hway, hlt⟩, hp⟩ => ⟨⟨hway, hp⟩, hlt⟩) (fun _ _ => trivial)
        fun _ _ _ => trivial)
    ⟨underWay_of t sink hr, h⟩ (ahead_of_lt_patience t sink x)
  have hall := Turn.takeTurns_all step (t.patience x) h
  unfold complete
  split
  all_goals
    rename_i he
    rw [show (Download.of t sink _ x.time.now).task = t from rfl] at he
    rw [he] at hends hall
  · exact hends.elim
  · exact .inr ⟨_, _, _, hall, rfl⟩
  · exact .inl ⟨_, _, hall, rfl⟩

/-- A download with a reliable sink finishes with a report. -/
theorem finish_of_reliable (h : d.sink.Reliable) (x : Exchange) :
    ∃ d' x', Closed d d' ∧ d.finish x = (.ok d'.report, d', x') := by
  obtain ⟨e, hflush, -⟩ | ⟨-, hfst⟩ := d.finish_fst x
  · simp [h.flush] at hflush
  · refine ⟨(d.finish x).2.1, (d.finish x).2.2, (d.finish_closed x).1, ?_⟩
    rw [← hfst]

/-- A download whose reader was opened comes to what it comes to once it has begun. -/
theorem run_eq {config : Config} {record : FileRecord} {sink : Sink} {reader : Subscription}
    (h : DownloadTask.of config record = .ok t)
    (hs : x.subscribe t.subject t.origin = (.ok reader, x')) :
    run config record sink x =
      match (Download.of t sink reader x'.time.now).complete x' with
      | (.error why, d, x) => (failed record.id why d.events d.sink, x)
      | (.ok report, d, x) => (⟨.ok report, d.events, d.sink⟩, x) := by
  rcases hc : (Download.of t sink reader x'.time.now).complete x' with ⟨why | report, d, y⟩
  · simp only [run, h, hs, hc]
  · simp only [run, h, hs, hc]

/-- The result of a download whose reader was opened. -/
theorem run_result {config : Config} {record : FileRecord} {sink : Sink} {reader : Subscription}
    (h : DownloadTask.of config record = .ok t)
    (hs : x.subscribe t.subject t.origin = (.ok reader, x')) :
    (run config record sink x).1.result
      = ((Download.of t sink reader x'.time.now).complete x').1 := by
  rw [run_eq h hs]
  rcases (Download.of t sink reader x'.time.now).complete x' with ⟨why | report, d, y⟩ <;> rfl

/-- **A download where no rule interferes** comes to what it comes to once it has begun. -/
theorem run_eq_complete {config : Config} {record : FileRecord} (sink : Sink)
    (h : DownloadTask.of config record = .ok t) (hr : x.interference.rules = []) :
    ∃ x', x.subscribe t.subject t.origin = (.ok (.fresh t.subject t.origin), x') ∧ x.Beside x' ∧
      (run config record sink x).1.result
        = ((Download.of t sink (.fresh t.subject t.origin) x'.time.now).complete x').1 ∧
      (run config record sink x).1.sink.written
        = ((Download.of t sink (.fresh t.subject t.origin) x'.time.now).complete
            x').2.1.sink.written := by
  obtain ⟨x', hs⟩ := (Exchange.grants_of_rules_nil hr).subscribe_eq t.subject t.origin
  have hb := x.subscribe_beside t.subject t.origin
  rw [hs] at hb
  refine ⟨x', hs, hb, ?_⟩
  rw [run_eq h hs]
  split
  all_goals rename_i hc; rw [hc]; exact ⟨rfl, rfl⟩

end Download

end FileRelay
