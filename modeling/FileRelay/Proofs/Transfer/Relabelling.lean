import FileRelay.Proofs.Log.Relabelling
import FileRelay.Proofs.Digest.Streaming
import FileRelay.Proofs.Transfer.Accepted
import FileRelay.Proofs.Transfer.OneTurn

/-!
# Proofs/Transfer/Relabelling — a download looks at headers only where it checks a part

Let everything in an exchange that carries headers get other ones (`Exchange.relabel`), such that no
check of a part tells the difference.  Then a download makes the same calls, takes the same turns and
writes the same octets (`Download.relabel_complete`): every operation of an exchange and every part of
a turn commutes with the relabelling.  The record may change too, as far as the spelling of its digest
algorithm goes (`DownloadTask.respelled`), which only the last comparison looks at.
-/

namespace FileRelay

/-! ## Calls -/

section Exchange

variable (f : Headers → Headers)

/-- A meeting with a delivery with other headers. -/
def Meeting.relabel : Meeting → Meeting
  | .refusal e => .refusal e
  | .delivery d => .delivery (d.relabel f)
  | .callOff => .callOff
  | .resize path length => .resize path length

/-- Rules for meetings with other headers. -/
def Interference.relabel (i : Interference) : Interference :=
  { i with rules := i.rules.map fun r => { r with meeting := r.meeting.relabel f } }

/-- What is heard, with other headers. -/
def Heard.relabel : Heard → Heard
  | .data d => .data (d.relabel f)
  | .flowControl replyTo => .flowControl replyTo
  | .nothing => .nothing
  | .calledOff => .calledOff
  | .broken e => .broken e

/-- **An exchange with other headers.** -/
def Exchange.relabel (x : Exchange) : Exchange :=
  { x with time := x.time.relabel f, interference := x.interference.relabel f }

variable {f}

theorem Interference.relabel_meet (i : Interference) (c : Call) :
    (i.relabel f).meet c = ((i.meet c).1.map (Meeting.relabel f), (i.meet c).2.relabel f) := by
  have hcalls : (i.relabel f).calls = i.calls := rfl
  refine Prod.ext ?_ rfl
  simp only [meet, relabel, List.find?_map, Option.map_map]
  rfl

theorem Heard.relabel_ofDelivery (d : Delivery) :
    Heard.ofDelivery (d.relabel f) = (Heard.ofDelivery d).relabel f := by
  have hkind : (d.relabel f).kind = d.kind := rfl
  unfold ofDelivery
  rw [hkind]
  split <;> rfl

namespace Exchange

theorem relabel_meet (x : Exchange) (c : Call) :
    (x.relabel f).meet c = ((x.meet c).1.map (Meeting.relabel f), (x.meet c).2.relabel f) := by
  have hmeet : (x.relabel f).interference.meet c = _ := x.interference.relabel_meet c
  unfold meet
  rw [hmeet]
  rcases x.interference.meet c with ⟨_ | _ | _ | _ | _, i⟩ <;> rfl

/-- **A call comes to the same**, relabelled, if what it does comes to the same. -/
theorem relabel_attempt {α : Type} {g : Except DeliveryError α → Except DeliveryError α}
    (hg : ∀ e, g (.error e) = .error e) {c : Call}
    {a b : Exchange → Except DeliveryError α × Exchange}
    (hab : ∀ x, b (x.relabel f) = (g (a x).1, (a x).2.relabel f)) (x : Exchange) :
    attempt c b (x.relabel f) = (g (attempt c a x).1, (attempt c a x).2.relabel f) := by
  unfold attempt
  rw [relabel_meet]
  rcases x.meet c with ⟨_ | e | _ | _ | _, y⟩
  · exact hab y
  · exact Prod.ext (hg e).symm rfl
  all_goals exact hab y

theorem relabel_subscribe (x : Exchange) (subject : String) (position : Position) :
    (x.relabel f).subscribe subject position
      = ((x.subscribe subject position).1.map (Subscription.relabel f),
        (x.subscribe subject position).2.relabel f) :=
  relabel_attempt (fun _ => rfl) (fun _ => rfl) x

theorem relabel_reply (x : Exchange) (address : Address) :
    (x.relabel f).reply address = ((x.reply address).1, (x.reply address).2.relabel f) :=
  relabel_attempt (g := id) (a := fun y => (.ok (), y.withLog (y.log.reply address)))
    (b := fun y => (.ok (), y.withLog (y.log.reply address))) (fun _ => rfl)
    (fun y => Prod.ext rfl (congrArg (y.relabel f).withLog (y.log.relabel_reply address))) x

theorem relabel_noted (x : Exchange) (o : Except Unit Log) :
    (x.relabel f).noted (o.map (Log.relabel f)) = ((x.noted o).1, (x.noted o).2.relabel f) := by
  cases o <;> rfl

theorem relabel_ack (x : Exchange) (s : Subscription) (d : Delivery) :
    (x.relabel f).ack (s.relabel f) (d.relabel f) = ((x.ack s d).1, (x.ack s d).2.relabel f) :=
  relabel_attempt (g := id) (fun _ => rfl)
    (fun y => (congrArg (y.relabel f).noted (s.relabel_ack d y.log)).trans (y.relabel_noted _)) x

theorem relabel_term (x : Exchange) (s : Subscription) (d : Delivery) :
    (x.relabel f).term (s.relabel f) (d.relabel f) = ((x.term s d).1, (x.term s d).2.relabel f) :=
  relabel_attempt (g := id) (fun _ => rfl)
    (fun y => (congrArg (y.relabel f).noted (s.relabel_term d y.log)).trans (y.relabel_noted _)) x

theorem relabel_unsubscribe (x : Exchange) (s : Subscription) :
    (x.relabel f).unsubscribe (s.relabel f)
      = ((x.unsubscribe s).1.relabel f, (x.unsubscribe s).2.relabel f) := by
  have hclosed : ∀ y : Exchange,
      (((s.relabel f).unsubscribe (y.relabel f).log).1,
        (y.relabel f).withLog ((s.relabel f).unsubscribe (y.relabel f).log).2)
      = ((s.unsubscribe y.log).1.relabel f, (y.withLog (s.unsubscribe y.log).2).relabel f) :=
    fun y => congrArg (fun r => (r.1, (y.relabel f).withLog r.2)) (s.relabel_unsubscribe y.log)
  unfold unsubscribe
  rw [relabel_meet]
  rcases x.meet .unsubscribe with ⟨_ | e | _ | _ | _, y⟩
  · exact hclosed y
  · rfl
  all_goals exact hclosed y

theorem relabel_ofWaited (w : Timeline.Waited) :
    Heard.ofWaited (w.relabel f) = (Heard.ofWaited w).relabel f := by
  cases w with
  | delivery d => exact Heard.relabel_ofDelivery d
  | timeout | calledOff | closed => rfl

/-- **What a reader hears is the same**, relabelled. -/
theorem relabel_hear (hf : f KeyMap.empty = KeyMap.empty) (x : Exchange) (s : Subscription)
    (timeout : Nat) :
    (x.relabel f).hear (s.relabel f) timeout = ((x.hear s timeout).1.relabel f,
      (x.hear s timeout).2.1.relabel f, (x.hear s timeout).2.2.relabel f) := by
  have hoff : (x.relabel f).time.calledOff = x.time.calledOff := rfl
  have hnext : ∀ y : Exchange,
      (Heard.ofWaited ((y.relabel f).time.next (s.relabel f) timeout).1,
        ((y.relabel f).time.next (s.relabel f) timeout).2.1,
        { y.relabel f with time := ((y.relabel f).time.next (s.relabel f) timeout).2.2 })
      = ((Heard.ofWaited (y.time.next s timeout).1).relabel f,
        (y.time.next s timeout).2.1.relabel f,
        { y with time := (y.time.next s timeout).2.2 }.relabel f) := fun y => by
    have htime : (y.relabel f).time = y.time.relabel f := rfl
    rw [htime, Timeline.relabel_next hf]
    exact Prod.ext (relabel_ofWaited _) rfl
  unfold hear
  rw [hoff, relabel_meet]
  split
  · rfl
  rcases x.meet .next with ⟨_ | e | d | _ | _, y⟩
  · exact hnext y
  · refine Prod.ext ?_ rfl
    dsimp only [Option.map_some, Meeting.relabel]
    split <;> rfl
  · exact Prod.ext (Heard.relabel_ofDelivery d) rfl
  all_goals exact hnext y

end Exchange

end Exchange

/-! ## Turns -/

/-- What a turn comes to, with another state. -/
def Turn.map {σ τ : Type} (g : σ → τ) : Turn σ → Turn τ
  | .on s => .on (g s)
  | .done s => .done (g s)
  | .broken s why => .broken (g s) why

/-- **Turns that come to the same come to the same in a row.** -/
theorem Turn.takeTurns_map {σ ξ : Type} {turn : σ → ξ → Turn σ × ξ} {g : σ → σ} {k : ξ → ξ}
    (step : ∀ s x, turn (g s) (k x) = ((turn s x).1.map g, k (turn s x).2)) (n : Nat) (s : σ)
    (x : ξ) :
    takeTurns turn n (g s) (k x)
      = ((takeTurns turn n s x).1.map g, k (takeTurns turn n s x).2) := by
  induction n generalizing s x with
  | zero => rfl
  | succ n ih =>
    rw [takeTurns, takeTurns, step]
    rcases turn s x with ⟨s' | s' | ⟨s', why⟩, y⟩
    · exact ih s' y
    · rfl
    · rfl

/-- **Headers that no check of a part tells from others.** -/
structure Headers.Blind (f : Headers → Headers) : Prop where
  empty : f KeyMap.empty = KeyMap.empty
  check : ∀ (s : Session) (r : FileRecord) (d : Delivery),
    s.checkPart r (d.relabel f) = s.checkPart r d

/-- A record with another spelling of its digest algorithm. -/
def FileRecord.respelled (r : FileRecord) (spelling : String) : FileRecord :=
  { r with digestAlgorithm := some spelling }

theorem FileRecord.digest?_respelled {r : FileRecord} {e : Digest.Entry} (h : r.digest? = some e)
    (spelling : String) : (r.respelled spelling).digest? = some { e with algorithm := spelling } := by
  obtain ⟨_, _, _, _, _, _, _, _, _, algorithm, value, _⟩ := r
  rcases algorithm with _ | s <;> rcases value with _ | v
  · cases h
  · cases h
  · cases h
  · obtain rfl := Option.some.inj h
    rfl

/-- A task with another spelling of the digest algorithm on record. -/
def DownloadTask.respelled (t : DownloadTask) (spelling : String) : DownloadTask :=
  { t with
    record := t.record.respelled spelling
    expected := { t.expected with algorithm := spelling } }

namespace Download

/-- **A download with other headers**, and with another spelling of the digest algorithm on record. -/
def relabel (f : Headers → Headers) (spelling : String) (d : Download) : Download :=
  { d with task := d.task.respelled spelling, reader := d.reader.relabel f }

/-- What a turn leaves, relabelled. -/
def relabelTurn (f : Headers → Headers) (spelling : String) (r : Turn Download × Exchange) :
    Turn Download × Exchange :=
  (r.1.map (relabel f spelling), r.2.relabel f)

variable {f : Headers → Headers} (spelling : String) (d : Download) (x : Exchange)

theorem relabel_close :
    (d.relabel f spelling).close (x.relabel f)
      = ((d.close x).1.relabel f spelling, (d.close x).2.relabel f) := by
  have hclose := x.relabel_unsubscribe (f := f) d.reader
  exact congrArg (fun r => ({ d.relabel f spelling with reader := r.1 }, r.2)) hclose

theorem relabel_breakOff (why : Failure) :
    (d.relabel f spelling).breakOff why (x.relabel f)
      = relabelTurn f spelling (d.breakOff why x) :=
  congrArg (fun r : Download × Exchange =>
    (Turn.broken { r.1 with session := r.1.session.fail } why, r.2)) (relabel_close spelling d x)

theorem relabel_rest :
    (d.relabel f spelling).rest (x.relabel f) = relabelTurn f spelling (d.rest x) := by
  unfold rest
  rw [apply_ite (relabelTurn f spelling)]
  rfl

theorem relabel_answer (replyTo : Option Address) :
    (d.relabel f spelling).answer replyTo (x.relabel f)
      = relabelTurn f spelling (d.answer replyTo x) := by
  rcases replyTo with _ | address
  · rfl
  unfold answer
  dsimp only
  rw [x.relabel_reply]
  rcases x.reply address with ⟨e | _, y⟩
  · exact relabel_breakOff spelling d y (.delivery e)
  · rfl

theorem relabel_acknowledge (m : Delivery) :
    (d.relabel f spelling).acknowledge (m.relabel f) (x.relabel f)
      = (d.acknowledge m x).relabel f := by
  have hpolicy : (d.relabel f spelling).task.config.ackPolicy = d.task.config.ackPolicy := rfl
  unfold acknowledge
  rw [hpolicy]
  split
  · exact congrArg Prod.snd (x.relabel_ack d.reader m)
  · rfl

theorem relabel_accept (m : Delivery) (data : Bytes) :
    (d.relabel f spelling).accept (m.relabel f) data (x.relabel f)
      = relabelTurn f spelling (d.accept m data x) := by
  have hsink : (d.relabel f spelling).sink = d.sink := rfl
  have hsession : (d.relabel f spelling).session = d.session := rfl
  have hsequence : (m.relabel f).sequence = m.sequence := rfl
  unfold accept
  rw [hsink, hsession, hsequence]
  rcases d.sink.writeAll data with ⟨e | _, sink⟩
  · exact relabel_breakOff spelling { d with sink } x (.io e)
  dsimp only
  rcases d.session.accept? m.sequence data.length with _ | session
  · rfl
  · exact Prod.ext rfl (relabel_acknowledge spelling
      { d with sink, session, digester := d.digester.absorb data } x m)

theorem relabel_giveUp :
    (d.relabel f spelling).giveUp (x.relabel f) = relabelTurn f spelling (d.giveUp x) := by
  have hsink : (d.relabel f spelling).sink = d.sink := rfl
  unfold giveUp
  rw [hsink]
  rcases d.sink.flush with ⟨e | _, sink⟩ <;> rfl

theorem relabel_resume (reason : Anomaly) (p : Position) :
    (d.relabel f spelling).resume reason p (x.relabel f)
      = relabelTurn f spelling (d.resume reason p x) := by
  have hsubject : (d.relabel f spelling).task.subject = d.task.subject := rfl
  unfold resume
  dsimp only [tell]
  rw [hsubject, x.relabel_subscribe]
  rcases x.subscribe d.task.subject p with ⟨e | reader, y⟩ <;> rfl

theorem relabel_recover (m : Delivery) (reason : Anomaly) :
    (d.relabel f spelling).recover (m.relabel f) reason (x.relabel f)
      = relabelTurn f spelling (d.recover m reason x) := by
  have hreader : (d.relabel f spelling).reader = d.reader.relabel f := rfl
  unfold recover
  rw [hreader, x.relabel_term]
  dsimp only
  rw [relabel_close]
  rcases d.close (x.term d.reader m).2 with ⟨d₁, y⟩
  have hsession : (d₁.relabel f spelling).session = d₁.session := rfl
  dsimp only
  rw [hsession]
  rcases d₁.session.recover? with _ | ⟨_ | p, session⟩
  · rfl
  · exact relabel_giveUp spelling { d₁ with session } y
  · exact relabel_resume spelling { d₁ with session } y reason p

theorem relabel_take (hf : Headers.Blind f) (m : Delivery) :
    (d.relabel f spelling).take (m.relabel f) (x.relabel f)
      = relabelTurn f spelling (d.take m x) := by
  have hcheck : (d.relabel f spelling).session.checkPart (d.relabel f spelling).task.record
      (m.relabel f) = d.session.checkPart d.task.record m := hf.check d.session d.task.record m
  unfold take
  rw [hcheck]
  rcases d.session.checkPart d.task.record m with _ | reason | data
  · rfl
  · exact relabel_recover spelling d x m reason
  · exact relabel_accept spelling d x m data

/-- **A turn comes to the same**, relabelled. -/
theorem relabel_turn (hf : Headers.Blind f) :
    (d.relabel f spelling).turn (x.relabel f) = relabelTurn f spelling (d.turn x) := by
  have hcomplete : (d.relabel f spelling).session.isComplete (d.relabel f spelling).task.parts
      = d.session.isComplete d.task.parts := rfl
  have hhear : (x.relabel f).hear (d.relabel f spelling).reader
      (d.relabel f spelling).task.config.readTimeoutMs.toNat = _ :=
    x.relabel_hear hf.empty d.reader d.task.config.readTimeoutMs.toNat
  unfold turn
  rw [hcomplete, hhear]
  split
  · rfl
  rcases x.hear d.reader d.task.config.readTimeoutMs.toNat with ⟨h, s, y⟩
  cases h with
  | calledOff => exact relabel_breakOff spelling { d with reader := s } y .cancelled
  | broken e => exact relabel_breakOff spelling { d with reader := s } y (.delivery e)
  | nothing => exact relabel_rest spelling { d with reader := s } y
  | flowControl replyTo =>
    exact relabel_answer spelling { d with reader := s, lastActivity := y.time.now } y replyTo
  | data m =>
    exact relabel_take spelling { d with reader := s, lastActivity := y.time.now } y hf m

end Download

/-! ## The end -/

namespace DownloadReport

/-- The comparison of a report with a record of so many parts and this digest. -/
def verdict (report : DownloadReport) (parts : Nat) (expected : Digest.Entry) : Verification :=
  if report.partsWritten < parts then .incomplete parts report.partsWritten
  else if report.digest.agrees expected then .verified
  else .digestMismatch expected.value report.digest.value

/-- **A report held to another digest on record**: only the comparison is made again. -/
def judgedBy (report : DownloadReport) (parts : Nat) (expected : Digest.Entry) : DownloadReport :=
  { report with verification := report.verdict parts expected }

end DownloadReport

namespace Download

variable {f : Headers → Headers} (spelling : String) (d : Download) (x : Exchange)

theorem verification_eq_verdict (d : Download) :
    d.verification = d.report.verdict d.task.parts d.task.expected := by
  have hwritten : d.report.partsWritten = d.session.partsWritten := rfl
  have hdigest : d.report.digest = d.digest := rfl
  unfold verification DownloadReport.verdict Session.isComplete
  rw [hwritten, hdigest]
  by_cases hlt : d.session.partsWritten < d.task.parts
  · simp [hlt]
  · simp [hlt, Nat.not_lt.1 hlt]

/-- **A report is held to the digest on record.** -/
theorem report_eq_judgedBy (d : Download) :
    d.report = d.report.judgedBy d.task.parts d.task.expected :=
  congrArg (fun v => { d.report with verification := v }) d.verification_eq_verdict

theorem relabel_report : (d.relabel f spelling).report
    = d.report.judgedBy d.task.parts { d.task.expected with algorithm := spelling } :=
  (d.relabel f spelling).report_eq_judgedBy

/-- What a download comes to, relabelled. -/
def relabelEnd (f : Headers → Headers) (spelling : String) (t : DownloadTask)
    (r : Except Failure DownloadReport × Download × Exchange) :
    Except Failure DownloadReport × Download × Exchange :=
  (r.1.map fun report => report.judgedBy t.parts { t.expected with algorithm := spelling },
    r.2.1.relabel f spelling, r.2.2.relabel f)

theorem relabel_finish : (d.relabel f spelling).finish (x.relabel f)
    = relabelEnd f spelling d.task (d.finish x) := by
  have htask : (d.close x).1.task = d.task := rfl
  unfold finish
  rw [relabel_close]
  generalize d.close x = r at htask ⊢
  obtain ⟨d₁, y⟩ := r
  have hsink : (d₁.relabel f spelling).sink = d₁.sink := rfl
  dsimp only at htask ⊢
  rw [hsink, ← htask]
  rcases d₁.sink.flush with ⟨e | _, sink⟩
  · rfl
  · have hreport := relabel_report (f := f) spelling
      { d₁ with sink, session := d₁.session.finish }
    exact Prod.ext (congrArg Except.ok hreport) rfl

/-- A turn that goes on leaves the task as it is. -/
theorem turn_task : (d.turn x).1.All (·.task = d.task) (·.task = d.task) (fun _ _ => True) := by
  obtain ⟨-, hturn⟩ | ⟨d', x', hturn⟩ | ⟨-, ha⟩ := d.turn_cases x
  · rw [hturn]
    exact rfl
  · rw [hturn]
    trivial
  · generalize (d.listen x).1 = s at ha
    generalize (d.turn x).1 = r at ha ⊢
    generalize (d.turn x).2 = x' at ha
    cases ha <;> first | rfl | trivial

theorem relabel_patience (t : DownloadTask) :
    (t.respelled spelling).patience (x.relabel f) = t.patience x := by
  have hrules : (x.relabel f).interference.rules.length = x.interference.rules.length :=
    List.length_map ..
  unfold DownloadTask.patience
  rw [hrules]
  rfl

/-- **A download comes to the same**, relabelled, but for the comparison with the record. -/
theorem relabel_complete (hf : Headers.Blind f) : (d.relabel f spelling).complete (x.relabel f)
    = relabelEnd f spelling d.task (d.complete x) := by
  have hturns : Turn.takeTurns turn (d.task.patience x) (d.relabel f spelling) (x.relabel f) = _ :=
    Turn.takeTurns_map (fun d x => relabel_turn spelling d x hf) (d.task.patience x) d x
  have htask : (Turn.takeTurns turn (d.task.patience x) d x).1.All (·.task = d.task)
      (·.task = d.task) (fun _ _ => True) :=
    Turn.takeTurns_all (P := fun (s : Download) (_ : Exchange) => s.task = d.task)
      (D := fun s _ => s.task = d.task) (B := fun _ _ _ => True)
      (fun s y hs => hs ▸ turn_task s y) _ rfl
  unfold complete
  have hpatience : (d.relabel f spelling).task.patience (x.relabel f) = d.task.patience x :=
    relabel_patience spelling x d.task
  rw [hpatience, hturns]
  generalize Turn.takeTurns turn (d.task.patience x) d x = r at htask ⊢
  obtain ⟨d₁ | d₁ | ⟨d₁, why⟩, y⟩ := r
  · rfl
  · rw [← show d₁.task = d.task from htask]
    exact relabel_finish spelling d₁ y
  · rfl

variable {record : FileRecord} {a : Digest.Algorithm} {s v : String} {spelling}

/-- Another spelling of the same algorithm gives the same task, respelled. -/
theorem of_respelled (config : Config) (hd : record.digest? = some ⟨s, v⟩)
    (hs : Digest.Algorithm.parse? s = some a)
    (hspelling : Digest.Algorithm.parse? spelling = some a) :
    DownloadTask.of config (record.respelled spelling)
      = (DownloadTask.of config record).map (·.respelled spelling) := by
  unfold DownloadTask.of
  rw [hd, FileRecord.digest?_respelled hd]
  dsimp only
  rw [hs, hspelling]
  cases config.validate <;> rfl

/-- **A run comes to the same**, relabelled, but for the comparison with the record. -/
theorem run_relabel (config : Config) (sink : Sink) (x : Exchange) (hf : Headers.Blind f)
    (hd : record.digest? = some ⟨s, v⟩) (hs : Digest.Algorithm.parse? s = some a)
    (hspelling : Digest.Algorithm.parse? spelling = some a) :
    run config (record.respelled spelling) sink (x.relabel f)
      = ({ (run config record sink x).1 with
          result := (run config record sink x).1.result.map fun report =>
            report.judgedBy record.parts.toNat ⟨spelling, v⟩ },
        (run config record sink x).2.relabel f) := by
  unfold run
  rw [of_respelled config hd hs hspelling]
  rcases ht : DownloadTask.of config record with why | t
  · rfl
  obtain ⟨-, -, hrecord, hexpected, -⟩ := DownloadTask.of_eq_ok_iff.1 ht
  obtain hexpected : ⟨s, v⟩ = t.expected := Option.some.inj (hd.symm.trans hexpected)
  have hsubscribe : (x.relabel f).subscribe (t.respelled spelling).subject
      (t.respelled spelling).origin = _ := x.relabel_subscribe t.subject t.origin
  dsimp only [Except.map]
  rw [hsubscribe]
  rcases x.subscribe t.subject t.origin with ⟨e | reader, y⟩
  · rfl
  have hcomplete : (of (t.respelled spelling) sink (reader.relabel f) (y.relabel f).time.now).complete
      (y.relabel f) = _ := relabel_complete spelling (of t sink reader y.time.now) y hf
  dsimp only [Except.map]
  rw [hcomplete]
  have htask : (of t sink reader y.time.now).task = t := rfl
  rw [htask, ← hrecord]
  rcases (of t sink reader y.time.now).complete y with ⟨why | report, d, z⟩
  · rfl
  · rw [relabelEnd, ← hexpected]
    rfl

end Download

end FileRelay
