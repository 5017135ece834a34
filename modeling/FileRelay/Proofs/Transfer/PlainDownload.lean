import FileRelay.Proofs.Transfer.CalmTurn
import FileRelay.Proofs.Transfer.Ending
import FileRelay.Proofs.Transfer.Plain
import FileRelay.Proofs.Transfer.Schedule

/-!
# Proofs/Transfer/PlainDownload — an undisturbed download does what its specification says

Where others publish punctually, if they do anything, and no fault is armed, a download accepts the
parts that its row begins with in the end.  A message that is not the next part is refused by every
reader that is opened, until the budget is spent; otherwise the download ends with the file, or when
the row has ended (`Alone.turn`).  Hence its outcome is `DownloadTask.plain`.
-/

namespace FileRelay

open Accepted (contents places)

namespace Download

/-! ## The pace of requests -/

/-- **Requests keep pace with deliveries**: one has come after every so many, if any. -/
def Paced (every flowReplies sinceFlow accepted : Nat) : Prop :=
  (every = 0 ∧ flowReplies = 0) ∨
    (0 < every ∧ flowReplies * every + sinceFlow = accepted ∧ sinceFlow ≤ every)

namespace Paced

variable {every flowReplies sinceFlow accepted : Nat}

theorem zero (every : Nat) : Paced every 0 0 0 := by
  unfold Paced
  omega

theorem accept (h : Paced every flowReplies sinceFlow accepted)
    (hdue : ¬ (0 < every ∧ every ≤ sinceFlow)) :
    Paced every flowReplies (sinceFlow + 1) (accepted + 1) := by
  unfold Paced at h ⊢
  omega

theorem request (h : Paced every flowReplies sinceFlow accepted) (hpos : 0 < every)
    (hdue : every ≤ sinceFlow) : Paced every (flowReplies + 1) 0 accepted := by
  rcases h with ⟨h, -⟩ | ⟨-, hcount, hle⟩
  · omega
  · refine .inr ⟨hpos, ?_, Nat.zero_le _⟩
    rw [Nat.succ_mul]
    omega

/-- The requests that have come when none is due. -/
theorem eq_div (h : Paced every flowReplies sinceFlow accepted)
    (hdue : ¬ (0 < every ∧ every ≤ sinceFlow)) : flowReplies = accepted / every := by
  rcases h with ⟨rfl, rfl⟩ | ⟨hpos, rfl, -⟩
  · exact (Nat.div_zero _).symm
  · rw [Nat.mul_comm, Nat.mul_add_div hpos, Nat.div_eq_of_lt (by omega), Nat.add_zero]

/-- The requests that have come right after a delivery. -/
theorem eq_pred_div (h : Paced every flowReplies sinceFlow accepted) (hsince : 0 < sinceFlow) :
    flowReplies = (accepted - 1) / every := by
  rcases h with ⟨rfl, rfl⟩ | ⟨hpos, rfl, hle⟩
  · exact (Nat.div_zero _).symm
  · have hpred : flowReplies * every + sinceFlow - 1 = every * flowReplies + (sinceFlow - 1) := by
      rw [Nat.mul_comm]
      omega
    rw [hpred, Nat.mul_add_div hpos, Nat.div_eq_of_lt (by omega), Nat.add_zero]

/-- So few deliveries bring no request. -/
theorem none_eq (h : Paced every 0 sinceFlow accepted) : 0 = (accepted - 1) / every := by
  rcases h with ⟨rfl, -⟩ | ⟨hpos, hcount, hle⟩
  · exact (Nat.div_zero _).symm
  · exact (Nat.div_eq_of_lt (by omega)).symm

end Paced

/-! ## One turn -/

variable {d : Download} {t : DownloadTask} {before : Bytes} {l : Log} {as : List Accepted}
  {x x₁ x₂ : Exchange} {s : Subscription} {m : Delivery} {timeout : Nat}

/-- **A download that cannot go on**: its row goes on with a message that is not the next part. -/
def Stuck (t : DownloadTask) (row : List (Published × Nat)) (as : List Accepted) : Prop :=
  as.length < t.parts ∧ ∃ e, row[as.length]? = some e ∧
    t.record.contentAt? (as.length + 1) e.1.headers e.1.payload = none

/-- **A download on time**: messages arrive promptly after the last one that it has heard, or one is
there that it has not read yet. -/
def OnTime (d : Download) (t : DownloadTask) (k : Nat) (x : Exchange) : Prop :=
  ∃ p, x.Prompt t p ∧ (p ≤ d.lastActivity ∨ k < (x.log.row t.subject t.origin.first).length)

/-- **A download that reads a log undisturbed**, while others publish: it has accepted some of the
parts that its row will begin with in the end, and reads on behind them.  It has never recovered and
answers requests in time; or it is stuck. -/
structure Alone (d : Download) (t : DownloadTask) (before : Bytes) (l : Log) (as : List Accepted)
    (x : Exchange) : Prop where
  holds : d.Holds t before x.log as []
  subject : d.reader.subject = t.subject
  reads : d.reader.Reads x.log t.record t.origin.first as.length d.session.expecting
  leads : x.Leads l
  onTime : d.OnTime t as.length x
  reliable : d.sink.Reliable
  best : as <+: t.record.partsOf 1 (l.row t.subject t.origin.first)
  goes : (d.session.recoveries = 0 ∧
      Paced (l.options.flowControlEvery.getD 0) d.flowReplies d.reader.sinceFlow as.length ∧
      (0 < d.reader.sinceFlow ∨ as.length < t.parts)) ∨
    Stuck t (l.row t.subject t.origin.first) as

/-- What holds at the end of a download that was undisturbed. -/
structure Done (d : Download) (t : DownloadTask) (before : Bytes) (l : Log) (as : List Accepted)
    (x : Exchange) : Prop where
  holds : d.Holds t before x.log as []
  reliable : d.sink.Reliable
  best : as = t.record.partsOf 1 (l.row t.subject t.origin.first)
  whole : as.length < t.parts → (l.row t.subject t.origin.first).length ≤ as.length
  recoveries : d.session.recoveries = 0
  flowReplies : d.flowReplies = t.requests l.options as.length

/-- What holds of a download that was undisturbed and has spent its budget. -/
structure Spent (d : Download) (t : DownloadTask) (before : Bytes) (l : Log) (as : List Accepted)
    (why : Failure) : Prop where
  written : d.sink.written = before ++ contents as
  best : as = t.record.partsOf 1 (l.row t.subject t.origin.first)
  lacks : as.length < t.parts ∧ as.length < (l.row t.subject t.origin.first).length
  why : why = .tooManyMismatches t.config.retryBudget.toNat as.length (contents as).length

/-- A download that is stuck has accepted all the parts that its row begins with. -/
theorem Stuck.eq_partsOf {row : List (Published × Nat)} (h : Stuck t row as)
    (hbest : as <+: t.record.partsOf 1 row) : as = t.record.partsOf 1 row := by
  obtain ⟨-, e, he, hbad⟩ := h
  refine FileRecord.eq_partsOf hbest fun e' he' => ?_
  obtain rfl : e = e' := Option.some.inj (he.symm.trans he')
  exact hbad

/-- **A message that is refused** stops a download for good. -/
theorem Holds.stuck {row : List (Published × Nat)} (h : d.Holds t before l as [])
    (hlacks : as.length < t.parts) {e : Published × Nat} (he : row[as.length]? = some e)
    (hm : d.Refuses (.ofPublished e.1 e.2 d.session.expecting)) : Stuck t row as := by
  refine ⟨hlacks, e, he, Option.eq_none_iff_forall_ne_some.2 fun content hc => ?_⟩
  refine hm content rfl ?_
  rw [h.task, h.counts.expectedPart, Accepted.length_places]
  exact hc

/-- A download that hears something is on time. -/
theorem OnTime.heard {d' : Download} {k k' : Nat} (h : d.OnTime t k x) (hl : x.Later x₂)
    (hnow : d'.lastActivity = x₂.time.now) : d'.OnTime t k' x₂ := by
  obtain ⟨p, hprompt, -⟩ := h
  obtain ⟨q, hq, -⟩ := hprompt.later hl
  exact ⟨q, hq, .inl (hnow ▸ hq.1)⟩

/-- **A download that has read all that there is** stays on time while nothing arrives. -/
theorem OnTime.silent {k : Nat} (h : d.OnTime t k x) (hl : x.Later x₂)
    (hk : k ≤ (x.log.row t.subject t.origin.first).length)
    (hread : (x₂.log.row t.subject t.origin.first).length = k) :
    ∃ p, x₂.Prompt t p ∧ p ≤ d.lastActivity := by
  obtain ⟨p, hprompt, hp⟩ := h
  have hle := (hl.grown.row t.subject t.origin.first).length_le
  obtain ⟨q, hq, rfl | hlonger⟩ := hprompt.later hl
  · exact ⟨q, hq, hp.resolve_right (by omega)⟩
  · omega

namespace Alone

/-- A download that has all parts is at its end. -/
theorem done (h : d.Alone t before l as x) (ht : t.record.Tiled)
    (hc : t.parts ≤ as.length) : d.Done t before l as x := by
  have hle := (FileRecord.partsOf_parts t.record (l.row t.subject t.origin.first)).length_le ht
  have hbest := h.best.eq_of_length_le (Nat.le_trans hle hc)
  obtain ⟨hnone, hpaced, hsince⟩ := h.goes.resolve_right fun hs => Nat.not_le_of_lt hs.1 hc
  refine ⟨h.holds, h.reliable, hbest, fun hlt => absurd hlt (Nat.not_lt_of_le hc), hnone, ?_⟩
  rw [hpaced.eq_pred_div (hsince.resolve_right (Nat.not_lt_of_le hc)), DownloadTask.requests,
    if_neg (Nat.not_lt_of_le hc)]

/-- What a download has accepted stands in the row that there is. -/
theorem length_le (h : d.Alone t before l as x) :
    as.length ≤ (x.log.row t.subject t.origin.first).length := by
  have hwithin := h.reads.follows.within
  rwa [h.subject] at hwithin

/-- **A silence** leaves a download that has read all that there is. -/
theorem silent (h : d.Alone t before l as x) (hpause : 0 < x.time.pause timeout)
    (hl : x.Listens d.reader timeout .nothing s x₂) :
    s.subject = t.subject ∧ s.sinceFlow = d.reader.sinceFlow ∧
      s.Reads x₂.log t.record t.origin.first as.length d.session.expecting ∧
      (x₂.log.row t.subject t.origin.first).length = as.length ∧
      d.reader.flowIsDue x.log = false := by
  cases hl with
  | silent hw hvain =>
    obtain ⟨hsubject, hreads, hlength, hflow⟩ :=
      h.reads.waited h.leads.coming (hvain (.inr hpause))
    rw [h.subject] at hsubject hlength
    exact ⟨hsubject, hw.sinceFlow, hreads, hlength, hflow⟩

/-- **A turn that hears nothing** leaves a download undisturbed. -/
theorem rests (h : d.Alone t before l as x) (hlater : x.Later x₂)
    (hpause : 0 < x.time.pause timeout) (hl : x.Listens d.reader timeout .nothing s x₂) :
    { d with reader := s }.Alone t before l as x₂ := by
  obtain ⟨hsubject, hsince, hreads, hlength, -⟩ := h.silent hpause hl
  obtain ⟨p, hprompt, hp⟩ := h.onTime.silent hlater h.length_le hlength
  refine ⟨(h.holds.grow hlater.grown).same rfl rfl h.holds.counts rfl, hsubject, hreads,
    h.leads.later hlater, ⟨p, hprompt, .inl hp⟩, h.reliable, h.best, ?_⟩
  simp only [hsince]
  exact h.goes

/-- **A turn that has heard nothing for too long** ends it, with all parts that the row has: nothing
more can arrive. -/
theorem tires (h : d.Alone t before l as x) (hlacks : as.length < t.parts) (hlater : x.Later x₂)
    (hpause : 0 < x.time.pause timeout) (hl : x.Listens d.reader timeout .nothing s x₂)
    (hidle : t.config.maxIdleMs.toNat ≤ x₂.time.now - d.lastActivity) :
    { d with reader := s }.Done t before l as x₂ := by
  obtain ⟨-, -, -, hlength, hflow⟩ := h.silent hpause hl
  obtain ⟨p, hprompt, hp⟩ := h.onTime.silent hlater h.length_le hlength
  have hleads := h.leads.later hlater
  have hnext : ∀ e ∈ x₂.time.agenda.head?, x₂.time.now ≤ e.1 := by
    cases hl with
    | silent _ _ _ hnext => exact hnext
  have hended := hprompt.ended hleads.toTimetabled hp hidle hnext
  have hend : (l.row t.subject t.origin.first).length = as.length := by
    rw [Timeline.length_row_of_arrivals hleads.comes, hended]
    exact hlength
  have hends : (l.row t.subject t.origin.first)[as.length]? = none :=
    List.getElem?_eq_none (Nat.le_of_eq hend)
  have hnever : ¬ Stuck t (l.row t.subject t.origin.first) as := fun hstuck => by
    obtain ⟨-, e, he, -⟩ := hstuck
    simp [hends] at he
  obtain ⟨hnone, hpaced, -⟩ := h.goes.resolve_right hnever
  refine ⟨(h.holds.grow hlater.grown).same rfl rfl h.holds.counts rfl, h.reliable, ?_,
    fun _ => Nat.le_of_eq hend, hnone, ?_⟩
  · exact FileRecord.eq_partsOf h.best fun e he => by simp [hends] at he
  · rw [Bool.eq_false_iff, ne_eq, Subscription.flowIsDue_iff, h.leads.options] at hflow
    rw [DownloadTask.requests, if_pos hlacks]
    exact hpaced.eq_div hflow

/-- **A turn that answers a request** counts it. -/
theorem answers {n : Nat} {e : Event} (h : d.Alone t before l as x)
    (hlacks : as.length < t.parts) (hlater : x.Later x₂)
    (hl : x.Listens d.reader timeout (.flowControl (some (.issued n))) s x₁)
    (hx : x₁.Beside x₂) (hw : x₂.log.waiting = x₁.log.waiting.erase n) :
    { d with
      reader := s, lastActivity := x₁.time.now, flowReplies := d.flowReplies + 1
      events := d.events ++ [e] }.Alone t before l as x₂ := by
  cases hl with
  | @asked s₁ _ l₁ _ _ hw' hheld hdue hn hs hlog =>
    obtain ⟨hsubject, hreads₁⟩ := h.reads.wait h.leads.coming hw'
    have hmessages : x₂.log.messages = l₁.messages := by rw [hx.messages, hlog]
    have hreads := hreads₁.answered hn hmessages (by rw [hx.faults, hlog])
      (by rw [hx.issued, hlog]) (by rw [hw, hlog])
    rw [hw'.flowIsDue, Subscription.flowIsDue_iff, h.leads.options] at hdue
    subst hs
    refine ⟨(h.holds.grow hlater.grown).same rfl rfl h.holds.counts rfl,
      hsubject.trans h.subject, hreads, h.leads.later hlater, h.onTime.heard hlater hx.now.symm,
      h.reliable, h.best, ?_⟩
    exact h.goes.imp_left fun hgoes => ⟨hgoes.1, hgoes.2.1.request hdue.1 hdue.2, .inr hlacks⟩

/-- **A turn that accepts the next part** has one more of the parts that the row begins with. -/
theorem accepts {data : Bytes} {sink : Sink} {session : Session} {e : Event}
    (h : d.Alone t before l as x) (hlater : x.Later x₂)
    (hl : x.Listens d.reader timeout (.data m) s x₁) (hx : x₁.Beside x₂)
    (hc : d.task.record.contentAt? d.session.expectedPart m.headers m.payload = some data)
    (hw : d.sink.writeAll data = (.ok (), sink))
    (hs : d.session.accept? m.sequence data.length = some session) :
    ∃ as, { d with
      sink, session, digester := d.digester.absorb data, reader := s
      lastActivity := x₁.time.now, events := d.events ++ [e] }.Alone t before l as x₂ := by
  cases hl with
  | handed hw' hp hk =>
    obtain ⟨-, hsubject, hflow, hsince, e, he, rfl, hnext⟩ :=
      h.reads.found h.leads.coming hw' hp hk
    rw [h.subject] at he
    rw [h.holds.task, h.holds.counts.expectedPart, Accepted.length_places] at hc
    have hgrown : x₁.log.Grown x₂.log := .of_messages hx.messages
    have hreads := (hnext _ hc).grow hgrown hx.faults hx.issued hx.waiting
    have hleads := h.leads.later hlater
    replace he := hgrown.row_getElem? he
    obtain ⟨-, hexpecting⟩ := h.holds.counts.accept hs
    obtain ⟨-, -, hrecoveries⟩ := Session.accept?_counters hs
    have hnew := (h.holds.grow hlater.grown).accept (a := ⟨e.1, e.2, e.1.payload, _⟩)
      ⟨.inl rfl, hc⟩ he hw hs
    replace he := hleads.grown.row_getElem? he
    refine ⟨_, hnew.same rfl rfl hnew.counts rfl, hsubject.trans h.subject, ?_, hleads,
      h.onTime.heard hlater hx.now.symm, ?_, FileRecord.partsOf_next h.best he hc, ?_⟩
    · rw [List.length_append, List.length_singleton]
      simp only [hexpecting]
      exact hreads
    · exact h.reliable.of_limits (Sink.writeAll_ok hw).2
    · rcases h.goes with ⟨hnone, hpaced, -⟩ | ⟨-, e', he', hbad⟩
      · rw [Bool.eq_false_iff, ne_eq, Subscription.flowIsDue_iff, h.leads.options] at hflow
        refine .inl ⟨hrecoveries.trans hnone, ?_, .inl ?_⟩
        · simp only [hsince, List.length_append, List.length_singleton]
          exact hpaced.accept hflow
        · simp only [hsince]
          exact Nat.succ_pos _
      · obtain rfl : e = e' := Option.some.inj (he.symm.trans he')
        exact absurd (hbad.symm.trans hc) (by simp)

/-- **What a download refuses** stops it for good. -/
theorem refused (h : d.Alone t before l as x) (hlacks : as.length < t.parts) (hlater : x.Later x₂)
    (hl : x.Listens d.reader timeout (.data m) s x₁) (hx : x₁.Beside x₂) (hm : d.Refuses m) :
    Stuck t (l.row t.subject t.origin.first) as ∧ x₂.log.faults = [] ∧ x₂.log.Numbered := by
  cases hl with
  | handed hw' hp hk =>
    obtain ⟨hreads, -, -, -, e, he, rfl, -⟩ := h.reads.found h.leads.coming hw' hp hk
    rw [h.subject] at he
    have hgrown : x₁.log.Grown x₂.log := .of_messages hx.messages
    have hkept := hreads.grow hgrown hx.faults hx.issued hx.waiting
    have hrow := (h.leads.later hlater).grown.row_getElem? (hgrown.row_getElem? he)
    exact ⟨h.holds.stuck hlacks hrow hm, hkept.faults, hkept.numbered⟩

/-- **A turn that recovers** is stuck from then on. -/
theorem recovers {p : Position} {session : Session} {e : Event}
    (h : d.Alone t before l as x) (hlacks : as.length < t.parts) (hlater : x.Later x₂)
    (hl : x.Listens d.reader timeout (.data m) s x₁) (hx : x₁.Beside x₂) (hm : d.Refuses m)
    (hr : d.session.recover? = some (some p, session)) :
    { d with
      reader := .fresh d.task.subject p, session := session.startReading
      lastActivity := x₁.time.now, events := d.events ++ [e] }.Alone t before l as x₂ := by
  obtain ⟨hstuck, hfaults, hnumbered⟩ := h.refused hlacks hlater hl hx hm
  obtain ⟨hcounts, hexpecting, rfl⟩ := h.holds.counts.recover hr
  have hnew := h.holds.grow hlater.grown
  have hreads := Subscription.Reads.fresh hnew.follows_fresh hfaults hnumbered
  refine ⟨hnew.same rfl rfl (hcounts.withState .reading) rfl,
    congrArg DownloadTask.subject h.holds.task, ?_, h.leads.later hlater,
    h.onTime.heard hlater hx.now.symm, h.reliable, h.best, .inr hstuck⟩
  simp only [Session.startReading, hexpecting, h.holds.task]
  exact hreads

/-- **A turn that gives up** has spent the budget. -/
theorem givesUp {reader : Subscription} {session : Session}
    (h : d.Alone t before l as x) (hlacks : as.length < t.parts) (hlater : x.Later x₂)
    (hl : x.Listens d.reader timeout (.data m) s x₁) (hx : x₁.Beside x₂) (hm : d.Refuses m)
    (hr : d.session.recover? = some (none, session)) :
    { d with sink := d.sink.flush.2, session, reader, lastActivity := x₁.time.now }.Spent t before l
      as (.tooManyMismatches session.recoveries session.partsWritten session.bytesWritten) := by
  obtain ⟨hstuck, -, -⟩ := h.refused hlacks hlater hl hx hm
  obtain ⟨hcounts, hspent⟩ := h.holds.counts.spent hr
  refine ⟨?_, hstuck.eq_partsOf h.best, ⟨hlacks, ?_⟩, ?_⟩
  · have := h.holds.written
    rw [List.append_nil] at this
    exact this
  · obtain ⟨-, e, he, -⟩ := hstuck
    exact (List.getElem?_eq_some_iff.1 he).1
  · rw [hspent, hcounts.partsWritten, hcounts.bytesWritten, Accepted.length_places]

/-- **A turn of an undisturbed download.** -/
theorem turn (h : d.Alone t before l as x) (ht : t.record.Tiled)
    (hbeat : 0 < t.beat l.options) (hsize : l.messages.size + 1 < Word.limit) :
    (d.turn x).1.All (fun d' => ∃ as, d'.Alone t before l as (d.turn x).2)
      (fun d' => ∃ as, d'.Done t before l as (d.turn x).2)
      (fun d' why => ∃ as, d'.Spent t before l as why) := by
  have hin : d.InStep t before x.log as := ⟨h.holds, h.subject, 0, h.reads.follows⟩
  have hfits : x.log.messages.size + 1 < Word.limit :=
    Nat.lt_of_le_of_lt (Nat.succ_le_succ h.leads.grown.size_le) hsize
  have hpause : 0 < x.time.pause d.task.config.readTimeoutMs.toNat := by
    rw [← h.leads.options, ← h.holds.task] at hbeat
    exact hbeat
  have hgoes := hin.goes ht h.leads.unhindered h.reliable hfits
  have hlater := hin.turn_later ht h.leads.rules
  rcases Nat.lt_or_ge as.length t.parts with hlacks | hall
  swap
  · rw [turn_of_complete (h.holds.isComplete_iff.2 hall)]
    exact ⟨as, h.done ht hall⟩
  generalize (d.turn x).1 = r at hgoes ⊢
  generalize (d.turn x).2 = x₂ at hgoes hlater ⊢
  cases hgoes with
  | completes hc => exact absurd (h.holds.isComplete_iff.1 hc) (Nat.not_le_of_lt hlacks)
  | rests hl => exact ⟨as, h.rests hlater hpause hl⟩
  | tires hl hidle => exact ⟨as, h.tires hlacks hlater hpause hl (h.holds.task ▸ hidle)⟩
  | answers hl hx hw => exact ⟨as, h.answers hlacks hlater hl hx hw⟩
  | accepts hl hx _ hc hw hs => exact h.accepts hlater hl hx hc hw hs
  | recovers hl hx hm hr => exact ⟨as, h.recovers hlacks hlater hl hx hm hr⟩
  | givesUp hl hx hm hr => exact ⟨as, h.givesUp hlacks hlater hl hx hm hr⟩

end Alone

/-! ## The whole download -/

/-- A download that begins while messages arrive punctually is undisturbed. -/
theorem alone_of (t : DownloadTask) {sink : Sink} (hk : sink.Reliable) (ht : t.record.Tiled)
    (hx : x.Punctual t) (hl : x.Leads l) :
    (Download.of t sink (.fresh t.subject t.origin) x.time.now).Alone t sink.written l [] x := by
  obtain ⟨hholds, hsubject, -⟩ := inStep_of t sink x.time.now x.log
  have hreads := Subscription.Reads.fresh hholds.follows_fresh hx.faults hx.numbered
  exact ⟨hholds, hsubject, hreads, hl, ⟨_, hx.prompt, .inl (Nat.le_refl _)⟩, hk,
    List.nil_prefix, .inl ⟨rfl, .zero _, .inr ht.parts_pos⟩⟩

/-- **The report of a download that was undisturbed.** -/
theorem Done.report_eq (h : d.Done t before l as x) {d' : Download}
    (hd : Closed d d') : d'.report = t.reportOf l.options as := by
  obtain ⟨state, hsession⟩ := hd.session
  rw [(h.holds.closed hd).report_eq l.options, hsession, hd.flowReplies, h.flowReplies]
  simp only [h.recoveries]
  rfl

/-- **A download that has begun while messages arrive punctually** does what its specification says of
the log that there is in the end. -/
theorem complete_plain (hconfig : t.config.validate = .ok ()) (ht : t.record.Tiled)
    (hx : x.Punctual t) (hl : x.Leads l) {sink : Sink} (hk : sink.Reliable) :
    let d := Download.of t sink (.fresh t.subject t.origin) x.time.now
    let row := l.row t.subject t.origin.first
    (d.complete x).1 = t.plain l.options row.length (t.record.partsOf 1 row) ∧
      (d.complete x).2.1.sink.written
        = sink.written ++ contents (t.record.partsOf 1 row) := by
  intro d row
  have hbeat : 0 < t.beat x.log.options := DownloadTask.beat_pos hconfig hx.heartbeat
  obtain ⟨d', x', ⟨as, hdone⟩, hend⟩ | ⟨d', why, x', ⟨as, hspent⟩, hend⟩ := complete_all
    (P := fun d x' => ∃ as, d.Alone t sink.written l as x')
    (D := fun d x' => ∃ as, d.Done t sink.written l as x')
    (B := fun d why _ => ∃ as, d.Spent t sink.written l as why)
    (fun _ _ ⟨_, h⟩ => h.turn ht (hl.options ▸ hbeat) (hl.size_eq ▸ hx.fits)) ht sink hx.rules
    (.inl hbeat) ⟨_, alone_of t hk ht hx hl⟩
  · obtain ⟨d'', x'', hclosed, hfinish⟩ := finish_of_reliable hdone.reliable x'
    have hlast : ¬ (as.length < t.parts ∧ as.length < row.length) := fun ⟨hlt, hrow⟩ =>
      Nat.not_le_of_lt hrow (hdone.whole hlt)
    rw [DownloadTask.plain, ← hdone.best, if_neg hlast, hend, hfinish]
    refine ⟨congrArg Except.ok (hdone.report_eq hclosed), ?_⟩
    rw [hclosed.written, hdone.holds.written, List.append_nil]
  · rw [DownloadTask.plain, ← hspent.best, if_pos hspent.lacks, hend]
    exact ⟨congrArg Except.error hspent.why, hspent.written⟩

/-- **A download to which messages come punctually** does what its specification says of the log that
there is in the end. -/
theorem run_punctual {config : Config} {record : FileRecord} {sink : Sink}
    (h : DownloadTask.of config record = .ok t) (hv : record.validate = .ok ())
    (hx : x.Punctual t) (hl : x.Leads l) (hk : sink.Reliable) :
    let row := l.row t.subject t.origin.first
    (run config record sink x).1.result
        = t.plain l.options row.length (t.record.partsOf 1 row) ∧
      (run config record sink x).1.sink.written
        = sink.written ++ contents (t.record.partsOf 1 row) := by
  obtain ⟨hconfig, rfl, rfl, -⟩ := DownloadTask.of_eq_ok_iff.1 h
  obtain ⟨x', -, hb, hresult, hwritten⟩ := run_eq_complete sink h hx.rules
  rw [hresult, hwritten]
  exact complete_plain hconfig (FileRecord.tiled_of_validate hv) (hx.beside hb)
    (hl.later (hb.later hx.rules)) hk

/-- **An undisturbed download does what its specification says.** -/
theorem run_plain {config : Config} {record : FileRecord} {sink : Sink}
    (h : DownloadTask.of config record = .ok t) (hv : record.validate = .ok ())
    (hx : x.Undisturbed) (hk : sink.Reliable) :
    let row := x.log.row t.subject t.origin.first
    (run config record sink x).1.result
        = t.plain x.log.options row.length (t.record.partsOf 1 row) ∧
      (run config record sink x).1.sink.written
        = sink.written ++ contents (t.record.partsOf 1 row) :=
  run_punctual h hv hx.punctual hx.leads hk

/-- **A download of a log that nobody changes** writes the contents of the longest beginning of its
row in which each message carries the next part, and nothing else; and this beginning alone decides
what it comes to. -/
theorem run_longest_beginning {config : Config} {record : FileRecord} {sink : Sink}
    (h : DownloadTask.of config record = .ok t) (hv : record.validate = .ok ())
    (hx : x.Undisturbed) (hk : sink.Reliable) :
    let row := x.log.row t.subject t.origin.first
    let as := record.partsOf 1 row
    IsGreatest { k | k ≤ t.parts ∧
        ∀ i < k, ∃ e content, row[i]? = some e ∧ e.1.Carries record (i + 1) content } as.length ∧
      (∀ (i : Nat) (a : Accepted), as[i]? = some a →
        row[i]? = some (a.message, a.place) ∧ a.message.Carries record (i + 1) a.content) ∧
      (run config record sink x).1.result = t.plain x.log.options row.length as ∧
      (run config record sink x).1.sink.written = sink.written ++ contents as := by
  have hplain := run_plain h hv hx hk
  obtain ⟨-, -, rfl, -⟩ := DownloadTask.of_eq_ok_iff.1 h
  have ht := FileRecord.tiled_of_validate hv
  intro row as
  have hcarries : ∀ (m : Published) n content,
      t.record.contentAt? n m.headers m.payload = some content ↔ m.Carries t.record n content :=
    fun m n content => FileRecord.contentAt?_eq_some_iff ht
  refine ⟨?_, fun i a ha => ?_, hplain⟩
  · have hset : { k | k ≤ t.parts ∧ ∀ i < k, ∃ e, row[i]? = some e ∧
          (t.record.contentAt? (i + 1) e.1.headers e.1.payload).isSome }
        = { k | k ≤ t.parts ∧ ∀ i < k, ∃ e content, row[i]? = some e ∧
          e.1.Carries t.record (i + 1) content } := by
      simp only [Option.isSome_iff_exists, hcarries, exists_and_left]
    exact hset ▸ FileRecord.partsOf_greatest ht row
  · obtain ⟨hrow, -, hpart⟩ := FileRecord.partsOf_getElem? ha
    rw [Nat.add_comm] at hpart
    exact ⟨hrow, (hcarries _ _ _).1 hpart⟩

/-- A message without a label stops a download behind the part that came before it. -/
theorem run_longest_beginning_of_part : ∃ (record : FileRecord) (x : Exchange),
    record.validate = .ok () ∧ x.Undisturbed ∧ x.log.messages.size = 2 ∧
    (run .usual record .unlimited x).1.result = .error (.tooManyMismatches 10 1 2) ∧
    (run .usual record .unlimited x).1.sink.written = [1, 2] := by
  let record : FileRecord := ⟨"id", "name", "", "", 3, 2, 2, 1, .epoch, some "SHA-256",
    some "00", none⟩
  let t : DownloadTask := ⟨.usual, record, ⟨"SHA-256", "00"⟩, .sha256⟩
  let label := Label.plain "id" 1 0 2 ⟨"SHA-256", Digest.Algorithm.sha256.hexDigest [1, 2]⟩
  obtain ⟨m, hm⟩ : ∃ m : Published, m = ⟨"parts.id", label.toHeaders, [1, 2]⟩ := ⟨_, rfl⟩
  let x : Exchange := (Exchange.new default .empty).withLog
    (((Log.new default).publish m).2.publish ⟨"parts.id", KeyMap.empty, []⟩).2
  have hv : record.validate = .ok () := by decide
  have ht : DownloadTask.of .usual record = .ok t := by decide
  have hx : x.Undisturbed := ⟨⟨rfl, rfl, rfl⟩, rfl, nofun,
    fun _ hn => absurd hn List.not_mem_nil, (by decide : 3 < Word.limit)⟩
  have hk : Sink.unlimited.Reliable := ⟨rfl, rfl, by decide⟩
  let row := x.log.row t.subject t.origin.first
  have hplain : t.plain x.log.options row.length (record.partsOf 1 row)
        = .error (.tooManyMismatches 10 1 2) ∧
      Sink.unlimited.written ++ contents (record.partsOf 1 row) = [1, 2] := by
    subst hm
    decide +kernel
  obtain ⟨-, -, hresult, hwritten⟩ := run_longest_beginning ht hv hx hk
  exact ⟨record, x, hv, hx, rfl, hresult.trans hplain.1, hwritten.trans hplain.2⟩

end Download

end FileRelay
