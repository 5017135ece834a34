import FileRelay.Proofs.Log.Spacing
import FileRelay.Proofs.Transfer.Entries
import FileRelay.Proofs.Transfer.PlainDownload
import FileRelay.Transfer.Upload

/-!
# Proofs/Transfer/FlowControl — requests for a reply, and how many a download answers

A log that asks for a reply after every `n` deliveries holds its reader up until the reply comes.  A
download answers each request in the turn in which it hears it, and listens no more after its last part:
where no fault is armed, a complete one of `p` parts has answered `(p - 1) / n` requests
(`Download.run_replies`).

This, and what holds of requests whatever the clients of a log do, is the law of flow control
(`flow_control_law`).
-/

namespace FileRelay

open Accepted (contents places)

namespace Log

/-! ## Requests that were answered -/

/-- **A log in which so many requests more were made**, all of them answered: only older ones wait. -/
structure Replied (l l' : Log) (k : Nat) : Prop where
  issued : l'.issued = l.issued + k
  waiting : ∀ n ∈ l'.waiting, n ≤ l.issued
  answered : l'.answered.countP (l.issued < ·) = l.answered.countP (l.issued < ·) + k

variable {l l' l'' : Log} {k : Nat} {coming : List Deed} {s s' : Subscription}

namespace Replied

theorem refl (h : l.Numbered) : l.Replied l 0 := ⟨rfl, h, rfl⟩

/-- Where no request is made or answered, there are as many. -/
theorem same (h : l.Replied l' k) (hi : l''.issued = l'.issued) (hw : l''.waiting ⊆ l'.waiting)
    (ha : l''.answered = l'.answered) : l.Replied l'' k :=
  ⟨hi.trans h.issued, fun n hn => h.waiting n (hw hn), by rw [ha, h.answered]⟩

/-- What changes only the faults makes no request. -/
theorem of_faults (h : l.Replied l' k) (hl : l'' = { l' with faults := l''.faults }) :
    l.Replied l'' k := by
  rw [hl]
  exact h.same rfl (List.Subset.refl _) rfl

/-- **A reply of others** answers an older request at most. -/
theorem reply (h : l.Replied l' k) (a : Address) : l.Replied (l'.reply a) k := by
  rcases a with n | text
  · by_cases hn : n ∈ l'.waiting
    · rw [reply_issued hn]
      refine ⟨h.issued, fun m hm => h.waiting m (List.mem_of_mem_erase hm), ?_⟩
      simp [h.answered, Nat.not_lt.2 (h.waiting n hn)]
    · have hreply : l'.reply (.issued n) = { l' with discarded := l'.discarded + 1 } := by
        simp [Log.reply, hn]
      rw [hreply]
      exact h.same rfl (List.Subset.refl _) rfl
  · exact h.same rfl (List.Subset.refl _) rfl

/-- No deed of others makes a request, or answers one that was made since. -/
theorem deed (h : l.Replied l' k) (deed : Deed) : l.Replied (deed.act l') k := by
  cases deed with
  | publish | callOff => exact h.same rfl (List.Subset.refl _) rfl
  | arm place fault times => exact h.of_faults (l'.arm_same place fault times)
  | reply a => exact h.reply a

/-- Waiting makes no request. -/
theorem wait (h : l.Replied l' k) (hw : s.Waits coming l' s' l'') : l.Replied l'' k :=
  hw.invariant (P := fun _ l'' => l.Replied l'' k) (fun _ _ d _ h => h.deed d)
    (fun _ _ _ _ hp h => h.of_faults (hp.stays nofun).2) h

/-- **A request that is made and answered** is one more. -/
theorem answer (h : l.Replied l' k) {n : Nat} (hn : n = l'.issued + 1)
    (hi : l''.issued = n) (hw : l''.waiting = (n :: l'.waiting).erase n)
    (ha : l''.answered = l'.answered ++ [n]) : l.Replied l'' (k + 1) := by
  rw [List.erase_cons_head] at hw
  have hnew : n = l.issued + k + 1 := by rw [hn, h.issued]
  refine ⟨hi.trans hnew, hw ▸ h.waiting, ?_⟩
  have hlater : l.issued < n := by omega
  rw [ha, List.countP_append, h.answered, List.countP_singleton, if_pos (by simpa using hlater)]
  omega

end Replied

end Log

namespace Exchange

variable {x x' : Exchange}

/-- Telling the log what was accepted answers nothing. -/
theorem ack_answered (x : Exchange) (s : Subscription) (d : Delivery) :
    (x.ack s d).2.log.answered = x.log.answered := by
  have hlog := (x.meet_counted .ack).log
  rw [ack]
  rcases attempt_cases .ack _ x with ⟨e, -, h⟩ | h <;> rw [h]
  · rw [hlog]
  · rw [← hlog]
    unfold Subscription.ack
    split
    · rfl
    · split <;> rfl

/-- Closing a reader answers nothing. -/
theorem unsubscribe_answered (x : Exchange) (s : Subscription) :
    (x.unsubscribe s).2.log.answered = x.log.answered := by
  have hlog := (x.meet_counted .unsubscribe).log
  unfold unsubscribe
  split
  all_goals rename_i hm; rw [hm] at hlog
  · rw [hlog]
  · rw [← hlog]
    unfold Subscription.unsubscribe
    split <;> rfl

/-- **An exchange without faults**: no call is refused, no fault is armed, and nobody arms one. -/
structure FaultFree (x : Exchange) : Prop where
  grants : x.Grants
  faults : x.log.faults = []
  coming : ∀ deed ∈ x.time.coming, deed.IsFaultless

theorem FaultFree.beside (h : x.FaultFree) (hb : x.Beside x') : x'.FaultFree where
  grants := h.grants.of_rules hb.rules
  faults := hb.faults.trans h.faults
  coming := by
    rw [Timeline.coming, hb.agenda]
    exact h.coming

end Exchange

namespace Download

variable {d : Download} {t : DownloadTask} {before : Bytes} {l l' : Log} {as : List Accepted}
  {x x₁ x₂ : Exchange} {s : Subscription} {m : Delivery}

/-- A download that cannot go on cannot go on when there is more to come. -/
theorem Stuck.grown (h : Stuck t (l.row t.subject t.origin.first) as) (hg : l.Grown l') :
    Stuck t (l'.row t.subject t.origin.first) as := by
  obtain ⟨hlacks, e, he, hbad⟩ := h
  exact ⟨hlacks, e, hg.row_getElem? he, hbad⟩

/-- **A download that has answered steadily**, with these options of the log: it has never recovered,
requests have kept pace with its parts, and all of them were answered. -/
structure Steady (d : Download) (t : DownloadTask) (l : Log) (k : Nat) (l' : Log) : Prop where
  recoveries : d.session.recoveries = 0
  paced : Paced (l.options.flowControlEvery.getD 0) d.flowReplies d.reader.sinceFlow k
  begun : 0 < d.reader.sinceFlow ∨ k < t.parts ∨ d.flowReplies = 0
  replied : l.Replied l' d.flowReplies

/-- **A download of a log without faults**: it reads its row, and it has answered steadily or is
stuck. -/
structure Smooth (d : Download) (t : DownloadTask) (before : Bytes) (l : Log) (as : List Accepted)
    (x : Exchange) : Prop where
  holds : d.Holds t before x.log as []
  subject : d.reader.subject = t.subject
  reads : d.reader.Reads x.log t.record t.origin.first as.length d.session.expecting
  grants : x.Grants
  coming : ∀ deed ∈ x.time.coming, deed.IsFaultless
  options : x.log.options = l.options
  goes : d.Steady t l as.length x.log ∨ Stuck t (x.log.row t.subject t.origin.first) as

namespace Smooth

variable {heard : Heard} {timeout : Nat}

/-- What is kept while a download hears something and acts. -/
theorem frame (h : d.Smooth t before l as x) (hh : x.Hears d.reader timeout heard s x₁)
    (hb : x₁.Beside x₂) : x₂.Grants ∧ (∀ deed ∈ x₂.time.coming, deed.IsFaultless) ∧
      x₂.log.options = l.options ∧ x.log.Grown x₂.log := by
  obtain ⟨-, hagenda, hoptions⟩ := hh.passes
  refine ⟨h.grants.of_rules (hb.rules.trans hh.rules), fun deed hdeed => ?_,
    hb.options.trans (hoptions.trans h.options), hh.grown.trans (.of_messages hb.messages)⟩
  obtain ⟨e, he, rfl⟩ := List.mem_map.1 hdeed
  exact h.coming e.2 (List.mem_map_of_mem (hagenda.subset (hb.agenda ▸ he)))

/-- **A turn that hears nothing.** -/
theorem rests (h : d.Smooth t before l as x) (hh : x.Hears d.reader timeout heard s x₁)
    (hw : d.reader.Waits x.time.coming x.log s x₁.log) :
    { d with reader := s }.Smooth t before l as x₁ := by
  obtain ⟨hgrants, hcoming, hoptions, hgrown⟩ := h.frame hh (.refl x₁)
  obtain ⟨hsubject, hreads⟩ := h.reads.wait h.coming hw
  refine ⟨(h.holds.grow hgrown).same rfl rfl h.holds.counts rfl, hsubject.trans h.subject, hreads,
    hgrants, hcoming, hoptions, h.goes.imp (fun hs => ?_) fun hs => hs.grown hgrown⟩
  exact ⟨hs.recoveries, hw.sinceFlow ▸ hs.paced, hw.sinceFlow ▸ hs.begun, hs.replied.wait hw⟩

/-- **A turn that answers a request.** -/
theorem answers {n : Nat} {e : Event} (h : d.Smooth t before l as x) (hlacks : as.length < t.parts)
    (hh : x.Hears d.reader timeout (.flowControl (some (.issued n))) s x₁)
    (hl : x.Listens d.reader timeout (.flowControl (some (.issued n))) s x₁)
    (hr : x₁.reply (.issued n) = (.ok (), x₂)) :
    { d with
      reader := s, lastActivity := x₁.time.now, flowReplies := d.flowReplies + 1
      events := d.events ++ [e] }.Smooth t before l as x₂ := by
  have hb := x₁.reply_beside (.issued n)
  rw [hr] at hb
  obtain ⟨hgrants, hcoming, hoptions, hgrown⟩ := h.frame hh hb
  cases hl with
  | @asked s₁ _ l₁ _ _ hw _ hdue hn hs hlog =>
    obtain ⟨hsubject, hreads₁⟩ := h.reads.wait h.coming hw
    have hwaits : n ∈ x₁.log.waiting := by
      rw [hlog]
      exact List.mem_cons_self
    have hreply := (h.grants.of_rules hh.rules).reply_log hwaits
    rw [hr, hlog] at hreply
    have hmessages : x₂.log.messages = l₁.messages := by rw [hreply]
    have hreads := hreads₁.answered hn hmessages (by rw [hreply]) (by rw [hreply]) (by rw [hreply])
    rw [hw.flowIsDue, Subscription.flowIsDue_iff, h.options] at hdue
    subst hs
    refine ⟨(h.holds.grow hgrown).same rfl rfl h.holds.counts rfl, hsubject.trans h.subject, hreads,
      hgrants, hcoming, hoptions, h.goes.imp (fun hs => ?_) fun hs => hs.grown hgrown⟩
    exact ⟨hs.recoveries, hs.paced.request hdue.1 hdue.2, .inr (.inl hlacks),
      (hs.replied.wait hw).answer hn (by rw [hreply]) (by rw [hreply]) (by rw [hreply])⟩

/-- **A turn that accepts the next part.** -/
theorem accepts {data : Bytes} {sink : Sink} {session : Session} {e : Event}
    (h : d.Smooth t before l as x) (hh : x.Hears d.reader timeout (.data m) s x₁)
    (hl : x.Listens d.reader timeout (.data m) s x₁) (hb : x₁.Beside x₂)
    (ha : x₂.log.answered = x₁.log.answered)
    (hc : d.task.record.contentAt? d.session.expectedPart m.headers m.payload = some data)
    (hw : d.sink.writeAll data = (.ok (), sink))
    (hs : d.session.accept? m.sequence data.length = some session) :
    ∃ as, { d with
      sink, session, digester := d.digester.absorb data, reader := s
      lastActivity := x₁.time.now, events := d.events ++ [e] }.Smooth t before l as x₂ := by
  obtain ⟨hgrants, hcoming, hoptions, hgrown⟩ := h.frame hh hb
  cases hl with
  | handed hw' hp hk =>
    obtain ⟨-, hsubject, hflow, hsince, e, he, rfl, hnext⟩ := h.reads.found h.coming hw' hp hk
    rw [h.subject] at he
    rw [h.holds.task, h.holds.counts.expectedPart, Accepted.length_places] at hc
    have hgrown₁ : x₁.log.Grown x₂.log := .of_messages hb.messages
    replace he := hgrown₁.row_getElem? he
    obtain ⟨-, hexpecting⟩ := h.holds.counts.accept hs
    obtain ⟨-, -, hrecoveries⟩ := Session.accept?_counters hs
    have hnew := (h.holds.grow hgrown).accept (a := ⟨e.1, e.2, e.1.payload, _⟩)
      ⟨.inl rfl, hc⟩ he hw hs
    refine ⟨_, hnew.same rfl rfl hnew.counts rfl, hsubject.trans h.subject, ?_, hgrants, hcoming,
      hoptions, .inl ?_⟩
    · rw [List.length_append, List.length_singleton]
      simp only [hexpecting]
      exact (hnext _ hc).grow hgrown₁ hb.faults hb.issued hb.waiting
    · obtain hs | ⟨-, e', he', hbad⟩ := h.goes
      · rw [Bool.eq_false_iff, ne_eq, Subscription.flowIsDue_iff, h.options] at hflow
        refine ⟨hrecoveries.trans hs.recoveries, ?_, .inl ?_, ?_⟩
        · simp only [hsince, List.length_append, List.length_singleton]
          exact hs.paced.accept hflow
        · simp only [hsince]
          exact Nat.succ_pos _
        · exact ((hs.replied.wait hw').of_faults (hp.stays (by simpa using hk)).2).same hb.issued
            hb.waiting ha
      · obtain rfl : e = e' := Option.some.inj (he.symm.trans (hgrown.row_getElem? he'))
        exact absurd (hbad.symm.trans hc) (by simp)

/-- **A turn that recovers** is stuck from then on. -/
theorem recovers {p : Position} {session : Session} {e : Event}
    (h : d.Smooth t before l as x) (hlacks : as.length < t.parts)
    (hh : x.Hears d.reader timeout (.data m) s x₁) (hl : x.Listens d.reader timeout (.data m) s x₁)
    (hb : x₁.Beside x₂) (hm : d.Refuses m) (hr : d.session.recover? = some (some p, session)) :
    { d with
      reader := .fresh d.task.subject p, session := session.startReading
      lastActivity := x₁.time.now, events := d.events ++ [e] }.Smooth t before l as x₂ := by
  obtain ⟨hgrants, hcoming, hoptions, hgrown⟩ := h.frame hh hb
  cases hl with
  | handed hw' hp hk =>
    obtain ⟨hreads, -, -, -, e, he, rfl, -⟩ := h.reads.found h.coming hw' hp hk
    rw [h.subject] at he
    have hgrown₁ : x₁.log.Grown x₂.log := .of_messages hb.messages
    have hkept := hreads.grow hgrown₁ hb.faults hb.issued hb.waiting
    obtain ⟨hcounts, hexpecting, rfl⟩ := h.holds.counts.recover hr
    have hnew := h.holds.grow hgrown
    have hfresh := Subscription.Reads.fresh hnew.follows_fresh hkept.faults hkept.numbered
    refine ⟨hnew.same rfl rfl (hcounts.withState .reading) rfl,
      congrArg DownloadTask.subject h.holds.task, ?_, hgrants, hcoming, hoptions, .inr ?_⟩
    · simp only [Session.startReading, hexpecting, h.holds.task]
      exact hfresh
    · exact h.holds.stuck hlacks (hgrown₁.row_getElem? he) hm

/-- The end of a download that has gone smoothly. -/
theorem ended (h : d.Smooth t before l as x) (hparts : d.session.partsWritten = t.parts) :
    d.flowReplies = (t.parts - 1) / l.options.flowControlEvery.getD 0 ∧
      l.Replied x.log d.flowReplies := by
  rw [h.holds.counts.partsWritten, Accepted.length_places] at hparts
  have hsteady := h.goes.resolve_right fun hstuck => Nat.ne_of_lt hstuck.1 hparts
  refine ⟨?_, hsteady.replied⟩
  have hpaced := hparts ▸ hsteady.paced
  obtain hsince | hlacks | hnone := hsteady.begun
  · exact hpaced.eq_pred_div hsince
  · omega
  · rw [hnone] at hpaced ⊢
    exact hpaced.none_eq

/-- **A turn of a download of a log without faults.** -/
theorem turn (h : d.Smooth t before l as x) :
    (d.turn x).1.All (fun d' => ∃ as, d'.Smooth t before l as (d.turn x).2)
      (fun d' => ∃ as, d'.Smooth t before l as (d.turn x).2) (fun _ _ => True) := by
  obtain ⟨-, hturn⟩ | ⟨d', x', hturn⟩ | ⟨hcomplete, ha⟩ := d.turn_cases x
  · rw [hturn]
    exact ⟨as, h⟩
  · rw [hturn]
    trivial
  have hlacks : as.length < t.parts := by
    rw [← Nat.not_le, ← h.holds.isComplete_iff, hcomplete]
    exact Bool.false_ne_true
  have hh : x.Hears d.reader d.task.config.readTimeoutMs.toNat (d.listen x).1 (d.listen x).2.1
    (d.listen x).2.2 :=
      Exchange.hear_hears (Nat.le_trans t.origin.one_le_first h.reads.follows.first_le)
        h.reads.follows.isOpen
  have hl := hh.listens h.grants (by simp [h.reads.doubled])
  generalize (d.listen x).1 = heard at ha hh hl
  generalize (d.listen x).2.1 = s at ha hh hl
  generalize (d.listen x).2.2 = x₁ at ha hh hl
  generalize (d.turn x).1 = r at ha ⊢
  generalize (d.turn x).2 = x₂ at ha ⊢
  cases ha with
  | breaksOff | cannotWrite | outgrows | stranded | cannotResume | givesUp => trivial
  | rests | tires =>
    cases hl with
    | silent hw => exact ⟨as, h.rests hh hw⟩
  | passes => cases hl
  | @answers a _ hr =>
    obtain ⟨n, rfl⟩ : ∃ n, a = .issued n := by
      cases hl with
      | asked => exact ⟨_, rfl⟩
    exact ⟨as, h.answers hlacks hh hl hr⟩
  | @accepts m _ _ _ _ hc hw hs hb hack =>
    have hanswered : x₂.log.answered = x₁.log.answered := by
      rw [hack]
      unfold acknowledge
      split
      · exact x₁.ack_answered _ _
      · rfl
    exact h.accepts hh hl hb hanswered (Session.checkPart_eq_ok_iff.1 hc).2 hw hs
  | recovers hc hr hb => exact ⟨as, h.recovers hlacks hh hl hb (refuses_of_checkPart hc) hr⟩

end Smooth

/-! ## The whole download -/

/-- The end of a download only closes its reader. -/
theorem finish_exchange (d : Download) (x : Exchange) :
    (d.finish x).2.2 = (x.unsubscribe d.reader).2 := by
  unfold finish close
  dsimp only
  split <;> rfl

/-- **A download that goes smoothly** and has written all parts in the end has answered all
requests. -/
theorem Smooth.complete (h : d.Smooth t before l as x) {report : DownloadReport}
    (hr : (d.complete x).1 = .ok report) (hparts : report.partsWritten = t.parts) :
    report.flowReplies = (t.parts - 1) / l.options.flowControlEvery.getD 0 ∧
      l.Replied (d.complete x).2.2.log report.flowReplies := by
  have hleft := Turn.takeTurns_all (P := fun d x => ∃ as, Smooth d t before l as x)
    (D := fun d x => ∃ as, Smooth d t before l as x) (B := fun _ _ _ => True)
    (fun _ _ ⟨_, h⟩ => h.turn) (d.task.patience x) ⟨as, h⟩
  unfold Download.complete at hr ⊢
  rcases hturns : Turn.takeTurns Download.turn (d.task.patience x) d x with ⟨d' | d' | ⟨d', why⟩, x'⟩
  all_goals rw [hturns] at hleft hr
  · simp at hr
  · dsimp only at hr ⊢
    obtain ⟨as', hsmooth⟩ := hleft
    obtain ⟨hclosed, hb⟩ := d'.finish_closed x'
    obtain ⟨state, hsession⟩ := hclosed.session
    obtain ⟨e, -, hfst⟩ | ⟨-, hfst⟩ := d'.finish_fst x'
    · simp [hfst] at hr
    obtain rfl := Except.ok.inj (hfst.symm.trans hr)
    have hwritten : d'.session.partsWritten = t.parts := by
      rw [← hparts, Download.report, hsession]
    obtain ⟨hcount, hreplied⟩ := hsmooth.ended hwritten
    rw [Download.report, hclosed.flowReplies]
    refine ⟨hcount, hreplied.same hb.issued hb.waiting ?_⟩
    rw [finish_exchange, Exchange.unsubscribe_answered]
  · simp at hr

/-- A download that begins without faults goes smoothly. -/
theorem smooth_of (t : DownloadTask) (sink : Sink) (hx : x.FaultFree) (hn : x.log.Numbered)
    (ho : x.log.options = l.options) (hl : l.Replied x.log 0) :
    (Download.of t sink (.fresh t.subject t.origin) x.time.now).Smooth t sink.written l [] x := by
  obtain ⟨hholds, hsubject, -⟩ := inStep_of t sink x.time.now x.log
  exact ⟨hholds, hsubject, .fresh hholds.follows_fresh hx.faults hn, hx.grants, hx.coming, ho,
    .inl ⟨rfl, .zero _, .inr (.inr rfl), hl⟩⟩

/-- **A complete download of a log without faults** answers a request after every so many parts, but
none after the last one. -/
theorem run_replies {config : Config} {record : FileRecord} {sink : Sink} {report : DownloadReport}
    (h : DownloadTask.of config record = .ok t) (hx : x.FaultFree) (hn : x.log.Numbered)
    (hr : (run config record sink x).1.result = .ok report) (hparts : report.partsWritten = t.parts) :
    report.flowReplies = (t.parts - 1) / x.log.options.flowControlEvery.getD 0 ∧
      x.log.Replied (run config record sink x).2.log report.flowReplies := by
  obtain ⟨x', hs⟩ := hx.grants.subscribe_eq t.subject t.origin
  have hb := x.subscribe_beside t.subject t.origin
  have hlog := hx.grants.subscribe_log t.subject t.origin
  rw [hs] at hb hlog
  have hreplied : x.log.Replied x'.log 0 :=
    (Log.Replied.refl hn).same hb.issued hb.waiting (by rw [hlog])
  have hsmooth := smooth_of t sink (hx.beside hb) (hn.of_subset hb.issued hb.waiting) hb.options
    hreplied
  rw [run_result h hs] at hr
  have hcomplete := hsmooth.complete hr hparts
  rw [run_eq h hs]
  rcases hc : (Download.of t sink (.fresh t.subject t.origin) x'.time.now).complete x'
    with ⟨why | report', d, y⟩
  all_goals rw [hc] at hcomplete; exact hcomplete

end Download

/-- **The law of flow control**, for a log that asks for a reply after every `n` deliveries, and for all
that any number of clients do.

Requests are numbered as they are made.  A reader that has made one finds nothing until it is
answered.  Between two requests of a reader, and before its first one, it finds exactly `n` messages, or
one more when the `n`-th was delivered by a fault that doubled it.  Each request is answered once at
most: a reply answers the request at its address if that is pending, and is discarded otherwise.  All
replies are counted as one or the other.

A download without faults that is complete in the end has answered `(p - 1) / n` requests, where `p`
is the number of its parts. -/
theorem flow_control_law {options : LogOptions} {c : Clients} {ms : List Moment} {n : Nat}
    (hn : 0 < n) (ho : options.flowControlEvery = some n) (h : Traffic options c ms) :
    ms.filterMap Moment.asked? = List.range' 1 c.log.issued ∧
    (∀ before m between m' after i d, ms = before ++ m :: between ++ m' :: after →
      m.action = .look i → m.found = some d → d.kind = .flowControl →
      m'.action = .look i → m'.found ≠ none →
      ∃ k, d.replyTo = some (.issued k) ∧ ∃ r ∈ between, r.Answers k) ∧
    (∀ before m after i d, ms = before ++ m :: after →
      m.action = .look i → m.found = some d → d.kind = .flowControl →
      let run := sinceRequest (finds (looksOf i before))
      ∃ r, run[n - 1]? = some r ∧
        run.length = if r.1.Fires r.2.sequence .duplicate then n + 1 else n) ∧
    c.log.answered.Nodup ∧ c.log.answered.length + c.log.discarded = ms.countP Moment.isReply ∧
    (∀ before m after address, ms = before ++ m :: after → m.action = .reply address →
      (∀ i k, address = .issued k → Pending before i k → m.after.log = { m.before.log with
        waiting := m.before.log.waiting.erase k, answered := m.before.log.answered ++ [k] }) ∧
      ((∀ i k, address = .issued k → ¬ Pending before i k) →
        m.after.log = { m.before.log with discarded := m.before.log.discarded + 1 })) ∧
    ∀ config record sink (x : Exchange) t report, x.log.options.flowControlEvery = some n →
      x.log.Numbered → x.FaultFree → DownloadTask.of config record = .ok t →
      (Download.run config record sink x).1.result = .ok report → report.partsWritten = t.parts →
      report.flowReplies = (t.parts - 1) / n ∧
        (Download.run config record sink x).2.log.answered.countP (x.log.issued < ·)
          = x.log.answered.countP (x.log.issued < ·) + (t.parts - 1) / n := by
  refine ⟨h.requests.asked, ?_, ?_, h.requests.answered, h.requests.replies, ?_, ?_⟩
  · rintro before m between m' after i d rfl hlook hfound hkind hlook' hfound'
    exact h.held_until_answered hlook hfound hkind hlook' hfound'
  · rintro before m after i d rfl hlook hfound hkind
    exact h.spaced hn ho hlook hfound hkind
  · rintro before m after address rfl hm
    exact h.reply hm
  · intro config record sink x t report hx hnumbered hfree ht hr hparts
    obtain ⟨hcount, hreplied⟩ := Download.run_replies ht hfree hnumbered hr hparts
    rw [hx, Option.getD_some] at hcount
    exact ⟨hcount, hcount ▸ hreplied.answered⟩

/-- A file of two octets that was uploaded in parts of one octet is downloaded from a log that asks for
a reply after every delivery. -/
theorem Download.exists_two_octets : ∃ (record : FileRecord) (x : Exchange) (t : DownloadTask)
    (done : DownloadReport), x.log.options.flowControlEvery = some 1 ∧ x.log.Numbered ∧ x.FaultFree ∧
      x.log.issued = 0 ∧ x.log.answered = [] ∧ DownloadTask.of .usual record = .ok t ∧ t.parts = 2 ∧
      (Download.run .usual record .unlimited x).1.result = .ok done ∧ done.partsWritten = 2 := by
  obtain ⟨u, hu⟩ : ∃ u, Upload.run { Config.usual with partSize := 1 } [0x61] ⟨none, none, none⟩
    (.new ⟨some 1, none⟩ ⟨[([[0x61]], .file [7, 8] .epoch)], none⟩) = u := ⟨_, rfl⟩
  obtain ⟨⟨hrules, hfaults, hagenda, hoptions, hwaiting, hanswered, hissued⟩, report, -, hparts, done,
      hdone, hwritten⟩ : (u.2.interference.rules = [] ∧ u.2.log.faults = [] ∧ u.2.time.agenda = [] ∧
        u.2.log.options.flowControlEvery = some 1 ∧ u.2.log.waiting = [] ∧ u.2.log.answered = [] ∧
        u.2.log.issued = 0) ∧
      ∃ report ∈ u.1.result.toOption, report.record.parts.toNat = 2 ∧
        ∃ done ∈ (Download.run .usual report.record .unlimited u.2).1.result.toOption,
          done.partsWritten = 2 := by
    subst hu
    decide +kernel
  have hfree : u.2.FaultFree := ⟨Exchange.grants_of_rules_nil hrules, hfaults, by
    simp [Timeline.coming, hagenda]⟩
  have hdownload : (Download.run .usual report.record .unlimited u.2).1.result = .ok done := by
    rcases h : (Download.run .usual report.record .unlimited u.2).1.result with why | done'
    · simp [h, Except.toOption] at hdone
    · rw [h] at hdone
      rw [Option.some.inj hdone]
  rcases ht : DownloadTask.of .usual report.record with why | t
  · simp [Download.run, ht, Download.failed] at hdownload
  obtain ⟨-, -, hrecord, -⟩ := DownloadTask.of_eq_ok_iff.1 ht
  exact ⟨report.record, u.2, t, done, hoptions, fun n hn => by simp [hwaiting] at hn, hfree, hissued,
    hanswered, ht, by rw [DownloadTask.parts, hrecord, hparts], hdownload, hwritten⟩

/-- Two messages, of which the first is doubled: its copy comes before the request, and the second one
after the reply, which is taken once.  A file of two octets in parts of one brings one request. -/
theorem flow_control_law_of_two :
    let r := Clients.run ⟨.new ⟨some 1, none⟩, []⟩ [.publish ⟨"a", KeyMap.empty, [7]⟩,
      .publish ⟨"a", KeyMap.empty, [8]⟩, .arm 1 .duplicate 1, .subscribe "a" .all, .look 0, .look 0,
      .look 0, .reply (.issued 1), .look 0, .reply (.issued 1)]
    (∃ m ∈ r.2[7]?, m.Answers 1) ∧ (sinceRequest (finds (looksOf 0 (r.2.take 6)))).length = 2 ∧
      r.1.log.answered.length + r.1.log.discarded = 2 ∧
      (∃ m ∈ r.2[9]?, m.after.log = { m.before.log with discarded := m.before.log.discarded + 1 }) ∧
      ∃ (record : FileRecord) (x : Exchange) (done : DownloadReport),
        (Download.run .usual record .unlimited x).1.result = .ok done ∧ done.partsWritten = 2 ∧
          done.flowReplies = 1 ∧
          (Download.run .usual record .unlimited x).2.log.answered.countP (0 < ·) = 1 := by
  intro r
  have htraffic : Traffic ⟨some 1, none⟩ r.1 ([] ++ r.2) := Traffic.begun.run _
  have hlaw := flow_control_law (n := 1) Nat.one_pos rfl htraffic
  have hasks : r.2 = r.2.take 6 ++ r.2[6] :: [r.2[7]] ++ r.2[8] :: [r.2[9]] := by decide
  have hlast : r.2 = r.2.take 9 ++ r.2[9] :: [] := by decide
  have hafter : r.2 = r.2.take 6 ++ r.2[6] :: r.2.drop 7 := by decide
  have hasked : (r.2[6].found.get (by decide)).replyTo = some (.issued 1) := by decide
  have hdoubled : ∀ f ∈ (sinceRequest (finds (looksOf 0 (r.2.take 6))))[0]?,
      f.1.Fires f.2.sequence .duplicate := by
    decide
  have hsplit : r.2.take 9 = r.2.take 7 ++ [r.2[7]] ++ [r.2[8]] := by decide
  have hgone : ∀ i, ¬ Pending (r.2.take 9) i 1 := fun i => by
    rw [hsplit, pending_concat, pending_concat]
    rintro (⟨-, h⟩ | ⟨⟨-, h⟩ | ⟨-, h, -⟩, -⟩)
    · exact absurd h (by decide)
    · exact absurd h (by decide)
    · exact h (by decide)
  refine ⟨?_, ?_, ?_, ?_, ?_⟩
  · obtain ⟨k, hk, m, hm, hanswers⟩ := hlaw.2.1 _ _ _ _ _ 0 _ hasks (by decide)
      (Option.some_get (by decide)).symm (by decide) (by decide) (by decide)
    obtain rfl := List.mem_singleton.1 hm
    obtain rfl := Address.issued.inj (Option.some.inj (hasked.symm.trans hk))
    exact ⟨_, rfl, hanswers⟩
  · obtain ⟨f, hf, hlength⟩ := hlaw.2.2.1 _ _ _ 0 _ hafter (by decide)
      (Option.some_get (by decide)).symm (by decide)
    rw [hlength, if_pos (hdoubled f hf)]
  · exact hlaw.2.2.2.2.1.trans (by decide)
  · refine ⟨r.2[9], rfl, (hlaw.2.2.2.2.2.1 _ _ _ (.issued 1) hlast (by decide)).2 fun i k hk => ?_⟩
    obtain rfl := Address.issued.inj hk
    exact hgone i
  · obtain ⟨record, x, t, done, hx, hnumbered, hfree, hissued, hanswered, ht, hlength, hdownload,
      hwritten⟩ := Download.exists_two_octets
    obtain ⟨hreplies, hcount⟩ := hlaw.2.2.2.2.2.2 _ _ _ _ _ _ hx hnumbered hfree ht hdownload
      (hwritten.trans hlength.symm)
    rw [hlength] at hreplies hcount
    rw [hissued, hanswered] at hcount
    exact ⟨record, x, done, hdownload, hwritten, hreplies, hcount⟩

end FileRelay
