import FileRelay.Proofs.Transfer.Ending
import FileRelay.Proofs.Transfer.Entries

/-!
# Proofs/Transfer/Tidiness — a download leaves its log tidy, whatever its end

A download that has a log for itself enters in it what it does: one reader for its beginning and one for
each recovery, one refusal for each message that raises an anomaly, one acceptance for each part if its
settings ask for that, and one reply for each request.  Whatever ends it, its last reader is closed, and
no request is left that waits for a reply (`Download.leaves_log_tidy`).

All that is kept turn by turn (`Download.Tidy`): the account of the session and the events, and what has
been entered in the log, agree with the messages that the download has judged so far.
-/

namespace FileRelay

/-! ## Judgements -/

/-- What a download makes of a message. -/
inductive Verdict where
  /-- It is the next part, and its content was written. -/
  | accepted
  /-- It raises an anomaly. -/
  | refused (reason : Anomaly)
  /-- It is the next part, but its content could not be written. -/
  | unwritten
  deriving DecidableEq

/-- A message with what a download made of it. -/
structure Judgement where
  message : Delivery
  verdict : Verdict
  deriving DecidableEq

namespace Judgement

/-- Where a message that was accepted stands in the log. -/
def accepted? : Judgement → Option Nat
  | ⟨m, .accepted⟩ => some m.sequence
  | _ => none

/-- Where a message that raised an anomaly stands in the log. -/
def refused? : Judgement → Option Nat
  | ⟨m, .refused _⟩ => some m.sequence
  | _ => none

/-- **The places in the log of the messages that were accepted**, in order. -/
def accepted (js : List Judgement) : List Nat := js.filterMap accepted?

/-- **The places in the log of the messages that raised an anomaly**, in order. -/
def refused (js : List Judgement) : List Nat := js.filterMap refused?

section

variable (js : List Judgement) (m : Delivery)

theorem append_accepted : accepted (js ++ [⟨m, .accepted⟩]) = accepted js ++ [m.sequence] ∧
    refused (js ++ [⟨m, .accepted⟩]) = refused js := by
  simp [accepted, refused, accepted?, refused?]

theorem append_refused (reason : Anomaly) :
    accepted (js ++ [⟨m, .refused reason⟩]) = accepted js ∧
      refused (js ++ [⟨m, .refused reason⟩]) = refused js ++ [m.sequence] := by
  simp [accepted, refused, accepted?, refused?]

theorem append_unwritten : accepted (js ++ [⟨m, .unwritten⟩]) = accepted js ∧
    refused (js ++ [⟨m, .unwritten⟩]) = refused js := by
  simp [accepted, refused, accepted?, refused?]

end

end Judgement

open Judgement (accepted refused)

/-- Does an event tell of a recovery? -/
def Event.isRecovery : Event → Bool
  | recovering .. => true
  | _ => false

/-- Does an event tell of a reply? -/
def Event.isReply : Event → Bool
  | flowControl _ => true
  | _ => false

/-- What the log is told of the parts from these places: all of them, or nothing. -/
def DownloadTask.acknowledged (t : DownloadTask) (places : List Nat) : List Nat :=
  match t.config.ackPolicy with
  | .explicit => places
  | .none => []

namespace Download

/-- What a download makes of what it hears. -/
def judge (d : Download) : Heard → List Judgement
  | .data m =>
    match d.session.checkPart d.task.record m with
    | some (.ok data) =>
      match d.sink.writeAll data with
      | (.ok (), _) => [⟨m, .accepted⟩]
      | (.error _, _) => [⟨m, .unwritten⟩]
    | some (.error reason) => [⟨m, .refused reason⟩]
    | none => []
  | _ => []

section

variable {d : Download} {m : Delivery} {data : Bytes} {sink : Sink}

theorem judge_accepted (hc : d.session.checkPart d.task.record m = some (.ok data))
    (hw : d.sink.writeAll data = (.ok (), sink)) : d.judge (.data m) = [⟨m, .accepted⟩] := by
  simp only [judge, hc, hw]

theorem judge_unwritten {e : IoFault} (hc : d.session.checkPart d.task.record m = some (.ok data))
    (hw : d.sink.writeAll data = (.error e, sink)) : d.judge (.data m) = [⟨m, .unwritten⟩] := by
  simp only [judge, hc, hw]

theorem judge_refused {reason : Anomaly}
    (hc : d.session.checkPart d.task.record m = some (.error reason)) :
    d.judge (.data m) = [⟨m, .refused reason⟩] := by
  simp only [judge, hc]

/-- Only a message is judged. -/
theorem judge_of_not_data {heard : Heard} (h : ∀ m, heard ≠ .data m) : d.judge heard = [] := by
  cases heard with
  | data m => exact absurd rfl (h m)
  | _ => rfl

end

/-- **What a turn judges**: the message that it hears, if it hears one. -/
def judges (d : Download) (x : Exchange) : List Judgement :=
  if d.session.isComplete d.task.parts then [] else d.judge (d.listen x).1

/-- **All that a download judges**, from its first turn to its last. -/
def judgements (config : Config) (record : FileRecord) (sink : Sink) (x : Exchange) :
    List Judgement :=
  match DownloadTask.of config record with
  | .error _ => []
  | .ok task =>
    match x.subscribe task.subject task.origin with
    | (.error _, _) => []
    | (.ok reader, x) =>
      Turn.gather turn judges (task.patience x) (.of task sink reader x.time.now) x

/-! ## The account of a download -/

/-- **A download whose account is in order**: its session has counted the parts that it has accepted and
the anomalies that it has recovered from, its events tell of each recovery and each reply, and just this
has been entered in the log.  So many readers are open still, and so many anomalies were raised that the
budget had nothing left for. -/
structure Accounts (d : Download) (t : DownloadTask) (l l' : Log) (js : List Judgement)
    (stillOpen spent : Nat) : Prop where
  task : d.task = t
  counts : ∃ octets, d.session.Counts t.config.retryBudget.toNat t.origin (accepted js) octets
  refusals : (refused js).length = d.session.recoveries + spent
  recoveries : d.events.countP Event.isRecovery = d.session.recoveries
  replies : d.events.countP Event.isReply = d.flowReplies
  entered : l.Entered l' (1 + d.session.recoveries) stillOpen d.flowReplies (refused js)
    (t.acknowledged (accepted js))

/-- **A download that is tidy while it goes on**: its account is in order, with one reader open, and it
has answered every request. -/
structure Tidy (d : Download) (t : DownloadTask) (l : Log) (js : List Judgement) (x : Exchange) :
    Prop where
  accounts : d.Accounts t l x.log js 1 0
  solitary : x.Solitary
  isOpen : d.reader.closed = false
  cursor : 1 ≤ d.reader.cursor
  doubled : ∀ m, d.reader.doubled = some m → m.kind = .data
  answered : ∀ n, d.reader.awaiting = some n → n ∉ l.waiting
  past : d.lastActivity ≤ x.time.now

/-- **A download that is tidy at its end**, which has closed its reader: either it has recovered from
every anomaly, or the last one found its budget spent. -/
def TidyEnd (d : Download) (t : DownloadTask) (l l' : Log) (js : List Judgement) (why : Failure) :
    Prop :=
  (d.Accounts t l l' js 0 0 ∧ ∀ attempts parts octets, why ≠ .tooManyMismatches attempts parts octets) ∨
    (d.Accounts t l l' js 0 1 ∧ d.session.recoveries = t.config.retryBudget.toNat ∧
      ((∃ e, why = .io e) ∨ why = .tooManyMismatches d.session.recoveries d.session.partsWritten
        d.session.bytesWritten))

variable {d : Download} {t : DownloadTask} {l l' : Log} {js : List Judgement} {x x' : Exchange}

/-- Another download with the same account is in order as well. -/
theorem Accounts.same {d' : Download} {stillOpen spent : Nat}
    (h : d.Accounts t l l' js stillOpen spent) (ht : d'.task = d.task)
    (hs : ∃ state, d'.session = { d.session with state })
    (he : d'.events = d.events) (hf : d'.flowReplies = d.flowReplies) :
    d'.Accounts t l l' js stillOpen spent := by
  obtain ⟨state, hs⟩ := hs
  obtain ⟨octets, hcounts⟩ := h.counts
  refine ⟨ht.trans h.task, ⟨octets, hs ▸ hcounts.withState state⟩, ?_, ?_, ?_, ?_⟩
  · rw [hs, h.refusals]
  · rw [hs, he, h.recoveries]
  · rw [he, hf, h.replies]
  · rw [hs, hf]
    exact h.entered

/-- A part that could not be written makes no difference to an account. -/
theorem Accounts.unwritten {stillOpen spent : Nat} (h : d.Accounts t l l' js stillOpen spent)
    (m : Delivery) : d.Accounts t l l' (js ++ [⟨m, .unwritten⟩]) stillOpen spent := by
  obtain ⟨haccepted, hrefused⟩ := Judgement.append_unwritten js m
  exact ⟨h.task, haccepted ▸ h.counts, hrefused ▸ h.refusals, h.recoveries, h.replies,
    haccepted ▸ hrefused ▸ h.entered⟩

namespace Tidy

variable {s : Subscription} {m : Delivery} {x₁ : Exchange}

/-- A reader that has looked and made no request leaves a download tidy. -/
theorem looked (h : d.Tidy t l js x) (hl : d.reader.Looked x.log s x₁.log) (hx : x₁.Solitary)
    (hnow : x.time.now ≤ x₁.time.now) : { d with reader := s }.Tidy t l js x₁ where
  accounts := { h.accounts with entered := h.accounts.entered.of_faults hl.same }
  solitary := hx
  isOpen := hl.closed.trans h.isOpen
  cursor := hl.cursor h.cursor
  doubled := hl.doubled h.doubled
  answered n hn := h.answered n (hl.awaiting n hn)
  past := Nat.le_trans h.past hnow

/-- The requests of a tidy download wait no longer. -/
theorem not_waiting (h : d.Tidy t l js x) : ∀ n, d.reader.awaiting = some n → n ∉ x.log.waiting := by
  intro n hn
  rw [h.accounts.entered.waiting]
  exact h.answered n hn

/-- **Whoever is closed** leaves no reader open. -/
theorem closes (h : d.Tidy t l js x) (hc : (s, x') = x.unsubscribe d.reader) :
    d.Accounts t l x'.log js 0 0 := by
  have hlog := h.solitary.grants.unsubscribe_log h.isOpen h.not_waiting
  rw [← hc] at hlog
  exact { h.accounts with entered := hlog ▸ h.accounts.entered.close_reader }

/-- **Whoever refuses a message and is closed** has told the log which. -/
theorem refuses (h : d.Tidy t l js x) (hm : m.kind = .data)
    (hc : (s, x') = (x.term d.reader m).2.unsubscribe d.reader) :
    l.Entered x'.log (1 + d.session.recoveries) 0 d.flowReplies (refused js ++ [m.sequence])
      (t.acknowledged (accepted js)) := by
  have hterm := h.solitary.grants.term_log h.isOpen hm
  have hgrants := h.solitary.grants.of_rules (x.term_beside d.reader m).rules
  have hlog := hgrants.unsubscribe_log h.isOpen fun n hn => by
    rw [hterm]
    exact h.not_waiting n hn
  rw [← hc, hterm] at hlog
  rw [hlog]
  exact h.accounts.entered.term.close_reader

/-- **Whoever accepts a message** tells the log of it, if its settings ask for that. -/
theorem acknowledges (h : d.Tidy t l js x) (hm : m.kind = .data) :
    l.Entered (d.acknowledge m x).log (1 + d.session.recoveries) 1 d.flowReplies (refused js)
      (t.acknowledged (accepted js ++ [m.sequence])) := by
  have hentered := h.accounts.entered
  unfold acknowledge
  rw [h.accounts.task]
  unfold DownloadTask.acknowledged at hentered ⊢
  rcases hp : t.config.ackPolicy
  all_goals simp only [hp] at hentered ⊢
  · rw [h.solitary.grants.ack_log h.isOpen hm]
    exact hentered.ack
  · exact hentered

/-- **Whoever hears a request answers it**, and it waits no longer. -/
theorem answers (h : d.Tidy t l js x) {l₁ : Log} (hl : d.reader.Looked x.log s l₁)
    (hx : x₁.Solitary) (hlog : x₁.log = { l₁ with
      issued := x.log.issued + 1, waiting := (x.log.issued + 1) :: x.log.waiting })
    (hr : x₁.reply (.issued (x.log.issued + 1)) = (.ok (), x')) :
    l.Entered x'.log (1 + d.session.recoveries) 1 (d.flowReplies + 1) (refused js)
      (t.acknowledged (accepted js)) := by
  have hreply := hx.grants.reply_log (n := x.log.issued + 1) (by rw [hlog]; exact List.mem_cons_self)
  rw [hr, hlog] at hreply
  have hanswer := (h.accounts.entered.of_faults hl.same).answer
  have hissued : l₁.issued = x.log.issued := by rw [hl.same]
  have hwaiting : l₁.waiting = x.log.waiting := by rw [hl.same]
  rw [hissued] at hanswer
  rw [hreply]
  simpa [← hwaiting] using hanswer

/-- The next request of a tidy download is not one that waited before. -/
theorem fresh (h : d.Tidy t l js x) (hl : l.Numbered) : x.log.issued + 1 ∉ l.waiting := by
  intro hmem
  have := hl _ hmem
  rw [h.accounts.entered.issued] at this
  omega

/-- **A request more is answered**: the log and the events tell of it. -/
theorem replies (h : d.Tidy t l js x) (hl : l.Numbered) {l₁ : Log}
    (hlooked : d.reader.Looked x.log s l₁) (hx : x₁.Solitary) (hlog : x₁.log = { l₁ with
      issued := x.log.issued + 1, waiting := (x.log.issued + 1) :: x.log.waiting })
    (hr : x₁.reply (.issued (x.log.issued + 1)) = (.ok (), x')) (hb : x₁.Beside x')
    (file : String) :
    Tidy ({ stirred { d with
        reader := { s with awaiting := some (x.log.issued + 1), sinceFlow := 0 } } x₁ with
      flowReplies := d.flowReplies + 1 }.tell (.flowControl file)) t l js x' where
  accounts := {
    task := h.accounts.task
    counts := h.accounts.counts
    refusals := h.accounts.refusals
    recoveries := by simpa [tell, stirred, Event.isRecovery] using h.accounts.recoveries
    replies := by simpa [tell, stirred, Event.isReply] using h.accounts.replies
    entered := h.answers hlooked hx hlog hr }
  solitary := hx.beside hb
  isOpen := hlooked.closed.trans h.isOpen
  cursor := hlooked.cursor h.cursor
  doubled := hlooked.doubled h.doubled
  answered n hn := by
    obtain rfl : x.log.issued + 1 = n := Option.some.inj hn
    exact h.fresh hl
  past := Nat.le_of_eq hb.now.symm

/-- **A part more is accepted**: it is counted, and the log is told of it. -/
theorem accepts (h : d.Tidy t l js x) (hm : m.kind = .data) {n : Nat} {session : Session}
    (hs : d.session.accept? m.sequence n = some session) (hx : x.Beside (d.acknowledge m x))
    (sink : Sink) (digester : Digest.Digester) (file : String) (part parts bytes : Nat) :
    Tidy ({ d.stirred x with sink, session, digester }.tell (.partAccepted file part parts bytes)) t l
      (js ++ [⟨m, .accepted⟩]) (d.acknowledge m x) := by
  obtain ⟨octets, hcounts⟩ := h.accounts.counts
  obtain ⟨haccepted, hrefused⟩ := Judgement.append_accepted js m
  obtain ⟨-, -, hrecoveries⟩ := Session.accept?_counters hs
  have haccounts : Accounts ({ d.stirred x with sink, session, digester }.tell
      (.partAccepted file part parts bytes)) t l (d.acknowledge m x).log
      (js ++ [⟨m, .accepted⟩]) 1 0 := by
    refine ⟨h.accounts.task, ⟨octets + n, ?_⟩, ?_, ?_, ?_, ?_⟩
    · rw [haccepted]
      exact (hcounts.accept hs).1
    · rw [hrefused, h.accounts.refusals]
      exact congrArg (· + 0) hrecoveries.symm
    · simpa [tell, stirred, Event.isRecovery, hrecoveries] using h.accounts.recoveries
    · simpa [tell, stirred, Event.isReply] using h.accounts.replies
    · rw [haccepted, hrefused]
      simpa [tell, stirred, hrecoveries] using h.acknowledges hm
  exact ⟨haccounts, h.solitary.beside hx, h.isOpen, h.cursor, h.doubled, h.answered,
    Nat.le_of_eq hx.now.symm⟩

/-- **An anomaly more is recovered from**: the log is told of it, and a new reader is opened. -/
theorem recovers (h : d.Tidy t l js x) (hm : m.kind = .data) {p : Position} {session : Session}
    {reason : Anomaly} (hr : d.session.recover? = some (some p, session)) (hx : x.Beside x')
    (hreopen : ((x.term d.reader m).2.unsubscribe d.reader).2.subscribe d.task.subject p
      = (.ok (.fresh d.task.subject p), x')) (file : String) (place left : Nat) :
    Tidy { d.stirred x with
      reader := .fresh d.task.subject p, session := session.startReading
      events := d.events ++ [.recovering file reason place left] } t l
        (js ++ [⟨m, .refused reason⟩]) x' := by
  obtain ⟨octets, hcounts⟩ := h.accounts.counts
  obtain ⟨haccepted, hrefused⟩ := Judgement.append_refused js m reason
  obtain ⟨-, -, hrecoveries⟩ := Session.recover?_counters hr
  have hrefuses : l.Entered ((x.term d.reader m).2.unsubscribe d.reader).2.log
      (1 + d.session.recoveries) 0 d.flowReplies (refused js ++ [m.sequence])
      (t.acknowledged (accepted js)) := h.refuses hm rfl
  have hentered := hrefuses.open_reader
  have hgrants := (h.solitary.grants.of_rules (x.term_beside d.reader m).rules).of_rules
    (Exchange.unsubscribe_beside _ d.reader).rules
  have hlog := hgrants.subscribe_log d.task.subject p
  rw [hreopen] at hlog
  have haccounts : Accounts { d.stirred x with
      reader := .fresh d.task.subject p, session := session.startReading
      events := d.events ++ [.recovering file reason place left] } t l x'.log
      (js ++ [⟨m, .refused reason⟩]) 1 0 := by
    refine ⟨h.accounts.task, ⟨octets, ?_⟩, ?_, ?_, ?_, ?_⟩
    · rw [haccepted]
      exact (hcounts.recover hr).1.withState .reading
    · rw [hrefused, List.length_append, h.accounts.refusals, List.length_singleton]
      exact hrecoveries.symm
    · simpa [Event.isRecovery, Session.startReading, hrecoveries] using h.accounts.recoveries
    · simpa [stirred, Event.isReply] using h.accounts.replies
    · rw [haccepted, hrefused, hlog]
      simp only [Session.startReading, hrecoveries]
      exact hentered
  exact ⟨haccounts, h.solitary.beside hx, rfl, p.one_le_first, by rintro _ ⟨⟩, by rintro _ ⟨⟩,
    Nat.le_of_eq hx.now.symm⟩

/-- **An anomaly too many ends a download**: the log is told of it, and no reader is left open. -/
theorem givesUp (h : d.Tidy t l js x) (hm : m.kind = .data) {session : Session} {reason : Anomaly}
    {reader : Subscription} {why : Failure} (hr : d.session.recover? = some (none, session))
    (hwhy : (∃ e, why = .io e) ∨
      why = .tooManyMismatches session.recoveries session.partsWritten session.bytesWritten)
    (hclose : (reader, x') = (x.term d.reader m).2.unsubscribe d.reader) (sink : Sink) :
    TidyEnd { d.stirred x with sink, session, reader } t l x'.log (js ++ [⟨m, .refused reason⟩])
      why := by
  obtain ⟨octets, hcounts⟩ := h.accounts.counts
  obtain ⟨haccepted, hrefused⟩ := Judgement.append_refused js m reason
  obtain ⟨hcounts', hspent⟩ := hcounts.spent hr
  have hrecoveries := Session.recover?_spent hr
  refine .inr ⟨⟨h.accounts.task, ⟨octets, haccepted ▸ hcounts'⟩, ?_, ?_, ?_, ?_⟩, hspent, hwhy⟩
  · rw [hrefused, List.length_append, h.accounts.refusals, List.length_singleton]
    exact congrArg (· + 1) hrecoveries.symm
  · exact h.accounts.recoveries.trans hrecoveries.symm
  · exact h.accounts.replies
  · rw [haccepted, hrefused]
    simpa [hrecoveries, stirred] using h.refuses hm hclose

/-- **What a tidy download does with what it hears leaves it tidy**, or ends it tidily, unless a number
outgrows its word. -/
theorem acts {heard : Heard} {r : Turn Download} (h : d.Tidy t l js x) (hl : l.Numbered)
    (ha : Acts { d with reader := s } x₁ heard r x') (he : x.Enters d.reader heard s x₁)
    (hx : x₁.Solitary) (hnow : x.time.now ≤ x₁.time.now) :
    r.All (fun d' => d'.Tidy t l (js ++ d.judge heard) x')
      (fun d' => d'.Tidy t l (js ++ d.judge heard) x')
      (fun d' why => why = .overflow ∨ d'.TidyEnd t l x'.log (js ++ d.judge heard) why) := by
  have hbeside := ha.beside
  cases he with
  | request hlooked hs hlog =>
    subst hs
    rw [judge_of_not_data (by simp), List.append_nil]
    cases ha with
    | breaksOff _ hwhy =>
      obtain ⟨hoff, -⟩ | ⟨-, hbroken⟩ := hwhy
      · simp at hoff
      · obtain ⟨e, he⟩ := hbroken hx.grants
        simp at he
    | answers hr => exact h.replies hl hlooked hx hlog hr hbeside _
  | nothing hlooked hheard =>
    have hd := h.looked hlooked hx hnow
    cases ha with
    | breaksOff _ hwhy hclose =>
      obtain ⟨rfl, rfl⟩ | ⟨-, hbroken⟩ := hwhy
      · rw [judge_of_not_data (by simp), List.append_nil]
        exact .inr (.inl ⟨(hd.closes (hclose rfl)).same rfl ⟨.failed, rfl⟩ rfl rfl, by simp⟩)
      · obtain ⟨e, rfl⟩ := hbroken hx.grants
        simp at hheard
    | rests | tires =>
      rw [judge_of_not_data (by simp), List.append_nil]
      exact hd
    | passes => simp at hheard
    | answers hr => simp at hheard
    | accepts hc hw hs hb hack =>
      subst hack
      rw [judge_accepted (d := d) hc hw]
      exact hd.accepts (by simpa using hheard) hs hb _ _ _ _ _ _
    | @cannotWrite m _ _ _ _ _ hc hw _ hclose =>
      rw [judge_unwritten (d := d) hc hw]
      exact .inr (.inl ⟨((hd.closes hclose).unwritten m).same rfl ⟨.failed, rfl⟩ rfl rfl, by simp⟩)
    | outgrows => exact .inl rfl
    | recovers hc hr hb hreopen =>
      rw [judge_refused (d := d) hc]
      exact hd.recovers (by simpa using hheard) hr hb hreopen _ _ _
    | stranded _ _ _ hrules => exact absurd hx.grants hrules
    | cannotResume => exact .inl rfl
    | givesUp hc hr _ hwhy hclose =>
      rw [judge_refused (d := d) hc]
      refine .inr (hd.givesUp (by simpa using hheard) hr ?_ hclose _)
      obtain ⟨e, -, rfl⟩ | ⟨-, rfl⟩ := hwhy
      · exact .inl ⟨e, rfl⟩
      · exact .inr rfl

end Tidy

/-- **A turn of a tidy download leaves it tidy**, or ends it tidily, unless a number outgrows its word. -/
theorem Tidy.turn (h : d.Tidy t l js x) (hl : l.Numbered) :
    (d.turn x).1.All (fun d' => d'.Tidy t l (js ++ d.judges x) (d.turn x).2)
      (fun d' => d'.Tidy t l (js ++ d.judges x) (d.turn x).2)
      (fun d' why => why = .overflow ∨
        d'.TidyEnd t l (d.turn x).2.log (js ++ d.judges x) why) := by
  obtain ⟨hcomplete, hturn⟩ | ⟨d', x', hturn⟩ | ⟨hcomplete, ha⟩ := d.turn_cases x
  · rw [hturn, judges, if_pos hcomplete, List.append_nil]
    exact h
  · rw [hturn]
    exact .inl rfl
  have hh : x.Hears d.reader d.task.config.readTimeoutMs.toNat (d.listen x).1 (d.listen x).2.1
    (d.listen x).2.2 := Exchange.hear_hears h.cursor h.isOpen
  have henters := (hh.listens h.solitary.grants h.doubled).enters h.solitary
  have halone := h.solitary.hears hh
  have hnow := hh.passes.1
  rw [judges, hcomplete]
  simp only [Bool.false_eq_true, ↓reduceIte]
  generalize (d.listen x).1 = heard at *
  generalize (d.listen x).2.1 = s at *
  generalize (d.listen x).2.2 = x₁ at *
  generalize (d.turn x).1 = r at *
  generalize (d.turn x).2 = x₂ at *
  exact h.acts hl ha henters halone hnow

/-! ## The end of a download -/

/-- How often an outcome tells of a recovery. -/
def Outcome.recoveries (o : Outcome) : Nat := o.events.countP Event.isRecovery

/-- How often an outcome tells of a reply. -/
def Outcome.replies (o : Outcome) : Nat := o.events.countP Event.isReply

/-- **A log that a download has left tidy.**  A reader was opened for the beginning and for each
recovery, and all are closed; each request was answered; the log was told of just the messages that
raised an anomaly and, if the settings ask for that, of just the parts that were accepted; nothing else
has changed but the faults.  Each anomaly was recovered from, but for one that found the budget spent;
and the result tells of the same. -/
structure LeavesTidy (t : DownloadTask) (l l' : Log) (js : List Judgement) (o : Outcome) : Prop where
  entered : l.Entered l' (1 + o.recoveries) 0 o.replies (refused js) (t.acknowledged (accepted js))
  refusals : (refused js).length = o.recoveries ∨
    ((refused js).length = o.recoveries + 1 ∧ o.recoveries = t.config.retryBudget.toNat ∧
      ((∃ e, o.result = .error (.io e)) ∨
        ∃ octets, o.result = .error (.tooManyMismatches o.recoveries (accepted js).length octets)))
  spent : ∀ attempts parts octets,
    o.result = .error (.tooManyMismatches attempts parts octets) →
      attempts = o.recoveries ∧ parts = (accepted js).length ∧
        (refused js).length = o.recoveries + 1
  reported : ∀ report, o.result = .ok report →
    report.recoveries = o.recoveries ∧ report.flowReplies = o.replies ∧
      report.partsWritten = (accepted js).length ∧
      report.firstSequence = (accepted js).head? ∧ report.lastSequence = (accepted js).getLast? ∧
      (refused js).length = o.recoveries

/-- An event of another kind makes no difference to an account. -/
theorem Accounts.tell {e : Event} {stillOpen spent : Nat} (h : d.Accounts t l l' js stillOpen spent)
    (he : e.isRecovery = false ∧ e.isReply = false) :
    (d.tell e).Accounts t l l' js stillOpen spent := by
  refine ⟨h.task, h.counts, h.refusals, ?_, ?_, h.entered⟩
  · simpa [Download.tell, he.1] using h.recoveries
  · simpa [Download.tell, he.2] using h.replies

/-- **A tidy download that finishes** has its account in order and no reader open. -/
theorem Tidy.finish (h : d.Tidy t l js x) :
    (d.finish x).2.1.Accounts t l (d.finish x).2.2.log js 0 0 := by
  have hclosed : d.Accounts t l (x.unsubscribe d.reader).2.log js 0 0 := h.closes rfl
  unfold Download.finish
  dsimp only
  split
  · exact hclosed.same rfl ⟨d.session.state, rfl⟩ rfl rfl
  · have hflushed : Accounts { (d.close x).1 with
        sink := (d.close x).1.sink.flush.2, session := d.session.finish } t l
        (x.unsubscribe d.reader).2.log js 0 0 := hclosed.same rfl ⟨.done, rfl⟩ rfl rfl
    exact hflushed.tell ⟨rfl, rfl⟩

/-- **A download that failed tidily** leaves the log tidy. -/
theorem TidyEnd.leaves {why : Failure} (h : d.TidyEnd t l l' js why) (file : String) (sink : Sink) :
    LeavesTidy t l l' js (failed file why d.events sink) := by
  obtain ⟨n, haccounts⟩ : ∃ n, d.Accounts t l l' js 0 n := h.elim (⟨0, ·.1⟩) (⟨1, ·.1⟩)
  obtain ⟨octets, hcounts⟩ := haccounts.counts
  have hrecoveries : (failed file why d.events sink).recoveries = d.session.recoveries := by
    simpa [failed, Outcome.recoveries, Event.isRecovery] using haccounts.recoveries
  have hreplies : (failed file why d.events sink).replies = d.flowReplies := by
    simpa [failed, Outcome.replies, Event.isReply] using haccounts.replies
  refine ⟨?_, ?_, ?_, by rintro _ ⟨⟩⟩
  · rw [hrecoveries, hreplies]
    exact haccounts.entered
  · rw [hrecoveries]
    obtain ⟨hall, -⟩ | ⟨hspent, hbudget, hwhy⟩ := h
    · exact .inl hall.refusals
    · refine .inr ⟨hspent.refusals, hbudget, hwhy.imp (fun hio => ?_) fun heq => ?_⟩
      · obtain ⟨e, rfl⟩ := hio
        exact ⟨e, rfl⟩
      · exact ⟨d.session.bytesWritten, by rw [heq, hcounts.partsWritten]; rfl⟩
  · intro attempts parts octets heq
    obtain rfl : why = .tooManyMismatches attempts parts octets := Except.error.inj heq
    rw [hrecoveries]
    obtain ⟨-, hother⟩ | ⟨hspent, -, ⟨e, he⟩ | heq⟩ := h
    · exact absurd rfl (hother _ _ _)
    · simp at he
    · obtain ⟨rfl, rfl, -⟩ := Failure.tooManyMismatches.inj heq
      exact ⟨rfl, hcounts.partsWritten, hspent.refusals⟩

/-- **A download that ends with a report** leaves the log tidy. -/
theorem Accounts.leaves (h : d.Accounts t l l' js 0 0) (sink : Sink) :
    LeavesTidy t l l' js ⟨.ok d.report, d.events, sink⟩ := by
  obtain ⟨octets, hcounts⟩ := h.counts
  have hrecoveries : Outcome.recoveries ⟨.ok d.report, d.events, sink⟩ = d.session.recoveries :=
    h.recoveries
  have hreplies : Outcome.replies ⟨.ok d.report, d.events, sink⟩ = d.flowReplies := h.replies
  refine ⟨?_, ?_, nofun, ?_⟩
  · rw [hrecoveries, hreplies]
    exact h.entered
  · rw [hrecoveries]
    exact .inl h.refusals
  · rintro _ ⟨⟩
    exact ⟨hrecoveries.symm, hreplies.symm, hcounts.partsWritten, hcounts.firstSequence,
      hcounts.lastSequence, h.refusals.trans hrecoveries.symm⟩

/-! ## Downloads that end -/

variable {config : Config} {record : FileRecord} {sink : Sink}

/-- A download that has begun is tidy. -/
theorem tidy_of (sink : Sink) (hx : x.Solitary)
    (hs : x.subscribe t.subject t.origin = (.ok (.fresh t.subject t.origin), x')) :
    (Download.of t sink (.fresh t.subject t.origin) x'.time.now).Tidy t x.log [] x' := by
  have hlog := hx.grants.subscribe_log t.subject t.origin
  have hb := x.subscribe_beside t.subject t.origin
  rw [hs] at hlog hb
  have hentered := (Log.Entered.refl x.log).open_reader
  rw [← hlog] at hentered
  refine ⟨⟨rfl, ⟨0, (Session.counts_new _ _).withState .reading⟩, rfl, rfl, rfl, ?_⟩, hx.beside hb,
    rfl, t.origin.one_le_first, nofun, nofun, Nat.le_refl _⟩
  have hnone : t.acknowledged [] = [] := by
    unfold DownloadTask.acknowledged
    split <;> rfl
  exact hnone.symm ▸ hentered

/-- A tidy download listens. -/
theorem Tidy.attends (h : d.Tidy t l js x) : d.Attends t l.options x :=
  ⟨h.accounts.task, h.solitary.grants, by rw [h.accounts.entered], h.past,
    ⟨h.cursor, h.doubled⟩, h.isOpen⟩

/-- **Where silences last, a tidy download ends.** -/
theorem Tidy.ends (h : d.Tidy t l [] x) (hbeat : 0 < t.beat l.options) {n : Nat}
    (hn : d.ahead t l.options x < n) :
    (Turn.takeTurns Download.turn n d x).1.All (fun _ => False) (fun _ => True)
      (fun _ why => why ≠ .stalled) := by
  have hcloser := h.attends.ends hbeat hn
  have hnever := Turn.takeTurns_all (P := fun _ _ => True) (D := fun _ _ => True)
    (B := fun _ why _ => why ≠ .stalled) (fun d x _ => d.turn_not_stalled x) n (s := d) (x := x)
    trivial
  exact (hcloser.and hnever).imp (fun _ h => h.1) (fun _ h => h.1) fun _ _ h => h.2

/-- **Parts of a valid record outgrow no counter**, if the places of the log are words. -/
theorem InStep.fits {before : Bytes} {as : List Accepted} (h : d.InStep t before x.log as)
    (ht : t.record.Tiled) (hsize : x.log.messages.size + 1 < Word.limit) :
    (d.turn x).1.All (fun _ => True) (fun _ => True) (fun _ why => why ≠ .overflow) := by
  rcases hcomplete : d.session.isComplete d.task.parts
  swap
  · rw [turn_of_complete hcomplete]
    trivial
  obtain ⟨heard, s, x₁, -, ha⟩ := turn_acts (h.holds.task ▸ ht) hcomplete h.one_le_cursor h.isOpen
  generalize (d.turn x).1 = r at ha ⊢
  generalize (d.turn x).2 = x₂ at ha
  cases ha with
  | breaksOff _ hwhy => obtain ⟨-, rfl⟩ | ⟨⟨e, rfl⟩, -⟩ := hwhy <;> simp [Turn.All]
  | givesUp _ _ _ hwhy => obtain ⟨e, -, rfl⟩ | ⟨-, rfl⟩ := hwhy <;> simp [Turn.All]
  | outgrows hc _ hs => exact absurd hs (h.holds.accept?_ne_none_of_checkPart ht hc)
  | cannotResume _ hr => exact absurd hr (h.holds.recover?_ne_none hsize)
  | cannotWrite | stranded => simp [Turn.All]
  | rests | passes | answers | accepts | recovers | tires => trivial

theorem Tidy.fits {before : Bytes} {as : List Accepted} (h : d.Tidy t l [] x) (hl : l.Numbered)
    (hin : d.InStep t before x.log as) (ht : t.record.Tiled)
    (hsize : l.messages.size + 1 < Word.limit) (n : Nat) :
    (Turn.takeTurns Download.turn n d x).1.All (fun _ => True) (fun _ => True)
      (fun _ why => why ≠ .overflow) := by
  have hstep : ∀ (d : Download) (x : Exchange),
      ((∃ js, d.Tidy t l js x) ∧ ∃ as, d.InStep t before x.log as) → (d.turn x).1.All
        (fun d' => (∃ js, d'.Tidy t l js (d.turn x).2) ∧
          ∃ as, d'.InStep t before (d.turn x).2.log as)
        (fun _ => True) (fun _ why => why ≠ .overflow) := by
    rintro d x ⟨⟨js, hd⟩, as, hin⟩
    have hmessages : x.log.messages = l.messages := by rw [hd.accounts.entered]
    have hkeeps := (hd.turn hl).and (hin.turn ht hd.solitary.grants.honest)
    exact (hkeeps.and (hin.fits ht (hmessages ▸ hsize))).imp (fun _ h => ⟨⟨_, h.1.1⟩, h.1.2⟩)
      (fun _ _ => trivial) fun _ _ h => h.2
  exact (Turn.takeTurns_all (D := fun _ _ => True) (B := fun _ why _ => why ≠ .overflow) hstep n
    ⟨⟨[], h⟩, as, hin⟩).imp (fun _ _ => trivial) (fun _ h => h) fun _ _ h => h

/-- **What a tidy download comes to**, if it has an end and outgrows no word: a failure or a report, with
its account in order and no reader open. -/
theorem Tidy.complete (h : d.Tidy t l [] x) (hl : l.Numbered) :
    (d.complete x).1 = .error .overflow ∨ (d.complete x).1 = .error .stalled ∨
      (∃ why, (d.complete x).1 = .error why ∧ (d.complete x).2.1.TidyEnd t l (d.complete x).2.2.log
        (Turn.gather Download.turn judges (d.task.patience x) d x) why) ∨
      ((d.complete x).1 = .ok (d.complete x).2.1.report ∧
        (d.complete x).2.1.Accounts t l (d.complete x).2.2.log
          (Turn.gather Download.turn judges (d.task.patience x) d x) 0 0) := by
  have hleft := Turn.takeTurns_gather (P := fun js d y => Tidy d t l js y)
    (D := fun js d y => Tidy d t l js y)
    (B := fun js d why y => why = .overflow ∨ TidyEnd d t l y.log js why)
    (fun js d y hd => hd.turn hl) (d.task.patience x) h
  rw [List.nil_append] at hleft
  generalize Turn.gather Download.turn judges (d.task.patience x) d x = js at *
  unfold Download.complete
  split
  all_goals rename_i d' x' he; rw [he] at hleft
  · exact .inr (.inl rfl)
  · obtain rfl | hend := hleft
    · exact .inl rfl
    · exact .inr (.inr (.inl ⟨_, rfl, hend⟩))
  · have haccounts := Tidy.finish hleft
    obtain ⟨e, -, hfst⟩ | ⟨-, hfst⟩ := d'.finish_fst x'
    · exact .inr (.inr (.inl ⟨_, hfst, .inl ⟨haccounts, nofun⟩⟩))
    · exact .inr (.inr (.inr ⟨hfst, haccounts⟩))

/-- **A download is broken off as its last turn says**, if that is none that finishes. -/
theorem complete_error {why : Failure} (h : (d.complete x).1 = .error why)
    (hwhy : ∀ e, why ≠ .io e) (hends : (Turn.takeTurns Download.turn (d.task.patience x) d x).1.All
      (fun _ => why ≠ .stalled) (fun _ => True) (fun _ why' => why' ≠ why)) : False := by
  unfold Download.complete at h
  split at h
  all_goals rename_i d' x' he; rw [he] at hends
  · exact hends (Except.error.inj h).symm
  · exact hends (Except.error.inj h)
  · obtain ⟨e, -, hfst⟩ | ⟨-, hfst⟩ := d'.finish_fst x'
    · exact hwhy e (Except.error.inj (h.symm.trans hfst))
    · simp [hfst] at h

/-- **A tidy download leaves the log tidy**, if it has an end and outgrows no word. -/
theorem Tidy.leaves {reader : Subscription} (h : DownloadTask.of config record = .ok t)
    (hs : x.subscribe t.subject t.origin = (.ok reader, x'))
    (htidy : (Download.of t sink reader x'.time.now).Tidy t l [] x') (hl : l.Numbered)
    (hfits : (run config record sink x).1.result ≠ .error .overflow)
    (hends : (run config record sink x).1.result ≠ .error .stalled) :
    LeavesTidy t l (run config record sink x).2.log (judgements config record sink x)
      (run config record sink x).1 := by
  rw [run_result h hs] at hfits hends
  have hjudgements : judgements config record sink x = Turn.gather Download.turn judges
      (t.patience x') (.of t sink reader x'.time.now) x' := by
    simp only [judgements, h, hs]
  have hcomplete := htidy.complete hl
  rw [hjudgements, run_eq h hs]
  rcases hc : (Download.of t sink reader x'.time.now).complete x' with ⟨result, d, y⟩
  rw [hc] at hcomplete hfits hends
  dsimp only at hcomplete hfits hends
  obtain rfl | rfl | ⟨why, rfl, hend⟩ | ⟨rfl, haccounts⟩ := hcomplete
  · exact absurd rfl hfits
  · exact absurd rfl hends
  · exact hend.leaves record.id d.sink
  · exact haccounts.leaves d.sink

/-- **A download leaves its log tidy, whatever its end.**  It has the log for itself, any faults are
armed, it may be called off at any moment and at any of its calls, and its sink may fail.  If its
settings are not valid, or its record has no digest of a known algorithm, then it leaves everything as
it was.  Otherwise it leaves the log tidy, unless it has no end or a number outgrows its word; it has an
end if heartbeats do not come at once, and no number outgrows its word if the record is valid. -/
theorem leaves_log_tidy (sink : Sink) (hx : x.Solitary) (hn : x.log.Numbered) :
    (∀ why, DownloadTask.of config record = .error why → (run config record sink x).2 = x) ∧
    ∀ t, DownloadTask.of config record = .ok t →
      ((run config record sink x).1.result ≠ .error .overflow →
        (run config record sink x).1.result ≠ .error .stalled →
          LeavesTidy t x.log (run config record sink x).2.log (judgements config record sink x)
            (run config record sink x).1) ∧
      (x.log.options.idleHeartbeatMs ≠ some 0 →
        (run config record sink x).1.result ≠ .error .stalled) ∧
      (record.validate = .ok () → x.log.messages.size + 1 < Word.limit →
        (run config record sink x).1.result ≠ .error .overflow) := by
  refine ⟨fun why h => by rw [run, h], fun t h => ?_⟩
  obtain ⟨x', hs⟩ := hx.grants.subscribe_eq t.subject t.origin
  have htidy := tidy_of sink hx hs
  have hresult : (run config record sink x).1.result = _ := run_result h hs
  refine ⟨htidy.leaves h hs hn, fun ho hstalled => ?_, fun hv hsize hoverflow => ?_⟩
  · obtain ⟨hconfig, rfl, -⟩ := DownloadTask.of_eq_ok_iff.1 h
    have hoptions : x'.log.options = x.log.options := by rw [htidy.accounts.entered]
    have hends := htidy.ends (DownloadTask.beat_pos hconfig ho)
      (hoptions ▸ ahead_of_lt_patience t sink x')
    exact complete_error (hresult.symm.trans hstalled) (by simp)
      (hends.imp (fun _ h => h.elim) (fun _ h => h) fun _ _ h => h)
  · obtain ⟨-, -, rfl, -⟩ := DownloadTask.of_eq_ok_iff.1 h
    have hfits := htidy.fits hn (inStep_of t sink _ x'.log) (FileRecord.tiled_of_validate hv) hsize
      (t.patience x')
    exact complete_error (hresult.symm.trans hoverflow) (by simp)
      (hfits.imp (fun _ _ => by simp) (fun _ h => h) fun _ _ h => h)

/-- A download of a message without a label is called off while it refuses the message for the third
time: three refusals, one reader more than recoveries, and none is open. -/
theorem leaves_log_tidy_of_called_off : ∃ (record : FileRecord) (x : Exchange) (t : DownloadTask),
    x.Solitary ∧ x.log.Numbered ∧ DownloadTask.of .usual record = .ok t ∧
      (run .usual record .unlimited x).1.result = .error .cancelled ∧
      LeavesTidy t x.log (run .usual record .unlimited x).2.log
        (judgements .usual record .unlimited x) (run .usual record .unlimited x).1 ∧
      (run .usual record .unlimited x).2.log.terms = [1, 1, 1] ∧
      (run .usual record .unlimited x).2.log.opened = 4 ∧
      (run .usual record .unlimited x).2.log.stillOpen = 0 := by
  let record : FileRecord := ⟨"id", "name", "", "", 5, 1, 65536, 5, .epoch, some "SHA-256",
    some "00", none⟩
  let x : Exchange := ((Exchange.new default .empty).prepared [⟨.term, 3, .callOff⟩]).withLog
    ((Log.new default).publish ⟨"parts.id", KeyMap.empty, []⟩).2
  have ht : DownloadTask.of .usual record = .ok ⟨.usual, record, ⟨"SHA-256", "00"⟩, .sha256⟩ := by
    decide
  have hx : x.Solitary := ⟨fun r hr => .inl (by rw [List.mem_singleton.1 hr]), nofun⟩
  have hn : x.log.Numbered := fun _ hn => absurd hn List.not_mem_nil
  have hresult : (run .usual record .unlimited x).1.result = .error .cancelled := by decide +kernel
  have htidy := ((leaves_log_tidy .unlimited hx hn).2 _ ht).1 (by rw [hresult]; nofun)
    (by rw [hresult]; nofun)
  refine ⟨record, x, _, hx, hn, ht, hresult, htidy, ?_, ?_, ?_⟩
  · decide +kernel
  · decide +kernel
  · decide +kernel

end Download

end FileRelay
