import FileRelay.Log.Timeline
import FileRelay.Proofs.Log.Polling

/-!
# Proofs/Log/Relabelling — a log does not look at headers

Whatever is put in place of the headers of messages, a log numbers, delivers, leaves out, doubles and
delays the messages all the same: every operation of a log, of its readers and of a log in time
commutes with a relabelling of everything that carries headers (`Log.relabel`, `Subscription.relabel`,
`Timeline.relabel`).  Messages that the log sends of its own have no headers, so that a relabelling
must leave these as they are.
-/

namespace FileRelay

variable (f : Headers → Headers)

/-! ## Relabelled messages, readers and logs -/

/-- A message with other headers. -/
def Published.relabel (m : Published) : Published := { m with headers := f m.headers }

/-- A delivery with other headers. -/
def Delivery.relabel (d : Delivery) : Delivery := { d with headers := f d.headers }

/-- A reader that has a delivery with other headers to repeat. -/
def Subscription.relabel (s : Subscription) : Subscription :=
  { s with doubled := s.doubled.map (Delivery.relabel f) }

/-- A log whose messages have other headers. -/
def Log.relabel (l : Log) : Log := { l with messages := l.messages.map (Published.relabel f) }

/-- A deed that publishes a message with other headers. -/
def Deed.relabel : Deed → Deed
  | .publish m => .publish (m.relabel f)
  | .arm sequence fault times => .arm sequence fault times
  | .reply address => .reply address
  | .callOff => .callOff

/-- An agenda of deeds with other headers. -/
def Timeline.relabelAgenda (agenda : List (Nat × Deed)) : List (Nat × Deed) :=
  agenda.map fun e => (e.1, e.2.relabel f)

/-- A log in time with other headers, also of what is still to be published. -/
def Timeline.relabel (t : Timeline) : Timeline :=
  { t with log := t.log.relabel f, agenda := relabelAgenda f t.agenda }

/-- The end of a wait with other headers. -/
def Timeline.Waited.relabel : Timeline.Waited → Timeline.Waited
  | .delivery d => .delivery (d.relabel f)
  | .timeout => .timeout
  | .calledOff => .calledOff
  | .closed => .closed

/-! ## A log -/

namespace Log

variable {f}

@[simp] theorem relabel_size (l : Log) : (l.relabel f).messages.size = l.messages.size :=
  Array.size_map

theorem relabel_message? (l : Log) (n : Nat) :
    (l.relabel f).message? n = (l.message? n).map (Published.relabel f) := by
  unfold message?
  split
  · rfl
  · exact Array.getElem?_map

theorem relabel_publish (l : Log) (m : Published) :
    (l.relabel f).publish (m.relabel f) = ((l.publish m).1, (l.publish m).2.relabel f) := by
  simp [publish, relabel]

theorem relabel_arm (l : Log) (n : Nat) (fault : DeliveryFault) (times : Nat) :
    (l.relabel f).arm n fault times = (l.arm n fault times).relabel f := by
  unfold arm
  split <;> rfl

theorem relabel_reply (l : Log) (address : Address) :
    (l.relabel f).reply address = (l.reply address).relabel f := by
  unfold reply
  cases address with
  | issued n =>
    dsimp only
    rw [apply_ite (relabel f)]
    rfl
  | named text => rfl

theorem relabel_strike (l : Log) (n : Nat) :
    (l.relabel f).strike n = ((l.strike n).1, (l.strike n).2.relabel f) := by
  have hfaults : (l.relabel f).faults = l.faults := rfl
  unfold strike
  rw [hfaults]
  split <;> rfl

end Log

theorem Deed.relabel_act (deed : Deed) (l : Log) :
    (deed.relabel f).act (l.relabel f) = (deed.act l).relabel f := by
  cases deed with
  | publish m => exact congrArg Prod.snd (l.relabel_publish m)
  | arm sequence fault times => exact l.relabel_arm sequence fault times
  | reply address => exact l.relabel_reply address
  | callOff => rfl

/-! ## A reader -/

namespace Subscription

variable {f}

theorem relabel_corrupted (d : Delivery) : (d.relabel f).corrupted = d.corrupted.relabel f := by
  unfold Delivery.corrupted
  have hpayload : (d.relabel f).payload = d.payload := rfl
  rw [hpayload]
  split <;> rfl

theorem relabel_hand (s : Subscription) (m : Published) (n : Nat) (fault : Option DeliveryFault) :
    (s.relabel f).hand (m.relabel f, n) fault
      = ((s.hand (m, n) fault).1.relabel f, (s.hand (m, n) fault).2.relabel f) := by
  match fault with
  | some .corrupt =>
    exact Prod.ext (relabel_corrupted (.ofPublished m n (s.delivered + 1))) rfl
  | some .drop | some .duplicate | none => rfl

/-- **A reader finds the same message**, relabelled. -/
theorem relabel_scan (n : Nat) (s : Subscription) (l : Log) :
    (s.relabel f).scan n (l.relabel f) = ((s.scan n l).1.map (Delivery.relabel f),
      (s.scan n l).2.1.relabel f, (s.scan n l).2.2.relabel f) := by
  induction n generalizing s l with
  | zero => rfl
  | succ n ih =>
    have hread : (l.relabel f).message? (s.relabel f).cursor
        = (l.message? s.cursor).map (Published.relabel f) := l.relabel_message? _
    rcases hm : l.message? s.cursor with _ | m
    · rw [hm] at hread
      rw [scan_of_end hm, scan_of_end hread]
      rfl
    rw [hm] at hread
    by_cases hs : m.subject = s.subject
    swap
    · rw [scan_of_pass hm hs, scan_of_pass hread hs]
      exact ih { s with cursor := s.cursor + 1 } l
    have hstrike : (l.relabel f).strike (s.relabel f).cursor
        = ((l.strike s.cursor).1, (l.strike s.cursor).2.relabel f) := l.relabel_strike _
    rcases hf : l.strike s.cursor with ⟨fault, l₁⟩
    rw [hf] at hstrike
    by_cases hdrop : fault = some .drop
    · subst hdrop
      rw [scan_of_drop hm hs hf, scan_of_drop hread hs hstrike]
      exact ih { s with cursor := s.cursor + 1, delivered := s.delivered + 1 } l₁
    · rw [scan_of_hand hm hs hf hdrop, scan_of_hand hread hs hstrike hdrop]
      have hhand := relabel_hand (f := f) s m s.cursor fault
      exact Prod.ext (congrArg (some ·.1) hhand) (Prod.ext (congrArg (·.2) hhand) rfl)

theorem relabel_status (hf : f KeyMap.empty = KeyMap.empty) (kind : MessageKind) (subject : String)
    (replyTo : Option Address) :
    (Delivery.status kind subject replyTo).relabel f = .status kind subject replyTo := by
  simp [Delivery.relabel, Delivery.status, hf]

/-- **A look at the log comes to the same**, relabelled. -/
theorem relabel_poll (hf : f KeyMap.empty = KeyMap.empty) (s : Subscription) (l : Log) :
    (s.relabel f).poll (l.relabel f) = ((s.poll l).1.map (Delivery.relabel f),
      (s.poll l).2.1.relabel f, (s.poll l).2.2.relabel f) := by
  have hheld : (s.relabel f).held (l.relabel f) = s.held l := rfl
  have hdue : (s.relabel f).flowIsDue (l.relabel f) = s.flowIsDue l := rfl
  rw [poll_eq, poll_eq, hheld, hdue]
  split
  · rfl
  rcases hdoubled : s.doubled with _ | d
  · have hnone : (s.relabel f).doubled = none := by simp [relabel, hdoubled]
    rw [hnone]
    dsimp only
    split
    · simp only [askForReply, Option.map_some, relabel_status hf]
      rfl
    · rw [l.relabel_size]
      exact relabel_scan _ { s with awaiting := none, doubled := none } l
  · have hsome : (s.relabel f).doubled = some (d.relabel f) := by simp [relabel, hdoubled]
    rw [hsome]
    rfl

theorem relabel_ack (s : Subscription) (d : Delivery) (l : Log) :
    (s.relabel f).ack (d.relabel f) (l.relabel f) = (s.ack d l).map (Log.relabel f) := by
  unfold ack
  have hclosed : (s.relabel f).closed = s.closed := rfl
  have hkind : (d.relabel f).kind = d.kind := rfl
  rw [hclosed, hkind]
  split
  · rfl
  · split <;> rfl

theorem relabel_term (s : Subscription) (d : Delivery) (l : Log) :
    (s.relabel f).term (d.relabel f) (l.relabel f) = (s.term d l).map (Log.relabel f) := by
  unfold term
  have hclosed : (s.relabel f).closed = s.closed := rfl
  have hkind : (d.relabel f).kind = d.kind := rfl
  rw [hclosed, hkind]
  split
  · rfl
  · split <;> rfl

theorem relabel_unsubscribe (s : Subscription) (l : Log) :
    (s.relabel f).unsubscribe (l.relabel f)
      = ((s.unsubscribe l).1.relabel f, (s.unsubscribe l).2.relabel f) := by
  unfold unsubscribe
  have hclosed : (s.relabel f).closed = s.closed := rfl
  rw [hclosed]
  split <;> rfl

end Subscription

/-! ## A log in time -/

namespace Timeline

variable {f}

theorem relabel_perform (t : Timeline) (deed : Deed) :
    (t.relabel f).perform (deed.relabel f) = (t.perform deed).relabel f := by
  have hoff : (deed.relabel f = .callOff) = (deed = .callOff) := by
    cases deed <;> simp [Deed.relabel]
  unfold perform
  simp only [hoff]
  exact congrArg (fun l => Timeline.mk l _ _ _) (deed.relabel_act f t.log)

/-- What a wait leaves, relabelled. -/
def relabelWaited (f : Headers → Headers) (w : Waited × Subscription × Timeline) :
    Waited × Subscription × Timeline :=
  (w.1.relabel f, w.2.1.relabel f, w.2.2.relabel f)

theorem relabel_waited (hf : f KeyMap.empty = KeyMap.empty) (moment : Nat) (heartbeat : Bool)
    (s : Subscription) (t : Timeline) :
    waited moment heartbeat (s.relabel f) (t.relabel f)
      = relabelWaited f (waited moment heartbeat s t) := by
  cases heartbeat with
  | false => rfl
  | true =>
    have hstatus := Subscription.relabel_status hf .heartbeat s.subject none
    exact Prod.ext (congrArg Waited.delivery hstatus.symm) rfl

theorem relabel_isDue (moment : Nat) (agenda : List (Nat × Deed)) :
    isDue moment (relabelAgenda f agenda) = isDue moment agenda := by
  cases agenda <;> rfl

/-- A log in time after the first deed of an agenda. -/
def withDeed (t : Timeline) (due : Nat) (deed : Deed) (rest : List (Nat × Deed)) : Timeline :=
  { perform { t with now := max t.now due } deed with agenda := rest }

theorem relabel_withDeed (t : Timeline) (due : Nat) (deed : Deed) (rest : List (Nat × Deed)) :
    (t.relabel f).withDeed due (deed.relabel f) (relabelAgenda f rest)
      = (t.withDeed due deed rest).relabel f :=
  congrArg (fun u : Timeline => { u with agenda := relabelAgenda f rest })
    (relabel_perform { t with now := max t.now due } deed)

theorem waitUntil_cons (moment : Nat) (heartbeat : Bool) (due : Nat) (deed : Deed)
    (rest : List (Nat × Deed)) (s : Subscription) (t : Timeline) :
    waitUntil moment heartbeat ((due, deed) :: rest) s t =
      if moment ≤ due then waited moment heartbeat s { t with agenda := (due, deed) :: rest }
      else
        let t := t.withDeed due deed rest
        if isDue t.now rest then waitUntil moment heartbeat rest s t
        else if t.calledOff then (.calledOff, s, t)
        else
          let r := s.poll t.log
          match r.1 with
          | some d => (.delivery d, r.2.1, { t with log := r.2.2 })
          | none => waitUntil moment heartbeat rest r.2.1 { t with log := r.2.2 } := by
  rw [waitUntil]
  rfl

/-- **A wait ends with the same**, relabelled. -/
theorem relabel_waitUntil (hf : f KeyMap.empty = KeyMap.empty) (moment : Nat) (heartbeat : Bool)
    (agenda : List (Nat × Deed)) (s : Subscription) (t : Timeline) :
    waitUntil moment heartbeat (relabelAgenda f agenda) (s.relabel f) (t.relabel f)
      = relabelWaited f (waitUntil moment heartbeat agenda s t) := by
  induction agenda generalizing s t with
  | nil => exact relabel_waited hf moment heartbeat s { t with agenda := [] }
  | cons e rest ih =>
    obtain ⟨due, deed⟩ := e
    have hcons : relabelAgenda f ((due, deed) :: rest)
        = (due, deed.relabel f) :: relabelAgenda f rest := rfl
    rw [hcons, waitUntil_cons, waitUntil_cons, relabel_withDeed]
    generalize t.withDeed due deed rest = t₁
    have hnow : (t₁.relabel f).now = t₁.now := rfl
    have hoff : (t₁.relabel f).calledOff = t₁.calledOff := rfl
    have hlog : (t₁.relabel f).log = t₁.log.relabel f := rfl
    dsimp only
    rw [hnow, hoff, hlog, relabel_isDue, Subscription.relabel_poll hf]
    split
    · exact relabel_waited hf moment heartbeat s { t with agenda := (due, deed) :: rest }
    split
    · exact ih s t₁
    split
    · rfl
    rcases s.poll t₁.log with ⟨_ | d, s₂, l₂⟩
    · exact ih s₂ { t₁ with log := l₂ }
    · rfl

/-- **The next delivery is the same**, relabelled. -/
theorem relabel_next (hf : f KeyMap.empty = KeyMap.empty) (t : Timeline) (s : Subscription)
    (timeout : Nat) :
    (t.relabel f).next (s.relabel f) timeout = relabelWaited f (t.next s timeout) := by
  have hclosed : (s.relabel f).closed = s.closed := rfl
  have hoff : (t.relabel f).calledOff = t.calledOff := rfl
  have hlog : (t.relabel f).log = t.log.relabel f := rfl
  unfold next
  rw [hclosed, hlog, hoff, Subscription.relabel_poll hf]
  split
  · rfl
  rcases s.poll t.log with ⟨_ | d, s₁, l₁⟩
  · dsimp only [Option.map_none]
    split
    · rfl
    · exact relabel_waitUntil hf _ _ t.agenda s₁ { t with log := l₁ }
  · rfl

end Timeline

end FileRelay
