import FileRelay.Proofs.Log.Waiting

/-!
# Proofs/Log/Silence — how long a reader waits for which nothing comes

Nothing comes for a reader before a moment when it finds nothing whenever it looks until then
(`Timeline.Quiet`).  However often it is woken by what others do, it waits exactly as long as it was
told, and nothing comes for it still (`Timeline.Quiet.next`).

That is so for a reader that has read all of its subject while others publish elsewhere, arm faults
and reply (`Subscription.Idle.quiet`).
-/

namespace FileRelay

variable {s s' : Subscription} {l l' : Log}

namespace Subscription

/-- **A reader that has looked in vain**, and to which another look makes no difference. -/
def Settled (s : Subscription) (l : Log) : Prop := s.poll l = (none, s, l)

/-- A reader behind the end of the log that has nothing to repeat and nothing to ask for. -/
theorem settled_of_end (ha : s.awaiting = none) (hd : s.doubled = none) (hf : s.flowIsDue l = false)
    (hend : l.messages.size < s.cursor) : s.Settled l := by
  have hheld : s.held l = false := by simp [held, ha]
  have hsame : { s with awaiting := none } = s := by rw [← ha]
  have hzero : l.messages.size + 1 - s.cursor = 0 := by omega
  rw [Settled, poll_eq, hheld, hsame, hd, hf, hzero]
  rfl

/-- **Looking in vain once is enough.** -/
theorem Polls.settled (h : s.Polls l none s' l') : s'.Settled l' := by
  have hsize := congrArg Array.size h.messages
  have hoptions := h.options
  cases h with
  | held hh => rw [Settled, poll_eq, if_pos hh]
  | scanned _ hd hf hs =>
    cases hs with
    | drained =>
      have hdue : ¬ s.flowIsDue l' = true := fun hdue =>
        Bool.eq_false_iff.1 hf (flowIsDue_iff.2 (hoptions ▸ flowIsDue_iff.1 hdue))
      exact settled_of_end rfl hd (Bool.eq_false_iff.2 hdue) (by simp only; omega)

end Subscription

namespace Timeline

/-- **Nothing comes for a reader before a moment** that waits, with an agenda: it finds nothing
whenever it looks, which it does as soon as others have done all that is due at one moment. -/
def Unserved (last : Nat) : List (Nat × Deed) → Nat → Subscription → Log → Prop
  | [], _, _, _ => True
  | (due, deed) :: rest, now, s, l =>
    due < last →
      if isDue (max now due) rest then Unserved last rest (max now due) s (deed.act l)
      else (s.poll (deed.act l)).1 = none ∧
        Unserved last rest (max now due) (s.poll (deed.act l)).2.1 (s.poll (deed.act l)).2.2

/-- **Nothing comes for a reader before a moment**: it finds nothing now nor when others have done
something, and until then nobody calls off. -/
structure Quiet (t : Timeline) (s : Subscription) (last : Nat) : Prop where
  vain : (s.poll t.log).1 = none
  unserved : Unserved last t.agenda t.now (s.poll t.log).2.1 (s.poll t.log).2.2
  calledOff : t.calledOff = false
  stays : ∀ e ∈ t.agenda, e.1 < last → e.2 ≠ .callOff

variable {t : Timeline} {last moment : Nat}

/-- What has not come by a later moment makes no difference. -/
theorem Unserved.later {agenda : List (Nat × Deed)} {now : Nat}
    (h : Unserved last agenda now s l) (hm : now ≤ moment)
    (hnext : ∀ e ∈ agenda.head?, moment ≤ e.1) : Unserved last agenda moment s l := by
  rcases agenda with _ | ⟨⟨due, deed⟩, rest⟩
  · trivial
  · have hdue : moment ≤ due := hnext _ rfl
    have hmax : max moment due = max now due := by omega
    rw [Unserved, hmax]
    exact h

/-- A reader that has looked in vain is quiet if nothing comes for it. -/
theorem quiet_of_settled (hs : s.Settled t.log) (hun : Unserved last t.agenda t.now s t.log)
    (hoff : t.calledOff = false) (hstays : ∀ e ∈ t.agenda, e.1 < last → e.2 ≠ .callOff) :
    t.Quiet s last where
  vain := by rw [hs]
  unserved := by
    rw [hs]
    exact hun
  calledOff := hoff
  stays := hstays

/-- **A silence**: a wait that ends at a moment with a heartbeat, or without one, after which nothing
comes still. -/
structure Silence (last moment : Nat) (r : Waited × Subscription × Timeline) : Prop where
  nothing : r.1 = .timeout ∨ r.1 = .delivery (.status .heartbeat r.2.1.subject none)
  now : r.2.2.now = moment
  quiet : r.2.2.Quiet r.2.1 last

/-- The end of a wait in which nothing came. -/
theorem waited_silence (hs : s.Settled t.log) (hun : Unserved last t.agenda t.now s t.log)
    (hoff : t.calledOff = false) (hstays : ∀ e ∈ t.agenda, e.1 < last → e.2 ≠ .callOff)
    (hnow : t.now ≤ moment) (hnext : ∀ e ∈ t.agenda.head?, moment ≤ e.1) (heartbeat : Bool) :
    Silence last moment (waited moment heartbeat s t) := by
  have hmax : max t.now moment = moment := Nat.max_eq_right hnow
  have hquiet : Quiet { t with now := max t.now moment } s last :=
    quiet_of_settled hs (hmax.symm ▸ hun.later hnow hnext) hoff hstays
  unfold waited
  dsimp only
  split
  · exact ⟨.inr rfl, hmax, hquiet⟩
  · exact ⟨.inl rfl, hmax, hquiet⟩

/-- **A wait with an agenda from which nothing comes** lasts up to its moment: what others do wakes the
reader, but does not end the wait. -/
theorem waitUntil_silence {agenda : List (Nat × Deed)} (hag : t.agenda = agenda)
    (hc : 1 ≤ s.cursor) (hlook : s.Settled t.log ∨ isDue t.now agenda = true)
    (hun : Unserved last agenda t.now s t.log) (hoff : t.calledOff = false)
    (hstays : ∀ e ∈ agenda, e.1 < last → e.2 ≠ .callOff) (hnow : t.now < moment)
    (hle : moment ≤ last) (heartbeat : Bool) :
    Silence last moment (waitUntil moment heartbeat agenda s t) := by
  induction agenda generalizing s t with
  | nil =>
    have hsettled : s.Settled t.log := by simpa [isDue] using hlook
    rw [waitUntil, ← hag]
    exact waited_silence hsettled (hag ▸ hun) hoff (hag ▸ hstays) (Nat.le_of_lt hnow) (by simp [hag])
      heartbeat
  | cons e rest ih =>
    obtain ⟨due, deed⟩ := e
    rw [waitUntil]
    split
    · rename_i hlater
      have hsettled : s.Settled t.log := hlook.resolve_right fun hdue => by
        simp only [isDue, decide_eq_true_eq] at hdue
        omega
      rw [← hag]
      exact waited_silence hsettled (hag ▸ hun) hoff (hag ▸ hstays) (Nat.le_of_lt hnow)
        (by simpa [hag] using hlater) heartbeat
    · rename_i hdue
      replace hdue := Nat.lt_of_not_le hdue
      have hlast : due < last := Nat.lt_of_lt_of_le hdue hle
      have hoff₁ : (perform { t with now := max t.now due } deed).calledOff = false := by
        simp [perform, hoff, hstays (due, deed) List.mem_cons_self hlast]
      have hstays₁ : ∀ e ∈ rest, e.1 < last → e.2 ≠ .callOff := fun e he =>
        hstays e (List.mem_cons_of_mem _ he)
      have hnow₁ : max t.now due < moment := Nat.max_lt.2 ⟨hnow, hdue⟩
      replace hun := hun hlast
      dsimp only
      split
      · rename_i hmore
        rw [perform_now] at hmore
        rw [if_pos hmore] at hun
        exact ih rfl hc (.inr hmore) hun hoff₁ hstays₁ hnow₁
      · rename_i hmore
        rw [perform_now] at hmore
        rw [if_neg hmore] at hun
        obtain ⟨hnone, hun⟩ := hun
        have hp := Subscription.poll_polls (s := s) (l := deed.act t.log) hc
        rw [if_neg (by simp [hoff₁])]
        rw [show (perform { t with now := max t.now due } deed).log = deed.act t.log from rfl, hnone]
        rw [hnone] at hp
        exact ih rfl (hp.one_le_cursor hc) (.inl hp.settled) hun hoff₁ hstays₁ hnow₁

/-- **A reader for which nothing comes waits as long as it was told**, to the moment, and nothing comes
for it still. -/
theorem Quiet.next {timeout : Nat} (h : t.Quiet s last) (hc : 1 ≤ s.cursor)
    (hopen : s.closed = false) (hpos : 0 < t.pause timeout) (hle : t.now + t.pause timeout ≤ last) :
    Silence last (t.now + t.pause timeout) (t.next s timeout) := by
  have hp := Subscription.poll_polls (l := t.log) hc
  have hwake : ({ t with log := (s.poll t.log).2.2 }.wake timeout).1 = t.now + t.pause timeout := by
    rw [wake_fst, pause, pause, hp.options]
  have hun := h.unserved
  have hcursor := hp.one_le_cursor hc
  rw [h.vain] at hp
  unfold Timeline.next
  rw [if_neg (by simp [hopen])]
  dsimp only
  rw [h.vain]
  dsimp only
  rw [if_neg (by simp [h.calledOff]), hwake]
  refine waitUntil_silence (t := { t with log := (s.poll t.log).2.2 }) rfl hcursor
    (.inl hp.settled) hun h.calledOff h.stays (Nat.lt_add_of_pos_right hpos) hle _

end Timeline

/-! ## What is of no concern to a reader -/

/-- **A deed elsewhere**: others publish on another subject, arm a fault or reply. -/
def Deed.IsElsewhere (deed : Deed) (subject : String) : Prop :=
  deed ≠ .callOff ∧ ∀ m, deed = .publish m → m.subject ≠ subject

namespace Subscription

/-- **A reader that has read all of its subject** and has nothing to repeat and nothing to ask for. -/
structure Idle (s : Subscription) (l : Log) : Prop where
  doubled : s.doubled = none
  notDue : s.flowIsDue l = false
  row : l.row s.subject s.cursor = []

namespace Idle

variable {o : Option Delivery} {deed : Deed}

/-- What is due depends on the options of the log alone. -/
theorem notDue_of_options (h : s.Idle l) (ho : l'.options = l.options)
    (hs : s'.sinceFlow = s.sinceFlow) : s'.flowIsDue l' = false :=
  Bool.eq_false_iff.2 fun hdue => Bool.eq_false_iff.1 h.notDue
    (flowIsDue_iff.2 (hs ▸ ho ▸ flowIsDue_iff.1 hdue))

/-- **What is done elsewhere leaves a reader idle.** -/
theorem afterDeed (h : s.Idle l) (hd : deed.IsElsewhere s.subject) : s.Idle (deed.act l) where
  doubled := h.doubled
  notDue := h.notDue_of_options (deed.options l) rfl
  row := by
    rw [Log.row_of_append (deed.messages l), h.row, List.nil_append]
    cases deed with
    | publish m =>
      have hm := hd.2 m rfl
      simp [Deed.published?, hm]
    | arm | reply | callOff => rfl

/-- **An idle reader finds nothing**, and stays idle. -/
theorem look (h : s.Idle l) (hp : s.Polls l o s' l') :
    o = none ∧ s'.Idle l' ∧ s'.subject = s.subject := by
  have hmessages := hp.messages
  have hoptions := hp.options
  cases hp with
  | held => exact ⟨rfl, h, rfl⟩
  | again _ hd => simp [h.doubled] at hd
  | ask _ _ hf => simp [h.notDue] at hf
  | scanned _ _ _ hs =>
    cases hs with
    | drained =>
      refine ⟨rfl, ⟨h.doubled, h.notDue_of_options hoptions rfl, Log.row_of_size_lt ?_⟩, rfl⟩
      rw [hmessages]
      simp only
      omega
    | handed hrow =>
      have hnil : l.row s.subject s.cursor = _ ++ _ :: _ := hrow
      simp [h.row] at hnil

/-- **Nothing comes for an idle reader** from what others do elsewhere. -/
theorem unserved {agenda : List (Nat × Deed)} {last now : Nat} (h : s.Idle l) (hc : 1 ≤ s.cursor)
    (ha : ∀ e ∈ agenda, e.1 < last → e.2.IsElsewhere s.subject) :
    Timeline.Unserved last agenda now s l := by
  induction agenda generalizing s l now with
  | nil => trivial
  | cons e rest ih =>
    intro hlast
    have hidle := h.afterDeed (ha e List.mem_cons_self hlast)
    have hrest : ∀ e ∈ rest, e.1 < last → e.2.IsElsewhere s.subject := fun e he =>
      ha e (List.mem_cons_of_mem _ he)
    split
    · exact ih hidle hc hrest
    · have hp := poll_polls (s := s) (l := e.2.act l) hc
      obtain ⟨hnone, hidle', hsubject⟩ := hidle.look hp
      exact ⟨hnone, ih hidle' (hp.one_le_cursor hc) (hsubject.symm ▸ hrest)⟩

/-- **An idle reader stays quiet**, whatever others publish on other subjects, arm and reply. -/
theorem quiet {t : Timeline} {last : Nat} (h : s.Idle t.log) (hc : 1 ≤ s.cursor)
    (hoff : t.calledOff = false) (ha : ∀ e ∈ t.agenda, e.1 < last → e.2.IsElsewhere s.subject) :
    t.Quiet s last := by
  have hp := poll_polls (l := t.log) hc
  obtain ⟨hnone, hidle, hsubject⟩ := h.look hp
  exact ⟨hnone, hidle.unserved (hp.one_le_cursor hc) (hsubject.symm ▸ ha), hoff,
    fun e he hlast => (ha e he hlast).1⟩

end Idle

end Subscription

end FileRelay
