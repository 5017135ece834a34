import FileRelay.Proofs.Log.Faultless
import FileRelay.Proofs.Log.Traffic
import FileRelay.Proofs.Transfer.Listening

/-!
# Proofs/Transfer/Reading — a reader that is in step where no fault is armed

A reader that is in step and held up by nothing **reads** its row (`Subscription.Reads`): the next
data that it finds is the next message of the row, and it waits in vain only when the row has ended.
An answered request holds it up no longer.
-/

namespace FileRelay

namespace Log

/-- **A log whose requests are numbered**: none of those that wait is still to come. -/
def Numbered (l : Log) : Prop := ∀ n ∈ l.waiting, n ≤ l.issued

/-- **A log as it always is**: its requests are numbered, and the places of its messages are words,
together with the one behind them. -/
structure Regular (l : Log) : Prop where
  numbered : l.Numbered
  fits : l.messages.size + 1 < Word.limit

/-- Requests that are answered leave the others numbered. -/
theorem Numbered.of_subset {l l' : Log} (h : l.Numbered) (hi : l'.issued = l.issued)
    (hw : l'.waiting ⊆ l.waiting) : l'.Numbered :=
  fun n hn => hi ▸ h n (hw hn)

/-- A look leaves the requests numbered: one that it makes is the next one. -/
theorem Numbered.polls {s s' : Subscription} {l l' : Log} {o : Option Delivery} (h : l.Numbered)
    (hp : s.Polls l o s' l') : l'.Numbered := by
  cases hp with
  | held | again => exact h
  | ask =>
    intro n hn
    rcases List.mem_cons.1 hn with rfl | hn
    · exact Nat.le_refl _
    · exact Nat.le_succ_of_le (h n hn)
  | scanned _ _ _ hs =>
    obtain ⟨k, hfired⟩ := hs.fired
    refine h.of_subset ?_ ?_ <;> rw [hfired.same]
    exact List.Subset.refl _

theorem Numbered.not_mem {l : Log} (h : l.Numbered) : l.issued + 1 ∉ l.waiting := fun hm => by
  have := h _ hm
  omega

/-- **A request that was answered** waits no longer. -/
theorem Numbered.answered {l l' : Log} {n : Nat} (h : l.Numbered) (hn : n = l.issued + 1)
    (hi : l'.issued = n) (hw : l'.waiting = (n :: l.waiting).erase n) :
    l'.Numbered ∧ n ∉ l'.waiting := by
  rw [List.erase_cons_head] at hw
  rw [Numbered, hw, hi, hn]
  exact ⟨fun m hm => Nat.le_succ_of_le (h m hm), h.not_mem⟩

end Log

/-- **The requests of a log are numbered, whatever its clients do.** -/
theorem Traffic.numbered {options : LogOptions} {c : Clients} {ms : List Moment}
    (h : Traffic options c ms) : c.log.Numbered := by
  induction h with
  | begun => exact fun n hn => absurd hn List.not_mem_nil
  | @act c ms h a ih =>
    have hchanges := h.changes a
    generalize (c.act a).1 = o at hchanges
    generalize (c.act a).2 = c' at hchanges ⊢
    cases hchanges with
    | publishes | opens | misses | closesNone => exact ih
    | looks _ _ hp => exact ih.polls hp
    | replies a =>
      obtain ⟨-, -, -, hi, hw⟩ := c.log.reply_frame a
      exact ih.of_subset hi hw
    | arms p fault times =>
      unfold Log.arm
      split <;> exact ih
    | @closes _ s _ =>
      unfold Subscription.unsubscribe
      split
      · exact ih
      · refine ih.of_subset rfl ?_
        dsimp only
        split
        · exact List.erase_subset
        · exact List.Subset.refl _

/-- **A deed that arms no fault.** -/
def Deed.IsFaultless (deed : Deed) : Prop := ∀ place fault times, deed ≠ .arm place fault times

/-- A deed that arms no fault leaves the faults of the log, and ends at most a wait for a reply. -/
theorem Deed.IsFaultless.frame {deed : Deed} (h : deed.IsFaultless) (l : Log) :
    (deed.act l).faults = l.faults ∧ (deed.act l).issued = l.issued ∧
      (deed.act l).waiting ⊆ l.waiting := by
  cases deed with
  | publish | callOff => exact ⟨rfl, rfl, List.Subset.refl _⟩
  | arm place fault times => exact absurd rfl (h place fault times)
  | reply a =>
    obtain ⟨-, hfaults, -, hissued, hwaiting⟩ := l.reply_frame a
    exact ⟨hfaults, hissued, hwaiting⟩

namespace Subscription

variable {s s₁ s' : Subscription} {l l₁ l' : Log} {r : FileRecord} {first k expecting : Nat}
  {coming : List Deed}

/-- **A reader that reads its row** in a log without faults, `k` messages of the row being behind it. -/
structure Reads (s : Subscription) (l : Log) (r : FileRecord) (first k expecting : Nat) : Prop where
  follows : s.Follows l r first k 0 expecting
  faults : l.faults = []
  doubled : s.doubled = none
  held : s.held l = false
  numbered : l.Numbered

theorem held_of_subset (h : s.held l = false) (hw : l'.waiting ⊆ l.waiting) :
    s.held l' = false := by
  unfold held at h ⊢
  rcases ha : s.awaiting with _ | n
  · rfl
  · rw [ha] at h
    simp only [Option.any_some, List.contains_eq_mem, decide_eq_false_iff_not] at h ⊢
    exact fun hm => h (hw hm)

/-- A reader is not held up by a request that waits no longer. -/
theorem held_of_not_mem {n : Nat} (h : n ∉ l.waiting) (since : Nat) :
    { s with awaiting := some n, sinceFlow := since }.held l = false := by
  simpa [held] using h

namespace Reads

/-- Messages that follow the ones behind a reader are those at its cursor. -/
theorem drop_eq (h : s.Reads l r first k expecting) :
    (l.row s.subject first).drop k = l.row s.subject s.cursor := by
  rw [h.follows.behind, Nat.add_zero]

/-- **A fresh reader** behind `k` messages of its row. -/
theorem fresh {subject : String} {position : Position}
    (h : (Subscription.fresh subject position).Follows l r first k 0 1)
    (hf : l.faults = []) (hn : l.Numbered) :
    (Subscription.fresh subject position).Reads l r first k 1 :=
  ⟨h, hf, rfl, rfl, hn⟩

/-- Where the log only grows and keeps notes, a reader reads on. -/
theorem grow (h : s.Reads l r first k expecting) (hl : l.Grown l') (hf : l'.faults = l.faults)
    (hi : l'.issued = l.issued) (hw : l'.waiting ⊆ l.waiting) : s.Reads l' r first k expecting where
  follows := h.follows.grow hl
  faults := hf.trans h.faults
  doubled := h.doubled
  held := held_of_subset h.held hw
  numbered := h.numbered.of_subset hi hw

/-- **A reader that looks in vain** has read its whole row, and no request is due. -/
theorem vain (h : s.Reads l r first k expecting) (hp : s.Polls l none s' l') :
    s'.subject = s.subject ∧ s'.Reads l' r first k expecting ∧
      (l'.row s.subject first).length = k ∧ s.flowIsDue l = false := by
  obtain ⟨rfl, hrow, hflow, rfl⟩ := hp.vain h.faults h.held
  have hfirst := h.follows.first_le
  have hsize := h.follows.cursor_le
  have hwithin := h.follows.within
  have hdrop := h.drop_eq
  rw [hrow, List.drop_eq_nil_iff] at hdrop
  refine ⟨rfl, ⟨⟨h.follows.isOpen, ?_, ?_, ?_, hwithin, h.follows.number, h.follows.doubled⟩,
    h.faults, h.doubled, rfl, h.numbered⟩, by omega, hflow⟩
  · simp only
    omega
  · simp only
    omega
  · rw [Log.row_of_size_lt (by simp only; omega), List.drop_eq_nil_of_le (by omega)]

/-- **A reader that waits while others arm no fault** reads on. -/
theorem wait (h : s.Reads l r first k expecting) (hc : ∀ deed ∈ coming, deed.IsFaultless)
    (hw : Waits coming s l s' l') : s'.subject = s.subject ∧ s'.Reads l' r first k expecting := by
  refine hw.invariant (P := fun s' l' => s'.subject = s.subject ∧ s'.Reads l' r first k expecting)
    ?_ ?_ ⟨rfl, h⟩
  · rintro s' l' deed hdeed ⟨hsubject, h⟩
    obtain ⟨hfaults, hissued, hwaiting⟩ := (hc deed hdeed).frame l'
    exact ⟨hsubject, h.grow (deed.grown l') hfaults hissued hwaiting⟩
  · rintro s₁ l₁ s' l' hp ⟨hsubject, h⟩
    obtain ⟨hsame, hreads, -⟩ := h.vain hp
    exact ⟨hsame.trans hsubject, hreads⟩

/-- **A reader that waits in vain** has read its whole row, and no request is due. -/
theorem waited (h : s.Reads l r first k expecting) (hc : ∀ deed ∈ coming, deed.IsFaultless)
    (hv : Timeline.LooksInVain coming s l s' l') :
    s'.subject = s.subject ∧ s'.Reads l' r first k expecting ∧
      (l'.row s.subject first).length = k ∧ s.flowIsDue l = false := by
  obtain ⟨s₁, l₁, hw, hp⟩ := hv
  obtain ⟨hsubject, h₁⟩ := h.wait hc hw
  obtain ⟨hsame, hreads, hlength, hflow⟩ := h₁.vain hp
  exact ⟨hsame.trans hsubject, hreads, hsubject ▸ hlength, hw.flowIsDue ▸ hflow⟩

/-- **A reader that finds data** finds the next message of its row, and if it is the next part, then
it reads on behind that. -/
theorem found {d : Delivery} (h : s.Reads l r first k expecting)
    (hc : ∀ deed ∈ coming, deed.IsFaultless) (hw : Waits coming s l s₁ l₁)
    (hp : s₁.Polls l₁ (some d) s' l') (hk : d.kind = .data) :
    s₁.Reads l' r first k expecting ∧ s'.subject = s.subject ∧ s.flowIsDue l = false ∧
      s'.sinceFlow = s.sinceFlow + 1 ∧ ∃ e,
      (l'.row s.subject first)[k]? = some e ∧ d = Delivery.ofPublished e.1 e.2 expecting ∧
      ∀ content, r.contentAt? (k + 1) e.1.headers e.1.payload = some content →
        s'.Reads l' r first (k + 1) (expecting + 1) := by
  obtain ⟨hsubject, h₁⟩ := h.wait hc hw
  obtain ⟨rfl, hheld, hflow, e, rest, hrow, rfl, rfl⟩ := hp.found h₁.faults h₁.doubled hk
  have hnumber := h₁.follows.number
  refine ⟨h₁, hsubject, hw.flowIsDue ▸ hflow, by rw [← hw.sinceFlow], e, ?_,
    by rw [hnumber, Nat.add_zero], fun content hc => ?_⟩
  · rw [← hsubject]
    exact h₁.follows.getElem?_eq hrow
  · have hnext : ({ s₁ with awaiting := none }.hand e none).2.Follows l' r first (k + 1) 0
        (expecting + 1) :=
      (h₁.follows.withRequest none s₁.sinceFlow).hand hrow rfl h₁.doubled ⟨_, _, hc⟩
    exact ⟨hnext, h₁.faults, h₁.doubled, rfl, h₁.numbered⟩

/-- **A reader whose request was answered** reads on. -/
theorem answered (h : s.Reads l r first k expecting) {n : Nat} (hn : n = l.issued + 1)
    (hm : l'.messages = l.messages) (hf : l'.faults = l.faults) (hi : l'.issued = n)
    (hw : l'.waiting = (n :: l.waiting).erase n) :
    { s with awaiting := some n, sinceFlow := 0 }.Reads l' r first k expecting := by
  obtain ⟨hnumbered, hfree⟩ := h.numbered.answered hn hi hw
  exact ⟨(h.follows.withRequest _ _).of_messages hm, hf.trans h.faults, h.doubled,
    held_of_not_mem hfree 0, hnumbered⟩

end Reads

end Subscription

/-- **An exchange that nothing disturbs**: it is calm, no fault is armed, and heartbeats do not come
at once. -/
structure Exchange.Undisturbed (x : Exchange) : Prop extends Exchange.Calm x where
  faults : x.log.faults = []
  heartbeat : x.log.options.idleHeartbeatMs ≠ some 0
  regular : x.log.Regular

/-- It stays so when a call is only counted. -/
theorem Exchange.Undisturbed.counted {x x' : Exchange} (h : x.Undisturbed) (hc : x.Counted x') :
    x'.Undisturbed where
  rules := hc.rules.trans h.rules
  agenda := hc.agenda.trans h.agenda
  calledOff := (hc.calledOff h.rules).trans h.calledOff
  faults := hc.log ▸ h.faults
  heartbeat := hc.log ▸ h.heartbeat
  regular := hc.log ▸ h.regular

end FileRelay
