import FileRelay.Proofs.Transfer.Reading

/-!
# Proofs/Transfer/Entries — what the calls of a transfer enter in a log

Besides its messages a log keeps entries of its readers: how many were opened and are open still, what
they accepted and refused, and the requests for a reply.  `Log.Entered` says which entries a log has
more than an earlier one.  Each call that is granted makes one of them, and a reader that listens alone
makes none but a request (`Exchange.Listens.enters`).
-/

namespace FileRelay

namespace Log

/-- **A log with more entries of its readers** than an earlier one: readers that were opened, and those
of them that are open still; requests, all of them answered; and what was refused and accepted.  But
for these and its faults it is the same. -/
def Entered (l l' : Log) (opened stillOpen replies : Nat) (terms acks : List Nat) : Prop :=
  l' = { l with
    faults := l'.faults
    issued := l.issued + replies
    answered := l.answered ++ List.range' (l.issued + 1) replies
    acks := l.acks ++ acks
    terms := l.terms ++ terms
    opened := l.opened + opened
    stillOpen := l.stillOpen + stillOpen }

namespace Entered

variable {l l' l'' : Log} {opened stillOpen replies n : Nat} {terms acks : List Nat}

theorem refl (l : Log) : l.Entered l 0 0 0 [] [] := by simp [Entered]

/-- Faults make no difference. -/
theorem of_faults (h : l.Entered l' opened stillOpen replies terms acks)
    (hl : l'' = { l' with faults := l''.faults }) :
    l.Entered l'' opened stillOpen replies terms acks := by
  rw [Entered, hl, h]

theorem open_reader (h : l.Entered l' opened stillOpen replies terms acks) :
    l.Entered { l' with opened := l'.opened + 1, stillOpen := l'.stillOpen + 1 } (opened + 1)
      (stillOpen + 1) replies terms acks := by
  rw [Entered, h]
  rfl

theorem close_reader (h : l.Entered l' opened (stillOpen + 1) replies terms acks) :
    l.Entered { l' with stillOpen := l'.stillOpen - 1 } opened stillOpen replies terms acks := by
  rw [Entered, h]
  rfl

theorem term (h : l.Entered l' opened stillOpen replies terms acks) :
    l.Entered { l' with terms := l'.terms ++ [n] } opened stillOpen replies (terms ++ [n]) acks := by
  rw [Entered, h]
  simp

theorem ack (h : l.Entered l' opened stillOpen replies terms acks) :
    l.Entered { l' with acks := l'.acks ++ [n] } opened stillOpen replies terms (acks ++ [n]) := by
  rw [Entered, h]
  simp

/-- **A request and its reply**: the address is the next one, and nothing waits for it any more. -/
theorem answer (h : l.Entered l' opened stillOpen replies terms acks) :
    l.Entered { l' with
        issued := l'.issued + 1
        answered := l'.answered ++ [l'.issued + 1] }
      opened stillOpen (replies + 1) terms acks := by
  rw [Entered, h]
  simp only [List.range'_concat, Nat.one_mul, List.append_assoc, Nat.add_assoc,
    Nat.add_left_comm, Nat.add_comm]

theorem waiting (h : l.Entered l' opened stillOpen replies terms acks) :
    l'.waiting = l.waiting := by rw [h]

theorem issued (h : l.Entered l' opened stillOpen replies terms acks) :
    l'.issued = l.issued + replies := by rw [h]

end Entered

end Log

theorem Log.reply_issued {l : Log} {n : Nat} (h : n ∈ l.waiting) : l.reply (.issued n)
    = { l with waiting := l.waiting.erase n, answered := l.answered ++ [n] } := by
  have hmem : l.waiting.contains n = true := by simpa using h
  simp only [Log.reply, hmem, ↓reduceIte]

theorem Subscription.unsubscribe_open (s : Subscription) {l : Log} (hs : s.closed = false)
    (hw : ∀ n, s.awaiting = some n → n ∉ l.waiting) :
    (s.unsubscribe l).2 = { l with stillOpen := l.stillOpen - 1 } := by
  simp only [unsubscribe, hs, Bool.false_eq_true, ↓reduceIte]
  rcases ha : s.awaiting with _ | n
  · rfl
  · simp only [List.erase_of_not_mem (hw n ha)]

/-! ## Calls that are granted -/

namespace Exchange

variable {x : Exchange} {s : Subscription} {d : Delivery} {n : Nat}

theorem Grants.subscribe_log (hx : x.Grants) (subject : String) (position : Position) :
    (x.subscribe subject position).2.log
      = { x.log with opened := x.log.opened + 1, stillOpen := x.log.stillOpen + 1 } := by
  rw [subscribe, hx.attempt_eq, ← (meet_counted x .subscribe).log]
  rfl

/-- A reader that is open tells the log what it has accepted. -/
theorem Grants.ack_log (hx : x.Grants) (hs : s.closed = false) (hd : d.kind = .data) :
    (x.ack s d).2.log = { x.log with acks := x.log.acks ++ [d.sequence] } := by
  rw [ack, hx.attempt_eq, ← (meet_counted x .ack).log, Subscription.ack, hs, hd]
  rfl

/-- A reader that is open tells the log what it has refused. -/
theorem Grants.term_log (hx : x.Grants) (hs : s.closed = false) (hd : d.kind = .data) :
    (x.term s d).2.log = { x.log with terms := x.log.terms ++ [d.sequence] } := by
  rw [term, hx.attempt_eq, ← (meet_counted x .term).log, Subscription.term, hs, hd]
  rfl

/-- A reply to a request that waits for one is taken. -/
theorem Grants.reply_log (hx : x.Grants) (hn : n ∈ x.log.waiting) :
    (x.reply (.issued n)).2.log = { x.log with
      waiting := x.log.waiting.erase n, answered := x.log.answered ++ [n] } := by
  rw [reply, hx.attempt_eq]
  change (x.meet .reply).2.log.reply (.issued n) = _
  rw [(meet_counted x .reply).log, Log.reply_issued hn]

/-- **A reader that is open is closed**, and a request that was answered is left alone. -/
theorem Grants.unsubscribe_log (hx : x.Grants) (hs : s.closed = false)
    (hw : ∀ n, s.awaiting = some n → n ∉ x.log.waiting) :
    (x.unsubscribe s).2.log = { x.log with stillOpen := x.log.stillOpen - 1 } := by
  have hlog := (meet_counted x .unsubscribe).log
  unfold unsubscribe
  split
  · rename_i e x' hm
    obtain ⟨r, hr, he⟩ := exists_rule_of_meet
      (show (x.meet .unsubscribe).1 = some (.refusal e) by rw [hm])
    obtain hoff | ⟨path, length, hcut⟩ := hx r hr
    · simp [hoff] at he
    · simp [hcut] at he
  · rename_i m x' hm hmeet
    rw [hmeet] at hlog
    change (s.unsubscribe x'.log).2 = _
    rw [hlog, s.unsubscribe_open hs hw]

end Exchange

/-! ## A reader that looks -/

/-- **A deed that enters nothing in a log**: it calls off, or it arms a fault. -/
def Deed.IsSilent (deed : Deed) : Prop :=
  deed = .callOff ∨ ∃ place fault times, deed = .arm place fault times

theorem Deed.IsSilent.act_eq {deed : Deed} (h : deed.IsSilent) (l : Log) :
    deed.act l = { l with faults := (deed.act l).faults } := by
  obtain rfl | ⟨place, fault, times, rfl⟩ := h
  · rfl
  · exact l.arm_same place fault times

namespace Subscription

variable {s s₁ s' : Subscription} {l l₁ l' : Log} {o : Option Delivery} {coming : List Deed}

/-- **A reader that has looked at its log**, in which it has changed nothing but the faults. -/
structure Looked (s : Subscription) (l : Log) (s' : Subscription) (l' : Log) : Prop where
  same : l' = { l with faults := l'.faults }
  closed : s'.closed = s.closed
  cursor : 1 ≤ s.cursor → 1 ≤ s'.cursor
  doubled : (∀ d, s.doubled = some d → d.kind = .data) → ∀ d, s'.doubled = some d → d.kind = .data
  awaiting : ∀ n, s'.awaiting = some n → s.awaiting = some n

theorem Looked.refl (s : Subscription) (l : Log) : s.Looked l s l := ⟨rfl, rfl, id, id, fun _ => id⟩

theorem Looked.trans (h : s.Looked l s₁ l₁) (h' : s₁.Looked l₁ s' l') : s.Looked l s' l' where
  same := by rw [h'.same, h.same]
  closed := h'.closed.trans h.closed
  cursor := h'.cursor ∘ h.cursor
  doubled := h'.doubled ∘ h.doubled
  awaiting n hn := h.awaiting n (h'.awaiting n hn)

/-- **A look that makes no request** leaves the log as it was but for the faults. -/
theorem Polls.looked (h : s.Polls l o s' l') (ho : ∀ d, o = some d → d.kind = .data) :
    s.Looked l s' l' := by
  have hclosed := h.closed
  cases h with
  | held => exact .refl s l
  | again => exact ⟨rfl, rfl, id, by simp, by simp⟩
  | ask => simpa [Delivery.status] using ho _ rfl
  | scanned _ hnone _ hs =>
    obtain ⟨k, hfired⟩ := hs.fired
    have hcursor := hs.one_le_cursor
    cases hs with
    | drained => exact ⟨hfired.same, rfl, fun _ => hcursor, by simp [behind, hnone], by simp [behind]⟩
    | @handed skipped rest e l₁ _ fault =>
      refine ⟨hfired.same, hclosed, fun _ => hcursor, fun _ d hd => ?_, ?_⟩
      · have hnone' : ({ s with awaiting := none }.behind skipped).doubled = none := hnone
        obtain ⟨-, -, rfl⟩ := hand_doubled hnone' hd
        rfl
      · rw [hand_snd]
        simp [behind]

/-- **A wait in vain** leaves the log as it was but for the faults, where others do no more than arm
them and call off. -/
theorem Waits.looked (h : s.Waits coming l s' l') (hc : ∀ deed ∈ coming, deed.IsSilent) :
    s.Looked l s' l' := by
  refine h.invariant (P := fun s' l' => s.Looked l s' l') ?_ ?_ (.refl s l)
  · intro s₁ l₁ deed hdeed hlooked
    exact hlooked.trans ⟨(hc deed hdeed).act_eq l₁, rfl, id, id, fun _ => id⟩
  · intro s₁ l₁ s₂ l₂ hp hlooked
    exact hlooked.trans (hp.looked nofun)

end Subscription

namespace Exchange

variable {x x' : Exchange} {s s' : Subscription} {timeout : Nat} {heard : Heard}

/-- **An exchange that a transfer has for itself.**  Every call is granted, and others do no more than
arm faults and call the transfer off, be it while a reader waits or at any call. -/
structure Solitary (x : Exchange) : Prop where
  grants : x.Grants
  silent : ∀ e ∈ x.time.agenda, e.2.IsSilent

theorem Solitary.coming (h : x.Solitary) : ∀ deed ∈ x.time.coming, deed.IsSilent := by
  intro deed hdeed
  obtain ⟨e, he, rfl⟩ := List.mem_map.1 hdeed
  exact h.silent e he

theorem Solitary.beside (h : x.Solitary) (hx : x.Beside x') : x'.Solitary :=
  ⟨h.grants.of_rules hx.rules, fun e he => h.silent e (hx.agenda ▸ he)⟩

theorem Solitary.hears (h : x.Solitary) (hh : x.Hears s timeout heard s' x') : x'.Solitary :=
  ⟨h.grants.of_rules hh.rules, fun e he => h.silent e (hh.passes.2.1.subset he)⟩

/-- **What a reader that listens alone enters in the log**: a request, if it has heard one. -/
inductive Enters (x : Exchange) (s : Subscription) : Heard → Subscription → Exchange → Prop
  | nothing {heard : Heard} {s' : Subscription} {x' : Exchange} (hl : s.Looked x.log s' x'.log)
      (hh : heard = .nothing ∨ heard = .calledOff ∨ ∃ d, heard = .data d ∧ d.kind = .data) :
      Enters x s heard s' x'
  | request {s₁ s' : Subscription} {l₁ : Log} {x' : Exchange} (hl : s.Looked x.log s₁ l₁)
      (hs : s' = { s₁ with awaiting := some (x.log.issued + 1), sinceFlow := 0 })
      (hx : x'.log = { l₁ with
        issued := x.log.issued + 1, waiting := (x.log.issued + 1) :: x.log.waiting }) :
      Enters x s (.flowControl (some (.issued (x.log.issued + 1)))) s' x'

theorem Listens.enters (h : x.Listens s timeout heard s' x') (hx : x.Solitary) :
    x.Enters s heard s' x' := by
  cases h with
  | calledOff hw => exact .nothing (hw.looked hx.coming) (.inr (.inl rfl))
  | silent hw => exact .nothing (hw.looked hx.coming) (.inl rfl)
  | @handed _ _ _ d _ hw hp hk =>
    refine .nothing ((hw.looked hx.coming).trans (hp.looked ?_)) (.inr (.inr ⟨d, rfl, hk⟩))
    rintro _ ⟨⟩
    exact hk
  | asked hw _ _ hn hs hl =>
    have hlooked := hw.looked hx.coming
    rw [hlooked.same] at hn
    obtain rfl := hn
    exact .request hlooked hs (by rw [hl, hlooked.same])

end Exchange

end FileRelay
