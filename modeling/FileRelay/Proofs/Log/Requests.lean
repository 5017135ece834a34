import FileRelay.Proofs.Log.Traffic
import Mathlib.Data.List.Nodup

/-!
# Proofs/Log/Requests — what becomes of the requests of a log

A reader of a log that asks for a reply is **pending** until the reply comes or the reader is closed
(`Pending`).  Just the pending requests wait in the log, and a reader with one waits for it
(`Clients.Requests`).  Hence the reader finds nothing until its request is answered
(`Traffic.held_until_answered`); a reply answers what is pending, and is discarded otherwise
(`Traffic.reply`).
-/

namespace FileRelay

/-! ## Requests and replies -/

/-- The number of an address that the log issued. -/
def Address.number? : Address → Option Nat
  | issued k => some k
  | named _ => none

/-- The address at which a delivery asks for a reply. -/
def Delivery.asked? (d : Delivery) : Option Nat :=
  if d.kind = .flowControl then d.replyTo.bind Address.number? else none

namespace Moment

/-- **The request that was made**: the address at which what was found asks for a reply. -/
def asked? (m : Moment) : Option Nat := m.found.bind Delivery.asked?

/-- Was it a reply? -/
def isReply (m : Moment) : Bool :=
  match m.action with
  | .reply _ => true
  | _ => false

/-- **A reply that is recorded** as the answer to a request. -/
def Answers (m : Moment) (k : Nat) : Prop :=
  m.action = .reply (.issued k) ∧ m.after.log.answered = m.before.log.answered ++ [k]

end Moment

/-- **A request that is pending** with a reader, which found it: since then neither has it been replied
to, nor was the reader closed. -/
def Pending (ms : List Moment) (i k : Nat) : Prop :=
  ∃ before m after, ms = before ++ m :: after ∧ m.action = .look i ∧ m.asked? = some k ∧
    ∀ m' ∈ after, m'.action ≠ .reply (.issued k) ∧ m'.action ≠ .unsubscribe i

variable {options : LogOptions} {c c' : Clients} {ms before after : List Moment} {a : Action}
  {m m' : Moment} {d : Delivery} {o : Option Delivery} {i j k : Nat} {s s' : Subscription}
  {l l' : Log}

theorem pending_concat : Pending (ms ++ [m]) i k ↔ m.action = .look i ∧ m.asked? = some k ∨
    Pending ms i k ∧ m.action ≠ .reply (.issued k) ∧ m.action ≠ .unsubscribe i := by
  constructor
  · rintro ⟨before, m₀, after, hms, hlook, hasked, hsince⟩
    rcases List.eq_nil_or_concat' after with rfl | ⟨after, m', rfl⟩
    · obtain ⟨-, hm⟩ := List.append_inj' hms rfl
      obtain rfl := List.singleton_inj.1 hm
      exact .inl ⟨hlook, hasked⟩
    · rw [← List.cons_append, ← List.append_assoc] at hms
      obtain ⟨rfl, hm⟩ := List.append_inj' hms rfl
      obtain rfl := List.singleton_inj.1 hm
      exact .inr ⟨⟨before, m₀, after, rfl, hlook, hasked,
        fun m' hm' => hsince m' (List.mem_append_left _ hm')⟩, hsince m List.mem_concat_self⟩
  · rintro (⟨hlook, hasked⟩ | ⟨⟨before, m₀, after, rfl, hlook, hasked, hsince⟩, hm⟩)
    · exact ⟨ms, m, [], rfl, hlook, hasked, by simp⟩
    · refine ⟨before, m₀, after ++ [m], by simp, hlook, hasked, fun m' hm' => ?_⟩
      rcases List.mem_append.1 hm' with hm' | hm'
      · exact hsince m' hm'
      · rw [List.mem_singleton.1 hm']
        exact hm

/-- A pending request was made. -/
theorem Pending.asked (h : Pending ms i k) : ∃ m ∈ ms, m.action = .look i ∧ m.asked? = some k := by
  obtain ⟨before, m, after, rfl, hlook, hasked, -⟩ := h
  exact ⟨m, by simp, hlook, hasked⟩

theorem not_pending_nil (i k : Nat) : ¬ Pending [] i k := fun h => by
  obtain ⟨m, hm, -⟩ := h.asked
  exact List.not_mem_nil hm

/-- **Each request is made once**, where all are numbered. -/
theorem asked_unique {n : Nat} (h : ms.filterMap Moment.asked? = List.range' 1 n) (hm : m ∈ ms)
    (hm' : m' ∈ ms) (hk : m.asked? = some k) (hk' : m'.asked? = some k) : m = m' := by
  have hnodup : (ms.filterMap Moment.asked?).Nodup := h ▸ List.nodup_range'
  have hsymm : Std.Symm fun m m' : Moment =>
      ∀ k, m.asked? = some k → ∀ k', m'.asked? = some k' → k ≠ k' :=
    ⟨fun _ _ h k hk k' hk' => (h k' hk' k hk).symm⟩
  by_contra hne
  exact (List.pairwise_filterMap.1 hnodup).forall hm hm' hne k hk k hk' rfl

/-! ## One action -/

/-- Data asks for nothing. -/
theorem Delivery.asked?_of_data (h : d.kind = .data) : d.asked? = none := by
  simp [asked?, h]

/-- A reader that is held up finds nothing. -/
theorem Subscription.Polls.not_held (h : s.Polls l (some d) s' l') : s.held l = false := by
  cases h with
  | again hh | ask hh | scanned hh => exact hh

/-- **A reader that makes no request** is as open as before, and waits for the same reply or, if it
was not held up, for none. -/
def Subscription.Stays (s : Subscription) (l : Log) (s' : Subscription) : Prop :=
  s'.closed = s.closed ∧ (s'.awaiting = s.awaiting ∨ s.held l = false ∧ s'.awaiting = none)

/-- A look that finds no request makes none. -/
theorem Subscription.Polls.stays (h : s.Polls l o s' l') (ho : ∀ d, o = some d → d.kind = .data) :
    s.Stays l s' ∧ l' = { l with faults := l'.faults } := by
  cases h with
  | held => exact ⟨⟨rfl, .inl rfl⟩, rfl⟩
  | again hh => exact ⟨⟨rfl, .inr ⟨hh, rfl⟩⟩, rfl⟩
  | ask => simpa [Delivery.status] using ho _ rfl
  | scanned hh _ _ hs =>
    obtain ⟨n, hfired⟩ := hs.fired
    cases hs with
    | drained => exact ⟨⟨rfl, .inr ⟨hh, rfl⟩⟩, hfired.same⟩
    | handed =>
      rw [hand_snd]
      exact ⟨⟨rfl, .inr ⟨hh, rfl⟩⟩, hfired.same⟩

/-- **A reader that is closed** waits for nothing, and what it waited for waits no longer. -/
theorem Subscription.unsubscribe_requests (hopen : s.closed = false) (hw : l.waiting.Nodup) :
    (s.unsubscribe l).1.awaiting = none ∧ (s.unsubscribe l).2 = { l with
      stillOpen := l.stillOpen - 1, waiting := (s.unsubscribe l).2.waiting } ∧
    (s.unsubscribe l).2.waiting.Nodup ∧
    ∀ k, k ∈ (s.unsubscribe l).2.waiting ↔ k ∈ l.waiting ∧ s.awaiting ≠ some k := by
  simp only [unsubscribe, hopen, Bool.false_eq_true, ↓reduceIte, true_and]
  rcases s.awaiting with _ | n
  · simp [hw]
  · simp only [hw.mem_erase_iff, Option.some.injEq, ne_eq, and_comm, hw.erase n, true_and,
      eq_comm, implies_true]

namespace Clients

/-- **An action that passes over requests**: none is made, answered or given up. -/
structure Passes (c : Clients) (m : Moment) : Prop where
  asked : m.asked? = none
  isReply : m.isReply = false
  closes : ∀ i s, m.action = .unsubscribe i → c.readers[i]? = some s → s.closed = true
  issued : m.after.log.issued = c.log.issued
  waiting : m.after.log.waiting = c.log.waiting
  answered : m.after.log.answered = c.log.answered
  discarded : m.after.log.discarded = c.log.discarded
  stays : ∀ (i : Nat) s, c.readers[i]? = some s →
    ∃ s', m.after.readers[i]? = some s' ∧ s.Stays c.log s'
  awaiting : ∀ (i : Nat) s' k, m.after.readers[i]? = some s' → s'.awaiting = some k →
    ∃ s, c.readers[i]? = some s ∧ s.awaiting = some k

/-- **What an action does with requests.** -/
inductive Deals (c : Clients) (m : Moment) : Prop
  | passes (h : c.Passes m)
  | asks {i : Nat} {s : Subscription} (hlook : m.action = .look i) (hs : c.readers[i]? = some s)
      (hopen : s.closed = false) (hheld : s.held c.log = false)
      (hasked : m.asked? = some (c.log.issued + 1))
      (hafter : m.after = ⟨{ c.log with
          issued := c.log.issued + 1, waiting := (c.log.issued + 1) :: c.log.waiting },
        c.readers.set i { s with awaiting := some (c.log.issued + 1), sinceFlow := 0 }⟩)
  | answers {k : Nat} (hreply : m.action = .reply (.issued k)) (hasked : m.asked? = none)
      (hk : k ∈ c.log.waiting) (hafter : m.after = { c with log := { c.log with
        waiting := c.log.waiting.erase k, answered := c.log.answered ++ [k] } })
  | discards {a : Address} (hreply : m.action = .reply a) (hasked : m.asked? = none)
      (ha : ∀ k, a = .issued k → k ∉ c.log.waiting)
      (hafter : m.after = { c with log := { c.log with discarded := c.log.discarded + 1 } })
  | closes {i : Nat} {s : Subscription} (hclose : m.action = .unsubscribe i)
      (hasked : m.asked? = none) (hs : c.readers[i]? = some s) (hopen : s.closed = false)
      (hafter : m.after = ⟨(s.unsubscribe c.log).2, c.readers.set i (s.unsubscribe c.log).1⟩)

/-- Where readers and requests stay as they are, an action passes over them. -/
theorem Passes.of_same (hasked : m.asked? = none) (hreply : m.isReply = false)
    (hclose : ∀ i s, m.action = .unsubscribe i → c.readers[i]? = some s → s.closed = true)
    (hreaders : m.after.readers = c.readers) (hissued : m.after.log.issued = c.log.issued)
    (hwaiting : m.after.log.waiting = c.log.waiting)
    (hanswered : m.after.log.answered = c.log.answered)
    (hdiscarded : m.after.log.discarded = c.log.discarded) : c.Passes m where
  asked := hasked
  isReply := hreply
  closes := hclose
  issued := hissued
  waiting := hwaiting
  answered := hanswered
  discarded := hdiscarded
  stays _ s hs := ⟨s, hreaders ▸ hs, rfl, .inl rfl⟩
  awaiting _ s' _ hs' hk := ⟨s', hreaders ▸ hs', hk⟩

/-- **A look that finds no request** passes over them. -/
theorem Passes.of_stays (hlook : m.action = .look i) (hasked : m.asked? = none)
    (hs : c.readers[i]? = some s) (hstays : s.Stays c.log s')
    (hafter : m.after = ⟨{ c.log with faults := m.after.log.faults }, c.readers.set i s'⟩) :
    c.Passes m where
  asked := hasked
  isReply := by rw [Moment.isReply, hlook]
  closes := by simp [hlook]
  issued := by rw [hafter]
  waiting := by rw [hafter]
  answered := by rw [hafter]
  discarded := by rw [hafter]
  stays j s₁ hs₁ := by
    rw [hafter]
    by_cases hj : i = j
    · subst hj
      obtain rfl := Option.some.inj (hs.symm.trans hs₁)
      exact ⟨s', List.getElem?_set_self (List.getElem?_eq_some_iff.1 hs).1, hstays⟩
    · exact ⟨s₁, by rwa [List.getElem?_set_ne hj], rfl, .inl rfl⟩
  awaiting j s₁ k hs₁ hk := by
    rw [hafter] at hs₁
    obtain ⟨rfl, rfl⟩ | ⟨-, hs₁⟩ := eq_or_getElem?_of_set hs₁
    · obtain ⟨-, hsame | ⟨-, hnone⟩⟩ := hstays
      · exact ⟨s, hs, hsame ▸ hk⟩
      · simp [hnone] at hk
    · exact ⟨s₁, hs₁, hk⟩

/-- **Opening a reader** passes over requests. -/
theorem Passes.of_opens (subject : String) (position : Position) :
    c.Passes ⟨.subscribe subject position, c, none, ⟨(c.log.subscribe subject position).2,
      c.readers ++ [(c.log.subscribe subject position).1]⟩⟩ where
  asked := rfl
  isReply := rfl
  closes := by simp
  issued := rfl
  waiting := rfl
  answered := rfl
  discarded := rfl
  stays i s hs :=
    ⟨s, by rwa [List.getElem?_append_left (List.getElem?_eq_some_iff.1 hs).1], rfl, .inl rfl⟩
  awaiting i s' k hs' hk := by
    obtain ⟨-, rfl⟩ | hs' := eq_or_getElem?_of_concat hs'
    · simp [Log.subscribe] at hk
    · exact ⟨s', hs', hk⟩

/-- **An action deals with requests in one of these ways**, where all readers are in order. -/
theorem Changes.deals (h : c.Changes a o c') (hc : ∀ s ∈ c.readers, s.Sound) :
    c.Deals ⟨a, c, o, c'⟩ := by
  cases h with
  | publishes | misses => exact .passes (.of_same rfl rfl (by simp) rfl rfl rfl rfl rfl)
  | opens subject position => exact .passes (.of_opens subject position)
  | @looks i s s' _ l hs hopen hp =>
    have hdata := (hc s (List.mem_of_getElem? hs)).doubled
    rcases o with _ | d
    · obtain ⟨hstays, hlog⟩ := hp.stays (by simp)
      exact .passes (.of_stays rfl rfl hs hstays (by rw [← hlog]))
    obtain hk | ⟨hheld, -, -, rfl, rfl, rfl⟩ := hp.kind hdata
    · obtain ⟨hstays, hlog⟩ := hp.stays (by simpa using hk)
      exact .passes (.of_stays rfl (Delivery.asked?_of_data hk) hs hstays (by rw [← hlog]))
    · exact .asks rfl hs hopen hheld rfl rfl
  | replies a =>
    rcases a with k | text
    · by_cases hk : k ∈ c.log.waiting
      · refine .answers rfl rfl hk ?_
        simp only [Log.reply, List.contains_eq_mem, hk, decide_true, ↓reduceIte]
      · refine .discards rfl rfl (fun k' hk' => ?_) ?_
        · obtain rfl := Address.issued.inj hk'
          exact hk
        · simp only [Log.reply, List.contains_eq_mem, hk, decide_false, Bool.false_eq_true,
            ↓reduceIte]
    · exact .discards rfl rfl (by simp) rfl
  | arms p fault times =>
    refine .passes (.of_same rfl rfl (by simp) rfl ?_ ?_ ?_ ?_)
    all_goals dsimp only; rw [Log.arm_same]
  | @closes i s hs =>
    rcases hclosed : s.closed
    · exact .closes rfl rfl hs hclosed rfl
    · have hsame : s.unsubscribe c.log = (s, c.log) := by
        simp only [Subscription.unsubscribe, hclosed, ↓reduceIte]
      have hset : c.readers.set i s = c.readers := by
        obtain ⟨hlt, rfl⟩ := List.getElem?_eq_some_iff.1 hs
        exact List.set_getElem_self hlt
      rw [hsame, hset]
      refine .passes (.of_same rfl rfl (fun j s' hj hs' => ?_) rfl rfl rfl rfl rfl)
      obtain rfl := Action.unsubscribe.inj hj
      rwa [← Option.some.inj (hs.symm.trans hs')]
  | closesNone hs =>
    refine .passes (.of_same rfl rfl (fun j s' hj hs' => ?_) rfl rfl rfl rfl rfl)
    obtain rfl := Action.unsubscribe.inj hj
    simp [hs] at hs'

namespace Deals

/-- **A reply** answers a request that waits, or is discarded. -/
theorem reply {address : Address} (h : c.Deals m) (hm : m.action = .reply address) :
    (∃ k, address = .issued k ∧ k ∈ c.log.waiting ∧ m.after = { c with log := { c.log with
      waiting := c.log.waiting.erase k, answered := c.log.answered ++ [k] } }) ∨
    (∀ k, address = .issued k → k ∉ c.log.waiting) ∧
      m.after = { c with log := { c.log with discarded := c.log.discarded + 1 } } := by
  cases h with
  | passes h =>
    have hreply := h.isReply
    simp [Moment.isReply, hm] at hreply
  | asks hlook => simp [hm] at hlook
  | @answers k hreply _ hk hafter =>
    obtain rfl := Action.reply.inj (hm.symm.trans hreply)
    exact .inl ⟨k, rfl, hk, hafter⟩
  | discards hreply _ ha hafter =>
    obtain rfl := Action.reply.inj (hm.symm.trans hreply)
    exact .inr ⟨ha, hafter⟩
  | closes hclose => simp [hm] at hclose

/-- A reader that was closed stays closed. -/
theorem closed (h : c.Deals m) (hs : c.readers[i]? = some s) (hclosed : s.closed = true) :
    ∃ s', m.after.readers[i]? = some s' ∧ s'.closed = true := by
  cases h with
  | passes h =>
    obtain ⟨s', hs', hsame, -⟩ := h.stays i s hs
    exact ⟨s', hs', hsame.trans hclosed⟩
  | @asks j s₁ _ hs₁ hopen _ _ hafter | @closes j s₁ _ _ hs₁ hopen hafter =>
    have hne : j ≠ i := fun hj => by
      obtain rfl := Option.some.inj (hs₁.symm.trans (hj ▸ hs))
      simp [hopen] at hclosed
    rw [hafter]
    exact ⟨s, by rwa [List.getElem?_set_ne hne], hclosed⟩
  | answers _ _ _ hafter | discards _ _ _ hafter =>
    rw [hafter]
    exact ⟨s, hs, hclosed⟩

/-- **A reader that is closed** is closed. -/
theorem unsubscribe (h : c.Deals m) (hm : m.action = .unsubscribe i) (hs : c.readers[i]? = some s) :
    ∃ s', m.after.readers[i]? = some s' ∧ s'.closed = true := by
  cases h with
  | passes h => exact closed (.passes h) hs (h.closes i s hm hs)
  | asks hlook => simp [hm] at hlook
  | answers hreply | discards hreply => simp [hm] at hreply
  | @closes j s₁ hclose _ hs₁ hopen hafter =>
    obtain rfl := Action.unsubscribe.inj (hclose.symm.trans hm)
    rw [hafter]
    refine ⟨_, List.getElem?_set_self (List.getElem?_eq_some_iff.1 hs).1, ?_⟩
    simp only [Subscription.unsubscribe, hopen, Bool.false_eq_true, ↓reduceIte]

end Deals

/-! ## All that has happened -/

/-- **The requests of a log**, by all that has happened.  They are numbered as they were made; just
those that are pending wait in the log, and the readers that made them wait for them; each was answered
once at most, and every reply is counted. -/
structure Requests (c : Clients) (ms : List Moment) : Prop where
  asked : ms.filterMap Moment.asked? = List.range' 1 c.log.issued
  waiting : c.log.waiting.Nodup
  pending : ∀ k, k ∈ c.log.waiting ↔ ∃ i, Pending ms i k
  awaits : ∀ i k, Pending ms i k →
    ∃ s, c.readers[i]? = some s ∧ s.closed = false ∧ s.awaiting = some k
  asker : ∀ (i : Nat) s k, c.readers[i]? = some s → s.awaiting = some k →
    ∃ m ∈ ms, m.action = .look i ∧ m.asked? = some k
  answered : c.log.answered.Nodup
  settled : ∀ k ∈ c.log.answered, k ≤ c.log.issued ∧ k ∉ c.log.waiting
  replies : c.log.answered.length + c.log.discarded = ms.countP Moment.isReply

namespace Requests

/-- A request that was made has a number that was issued. -/
theorem le_issued (h : c.Requests ms) (hm : m ∈ ms) (hk : m.asked? = some k) : k ≤ c.log.issued := by
  have hmem : k ∈ List.range' 1 c.log.issued := h.asked ▸ List.mem_filterMap.2 ⟨m, hm, hk⟩
  have := List.mem_range'_1.1 hmem
  omega

/-- The next request is none of those that wait. -/
theorem not_waiting (h : c.Requests ms) : c.log.issued + 1 ∉ c.log.waiting := fun hmem => by
  obtain ⟨i, hpending⟩ := (h.pending _).1 hmem
  obtain ⟨m, hm, -, hk⟩ := hpending.asked
  exact Nat.not_succ_le_self _ (h.le_issued hm hk)

/-- **A reader with a pending request is held up.** -/
theorem held (h : c.Requests ms) (hp : Pending ms i k) (hs : c.readers[i]? = some s) :
    s.held c.log = true := by
  obtain ⟨s', hs', -, hk⟩ := h.awaits i k hp
  obtain rfl := Option.some.inj (hs'.symm.trans hs)
  simpa [Subscription.held, hk] using (h.pending k).2 ⟨i, hp⟩

/-- **A pending request** is that of the reader that waits for it, and of no other. -/
theorem awaiting_iff (h : c.Requests ms) (hp : Pending ms j k) (hs : c.readers[i]? = some s) :
    s.awaiting = some k ↔ j = i := by
  constructor
  · intro ha
    obtain ⟨m, hm, hlook, hasked⟩ := hp.asked
    obtain ⟨m', hm', hlook', hasked'⟩ := h.asker i s k hs ha
    obtain rfl := asked_unique h.asked hm hm' hasked hasked'
    exact Action.look.inj (hlook.symm.trans hlook')
  · rintro rfl
    obtain ⟨s', hs', -, hk⟩ := h.awaits j k hp
    rwa [Option.some.inj (hs.symm.trans hs')]

/-- A reader that waited waits for a request that was made. -/
theorem asker_concat (h : c.Requests ms) (hs : c.readers[i]? = some s) (hk : s.awaiting = some k) :
    ∃ m' ∈ ms ++ [m], m'.action = .look i ∧ m'.asked? = some k := by
  obtain ⟨m', hm', hmade⟩ := h.asker i s k hs hk
  exact ⟨m', List.mem_append_left _ hm', hmade⟩

/-- **An action that passes over requests** keeps them. -/
theorem passes (h : c.Requests ms) (hm : c.Passes m) : m.after.Requests (ms ++ [m]) := by
  have hpending : ∀ i k, Pending (ms ++ [m]) i k ↔ Pending ms i k := fun i k => by
    rw [pending_concat, hm.asked]
    refine ⟨fun hp => (hp.resolve_left (by simp)).1, fun hp => .inr ⟨hp, fun hr => ?_, fun hc => ?_⟩⟩
    · have hreply := hm.isReply
      simp [Moment.isReply, hr] at hreply
    · obtain ⟨s, hs, hopen, -⟩ := h.awaits i k hp
      simp [hm.closes i s hc hs] at hopen
  refine ⟨?_, hm.waiting ▸ h.waiting, fun k => ?_, fun i k hp => ?_, fun i s' k hs' hk => ?_,
    hm.answered ▸ h.answered, ?_, ?_⟩
  · simp [hm.asked, hm.issued, h.asked]
  · simp only [hm.waiting, hpending, h.pending]
  · rw [hpending] at hp
    obtain ⟨s, hs, hopen, hk⟩ := h.awaits i k hp
    obtain ⟨s', hs', hclosed, hsame | ⟨hfree, -⟩⟩ := hm.stays i s hs
    · exact ⟨s', hs', hclosed.trans hopen, hsame.trans hk⟩
    · simp [h.held hp hs] at hfree
  · obtain ⟨s, hs, hk⟩ := hm.awaiting i s' k hs' hk
    exact h.asker_concat hs hk
  · rw [hm.answered, hm.issued, hm.waiting]
    exact h.settled
  · simp [hm.answered, hm.discarded, hm.isReply, h.replies]

/-- **A request more** is pending with the reader that made it. -/
theorem asks (h : c.Requests ms) (hlook : m.action = .look i) (hs : c.readers[i]? = some s)
    (hopen : s.closed = false) (hheld : s.held c.log = false)
    (hasked : m.asked? = some (c.log.issued + 1))
    (hafter : m.after = ⟨{ c.log with
        issued := c.log.issued + 1, waiting := (c.log.issued + 1) :: c.log.waiting },
      c.readers.set i { s with awaiting := some (c.log.issued + 1), sinceFlow := 0 }⟩) :
    m.after.Requests (ms ++ [m]) := by
  have hpending : ∀ j k, Pending (ms ++ [m]) j k
      ↔ (j = i ∧ k = c.log.issued + 1) ∨ Pending ms j k := fun j k => by
    rw [pending_concat, hasked, hlook]
    simp only [Action.look.injEq, Option.some.injEq, reduceCtorEq, not_false_eq_true, and_true,
      ne_eq, eq_comm]
  rw [hafter]
  refine ⟨?_, ?_, fun k => ?_, fun j k hp => ?_, fun j s' k hs' hk => ?_, h.answered,
    fun k hk => ?_, ?_⟩
  · simp [hasked, h.asked, List.range'_concat, Nat.add_comm]
  · exact List.nodup_cons.2 ⟨h.not_waiting, h.waiting⟩
  · simp only [List.mem_cons, h.pending, hpending, exists_or, exists_and_right, exists_eq, true_and]
  · rcases (hpending j k).1 hp with ⟨rfl, rfl⟩ | hp
    · exact ⟨_, List.getElem?_set_self (List.getElem?_eq_some_iff.1 hs).1, hopen, rfl⟩
    · have hne : i ≠ j := fun hij => by simp [h.held hp (hij ▸ hs)] at hheld
      obtain ⟨s', hs', hmine⟩ := h.awaits j k hp
      exact ⟨s', by rwa [List.getElem?_set_ne hne], hmine⟩
  · obtain ⟨rfl, rfl⟩ | ⟨-, hs'⟩ := eq_or_getElem?_of_set hs'
    · obtain rfl := Option.some.inj hk
      exact ⟨m, List.mem_concat_self, hlook, hasked⟩
    · exact h.asker_concat hs' hk
  · obtain ⟨hle, hfree⟩ := h.settled k hk
    refine ⟨Nat.le_succ_of_le hle, fun hmem => ?_⟩
    rcases List.mem_cons.1 hmem with rfl | hmem
    · exact Nat.not_succ_le_self _ hle
    · exact hfree hmem
  · simp [Moment.isReply, hlook, h.replies]

/-- **A reply to a pending request** answers it. -/
theorem answers (h : c.Requests ms) (hreply : m.action = .reply (.issued k))
    (hasked : m.asked? = none) (hk : k ∈ c.log.waiting)
    (hafter : m.after = { c with log := { c.log with
      waiting := c.log.waiting.erase k, answered := c.log.answered ++ [k] } }) :
    m.after.Requests (ms ++ [m]) := by
  have hpending : ∀ i k', Pending (ms ++ [m]) i k' ↔ k' ≠ k ∧ Pending ms i k' := fun i k' => by
    rw [pending_concat, hasked, hreply]
    simp [eq_comm, and_comm]
  have hle : k ≤ c.log.issued := by
    obtain ⟨i, hp⟩ := (h.pending k).1 hk
    obtain ⟨m, hm, -, hk⟩ := hp.asked
    exact h.le_issued hm hk
  rw [hafter]
  refine ⟨?_, h.waiting.erase k, fun k' => ?_, fun i k' hp => h.awaits i k' ((hpending i k').1 hp).2,
    fun i s k' hs hk' => h.asker_concat hs hk', ?_, fun k' hk' => ?_, ?_⟩
  · simp [hasked, h.asked]
  · simp only [h.waiting.mem_erase_iff, h.pending, hpending, exists_and_left]
  · rw [List.nodup_append]
    refine ⟨h.answered, List.nodup_singleton k, fun k' hk' k'' hk'' => ?_⟩
    rw [List.mem_singleton.1 hk'']
    exact fun heq => (h.settled k' hk').2 (heq ▸ hk)
  · rcases List.mem_append.1 hk' with hk' | hk'
    · obtain ⟨hle, hfree⟩ := h.settled k' hk'
      exact ⟨hle, fun hmem => hfree (List.mem_of_mem_erase hmem)⟩
    · rw [List.mem_singleton.1 hk']
      exact ⟨hle, h.waiting.not_mem_erase⟩
  · simp only [List.length_append, List.length_singleton, List.countP_append, List.countP_singleton,
      Moment.isReply, hreply, ↓reduceIte, ← h.replies]
    omega

/-- **A reply to what is not pending** is discarded. -/
theorem discards {address : Address} (h : c.Requests ms) (hreply : m.action = .reply address)
    (hasked : m.asked? = none) (ha : ∀ k, address = .issued k → k ∉ c.log.waiting)
    (hafter : m.after = { c with log := { c.log with discarded := c.log.discarded + 1 } }) :
    m.after.Requests (ms ++ [m]) := by
  have hpending : ∀ i k, Pending (ms ++ [m]) i k ↔ Pending ms i k := fun i k => by
    rw [pending_concat, hasked, hreply]
    refine ⟨fun hp => (hp.resolve_left (by simp)).1, fun hp => .inr ⟨hp, fun heq => ?_, by simp⟩⟩
    exact ha k (Action.reply.inj heq) ((h.pending k).2 ⟨i, hp⟩)
  rw [hafter]
  refine ⟨?_, h.waiting, fun k => ?_, fun i k hp => h.awaits i k ((hpending i k).1 hp),
    fun i s k hs hk => h.asker_concat hs hk, h.answered, h.settled, ?_⟩
  · simp [hasked, h.asked]
  · simp only [hpending, h.pending]
  · simp only [List.countP_append, List.countP_singleton, Moment.isReply, hreply, ↓reduceIte,
      ← h.replies]
    omega

/-- **A reader that is closed** gives its request up. -/
theorem closes (h : c.Requests ms) (hclose : m.action = .unsubscribe i) (hasked : m.asked? = none)
    (hs : c.readers[i]? = some s) (hopen : s.closed = false)
    (hafter : m.after = ⟨(s.unsubscribe c.log).2, c.readers.set i (s.unsubscribe c.log).1⟩) :
    m.after.Requests (ms ++ [m]) := by
  have hpending : ∀ j k, Pending (ms ++ [m]) j k ↔ Pending ms j k ∧ j ≠ i := fun j k => by
    rw [pending_concat, hasked, hclose]
    simp [eq_comm]
  obtain ⟨hnone, hlog, hnodup, hwaiting⟩ := s.unsubscribe_requests hopen h.waiting
  have hissued : (s.unsubscribe c.log).2.issued = c.log.issued := by rw [hlog]
  have hanswered : (s.unsubscribe c.log).2.answered = c.log.answered := by rw [hlog]
  have hdiscarded : (s.unsubscribe c.log).2.discarded = c.log.discarded := by rw [hlog]
  rw [hafter]
  refine ⟨?_, hnodup, fun k => ?_, fun j k hp => ?_, fun j s' k hs' hk => ?_, hanswered ▸ h.answered,
    fun k hk => ?_, ?_⟩
  · simp [hasked, h.asked, hissued]
  · simp only [hwaiting, h.pending, hpending, ← exists_and_right]
    exact exists_congr fun j => and_congr_right fun hp => not_congr (h.awaiting_iff hp hs)
  · obtain ⟨hp, hne⟩ := (hpending j k).1 hp
    obtain ⟨s', hs', hmine⟩ := h.awaits j k hp
    exact ⟨s', by rwa [List.getElem?_set_ne hne.symm], hmine⟩
  · obtain ⟨rfl, rfl⟩ | ⟨-, hs'⟩ := eq_or_getElem?_of_set hs'
    · simp [hnone] at hk
    · exact h.asker_concat hs' hk
  · obtain ⟨hle, hfree⟩ := h.settled k (hanswered ▸ hk)
    exact ⟨hissued.symm ▸ hle, fun hmem => hfree ((hwaiting k).1 hmem).1⟩
  · simp [Moment.isReply, hclose, hanswered, hdiscarded, h.replies]

/-- **A request that is pending** is answered, or stays pending, or its reader is closed. -/
theorem pending_act (h : c.Requests ms) (hd : c.Deals m) (hbefore : m.before = c)
    (hp : Pending ms i k) : m.Answers k ∨ Pending (ms ++ [m]) i k ∨
      ∃ s, m.after.readers[i]? = some s ∧ s.closed = true := by
  by_cases hreply : m.action = .reply (.issued k)
  · obtain ⟨k', hk', -, hafter⟩ | ⟨hfree, -⟩ := hd.reply hreply
    · obtain rfl := Address.issued.inj hk'
      exact .inl ⟨hreply, by rw [hafter, hbefore]⟩
    · exact absurd ((h.pending k).2 ⟨i, hp⟩) (hfree k rfl)
  by_cases hclose : m.action = .unsubscribe i
  · obtain ⟨s, hs, -⟩ := h.awaits i k hp
    exact .inr (.inr (hd.unsubscribe hclose hs))
  · exact .inr (.inl (pending_concat.2 (.inr ⟨hp, hreply, hclose⟩)))

end Requests

end Clients

namespace Traffic

/-- **All readers are in order**, whatever clients do. -/
theorem sound (h : Traffic options c ms) : ∀ s ∈ c.readers, s.Sound := by
  induction h with
  | begun => exact fun s hs => absurd hs List.not_mem_nil
  | @act c ms h a ih =>
    intro s' hs'
    obtain ⟨i, hs'⟩ := List.mem_iff_getElem?.1 hs'
    rcases (h.changes a).reader hs' with ⟨-, _, position, -, rfl⟩ | ⟨s, hs, hcomes⟩
    · exact ⟨position.one_le_first, by simp [Log.subscribe]⟩
    have hsound := ih s (List.mem_of_getElem? hs)
    rcases hcomes with ⟨-, rfl | rfl⟩ | ⟨-, ⟨rfl, -⟩ | ⟨-, hp⟩⟩
    · exact hsound
    · refine ⟨(s.unsubscribe_frame c.log).2.2 ▸ hsound.cursor, ?_⟩
      unfold Subscription.unsubscribe
      split
      · exact hsound.doubled
      · simp
    · exact hsound
    · exact hp.sound hsound

/-- **Each action in the traffic deals with requests** in one of these ways. -/
theorem deals (h : Traffic options c ms) (a : Action) :
    c.Deals ⟨a, c, (c.act a).1, (c.act a).2⟩ := (h.changes a).deals h.sound

/-- **Requests and replies are kept in order**, whatever clients do. -/
theorem requests (h : Traffic options c ms) : c.Requests ms := by
  induction h with
  | begun =>
    refine ⟨rfl, List.nodup_nil, fun k => ⟨fun hk => absurd hk List.not_mem_nil, ?_⟩, fun i k hp => ?_,
      by simp, List.nodup_nil, by simp [Log.new], rfl⟩
    · rintro ⟨i, hp⟩
      exact absurd hp (not_pending_nil i k)
    · exact absurd hp (not_pending_nil i k)
  | @act c ms h a ih =>
    cases h.deals a with
    | passes hm => exact ih.passes hm
    | asks hlook hs hopen hheld hasked hafter => exact ih.asks hlook hs hopen hheld hasked hafter
    | answers hreply hasked hk hafter => exact ih.answers hreply hasked hk hafter
    | discards hreply hasked ha hafter => exact ih.discards hreply hasked ha hafter
    | closes hclose hasked hs hopen hafter => exact ih.closes hclose hasked hs hopen hafter

/-- **A look that finds flow control** has made a request. -/
theorem asked (h : Traffic options c (before ++ m :: after)) (hlook : m.action = .look i)
    (hfound : m.found = some d) (hkind : d.kind = .flowControl) :
    ∃ k, m.asked? = some k ∧ d.replyTo = some (.issued k) := by
  obtain ⟨c', a, h', rfl⟩ := h.moment
  obtain rfl : a = .look i := hlook
  have hfound : (c'.act (.look i)).1 = some d := hfound
  obtain ⟨s, s', hs, -, hp⟩ := (h'.changes (.look i)).looker (by simp [hfound])
  rw [hfound] at hp
  obtain hdata | ⟨-, -, -, rfl, -⟩ := hp.kind (h'.sound s (List.mem_of_getElem? hs)).doubled
  · simp [hdata] at hkind
  · refine ⟨c'.log.issued + 1, ?_, rfl⟩
    rw [Moment.asked?, hfound]
    rfl

/-- **Since a request was made** it has been answered, or is pending still, or its reader was
closed. -/
theorem since_asked (h : Traffic options c (before ++ m :: after)) (hlook : m.action = .look i)
    (hasked : m.asked? = some k) : (∃ r ∈ after, r.Answers k) ∨ Pending (before ++ m :: after) i k ∨
      ∃ s, c.readers[i]? = some s ∧ s.closed = true := by
  refine h.since (P := fun c after => (∃ r ∈ after, r.Answers k) ∨
    Pending (before ++ m :: after) i k ∨ ∃ s, c.readers[i]? = some s ∧ s.closed = true) ?_ ?_
  · exact .inr (.inl (pending_concat.2 (.inl ⟨hlook, hasked⟩)))
  · rintro c after a h (⟨r, hr, hanswers⟩ | hp | ⟨s, hs, hclosed⟩)
    · exact .inl ⟨r, List.mem_append_left _ hr, hanswers⟩
    · rw [← List.cons_append, ← List.append_assoc]
      rcases h.requests.pending_act (h.deals a) rfl hp with hanswers | hlater
      · exact .inl ⟨_, List.mem_concat_self, hanswers⟩
      · exact .inr hlater
    · exact .inr (.inr ((h.deals a).closed hs hclosed))

/-- **A reader that has made a request** finds nothing until it is answered. -/
theorem held_until_answered {between : List Moment}
    (h : Traffic options c (before ++ m :: between ++ m' :: after)) (hlook : m.action = .look i)
    (hfound : m.found = some d) (hkind : d.kind = .flowControl) (hlook' : m'.action = .look i)
    (hfound' : m'.found ≠ none) :
    ∃ k, d.replyTo = some (.issued k) ∧ ∃ r ∈ between, r.Answers k := by
  obtain ⟨c', a, h', rfl⟩ := h.moment
  obtain rfl : a = .look i := hlook'
  obtain ⟨k, hasked, hk⟩ := h'.asked hlook hfound hkind
  refine ⟨k, hk, ?_⟩
  obtain ⟨s, s', hs, hopen, hp⟩ := (h'.changes (.look i)).looker hfound'
  obtain hanswered | hpending | ⟨s₁, hs₁, hclosed⟩ := h'.since_asked hlook hasked
  · exact hanswered
  · obtain ⟨d', hd'⟩ := Option.ne_none_iff_exists'.1 hfound'
    rw [show (c'.act (.look i)).1 = some d' from hd'] at hp
    exact absurd (h'.requests.held hpending hs) (by simp [hp.not_held])
  · obtain rfl := Option.some.inj (hs.symm.trans hs₁)
    simp [hopen] at hclosed

/-- **A reply** answers the request at its address if that is pending, and is discarded otherwise. -/
theorem reply {address : Address} (h : Traffic options c (before ++ m :: after))
    (hm : m.action = .reply address) :
    (∀ i k, address = .issued k → Pending before i k → m.after.log = { m.before.log with
      waiting := m.before.log.waiting.erase k, answered := m.before.log.answered ++ [k] }) ∧
    ((∀ i k, address = .issued k → ¬ Pending before i k) →
      m.after.log = { m.before.log with discarded := m.before.log.discarded + 1 }) := by
  obtain ⟨c', a, h', rfl⟩ := h.moment
  have hpending := h'.requests.pending
  obtain ⟨k, rfl, hk, hafter⟩ | ⟨hfree, hafter⟩ := (h'.deals a).reply hm
  · refine ⟨fun i k' hk' _ => ?_, fun hnone => ?_⟩
    · obtain rfl := Address.issued.inj hk'
      exact congrArg Clients.log hafter
    · obtain ⟨i, hp⟩ := (hpending k).1 hk
      exact absurd hp (hnone i k rfl)
  · exact ⟨fun i k hk hp => absurd ((hpending k).2 ⟨i, hp⟩) (hfree k hk),
      fun _ => congrArg Clients.log hafter⟩

end Traffic

end FileRelay
