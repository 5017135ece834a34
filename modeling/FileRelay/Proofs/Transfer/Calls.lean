import FileRelay.Proofs.Log.Waiting
import FileRelay.Transfer.Exchange

/-!
# Proofs/Transfer/Calls — what the calls of a transfer change, and what they leave alone

Notes, replies, and readers opened or closed stand **beside** what a log has to deliver: messages
and faults stay, and so do the moment, the agenda and the rules (`Exchange.Beside`).  Only a reader
that listens moves anything else, and `Hears` lists what it can hear.
-/

namespace FileRelay

/-- A reader that was just opened. -/
def Subscription.fresh (subject : String) (position : Position) : Subscription :=
  ⟨subject, position.first, 0, 0, none, none, false⟩

/-- A reader that was just opened is in order. -/
theorem Subscription.Sound.fresh (subject : String) (position : Position) :
    (Subscription.fresh subject position).Sound := ⟨position.one_le_first, nofun⟩

namespace Exchange

/-- **An exchange in which nothing was delivered, published or stored**, and no time has passed. -/
structure Beside (x x' : Exchange) : Prop where
  messages : x'.log.messages = x.log.messages
  faults : x'.log.faults = x.log.faults
  options : x'.log.options = x.log.options
  issued : x'.log.issued = x.log.issued
  waiting : x'.log.waiting ⊆ x.log.waiting
  now : x'.time.now = x.time.now
  agenda : x'.time.agenda = x.time.agenda
  store : x'.store = x.store
  rules : x'.interference.rules = x.interference.rules
  calledOff : x.interference.rules = [] → x'.time.calledOff = x.time.calledOff

namespace Beside

variable {x x' x'' : Exchange}

theorem refl (x : Exchange) : Beside x x :=
  ⟨rfl, rfl, rfl, rfl, fun _ h => h, rfl, rfl, rfl, rfl, fun _ => rfl⟩

theorem trans (h : Beside x x') (h' : Beside x' x'') : Beside x x'' where
  messages := h'.messages.trans h.messages
  faults := h'.faults.trans h.faults
  options := h'.options.trans h.options
  issued := h'.issued.trans h.issued
  waiting := List.Subset.trans h'.waiting h.waiting
  now := h'.now.trans h.now
  agenda := h'.agenda.trans h.agenda
  store := h'.store.trans h.store
  rules := h'.rules.trans h.rules
  calledOff hr := (h'.calledOff (h.rules.trans hr)).trans (h.calledOff hr)

/-- A log with other notes is beside the one before. -/
theorem of_withLog {l : Log} (hm : l.messages = x.log.messages) (hf : l.faults = x.log.faults)
    (ho : l.options = x.log.options) (hi : l.issued = x.log.issued)
    (hw : l.waiting ⊆ x.log.waiting) : Beside x (x.withLog l) :=
  ⟨hm, hf, ho, hi, hw, rfl, rfl, rfl, rfl, fun _ => rfl⟩

end Beside

/-- **An exchange that a call was only counted in**, which may call off the transfer. -/
structure Counted (x x' : Exchange) : Prop extends Beside x x' where
  log : x'.log = x.log

section Meet

variable {x : Exchange} {c : Call}

theorem meet_counted (x : Exchange) (c : Call) : Counted x (x.meet c).2 := by
  unfold meet
  have hrules : (x.interference.meet c).2.rules = x.interference.rules := rfl
  have hcalm : x.interference.rules = [] → (x.interference.meet c).1 = none := fun h => by
    rw [Interference.meet_of_rules_eq_nil h]
  have hcount : Counted x { x with interference := (x.interference.meet c).2 } :=
    ⟨⟨rfl, rfl, rfl, rfl, fun _ h => h, rfl, rfl, rfl, hrules, fun _ => rfl⟩, rfl⟩
  dsimp only
  split
  · rename_i hm
    refine ⟨⟨rfl, rfl, rfl, rfl, fun _ h => h, rfl, rfl, rfl, hrules, fun h => ?_⟩, rfl⟩
    simp [hcalm h] at hm
  · exact ⟨⟨rfl, rfl, rfl, rfl, fun _ h => h, rfl, rfl, rfl, hrules, fun _ => rfl⟩, rfl⟩
  · exact hcount

theorem meet_fst (x : Exchange) (c : Call) : (x.meet c).1 = (x.interference.meet c).1 := by
  unfold meet
  dsimp only
  split <;> simp_all

/-- Without rules a call meets with nothing, and is only counted. -/
theorem meet_of_rules_nil (hr : x.interference.rules = []) (c : Call) :
    x.meet c = (none, { x with interference := { x.interference with
      calls := c :: x.interference.calls } }) := by
  rw [meet, Interference.meet_of_rules_eq_nil hr]

/-- What a call meets with is what a rule says. -/
theorem exists_rule_of_meet {m : Meeting} (h : (x.meet c).1 = some m) :
    ∃ r ∈ x.interference.rules, r.meeting = m := by
  rw [meet_fst, Interference.meet] at h
  obtain ⟨r, hr, rfl⟩ := Option.map_eq_some_iff.1 h
  exact ⟨r, List.mem_of_find?_eq_some hr, rfl⟩

end Meet

/-- **An exchange that grants every call**: a rule at most calls off the transfer or cuts a file, and
the call is done. -/
def Grants (x : Exchange) : Prop :=
  ∀ r ∈ x.interference.rules, r.meeting = .callOff ∨ ∃ path length, r.meeting = .resize path length

theorem grants_of_rules_nil {x : Exchange} (h : x.interference.rules = []) : x.Grants :=
  fun r hr => by simp [h] at hr

theorem Grants.of_rules {x x' : Exchange} (h : x.Grants)
    (hr : x'.interference.rules = x.interference.rules) : x'.Grants :=
  fun r hmem => h r (hr ▸ hmem)

/-! ## Calls on the log -/

section Attempt

variable {α : Type} {x : Exchange} {c : Call}
  {act : Exchange → Except DeliveryError α × Exchange}

/-- A call is refused or done, in either case after it was counted. -/
theorem attempt_cases (c : Call) (act : Exchange → Except DeliveryError α × Exchange)
    (x : Exchange) :
    (∃ e, (∃ r ∈ x.interference.rules, r.meeting = .refusal e) ∧
        attempt c act x = (.error e, (x.meet c).2)) ∨
      attempt c act x = act (x.meet c).2 := by
  unfold attempt
  split
  · rename_i e x' hm
    exact .inl ⟨e, exists_rule_of_meet (by rw [hm]), by rw [hm]⟩
  · rename_i hm
    exact .inr (by rw [hm])

theorem attempt_beside (hact : ∀ y, Beside y (act y).2) : Beside x (attempt c act x).2 := by
  have hc := (meet_counted x c).toBeside
  rcases attempt_cases c act x with ⟨e, -, h⟩ | h <;> rw [h]
  · exact hc
  · exact hc.trans (hact _)

/-- **A call that is granted is done.** -/
theorem Grants.attempt_eq (hx : x.Grants) : attempt c act x = act (x.meet c).2 := by
  rcases attempt_cases c act x with ⟨e, ⟨r, hr, hrefusal⟩, -⟩ | h
  · obtain hoff | ⟨path, length, hcut⟩ := hx r hr
    · simp [hoff] at hrefusal
    · simp [hcut] at hrefusal
  · exact h

end Attempt

section Calls

variable {x : Exchange} {s : Subscription} {d : Delivery}

theorem noted_beside {r : Except Unit Log}
    (h : ∀ l, r = .ok l → l.messages = x.log.messages ∧ l.faults = x.log.faults ∧
      l.options = x.log.options ∧ l.issued = x.log.issued ∧ l.waiting = x.log.waiting) :
    Beside x (x.noted r).2 := by
  rcases r with _ | l
  · exact .refl x
  · obtain ⟨hm, hf, ho, hi, hw⟩ := h l rfl
    exact .of_withLog hm hf ho hi fun _ h => hw ▸ h

theorem ack_beside (x : Exchange) (s : Subscription) (d : Delivery) : Beside x (x.ack s d).2 :=
  attempt_beside fun y => noted_beside fun l h => by
    unfold Subscription.ack at h
    split at h
    · simp at h
    · obtain rfl := (Except.ok.inj h).symm
      split <;> exact ⟨rfl, rfl, rfl, rfl, rfl⟩

theorem term_beside (x : Exchange) (s : Subscription) (d : Delivery) : Beside x (x.term s d).2 :=
  attempt_beside fun y => noted_beside fun l h => by
    unfold Subscription.term at h
    split at h
    · simp at h
    · obtain rfl := (Except.ok.inj h).symm
      split <;> exact ⟨rfl, rfl, rfl, rfl, rfl⟩

theorem subscribe_beside (x : Exchange) (subject : String) (position : Position) :
    Beside x (x.subscribe subject position).2 :=
  attempt_beside fun _ => .of_withLog rfl rfl rfl rfl fun _ h => h

theorem reply_beside (x : Exchange) (address : Address) : Beside x (x.reply address).2 :=
  attempt_beside fun y => by
    obtain ⟨hm, hf, ho, hi, hw⟩ := y.log.reply_frame address
    exact .of_withLog hm hf ho hi hw

theorem unsubscribe_beside (x : Exchange) (s : Subscription) :
    Beside x (x.unsubscribe s).2 := by
  have hc := (meet_counted x .unsubscribe).toBeside
  unfold unsubscribe
  split
  · rename_i hm
    rw [hm] at hc
    exact hc
  · rename_i hm
    rw [hm] at hc
    refine hc.trans ?_
    unfold Subscription.unsubscribe
    split
    · exact .of_withLog rfl rfl rfl rfl fun _ h => h
    · refine .of_withLog rfl rfl rfl rfl ?_
      split
      · exact List.erase_subset
      · exact fun _ h => h

/-- **A reader that the log opens** has delivered nothing. -/
theorem subscribe_ok {subject : String} {position : Position} {r : Subscription} {x' : Exchange}
    (h : x.subscribe subject position = (.ok r, x')) : r = .fresh subject position := by
  unfold subscribe at h
  rcases attempt_cases .subscribe _ x with ⟨e, -, ha⟩ | ha <;> rw [ha] at h
  · simp at h
  · exact (Except.ok.inj (Prod.mk.inj h).1).symm

theorem Grants.subscribe_eq (hx : x.Grants) (subject : String) (position : Position) :
    ∃ x', x.subscribe subject position = (.ok (.fresh subject position), x') := by
  rw [subscribe, hx.attempt_eq]
  exact ⟨_, rfl⟩

/-- Without rules a value is looked up. -/
theorem get_of_rules_nil (hr : x.interference.rules = []) (key : String) :
    ∃ x', Counted x x' ∧ x.get key = (.ok (x.store.get? key), x') := by
  rw [get, (grants_of_rules_nil hr).attempt_eq]
  have hc := meet_counted x .get
  exact ⟨_, hc, by rw [hc.store]⟩

/-- Without rules a reply is taken, and its address is no longer waited for. -/
theorem reply_of_rules_nil (hr : x.interference.rules = []) (n : Nat) :
    (x.reply (.issued n)).1 = .ok () ∧
      (x.reply (.issued n)).2.log.waiting = x.log.waiting.erase n := by
  have hlog : (x.meet .reply).2.log = x.log := (meet_counted x .reply).log
  rw [reply, (grants_of_rules_nil hr).attempt_eq]
  refine ⟨rfl, ?_⟩
  have herase : (x.log.reply (.issued n)).waiting = x.log.waiting.erase n := by
    by_cases hn : x.log.waiting.contains n = true
    · simp only [Log.reply, hn, ↓reduceIte]
    · simp only [Log.reply, hn, Bool.false_eq_true, ↓reduceIte]
      exact (List.erase_of_not_mem (by simpa using hn)).symm
  rw [← herase, ← hlog]
  rfl

end Calls

/-! ## Publishing and storing -/

section Writes

variable {x x' : Exchange} {m : Published} {n : Nat} {key : String} {value : Bytes}
  {e : DeliveryError}

/-- **A message that was published** is the last one of the log. -/
theorem publish_ok (h : x.publish m = (.ok n, x')) :
    x'.log.messages = x.log.messages.push m ∧ n = x.log.messages.size + 1 ∧
      x'.store = x.store := by
  have hc := meet_counted x .publish
  unfold publish at h
  rcases attempt_cases .publish _ x with ⟨e, -, ha⟩ | ha <;> rw [ha] at h
  · simp at h
  · obtain ⟨hn, rfl⟩ := Prod.mk.inj h
    obtain rfl := (Except.ok.inj hn).symm
    rw [← hc.messages]
    exact ⟨rfl, rfl, hc.store⟩

/-- A message that was refused changes nothing. -/
theorem publish_error (h : x.publish m = (.error e, x')) : x.Beside x' := by
  have hc := meet_counted x .publish
  unfold publish at h
  rcases attempt_cases .publish _ x with ⟨e, -, ha⟩ | ha <;> rw [ha] at h
  · obtain ⟨-, rfl⟩ := Prod.mk.inj h
    exact hc.toBeside
  · simp at h

/-- **A value that was stored** is the one of its key, and the others are as they were. -/
theorem put_ok (h : x.put key value = (.ok n, x')) : x'.log = x.log ∧
    ∀ k, x'.store.get? k = if k = key then some value else x.store.get? k := by
  have hc := meet_counted x .put
  unfold put at h
  rcases attempt_cases .put _ x with ⟨e, -, ha⟩ | ha <;> rw [ha] at h
  · simp at h
  · split at h
    · rename_i r hr
      obtain ⟨-, rfl⟩ := Prod.mk.inj h
      unfold Store.put at hr
      split at hr
      · simp at hr
      obtain rfl := (Except.ok.inj hr).symm
      refine ⟨hc.log, fun k => ?_⟩
      simp only [Store.get?, KeyMap.get?_insert]
      split
      · rfl
      · rw [hc.store]
    · simp at h

/-- A value that was not stored changes nothing. -/
theorem put_error (h : x.put key value = (.error e, x')) :
    x'.log = x.log ∧ x'.store = x.store := by
  have hc := meet_counted x .put
  unfold put at h
  rcases attempt_cases .put _ x with ⟨e, -, ha⟩ | ha <;> rw [ha] at h
  · obtain ⟨-, rfl⟩ := Prod.mk.inj h
    exact ⟨hc.log, hc.store⟩
  · split at h
    · simp at h
    · obtain ⟨-, rfl⟩ := Prod.mk.inj h
      exact ⟨hc.log, hc.store⟩

/-- **Without rules publishing touches no file.** -/
theorem publish_files (hr : x.interference.rules = []) {r : Except DeliveryError Nat}
    (h : x.publish m = (r, x')) : x'.files = x.files ∧ x'.interference.rules = [] := by
  rw [publish, attempt, meet_of_rules_nil hr] at h
  obtain ⟨-, rfl⟩ := Prod.mk.inj h
  exact ⟨rfl, hr⟩

/-- **Without rules storing touches no file.** -/
theorem put_files (hr : x.interference.rules = []) {r : Except DeliveryError Nat}
    (h : x.put key value = (r, x')) : x'.files = x.files ∧ x'.interference.rules = [] := by
  rw [put, attempt, meet_of_rules_nil hr] at h
  dsimp only at h
  split at h
  all_goals obtain ⟨-, rfl⟩ := Prod.mk.inj h; exact ⟨rfl, hr⟩

end Writes

/-! ## What a reader hears -/

/-- **What a reader hears**: nothing at all when the transfer was called off, what a rule says, or
what a wait for the next delivery comes to. -/
inductive Hears (x : Exchange) (s : Subscription) (timeout : Nat) :
    Heard → Subscription → Exchange → Prop
  | calledOff (hc : x.time.calledOff = true) : Hears x s timeout .calledOff s x
  | refused {h : Heard} {e : DeliveryError} {r : Rule} {x' : Exchange} (hx : Counted x x')
      (hr : r ∈ x.interference.rules) (he : r.meeting = .refusal e)
      (hh : h = .nothing ∨ ∃ e, h = .broken e) : Hears x s timeout h s x'
  | given {d : Delivery} {r : Rule} {x' : Exchange} (hx : Counted x x')
      (hr : r ∈ x.interference.rules) (hd : r.meeting = .delivery d) :
      Hears x s timeout (.ofDelivery d) s x'
  | waited {w : Timeline.Waited} {s' : Subscription} {x' : Exchange} {t' : Timeline}
      (hx : Counted x x') (hn : x'.time.Nexts s timeout w s' t') :
      Hears x s timeout (.ofWaited w) s' { x' with time := t' }

theorem hear_hears {x : Exchange} {s : Subscription} {timeout : Nat} (hc : 1 ≤ s.cursor)
    (hopen : s.closed = false) :
    Hears x s timeout (x.hear s timeout).1 (x.hear s timeout).2.1 (x.hear s timeout).2.2 := by
  unfold hear
  split
  · rename_i h
    exact .calledOff h
  have hx := meet_counted x .next
  split
  · rename_i e x' hm
    obtain ⟨r, hr, he⟩ := exists_rule_of_meet (show (x.meet .next).1 = some (.refusal e) by rw [hm])
    rw [hm] at hx
    refine .refused hx hr he ?_
    dsimp only
    split
    · exact .inl rfl
    · exact .inr ⟨_, rfl⟩
  · rename_i d x' hm
    obtain ⟨r, hr, hd⟩ := exists_rule_of_meet (show (x.meet .next).1 = some (.delivery d) by rw [hm])
    rw [hm] at hx
    exact .given hx hr hd
  · rename_i hm
    rw [hm] at hx
    exact .waited hx (Timeline.next_nexts hc hopen)

end Exchange

end FileRelay
