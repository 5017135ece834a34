import FileRelay.Log.Timeline
import FileRelay.Proofs.Log.Polling

/-!
# Proofs/Log/Waiting — what becomes of a reader that waits

While a reader waits, others do what is on the agenda and the reader looks in vain
(`Subscription.Waits`).  A wait ends with something found, with nothing after its whole length, or
because the work was called off (`Nexts`).  What the deeds of others and looking in vain keep is kept
by a wait (`Waits.invariant`).
-/

namespace FileRelay

/-- The message that a deed publishes. -/
def Deed.published? : Deed → Option Published
  | publish m => some m
  | _ => none

/-- **What a deed adds to a log** is what it publishes. -/
theorem Deed.messages (deed : Deed) (l : Log) :
    (deed.act l).messages.toList = l.messages.toList ++ deed.published?.toList := by
  cases deed with
  | publish m => exact Array.toList_push
  | arm p fault times =>
    exact (congrArg _ (l.arm_messages p fault times)).trans (List.append_nil _).symm
  | reply a => exact (congrArg _ (l.reply_frame a).1).trans (List.append_nil _).symm
  | callOff => exact (List.append_nil _).symm

/-- No deed takes a message back. -/
theorem Deed.grown (deed : Deed) (l : Log) : l.Grown (deed.act l) := ⟨_, (deed.messages l).symm⟩

/-- No deed changes the options of the log. -/
theorem Deed.options (deed : Deed) (l : Log) : (deed.act l).options = l.options := by
  cases deed with
  | publish | callOff => rfl
  | arm p fault times => exact l.arm_options p fault times
  | reply a => exact (l.reply_frame a).2.2.1

/-- **A wait in vain**, in which deeds among `coming` are done. -/
inductive Subscription.Waits (coming : List Deed) :
    Subscription → Log → Subscription → Log → Prop
  | refl (s : Subscription) (l : Log) : Waits coming s l s l
  | deed {s s' : Subscription} {l l' : Log} {deed : Deed} :
      Waits coming s l s' l' → deed ∈ coming → Waits coming s l s' (deed.act l')
  | look {s s₁ s' : Subscription} {l l₁ l' : Log} :
      Waits coming s l s₁ l₁ → s₁.Polls l₁ none s' l' → Waits coming s l s' l'

namespace Subscription.Waits

variable {coming : List Deed} {s s' : Subscription} {l l' : Log}

/-- **What deeds and looking in vain keep is kept by a wait.** -/
theorem invariant {P : Subscription → Log → Prop}
    (hdeed : ∀ s l deed, deed ∈ coming → P s l → P s (deed.act l))
    (hlook : ∀ s l s' l', s.Polls l none s' l' → P s l → P s' l')
    (h : Waits coming s l s' l') (hP : P s l) : P s' l' := by
  induction h with
  | refl => exact hP
  | deed _ hm ih => exact hdeed _ _ _ hm (ih hP)
  | look _ hp ih => exact hlook _ _ _ _ hp (ih hP)

theorem options (h : Waits coming s l s' l') : l'.options = l.options :=
  h.invariant (P := fun _ l' => l'.options = l.options)
    (fun _ l' deed _ h => (deed.options l').trans h) (fun _ _ _ _ hp h => hp.options.trans h) rfl

/-- Looking in vain brings no request nearer. -/
theorem sinceFlow (h : Waits coming s l s' l') : s'.sinceFlow = s.sinceFlow :=
  h.invariant (P := fun s' _ => s'.sinceFlow = s.sinceFlow) (fun _ _ _ _ h => h)
    (fun _ _ _ _ hp h => hp.sinceFlow.trans h) rfl

/-- A request is due after a wait if it was due before. -/
theorem flowIsDue (h : Waits coming s l s' l') : s'.flowIsDue l' = s.flowIsDue l := by
  rw [Bool.eq_iff_iff, flowIsDue_iff, flowIsDue_iff, h.options, h.sinceFlow]

theorem doubled (h : Waits coming s l s' l') : s'.doubled = s.doubled :=
  h.invariant (P := fun s' _ => s'.doubled = s.doubled) (fun _ _ _ _ h => h)
    (fun _ _ _ _ hp h => hp.doubled.trans h) rfl

theorem closed (h : Waits coming s l s' l') : s'.closed = s.closed :=
  h.invariant (P := fun s' _ => s'.closed = s.closed) (fun _ _ _ _ h => h)
    (fun _ _ _ _ hp h => hp.closed.trans h) rfl

theorem sound (h : Waits coming s l s' l') (hs : s.Sound) : s'.Sound :=
  h.invariant (P := fun s' _ => s'.Sound) (fun _ _ _ _ h => h) (fun _ _ _ _ hp h => hp.sound h) hs

/-- Where nobody does anything, waiting changes no message. -/
theorem messages (h : Waits [] s l s' l') : l'.messages = l.messages :=
  h.invariant (P := fun _ l' => l'.messages = l.messages) (by simp)
    (fun _ _ _ _ hp h => hp.messages.trans h) rfl

/-- While a reader waits, the log can only grow. -/
theorem grown (h : Waits coming s l s' l') : l.Grown l' :=
  h.invariant (P := fun _ l' => l.Grown l')
    (fun _ l' deed _ hg => hg.trans (deed.grown l'))
    (fun _ _ _ _ hp hg => hg.trans (.of_messages hp.messages)) (.refl l)

end Subscription.Waits

namespace Timeline

open Subscription (Waits)

/-- What is still to be done. -/
def coming (t : Timeline) : List Deed := t.agenda.map Prod.snd

/-- How long a reader waits for a delivery before it hears that there is none. -/
def pause (t : Timeline) (timeout : Nat) : Nat :=
  min timeout (t.log.options.idleHeartbeatMs.getD timeout)

/-- The messages that an agenda publishes. -/
def publications (agenda : List (Nat × Deed)) : List Published :=
  agenda.filterMap fun e => e.2.published?

theorem publications_append (done rest : List (Nat × Deed)) :
    publications (done ++ rest) = publications done ++ publications rest := List.filterMap_append

/-- **A timeline after some time**: what came first on the agenda was done in the meantime, and what
that published is in the log. -/
structure After (t t' : Timeline) : Prop where
  now : t.now ≤ t'.now
  done : ∃ done, t.agenda = done ++ t'.agenda ∧ (∀ e ∈ done, e.1 ≤ t'.now) ∧
    t'.log.messages.toList = t.log.messages.toList ++ publications done
  calledOff : (∀ e ∈ t.agenda, e.2 ≠ .callOff) → t'.calledOff = t.calledOff

namespace After

variable {t t' t'' : Timeline}

theorem agenda (h : After t t') : t'.agenda <:+ t.agenda := by
  obtain ⟨done, hagenda, -⟩ := h.done
  exact ⟨done, hagenda.symm⟩

theorem trans (h : After t t') (h' : After t' t'') : After t t'' where
  now := Nat.le_trans h.now h'.now
  done := by
    obtain ⟨done, hagenda, hpast, hmessages⟩ := h.done
    obtain ⟨more, hagenda', hpast', hmessages'⟩ := h'.done
    refine ⟨done ++ more, by rw [hagenda, hagenda', List.append_assoc], fun e he => ?_, ?_⟩
    · rcases List.mem_append.1 he with he | he
      · exact Nat.le_trans (hpast e he) h'.now
      · exact hpast' e he
    · rw [hmessages', hmessages, publications_append, List.append_assoc]
  calledOff ha := (h'.calledOff fun e he => ha e (h.agenda.subset he)).trans (h.calledOff ha)

/-- Where nothing is done, nothing is published. -/
theorem of_same (hn : t'.now = t.now) (ha : t'.agenda = t.agenda)
    (hm : t'.log.messages = t.log.messages) (hc : t'.calledOff = t.calledOff) : After t t' :=
  ⟨Nat.le_of_eq hn.symm, ⟨[], ha.symm, by simp, by simp [hm, publications]⟩, fun _ => hc⟩

theorem of_log (t : Timeline) {l : Log} (hl : l.messages = t.log.messages) :
    After t { t with log := l } := of_same rfl rfl hl rfl

theorem of_now (t : Timeline) (moment : Nat) : After t { t with now := max t.now moment } :=
  ⟨Nat.le_max_left _ _, ⟨[], rfl, by simp, by simp [publications]⟩, fun _ => rfl⟩

/-- Doing what is due next. -/
theorem of_deed {due : Nat} {deed : Deed} {rest : List (Nat × Deed)}
    (h : t.agenda = (due, deed) :: rest) :
    After t { perform { t with now := max t.now due } deed with agenda := rest } where
  now := Nat.le_max_left _ _
  done := by
    refine ⟨[(due, deed)], h, fun e he => ?_, (deed.messages t.log).trans ?_⟩
    · rw [List.mem_singleton.1 he]
      exact Nat.le_max_right _ _
    · rcases hp : deed.published? <;> simp [publications, hp]
  calledOff ha := by
    have hne : deed ≠ .callOff := ha (due, deed) (by simp [h])
    simp [perform, hne]

end After

/-- **A wait whose last look found nothing.** -/
def LooksInVain (coming : List Deed) (s : Subscription) (l : Log) (s' : Subscription)
    (l' : Log) : Prop :=
  ∃ s₁ l₁, Waits coming s l s₁ l₁ ∧ s₁.Polls l₁ none s' l'

theorem LooksInVain.waits {coming : List Deed} {s s' : Subscription} {l l' : Log}
    (h : LooksInVain coming s l s' l') : Waits coming s l s' l' := by
  obtain ⟨s₁, l₁, hw, hp⟩ := h
  exact hw.look hp

/-- **What a wait for the next delivery comes to.** -/
inductive Nexts (t : Timeline) (s : Subscription) (timeout : Nat) :
    Waited → Subscription → Timeline → Prop
  | heard {s₁ s' : Subscription} {l₁ : Log} {d : Delivery} {t' : Timeline}
      (hw : Waits t.coming s t.log s₁ l₁) (hp : s₁.Polls l₁ (some d) s' t'.log)
      (ha : t.After t') : Nexts t s timeout (.delivery d) s' t'
  | silent {w : Waited} {s' : Subscription} {t' : Timeline}
      (hw : Waits t.coming s t.log s' t'.log)
      (hvain : t.agenda = [] ∨ 0 < t.pause timeout → LooksInVain t.coming s t.log s' t'.log)
      (hlater : t.now + t.pause timeout ≤ t'.now) (ha : t.After t')
      (hnext : ∀ e ∈ t'.agenda.head?, t'.now ≤ e.1)
      (hk : w = .timeout ∨ w = .delivery (.status .heartbeat s'.subject none)) :
      Nexts t s timeout w s' t'
  | calledOff {s' : Subscription} {t' : Timeline} (hw : Waits t.coming s t.log s' t'.log)
      (ha : t.After t') (hc : t'.calledOff = true) : Nexts t s timeout .calledOff s' t'

section Next

variable {t₀ t : Timeline} {s₀ s : Subscription} {timeout moment : Nat}

theorem wake_fst (t : Timeline) (timeout : Nat) : (t.wake timeout).1 = t.now + t.pause timeout := by
  unfold wake pause
  cases h : t.log.options.idleHeartbeatMs with
  | none => simp
  | some n =>
    simp only [Option.getD_some]
    split <;> simp only <;> omega

/-- The end of a wait without a delivery. -/
theorem waited_nexts (hw : Waits t₀.coming s₀ t₀.log s t.log)
    (hvain : t₀.agenda = [] ∨ 0 < t₀.pause timeout → LooksInVain t₀.coming s₀ t₀.log s t.log)
    (ha : t₀.After t) (hm : t₀.now + t₀.pause timeout ≤ moment) (hnow : t.now ≤ moment)
    (hnext : ∀ e ∈ t.agenda.head?, moment ≤ e.1) (heartbeat : Bool) :
    Nexts t₀ s₀ timeout (waited moment heartbeat s t).1 (waited moment heartbeat s t).2.1
      (waited moment heartbeat s t).2.2 := by
  have ha' := ha.trans (.of_now t moment)
  have hmax : max t.now moment = moment := Nat.max_eq_right hnow
  have hlater : t₀.now + t₀.pause timeout ≤ max t.now moment := hmax.symm ▸ hm
  have hnext' : ∀ e ∈ t.agenda.head?, max t.now moment ≤ e.1 := hmax.symm ▸ hnext
  unfold waited
  split
  · exact .silent hw hvain hlater ha' hnext' (.inr rfl)
  · exact .silent hw hvain hlater ha' hnext' (.inl rfl)

/-- Doing what is due next is part of a wait. -/
theorem perform_waits {due : Nat} {deed : Deed} {rest : List (Nat × Deed)}
    (hag : t.agenda = (due, deed) :: rest) (hw : Waits t₀.coming s₀ t₀.log s t.log)
    (ha : t₀.After t) :
    Waits t₀.coming s₀ t₀.log s (perform { t with now := max t.now due } deed).log ∧
      t₀.After { perform { t with now := max t.now due } deed with agenda := rest } := by
  have hmem : (due, deed) ∈ t₀.agenda := ha.agenda.subset (by simp [hag])
  exact ⟨.deed hw (List.mem_map.2 ⟨_, hmem, rfl⟩), ha.trans (.of_deed hag)⟩

theorem perform_now (t : Timeline) (deed : Deed) : (perform t deed).now = t.now := rfl

/-- **A wait with an agenda** comes to one of the three ends.  Before its end either the reader has
just looked in vain, or more is due at this very moment. -/
theorem waitUntil_nexts {agenda : List (Nat × Deed)} (hag : t.agenda = agenda)
    (hc : 1 ≤ s.cursor) (hw : Waits t₀.coming s₀ t₀.log s t.log) (ha : t₀.After t)
    (hm : t₀.now + t₀.pause timeout ≤ moment) (hle : t.now ≤ moment)
    (hnow : 0 < t₀.pause timeout → t.now < moment)
    (hlast : LooksInVain t₀.coming s₀ t₀.log s t.log ∨ isDue t.now agenda = true)
    (heartbeat : Bool) :
    Nexts t₀ s₀ timeout (waitUntil moment heartbeat agenda s t).1
      (waitUntil moment heartbeat agenda s t).2.1 (waitUntil moment heartbeat agenda s t).2.2 := by
  induction agenda generalizing s t with
  | nil =>
    have hvain : LooksInVain t₀.coming s₀ t₀.log s t.log := by simpa [isDue] using hlast
    rw [waitUntil, ← hag]
    exact waited_nexts hw (fun _ => hvain) ha hm hle (by simp [hag]) heartbeat
  | cons e rest ih =>
    obtain ⟨due, deed⟩ := e
    rw [waitUntil]
    split
    · rename_i hlater
      have hvain : t₀.agenda = [] ∨ 0 < t₀.pause timeout →
          LooksInVain t₀.coming s₀ t₀.log s t.log := fun hp => hlast.resolve_right fun hdue => by
        rcases hp with hnil | hp
        · have hag' := List.suffix_nil.1 (hnil ▸ ha.agenda)
          simp [hag] at hag'
        · have := hnow hp
          simp only [isDue, decide_eq_true_eq] at hdue
          omega
      rw [← hag]
      exact waited_nexts hw hvain ha hm hle (by simpa [hag] using hlater) heartbeat
    · rename_i hdue
      obtain ⟨hw₁, ha₁⟩ := perform_waits hag hw ha
      have hle₁ : (perform { t with now := max t.now due } deed).now ≤ moment := by
        rw [perform_now]
        exact Nat.max_le.2 ⟨hle, Nat.le_of_not_le hdue⟩
      have hnow₁ : 0 < t₀.pause timeout →
          (perform { t with now := max t.now due } deed).now < moment := fun hp => by
        rw [perform_now]
        exact Nat.max_lt.2 ⟨hnow hp, Nat.lt_of_not_le hdue⟩
      dsimp only
      split
      · rename_i hmore
        exact ih rfl hc hw₁ ha₁ hle₁ hnow₁ (.inr hmore)
      split
      · rename_i hoff
        exact .calledOff hw₁ ha₁ hoff
      have hp := Subscription.poll_polls
        (l := (perform { t with now := max t.now due } deed).log) hc
      split
      · rename_i d hd
        exact .heard hw₁ (hd ▸ hp) (ha₁.trans (.of_log _ hp.messages))
      · rename_i hd
        rw [hd] at hp
        exact ih rfl (hp.one_le_cursor hc) (.look hw₁ hp) (ha₁.trans (.of_log _ hp.messages)) hle₁
          hnow₁ (.inl ⟨_, _, hw₁, hp⟩)

/-- **A wait of an open reader for the next delivery** comes to one of the three ends. -/
theorem next_nexts (hc : 1 ≤ s.cursor) (hopen : s.closed = false) :
    Nexts t s timeout (t.next s timeout).1 (t.next s timeout).2.1 (t.next s timeout).2.2 := by
  have hp := Subscription.poll_polls (l := t.log) hc
  unfold next
  simp only [hopen, Bool.false_eq_true, ↓reduceIte]
  split
  · rename_i d hd
    exact .heard (.refl _ _) (hd ▸ hp) (.of_log t hp.messages)
  rename_i hd
  rw [hd] at hp
  have hvain : LooksInVain t.coming s t.log (s.poll t.log).2.1 (s.poll t.log).2.2 :=
    ⟨_, _, .refl _ _, hp⟩
  split
  · rename_i hoff
    exact .calledOff hvain.waits (.of_log t hp.messages) hoff
  · have hwake : ({ t with log := (s.poll t.log).2.2 }.wake timeout).1
        = t.now + t.pause timeout := by
      rw [wake_fst, pause, pause, hp.options]
    exact waitUntil_nexts rfl (hp.one_le_cursor hc) hvain.waits (.of_log t hp.messages)
      (Nat.le_of_eq hwake.symm) (hwake ▸ Nat.le_add_right _ _)
      (fun hpos => hwake ▸ Nat.lt_add_of_pos_right hpos) (.inl hvain) _

end Next

end Timeline

end FileRelay
