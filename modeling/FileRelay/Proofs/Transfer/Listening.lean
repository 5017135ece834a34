import FileRelay.Proofs.Transfer.Following

/-!
# Proofs/Transfer/Listening — what a reader hears where no rule interferes

Where every call is granted, a reader hears that the transfer was called off, or nothing for a whole
pause, or what a look at the log has found (`Exchange.Listens`).  In a **calm** exchange nobody calls
off and nobody publishes besides, and it stays calm.
-/

namespace FileRelay

open Subscription (Waits)
open Timeline (LooksInVain)

namespace Exchange

variable {x x' : Exchange} {s s' : Subscription} {timeout : Nat} {heard : Heard}

/-- **What a reader hears where every call is granted.** -/
inductive Listens (x : Exchange) (s : Subscription) (timeout : Nat) :
    Heard → Subscription → Exchange → Prop
  | calledOff {s' : Subscription} {x' : Exchange} (hw : Waits x.time.coming s x.log s' x'.log)
      (hc : x'.time.calledOff = true) : Listens x s timeout .calledOff s' x'
  | silent {s' : Subscription} {x' : Exchange} (hw : Waits x.time.coming s x.log s' x'.log)
      (hvain : x.time.agenda = [] ∨ 0 < x.time.pause timeout →
        LooksInVain x.time.coming s x.log s' x'.log)
      (hlater : x.time.now + x.time.pause timeout ≤ x'.time.now)
      (hnext : ∀ e ∈ x'.time.agenda.head?, x'.time.now ≤ e.1) :
      Listens x s timeout .nothing s' x'
  | asked {s₁ s' : Subscription} {l₁ : Log} {x' : Exchange} {n : Nat}
      (hw : Waits x.time.coming s x.log s₁ l₁) (hheld : s₁.held l₁ = false)
      (hdue : s₁.flowIsDue l₁ = true) (hn : n = l₁.issued + 1)
      (hs : s' = { s₁ with awaiting := some n, sinceFlow := 0 })
      (hl : x'.log = { l₁ with issued := n, waiting := n :: l₁.waiting }) :
      Listens x s timeout (.flowControl (some (.issued n))) s' x'
  | handed {s₁ s' : Subscription} {l₁ : Log} {d : Delivery} {x' : Exchange}
      (hw : Waits x.time.coming s x.log s₁ l₁) (hp : s₁.Polls l₁ (some d) s' x'.log)
      (hk : d.kind = .data) : Listens x s timeout (.data d) s' x'

/-- **An exchange after some time**, in which no rule has interfered. -/
structure Later (x x' : Exchange) : Prop extends Timeline.After x.time x'.time where
  rules : x'.interference.rules = []
  options : x'.log.options = x.log.options

theorem Later.trans {x'' : Exchange} (h : x.Later x') (h' : x'.Later x'') : x.Later x'' :=
  ⟨h.toAfter.trans h'.toAfter, h'.rules, h'.options.trans h.options⟩

theorem Beside.later (h : x.Beside x') (hr : x.interference.rules = []) : x.Later x' where
  toAfter := .of_same h.now h.agenda h.messages (h.calledOff hr)
  rules := h.rules.trans hr
  options := h.options

/-- Where every call is granted, a reader is handed no delivery of no log. -/
theorem Grants.honest (h : x.Grants) : x.Honest := fun r hr d hd => by
  obtain hoff | ⟨path, length, hcut⟩ := h r hr
  · simp [hoff] at hd
  · simp [hcut] at hd

/-- **A reader whose calls are granted listens.** -/
theorem Hears.listens (h : x.Hears s timeout heard s' x') (hx : x.Grants)
    (hd : ∀ d, s.doubled = some d → d.kind = .data) : x.Listens s timeout heard s' x' := by
  cases h with
  | calledOff hc => exact .calledOff (.refl s x.log) hc
  | refused _ hr he =>
    obtain hoff | ⟨path, length, hcut⟩ := hx _ hr
    · simp [hoff] at he
    · simp [hcut] at he
  | given _ hr hd => exact absurd hd (hx.honest _ hr _)
  | @waited w _ y t' hc hn =>
    have hlog : y.log = x.log := hc.log
    have hcoming : y.time.coming = x.time.coming := by rw [Timeline.coming, hc.agenda]; rfl
    have hpause : y.time.pause timeout = x.time.pause timeout := by
      rw [Timeline.pause, show y.time.log = x.log from hlog]
      rfl
    cases hn with
    | @heard s₁ _ l₁ d _ hw hp ha =>
      have hw : Waits x.time.coming s x.log s₁ l₁ := hcoming ▸ hlog ▸ hw
      obtain hk | ⟨hheld, -, hdue, rfl, rfl, hl⟩ := hp.kind (hw.doubled ▸ hd)
      · rw [Heard.ofWaited, Heard.ofDelivery, hk]
        exact .handed hw hp hk
      · exact .asked hw hheld hdue rfl rfl hl
    | silent hw hvain hl ha hnext hk =>
      have hnothing : Heard.ofWaited w = .nothing := by obtain rfl | rfl := hk <;> rfl
      rw [hnothing]
      have hvain' : x.time.agenda = [] ∨ 0 < x.time.pause timeout →
          LooksInVain y.time.coming s y.time.log s' t'.log := by
        rw [← hpause, ← hc.agenda]
        exact hvain
      refine .silent (hcoming ▸ hlog ▸ hw) (hcoming ▸ hlog ▸ hvain') ?_ hnext
      rw [← hpause, ← hc.now]
      exact hl
    | calledOff hw ha hoff => exact .calledOff (hcoming ▸ hlog ▸ hw) hoff

/-- **While a reader listens**, time passes, some of the agenda is done, and the options stay. -/
theorem Hears.passes (h : x.Hears s timeout heard s' x') : x.time.now ≤ x'.time.now ∧
    x'.time.agenda <:+ x.time.agenda ∧ x'.log.options = x.log.options := by
  cases h with
  | calledOff => exact ⟨Nat.le_refl _, List.suffix_rfl, rfl⟩
  | refused hc | given hc => exact ⟨Nat.le_of_eq hc.now.symm, hc.agenda ▸ List.suffix_rfl, hc.options⟩
  | @waited _ _ y t' hc hn =>
    rw [← hc.now, ← hc.agenda, ← hc.options]
    cases hn with
    | heard hw hp ha => exact ⟨ha.now, ha.agenda, hp.options.trans hw.options⟩
    | silent hw _ _ ha | calledOff hw ha => exact ⟨ha.now, ha.agenda, hw.options⟩

/-- Listening closes no reader. -/
theorem Hears.closed (h : x.Hears s timeout heard s' x') : s'.closed = s.closed := by
  cases h with
  | calledOff | refused | given => rfl
  | waited _ hn =>
    cases hn with
    | heard hw hp => exact hp.closed.trans hw.closed
    | silent hw | calledOff hw => exact hw.closed

/-- A reader that was in order is so when it has listened. -/
theorem Hears.sound (h : x.Hears s timeout heard s' x') (hs : s.Sound) : s'.Sound := by
  cases h with
  | calledOff | refused | given => exact hs
  | waited _ hn =>
    cases hn with
    | heard hw hp => exact hp.sound (hw.sound hs)
    | silent hw | calledOff hw => exact hw.sound hs

/-- Where no rule interferes, none interferes after a reader has listened. -/
theorem Hears.later (h : x.Hears s timeout heard s' x') (hr : x.interference.rules = []) :
    x.Later x' := by
  have hsame : ∀ {y : Exchange}, Counted x y → x.Later y := fun hc => hc.toBeside.later hr
  cases h with
  | calledOff => exact (Beside.refl x).later hr
  | refused hc | given hc => exact hsame hc
  | @waited _ _ y t' hc hn =>
    obtain ⟨-, -, hoptions⟩ := (Hears.waited hc hn).passes
    refine (hsame hc).trans ⟨?_, hc.rules.trans hr, hoptions.trans hc.options.symm⟩
    cases hn with
    | heard _ _ ha | silent _ _ _ ha | calledOff _ ha => exact ha

/-! ## Calm -/

/-- **An exchange in which nothing comes in the way**: no rule interferes, and nobody calls off. -/
structure Unhindered (x : Exchange) : Prop where
  rules : x.interference.rules = []
  stays : ∀ e ∈ x.time.agenda, e.2 ≠ .callOff
  calledOff : x.time.calledOff = false

theorem Unhindered.later (h : x.Unhindered) (hl : x.Later x') : x'.Unhindered :=
  ⟨hl.rules, fun e he => h.stays e (hl.agenda.subset he), (hl.calledOff h.stays).trans h.calledOff⟩

/-- **An exchange that is calm**: no rule interferes, and nobody calls off or publishes besides. -/
structure Calm (x : Exchange) : Prop where
  rules : x.interference.rules = []
  agenda : x.time.agenda = []
  calledOff : x.time.calledOff = false

theorem Calm.unhindered (h : x.Calm) : x.Unhindered := ⟨h.rules, by simp [h.agenda], h.calledOff⟩

theorem Calm.honest (h : x.Calm) : x.Honest := fun r hr => by simp [h.rules] at hr

theorem Calm.later (h : x.Calm) (hl : x.Later x') : x'.Calm :=
  ⟨hl.rules, List.suffix_nil.1 (h.agenda ▸ hl.agenda), (h.unhindered.later hl).calledOff⟩

theorem Calm.coming (h : x.Calm) : x.time.coming = [] := by
  rw [Timeline.coming, h.agenda]
  rfl

end Exchange

end FileRelay
