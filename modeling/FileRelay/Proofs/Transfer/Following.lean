import FileRelay.Proofs.Transfer.Acceptance
import FileRelay.Proofs.Transfer.Calls

/-!
# Proofs/Transfer/Following — a reader in step with its row

A reader **follows** its row when all messages of the row before its cursor were accepted or left
out, and its next number is that much ahead of the number expected (`Follows`).  Publishing, looking
in vain and flow control keep it so; and what it finds under the expected number, if it is the next
part, is the next message of the row (`Follows.found`).
-/

namespace FileRelay

namespace Subscription

variable {s s' : Subscription} {l l' : Log} {e : Published × Nat} {fault : Option DeliveryFault}

/-- **A reader that is in step**: it is open, and of its row from `first` on, `k` messages were
accepted and the next `j` were left out, and `expecting` is the number that the message after the
accepted ones would have had.  A doubled message is the one that was accepted last. -/
structure Follows (s : Subscription) (l : Log) (r : FileRecord) (first k j expecting : Nat) :
    Prop where
  isOpen : s.closed = false
  first_le : first ≤ s.cursor
  cursor_le : s.cursor ≤ max first (l.messages.size + 1)
  behind : l.row s.subject s.cursor = (l.row s.subject first).drop (k + j)
  within : k + j ≤ (l.row s.subject first).length
  number : s.delivered + 1 = expecting + j
  doubled : ∀ d, s.doubled = some d → j = 0 ∧ d.kind = .data ∧
    ∃ p c, r.contentAt? k d.headers p = some c

namespace Follows

variable {r : FileRecord} {first k j expecting : Nat}

/-- Another log of the same messages has the same row. -/
theorem of_messages (h : s.Follows l r first k j expecting) (hm : l'.messages = l.messages) :
    s.Follows l' r first k j expecting where
  isOpen := h.isOpen
  first_le := h.first_le
  cursor_le := hm ▸ h.cursor_le
  behind := by rw [Log.row_congr hm, Log.row_congr hm, h.behind]
  within := by rw [Log.row_congr hm]; exact h.within
  number := h.number
  doubled := h.doubled

/-- Requests make no difference to what a reader follows. -/
theorem withRequest (h : s.Follows l r first k j expecting) (awaiting : Option Nat) (since : Nat) :
    { s with awaiting := awaiting, sinceFlow := since }.Follows l r first k j expecting :=
  { h with }

/-- **The message at the cursor** is the next one of the row, when none was left out. -/
theorem getElem?_eq (h : s.Follows l r first k 0 expecting) {rest : List (Published × Nat)}
    (hrow : l.row s.subject s.cursor = e :: rest) : (l.row s.subject first)[k]? = some e := by
  have hdrop : (l.row s.subject first).drop k = e :: rest := h.behind ▸ hrow
  rw [← Nat.add_zero k, ← List.getElem?_drop, hdrop]
  rfl

/-- A new reader behind the messages that were accepted. -/
theorem fresh {subject : String} {position : Position} (hfirst : first ≤ position.first)
    (hle : position.first ≤ max first (l.messages.size + 1))
    (hrow : l.row subject position.first = (l.row subject first).drop k)
    (hk : k ≤ (l.row subject first).length) :
    (Subscription.fresh subject position).Follows l r first k 0 1 where
  isOpen := rfl
  first_le := hfirst
  cursor_le := hle
  behind := hrow
  within := hk
  number := rfl
  doubled := by simp [Subscription.fresh]

/-- **More messages keep a reader in step.** -/
theorem grow (h : s.Follows l r first k j expecting) (hl : l.Grown l') :
    s.Follows l' r first k j expecting where
  isOpen := h.isOpen
  first_le := h.first_le
  cursor_le := by
    have := h.cursor_le
    have hsize := hl.length_le
    simp only [Array.length_toList] at hsize
    omega
  behind := by
    obtain ⟨more, hl⟩ := hl
    -- A new message is behind the cursor exactly when it is behind the beginning of the row.
    have hplace : ∀ subject : String,
        (more.zipIdx (1 + l.messages.toList.length)).filter
          (fun e => s.cursor ≤ e.2 && e.1.subject == subject)
        = (more.zipIdx (1 + l.messages.toList.length)).filter
          (fun e => first ≤ e.2 && e.1.subject == subject) := fun subject => by
      have := h.first_le
      have := h.cursor_le
      refine List.filter_congr fun e he => ?_
      have hlater := List.le_snd_of_mem_zipIdx he
      simp only [Array.length_toList] at hlater
      have : s.cursor ≤ e.2 ↔ first ≤ e.2 := by omega
      simp [this]
    rw [Log.row_of_append hl.symm, Log.row_of_append hl.symm, hplace, h.behind,
      List.drop_append_of_le_length h.within]
  within := Nat.le_trans h.within (hl.row _ _).length_le
  number := h.number
  doubled := h.doubled

/-- **Looking in vain keeps a reader in step**: at most, more messages were left out. -/
theorem look (h : s.Follows l r first k j expecting) (hp : s.Polls l none s' l') :
    s'.subject = s.subject ∧ ∃ j', s'.Follows l' r first k j' expecting := by
  cases hp with
  | held => exact ⟨rfl, j, h⟩
  | scanned _ hd _ hs =>
    cases hs with
    | drained hdrops =>
      have hm := hdrops.fired.messages
      have hlen : (l.row s.subject s.cursor).length + (k + j) = (l.row s.subject first).length := by
        have := h.within
        rw [h.behind, List.length_drop]
        omega
      refine ⟨rfl, j + (l.row s.subject s.cursor).length, ?_⟩
      have := h.first_le
      have := h.cursor_le
      constructor
      · exact h.isOpen
      · simp only; omega
      · simp only [hm]; omega
      · rw [Log.row_congr hm, Log.row_congr hm]
        have hend : (l.row s.subject first).drop (k + (j + (l.row s.subject s.cursor).length)) = [] :=
          List.drop_eq_nil_of_le (by omega)
        exact (Log.row_of_size_lt (by simp only; omega)).trans hend.symm
      · rw [Log.row_congr hm]
        simp only [Subscription.behind]
        omega
      · have := h.number
        simp only [Subscription.behind]
        omega
      · simp [Subscription.behind, hd]

/-- A wait in vain keeps a reader in step. -/
theorem wait {coming : List Deed} (h : s.Follows l r first k j expecting)
    (hw : Waits coming s l s' l') :
    s'.subject = s.subject ∧ ∃ j', s'.Follows l' r first k j' expecting :=
  hw.invariant (P := fun s' l' => s'.subject = s.subject ∧
      ∃ j', s'.Follows l' r first k j' expecting)
    (fun _ l' deed _ ⟨hs, j', hj⟩ => ⟨hs, j', hj.grow (deed.grown l')⟩)
    (fun _ _ _ _ hp ⟨hs, j', hj⟩ => by
      obtain ⟨hs', j'', hj'⟩ := hj.look hp
      exact ⟨hs'.trans hs, j'', hj'⟩)
    ⟨rfl, j, h⟩

/-- The reader that was handed the next message of its row. -/
theorem hand (h : s.Follows l r first k 0 expecting) {rest : List (Published × Nat)}
    (hrow : l.row s.subject s.cursor = e :: rest) (hm : l'.messages = l.messages)
    (hd : s.doubled = none)
    (hpart : ∃ p c, r.contentAt? (k + 1) e.1.headers p = some c) :
    (s.hand e fault).2.Follows l' r first (k + 1) 0 (expecting + 1) := by
  have hmem : e ∈ l.row s.subject s.cursor := hrow ▸ List.mem_cons_self
  obtain ⟨hplace, hmsg, -⟩ := Log.mem_row_iff.1 hmem
  have hle := Log.le_size_of_message? hmsg
  have hdrop : (l.row s.subject first).drop k = e :: rest := h.behind ▸ hrow
  have hlt : k < (l.row s.subject first).length := by
    rw [← List.drop_eq_nil_iff.not.trans Nat.not_le, hdrop]
    simp
  have := h.first_le
  rw [hand_snd]
  constructor
  · exact h.isOpen
  · simp only; omega
  · simp only [hm]; omega
  · simp only [Log.row_congr hm]
    have hfront : l.row s.subject s.cursor = [] ++ (e.1, e.2) :: rest := hrow
    have hafter : l.row s.subject (e.2 + 1) = rest := Log.row_after hfront
    rw [hafter, Nat.add_zero, ← List.tail_drop, hdrop, List.tail_cons]
  · simp only [Log.row_congr hm]
    omega
  · have := h.number
    simp only
    omega
  · rintro d hd'
    simp only [hd] at hd'
    split at hd'
    · obtain rfl := (Option.some.inj hd').symm
      exact ⟨rfl, rfl, hpart⟩
    · simp at hd'

/-- **What a reader in step finds.**  It is flow control; or it is data, and if it has the expected
number and is the next part, then it is the next message of the row. -/
theorem found (h : s.Follows l r first k j expecting) {d : Delivery}
    (hp : s.Polls l (some d) s' l') : s'.subject = s.subject ∧
    ((d.kind = .flowControl ∧ s'.Follows l' r first k j expecting) ∨
      (d.kind = .data ∧ ∀ content, d.number = expecting →
        r.contentAt? (k + 1) d.headers d.payload = some content →
        ∃ e, (l'.row s'.subject first)[k]? = some e ∧ d.sequence = e.2 ∧
          d.headers = e.1.headers ∧ e.1.Delivers d.payload ∧
          s'.Follows l' r first (k + 1) 0 (expecting + 1))) := by
  cases hp with
  | @again d hh hd =>
    obtain ⟨rfl, hkind, p, c, hc⟩ := h.doubled d hd
    refine ⟨rfl, .inr ⟨hkind, fun content _ hcontent => ?_⟩⟩
    have := FileRecord.contentAt?_number hc hcontent
    omega
  | ask hh hd hf =>
    exact ⟨rfl, .inl ⟨rfl, (h.withRequest _ _).of_messages rfl⟩⟩
  | scanned hh hd hf hs =>
    cases hs with
    | @handed skipped rest e _ _ fault hrow hdrops hstrike hne =>
      obtain ⟨n, hn⟩ := Log.strike_fired hstrike
      have hm : l'.messages = l.messages := (hdrops.fired.trans hn).messages
      obtain ⟨p, hdel, -, -, hfst⟩ :=
        Subscription.hand_fst ({ s with awaiting := none }.behind skipped) e fault
      refine ⟨by rw [hand_snd]; rfl, .inr ⟨by rw [hfst]; rfl, fun content hnumber hcontent => ?_⟩⟩
      rw [hfst] at hnumber hcontent ⊢
      -- Under the expected number nothing was left out before it.
      have hcount := h.number
      simp only [Delivery.ofPublished, Subscription.behind] at hnumber
      obtain rfl : j = 0 := by omega
      obtain rfl : skipped = [] := List.length_eq_zero_iff.1 (by omega)
      have hnext : ({ s with awaiting := none }.hand e fault).2.Follows l' r first (k + 1) 0
          (expecting + 1) :=
        (h.withRequest none s.sinceFlow).hand hrow hm hd ⟨_, _, hcontent⟩
      refine ⟨e, ?_, rfl, rfl, hdel, hnext⟩
      rw [Log.row_congr hm, hand_snd]
      exact h.getElem?_eq hrow

end Follows

end Subscription

namespace Exchange

/-- **No rule hands a reader a delivery** that is of no log. -/
def Honest (x : Exchange) : Prop := ∀ r ∈ x.interference.rules, ∀ d, r.meeting ≠ .delivery d

theorem Honest.of_rules {x x' : Exchange} (h : x.Honest)
    (hr : x'.interference.rules = x.interference.rules) : x'.Honest := fun r hm => h r (hr ▸ hm)

variable {x x' : Exchange} {s s' : Subscription} {timeout : Nat} {heard : Heard}

/-- Listening changes no rule and no message. -/
theorem Hears.rules (h : x.Hears s timeout heard s' x') :
    x'.interference.rules = x.interference.rules := by
  cases h with
  | calledOff => rfl
  | refused hx | given hx | waited hx => exact hx.rules

theorem Hears.grown (h : x.Hears s timeout heard s' x') : x.log.Grown x'.log := by
  cases h with
  | calledOff => exact .refl _
  | refused hx | given hx => exact .of_messages hx.messages
  | waited hx hn =>
    refine (Log.Grown.of_messages hx.messages).trans ?_
    cases hn with
    | heard hw hp => exact hw.grown.trans (.of_messages hp.messages)
    | silent hw | calledOff hw => exact hw.grown

/-- Where nobody publishes, listening changes no message. -/
theorem Hears.messages (h : x.Hears s timeout heard s' x') (hc : x.time.coming = []) :
    x'.log.messages = x.log.messages := by
  cases h with
  | calledOff => rfl
  | refused hx | given hx => exact hx.messages
  | @waited _ _ y t' hx hn =>
    have hcoming : y.time.coming = [] := by rw [Timeline.coming, hx.agenda]; exact hc
    refine Eq.trans ?_ hx.messages
    cases hn with
    | heard hw hp => exact hp.messages.trans (hcoming ▸ hw).messages
    | silent hw | calledOff hw => exact (hcoming ▸ hw).messages

/-- **What a reader in step hears.**  What is not data leaves it in step; and data with the expected
number, if it is the next part, is the next message of the row. -/
theorem Hears.follows {r : FileRecord} {first k j expecting : Nat}
    (h : x.Hears s timeout heard s' x') (hx : x.Honest)
    (hf : s.Follows x.log r first k j expecting) : s'.subject = s.subject ∧
      ((∀ m, heard ≠ .data m) → ∃ j', s'.Follows x'.log r first k j' expecting) ∧
      (∀ m, heard = .data m → ∀ content, m.number = expecting →
        r.contentAt? (k + 1) m.headers m.payload = some content →
        ∃ e, (x'.log.row s'.subject first)[k]? = some e ∧ m.sequence = e.2 ∧
          m.headers = e.1.headers ∧ e.1.Delivers m.payload ∧
          s'.Follows x'.log r first (k + 1) 0 (expecting + 1)) := by
  cases h with
  | calledOff => exact ⟨rfl, fun _ => ⟨j, hf⟩, by simp⟩
  | refused hc _ _ hh =>
    refine ⟨rfl, fun _ => ⟨j, hf.of_messages hc.messages⟩, fun m hm => ?_⟩
    obtain rfl | ⟨e, rfl⟩ := hh <;> simp at hm
  | given _ hr hd => exact absurd hd (hx _ hr _)
  | @waited w _ y t' hc hn =>
    have hf : s.Follows y.log r first k j expecting := hf.of_messages hc.messages
    cases hn with
    | @heard _ _ _ d _ hw hp ha =>
      obtain ⟨hs, j', hf'⟩ := hf.wait hw
      obtain ⟨hs', ⟨hkind, hf''⟩ | ⟨hkind, hfound⟩⟩ := hf'.found hp
      · refine ⟨hs'.trans hs, fun _ => ⟨j', hf''⟩, fun m hm => ?_⟩
        simp [Heard.ofWaited, Heard.ofDelivery, hkind] at hm
      · refine ⟨hs'.trans hs, fun hne => ?_, fun m hm => ?_⟩
        · have hdata : Heard.ofWaited (.delivery d) = .data d := by
            simp [Heard.ofWaited, Heard.ofDelivery, hkind]
          exact absurd hdata (hne d)
        · simp only [Heard.ofWaited, Heard.ofDelivery, hkind, Heard.data.injEq] at hm
          obtain rfl := hm
          exact hfound
    | silent hw _ _ _ _ hk =>
      obtain ⟨hs, hf'⟩ := hf.wait hw
      refine ⟨hs, fun _ => hf', fun m hm => ?_⟩
      obtain rfl | rfl := hk <;> simp [Heard.ofWaited, Heard.ofDelivery, Delivery.status] at hm
    | calledOff hw =>
      obtain ⟨hs, hf'⟩ := hf.wait hw
      exact ⟨hs, fun _ => hf', by simp [Heard.ofWaited]⟩

end Exchange

end FileRelay
