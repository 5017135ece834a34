import FileRelay.Proofs.Transfer.Reading

/-!
# Proofs/Transfer/Striking — what it costs a fault to strike

A reader that is held up by nothing and in step **keeps up** with its row, whatever faults are armed
(`Subscription.KeepsUp`).  It looks in vain only if the rest of the row is left out.  If it finds
anything else than the next message of the row, then a fault has fired, or a doubled message was
still to come: `debt` counts that as a firing which is not yet paid for.
-/

namespace FileRelay

/-- **A place that no fault leaves out.** -/
def Log.NeverDrops (l : Log) (p : Nat) : Prop := ∀ f ∈ l.faults, f.1 = p → f.2.1 ≠ .drop

theorem Log.NeverDrops.fired {l l' : Log} {p n : Nat} (h : l.NeverDrops p) (hf : l.Fired n l') :
    l'.NeverDrops p := fun f hmem hp hk => by
  obtain ⟨g, hg, hp', hk'⟩ := hf.kinds f hmem
  exact h g hg (hp'.trans hp) (hk'.trans hk)

/-- Faults that fire change no request. -/
theorem Log.Numbered.fired {l l' : Log} {n : Nat} (h : l.Numbered) (hf : l.Fired n l') :
    l'.Numbered := by
  rw [hf.same]
  exact h

namespace Subscription

variable {s s' : Subscription} {l l' : Log} {r : FileRecord} {first k expecting : Nat}

/-- **What a reader still owes**: the delivery of a doubled message that is to come. -/
def debt (s : Subscription) : Nat := if s.doubled.isSome then 1 else 0

theorem debt_fresh (subject : String) (position : Position) :
    (Subscription.fresh subject position).debt = 0 := rfl

/-- **A reader that keeps up** with a log with faults, `k` messages of its row being behind it. -/
structure KeepsUp (s : Subscription) (l : Log) (r : FileRecord) (first k expecting : Nat) :
    Prop where
  follows : s.Follows l r first k 0 expecting
  held : s.held l = false
  armed : l.Armed
  numbered : l.Numbered

theorem held_of_awaiting_none (h : s.awaiting = none) (l : Log) : s.held l = false := by
  simp [held, h]

namespace KeepsUp

/-- Messages that follow the ones behind a reader are those at its cursor. -/
theorem drop_eq (h : s.KeepsUp l r first k expecting) :
    (l.row s.subject first).drop k = l.row s.subject s.cursor := by
  rw [h.follows.behind, Nat.add_zero]

/-- **A fresh reader** behind `k` messages of its row. -/
theorem fresh {subject : String} {position : Position}
    (h : (Subscription.fresh subject position).Follows l r first k 0 1) (ha : l.Armed)
    (hn : l.Numbered) : (Subscription.fresh subject position).KeepsUp l r first k 1 :=
  ⟨h, rfl, ha, hn⟩

/-- Where the log only keeps notes, a reader keeps up. -/
theorem noted (h : s.KeepsUp l r first k expecting) (hm : l'.messages = l.messages)
    (hf : l'.faults = l.faults) (hi : l'.issued = l.issued) (hw : l'.waiting ⊆ l.waiting) :
    s.KeepsUp l' r first k expecting where
  follows := h.follows.of_messages hm
  held := held_of_subset h.held hw
  armed f hmem := h.armed f (hf ▸ hmem)
  numbered n hn := hi ▸ h.numbered n (hw hn)

/-- **A reader whose request was answered** keeps up. -/
theorem answered (h : s.KeepsUp l r first k expecting) {n : Nat} (hn : n = l.issued + 1)
    (hm : l'.messages = l.messages) (hf : l'.faults = l.faults) (hi : l'.issued = n)
    (hw : l'.waiting = (n :: l.waiting).erase n) :
    { s with awaiting := some n, sinceFlow := 0 }.KeepsUp l' r first k expecting := by
  obtain ⟨hnumbered, hfree⟩ := h.numbered.answered hn hi hw
  exact ⟨(h.follows.withRequest _ _).of_messages hm, held_of_not_mem hfree 0,
    fun f hmem => h.armed f (hf ▸ hmem), hnumbered⟩

/-- **A reader that keeps up looks in vain** only if the rest of its row is left out. -/
theorem not_vain (h : s.KeepsUp l r first k expecting) {i : Nat} {e : Published × Nat}
    (he : (l.row s.subject first)[i]? = some e) (hi : k ≤ i) (hd : l.NeverDrops e.2) :
    ¬ s.Polls l none s' l' := by
  intro hp
  cases hp with
  | held hh => simp [h.held] at hh
  | scanned _ _ _ hs =>
    cases hs with
    | drained hdrops =>
      have hmem : e ∈ l.row s.subject s.cursor := by
        rw [← h.drop_eq]
        refine List.mem_iff_getElem?.2 ⟨i - k, ?_⟩
        rw [List.getElem?_drop, Nat.add_sub_cancel' hi, he]
      obtain ⟨g, hg, hp, hk⟩ := hdrops.armed e hmem
      exact hd g hg hp hk

/-- It does not wait either. -/
theorem waits_eq (h : s.KeepsUp l r first k expecting) {i : Nat} {e : Published × Nat}
    (he : (l.row s.subject first)[i]? = some e) (hi : k ≤ i) (hd : l.NeverDrops e.2)
    (hw : Waits [] s l s' l') : s' = s ∧ l' = l := by
  refine hw.invariant (P := fun s' l' => s' = s ∧ l' = l) (by simp) ?_ ⟨rfl, rfl⟩
  rintro _ _ s₂ l₂ hp ⟨rfl, rfl⟩
  exact absurd hp (h.not_vain he hi hd)

/-- The reader that was handed the next message of its row keeps up, if that is the next part. -/
theorem hand (h : s.KeepsUp l r first k expecting) {e : Published × Nat}
    {rest : List (Published × Nat)} {fault : Option DeliveryFault} {n : Nat} {content : Bytes}
    (hrow : l.row s.subject s.cursor = e :: rest) (hd : s.doubled = none) (hn : l.Fired n l')
    (hc : r.contentAt? (k + 1) e.1.headers e.1.payload = some content) :
    ({ s with awaiting := none }.hand e fault).2.subject = s.subject ∧
      ({ s with awaiting := none }.hand e fault).2.KeepsUp l' r first (k + 1)
        (expecting + 1) := by
  have hnext : ({ s with awaiting := none }.hand e fault).2.Follows l' r first (k + 1) 0
      (expecting + 1) :=
    (h.follows.withRequest none s.sinceFlow).hand hrow hn.messages hd ⟨_, _, hc⟩
  refine ⟨by rw [hand_snd], hnext, ?_, hn.armed h.armed, h.numbered.fired hn⟩
  exact held_of_awaiting_none (by rw [hand_snd]) _

/-- **What a reader that keeps up finds.**  It is the next message of the row as it was published,
though perhaps to be doubled; or that is out of the question, and a firing has paid for it. -/
theorem found (h : s.KeepsUp l r first k expecting) {d : Delivery} (hp : s.Polls l (some d) s' l')
    (hk : d.kind = .data) : ∃ n, l.Fired n l' ∧
    ((∃ e, (l.row s.subject first)[k]? = some e ∧ d = Delivery.ofPublished e.1 e.2 expecting ∧
        s'.debt ≤ n + s.debt ∧
        ∀ content, r.contentAt? (k + 1) e.1.headers e.1.payload = some content →
          s'.subject = s.subject ∧ s'.KeepsUp l' r first (k + 1) (expecting + 1)) ∨
      (1 ≤ n + s.debt ∧ ∀ content, d.number = expecting →
        r.contentAt? (k + 1) d.headers d.payload = some content →
        ∃ e, (l.row s.subject first)[k]? = some e ∧ d.headers = e.1.headers ∧
          d.payload = Bytes.flipped e.1.payload)) := by
  cases hp with
  | @again d hheld hd =>
    -- The doubled message is the part that was accepted last.
    obtain ⟨-, -, p, c, hc⟩ := h.follows.doubled d hd
    refine ⟨0, .refl _, .inr ⟨by simp [debt, hd], fun content _ hcontent => ?_⟩⟩
    have := FileRecord.contentAt?_number hc hcontent
    omega
  | ask => simp [Delivery.status] at hk
  | scanned hheld hd _ hs =>
    cases hs with
    | @handed skipped rest e l₁ _ fault hrow hdrops hstrike hne =>
      have hrow : l.row s.subject s.cursor = skipped ++ e :: rest := hrow
      have hnumber := h.follows.number
      obtain ⟨p, -, hwhole, hcorrupt, hfst⟩ :=
        Subscription.hand_fst ({ s with awaiting := none }.behind skipped) e fault
      rcases skipped with _ | ⟨e', skipped⟩
      swap
      · -- The number has gone on past the messages that were left out.
        obtain ⟨n, hn⟩ := Log.strike_fired hstrike
        refine ⟨_, hdrops.fired.trans hn, .inr ⟨?_, fun content hexpected => ?_⟩⟩
        · rw [List.length_cons]
          omega
        · rw [hfst] at hexpected
          simp only [Delivery.ofPublished, behind, List.length_cons] at hexpected
          omega
      obtain rfl : l₁ = l := by
        cases hdrops
        rfl
      have hget := h.follows.getElem?_eq hrow
      have hdelivery : fault ≠ some .corrupt →
          (({ s with awaiting := none }.behind []).hand e fault).1
            = Delivery.ofPublished e.1 e.2 expecting := fun hne => by
        rw [hfst, hwhole hne]
        simp only [Delivery.ofPublished, behind, List.length_nil, Nat.add_zero, hnumber]
      rcases fault with _ | fault
      · have hsame := Log.strike_none (l := l₁) (p := e.2) (by rw [hstrike])
        obtain rfl : l' = l₁ := by simpa [hstrike] using hsame
        refine ⟨0, .refl _, .inl ⟨e, hget, hdelivery (by simp), ?_, fun _ => h.hand hrow hd (.refl _)⟩⟩
        simp [debt, hand_snd, behind, hd]
      have hn := (Log.strike_some hstrike).2
      refine ⟨1, hn, ?_⟩
      by_cases hcorrupt' : fault = .corrupt
      · subst hcorrupt'
        refine .inr ⟨Nat.le_add_right 1 _, fun _ _ _ => ⟨e, hget, ?_, ?_⟩⟩
        · rw [hfst]
          rfl
        · rw [hfst, hcorrupt rfl]
      · refine .inl ⟨e, hget, hdelivery (by simpa using hcorrupt'), ?_, fun _ => h.hand hrow hd hn⟩
        rw [debt]
        split <;> omega

end KeepsUp

end Subscription

end FileRelay
