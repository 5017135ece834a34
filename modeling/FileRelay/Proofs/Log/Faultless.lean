import FileRelay.Proofs.Log.Polling

/-!
# Proofs/Log/Faultless — a reader of a log without faults

Without faults a look finds the next message of the row as it was published, or finds nothing because
the row has ended (`Polls.found`, `Polls.vain`).
-/

namespace FileRelay

variable {s s' : Subscription} {l l' : Log} {d : Delivery}

theorem Log.strike_of_faults_nil (hf : l.faults = []) (p : Nat) : l.strike p = (none, l) := by
  simp [strike, hf]

/-- Without faults nothing is left out. -/
theorem Log.Drops.nil_of_faults_nil {es : List (Published × Nat)} (h : l.Drops es l')
    (hf : l.faults = []) : es = [] ∧ l' = l := by
  refine ⟨List.eq_nil_iff_forall_not_mem.2 fun e he => ?_, h.fired.eq_of_faults_nil hf⟩
  obtain ⟨g, hg, -⟩ := h.armed e he
  simp [hf] at hg

namespace Subscription

/-- **A look in vain**: the reader is held up, or its row has ended. -/
theorem Polls.vain (h : s.Polls l none s' l') (hf : l.faults = []) (hheld : s.held l = false) :
    l' = l ∧ l.row s.subject s.cursor = [] ∧ s.flowIsDue l = false ∧
      s' = { s with awaiting := none, cursor := max s.cursor (l.messages.size + 1) } := by
  cases h with
  | held hh => simp [hheld] at hh
  | scanned _ _ hflow hs =>
    cases hs with
    | drained hd =>
      obtain ⟨hrow, rfl⟩ := hd.nil_of_faults_nil hf
      exact ⟨rfl, hrow, hflow, by simp only [behind, hrow, List.length_nil, Nat.add_zero]⟩

/-- **A look that finds data** finds the next message of the row as it was published. -/
theorem Polls.found (h : s.Polls l (some d) s' l') (hf : l.faults = []) (hd : s.doubled = none)
    (hk : d.kind = .data) : l' = l ∧ s.held l = false ∧ s.flowIsDue l = false ∧ ∃ e rest,
      l.row s.subject s.cursor = e :: rest ∧
      d = Delivery.ofPublished e.1 e.2 (s.delivered + 1) ∧
      s' = { s with
        cursor := e.2 + 1, delivered := s.delivered + 1, sinceFlow := s.sinceFlow + 1
        awaiting := none } := by
  cases h with
  | again _ hdoubled => simp [hd] at hdoubled
  | ask => simp [Delivery.status] at hk
  | scanned hheld _ hflow hs =>
    cases hs with
    | @handed skipped rest e _ _ fault hrow hdrops hstrike =>
      obtain ⟨rfl, rfl⟩ := hdrops.nil_of_faults_nil hf
      rw [Log.strike_of_faults_nil hf] at hstrike
      obtain ⟨rfl, rfl⟩ := Prod.mk.inj hstrike
      exact ⟨rfl, hheld, hflow, e, rest, hrow, rfl, rfl⟩

end Subscription

end FileRelay
