import FileRelay.Transfer.Session
import Mathlib.Tactic.Common

/-!
# Proofs/Transfer/Counting — what a session has counted

A session that has accepted messages from some places of the log counts them and their octets, knows
the first place and the last one, expects the next part, and has spent of its budget what it has
recovered (`Session.Counts`).
-/

namespace FileRelay.Session

/-- **A session that has accepted parts from these places**, of so many octets together. -/
structure Counts (s : Session) (budget : Nat) (origin : Position) (places : List Nat)
    (octets : Nat) : Prop where
  origin : s.origin = origin
  partsWritten : s.partsWritten = places.length
  bytesWritten : s.bytesWritten = octets
  expecting : 1 ≤ s.expecting
  expectedPart : s.expectedPart = places.length + 1
  firstSequence : s.firstSequence = places.head?
  lastSequence : s.lastSequence = places.getLast?
  budget : s.retriesLeft + s.recoveries = budget

variable {s s' : Session} {budget octets place n : Nat} {origin : Position} {places : List Nat}

theorem counts_new (budget : Nat) (origin : Position) :
    (Session.new budget origin).Counts budget origin [] 0 :=
  ⟨rfl, rfl, rfl, Nat.le_refl 1, rfl, rfl, rfl, Nat.add_zero budget⟩

/-- An accepted part is counted and costs nothing. -/
theorem accept?_counters (h : s.accept? place n = some s') :
    s'.partsWritten = s.partsWritten + 1 ∧ s'.retriesLeft = s.retriesLeft ∧
      s'.recoveries = s.recoveries := by
  obtain ⟨total, -, rfl⟩ := Option.map_eq_some_iff.1 h
  exact ⟨rfl, rfl, rfl⟩

/-- A recovery counts no part and costs one of the budget. -/
theorem recover?_counters {p : Position} (h : s.recover? = some (some p, s')) :
    s'.partsWritten = s.partsWritten ∧ s'.retriesLeft + 1 = s.retriesLeft ∧
      s'.recoveries = s.recoveries + 1 := by
  unfold recover? at h
  split at h
  · simp at h
  rename_i hleft
  obtain ⟨q, -, heq⟩ := Option.map_eq_some_iff.1 h
  obtain ⟨-, rfl⟩ := Prod.mk.inj heq
  refine ⟨rfl, ?_, rfl⟩
  simp only
  omega

/-- A session whose budget is spent only fails, and none other is refused a recovery. -/
theorem recover?_refused (h : s.recover? = some (none, s')) :
    s.retriesLeft = 0 ∧ s' = { s with state := .failed } := by
  unfold recover? at h
  split at h
  · rename_i hleft
    obtain ⟨-, rfl⟩ := Prod.mk.inj (Option.some.inj h)
    exact ⟨hleft, rfl⟩
  · obtain ⟨q, -, heq⟩ := Option.map_eq_some_iff.1 h
    simp at heq

/-- A session whose budget is spent does not recover once more. -/
theorem recover?_spent (h : s.recover? = some (none, s')) : s'.recoveries = s.recoveries := by
  rw [(recover?_refused h).2]

/-- Where reading goes on behind the parts from these places. -/
def resumption (origin : Position) (places : List Nat) : Position :=
  match places.getLast? with
  | none => origin
  | some p => .sequence (p + 1)

namespace Counts

/-- What a session is doing makes no difference to what it has counted. -/
theorem withState (h : s.Counts budget origin places octets) (state : SessionState) :
    { s with state }.Counts budget origin places octets :=
  ⟨h.origin, h.partsWritten, h.bytesWritten, h.expecting, h.expectedPart, h.firstSequence,
    h.lastSequence, h.budget⟩

/-- **One more part is counted**, and the next delivery and the next part are expected. -/
theorem accept (h : s.Counts budget origin places octets) (ha : s.accept? place n = some s') :
    s'.Counts budget origin (places ++ [place]) (octets + n) ∧
      s'.expecting = s.expecting + 1 := by
  obtain ⟨total, hfit, rfl⟩ := Option.map_eq_some_iff.1 ha
  obtain ⟨-, rfl⟩ := Word.fit_eq_some_iff.1 hfit
  refine ⟨⟨h.origin, ?_, ?_, ?_, ?_, ?_, ?_, h.budget⟩, rfl⟩
  · simp [h.partsWritten]
  · simp [h.bytesWritten]
  · exact Nat.le_succ_of_le h.expecting
  · have := h.expectedPart
    simp only [Session.expectedPart, List.length_append, List.length_singleton] at this ⊢
    omega
  · rw [h.firstSequence]
    cases places <;> simp
  · simp

/-- Only an outgrown counter keeps a part from being counted. -/
theorem accept?_ne_none (h : s.Counts budget origin places octets)
    (hn : octets + n < Word.limit) : s.accept? place n ≠ none := by
  rw [accept?, h.bytesWritten, Word.fit_of_lt hn]
  exact Option.some_ne_none _

/-- **A recovery** begins a new count of deliveries, and reading goes on behind the last part. -/
theorem recover (h : s.Counts budget origin places octets) {p : Position}
    (hr : s.recover? = some (some p, s')) :
    s'.Counts budget origin places octets ∧ s'.expecting = 1 ∧
      p = resumption origin places := by
  unfold recover? at hr
  split at hr
  · simp at hr
  rename_i hleft
  obtain ⟨q, hq, heq⟩ := Option.map_eq_some_iff.1 hr
  obtain ⟨hqp, rfl⟩ := Prod.mk.inj heq
  obtain rfl := Option.some.inj hqp
  have hexpected := h.expectedPart
  refine ⟨⟨h.origin, h.partsWritten, h.bytesWritten, Nat.le_refl 1, ?_, h.firstSequence,
    h.lastSequence, ?_⟩, rfl, ?_⟩
  · simp only [Session.expectedPart] at hexpected ⊢
    omega
  · have := h.budget
    simp only
    omega
  · simp only [resumeFrom?, h.lastSequence, h.origin] at hq
    rw [resumption]
    cases hl : places.getLast? with
    | none =>
      rw [hl] at hq
      exact (Option.some.inj hq).symm
    | some p =>
      rw [hl] at hq
      obtain ⟨q', hfit, rfl⟩ := Option.map_eq_some_iff.1 hq
      obtain ⟨-, rfl⟩ := Word.fit_eq_some_iff.1 hfit
      rfl

/-- Only an outgrown place keeps a session with a budget from a recovery. -/
theorem recover?_ne_none (h : s.Counts budget origin places octets)
    (hp : ∀ p, places.getLast? = some p → p + 1 < Word.limit) : s.recover? ≠ none := by
  unfold recover?
  split
  · simp
  · simp only [resumeFrom?, h.lastSequence]
    rcases hl : places.getLast? with _ | p
    · simp
    · simp [Word.fit_of_lt (hp p hl)]

/-- **A session whose budget is spent** has recovered as often as it could. -/
theorem spent (h : s.Counts budget origin places octets)
    (hr : s.recover? = some (none, s')) : s'.Counts budget origin places octets ∧
      s'.recoveries = budget := by
  obtain ⟨hleft, rfl⟩ := recover?_refused hr
  have := h.budget
  exact ⟨h.withState .failed, by simp only; omega⟩

end Counts

end FileRelay.Session
