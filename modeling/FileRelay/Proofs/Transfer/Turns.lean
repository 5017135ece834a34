import FileRelay.Transfer.Turn
import Mathlib.Tactic.Common

/-!
# Proofs/Transfer/Turns — what rows of turns keep, and when they end

A property that every turn keeps while the transfer goes on holds after any number of turns, and
the turn that ends the transfer says what holds then (`takeTurns_all`).  Turns that make a measure
smaller come to an end (`takeTurns_ends`).
-/

namespace FileRelay.Turn

variable {σ ξ : Type} {turn : σ → ξ → Turn σ × ξ}

/-- What holds of a turn's state, by what the turn comes to. -/
def All (on done : σ → Prop) (broken : σ → Failure → Prop) : Turn σ → Prop
  | .on s => on s
  | .done s => done s
  | .broken s why => broken s why

theorem All.imp {on on' done done' : σ → Prop} {broken broken' : σ → Failure → Prop} {t : Turn σ}
    (h : t.All on done broken) (hon : ∀ s, on s → on' s) (hdone : ∀ s, done s → done' s)
    (hbroken : ∀ s why, broken s why → broken' s why) : t.All on' done' broken' := by
  cases t with
  | on s => exact hon s h
  | done s => exact hdone s h
  | broken s why => exact hbroken s why h

theorem All.and {on on' done done' : σ → Prop} {broken broken' : σ → Failure → Prop} {t : Turn σ}
    (h : t.All on done broken) (h' : t.All on' done' broken') :
    t.All (fun s => on s ∧ on' s) (fun s => done s ∧ done' s)
      (fun s why => broken s why ∧ broken' s why) := by
  cases t with
  | on s | done s | broken s why => exact ⟨h, h'⟩

variable {P D : σ → ξ → Prop} {B : σ → Failure → ξ → Prop}

/-- **What every turn keeps holds after any number of turns**, and what the last one leaves holds
at the end. -/
theorem takeTurns_all
    (step : ∀ s x, P s x → (turn s x).1.All (P · (turn s x).2) (D · (turn s x).2)
      (B · · (turn s x).2))
    (n : Nat) {s : σ} {x : ξ} (h : P s x) :
    (takeTurns turn n s x).1.All (P · (takeTurns turn n s x).2) (D · (takeTurns turn n s x).2)
      (B · · (takeTurns turn n s x).2) := by
  induction n generalizing s x with
  | zero => exact h
  | succ n ih =>
    have hs := step s x h
    rw [takeTurns]
    split
    all_goals rename_i he; rw [he] at hs
    · exact ih hs
    · exact hs
    · exact hs

/-- **Turns that make a measure smaller come to an end.** -/
theorem takeTurns_ends {μ : σ → ξ → Nat}
    (step : ∀ s x, P s x → (turn s x).1.All
      (fun s' => P s' (turn s x).2 ∧ μ s' (turn s x).2 < μ s x) (fun _ => True) (fun _ _ => True))
    {n : Nat} {s : σ} {x : ξ} (h : P s x) (hn : μ s x < n) :
    (takeTurns turn n s x).1.All (fun _ => False) (fun _ => True) (fun _ _ => True) := by
  induction n generalizing s x with
  | zero => exact absurd hn (Nat.not_lt_zero _)
  | succ n ih =>
    have hs := step s x h
    rw [takeTurns]
    split
    all_goals rename_i he; rw [he] at hs
    · obtain ⟨hP, hμ⟩ := hs
      simp only at hμ
      exact ih hP (by omega)
    · trivial
    · trivial

/-- **Turns that have come to an end** stay there, however many more are taken. -/
theorem takeTurns_of_le {m n : Nat} {s : σ} {x : ξ} (hle : m ≤ n)
    (h : (takeTurns turn m s x).1.All (fun _ => False) (fun _ => True) (fun _ _ => True)) :
    takeTurns turn n s x = takeTurns turn m s x := by
  induction m generalizing n s x with
  | zero => exact h.elim
  | succ m ih =>
    obtain ⟨k, rfl⟩ := Nat.exists_eq_add_of_lt hle
    rw [takeTurns] at h
    rw [takeTurns, takeTurns]
    rcases hturn : turn s x with ⟨s' | s' | ⟨s', why⟩, x'⟩
    · rw [hturn] at h
      exact ih (Nat.le_add_right m k) h
    · rfl
    · rfl

/-- **Turns that follow others** go on from there. -/
theorem takeTurns_add {k : Nat} {s s' : σ} {x x' : ξ} (h : takeTurns turn k s x = (.on s', x'))
    (n : Nat) : takeTurns turn (k + n) s x = takeTurns turn n s' x' := by
  induction k generalizing s x with
  | zero =>
    obtain ⟨hs, rfl⟩ := Prod.mk.inj h
    rw [Nat.zero_add, Turn.on.inj hs]
  | succ k ih =>
    rw [takeTurns] at h
    rw [Nat.add_right_comm, takeTurns]
    rcases hturn : turn s x with ⟨s₁ | s₁ | ⟨s₁, why⟩, x₁⟩
    · rw [hturn] at h
      exact ih h
    · simp [hturn] at h
    · simp [hturn] at h

/-! ## What turns yield -/

variable {α : Type}

/-- What turns yield, one after the other, up to the one that ends the transfer. -/
def gather (turn : σ → ξ → Turn σ × ξ) (yield : σ → ξ → List α) : Nat → σ → ξ → List α
  | 0, _, _ => []
  | n + 1, s, x =>
    yield s x ++ match turn s x with
      | (.on s, x) => gather turn yield n s x
      | _ => []

/-- **What every turn keeps, with what it yields, holds after any number of turns**, with all that they
have yielded. -/
theorem takeTurns_gather {yield : σ → ξ → List α} {P D : List α → σ → ξ → Prop}
    {B : List α → σ → Failure → ξ → Prop}
    (step : ∀ as s x, P as s x → (turn s x).1.All (P (as ++ yield s x) · (turn s x).2)
      (D (as ++ yield s x) · (turn s x).2) (B (as ++ yield s x) · · (turn s x).2))
    (n : Nat) {as : List α} {s : σ} {x : ξ} (h : P as s x) :
    (takeTurns turn n s x).1.All (P (as ++ gather turn yield n s x) · (takeTurns turn n s x).2)
      (D (as ++ gather turn yield n s x) · (takeTurns turn n s x).2)
      (B (as ++ gather turn yield n s x) · · (takeTurns turn n s x).2) := by
  induction n generalizing as s x with
  | zero =>
    rw [gather, List.append_nil]
    exact h
  | succ n ih =>
    have hs := step as s x h
    rw [takeTurns, gather]
    rcases hturn : turn s x with ⟨s' | s' | ⟨s', why⟩, x'⟩
    all_goals rw [hturn] at hs; dsimp only
    · rw [← List.append_assoc]
      exact ih hs
    · rw [List.append_nil]
      exact hs
    · rw [List.append_nil]
      exact hs

end FileRelay.Turn
