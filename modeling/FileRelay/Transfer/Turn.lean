import FileRelay.Failure

/-!
# Transfer/Turn — a transfer as a row of turns

A transfer goes on in **turns**.  A turn changes the transfer's own state and the surroundings
that it shares with others, and says whether the transfer goes on, has come to the end of its
turns, or is broken off.  `takeTurns` takes at most so many of them.

What every turn keeps is kept by a row of turns (`takeTurns_invariant`).
-/

namespace FileRelay

/-- What a turn comes to. -/
inductive Turn (σ : Type) where
  | on (s : σ)
  | done (s : σ)
  | broken (s : σ) (why : Failure)
  deriving DecidableEq

namespace Turn

variable {σ ξ : Type}

/-- The state that a turn leaves. -/
def state : Turn σ → σ
  | on s | done s | broken s _ => s

/-- **At most so many turns**: the last one says whether the transfer goes on still. -/
def takeTurns (turn : σ → ξ → Turn σ × ξ) : Nat → σ → ξ → Turn σ × ξ
  | 0, s, x => (.on s, x)
  | n + 1, s, x =>
    match turn s x with
    | (.on s, x) => takeTurns turn n s x
    | (.done s, x) => (.done s, x)
    | (.broken s why, x) => (.broken s why, x)

/-- **What every turn keeps is kept by a row of turns.** -/
theorem takeTurns_invariant {turn : σ → ξ → Turn σ × ξ} {P : σ → ξ → Prop}
    (keep : ∀ s x, P s x → P (turn s x).1.state (turn s x).2) (n : Nat) (s : σ) (x : ξ)
    (h : P s x) : P (takeTurns turn n s x).1.state (takeTurns turn n s x).2 := by
  induction n generalizing s x with
  | zero => exact h
  | succ n ih =>
    have hk := keep s x h
    unfold takeTurns
    split
    all_goals rename_i he; rw [he] at hk
    · exact ih _ _ hk
    · exact hk
    · exact hk

end Turn

end FileRelay
