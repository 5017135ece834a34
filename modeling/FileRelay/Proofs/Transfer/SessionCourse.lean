import FileRelay.Proofs.Transfer.Counting
import Mathlib.Algebra.GroupWithZero.Nat
import Mathlib.Data.List.DropRight

/-!
# Proofs/Transfer/SessionCourse — a session after any course of steps

A session is started, accepts parts, recovers or is refused a recovery, is finished and fails, in any
order (`Session.Course`).  What it counts is read off its course: the parts that were accepted, those
among them since the last recovery, and the recoveries.  So a session asks for the part behind all
that were accepted, as the delivery behind those that its reader has brought
(`Course.keeps_account`).
-/

namespace FileRelay.Session

/-- **A step of a session.** -/
inductive Step where
  | started
  | accepted (place octets : Nat)
  /-- A recovery, and where reading goes on. -/
  | recovered (position : Position)
  /-- A recovery that the budget does not allow. -/
  | refused
  | finished
  | failed
  deriving DecidableEq

namespace Step

/-- The part that a step accepts: its place and its octets. -/
def part? : Step → Option (Nat × Nat)
  | accepted place octets => some (place, octets)
  | _ => none

/-- Is a step a recovery? -/
def isRecovery : Step → Bool
  | recovered _ => true
  | _ => false

/-! ### What is read off some steps -/

/-- The parts that were accepted. -/
def parts (steps : List Step) : List (Nat × Nat) := steps.filterMap part?

/-- The places of the parts that were accepted. -/
def places (steps : List Step) : List Nat := (parts steps).map Prod.fst

/-- The octets of the parts that were accepted. -/
def octets (steps : List Step) : Nat := ((parts steps).map Prod.snd).sum

/-- How many steps are recoveries. -/
def recoveries (steps : List Step) : Nat := steps.countP isRecovery

/-- The steps up to the last recovery, none if there was no recovery. -/
def untilRecovery (steps : List Step) : List Step := steps.rdropWhile fun a => !a.isRecovery

/-- The steps since the last recovery, all if there was no recovery. -/
def sinceRecovery (steps : List Step) : List Step := steps.rtakeWhile fun a => !a.isRecovery

variable {steps : List Step} {a : Step}

@[simp] theorem parts_concat (steps : List Step) (a : Step) :
    parts (steps ++ [a]) = parts steps ++ a.part?.toList := by
  cases ha : a.part? <;> simp [parts, ha]

@[simp] theorem places_concat (steps : List Step) (a : Step) :
    places (steps ++ [a]) = places steps ++ (a.part?.map Prod.fst).toList := by
  cases ha : a.part? <;> simp [places, ha]

@[simp] theorem octets_concat (steps : List Step) (a : Step) :
    octets (steps ++ [a]) = octets steps + (a.part?.map Prod.snd).getD 0 := by
  cases ha : a.part? <;> simp [octets, ha]

@[simp] theorem recoveries_concat (steps : List Step) (a : Step) :
    recoveries (steps ++ [a]) = recoveries steps + a.isRecovery.toNat := by
  cases ha : a.isRecovery <;> simp [recoveries, ha]

theorem untilRecovery_of_recovery (ha : a.isRecovery = true) :
    untilRecovery (steps ++ [a]) = steps ++ [a] :=
  List.rdropWhile_concat_neg _ _ _ (by simp [ha])

theorem untilRecovery_of_other (ha : a.isRecovery = false) :
    untilRecovery (steps ++ [a]) = untilRecovery steps :=
  List.rdropWhile_concat_pos _ _ _ (by simp [ha])

/-- The parts before the last recovery and those since then are all parts. -/
theorem parts_around (steps : List Step) :
    parts (untilRecovery steps) ++ parts (sinceRecovery steps) = parts steps := by
  rw [parts, parts, ← List.filterMap_append, untilRecovery, sinceRecovery, List.rdropWhile,
    List.rtakeWhile, ← List.reverse_append, List.takeWhile_append_dropWhile, List.reverse_reverse,
    parts]

end Step

/-- **What a session can come to** with a budget, from an origin on, by the steps that were taken. -/
inductive Course (budget : Nat) (origin : Position) : List Step → Session → Prop
  | new : Course budget origin [] (.new budget origin)
  | start {steps : List Step} {s : Session} (h : Course budget origin steps s) :
      Course budget origin (steps ++ [.started]) s.startReading
  | accept {steps : List Step} {s s' : Session} {place octets : Nat}
      (h : Course budget origin steps s) (ha : s.accept? place octets = some s') :
      Course budget origin (steps ++ [.accepted place octets]) s'
  | recover {steps : List Step} {s s' : Session} {p : Position}
      (h : Course budget origin steps s) (hr : s.recover? = some (some p, s')) :
      Course budget origin (steps ++ [.recovered p]) s'
  | refuse {steps : List Step} {s s' : Session}
      (h : Course budget origin steps s) (hr : s.recover? = some (none, s')) :
      Course budget origin (steps ++ [.refused]) s'
  | finish {steps : List Step} {s : Session} (h : Course budget origin steps s) :
      Course budget origin (steps ++ [.finished]) s.finish
  | fail {steps : List Step} {s : Session} (h : Course budget origin steps s) :
      Course budget origin (steps ++ [.failed]) s.fail

variable {budget n place : Nat} {origin p : Position} {steps : List Step} {a : Step}
  {s s' : Session}

/-! ## The account of a course -/

/-- **A session that agrees with its course**: it has counted the parts, numbers deliveries behind the
parts before the last recovery, and knows how often it has recovered. -/
structure Accounts (budget : Nat) (origin : Position) (steps : List Step) (s : Session) :
    Prop where
  counts : s.Counts budget origin (Step.places steps) (Step.octets steps)
  adjustment : s.adjustment = (Step.parts (Step.untilRecovery steps)).length
  recoveries : s.recoveries = Step.recoveries steps

namespace Accounts

/-- A step that is no recovery and accepts nothing changes only what the session is doing. -/
theorem withState (h : Accounts budget origin steps s) (state : SessionState)
    (ha : a.isRecovery = false) (hp : a.part? = none) :
    Accounts budget origin (steps ++ [a]) { s with state } := by
  refine ⟨?_, ?_, ?_⟩
  · simpa [hp] using h.counts.withState state
  · rw [Step.untilRecovery_of_other ha]
    exact h.adjustment
  · simpa [ha] using h.recoveries

theorem accept (h : Accounts budget origin steps s) (ha : s.accept? place n = some s') :
    Accounts budget origin (steps ++ [.accepted place n]) s' := by
  obtain ⟨hcounts, -⟩ := h.counts.accept ha
  obtain ⟨-, -, hrecoveries⟩ := accept?_counters ha
  refine ⟨by simpa [Step.part?] using hcounts, ?_, ?_⟩
  · obtain ⟨total, -, rfl⟩ := Option.map_eq_some_iff.1 ha
    rw [Step.untilRecovery_of_other rfl]
    exact h.adjustment
  · simpa [Step.isRecovery, hrecoveries] using h.recoveries

/-- **A recovery begins a new numbering** behind all parts that were accepted. -/
theorem recover (h : Accounts budget origin steps s) (hr : s.recover? = some (some p, s')) :
    Accounts budget origin (steps ++ [.recovered p]) s' := by
  obtain ⟨hcounts, hexpecting, -⟩ := h.counts.recover hr
  obtain ⟨-, -, hrecoveries⟩ := recover?_counters hr
  refine ⟨by simpa [Step.part?] using hcounts, ?_, ?_⟩
  · -- The part that comes next is the same as before, and deliveries are counted from one again.
    have hexpected := hcounts.expectedPart
    rw [expectedPart, hexpecting, Step.places, List.length_map] at hexpected
    rw [Step.untilRecovery_of_recovery rfl, Step.parts_concat]
    simp only [Step.part?, Option.toList_none, List.append_nil]
    omega
  · simpa [Step.isRecovery, hrecoveries] using h.recoveries

/-- A refused recovery changes only what the session is doing. -/
theorem refuse (h : Accounts budget origin steps s) (hr : s.recover? = some (none, s')) :
    Accounts budget origin (steps ++ [.refused]) s' := by
  rw [(recover?_refused hr).2]
  exact h.withState .failed rfl rfl

/-- The next delivery is the one behind those that were accepted since the last recovery. -/
theorem expecting (h : Accounts budget origin steps s) :
    s.expecting = (Step.parts (Step.sinceRecovery steps)).length + 1 := by
  have hexpected := h.counts.expectedPart
  have hall := congrArg List.length (Step.parts_around steps)
  rw [expectedPart, h.adjustment, Step.places, List.length_map] at hexpected
  rw [List.length_append] at hall
  omega

/-- **A session recovers as often as its budget allows**, if the place to go on from is a word. -/
theorem recover?_eq (h : Accounts budget origin steps s)
    (hfits : ∀ n, s.lastSequence = some n → n + 1 < Word.limit) :
    (Step.recoveries steps < budget ∧
        ∃ s', s.recover? = some (some (resumption origin (Step.places steps)), s')) ∨
      (Step.recoveries steps = budget ∧
        s.recover? = some (none, { s with state := .failed })) := by
  have hbudget := h.counts.budget
  rw [h.recoveries] at hbudget
  rcases hr : s.recover? with _ | ⟨_ | p, s'⟩
  · rw [h.counts.lastSequence] at hfits
    exact absurd hr (h.counts.recover?_ne_none hfits)
  · obtain ⟨hleft, rfl⟩ := recover?_refused hr
    exact .inr ⟨by omega, rfl⟩
  · obtain ⟨-, -, rfl⟩ := h.counts.recover hr
    obtain ⟨-, hleft, -⟩ := recover?_counters hr
    exact .inl ⟨by omega, s', rfl⟩

end Accounts

/-- **A session always agrees with its course.** -/
theorem Course.accounts (h : Course budget origin steps s) : Accounts budget origin steps s := by
  induction h with
  | new => exact ⟨counts_new budget origin, rfl, rfl⟩
  | start _ ih => exact ih.withState .reading rfl rfl
  | accept _ ha ih => exact ih.accept ha
  | recover _ hr ih => exact ih.recover hr
  | refuse _ hr ih => exact ih.refuse hr
  | finish _ ih => exact ih.withState .done rfl rfl
  | fail _ ih => exact ih.withState .failed rfl rfl

/-! ## What comes next -/

theorem checkOrder_eq_ok_iff {delivery part : Nat} :
    s.checkOrder delivery part = .ok () ↔ delivery = s.expecting ∧ part = s.expectedPart := by
  unfold checkOrder
  by_cases hd : delivery = s.expecting
  · by_cases hp : part = s.expectedPart <;> simp [hd, hp]
  · simp [hd]

/-- **A session is where its course has brought it**: its counters are those of the steps, it can
accept as long as its octets fit a word, it recovers as often as its budget allows, and of all
deliveries it lets only the next one pass, and only if it carries the next part. -/
theorem Course.keeps_account (h : Course budget origin steps s) :
    (1 ≤ s.expecting ∧ s.expecting + s.adjustment = s.partsWritten + 1 ∧
      s.adjustment = (Step.parts (Step.untilRecovery steps)).length ∧
      s.retriesLeft + s.recoveries = budget ∧ s.recoveries = Step.recoveries steps ∧
      s.partsWritten = (Step.parts steps).length ∧ s.bytesWritten = Step.octets steps ∧
      s.firstSequence = (Step.places steps).head? ∧
      s.lastSequence = (Step.places steps).getLast?) ∧
    (∀ place n, s.accept? place n ≠ none ↔ s.bytesWritten + n < Word.limit) ∧
    ((∀ n, s.lastSequence = some n → n + 1 < Word.limit) →
      (Step.recoveries steps < budget ∧
          ∃ s', s.recover? = some (some (resumption origin (Step.places steps)), s')) ∨
        (Step.recoveries steps = budget ∧
          s.recover? = some (none, { s with state := .failed }))) ∧
    (∀ delivery part, s.checkOrder delivery part = .ok () ↔
      delivery = 1 + (Step.parts (Step.sinceRecovery steps)).length ∧
        part = s.partsWritten + 1) ∧
    ∀ p s', s.recover? = some (some p, s') → s'.partsWritten = s.partsWritten ∧
      ∀ delivery part, s'.checkOrder delivery part = .ok () ↔
        delivery = 1 ∧ part = s'.partsWritten + 1 := by
  have ha := h.accounts
  have hparts : s.partsWritten = (Step.parts steps).length :=
    ha.counts.partsWritten.trans (List.length_map _)
  have hpart : ∀ {s : Session} {octets}, s.Counts budget origin (Step.places steps) octets →
      s.expectedPart = s.partsWritten + 1 := fun hc => by rw [hc.expectedPart, hc.partsWritten]
  refine ⟨⟨ha.counts.expecting, hpart ha.counts, ha.adjustment, ha.counts.budget, ha.recoveries,
    hparts, ha.counts.bytesWritten, ha.counts.firstSequence, ha.counts.lastSequence⟩,
    fun place n => ?_, ha.recover?_eq, fun delivery part => ?_, fun p s' hr => ?_⟩
  · rw [accept?, ne_eq, Option.map_eq_none_iff, Word.fit]
    split <;> simp [*]
  · rw [checkOrder_eq_ok_iff, ha.expecting, hpart ha.counts, Nat.add_comm]
  · obtain ⟨hcounts, hexpecting, -⟩ := ha.counts.recover hr
    refine ⟨(recover?_counters hr).1, fun delivery part => ?_⟩
    rw [checkOrder_eq_ok_iff, hexpecting, hpart hcounts]

/-- A recovery before the first part, a part, and a recovery that the budget does not allow. -/
theorem Course.keeps_account_of_refused : ∃ s,
    Course 1 (.sequence 5) [.recovered (.sequence 5), .accepted 7 10, .refused] s ∧
      s.expecting + s.adjustment = 2 ∧
      ∀ delivery part, s.checkOrder delivery part = .ok () ↔ delivery = 2 ∧ part = 2 := by
  have h : Course 1 (.sequence 5) [.recovered (.sequence 5), .accepted 7 10, .refused]
      ⟨.failed, 2, 0, 0, 1, .sequence 5, some 7, some 7, 1, 10⟩ :=
    .refuse (.accept (.recover .new rfl) rfl) rfl
  obtain ⟨⟨-, hnext, -⟩, -, -, horder, -⟩ := h.keeps_account
  exact ⟨_, h, hnext, horder⟩

end FileRelay.Session
