import FileRelay.Proofs.Log.Polling

/-!
# Proofs/Log/Firing — which faults a look at the log spends

A fault is armed at a place, for some deliveries (`Log.armed?`).  A look passes over places that rise,
so it spends each fault once at most, and leaves those at other places alone (`Log.FiredAt`).
-/

namespace FileRelay

namespace Log

variable {l l₁ l' : Log} {p q times : Nat} {fault : DeliveryFault} {places more : List Nat}

/-- The fault that is armed at a place, and for how many deliveries. -/
def armed? (l : Log) (p : Nat) : Option (DeliveryFault × Nat) :=
  (l.faults.find? fun f => f.1 = p).map Prod.snd

/-- What is left of a fault that has fired once. -/
def spent (f : DeliveryFault × Nat) : Option (DeliveryFault × Nat) :=
  if f.2 ≤ 1 then none else some (f.1, f.2 - 1)

theorem spent_ne (f : DeliveryFault × Nat) : spent f ≠ some f := by
  obtain ⟨fault, times⟩ := f
  unfold spent
  split
  · simp
  · simp only [ne_eq, Option.some.injEq, Prod.mk.injEq, true_and]
    omega

/-- A fault with so many deliveries left to fire on. -/
def left (fault : DeliveryFault) (n : Nat) : Option (DeliveryFault × Nat) :=
  if 0 < n then some (fault, n) else none

theorem isSome_left (n : Nat) : (left fault n).isSome = decide (0 < n) := by
  rcases n with _ | n <;> rfl

theorem left_kind {n : Nat} {f : DeliveryFault × Nat} (h : left fault n = some f) :
    f.1 = fault := by
  have hf := (Option.ite_none_right_eq_some.1 h).2
  exact congrArg Prod.fst (Option.some.inj hf).symm

theorem bind_spent_left (n : Nat) : (left fault n).bind spent = left fault (n - 1) := by
  rcases n with _ | _ | n <;> simp [left, spent]

/-- **A log whose faults at these places have fired**, each once, if there were any. -/
def FiredAt (l : Log) (places : List Nat) (l' : Log) : Prop :=
  ∀ q, l'.armed? q = if q ∈ places then (l.armed? q).bind spent else l.armed? q

namespace FiredAt

theorem of_faults (h : l'.faults = l.faults) : l.FiredAt [] l' := fun q => by
  rw [if_neg List.not_mem_nil, armed?, armed?, h]

/-- Faults at other places fire on their own. -/
theorem append (h : l.FiredAt places l₁) (h' : l₁.FiredAt more l')
    (hd : ∀ q ∈ more, q ∉ places) : l.FiredAt (places ++ more) l' := by
  intro q
  rw [h' q, h q]
  by_cases hm : q ∈ more
  · simp [hm, hd q hm]
  · simp [hm]

/-- A fault has fired if it is no longer armed as it was. -/
theorem ne_iff (h : l.FiredAt places l') (q : Nat) :
    l'.armed? q ≠ l.armed? q ↔ q ∈ places ∧ (l.armed? q).isSome := by
  rw [h q]
  by_cases hq : q ∈ places
  · rcases harmed : l.armed? q with _ | f
    · simp
    · simp [hq, spent_ne]
  · simp [hq]

end FiredAt

/-- Faults at other places are found as before. -/
theorem find?_filter_ne (fs : List (Nat × DeliveryFault × Nat)) (h : q ≠ p) :
    (fs.filter fun f => f.1 ≠ p).find? (fun f => f.1 = q) = fs.find? fun f => f.1 = q := by
  rw [List.find?_filter]
  congr 1
  funext f
  by_cases hq : f.1 = q
  · simp [hq, h]
  · simp [hq]

theorem find?_filter_self (fs : List (Nat × DeliveryFault × Nat)) :
    (fs.filter fun f => f.1 ≠ p).find? (fun f => f.1 = p) = none := by
  rw [List.find?_filter, List.find?_eq_none]
  intro f _
  by_cases hp : f.1 = p <;> simp [hp]

/-- **Arming** a fault changes what is armed at its place. -/
theorem armed?_arm (l : Log) (p : Nat) (fault : DeliveryFault) (times q : Nat) :
    (l.arm p fault times).armed? q
      = if q = p ∧ times ≠ 0 then some (fault, times) else l.armed? q := by
  unfold arm
  split
  · rename_i htimes
    simp [htimes]
  rename_i htimes
  rw [armed?, armed?, List.find?_cons]
  by_cases hq : q = p
  · simp [hq, htimes]
  · rw [if_neg (by simp [hq]), find?_filter_ne _ hq]
    simp [Ne.symm hq]

/-- What strikes is the fault that is armed. -/
theorem strike_fst (l : Log) (p : Nat) : (l.strike p).1 = (l.armed? p).map Prod.fst := by
  unfold strike armed?
  split
  all_goals rename_i hf; rw [hf]; rfl

/-- **What strikes has fired**, and nothing else. -/
theorem strike_firedAt (l : Log) (p : Nat) : l.FiredAt [p] (l.strike p).2 := by
  intro q
  simp only [List.mem_singleton]
  unfold strike
  split
  · rename_i hf
    have hnone : l.armed? p = none := by rw [armed?, hf]; rfl
    split
    · rename_i hq
      rw [hq, hnone]
      rfl
    · rfl
  rename_i p' fault times hf
  have hsome : l.armed? p = some (fault, times) := by rw [armed?, hf]; rfl
  by_cases hq : q = p
  · subst hq
    rw [if_pos rfl, hsome, Option.bind_some, spent, armed?]
    dsimp only
    split
    · rw [find?_filter_self]
      rfl
    · simp
  · rw [if_neg hq, armed?, armed?]
    dsimp only
    split
    · rw [find?_filter_ne _ hq]
    · rw [List.find?_cons, find?_filter_ne _ hq]
      simp [Ne.symm hq]

/-- **Messages that are left out at rising places**: a drop was armed at each of them, and has fired
once. -/
theorem Drops.firedAt {es : List (Published × Nat)} (h : Drops l es l')
    (hs : es.Pairwise fun e f => e.2 < f.2) :
    (∀ e ∈ es, (l.armed? e.2).map Prod.fst = some .drop) ∧ l.FiredAt (es.map Prod.snd) l' := by
  induction h with
  | nil l => exact ⟨by simp, .of_faults rfl⟩
  | @cons l l₁ l' e es hstrike _ ih =>
    obtain ⟨hfirst, hrest⟩ := List.pairwise_cons.1 hs
    obtain ⟨hdrops, hfired⟩ := ih hrest
    have hone := l.strike_firedAt e.2
    rw [hstrike] at hone
    refine ⟨fun f hf => ?_, ?_⟩
    · rcases List.mem_cons.1 hf with rfl | hf
      · rw [← strike_fst, hstrike]
      · have hne : f.2 ≠ e.2 := Nat.ne_of_gt (hfirst f hf)
        rw [← hdrops f hf, hone, if_neg (by simpa using hne)]
    · refine hone.append hfired fun q hq hmem => ?_
      obtain ⟨f, hf, rfl⟩ := List.mem_map.1 hq
      rw [List.mem_singleton] at hmem
      exact absurd (hfirst f hf) (by omega)

/-- **Messages that are left out before one at a later place**: what strikes there was armed before
all of them. -/
theorem Drops.strike_firedAt {e : Published × Nat} {f : Option DeliveryFault}
    {es rest : List (Published × Nat)} (h : Drops l es l₁)
    (hs : (es ++ e :: rest).Pairwise fun e f => e.2 < f.2) (hf : l₁.strike e.2 = (f, l')) :
    (l.armed? e.2).map Prod.fst = f ∧ l.FiredAt (es.map Prod.snd ++ [e.2]) l' := by
  obtain ⟨hsorted, -, hbefore⟩ := List.pairwise_append.1 hs
  have hne : e.2 ∉ es.map Prod.snd := fun hmem => by
    obtain ⟨g, hg, heq⟩ := List.mem_map.1 hmem
    exact absurd (hbefore g hg e List.mem_cons_self) (by omega)
  have hdrops := (h.firedAt hsorted).2
  have hone := l₁.strike_firedAt e.2
  rw [hf] at hone
  refine ⟨?_, hdrops.append hone fun q hq => List.mem_singleton.1 hq ▸ hne⟩
  rw [← congrArg (Option.map Prod.fst) ((hdrops e.2).trans (if_neg hne)), ← strike_fst, hf]

end Log

namespace Subscription

variable {s s' : Subscription} {l l' : Log} {o : Option Delivery}

/-- **The places of its row that a reader has passed over** to become another. -/
def passed (s : Subscription) (l : Log) (s' : Subscription) : List Nat :=
  ((l.row s.subject s.cursor).filter fun e => e.2 < s'.cursor).map Prod.snd

/-- A reader that stays where it is passes over nothing. -/
theorem passed_of_cursor (h : s'.cursor = s.cursor) : s.passed l s' = [] := by
  rw [passed, h, List.filter_eq_nil_iff.2, List.map_nil]
  intro e he
  have := (Log.mem_row_iff.1 he).1
  simp only [decide_eq_true_eq]
  omega

/-- **A reader that finds its row left out** passes over all of it. -/
theorem passed_drained (h : l.messages.size < s'.cursor) :
    s.passed l s' = (l.row s.subject s.cursor).map Prod.snd := by
  rw [passed, List.filter_eq_self.2]
  intro e he
  have := Log.le_size_of_message? (Log.mem_row_iff.1 he).2.1
  simp only [decide_eq_true_eq]
  omega

/-- **A reader that is handed a message** passes over what was left out before it, and over it. -/
theorem passed_handed {e : Published × Nat} {skipped rest : List (Published × Nat)}
    (hrow : l.row s.subject s.cursor = skipped ++ e :: rest) (h : s'.cursor = e.2 + 1) :
    s.passed l s' = skipped.map Prod.snd ++ [e.2] := by
  obtain ⟨-, hbefore, hafter⟩ := Log.row_around hrow
  have hskipped : skipped.filter (fun f => f.2 < e.2 + 1) = skipped :=
    List.filter_eq_self.2 fun f hf => decide_eq_true (Nat.lt_succ_of_lt (hbefore f hf))
  have hrest : rest.filter (fun f => f.2 < e.2 + 1) = [] :=
    List.filter_eq_nil_iff.2 fun f hf => by
      simpa [Nat.lt_succ_iff] using hafter f hf
  rw [passed, hrow, h, List.filter_append, List.filter_cons_of_pos (by simp), hskipped, hrest,
    List.map_append, List.map_singleton]

/-- **A look spends faults at the places that it passes over**, and no others. -/
theorem Polls.firedAt (h : s.Polls l o s' l') : l.FiredAt (s.passed l s') l' := by
  cases h with
  | held | again | ask =>
    rw [passed_of_cursor]
    · exact .of_faults rfl
    · rfl
  | scanned _ _ _ hs =>
    cases hs with
    | drained hd =>
      rw [passed_drained (Nat.le_max_right _ _)]
      exact (hd.firedAt (l.row_pairwise _ _)).2
    | handed hrow hd hf =>
      rw [passed_handed (s := s) hrow]
      · exact (hd.strike_firedAt (hrow ▸ l.row_pairwise _ _) hf).2
      · rw [hand_snd]

end Subscription

end FileRelay
