import FileRelay.Meter
import Mathlib.Algebra.BigOperators.Group.List.Basic
import Mathlib.Algebra.GroupWithZero.Nat
import Mathlib.Algebra.Order.BigOperators.Group.List
import Mathlib.Algebra.Order.Group.Nat
import Mathlib.Data.List.DropRight
import Mathlib.Data.List.Infix

/-!
# Proofs/Meter — a meter keeps what all its samples would say

A meter throws samples away as they become too old or too many, and never looks at them again.  As long
as the clock does not go back nothing is lost by that: what it keeps are the last of all samples since
the last reset that lie in the window (`Meter.samples_after`), for a sample that was thrown away would
be thrown away at every later time.  So its rate is that of a window which is cut out of the whole
history anew (`Meter.window_recomputed`).
-/

namespace FileRelay

/-! ## The end of a list -/

section

variable {α : Type} {p : α → Bool} {l : List α}

/-- **Where all that follows a chosen entry is chosen**, the last entries are chosen first or last. -/
theorem filter_rtake (h : l.Pairwise fun a b => p a = true → p b = true) (n : ℕ) :
    (l.rtake n).filter p = (l.filter p).rtake n := by
  induction l with
  | nil => rw [List.rtake_nil, List.filter_nil, List.rtake_nil]
  | cons a l ih =>
    obtain ⟨hfirst, hrest⟩ := List.pairwise_cons.1 h
    rcases Nat.lt_or_ge l.length n with hlong | hshort
    · have hall : ∀ k : List α, k.length ≤ n → k.rtake n = k := fun k hk => by
        rw [List.rtake, Nat.sub_eq_zero_of_le hk, List.drop_zero]
      have hlength : (a :: l).length ≤ n := hlong
      rw [hall _ hlength, hall _ (Nat.le_trans (List.length_filter_le _ _) hlength)]
    · have hdrop : ∀ (b : α) (k : List α), n ≤ k.length → (b :: k).rtake n = k.rtake n :=
        fun b k hk => by
          rw [List.rtake, List.rtake, List.length_cons, Nat.succ_sub hk, List.drop_succ_cons]
      rw [hdrop a l hshort, ih hrest]
      by_cases ha : p a = true
      · -- all entries are chosen, and there are enough of them behind the first one
        have hchosen : l.filter p = l := List.filter_eq_self.2 fun b hb => hfirst b hb ha
        rw [List.filter_cons_of_pos ha, hchosen, hdrop a l hshort]
      · rw [List.filter_cons_of_neg ha]

/-- **One entry more**: what was not among the last ones is not among them later. -/
theorem rtake_rtake_concat (l : List α) (a : α) (n : ℕ) :
    (l.rtake n ++ [a]).rtake n = (l ++ [a]).rtake n := by
  cases n with
  | zero => rw [List.rtake_zero, List.rtake_zero]
  | succ n =>
    rw [List.rtake_concat_succ, List.rtake_concat_succ, List.rtake_eq_reverse_take_reverse,
      List.rtake_eq_reverse_take_reverse, List.rtake_eq_reverse_take_reverse, List.reverse_reverse,
      List.take_take, Nat.min_eq_left (Nat.le_succ n)]

end

namespace Meter

/-! ## Histories -/

/-- What is **asked** of a meter. -/
inductive Ask where
  | record (octets : Nat) (time : Int)
  | reset
  deriving DecidableEq

/-- **One request**, unless the sum of all octets does not fit a word. -/
def serve? (m : Meter) : Ask → Option Meter
  | .record octets time => m.record? octets time
  | .reset => some m.reset

/-- **A row of requests**, one after another. -/
def after? (m : Meter) (history : List Ask) : Option Meter := history.foldlM serve? m

/-- The sample that a request brings. -/
def Ask.sample? : Ask → Option Sample
  | record octets time => some ⟨octets, time⟩
  | reset => none

/-- **All samples since the last reset.** -/
def recorded (history : List Ask) : List Sample :=
  (history.rtakeWhile (· ≠ .reset)).filterMap Ask.sample?

/-- **A clock that does not go back.** -/
def InOrder (history : List Ask) : Prop :=
  (history.filterMap Ask.sample?).Pairwise fun s t => s.time ≤ t.time

/-- The octets of some samples. -/
def octets (ss : List Sample) : Nat := (ss.map Sample.octets).sum

/-- **The samples in a window** that ends at a time, and of them the last ones. -/
def inWindow (window most : Nat) (now : Int) (ss : List Sample) : List Sample :=
  (ss.filter fun s => now - window ≤ s.time).rtake most

/-- **What is left of some samples** when the last of them was taken. -/
def retained (window most : Nat) (ss : List Sample) : List Sample :=
  (ss.getLast?.map fun last => inWindow window most last.time ss).getD []

/-- **The rate of some samples**: their octets over the time from the first to the last. -/
def rateOf (ss : List Sample) : Float :=
  match ss.head?, ss.getLast? with
  | some first, some last =>
    if ss.length < 2 ∨ last.time = first.time then 0
    else float (octets ss) / seconds (last.time - first.time).toNat
  | _, _ => 0

variable {m m' : Meter} {history : List Ask} {window most : Option Nat}

theorem after?_concat (m : Meter) (history : List Ask) (q : Ask) :
    m.after? (history ++ [q]) = (m.after? history).bind (·.serve? q) := by
  rw [after?, List.foldlM_append]
  exact congrArg (Option.bind _) (funext fun m => bind_pure _)

theorem recorded_reset (history : List Ask) : recorded (history ++ [.reset]) = [] := by
  rw [recorded, List.rtakeWhile_concat_neg _ _ _ (by simp), List.filterMap_nil]

theorem recorded_record (history : List Ask) (n : Nat) (t : Int) :
    recorded (history ++ [.record n t]) = recorded history ++ [⟨n, t⟩] := by
  rw [recorded, List.rtakeWhile_concat_pos _ _ _ (by simp), List.filterMap_append]
  rfl

theorem octets_append (ss ts : List Sample) : octets (ss ++ ts) = octets ss + octets ts := by
  rw [octets, List.map_append, List.sum_append, octets, octets]

/-- A history in order has a beginning in order, and its samples are in order. -/
theorem InOrder.of_append {later : List Ask} (h : InOrder (history ++ later)) : InOrder history := by
  rw [InOrder, List.filterMap_append] at h
  exact (List.pairwise_append.1 h).1

theorem InOrder.recorded (h : InOrder history) :
    (recorded history).Pairwise fun s t => s.time ≤ t.time :=
  h.sublist ((List.rtakeWhile_suffix _ _).sublist.filterMap _)

/-! ## Totals -/

/-- **The total** is the sum of all samples since the last reset. -/
theorem total_after (h : (new window most).after? history = some m) :
    m.window = window.getD usualWindow ∧ m.mostSamples = most.getD usualSamples ∧
      m.total = octets (recorded history) := by
  induction history using List.reverseRecOn generalizing m with
  | nil =>
    obtain rfl := Option.some.inj h
    exact ⟨rfl, rfl, rfl⟩
  | append_singleton history q ih =>
    rw [after?_concat] at h
    obtain ⟨m, hm, h⟩ := Option.bind_eq_some_iff.1 h
    obtain ⟨hwindow, hmost, htotal⟩ := ih hm
    cases q with
    | reset =>
      obtain rfl := Option.some.inj h
      rw [recorded_reset]
      exact ⟨hwindow, hmost, rfl⟩
    | record n t =>
      obtain ⟨total, hfit, rfl⟩ := Option.map_eq_some_iff.1 h
      rw [recorded_record, octets_append, ← htotal]
      exact ⟨hwindow, hmost, (Word.fit_eq_some_iff.1 hfit).2⟩

/-- **A meter goes on** exactly as long as the total fits a word. -/
theorem isSome_after : ((new window most).after? history).isSome = true ↔
    ∀ before, before <+: history → octets (recorded before) < Word.limit := by
  induction history using List.reverseRecOn with
  | nil =>
    refine iff_of_true rfl fun before hbefore => ?_
    rw [List.prefix_nil.1 hbefore]
    decide
  | append_singleton history q ih =>
    simp only [List.prefix_concat_iff, or_imp, forall_and, forall_eq, ← ih]
    rw [after?_concat]
    rcases hm : (new window most).after? history with _ | m
    · simp
    obtain ⟨-, -, htotal⟩ := total_after hm
    cases q with
    | reset =>
      rw [recorded_reset]
      exact iff_of_true rfl ⟨by decide, rfl⟩
    | record n t =>
      rw [recorded_record, octets_append, ← htotal, Option.bind_some, serve?, record?,
        Option.isSome_map]
      simp [Word.fit, octets]

/-! ## Samples -/

section

variable {w n : Nat} {s t : Int} {a : Sample} {ss : List Sample}

/-- **The sample of this moment** is in every window. -/
theorem inWindow_concat (w n : Nat) (a : Sample) (ss : List Sample) : inWindow w n a.time (ss ++ [a])
    = (ss.filter (fun s => a.time - w ≤ s.time) ++ [a]).rtake n := by
  have hself : a.time - w ≤ a.time := Int.sub_le_self _ (Int.natCast_nonneg w)
  rw [inWindow, List.filter_append, List.filter_singleton, decide_eq_true hself, cond_true]

/-- **What was not in a window is not in a later one.** -/
theorem inWindow_inWindow (hst : s ≤ t) (hss : ss.Pairwise fun a b => a.time ≤ b.time) :
    (inWindow w n s ss).filter (fun a => t - w ≤ a.time) = inWindow w n t ss := by
  have hlater : (ss.filter fun a => s - w ≤ a.time).Pairwise fun a b =>
      decide (t - w ≤ a.time) = true → decide (t - w ≤ b.time) = true :=
    (hss.sublist List.filter_sublist).imp fun hab ha => by
      simp only [decide_eq_true_eq] at ha ⊢
      omega
  rw [inWindow, filter_rtake hlater, List.filter_filter, inWindow]
  congr 1
  refine List.filter_congr fun a _ => ?_
  simp only [Bool.and_eq_left_iff_imp, decide_eq_true_eq]
  omega

/-- **One sample more**: it makes no difference to what is left that others were thrown away before. -/
theorem inWindow_retained (h : (ss ++ [a]).Pairwise fun a b => a.time ≤ b.time) :
    inWindow w n a.time (retained w n ss ++ [a]) = retained w n (ss ++ [a]) := by
  obtain ⟨hbefore, -, hlast⟩ := List.pairwise_append.1 h
  rw [retained, retained, List.getLast?_concat, Option.map_some, Option.getD_some]
  rcases hgl : ss.getLast? with _ | last
  · rw [List.getLast?_eq_none_iff.1 hgl]
    rfl
  · have hle : last.time ≤ a.time :=
      hlast last (List.mem_of_getLast? hgl) a (List.mem_singleton_self a)
    rw [Option.map_some, Option.getD_some, inWindow_concat, inWindow_concat,
      inWindow_inWindow hle hbefore]
    exact rtake_rtake_concat _ a n

end

/-- **The samples of a meter** are what is left of all samples since the last reset. -/
theorem samples_after (horder : InOrder history) (h : (new window most).after? history = some m) :
    m.samples = retained m.window m.mostSamples (recorded history) := by
  induction history using List.reverseRecOn generalizing m with
  | nil =>
    obtain rfl := Option.some.inj h
    rfl
  | append_singleton history q ih =>
    rw [after?_concat] at h
    obtain ⟨m, hm, h⟩ := Option.bind_eq_some_iff.1 h
    cases q with
    | reset =>
      obtain rfl := Option.some.inj h
      rw [recorded_reset]
      rfl
    | record n t =>
      obtain ⟨total, -, rfl⟩ := Option.map_eq_some_iff.1 h
      have hkept : m.kept t (m.samples ++ [⟨n, t⟩])
          = inWindow m.window m.mostSamples t (m.samples ++ [⟨n, t⟩]) := rfl
      have hsorted := horder.recorded
      rw [recorded_record] at hsorted ⊢
      rw [hkept, ih horder.of_append hm, ← inWindow_retained hsorted]

/-! ## Rates -/

/-- **Numbers whose sum fits a word** are added up in words. -/
theorem foldlM_fit {ns : List Nat} {sum : Nat} (h : sum + ns.sum < Word.limit) :
    ns.foldlM (fun sum n => Word.fit (sum + n)) sum = some (sum + ns.sum) := by
  induction ns generalizing sum with
  | nil => rfl
  | cons n ns ih =>
    rw [List.sum_cons, ← Nat.add_assoc] at h ⊢
    rw [List.foldlM_cons, Word.fit_of_lt (Nat.lt_of_le_of_lt (Nat.le_add_right _ _) h)]
    exact ih h

/-- Samples that are left are some of all. -/
theorem retained_sublist (w n : Nat) (ss : List Sample) : (retained w n ss).Sublist ss := by
  rw [retained]
  rcases ss.getLast? with _ | last
  · exact List.nil_sublist _
  · exact (List.drop_sublist _ _).trans List.filter_sublist

/-- They have no more octets than all. -/
theorem octets_retained_le (w n : Nat) (ss : List Sample) :
    octets (retained w n ss) ≤ octets ss :=
  ((retained_sublist w n ss).map Sample.octets).sum_le_sum fun _ _ => Nat.zero_le _

/-- **The rate of a meter** is that of its samples, if they are in order. -/
theorem rate_eq (h : m.samples.Pairwise fun s t => s.time ≤ t.time) : m.rate = rateOf m.samples := by
  obtain ⟨w, n, samples, total⟩ := m
  rcases samples with _ | ⟨first, _ | ⟨second, rest⟩⟩
  · rfl
  · rfl
  obtain ⟨last, hlast⟩ : ∃ last, (second :: rest).getLast? = some last :=
    ⟨_, List.getLast?_eq_some_getLast (List.cons_ne_nil second rest)⟩
  have hle : first.time ≤ last.time :=
    (List.pairwise_cons.1 h).1 last (List.mem_of_getLast? hlast)
  have hlast' : (first :: second :: rest).getLast? = some last := by
    rw [List.getLast?_cons_cons, hlast]
  have hsum : octets (first :: second :: rest)
      = ((first :: second :: rest).map Sample.octets).foldl (· + ·) 0 := List.sum_eq_foldl
  have hspan : span? ⟨w, n, first :: second :: rest, total⟩ = if last.time = first.time then none
      else some (octets (first :: second :: rest), (last.time - first.time).toNat) := by
    have hnow : (last.time - first.time).toNat = 0 ↔ last.time = first.time := by omega
    simp only [span?, List.getLastD_eq_getLast?, hlast, Option.getD_some, hsum, hnow]
  rw [rate, hspan, rateOf, List.head?_cons, hlast']
  by_cases hnow : last.time = first.time
  · simp only [hnow, ↓reduceIte, or_true]
  · simp only [hnow, ↓reduceIte, List.length_cons, or_false]
    rw [if_neg (by omega)]

/-! ## All together -/

/-- **A meter's window is what would be computed anew.**  With a clock that does not go back, and as
long as the octets since the last reset fit a word, a meter goes on; its total is that of all samples
since the last reset, and of those it keeps, after each one, the last of all that lie in the window
that ends with it, and none after a reset.  Their octets can be added up in words, and the rate is
their sum over the time from the first of them to the last, or nothing where there are not two or no
time has passed. -/
theorem window_recomputed (window most : Option Nat) (history : List Ask)
    (horder : InOrder history) :
    (((new window most).after? history).isSome = true ↔
      ∀ before, before <+: history → octets (recorded before) < Word.limit) ∧
    ∀ m, (new window most).after? history = some m →
      m.total = octets (recorded history) ∧
      (∀ before n t, history = before ++ [.record n t] → m.samples
        = inWindow (window.getD usualWindow) (most.getD usualSamples) t (recorded history)) ∧
      (recorded history = [] → m.samples = []) ∧
      (m.samples.map Sample.octets).foldlM (fun sum n => Word.fit (sum + n)) 0
        = some (octets m.samples) ∧
      m.rate = rateOf m.samples := by
  refine ⟨isSome_after, fun m h => ?_⟩
  obtain ⟨hwindow, hmost, htotal⟩ := total_after h
  have hsamples := samples_after horder h
  have hfits : octets m.samples < Word.limit := by
    rw [hsamples]
    exact Nat.lt_of_le_of_lt (octets_retained_le _ _ _)
      (isSome_after.1 (Option.isSome_iff_exists.2 ⟨m, h⟩) history (List.prefix_refl history))
  have hsorted : m.samples.Pairwise fun s t => s.time ≤ t.time := by
    rw [hsamples]
    exact horder.recorded.sublist (retained_sublist _ _ _)
  refine ⟨htotal, ?_, fun hnone => ?_, ?_, rate_eq hsorted⟩
  · rintro before n t rfl
    rw [hsamples, retained, recorded_record, List.getLast?_concat, hwindow, hmost]
    rfl
  · rw [hsamples, hnone]
    rfl
  · rw [← Nat.zero_add (octets m.samples)] at hfits ⊢
    exact foldlM_fit hfits

/-- A window of ten nanoseconds and two samples: one sample was reset, one is too old, one is one too
many. -/
theorem window_recomputed_of_five : ∃ (history : List Ask) (m : Meter), InOrder history ∧
    history = [.record 7 0, .reset, .record 1 1, .record 2 5, .record 4 12, .record 8 14] ∧
    (new (some 10) (some 2)).after? history = some m ∧ m.samples = [⟨4, 12⟩, ⟨8, 14⟩] ∧
    m.total = 15 ∧ m.rate = float 12 / seconds 2 := by
  let history : List Ask :=
    [.record 7 0, .reset, .record 1 1, .record 2 5, .record 4 12, .record 8 14]
  have horder : InOrder history := by
    rw [InOrder]
    decide
  obtain ⟨m, hm⟩ : ∃ m, (new (some 10) (some 2)).after? history = some m := ⟨_, rfl⟩
  obtain ⟨htotal, hsamples, -, -, hrate⟩ :=
    (window_recomputed (some 10) (some 2) history horder).2 m hm
  have hlast : m.samples = [⟨4, 12⟩, ⟨8, 14⟩] := hsamples [.record 7 0, .reset, .record 1 1,
    .record 2 5, .record 4 12] 8 14 rfl
  refine ⟨history, m, horder, rfl, hm, hlast, htotal, ?_⟩
  rw [hrate, hlast]
  rfl

end Meter

end FileRelay
