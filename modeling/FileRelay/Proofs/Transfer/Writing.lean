import FileRelay.Transfer.Sink
import Mathlib.Tactic.Common

/-!
# Proofs/Transfer/Writing — what a sink has taken

A write that succeeds has written all of its octets behind the others; one that fails has written
some of them, but not all.  A sink without failing writes and flushes that takes at least one octet
at a time (`Reliable`) succeeds always.
-/

namespace FileRelay.Sink

variable {s s' : Sink} {data : Bytes}

/-- **A sink that never fails.** -/
structure Reliable (s : Sink) : Prop where
  failingWrite : s.limits.failingWrite = none
  failingFlush : s.limits.failingFlush = none
  mostAtOnce : s.limits.mostAtOnce ≠ some 0

theorem Reliable.of_limits (h : s.Reliable) (hl : s'.limits = s.limits) : s'.Reliable :=
  ⟨hl ▸ h.failingWrite, hl ▸ h.failingFlush, hl ▸ h.mostAtOnce⟩

/-- **A write writes all of its octets, or fails before the last of them.** -/
theorem writeAll_written (s : Sink) (data : Bytes) :
    (s.writeAll data).2.limits = s.limits ∧
      ∃ done rest, data = done ++ rest ∧ (s.writeAll data).2.written = s.written ++ done ∧
        ((s.writeAll data).1 = .ok () ↔ rest = []) := by
  fun_induction writeAll s data with
  | case1 s => exact ⟨rfl, [], [], rfl, by simp, by simp⟩
  | case2 s data hne _ => exact ⟨rfl, [], data, rfl, by simp [took], by simp [hne]⟩
  | case3 s data hne _ _ _ => exact ⟨rfl, [], data, rfl, by simp [took], by simp [hne]⟩
  | case4 s data _ _ n _ ih =>
    obtain ⟨hlimits, done, rest, hdata, hwritten, hok⟩ := ih
    refine ⟨hlimits, data.take n ++ done, rest, ?_, ?_, hok⟩
    · rw [List.append_assoc, ← hdata, List.take_append_drop]
    · rw [hwritten, took, List.append_assoc]

theorem writeAll_ok (h : s.writeAll data = (.ok (), s')) :
    s'.written = s.written ++ data ∧ s'.limits = s.limits := by
  obtain ⟨hlimits, done, rest, rfl, hwritten, hok⟩ := s.writeAll_written data
  rw [h] at hlimits hwritten hok
  simp only [true_iff] at hok
  subst hok
  exact ⟨by simpa using hwritten, hlimits⟩

theorem writeAll_error {e : IoFault} (h : s.writeAll data = (.error e, s')) :
    ∃ done rest, data = done ++ rest ∧ rest ≠ [] ∧ s'.written = s.written ++ done := by
  obtain ⟨-, done, rest, hdata, hwritten, hok⟩ := s.writeAll_written data
  rw [h] at hwritten hok
  simp only [reduceCtorEq, false_iff] at hok
  exact ⟨done, rest, hdata, hok, hwritten⟩

/-- **A reliable sink takes every write.** -/
theorem Reliable.writeAll (h : s.Reliable) (data : Bytes) :
    (s.writeAll data).1 = .ok () := by
  fun_induction Sink.writeAll s data with
  | case1 s => rfl
  | case2 s data _ hfails => simp [failsNow, h.failingWrite] at hfails
  | case3 s data hne _ n hn =>
    have hpos : 0 < data.length := List.length_pos_iff.2 hne
    have hmost := h.mostAtOnce
    rcases hm : s.limits.mostAtOnce with _ | most
    · simp only [n, room, hm, Option.getD_none] at hn
      omega
    · rw [hm] at hmost
      simp only [ne_eq, Option.some.injEq] at hmost
      simp only [n, room, hm, Option.getD_some] at hn
      omega
  | case4 s data _ _ n _ ih => exact ih (h.of_limits rfl)

theorem Reliable.flush (h : s.Reliable) : s.flush.1 = .ok () := by
  simp [Sink.flush, h.failingFlush]

theorem flush_written (s : Sink) : s.flush.2.written = s.written := rfl

end FileRelay.Sink
