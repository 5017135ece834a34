import FileRelay.Proofs.Transfer.Accepted
import Mathlib.Order.Bounds.Basic

/-!
# Proofs/Transfer/Plain — what a download comes to, said without its turns

The messages that a row begins with are parts of the file as long as each of them is the next part
(`FileRecord.partsOf`), and no longer beginning of the row has that property
(`partsOf_greatest`).  A download of a log that nobody changes comes to just these parts, and
`DownloadTask.plain` is its report or its failure.
-/

namespace FileRelay

open Accepted (contents places)

namespace FileRecord

variable {r : FileRecord} {n : Nat} {row : List (Published × Nat)} {as : List Accepted}

/-- **The parts that a row begins with**, of which the first is part `n`. -/
def partsOf (r : FileRecord) : Nat → List (Published × Nat) → List Accepted
  | _, [] => []
  | n, e :: row =>
    match r.contentAt? n e.1.headers e.1.payload with
    | none => []
    | some content => ⟨e.1, e.2, e.1.payload, content⟩ :: partsOf r (n + 1) row

/-- Each of them is a message of the row, whole, and the part of its number. -/
theorem partsOf_getElem? {i : Nat} {a : Accepted} (h : (r.partsOf n row)[i]? = some a) :
    row[i]? = some a.entry ∧ a.payload = a.message.payload ∧
      r.contentAt? (n + i) a.message.headers a.message.payload = some a.content := by
  induction row generalizing n i with
  | nil => simp [partsOf] at h
  | cons e row ih =>
    unfold partsOf at h
    split at h
    · simp at h
    rename_i content hcontent
    cases i with
    | zero =>
      simp only [List.getElem?_cons_zero, Option.some.injEq] at h
      subst h
      exact ⟨rfl, rfl, hcontent⟩
    | succ i =>
      rw [List.getElem?_cons_succ] at h ⊢
      obtain ⟨hrow, hpayload, hpart⟩ := ih h
      exact ⟨hrow, hpayload, by rw [← Nat.add_assoc, Nat.add_right_comm]; exact hpart⟩

/-- Behind them the row ends, or goes on with a message that is not the next part. -/
theorem partsOf_stops {e : Published × Nat} (h : row[(r.partsOf n row).length]? = some e) :
    r.contentAt? (n + (r.partsOf n row).length) e.1.headers e.1.payload = none := by
  induction row generalizing n with
  | nil => simp at h
  | cons e' row ih =>
    unfold partsOf at h ⊢
    split at h
    · rename_i hnone
      simp only [List.length_nil, List.getElem?_cons_zero, Option.some.injEq] at h
      subst h
      simp only [hnone, List.length_nil, Nat.add_zero]
    · rename_i content hcontent
      simp only [List.length_cons, List.getElem?_cons_succ] at h
      simp only [List.length_cons]
      rw [← Nat.add_assoc, Nat.add_right_comm]
      exact ih h

theorem partsOf_parts (r : FileRecord) (row : List (Published × Nat)) :
    Accepted.Parts r (r.partsOf 1 row) := fun i a h => by
  obtain ⟨-, hpayload, hpart⟩ := partsOf_getElem? h
  exact ⟨.inl hpayload, by rw [hpayload, Nat.add_comm]; exact hpart⟩

/-- A message that is the next part is the next of them. -/
theorem partsOf_next (has : as <+: r.partsOf 1 row) {e : Published × Nat} {content : Bytes}
    (hrow : row[as.length]? = some e)
    (hc : r.contentAt? (as.length + 1) e.1.headers e.1.payload = some content) :
    as ++ [⟨e.1, e.2, e.1.payload, content⟩] <+: r.partsOf 1 row := by
  obtain ⟨rest, hrest⟩ := has
  rcases rest with _ | ⟨a, rest⟩
  · rw [List.append_nil] at hrest
    have hstop := partsOf_stops (r := r) (n := 1) (hrest ▸ hrow)
    rw [← hrest, Nat.add_comm, hc] at hstop
    simp at hstop
  · have ha : (r.partsOf 1 row)[as.length]? = some a := by simp [← hrest]
    obtain ⟨hentry, hpayload, hpart⟩ := partsOf_getElem? ha
    obtain ⟨message, place, payload, content'⟩ := a
    obtain rfl : e = (message, place) := Option.some.inj (hrow.symm.trans hentry)
    obtain rfl : payload = message.payload := hpayload
    rw [Nat.add_comm] at hpart
    obtain rfl : content = content' := Option.some.inj (hc.symm.trans hpart)
    exact ⟨rest, by rw [← hrest, List.append_assoc]; rfl⟩

/-- All of them are there when the row ends or goes on with a message that is not the next part. -/
theorem eq_partsOf (has : as <+: r.partsOf 1 row)
    (hstop : ∀ e, row[as.length]? = some e →
      r.contentAt? (as.length + 1) e.1.headers e.1.payload = none) : as = r.partsOf 1 row := by
  refine has.eq_of_length_le (Nat.le_of_not_lt fun hlt => ?_)
  obtain ⟨hrow, -, hpart⟩ := partsOf_getElem? (List.getElem?_eq_getElem hlt)
  have hnone := hstop _ hrow
  simp only [Accepted.entry] at hnone
  rw [Nat.add_comm, hnone] at hpart
  simp at hpart

/-- **They are the longest beginning** of the row of which each message is the next part. -/
theorem partsOf_greatest (ht : r.Tiled) (row : List (Published × Nat)) :
    IsGreatest { k | k ≤ r.parts.toNat ∧ ∀ i < k, ∃ e, row[i]? = some e ∧
      (r.contentAt? (i + 1) e.1.headers e.1.payload).isSome } (r.partsOf 1 row).length := by
  constructor
  · refine ⟨(partsOf_parts r row).length_le ht, fun i hi => ?_⟩
    obtain ⟨hrow, -, hpart⟩ := partsOf_getElem? (List.getElem?_eq_getElem hi)
    refine ⟨_, hrow, ?_⟩
    rw [Nat.add_comm]
    exact Option.isSome_of_eq_some hpart
  · rintro k ⟨-, hk⟩
    refine Nat.le_of_not_lt fun hlt => ?_
    obtain ⟨e, hrow, hpart⟩ := hk _ hlt
    have := partsOf_stops hrow
    rw [Nat.add_comm, this] at hpart
    simp at hpart

end FileRecord

namespace DownloadTask

/-- **The requests for a reply** that come with so many parts: one after every so many deliveries,
but none after the last part of all. -/
def requests (t : DownloadTask) (o : LogOptions) (accepted : Nat) : Nat :=
  (if accepted < t.parts then accepted else accepted - 1) / o.flowControlEvery.getD 0

/-- The comparison of accepted parts with the record. -/
def verdict (t : DownloadTask) (as : List Accepted) : Verification :=
  if as.length < t.parts then .incomplete t.parts as.length
  else if Digest.Entry.agrees ⟨t.algorithm.name, t.algorithm.hexDigest (contents as)⟩ t.expected
  then .verified
  else .digestMismatch t.expected.value (t.algorithm.hexDigest (contents as))

/-- The report of a download that has accepted these parts without any recovery. -/
def reportOf (t : DownloadTask) (o : LogOptions) (as : List Accepted) : DownloadReport where
  fileId := t.record.id
  name := t.record.name
  partsWritten := as.length
  bytesWritten := (contents as).length
  firstSequence := (places as).head?
  lastSequence := (places as).getLast?
  recoveries := 0
  flowReplies := t.requests o as.length
  digest := ⟨t.algorithm.name, t.algorithm.hexDigest (contents as)⟩
  verification := t.verdict as

/-- **What a download comes to** that has accepted these of so many messages: a message that is not
the next part stops it for good, and it recovers in vain until its budget is spent. -/
def plain (t : DownloadTask) (o : LogOptions) (messages : Nat) (as : List Accepted) :
    Except Failure DownloadReport :=
  if as.length < t.parts ∧ as.length < messages then
    .error (.tooManyMismatches t.config.retryBudget.toNat as.length (contents as).length)
  else .ok (t.reportOf o as)

end DownloadTask

namespace Download

variable {d : Download} {t : DownloadTask} {before rest : Bytes} {l : Log} {as : List Accepted}

/-- The comparison with the record is that of what is held. -/
theorem Holds.verification_eq (h : d.Holds t before l as rest) :
    d.verification = t.verdict as := by
  have hcomplete := h.isComplete_iff
  unfold verification DownloadTask.verdict
  rw [h.digest_eq, h.counts.partsWritten, Accepted.length_places]
  rw [h.task] at hcomplete ⊢
  rcases hc : d.session.isComplete t.parts
  · rw [hc] at hcomplete
    have hlt : as.length < t.parts := Nat.lt_of_not_le fun hle => by simpa using hcomplete.2 hle
    simp [hlt]
  · have hle : ¬ as.length < t.parts := Nat.not_lt_of_le (hcomplete.1 hc)
    simp [hle]

/-- **A report** is that of what is held, but for what was not smooth on the way. -/
theorem Holds.report_eq (h : d.Holds t before l as rest) (o : LogOptions) : d.report =
    { t.reportOf o as with recoveries := d.session.recoveries, flowReplies := d.flowReplies } := by
  unfold report DownloadTask.reportOf fileId
  rw [h.verification_eq, h.digest_eq, h.task, h.counts.partsWritten, h.counts.bytesWritten,
    h.counts.firstSequence, h.counts.lastSequence, Accepted.length_places]

end Download

end FileRelay
