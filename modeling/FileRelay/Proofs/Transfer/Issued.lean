import FileRelay.Proofs.Transfer.Publication
import FileRelay.Proofs.Transfer.Stored

/-!
# Proofs/Transfer/Issued — what was issued is stored

The parts of a successful upload lie between the two places that it reports.  If no other message of
their subject lies between them (`UploadReport.Alone`), then the file is stored for whoever downloads
its record (`Issued.stored`).
-/

namespace FileRelay

open Accepted (contents places)

/-- **The parts of an upload stand alone**: no other message of their subject lies between them. -/
def UploadReport.Alone (report : UploadReport) (l : Log) : Prop :=
  ((l.row report.subject report.firstSequence).filter fun e => e.2 ≤ report.lastSequence).length
    = report.record.parts.toNat

namespace Upload.Issued

variable {config config' : Config} {report : UploadReport} {start : Nat} {l l' : Log}
  {as : List Accepted} {t : DownloadTask}

/-- The parts that were issued stand between the first place and the last one, behind the start. -/
theorem bounds (h : Issued config report start l as) : start ≤ report.firstSequence ∧
    ∀ p ∈ places as, report.firstSequence ≤ p ∧ p ≤ report.lastSequence := by
  have hsorted : (places as).Pairwise (· < ·) := by
    have := (l.row_pairwise report.subject start).sublist h.row
    rw [List.pairwise_map] at this
    rw [places, List.pairwise_map]
    exact this
  refine ⟨?_, fun p hp => ⟨?_, ?_⟩⟩
  · obtain ⟨a, ha, hplace⟩ := List.mem_map.1 (List.mem_of_mem_head? h.first)
    have hentry : a.entry ∈ l.row report.subject start := h.row.subset (List.mem_map_of_mem ha)
    rw [← hplace]
    exact (Log.mem_row_iff.1 hentry).1
  · obtain ⟨rest, hrest⟩ := List.head?_eq_some_iff.1 h.first
    rw [hrest] at hp hsorted
    rcases List.mem_cons.1 hp with rfl | hp
    · exact Nat.le_refl _
    · exact Nat.le_of_lt ((List.pairwise_cons.1 hsorted).1 p hp)
  · obtain ⟨rest, hrest⟩ := List.getLast?_eq_some_iff.1 h.last
    rw [hrest] at hp hsorted
    rcases List.mem_append.1 hp with hp | hp
    · exact Nat.le_of_lt ((List.pairwise_append.1 hsorted).2.2 p hp _ (List.mem_singleton_self _))
    · exact Nat.le_of_eq (List.mem_singleton.1 hp)

/-- The messages of the subject between the two places are those behind the start. -/
theorem between_eq (h : Issued config report start l as) :
    (l.row report.subject report.firstSequence).filter (fun e => e.2 ≤ report.lastSequence)
      = (l.row report.subject start).filter
        fun e => decide (e.2 ≤ report.lastSequence) && decide (report.firstSequence ≤ e.2) := by
  rw [Log.row_of_le h.bounds.1, List.filter_filter]

/-- All parts that were issued are among them. -/
theorem filter_entries (h : Issued config report start l as) : (as.map Accepted.entry).filter
    (fun e => decide (e.2 ≤ report.lastSequence) && decide (report.firstSequence ≤ e.2))
      = as.map Accepted.entry := List.filter_eq_self.2 fun e he => by
  obtain ⟨a, ha, rfl⟩ := List.mem_map.1 he
  obtain ⟨hfirst, hlast⟩ := h.bounds.2 a.place (List.mem_map_of_mem ha)
  simp [Accepted.entry, hfirst, hlast]

theorem sublist (h : Issued config report start l as) : (as.map Accepted.entry).Sublist
    ((l.row report.subject report.firstSequence).filter fun e => e.2 ≤ report.lastSequence) := by
  rw [h.between_eq, ← h.filter_entries]
  exact h.row.filter _

/-- **Parts that stand alone** are what the row begins with. -/
theorem begins (h : Issued config report start l as) (honly : report.Alone l) :
    as.map Accepted.entry <+: l.row report.subject report.firstSequence := by
  have hall := h.sublist.eq_of_length_le (by rw [honly.trans h.length.symm, List.length_map])
  rw [hall]
  exact l.row_upTo _ _ _

/-- **Parts that are all that was published** stand alone. -/
theorem alone (h : Issued config report start l as)
    (hrow : (l.row report.subject start).length = as.length) : report.Alone l := by
  have hall : as.map Accepted.entry = l.row report.subject start :=
    h.row.eq_of_length (by rw [hrow, List.length_map])
  rw [UploadReport.Alone, h.between_eq, ← hall, h.filter_entries, List.length_map, h.length]

/-- What was issued stays so when the log grows. -/
theorem grow (h : Issued config report start l as) (hl : l.Grown l') :
    Issued config report start l' as :=
  { h with row := h.row.trans (hl.row _ _).sublist, parts := fun hs => h.parts (hl.sized hs) }

/-- A download of what was issued reads its subject. -/
theorem subject_eq (h : Issued config report start l as)
    (ht : DownloadTask.of config' report.record = .ok t)
    (hconfigs : config'.partPrefix = config.partPrefix) : t.subject = report.subject := by
  obtain ⟨-, hconfig, hrecord, -⟩ := DownloadTask.of_eq_ok_iff.1 ht
  rw [DownloadTask.subject, hconfig, hrecord, hconfigs, h.subject]

/-- It begins with the first part. -/
theorem origin_eq (h : Issued config report start l as)
    (ht : DownloadTask.of config' report.record = .ok t) :
    t.origin.first = report.firstSequence := by
  obtain ⟨-, -, hrecord, -⟩ := DownloadTask.of_eq_ok_iff.1 ht
  obtain ⟨n, hn, hn'⟩ := Option.map_eq_some_iff.1 (h.firstSequence.trans h.first)
  have hne : n ≠ 0 := by
    rintro rfl
    exact (FileRecord.validate_eq_ok_iff.1 h.valid).2.2.1 hn
  have hpos : n.toNat ≠ 0 := fun hz => hne (by rw [← UInt64.toNat_inj, hz]; rfl)
  rw [DownloadTask.origin, hrecord, hn, ← hn']
  simp only [Position.first]
  omega

/-- The record of what was issued is complete. -/
theorem isComplete (h : Issued config report start l as) : report.record.isComplete = true := by
  obtain ⟨a, hdigest⟩ := h.digest
  rw [FileRecord.isComplete, hdigest]
  rfl

/-- What was issued is as long as its record says. -/
theorem length_contents (h : Issued config report start l as) (hs : l.Sized) :
    (contents as).length = report.record.length.toNat := by
  have ht := FileRecord.tiled_of_validate h.valid
  rw [(h.parts hs).length_contents ht, h.length, ht.reach_parts]

/-- All parts that were issued stand behind the first of them. -/
theorem parts_le (h : Issued config report start l as) :
    report.record.parts.toNat ≤ (l.row report.subject report.firstSequence).length := by
  have hown := h.sublist.length_le
  rw [List.length_map, h.length] at hown
  exact Nat.le_trans hown (List.length_filter_le ..)

/-- What was issued has the digest on record. -/
theorem agrees (h : Issued config report start l as)
    (ht : DownloadTask.of config' report.record = .ok t) : Digest.Entry.agrees
      ⟨t.algorithm.name, t.algorithm.hexDigest (contents as)⟩ t.expected = true := by
  obtain ⟨-, -, -, hexpected, halgorithm⟩ := DownloadTask.of_eq_ok_iff.1 ht
  obtain ⟨a, ha⟩ := h.digest
  have he : ⟨a.name, a.hexDigest (contents as)⟩ = t.expected :=
    Option.some.inj (ha.symm.trans hexpected)
  rw [← he] at halgorithm ⊢
  have hname : a = t.algorithm :=
    Option.some.inj ((Digest.Algorithm.parse?_name a).symm.trans halgorithm)
  rw [← hname]
  simp [Digest.Entry.agrees]

/-- **What was issued is stored**, if no other message lies between its parts. -/
theorem stored (h : Issued config report start l as) (honly : report.Alone l) (hs : l.Sized)
    (ht : DownloadTask.of config' report.record = .ok t)
    (hconfigs : config'.partPrefix = config.partPrefix) : t.Stored l as := by
  obtain ⟨-, -, hrecord, -⟩ := DownloadTask.of_eq_ok_iff.1 ht
  refine ⟨by rw [DownloadTask.parts, hrecord, h.length], ?_, hrecord ▸ h.parts hs, h.whole,
    h.agrees ht⟩
  rw [h.subject_eq ht hconfigs, h.origin_eq ht]
  exact h.begins honly

/-- Whoever has valid settings can download what was issued. -/
theorem task (h : Issued config report start l as) (hconfig : config'.validate = .ok ()) :
    ∃ t, DownloadTask.of config' report.record = .ok t := by
  obtain ⟨a, ha⟩ := h.digest
  exact ⟨⟨config', report.record, _, a⟩, DownloadTask.of_eq_ok_iff.2
    ⟨hconfig, rfl, rfl, ha, Digest.Algorithm.parse?_name a⟩⟩

end Upload.Issued

end FileRelay
