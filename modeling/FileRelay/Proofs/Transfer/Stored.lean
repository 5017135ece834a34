import FileRelay.Proofs.Transfer.PlainDownload

/-!
# Proofs/Transfer/Stored — a file whose parts are all in the log

A file is **stored** when its row begins with all of its parts and their contents have the digest on
record (`DownloadTask.Stored`).  That stays so whatever is published behind them, and a download that
nothing disturbs then verifies the file (`Stored.run`).
-/

namespace FileRelay

open Accepted (contents places)

namespace Accepted

/-- **Parts that came whole** are among those that their row begins with. -/
theorem Parts.partsOf_beginning {r : FileRecord} {row : List (Published × Nat)} {as : List Accepted}
    (hp : Parts r as) (hw : Whole as) (hrow : as.map entry <+: row) : as <+: r.partsOf 1 row := by
  induction as using List.reverseRecOn with
  | nil => exact List.nil_prefix
  | append_singleton as a ih =>
    obtain ⟨has, ha⟩ := hp.of_append
    rw [List.map_append, List.map_singleton] at hrow
    have hbefore := ih has (fun b hb => hw b (List.mem_append_left _ hb))
      ((List.prefix_append _ _).trans hrow)
    have hentry : row[as.length]? = some a.entry := by
      obtain ⟨rest, rfl⟩ := hrow
      simp
    have hpayload : a.payload = a.message.payload := hw a (by simp)
    have hcontent := ha.content
    rw [hpayload] at hcontent
    have hnext := FileRecord.partsOf_next hbefore hentry hcontent
    obtain ⟨message, place, payload, content⟩ := a
    obtain rfl : payload = message.payload := hpayload
    exact hnext

end Accepted

namespace DownloadTask

/-- **A file that is stored in a log** by the messages of its parts. -/
structure Stored (t : DownloadTask) (l : Log) (as : List Accepted) : Prop where
  length : as.length = t.parts
  row : as.map Accepted.entry <+: l.row t.subject t.origin.first
  parts : Accepted.Parts t.record as
  whole : Accepted.Whole as
  digest : Digest.Entry.agrees ⟨t.algorithm.name, t.algorithm.hexDigest (contents as)⟩ t.expected
    = true

namespace Stored

variable {t : DownloadTask} {l l' : Log} {as : List Accepted}

/-- **A stored file stays stored** when the log grows. -/
theorem grow (h : t.Stored l as) (hl : l.Grown l') : t.Stored l' as :=
  ⟨h.length, h.row.trans (hl.row _ _), h.parts, h.whole, h.digest⟩

/-- Its parts are those that the row begins with. -/
theorem partsOf_eq (h : t.Stored l as) (ht : t.record.Tiled) :
    t.record.partsOf 1 (l.row t.subject t.origin.first) = as := by
  have hconfigs := h.parts.partsOf_beginning h.whole h.row
  refine (hconfigs.eq_of_length_le ?_).symm
  rw [h.length]
  exact (FileRecord.partsOf_parts _ _).length_le ht

theorem verdict_eq (h : t.Stored l as) : t.verdict as = .verified := by
  rw [verdict, if_neg (Nat.not_lt_of_le (Nat.le_of_eq h.length.symm)), if_pos h.digest]

/-- **An undisturbed download of a stored file verifies it.** -/
theorem run (h : t.Stored l as) {config : Config} {record : FileRecord} {sink : Sink}
    {x : Exchange} (htask : of config record = .ok t) (hv : record.validate = .ok ())
    (hx : x.Undisturbed) (hl : x.log = l) (hk : sink.Reliable) :
    (Download.run config record sink x).1.result = .ok (t.reportOf l.options as) ∧
      (Download.run config record sink x).1.sink.written = sink.written ++ contents as := by
  obtain ⟨hresult, hwritten⟩ := Download.run_plain htask hv hx hk
  obtain ⟨-, -, rfl, -⟩ := of_eq_ok_iff.1 htask
  rw [hl, h.partsOf_eq (FileRecord.tiled_of_validate hv)] at hresult hwritten
  refine ⟨hresult.trans ?_, hwritten⟩
  rw [plain, if_neg fun hlt => Nat.not_lt_of_le (Nat.le_of_eq h.length.symm) hlt.1]

end Stored

end DownloadTask

end FileRelay
