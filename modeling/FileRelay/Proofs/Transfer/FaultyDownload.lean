import FileRelay.Proofs.Transfer.Issued
import FileRelay.Proofs.Transfer.Masking

/-!
# Proofs/Transfer/FaultyDownload — an uploaded file comes back in spite of faults

What a successful upload has issued is stored, as long as no other message comes between its parts.  So
a download of it writes the first parts of what the upload has read, whatever faults are armed; and
all of it, if the budget is not smaller than the number of firings and the last part is not left out.
-/

namespace FileRelay

open Accepted (contents places)

namespace UploadReport

/-- **Damage to the parts of an upload shows**: with its first octet turned over, none of them is
decoded to a content of the digest in its label. -/
def DamageShows (report : UploadReport) (l : Log) : Prop :=
  ∀ i < report.record.parts.toNat, ∀ e,
    (l.row report.subject report.firstSequence)[i]? = some e →
      report.record.contentAt? (i + 1) e.1.headers (Bytes.flipped e.1.payload) = none

end UploadReport

namespace Upload.Issued

variable {config config' : Config} {report : UploadReport} {start : Nat} {l l' : Log}
  {as : List Accepted} {t : DownloadTask}

/-- **Damage to what was issued shows** in what is stored, if it was encoded or shows in the log. -/
theorem damageShows (h : Issued config report start l as)
    (hshow : config.codec = none → report.DamageShows l) (hs : t.Stored l as)
    (ht : DownloadTask.of config' report.record = .ok t)
    (hconfigs : config'.partPrefix = config.partPrefix) :
    Accepted.DamageShows report.record as := fun i a ha => by
  by_cases hcodec : config.codec = none
  · have hi := (List.getElem?_eq_some_iff.1 ha).1
    have hrow := hs.getElem? ha
    rw [h.subject_eq ht hconfigs, h.origin_eq ht] at hrow
    exact hshow hcodec i (h.length ▸ hi) _ hrow
  · exact h.damage hcodec a (List.mem_of_getElem? ha) _

end Upload.Issued

/-- **An exchange that only faults disturb**: it is calm, and heartbeats do not come at once. -/
structure Exchange.Faulty (x : Exchange) : Prop extends Exchange.Calm x where
  armed : x.log.Armed
  heartbeat : x.log.options.idleHeartbeatMs ≠ some 0
  regular : x.log.Regular

/-- The exchange without its faults. -/
def Exchange.withoutFaults (x : Exchange) : Exchange := x.withLog { x.log with faults := [] }

theorem Exchange.Faulty.undisturbed {x : Exchange} (h : x.Faulty) : x.withoutFaults.Undisturbed :=
  ⟨⟨h.rules, h.agenda, h.calledOff⟩, rfl, h.heartbeat, h.regular.numbered, h.regular.fits⟩

namespace Download

variable {others : Exchange → Exchange → Prop} {config config' : Config} {path : Path}
  {options : UploadOptions} {x₀ x₁ x : Exchange} {read : Bytes} {report : UploadReport}
  {sink : Sink}

/-- **Recoveries mask faults.**  Let an upload have succeeded whose parts stand alone, and let
faults be armed on a log that may have grown since, such that damage shows; in encoded parts it always
does.  Whatever faults these are, a download comes to its end and writes the first parts of what the
upload has read.  If their firings are not more than the budget, and none leaves out the last part,
then it verifies the file: its report is the one that it would have made without faults, but for
recoveries, of which there are not more than firings, and replies. -/
theorem run_of_uploaded (hup : Upload.Uploads others config path options x₀ read (.ok report) x₁)
    (hothers : ∀ y y', others y y' → y.log.Grown y'.log) (hgrown : x₁.log.Grown x.log)
    (hx : x.Faulty) (hsized : x.log.Sized) (honly : report.Alone x.log)
    (hshow : config.codec = none → report.DamageShows x.log) (hconfig : config'.validate = .ok ())
    (hconfigs : config'.partPrefix = config.partPrefix) (hk : sink.Reliable) :
    let o := (run config' report.record sink x).1
    (∃ k ≤ report.record.parts.toNat,
      o.sink.written = sink.written ++ read.take (report.record.reach k) ∧
      ((∃ done, o.result = .ok done ∧ done.partsWritten = k) ∨ o.result = .error
        (.tooManyMismatches config'.retryBudget.toNat k (min (report.record.reach k) read.length))))
    ∧ (x.log.firings ≤ config'.retryBudget.toNat → x.log.NeverDrops report.lastSequence →
      ∃ clean, (run config' report.record sink x.withoutFaults).1.result = .ok clean ∧
        clean.verification = .verified ∧ o.sink.written = sink.written ++ read ∧
        ∃ recoveries flowReplies, recoveries ≤ x.log.firings ∧
          o.result = .ok { clean with recoveries, flowReplies }) := by
  intro o
  obtain ⟨as, rfl, hissued⟩ := hup.issued hothers
  have hissued := hissued.grow hgrown
  obtain ⟨t, ht⟩ := hissued.task hconfig
  have hs := hissued.stored honly hsized ht hconfigs
  have hdamage := hissued.damageShows hshow hs ht hconfigs
  have htiled := FileRecord.tiled_of_validate hissued.valid
  constructor
  · obtain ⟨done, hdone, hwritten, hresult⟩ := run_beginning ht hissued.valid hs hdamage hx.toCalm
      hx.heartbeat hx.regular.fits hk
    have hcontents := (hissued.parts hsized).contents_eq_take htiled hdone
    refine ⟨done.length, hissued.length ▸ hdone.length_le, hcontents ▸ hwritten, ?_⟩
    rcases hresult with ⟨recoveries, flowReplies, hresult⟩ | hresult
    · exact .inl ⟨_, hresult, rfl⟩
    · refine .inr (hresult.trans ?_)
      rw [hcontents, List.length_take]
  · intro hbudget hlast
    have hlast' : ∀ a, as.getLast? = some a → x.log.NeverDrops a.place := fun a ha => by
      have hplace : (places as).getLast? = some a.place := by rw [places, List.getLast?_map, ha]; rfl
      rwa [Option.some.inj (hplace.symm.trans hissued.last)]
    obtain ⟨recoveries, flowReplies, hrecoveries, hresult, hwritten⟩ := run_masked ht hissued.valid hs
      (fun _ => hdamage) hx.toCalm hx.regular hx.armed hbudget hlast' hk
    have hs' : t.Stored x.withoutFaults.log as := hs.grow (.of_messages rfl)
    have hclean := (hs'.run ht hissued.valid hx.undisturbed rfl hk).1
    refine ⟨_, hclean, ?_, hwritten, recoveries, flowReplies, hrecoveries, hresult⟩
    exact hs.verdict_eq

/-- A file of one part, whose first delivery is damaged. -/
theorem run_of_uploaded_corrupt : ∃ (report : UploadReport) (x : Exchange), x.log.firings = 1 ∧
    ∃ clean : DownloadReport, clean.verification = .verified ∧ ∃ recoveries flowReplies,
      recoveries ≤ 1 ∧ (run .usual report.record .unlimited x).1.result
        = .ok { clean with recoveries, flowReplies } := by
  let files : FileTree := ⟨[([[0x61]], .file [7] .epoch)], none⟩
  obtain ⟨r, hr⟩ : ∃ r, Upload.run .usual [0x61] ⟨none, none, none⟩ (.new default files) = r :=
    ⟨_, rfl⟩
  let x := r.2.withLog (r.2.log.arm 1 .corrupt 1)
  obtain ⟨read, hup⟩ := Upload.run_uploads (fun _ _ => False) .usual [0x61] ⟨none, none, none⟩
    (.new default files)
  rw [hr] at hup
  have hcalm : x.interference.rules = [] ∧ x.time.agenda = [] ∧ x.time.calledOff = false ∧
      x.log.options.idleHeartbeatMs ≠ some 0 ∧ x.log.waiting = [] ∧
      x.log.messages.size + 1 < Word.limit := by
    subst hr
    decide +kernel
  have hlog : r.2.log.faults = [] ∧ x.log.firings = 1 ∧
      (∀ m ∈ x.log.messages.toList, m.payload.length < Word.limit) ∧
      ∀ f ∈ x.log.faults, f.1 = 1 → f.2.1 ≠ .drop := by
    subst hr
    decide +kernel
  have hreport : r.1.result.toOption.any (fun report => report.firstSequence = 1 ∧
      report.lastSequence = 1 ∧ report.record.parts = 1 ∧
      ((x.log.row report.subject 1).filter fun e => e.2 ≤ 1).length = 1 ∧
      ∀ e ∈ (x.log.row report.subject 1).head?,
        report.record.contentAt? 1 e.1.headers (Bytes.flipped e.1.payload) = none) = true := by
    subst hr
    decide +kernel
  obtain ⟨hrules, hagenda, hoff, hbeat, hwaiting, hfits⟩ := hcalm
  obtain ⟨hfaults, hfirings, hsized, hdrop⟩ := hlog
  have hgrown : r.2.log.Grown x.log := .of_messages (r.2.log.arm_messages 1 .corrupt 1)
  have harmed : x.log.Armed := Log.Armed.arm (fun f hf => by simp [hfaults] at hf) 1 .corrupt 1
  clear_value x
  rcases hresult : r.1.result with why | report
  · simp [hresult, Except.toOption] at hreport
  simp only [hresult, Except.toOption, Option.any_some, decide_eq_true_eq] at hreport
  obtain ⟨hfirst, hlast, hparts, hrow, hshow⟩ := hreport
  have hx : x.Faulty := ⟨⟨hrules, hagenda, hoff⟩, harmed, hbeat, fun n hn => by simp [hwaiting] at hn,
    hfits⟩
  refine ⟨report, x, hfirings, ?_⟩
  have hrun := run_of_uploaded (hresult ▸ hup) (fun _ _ h => h.elim) hgrown hx hsized
    (by rw [UploadReport.Alone, hfirst, hlast, hparts]; exact hrow) (fun _ i hi e he => ?_)
    (by decide : Config.usual.validate = .ok ()) rfl (⟨rfl, rfl, by decide⟩ : Sink.unlimited.Reliable)
  · obtain ⟨clean, -, hverified, -, recoveries, flowReplies, hle, hok⟩ :=
      hrun.2 (by rw [hfirings]; decide) (by rw [hlast]; exact hdrop)
    exact ⟨clean, hverified, recoveries, flowReplies, hfirings ▸ hle, hok⟩
  · rw [hparts] at hi
    obtain rfl : i = 0 := Nat.lt_one_iff.1 hi
    rw [hfirst, ← List.head?_eq_getElem?] at he
    exact hshow e he

end Download

end FileRelay
