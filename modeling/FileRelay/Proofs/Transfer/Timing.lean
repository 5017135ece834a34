import FileRelay.Proofs.Transfer.PlainDownload

/-!
# Proofs/Transfer/Timing — the time of publication does not matter

A download that begins while others publish, each message soon enough after the one before it, comes to
what it would come to after all of them were published: waits, heartbeats and requests differ on the
way, but not the outcome (`Download.run_whenever`).
-/

namespace FileRelay

open Accepted (contents)
open Timeline (publications)

namespace Exchange

variable {x : Exchange} {t : DownloadTask} {ms : Nat}

/-- The exchange after so many milliseconds. -/
def sleep (x : Exchange) (ms : Nat) : Exchange := { x with time := x.time.sleep ms }

theorem Timetabled.later_sleep (h : x.Timetabled) (ms : Nat) : x.Later (x.sleep ms) where
  toAfter := x.time.sleep_after ms
  rules := h.rules
  options := Timeline.passUntil_log (P := fun l => l.options = x.log.options)
    (fun e _ l hl => (e.2.options l).trans hl) rfl

/-- **Whoever sleeps long enough** finds that all has been published. -/
theorem Timetabled.calm_sleep (h : x.Timetabled)
    (hms : ∀ e ∈ x.time.agenda, e.1 < x.time.now + ms) : (x.sleep ms).Calm where
  rules := h.rules
  agenda := Timeline.passUntil_agenda hms x.time
  calledOff := (h.later (h.later_sleep ms)).calledOff

/-- Publications change no fault and no request. -/
theorem Timetabled.frame_sleep (h : x.Timetabled) (ms : Nat) :
    (x.sleep ms).log.faults = x.log.faults ∧ (x.sleep ms).log.issued = x.log.issued ∧
      (x.sleep ms).log.waiting = x.log.waiting := by
  refine Timeline.passUntil_log (P := fun l => l.faults = x.log.faults ∧
    l.issued = x.log.issued ∧ l.waiting = x.log.waiting) (fun e he l hl => ?_) ⟨rfl, rfl, rfl⟩
  obtain ⟨m, hm⟩ := h.publishes e he
  rw [hm]
  exact hl

/-- **A timetable leads to the log** that there is after it. -/
theorem Timetabled.leads_sleep (h : x.Timetabled)
    (hms : ∀ e ∈ x.time.agenda, e.1 < x.time.now + ms) : x.Leads (x.sleep ms).log where
  toTimetabled := h
  comes := by
    obtain ⟨done, hagenda, -, hmessages⟩ := (h.later_sleep ms).done
    rw [(h.calm_sleep hms).agenda, List.append_nil] at hagenda
    exact hagenda ▸ hmessages
  options := (h.later_sleep ms).options.symm

/-- **After a punctual timetable** nothing disturbs any more. -/
theorem Punctual.undisturbed_sleep (h : x.Punctual t)
    (hms : ∀ e ∈ x.time.agenda, e.1 < x.time.now + ms) : (x.sleep ms).Undisturbed := by
  obtain ⟨hfaults, hissued, hwaiting⟩ := h.frame_sleep ms
  refine ⟨h.calm_sleep hms, hfaults.trans h.faults, (h.later_sleep ms).options ▸ h.heartbeat, ?_, ?_⟩
  · rw [Log.Numbered, hissued, hwaiting]
    exact h.numbered
  · rw [(h.leads_sleep hms).size_eq]
    exact h.fits

end Exchange

namespace Download

/-- **The time of publication does not matter.**  A download that begins while others publish, each
message of its row less than the time it has patience for after the one before, ends with the same
result and the same output as one that begins when all have been published: it does what its
specification says of the whole row. -/
theorem run_whenever {config : Config} {record : FileRecord} {t : DownloadTask} {sink : Sink}
    {x : Exchange} {ms : Nat} (h : DownloadTask.of config record = .ok t)
    (hv : record.validate = .ok ()) (hx : x.Punctual t)
    (hms : ∀ e ∈ x.time.agenda, e.1 < x.time.now + ms) (hk : sink.Reliable) :
    let late := x.sleep ms
    let row := late.log.row t.subject t.origin.first
    let as := record.partsOf 1 row
    (late.time.agenda = [] ∧
      late.log.messages.toList = x.log.messages.toList ++ publications x.time.agenda) ∧
    ((run config record sink x).1.result = (run config record sink late).1.result ∧
      (run config record sink x).1.sink.written = (run config record sink late).1.sink.written) ∧
    (run config record sink late).1.result = t.plain x.log.options row.length as ∧
      (run config record sink late).1.sink.written = sink.written ++ contents as := by
  intro late row as
  have hleads := hx.leads_sleep hms
  have hearly := run_punctual h hv hx hleads hk
  have hlate := run_plain h hv (hx.undisturbed_sleep hms) hk
  obtain ⟨-, -, rfl, -⟩ := DownloadTask.of_eq_ok_iff.1 h
  rw [hleads.options]
  exact ⟨⟨(hx.calm_sleep hms).agenda, hleads.comes⟩,
    ⟨hearly.1.trans hlate.1.symm, hearly.2.trans hlate.2.symm⟩, hlate⟩

/-- A part and a message without a label that come during a download, at different times, lead to what
they lead to when both were there before. -/
theorem run_whenever_of_part : ∃ (record : FileRecord) (x : Exchange) (m : Published),
    record.validate = .ok () ∧ x.log.messages = #[] ∧
    x.time.agenda = [(100, .publish m), (300, .publish ⟨"parts.id", KeyMap.empty, []⟩)] ∧
    (run .usual record .unlimited x).1.result
      = (run .usual record .unlimited (x.sleep 400)).1.result ∧
    (run .usual record .unlimited x).1.result = .error (.tooManyMismatches 10 1 2) ∧
    (run .usual record .unlimited x).1.sink.written = [1, 2] := by
  let record : FileRecord := ⟨"id", "name", "", "", 3, 2, 2, 1, .epoch, some "SHA-256",
    some "00", none⟩
  let t : DownloadTask := ⟨.usual, record, ⟨"SHA-256", "00"⟩, .sha256⟩
  let label := Label.plain "id" 1 0 2 ⟨"SHA-256", Digest.Algorithm.sha256.hexDigest [1, 2]⟩
  obtain ⟨m, hm⟩ : ∃ m : Published, m = ⟨"parts.id", label.toHeaders, [1, 2]⟩ := ⟨_, rfl⟩
  let x : Exchange := ((Exchange.new default .empty).plan 100 (.publish m)).plan 300
    (.publish ⟨"parts.id", KeyMap.empty, []⟩)
  have hv : record.validate = .ok () := by decide
  have ht : DownloadTask.of .usual record = .ok t := by decide
  have hcalm : (Exchange.new default .empty).Calm := ⟨rfl, rfl, rfl⟩
  have hagenda : x.time.agenda
      = [(100, .publish m), (300, .publish ⟨"parts.id", KeyMap.empty, []⟩)] := rfl
  have harrivals : x.time.arrivals t.subject t.origin.first = [100, 300] := by
    subst hm
    decide +kernel
  have hx : x.Punctual t := by
    refine ⟨(hcalm.timetabled.plan _ _).plan _ _, rfl, nofun, fun _ hn => absurd hn List.not_mem_nil,
      ?_, Nat.le_refl _, ?_⟩
    · exact (by decide : 3 < Word.limit)
    · rw [harrivals]
      exact (by decide : [0, 100, 300].IsChain fun earlier later =>
        later < earlier + Config.usual.maxIdleMs.toNat)
  have hk : Sink.unlimited.Reliable := ⟨rfl, rfl, by decide⟩
  have hms : ∀ e ∈ x.time.agenda, e.1 < x.time.now + 400 := by simp [hagenda]
  let row := (x.sleep 400).log.row t.subject t.origin.first
  have hplain : t.plain x.log.options row.length (record.partsOf 1 row)
        = .error (.tooManyMismatches 10 1 2) ∧
      Sink.unlimited.written ++ contents (record.partsOf 1 row) = [1, 2] := by
    subst hm
    decide +kernel
  obtain ⟨-, ⟨hsame, houtput⟩, hresult, hwritten⟩ := run_whenever ht hv hx hms hk
  exact ⟨record, x, m, hv, rfl, hagenda, hsame, hsame.trans (hresult.trans hplain.1),
    houtput.trans (hwritten.trans hplain.2)⟩

end Download

end FileRelay
