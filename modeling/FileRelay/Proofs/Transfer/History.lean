import FileRelay.Proofs.Record.Text
import FileRelay.Proofs.Transfer.Issued
import FileRelay.Proofs.Transfer.Masking
import FileRelay.Transfer.Catalogue

/-!
# Proofs/Transfer/History — every record in the store can be downloaded

Uploads come one after another, and others publish what they like meanwhile, but not between the
parts of an upload that succeeds (`History`).  Whatever value is then in the store, it is the record
of such an upload, whose parts stand alone in the log (`History.kept`); and they stay there.  So
whoever asks for the file gets what the upload has read (`History.downloadable`).
-/

namespace FileRelay

open Accepted (contents places)

namespace Upload

variable {config : Config} {path : Path} {options : UploadOptions} {x x₀ x' : Exchange}
  {u u₀ : Upload} {r : Turn Upload} {read : Bytes}

/-- **An upload counts its messages**, if the others publish on other subjects. -/
theorem Reaches.row_length
    (h : Reaches (Exchange.Meanwhile fun m => m.subject ≠ u₀.subject) u₀ x₀ r x read)
    (hb : u₀.Begun config) : r.All
      (fun u => (x.log.row u₀.subject (x₀.log.messages.size + 1)).length = u.reader.partsRead)
      (fun u => (x.log.row u₀.subject (x₀.log.messages.size + 1)).length = u.reader.partsRead)
      (fun _ _ => True) := by
  induction h with
  | begun =>
    show (x₀.log.row _ _).length = u₀.reader.partsRead
    rw [Log.row_of_size_lt (Nat.lt_succ_self _), hb.reader]
    rfl
  | others _ hx ih =>
    rw [hx.row_eq]
    exact ih
  | @turn u y read hr ih =>
    have hgrown := hr.grown fun _ _ => Exchange.Meanwhile.grown
    obtain ⟨as, hp, -⟩ := hr.publishes hb fun _ _ => Exchange.Meanwhile.grown
    have ha := u.turn_acts y
    generalize (u.turn y).1 = r at ha ⊢
    generalize (u.turn y).2 = y' at ha ⊢
    cases ha with
    | breaksOff | overflows => trivial
    | ends hc hreader =>
      have hparts : ∀ reader, (reader = u.reader ∨ (reader = { u.reader with exhausted := true } ∧
          u.reader.offset < u.reader.fileSize)) → reader.partsRead = u.reader.partsRead := by
        rintro reader (rfl | ⟨rfl, -⟩) <;> rfl
      exact ih.trans (hparts _ hreader).symm
    | @publishes c reader sequence _ hc hreader hm =>
      have hsubject : (u.messageOf c).subject = u₀.subject := hp.same.subject
      show (y'.log.row u₀.subject _).length = reader.partsRead
      rw [Log.row_push hm hp.behind, if_pos hsubject, List.length_append, hreader.after]
      exact congrArg (· + 1) ih

/-- **An upload that succeeds** while others publish on other subjects has issued parts that stand
alone, and changes one value of the store. -/
theorem Uploads.issued_alone {report : UploadReport}
    (h : Uploads (Exchange.Meanwhile fun m => m.subject ≠ report.subject) config path options x read
      (.ok report) x') :
    ∃ as, contents as = read ∧ Issued config report (x.log.messages.size + 1) x'.log as ∧
      report.Alone x'.log ∧ x.log.Grown x'.log ∧ ∀ k, x'.store.get? k
        = if k = recordKey report.record.id then some report.record.toText else x.store.get? k := by
  rcases h with _ | _ | ⟨hstart, hr, hf⟩
  have hb := start_begun hstart
  obtain ⟨as, hp, hread⟩ := hr.publishes hb fun _ _ => Exchange.Meanwhile.grown
  obtain ⟨hissued, hlog, hsubject, hstore⟩ := hp.issued hb hf
  rename_i u u' _ y
  have hrow : (y.log.row u.subject (x.log.messages.size + 1)).length = u'.reader.partsRead :=
    (hsubject ▸ hr).row_length hb
  rw [hp.partsRead, ← hsubject, ← hlog] at hrow
  rw [← hlog] at hissued
  refine ⟨as, hread, hissued, hissued.alone hrow,
    hlog ▸ hr.grown fun _ _ => Exchange.Meanwhile.grown, fun k => ?_⟩
  rw [hstore k, hr.store fun _ _ hx => hx.1]

/-- **An upload that fails** stores nothing. -/
theorem Uploads.failed {allowed : Published → Prop} {why : Failure}
    (h : Uploads (Exchange.Meanwhile allowed) config path options x read (.error why) x') :
    x'.store = x.store ∧ x.log.Grown x'.log := by
  have hgrown : ∀ y y', Exchange.Meanwhile allowed y y' → y.log.Grown y'.log :=
    fun _ _ => Exchange.Meanwhile.grown
  have hstore : ∀ y y', Exchange.Meanwhile allowed y y' → y'.store = y.store := fun _ _ hx => hx.1
  rcases h with _ | ⟨-, hr⟩ | ⟨-, hr, hf⟩
  · exact ⟨rfl, .refl _⟩
  · exact ⟨hr.store hstore, hr.grown hgrown⟩
  · obtain ⟨hmessages, hsame⟩ := finish_messages hf
    exact ⟨(hsame why rfl).trans (hr.store hstore), (hr.grown hgrown).trans (.of_messages hmessages)⟩

end Upload

/-- **A download by identifier** is one of the record that is stored, if it is one that can be used. -/
theorem Download.runById_eq {record : FileRecord} {id : String} {x : Exchange}
    (hk : x.store.get? (recordKey id) = some record.toText) (hv : record.validate = .ok ())
    (hc : record.isComplete = true) (hr : x.interference.rules = []) :
    ∃ y, x.Counted y ∧ ∀ config sink, runById config id sink x = run config record sink y := by
  obtain ⟨y, hcounted, hget⟩ := Exchange.get_of_rules_nil hr (recordKey id)
  rw [hk] at hget
  refine ⟨y, hcounted, fun config sink => ?_⟩
  rw [runById, Exchange.fetch, hget]
  simp only [FileRecord.complete, FileRecord.ofText_toText hv, hc, ↓reduceIte]

/-! ## Histories -/

/-- **A history of uploads** under one prefix, one after another in an exchange whose store was empty
at first, and for each key what the upload has read that stored its value. -/
inductive History (partPrefix : String) : Exchange → (String → Option Bytes) → Prop
  | begun {x : Exchange} (h : x.store = .empty) : History partPrefix x fun _ => none
  | others {x x' : Exchange} {sources : String → Option Bytes} (h : History partPrefix x sources)
      (hx : x.Meanwhile (fun _ => True) x') : History partPrefix x' sources
  | failed {x x' : Exchange} {sources : String → Option Bytes} {config : Config} {path : Path}
      {options : UploadOptions} {read : Bytes} {why : Failure}
      (h : History partPrefix x sources) (hp : config.partPrefix = partPrefix)
      (hu : Upload.Uploads (Exchange.Meanwhile fun _ => True) config path options x read
        (.error why) x') : History partPrefix x' sources
  | stored {x x' : Exchange} {sources : String → Option Bytes} {config : Config} {path : Path}
      {options : UploadOptions} {read : Bytes} {report : UploadReport}
      (h : History partPrefix x sources) (hp : config.partPrefix = partPrefix)
      (hu : Upload.Uploads (Exchange.Meanwhile fun m => m.subject ≠ report.subject) config path
        options x read (.ok report) x') :
      History partPrefix x' (Function.update sources (recordKey report.record.id) (some read))

/-- **A value of the store that can be used**: it is the record of an upload whose parts stand alone
in what is now the beginning of the log. -/
structure Exchange.Keeps (x : Exchange) (partPrefix key : String) (text read : Bytes)
    (config : Config) (report : UploadReport) (start : Nat) (l : Log) (as : List Accepted) :
    Prop where
  issued : Upload.Issued config report start l as
  alone : report.Alone l
  grown : l.Grown x.log
  config : config.partPrefix = partPrefix
  key : key = recordKey report.record.id
  text : text = report.record.toText
  contents : contents as = read

namespace Exchange.Keeps

variable {partPrefix key : String} {x x' : Exchange} {text read : Bytes} {config : Config}
  {report : UploadReport} {start : Nat} {l : Log} {as : List Accepted}

/-- Its text is read back as the record. -/
theorem ofText (h : x.Keeps partPrefix key text read config report start l as) :
    FileRecord.ofText text = .ok report.record := by
  rw [h.text, FileRecord.ofText_toText h.issued.valid]

/-- The record has a digest and a first place. -/
theorem complete (h : x.Keeps partPrefix key text read config report start l as) :
    report.record.isComplete = true ∧ ∃ n, report.record.firstSequence = some n ∧ 0 < n := by
  refine ⟨h.issued.isComplete, ?_⟩
  obtain ⟨n, hn, -⟩ := Option.map_eq_some_iff.1 (h.issued.firstSequence.trans h.issued.first)
  have hne : n ≠ 0 := by
    rintro rfl
    exact (FileRecord.validate_eq_ok_iff.1 h.issued.valid).2.2.1 hn
  exact ⟨n, hn, UInt64.pos_iff_ne_zero.2 hne⟩

/-- **A download by identifier** is one of the record, where the value is still in the store. -/
theorem runById_eq (h : x.Keeps partPrefix key text read config report start l as)
    (hk : x'.store.get? key = some text) (hr : x'.interference.rules = []) :
    ∃ y, x'.Counted y ∧ ∀ config sink, Download.runById config report.record.id sink x'
      = Download.run config report.record sink y := by
  rw [h.key, h.text] at hk
  exact Download.runById_eq hk h.issued.valid h.complete.1 hr

end Exchange.Keeps

namespace History

variable {partPrefix key : String} {x : Exchange} {sources : String → Option Bytes} {text : Bytes}

/-- **Every value of the store can be used.** -/
theorem kept (h : History partPrefix x sources) (hk : x.store.get? key = some text) :
    ∃ read config report start l as, sources key = some read ∧
      x.Keeps partPrefix key text read config report start l as := by
  induction h with
  | begun hx => simp [hx, Store.get?, Store.empty] at hk
  | others _ hx ih =>
    obtain ⟨read, config, report, start, l, as, hsource, hkeeps⟩ := ih (hx.1 ▸ hk)
    exact ⟨read, config, report, start, l, as, hsource,
      { hkeeps with grown := hkeeps.grown.trans hx.grown }⟩
  | failed _ _ hu ih =>
    obtain ⟨hstore, hgrown⟩ := hu.failed
    obtain ⟨read, config, report, start, l, as, hsource, hkeeps⟩ := ih (hstore ▸ hk)
    exact ⟨read, config, report, start, l, as, hsource,
      { hkeeps with grown := hkeeps.grown.trans hgrown }⟩
  | @stored x x' sources config path options read report _ hp hu ih =>
    obtain ⟨as, hread, hissued, halone, hgrown, hstore⟩ := hu.issued_alone
    rw [hstore key] at hk
    split at hk
    · rename_i hkey
      refine ⟨read, config, report, _, x'.log, as, by rw [hkey, Function.update_self],
        hissued, halone, .refl _, hp, hkey, (Option.some.inj hk).symm, hread⟩
    · rename_i hkey
      obtain ⟨read, config, report, start, l, as, hsource, hkeeps⟩ := ih hk
      exact ⟨read, config, report, start, l, as, by rw [Function.update_of_ne hkey, hsource],
        { hkeeps with grown := hkeeps.grown.trans hgrown }⟩

/-- **Every record in the store can be downloaded.**  Whatever uploads have succeeded or failed, in
whatever order: each value of the store is the text of a record under its own key, which validates and
is complete; and whoever asks for it with valid settings of the prefix gets what the upload has read
that stored it, verified and without a recovery. -/
theorem downloadable (h : History partPrefix x sources) (hk : x.store.get? key = some text) :
    ∃ record read, FileRecord.ofText text = .ok record ∧ key = recordKey record.id ∧
      record.validate = .ok () ∧ record.isComplete = true ∧
      (∃ n, record.firstSequence = some n ∧ 0 < n) ∧ sources key = some read ∧
      ∀ (config : Config) (sink : Sink) (x' : Exchange), config.validate = .ok () →
        config.partPrefix = partPrefix → sink.Reliable → x'.store = x.store →
        x.log.Grown x'.log → x'.Calm → x'.log.faults = [] → x'.log.Regular → x'.log.Sized →
        ∃ done, (Download.runById config record.id sink x').1.result = .ok done ∧
          done.verification = .verified ∧ done.recoveries = 0 ∧
          (Download.runById config record.id sink x').1.sink.written = sink.written ++ read := by
  obtain ⟨read, config, report, start, l, as, hsource, hkeeps⟩ := h.kept hk
  have hissued := hkeeps.issued
  refine ⟨report.record, read, hkeeps.ofText, hkeeps.key, hissued.valid, hkeeps.complete.1,
    hkeeps.complete.2, hsource, ?_⟩
  intro config' sink x' hconfig hconfigs hreliable hstore hgrown hcalm hfaults hregular hsized
  obtain ⟨y, hcounted, hrun⟩ := hkeeps.runById_eq (hstore ▸ hk) hcalm.rules
  have hl : l.Grown y.log := hcounted.log ▸ hkeeps.grown.trans hgrown
  have hsized' : l.Sized := hl.sized (hcounted.log ▸ hsized)
  obtain ⟨t, ht⟩ := hissued.task hconfig
  have hs := (hissued.stored hkeeps.alone hsized' ht (hconfigs.trans hkeeps.config.symm)).grow hl
  have hnone : y.log.faults = [] := hcounted.log ▸ hfaults
  have hfirings : y.log.firings = 0 := by rw [Log.firings, hnone]; rfl
  obtain ⟨recoveries, flowReplies, hle, hresult, hwritten⟩ := Download.run_masked ht
    hissued.valid hs (fun hpos => absurd hpos (by omega))
    (hcalm.later (hcounted.toBeside.later hcalm.rules)) (hcounted.log ▸ hregular)
    (fun f hf => by simp [hnone] at hf) (by omega) (fun a _ f hf => by simp [hnone] at hf) hreliable
  rw [hrun, hresult, hwritten, hkeeps.contents]
  exact ⟨_, rfl, hs.verdict_eq, Nat.le_zero.1 (hfirings ▸ hle), rfl⟩

/-- A file of one octet that was uploaded once is there for whoever asks, also without a retry. -/
theorem downloadable_of_one : ∃ (x : Exchange) (sources : String → Option Bytes) (id : String)
    (read : Bytes) (done : DownloadReport), History Config.usual.partPrefix x sources ∧
      x.log.messages.size = 1 ∧ sources (recordKey id) = some read ∧
      (Download.runById { Config.usual with retryBudget := 0 } id .unlimited x).1.result = .ok done ∧
      done.verification = .verified ∧ done.recoveries = 0 ∧
      (Download.runById { Config.usual with retryBudget := 0 } id .unlimited x).1.sink.written
        = read := by
  let files : FileTree := ⟨[([[0x61]], .file [7] .epoch)], none⟩
  obtain ⟨r, hr⟩ : ∃ r, Upload.run .usual [0x61] ⟨none, none, none⟩ (.new default files) = r :=
    ⟨_, rfl⟩
  have hcalm : r.2.interference.rules = [] ∧ r.2.time.agenda = [] ∧ r.2.time.calledOff = false ∧
      r.2.log.waiting = [] ∧ r.2.log.messages.size + 1 < Word.limit ∧ r.2.log.messages.size = 1 := by
    subst hr
    decide +kernel
  have hlog : r.2.log.faults = [] ∧
      ∀ m ∈ r.2.log.messages.toList, m.payload.length < Word.limit := by
    subst hr
    decide +kernel
  have hreport : r.1.result.toOption.any (fun report =>
      (r.2.store.get? (recordKey report.record.id)).isSome) = true := by
    subst hr
    decide +kernel
  obtain ⟨hrules, hagenda, hoff, hwaiting, hfits, hsize⟩ := hcalm
  rcases hresult : r.1.result with why | report
  · simp [hresult, Except.toOption] at hreport
  simp only [hresult, Except.toOption, Option.any_some] at hreport
  obtain ⟨text, htext⟩ := Option.isSome_iff_exists.1 hreport
  obtain ⟨read, hup⟩ := Upload.run_uploads (Exchange.Meanwhile fun m => m.subject ≠ report.subject)
    .usual [0x61] ⟨none, none, none⟩ (.new default files)
  rw [hr, hresult] at hup
  have hhistory : History Config.usual.partPrefix r.2 _ := .stored (.begun rfl) rfl hup
  obtain ⟨record, read, -, hkey, -, -, -, hsource, hrun⟩ := downloadable hhistory htext
  obtain ⟨done, hdone, hverified, hrecoveries, hwritten⟩ :=
    hrun { Config.usual with retryBudget := 0 } .unlimited r.2 (by decide) rfl ⟨rfl, rfl, by decide⟩
      rfl (.refl _) ⟨hrules, hagenda, hoff⟩ hlog.1 ⟨fun n hn => by simp [hwaiting] at hn, hfits⟩
      hlog.2
  exact ⟨r.2, _, record.id, read, done, hhistory, hsize, hkey ▸ hsource, hdone, hverified,
    hrecoveries, hwritten⟩

end History

end FileRelay
