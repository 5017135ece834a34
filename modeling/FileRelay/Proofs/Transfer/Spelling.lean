import FileRelay.Proofs.Part.Transport
import FileRelay.Proofs.Transfer.Acceptance
import FileRelay.Proofs.Transfer.Relabelling
import FileRelay.Transfer.Upload

/-!
# Proofs/Transfer/Spelling — what the spelling of a digest algorithm does to a download

An algorithm is read from any spelling, with or without hyphens and underscores.  A digest is then
compared under the proper name, and only the case of its letters does not count.  So a spelling is
**proper** or not (`Digest.Algorithm.IsProper`), and nothing else about it counts: headers whose
labels agree but for that (`Headers.spelled`) are the same to every check (`Headers.blind_spelled`).

A part with an improper spelling is refused, and a download of a record with an improper spelling is
never verified, whatever it has written (`Download.run_respelled`).
-/

namespace FileRelay

namespace Digest

namespace Algorithm

variable {a : Algorithm} {s : String}

/-- **A spelling that a comparison accepts**: the proper name, in letters of any case. -/
def IsProper (a : Algorithm) (s : String) : Prop := Text.sameLetters a.name s = true

instance (a : Algorithm) (s : String) : Decidable (a.IsProper s) :=
  inferInstanceAs (Decidable (_ = true))

/-- The name without its hyphen, which is not a proper spelling. -/
def bareName : Algorithm → String
  | sha256 => "SHA256"
  | sha384 => "SHA384"
  | sha512 => "SHA512"

theorem parse?_bareName (a : Algorithm) : parse? a.bareName = some a := by
  cases a <;> decide

theorem not_isProper_bareName (a : Algorithm) : ¬ a.IsProper a.bareName := by
  cases a <;> decide

/-- **One spelling for all proper ones, and one for all others.** -/
def spelled (s : String) : String :=
  match parse? s with
  | none => s
  | some a => if a.IsProper s then a.name else a.bareName

theorem parse?_spelled (s : String) : parse? (spelled s) = parse? s := by
  unfold spelled
  rcases h : parse? s with _ | a
  · exact h
  · dsimp only
    split
    · exact a.parse?_name
    · exact a.parse?_bareName

theorem isProper_spelled (h : parse? s = some a) : a.IsProper (spelled s) ↔ a.IsProper s := by
  unfold spelled
  rw [h]
  dsimp only
  split
  · rename_i hproper
    exact iff_of_true (Text.sameLetters_refl _) hproper
  · rename_i hproper
    exact iff_of_false a.not_isProper_bareName hproper

end Algorithm

namespace Entry

variable {a : Algorithm} {e : Entry} {v : String}

/-- **A digest agrees with an entry** that spells its algorithm properly and gives its value. -/
theorem agrees_iff : agrees ⟨a.name, v⟩ e = true ↔
    a.IsProper e.algorithm ∧ Text.sameLetters v e.value = true := by
  rw [agrees, Bool.and_eq_true]
  rfl

/-- An entry in the one spelling for its own. -/
def spelled (e : Entry) : Entry := { e with algorithm := Algorithm.spelled e.algorithm }

theorem agrees_spelled (h : Algorithm.parse? e.algorithm = some a) :
    agrees ⟨a.name, v⟩ e.spelled = agrees ⟨a.name, v⟩ e := by
  rw [Bool.eq_iff_iff, agrees_iff, agrees_iff, ← Algorithm.isProper_spelled h]
  rfl

/-- An entry under another name that holds no equals sign and no blank is regular still. -/
theorem Regular.renamed (h : e.Regular) {name : String} (hne : name.toList ≠ [])
    (hequals : '=' ∉ name.toList) (hblank : ∀ c ∈ name.toList, Text.isBlank c = false) :
    Regular { e with algorithm := name } :=
  ⟨hne, hequals, fun c hc => hblank c (List.mem_of_mem_head? hc),
    fun c hc => hblank c (List.mem_of_getLast? hc), h.value, h.digits⟩

theorem bareName_plain (a : Algorithm) : a.bareName.toList ≠ [] ∧ '=' ∉ a.bareName.toList ∧
    ∀ c ∈ a.bareName.toList, Text.isBlank c = false :=
  plain_of_all (by cases a <;> decide)

theorem Regular.spelled (h : e.Regular) : e.spelled.Regular := by
  unfold Entry.spelled Algorithm.spelled
  split
  · exact h
  rename_i a _
  split
  · obtain ⟨hne, hequals, hblank⟩ := name_plain a
    exact h.renamed hne hequals hblank
  · obtain ⟨hne, hequals, hblank⟩ := bareName_plain a
    exact h.renamed hne hequals hblank

end Entry

end Digest

/-! ## Labels and headers -/

namespace Label

variable {l : Label}

/-- A label in the one spelling for its own. -/
def spelled (l : Label) : Label := { l with digest := l.digest.spelled }

theorem Regular.spelled (h : l.Regular) : l.spelled.Regular :=
  ⟨h.number, h.encoding, h.digest.spelled⟩

/-- **A content is checked under any spelling of its own kind.** -/
theorem checkContent_spelled (l : Label) (length : UInt64) (payload : Bytes) :
    l.spelled.checkContent length payload = l.checkContent length payload := by
  have halgorithm : l.spelled.digest.algorithm = Digest.Algorithm.spelled l.digest.algorithm := rfl
  have hlength : l.spelled.payloadLength = l.payloadLength := rfl
  unfold checkContent
  rw [halgorithm, hlength, Digest.Algorithm.parse?_spelled]
  rcases ha : Digest.Algorithm.parse? l.digest.algorithm with _ | a
  · have hsame : Digest.Algorithm.spelled l.digest.algorithm = l.digest.algorithm := by
      rw [Digest.Algorithm.spelled, ha]
    rw [hsame]
    rfl
  · simp only [spelled, Digest.Entry.agrees_spelled ha]

end Label

theorem FileRecord.partContent_spelled (r : FileRecord) (l : Label) (payload : Bytes) :
    r.partContent l.spelled payload = r.partContent l payload := by
  have hplace : r.checkPlace l.spelled = r.checkPlace l := rfl
  unfold partContent
  rw [hplace]
  simp only [Label.checkContent_spelled]

namespace Headers

/-- **Headers in the one spelling for their own**: those of the label that they are, if they are one. -/
def spelled (h : Headers) : Headers :=
  match Label.ofHeaders h with
  | .error _ => h
  | .ok l => l.spelled.toHeaders

theorem ofHeaders_spelled (h : Headers) :
    Label.ofHeaders h.spelled = (Label.ofHeaders h).map Label.spelled := by
  unfold spelled
  rcases hl : Label.ofHeaders h with why | l
  · exact hl
  · exact (Label.regular_of_ofHeaders hl).spelled.ofHeaders_eq (Carries.refl _)

/-- **No check of a part tells spellings of one kind from one another.** -/
theorem blind_spelled : Blind spelled where
  empty := rfl
  check s r d := by
    have hheaders : (d.relabel spelled).headers = Headers.spelled d.headers := rfl
    unfold Session.checkPart FileRecord.labelOf
    rw [hheaders, ofHeaders_spelled]
    rcases Label.ofHeaders d.headers with why | l
    · rfl
    by_cases hid : l.fileId = r.id
    · have hid' : l.spelled.fileId = r.id := hid
      simp only [Except.map, hid, hid', ↓reduceIte, r.partContent_spelled]
      rfl
    · have hid' : l.spelled.fileId ≠ r.id := hid
      simp only [Except.map, hid, hid', ↓reduceIte]
      rfl

end Headers

/-- **Exchanges that differ in the spellings in headers only**, and each of these within its kind. -/
def Exchange.SpelledAlike (x y : Exchange) : Prop :=
  x.relabel Headers.spelled = y.relabel Headers.spelled

/-! ## A part under another spelling -/

/-- A label with another spelling of its digest algorithm. -/
def Label.respelled (l : Label) (spelling : String) : Label :=
  { l with digest := { l.digest with algorithm := spelling } }

/-- The headers of a label with another spelling. -/
def Headers.respelled (spelling : String) (h : Headers) : Headers :=
  match Label.ofHeaders h with
  | .error _ => h
  | .ok l => (l.respelled spelling).toHeaders

section Part

variable {l : Label} {length : UInt64} {payload content : Bytes} {b : Digest.Algorithm}
  {spelling : String}

/-- **A content is accepted under another spelling** exactly when that is a proper one. -/
theorem Label.checkContent_respelled (hb : Digest.Algorithm.parse? l.digest.algorithm = some b)
    (hspelling : Digest.Algorithm.parse? spelling = some b)
    (hc : l.checkContent length payload = .ok content) :
    (l.respelled spelling).checkContent length payload
      = if b.IsProper spelling then .ok content else .error (.digest l.number.toNat) := by
  obtain ⟨hpayload, hdecoded, hlength, a, ha, hagrees⟩ := checkContent_eq_ok_iff.1 hc
  obtain rfl : b = a := Option.some.inj (hb.symm.trans ha)
  obtain ⟨-, hvalue⟩ := Digest.Entry.agrees_iff.1 hagrees
  have hpayload' : (l.respelled spelling).payloadLength.toNat = payload.length := hpayload
  have hdecoded' : decodePayload (l.respelled spelling).encoding length.toNat payload
      = .ok content := hdecoded
  have hparse : Digest.Algorithm.parse? (l.respelled spelling).digest.algorithm = some b := hspelling
  have hagrees' : Digest.Entry.agrees ⟨b.name, b.hexDigest content⟩ (l.respelled spelling).digest
      = decide (b.IsProper spelling) := by
    rw [Bool.eq_iff_iff, Digest.Entry.agrees_iff, decide_eq_true_iff]
    exact and_iff_left hvalue
  have hnumber : (l.respelled spelling).number = l.number := rfl
  unfold checkContent
  simp only [hpayload', ne_eq, not_true_eq_false, ↓reduceIte, hdecoded', hlength, hparse, hagrees',
    hnumber, decide_eq_true_eq]

theorem Session.checkPart_of_label {s : Session} {r : FileRecord} {m : Delivery}
    (hl : r.labelOf m.headers = .ok l) : s.checkPart r m =
      match s.checkOrder m.number l.number.toNat with
      | .error reason => some (.error reason)
      | .ok () => r.partContent l m.payload := by
  rcases hnext : s.checkOrder m.number l.number.toNat with reason | _ <;>
    simp only [checkPart, hl, hnext]

/-- **A part is accepted under another spelling** exactly when that is a proper one. -/
theorem Session.checkPart_respelled {s : Session} {r : FileRecord} {m : Delivery} {h : Headers}
    (hl : Label.ofHeaders m.headers = .ok l)
    (hb : Digest.Algorithm.parse? l.digest.algorithm = some b)
    (hspelling : Digest.Algorithm.parse? spelling = some b)
    (hl' : Label.ofHeaders h = .ok (l.respelled spelling))
    (hc : s.checkPart r m = some (.ok content)) :
    s.checkPart r { m with headers := h }
      = some (if b.IsProper spelling then .ok content else .error (.digest l.number.toNat)) := by
  have hid : l.fileId = r.id := by
    by_contra hother
    simp [checkPart, FileRecord.labelOf, hl, hother] at hc
  have horder : (l.respelled spelling).number = l.number := rfl
  have hplace : r.checkPlace (l.respelled spelling) = r.checkPlace l := rfl
  have hrespelled : r.labelOf h = .ok (l.respelled spelling) :=
    FileRecord.labelOf_eq_ok_iff.2 ⟨hl', hid⟩
  rw [checkPart_of_label (FileRecord.labelOf_eq_ok_iff.2 ⟨hl, hid⟩)] at hc
  rw [checkPart_of_label (m := { m with headers := h }) hrespelled, horder]
  split at hc
  · simp at hc
  rename_i hnext
  simp only [hnext]
  unfold FileRecord.partContent at hc ⊢
  rw [hplace]
  obtain ⟨place, hp, hbind⟩ := Option.map_eq_some_iff.1 hc
  rcases place with reason | length
  · cases hbind
  · rw [hp]
    exact congrArg some (Label.checkContent_respelled hb hspelling hbind)

end Part

/-! ## Runs -/

/-- Spellings of one kind judge alike. -/
theorem DownloadReport.judgedBy_congr {report : DownloadReport} {n : Nat} {a : Digest.Algorithm}
    {s s' v : String} (hkind : a.IsProper s ↔ a.IsProper s')
    (hdigest : report.digest.algorithm = a.name) :
    report.judgedBy n ⟨s', v⟩ = report.judgedBy n ⟨s, v⟩ := by
  have hagrees : report.digest.agrees ⟨s', v⟩ = report.digest.agrees ⟨s, v⟩ := by
    have hentry : report.digest = ⟨a.name, report.digest.value⟩ := by rw [← hdigest]
    rw [hentry, Bool.eq_iff_iff, Digest.Entry.agrees_iff, Digest.Entry.agrees_iff, hkind]
  rw [judgedBy, judgedBy, verdict, verdict, hagrees]

namespace Download

variable {t : DownloadTask} {before : Bytes} {d : Download} {x : Exchange}

/-- **A download that has digested what it has written.** -/
structure Digests (t : DownloadTask) (before : Bytes) (d : Download) : Prop where
  task : d.task = t
  read : ∃ read, d.sink.written = before ++ read ∧
    d.digester = (Digest.Digester.new t.algorithm).absorb read

/-- **A turn that goes on digests what it writes.** -/
theorem Digests.turn (h : d.Digests t before) :
    (d.turn x).1.All (Digests t before) (Digests t before) (fun _ _ => True) := by
  obtain ⟨-, hturn⟩ | ⟨d', x', hturn⟩ | ⟨-, ha⟩ := d.turn_cases x
  · rw [hturn]
    exact h
  · rw [hturn]
    trivial
  · generalize (d.listen x).1 = s at ha
    generalize (d.turn x).1 = r at ha ⊢
    generalize (d.turn x).2 = x' at ha
    cases ha with
    | @accepts m data sink session _ _ hw =>
      obtain ⟨read, hwritten, hdigester⟩ := h.read
      refine ⟨h.task, read ++ data, ?_, ?_⟩
      · rw [← List.append_assoc, ← hwritten]
        exact (Sink.writeAll_ok hw).1
      · rw [← Digest.Digester.absorb_append, ← hdigester]
        rfl
    | rests | tires | passes | answers | recovers => exact ⟨h.task, h.read⟩
    | breaksOff | cannotWrite | outgrows | stranded | cannotResume | givesUp => trivial

/-- **A report tells of what has been digested.** -/
theorem Digests.complete (h : d.Digests t before) {report : DownloadReport}
    (hok : (d.complete x).1 = .ok report) :
    ∃ d' : Download, d'.Digests t before ∧ d'.sink.written = (d.complete x).2.1.sink.written ∧
      report = d'.report := by
  have hturns : (Turn.takeTurns Download.turn (d.task.patience x) d x).1.All (Digests t before)
      (Digests t before) (fun _ _ => True) :=
    Turn.takeTurns_all (P := fun (d : Download) (_ : Exchange) => d.Digests t before)
      (D := fun d _ => d.Digests t before) (B := fun _ _ _ => True) (fun _ _ h => h.turn) _ h
  unfold Download.complete at hok ⊢
  generalize Turn.takeTurns Download.turn (d.task.patience x) d x = r at hturns hok ⊢
  obtain ⟨d₁ | d₁ | ⟨d₁, why⟩, y⟩ := r
  · cases hok
  · obtain ⟨hclosed, -⟩ := finish_closed d₁ y
    obtain ⟨e, -, hfst⟩ | ⟨-, hfst⟩ := d₁.finish_fst y
    · rw [hfst] at hok
      cases hok
    · obtain ⟨read, hwritten, hdigester⟩ := hturns.read
      refine ⟨_, ⟨hclosed.task.trans hturns.task, read, hclosed.written.trans hwritten,
        hclosed.digester.trans hdigester⟩, rfl, ?_⟩
      exact Except.ok.inj (hok.symm.trans hfst)
  · cases hok

variable {record : FileRecord} {a : Digest.Algorithm} {s v : String}

/-- **A report gives the digest of what was written**, held to the one on record. -/
theorem run_digests (config : Config) (sink : Sink) (x : Exchange) {report : DownloadReport}
    (hd : record.digest? = some ⟨s, v⟩)
    (hs : Digest.Algorithm.parse? s = some a)
    (hok : (run config record sink x).1.result = .ok report) :
    (∃ read, (run config record sink x).1.sink.written = sink.written ++ read ∧
        report.digest = ⟨a.name, a.hexDigest read⟩) ∧
      report = report.judgedBy record.parts.toNat ⟨s, v⟩ := by
  revert hok
  unfold run
  rcases ht : DownloadTask.of config record with why | t
  · exact nofun
  obtain ⟨-, -, hrecord, hexpected, halgorithm⟩ := DownloadTask.of_eq_ok_iff.1 ht
  obtain hexpected : ⟨s, v⟩ = t.expected := Option.some.inj (hd.symm.trans hexpected)
  rw [← hexpected, hs] at halgorithm
  dsimp only
  rcases x.subscribe t.subject t.origin with ⟨e | reader, y⟩
  · exact nofun
  have hbegin : (of t sink reader y.time.now).Digests t sink.written :=
    ⟨rfl, [], (List.append_nil _).symm, (Digest.Digester.absorb_nil _).symm⟩
  have hcomplete := fun done (h : ((of t sink reader y.time.now).complete y).1 = .ok done) =>
    hbegin.complete h
  dsimp only
  generalize (of t sink reader y.time.now).complete y = r at hcomplete ⊢
  obtain ⟨why | done, d, z⟩ := r
  · exact nofun
  intro hok
  obtain ⟨d', hdigests, hsink, rfl⟩ := hcomplete report hok
  obtain ⟨read, hwritten, hdigester⟩ := hdigests.read
  refine ⟨⟨read, hsink.symm.trans hwritten, ?_⟩, ?_⟩
  · rw [Option.some.inj halgorithm, ← Digest.Digester.value_absorb, ← hdigester, ← hdigests.task]
    rfl
  · have h := d'.report_eq_judgedBy
    rwa [hdigests.task, ← hexpected, DownloadTask.parts, hrecord] at h

/-- What an outcome is, held to another digest on record. -/
def Outcome.judgedBy (o : Outcome) (parts : Nat) (expected : Digest.Entry) : Outcome :=
  { o with result := o.result.map (·.judgedBy parts expected) }

/-- **An outcome is held to the digest on record.** -/
theorem run_judged (config : Config) (sink : Sink) (x : Exchange)
    (hd : record.digest? = some ⟨s, v⟩) (hs : Digest.Algorithm.parse? s = some a) :
    (run config record sink x).1.judgedBy record.parts.toNat ⟨s, v⟩
      = (run config record sink x).1 := by
  have hdigests := fun report (hok : (run config record sink x).1.result = .ok report) =>
    run_digests config sink x hd hs hok
  generalize (run config record sink x).1 = o at hdigests ⊢
  obtain ⟨why | report, events, sink'⟩ := o
  · rfl
  · rw [Outcome.judgedBy, Except.map, ← (hdigests report rfl).2]

variable {x y : Exchange} {s' : String}

/-- **An outcome under another spelling** is the same one, held to the digest in that spelling. -/
theorem run_eq_judgedBy (config : Config) (sink : Sink) (hd : record.digest? = some ⟨s, v⟩)
    (hs : Digest.Algorithm.parse? s = some a) (hs' : Digest.Algorithm.parse? s' = some a)
    (hxy : x.SpelledAlike y) :
    (run config (record.respelled s') sink y).1
      = (run config record sink x).1.judgedBy record.parts.toNat ⟨s', v⟩ := by
  have hd' := FileRecord.digest?_respelled hd s'
  have hx := congrArg Prod.fst (run_relabel config sink x Headers.blind_spelled hd hs hs')
  have hy := congrArg Prod.fst (run_relabel config sink y Headers.blind_spelled hd' hs' hs')
  rw [Exchange.SpelledAlike] at hxy
  rw [hxy] at hx
  rw [← run_judged config sink y hd' hs']
  exact hy.symm.trans hx

/-- **What the spelling of a digest algorithm does to a run.**  Let the record spell its algorithm in
any other way, and let headers be respelled within their kind.  Then the same octets are written, the
same is told, and a failure stays what it was; a report differs in its comparison with the record at
most, which comes out well exactly under a proper spelling.  So nothing changes at all if both
spellings are proper or neither is.  A part whose header changes its spelling beyond that is accepted
exactly under a proper one. -/
theorem run_respelled (config : Config) (sink : Sink) (hd : record.digest? = some ⟨s, v⟩)
    (hs : Digest.Algorithm.parse? s = some a) (hs' : Digest.Algorithm.parse? s' = some a)
    (hxy : x.SpelledAlike y) :
    let o := (run config record sink x).1
    let o' := (run config (record.respelled s') sink y).1
    o'.sink = o.sink ∧ o'.events = o.events ∧
      (∀ why, o.result = .error why → o'.result = .error why) ∧
      (∀ report, o.result = .ok report → ∃ read, o.sink.written = sink.written ++ read ∧
        report.digest = ⟨a.name, a.hexDigest read⟩ ∧
        o'.result = .ok { report with
          verification :=
            if report.partsWritten < record.parts.toNat then
              .incomplete record.parts.toNat report.partsWritten
            else if a.IsProper s' ∧ Text.sameLetters (a.hexDigest read) v then .verified
            else .digestMismatch v (a.hexDigest read) }) ∧
      ((a.IsProper s ↔ a.IsProper s') → o' = o) ∧
      ∀ (session : Session) (m : Delivery) (content : Bytes) (l : Label) (h : Headers)
        (b : Digest.Algorithm) (spelling : String),
        session.checkPart record m = some (.ok content) → Label.ofHeaders m.headers = .ok l →
        Digest.Algorithm.parse? l.digest.algorithm = some b →
        Digest.Algorithm.parse? spelling = some b →
        Label.ofHeaders h = .ok (l.respelled spelling) →
        session.checkPart record { m with headers := h } = some
          (if b.IsProper spelling then .ok content else .error (.digest l.number.toNat)) := by
  intro o o'
  have heq : o' = o.judgedBy record.parts.toNat ⟨s', v⟩ := run_eq_judgedBy config sink hd hs hs' hxy
  refine ⟨by rw [heq]; rfl, by rw [heq]; rfl, fun why hwhy => ?_, fun report hok => ?_,
    fun hkind => ?_, fun session m content l h b spelling hc hl hb hspelling hl' =>
      Session.checkPart_respelled hl hb hspelling hl' hc⟩
  · rw [heq, Outcome.judgedBy, hwhy]
    rfl
  · obtain ⟨⟨read, hwritten, hdigest⟩, -⟩ := run_digests config sink x hd hs hok
    refine ⟨read, hwritten, hdigest, ?_⟩
    rw [heq, Outcome.judgedBy, hok]
    simp only [Except.map, DownloadReport.judgedBy, DownloadReport.verdict, hdigest,
      Digest.Entry.agrees_iff]
  · rw [heq]
    refine Eq.trans ?_ (run_judged config sink x hd hs)
    rcases hresult : o.result with why | report
    · rw [Outcome.judgedBy, Outcome.judgedBy, hresult]
      rfl
    · obtain ⟨⟨read, -, hdigest⟩, -⟩ := run_digests config sink x hd hs hresult
      have hsame := DownloadReport.judgedBy_congr (n := record.parts.toNat) (v := v) hkind
        (congrArg Digest.Entry.algorithm hdigest)
      rw [Outcome.judgedBy, Outcome.judgedBy, hresult, Except.map, Except.map, hsame]

/-- The upload of a file of one octet. -/
def oneOctet : Upload.Outcome × Exchange :=
  Upload.run .usual [0x61] ⟨none, none, none⟩ (.new default ⟨[([[0x61]], .file [7] .epoch)], none⟩)

/-- Small letters everywhere change nothing. -/
theorem run_respelled_of_small_letters : ∃ report ∈ oneOctet.1.result.toOption,
    ∃ y : Exchange, y = oneOctet.2.relabel (Headers.respelled "sha-256") ∧ y ≠ oneOctet.2 ∧
      (run .usual (report.record.respelled "sha-256") .unlimited y).1
        = (run .usual report.record .unlimited oneOctet.2).1 := by
  obtain ⟨report, hreport, v, -, hd, hne, hxy⟩ : ∃ report ∈ oneOctet.1.result.toOption,
      ∃ v ∈ report.record.digestValue, report.record.digest? = some ⟨"SHA-256", v⟩ ∧
        oneOctet.2.relabel (Headers.respelled "sha-256") ≠ oneOctet.2 ∧
        oneOctet.2.relabel Headers.spelled
          = (oneOctet.2.relabel (Headers.respelled "sha-256")).relabel Headers.spelled := by
    decide +kernel
  refine ⟨report, hreport, _, rfl, hne, ?_⟩
  exact (run_respelled .usual .unlimited hd (by decide) (by decide : Digest.Algorithm.parse?
    "sha-256" = some .sha256) hxy).2.2.2.2.1 (by decide)

/-- **Without its hyphen a name is read, but no digest agrees with it.**  Under `sha256` on record the
file that was verified has a digest that differs from itself; and under `sha256` in its header the
part that was accepted is refused until the budget is spent. -/
theorem run_misspelled : ∃ report ∈ oneOctet.1.result.toOption,
    report.record.validate = .ok () ∧ report.record.digestAlgorithm = some "SHA-256" ∧
      Digest.Algorithm.parse? "SHA-256" = some .sha256 ∧
      Digest.Algorithm.parse? "sha256" = some .sha256 ∧
      ∃ done ∈ (run .usual report.record .unlimited oneOctet.2).1.result.toOption,
        done.verification = .verified ∧
        (run .usual (report.record.respelled "sha256") .unlimited oneOctet.2).1.result.toOption
          = some { done with
              verification := .digestMismatch done.digest.value done.digest.value } ∧
        (run .usual report.record .unlimited
            (oneOctet.2.relabel (Headers.respelled "sha256"))).1.result
          = .error (.tooManyMismatches Config.usual.retryBudget.toNat 0 0) := by
  decide +kernel

end Download

end FileRelay
