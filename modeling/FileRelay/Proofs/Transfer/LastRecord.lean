import FileRelay.Proofs.Transfer.Abreast
import FileRelay.Proofs.Transfer.History

/-!
# Proofs/Transfer/LastRecord — what the record that uploads side by side leave is good for

Uploads of one file side by side send its parts under one subject, and the record that is left says
where the first part of one of them is.  Nothing tells the parts of one upload from those of another.
So the file can be downloaded if the messages from there on are its parts in order, whoever has sent
them (`InOrder`); otherwise a download comes as far as they are in order, and no retry helps it over
the message that is not the next part (`Abreast.download_last`).
-/

namespace FileRelay

open Accepted (contents places)

/-- The number of the part that a message is labelled as. -/
def Published.partNumber? (m : Published) : Option Nat :=
  match Label.ofHeaders m.headers with
  | .ok label => some label.number.toNat
  | .error _ => none

/-- A message that is a part of a file is labelled as this part. -/
theorem Published.partNumber?_of_contentAt? {m : Published} {r : FileRecord} {n : Nat}
    {content : Bytes} (ht : r.Tiled) (h : r.contentAt? n m.headers m.payload = some content) :
    m.partNumber? = some n := by
  obtain ⟨label, hlabel, hnumber, -⟩ := (FileRecord.contentAt?_eq_some_iff ht).1 h
  rw [Published.partNumber?, hlabel, ← hnumber]

/-- **Messages in order**: the first ones of a row are labelled as the parts one, two and so on. -/
def InOrder (row : List (Published × Nat)) (k : Nat) : Prop :=
  ∀ i < k, (row[i]?.bind fun e => e.1.partNumber?) = some (i + 1)

instance (row : List (Published × Nat)) (k : Nat) : Decidable (InOrder row k) :=
  inferInstanceAs (Decidable (∀ i < k, (row[i]?.bind fun e => e.1.partNumber?) = some (i + 1)))

namespace FileRecord

variable {r r' : FileRecord} {content : Bytes} {row row' : List (Published × Nat)}

/-- **A row of parts of one file**: each of its messages carries some part of it. -/
def Shows (r : FileRecord) (content : Bytes) (row : List (Published × Nat)) : Prop :=
  ∀ e ∈ row, ∃ i, r.contentAt? (i + 1) e.1.headers e.1.payload
    = some ((content.drop (i * r.partSize.toNat)).take r.partSize.toNat)

namespace Shows

theorem of_subset (h : r.Shows content row) (hrow : row' ⊆ row) : r.Shows content row' :=
  fun e he => h e (hrow he)

/-- The parts that a row begins with are slices of the file. -/
theorem slices (h : r.Shows content row) :
    Accepted.Slices content r.partSize.toNat (r.partsOf 1 row) := by
  intro i a ha
  obtain ⟨hrow, -, hpart⟩ := partsOf_getElem? ha
  obtain ⟨j, hj⟩ := h _ (List.mem_of_getElem? hrow)
  obtain rfl : i = j := by
    have := contentAt?_number hpart hj
    omega
  rw [Nat.add_comm] at hpart
  exact Option.some.inj (hpart.symm.trans hj)

/-- A message of the row carries the part that it is labelled as. -/
theorem partNumber?_iff (h : r.Shows content row) (ht : r.Tiled) {e : Published × Nat} (he : e ∈ row)
    {n : Nat} : e.1.partNumber? = some n ↔ (r.contentAt? n e.1.headers e.1.payload).isSome := by
  obtain ⟨j, hj⟩ := h e he
  have hnumber := Published.partNumber?_of_contentAt? ht hj
  constructor
  · intro hn
    obtain rfl : j + 1 = n := Option.some.inj (hnumber.symm.trans hn)
    exact Option.isSome_of_eq_some hj
  · intro hsome
    obtain ⟨c, hc⟩ := Option.isSome_iff_exists.1 hsome
    exact Published.partNumber?_of_contentAt? ht hc

/-- **As many parts are accepted as are in order.** -/
theorem inOrder_iff (h : r.Shows content row) (ht : r.Tiled) {k : Nat} :
    InOrder row k ↔ k ≤ r.parts.toNat ∧ ∀ i < k, ∃ e, row[i]? = some e ∧
      (r.contentAt? (i + 1) e.1.headers e.1.payload).isSome := by
  constructor
  · intro hin
    have hparts : ∀ i < k, ∃ e, row[i]? = some e ∧
        (r.contentAt? (i + 1) e.1.headers e.1.payload).isSome := by
      intro i hi
      obtain ⟨e, he, hnumber⟩ := Option.bind_eq_some_iff.1 (hin i hi)
      exact ⟨e, he, (h.partNumber?_iff ht (List.mem_of_getElem? he)).1 hnumber⟩
    refine ⟨?_, hparts⟩
    rcases k with _ | k
    · exact Nat.zero_le _
    · obtain ⟨e, -, hsome⟩ := hparts k (Nat.lt_succ_self k)
      obtain ⟨c, hc⟩ := Option.isSome_iff_exists.1 hsome
      exact (length_of_contentAt? ht hc).2.1
  · rintro ⟨-, hparts⟩ i hi
    obtain ⟨e, he, hsome⟩ := hparts i hi
    rw [he, Option.bind_some, h.partNumber?_iff ht (List.mem_of_getElem? he)]
    exact hsome

/-- **The parts that a row begins with** are the longest beginning in order. -/
theorem isGreatest (h : r.Shows content row) (ht : r.Tiled) :
    IsGreatest { k | InOrder row k } (r.partsOf 1 row).length := by
  have hset : { k | InOrder row k } = { k | k ≤ r.parts.toNat ∧ ∀ i < k, ∃ e, row[i]? = some e ∧
      (r.contentAt? (i + 1) e.1.headers e.1.payload).isSome } :=
    Set.ext fun k => h.inOrder_iff ht
  rw [hset]
  exact partsOf_greatest ht row

end Shows

/-- **Records that are laid out alike** have the same parts. -/
theorem contentAt?_congr (hid : r'.id = r.id) (hparts : r'.parts = r.parts)
    (hsize : r'.partSize = r.partSize) (hlast : r'.lastPartSize = r.lastPartSize) (n : Nat)
    (headers : Headers) (payload : Bytes) :
    r'.contentAt? n headers payload = r.contentAt? n headers payload := by
  obtain ⟨id, name, description, contentType, length, parts, partSize, last, date, a, v, first⟩ := r
  obtain ⟨id', name', description', contentType', length', parts', partSize', last', date', a', v',
    first'⟩ := r'
  obtain rfl : id' = id := hid
  obtain rfl : parts' = parts := hparts
  obtain rfl : partSize' = partSize := hsize
  obtain rfl : last' = last := hlast
  rfl

/-- Records of files of one length that are cut alike are laid out alike. -/
theorem layout_congr (hv : r.validate = .ok ()) (hv' : r'.validate = .ok ())
    (hlength : r'.length.toNat = r.length.toNat) (hsize : r'.partSize = r.partSize) :
    r'.parts = r.parts ∧ r'.lastPartSize = r.lastPartSize := by
  have hl := (validate_eq_ok_iff.1 hv).2.1
  have hl' := (validate_eq_ok_iff.1 hv').2.1
  rw [UInt64.toNat_inj.1 hlength, hsize, hl] at hl'
  exact ⟨(congrArg Prod.fst (Except.ok.inj hl')).symm, (congrArg Prod.snd (Except.ok.inj hl')).symm⟩

end FileRecord

/-- **A download that goes as far as the messages are in order.**  If all parts are, it verifies the
file; otherwise it writes the parts that are, which are some, and gives up when its budget is spent. -/
structure Download.Outcome.GoesInOrder (o : Download.Outcome) (budget : Nat) (before : Bytes)
    (content : Bytes) (size parts : Nat) (row : List (Published × Nat)) : Prop where
  verifies : InOrder row parts → ∃ done, o.result = .ok done ∧ done.verification = .verified ∧
    done.recoveries = 0 ∧ o.sink.written = before ++ content
  givesUp : ¬ InOrder row parts → ∃ k, 0 < k ∧ k < parts ∧ IsGreatest { k | InOrder row k } k ∧
    o.result = .error (.tooManyMismatches budget k (content.take (k * size)).length) ∧
    o.sink.written = before ++ content.take (k * size)

/-- **A download of a row of parts** goes as far as they are in order, where the row begins with the
first part and has messages enough. -/
theorem Download.goesInOrder {t : DownloadTask} {config : Config} {record : FileRecord} {sink : Sink}
    {x : Exchange} {content : Bytes} (ht : DownloadTask.of config record = .ok t)
    (hv : record.validate = .ok ()) (hx : x.Undisturbed) (hk : sink.Reliable)
    (hshows : record.Shows content (x.log.row t.subject t.origin.first))
    (hone : InOrder (x.log.row t.subject t.origin.first) 1)
    (hmany : record.parts.toNat ≤ (x.log.row t.subject t.origin.first).length)
    (hlength : record.length.toNat = content.length)
    (hdigest : Digest.Entry.agrees ⟨t.algorithm.name, t.algorithm.hexDigest content⟩ t.expected
      = true) :
    (run config record sink x).1.GoesInOrder config.retryBudget.toNat sink.written content
      record.partSize.toNat record.parts.toNat (x.log.row t.subject t.origin.first) := by
  have htiled := FileRecord.tiled_of_validate hv
  obtain ⟨hresult, hwritten⟩ := run_plain ht hv hx hk
  obtain ⟨-, rfl, rfl, -⟩ := DownloadTask.of_eq_ok_iff.1 ht
  generalize x.log.row t.subject t.origin.first = row at hshows hone hmany hresult hwritten ⊢
  have hgreatest := hshows.isGreatest htiled
  have hcontents := hshows.slices.contents_eq
  have hle : (t.record.partsOf 1 row).length ≤ t.parts :=
    (FileRecord.partsOf_parts _ _).length_le htiled
  rw [hcontents] at hwritten
  constructor
  · intro hin
    have hall : (t.record.partsOf 1 row).length = t.parts :=
      Nat.le_antisymm hle (hgreatest.2 hin)
    have hwhole : content.take ((t.record.partsOf 1 row).length * t.record.partSize.toNat)
        = content := by
      refine List.take_of_length_le ?_
      rw [hall, ← hlength]
      exact htiled.length_le
    rw [hwhole] at hcontents hwritten
    rw [DownloadTask.plain, if_neg (fun hlt => Nat.ne_of_lt hlt.1 hall)] at hresult
    refine ⟨_, hresult, ?_, rfl, hwritten⟩
    simp only [DownloadTask.reportOf, DownloadTask.verdict, hall, Nat.lt_irrefl, ↓reduceIte,
      hcontents, hdigest]
  · intro hout
    have hlt : (t.record.partsOf 1 row).length < t.parts := by
      refine Nat.lt_of_le_of_ne hle fun hall => hout ?_
      have hin : InOrder row (t.record.partsOf 1 row).length := hgreatest.1
      rwa [hall] at hin
    rw [DownloadTask.plain, if_pos ⟨hlt, Nat.lt_of_lt_of_le hlt hmany⟩, hcontents] at hresult
    exact ⟨_, hgreatest.2 hone, hlt, hgreatest, hresult, hwritten⟩

namespace Upload

section Issued

variable {config : Config} {report : UploadReport} {start : Nat} {l : Log} {as : List Accepted}

/-- A part that was issued is labelled as this part. -/
theorem Issued.partNumber? (h : Issued config report start l as) (hs : l.Sized) {i : Nat}
    {a : Accepted} (ha : as[i]? = some a) : a.message.partNumber? = some (i + 1) := by
  have hpart := (h.parts hs i a ha).content
  rw [h.whole a (List.mem_of_getElem? ha)] at hpart
  exact Published.partNumber?_of_contentAt? (FileRecord.tiled_of_validate h.valid) hpart

/-- **An upload whose parts stand alone** leaves them in order. -/
theorem Issued.inOrder (h : Issued config report start l as) (halone : report.Alone l)
    (hs : l.Sized) :
    InOrder (l.row report.subject report.firstSequence) report.record.parts.toNat := by
  obtain ⟨rest, hrest⟩ := h.begins halone
  intro i hi
  rw [← h.length] at hi
  have hentry : (l.row report.subject report.firstSequence)[i]? = some as[i].entry := by
    rw [← hrest, List.getElem?_append_left (by simpa using hi)]
    simp [hi]
  rw [hentry]
  exact h.partNumber? hs (List.getElem?_eq_getElem hi)

/-- **The first part** stands where the record says. -/
theorem Issued.inOrder_one (h : Issued config report start l as) (hs : l.Sized) :
    InOrder (l.row report.subject report.firstSequence) 1 := by
  obtain ⟨a, ha, hplace⟩ : ∃ a, as[0]? = some a ∧ a.place = report.firstSequence := by
    have hfirst := h.first
    rw [List.head?_eq_getElem?, places, List.getElem?_map] at hfirst
    exact Option.map_eq_some_iff.1 hfirst
  have hmem : a.entry ∈ l.row report.subject report.firstSequence :=
    List.filter_sublist.subset (h.sublist.subset (List.mem_map_of_mem (List.mem_of_getElem? ha)))
  -- The row begins at this place, so nothing stands before it.
  obtain ⟨before, after, hrow⟩ := List.append_of_mem hmem
  obtain ⟨-, hbefore, -⟩ := Log.row_around hrow
  have hnone : before = [] := List.eq_nil_iff_forall_not_mem.2 fun e he => by
    have hin : e ∈ l.row report.subject report.firstSequence := by simp [hrow, he]
    have hlater := (Log.mem_row_iff.1 hin).1
    have hearlier := hbefore e he
    simp only [Accepted.entry, hplace] at hearlier
    omega
  intro i hi
  obtain rfl : i = 0 := by omega
  rw [hrow, hnone, List.nil_append, List.getElem?_cons_zero]
  exact h.partNumber? hs ha

end Issued

section Last

variable {ι : Type} {config config' : Config} {f : Original} {subject id : String} {start : Nat}
  {x x₀ y : Exchange} {reports : ι → UploadReport} {sent : ι → List Accepted} {sink : Sink} {i : ι}

namespace Account

/-- What was reported was issued. -/
theorem issued (h : Account config f subject start (fun i => .over (.ok (reports i))) x sent)
    (i : ι) : Issued config (reports i) start x.log (sent i) ∧
      Accepted.Slices f.content config.partSize.toNat (sent i) ∧ contents (sent i) = f.content ∧
      (reports i).record.partSize = config.partSize := by
  have hsent := h.each i
  cases hsent with
  | stored hi hs hc hsize => exact ⟨hi, hs, hc, hsize⟩

/-- **Whatever stands under the subject** is a part of the file, also by the record of another. -/
theorem shows (h : Account config f subject start (fun i => .over (.ok (reports i))) x sent)
    (hid : ∀ i, (reports i).record.id = id) (hs : x.log.Sized) (j : ι) :
    (reports j).record.Shows f.content (x.log.row subject start) := by
  intro e he
  obtain ⟨i, hi⟩ := h.covered e he
  obtain ⟨a, ha, rfl⟩ := List.mem_map.1 hi
  obtain ⟨k, hk⟩ := List.getElem?_of_mem ha
  obtain ⟨hissued, hslices, hcontents, hsize⟩ := h.issued i
  obtain ⟨hissued', -, hcontents', hsize'⟩ := h.issued j
  have hlength : (reports j).record.length.toNat = (reports i).record.length.toNat := by
    rw [← hissued.length_contents hs, ← hissued'.length_contents hs, hcontents, hcontents']
  obtain ⟨hparts, hlast⟩ := FileRecord.layout_congr hissued.valid hissued'.valid hlength
    (hsize'.trans hsize.symm)
  have hcontent := (hissued.parts hs k a hk).content
  rw [hissued.whole a ha, hslices k a hk] at hcontent
  refine ⟨k, ?_⟩
  rw [FileRecord.contentAt?_congr ((hid j).trans (hid i).symm) hparts (hsize'.trans hsize.symm) hlast,
    hsize']
  exact hcontent

/-- **A download of what one of them reported** goes as far as the messages are in order, if the store
has its record. -/
theorem download (h : Account config f (partSubject config.partPrefix id) start
      (fun i => .over (.ok (reports i))) x sent)
    (hid : ∀ i, (reports i).record.id = id) (hconfig : config'.validate = .ok ())
    (hconfigs : config'.partPrefix = config.partPrefix) (hk : sink.Reliable)
    (hget : y.store.get? (recordKey id) = some (reports i).record.toText)
    (hm : y.log.messages = x.log.messages) (hy : y.Undisturbed) (hs : y.log.Sized) :
    (Download.runById config' id sink y).1.GoesInOrder config'.retryBudget.toNat sink.written
      f.content config.partSize.toNat (reports i).record.parts.toNat
      (y.log.row (partSubject config.partPrefix id) (reports i).firstSequence) := by
  have hsized : x.log.Sized := fun m hmem => hs m (hm ▸ hmem)
  obtain ⟨hissued, -, hcontents, hsize⟩ := h.issued i
  obtain ⟨t, ht⟩ := hissued.task hconfig
  obtain ⟨z, hcounted, hrun⟩ := Download.runById_eq hget hissued.valid hissued.isComplete hy.rules
  have hsubject : (reports i).subject = partSubject config.partPrefix id := by
    rw [hissued.subject, hid]
  have hrow : z.log.row t.subject t.origin.first
      = x.log.row (reports i).subject (reports i).firstSequence := by
    rw [hissued.subject_eq ht hconfigs, hissued.origin_eq ht,
      Log.row_congr (hcounted.messages.trans hm)]
  have hshows : (reports i).record.Shows f.content (z.log.row t.subject t.origin.first) := by
    rw [hrow, Log.row_of_le hissued.bounds.1, hsubject]
    exact (h.shows hid hsized i).of_subset List.filter_sublist.subset
  have hlength : (reports i).record.length.toNat = f.content.length := by
    rw [← hissued.length_contents hsized, hcontents]
  have hgoes := Download.goesInOrder ht hissued.valid (hy.counted hcounted) hk hshows
    (hrow ▸ hissued.inOrder_one hsized) (hrow ▸ hissued.parts_le) hlength
    (hcontents ▸ hissued.agrees ht)
  rwa [hrow, hsize, hsubject, ← Log.row_congr hm, ← hrun] at hgoes

end Account

variable [DecidableEq ι] {options : ι → UploadOptions}

/-- **The record that uploads side by side leave.**  However their steps are mixed: if all have given
reports, then the store has the record of one of them, and an undisturbed download of the file goes as
far as the messages under the subject from the first place on record on are its parts in order,
whoever has sent them.  They are if the parts of the upload that is on record stand alone. -/
theorem Abreast.download_last [Nonempty ι]
    (h : Abreast config f options (partSubject config.partPrefix id) x₀
      (fun i => .over (.ok (reports i))) x)
    (hid : ∀ i, (reports i).record.id = id) :
    ∃ i first, x.store.get? (recordKey id) = some (reports i).record.toText ∧
      (reports i).record.firstSequence.map UInt64.toNat = some first ∧
      ((reports i).Alone x.log → x.log.Sized →
        InOrder (x.log.row (partSubject config.partPrefix id) first)
          (reports i).record.parts.toNat) ∧
      ∀ (config' : Config) (sink : Sink) (y : Exchange), config'.validate = .ok () →
        config'.partPrefix = config.partPrefix → sink.Reliable → y.store = x.store →
        y.log.messages = x.log.messages → y.Undisturbed → y.log.Sized →
        (Download.runById config' id sink y).1.GoesInOrder config'.retryBudget.toNat sink.written
          f.content config.partSize.toNat (reports i).record.parts.toNat
          (y.log.row (partSubject config.partPrefix id) first) := by
  obtain ⟨sent, haccount⟩ := h.account
  obtain ⟨i₀⟩ := ‹Nonempty ι›
  obtain ⟨i, report, hover, -, hget⟩ := haccount.last i₀ (reports i₀) rfl
  simp only [Stage.over.injEq, Except.ok.injEq] at hover
  obtain rfl := hover
  rw [hid] at hget
  obtain ⟨hissued, -⟩ := haccount.issued i
  refine ⟨i, (reports i).firstSequence, hget, hissued.firstSequence.trans hissued.first, ?_, ?_⟩
  · intro halone hs
    rw [← hid i, ← hissued.subject]
    exact hissued.inOrder halone hs
  · intro config' sink y hconfig hconfigs hk hstore hm hy hs
    exact haccount.download hid hconfig hconfigs hk (hstore ▸ hget) hm hy hs

/-- Two uploads of a file of two octets, in parts of one octet, that go on as a list says. -/
def twoOctets (turns : List Bool) : (Bool → Stage) × Exchange :=
  inTurn { Config.usual with partSize := 1 } [0x61] (fun _ => ⟨none, none, none⟩) turns
    (fun _ => .asked) (.new default ⟨[([[0x61]], .file [7, 8] .epoch)], none⟩)

/-- Both have reported. -/
theorem twoOctets_abreast {turns : List Bool} {r : (Bool → Stage) × Exchange} {a b : UploadReport}
    (hr : twoOctets turns = r) (ha : (r.1 false).report? = some a)
    (hb : (r.1 true).report? = some b) (subject : String) :
    Abreast { Config.usual with partSize := 1 } ⟨[0x61], [7, 8], .epoch⟩
      (fun _ : Bool => ⟨none, none, none⟩) subject
      (.new default ⟨[([[0x61]], .file [7, 8] .epoch)], none⟩)
      (fun i => .over (.ok (bif i then b else a))) r.2 := by
  have hfile : Original.IsIn ⟨[0x61], [7, 8], .epoch⟩
      (.new default ⟨[([[0x61]], .file [7, 8] .epoch)], none⟩) := rfl
  have hstages : r.1 = fun i => .over (.ok (bif i then b else a)) :=
    funext (Bool.rec (Stage.eq_over_of_report? ha) (Stage.eq_over_of_report? hb))
  rw [← hstages, ← hr]
  exact Abreast.inTurn (.begun hfile) rfl turns

/-- **Nothing disturbs a download** of what two such uploads have sent. -/
theorem twoOctets_undisturbed {r : (Bool → Stage) × Exchange}
    (h : r.2.interference.rules = [] ∧ r.2.time.agenda = [] ∧ r.2.time.calledOff = false ∧
      r.2.log.faults = [] ∧ r.2.log.options.idleHeartbeatMs ≠ some 0 ∧ r.2.log.waiting = [] ∧
      r.2.log.messages.size + 1 < Word.limit) : r.2.Undisturbed := by
  obtain ⟨hrules, hagenda, hoff, hfaults, hbeat, hwaiting, hfits⟩ := h
  exact ⟨⟨hrules, hagenda, hoff⟩, hfaults, hbeat, ⟨fun n hn => by simp [hwaiting] at hn, hfits⟩⟩

/-- **Uploads side by side can spoil each other.**  Two uploads of a file of two octets send their parts
in turn, and the one that was first with its first part stores its record last.  Both give a report,
but whoever then asks for the file gets one octet of it, however often he retries. -/
theorem Abreast.spoiled : ∃ (reports : Bool → UploadReport) (id : String) (x : Exchange),
    Abreast { Config.usual with partSize := 1 } ⟨[0x61], [7, 8], .epoch⟩
        (fun _ : Bool => ⟨none, none, none⟩) (partSubject Config.usual.partPrefix id)
        (.new default ⟨[([[0x61]], .file [7, 8] .epoch)], none⟩)
        (fun i => .over (.ok (reports i))) x ∧
      (∀ i, (reports i).record.id = id) ∧ x.Undisturbed ∧
      ∀ config : Config, config.validate = .ok () →
        config.partPrefix = Config.usual.partPrefix →
        (Download.runById config id .unlimited x).1.result
            = .error (.tooManyMismatches config.retryBudget.toNat 1 1) ∧
          (Download.runById config id .unlimited x).1.sink.written = [7] := by
  obtain ⟨r, hr⟩ : ∃ r, twoOctets [false, false, true, true, false, true, false, true, true, true,
      false, false] = r := ⟨_, rfl⟩
  have hundisturbed : r.2.Undisturbed := twoOctets_undisturbed (by subst hr; decide +kernel)
  have hsized : r.2.log.Sized := by
    unfold Log.Sized
    subst hr
    decide +kernel
  obtain ⟨a, ha, b, hb, hsame, hparts, hget, hout⟩ : ∃ a ∈ (r.1 false).report?,
      ∃ b ∈ (r.1 true).report?, b.record.id = a.record.id ∧ a.record.parts = 2 ∧
        r.2.store.get? (recordKey a.record.id) = some a.record.toText ∧
        ¬ InOrder (r.2.log.row (partSubject Config.usual.partPrefix a.record.id) a.firstSequence)
          2 := by
    subst hr
    decide +kernel
  have habreast := twoOctets_abreast hr ha hb (partSubject Config.usual.partPrefix a.record.id)
  have hid : ∀ i, (bif i then b else a).record.id = a.record.id := Bool.rec rfl hsame
  refine ⟨fun i => bif i then b else a, a.record.id, r.2, habreast, hid, hundisturbed, ?_⟩
  intro config hconfig hconfigs
  obtain ⟨sent, haccount⟩ := habreast.account
  have hreliable : Sink.unlimited.Reliable := ⟨rfl, rfl, by decide⟩
  have hgoes := haccount.download (i := false) hid hconfig hconfigs hreliable hget rfl hundisturbed
    hsized
  simp only [cond_false, hparts] at hgoes
  obtain ⟨k, hpos, hlt, -, hresult, hwritten⟩ := hgoes.givesUp hout
  have hlt : k < 2 := hlt
  obtain rfl : k = 1 := by omega
  exact ⟨hresult, hwritten⟩

/-- If the other one stores its record last, then the parts stand in order from its first part on, though
the second of them is not its own. -/
theorem Abreast.download_last_of_two : ∃ (reports : Bool → UploadReport) (id : String)
    (x : Exchange) (done : DownloadReport),
    Abreast { Config.usual with partSize := 1 } ⟨[0x61], [7, 8], .epoch⟩
        (fun _ : Bool => ⟨none, none, none⟩) (partSubject Config.usual.partPrefix id)
        (.new default ⟨[([[0x61]], .file [7, 8] .epoch)], none⟩)
        (fun i => .over (.ok (reports i))) x ∧
      (∀ i, (reports i).record.id = id) ∧ x.log.messages.size = 4 ∧
      (Download.runById { Config.usual with retryBudget := 0 } id .unlimited x).1.result = .ok done ∧
      done.verification = .verified ∧
      (Download.runById { Config.usual with retryBudget := 0 } id .unlimited x).1.sink.written
        = [7, 8] := by
  obtain ⟨r, hr⟩ : ∃ r, twoOctets [false, false, true, true, false, true, false, true, false, false,
      true, true] = r := ⟨_, rfl⟩
  have hundisturbed : r.2.Undisturbed := twoOctets_undisturbed (by subst hr; decide +kernel)
  have hsized : r.2.log.messages.size = 4 ∧ r.2.log.Sized := by
    unfold Log.Sized
    subst hr
    decide +kernel
  obtain ⟨a, ha, b, hb, hsame, hparts, hfirst, hother, hin⟩ : ∃ a ∈ (r.1 false).report?,
      ∃ b ∈ (r.1 true).report?, b.record.id = a.record.id ∧ b.record.parts = 2 ∧
        b.record.firstSequence = some 2 ∧
        r.2.store.get? (recordKey a.record.id) ≠ some a.record.toText ∧
        InOrder (r.2.log.row (partSubject Config.usual.partPrefix a.record.id) 2) 2 := by
    subst hr
    decide +kernel
  have habreast := twoOctets_abreast hr ha hb (partSubject Config.usual.partPrefix a.record.id)
  have hid : ∀ i, (bif i then b else a).record.id = a.record.id := Bool.rec rfl hsame
  obtain ⟨i, first, hget, hplace, -, hdownload⟩ := Abreast.download_last habreast hid
  rcases i with _ | _
  · exact absurd hget hother
  simp only [cond_true] at hplace hdownload
  obtain rfl : 2 = first := by simpa [hfirst] using hplace
  have hgoes := hdownload { Config.usual with retryBudget := 0 } .unlimited r.2 (by decide) rfl
    ⟨rfl, rfl, by decide⟩ rfl rfl hundisturbed hsized.2
  rw [hparts] at hgoes
  obtain ⟨done, hdone, hverified, -, hwritten⟩ := hgoes.verifies hin
  exact ⟨_, _, r.2, done, habreast, hid, hsized.1, hdone, hverified, hwritten⟩

end Last

end Upload

end FileRelay
