import FileRelay.Proofs.Record.Text
import FileRelay.Proofs.Transfer.Publication

/-!
# Proofs/Transfer/AllOrNothing — an upload stores the record of all that it has sent, or nothing

From the look at its file to its result an upload goes on among others, who may call it off, have its
calls refused, and change the file before it is opened and before each time that it is read
(`Upload.Attempts`).  However that goes, it sends the first parts of one file, each under a label that
says where it belongs (`Upload.FirstParts`).  Only if these are all parts of the record is the record
stored (`Upload.Filed`), and nothing that can fail comes after that.
-/

namespace FileRelay

open Accepted (contents places)

/-- **A label that tells of a chunk** which file it belongs to, where it lies, and how it travels. -/
structure Label.Tells (l : Label) (config : Config) (id : String) (c : Chunk) (payload : Bytes) :
    Prop where
  fileId : l.fileId = id
  number : l.number.toNat = c.number
  start : l.start.toNat = c.start
  length : l.length.toNat = c.data.length
  digest : ∃ a, config.digest = .ok a ∧ l.digest = ⟨a.name, a.hexDigest c.data⟩
  encoding : l.encoding = config.compression
  encodedLength : l.encodedLength = config.compression.map fun _ => UInt64.ofNat payload.length
  content : decodePayload l.encoding l.length.toNat payload = .ok c.data

theorem Exchange.Meanwhile.refl {allowed : Published → Prop} (x : Exchange) :
    x.Meanwhile allowed x :=
  ⟨rfl, [], by rw [List.append_nil], fun _ h => absurd h List.not_mem_nil⟩

namespace Upload

/-- **The first parts of a file**, in a log from a place on: messages of its subject that follow one
another, each under a label that tells of the chunk of its number. -/
structure FirstParts (config : Config) (id : String) (start : Nat) (l : Log) (as : List Accepted) :
    Prop where
  row : (as.map Accepted.entry).Sublist (l.row (partSubject config.partPrefix id) start)
  told : ∀ (i : Nat) (a : Accepted), as[i]? = some a → ∃ label,
    Label.ofHeaders a.message.headers = .ok label ∧
      label.Tells config id ⟨i + 1, (contents (as.take i)).length, a.content⟩ a.message.payload

/-- **An attempt to upload a file**, from the look at it to the result, and what it has sent.  Others
may do what they like before the file is opened, between the turns and before the end, save that they
store nothing. -/
inductive Attempts (config : Config) (path : Path) (options : UploadOptions) (x : Exchange) :
    List Accepted → Except Failure UploadReport → Exchange → Prop
  | refused {why : Failure} (h : Upload.plan config path options x = .error why) :
      Attempts config path options x [] (.error why) x
  | unopened {p : UploadPlan} {why : Failure} {x' : Exchange}
      (h : Upload.plan config path options x = .ok p) (hx : x.Meanwhile (fun _ => True) x')
      (ho : openFile p x'.files = .error why) : Attempts config path options x [] (.error why) x'
  | brokenOff {p : UploadPlan} {u u' : Upload} {why : Failure} {x₀ x' : Exchange}
      {as : List Accepted} (h : Upload.plan config path options x = .ok p)
      (hx : x.Meanwhile (fun _ => True) x₀) (ho : openFile p x₀.files = .ok u)
      (hr : Sends (Exchange.Meanwhile fun _ => True) u x₀ (.broken u' why) x' as) :
      Attempts config path options x as (.error why) x'
  | finished {p : UploadPlan} {u u' u'' : Upload} {result : Except Failure UploadReport}
      {x₀ x' x'' : Exchange} {as : List Accepted}
      (h : Upload.plan config path options x = .ok p) (hx : x.Meanwhile (fun _ => True) x₀)
      (ho : openFile p x₀.files = .ok u)
      (hr : Sends (Exchange.Meanwhile fun _ => True) u x₀ (.done u') x' as)
      (hf : u'.finish x' = (result, u'', x'')) :
      Attempts config path options x (as ++ x'.added x'' []) result x''

/-- **An upload that is filed**: it has sent all parts of its record, as the record lays them out, and
the store differs in the record alone. -/
structure Filed (config : Config) (path : Path) (options : UploadOptions) (report : UploadReport)
    (x x' : Exchange) (as : List Accepted) : Prop where
  planned : ∃ p e n, Upload.plan config path options x = .ok p ∧
    report.record = { p.record.withDigest e with firstSequence := n }
  first : FirstParts config report.record.id (x.log.messages.size + 1) x'.log as
  length : as.length = report.record.parts.toNat
  fits : ∀ a ∈ as, ∃ label, Label.ofHeaders a.message.headers = .ok label ∧
    report.record.partStart? label.number = some (some label.start) ∧
    report.record.partLength? label.number = some label.length
  total : (contents as).length = report.record.length.toNat
  valid : report.record.validate = .ok ()
  digest : ∃ a, config.digest = .ok a ∧
    report.record.digest? = some ⟨a.name, a.hexDigest (contents as)⟩
  firstSequence : report.record.firstSequence.map UInt64.toNat = (places as).head?
  text : FileRecord.ofText report.record.toText = .ok report.record
  stored : ∀ k, x'.store.get? k = if k = recordKey report.record.id then some report.record.toText
    else x.store.get? k

variable {config : Config} {path : Path} {options : UploadOptions} {x x' : Exchange}
  {u u₀ : Upload} {start start' : Nat} {l : Log} {as : List Accepted} {a : Accepted} {i : Nat}
  {result : Except Failure UploadReport}

theorem FirstParts.nil (config : Config) (id : String) (start : Nat) (l : Log) :
    FirstParts config id start l [] :=
  ⟨List.nil_sublist _, fun i a h => by simp at h⟩

/-! ## Labels -/

/-- **The label of a chunk tells of it**, wherever its numbers fit a word. -/
theorem Begun.tells (hb : u.Begun config) {c : Chunk} (hpos : 0 < c.number)
    (hnumber : c.number < Word.limit) (hstart : c.start < Word.limit)
    (hlength : c.data.length < Word.limit) :
    Label.ofHeaders (u.messageOf c).headers = .ok (u.partOf c).1 ∧
      (u.partOf c).1.Tells config u.record.id c (u.messageOf c).payload := by
  obtain ⟨hid, hn, hs, hl, hdigest⟩ := u.label_partOf c
  have hdata : (u.partOf c).1.length.toNat = c.data.length := by
    rw [hl, UInt64.toNat_ofNat_of_lt' hlength]
  have hencoded : (u.partOf c).1.encoding = config.compression ∧ (u.partOf c).1.encodedLength
      = config.compression.map fun _ => UInt64.ofNat (u.partOf c).2.length := by
    have hcodec := hb.codec
    rw [Config.codec] at hcodec
    unfold partOf
    rcases he : config.compression with _ | e
    · rw [he, Option.map_none] at hcodec
      rw [hcodec]
      exact ⟨rfl, rfl⟩
    · rw [he, Option.map_some] at hcodec
      rw [hcodec]
      exact ⟨rfl, rfl⟩
  refine ⟨u.ofHeaders_partOf hpos hnumber, hid, ?_, ?_, hdata, ⟨_, hb.algorithm, hdigest⟩,
    hencoded.1, hencoded.2, u.decodePayload_partOf (Nat.le_of_eq hdata.symm)⟩
  · rw [hn, UInt64.toNat_ofNat_of_lt' hnumber]
  · rw [hs, UInt64.toNat_ofNat_of_lt' hstart]

namespace Leaves

/-- **Each message that an upload leaves** is that of its chunk, under a label that tells of it. -/
theorem told (h : u₀.Leaves start l as) (hb : u₀.Begun config) (ha : as[i]? = some a) :
    ∃ c : Chunk, c = ⟨i + 1, (contents (as.take i)).length, a.content⟩ ∧
      a.message = u₀.messageOf c ∧ Label.ofHeaders a.message.headers = .ok (u₀.partOf c).1 ∧
      (u₀.partOf c).1.Tells config u₀.record.id c a.message.payload := by
  obtain ⟨hlt, -⟩ := List.getElem?_eq_some_iff.1 ha
  -- Numbers and lengths are within what was read, which is within the length of the file.
  have hmany := h.cut.length_le
  have hwithin := h.within
  have hfits := hb.fits
  have hsplit := congrArg List.length (Accepted.contents_split ha)
  rw [List.length_append, List.length_append] at hsplit
  have hmessage := (h.cut.piece i a ha).message
  rw [← h.cut.length_take hlt] at hmessage
  refine ⟨_, rfl, hmessage, ?_⟩
  rw [hmessage]
  exact hb.tells (Nat.succ_pos i) (by simp only; omega) (by simp only; omega) (by simp only; omega)

/-- **What an upload leaves** are the first parts of its file. -/
theorem firstParts (h : u₀.Leaves start' l as) (hb : u₀.Begun config) (hs : start ≤ start') :
    FirstParts config u₀.record.id start l as where
  row := by
    rw [← hb.subject]
    refine h.row.trans ?_
    rw [Log.row_of_le hs]
    exact List.filter_sublist
  told i a ha := by
    obtain ⟨c, rfl, -, hread, htells⟩ := h.told hb ha
    exact ⟨_, hread, htells⟩

/-- **All parts of a record** lie where the record says. -/
theorem fits (h : u₀.Leaves start l as) (hb : u₀.Begun config)
    (hlength : (contents as).length = u₀.record.length.toNat)
    (hparts : as.length = u₀.record.parts.toNat) (ha : a ∈ as) : ∃ label,
      Label.ofHeaders a.message.headers = .ok label ∧
      u₀.record.partStart? label.number = some (some label.start) ∧
      u₀.record.partLength? label.number = some label.length := by
  obtain ⟨i, hi⟩ := List.getElem?_of_mem ha
  obtain ⟨hlt, -⟩ := List.getElem?_eq_some_iff.1 hi
  obtain ⟨label, hread, htells⟩ := (h.firstParts hb (Nat.le_refl _)).told i a hi
  have hn : label.number.toNat = i + 1 := htells.number
  refine ⟨label, hread, ?_, ?_⟩
  · obtain ⟨o, ho, hplace⟩ := hb.tiled.partStart?_eq label.number
    rw [ho, (hplace label.start).2 ⟨by omega, by omega, ?_⟩]
    rw [htells.start, hn, Nat.add_sub_cancel]
    exact h.cut.length_take hlt
  · refine FileRecord.partLength?_eq_some_iff.2 ⟨by omega, by omega, ?_⟩
    rw [htells.length, hn, Nat.add_sub_cancel]
    exact h.cut.length_eq_span hb.tiled hlength hparts hi

end Leaves

/-- **What an upload files that finishes** with a report. -/
theorem Publishes.filed {x₀ x'' : Exchange} {u' : Upload} {p : UploadPlan} {report : UploadReport}
    (h : u₀.Publishes u (x₀.log.messages.size + 1) x'.log as) (hb : u₀.Begun config)
    (hf : u.finish x' = (.ok report, u', x''))
    (hp : Upload.plan config path options x = .ok p) (hrecord : u₀.record = p.record)
    (hx : x.log.Grown x₀.log) (hstore : x'.store = x.store) :
    Filed config path options report x x'' as := by
  obtain ⟨hlength, hparts, hreport, -, -, -, hlog, hstored⟩ := h.finish_ok hf
  have hfinal : report.record = { u₀.record.withDigest ⟨u.algorithm.name, u.digester.value.1⟩ with
      firstSequence := u.sequences.map Prod.fst } := by
    rw [hreport, finalRecord, h.same.record]
  have hvalid := hreport ▸ h.validate_finalRecord hb
  refine ⟨⟨p, _, _, hp, hrecord ▸ hfinal⟩, ?_, ?_, fun a ha => ?_, ?_, hvalid,
    ⟨_, hb.algorithm, hreport ▸ h.digest_finalRecord⟩, hreport ▸ h.first_finalRecord,
    FileRecord.ofText_toText hvalid, fun k => hstore ▸ hstored k⟩
  · rw [hlog, hfinal]
    exact h.toLeaves.firstParts hb (Nat.succ_le_succ hx.size_le)
  · rw [hparts, hfinal]
    rfl
  · rw [hfinal]
    exact h.toLeaves.fits hb hlength hparts ha
  · rw [hlength, hfinal]
    rfl

/-- The parts on record are as long when the record is finished. -/
theorem Publishes.partLength?_finalRecord (h : u₀.Publishes u start l as) (n : UInt64) :
    u.finalRecord.partLength? n = u₀.record.partLength? n := by
  rw [← h.same.record]
  rfl

/-! ## Attempts -/

namespace Attempts

/-- **What an attempt has sent**, if anything, was left in the log by an upload that had begun with the
record that was planned; and if it gives a report, they are all parts on record. -/
theorem leaves (h : Attempts config path options x as result x') :
    (as = [] ∧ ∀ report, result ≠ .ok report) ∨
      ∃ (p : UploadPlan) (u₀ : Upload) (start : Nat),
        Upload.plan config path options x = .ok p ∧ u₀.record = p.record ∧ u₀.Begun config ∧
        u₀.Leaves start x'.log as ∧
        ∀ report, result = .ok report → (contents as).length = u₀.record.length.toNat ∧
          as.length = u₀.record.parts.toNat ∧
          ∀ n, report.record.partLength? n = u₀.record.partLength? n := by
  have hgrown : ∀ y y', Exchange.Meanwhile (fun _ => True) y y' → y.log.Grown y'.log :=
    fun _ _ => Exchange.Meanwhile.grown
  cases h with
  | refused | unopened => exact .inl ⟨rfl, fun _ he => nomatch he⟩
  | brokenOff hp hx ho hr =>
    obtain ⟨hb, hrecord⟩ := (plan_planned hp).begun ho
    exact .inr ⟨_, _, _, hp, hrecord, hb, hr.publishes hb hgrown, fun _ he => nomatch he⟩
  | finished hp hx ho hr hf =>
    obtain ⟨hb, hrecord⟩ := (plan_planned hp).begun ho
    obtain ⟨hmessages, -⟩ := finish_messages hf
    have hpublishes := hr.publishes hb hgrown
    rw [added_finish hf, List.append_nil]
    refine .inr ⟨_, _, _, hp, hrecord, hb, hpublishes.toLeaves.grow (.of_messages hmessages), ?_⟩
    rintro report rfl
    obtain ⟨hlength, hparts, hrecord, -⟩ := hpublishes.finish_ok hf
    exact ⟨hlength, hparts, fun n => hrecord ▸ hpublishes.partLength?_finalRecord n⟩

/-- An upload that gives a report has sent something. -/
theorem ne_nil {report : UploadReport} (h : Attempts config path options x as (.ok report) x') :
    as ≠ [] := by
  obtain ⟨-, hfailed⟩ | ⟨p, u₀, start, -, -, hb, -, hwhole⟩ := h.leaves
  · exact absurd rfl (hfailed report)
  · have hpos := hb.tiled.parts_pos
    rw [← (hwhole report rfl).2.1] at hpos
    exact List.ne_nil_of_length_pos hpos

/-- **An upload that others leave alone** is an attempt. -/
theorem of_run (config : Config) (path : Path) (options : UploadOptions) (x : Exchange) :
    ∃ as, Attempts config path options x as (run config path options x).1.result
      (run config path options x).2 := by
  obtain ⟨read, h⟩ := run_uploads (Exchange.Meanwhile fun _ => True) config path options x
  generalize (run config path options x).1.result = result at h
  generalize (run config path options x).2 = x' at h
  cases h with
  | refused hu =>
    rw [Upload.start] at hu
    rcases hp : Upload.plan config path options x with e | p
    all_goals rw [hp] at hu
    · obtain rfl := Except.error.inj hu
      exact ⟨[], .refused hp⟩
    · exact ⟨[], .unopened hp (.refl x) hu⟩
  | brokenOff hu hr =>
    obtain ⟨p, hp, ho⟩ := start_ok hu
    obtain ⟨as, hs, -⟩ := hr.sends
    exact ⟨as, .brokenOff hp (.refl x) ho hs⟩
  | finished hu hr hf =>
    obtain ⟨p, hp, ho⟩ := start_ok hu
    obtain ⟨as, hs, -⟩ := hr.sends
    exact ⟨_, .finished hp (.refl x) ho hs hf⟩

/-- **An upload that succeeds** where others leave it alone is an attempt that has sent something. -/
theorem exists_of_run (h : (run config path options x).1.result.toOption.isSome = true) :
    ∃ as report x', Attempts config path options x as (.ok report) x' ∧ as ≠ [] := by
  obtain ⟨as, hattempt⟩ := of_run config path options x
  rcases hresult : (run config path options x).1.result with why | report
  · rw [hresult] at h
    exact absurd h Bool.false_ne_true
  · rw [hresult] at hattempt
    exact ⟨as, report, _, hattempt, hattempt.ne_nil⟩

/-- **An upload is all or nothing.**  Whatever others do to its file, and wherever it is called off or
fails: an upload that gives a report has sent all parts of its record, and the store differs in the
record alone; and one that fails has sent the first parts of its file, if any, and stored nothing. -/
theorem all_or_nothing (h : Attempts config path options x as result x') :
    (∀ report, result = .ok report → Filed config path options report x x' as) ∧
    ∀ why, result = .error why → x'.store = x.store ∧
      (∀ e, Upload.plan config path options x = .error e → as = []) ∧
      ∀ p, Upload.plan config path options x = .ok p →
        FirstParts config p.record.id (x.log.messages.size + 1) x'.log as := by
  have hgrown : ∀ y y', Exchange.Meanwhile (fun _ => True) y y' → y.log.Grown y'.log :=
    fun _ _ => Exchange.Meanwhile.grown
  have hstore : ∀ y y', Exchange.Meanwhile (fun _ => True) y y' → y'.store = y.store :=
    fun _ _ hx => hx.1
  cases h with
  | refused hp =>
    exact ⟨fun _ he => (nomatch he),
      fun _ _ => ⟨rfl, fun _ _ => rfl, fun p hp' => by simp [hp] at hp'⟩⟩
  | unopened hp hx =>
    exact ⟨fun _ he => (nomatch he), fun _ _ => ⟨hx.1, fun _ _ => rfl, fun _ _ => .nil _ _ _ _⟩⟩
  | brokenOff hp hx ho hr =>
    obtain ⟨hb, hrecord⟩ := (plan_planned hp).begun ho
    have hleaves := hr.publishes hb hgrown
    refine ⟨fun _ he => (nomatch he), fun _ _ => ⟨(hr.store hstore).trans hx.1,
      fun e he => by simp [hp] at he, fun p' hp' => ?_⟩⟩
    obtain rfl := Except.ok.inj (hp.symm.trans hp')
    rw [← hrecord]
    exact hleaves.firstParts hb (Nat.succ_le_succ hx.grown.size_le)
  | @finished p u u' u'' _ x₀ y _ as hp hx ho hr hf =>
    obtain ⟨hb, hrecord⟩ := (plan_planned hp).begun ho
    have hpublishes := hr.publishes hb hgrown
    have hkept := (hr.store hstore).trans hx.1
    obtain ⟨hmessages, hfailed⟩ := finish_messages hf
    rw [added_finish hf, List.append_nil]
    refine ⟨fun report he => hpublishes.filed hb (he ▸ hf) hp hrecord hx.grown hkept,
      fun why he => ⟨(hfailed why he).trans hkept, fun e he => by simp [hp] at he,
        fun p' hp' => ?_⟩⟩
    obtain rfl := Except.ok.inj (hp.symm.trans hp')
    rw [← hrecord]
    exact (hpublishes.toLeaves.grow (.of_messages hmessages)).firstParts hb
      (Nat.succ_le_succ hx.grown.size_le)

/-- A file of two octets, the second of which another process changes when the first has been sent, is
filed as it was read, in two parts. -/
theorem all_or_nothing_of_changed : ∃ (config : Config) (x x' : Exchange) (as : List Accepted)
    (report : UploadReport), x.files.read [0x61] = .ok [7, 8] ∧ x'.files.read [0x61] = .ok [7, 9] ∧
      Attempts config [0x61] ⟨none, none, none⟩ x as (.ok report) x' ∧ as.length = 2 ∧
      contents as = [7, 9] ∧ Filed config [0x61] ⟨none, none, none⟩ report x x' as := by
  let config := { Config.usual with partSize := 1 }
  let before : FileTree := ⟨[([[0x61]], .file [7, 8] .epoch)], none⟩
  let after : FileTree := ⟨[([[0x61]], .file [7, 9] .epoch)], none⟩
  let x : Exchange := .new default before
  have hturns : (Upload.start config [0x61] ⟨none, none, none⟩ x).toOption.any (fun u =>
      let r₁ := u.turn x
      let x₁ := { r₁.2 with files := after }
      let r₂ := r₁.1.state.turn x₁
      let r₃ := r₂.1.state.turn r₂.2
      let r₄ := r₃.1.state.finish r₃.2
      r₁.1 = .on r₁.1.state ∧ r₂.1 = .on r₂.1.state ∧ r₃.1 = .done r₃.1.state ∧
        r₄.1.toOption.map (fun report => report.record.parts) = some 2 ∧
        r₄.2.2.files.read [0x61] = .ok [7, 9] ∧
        ((u.chunk? x).map Chunk.data).getD [] ++ ((r₁.1.state.chunk? x₁).map Chunk.data).getD []
          ++ ((r₂.1.state.chunk? r₂.2).map Chunk.data).getD [] = [7, 9]) = true := by
    decide +kernel
  have hbefore : x.files.read [0x61] = .ok [7, 8] := by decide
  clear_value x after
  rcases hstart : Upload.start config [0x61] ⟨none, none, none⟩ x with why | u
  · simp [hstart, Except.toOption] at hturns
  rw [hstart, Except.toOption, Option.any_some] at hturns
  obtain ⟨hfirst, hsecond, hlast, hreport, hafter, hread⟩ := of_decide_eq_true hturns
  obtain ⟨p, hp, ho⟩ := start_ok hstart
  -- The file changes behind the first turn, and its second octet is read only in the next one.
  have h₁ : Reaches (Exchange.Meanwhile fun _ => True) u x _ _ _ := .turn .begun
  rw [hfirst] at h₁
  have hchanged : Exchange.Meanwhile (fun _ => True) (u.turn x).2
      { (u.turn x).2 with files := after } := .refl (u.turn x).2
  have h₂ := (h₁.others hchanged).turn
  rw [hsecond] at h₂
  have h₃ := h₂.turn
  rw [hlast] at h₃
  obtain ⟨as, hsends, hcontents⟩ := h₃.sends
  generalize hfinish : Upload.finish _ _ = r at hreport hafter
  obtain ⟨result, u', x'⟩ := r
  have hattempt := Attempts.finished hp (.refl x) ho hsends hfinish
  rw [added_finish hfinish, List.append_nil] at hattempt
  rcases result with why | report
  · simp [Except.toOption] at hreport
  have hfiled := hattempt.all_or_nothing.1 report rfl
  have hparts : report.record.parts = 2 := by simpa [Except.toOption] using hreport
  exact ⟨config, x, x', as, report, hbefore, hafter, hattempt, by rw [hfiled.length, hparts]; rfl,
    Eq.trans hcontents hread, hfiled⟩

end Attempts

end Upload

end FileRelay
