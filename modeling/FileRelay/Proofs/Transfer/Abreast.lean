import FileRelay.Proofs.Transfer.Issued
import Mathlib.Logic.Function.Iterate

/-!
# Proofs/Transfer/Abreast — uploads of one file side by side

An upload does one thing after another: it looks at its file, opens it, takes its turns and ends
(`Upload.Stage.next`), and left alone it comes to what `Upload.run` says (`Stage.iterate_step`).  Any
number of uploads of one file may do so in any order in one exchange, and others besides, as long as
the file stays as it is (`Upload.Abreast`).  Each sends slices of the file (`Stage.Sent`), and what
stands under the subject was sent by one of them (`Abreast.account`).
-/

namespace FileRelay

open Accepted (contents places)

/-- **Pieces of a file**: the contents are slices of one size that lie one behind the other. -/
def Accepted.Slices (content : Bytes) (size : Nat) (as : List Accepted) : Prop :=
  ∀ (i : Nat) (a : Accepted), as[i]? = some a → a.content = (content.drop (i * size)).take size

namespace Accepted.Slices

variable {content : Bytes} {size : Nat} {as : List Accepted} {a : Accepted}

theorem nil (content : Bytes) (size : Nat) : Slices content size [] := fun i a h => by simp at h

theorem append (h : Slices content size as)
    (ha : a.content = (content.drop (as.length * size)).take size) :
    Slices content size (as ++ [a]) := by
  intro i b hb
  rcases Accepted.getElem?_concat hb with hb | ⟨rfl, rfl⟩
  · exact h i b hb
  · exact ha

/-- **Slices from the first on** are a beginning of the file. -/
theorem contents_eq (h : Slices content size as) :
    contents as = content.take (as.length * size) := by
  induction as using List.reverseRecOn with
  | nil => simp [contents]
  | append_singleton as a ih =>
    have hbefore : Slices content size as := fun i b hb => h i b (by
      rw [List.getElem?_append_left (List.getElem?_eq_some_iff.1 hb).1, hb])
    have hlast := h as.length a (by simp)
    rw [contents_append, ih hbefore, hlast, List.length_append, List.length_singleton,
      Nat.add_mul, Nat.one_mul, List.take_add]

end Accepted.Slices

namespace Upload

/-! ## One thing after another -/

/-- **How far an upload has come.** -/
inductive Stage where
  | asked
  | planned (p : UploadPlan)
  | going (r : Turn Upload)
  | over (result : Except Failure UploadReport)

namespace Stage

variable {config : Config} {path : Path} {options : UploadOptions} {x x' : Exchange}
  {s s' : Stage}

/-- What an upload has reported, if it is over and has not failed. -/
def report? : Stage → Option UploadReport
  | .over (.ok report) => some report
  | _ => none

theorem eq_over_of_report? {report : UploadReport} (h : s.report? = some report) :
    s = .over (.ok report) := by
  rcases s with _ | p | r | (why | report')
  all_goals simp [report?] at h
  rw [h]

/-- **The next thing that an upload does.** -/
def next (config : Config) (path : Path) (options : UploadOptions) :
    Stage → Exchange → Stage × Exchange
  | .asked, x =>
    match plan config path options x with
    | .error why => (.over (.error why), x)
    | .ok p => (.planned p, x)
  | .planned p, x =>
    match openFile p x.files with
    | .error why => (.over (.error why), x)
    | .ok u => (.going (.on u), x)
  | .going (.on u), x => (.going (u.turn x).1, (u.turn x).2)
  | .going (.done u), x => (.over (u.finish x).1, (u.finish x).2.2)
  | .going (.broken _ why), x => (.over (.error why), x)
  | .over result, x => (.over result, x)

/-- Without rules a turn touches no file. -/
theorem turn_files (u : Upload) (hr : x.interference.rules = []) :
    (u.turn x).2.files = x.files ∧ (u.turn x).2.interference.rules = [] := by
  rw [turn]
  split
  · exact ⟨rfl, hr⟩
  split
  · exact ⟨rfl, hr⟩
  dsimp only
  split
  · exact ⟨rfl, hr⟩
  rw [publish]
  dsimp only
  split
  all_goals rename_i hp; have hfiles := Exchange.publish_files hr hp
  · exact hfiles
  · split <;> exact hfiles

/-- Without rules the end of an upload touches no file. -/
theorem finish_files (u : Upload) (hr : x.interference.rules = []) :
    (u.finish x).2.2.files = x.files ∧ (u.finish x).2.2.interference.rules = [] := by
  rw [finish]
  split
  · exact ⟨rfl, hr⟩
  dsimp only
  split
  all_goals rename_i hp; exact Exchange.put_files hr hp

/-- **Where no rule interferes, an upload touches no file.** -/
theorem next_files (config : Config) (path : Path) (options : UploadOptions) (s : Stage)
    (hr : x.interference.rules = []) :
    (s.next config path options x).2.files = x.files ∧
      (s.next config path options x).2.interference.rules = [] := by
  rcases s with _ | p | (u | u | ⟨u, why⟩) | result
  · rw [next]
    split <;> exact ⟨rfl, hr⟩
  · rw [next]
    split <;> exact ⟨rfl, hr⟩
  · exact turn_files u hr
  · exact finish_files u hr
  · exact ⟨rfl, hr⟩
  · exact ⟨rfl, hr⟩

/-- An upload and its exchange, one thing further. -/
def step (config : Config) (path : Path) (options : UploadOptions) (y : Stage × Exchange) :
    Stage × Exchange := y.1.next config path options y.2

/-- A row of turns is taken one by one. -/
theorem iterate_turns (config : Config) (path : Path) (options : UploadOptions) (k : Nat)
    (u : Upload) (x : Exchange) :
    ∃ n, (step config path options)^[n] (.going (.on u), x)
      = (.going (Turn.takeTurns Upload.turn k u x).1, (Turn.takeTurns Upload.turn k u x).2) := by
  induction k generalizing u x with
  | zero => exact ⟨0, rfl⟩
  | succ k ih =>
    rcases hturn : u.turn x with ⟨u' | u' | ⟨u', why⟩, x'⟩
    · obtain ⟨n, hn⟩ := ih u' x'
      refine ⟨n + 1, ?_⟩
      rw [Function.iterate_succ_apply, Turn.takeTurns, hturn]
      simpa only [step, next, hturn] using hn
    all_goals exact ⟨1, by simp only [Function.iterate_one, step, next, Turn.takeTurns, hturn]⟩

/-- **An upload that is left alone** comes to what it comes to as a whole. -/
theorem iterate_step (config : Config) (path : Path) (options : UploadOptions) (x : Exchange) :
    ∃ n, (step config path options)^[n] (.asked, x)
      = (.over (run config path options x).1.result, (run config path options x).2) := by
  rcases hp : plan config path options x with why | p
  · refine ⟨1, ?_⟩
    have hstart : Upload.start config path options x = .error why := by
      rw [Upload.start, hp]
      rfl
    simp only [Function.iterate_one, step, next, hp, run, hstart, failed]
  have hstart : Upload.start config path options x = openFile p x.files := by
    rw [Upload.start, hp]
    rfl
  rcases ho : openFile p x.files with why | u
  · refine ⟨2, ?_⟩
    simp only [Function.iterate_succ_apply, Function.iterate_zero, id_eq, step, next, hp, ho, run,
      hstart, failed]
  -- Planned and opened, the upload takes all its turns, and what is left is the end.
  obtain ⟨n, hn⟩ := iterate_turns config path options u.patience u x
  have hbegun : (step config path options)^[n + 2] (.asked, x)
      = (.going (Turn.takeTurns Upload.turn u.patience u x).1,
          (Turn.takeTurns Upload.turn u.patience u x).2) := by
    rw [Function.iterate_add_apply, ← hn]
    simp only [Function.iterate_succ_apply, Function.iterate_zero, id_eq, step, next, hp, ho]
  have hends := u.takeTurns_patience x
  refine ⟨n + 2 + 1, ?_⟩
  rw [Function.iterate_succ_apply', hbegun]
  simp only [run, hstart, ho, complete]
  rcases hturns : Turn.takeTurns Upload.turn u.patience u x with ⟨u' | u' | ⟨u', why⟩, x'⟩
  · rw [hturns] at hends
    exact hends.elim
  · rcases hf : u'.finish x' with ⟨why | report, u'', x''⟩
    all_goals simp only [step, next, hf, failed]
  · simp only [step, next, failed]

end Stage

/-! ## An upload of a file that stays as it is -/

/-- **A file to upload**, with its content and the time of its last change. -/
structure Original where
  path : Path
  content : Bytes
  modified : Calendar.Instant

/-- **The file is as it was.** -/
def Original.IsIn (f : Original) (x : Exchange) : Prop :=
  x.files.stat f.path = .ok (.file f.content f.modified)

theorem Original.IsIn.read {f : Original} {x : Exchange} (h : f.IsIn x) :
    x.files.read f.path = .ok f.content := by
  rw [FileTree.read, h]
  rfl

/-- **An upload that was opened** when its file was as it is. -/
structure Opened (u : Upload) (config : Config) (f : Original) : Prop where
  begun : u.Begun config
  path : u.path = f.path
  partSize : u.record.partSize = config.partSize
  length : u.record.length.toNat = f.content.length
  fileSize : u.reader.fileSize = f.content.length

variable {config : Config} {f : Original} {options : UploadOptions} {x x' : Exchange}
  {u u₀ : Upload} {p : UploadPlan} {start : Nat} {l l' : Log} {as : List Accepted}

/-- A look finds the file as it is. -/
theorem Original.IsIn.inspect {source : Source} (hfile : f.IsIn x)
    (h : Source.inspect x.files f.path = .ok source) :
    source.path = f.path ∧ source.length = f.content.length := by
  rw [Source.inspect, hfile] at h
  dsimp only at h
  split at h
  · simp at h
  split at h
  · simp at h
  · rw [← Except.ok.inj h]
    exact ⟨rfl, rfl⟩

/-- A plan is one of the file as it is. -/
theorem Original.IsIn.plan (hfile : f.IsIn x) (h : Upload.plan config f.path options x = .ok p) :
    p.source.path = f.path ∧ p.record.length.toNat = f.content.length := by
  obtain ⟨-, -, hsource, -, hrecord⟩ := plan_ok h
  obtain ⟨hpath, hlength⟩ := hfile.inspect hsource
  exact ⟨hpath, (recordOf_ok hrecord).1.trans hlength⟩

/-- **What is opened while the file stays** is as long as the plan says. -/
theorem Planned.opened (h : Planned p config) (hpath : p.source.path = f.path)
    (hlength : p.record.length.toNat = f.content.length) (hfile : f.IsIn x)
    (ho : openFile p x.files = .ok u) : u.Opened config f := by
  obtain ⟨hbegun, hrecord⟩ := h.begun ho
  rw [openFile, hpath, hfile.read] at ho
  dsimp only at ho
  split at ho
  · simp at ho
  rename_i length hword
  obtain rfl := (Except.ok.inj ho).symm
  refine ⟨hbegun, hpath, ?_, hlength, ?_⟩
  · rw [hrecord, h.partSize]
  · have hfileSize : (of p length.toNat).reader.fileSize = length.toNat := rfl
    rw [hfileSize, Word.ofNat?_eq_some_iff.1 hword]

/-- **The chunk that a turn reads** is the next slice of the file. -/
theorem Publishes.slice (h : u₀.Publishes u start l as) (ho : u₀.Opened config f)
    (hfile : f.IsIn x) {c : Chunk} {reader : ChunkReader} (hc : u.chunk? x = some c)
    (hr : u.reader.Advances c reader) :
    c.data = (f.content.drop (as.length * config.partSize.toNat)).take config.partSize.toNat := by
  have hsize : u.reader.partSize = config.partSize.toNat := by rw [h.partSize, ho.partSize]
  have hoffset : u.reader.offset = as.length * config.partSize.toNat := by
    rw [h.offset, length_contents_of_full (h.full hr.fresh hr.before), ho.partSize]
  have hdata : c.data = (f.content.drop u.reader.offset).take u.reader.want := by
    rw [chunk?, h.same.path, ho.path, hfile.read] at hc
    split at hc
    · simp at hc
    · exact ChunkReader.data_of_next (Prod.ext hc rfl)
  -- What is left of the file is no more than what is left of its length.
  rw [hdata, hoffset, ChunkReader.want, hsize, ChunkReader.remaining, hoffset, h.fileSize,
    ho.fileSize, List.take_eq_take_iff, List.length_drop]
  omega

/-- **A turn sends the next slice**, or nothing. -/
theorem Publishes.slices (h : u₀.Publishes u start x.log as) (ho : u₀.Opened config f)
    (hfile : f.IsIn x) (hs : Accepted.Slices f.content config.partSize.toNat as) :
    Accepted.Slices f.content config.partSize.toNat (as ++ u.sent x) := by
  have ha := u.turn_acts x
  rw [sent]
  generalize (u.turn x).1 = r at ha ⊢
  generalize (u.turn x).2 = x' at ha ⊢
  cases ha with
  | breaksOff hm =>
    rw [Exchange.added, Log.since_of_messages hm, List.map_nil, List.append_nil]
    exact hs
  | ends =>
    rw [Exchange.added, Log.since_of_messages rfl, List.map_nil, List.append_nil]
    exact hs
  | overflows hc hr hm | publishes hc hr hm =>
    rw [Exchange.added, Log.since_of_push hm, hc]
    exact hs.append (h.slice ho hfile hc hr)

/-- **What an upload has sent of a file** that stays as it is, by how far it has come. -/
inductive Stage.Sent (config : Config) (f : Original) (start : Nat) (l : Log) :
    Stage → List Accepted → Prop
  | asked : Sent config f start l .asked []
  | planned {p : UploadPlan} (h : Planned p config) (hpath : p.source.path = f.path)
      (hlength : p.record.length.toNat = f.content.length) :
      Sent config f start l (.planned p) []
  | going {u₀ : Upload} {r : Turn Upload} {as : List Accepted} (ho : u₀.Opened config f)
      (hs : Accepted.Slices f.content config.partSize.toNat as)
      (hr : r.All (fun u => u₀.Publishes u start l as) (fun u => u₀.Publishes u start l as)
        (fun _ _ => True)) : Sent config f start l (.going r) as
  | stored {report : UploadReport} {as : List Accepted} (hi : Issued config report start l as)
      (hs : Accepted.Slices f.content config.partSize.toNat as) (hc : contents as = f.content)
      (hsize : report.record.partSize = config.partSize) :
      Sent config f start l (.over (.ok report)) as
  | failed {why : Failure} {as : List Accepted} :
      Sent config f start l (.over (.error why)) as

namespace Stage.Sent

variable {s s' : Stage}

/-- Messages of others leave what an upload has sent. -/
theorem grow (h : Sent config f start l s as) (hl : l.Grown l') :
    Sent config f start l' s as := by
  cases h with
  | asked => exact .asked
  | planned h hpath hlength => exact .planned h hpath hlength
  | going ho hs hr =>
    exact .going ho hs (hr.imp (fun _ h => h.grow hl) (fun _ h => h.grow hl) fun _ _ h => h)
  | stored hi hs hc hsize => exact .stored (hi.grow hl) hs hc hsize
  | failed => exact .failed

/-- **The end of an upload** stores the record, or nothing. -/
theorem finish (h : u₀.Publishes u start x.log as) (ho : u₀.Opened config f)
    (hs : Accepted.Slices f.content config.partSize.toNat as) :
    Sent config f start (u.finish x).2.2.log (.over (u.finish x).1) as := by
  rcases hf : u.finish x with ⟨why | report, u', x'⟩
  · exact .failed
  obtain ⟨hissued, hlog, -⟩ := h.issued ho.begun hf
  obtain ⟨hlength, -, hrecord, -⟩ := h.finish_ok hf
  have hcontents : contents as = f.content := by
    have hbeginning := hs.contents_eq
    have hshort := congrArg List.length hbeginning
    rw [List.length_take, hlength, ho.length] at hshort
    rw [hbeginning]
    exact List.take_of_length_le (by omega)
  refine .stored (hlog ▸ hissued) hs hcontents ?_
  rw [hrecord, ← ho.partSize, ← h.same.record]
  rfl

/-- What is done without a message. -/
theorem silent (h : Sent config f start x'.log s' as)
    (hm : x'.log.messages = x.log.messages) : x.log.Grown x'.log ∧
      ∃ more, Sent config f start x'.log s' (as ++ more) ∧
        more.map Accepted.entry = x.log.since x'.log :=
  ⟨.of_messages hm, [], by rwa [List.append_nil], by rw [Log.since_of_messages hm, List.map_nil]⟩

/-- **Whatever an upload does next**, it has sent what that adds to the log. -/
theorem next (options : UploadOptions) (h : Sent config f start x.log s as)
    (hstart : start ≤ x.log.messages.size + 1) (hfile : f.IsIn x) :
    let y := s.next config f.path options x
    x.log.Grown y.2.log ∧ ∃ more, Sent config f start y.2.log y.1 (as ++ more) ∧
      more.map Accepted.entry = x.log.since y.2.log := by
  cases h with
  | asked =>
    simp only [Stage.next]
    rcases hp : plan config f.path options x with why | p
    · exact silent .failed rfl
    · obtain ⟨hpath, hlength⟩ := hfile.plan hp
      exact silent (.planned (plan_planned hp) hpath hlength) rfl
  | @planned p h hpath hlength =>
    simp only [Stage.next]
    rcases ho : openFile p x.files with why | u
    · exact silent .failed rfl
    · have hopened := h.opened hpath hlength hfile ho
      have hbegun : u.Publishes u start x.log [] :=
        { hopened.begun.publishes x.log with behind := hstart, row := List.nil_sublist _ }
      exact silent (.going hopened (.nil _ _) hbegun) rfl
  | @going u₀ r as ho hs hr =>
    rcases r with u | u | ⟨u, why⟩
    · have hgoes : Sent config f start (u.turn x).2.log (.going (u.turn x).1)
          (as ++ u.sent x) :=
        .going ho (hr.slices ho hfile hs) (hr.turn.imp (fun _ h => h) (fun _ h => h)
          fun _ _ _ => trivial)
      refine ⟨(u.turn_acts x).grown.1, u.sent x, hgoes, ?_⟩
      rw [sent, Exchange.added, List.map_map]
      exact List.map_id _
    · exact silent (finish hr ho hs) (finish_messages rfl).1
    · exact silent .failed rfl
  | stored hi hs hc hsize => exact silent (.stored hi hs hc hsize) rfl
  | failed => exact silent .failed rfl

/-- **Whatever an upload does next**, it stores nothing, or it is over with a report and stores the
record. -/
theorem next_store (options : UploadOptions) (h : Sent config f start x.log s as) :
    let y := s.next config f.path options x
    (y.2.store = x.store ∧ ∀ report, y.1 = .over (.ok report) → s = .over (.ok report)) ∨
      ∃ report, y.1 = .over (.ok report) ∧ ∀ k, y.2.store.get? k
        = if k = recordKey report.record.id then some report.record.toText
          else x.store.get? k := by
  cases h with
  | asked =>
    simp only [Stage.next]
    rcases plan config f.path options x with why | p
    all_goals exact .inl ⟨rfl, fun _ hover => by simp at hover⟩
  | @planned p =>
    simp only [Stage.next]
    rcases openFile p x.files with why | u
    all_goals exact .inl ⟨rfl, fun _ hover => by simp at hover⟩
  | @going u₀ r as ho hs hr =>
    rcases r with u | u | ⟨u, why⟩
    · exact .inl ⟨(u.turn_acts x).grown.2, fun _ hover => by simp [Stage.next] at hover⟩
    · simp only [Stage.next]
      rcases hf : u.finish x with ⟨why | report, u', x'⟩
      · exact .inl ⟨(finish_messages hf).2 why rfl, fun _ hover => by simp at hover⟩
      · obtain ⟨-, -, -, hstored⟩ := hr.issued ho.begun hf
        exact .inr ⟨report, rfl, hstored⟩
    · exact .inl ⟨rfl, fun _ hover => by simp [Stage.next] at hover⟩
  | stored | failed => exact .inl ⟨rfl, fun _ hover => hover⟩

end Stage.Sent

/-! ## Side by side -/

section Abreast

variable {ι : Type} [DecidableEq ι]

/-- **Uploads of one file side by side**: each does one thing after another, in any order, and others
may do what they like meanwhile, save that they store nothing and publish nothing under the subject
of the file.  The file stays as it is. -/
inductive Abreast (config : Config) (f : Original)
    (options : ι → UploadOptions) (subject : String) (x₀ : Exchange) :
    (ι → Stage) → Exchange → Prop
  | begun (hfile : f.IsIn x₀) :
      Abreast config f options subject x₀ (fun _ => .asked) x₀
  | next {stages : ι → Stage} {s : Stage} {x x' : Exchange}
      (h : Abreast config f options subject x₀ stages x) (i : ι)
      (hs : (stages i).next config f.path (options i) x = (s, x')) (hfile : f.IsIn x') :
      Abreast config f options subject x₀ (Function.update stages i s) x'
  | others {stages : ι → Stage} {x x' : Exchange}
      (h : Abreast config f options subject x₀ stages x)
      (hx : x.Meanwhile (fun m => m.subject ≠ subject) x')
      (hfile : f.IsIn x') :
      Abreast config f options subject x₀ stages x'

/-- **What uploads side by side have sent and stored.**  Whatever stands under the subject was sent by
one of them; and once some have given reports, the store has the record of one of these. -/
structure Account (config : Config) (f : Original)
    (subject : String) (start : Nat) (stages : ι → Stage) (x : Exchange)
    (sent : ι → List Accepted) : Prop where
  file : f.IsIn x
  behind : start ≤ x.log.messages.size + 1
  each : ∀ i, Stage.Sent config f start x.log (stages i) (sent i)
  covered : ∀ e ∈ x.log.row subject start, ∃ i, e ∈ (sent i).map Accepted.entry
  last : ∀ i report, stages i = .over (.ok report) → ∃ j report',
    stages j = .over (.ok report') ∧ recordKey report'.record.id = recordKey report.record.id ∧
      x.store.get? (recordKey report.record.id) = some report'.record.toText

variable {options : ι → UploadOptions} {subject : String} {x₀ : Exchange} {stages : ι → Stage}
  {sent : ι → List Accepted}

namespace Account

variable {s : Stage}

/-- What is over stays over. -/
theorem update_over {i j : ι} {result : Except Failure UploadReport}
    (hs : ((stages i).next config f.path (options i) x).1 = s) (hj : stages j = .over result) :
    Function.update stages i s j = .over result := by
  rcases eq_or_ne j i with rfl | hne
  · rw [Function.update_self, ← hs, hj]
    rfl
  · rw [Function.update_of_ne hne, hj]

/-- **The last record** is still one of a report when one of them does the next thing. -/
theorem last_next (h : Account config f subject start stages x sent) (i : ι)
    (hs : (stages i).next config f.path (options i) x = (s, x')) {k : ι} {report : UploadReport}
    (hk : Function.update stages i s k = .over (.ok report)) : ∃ j report',
      Function.update stages i s j = .over (.ok report') ∧
        recordKey report'.record.id = recordKey report.record.id ∧
        x'.store.get? (recordKey report.record.id) = some report'.record.toText := by
  have hstore := (h.each i).next_store (options i)
  simp only [hs] at hstore
  have hs : ((stages i).next config f.path (options i) x).1 = s := by rw [hs]
  obtain ⟨hsame, hkept⟩ | ⟨new, hnew, hstored⟩ := hstore
  · have hold : stages k = .over (.ok report) := by
      rcases eq_or_ne k i with rfl | hne
      · rw [Function.update_self] at hk
        exact hkept report hk
      · rwa [Function.update_of_ne hne] at hk
    obtain ⟨j, report', hj, hkey, hget⟩ := h.last k report hold
    exact ⟨j, report', update_over hs hj, hkey, hsame ▸ hget⟩
  by_cases hkey : recordKey report.record.id = recordKey new.record.id
  · refine ⟨i, new, ?_, hkey.symm, ?_⟩
    · rw [Function.update_self, hnew]
    · rw [hstored, if_pos hkey]
  -- A record under another key was not stored by this upload.
  have hne : k ≠ i := by
    rintro rfl
    rw [Function.update_self, hnew] at hk
    simp only [Stage.over.injEq, Except.ok.injEq] at hk
    exact hkey (by rw [hk])
  rw [Function.update_of_ne hne] at hk
  obtain ⟨j, report', hj, hkey', hget⟩ := h.last k report hk
  exact ⟨j, report', update_over hs hj, hkey', by rw [hstored, if_neg hkey, hget]⟩

/-- **One of them does the next thing.** -/
theorem next (h : Account config f subject start stages x sent) (i : ι)
    (hs : (stages i).next config f.path (options i) x = (s, x')) (hfile : f.IsIn x') :
    ∃ more, Account config f subject start (Function.update stages i s) x'
      (Function.update sent i (sent i ++ more)) := by
  obtain ⟨hgrown, more, hsent, hmore⟩ := (h.each i).next (options i) h.behind h.file
  simp only [hs] at hgrown hsent hmore
  refine ⟨more, hfile, ?_, fun k => ?_, fun e he => ?_, fun k report hk => h.last_next i hs hk⟩
  · exact Nat.le_trans h.behind (Nat.succ_le_succ hgrown.size_le)
  · rcases eq_or_ne k i with rfl | hne
    · rwa [Function.update_self, Function.update_self]
    · rw [Function.update_of_ne hne, Function.update_of_ne hne]
      exact (h.each k).grow hgrown
  -- A message of the longer row was there, or is what this upload has just sent.
  rcases hgrown.mem_row he with hold | hnew
  · obtain ⟨k, hk⟩ := h.covered e hold
    refine ⟨k, ?_⟩
    rcases eq_or_ne k i with rfl | hne
    · rw [Function.update_self, List.map_append]
      exact List.mem_append_left _ hk
    · rwa [Function.update_of_ne hne]
  · refine ⟨i, ?_⟩
    rw [Function.update_self, List.map_append, hmore]
    exact List.mem_append_right _ hnew

omit [DecidableEq ι] in
/-- **Others publish elsewhere.** -/
theorem others (h : Account config f subject start stages x sent)
    (hx : x.Meanwhile (fun m => m.subject ≠ subject) x') (hfile : f.IsIn x') :
    Account config f subject start stages x' sent where
  file := hfile
  behind := Nat.le_trans h.behind (Nat.succ_le_succ hx.grown.size_le)
  each i := (h.each i).grow hx.grown
  covered e he := h.covered e (hx.row_eq start ▸ he)
  last i report hi := by
    obtain ⟨j, report', hj, hkey, hget⟩ := h.last i report hi
    exact ⟨j, report', hj, hkey, hx.1 ▸ hget⟩

end Account

/-- **Uploads side by side** account for all that stands under the subject since they began. -/
theorem Abreast.account (h : Abreast config f options subject x₀ stages x) :
    ∃ sent, Account config f subject (x₀.log.messages.size + 1) stages x sent := by
  induction h with
  | begun hfile =>
    have hnone : x₀.log.row subject (x₀.log.messages.size + 1) = [] :=
      Log.row_of_size_lt (Nat.lt_succ_self _)
    exact ⟨fun _ => [], hfile, Nat.le_refl _, fun _ => .asked, by simp [hnone], by simp⟩
  | next h i hs hfile ih =>
    obtain ⟨sent, haccount⟩ := ih
    obtain ⟨more, hnext⟩ := haccount.next i hs hfile
    exact ⟨_, hnext⟩
  | others h hx hfile ih =>
    obtain ⟨sent, haccount⟩ := ih
    exact ⟨sent, haccount.others hx hfile⟩

/-- The file is as it was at any moment. -/
theorem Abreast.file (h : Abreast config f options subject x₀ stages x) : f.IsIn x := by
  cases h with
  | begun hfile | next _ _ _ hfile | others _ _ hfile => exact hfile

/-- **Uploads that go on one at a time**, as a list says. -/
def inTurn (config : Config) (path : Path) (options : ι → UploadOptions) :
    List ι → (ι → Stage) → Exchange → (ι → Stage) × Exchange
  | [], stages, x => (stages, x)
  | i :: is, stages, x =>
    let y := (stages i).next config path (options i) x
    inTurn config path options is (Function.update stages i y.1) y.2

/-- **Where no rule interferes, any order will do.** -/
theorem Abreast.inTurn (h : Abreast config f options subject x₀ stages x)
    (hr : x.interference.rules = []) (is : List ι) :
    Abreast config f options subject x₀
      (Upload.inTurn config f.path options is stages x).1
      (Upload.inTurn config f.path options is stages x).2 := by
  induction is generalizing stages x with
  | nil => exact h
  | cons i is ih =>
    obtain ⟨hfiles, hrules⟩ := Stage.next_files config f.path (options i) (stages i) hr
    exact ih (h.next i rfl (by rw [Original.IsIn, hfiles]; exact h.file)) hrules

end Abreast

end Upload

end FileRelay
