import FileRelay.Proofs.Transfer.Cutting

/-!
# Proofs/Transfer/Publication — what an upload leaves in the log

While others do what they like between its turns, an upload publishes the parts that it cuts its file
into, one behind the other (`Upload.Publishes`).  So the record of an upload that succeeds belongs to
parts that are all in the log (`Uploads.issued`).
-/

namespace FileRelay

open Accepted (contents places)

/-- **A log whose payloads are as long as a word can say**, as they always are. -/
def Log.Sized (l : Log) : Prop := ∀ m ∈ l.messages.toList, m.payload.length < Word.limit

theorem Log.Grown.sized {l l' : Log} (h : l.Grown l') (hs : l'.Sized) : l.Sized :=
  fun m hm => hs m (h.subset hm)

/-- **What others do meanwhile**: they publish such messages, and store nothing. -/
def Exchange.Meanwhile (allowed : Published → Prop) (x x' : Exchange) : Prop :=
  x'.store = x.store ∧ ∃ more, x'.log.messages.toList = x.log.messages.toList ++ more ∧
    ∀ m ∈ more, allowed m

namespace Exchange.Meanwhile

variable {allowed : Published → Prop} {x x' : Exchange}

theorem grown (h : x.Meanwhile allowed x') : x.log.Grown x'.log := by
  obtain ⟨-, more, hmore, -⟩ := h
  exact ⟨more, hmore.symm⟩

/-- **Messages of other subjects** change no row of a subject. -/
theorem row_eq {subject : String} (h : x.Meanwhile (fun m => m.subject ≠ subject) x')
    (first : Nat) : x'.log.row subject first = x.log.row subject first := by
  obtain ⟨-, more, hmore, hothers⟩ := h
  have hnone : (more.zipIdx (1 + x.log.messages.toList.length)).filter
      (fun e => decide (first ≤ e.2) && e.1.subject == subject) = [] :=
    List.filter_eq_nil_iff.2 fun e he => by
      have hsubject := hothers e.1 (List.fst_mem_of_mem_zipIdx he)
      simp [hsubject]
  rw [Log.row_of_append hmore, hnone, List.append_nil]

end Exchange.Meanwhile

/-- **The messages that a moment adds** to an earlier one, when this was read between them. -/
def Exchange.added (x x' : Exchange) (read : Bytes) : List Accepted :=
  (x.log.since x'.log).map fun e => ⟨e.1, e.2, e.1.payload, read⟩

namespace Upload

variable {config : Config} {path : Path} {options : UploadOptions} {x x' : Exchange}
  {u u₀ : Upload} {start : Nat} {l l' : Log} {as : List Accepted}

/-! ## What was published -/

/-- **What an upload leaves** in a log, from a place on: the first parts of what its file is cut into,
one behind the other. -/
structure Leaves (u₀ : Upload) (start : Nat) (l : Log) (as : List Accepted) : Prop where
  cut : u₀.Cut as
  within : (contents as).length ≤ u₀.reader.fileSize
  behind : start ≤ l.messages.size + 1
  row : (as.map Accepted.entry).Sublist (l.row u₀.subject start)

/-- **An upload that has published** what it has read.  Either its reader gives no more chunks, or all
that it has given are full. -/
structure Publishes (u₀ u : Upload) (start : Nat) (l : Log) (as : List Accepted) : Prop
    extends Leaves u₀ start l as where
  same : u₀.Continues u
  fileSize : u.reader.fileSize = u₀.reader.fileSize
  partSize : u.reader.partSize = u₀.record.partSize.toNat
  offset : u.reader.offset = (contents as).length
  partsRead : u.reader.partsRead = as.length
  digester : u.digester = (Digest.Digester.new u₀.algorithm).absorb (contents as)
  first : (u.sequences.map fun s => s.1.toNat) = (places as).head?
  last : (u.sequences.map fun s => s.2.toNat) = (places as).getLast?
  full : u.reader.exhausted = false → u.reader.offset < u.reader.fileSize →
    ∀ a ∈ as, a.content.length = u₀.record.partSize.toNat

/-- Messages of others leave what an upload has left. -/
theorem Leaves.grow (h : u₀.Leaves start l as) (hl : l.Grown l') : u₀.Leaves start l' as :=
  { h with
    behind := Nat.le_trans h.behind (Nat.succ_le_succ hl.size_le)
    row := h.row.trans (hl.row _ _).sublist }

/-- An upload that has begun has published nothing. -/
theorem Begun.publishes (h : u.Begun config) (l : Log) :
    u.Publishes u (l.messages.size + 1) l [] where
  cut := .nil u
  within := Nat.zero_le _
  behind := Nat.le_refl _
  row := List.nil_sublist _
  same := ⟨rfl, rfl, rfl, rfl, rfl⟩
  fileSize := rfl
  partSize := by rw [h.reader]
  offset := by rw [h.reader]; rfl
  partsRead := by rw [h.reader]; rfl
  digester := by rw [h.digester]; exact (Digest.Digester.absorb_nil _).symm
  first := by rw [h.sequences]; rfl
  last := by rw [h.sequences]; rfl
  full := by simp

/-- **What a turn sends**: all that it adds to the log, with the chunk that it reads. -/
def sent (u : Upload) (x : Exchange) : List Accepted :=
  x.added (u.turn x).2 (((u.chunk? x).map Chunk.data).getD [])

namespace Publishes

theorem grow (h : u₀.Publishes u start l as) (hl : l.Grown l') : u₀.Publishes u start l' as :=
  { h with toLeaves := h.toLeaves.grow hl }

theorem withReader (h : u₀.Publishes u start l as) {reader : ChunkReader}
    (hr : reader = u.reader ∨
      (reader = { u.reader with exhausted := true } ∧ u.reader.offset < u.reader.fileSize)) :
    u₀.Publishes { u with reader } start l as := by
  rcases hr with rfl | ⟨rfl, -⟩
  · exact h
  · exact { h with
      same := ⟨h.same.path, h.same.subject, h.same.algorithm, h.same.codec, h.same.record⟩
      full := by simp }

section Chunk

variable {c : Chunk} {reader : ChunkReader}

/-- **The chunk that a reader gives next** is a piece behind the others. -/
theorem piece (h : u₀.Publishes u start l as) (hr : u.reader.Advances c reader) (place : Nat) :
    u₀.Cut (as ++ [⟨u.messageOf c, place, (u.messageOf c).payload, c.data⟩]) := by
  have hfull := h.full hr.fresh hr.before
  have hnumber : c.number = as.length + 1 := by rw [hr.number, h.partsRead]
  have hstart : c.start = as.length * u₀.record.partSize.toNat := by
    rw [hr.start, h.offset, length_contents_of_full hfull]
  have hle : c.data.length ≤ u₀.record.partSize.toNat :=
    h.partSize ▸ Nat.le_trans hr.length_le (Nat.min_le_right _ _)
  refine h.cut.append hfull ⟨?_, rfl, hr.nonempty, hle⟩
  rw [h.same.messageOf_eq, ← hnumber, ← hstart]

/-- **A message more** with the next chunk is a part more. -/
theorem leaves (h : u₀.Publishes u start x.log as) (hr : u.reader.Advances c reader)
    (hm : x'.log.messages = x.log.messages.push (u.messageOf c)) :
    u₀.Leaves start x'.log
      (as ++ [⟨u.messageOf c, x.log.messages.size + 1, (u.messageOf c).payload, c.data⟩]) where
  cut := h.piece hr _
  within := by
    have hlength := Nat.le_trans hr.length_le (Nat.min_le_left _ _)
    have hbefore := hr.before
    rw [ChunkReader.remaining] at hlength
    rw [Accepted.contents_append, List.length_append, ← h.offset, ← h.fileSize]
    simp only
    omega
  behind := by
    have := h.behind
    rw [hm, Array.size_push]
    omega
  row := by
    have hsubject : (u.messageOf c).subject = u₀.subject := h.same.subject
    rw [Log.row_push hm h.behind, if_pos hsubject, List.map_append, List.map_singleton]
    exact h.row.append (List.Sublist.refl _)

/-- **A part more is published.** -/
theorem publishes (h : u₀.Publishes u start x.log as) (hr : u.reader.Advances c reader)
    {sequence : UInt64} (hm : x'.log.messages = x.log.messages.push (u.messageOf c))
    (hp : sequence.toNat = x.log.messages.size + 1) :
    u₀.Publishes ({ u with reader, digester := u.digester.absorb c.data }.published c
        (u.partOf c).2.length sequence) start x'.log
      (as ++ [⟨u.messageOf c, x.log.messages.size + 1, (u.messageOf c).payload, c.data⟩]) := by
  constructor
  case toLeaves => exact h.leaves hr hm
  case same => exact ⟨h.same.path, h.same.subject, h.same.algorithm, h.same.codec, h.same.record⟩
  case fileSize => simpa only [published, tell, hr.after] using h.fileSize
  case partSize => simpa only [published, tell, hr.after] using h.partSize
  case offset =>
    simp only [published, tell, hr.after, Accepted.contents_append, List.length_append, h.offset]
  case partsRead =>
    simp only [published, tell, hr.after, List.length_append, List.length_singleton, h.partsRead]
  case digester =>
    simp only [published, tell, h.digester, Digest.Digester.absorb_append,
      Accepted.contents_append]
  case first =>
    have hfirst := h.first
    rw [Accepted.places_append, List.head?_append, ← hfirst]
    rcases u.sequences with _ | ⟨a, b⟩ <;> simp [published, tell, hp]
  case last =>
    rw [Accepted.places_append, List.getLast?_concat, ← hp]
    rfl
  case full =>
    simp only [published, tell, hr.after, ChunkReader.want, ChunkReader.remaining]
    intro hshort hmore a ha
    rcases List.mem_append.1 ha with ha | ha
    · exact h.full hr.fresh hr.before a ha
    · -- More is left, so the chunk was wanted as long as a part; and it is no shorter.
      obtain rfl := List.mem_singleton.1 ha
      have hlength := hr.length_le
      have hwant := of_decide_eq_false hshort
      have hsize := h.partSize
      simp only [ChunkReader.want, ChunkReader.remaining] at hlength ⊢
      omega

end Chunk

/-- **A turn sends the next part**, or nothing. -/
theorem turn (h : u₀.Publishes u start x.log as) :
    (u.turn x).1.All
      (fun u' => u₀.Publishes u' start (u.turn x).2.log (as ++ u.sent x))
      (fun u' => u₀.Publishes u' start (u.turn x).2.log (as ++ u.sent x))
      (fun _ _ => u₀.Leaves start (u.turn x).2.log (as ++ u.sent x)) := by
  have ha := u.turn_acts x
  rw [sent]
  generalize (u.turn x).1 = r at ha ⊢
  generalize (u.turn x).2 = x' at ha ⊢
  cases ha with
  | breaksOff hm =>
    rw [Exchange.added, Log.since_of_messages hm, List.map_nil, List.append_nil]
    exact h.toLeaves.grow (.of_messages hm)
  | ends hc hr =>
    rw [Exchange.added, Log.since_of_messages rfl, List.map_nil, List.append_nil]
    exact h.withReader hr
  | overflows hc hr hm =>
    rw [Exchange.added, Log.since_of_push hm, hc]
    exact h.leaves hr hm
  | publishes hc hr hm hs hp =>
    rw [Exchange.added, Log.since_of_push hm, hc]
    exact h.publishes hr hm hp

end Publishes

/-- **A turn reads what it sends**, unless it breaks the upload off. -/
theorem contents_sent (u : Upload) (x : Exchange) :
    (u.turn x).1.All (fun _ => contents (u.sent x) = ((u.chunk? x).map Chunk.data).getD [])
      (fun _ => contents (u.sent x) = ((u.chunk? x).map Chunk.data).getD [])
      (fun _ _ => True) := by
  have ha := u.turn_acts x
  rw [sent]
  generalize (u.turn x).1 = r at ha ⊢
  generalize (u.turn x).2 = x' at ha ⊢
  cases ha with
  | breaksOff | overflows => trivial
  | ends hc =>
    rw [hc, Exchange.added, Log.since_of_messages rfl]
    rfl
  | publishes hc hr hm =>
    rw [hc, Exchange.added, Log.since_of_push hm]
    exact List.append_nil _

/-! ## Runs of turns -/

/-- **What an upload can come to**, turn by turn, among others, and what it has read of its file. -/
inductive Reaches (others : Exchange → Exchange → Prop) (u₀ : Upload) (x₀ : Exchange) :
    Turn Upload → Exchange → Bytes → Prop
  | begun : Reaches others u₀ x₀ (.on u₀) x₀ []
  | others {r : Turn Upload} {x x' : Exchange} {read : Bytes} (h : Reaches others u₀ x₀ r x read)
      (hx : others x x') : Reaches others u₀ x₀ r x' read
  | turn {u : Upload} {x : Exchange} {read : Bytes} (h : Reaches others u₀ x₀ (.on u) x read) :
      Reaches others u₀ x₀ (u.turn x).1 (u.turn x).2
        (read ++ ((u.chunk? x).map Chunk.data).getD [])

/-- **What an upload sends**, turn by turn, among others. -/
inductive Sends (others : Exchange → Exchange → Prop) (u₀ : Upload) (x₀ : Exchange) :
    Turn Upload → Exchange → List Accepted → Prop
  | begun : Sends others u₀ x₀ (.on u₀) x₀ []
  | others {r : Turn Upload} {x x' : Exchange} {as : List Accepted}
      (h : Sends others u₀ x₀ r x as) (hx : others x x') : Sends others u₀ x₀ r x' as
  | turn {u : Upload} {x : Exchange} {as : List Accepted} (h : Sends others u₀ x₀ (.on u) x as) :
      Sends others u₀ x₀ (u.turn x).1 (u.turn x).2 (as ++ u.sent x)

variable {others : Exchange → Exchange → Prop} {x₀ : Exchange} {r : Turn Upload} {read : Bytes}

/-- A row of turns that others leave alone is a run among others. -/
theorem Reaches.takeTurns (h : Reaches others u₀ x₀ (.on u) x read) (n : Nat) :
    ∃ read, Reaches others u₀ x₀ (Turn.takeTurns Upload.turn n u x).1
      (Turn.takeTurns Upload.turn n u x).2 read := by
  induction n generalizing u x read with
  | zero => exact ⟨read, h⟩
  | succ n ih =>
    have hturn := h.turn
    rw [Turn.takeTurns]
    split
    all_goals rename_i he; rw [he] at hturn
    · exact ih hturn
    · exact ⟨_, hturn⟩
    · exact ⟨_, hturn⟩

/-- **Whatever others publish**, an upload sends the parts that it cuts its file into. -/
theorem Sends.publishes (h : Sends others u₀ x₀ r x as) (hb : u₀.Begun config)
    (hothers : ∀ y y', others y y' → y.log.Grown y'.log) :
    r.All (fun u => u₀.Publishes u (x₀.log.messages.size + 1) x.log as)
      (fun u => u₀.Publishes u (x₀.log.messages.size + 1) x.log as)
      (fun _ _ => u₀.Leaves (x₀.log.messages.size + 1) x.log as) := by
  induction h with
  | begun => exact hb.publishes _
  | others _ hx ih =>
    have hgrow := hothers _ _ hx
    exact ih.imp (fun _ hp => hp.grow hgrow) (fun _ hp => hp.grow hgrow) fun _ _ hl => hl.grow hgrow
  | turn _ ih => exact ih.turn

/-- **What was read was sent**, as far as the upload was not broken off. -/
theorem Reaches.sends (h : Reaches others u₀ x₀ r x read) : ∃ as, Sends others u₀ x₀ r x as ∧
    r.All (fun _ => contents as = read) (fun _ => contents as = read) (fun _ _ => True) := by
  induction h with
  | begun => exact ⟨[], .begun, rfl⟩
  | others _ hx ih =>
    obtain ⟨as, hs, hread⟩ := ih
    exact ⟨as, hs.others hx, hread⟩
  | @turn u x read _ ih =>
    obtain ⟨as, hs, hread⟩ := ih
    have happend : contents (as ++ u.sent x) = read ++ contents (u.sent x) := by
      rw [contents, List.flatMap_append]
      exact congrArg (· ++ _) hread
    refine ⟨_, hs.turn, (u.contents_sent x).imp ?_ ?_ fun _ _ h => h⟩
    · intro _ hsent
      rw [happend, hsent]
    · intro _ hsent
      rw [happend, hsent]

/-- What was sent was read. -/
theorem Sends.reaches (h : Sends others u₀ x₀ r x as) : ∃ read, Reaches others u₀ x₀ r x read := by
  induction h with
  | begun => exact ⟨[], .begun⟩
  | others _ hx ih => exact ih.imp fun _ hr => hr.others hx
  | turn _ ih =>
    obtain ⟨_, hr⟩ := ih
    exact ⟨_, hr.turn⟩

/-- **Whatever others publish**, an upload publishes the parts of what it reads. -/
theorem Reaches.publishes (h : Reaches others u₀ x₀ r x read) (hb : u₀.Begun config)
    (hothers : ∀ y y', others y y' → y.log.Grown y'.log) :
    r.All
      (fun u => ∃ as, u₀.Publishes u (x₀.log.messages.size + 1) x.log as ∧ contents as = read)
      (fun u => ∃ as, u₀.Publishes u (x₀.log.messages.size + 1) x.log as ∧ contents as = read)
      (fun _ _ => True) := by
  obtain ⟨as, hs, hread⟩ := h.sends
  exact ((hs.publishes hb hothers).and hread).imp (fun _ h => ⟨as, h⟩) (fun _ h => ⟨as, h⟩)
    fun _ _ _ => trivial

/-- Turns store nothing. -/
theorem Reaches.store (h : Reaches others u₀ x₀ r x read)
    (hothers : ∀ y y', others y y' → y'.store = y.store) : x.store = x₀.store := by
  induction h with
  | begun => rfl
  | others _ hx ih => exact (hothers _ _ hx).trans ih
  | @turn u y _ _ ih => exact (u.turn_acts y).grown.2.trans ih

theorem Sends.store (h : Sends others u₀ x₀ r x as)
    (hothers : ∀ y y', others y y' → y'.store = y.store) : x.store = x₀.store := by
  obtain ⟨read, hr⟩ := h.reaches
  exact hr.store hothers

/-- Messages stay in the log. -/
theorem Reaches.grown (h : Reaches others u₀ x₀ r x read)
    (hothers : ∀ y y', others y y' → y.log.Grown y'.log) : x₀.log.Grown x.log := by
  induction h with
  | begun => exact .refl _
  | others _ hx ih => exact ih.trans (hothers _ _ hx)
  | @turn u y _ _ ih => exact ih.trans (u.turn_acts y).grown.1

/-! ## Whole uploads -/

/-- **An upload among others**, from its beginning to its result, and what it has read. -/
inductive Uploads (others : Exchange → Exchange → Prop) (config : Config) (path : Path)
    (options : UploadOptions) (x : Exchange) :
    Bytes → Except Failure UploadReport → Exchange → Prop
  | refused {why : Failure} (h : Upload.start config path options x = .error why) :
      Uploads others config path options x [] (.error why) x
  | brokenOff {u u' : Upload} {why : Failure} {x' : Exchange} {read : Bytes}
      (h : Upload.start config path options x = .ok u)
      (hr : Reaches others u x (.broken u' why) x' read) :
      Uploads others config path options x read (.error why) x'
  | finished {u u' u'' : Upload} {result : Except Failure UploadReport} {x' x'' : Exchange}
      {read : Bytes} (h : Upload.start config path options x = .ok u)
      (hr : Reaches others u x (.done u') x' read) (hf : u'.finish x' = (result, u'', x'')) :
      Uploads others config path options x read result x''

/-- **An upload that others leave alone** is an upload among others. -/
theorem run_uploads (others : Exchange → Exchange → Prop) (config : Config) (path : Path)
    (options : UploadOptions) (x : Exchange) :
    ∃ read, Uploads others config path options x read (run config path options x).1.result
      (run config path options x).2 := by
  unfold run
  split
  · rename_i why h
    exact ⟨[], .refused h⟩
  rename_i u h
  have hbegun : Reaches others u x (.on u) x [] := .begun
  obtain ⟨read, hr⟩ := hbegun.takeTurns u.patience
  have hends := u.takeTurns_patience x
  refine ⟨read, ?_⟩
  have hcomplete : Uploads others config path options x read (u.complete x).1
      (u.complete x).2.2 := by
    unfold complete
    split
    all_goals rename_i he; rw [he] at hr hends
    · exact hends.elim
    · exact .brokenOff h hr
    · exact .finished h hr rfl
  split
  all_goals rename_i hc; rw [hc] at hcomplete; exact hcomplete

/-- **What a successful upload has issued**: the record of a file, and messages that stand in the log
under its subject, one for each of its parts, which damage would show in if they are encoded. -/
structure Issued (config : Config) (report : UploadReport) (start : Nat) (l : Log)
    (as : List Accepted) : Prop where
  valid : report.record.validate = .ok ()
  subject : report.subject = partSubject config.partPrefix report.record.id
  length : as.length = report.record.parts.toNat
  digest : ∃ a : Digest.Algorithm,
    report.record.digest? = some ⟨a.name, a.hexDigest (contents as)⟩
  firstSequence : (report.record.firstSequence.map UInt64.toNat) = (places as).head?
  first : (places as).head? = some report.firstSequence
  last : (places as).getLast? = some report.lastSequence
  row : (as.map Accepted.entry).Sublist (l.row report.subject start)
  whole : Accepted.Whole as
  parts : l.Sized → Accepted.Parts report.record as
  damage : config.codec ≠ none → ∀ a ∈ as, ∀ n,
    report.record.contentAt? n a.message.headers (Bytes.flipped a.message.payload) = none

/-- The places of published parts are places of the log. -/
theorem Publishes.one_le (h : u₀.Publishes u start l as) : ∀ p ∈ places as, start ≤ p ∧ 1 ≤ p := by
  intro p hp
  obtain ⟨a, ha, rfl⟩ := List.mem_map.1 hp
  have hentry : a.entry ∈ l.row u₀.subject start := h.row.subset (List.mem_map_of_mem ha)
  obtain ⟨hstart, hmessage, -⟩ := Log.mem_row_iff.1 hentry
  exact ⟨hstart, (Log.message?_eq_some_iff.1 hmessage).1⟩

/-- **The record of a file that was read to its end** validates. -/
theorem Publishes.validate_finalRecord (h : u₀.Publishes u start l as) (hb : u₀.Begun config) :
    u.finalRecord.validate = .ok () := by
  refine FileRecord.validate_eq_ok_iff.2 ⟨?_, ?_, fun hzero => ?_, by simp [finalRecord,
    FileRecord.withDigest]⟩
  · simpa only [finalRecord, FileRecord.withDigest, h.same.record] using hb.id
  · simpa only [finalRecord, FileRecord.withDigest, h.same.record] using hb.layout
  · have hfirst := h.first
    obtain ⟨s, hs, hnull⟩ := Option.map_eq_some_iff.1 hzero
    rw [hs, Option.map_some, hnull] at hfirst
    have := (h.one_le _ (List.mem_of_mem_head? hfirst.symm)).2
    simp at this

/-- **The end of an upload** publishes nothing; and it stores nothing if it fails. -/
theorem finish_messages {result : Except Failure UploadReport} {u' : Upload}
    (h : u.finish x = (result, u', x')) :
    x'.log.messages = x.log.messages ∧ ∀ why, result = .error why → x'.store = x.store := by
  unfold finish at h
  split at h
  · obtain ⟨-, -, rfl⟩ : _ ∧ _ ∧ _ = x' := by simpa using h
    exact ⟨rfl, fun _ _ => rfl⟩
  dsimp only at h
  split at h
  all_goals rename_i hput; obtain ⟨rfl, -, rfl⟩ : _ ∧ _ ∧ _ = x' := by simpa using h
  · obtain ⟨hlog, hstore⟩ := Exchange.put_error hput
    exact ⟨by rw [hlog], fun _ _ => hstore⟩
  · obtain ⟨hlog, -⟩ := Exchange.put_ok hput
    exact ⟨by rw [hlog], fun _ he => nomatch he⟩

/-- The end of an upload sends nothing. -/
theorem added_finish {result : Except Failure UploadReport} {u' : Upload}
    (h : u.finish x = (result, u', x')) : x.added x' [] = [] := by
  rw [Exchange.added, Log.since_of_messages (finish_messages h).1, List.map_nil]

/-- The digest of a file that was read to its end is that of what was published of it. -/
theorem Publishes.digest_finalRecord (h : u₀.Publishes u start l as) : u.finalRecord.digest?
    = some ⟨u₀.algorithm.name, u₀.algorithm.hexDigest (contents as)⟩ := by
  simp only [FileRecord.digest?, finalRecord, FileRecord.withDigest]
  rw [h.digester, Digest.Digester.value_absorb, h.same.algorithm]

/-- Its first place is that of the first part. -/
theorem Publishes.first_finalRecord (h : u₀.Publishes u start l as) :
    (u.finalRecord.firstSequence.map UInt64.toNat) = (places as).head? := by
  rw [← h.first, finalRecord, Option.map_map]
  rfl

/-- **An upload that finishes with a report** stores its record: what it has published is as long as
the record says, and in as many parts. -/
theorem Publishes.finish_ok (h : u₀.Publishes u start x.log as) {report : UploadReport} {u' : Upload}
    (hf : u.finish x = (.ok report, u', x')) :
    (contents as).length = u₀.record.length.toNat ∧ as.length = u₀.record.parts.toNat ∧
      report.record = u.finalRecord ∧ report.subject = u₀.subject ∧
      report.firstSequence = ((places as).head?).getD 0 ∧
      report.lastSequence = ((places as).getLast?).getD 0 ∧ x'.log = x.log ∧
      ∀ k, x'.store.get? k = if k = recordKey report.record.id then some report.record.toText
        else x.store.get? k := by
  unfold finish at hf
  split at hf
  · simp at hf
  rename_i hwhole
  rw [not_or, not_not, not_not, h.offset, h.partsRead, h.same.record] at hwhole
  dsimp only at hf
  split at hf
  · simp at hf
  rename_i revision y hput
  obtain ⟨rfl, -, rfl⟩ : _ ∧ _ ∧ y = x' := by simpa using hf
  obtain ⟨hlog, hstore⟩ := Exchange.put_ok hput
  exact ⟨hwhole.1, hwhole.2, rfl, h.same.subject, congrArg (·.getD 0) h.first,
    congrArg (·.getD 0) h.last, hlog, hstore⟩

/-- **What an upload reports that finishes** is what it has issued, and its record is stored. -/
theorem Publishes.issued (h : u₀.Publishes u start x.log as) (hb : u₀.Begun config)
    {report : UploadReport} {u' : Upload} (hf : u.finish x = (.ok report, u', x')) :
    Issued config report start x.log as ∧ x'.log = x.log ∧ report.subject = u₀.subject ∧
      ∀ k, x'.store.get? k = if k = recordKey report.record.id then some report.record.toText
        else x.store.get? k := by
  obtain ⟨hlength, hparts, hrecord, hsubject, hfirst, hlast, hlog, hstore⟩ := h.finish_ok hf
  have hsame : report.record.parts = u₀.record.parts ∧ report.record.id = u₀.record.id := by
    rw [hrecord, ← h.same.record]
    exact ⟨rfl, rfl⟩
  have hcontent : ∀ n headers payload, report.record.contentAt? n headers payload
      = u₀.record.contentAt? n headers payload := fun n headers payload => by
    rw [hrecord, ← h.same.record]
    rfl
  have hne : places as ≠ [] := by
    have hpos := hb.tiled.parts_pos
    rw [← hparts, ← Accepted.length_places] at hpos
    exact List.ne_nil_of_length_pos hpos
  refine ⟨⟨hrecord ▸ h.validate_finalRecord hb, ?_, by rw [hparts, hsame.1],
    ⟨u₀.algorithm, hrecord ▸ h.digest_finalRecord⟩, hrecord ▸ h.first_finalRecord, ?_, ?_,
    hsubject ▸ h.row, h.cut.whole, fun hsized i a ha => ?_, fun hcodec a ha n => ?_⟩, hlog,
    hsubject, hstore⟩
  · rw [hsubject, hb.subject, hsame.2]
  · rw [hfirst, List.head?_eq_some_head hne, Option.getD_some]
  · rw [hlast, List.getLast?_eq_some_getLast hne, Option.getD_some]
  · have hsizes : ∀ b ∈ as, b.message.payload.length < Word.limit := fun b hb =>
      hsized _ (Log.mem_messages_of_mem_row (h.row.subset (List.mem_map_of_mem hb)))
    have hpart := h.cut.parts hb.tiled hlength hparts hsizes i a ha
    exact ⟨hpart.delivers, (hcontent ..).trans hpart.content⟩
  · rw [hcontent]
    exact h.cut.contentAt?_flipped hb.tiled hparts (hb.codec ▸ hcodec) ha n

/-- **A successful upload has issued** the parts of what it has read, in the log behind what was there
before, and stored their record. -/
theorem Uploads.issued {report : UploadReport}
    (h : Uploads others config path options x read (.ok report) x')
    (hothers : ∀ y y', others y y' → y.log.Grown y'.log) : ∃ as, contents as = read ∧
      Issued config report (x.log.messages.size + 1) x'.log as := by
  rcases h with _ | _ | ⟨hstart, hr, hf⟩
  have hb := start_begun hstart
  obtain ⟨as, hp, hread⟩ := hr.publishes hb hothers
  obtain ⟨hissued, hlog, -⟩ := hp.issued hb hf
  exact ⟨as, hread, hlog ▸ hissued⟩

end Upload

end FileRelay
