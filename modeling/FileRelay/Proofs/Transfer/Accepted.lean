import FileRelay.Proofs.Digest.Streaming
import FileRelay.Proofs.Transfer.Counting
import FileRelay.Proofs.Transfer.Following
import FileRelay.Proofs.Transfer.Writing
import FileRelay.Transfer.Download
import Mathlib.Data.List.Induction

/-!
# Proofs/Transfer/Accepted — what a download holds of its file

A download has **accepted** some messages, one for each part from the first on (`Accepted.Parts`).
It holds them when its session has counted them, its digester has absorbed their contents and its
sink has taken them, and when they are the first messages of its row in the log
(`Download.Holds`): a message that is refused or left out is never passed over.
-/

namespace FileRelay

/-- A message that was **accepted** as a part, what was delivered of it, and its content. -/
structure Accepted where
  message : Published
  place : Nat
  payload : Bytes
  content : Bytes

namespace Accepted

/-- The message and its place, as they stand in a row. -/
def entry (a : Accepted) : Published × Nat := (a.message, a.place)

/-- The places of some accepted messages. -/
def places (as : List Accepted) : List Nat := as.map place

/-- The contents of some accepted messages, one behind the other. -/
def contents (as : List Accepted) : Bytes := as.flatMap content

/-- **A message that is a part of the file**: what was delivered of it is its payload, whole or with
the first octet turned over, and has this content as the part. -/
structure IsPart (a : Accepted) (r : FileRecord) (n : Nat) : Prop where
  delivers : a.message.Delivers a.payload
  content : r.contentAt? n a.message.headers a.payload = some a.content

/-- **The parts of a file from the first on.** -/
def Parts (r : FileRecord) (as : List Accepted) : Prop :=
  ∀ (i : Nat) (a : Accepted), as[i]? = some a → a.IsPart r (i + 1)

/-- **Accepted messages that came whole.** -/
def Whole (as : List Accepted) : Prop := ∀ a ∈ as, a.payload = a.message.payload

variable {r : FileRecord} {as : List Accepted} {a : Accepted}

theorem places_append (as : List Accepted) (a : Accepted) :
    places (as ++ [a]) = places as ++ [a.place] := by simp [places]

theorem contents_append (as : List Accepted) (a : Accepted) :
    contents (as ++ [a]) = contents as ++ a.content := by simp [contents]

/-- The contents before one of them, its own, and those behind it. -/
theorem contents_split {i : Nat} (h : as[i]? = some a) :
    contents as = contents (as.take i) ++ (a.content ++ contents (as.drop (i + 1))) := by
  obtain ⟨hlt, rfl⟩ := List.getElem?_eq_some_iff.1 h
  rw [contents, contents, contents, ← List.flatMap_cons, List.getElem_cons_drop,
    ← List.flatMap_append, List.take_append_drop]

theorem length_places (as : List Accepted) : (places as).length = as.length :=
  List.length_map ..

theorem getLast?_places (as : List Accepted) :
    (places as).getLast? = (as.map entry).getLast?.map Prod.snd := by
  rw [places, List.getLast?_map, List.getLast?_map, Option.map_map]
  rfl

/-- What stands in a list with one more behind it stands in the list, or is the one more. -/
theorem getElem?_concat {i : Nat} {b : Accepted} (h : (as ++ [a])[i]? = some b) :
    as[i]? = some b ∨ (i = as.length ∧ b = a) := by
  rcases Nat.lt_or_ge i as.length with hi | hi
  · rw [List.getElem?_append_left hi] at h
    exact .inl h
  · rw [List.getElem?_append_right hi, List.getElem?_singleton] at h
    split at h
    · exact .inr ⟨by omega, (Option.some.inj h).symm⟩
    · simp at h

namespace Parts

theorem nil (r : FileRecord) : Parts r [] := fun i a h => by simp at h

/-- The next part behind the others. -/
theorem append (h : Parts r as) (ha : a.IsPart r (as.length + 1)) : Parts r (as ++ [a]) := by
  intro i b hb
  rcases getElem?_concat hb with hb | ⟨rfl, rfl⟩
  · exact h i b hb
  · exact ha

/-- The last part, and the parts before it. -/
theorem of_append (h : Parts r (as ++ [a])) : Parts r as ∧ a.IsPart r (as.length + 1) :=
  ⟨fun i b hb => h i b (by
    rw [List.getElem?_append_left (List.getElem?_eq_some_iff.1 hb).1, hb]),
    h as.length a (by simp)⟩

/-- There are not more parts than the record has. -/
theorem length_le (h : Parts r as) (ht : r.Tiled) : as.length ≤ r.parts.toNat := by
  rcases List.eq_nil_or_concat as with rfl | ⟨before, a, rfl⟩
  · exact Nat.zero_le _
  · have ha := (h before.length a (by simp)).content
    have := (FileRecord.length_of_contentAt? ht ha).2.1
    simpa using this

/-- **Parts reach as far as the record says.** -/
theorem length_contents (h : Parts r as) (ht : r.Tiled) :
    (contents as).length = r.reach as.length := by
  induction as using List.reverseRecOn with
  | nil => exact r.reach_zero.symm
  | append_singleton as a ih =>
    obtain ⟨has, ha⟩ := h.of_append
    obtain ⟨-, hle, hlen⟩ := FileRecord.length_of_contentAt? ht ha.content
    rw [contents_append, List.length_append, ih has, hlen, List.length_append,
      List.length_singleton, ht.reach_succ hle]
    rfl

/-- **The first parts of a file** are the first octets of it. -/
theorem contents_eq_take {done : List Accepted} (h : Parts r as) (ht : r.Tiled)
    (hd : done <+: as) : contents done = (contents as).take (r.reach done.length) := by
  obtain ⟨rest, rfl⟩ := hd
  have hdone : Parts r done := fun i a ha => h i a (by
    rw [List.getElem?_append_left (List.getElem?_eq_some_iff.1 ha).1, ha])
  rw [← hdone.length_contents ht, contents, contents, List.flatMap_append, List.take_left]

end Parts

end Accepted

open Accepted (contents places)

/-- **A task** is made of valid settings and a record with a digest of a known algorithm. -/
theorem DownloadTask.of_eq_ok_iff {config : Config} {record : FileRecord} {t : DownloadTask} :
    DownloadTask.of config record = .ok t ↔ config.validate = .ok () ∧ t.config = config ∧
      t.record = record ∧ record.digest? = some t.expected ∧
      Digest.Algorithm.parse? t.expected.algorithm = some t.algorithm := by
  obtain ⟨config', record', expected', algorithm'⟩ := t
  unfold DownloadTask.of
  rcases config.validate with e | _
  · simp [Except.bind]
  rcases record.digest? with _ | expected
  · simp [Except.bind]
  simp only [Except.bind, Option.some.injEq, true_and]
  split
  · rename_i hp
    simp only [reduceCtorEq, false_iff]
    rintro ⟨-, -, rfl, h⟩
    simp [hp] at h
  · rename_i algorithm hp
    simp only [Except.ok.injEq, mk.injEq]
    constructor
    · rintro ⟨rfl, rfl, rfl, rfl⟩
      exact ⟨rfl, rfl, rfl, hp⟩
    · rintro ⟨rfl, rfl, rfl, h⟩
      exact ⟨rfl, rfl, rfl, Option.some.inj (hp.symm.trans h)⟩

namespace Download

/-- **A download that holds what it has accepted.** Besides, its sink holds what it had taken
before, and `rest`, which a failed write has left there. -/
structure Holds (d : Download) (t : DownloadTask) (before : Bytes) (l : Log) (as : List Accepted)
    (rest : Bytes) : Prop where
  task : d.task = t
  counts : d.session.Counts t.config.retryBudget.toNat t.origin (places as) (contents as).length
  row : as.map Accepted.entry <+: l.row t.subject t.origin.first
  parts : Accepted.Parts t.record as
  digester : d.digester = (Digest.Digester.new t.algorithm).absorb (contents as)
  written : d.sink.written = before ++ contents as ++ rest

/-- **A download in step with the log**: it holds what it has accepted, and its reader follows the
row behind that. -/
structure InStep (d : Download) (t : DownloadTask) (before : Bytes) (l : Log)
    (as : List Accepted) : Prop where
  holds : d.Holds t before l as []
  subject : d.reader.subject = t.subject
  follows : ∃ j, d.reader.Follows l t.record t.origin.first as.length j d.session.expecting

variable {d : Download} {t : DownloadTask} {before rest : Bytes} {l l' : Log} {as : List Accepted}

namespace Holds

/-- A log that grows keeps what a download holds. -/
theorem grow (h : d.Holds t before l as rest) (hl : l.Grown l') : d.Holds t before l' as rest :=
  ⟨h.task, h.counts, h.row.trans (hl.row _ _), h.parts, h.digester, h.written⟩

/-- Another download of the same task with the same digester and as many counted parts holds the
same, and besides what more its sink has taken. -/
theorem also {d' : Download} {more : Bytes} (h : d.Holds t before l as rest)
    (ht : d'.task = d.task) (hd : d'.digester = d.digester)
    (hs : d'.session.Counts t.config.retryBudget.toNat t.origin (places as) (contents as).length)
    (hk : d'.sink.written = d.sink.written ++ more) : d'.Holds t before l as (rest ++ more) :=
  ⟨ht.trans h.task, hs, h.row, h.parts, hd.trans h.digester, by
    rw [hk, h.written, List.append_assoc]⟩

/-- Another download whose sink has taken the same holds the same. -/
theorem same {d' : Download} (h : d.Holds t before l as rest) (ht : d'.task = d.task)
    (hd : d'.digester = d.digester)
    (hs : d'.session.Counts t.config.retryBudget.toNat t.origin (places as) (contents as).length)
    (hk : d'.sink.written = d.sink.written) : d'.Holds t before l as rest :=
  ⟨ht.trans h.task, hs, h.row, h.parts, hd.trans h.digester, hk.trans h.written⟩

/-- **The digest of a download** is that of what it holds. -/
theorem digest_eq (h : d.Holds t before l as rest) :
    d.digest = ⟨t.algorithm.name, t.algorithm.hexDigest (contents as)⟩ := by
  rw [digest, h.task, h.digester, Digest.Digester.value_absorb]

theorem isComplete_iff (h : d.Holds t before l as rest) :
    d.session.isComplete d.task.parts = true ↔ t.parts ≤ as.length := by
  rw [Session.isComplete, h.counts.partsWritten, h.task, Accepted.length_places]
  simp

/-- **One part more is held** once it is written, counted and absorbed. -/
theorem accept (h : d.Holds t before l as []) {a : Accepted}
    {sink : Sink} {session : Session} (hpart : a.IsPart t.record (as.length + 1))
    (hrow : (l.row t.subject t.origin.first)[as.length]? = some a.entry)
    (hw : d.sink.writeAll a.content = (.ok (), sink))
    (hs : d.session.accept? a.place a.content.length = some session) :
    { d with sink, session, digester := d.digester.absorb a.content }.Holds t before l
      (as ++ [a]) [] where
  task := h.task
  counts := by
    rw [Accepted.places_append, Accepted.contents_append, List.length_append]
    exact (h.counts.accept hs).1
  row := by
    obtain ⟨rest, hrest⟩ := h.row
    rw [← hrest, List.getElem?_append_right (Nat.le_of_eq (List.length_map _))] at hrow
    rcases rest with _ | ⟨e, rest⟩
    · simp at hrow
    · obtain rfl : e = a.entry := by simpa using hrow
      exact ⟨rest, by rw [← hrest]; simp⟩
  parts := h.parts.append hpart
  digester := by
    rw [h.digester, Digest.Digester.absorb_append, Accepted.contents_append]
  written := by
    rw [(Sink.writeAll_ok hw).1, h.written, Accepted.contents_append]
    simp

/-- A part always fits the counters. -/
theorem accept?_ne_none (h : d.Holds t before l as rest) (ht : t.record.Tiled) {a : Accepted}
    (hpart : a.IsPart t.record (as.length + 1)) :
    d.session.accept? a.place a.content.length ≠ none := by
  refine h.counts.accept?_ne_none ?_
  rw [← List.length_append, ← Accepted.contents_append,
    (h.parts.append hpart).length_contents ht]
  exact t.record.reach_lt_limit _

/-- The part that must come next always fits the counters. -/
theorem accept?_ne_none_of_checkPart (h : d.Holds t before l as rest) (ht : t.record.Tiled)
    {m : Delivery} {data : Bytes}
    (hc : d.session.checkPart d.task.record m = some (.ok data)) :
    d.session.accept? m.sequence data.length ≠ none := by
  obtain ⟨-, hc⟩ := Session.checkPart_eq_ok_iff.1 hc
  rw [h.task, h.counts.expectedPart, Accepted.length_places] at hc
  obtain ⟨-, hle, hlength⟩ := FileRecord.length_of_contentAt? ht hc
  refine h.counts.accept?_ne_none ?_
  rw [hlength, h.parts.length_contents ht, Nat.add_sub_cancel, ← ht.reach_succ hle]
  exact t.record.reach_lt_limit _

/-- A recovery always knows where to go on, if the places of the log are words. -/
theorem recover?_ne_none (h : d.Holds t before l as rest)
    (hsize : l.messages.size + 1 < Word.limit) : d.session.recover? ≠ none := by
  refine h.counts.recover?_ne_none fun p hp => ?_
  rw [Accepted.getLast?_places] at hp
  obtain ⟨⟨m, p⟩, hlast, rfl⟩ := Option.map_eq_some_iff.1 hp
  obtain ⟨-, hle, -⟩ := Log.row_behind h.row hlast
  simp only
  omega

/-- A reader that is opened behind what a download holds is in step. -/
theorem follows_fresh (h : d.Holds t before l as rest) :
    (Subscription.fresh t.subject (Session.resumption t.origin (places as))).Follows l t.record
      t.origin.first as.length 0 1 := by
  have hlen : as.length = (as.map Accepted.entry).length := (List.length_map _).symm
  have hwithin := h.row.length_le
  unfold Session.resumption
  rw [Accepted.getLast?_places]
  rcases hlast : (as.map Accepted.entry).getLast? with _ | ⟨m, p⟩
  · have hnil : as.length = 0 := by
      rw [hlen, List.getLast?_eq_none_iff.1 hlast]
      rfl
    simp only [hnil, Option.map_none]
    exact .fresh (Nat.le_refl _) (Nat.le_max_left _ _) List.drop_zero.symm (Nat.zero_le _)
  · obtain ⟨hfirst, hsize, hrow⟩ := Log.row_behind h.row hlast
    have hplace : (Position.sequence (p + 1)).first = p + 1 := by simp [Position.first]
    simp only [Option.map_some]
    refine .fresh ?_ ?_ ?_ ?_
    · omega
    · omega
    · rw [hplace, hlen, hrow]
    · omega

end Holds

/-- A download that has begun is in step. -/
theorem inStep_of (t : DownloadTask) (sink : Sink) (now : Nat) (l : Log) :
    (Download.of t sink (.fresh t.subject t.origin) now).InStep t sink.written l [] := by
  have hholds : (Download.of t sink (.fresh t.subject t.origin) now).Holds t sink.written l [] [] :=
    ⟨rfl, (Session.counts_new _ _).withState _, List.nil_prefix, .nil _,
      (Digest.Digester.absorb_nil _).symm, by simp [Download.of, contents]⟩
  exact ⟨hholds, rfl, 0, hholds.follows_fresh⟩

theorem InStep.grow (h : d.InStep t before l as) (hl : l.Grown l') : d.InStep t before l' as :=
  ⟨h.holds.grow hl, h.subject, h.follows.imp fun _ hf => hf.grow hl⟩

theorem InStep.one_le_cursor (h : d.InStep t before l as) : 1 ≤ d.reader.cursor := by
  obtain ⟨j, hf⟩ := h.follows
  exact Nat.le_trans t.origin.one_le_first hf.first_le

theorem InStep.isOpen (h : d.InStep t before l as) : d.reader.closed = false := by
  obtain ⟨j, hf⟩ := h.follows
  exact hf.isOpen

/-- Only a published message is ever doubled. -/
theorem InStep.doubled (h : d.InStep t before l as) :
    ∀ m, d.reader.doubled = some m → m.kind = .data := fun m hm => by
  obtain ⟨j, hf⟩ := h.follows
  exact (hf.doubled m hm).2.1

end Download

end FileRelay
