import FileRelay.Proofs.Record.Naming
import FileRelay.Proofs.Transfer.AllOrNothing

/-!
# Proofs/Transfer/Naming — what uploads publish does not collide

Each message of an upload is of the subject of its file, and its label bears the identifier of its
part (`Upload.Names`).  The identifiers of files are rows of hexadecimal digits, so messages of two
uploads have one subject only if the prefix and the file are the same, and one identifier only if they
are the same part of the same file (`Upload.Attempts.names_apart`).
-/

namespace FileRelay.Upload

/-- **A message that is named** for a part of a file. -/
structure Names (config : Config) (id : String) (m : Published) (l : Label) : Prop where
  subject : m.subject = partSubject config.partPrefix id
  label : Label.ofHeaders m.headers = .ok l
  fileId : l.fileId = id
  part : l.id = partId id l.number

variable {config config' : Config} {path path' : Path} {options options' : UploadOptions}
  {x x' : Exchange} {u₀ : Upload} {p : UploadPlan} {start : Nat} {l : Log} {as : List Accepted}
  {a : Accepted} {result : Except Failure UploadReport}

/-- The label of a chunk bears the identifier of its part. -/
theorem id_partOf (u : Upload) (c : Chunk) :
    (u.partOf c).1.id = partId u.record.id (u.partOf c).1.number := by
  unfold partOf
  split <;> rfl

/-- **Each message that an upload leaves** is named for its part. -/
theorem Leaves.names (h : u₀.Leaves start l as) (hb : u₀.Begun config) (ha : a ∈ as) :
    ∃ label, Names config u₀.record.id a.message label := by
  obtain ⟨i, hi⟩ := List.getElem?_of_mem ha
  obtain ⟨c, -, hmessage, hread, htells⟩ := h.told hb hi
  refine ⟨_, ?_, hread, htells.fileId, u₀.id_partOf c⟩
  rw [hmessage, ← hb.subject]
  rfl

/-- **The identifier of a file to upload** is made from what describes the file. -/
theorem plan_id (h : Upload.plan config path options x = .ok p) :
    ∃ name contentType length date,
      p.record.id = FileRecord.deriveId name contentType length date := by
  obtain ⟨-, -, -, -, hrecord⟩ := plan_ok h
  obtain ⟨-, -, -, hid⟩ := recordOf_ok hrecord
  exact ⟨_, _, _, _, hid⟩

theorem dot_notMem_plan (h : Upload.plan config path options x = .ok p) :
    '.' ∉ p.record.id.toList := by
  obtain ⟨name, contentType, length, date, hid⟩ := plan_id h
  rw [hid]
  exact FileRecord.dot_notMem_deriveId name contentType length date

namespace Attempts

/-- **Each message that an attempt has sent** is named for a part of the file that was planned. -/
theorem names (h : Attempts config path options x as result x') (ha : a ∈ as) :
    ∃ p label, Upload.plan config path options x = .ok p ∧
      Names config p.record.id a.message label := by
  obtain ⟨rfl, -⟩ | ⟨p, u₀, start, hp, hrecord, hb, hleaves, -⟩ := h.leaves
  · exact absurd ha List.not_mem_nil
  · obtain ⟨label, hnames⟩ := hleaves.names hb ha
    exact ⟨p, label, hp, hrecord ▸ hnames⟩

/-- **Names do not collide.**  The identifier of a part says which part of which file it is, whatever
the identifiers of files; and a subject says its prefix and its file, if there are no dots in the
identifiers of files, as there are none in those that are made from descriptions.  So messages of any
two uploads have one subject exactly if the prefixes and the files are the same, and one identifier
exactly if they are the same part of the same file. -/
theorem names_apart :
    (∀ (f g : String) (m n : UInt64), partId f m = partId g n ↔ f = g ∧ m = n) ∧
    (∀ p q f g : String, '.' ∉ f.toList → '.' ∉ g.toList →
      (partSubject p f = partSubject q g ↔ p = q ∧ f = g)) ∧
    (∀ (name contentType : String) (length : UInt64) (date : Calendar.Instant),
      '.' ∉ (FileRecord.deriveId name contentType length date).toList) ∧
    ∀ (config config' : Config) (path path' : Path) (options options' : UploadOptions)
      (x x' y y' : Exchange) (as bs : List Accepted) (result result' : Except Failure UploadReport),
      Attempts config path options x as result x' → Attempts config' path' options' y bs result' y' →
      ∀ a ∈ as, ∀ b ∈ bs, ∃ p q l k, Upload.plan config path options x = .ok p ∧
        Upload.plan config' path' options' y = .ok q ∧
        Label.ofHeaders a.message.headers = .ok l ∧ Label.ofHeaders b.message.headers = .ok k ∧
        l.fileId = p.record.id ∧ k.fileId = q.record.id ∧
        (a.message.subject = b.message.subject ↔
          config.partPrefix = config'.partPrefix ∧ p.record.id = q.record.id) ∧
        (l.id = k.id ↔ p.record.id = q.record.id ∧ l.number = k.number) := by
  refine ⟨fun _ _ _ _ => partId_inj, fun _ _ _ _ => partSubject_inj,
    FileRecord.dot_notMem_deriveId, fun config config' path path' options options' x x' y y' as bs
      result result' h h' a ha b hb => ?_⟩
  obtain ⟨p, l, hp, hl⟩ := h.names ha
  obtain ⟨q, k, hq, hk⟩ := h'.names hb
  refine ⟨p, q, l, k, hp, hq, hl.label, hk.label, hl.fileId, hk.fileId, ?_, ?_⟩
  · rw [hl.subject, hk.subject, partSubject_inj (dot_notMem_plan hp) (dot_notMem_plan hq)]
  · rw [hl.part, hk.part, partId_inj]

/-- One file under two prefixes, of which one begins with the other: no message of one upload has the
subject of a message of the other. -/
theorem names_apart_of_two : ∃ (config : Config) (x x' y' : Exchange) (as bs : List Accepted)
    (result result' : Except Failure UploadReport), config.partPrefix = "parts.more" ∧
      Attempts .usual [0x61] ⟨none, none, none⟩ x as result x' ∧
      Attempts config [0x61] ⟨none, none, none⟩ x bs result' y' ∧ as ≠ [] ∧ bs ≠ [] ∧
      '.' ∉ "7f".toList ∧ partSubject "parts" "7f" ≠ partSubject "parts.more" "7f" ∧
      ∀ a ∈ as, ∀ b ∈ bs, a.message.subject ≠ b.message.subject := by
  obtain ⟨-, hsubjects, -, hmessages⟩ := names_apart
  let config : Config := { Config.usual with partPrefix := "parts.more" }
  let files : FileTree := ⟨[([[0x61]], .file [7] .epoch)], none⟩
  have hprefix : Config.usual.partPrefix ≠ config.partPrefix := by decide
  have hdot : '.' ∉ "7f".toList := by decide
  have hrun : (run .usual [0x61] ⟨none, none, none⟩ (.new default files)).1.result.toOption.isSome
      = true := by decide +kernel
  have hrun' : (run config [0x61] ⟨none, none, none⟩ (.new default files)).1.result.toOption.isSome
      = true := by decide +kernel
  obtain ⟨as, report, x', h, has⟩ := exists_of_run hrun
  obtain ⟨bs, report', y', h', hbs⟩ := exists_of_run hrun'
  refine ⟨config, _, x', y', as, bs, _, _, rfl, h, h', has, hbs, hdot,
    fun he => absurd ((hsubjects _ _ _ _ hdot hdot).1 he).1 (by decide), fun a ha b hb he => ?_⟩
  obtain ⟨p, q, l, k, -, -, -, -, -, -, hsubject, -⟩ :=
    hmessages _ _ _ _ _ _ _ _ _ _ _ _ _ _ h h' a ha b hb
  exact hprefix (hsubject.1 he).1

end Attempts

end FileRelay.Upload
