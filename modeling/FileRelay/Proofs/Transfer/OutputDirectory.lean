import FileRelay.Proofs.Path.FileTree
import FileRelay.Proofs.Transfer.Calls
import FileRelay.Proofs.Transfer.Turns
import FileRelay.Source.Inspect
import FileRelay.Transfer.Download

/-!
# Proofs/Transfer/OutputDirectory — a download into a directory leaves nothing elsewhere

No call of a transfer creates or removes a file, and so no turn of a download does
(`Download.run_sameNames`).  All that a download into a directory creates is the directory with
those above it, and one file directly in it, under the one segment that an accepted name says
(`Download.stays_in_directory`).
-/

namespace FileRelay

/-! ## Calls create nothing -/

namespace Exchange

/-- The files of two exchanges have the same names. -/
abbrev SameFiles (x x' : Exchange) : Prop := x.files.SameNames x'.files

theorem SameFiles.trans {x x' x'' : Exchange} (h : SameFiles x x') (h' : SameFiles x' x'') :
    SameFiles x x'' :=
  FileTree.SameNames.trans h h'

theorem meet_sameFiles (x : Exchange) (c : Call) : SameFiles x (x.meet c).2 := by
  unfold meet
  dsimp only
  split
  · exact .refl _
  · exact FileTree.sameNames_change _ _ _
  · exact .refl _

theorem attempt_sameFiles {α : Type} {c : Call} {x : Exchange}
    {act : Exchange → Except DeliveryError α × Exchange}
    (hact : ∀ y, (act y).2.files = y.files) : SameFiles x (attempt c act x).2 := by
  rcases attempt_cases c act x with ⟨e, -, h⟩ | h <;> rw [h]
  · exact x.meet_sameFiles c
  · rw [SameFiles, hact]
    exact x.meet_sameFiles c

theorem noted_files (x : Exchange) (r : Except Unit Log) : (x.noted r).2.files = x.files := by
  cases r <;> rfl

theorem ack_sameFiles (x : Exchange) (s : Subscription) (d : Delivery) :
    SameFiles x (x.ack s d).2 :=
  attempt_sameFiles fun y => y.noted_files _

theorem term_sameFiles (x : Exchange) (s : Subscription) (d : Delivery) :
    SameFiles x (x.term s d).2 :=
  attempt_sameFiles fun y => y.noted_files _

theorem subscribe_sameFiles (x : Exchange) (subject : String) (position : Position) :
    SameFiles x (x.subscribe subject position).2 :=
  attempt_sameFiles fun _ => rfl

theorem reply_sameFiles (x : Exchange) (address : Address) : SameFiles x (x.reply address).2 :=
  attempt_sameFiles fun _ => rfl

theorem get_sameFiles (x : Exchange) (key : String) : SameFiles x (x.get key).2 :=
  attempt_sameFiles fun _ => rfl

theorem unsubscribe_sameFiles (x : Exchange) (s : Subscription) :
    SameFiles x (x.unsubscribe s).2 := by
  have hm := x.meet_sameFiles .unsubscribe
  unfold unsubscribe
  split
  all_goals rename_i hmeet; rw [hmeet] at hm; exact hm

theorem hear_sameFiles (x : Exchange) (s : Subscription) (timeout : Nat) :
    SameFiles x (x.hear s timeout).2.2 := by
  have hm := x.meet_sameFiles .next
  unfold hear
  split
  · exact .refl _
  split
  all_goals rename_i hmeet; rw [hmeet] at hm; exact hm

theorem fetch_sameFiles (x : Exchange) (id : String) : SameFiles x (x.fetch id).2 := by
  have hget := x.get_sameFiles (recordKey id)
  unfold fetch
  split
  all_goals rename_i hg; rw [hg] at hget; exact hget

end Exchange

/-! ## A download creates nothing -/

namespace Download

open Exchange (SameFiles)

theorem close_sameFiles (d : Download) (x : Exchange) : SameFiles x (d.close x).2 :=
  x.unsubscribe_sameFiles d.reader

theorem breakOff_sameFiles (d : Download) (why : Failure) (x : Exchange) :
    SameFiles x (d.breakOff why x).2 :=
  d.close_sameFiles x

theorem answer_sameFiles (d : Download) (replyTo : Option Address) (x : Exchange) :
    SameFiles x (d.answer replyTo x).2 := by
  unfold answer
  split
  · exact .refl _
  rename_i address
  have hreply := x.reply_sameFiles address
  split
  all_goals rename_i hr; rw [hr] at hreply
  · exact hreply.trans (d.breakOff_sameFiles _ _)
  · exact hreply

theorem accept_sameFiles (d : Download) (m : Delivery) (data : Bytes) (x : Exchange) :
    SameFiles x (d.accept m data x).2 := by
  unfold accept
  dsimp only
  split
  · exact breakOff_sameFiles _ _ x
  split
  · exact .refl _
  · unfold acknowledge
    split
    · exact x.ack_sameFiles _ m
    · exact .refl _

theorem resume_sameFiles (d : Download) (reason : Anomaly) (p : Position) (x : Exchange) :
    SameFiles x (d.resume reason p x).2 := by
  have hopen := x.subscribe_sameFiles d.task.subject p
  unfold resume
  dsimp only
  split
  all_goals rename_i hs; rw [show x.subscribe d.task.subject p = _ from hs] at hopen; exact hopen

theorem recover_sameFiles (d : Download) (m : Delivery) (reason : Anomaly) (x : Exchange) :
    SameFiles x (d.recover m reason x).2 := by
  have hclose := (x.term_sameFiles d.reader m).trans (d.close_sameFiles _)
  unfold recover
  dsimp only
  split
  · exact hclose
  · unfold giveUp
    dsimp only
    split <;> exact hclose
  · exact hclose.trans (resume_sameFiles _ _ _ _)

theorem turn_sameFiles (d : Download) (x : Exchange) : SameFiles x (d.turn x).2 := by
  have hhear := x.hear_sameFiles d.reader d.task.config.readTimeoutMs.toNat
  unfold turn
  split
  · exact .refl _
  dsimp only
  refine hhear.trans ?_
  split
  · exact breakOff_sameFiles _ _ _
  · exact breakOff_sameFiles _ _ _
  · unfold rest
    split <;> exact .refl _
  · exact answer_sameFiles _ _ _
  · unfold take
    split
    · exact .refl _
    · exact accept_sameFiles _ _ _ _
    · exact recover_sameFiles _ _ _ _

theorem finish_sameFiles (d : Download) (x : Exchange) : SameFiles x (d.finish x).2.2 := by
  have hclose := d.close_sameFiles x
  unfold finish
  dsimp only
  split <;> exact hclose

theorem complete_sameFiles (d : Download) (x : Exchange) : SameFiles x (d.complete x).2.2 := by
  have hturns : SameFiles x (Turn.takeTurns turn (d.task.patience x) d x).2 :=
    Turn.takeTurns_invariant (P := fun _ x' => SameFiles x x')
      (fun d' x' h => h.trans (d'.turn_sameFiles x')) _ d x (.refl _)
  unfold complete
  split
  all_goals rename_i ht; rw [ht] at hturns
  · exact hturns
  · exact hturns
  · exact hturns.trans (finish_sameFiles _ _)

/-- **A download creates nothing**, and removes nothing. -/
theorem run_sameFiles (config : Config) (record : FileRecord) (sink : Sink) (x : Exchange) :
    SameFiles x (run config record sink x).2 := by
  unfold run
  split
  · exact .refl _
  rename_i task _
  have hopen := x.subscribe_sameFiles task.subject task.origin
  split
  all_goals rename_i hs; rw [hs] at hopen
  · exact hopen
  rename_i reader x'
  have hrest := (of task sink reader x'.time.now).complete_sameFiles x'
  split
  all_goals rename_i hc; rw [hc] at hrest; exact hopen.trans hrest

/-! ## Into a directory -/

/-- **The names of a download's file**: those of the directory, and the one segment that the name on
record says. -/
def InDirectory (dir : Path) (record : FileRecord) (made : FileTree) (ns : List Bytes) : Prop :=
  ∃ s parent, Path.IsBareName record.name s ∧ made.resolve dir = .ok (.below parent) ∧
    ns = parent ++ [Bytes.ofText (String.ofList s)]

/-- **What making the file comes to**: nothing, the directory, or the directory and the file. -/
theorem createIn_cases {dir : Path} (hdir : dir ≠ []) (record : FileRecord) (t : FileTree) :
    (∃ why, createIn dir record t = (.error why, t)) ∨
      ∃ made, t.makeDirs dir = .ok made ∧ ((∃ why, createIn dir record t = (.error why, made)) ∨
        ∃ ns, InDirectory dir record made ns ∧ createIn dir record t =
          (.ok (Path.join dir (Bytes.ofText record.name)),
            made.put ns (.file [] Calendar.Instant.epoch))) := by
  unfold createIn
  rcases hname : Path.checkOutputName record.name with e | ⟨⟨⟩⟩
  · exact .inl ⟨_, rfl⟩
  rcases hmade : t.makeDirs dir with e | made
  · exact .inl ⟨_, rfl⟩
  refine .inr ⟨made, rfl, ?_⟩
  dsimp only
  split
  · exact .inl ⟨_, rfl⟩
  · rename_i t' hwrite
    obtain ⟨s, hbare⟩ := (Path.checkOutputName_iff _).1 hname
    obtain ⟨parent, hparent, rfl⟩ := FileTree.write_join hbare hdir hwrite
    exact .inr ⟨_, ⟨s, parent, hbare, hparent, rfl⟩, rfl⟩

/-- What a download into a directory comes to: it ends without a file, or the file is made first and
nothing but its content changes afterwards. -/
theorem runInto_cases (config : Config) (id : String) (dir : Path) (x : Exchange) :
    (∃ why, (x.fetch id).1 = .error why ∧ (runInto config id dir x).1 = none ∧
        (runInto config id dir x).2.2 = (x.fetch id).2) ∨
      ∃ record, (x.fetch id).1 = .ok record ∧
        (createIn dir record (x.fetch id).2.files).1.toOption = (runInto config id dir x).1 ∧
        FileTree.SameNames (createIn dir record (x.fetch id).2.files).2
          (runInto config id dir x).2.2.files := by
  unfold runInto
  rcases hfetch : x.fetch id with ⟨why | record, x'⟩
  · exact .inl ⟨why, rfl, rfl, rfl⟩
  refine .inr ⟨record, rfl, ?_⟩
  dsimp only
  rcases hcreate : createIn dir record x'.files with ⟨why | path, t⟩
  · exact ⟨rfl, .refl _⟩
  · refine ⟨rfl, ?_⟩
    dsimp only
    exact FileTree.SameNames.trans
      (run_sameFiles config record .unlimited { x' with files := t })
      (FileTree.sameNames_change _ _ _)

/-- **What is new after a download into a directory** is a directory that was made, or the file. -/
theorem runInto_new {config : Config} {id : String} {dir : Path} {x : Exchange} (hdir : dir ≠ [])
    {ns : List Bytes} (hns : ns ∈ (runInto config id dir x).2.2.files.names)
    (hnew : ns ∉ x.files.names) :
    ∃ record made, (x.fetch id).1 = .ok record ∧ (x.fetch id).2.files.makeDirs dir = .ok made ∧
      ((ns, .dir) ∈ made.entries ∨ InDirectory dir record made ns) := by
  have hfetch := x.fetch_sameFiles id ns
  obtain ⟨why, -, -, hx⟩ | ⟨record, hrecord, -, hsame⟩ := runInto_cases config id dir x
  · rw [hx] at hns
    exact absurd (hfetch.1 hns) hnew
  have hcreated := (hsame ns).1 hns
  rcases createIn_cases hdir record (x.fetch id).2.files with ⟨why, hc⟩ | ⟨made, hmade, hc⟩
  · rw [hc] at hcreated
    exact absurd (hfetch.1 hcreated) hnew
  refine ⟨record, made, hrecord, hmade, ?_⟩
  have hdirectories : ns ∈ made.names → (ns, .dir) ∈ made.entries := fun h =>
    ((FileTree.extends_makeDirs hmade).names ns h).resolve_left fun h => hnew (hfetch.1 h)
  rcases hc with ⟨why, hc⟩ | ⟨ms, hput, hc⟩
  · rw [hc] at hcreated
    exact .inl (hdirectories hcreated)
  · rw [hc] at hcreated
    obtain hcreated | rfl := FileTree.mem_names_put.1 hcreated
    · exact .inl (hdirectories hcreated)
    · exact .inr hput

/-- **A download that gives a path** has made the file, directly in the directory. -/
theorem runInto_path {config : Config} {id : String} {dir path : Path} {x : Exchange}
    (hdir : dir ≠ []) (h : (runInto config id dir x).1 = some path) :
    ∃ record made ns, (x.fetch id).1 = .ok record ∧
      path = Path.join dir (Bytes.ofText record.name) ∧
      (x.fetch id).2.files.makeDirs dir = .ok made ∧ InDirectory dir record made ns ∧
      ns ∈ (runInto config id dir x).2.2.files.names := by
  obtain ⟨why, -, hnone, -⟩ | ⟨record, hrecord, hpath, hsame⟩ :=
    runInto_cases config id dir x
  · rw [hnone] at h
    cases h
  rw [h] at hpath
  rcases createIn_cases hdir record (x.fetch id).2.files with
    ⟨why, hc⟩ | ⟨made, hmade, ⟨why, hc⟩ | ⟨ns, hput, hc⟩⟩
  · rw [hc] at hpath
    cases hpath
  · rw [hc] at hpath
    cases hpath
  · rw [hc] at hpath hsame
    refine ⟨record, made, ns, hrecord, (Option.some.inj hpath).symm, hmade, hput, ?_⟩
    exact (hsame ns).2 (FileTree.mem_names_put.2 (.inr rfl))

end Download

/-- **The name of a source is accepted exactly when it shows.** -/
theorem Source.checkOutputName_name {t : FileTree} {p : Path} {source : Source}
    (h : inspect t p = .ok source) :
    Path.checkOutputName source.name = .ok () ↔
      ∃ c ∈ source.name.toList, Text.isBlank c = false := by
  unfold inspect at h
  split at h
  · cases h
  · cases h
  · cases h
  split_ifs at h
  split at h
  · cases h
  rename_i name hname
  obtain rfl := Except.ok.inj h
  rw [Path.checkOutputName_iff]
  exact ⟨fun ⟨_, hbare⟩ => hbare.shows, fun hshows => ⟨_, Path.isBareName_lossyText hname hshows⟩⟩

/-! ## The law -/

/-- **What comes under a name on record stays in the directory.**  A name is accepted exactly when it
is bare; behind a directory it is the one segment that it says.  All that is new after a download into
a directory is a directory made on the way there and the file directly in it, and a download that
gives a path has made this file.  The name of a source is accepted unless it does not show. -/
theorem output_stays_in_directory :
    (∀ name, Path.checkOutputName name = .ok () ↔ ∃ s, Path.IsBareName name s) ∧
    (∀ name, Path.checkOutputName name = .ok () → ∃ s, Path.IsBareName name s ∧
      ∀ dir : Path, dir ≠ [] → Path.components (Path.join dir (Bytes.ofText name)) =
        Path.components dir ++ [.name (Bytes.ofText (String.ofList s))]) ∧
    (∀ (config : Config) (id : String) (dir : Path) (x : Exchange), dir ≠ [] →
      (∀ ns ∈ (Download.runInto config id dir x).2.2.files.names, ns ∉ x.files.names →
        ∃ record made, (x.fetch id).1 = .ok record ∧ (x.fetch id).2.files.makeDirs dir = .ok made ∧
          ((ns, .dir) ∈ made.entries ∨ Download.InDirectory dir record made ns)) ∧
      ∀ path, (Download.runInto config id dir x).1 = some path →
        ∃ record made ns, (x.fetch id).1 = .ok record ∧
          path = Path.join dir (Bytes.ofText record.name) ∧
          (x.fetch id).2.files.makeDirs dir = .ok made ∧ Download.InDirectory dir record made ns ∧
          ns ∈ (Download.runInto config id dir x).2.2.files.names) ∧
    ∀ (t : FileTree) (p : Path) (source : Source), Source.inspect t p = .ok source →
      (Path.checkOutputName source.name = .ok () ↔
        ∃ c ∈ source.name.toList, Text.isBlank c = false) := by
  refine ⟨Path.checkOutputName_iff, fun name h => ?_, fun config id dir x hdir => ⟨?_, ?_⟩,
    fun t p source => Source.checkOutputName_name⟩
  · obtain ⟨s, hbare⟩ := (Path.checkOutputName_iff name).1 h
    exact ⟨s, hbare, fun dir hdir => hbare.components_join hdir⟩
  · exact fun ns hns hnew => Download.runInto_new hdir hns hnew
  · exact fun path hpath => Download.runInto_path hdir hpath

/-- A name on record that begins with a dot goes into a directory that is written with two slashes and
has to be made, and the name of a source is taken from a path. -/
theorem output_stays_in_directory_of_dots :
    ∃ (x : Exchange) (dir : Path) (path : Path) (ns : List Bytes) (t : FileTree) (source : Source),
      Path.checkOutputName "./report.txt" = .ok () ∧ dir ≠ [] ∧
      (∃ s, Path.IsBareName "./report.txt" s ∧
        Path.components (Path.join dir (Bytes.ofText "./report.txt")) =
          Path.components dir ++ [.name (Bytes.ofText (String.ofList s))]) ∧
      (Download.runInto .usual "f" dir x).1 = some path ∧
      ns ∈ (Download.runInto .usual "f" dir x).2.2.files.names ∧ ns ∉ x.files.names ∧
      (∃ record made, (x.fetch "f").1 = .ok record ∧ (x.fetch "f").2.files.makeDirs dir = .ok made ∧
        ((ns, .dir) ∈ made.entries ∨ Download.InDirectory dir record made ns)) ∧
      (∃ record made ns, (x.fetch "f").1 = .ok record ∧
        path = Path.join dir (Bytes.ofText record.name) ∧
        (x.fetch "f").2.files.makeDirs dir = .ok made ∧ Download.InDirectory dir record made ns ∧
        ns ∈ (Download.runInto .usual "f" dir x).2.2.files.names) ∧
      Source.inspect t path = .ok source ∧
      (Path.checkOutputName source.name = .ok () ↔
        ∃ c ∈ source.name.toList, Text.isBlank c = false) := by
  let record : FileRecord :=
    ⟨"f", "./report.txt", "", "t", 1, 1, 1, 1, .epoch, some "SHA-256", some "00FF", some 1⟩
  let x : Exchange := { Exchange.new default .empty with
    store := ⟨KeyMap.ofList [(recordKey "f", record.toText, 1)], 1⟩ }
  let dir : Path := Bytes.ofText "out//"
  let path : Path := Bytes.ofText "out//./report.txt"
  let ns : List Bytes := [Bytes.ofText "out", Bytes.ofText "report.txt"]
  let t : FileTree := FileTree.empty.place path [1] .epoch
  let source : Source := ⟨path, "report.txt", 1, .epoch⟩
  obtain ⟨-, hjoin, hdownload, hsource⟩ := output_stays_in_directory
  have hname : Path.checkOutputName "./report.txt" = .ok () := by decide +kernel
  have hdir : dir ≠ [] := by decide +kernel
  have hpath : (Download.runInto .usual "f" dir x).1 = some path := by decide +kernel
  have hns : ns ∈ (Download.runInto .usual "f" dir x).2.2.files.names := by decide +kernel
  have hnew : ns ∉ x.files.names := by decide +kernel
  have hinspect : Source.inspect t path = .ok source := by decide +kernel
  obtain ⟨s, hbare, hcomponents⟩ := hjoin _ hname
  obtain ⟨hall, hmade⟩ := hdownload .usual "f" dir x hdir
  exact ⟨x, dir, path, ns, t, source, hname, hdir, ⟨s, hbare, hcomponents dir hdir⟩, hpath, hns, hnew,
    hall ns hns hnew, hmade path hpath, hinspect, hsource t path source hinspect⟩

end FileRelay
