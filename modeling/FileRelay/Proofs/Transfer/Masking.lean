import FileRelay.Proofs.Transfer.Stored
import FileRelay.Proofs.Transfer.Striking

/-!
# Proofs/Transfer/Masking — recoveries make up for faults

Where the damage to a part always shows, all that a download has accepted of a stored file came whole
(`Holds.beginning`), whatever faults are armed.  Each recovery is paid for by a firing (`Sure.cost`).
So a download whose budget is not smaller than the number of firings verifies the file, if no fault
leaves out the last part: for a reader never waits in vain for that.
-/

namespace FileRelay

open Accepted (contents places)

/-- **Parts whose damage shows**: with its first octet turned over, none of them is that part. -/
def Accepted.DamageShows (r : FileRecord) (as : List Accepted) : Prop :=
  ∀ (i : Nat) (a : Accepted), as[i]? = some a →
    r.contentAt? (i + 1) a.message.headers (Bytes.flipped a.message.payload) = none

namespace DownloadTask.Stored

variable {t : DownloadTask} {l : Log} {as : List Accepted} {i : Nat} {a : Accepted}

/-- Where a part of a stored file stands in its row. -/
theorem getElem? (h : t.Stored l as) (ha : as[i]? = some a) :
    (l.row t.subject t.origin.first)[i]? = some a.entry := by
  obtain ⟨rest, hrest⟩ := h.row
  rw [← hrest, List.getElem?_append_left, List.getElem?_map, ha]
  · rfl
  · rw [List.length_map]
    exact (List.getElem?_eq_some_iff.1 ha).1

/-- The message of a part has its content. -/
theorem content (h : t.Stored l as) (ha : as[i]? = some a) :
    t.record.contentAt? (i + 1) a.message.headers a.message.payload = some a.content := by
  rw [← h.whole a (List.mem_of_getElem? ha)]
  exact (h.parts i a ha).content

end DownloadTask.Stored

namespace Download

variable {d : Download} {t : DownloadTask} {before rest : Bytes} {l : Log}
  {as done : List Accepted} {x : Exchange} {total : Nat}

/-- **What a download has accepted of a stored file** came whole. -/
theorem Holds.beginning (h : d.Holds t before l done rest) (hs : t.Stored l as)
    (hshow : Accepted.DamageShows t.record as) (ht : t.record.Tiled) : done <+: as := by
  refine List.prefix_iff_getElem?.2 fun i hi => ?_
  have hlt : i < as.length := by
    rw [hs.length]
    exact Nat.lt_of_lt_of_le hi (h.parts.length_le ht)
  have ha : as[i]? = some as[i] := List.getElem?_eq_getElem hlt
  have hb : done[i]? = some done[i] := List.getElem?_eq_getElem hi
  rw [ha]
  have hentry : done[i].entry = as[i].entry := by
    have hrow := List.prefix_iff_getElem?.1 h.row i (by rwa [List.length_map])
    rw [List.getElem_map, hs.getElem? ha] at hrow
    exact (Option.some.inj hrow).symm
  obtain ⟨hdelivers, hcontent⟩ := h.parts i _ hb
  have hwhole := hs.whole _ (List.getElem_mem hlt)
  have hcontent' := hs.content ha
  have hshow := hshow i _ ha
  rcases hA : as[i] with ⟨message, place, payload, content⟩
  rcases hB : done[i] with ⟨message', place', payload', content'⟩
  rw [hA, hB] at hentry
  rw [hA] at hwhole hcontent' hshow
  rw [hB] at hdelivers hcontent
  obtain ⟨rfl, rfl⟩ := Prod.mk.inj hentry
  obtain rfl : payload = message'.payload := hwhole
  rcases hdelivers with hd | hd
  · obtain rfl : payload' = message'.payload := hd
    obtain rfl : content' = content := Option.some.inj (hcontent.symm.trans hcontent')
    rfl
  · obtain rfl : payload' = Bytes.flipped message'.payload := hd
    exact absurd (hcontent.symm.trans hshow) (by simp)

/-! ## Any faults -/

/-- **A download that only faults disturb.** -/
structure Calmly (d : Download) (t : DownloadTask) (before : Bytes) (msgs : Array Published)
    (x : Exchange) : Prop where
  inStep : ∃ as, d.InStep t before x.log as
  calm : x.Calm
  reliable : d.sink.Reliable
  messages : x.log.messages = msgs

/-- A download that only faults disturb can be broken off for one reason. -/
def WornOut (d : Download) (t : DownloadTask) (before : Bytes) (as : List Accepted)
    (why : Failure) : Prop :=
  d.sink.written = before ++ contents as ∧
    why = .tooManyMismatches t.config.retryBudget.toNat as.length (contents as).length

/-- **A turn of a download that only faults disturb.** -/
theorem Calmly.turn {msgs : Array Published} (h : d.Calmly t before msgs x) (ht : t.record.Tiled)
    (hsize : msgs.size + 1 < Word.limit) :
    (d.turn x).1.All (fun d' => d'.Calmly t before msgs (d.turn x).2)
      (fun d' => d'.sink.Reliable ∧ ∃ as, d'.Holds t before (d.turn x).2.log as [] ∧
        (d.turn x).2.log.messages = msgs)
      (fun d' why => ∃ as, (d'.Holds t before (d.turn x).2.log as [] ∧
        (d.turn x).2.log.messages = msgs) ∧ d'.WornOut t before as why) := by
  obtain ⟨as, hin⟩ := h.inStep
  have hintact := hin.turn ht h.calm.honest
  have hgoes := hin.goes ht h.calm.unhindered h.reliable (h.messages ▸ hsize)
  have hcalm := h.calm.later (hin.turn_later ht h.calm.rules)
  have hmessages := (hin.turn_messages ht h.calm).trans h.messages
  generalize (d.turn x).1 = r at hintact hgoes ⊢
  generalize (d.turn x).2 = x₂ at hintact hgoes hcalm hmessages ⊢
  cases hgoes with
  | completes =>
    obtain ⟨as', hholds⟩ := hintact
    exact ⟨h.reliable, as', hholds, hmessages⟩
  | rests | answers | recovers => exact ⟨hintact, hcalm, h.reliable, hmessages⟩
  | tires =>
    obtain ⟨as', hholds⟩ := hintact
    exact ⟨h.reliable, as', hholds, hmessages⟩
  | accepts hl hx hn hc hw hs =>
    exact ⟨hintact, hcalm, h.reliable.of_limits (Sink.writeAll_ok hw).2, hmessages⟩
  | givesUp =>
    obtain ⟨as', rest, hholds, hrest, hwhy⟩ := hintact
    obtain rfl : rest = [] := by
      by_contra hne
      obtain ⟨e, he⟩ := hrest hne
      simp at he
    obtain ⟨hbudget, hparts, hoctets⟩ := hwhy _ _ _ rfl
    refine ⟨as', ⟨hholds, hmessages⟩, ?_, by rw [hbudget, hparts, hoctets]⟩
    have := hholds.written
    rwa [List.append_nil] at this

/-! ## No more faults than the budget allows -/

/-- **A download that is sure of its file**: what it has recovered, what the faults can still strike,
and a doubled message that is to come, are together no more than a total. -/
structure Sure (d : Download) (t : DownloadTask) (before : Bytes) (l : Log) (as : List Accepted)
    (total : Nat) (done : List Accepted) (x : Exchange) : Prop where
  holds : d.Holds t before x.log done []
  best : done <+: as
  subject : d.reader.subject = t.subject
  keepsUp : d.reader.KeepsUp x.log t.record t.origin.first done.length d.session.expecting
  calm : x.Calm
  reliable : d.sink.Reliable
  messages : x.log.messages = l.messages
  options : x.log.options = l.options
  last : ∀ a, as.getLast? = some a → x.log.NeverDrops a.place
  cost : d.session.recoveries + x.log.firings + d.reader.debt ≤ total

/-- **A download that is sure of its file** and has it. -/
structure Got (d : Download) (t : DownloadTask) (before : Bytes) (as : List Accepted)
    (total : Nat) (x : Exchange) : Prop where
  holds : d.Holds t before x.log as []
  reliable : d.sink.Reliable
  recoveries : d.session.recoveries ≤ total

namespace Sure

variable {x₁ x₂ : Exchange} {s : Subscription} {timeout : Nat}

/-- The last part is still ahead of a download that lacks parts, and not left out. -/
theorem ahead (h : d.Sure t before l as total done x) (hs : t.Stored l as)
    (hlacks : done.length < t.parts) : ∃ i e, done.length ≤ i ∧
      (x.log.row d.reader.subject t.origin.first)[i]? = some e ∧ x.log.NeverDrops e.2 := by
  have hlen := hs.length
  have hlast : as[as.length - 1]? = some as[as.length - 1] :=
    List.getElem?_eq_getElem (by omega)
  refine ⟨as.length - 1, as[as.length - 1].entry, by omega, ?_, h.last _ ?_⟩
  · rw [h.subject, Log.row_congr h.messages]
    exact hs.getElem? hlast
  · rw [List.getLast?_eq_getElem?, hlast]

/-- Hence its reader does not wait, and a look finds something. -/
theorem waits_eq (h : d.Sure t before l as total done x) (hs : t.Stored l as)
    (hlacks : done.length < t.parts) {s' : Subscription} {l' : Log}
    (hw : Subscription.Waits x.time.coming d.reader x.log s' l') :
    s' = d.reader ∧ l' = x.log ∧ ∀ s'' l'', ¬ s'.Polls l' none s'' l'' := by
  obtain ⟨i, e, hi, he, hnever⟩ := h.ahead hs hlacks
  rw [h.calm.coming] at hw
  obtain ⟨rfl, rfl⟩ := h.keepsUp.waits_eq he hi hnever hw
  exact ⟨rfl, rfl, fun _ _ => h.keepsUp.not_vain he hi hnever⟩

/-- **What a download that is sure of its file hears**: its next part, or something else for which a
firing pays, and which is refused. -/
theorem heard (h : d.Sure t before l as total done x) (hs : t.Stored l as)
    (hshow : 0 < total → Accepted.DamageShows t.record as) (hlacks : done.length < t.parts)
    {m : Delivery} {s : Subscription} {l' : Log} (hp : d.reader.Polls x.log (some m) s l')
    (hk : m.kind = .data) : ∃ n, x.log.Fired n l' ∧
      ((∃ a, as[done.length]? = some a ∧ m = .ofPublished a.message a.place d.session.expecting ∧
          s.debt ≤ n + d.reader.debt ∧ s.subject = t.subject ∧
          s.KeepsUp l' t.record t.origin.first (done.length + 1) (d.session.expecting + 1)) ∨
        (1 ≤ n + d.reader.debt ∧ d.Refuses m)) := by
  have hlen := hs.length
  have ha : as[done.length]? = some as[done.length] := List.getElem?_eq_getElem (by omega)
  have hrow : (x.log.row d.reader.subject t.origin.first)[done.length]?
      = some as[done.length].entry := by
    rw [h.subject, Log.row_congr h.messages]
    exact hs.getElem? ha
  obtain ⟨n, hn, ⟨e, he, hm, hdebt, hnext⟩ | ⟨hdebt, hbad⟩⟩ := h.keepsUp.found hp hk
  · obtain rfl : as[done.length].entry = e := Option.some.inj (hrow.symm.trans he)
    obtain ⟨hsubject, hkeeps⟩ := hnext _ (hs.content ha)
    exact ⟨n, hn, .inl ⟨_, ha, hm, hdebt, hsubject.trans h.subject, hkeeps⟩⟩
  · refine ⟨n, hn, .inr ⟨hdebt, fun content hnumber hc => ?_⟩⟩
    rw [h.holds.task, h.holds.counts.expectedPart, Accepted.length_places] at hc
    obtain ⟨e, he, hheaders, hpayload⟩ := hbad content hnumber hc
    obtain rfl : as[done.length].entry = e := Option.some.inj (hrow.symm.trans he)
    rw [hheaders, hpayload] at hc
    have hpos : 0 < total := by
      have := hn.spent h.keepsUp.armed
      have := h.cost
      omega
    exact absurd (hc.symm.trans (hshow hpos _ _ ha)) (by simp)

/-- A part of the stored file is not refused. -/
theorem not_refuses (h : d.Sure t before l as total done x) (hs : t.Stored l as) {a : Accepted}
    (ha : as[done.length]? = some a) :
    ¬ d.Refuses (.ofPublished a.message a.place d.session.expecting) := fun hm => by
  refine hm a.content rfl ?_
  rw [h.holds.task, h.holds.counts.expectedPart, Accepted.length_places]
  exact hs.content ha

/-- It never waits in vain. -/
theorem hearing (h : d.Sure t before l as total done x) (hs : t.Stored l as) : d.Hearing x := by
  intro hlacks s x' hl
  have hlt : done.length < t.parts := Nat.lt_of_not_le fun hle => by
    rw [h.holds.isComplete_iff.2 hle] at hlacks
    exact Bool.noConfusion hlacks
  cases hl with
  | silent _ hvain =>
    obtain ⟨s₁, l₁, hw, hp⟩ := hvain (.inl h.calm.agenda)
    exact (h.waits_eq hs hlt hw).2.2 _ _ hp

/-- What has fired is spent, and no fault is armed anew. -/
theorem last_of_fired (h : d.Sure t before l as total done x) {n : Nat} {l' : Log}
    (hn : x.log.Fired n l') (hf : x₂.log.faults = l'.faults) :
    ∀ a, as.getLast? = some a → x₂.log.NeverDrops a.place := fun a ha f hmem =>
  (h.last a ha).fired hn f (hf ▸ hmem)

/-- **A turn that answers a request** costs nothing. -/
theorem answers {n : Nat} {e : Event} (h : d.Sure t before l as total done x)
    (hs : t.Stored l as) (hlacks : done.length < t.parts) (hlater : x.Later x₂)
    (hmessages : x₂.log.messages = l.messages)
    (hl : x.Listens d.reader timeout (.flowControl (some (.issued n))) s x₁)
    (hx : x₁.Beside x₂) (hw : x₂.log.waiting = x₁.log.waiting.erase n) :
    { d with
      reader := s, lastActivity := x₁.time.now, flowReplies := d.flowReplies + 1
      events := d.events ++ [e] }.Sure t before l as total done x₂ := by
  have hgrown : x.log.Grown x₂.log := .of_messages (hmessages.trans h.messages.symm)
  have hcost := h.cost
  cases hl with
  | asked hw' hheld hdue hn hs' hlog =>
    obtain ⟨rfl, rfl, -⟩ := h.waits_eq hs hlacks hw'
    have hfaults : x₂.log.faults = x.log.faults := by rw [hx.faults, hlog]
    have hkeeps := h.keepsUp.answered hn (hmessages.trans h.messages.symm) hfaults
      (by rw [hx.issued, hlog]) (by rw [hw, hlog])
    subst hs'
    refine ⟨(h.holds.grow hgrown).same rfl rfl h.holds.counts rfl, h.best, h.subject, hkeeps,
      h.calm.later hlater, h.reliable, hmessages, hlater.options.trans h.options,
      h.last_of_fired (.refl _) hfaults, ?_⟩
    simp only [Log.firings, hfaults] at hcost ⊢
    exact hcost

/-- **A turn that accepts a part** has the next one of the stored file. -/
theorem accepts {m : Delivery} {data : Bytes} {sink : Sink} {session : Session} {e : Event}
    (h : d.Sure t before l as total done x) (hs : t.Stored l as)
    (hshow : 0 < total → Accepted.DamageShows t.record as) (hlacks : done.length < t.parts)
    (hlater : x.Later x₂) (hmessages : x₂.log.messages = l.messages)
    (hl : x.Listens d.reader timeout (.data m) s x₁) (hx : x₁.Beside x₂)
    (hn : m.number = d.session.expecting)
    (hc : d.task.record.contentAt? d.session.expectedPart m.headers m.payload = some data)
    (hw : d.sink.writeAll data = (.ok (), sink))
    (hs' : d.session.accept? m.sequence data.length = some session) :
    ∃ done, { d with
      sink, session, digester := d.digester.absorb data, reader := s
      lastActivity := x₁.time.now, events := d.events ++ [e] }.Sure t before l as total done x₂ := by
  have hgrown : x.log.Grown x₂.log := .of_messages (hmessages.trans h.messages.symm)
  have hcost := h.cost
  cases hl with
  | handed hw' hp hk =>
    obtain ⟨rfl, rfl, -⟩ := h.waits_eq hs hlacks hw'
    obtain ⟨n, hfired, ⟨a, ha, rfl, hdebt, hsubject, hkeeps⟩ | ⟨-, hrefuses⟩⟩ :=
      h.heard hs hshow hlacks hp hk
    swap
    · exact absurd hc (hrefuses data hn)
    rw [h.holds.task, h.holds.counts.expectedPart, Accepted.length_places] at hc
    obtain rfl : a.content = data := Option.some.inj ((hs.content ha).symm.trans hc)
    have hrow : (x.log.row t.subject t.origin.first)[done.length]? = some a.entry := by
      rw [Log.row_congr h.messages]
      exact hs.getElem? ha
    have hnew := (h.holds.accept (hs.parts _ _ ha) hrow hw hs').grow hgrown
    obtain ⟨-, hexpecting⟩ := h.holds.counts.accept hs'
    obtain ⟨-, -, hrecoveries⟩ := Session.accept?_counters hs'
    have hbest : done ++ [a] <+: as := by
      obtain ⟨rest, rfl⟩ := h.best
      rw [List.getElem?_append_right (Nat.le_refl _), Nat.sub_self] at ha
      obtain ⟨b, rest, rfl⟩ := List.exists_cons_of_ne_nil (l := rest) (by rintro rfl; simp at ha)
      obtain rfl : b = a := by simpa using ha
      exact ⟨rest, by simp⟩
    refine ⟨_, hnew.same rfl rfl hnew.counts rfl, hbest, hsubject, ?_, h.calm.later hlater, ?_,
      hmessages, hlater.options.trans h.options, h.last_of_fired hfired hx.faults, ?_⟩
    · rw [List.length_append, List.length_singleton]
      simp only [hexpecting]
      exact hkeeps.noted hx.messages hx.faults hx.issued hx.waiting
    · exact h.reliable.of_limits (Sink.writeAll_ok hw).2
    · have hspent := hfired.spent h.keepsUp.armed
      simp only [hrecoveries, Log.firings, hx.faults] at hcost hspent ⊢
      omega

/-- **What is refused** has cost a firing, or comes from a fault that has cost one. -/
theorem refused {m : Delivery} (h : d.Sure t before l as total done x) (hs : t.Stored l as)
    (hshow : 0 < total → Accepted.DamageShows t.record as) (hlacks : done.length < t.parts)
    (hl : x.Listens d.reader timeout (.data m) s x₁) (hm : d.Refuses m) :
    ∃ n, x.log.Fired n x₁.log ∧ 1 ≤ n + d.reader.debt := by
  cases hl with
  | handed hw' hp hk =>
    obtain ⟨rfl, rfl, -⟩ := h.waits_eq hs hlacks hw'
    obtain ⟨n, hfired, ⟨a, ha, rfl, -⟩ | ⟨hdebt, -⟩⟩ := h.heard hs hshow hlacks hp hk
    · exact absurd hm (h.not_refuses hs ha)
    · exact ⟨n, hfired, hdebt⟩

/-- **A turn that recovers** is paid for by a firing. -/
theorem recovers {m : Delivery} {p : Position} {session : Session} {e : Event}
    (h : d.Sure t before l as total done x) (hs : t.Stored l as)
    (hshow : 0 < total → Accepted.DamageShows t.record as) (hlacks : done.length < t.parts)
    (hlater : x.Later x₂) (hmessages : x₂.log.messages = l.messages)
    (hl : x.Listens d.reader timeout (.data m) s x₁) (hx : x₁.Beside x₂) (hm : d.Refuses m)
    (hr : d.session.recover? = some (some p, session)) :
    { d with
      reader := .fresh d.task.subject p, session := session.startReading
      lastActivity := x₁.time.now, events := d.events ++ [e] }.Sure t before l as total done x₂ := by
  have hcost := h.cost
  obtain ⟨n, hfired, hdebt⟩ := h.refused hs hshow hlacks hl hm
  obtain ⟨hcounts, hexpecting, rfl⟩ := h.holds.counts.recover hr
  obtain ⟨-, -, hrecoveries⟩ := Session.recover?_counters hr
  have hnew := h.holds.grow (.of_messages (hmessages.trans h.messages.symm) : x.log.Grown x₂.log)
  have hspent := hfired.spent h.keepsUp.armed
  have harmed : x₂.log.Armed := fun f hmem => hfired.armed h.keepsUp.armed f (hx.faults ▸ hmem)
  have hnumbered : x₂.log.Numbered := fun i hi =>
    hx.issued ▸ h.keepsUp.numbered.fired hfired i (hx.waiting hi)
  refine ⟨hnew.same rfl rfl (hcounts.withState .reading) rfl, h.best, ?_, ?_, h.calm.later hlater,
    h.reliable, hmessages, hlater.options.trans h.options, h.last_of_fired hfired hx.faults, ?_⟩
  · exact congrArg DownloadTask.subject h.holds.task
  · simp only [Session.startReading, hexpecting, h.holds.task]
    exact .fresh hnew.follows_fresh harmed hnumbered
  · simp only [Session.startReading, hrecoveries, Subscription.debt_fresh, Log.firings,
      hx.faults] at hcost hspent ⊢
    omega

/-- **It never gives up**: a spent budget would be more than the total. -/
theorem recover?_ne_none {m : Delivery} {session : Session}
    (h : d.Sure t before l as total done x) (hs : t.Stored l as)
    (hshow : 0 < total → Accepted.DamageShows t.record as) (hlacks : done.length < t.parts)
    (htotal : total ≤ t.config.retryBudget.toNat)
    (hl : x.Listens d.reader timeout (.data m) s x₁) (hm : d.Refuses m) :
    d.session.recover? ≠ some (none, session) := fun hr => by
  have hcost := h.cost
  obtain ⟨n, hfired, hdebt⟩ := h.refused hs hshow hlacks hl hm
  have hspent := hfired.spent h.keepsUp.armed
  obtain ⟨-, hbudget⟩ := h.holds.counts.spent hr
  rw [Session.recover?_spent hr] at hbudget
  omega

/-- **A turn of a download that is sure of its file.** -/
theorem turn (h : d.Sure t before l as total done x) (hs : t.Stored l as)
    (hshow : 0 < total → Accepted.DamageShows t.record as) (ht : t.record.Tiled)
    (htotal : total ≤ t.config.retryBudget.toNat) (hsize : l.messages.size + 1 < Word.limit) :
    (d.turn x).1.All (fun d' => ∃ done, d'.Sure t before l as total done (d.turn x).2)
      (fun d' => d'.Got t before as total (d.turn x).2) (fun _ _ => False) := by
  have hin : d.InStep t before x.log done := ⟨h.holds, h.subject, 0, h.keepsUp.follows⟩
  have hgoes := hin.goes ht h.calm.unhindered h.reliable (h.messages ▸ hsize)
  have hlater := hin.turn_later ht h.calm.rules
  have hmessages := (hin.turn_messages ht h.calm).trans h.messages
  rcases hcomplete : d.session.isComplete d.task.parts
  swap
  · rw [turn_of_complete hcomplete]
    obtain rfl : done = as :=
      h.best.eq_of_length_le (hs.length ▸ h.holds.isComplete_iff.1 hcomplete)
    exact ⟨h.holds, h.reliable, by have := h.cost; omega⟩
  have hlacks : done.length < t.parts := Nat.lt_of_not_le fun hle => by
    simp [h.holds.isComplete_iff.2 hle] at hcomplete
  generalize (d.turn x).1 = r at hgoes ⊢
  generalize (d.turn x).2 = x₂ at hgoes hlater hmessages ⊢
  cases hgoes with
  | completes hc => simp [hcomplete] at hc
  | rests hl | tires hl => exact absurd hl (h.hearing hs hcomplete _ _)
  | answers hl hx hw => exact ⟨done, h.answers hs hlacks hlater hmessages hl hx hw⟩
  | accepts hl hx hn hc hw hs' =>
    exact h.accepts hs hshow hlacks hlater hmessages hl hx hn hc hw hs'
  | recovers hl hx hm hr =>
    exact ⟨done, h.recovers hs hshow hlacks hlater hmessages hl hx hm hr⟩
  | givesUp hl hx hm hr => exact h.recover?_ne_none hs hshow hlacks htotal hl hm hr

end Sure

/-! ## Whole downloads -/

/-- The report of a download that holds these parts of its file. -/
theorem Holds.reported (h : d.Holds t before l as []) (hk : d.sink.Reliable) (o : LogOptions)
    (x : Exchange) : ∃ d' x' flowReplies, d.finish x = (.ok
        { t.reportOf o as with recoveries := d.session.recoveries, flowReplies }, d', x') ∧
      d'.sink.written = before ++ contents as := by
  obtain ⟨d', x', hclosed, hfinish⟩ := finish_of_reliable hk x
  have hholds := h.closed hclosed
  obtain ⟨state, hsession⟩ := hclosed.session
  refine ⟨d', x', d'.flowReplies, ?_, ?_⟩
  · rw [hfinish, hholds.report_eq o, hsession]
  · have := hholds.written
    rwa [List.append_nil] at this

section Run

variable {config : Config} {record : FileRecord} {sink : Sink}

/-- **Whatever faults are armed**, a download of a stored file comes to its end, and writes the
first parts of the file. -/
theorem run_beginning (h : DownloadTask.of config record = .ok t) (hv : record.validate = .ok ())
    (hs : t.Stored x.log as) (hshow : Accepted.DamageShows record as) (hx : x.Calm)
    (hheartbeat : x.log.options.idleHeartbeatMs ≠ some 0)
    (hsize : x.log.messages.size + 1 < Word.limit) (hk : sink.Reliable) :
    ∃ done, done <+: as ∧
      (run config record sink x).1.sink.written = sink.written ++ contents done ∧
      ((∃ recoveries flowReplies, (run config record sink x).1.result
          = .ok { t.reportOf x.log.options done with recoveries, flowReplies }) ∨
        (run config record sink x).1.result = .error
          (.tooManyMismatches config.retryBudget.toNat done.length (contents done).length)) := by
  obtain ⟨hconfig, rfl, rfl, -⟩ := DownloadTask.of_eq_ok_iff.1 h
  have ht := FileRecord.tiled_of_validate hv
  obtain ⟨y, -, hb, hresult, hwritten⟩ := run_eq_complete sink h hx.rules
  rw [hresult, hwritten]
  have hcalm := hx.later (hb.later hx.rules)
  have hbeat : 0 < t.beat y.log.options := hb.options ▸ DownloadTask.beat_pos hconfig hheartbeat
  obtain ⟨d, x', ⟨hreliable, done, hholds, hgrown⟩, hend⟩ | ⟨d, why, x', ⟨done, ⟨hholds, hgrown⟩,
      hworn⟩, hend⟩ :=
    complete_all (P := fun d x' => d.Calmly t sink.written x.log.messages x')
      (D := fun d x' => d.sink.Reliable ∧ ∃ as, d.Holds t sink.written x'.log as [] ∧
        x'.log.messages = x.log.messages)
      (B := fun d why x' => ∃ as, (d.Holds t sink.written x'.log as [] ∧
        x'.log.messages = x.log.messages) ∧ d.WornOut t sink.written as why)
      (fun d x' hd => hd.turn ht hsize) ht sink hcalm.rules (.inl hbeat)
      ⟨⟨[], inStep_of t sink _ _⟩, hcalm, hk, hb.messages⟩
  · have hbegins := hholds.beginning (hs.grow (.of_messages hgrown)) hshow ht
    obtain ⟨d', x'', flowReplies, hfinish, hwritten'⟩ :=
      hholds.reported hreliable x.log.options x'
    rw [hend, hfinish]
    exact ⟨done, hbegins, hwritten', .inl ⟨_, _, rfl⟩⟩
  · have hbegins := hholds.beginning (hs.grow (.of_messages hgrown)) hshow ht
    rw [hend]
    exact ⟨done, hbegins, hworn.1, .inr (congrArg Except.error hworn.2)⟩

/-- **Faults that are no more than the budget** are made up for, if none leaves out the last part:
the download reports what it would have reported without them, but for its recoveries, of which there
are no more than firings. -/
theorem run_masked (h : DownloadTask.of config record = .ok t) (hv : record.validate = .ok ())
    (hs : t.Stored x.log as) (hshow : 0 < x.log.firings → Accepted.DamageShows record as)
    (hx : x.Calm) (hregular : x.log.Regular)
    (harmed : x.log.Armed) (hbudget : x.log.firings ≤ config.retryBudget.toNat)
    (hlast : ∀ a, as.getLast? = some a → x.log.NeverDrops a.place) (hk : sink.Reliable) :
    ∃ recoveries flowReplies, recoveries ≤ x.log.firings ∧ (run config record sink x).1.result
        = .ok { t.reportOf x.log.options as with recoveries, flowReplies } ∧
      (run config record sink x).1.sink.written = sink.written ++ contents as := by
  obtain ⟨hconfig, rfl, rfl, -⟩ := DownloadTask.of_eq_ok_iff.1 h
  have ht := FileRecord.tiled_of_validate hv
  obtain ⟨y, -, hb, hresult, hwritten⟩ := run_eq_complete sink h hx.rules
  rw [hresult, hwritten]
  have hcalm := hx.later (hb.later hx.rules)
  obtain ⟨hholds, hsubject, -⟩ := inStep_of t sink y.time.now y.log
  have hsure : (Download.of t sink (.fresh t.subject t.origin) y.time.now).Sure t sink.written
      x.log as x.log.firings [] y := by
    refine ⟨hholds, List.nil_prefix, hsubject, .fresh hholds.follows_fresh ?_ ?_, hcalm, hk,
      hb.messages, hb.options, ?_, ?_⟩
    · exact fun f hf => harmed f (hb.faults ▸ hf)
    · exact fun n hn => hb.issued ▸ hregular.numbered n (hb.waiting hn)
    · exact fun a ha f hf => hlast a ha f (hb.faults ▸ hf)
    · have hnone : (Session.new t.config.retryBudget.toNat t.origin).recoveries = 0 := rfl
      simp only [Download.of, Session.startReading, hnone, Subscription.debt_fresh, Log.firings,
        hb.faults]
      omega
  obtain ⟨d, x', hgot, hend⟩ | ⟨_, _, _, hfalse, _⟩ :=
    complete_all (P := fun d x' => ∃ done, d.Sure t sink.written x.log as x.log.firings done x')
      (D := fun d x' => d.Got t sink.written as x.log.firings x') (B := fun _ _ _ => False)
      (fun d x' hd => hd.elim fun _ hd => hd.turn hs hshow ht hbudget hregular.fits) ht sink
      hcalm.rules (.inr fun _ _ hd => hd.elim fun _ hd => hd.hearing hs) ⟨_, hsure⟩
  swap
  · exact hfalse.elim
  obtain ⟨d', x'', flowReplies, hfinish, hwritten'⟩ :=
    hgot.holds.reported hgot.reliable x.log.options x'
  rw [hend, hfinish]
  exact ⟨_, _, hgot.recoveries, rfl, hwritten'⟩

end Run

end Download

end FileRelay
