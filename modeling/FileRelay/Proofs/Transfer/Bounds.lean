import FileRelay.Proofs.Transfer.Ending
import Mathlib.Algebra.Order.Floor.Div
import Mathlib.Data.List.Infix

/-!
# Proofs/Transfer/Bounds — how often a download listens

Others may publish, arm faults and reply for ever, during the turns of a download and between them
(`Download.Course`).  Still it hears only so many messages, since each of them is a part or costs a
recovery; only as many requests, since a message lies before each; and only so many silences in a row,
since each of them lasts (`Download.Within`).  So every download ends (`Course.ends_within`).
-/

namespace FileRelay

/-! ## Silences in a row -/

section Runs

variable {α : Type} {a b : α} {l : List α} {k most : Nat}

/-- A run at the end of a list with one more behind it is empty, or it ends with the one more. -/
theorem suffix_replicate_concat (h : List.replicate k a <:+ l ++ [b]) :
    k = 0 ∨ b = a ∧ ∃ j, k = j + 1 ∧ List.replicate j a <:+ l := by
  rcases k with _ | j
  · exact .inl rfl
  rw [List.replicate_succ', List.suffix_concat_iff] at h
  obtain hnil | ⟨l', heq, hsuffix⟩ := h
  · simp at hnil
  · obtain ⟨rfl, hb⟩ := List.append_inj' heq rfl
    exact .inr ⟨(List.singleton_inj.1 hb).symm, j, rfl, hsuffix⟩

/-- **A list whose runs are short** is not long, if there is little else in it. -/
theorem length_le_of_runs [DecidableEq α]
    (h : ∀ k, List.replicate k a <:+: l → k ≤ most) :
    l.length ≤ (l.countP (· ≠ a) + 1) * (most + 1) := by
  suffices hrun : ∃ k, List.replicate k a <:+ l ∧ l.length ≤ l.countP (· ≠ a) * (most + 1) + k by
    obtain ⟨k, hk, hlength⟩ := hrun
    have := h k hk.isInfix
    rw [Nat.add_mul, Nat.one_mul]
    omega
  induction l using List.reverseRecOn with
  | nil => exact ⟨0, List.nil_suffix, Nat.zero_le _⟩
  | append_singleton l b ih =>
    obtain ⟨k, hk, hlength⟩ := ih fun k hk => h k (hk.trans (List.prefix_append _ _).isInfix)
    have hmost := h k (hk.isInfix.trans (List.prefix_append _ _).isInfix)
    by_cases hb : b = a
    · subst hb
      have hcount : (l ++ [b]).countP (· ≠ b) = l.countP (· ≠ b) := by simp [List.countP_append]
      refine ⟨k + 1, ?_, ?_⟩
      · rw [List.replicate_succ', List.suffix_concat_iff]
        exact .inr ⟨_, rfl, hk⟩
      · rw [hcount, List.length_append, List.length_singleton]
        omega
    · have hcount : (l ++ [b]).countP (· ≠ a) = l.countP (· ≠ a) + 1 := by
        simp [List.countP_append, hb]
      refine ⟨0, List.nil_suffix, ?_⟩
      rw [hcount, List.length_append, List.length_singleton, Nat.add_mul, Nat.one_mul]
      omega

end Runs

/-- Is it a published message? -/
def Heard.isData : Heard → Bool
  | .data _ => true
  | _ => false

/-- Is it a request for a reply? -/
def Heard.isRequest : Heard → Bool
  | .flowControl _ => true
  | _ => false

/-- How many silences in a row fill the time after which a download gives up. -/
def DownloadTask.silences (t : DownloadTask) (o : LogOptions) : Nat :=
  t.config.maxIdleMs.toNat ⌈/⌉ t.beat o

/-- Silences that do not yet fill the time can be followed by one more. -/
theorem DownloadTask.lt_silences {t : DownloadTask} {o : LogOptions} {k : Nat} (hb : 0 < t.beat o)
    (h : k * t.beat o < t.config.maxIdleMs.toNat) : k < t.silences o := by
  rw [← Nat.not_le, silences, ceilDiv_le_iff_le_mul hb, Nat.mul_comm]
  exact Nat.not_le.2 h

/-- A download hears at least one silence before it gives up. -/
theorem DownloadTask.silences_pos {t : DownloadTask} {o : LogOptions} (hb : 0 < t.beat o)
    (hc : t.config.validate = .ok ()) : 0 < t.silences o := by
  obtain ⟨-, -, -, -, hpos, hle⟩ := Config.validate_eq_ok_iff.1 hc
  exact lt_silences hb (by omega)

namespace Download

/-! ## Courses -/

/-- What a turn hears: nothing at all if the download has all its parts. -/
def hears (d : Download) (x : Exchange) : List Heard :=
  if d.session.isComplete d.task.parts then [] else [(d.listen x).1]

/-- **What others do between two turns**: whatever they like, but time does not go back, messages stay
in the log, and no rule interferes. -/
structure Amid (x x' : Exchange) : Prop where
  grown : x.log.Grown x'.log
  options : x'.log.options = x.log.options
  rules : x'.interference.rules = []
  now : x.time.now ≤ x'.time.now

/-- **The course of a download** among others, and all that it has heard. -/
inductive Course (t : DownloadTask) (sink : Sink) (o : LogOptions) :
    Turn Download → Exchange → List Heard → Prop
  | begun {reader : Subscription} {x x' : Exchange} (hr : x.interference.rules = [])
      (ho : x.log.options = o) (hs : x.subscribe t.subject t.origin = (.ok reader, x')) :
      Course t sink o (.on (Download.of t sink reader x'.time.now)) x' []
  | others {d : Download} {x x' : Exchange} {heard : List Heard}
      (h : Course t sink o (.on d) x heard) (hx : Amid x x') : Course t sink o (.on d) x' heard
  | turn {d : Download} {x : Exchange} {heard : List Heard} (h : Course t sink o (.on d) x heard) :
      Course t sink o (d.turn x).1 (d.turn x).2 (heard ++ d.hears x)

/-- **What a download hears is within bounds.** -/
structure Within (t : DownloadTask) (o : LogOptions) (heard : List Heard) : Prop where
  data : heard.countP Heard.isData ≤ t.parts + t.config.retryBudget.toNat + 1
  requests : heard.countP Heard.isRequest ≤ heard.countP Heard.isData
  silences : ∀ k, List.replicate k .nothing <:+: heard → k ≤ t.silences o
  length : heard.length
    ≤ (2 * (t.parts + t.config.retryBudget.toNat + 1) + 1) * (t.silences o + 1)

/-- **A download that goes on has kept count** of what it has heard: each message was a part or cost a
recovery, and a message lies before each request; and it remembers since when it has heard nothing. -/
structure Tallies (d : Download) (t : DownloadTask) (o : LogOptions) (x : Exchange)
    (heard : List Heard) : Prop where
  data : heard.countP Heard.isData + d.session.retriesLeft
    = d.session.partsWritten + t.config.retryBudget.toNat
  requests : heard.countP Heard.isRequest + (if 0 < d.reader.sinceFlow then 1 else 0)
    ≤ heard.countP Heard.isData
  others : heard.countP (· ≠ .nothing)
    = heard.countP Heard.isData + heard.countP Heard.isRequest
  last : ∀ k, List.replicate k .nothing <:+ heard →
    k * t.beat o ≤ x.time.now - d.lastActivity ∧ k < t.silences o
  silences : ∀ k, List.replicate k .nothing <:+: heard → k ≤ t.silences o

variable {d : Download} {t : DownloadTask} {before : Bytes} {o : LogOptions} {x x' : Exchange}
  {sink : Sink} {r : Turn Download} {heard : List Heard}

/-- One thing more is counted. -/
theorem countP_concat (p : Heard → Bool) (heard : List Heard) (h : Heard) :
    (heard ++ [h]).countP p = heard.countP p + if p h then 1 else 0 := by
  rw [List.countP_append, List.countP_singleton]

/-- A silence more is not counted with anything else. -/
theorem countP_silence {p : Heard → Bool} (hp : p .nothing = false) (heard : List Heard) :
    (heard ++ [Heard.nothing]).countP p = heard.countP p := by
  rw [countP_concat, hp, if_neg Bool.false_ne_true, Nat.add_zero]

namespace Tallies

/-- Time that passes makes no difference. -/
theorem amid (h : d.Tallies t o x heard) (hx : x.time.now ≤ x'.time.now) :
    d.Tallies t o x' heard := by
  refine { h with last := fun k hk => ?_ }
  obtain ⟨hlast, hlt⟩ := h.last k hk
  exact ⟨Nat.le_trans hlast (Nat.sub_le_sub_right hx _), hlt⟩

/-- After something was heard there is no silence at the end, and none longer than before. -/
theorem loud (h : d.Tallies t o x heard) {s : Heard} (hs : s ≠ .nothing) {k : Nat} :
    (List.replicate k .nothing <:+ heard ++ [s] → k = 0) ∧
      (List.replicate k .nothing <:+: heard ++ [s] → k ≤ t.silences o) := by
  have hsuffix : List.replicate k .nothing <:+ heard ++ [s] → k = 0 := fun hk =>
    (suffix_replicate_concat hk).resolve_right fun hh => hs hh.1
  refine ⟨hsuffix, fun hk => ?_⟩
  obtain hk | hk := List.infix_concat_iff.1 hk
  · exact hsuffix hk ▸ Nat.zero_le _
  · exact h.silences k hk

/-- After a silence more there is one more in a row. -/
theorem silent (h : d.Tallies t o x heard) {k : Nat} :
    List.replicate k .nothing <:+: heard ++ [.nothing] → k ≤ t.silences o := by
  intro hk
  obtain hk | hk := List.infix_concat_iff.1 hk
  · obtain rfl | ⟨-, j, rfl, hj⟩ := suffix_replicate_concat hk
    · exact Nat.zero_le _
    · exact (h.last j hj).2
  · exact h.silences k hk

/-- **A message or a request more** is counted. -/
theorem more (h : d.Tallies t o x heard) {s : Heard} {d' : Download}
    (hs : s.isData = true ∧ s.isRequest = false ∨ s.isData = false ∧ s.isRequest = true)
    (hdata : heard.countP Heard.isData + (if s.isData then 1 else 0) + d'.session.retriesLeft
      = d'.session.partsWritten + t.config.retryBudget.toNat)
    (hrequests : heard.countP Heard.isRequest + (if s.isRequest then 1 else 0)
      + (if 0 < d'.reader.sinceFlow then 1 else 0)
      ≤ heard.countP Heard.isData + if s.isData then 1 else 0) :
    d'.Tallies t o x' (heard ++ [s]) := by
  have hloud : s ≠ .nothing := by
    rintro rfl
    simp [Heard.isData, Heard.isRequest] at hs
  refine ⟨?_, ?_, ?_, fun k hk => ?_, fun k => (h.loud hloud).2⟩
  · rw [countP_concat]
    exact hdata
  · rw [countP_concat, countP_concat]
    exact hrequests
  · have hothers := h.others
    rw [countP_concat, countP_concat, countP_concat, if_pos (by simpa using hloud)]
    obtain ⟨hd, hr⟩ | ⟨hd, hr⟩ := hs <;> simp only [hd, hr, ↓reduceIte, Bool.false_eq_true] <;> omega
  · obtain rfl := (h.loud hloud).1 hk
    exact ⟨by omega, (h.last 0 List.nil_suffix).2⟩

/-- **A silence more** takes as long as a beat, and the download has not yet given up. -/
theorem rest (h : d.Tallies t o x heard) {d' : Download} (hbeat : 0 < t.beat o)
    (hs : d'.session = d.session) (hsince : d'.reader.sinceFlow = d.reader.sinceFlow)
    (hlast : d'.lastActivity = d.lastActivity) (hpast : d.lastActivity ≤ x.time.now)
    (hpause : x.time.now + t.beat o ≤ x'.time.now)
    (hidle : x'.time.now - d.lastActivity < t.config.maxIdleMs.toNat) :
    d'.Tallies t o x' (heard ++ [.nothing]) := by
  have hfew : ∀ k, k * t.beat o ≤ x'.time.now - d.lastActivity → k < t.silences o := fun k hk =>
    DownloadTask.lt_silences hbeat (Nat.lt_of_le_of_lt hk hidle)
  refine ⟨?_, ?_, ?_, fun k hk => ?_, fun _ => h.silent⟩
  · rw [countP_silence rfl, hs]
    exact h.data
  · rw [countP_silence rfl, countP_silence rfl, hsince]
    exact h.requests
  · rw [countP_silence rfl, countP_silence rfl, countP_silence rfl]
    exact h.others
  · have hbeats : k * t.beat o ≤ x'.time.now - d.lastActivity := by
      obtain rfl | ⟨-, j, rfl, hj⟩ := suffix_replicate_concat hk
      · omega
      · have := (h.last j hj).1
        rw [Nat.add_mul, Nat.one_mul]
        omega
    exact ⟨hlast ▸ hbeats, hfew k hbeats⟩

end Tallies

/-- **What is heard within bounds** is not much. -/
theorem within_of_counts (hd : heard.countP Heard.isData ≤ t.parts + t.config.retryBudget.toNat + 1)
    (hr : heard.countP Heard.isRequest ≤ heard.countP Heard.isData)
    (ho : heard.countP (· ≠ .nothing) ≤ 2 * (t.parts + t.config.retryBudget.toNat + 1))
    (hs : ∀ k, List.replicate k .nothing <:+: heard → k ≤ t.silences o) : Within t o heard :=
  ⟨hd, hr, hs, Nat.le_trans (length_le_of_runs hs)
    (Nat.mul_le_mul_right _ (Nat.add_le_add_right ho 1))⟩

/-- **A download under way is within bounds.** -/
theorem Tallies.within (h : d.Tallies t o x heard) (hparts : d.session.partsWritten ≤ t.parts) :
    Within t o heard := by
  have hdata := h.data
  have hrequests := h.requests
  have hothers := h.others
  exact within_of_counts (by omega) (by omega) (by omega) h.silences

/-- A download that gives up at last has heard one silence more. -/
theorem Tallies.tired (h : d.Tallies t o x heard) (hparts : d.session.partsWritten ≤ t.parts) :
    Within t o (heard ++ [.nothing]) := by
  have hdata := h.data
  have hrequests := h.requests
  have hothers := h.others
  refine within_of_counts ?_ ?_ ?_ fun _ => h.silent
  · rw [countP_silence rfl]
    omega
  · rw [countP_silence rfl, countP_silence rfl]
    omega
  · rw [countP_silence (p := (· ≠ .nothing)) (by simp)]
    omega

/-- A download that a message or a cancellation ends has heard one thing more. -/
theorem Tallies.ended (h : d.Tallies t o x heard) (hparts : d.session.partsWritten ≤ t.parts)
    {s : Heard} (hs : s = .calledOff ∨ ∃ m, s = .data m) : Within t o (heard ++ [s]) := by
  have hdata := h.data
  have hrequests := h.requests
  have hothers := h.others
  have hkind : s ≠ .nothing ∧ s.isRequest = false := by
    obtain rfl | ⟨m, rfl⟩ := hs <;> exact ⟨by simp, rfl⟩
  refine within_of_counts ?_ ?_ ?_ fun k => (h.loud hkind.1).2
  · rw [countP_concat]
    split <;> omega
  · rw [countP_concat, countP_concat, if_neg (by simp [hkind.2])]
    omega
  · rw [countP_concat, if_pos (by simpa using hkind.1)]
    omega

/-- **Every turn keeps count**, and ends within bounds. -/
theorem Tallies.turn (h : d.Tallies t o x heard) (hway : d.UnderWay t before o x)
    (ht : t.record.Tiled) (hbeat : 0 < t.beat o) :
    (d.turn x).1.All (fun d' => d'.Tallies t o (d.turn x).2 (heard ++ d.hears x))
      (fun _ => Within t o (heard ++ d.hears x)) (fun _ _ => Within t o (heard ++ d.hears x)) := by
  obtain ⟨as, hin⟩ := hway.inStep
  have hparts : d.session.partsWritten ≤ t.parts := by
    rw [hin.holds.counts.partsWritten, Accepted.length_places]
    exact hin.holds.parts.length_le ht
  rcases hcomplete : d.session.isComplete d.task.parts
  swap
  · rw [turn_of_complete hcomplete, hears, if_pos hcomplete, List.append_nil]
    exact h.within hparts
  have hlacks : d.session.partsWritten < t.parts := by
    rw [Session.isComplete, hin.holds.task] at hcomplete
    simpa using hcomplete
  rw [hears, hcomplete, if_neg (by simp)]
  have hmoves := hway.moves ht hcomplete
  have hdata := h.data
  have hrequests := h.requests
  generalize (d.listen x).1 = s at hmoves ⊢
  generalize (d.turn x).1 = r at hmoves ⊢
  generalize (d.turn x).2 = x' at hmoves ⊢
  cases hmoves with
  | @accepts _ d' _ hp hleft =>
    have hone : (if 0 < d'.reader.sinceFlow then 1 else 0) ≤ 1 := by split <;> omega
    refine h.more (.inl ⟨rfl, rfl⟩) ?_ ?_
    all_goals simp only [Heard.isData, Heard.isRequest, Bool.false_eq_true, ↓reduceIte]; omega
  | recovers hp hleft hfresh =>
    refine h.more (.inl ⟨rfl, rfl⟩) ?_ ?_
    all_goals
      simp only [Heard.isData, Heard.isRequest, hfresh, Nat.lt_irrefl, Bool.false_eq_true,
        ↓reduceIte]
      omega
  | answers hs hdue hfresh =>
    rw [if_pos hdue] at hrequests
    refine h.more (.inr ⟨rfl, rfl⟩) ?_ ?_
    all_goals
      simp only [Heard.isData, Heard.isRequest, hs, hfresh, Nat.lt_irrefl, Bool.false_eq_true,
        ↓reduceIte]
      omega
  | rests hs hsince hlast hvain hpause hidle => exact h.rest hbeat hs hsince hlast hway.past hpause hidle
  | tires => exact h.tired hparts
  | ends hh => exact h.ended hparts hh

/-! ## Whole courses -/

/-- A download that has just begun has heard nothing yet. -/
theorem tallies_of (t : DownloadTask) (sink : Sink) (hc : t.config.validate = .ok ())
    (hbeat : 0 < t.beat o) :
    (Download.of t sink (.fresh t.subject t.origin) x.time.now).Tallies t o x [] where
  data := rfl
  requests := Nat.le_refl _
  others := rfl
  last k hk := by
    obtain rfl : k = 0 := by simpa using hk
    exact ⟨by omega, DownloadTask.silences_pos hbeat hc⟩
  silences k hk := by
    obtain rfl : k = 0 := by simpa using hk
    exact Nat.zero_le _

/-- **Whatever others do, a download keeps count** of what it hears, and ends within bounds. -/
theorem Course.tallies (h : Course t sink o r x heard) (ht : t.record.Tiled)
    (hc : t.config.validate = .ok ()) (hbeat : 0 < t.beat o) :
    r.All (fun d => d.UnderWay t sink.written o x ∧ d.Tallies t o x heard)
      (fun _ => Within t o heard) (fun _ _ => Within t o heard) := by
  induction h with
  | @begun reader y y' hr ho hs =>
    have hb := y.subscribe_beside t.subject t.origin
    rw [hs] at hb
    rw [Exchange.subscribe_ok hs]
    have hway := underWay_of t sink (hb.rules.trans hr)
    rw [hb.options.trans ho] at hway
    exact ⟨hway, tallies_of t sink hc hbeat⟩
  | others _ hx ih =>
    obtain ⟨⟨⟨as, hin⟩, hrules, hoptions, hpast⟩, htallies⟩ := ih
    exact ⟨⟨⟨as, hin.grow hx.grown⟩, hx.rules, hx.options.trans hoptions,
      Nat.le_trans hpast hx.now⟩, htallies.amid hx.now⟩
  | turn _ ih =>
    obtain ⟨hway, htallies⟩ := ih
    exact ((hway.stays ht).and (htallies.turn hway ht hbeat)).imp (fun _ h => h) (fun _ h => h.2)
      fun _ _ h => h.2

/-- A course goes on with each turn. -/
theorem Course.goes (h : Course t sink o (.on d) x heard) :
    (d.turn x).1.All (fun d' => ∃ heard, Course t sink o (.on d') (d.turn x).2 heard)
      (fun d' => ∃ heard, Course t sink o (.done d') (d.turn x).2 heard)
      (fun d' why => ∃ heard, Course t sink o (.broken d' why) (d.turn x).2 heard) := by
  have hturn := h.turn
  generalize (d.turn x).1 = r at hturn ⊢
  cases r with
  | on | done | broken => exact ⟨_, hturn⟩

/-- **A download that nobody disturbs** takes a course to its end. -/
theorem run_course {config : Config} {record : FileRecord}
    (h : DownloadTask.of config record = .ok t) (ht : t.record.Tiled) (hbeat : 0 < t.beat o)
    (sink : Sink) (hr : x.interference.rules = []) (ho : x.log.options = o) :
    ∃ r y heard, Course t sink o r y heard ∧ r.All (fun _ => False)
      (fun d => (run config record sink x).1.result = (d.finish y).1)
      (fun _ why => why ≠ .stalled ∧ (run config record sink x).1.result = .error why) := by
  obtain ⟨x', hs, hb, hresult, -⟩ := run_eq_complete sink h hr
  have hrules := hb.rules.trans hr
  have hoptions := hb.options.trans ho
  have hway := underWay_of t sink hrules
  rw [hoptions] at hway
  obtain ⟨d, y, ⟨heard, hcourse⟩, hend⟩ | ⟨d, why, y, ⟨⟨heard, hcourse⟩, hwhy⟩, hend⟩ :=
    complete_all (P := fun d y => d.UnderWay t sink.written o y ∧ ∃ heard,
        Course t sink o (.on d) y heard)
      (D := fun d y => ∃ heard, Course t sink o (.done d) y heard)
      (B := fun d why y => (∃ heard, Course t sink o (.broken d why) y heard) ∧ why ≠ .stalled)
      (fun d y ⟨hway, _, hcourse⟩ =>
        ((hway.stays ht).and (hcourse.goes.and (d.turn_not_stalled y))).imp
          (fun _ h => ⟨h.1, h.2.1⟩) (fun _ h => h.2.1) fun _ _ h => h.2)
      ht sink hrules (.inl (hoptions ▸ hbeat)) ⟨hway, [], .begun hr ho hs⟩
  · exact ⟨.done d, y, heard, hcourse, by rw [Turn.All, hresult, hend]⟩
  · exact ⟨.broken d why, y, heard, hcourse, hwhy, by rw [hresult, hend]⟩

/-- **Every download ends.**  Whatever others publish, arm or answer, during its turns and between
them: it hears at most one message for each part and each recovery and one more, no more requests than
messages, and only as many silences in a row as fill the time after which it gives up.  So it takes
only so many turns; and a download takes a course to its end, which is its result. -/
theorem Course.ends_within {config : Config} {record : FileRecord} (hv : record.validate = .ok ())
    (h : DownloadTask.of config record = .ok t) (ho : o.idleHeartbeatMs ≠ some 0) :
    (∀ sink r x heard, Course t sink o r x heard → Within t o heard) ∧
    ∀ (sink : Sink) (x : Exchange), x.interference.rules = [] → x.log.options = o →
      ∃ r y heard, Course t sink o r y heard ∧ r.All (fun _ => False)
        (fun d => (run config record sink x).1.result = (d.finish y).1)
        (fun _ why => why ≠ .stalled ∧ (run config record sink x).1.result = .error why) := by
  obtain ⟨hconfig, rfl, rfl, -⟩ := DownloadTask.of_eq_ok_iff.1 h
  have ht := FileRecord.tiled_of_validate hv
  have hbeat := DownloadTask.beat_pos hconfig ho
  refine ⟨fun sink r x heard hcourse => ?_, fun sink x => run_course h ht hbeat sink⟩
  have htallies := hcourse.tallies ht hconfig hbeat
  cases r with
  | on d =>
    obtain ⟨⟨⟨as, hin⟩, -⟩, htallies⟩ := htallies
    refine htallies.within ?_
    rw [hin.holds.counts.partsWritten, Accepted.length_places]
    exact hin.holds.parts.length_le ht
  | done | broken => exact htallies

/-- A file of one part is downloaded with the usual settings in a few turns, however it goes. -/
theorem Course.ends_within_of_one : ∃ (record : FileRecord) (t : DownloadTask),
    record.validate = .ok () ∧ DownloadTask.of .usual record = .ok t ∧ t.silences default = 10 ∧
      ∀ sink r x heard, Course t sink default r x heard → heard.length ≤ 275 := by
  let record : FileRecord := ⟨"id", "name", "", "", 5, 1, 65536, 5, .epoch, some "SHA-256",
    some "00", some 1⟩
  have hv : record.validate = .ok () := by decide
  have ht : DownloadTask.of .usual record = .ok ⟨.usual, record, ⟨"SHA-256", "00"⟩, .sha256⟩ := by
    decide
  refine ⟨record, _, hv, ht, by decide, fun sink r x heard h => ?_⟩
  exact Nat.le_trans ((Course.ends_within hv ht (by decide)).1 sink r x heard h).length (by decide)

end Download

end FileRelay
