import FileRelay.Proofs.Log.Firing
import Mathlib.Data.List.Range

/-!
# Proofs/Log/Traffic — any number of clients of one log

Clients publish, open and close readers, look, reply and arm faults, in any order (`Traffic`).  What
has happened is a list of **moments**, each with the clients before and after it.  Messages are
numbered in the order of their publication and stay; and a fault fires where it was armed, whenever a
reader passes over its place, until it has fired as often as it was armed for.
-/

namespace FileRelay

/-- What a client does.  Readers are counted from zero, in the order in which they were opened. -/
inductive Action where
  | publish (m : Published)
  | subscribe (subject : String) (position : Position)
  | look (reader : Nat)
  | reply (address : Address)
  | arm (sequence : Nat) (fault : DeliveryFault) (times : Nat)
  | unsubscribe (reader : Nat)
  deriving DecidableEq

/-- A log and all readers that were opened. -/
structure Clients where
  log : Log
  readers : List Subscription
  deriving DecidableEq

namespace Clients

/-- A look of one reader, which finds nothing when the reader is closed. -/
def look (c : Clients) (i : Nat) : Option Delivery × Clients :=
  match c.readers[i]? with
  | none => (none, c)
  | some s =>
    if s.closed then (none, c)
    else
      let r := s.poll c.log
      (r.1, ⟨r.2.2, c.readers.set i r.2.1⟩)

/-- One reader is closed. -/
def unsubscribe (c : Clients) (i : Nat) : Clients :=
  match c.readers[i]? with
  | none => c
  | some s =>
    let r := s.unsubscribe c.log
    ⟨r.2, c.readers.set i r.1⟩

/-- **What an action finds**, and what comes of it. -/
def act (c : Clients) : Action → Option Delivery × Clients
  | .publish m => (none, { c with log := (c.log.publish m).2 })
  | .subscribe subject position =>
    let r := c.log.subscribe subject position
    (none, ⟨r.2, c.readers ++ [r.1]⟩)
  | .look i => c.look i
  | .reply a => (none, { c with log := c.log.reply a })
  | .arm p fault times => (none, { c with log := c.log.arm p fault times })
  | .unsubscribe i => (none, c.unsubscribe i)

end Clients

/-- **An action that was done**: what it found, and the clients before and after it. -/
structure Moment where
  action : Action
  before : Clients
  found : Option Delivery
  after : Clients
  deriving DecidableEq

namespace Moment

/-- The message that was published. -/
def published? (m : Moment) : Option Published :=
  match m.action with
  | .publish p => some p
  | _ => none

/-- The place that the publisher was told. -/
def place? (m : Moment) : Option Nat := m.published?.map fun p => (m.before.log.publish p).1

/-- The reader that was opened. -/
def opened? (m : Moment) : Option (String × Position) :=
  match m.action with
  | .subscribe subject position => some (subject, position)
  | _ => none

/-- Was it a look? -/
def isLook (m : Moment) : Bool :=
  match m.action with
  | .look _ => true
  | _ => false

/-- **Did a look pass over the message at a place?** It stands in the row of the reader, which was
not behind it before, and is now. -/
def passes (m : Moment) (p : Nat) : Bool :=
  match m.action with
  | .look i =>
    match m.before.readers[i]?, m.after.readers[i]? with
    | some s, some s' => decide (p ∈ s.passed m.before.log s')
    | _, _ => false
  | _ => false

/-- **Did a fault fire at a place?** A look has spent it. -/
def firesAt (m : Moment) (p : Nat) : Bool :=
  m.isLook && (m.before.log.armed? p).isSome && m.after.log.armed? p != m.before.log.armed? p

/-- **Did this fault fire at a place?** -/
def Fires (m : Moment) (p : Nat) (fault : DeliveryFault) : Prop :=
  m.firesAt p = true ∧ (m.before.log.armed? p).map Prod.fst = some fault

instance (m : Moment) (p : Nat) (fault : DeliveryFault) : Decidable (m.Fires p fault) :=
  inferInstanceAs (Decidable (_ ∧ _))

/-- The delivery of data that was found. -/
def given? (m : Moment) : Option Delivery := m.found.filter fun d => d.kind = .data

end Moment

/-- **What clients can come to**, and all that has happened. -/
inductive Traffic (options : LogOptions) : Clients → List Moment → Prop
  | begun : Traffic options ⟨.new options, []⟩ []
  | act {c : Clients} {ms : List Moment} (h : Traffic options c ms) (a : Action) :
      Traffic options (c.act a).2 (ms ++ [⟨a, c, (c.act a).1, (c.act a).2⟩])

/-- **Does one thing after the other**, and tells what happened. -/
def Clients.run (c : Clients) : List Action → Clients × List Moment
  | [] => (c, [])
  | a :: as =>
    let r := (c.act a).2.run as
    (r.1, ⟨a, c, (c.act a).1, (c.act a).2⟩ :: r.2)

variable {options : LogOptions} {c : Clients} {ms : List Moment} {a : Action} {m : Moment}
  {p : Nat} {fault : DeliveryFault}

/-- **What a look spends** is what fires. -/
theorem Moment.firesAt_iff {places : List Nat} (hlook : m.isLook = true)
    (h : m.before.log.FiredAt places m.after.log) :
    m.firesAt p = true ↔ p ∈ places ∧ (m.before.log.armed? p).isSome := by
  rw [← h.ne_iff]
  simp only [firesAt, hlook, Bool.true_and, Bool.and_eq_true, bne_iff_ne]
  exact and_iff_right_of_imp fun hne => ((h.ne_iff p).1 hne).2

theorem Moment.fires_iff {places : List Nat} (hlook : m.isLook = true)
    (h : m.before.log.FiredAt places m.after.log) :
    m.Fires p fault ↔ p ∈ places ∧ (m.before.log.armed? p).map Prod.fst = some fault := by
  rw [Fires, firesAt_iff hlook h, and_assoc]
  refine and_congr_right fun _ => and_iff_right_of_imp fun hsome => ?_
  obtain ⟨f, hf, -⟩ := Option.map_eq_some_iff.1 hsome
  exact Option.isSome_of_eq_some hf

/-! ## One action -/

/-- Closing a reader changes no message and no fault. -/
theorem Subscription.unsubscribe_frame (s : Subscription) (l : Log) :
    (s.unsubscribe l).2.messages = l.messages ∧ (s.unsubscribe l).2.faults = l.faults ∧
      (s.unsubscribe l).1.cursor = s.cursor := by
  unfold unsubscribe
  split <;> exact ⟨rfl, rfl, rfl⟩

/-- One more reader is the last one. -/
theorem eq_or_getElem?_of_concat {readers : List Subscription} {i : Nat} {s s' : Subscription}
    (h : (readers ++ [s])[i]? = some s') :
    i = readers.length ∧ s' = s ∨ readers[i]? = some s' := by
  rcases Nat.lt_or_ge i readers.length with hi | hi
  · exact .inr (by rwa [List.getElem?_append_left hi] at h)
  · rw [List.getElem?_append_right hi, List.getElem?_singleton, Option.ite_none_right_eq_some] at h
    obtain ⟨hlast, heq⟩ := h
    exact .inl ⟨by omega, (Option.some.inj heq).symm⟩

/-- A reader that was exchanged stands where it stood. -/
theorem eq_or_getElem?_of_set {readers : List Subscription} {i j : Nat} {s s' : Subscription}
    (h : (readers.set j s)[i]? = some s') : j = i ∧ s' = s ∨ j ≠ i ∧ readers[i]? = some s' := by
  by_cases hj : j = i
  · subst hj
    have hlt := (List.getElem?_eq_some_iff.1 h).1
    rw [List.getElem?_set_self (by rwa [List.length_set] at hlt), Option.some.injEq] at h
    exact .inl ⟨rfl, h.symm⟩
  · exact .inr ⟨hj, by rwa [List.getElem?_set_ne hj] at h⟩

namespace Clients

/-- **What an action comes to.** -/
inductive Changes (c : Clients) : Action → Option Delivery → Clients → Prop
  | publishes (m : Published) :
      Changes c (.publish m) none { c with log := (c.log.publish m).2 }
  | opens (subject : String) (position : Position) :
      Changes c (.subscribe subject position) none
        ⟨(c.log.subscribe subject position).2, c.readers ++ [(c.log.subscribe subject position).1]⟩
  | looks {i : Nat} {s s' : Subscription} {o : Option Delivery} {l : Log}
      (hs : c.readers[i]? = some s) (hopen : s.closed = false) (hp : s.Polls c.log o s' l) :
      Changes c (.look i) o ⟨l, c.readers.set i s'⟩
  | misses {i : Nat} : Changes c (.look i) none c
  | replies (a : Address) : Changes c (.reply a) none { c with log := c.log.reply a }
  | arms (p : Nat) (fault : DeliveryFault) (times : Nat) :
      Changes c (.arm p fault times) none { c with log := c.log.arm p fault times }
  | closes {i : Nat} {s : Subscription} (hs : c.readers[i]? = some s) :
      Changes c (.unsubscribe i) none
        ⟨(s.unsubscribe c.log).2, c.readers.set i (s.unsubscribe c.log).1⟩
  | closesNone {i : Nat} (hs : c.readers[i]? = none) : Changes c (.unsubscribe i) none c

/-- **An action comes to one of these**, where all readers are at places of the log. -/
theorem act_changes (hc : ∀ s ∈ c.readers, 1 ≤ s.cursor) (a : Action) :
    c.Changes a (c.act a).1 (c.act a).2 := by
  cases a with
  | publish m => exact .publishes m
  | subscribe subject position => exact .opens subject position
  | reply a => exact .replies a
  | arm p fault times => exact .arms p fault times
  | look i =>
    simp only [act, look]
    split
    · exact .misses
    rename_i s hs
    split
    · exact .misses
    · rename_i hopen
      exact .looks hs (by simpa using hopen) (Subscription.poll_polls (hc s (List.mem_of_getElem? hs)))
  | unsubscribe i =>
    simp only [act, unsubscribe]
    split
    · rename_i hs
      exact .closesNone hs
    · rename_i s hs
      exact .closes hs

namespace Changes

variable {o : Option Delivery} {c' : Clients}

/-- Readers stay at places of the log. -/
theorem one_le_cursor (h : c.Changes a o c') (hc : ∀ s ∈ c.readers, 1 ≤ s.cursor) :
    ∀ s ∈ c'.readers, 1 ≤ s.cursor := by
  intro s hs
  cases h with
  | publishes | misses | replies | arms | closesNone => exact hc s hs
  | opens subject position =>
    rcases List.mem_append.1 hs with hs | hs
    · exact hc s hs
    · obtain rfl := List.mem_singleton.1 hs
      exact position.one_le_first
  | looks hi _ hp =>
    rcases List.mem_or_eq_of_mem_set hs with hs | rfl
    · exact hc s hs
    · exact hp.one_le_cursor (hc _ (List.mem_of_getElem? hi))
  | @closes _ s₀ hi =>
    rcases List.mem_or_eq_of_mem_set hs with hs | rfl
    · exact hc s hs
    · rw [(s₀.unsubscribe_frame c.log).2.2]
      exact hc _ (List.mem_of_getElem? hi)

/-- A reader more for each one that is opened. -/
theorem length_readers (h : c.Changes a o c') : c'.readers.length
    = c.readers.length + (Moment.opened? ⟨a, c, o, c'⟩).toList.length := by
  cases h with
  | opens => exact List.length_append
  | publishes | misses | replies | arms | closesNone => rfl
  | looks | closes => exact List.length_set

/-- **What comes of a reader**: it was opened just now, it has looked, or it has not. -/
theorem reader {i : Nat} {s' : Subscription} (h : c.Changes a o c') (hs : c'.readers[i]? = some s') :
    (i = c.readers.length ∧ ∃ subject position, a = .subscribe subject position ∧
      s' = (c.log.subscribe subject position).1) ∨
    ∃ s, c.readers[i]? = some s ∧
      (a ≠ .look i ∧ (s' = s ∨ s' = (s.unsubscribe c.log).1) ∨
        a = .look i ∧ (s' = s ∧ o = none ∨ s.closed = false ∧ s.Polls c.log o s' c'.log)) := by
  cases h with
  | publishes | replies | arms | closesNone =>
    exact .inr ⟨s', hs, .inl ⟨by simp, .inl rfl⟩⟩
  | @misses j =>
    by_cases hj : Action.look j = .look i
    · exact .inr ⟨s', hs, .inr ⟨hj, .inl ⟨rfl, rfl⟩⟩⟩
    · exact .inr ⟨s', hs, .inl ⟨hj, .inl rfl⟩⟩
  | opens subject position =>
    obtain ⟨hi, heq⟩ | hs := eq_or_getElem?_of_concat hs
    · exact .inl ⟨hi, subject, position, rfl, heq⟩
    · exact .inr ⟨s', hs, .inl ⟨by simp, .inl rfl⟩⟩
  | @looks j s₀ _ _ _ hs₀ hopen hp =>
    obtain ⟨rfl, rfl⟩ | ⟨hj, hs⟩ := eq_or_getElem?_of_set hs
    · exact .inr ⟨s₀, hs₀, .inr ⟨rfl, .inr ⟨hopen, hp⟩⟩⟩
    · exact .inr ⟨s', hs, .inl ⟨by simpa using hj, .inl rfl⟩⟩
  | @closes j s₀ hs₀ =>
    obtain ⟨rfl, rfl⟩ | ⟨-, hs⟩ := eq_or_getElem?_of_set hs
    · exact .inr ⟨s₀, hs₀, .inl ⟨by simp, .inr rfl⟩⟩
    · exact .inr ⟨s', hs, .inl ⟨by simp, .inl rfl⟩⟩

/-- **A look that finds something** is one of an open reader. -/
theorem looker {i : Nat} (h : c.Changes (.look i) o c') (ho : o ≠ none) :
    ∃ s s', c.readers[i]? = some s ∧ s.closed = false ∧ s.Polls c.log o s' c'.log := by
  cases h with
  | looks hs hopen hp => exact ⟨_, _, hs, hopen, hp⟩
  | misses => exact absurd rfl ho

/-- **Only a publication changes the messages**, and it adds one. -/
theorem messages (h : c.Changes a o c') : c'.log.messages.toList
    = c.log.messages.toList ++ (Moment.published? ⟨a, c, o, c'⟩).toList := by
  cases h with
  | publishes m => exact Array.toList_push
  | opens | misses | closesNone => exact (List.append_nil _).symm
  | looks _ _ hp => exact (congrArg _ hp.messages).trans (List.append_nil _).symm
  | replies a => exact (congrArg _ (c.log.reply_frame a).1).trans (List.append_nil _).symm
  | arms p fault times =>
    exact (congrArg _ (c.log.arm_messages p fault times)).trans (List.append_nil _).symm
  | @closes _ s hs =>
    exact (congrArg _ (s.unsubscribe_frame c.log).1).trans (List.append_nil _).symm

/-- **A fault fires whenever its place is passed over.** -/
theorem firesAt (h : c.Changes a o c') : Moment.firesAt ⟨a, c, o, c'⟩ p
    = (Moment.passes ⟨a, c, o, c'⟩ p && (c.log.armed? p).isSome) := by
  cases h with
  | publishes | opens | replies | arms | closes | closesNone => rfl
  | @misses i =>
    -- A reader that stays where it is passes over nothing, and no fault is spent.
    rcases hs : c.readers[i]? with _ | s
    · simp [Moment.firesAt, Moment.passes, hs]
    · simp [Moment.firesAt, Moment.passes, hs, Subscription.passed_of_cursor]
  | @looks i s s' o l hs _ hp =>
    have hset : (c.readers.set i s')[i]? = some s' :=
      List.getElem?_set_self (List.getElem?_eq_some_iff.1 hs).1
    rw [Bool.eq_iff_iff, Moment.firesAt_iff rfl hp.firedAt, Bool.and_eq_true, Moment.passes]
    simp only [hs, hset, decide_eq_true_eq]

/-- **What is armed at a place** is armed until it fires, or something else is armed there. -/
theorem armed? (h : c.Changes a o c') (harm : ∀ fault times, a = .arm p fault times → times = 0) :
    c'.log.armed? p = if Moment.firesAt ⟨a, c, o, c'⟩ p then (c.log.armed? p).bind Log.spent
      else c.log.armed? p := by
  have hsame : c'.log.faults = c.log.faults → c'.log.armed? p = c.log.armed? p := fun hf => by
    rw [Log.armed?, Log.armed?, hf]
  cases h with
  | publishes | opens | closesNone => rfl
  | misses => rw [if_neg (by simp [Moment.firesAt])]
  | replies a => exact hsame (c.log.reply_frame a).2.1
  | @closes _ s hs => exact hsame (s.unsubscribe_frame c.log).2.1
  | arms q fault times =>
    rw [if_neg (by simp [Moment.firesAt, Moment.isLook]), Log.armed?_arm, if_neg]
    rintro ⟨rfl, hne⟩
    exact hne (harm fault times rfl)
  | @looks i s s' o l hs _ hp =>
    have hfired := hp.firedAt
    by_cases hfires : Moment.firesAt ⟨.look i, c, o, ⟨l, c.readers.set i s'⟩⟩ p = true
    · obtain ⟨hmem, -⟩ := (Moment.firesAt_iff rfl hfired).1 hfires
      rw [if_pos hfires, hfired, if_pos hmem]
    · rw [if_neg hfires]
      refine by_contra fun hne => hfires ?_
      exact (Moment.firesAt_iff rfl hfired).2 ((hfired.ne_iff p).1 hne)

end Changes

end Clients

/-! ## All that has happened -/

namespace Traffic

/-- **Whatever is done one after the other is traffic.** -/
theorem run (h : Traffic options c ms) (as : List Action) :
    Traffic options (c.run as).1 (ms ++ (c.run as).2) := by
  induction as generalizing c ms with
  | nil => rwa [Clients.run, List.append_nil]
  | cons a as ih =>
    rw [Clients.run, List.append_cons]
    exact ih (h.act a)

theorem one_le_cursor (h : Traffic options c ms) : ∀ s ∈ c.readers, 1 ≤ s.cursor := by
  induction h with
  | begun => exact fun s hs => absurd hs List.not_mem_nil
  | act _ a ih => exact (Clients.act_changes ih a).one_le_cursor ih

/-- **Each action in the traffic comes to something.** -/
theorem changes (h : Traffic options c ms) (a : Action) : c.Changes a (c.act a).1 (c.act a).2 :=
  Clients.act_changes h.one_le_cursor a

/-- **Each moment** was an action after all that had happened before. -/
theorem moment {before after : List Moment} (h : Traffic options c (before ++ m :: after)) :
    ∃ c' a, Traffic options c' before ∧ m = ⟨a, c', (c'.act a).1, (c'.act a).2⟩ := by
  generalize hms : before ++ m :: after = ms at h
  induction h generalizing after with
  | begun => simp at hms
  | @act c ms h a ih =>
    rcases List.eq_nil_or_concat' after with rfl | ⟨after, m', rfl⟩
    · obtain ⟨rfl, hm⟩ := List.append_inj' hms rfl
      exact ⟨c, a, h, List.singleton_inj.1 hm⟩
    · rw [← List.cons_append, ← List.append_assoc] at hms
      exact ih (List.append_inj' hms rfl).1

/-- **What holds right after a moment, and what each action keeps, holds since then.** -/
theorem since {P : Clients → List Moment → Prop} {before after : List Moment}
    (h : Traffic options c (before ++ m :: after)) (hafter : P m.after [])
    (hact : ∀ c since a, Traffic options c (before ++ m :: since) → P c since →
      P (c.act a).2 (since ++ [⟨a, c, (c.act a).1, (c.act a).2⟩])) : P c after := by
  generalize hms : before ++ m :: after = ms at h
  induction h generalizing after with
  | begun => simp at hms
  | @act c ms h a ih =>
    rcases List.eq_nil_or_concat' after with rfl | ⟨after, m', rfl⟩
    · obtain ⟨-, hm⟩ := List.append_inj' hms rfl
      obtain rfl := List.singleton_inj.1 hm
      exact hafter
    · rw [← List.cons_append, ← List.append_assoc] at hms
      obtain ⟨rfl, hm⟩ := List.append_inj' hms rfl
      obtain rfl := List.singleton_inj.1 hm
      exact hact c after a h (ih rfl)

/-- What happened until some moment was traffic, too. -/
theorem upTo {before after : List Moment} (h : Traffic options c (before ++ after)) :
    ∃ c', Traffic options c' before := by
  rcases after with _ | ⟨m, after⟩
  · exact ⟨c, by rwa [List.append_nil] at h⟩
  · obtain ⟨c', -, h', -⟩ := h.moment
    exact ⟨c', h'⟩

/-- **The messages of the log** are those that were published, in this order. -/
theorem messages (h : Traffic options c ms) :
    c.log.messages.toList = ms.filterMap Moment.published? := by
  induction h with
  | begun => rfl
  | @act c ms h a ih =>
    rw [(h.changes a).messages, ih, List.filterMap_append]
    rcases hp : Moment.published? ⟨a, c, (c.act a).1, (c.act a).2⟩ <;> simp [hp]

/-- Later on, the log is longer. -/
theorem grown_of_append {c' : Clients} {before after : List Moment} (h : Traffic options c' before)
    (h' : Traffic options c (before ++ after)) : c'.log.Grown c.log := by
  rw [Log.Grown, h.messages, h'.messages, List.filterMap_append]
  exact List.prefix_append _ _

/-- **Publications are numbered** from one on. -/
theorem places (h : Traffic options c ms) :
    ms.filterMap Moment.place? = List.range' 1 c.log.messages.size := by
  induction h with
  | begun => rfl
  | @act c ms h a ih =>
    have hsize := congrArg List.length (h.changes a).messages
    rw [List.length_append, Array.length_toList, Array.length_toList] at hsize
    rw [List.filterMap_append, ih, hsize]
    rcases hp : Moment.published? ⟨a, c, (c.act a).1, (c.act a).2⟩ with _ | m
    · simp [Moment.place?, hp]
    · rw [Option.toList_some, List.length_singleton, List.range'_concat]
      simp [Moment.place?, hp, Log.publish, Nat.add_comm]

/-- Messages stay in the log. -/
theorem grown (h : Traffic options c ms) : ∀ m ∈ ms, m.before.log.Grown m.after.log := by
  intro m hm
  obtain ⟨before, after, rfl⟩ := List.append_of_mem hm
  obtain ⟨c', a, h', rfl⟩ := h.moment
  exact ⟨_, (h'.changes a).messages.symm⟩

/-- **What is armed** was armed by someone. -/
theorem armed (h : Traffic options c ms) {f : DeliveryFault × Nat} (hf : c.log.armed? p = some f) :
    ∃ m ∈ ms, ∃ times, m.action = .arm p f.1 times ∧ 0 < times := by
  induction h generalizing f with
  | begun => simp [Log.armed?, Log.new] at hf
  | @act c ms h a ih =>
    have hbefore : (∃ g, c.log.armed? p = some g ∧ g.1 = f.1) →
        ∃ m ∈ ms ++ [⟨a, c, (c.act a).1, (c.act a).2⟩], ∃ times,
          m.action = .arm p f.1 times ∧ 0 < times := by
      rintro ⟨g, hg, hkind⟩
      obtain ⟨m, hm, times, ha, hpos⟩ := ih hg
      exact ⟨m, List.mem_append_left _ hm, times, hkind ▸ ha, hpos⟩
    by_cases harm : ∃ fault times, a = .arm p fault times ∧ times ≠ 0
    · obtain ⟨fault, times, rfl, hne⟩ := harm
      refine ⟨_, List.mem_concat_self, times, ?_,
        Nat.pos_of_ne_zero hne⟩
      have hnew : (c.log.arm p fault times).armed? p = some f := hf
      rw [Log.armed?_arm, if_pos ⟨rfl, hne⟩] at hnew
      obtain rfl := Option.some.inj hnew
      rfl
    · rw [(h.changes a).armed? fun fault times ha => by_contra fun hne =>
        harm ⟨fault, times, ha, hne⟩] at hf
      split at hf
      · obtain ⟨g, hg, hspent⟩ := Option.bind_eq_some_iff.1 hf
        refine hbefore ⟨g, hg, ?_⟩
        unfold Log.spent at hspent
        split at hspent
        · simp at hspent
        · rw [← Option.some.inj hspent]
      · exact hbefore ⟨f, hf, rfl⟩

/-- **A fault that fires** was armed before, and its place is passed over. -/
theorem fires {before after : List Moment} (h : Traffic options c (before ++ m :: after))
    (hm : m.Fires p fault) : m.passes p = true ∧
      ∃ m' ∈ before, ∃ times, m'.action = .arm p fault times ∧ 0 < times := by
  obtain ⟨c', a, h', rfl⟩ := h.moment
  obtain ⟨hfires, harmed⟩ := hm
  rw [(h'.changes a).firesAt, Bool.and_eq_true] at hfires
  obtain ⟨f, hf, rfl⟩ := Option.map_eq_some_iff.1 harmed
  exact ⟨hfires.1, h'.armed hf⟩

/-- **What has come of a fault** that was armed at a place for some deliveries: since then it has fired
the first so many times that the place was passed over, and no other one has. -/
structure Spends (fault : DeliveryFault) (p times : Nat) (l : Log) (since : List Moment) : Prop where
  fired : since.countP (·.firesAt p) = min times (since.countP (·.passes p))
  left : l.armed? p = Log.left fault (times - since.countP (·.passes p))
  same : ∀ m ∈ since, ∀ fault', m.Fires p fault' → fault' = fault

namespace Spends

variable {times : Nat} {since : List Moment} {o : Option Delivery} {c' : Clients}

/-- Nothing has come of a fault that was armed just now. -/
theorem armed (l : Log) (fault : DeliveryFault) (p : Nat) (htimes : 0 < times) :
    Spends fault p times (l.arm p fault times) [] where
  fired := (Nat.min_eq_right (Nat.zero_le _)).symm
  left := by
    rw [List.countP_nil, Nat.sub_zero, Log.left, if_pos htimes, Log.armed?_arm,
      if_pos ⟨rfl, Nat.ne_of_gt htimes⟩]
  same m hm := absurd hm List.not_mem_nil

/-- **An action more** spends a fault if it passes over its place and something is left of it. -/
theorem act (h : Spends fault p times c.log since) (hch : c.Changes a o c')
    (harm : ∀ fault times, a = .arm p fault times → times = 0) :
    Spends fault p times c'.log (since ++ [⟨a, c, o, c'⟩]) := by
  have hfires := hch.firesAt (p := p)
  rw [h.left, Log.isSome_left] at hfires
  have hafter := hch.armed? harm
  rw [hfires, h.left, Log.bind_spent_left] at hafter
  refine ⟨?_, ?_, fun m hm fault' hf => ?_⟩
  · rw [List.countP_append, List.countP_append, List.countP_singleton, List.countP_singleton, hfires,
      h.fired]
    by_cases hpasses : Moment.passes ⟨a, c, o, c'⟩ p = true
    · simp only [hpasses, Bool.true_and, decide_eq_true_eq, if_true]
      split <;> omega
    · simp [hpasses]
  · rw [List.countP_append, List.countP_singleton, hafter]
    by_cases hpasses : Moment.passes ⟨a, c, o, c'⟩ p = true
    · simp only [hpasses, Bool.true_and, decide_eq_true_eq, if_true]
      split
      · rw [Nat.sub_sub]
      · congr 1
        omega
    · simp [hpasses]
  · rcases List.mem_append.1 hm with hm | hm
    · exact h.same m hm fault' hf
    · obtain rfl := List.mem_singleton.1 hm
      obtain ⟨f, hkind, rfl⟩ := Option.map_eq_some_iff.1 hf.2
      exact Log.left_kind (h.left.symm.trans hkind)

end Spends

/-- **As long as nothing else is armed** at the place of a fault, it is spent there as it was armed. -/
theorem spends {before since : List Moment} {times : Nat}
    (h : Traffic options c (before ++ m :: since)) (hm : m.action = .arm p fault times)
    (htimes : 0 < times)
    (hsince : ∀ m' ∈ since, ∀ fault times, m'.action = .arm p fault times → times = 0) :
    Spends fault p times c.log since := by
  refine h.since (P := fun c since => (∀ m' ∈ since, ∀ fault times,
    m'.action = .arm p fault times → times = 0) → Spends fault p times c.log since) ?_ ?_ hsince
  · obtain ⟨c', a, -, rfl⟩ := h.moment
    obtain rfl : a = .arm p fault times := hm
    exact fun _ => .armed c'.log fault p htimes
  · intro c since a h ih hsince
    exact (ih fun m' hm' => hsince m' (List.mem_append_left _ hm')).act (h.changes a)
      (hsince _ List.mem_concat_self)

end Traffic

end FileRelay
