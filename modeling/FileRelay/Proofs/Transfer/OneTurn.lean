import FileRelay.Proofs.Transfer.Acceptance
import FileRelay.Proofs.Transfer.Calls
import FileRelay.Proofs.Transfer.Turns
import FileRelay.Transfer.Download

/-!
# Proofs/Transfer/OneTurn — all that one turn of a download can do

A turn hears something and acts on it.  `Download.Acts` lists what it can do: it breaks off, rests,
tires, answers, accepts a part, recovers, or fails at one of these.  That a turn does one of them
(`turn_acts`) is where the turn of a download is opened; what downloads accept, tell and leave in
the log is said elsewhere case by case of this list.
-/

namespace FileRelay

/-- **The place that is told of** when a new reader is opened at a position. -/
def Position.told : Position → Nat
  | .all => 1
  | .sequence n => n

namespace Download

/-- The download whose reader has heard a message at this moment. -/
def stirred (d : Download) (x : Exchange) : Download := { d with lastActivity := x.time.now }

/-- **What a turn does with what it has heard.** -/
inductive Acts (d : Download) (x : Exchange) : Heard → Turn Download → Exchange → Prop
  /-- The transfer was called off, or a call was refused. -/
  | breaksOff {h : Heard} {why : Failure} {lastActivity : Nat} {reader : Subscription}
      {x' : Exchange} (hx : x.Beside x')
      (hwhy : (h = .calledOff ∧ why = .cancelled) ∨
        ((∃ e, why = .delivery e) ∧ (x.Grants → ∃ e, h = .broken e)))
      (hclose : h = .calledOff → (reader, x') = x.unsubscribe d.reader)
      (hdata : ∀ m, h ≠ .data m)
      (hreply : ∀ a, h = .flowControl (some a) → (x.reply a).1 ≠ .ok ()) :
      Acts d x h (.broken { d with lastActivity, reader, session := d.session.fail } why) x'
  | rests (hidle : x.time.now - d.lastActivity < d.task.config.maxIdleMs.toNat) :
      Acts d x .nothing (.on d) x
  | tires (hidle : d.task.config.maxIdleMs.toNat ≤ x.time.now - d.lastActivity) :
      Acts d x .nothing (.done d) x
  | passes : Acts d x (.flowControl none) (.on (d.stirred x)) x
  | answers {a : Address} {x' : Exchange} (hx : x.reply a = (.ok (), x')) :
      Acts d x (.flowControl (some a))
        (.on ({ d.stirred x with flowReplies := d.flowReplies + 1 }.tell (.flowControl d.fileId))) x'
  | accepts {m : Delivery} {data : Bytes} {sink : Sink} {session : Session} {x' : Exchange}
      (hc : d.session.checkPart d.task.record m = some (.ok data))
      (hw : d.sink.writeAll data = (.ok (), sink))
      (hs : d.session.accept? m.sequence data.length = some session) (hx : x.Beside x')
      (hack : x' = d.acknowledge m x) :
      Acts d x (.data m)
        (.on ({ d.stirred x with sink, session, digester := d.digester.absorb data }.tell
          (.partAccepted d.fileId session.partsWritten d.task.parts session.bytesWritten))) x'
  | cannotWrite {m : Delivery} {data : Bytes} {sink : Sink} {reader : Subscription} {e : IoFault}
      {x' : Exchange} (hc : d.session.checkPart d.task.record m = some (.ok data))
      (hw : d.sink.writeAll data = (.error e, sink)) (hx : x.Beside x')
      (hclose : (reader, x') = x.unsubscribe d.reader) :
      Acts d x (.data m)
        (.broken { d.stirred x with sink, reader, session := d.session.fail } (.io e)) x'
  | outgrows {m : Delivery} {data : Bytes} {sink : Sink}
      (hc : d.session.checkPart d.task.record m = some (.ok data))
      (hw : d.sink.writeAll data = (.ok (), sink))
      (hs : d.session.accept? m.sequence data.length = none) :
      Acts d x (.data m) (.broken { d.stirred x with sink } .overflow) x
  | recovers {m : Delivery} {reason : Anomaly} {p : Position} {session : Session}
      {x' : Exchange} (hc : d.session.checkPart d.task.record m = some (.error reason))
      (hr : d.session.recover? = some (some p, session)) (hx : x.Beside x')
      (hreopen : ((x.term d.reader m).2.unsubscribe d.reader).2.subscribe d.task.subject p
        = (.ok (.fresh d.task.subject p), x')) :
      Acts d x (.data m)
        (.on { d.stirred x with
          reader := .fresh d.task.subject p, session := session.startReading
          events := d.events ++ [.recovering d.fileId reason p.told session.retriesLeft] }) x'
  | stranded {m : Delivery} {reason : Anomaly} {p : Position} {session : Session}
      {reader : Subscription} {e : DeliveryError} {x' : Exchange}
      (hc : d.session.checkPart d.task.record m = some (.error reason))
      (hr : d.session.recover? = some (some p, session)) (hx : x.Beside x')
      (hrules : ¬ x.Grants) :
      Acts d x (.data m)
        (.broken { d.stirred x with
          reader, session
          events := d.events ++ [.recovering d.fileId reason p.told session.retriesLeft] }
          (.delivery e)) x'
  | cannotResume {m : Delivery} {reason : Anomaly} {reader : Subscription} {x' : Exchange}
      (hc : d.session.checkPart d.task.record m = some (.error reason))
      (hr : d.session.recover? = none) (hx : x.Beside x') :
      Acts d x (.data m) (.broken { d.stirred x with reader } .overflow) x'
  | givesUp {m : Delivery} {reason : Anomaly} {session : Session} {reader : Subscription}
      {why : Failure} {x' : Exchange}
      (hc : d.session.checkPart d.task.record m = some (.error reason))
      (hr : d.session.recover? = some (none, session)) (hx : x.Beside x')
      (hwhy : (∃ e, d.sink.flush.1 = .error e ∧ why = .io e) ∨
        (d.sink.flush.1 = .ok () ∧
          why = .tooManyMismatches session.recoveries session.partsWritten
            session.bytesWritten))
      (hclose : (reader, x') = (x.term d.reader m).2.unsubscribe d.reader) :
      Acts d x (.data m)
        (.broken { d.stirred x with sink := d.sink.flush.2, session, reader } why) x'

section

variable {d : Download} {x : Exchange} {h : Heard} {m : Delivery} {data : Bytes} {reason : Anomaly}

/-- Acting delivers nothing and lets no time pass. -/
theorem Acts.beside {r : Turn Download} {x' : Exchange} (ha : Acts d x h r x') : x.Beside x' := by
  cases ha with
  | breaksOff hx | accepts _ _ _ hx | cannotWrite _ _ hx | recovers _ _ hx | stranded _ _ hx
  | cannotResume _ _ hx | givesUp _ _ hx => exact hx
  | rests | tires | passes | outgrows => exact .refl x
  | @answers a _ hr =>
    have hb := x.reply_beside a
    rw [hr] at hb
    exact hb

theorem breakOff_acts {why : Failure} {lastActivity : Nat}
    (hwhy : (h = .calledOff ∧ why = .cancelled) ∨
      ((∃ e, why = .delivery e) ∧ (x.Grants → ∃ e, h = .broken e)))
    {x' : Exchange} (hx : x.Beside x') (hoff : h = .calledOff → x' = x)
    (hdata : ∀ m, h ≠ .data m) (hreply : ∀ a, h = .flowControl (some a) → (x.reply a).1 ≠ .ok ()) :
    Acts d x h ({ d with lastActivity }.breakOff why x').1
      ({ d with lastActivity }.breakOff why x').2 :=
  .breaksOff (hx.trans (x'.unsubscribe_beside _)) hwhy (fun h => by rw [hoff h]; rfl) hdata
    hreply

theorem rest_acts : Acts d x .nothing (d.rest x).1 (d.rest x).2 := by
  unfold rest
  split
  · rename_i hidle
    exact .tires hidle
  · rename_i hidle
    exact .rests (Nat.lt_of_not_le hidle)

theorem answer_acts (replyTo : Option Address) :
    Acts d x (.flowControl replyTo) ((d.stirred x).answer replyTo x).1
      ((d.stirred x).answer replyTo x).2 := by
  rcases replyTo with _ | a
  · exact .passes
  have hb := x.reply_beside a
  unfold answer
  dsimp only
  split
  · rename_i e x' hr
    rw [hr] at hb
    refine breakOff_acts (.inr ⟨⟨e, rfl⟩, fun hgrants => ?_⟩) hb nofun nofun fun b hb => ?_
    · rw [Exchange.reply, hgrants.attempt_eq] at hr
      simp at hr
    · obtain rfl : a = b := by simpa using hb
      simp [hr]
  · rename_i x' hr
    exact .answers hr

theorem acknowledge_beside (d : Download) (m : Delivery) (x : Exchange) :
    x.Beside (d.acknowledge m x) := by
  unfold acknowledge
  split
  · exact x.ack_beside _ _
  · exact .refl x

theorem accept_acts (hc : d.session.checkPart d.task.record m = some (.ok data)) :
    Acts d x (.data m) ((d.stirred x).accept m data x).1 ((d.stirred x).accept m data x).2 := by
  unfold accept
  rcases hw : d.sink.writeAll data with ⟨_ | _, sink⟩
  · rw [show (d.stirred x).sink = d.sink from rfl, hw]
    exact .cannotWrite hc hw (x.unsubscribe_beside _) rfl
  · rw [show (d.stirred x).sink = d.sink from rfl, hw]
    dsimp only
    split
    · rename_i hs
      exact .outgrows hc hw hs
    · rename_i session hs
      exact .accepts hc hw hs (acknowledge_beside _ m x) rfl

theorem recover_acts (hc : d.session.checkPart d.task.record m = some (.error reason)) :
    Acts d x (.data m) ((d.stirred x).recover m reason x).1 ((d.stirred x).recover m reason x).2 := by
  have hx : x.Beside ((x.term (d.stirred x).reader m).2.unsubscribe (d.stirred x).reader).2 :=
    (x.term_beside _ m).trans (Exchange.unsubscribe_beside _ _)
  unfold recover close
  dsimp only
  split
  · rename_i hr
    exact .cannotResume hc hr hx
  · rename_i session hr
    unfold giveUp
    dsimp only
    split
    · rename_i e hf
      exact .givesUp hc hr hx (.inl ⟨e, hf, rfl⟩) rfl
    · rename_i hf
      exact .givesUp hc hr hx (.inr ⟨hf, rfl⟩) rfl
  · rename_i p session hr
    unfold resume
    dsimp only
    have hb := Exchange.subscribe_beside
      ((x.term (d.stirred x).reader m).2.unsubscribe (d.stirred x).reader).2 d.task.subject p
    split
    · rename_i e x' hs
      have hs' : Exchange.subscribe _ d.task.subject p = (.error e, x') := hs
      rw [hs'] at hb
      refine .stranded hc hr (hx.trans hb) fun hgrants => ?_
      rw [Exchange.subscribe, (hgrants.of_rules hx.rules).attempt_eq] at hs'
      simp at hs'
    · rename_i reader x' hs
      have hs' : Exchange.subscribe _ d.task.subject p = (.ok reader, x') := hs
      rw [hs'] at hb
      have hfresh := Exchange.subscribe_ok hs'
      rw [hfresh]
      exact .recovers hc hr (hx.trans hb) (hfresh ▸ hs')

theorem take_acts (hfits : d.session.checkPart d.task.record m ≠ none) :
    Acts d x (.data m) ((d.stirred x).take m x).1 ((d.stirred x).take m x).2 := by
  unfold take
  rcases hc : d.session.checkPart d.task.record m with _ | (_ | _)
  · exact absurd hc hfits
  · rw [show (d.stirred x).session.checkPart (d.stirred x).task.record m = _ from hc]
    exact recover_acts hc
  · rw [show (d.stirred x).session.checkPart (d.stirred x).task.record m = _ from hc]
    exact accept_acts hc

end

theorem turn_of_complete {d : Download} {x : Exchange}
    (hc : d.session.isComplete d.task.parts = true) : d.turn x = (.done d, x) := by
  rw [turn, if_pos hc]

/-- What a reader hears in its turn. -/
def listen (d : Download) (x : Exchange) : Heard × Subscription × Exchange :=
  x.hear d.reader d.task.config.readTimeoutMs.toNat

/-- **A turn acts on what it hears**, unless that is a part whose beginning does not fit a word. -/
theorem turn_acts_listen {d : Download} {x : Exchange}
    (hc : d.session.isComplete d.task.parts = false)
    (hfits : ∀ m, (d.listen x).1 = .data m → d.session.checkPart d.task.record m ≠ none) :
    Acts { d with reader := (d.listen x).2.1 } (d.listen x).2.2 (d.listen x).1 (d.turn x).1
      (d.turn x).2 := by
  unfold turn
  unfold listen at hfits ⊢
  simp only [hc, Bool.false_eq_true, ↓reduceIte]
  generalize (x.hear d.reader d.task.config.readTimeoutMs.toNat).1 = h at hfits
  generalize (x.hear d.reader d.task.config.readTimeoutMs.toNat).2.1 = s
  generalize (x.hear d.reader d.task.config.readTimeoutMs.toNat).2.2 = x₁
  cases h with
  | calledOff => exact breakOff_acts (.inl ⟨rfl, rfl⟩) (.refl x₁) (fun _ => rfl) nofun nofun
  | broken e => exact breakOff_acts (.inr ⟨⟨e, rfl⟩, fun _ => ⟨e, rfl⟩⟩) (.refl x₁) nofun nofun nofun
  | nothing => exact rest_acts
  | flowControl replyTo => exact answer_acts replyTo
  | data m => exact take_acts (d := { d with reader := s }) (hfits m rfl)

/-- A part whose beginning does not fit a word ends the download. -/
theorem turn_overflows {d : Download} {x : Exchange} {m : Delivery}
    (hc : d.session.isComplete d.task.parts = false) (hm : (d.listen x).1 = .data m)
    (hnone : d.session.checkPart d.task.record m = none) :
    d.turn x = (.broken ({ d with reader := (d.listen x).2.1 }.stirred (d.listen x).2.2) .overflow,
      (d.listen x).2.2) := by
  unfold turn
  unfold listen at hm ⊢
  simp only [hc, hm, take, hnone, Bool.false_eq_true, ↓reduceIte]
  rfl

/-- **A turn hears something and acts on it.** -/
theorem turn_acts {d : Download} {x : Exchange} (ht : d.task.record.Tiled)
    (hc : d.session.isComplete d.task.parts = false) (hcursor : 1 ≤ d.reader.cursor)
    (hopen : d.reader.closed = false) :
    ∃ h s x₁, x.Hears d.reader d.task.config.readTimeoutMs.toNat h s x₁ ∧
      Acts { d with reader := s } x₁ h (d.turn x).1 (d.turn x).2 :=
  ⟨_, _, _, Exchange.hear_hears hcursor hopen,
    turn_acts_listen hc fun m _ => Session.checkPart_ne_none ht m⟩

/-- **What a turn comes to**: all parts have been accepted, or a number has outgrown its word, or the
turn acts on what it hears. -/
theorem turn_cases (d : Download) (x : Exchange) :
    (d.session.isComplete d.task.parts = true ∧ d.turn x = (.done d, x)) ∨
      (∃ d' x', d.turn x = (.broken d' .overflow, x')) ∨
      (d.session.isComplete d.task.parts = false ∧
        Acts { d with reader := (d.listen x).2.1 } (d.listen x).2.2 (d.listen x).1 (d.turn x).1
          (d.turn x).2) := by
  rcases hcomplete : d.session.isComplete d.task.parts
  swap
  · exact .inl ⟨rfl, turn_of_complete hcomplete⟩
  by_cases hfits : ∀ m, (d.listen x).1 = .data m → d.session.checkPart d.task.record m ≠ none
  · exact .inr (.inr ⟨rfl, turn_acts_listen hcomplete hfits⟩)
  · push Not at hfits
    obtain ⟨m, hm, hnone⟩ := hfits
    exact .inr (.inl ⟨_, _, turn_overflows hcomplete hm hnone⟩)

/-- No turn stalls. -/
theorem turn_not_stalled (d : Download) (x : Exchange) :
    (d.turn x).1.All (fun _ => True) (fun _ => True) (fun _ why => why ≠ .stalled) := by
  obtain ⟨-, hturn⟩ | ⟨d', x', hturn⟩ | ⟨-, ha⟩ := d.turn_cases x
  · rw [hturn]
    trivial
  · simp [hturn, Turn.All]
  generalize (d.listen x).1 = s at ha
  generalize (d.turn x).1 = r at ha ⊢
  generalize (d.turn x).2 = x' at ha
  cases ha with
  | breaksOff _ hwhy => obtain ⟨-, rfl⟩ | ⟨⟨e, rfl⟩, -⟩ := hwhy <;> simp [Turn.All]
  | givesUp _ _ _ hwhy => obtain ⟨e, -, rfl⟩ | ⟨-, rfl⟩ := hwhy <;> simp [Turn.All]
  | cannotWrite | outgrows | stranded | cannotResume => simp [Turn.All]
  | rests | passes | answers | accepts | recovers | tires => trivial

/-! ## The end -/

/-- **A download that was closed** tells of the same parts as before. -/
structure Closed (d d' : Download) : Prop where
  task : d'.task = d.task
  session : ∃ state, d'.session = { d.session with state }
  digester : d'.digester = d.digester
  written : d'.sink.written = d.sink.written
  flowReplies : d'.flowReplies = d.flowReplies

/-- **The end of a download** closes it. -/
theorem finish_closed (d : Download) (x : Exchange) :
    Closed d (d.finish x).2.1 ∧ x.Beside (d.finish x).2.2 := by
  have hb := x.unsubscribe_beside d.reader
  unfold finish
  dsimp only
  split
  · exact ⟨⟨rfl, ⟨d.session.state, rfl⟩, rfl, rfl, rfl⟩, hb⟩
  · exact ⟨⟨rfl, ⟨.done, rfl⟩, rfl, rfl, rfl⟩, hb⟩

/-- It comes to a report unless the sink cannot be flushed. -/
theorem finish_fst (d : Download) (x : Exchange) :
    (∃ e, d.sink.flush.1 = .error e ∧ (d.finish x).1 = .error (.io e)) ∨
      (d.sink.flush.1 = .ok () ∧ (d.finish x).1 = .ok (d.finish x).2.1.report) := by
  unfold finish
  dsimp only
  split
  · rename_i e hf
    exact .inl ⟨e, hf, rfl⟩
  · rename_i hf
    exact .inr ⟨hf, rfl⟩

end Download

end FileRelay
