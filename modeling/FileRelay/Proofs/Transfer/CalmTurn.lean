import FileRelay.Proofs.Transfer.Accepted
import FileRelay.Proofs.Transfer.Listening
import FileRelay.Proofs.Transfer.OneTurn

/-!
# Proofs/Transfer/CalmTurn — what a turn does where no rule interferes

Where no rule interferes and nobody calls off, a download with a reliable sink has few things left to
do (`Download.Goes`): it ends, rests, tires, answers a request, accepts the next part, recovers, or
gives up because its budget is spent.  Nothing fails and no counter is outgrown (`InStep.goes`).
-/

namespace FileRelay

open Accepted (contents places)

namespace Download

/-- **Is a delivery refused?** It is not the next one, or not the next part. -/
def Refuses (d : Download) (m : Delivery) : Prop :=
  ∀ content, m.number = d.session.expecting →
    d.task.record.contentAt? d.session.expectedPart m.headers m.payload ≠ some content

/-- **What a turn does** where nothing hinders it. -/
inductive Goes (d : Download) (x : Exchange) : Turn Download → Exchange → Prop
  | completes (hc : d.session.isComplete d.task.parts = true) : Goes d x (.done d) x
  | rests {s : Subscription} {x₁ : Exchange}
      (hl : x.Listens d.reader d.task.config.readTimeoutMs.toNat .nothing s x₁) :
      Goes d x (.on { d with reader := s }) x₁
  | tires {s : Subscription} {x₁ : Exchange}
      (hl : x.Listens d.reader d.task.config.readTimeoutMs.toNat .nothing s x₁)
      (hidle : d.task.config.maxIdleMs.toNat ≤ x₁.time.now - d.lastActivity) :
      Goes d x (.done { d with reader := s }) x₁
  | answers {s : Subscription} {x₁ x₂ : Exchange} {n : Nat} {e : Event}
      (hl : x.Listens d.reader d.task.config.readTimeoutMs.toNat
        (.flowControl (some (.issued n))) s x₁)
      (hx : x₁.Beside x₂) (hw : x₂.log.waiting = x₁.log.waiting.erase n) :
      Goes d x (.on { d with
        reader := s, lastActivity := x₁.time.now, flowReplies := d.flowReplies + 1
        events := d.events ++ [e] }) x₂
  | accepts {s : Subscription} {x₁ x₂ : Exchange} {m : Delivery} {data : Bytes} {sink : Sink}
      {session : Session} {e : Event}
      (hl : x.Listens d.reader d.task.config.readTimeoutMs.toNat (.data m) s x₁)
      (hx : x₁.Beside x₂) (hn : m.number = d.session.expecting)
      (hc : d.task.record.contentAt? d.session.expectedPart m.headers m.payload = some data)
      (hw : d.sink.writeAll data = (.ok (), sink))
      (hs : d.session.accept? m.sequence data.length = some session) :
      Goes d x (.on { d with
        sink, session, digester := d.digester.absorb data, reader := s
        lastActivity := x₁.time.now, events := d.events ++ [e] }) x₂
  | recovers {s : Subscription} {x₁ x₂ : Exchange} {m : Delivery} {p : Position}
      {session : Session} {e : Event}
      (hl : x.Listens d.reader d.task.config.readTimeoutMs.toNat (.data m) s x₁)
      (hx : x₁.Beside x₂) (hm : d.Refuses m)
      (hr : d.session.recover? = some (some p, session)) :
      Goes d x (.on { d with
        reader := .fresh d.task.subject p, session := session.startReading
        lastActivity := x₁.time.now, events := d.events ++ [e] }) x₂
  | givesUp {s reader : Subscription} {x₁ x₂ : Exchange} {m : Delivery} {session : Session}
      (hl : x.Listens d.reader d.task.config.readTimeoutMs.toNat (.data m) s x₁)
      (hx : x₁.Beside x₂) (hm : d.Refuses m)
      (hr : d.session.recover? = some (none, session)) :
      Goes d x (.broken { d with
        sink := d.sink.flush.2, session, reader, lastActivity := x₁.time.now }
        (.tooManyMismatches session.recoveries session.partsWritten session.bytesWritten)) x₂

variable {d : Download} {t : DownloadTask} {before : Bytes} {as : List Accepted} {x : Exchange}

/-- A refused delivery is no part. -/
theorem refuses_of_checkPart {m : Delivery} {reason : Anomaly}
    (h : d.session.checkPart d.task.record m = some (.error reason)) : d.Refuses m :=
  fun content hn hc => by
    simp [Session.checkPart_eq_ok_iff.2 ⟨hn, hc⟩] at h

/-- **Unhindered, a turn goes one of these ways.** -/
theorem InStep.goes (h : d.InStep t before x.log as) (ht : t.record.Tiled) (hx : x.Unhindered)
    (hk : d.sink.Reliable) (hsize : x.log.messages.size + 1 < Word.limit) :
    Goes d x (d.turn x).1 (d.turn x).2 := by
  have hholds := h.holds
  rcases hcomplete : d.session.isComplete d.task.parts
  swap
  · rw [turn_of_complete hcomplete]
    exact .completes hcomplete
  obtain ⟨heard, s, x₁, hh, ha⟩ := turn_acts (hholds.task ▸ ht) hcomplete h.one_le_cursor h.isOpen
  have hl := hh.listens (Exchange.grants_of_rules_nil hx.rules) h.doubled
  have hlater₁ := hh.later hx.rules
  have hcalm₁ := hx.later hlater₁
  generalize (d.turn x).1 = r at ha ⊢
  generalize (d.turn x).2 = x₂ at ha ⊢
  cases ha with
  | breaksOff _ hwhy =>
    obtain ⟨rfl, -⟩ | ⟨-, hbroken⟩ := hwhy
    · cases hl with
      | calledOff _ hoff => simp [hcalm₁.calledOff] at hoff
    · obtain ⟨e, rfl⟩ := hbroken (Exchange.grants_of_rules_nil hlater₁.rules)
      nomatch hl
  | rests => exact .rests hl
  | tires hidle => exact .tires hl hidle
  | passes => nomatch hl
  | @answers a _ hr =>
    cases hl with
    | @asked _ _ _ _ n hw hheld hdue hn hs hlog =>
      have hb := x₁.reply_beside (.issued n)
      obtain ⟨-, hwaiting⟩ := Exchange.reply_of_rules_nil hlater₁.rules n
      rw [hr] at hb hwaiting
      exact .answers (.asked hw hheld hdue hn hs hlog) hb hwaiting
  | accepts hc hw hs hb =>
    obtain ⟨hn, hc⟩ := Session.checkPart_eq_ok_iff.1 hc
    exact .accepts hl hb hn hc hw hs
  | @cannotWrite m data _ _ e _ _ hw =>
    have hok := hk.writeAll data
    rw [show d.sink.writeAll data = _ from hw] at hok
    simp at hok
  | outgrows hc hw hs => exact absurd hs (hholds.accept?_ne_none_of_checkPart ht hc)
  | recovers hc hr hb => exact .recovers hl hb (refuses_of_checkPart hc) hr
  | stranded _ _ _ hrules => exact absurd (Exchange.grants_of_rules_nil hlater₁.rules) hrules
  | cannotResume hc hr => exact absurd hr (hholds.recover?_ne_none hsize)
  | givesUp hc hr hb hwhy =>
    obtain ⟨e, hflush, -⟩ | ⟨-, rfl⟩ := hwhy
    · have hok := hk.flush
      rw [show d.sink.flush.1 = _ from hflush] at hok
      simp at hok
    · exact .givesUp hl hb (refuses_of_checkPart hc) hr

/-- In a calm exchange no message is published. -/
theorem InStep.turn_messages (h : d.InStep t before x.log as) (ht : t.record.Tiled) (hx : x.Calm) :
    (d.turn x).2.log.messages = x.log.messages := by
  rcases hcomplete : d.session.isComplete d.task.parts
  swap
  · rw [turn_of_complete hcomplete]
  obtain ⟨heard, s, x₁, hh, ha⟩ := turn_acts (h.holds.task ▸ ht) hcomplete h.one_le_cursor h.isOpen
  exact ha.beside.messages.trans (hh.messages hx.coming)

end Download

end FileRelay
