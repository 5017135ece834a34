import FileRelay.Proofs.Log.Timetable
import FileRelay.Proofs.Transfer.Reading
import FileRelay.Transfer.Download
import Mathlib.Data.List.Chain

/-!
# Proofs/Transfer/Schedule — others who publish while a download goes on

On a **timetable** all that others do is to publish, each message at its moment, and they make a log
that there will be in the end (`Exchange.Leads`).  The messages of a row are **prompt** when none of
them arrives later after the one before it than a download has patience for (`Exchange.Prompt`).
Time that passes changes none of that: what has arrived is in the log.
-/

namespace FileRelay

open Timeline (publications)

namespace Exchange

variable {x x' : Exchange} {t : DownloadTask} {l : Log} {p : Nat}

/-- **An exchange with a timetable**: no rule interferes, nobody calls off, and others publish each
message at its moment. -/
structure Timetabled (x : Exchange) : Prop where
  rules : x.interference.rules = []
  publishes : ∀ e ∈ x.time.agenda, ∃ m, e.2 = .publish m
  ordered : x.time.agenda.Pairwise fun e f => e.1 ≤ f.1
  calledOff : x.time.calledOff = false

namespace Timetabled

theorem unhindered (h : x.Timetabled) : x.Unhindered :=
  ⟨h.rules, fun e he hoff => by
    obtain ⟨m, hm⟩ := h.publishes e he
    rw [hoff] at hm
    simp at hm, h.calledOff⟩

theorem later (h : x.Timetabled) (hl : x.Later x') : x'.Timetabled where
  rules := hl.rules
  publishes e he := h.publishes e (hl.agenda.subset he)
  ordered := h.ordered.sublist hl.agenda.sublist
  calledOff := (h.unhindered.later hl).calledOff

theorem coming (h : x.Timetabled) : ∀ deed ∈ x.time.coming, deed.IsFaultless := by
  intro deed hdeed place fault times harm
  obtain ⟨e, he, rfl⟩ := List.mem_map.1 hdeed
  obtain ⟨m, hm⟩ := h.publishes e he
  simp [hm] at harm

/-- What comes first is due first. -/
theorem le_of_mem (h : x.Timetabled) (hnext : ∀ e ∈ x.time.agenda.head?, p ≤ e.1) :
    ∀ e ∈ x.time.agenda, p ≤ e.1 := by
  intro e he
  have hordered := h.ordered
  rcases hagenda : x.time.agenda with _ | ⟨f, rest⟩
  · simp [hagenda] at he
  · rw [hagenda] at he hordered hnext
    have hfirst : p ≤ f.1 := hnext f rfl
    rcases List.mem_cons.1 he with rfl | he
    · exact hfirst
    · exact Nat.le_trans hfirst ((List.pairwise_cons.1 hordered).1 e he)

end Timetabled

/-- **Whoever plans to publish** adds to the timetable. -/
theorem Timetabled.plan (h : x.Timetabled) (delay : Nat) (m : Published) :
    (x.plan delay (.publish m)).Timetabled where
  rules := h.rules
  publishes e he := (Timeline.mem_insertDeed he).elim (fun heq => ⟨m, heq ▸ rfl⟩) (h.publishes e)
  ordered := Timeline.pairwise_insertDeed _ _ h.ordered
  calledOff := h.calledOff

/-- Later the log is longer. -/
theorem Later.grown (h : x.Later x') : x.log.Grown x'.log := by
  obtain ⟨done, -, -, hmessages⟩ := h.done
  exact ⟨_, hmessages.symm⟩

/-- **An exchange whose timetable leads to a log.** -/
structure Leads (x : Exchange) (l : Log) : Prop extends x.Timetabled where
  comes : l.messages.toList = x.log.messages.toList ++ publications x.time.agenda
  options : x.log.options = l.options

theorem Leads.later (h : x.Leads l) (hl : x.Later x') : x'.Leads l where
  toTimetabled := h.toTimetabled.later hl
  comes := by
    obtain ⟨done, hagenda, -, hmessages⟩ := hl.done
    rw [h.comes, hagenda, Timeline.publications_append, ← List.append_assoc]
    exact congrArg (· ++ _) hmessages.symm
  options := hl.options.trans h.options

theorem Leads.grown (h : x.Leads l) : x.log.Grown l := ⟨_, h.comes.symm⟩

/-- **Messages that arrive promptly** for a download: each so soon after the one before it, the first
after this moment. -/
def Prompt (x : Exchange) (t : DownloadTask) (p : Nat) : Prop :=
  p ≤ x.time.now ∧ (p :: x.time.arrivals t.subject t.origin.first).IsChain fun earlier later =>
    later < earlier + t.config.maxIdleMs.toNat

/-- **Messages stay prompt**, after the last of those that have arrived. -/
theorem Prompt.later (h : x.Prompt t p) (hl : x.Later x') : ∃ q, x'.Prompt t q ∧
    (q = p ∨ (x.log.row t.subject t.origin.first).length
      < (x'.log.row t.subject t.origin.first).length) := by
  obtain ⟨past, harrivals, hpast, hlength⟩ := hl.toAfter.arrivals t.subject t.origin.first
  obtain ⟨hnow, hchain⟩ := h
  rw [harrivals] at hchain
  rcases List.eq_nil_or_concat' past with rfl | ⟨before, q, rfl⟩
  · exact ⟨p, ⟨Nat.le_trans hnow hl.now, hchain⟩, .inl rfl⟩
  · refine ⟨q, ⟨hpast q (by simp), ?_⟩, .inr ?_⟩
    · rw [List.append_assoc, List.singleton_append, ← List.cons_append] at hchain
      exact hchain.right_of_append
    · rw [List.length_append, List.length_singleton] at hlength
      exact hlength ▸ Nat.lt_add_of_pos_right (Nat.succ_pos _)

/-- **A timetable has come to its end** when a download has waited in vain for so long. -/
theorem Prompt.ended (h : x.Prompt t p) (hx : x.Timetabled) {last : Nat} (hlast : p ≤ last)
    (hidle : t.config.maxIdleMs.toNat ≤ x.time.now - last)
    (hnext : ∀ e ∈ x.time.agenda.head?, x.time.now ≤ e.1) :
    x.time.arrivals t.subject t.origin.first = [] := by
  obtain ⟨hnow, hchain⟩ := h
  rcases harrivals : x.time.arrivals t.subject t.origin.first with _ | ⟨q, rest⟩
  · rfl
  · rw [harrivals] at hchain
    have hq : q < p + t.config.maxIdleMs.toNat := (List.isChain_cons_cons.1 hchain).1
    obtain ⟨e, he, rfl⟩ := Timeline.mem_arrivals (harrivals ▸ List.mem_cons_self)
    have := hx.le_of_mem hnext e he
    omega

/-- **An exchange where messages arrive punctually** for a download: no fault is armed, heartbeats do
not come at once, and the places of all messages will be words. -/
structure Punctual (x : Exchange) (t : DownloadTask) : Prop extends x.Timetabled where
  faults : x.log.faults = []
  heartbeat : x.log.options.idleHeartbeatMs ≠ some 0
  numbered : x.log.Numbered
  fits : x.log.messages.size + (publications x.time.agenda).length + 1 < Word.limit
  prompt : x.Prompt t x.time.now

theorem Leads.size_eq (h : x.Leads l) :
    l.messages.size = x.log.messages.size + (publications x.time.agenda).length := by
  have hsize := congrArg List.length h.comes
  rwa [List.length_append, Array.length_toList, Array.length_toList] at hsize

theorem Punctual.beside (h : x.Punctual t) (hb : x.Beside x') : x'.Punctual t where
  toTimetabled := h.toTimetabled.later (hb.later h.rules)
  faults := hb.faults.trans h.faults
  heartbeat := hb.options ▸ h.heartbeat
  numbered n hn := hb.issued ▸ h.numbered n (hb.waiting hn)
  fits := by
    rw [hb.messages, hb.agenda]
    exact h.fits
  prompt := by
    obtain ⟨q, hq, rfl | hlonger⟩ := h.prompt.later (hb.later h.rules)
    · exact hb.now.symm ▸ hq
    · rw [Log.row_congr hb.messages] at hlonger
      exact absurd hlonger (Nat.lt_irrefl _)

theorem Calm.timetabled (h : x.Calm) : x.Timetabled :=
  ⟨h.rules, by simp [h.agenda], by simp [h.agenda], h.calledOff⟩

/-- **Where nothing more is to come**, it comes punctually. -/
theorem Undisturbed.punctual (h : x.Undisturbed) : x.Punctual t where
  toTimetabled := h.timetabled
  faults := h.faults
  heartbeat := h.heartbeat
  numbered := h.regular.numbered
  fits := by
    rw [h.agenda]
    exact h.regular.fits
  prompt := ⟨Nat.le_refl _, by
    rw [Timeline.arrivals, h.agenda]
    exact .singleton _⟩

theorem Undisturbed.leads (h : x.Undisturbed) : x.Leads x.log where
  toTimetabled := h.timetabled
  comes := by simp [h.agenda, publications]
  options := rfl

end Exchange

end FileRelay
