import FileRelay.Proofs.Log.Waiting

/-!
# Proofs/Log/Timetable — when the messages of a row are to be published

The agenda of a timeline says when messages of a row will arrive (`Timeline.arrivals`).  As time passes
the first of them have arrived, and the row is longer by so many (`After.arrivals`); all of them
together make the row that there will be in the end (`length_row_of_arrivals`).
-/

namespace FileRelay.Timeline

variable {t t' : Timeline} {subject : String} {first : Nat}

/-- What an agenda publishes, with the moments. -/
def publishings (agenda : List (Nat × Deed)) : List (Nat × Published) :=
  agenda.filterMap fun e => e.2.published?.map fun m => (e.1, m)

theorem map_snd_publishings (agenda : List (Nat × Deed)) :
    (publishings agenda).map Prod.snd = publications agenda := by
  rw [publishings, publications, List.map_filterMap]
  congr 1
  funext e
  rw [Option.map_map]
  exact Option.map_id'

/-- The moments of those that will be messages of a row, if the first one has this place. -/
def arrivalsFrom (subject : String) (first place : Nat) (ps : List (Nat × Published)) : List Nat :=
  ((ps.zipIdx place).filter fun e => first ≤ e.2 && e.1.2.subject == subject).map fun e => e.1.1

/-- **The moments at which the messages of a row will arrive.** -/
def arrivals (t : Timeline) (subject : String) (first : Nat) : List Nat :=
  arrivalsFrom subject first (t.log.messages.size + 1) (publishings t.agenda)

theorem mem_arrivalsFrom {place p : Nat} {ps : List (Nat × Published)}
    (h : p ∈ arrivalsFrom subject first place ps) : ∃ e ∈ ps, e.1 = p := by
  obtain ⟨e, he, rfl⟩ := List.mem_map.1 h
  exact ⟨e.1, List.fst_mem_of_mem_zipIdx (List.mem_filter.1 he).1, rfl⟩

theorem mem_publishings {agenda : List (Nat × Deed)} {e : Nat × Published}
    (h : e ∈ publishings agenda) : ∃ f ∈ agenda, f.1 = e.1 := by
  obtain ⟨f, hf, he⟩ := List.mem_filterMap.1 h
  obtain ⟨m, -, rfl⟩ := Option.map_eq_some_iff.1 he
  exact ⟨f, hf, rfl⟩

/-- Whatever arrives is on the agenda. -/
theorem mem_arrivals {p : Nat} (h : p ∈ t.arrivals subject first) : ∃ e ∈ t.agenda, e.1 = p := by
  obtain ⟨e, he, rfl⟩ := mem_arrivalsFrom h
  exact mem_publishings he

theorem arrivalsFrom_append (subject : String) (first place : Nat) (ps qs : List (Nat × Published)) :
    arrivalsFrom subject first place (ps ++ qs) = arrivalsFrom subject first place ps
      ++ arrivalsFrom subject first (place + ps.length) qs := by
  rw [arrivalsFrom, List.zipIdx_append, List.filter_append, List.map_append]
  rfl

/-- **A log with more messages** has a row that is longer by those that arrive. -/
theorem length_row_of_publishings {l l' : Log} {ps : List (Nat × Published)}
    (h : l'.messages.toList = l.messages.toList ++ ps.map Prod.snd) :
    (l'.row subject first).length = (l.row subject first).length
      + (arrivalsFrom subject first (l.messages.size + 1) ps).length := by
  rw [Log.row_of_append h, List.length_append, arrivalsFrom, List.length_map, List.zipIdx_map,
    List.filter_map, List.length_map, Array.length_toList, Nat.add_comm 1]
  rfl

/-- **What arrives makes the row that there will be.** -/
theorem length_row_of_arrivals {l : Log}
    (h : l.messages.toList = t.log.messages.toList ++ publications t.agenda) :
    (l.row subject first).length
      = (t.log.row subject first).length + (t.arrivals subject first).length :=
  length_row_of_publishings (map_snd_publishings t.agenda ▸ h)

/-- **As time passes**, the first messages have arrived. -/
theorem After.arrivals (h : t.After t') (subject : String) (first : Nat) :
    ∃ past, t.arrivals subject first = past ++ t'.arrivals subject first ∧
      (∀ p ∈ past, p ≤ t'.now) ∧
      (t'.log.row subject first).length = (t.log.row subject first).length + past.length := by
  obtain ⟨done, hagenda, hpast, hmessages⟩ := h.done
  rw [← map_snd_publishings] at hmessages
  have hsize := congrArg List.length hmessages
  rw [List.length_append, List.length_map, Array.length_toList, Array.length_toList] at hsize
  refine ⟨_, ?_, fun p hp => ?_, length_row_of_publishings hmessages⟩
  · rw [Timeline.arrivals, hagenda, publishings, List.filterMap_append, arrivalsFrom_append,
      Nat.add_right_comm]
    rw [Timeline.arrivals, hsize]
    rfl
  · obtain ⟨e, he, rfl⟩ := mem_arrivalsFrom hp
    obtain ⟨f, hf, hfe⟩ := mem_publishings he
    exact hfe ▸ hpast f hf

/-! ## Letting time pass -/

section Sleep

variable {moment : Nat} {agenda : List (Nat × Deed)}

theorem passUntil_after (moment : Nat) (agenda : List (Nat × Deed)) (t : Timeline) :
    After { t with agenda := agenda } (passUntil moment agenda t) := by
  induction agenda generalizing t with
  | nil => exact .of_now { t with agenda := [] } moment
  | cons e rest ih =>
    obtain ⟨due, deed⟩ := e
    rw [passUntil]
    split
    · exact (After.of_deed (t := { t with agenda := (due, deed) :: rest }) rfl).trans
        (ih (perform { t with now := max t.now due } deed))
    · exact .of_now { t with agenda := (due, deed) :: rest } moment

/-- What is due before a moment is done by then. -/
theorem passUntil_agenda (h : ∀ e ∈ agenda, e.1 < moment) (t : Timeline) :
    (passUntil moment agenda t).agenda = [] := by
  induction agenda generalizing t with
  | nil => rfl
  | cons e rest ih =>
    obtain ⟨hfirst, hrest⟩ := List.forall_mem_cons.1 h
    rw [passUntil, if_pos hfirst]
    exact ih hrest _

/-- **What all deeds of an agenda keep is kept** while time passes. -/
theorem passUntil_log {P : Log → Prop} (hdeed : ∀ e ∈ agenda, ∀ l, P l → P (e.2.act l))
    (h : P t.log) : P (passUntil moment agenda t).log := by
  induction agenda generalizing t with
  | nil => exact h
  | cons e rest ih =>
    obtain ⟨hfirst, hrest⟩ := List.forall_mem_cons.1 hdeed
    rw [passUntil]
    split
    · exact ih hrest (hfirst _ h)
    · exact h

theorem sleep_after (t : Timeline) (ms : Nat) : t.After (t.sleep ms) :=
  passUntil_after (t.now + ms) t.agenda t

end Sleep

/-! ## Planning -/

theorem mem_insertDeed {moment : Nat} {deed : Deed} {agenda : List (Nat × Deed)}
    {e : Nat × Deed} (h : e ∈ insertDeed moment deed agenda) : e = (moment, deed) ∨ e ∈ agenda := by
  induction agenda with
  | nil => exact .inl (List.mem_singleton.1 h)
  | cons f rest ih =>
    rw [insertDeed] at h
    split at h
    · exact List.mem_cons.1 h
    · rcases List.mem_cons.1 h with rfl | h
      · exact .inr List.mem_cons_self
      · exact (ih h).imp_right (List.mem_cons_of_mem _)

/-- **Planning keeps an agenda in order.** -/
theorem pairwise_insertDeed {agenda : List (Nat × Deed)} (moment : Nat) (deed : Deed)
    (h : agenda.Pairwise fun e f => e.1 ≤ f.1) :
    (insertDeed moment deed agenda).Pairwise fun e f => e.1 ≤ f.1 := by
  induction agenda with
  | nil => exact List.pairwise_singleton _ _
  | cons f rest ih =>
    obtain ⟨hfirst, hrest⟩ := List.pairwise_cons.1 h
    rw [insertDeed]
    split
    · rename_i hlt
      refine List.pairwise_cons.2 ⟨fun e he => ?_, h⟩
      rcases List.mem_cons.1 he with rfl | he
      · exact Nat.le_of_lt hlt
      · exact Nat.le_trans (Nat.le_of_lt hlt) (hfirst e he)
    · rename_i hle
      refine List.pairwise_cons.2 ⟨fun e he => ?_, ih hrest⟩
      rcases mem_insertDeed he with rfl | he
      · exact Nat.le_of_not_lt hle
      · exact hfirst e he

end FileRelay.Timeline
