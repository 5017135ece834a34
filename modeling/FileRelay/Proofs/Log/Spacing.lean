import FileRelay.Proofs.Log.DeliveryLaw
import FileRelay.Proofs.Log.Requests
import Mathlib.Data.List.DropRight

/-!
# Proofs/Log/Spacing — how many deliveries lie between two requests

In a log that asks for a reply after every `n` deliveries, a reader has found exactly `n` messages
since its last request when it finds the next one, or one more when a fault doubled the `n`-th of them,
whose copy comes first (`Traffic.spaced`).
-/

namespace FileRelay

/-! ## What looks found -/

/-- **What looks found**, each delivery with the look that found it. -/
def finds (looks : List Moment) : List (Moment × Delivery) :=
  looks.filterMap fun m => m.found.map fun d => (m, d)

/-- **The data that was found since the last request**, or from the beginning on. -/
def sinceRequest (fs : List (Moment × Delivery)) : List (Moment × Delivery) :=
  fs.rtakeWhile fun r => r.2.kind = .data

variable {options : LogOptions} {c : Clients} {ms looks before after : List Moment} {m : Moment}
  {fs run : List (Moment × Delivery)} {r : Moment × Delivery} {d : Delivery} {i n first : Nat}
  {s s' : Subscription} {l l' : Log} {o : Option Delivery} {subject : String}

theorem finds_concat : finds (looks ++ [m])
    = finds looks ++ (m.found.map fun d => (m, d)).toList := by
  rw [finds, List.filterMap_append]
  rcases hd : m.found with _ | d <;> simp [hd, finds]

theorem sinceRequest_concat_data (h : r.2.kind = .data) :
    sinceRequest (fs ++ [r]) = sinceRequest fs ++ [r] := by
  rw [sinceRequest, List.rtakeWhile_concat, if_pos (by simpa using h), sinceRequest]

theorem sinceRequest_concat_request (h : r.2.kind ≠ .data) : sinceRequest (fs ++ [r]) = [] := by
  rw [sinceRequest, List.rtakeWhile_concat, if_neg (by simpa using h)]

/-- Receipts are the data that was found. -/
theorem receipts_eq (looks : List Moment) :
    receipts looks = (finds looks).filter fun r => r.2.kind = .data := by
  induction looks using List.reverseRecOn with
  | nil => rfl
  | append_singleton looks m ih =>
    rw [receipts_concat, finds_concat, List.filter_append, ih, Moment.given?]
    rcases m.found with _ | d
    · rfl
    · by_cases hk : d.kind = .data <;> simp [hk]

/-- What was found since the last request was received last. -/
theorem sinceRequest_suffix (looks : List Moment) :
    sinceRequest (finds looks) <:+ receipts looks := by
  have hsuffix : sinceRequest (finds looks) <:+ finds looks := List.rtakeWhile_suffix _ _
  have hdata : ∀ r ∈ sinceRequest (finds looks), decide (r.2.kind = .data) = true :=
    fun _ hr => List.mem_rtakeWhile_imp (p := fun r : Moment × Delivery => r.2.kind = .data) hr
  rw [receipts_eq, ← List.filter_eq_self.2 hdata]
  exact hsuffix.filter _

theorem getLast?_sinceRequest (h : sinceRequest (finds looks) ≠ []) :
    (sinceRequest (finds looks)).getLast? = (receipts looks).getLast? := by
  obtain ⟨earlier, hearlier⟩ := sinceRequest_suffix looks
  rw [← hearlier, List.getLast?_append_of_ne_nil _ h]

namespace Subscription

/-- **A reader that keeps pace**: it has found these messages since its last request, and no more than
so many, or one more when the last but one of them was doubled, and came again. -/
structure Paces (s : Subscription) (n : Nat) (run : List (Moment × Delivery)) : Prop where
  since : s.sinceFlow = run.length
  begun : run = [] → s.doubled = none
  within : run.length ≤ n ∨ run.length = n + 1 ∧ s.doubled = none ∧
    ∃ r, run[n - 1]? = some r ∧ r.1.Fires r.2.sequence .duplicate

namespace Paces

/-- A reader that has made a request, or none yet, has found nothing since. -/
theorem zero (hs : s.sinceFlow = 0) (hd : s.doubled = none) : s.Paces n [] :=
  ⟨hs, fun _ => hd, .inl (Nat.zero_le _)⟩

/-- A reader that finds nothing keeps pace. -/
theorem same (h : s.Paces n run) (hs : s'.sinceFlow = s.sinceFlow)
    (hd : s'.doubled = s.doubled ∨ s'.doubled = none) : s'.Paces n run where
  since := hs.trans h.since
  begun hrun := hd.elim (fun heq => heq.trans (h.begun hrun)) id
  within := h.within.imp_right fun ⟨hlen, hnone, hr⟩ =>
    ⟨hlen, hd.elim (fun heq => heq.trans hnone) id, hr⟩

/-- **A new message** comes while no request is due. -/
theorem hand (h : s.Paces n run) (hdue : s.sinceFlow < n) (hs : s'.sinceFlow = s.sinceFlow + 1) :
    s'.Paces n (run ++ [r]) where
  since := by rw [hs, h.since, List.length_append, List.length_singleton]
  begun := by simp
  within := .inl (by
    rw [List.length_append, List.length_singleton, ← h.since]
    exact hdue)

/-- **The copy of a doubled message** comes even when a request is due. -/
theorem copy (h : s.Paces n run) (hn : 0 < n) (hd : s.doubled = some d)
    (hlast : ∀ r, run.getLast? = some r → r.1.Fires r.2.sequence .duplicate)
    (hs : s'.sinceFlow = s.sinceFlow + 1) (hd' : s'.doubled = none) :
    s'.Paces n (run ++ [r]) := by
  have hlen : (run ++ [r]).length = run.length + 1 := by simp
  have hle : run.length ≤ n := h.within.resolve_right fun ⟨_, hnone, _⟩ => by simp [hnone] at hd
  refine ⟨by rw [hs, h.since, hlen], by simp, ?_⟩
  rcases Nat.lt_or_eq_of_le hle with hlt | heq
  · exact .inl (hlen ▸ hlt)
  · -- As many as there should be came before, and the last of them was doubled.
    have hne : run ≠ [] := fun hnil => by simp [hnil] at heq; omega
    refine .inr ⟨hlen.trans (by rw [heq]), hd', run.getLast hne, ?_,
      hlast _ (List.getLast?_eq_some_getLast hne)⟩
    rw [List.getElem?_append_left (by omega), ← heq, ← List.getLast?_eq_getElem?,
      List.getLast?_eq_some_getLast hne]

/-- **A reader that makes a request** has found so many messages since the last one, or one more if
the last of these was doubled. -/
theorem spaced (h : s.Paces n run) (hn : 0 < n) (hdue : n ≤ s.sinceFlow)
    (hlast : ∀ r, run.getLast? = some r → ¬ r.1.Fires r.2.sequence .duplicate) :
    ∃ r, run[n - 1]? = some r ∧
      run.length = if r.1.Fires r.2.sequence .duplicate then n + 1 else n := by
  rw [h.since] at hdue
  obtain hle | ⟨hlen, -, r, hr, hfires⟩ := h.within
  · have hlen : run.length = n := Nat.le_antisymm hle hdue
    have hne : run ≠ [] := fun hnil => by simp [hnil] at hlen; omega
    refine ⟨run.getLast hne, ?_, ?_⟩
    · rw [← hlen, ← List.getLast?_eq_getElem?, List.getLast?_eq_some_getLast hne]
    · rw [if_neg (hlast _ (List.getLast?_eq_some_getLast hne)), hlen]
  · exact ⟨r, hr, by rw [if_pos hfires, hlen]⟩

/-- **A look** of a reader that serves its row keeps pace. -/
theorem look (h : s.Paces n (sinceRequest (finds looks))) (hn : 0 < n)
    (ho : l.options.flowControlEvery = some n)
    (hserves : s.Serves l subject first (receipts looks) looks) (hp : s.Polls l o s' l')
    (hm : m.found = o) : s'.Paces n (sinceRequest (finds (looks ++ [m]))) := by
  rw [finds_concat, hm]
  cases hp with
  | held => simpa using h
  | @again d _ hd =>
    obtain ⟨before, m₀, p, hrs, -, hfires, -, -, heq⟩ := hserves.doubled d hd
    have hkind : d.kind = .data := by rw [heq]; rfl
    have hne : sinceRequest (finds looks) ≠ [] := fun hnil => by simp [h.begun hnil] at hd
    rw [Option.map_some, Option.toList_some, sinceRequest_concat_data hkind]
    refine h.copy hn hd (fun r hr => ?_) rfl rfl
    rw [getLast?_sinceRequest hne, hrs, List.getLast?_concat, Option.some.injEq] at hr
    exact hr ▸ hfires
  | ask _ hd =>
    rw [Option.map_some, Option.toList_some, sinceRequest_concat_request (by simp [Delivery.status])]
    exact .zero rfl hd
  | scanned _ hd hf hs =>
    have hdue : s.sinceFlow < n := by
      rw [Bool.eq_false_iff, ne_eq, flowIsDue_iff, ho] at hf
      simp only [Option.getD_some] at hf
      omega
    cases hs with
    | drained =>
      rw [Option.map_none, Option.toList_none, List.append_nil]
      exact h.same rfl (.inr hd)
    | handed =>
      rw [Option.map_some, Option.toList_some, sinceRequest_concat_data (hand_kind _ _ _)]
      refine h.hand hdue ?_
      rw [hand_snd]
      rfl

end Paces

end Subscription

namespace Traffic

/-- Nothing that clients do changes the options of the log. -/
theorem options_eq (h : Traffic options c ms) : c.log.options = options := by
  induction h with
  | begun => rfl
  | @act c ms h a ih =>
    have hch := h.changes a
    generalize (c.act a).1 = o at hch
    generalize (c.act a).2 = c' at hch ⊢
    cases hch with
    | publishes | opens | misses | closesNone => exact ih
    | looks _ _ hp => exact hp.options.trans ih
    | replies a => exact (c.log.reply_frame a).2.2.1.trans ih
    | arms p fault times => exact (c.log.arm_options p fault times).trans ih
    | @closes _ s =>
      unfold Subscription.unsubscribe
      split <;> exact ih

/-- Only a reader that was opened finds something. -/
theorem finds_unopened (h : Traffic options c ms) (hi : c.readers.length ≤ i) :
    finds (looksOf i ms) = [] := by
  induction h with
  | begun => rfl
  | @act c ms h a ih =>
    have hch := h.changes a
    rw [hch.length_readers] at hi
    replace ih := ih (Nat.le_of_add_right_le hi)
    by_cases hlook : a = .look i
    · subst hlook
      have hnone : (c.act (.look i)).1 = none := by_contra fun ho => by
        obtain ⟨s, -, hs, -⟩ := hch.looker ho
        rw [List.getElem?_eq_none (Nat.le_of_add_right_le hi)] at hs
        simp at hs
      rw [looksOf_concat_self rfl, finds_concat, ih, hnone]
      rfl
    · rw [looksOf_concat_ne hlook, ih]

/-- **All readers keep pace**, whatever clients do. -/
theorem paces (h : Traffic options c ms) (hn : 0 < n) (ho : options.flowControlEvery = some n) :
    ∀ (i : Nat) s, c.readers[i]? = some s → s.Paces n (sinceRequest (finds (looksOf i ms))) := by
  induction h with
  | begun => simp
  | @act c ms h a ih =>
    intro i s' hs'
    rcases (h.changes a).reader hs' with ⟨rfl, subject, position, rfl, rfl⟩ | ⟨s, hs, hcomes⟩
    · rw [looksOf_concat_ne (by simp), h.finds_unopened (Nat.le_refl _)]
      exact .zero rfl rfl
    rcases hcomes with ⟨hne, rfl | rfl⟩ | ⟨rfl, ⟨rfl, hnone⟩ | ⟨-, hp⟩⟩
    · rw [looksOf_concat_ne hne]
      exact ih i s' hs
    · rw [looksOf_concat_ne hne]
      unfold Subscription.unsubscribe
      split
      · exact ih i s hs
      · exact (ih i s hs).same rfl (.inr rfl)
    · rw [looksOf_concat_self rfl, finds_concat, hnone]
      simpa using ih i s' hs
    · obtain ⟨subject, position, -, hserves⟩ := h.kept.serves i s hs
      rw [looksOf_concat_self rfl]
      exact (ih i s hs).look hn (h.options_eq.symm ▸ ho) hserves hp rfl

/-- **A reader that makes a request** has found exactly `n` messages since its last one, or one more
if a fault doubled the `n`-th. -/
theorem spaced (h : Traffic options c (before ++ m :: after)) (hn : 0 < n)
    (ho : options.flowControlEvery = some n) (hlook : m.action = .look i) (hfound : m.found = some d)
    (hkind : d.kind = .flowControl) :
    ∃ r, (sinceRequest (finds (looksOf i before)))[n - 1]? = some r ∧
      (sinceRequest (finds (looksOf i before))).length
        = if r.1.Fires r.2.sequence .duplicate then n + 1 else n := by
  obtain ⟨c', a, h', rfl⟩ := h.moment
  obtain rfl : a = .look i := hlook
  have hfound : (c'.act (.look i)).1 = some d := hfound
  obtain ⟨s, s', hs, hopen, hp⟩ := (h'.changes (.look i)).looker (by simp [hfound])
  rw [hfound] at hp
  obtain ⟨subject, position, -, hserves⟩ := h'.kept.serves i s hs
  obtain hdata | ⟨-, hnone, hdue, -⟩ := hp.kind (h'.sound s (List.mem_of_getElem? hs)).doubled
  · simp [hdata] at hkind
  rw [Subscription.flowIsDue_iff, h'.options_eq, ho] at hdue
  refine (h'.paces hn ho i s hs).spaced hn hdue.2 fun r hr hfires => ?_
  rw [getLast?_sinceRequest fun hnil => by simp [hnil] at hr] at hr
  have hdoubled := hserves.repeats hopen r hr hfires
  simp [hnone] at hdoubled

end Traffic

end FileRelay
