import FileRelay.Proofs.Log.Row

/-!
# Proofs/Log/Polling — all that a reader can find when it looks

A reader that looks at its log (`Subscription.poll`) does one of five things (`Polls`): it is held
up by a request of its own, repeats a doubled message, makes a request, finds the rest of its row
left out by faults, or is handed the first message of its row that is not left out.

Faults are spent by deliveries and by nothing else: `Log.Fired l n l'` says that `l'` is `l` after
at least `n` firings.
-/

namespace FileRelay

/-- Reading begins at a place of the log. -/
theorem Position.one_le_first (p : Position) : 1 ≤ p.first := by
  unfold first
  split <;> omega

/-- Octets with the first one turned over. -/
def Bytes.flipped : Bytes → Bytes
  | [] => []
  | b :: rest => (b ^^^ 0xFF) :: rest

theorem Delivery.corrupted_eq (d : Delivery) :
    d.corrupted = { d with payload := Bytes.flipped d.payload } := by
  obtain ⟨kind, subject, headers, payload, replyTo, sequence, number⟩ := d
  cases payload <;> rfl

/-- Is a payload that of a message, or that of a message whose first octet was turned over? -/
def Published.Delivers (m : Published) (payload : Bytes) : Prop :=
  payload = m.payload ∨ payload = Bytes.flipped m.payload

namespace Log

variable {l l' l'' : Log} {p : Nat}

/-! ## Faults and their firings -/

/-- Every armed fault is armed for some delivery. -/
def Armed (l : Log) : Prop := ∀ f ∈ l.faults, 0 < f.2.2

/-- The deliveries that some faults can strike. -/
def timesOf : List (Nat × DeliveryFault × Nat) → Nat
  | [] => 0
  | f :: fs => f.2.2 + timesOf fs

/-- The deliveries that the armed faults can still strike. -/
def firings (l : Log) : Nat := timesOf l.faults

/-- **A log after at least `n` firings** of its faults, and otherwise the same. -/
structure Fired (l : Log) (n : Nat) (l' : Log) : Prop where
  same : l' = { l with faults := l'.faults }
  kinds : ∀ f ∈ l'.faults, ∃ g ∈ l.faults, g.1 = f.1 ∧ g.2.1 = f.2.1
  armed : l.Armed → l'.Armed
  spent : l.Armed → l'.firings + n ≤ l.firings

namespace Fired

variable {n n' : Nat}

theorem refl (l : Log) : l.Fired 0 l :=
  ⟨rfl, fun f hf => ⟨f, hf, rfl, rfl⟩, id, fun _ => Nat.le_refl _⟩

theorem trans (h : l.Fired n l') (h' : l'.Fired n' l'') : l.Fired (n + n') l'' where
  same := by rw [h'.same, h.same]
  kinds f hf := by
    obtain ⟨g, hg, hp, hk⟩ := h'.kinds f hf
    obtain ⟨e, he, hp', hk'⟩ := h.kinds g hg
    exact ⟨e, he, hp'.trans hp, hk'.trans hk⟩
  armed ha := h'.armed (h.armed ha)
  spent ha := by
    have := h.spent ha
    have := h'.spent (h.armed ha)
    omega

theorem messages (h : l.Fired n l') : l'.messages = l.messages := by rw [h.same]
theorem options (h : l.Fired n l') : l'.options = l.options := by rw [h.same]

/-- A log without faults has none to fire. -/
theorem eq_of_faults_nil (h : l.Fired n l') (hf : l.faults = []) : l' = l := by
  have hf' : l'.faults = [] := List.eq_nil_iff_forall_not_mem.2 fun f hm => by
    obtain ⟨g, hg, -⟩ := h.kinds f hm
    simp [hf] at hg
  rw [h.same, hf', ← hf]

end Fired

theorem timesOf_filter_le (f : List (Nat × DeliveryFault × Nat)) (p : Nat) :
    timesOf (f.filter fun g => g.1 ≠ p) ≤ timesOf f := by
  induction f with
  | nil => simp
  | cons g f ih =>
    rw [List.filter_cons]
    split <;> simp only [timesOf] <;> omega

/-- The times of a fault that is armed at a place count beside those of the other places. -/
theorem timesOf_filter_add_le {f : List (Nat × DeliveryFault × Nat)} {g : Nat × DeliveryFault × Nat}
    (hg : g ∈ f) (hp : g.1 = p) :
    timesOf (f.filter fun g => g.1 ≠ p) + g.2.2 ≤ timesOf f := by
  induction f with
  | nil => simp at hg
  | cons e f ih =>
    rcases List.mem_cons.1 hg with rfl | hg
    · have := timesOf_filter_le f p
      simp only [List.filter_cons, hp, ne_eq, not_true_eq_false, decide_false, Bool.false_eq_true,
        ↓reduceIte, timesOf] at this ⊢
      omega
    · have := ih hg
      rw [List.filter_cons]
      split <;> simp only [timesOf] <;> omega

/-- Arming a fault changes nothing but the faults. -/
theorem arm_same (l : Log) (p : Nat) (fault : DeliveryFault) (times : Nat) :
    l.arm p fault times = { l with faults := (l.arm p fault times).faults } := by
  unfold Log.arm
  split <;> rfl

@[simp] theorem arm_messages (l : Log) (p : Nat) (fault : DeliveryFault) (times : Nat) :
    (l.arm p fault times).messages = l.messages := by rw [arm_same]

@[simp] theorem arm_options (l : Log) (p : Nat) (fault : DeliveryFault) (times : Nat) :
    (l.arm p fault times).options = l.options := by rw [arm_same]

/-- **A reply** changes no message and no fault, and ends at most a wait for it. -/
theorem reply_frame (l : Log) (a : Address) : (l.reply a).messages = l.messages ∧
    (l.reply a).faults = l.faults ∧ (l.reply a).options = l.options ∧
    (l.reply a).issued = l.issued ∧ (l.reply a).waiting ⊆ l.waiting := by
  unfold Log.reply
  split
  · split
    · exact ⟨rfl, rfl, rfl, rfl, List.erase_subset⟩
    · exact ⟨rfl, rfl, rfl, rfl, fun _ h => h⟩
  · exact ⟨rfl, rfl, rfl, rfl, fun _ h => h⟩

/-- A fault that is armed is armed for some delivery. -/
theorem Armed.arm (h : l.Armed) (p : Nat) (fault : DeliveryFault) (times : Nat) :
    (l.arm p fault times).Armed := by
  unfold Log.arm
  split
  · exact h
  rename_i htimes
  intro f hf
  rcases List.mem_cons.1 hf with rfl | hf
  · exact Nat.pos_of_ne_zero htimes
  · exact h f (List.mem_filter.1 hf).1

/-- Where no fault is armed, a delivery changes nothing. -/
theorem strike_none (h : (l.strike p).1 = none) : l.strike p = (none, l) := by
  unfold strike at h ⊢
  split
  · rfl
  · simp_all

/-- **A fault that strikes** was armed at the place, and is armed once less. -/
theorem strike_some {f : DeliveryFault} (h : l.strike p = (some f, l')) :
    (∃ g ∈ l.faults, g.1 = p ∧ g.2.1 = f) ∧ l.Fired 1 l' := by
  unfold strike at h
  split at h
  · simp at h
  · rename_i q kind times hfind
    have hmem := List.mem_of_find?_eq_some hfind
    have hq : q = p := by simpa using List.find?_some hfind
    simp only [Prod.mk.injEq, Option.some.injEq] at h
    obtain ⟨rfl, rfl⟩ := h
    subst hq
    refine ⟨⟨_, hmem, rfl, rfl⟩, ⟨rfl, fun g hg => ?_, fun ha g hg => ?_, fun ha => ?_⟩⟩
    · split at hg
      · exact ⟨g, (List.mem_filter.1 hg).1, rfl, rfl⟩
      · rcases List.mem_cons.1 hg with rfl | hg
        · exact ⟨_, hmem, rfl, rfl⟩
        · exact ⟨g, (List.mem_filter.1 hg).1, rfl, rfl⟩
    · split at hg
      · exact ha g ((List.mem_filter.1 hg).1)
      · rcases List.mem_cons.1 hg with rfl | hg
        · exact Nat.sub_pos_of_lt (Nat.lt_of_not_le ‹_›)
        · exact ha g ((List.mem_filter.1 hg).1)
    · have hpos : 0 < times := ha _ hmem
      have hsum : _ + times ≤ _ := timesOf_filter_add_le (p := q) hmem rfl
      simp only [firings]
      split
      · omega
      · simp only [timesOf]
        omega

theorem strike_fired {f : Option DeliveryFault} (h : l.strike p = (f, l')) :
    ∃ n, l.Fired n l' := by
  rcases f with _ | f
  · have := strike_none (l := l) (p := p) (by rw [h])
    obtain rfl : l' = l := by simpa [h] using this
    exact ⟨0, .refl l'⟩
  · exact ⟨1, (strike_some h).2⟩

/-- Faults that leave out a row of messages, one after the other. -/
inductive Drops : Log → List (Published × Nat) → Log → Prop
  | nil (l : Log) : Drops l [] l
  | cons {l l₁ l₂ : Log} {e : Published × Nat} {es : List (Published × Nat)} :
      l.strike e.2 = (some .drop, l₁) → Drops l₁ es l₂ → Drops l (e :: es) l₂

namespace Drops

variable {es : List (Published × Nat)}

/-- **Every message that is left out costs a firing.** -/
theorem fired (h : Drops l es l') : l.Fired es.length l' := by
  induction h with
  | nil l => exact .refl l
  | cons hs _ ih =>
    rw [List.length_cons, Nat.add_comm]
    exact (strike_some hs).2.trans ih

/-- Where a message is left out, a fault was armed for that. -/
theorem armed (h : Drops l es l') : ∀ e ∈ es, ∃ g ∈ l.faults, g.1 = e.2 ∧ g.2.1 = .drop := by
  induction h with
  | nil => simp
  | cons hs _ ih =>
    intro e he
    obtain ⟨hg, hf⟩ := strike_some hs
    rcases List.mem_cons.1 he with rfl | he
    · exact hg
    · obtain ⟨g, hg, hp, hk⟩ := ih e he
      obtain ⟨g', hg', hp', hk'⟩ := hf.kinds g hg
      exact ⟨g', hg', hp'.trans hp, hk'.trans hk⟩

end Drops

end Log

namespace Subscription

variable {s : Subscription} {l : Log}

/-! ## The next message of a row -/

/-- What a reader is handed of a message that is not left out, and the reader after it. -/
def hand (s : Subscription) (e : Published × Nat) (fault : Option DeliveryFault) :
    Delivery × Subscription :=
  let d := Delivery.ofPublished e.1 e.2 (s.delivered + 1)
  let s := { s with
    cursor := e.2 + 1, delivered := s.delivered + 1, sinceFlow := s.sinceFlow + 1 }
  match fault with
  | some .corrupt => (d.corrupted, s)
  | some .duplicate => (d, { s with doubled := some d })
  | _ => (d, s)

/-- **What is handed** is the message, with its first octet turned over by a fault at most. -/
theorem hand_eq (s : Subscription) (e : Published × Nat) (fault : Option DeliveryFault) :
    (s.hand e fault).1 = { Delivery.ofPublished e.1 e.2 (s.delivered + 1) with
      payload := if fault = some .corrupt then Bytes.flipped e.1.payload else e.1.payload } := by
  match fault with
  | some .corrupt => exact Delivery.corrupted_eq _
  | some .drop | some .duplicate | none => rfl

@[simp] theorem hand_sequence (s : Subscription) (e : Published × Nat)
    (fault : Option DeliveryFault) : (s.hand e fault).1.sequence = e.2 := by
  rw [hand_eq]
  rfl

@[simp] theorem hand_number (s : Subscription) (e : Published × Nat)
    (fault : Option DeliveryFault) : (s.hand e fault).1.number = s.delivered + 1 := by
  rw [hand_eq]
  rfl

theorem hand_fst (s : Subscription) (e : Published × Nat) (fault : Option DeliveryFault) :
    ∃ p, e.1.Delivers p ∧ (fault ≠ some .corrupt → p = e.1.payload) ∧
      (fault = some .corrupt → p = Bytes.flipped e.1.payload) ∧
      (s.hand e fault).1 = { Delivery.ofPublished e.1 e.2 (s.delivered + 1) with payload := p } := by
  rw [hand_eq]
  by_cases hfault : fault = some .corrupt
  · exact ⟨_, .inr (if_pos hfault), absurd hfault, fun _ => if_pos hfault, rfl⟩
  · exact ⟨_, .inl (if_neg hfault), fun _ => if_neg hfault, (absurd · hfault), rfl⟩

theorem hand_snd (s : Subscription) (e : Published × Nat) (fault : Option DeliveryFault) :
    (s.hand e fault).2 = { s with
      cursor := e.2 + 1, delivered := s.delivered + 1, sinceFlow := s.sinceFlow + 1
      doubled := if fault = some .duplicate then
          some (Delivery.ofPublished e.1 e.2 (s.delivered + 1)) else s.doubled } := by
  match fault with
  | some .corrupt | some .drop | some .duplicate | none => simp [hand]

/-- **What is to be repeated** is what was handed, where a fault doubles it. -/
theorem hand_doubled {e : Published × Nat} {fault : Option DeliveryFault} {d : Delivery}
    (hs : s.doubled = none) (h : (s.hand e fault).2.doubled = some d) :
    fault = some .duplicate ∧ (s.hand e fault).1 = d ∧
      d = Delivery.ofPublished e.1 e.2 (s.delivered + 1) := by
  rw [hand_snd, hs] at h
  obtain ⟨rfl, hd⟩ := Option.ite_none_right_eq_some.1 h
  obtain rfl := Option.some.inj hd
  exact ⟨rfl, rfl, rfl⟩

/-- The reader behind so many messages that were left out. -/
def behind (s : Subscription) (skipped : List (Published × Nat)) : Subscription :=
  { s with delivered := s.delivered + skipped.length }

theorem behind_cons (s : Subscription) (e : Published × Nat) (es : List (Published × Nat)) :
    s.behind (e :: es) = { s with delivered := s.delivered + 1 }.behind es := by
  have hcount : s.delivered + (es.length + 1) = s.delivered + 1 + es.length := by omega
  simp only [behind, List.length_cons, hcount]

section Scan

variable {n : Nat} {m : Published} {fault : Option DeliveryFault} {l₁ : Log}

theorem scan_of_end (h : l.message? s.cursor = none) : s.scan (n + 1) l = (none, s, l) := by
  simp [scan, h]

theorem scan_of_pass (hm : l.message? s.cursor = some m) (hs : m.subject ≠ s.subject) :
    s.scan (n + 1) l = { s with cursor := s.cursor + 1 }.scan n l := by
  simp [scan, hm, hs]

theorem scan_of_drop (hm : l.message? s.cursor = some m) (hs : m.subject = s.subject)
    (hf : l.strike s.cursor = (some .drop, l₁)) : s.scan (n + 1) l
      = { s with cursor := s.cursor + 1, delivered := s.delivered + 1 }.scan n l₁ := by
  simp [scan, hm, hs, hf]

theorem scan_of_hand (hm : l.message? s.cursor = some m) (hs : m.subject = s.subject)
    (hf : l.strike s.cursor = (fault, l₁)) (hne : fault ≠ some .drop) : s.scan (n + 1) l
      = (some (s.hand (m, s.cursor) fault).1, (s.hand (m, s.cursor) fault).2, l₁) := by
  match fault with
  | some .drop => exact absurd rfl hne
  | some .corrupt | some .duplicate | none => simp [scan, hm, hs, hf, hand]

end Scan

/-- What a reader finds in its row: all of it is left out, or it is handed the first message that is
not. -/
inductive Scans (s : Subscription) (l : Log) : Option Delivery → Subscription → Log → Prop
  | drained {l' : Log} (hd : l.Drops (l.row s.subject s.cursor) l') :
      Scans s l none
        { s.behind (l.row s.subject s.cursor) with
          cursor := max s.cursor (l.messages.size + 1) } l'
  | handed {skipped rest : List (Published × Nat)} {e : Published × Nat} {l₁ l₂ : Log}
      {fault : Option DeliveryFault} (hrow : l.row s.subject s.cursor = skipped ++ e :: rest)
      (hd : l.Drops skipped l₁) (hf : l₁.strike e.2 = (fault, l₂)) (hne : fault ≠ some .drop) :
      Scans s l (some ((s.behind skipped).hand e fault).1) ((s.behind skipped).hand e fault).2 l₂

namespace Scans

variable {m : Published} {o : Option Delivery} {s' : Subscription} {l₁ l' : Log}

/-- Behind the end of the log there is nothing. -/
theorem of_end (h : l.messages.size < s.cursor) : Scans s l none s l := by
  have hrow : l.row s.subject s.cursor = [] := Log.row_of_size_lt h
  have hcur : max s.cursor (l.messages.size + 1) = s.cursor := by omega
  have h := Scans.drained (s := s) (l := l) (hrow ▸ Log.Drops.nil l)
  simpa [hrow, hcur, behind] using h

/-- A message of another subject is passed over. -/
theorem of_pass (hm : l.message? s.cursor = some m) (hs : m.subject ≠ s.subject)
    (h : Scans { s with cursor := s.cursor + 1 } l o s' l') : Scans s l o s' l' := by
  have hrow : l.row s.subject s.cursor = l.row s.subject (s.cursor + 1) := by
    rw [Log.row_of_message? hm, if_neg hs]
  have hle : s.cursor ≤ l.messages.size := Log.le_size_of_message? hm
  cases h with
  | drained hd =>
    have hmax : max (s.cursor + 1) (l.messages.size + 1) = max s.cursor (l.messages.size + 1) := by
      omega
    have h := Scans.drained (s := s) (hrow ▸ hd)
    simpa [behind, hrow, hmax] using h
  | handed hr hd hf hne => exact .handed (hrow.trans hr) hd hf hne

/-- A message that a fault leaves out is counted. -/
theorem of_drop (hm : l.message? s.cursor = some m) (hs : m.subject = s.subject)
    (hf : l.strike s.cursor = (some .drop, l₁))
    (h : Scans { s with cursor := s.cursor + 1, delivered := s.delivered + 1 } l₁ o s' l') :
    Scans s l o s' l' := by
  have hmsg : l₁.messages = l.messages := (Log.strike_some hf).2.messages
  have hrow : l.row s.subject s.cursor
      = (m, s.cursor) :: l₁.row s.subject (s.cursor + 1) := by
    rw [Log.row_of_message? hm, if_pos hs, Log.row_congr hmsg]
  have hle : s.cursor ≤ l.messages.size := Log.le_size_of_message? hm
  cases h with
  | drained hd =>
    have hmax : max (s.cursor + 1) (l.messages.size + 1) = max s.cursor (l.messages.size + 1) := by
      omega
    have h := Scans.drained (s := s) (hrow ▸ Log.Drops.cons hf hd)
    rw [hrow, behind_cons] at h
    simp only [hmsg, hmax]
    exact h
  | @handed skipped rest e _ _ _ hr hd hf' hne =>
    have hrow' : l.row s.subject s.cursor = ((m, s.cursor) :: skipped) ++ e :: rest := by
      rw [hrow, hr]
      rfl
    have h := Scans.handed (s := s) hrow' (.cons hf hd) hf' hne
    rw [behind_cons] at h
    exact h

end Scans

/-- **A reader that scans far enough finds what its row holds.** -/
theorem scan_scans {n : Nat} (hn : l.messages.size + 1 ≤ n + s.cursor) (hc : 1 ≤ s.cursor) :
    Scans s l (s.scan n l).1 (s.scan n l).2.1 (s.scan n l).2.2 := by
  induction n generalizing s l with
  | zero => exact .of_end (by omega)
  | succ n ih =>
    cases hm : l.message? s.cursor with
    | none =>
      rw [scan_of_end hm]
      exact .of_end (Log.size_lt_of_message? hc hm)
    | some m =>
      by_cases hs : m.subject = s.subject
      · rcases hf : l.strike s.cursor with ⟨fault, l₁⟩
        by_cases hne : fault = some .drop
        · subst hne
          have hmsg : l₁.messages = l.messages := (Log.strike_some hf).2.messages
          rw [scan_of_drop hm hs hf]
          exact .of_drop hm hs hf (ih (by simp only [hmsg]; omega) (by simp))
        · have hrow : l.row s.subject s.cursor
              = [] ++ (m, s.cursor) :: l.row s.subject (s.cursor + 1) := by
            rw [Log.row_of_message? hm, if_pos hs]
            rfl
          rw [scan_of_hand hm hs hf hne]
          exact .handed hrow (.nil l) hf hne
      · rw [scan_of_pass hm hs]
        exact .of_pass hm hs (ih (by simp only; omega) (by simp))

/-! ## A look at the log -/

/-- Does a reader wait for a reply that has not come? -/
def held (s : Subscription) (l : Log) : Bool := s.awaiting.any l.waiting.contains

/-- **What a look at the log comes to.** -/
inductive Polls (s : Subscription) (l : Log) : Option Delivery → Subscription → Log → Prop
  | held (hh : s.held l = true) : Polls s l none s l
  | again {d : Delivery} (hh : s.held l = false) (hd : s.doubled = some d) :
      Polls s l (some { d with number := s.delivered + 1 })
        { s with
          delivered := s.delivered + 1, sinceFlow := s.sinceFlow + 1, awaiting := none
          doubled := none } l
  | ask (hh : s.held l = false) (hd : s.doubled = none) (hf : s.flowIsDue l = true) :
      Polls s l (some (.status .flowControl s.subject (some (.issued (l.issued + 1)))))
        { s with awaiting := some (l.issued + 1), sinceFlow := 0 }
        { l with issued := l.issued + 1, waiting := (l.issued + 1) :: l.waiting }
  | scanned {o : Option Delivery} {s' : Subscription} {l' : Log} (hh : s.held l = false)
      (hd : s.doubled = none) (hf : s.flowIsDue l = false)
      (hs : Scans { s with awaiting := none } l o s' l') : Polls s l o s' l'

theorem poll_eq (s : Subscription) (l : Log) : s.poll l =
    if s.held l then (none, s, l)
    else match s.doubled with
      | some d => (some ({ s with awaiting := none }.again d).1,
          ({ s with awaiting := none }.again d).2, l)
      | none =>
        if s.flowIsDue l then (some (s.askForReply l).1, (s.askForReply l).2)
        else { s with awaiting := none }.scan (l.messages.size + 1 - s.cursor) l := rfl

/-- **A look at the log comes to one of these.** -/
theorem poll_polls (hc : 1 ≤ s.cursor) : Polls s l (s.poll l).1 (s.poll l).2.1 (s.poll l).2.2 := by
  rw [poll_eq]
  split
  · rename_i hh
    exact .held hh
  rename_i hh
  have hh : s.held l = false := by simpa using hh
  split
  · rename_i d hd
    exact .again hh hd
  rename_i hd
  split
  · rename_i hf
    exact .ask hh hd hf
  · rename_i hf
    have hs : Scans { s with awaiting := none } l _ _ _ :=
      scan_scans (n := l.messages.size + 1 - s.cursor) (by simp only; omega) hc
    exact .scanned hh hd (by simpa using hf) hs

section Frame

variable {o : Option Delivery} {s' : Subscription} {l' : Log}

theorem Scans.one_le_cursor (h : Scans s l o s' l') : 1 ≤ s'.cursor := by
  cases h with
  | drained hd => simp only; omega
  | handed => unfold hand; split <;> simp

theorem Scans.fired (h : Scans s l o s' l') : ∃ n, l.Fired n l' := by
  cases h with
  | drained hd => exact ⟨_, hd.fired⟩
  | handed _ hd hf _ =>
    obtain ⟨n, hn⟩ := Log.strike_fired hf
    exact ⟨_, hd.fired.trans hn⟩

theorem Polls.one_le_cursor (h : Polls s l o s' l') (hc : 1 ≤ s.cursor) : 1 ≤ s'.cursor := by
  cases h with
  | held | again | ask => exact hc
  | scanned _ _ _ hs => exact hs.one_le_cursor

/-- **A look changes no message.** -/
theorem Polls.messages (h : Polls s l o s' l') : l'.messages = l.messages := by
  cases h with
  | held | again | ask => rfl
  | scanned _ _ _ hs => obtain ⟨n, hn⟩ := hs.fired; exact hn.messages

theorem Polls.options (h : Polls s l o s' l') : l'.options = l.options := by
  cases h with
  | held | again | ask => rfl
  | scanned _ _ _ hs => obtain ⟨n, hn⟩ := hs.fired; exact hn.options

/-- No look closes a reader. -/
theorem Polls.closed (h : Polls s l o s' l') : s'.closed = s.closed := by
  cases h with
  | held | again | ask => rfl
  | scanned _ _ _ hs =>
    cases hs with
    | drained => rfl
    | handed =>
      rw [hand_snd]
      rfl

theorem Polls.sinceFlow (h : Polls s l none s' l') : s'.sinceFlow = s.sinceFlow := by
  cases h with
  | held => rfl
  | scanned _ _ _ hs =>
    cases hs with
    | drained => rfl

theorem Polls.doubled (h : Polls s l none s' l') : s'.doubled = s.doubled := by
  cases h with
  | held => rfl
  | scanned _ _ _ hs =>
    cases hs with
    | drained => rfl

/-- **A request is due** after so many deliveries. -/
theorem flowIsDue_iff : s.flowIsDue l = true ↔ 0 < l.options.flowControlEvery.getD 0 ∧
    l.options.flowControlEvery.getD 0 ≤ s.sinceFlow := by
  unfold flowIsDue
  split <;> rename_i h <;> simp [h]

theorem hand_kind (s : Subscription) (e : Published × Nat) (fault : Option DeliveryFault) :
    (s.hand e fault).1.kind = .data := by
  match fault with
  | some .drop | some .duplicate | none => rfl
  | some .corrupt =>
    simp only [hand, Delivery.corrupted, Delivery.ofPublished]
    split <;> rfl

/-- **A look finds data or makes a request.** -/
theorem Polls.kind {d : Delivery} (h : Polls s l (some d) s' l')
    (hd : ∀ d, s.doubled = some d → d.kind = .data) : d.kind = .data ∨
      (s.held l = false ∧ s.doubled = none ∧ s.flowIsDue l = true ∧
        d = .status .flowControl s.subject (some (.issued (l.issued + 1))) ∧
        s' = { s with awaiting := some (l.issued + 1), sinceFlow := 0 } ∧
        l' = { l with issued := l.issued + 1, waiting := (l.issued + 1) :: l.waiting }) := by
  cases h with
  | @again d _ hdoubled => exact .inl (hd d hdoubled)
  | ask hh hdoubled hf => exact .inr ⟨hh, hdoubled, hf, rfl, rfl, rfl⟩
  | scanned _ _ _ hs =>
    cases hs with
    | handed => exact .inl (hand_kind _ _ _)

/-- **A reader in order**: it looks at a place of the log next, and repeats only what was published. -/
structure Sound (s : Subscription) : Prop where
  cursor : 1 ≤ s.cursor
  doubled : ∀ d, s.doubled = some d → d.kind = .data

/-- A look leaves a reader in order. -/
theorem Polls.sound (h : Polls s l o s' l') (hs : s.Sound) : s'.Sound := by
  refine ⟨h.one_le_cursor hs.cursor, ?_⟩
  cases h with
  | held | ask => exact hs.doubled
  | again => simp
  | scanned _ hnone _ hs =>
    cases hs with
    | drained => simp [behind, hnone]
    | handed =>
      intro d hd
      obtain ⟨-, -, rfl⟩ := hand_doubled (by exact hnone) hd
      rfl

end Frame

end Subscription

end FileRelay
