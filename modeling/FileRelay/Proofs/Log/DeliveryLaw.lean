import FileRelay.Proofs.Log.Traffic

/-!
# Proofs/Log/DeliveryLaw — what the readers of a log are given

Any number of clients use a log (`Traffic`).  A reader's looks and its **receipts**, the data that it
was given with the look that gave it, determine where it stands (`Subscription.Serves`): it has passed
over the messages of its row before its cursor, each given or dropped, and the number of its last
delivery counts them all and the copies among its receipts.  Each delivery is then the next message
behind the cursor, or a copy of the last one (`Lawful`).
-/

namespace FileRelay

/-! ## Looks and receipts -/

/-- The looks of one reader. -/
def looksOf (i : Nat) (ms : List Moment) : List Moment := ms.filter fun m => m.action = .look i

/-- **What looks gave**, each delivery with the look that gave it. -/
def receipts (looks : List Moment) : List (Moment × Delivery) :=
  looks.filterMap fun m => m.given?.map fun d => (m, d)

/-- How many deliveries are copies: they repeat the one before them. -/
def copies : List (Moment × Delivery) → Nat
  | r :: r' :: rs => (if r.2.sequence = r'.2.sequence then 1 else 0) + copies (r' :: rs)
  | _ => 0

variable {options : LogOptions} {c : Clients} {ms looks : List Moment} {a : Action} {m : Moment}
  {rs before : List (Moment × Delivery)} {r r' : Moment × Delivery} {d : Delivery} {i first k : Nat}
  {s s' : Subscription} {l l' : Log} {subject : String}

theorem looksOf_concat_self (h : m.action = .look i) :
    looksOf i (ms ++ [m]) = looksOf i ms ++ [m] := by
  rw [looksOf, List.filter_append, List.filter_singleton, h]
  simp [looksOf]

theorem looksOf_concat_ne (h : m.action ≠ .look i) : looksOf i (ms ++ [m]) = looksOf i ms := by
  rw [looksOf, List.filter_append, List.filter_singleton]
  simp [looksOf, h]

theorem receipts_concat : receipts (looks ++ [m])
    = receipts looks ++ (m.given?.map fun d => (m, d)).toList := by
  rw [receipts, List.filterMap_append]
  rcases hd : m.given? with _ | d <;> simp [hd, receipts]

theorem copies_concat (rs : List (Moment × Delivery)) (r r' : Moment × Delivery) :
    copies (rs ++ [r, r'])
      = copies (rs ++ [r]) + if r.2.sequence = r'.2.sequence then 1 else 0 := by
  induction rs with
  | nil => simp [copies]
  | cons r₀ rs ih =>
    rcases rs with _ | ⟨r₁, rs⟩
    · simp [copies]
    · simp only [List.cons_append, copies] at ih ⊢
      rw [ih, Nat.add_assoc]

/-- **A new message** is no copy. -/
theorem copies_of_later (r' : Moment × Delivery) (h : ∀ r ∈ rs, r.2.sequence < r'.2.sequence) :
    copies (rs ++ [r']) = copies rs := by
  rcases List.eq_nil_or_concat' rs with rfl | ⟨before, r, rfl⟩
  · rfl
  · have hlt := h r List.mem_concat_self
    rw [List.append_assoc, List.singleton_append, copies_concat, if_neg (Nat.ne_of_lt hlt),
      Nat.add_zero]

/-- Where no fault has fired, none has. -/
theorem not_fires (hq : ∀ m ∈ looks, ∀ p, m.firesAt p = false) (hm : m ∈ looks)
    (fault : DeliveryFault) : ¬ m.Fires k fault := fun hf =>
  Bool.false_ne_true ((hq m hm k).symm.trans hf.1)

/-! ## The law -/

/-- **A lawful delivery** of a message of a row, in a look, to a reader that has these receipts and
these looks.

Its number counts the messages of the row up to it and all copies; a message that came before comes
again only at once and where a fault doubled it; what is missing was dropped, and leaves a gap in the
numbers; and with no fault fired it is the next message of the row. -/
structure Lawful (l : Log) (subject : String) (first : Nat) (rs : List (Moment × Delivery))
    (looks : List Moment) (m : Moment) (d : Delivery) : Prop where
  published : ∃ p : Published, (p, d.sequence) ∈ l.row subject first ∧
    d = { Delivery.ofPublished p d.sequence
            (l.ahead subject first (d.sequence + 1) + copies (rs ++ [(m, d)])) with
      payload := if m.Fires d.sequence .corrupt then Bytes.flipped p.payload else p.payload }
  sorted : ∀ r ∈ rs, r.2.sequence ≤ d.sequence
  twice : ∀ before r after, rs = before ++ r :: after → r.2.sequence = d.sequence →
    after = [] ∧ r.1.Fires d.sequence .duplicate
  again : ∀ r, rs.getLast? = some r → r.1.Fires r.2.sequence .duplicate →
    r.2.sequence = d.sequence
  missing : ∀ e ∈ l.row subject first, e.2 < d.sequence →
    (∃ r ∈ rs, r.2.sequence = e.2) ∨ ∃ m ∈ looks, m.Fires e.2 .drop
  gap : ∀ r, rs.getLast? = some r →
    d.number = r.2.number + 1 + l.ahead subject (r.2.sequence + 1) d.sequence
  plain : (∀ m ∈ looks, ∀ p, m.firesAt p = false) → ∃ e, (l.row subject first)[rs.length]? = some e ∧
    d = Delivery.ofPublished e.1 e.2 (rs.length + 1)

namespace Lawful

theorem place_le (h : Lawful l subject first rs looks m d) :
    first ≤ d.sequence ∧ d.sequence ≤ l.messages.size := by
  obtain ⟨p, hp, -⟩ := h.published
  obtain ⟨hfirst, hmessage, -⟩ := Log.mem_row_iff.1 hp
  exact ⟨hfirst, Log.le_size_of_message? hmessage⟩

/-- **The law holds in a longer log.** -/
theorem grown (h : Lawful l subject first rs looks m d) (hg : l.Grown l') :
    Lawful l' subject first rs looks m d := by
  obtain ⟨-, hle⟩ := h.place_le
  refine ⟨?_, h.sorted, h.twice, h.again, fun e he hlt => ?_, fun r hr => ?_, fun hq => ?_⟩
  · obtain ⟨p, hp, hd⟩ := h.published
    refine ⟨p, (hg.row subject first).subset hp, ?_⟩
    rw [hg.ahead (by omega)]
    exact hd
  · exact h.missing e (hg.mem_row_below (by omega) he hlt) hlt
  · rw [hg.ahead (by omega)]
    exact h.gap r hr
  · obtain ⟨e, he, hd⟩ := h.plain hq
    exact ⟨e, hg.row_getElem? he, hd⟩

end Lawful

/-! ## Where a reader stands -/

namespace Subscription

/-- **A reader that serves its row**: it has these receipts and these looks. -/
structure Serves (s : Subscription) (l : Log) (subject : String) (first : Nat)
    (rs : List (Moment × Delivery)) (looks : List Moment) : Prop where
  subject_eq : s.subject = subject
  first_le : first ≤ s.cursor
  cursor_le : s.cursor ≤ max first (l.messages.size + 1)
  delivered : s.delivered = l.ahead subject first s.cursor + copies rs
  below : ∀ r ∈ rs, first ≤ r.2.sequence ∧ r.2.sequence < s.cursor
  last : ∀ r, rs.getLast? = some r →
    r.2.number = l.ahead subject first (r.2.sequence + 1) + copies rs
  doubled : ∀ d, s.doubled = some d → ∃ before m p, rs = before ++ [(m, d)] ∧
    s.cursor = d.sequence + 1 ∧ m.Fires d.sequence .duplicate ∧
    (∀ r ∈ before, r.2.sequence < d.sequence) ∧ (p, d.sequence) ∈ l.row subject first ∧
    d = Delivery.ofPublished p d.sequence d.number
  repeats : s.closed = false → ∀ r, rs.getLast? = some r → r.1.Fires r.2.sequence .duplicate →
    s.doubled = some r.2
  passed : ∀ e ∈ l.row subject first, e.2 < s.cursor →
    (∃ r ∈ rs, r.2.sequence = e.2) ∨ ∃ m ∈ looks, m.Fires e.2 .drop
  quiet : (∀ m ∈ looks, ∀ p, m.firesAt p = false) →
    copies rs = 0 ∧ s.delivered = rs.length ∧ s.doubled = none

namespace Serves

/-- A new reader. -/
theorem fresh (l : Log) (subject : String) (position : Position) (looks : List Moment) :
    (l.subscribe subject position).1.Serves l subject position.first [] looks where
  subject_eq := rfl
  first_le := Nat.le_refl _
  cursor_le := Nat.le_max_left _ _
  delivered := (Log.ahead_of_le (Nat.le_refl _)).symm
  below := by simp
  last := by simp
  doubled := by simp [Log.subscribe]
  repeats := by simp
  passed e he hlt := absurd (Log.mem_row_iff.1 he).1 (Nat.not_le_of_lt hlt)
  quiet _ := ⟨rfl, rfl, rfl⟩

/-- **Publications** leave a reader where it stands. -/
theorem grown (h : s.Serves l subject first rs looks) (hg : l.Grown l') :
    s.Serves l' subject first rs looks where
  subject_eq := h.subject_eq
  first_le := h.first_le
  cursor_le := by
    have := h.cursor_le
    have := hg.size_le
    omega
  delivered := by rw [hg.ahead h.cursor_le, h.delivered]
  below := h.below
  last r hr := by
    have := (h.below r (List.mem_of_getLast? hr)).2
    have := h.cursor_le
    rw [hg.ahead (by omega), h.last r hr]
  doubled d hd := by
    obtain ⟨before, m, p, hrs, hcursor, hfires, hbefore, hp, heq⟩ := h.doubled d hd
    exact ⟨before, m, p, hrs, hcursor, hfires, hbefore, (hg.row subject first).subset hp, heq⟩
  repeats := h.repeats
  passed e he hlt := h.passed e (hg.mem_row_below h.cursor_le he hlt) hlt
  quiet := h.quiet

/-- **A look passes over messages** that it drops. -/
theorem pass {skipped rest : List (Published × Nat)} (h : s.Serves l subject first rs looks)
    (hrow : l.row subject s.cursor = skipped ++ rest)
    (hskipped : ∀ e ∈ skipped, e.2 < k ∧ m.Fires e.2 .drop) (hrest : ∀ e ∈ rest, k ≤ e.2)
    (hle : s.cursor ≤ k) (hk : k ≤ max first (l.messages.size + 1))
    (hd : k = s.cursor ∨ s.doubled = none) (awaiting : Option Nat) (since : Nat) :
    { s with
      cursor := k, delivered := s.delivered + skipped.length, awaiting := awaiting
      sinceFlow := since }.Serves l subject first rs (looks ++ [m]) where
  subject_eq := h.subject_eq
  first_le := Nat.le_trans h.first_le hle
  cursor_le := hk
  delivered := by
    have hcount : l.ahead subject s.cursor k = skipped.length := by
      rw [Log.ahead, hrow, List.countP_append, List.countP_eq_length.2, List.countP_eq_zero.2,
        Nat.add_zero]
      · exact fun e he => by simpa using hrest e he
      · exact fun e he => decide_eq_true (hskipped e he).1
    rw [Log.ahead_add h.first_le hle, hcount, h.delivered]
    exact Nat.add_right_comm _ _ _
  below r hr := ⟨(h.below r hr).1, Nat.lt_of_lt_of_le (h.below r hr).2 hle⟩
  last := h.last
  doubled d hdoubled := by
    rcases hd with rfl | hd
    · exact h.doubled d hdoubled
    · exact absurd (hd.symm.trans hdoubled) (by simp)
  repeats := h.repeats
  passed e he hlt := by
    by_cases hcursor : e.2 < s.cursor
    · rcases h.passed e he hcursor with hr | ⟨m, hm, hf⟩
      · exact .inl hr
      · exact .inr ⟨m, List.mem_append_left _ hm, hf⟩
    · have hmem : e ∈ l.row subject s.cursor := by
        rw [Log.row_of_le h.first_le]
        exact List.mem_filter.2 ⟨he, by simpa using hcursor⟩
      rw [hrow] at hmem
      rcases List.mem_append.1 hmem with hmem | hmem
      · exact .inr ⟨m, List.mem_concat_self, (hskipped e hmem).2⟩
      · exact absurd (hrest e hmem) (Nat.not_le_of_lt hlt)
  quiet hq := by
    obtain ⟨hcopies, hcount, hnone⟩ := h.quiet fun m hm => hq m (List.mem_append_left _ hm)
    have hempty : skipped = [] := List.eq_nil_iff_forall_not_mem.2 fun e he =>
      not_fires hq List.mem_concat_self .drop (hskipped e he).2
    exact ⟨hcopies, by simpa [hempty] using hcount, hnone⟩

/-- What a reader has passed over it has still passed over with a receipt more. -/
theorem passed_concat (h : s.Serves l subject first rs looks) (r : Moment × Delivery)
    {e : Published × Nat} (he : e ∈ l.row subject first) (hlt : e.2 < s.cursor) :
    (∃ r' ∈ rs ++ [r], r'.2.sequence = e.2) ∨ ∃ m ∈ looks, m.Fires e.2 .drop := by
  rcases h.passed e he hlt with ⟨r', hr, heq⟩ | hdrop
  · exact .inl ⟨r', List.mem_append_left _ hr, heq⟩
  · exact .inr hdrop

/-- A look that finds no data leaves a reader where it stands. -/
theorem idle (h : s.Serves l subject first rs looks) (m : Moment) (awaiting : Option Nat)
    (since : Nat) : { s with awaiting := awaiting, sinceFlow := since }.Serves l subject first rs
      (looks ++ [m]) :=
  h.pass (List.nil_append _).symm (by simp) (fun _ he => (Log.mem_row_iff.1 he).1) (Nat.le_refl _)
    h.cursor_le (.inl rfl) awaiting since

/-! ### The copy of a doubled message -/

/-- What is doubled came last. -/
theorem getLast?_of_doubled (h : s.Serves l subject first rs looks) (hd : s.doubled = some d)
    (hr : rs.getLast? = some r) : r.2 = d := by
  obtain ⟨before, m, p, rfl, -⟩ := h.doubled d hd
  rw [List.getLast?_concat, Option.some.injEq] at hr
  rw [← hr]

theorem copies_copy (h : s.Serves l subject first rs looks) (hd : s.doubled = some d)
    (hr : r.2.sequence = d.sequence) : copies (rs ++ [r]) = copies rs + 1 := by
  obtain ⟨before, m, p, rfl, -⟩ := h.doubled d hd
  rw [List.append_assoc, List.singleton_append, copies_concat, if_pos hr.symm]

theorem cursor_of_doubled (h : s.Serves l subject first rs looks) (hd : s.doubled = some d) :
    s.cursor = d.sequence + 1 := by
  obtain ⟨before, m, p, -, hcursor, -⟩ := h.doubled d hd
  exact hcursor

/-- Nothing is doubled where no fault has fired. -/
theorem not_quiet (h : s.Serves l subject first rs looks) (hd : s.doubled = some d) :
    ¬ ∀ m ∈ looks, ∀ p, m.firesAt p = false := fun hq => by
  simpa [hd] using (h.quiet hq).2.2

/-- **The copy of a doubled message** is lawful. -/
theorem lawful_copy (h : s.Serves l subject first rs looks) (hd : s.doubled = some d)
    (hm : ∀ fault, ¬ m.Fires d.sequence fault) :
    Lawful l subject first rs looks m { d with number := s.delivered + 1 } where
  published := by
    obtain ⟨before, m₀, p, -, -, -, -, hp, heq⟩ := h.doubled d hd
    refine ⟨p, hp, ?_⟩
    have hcopies := h.copies_copy (r := (m, { d with number := s.delivered + 1 })) hd rfl
    rw [if_neg (hm _), hcopies, h.delivered, h.cursor_of_doubled hd, Nat.add_assoc]
    rw [heq]
    rfl
  sorted r hr := by
    have hlt := (h.below r hr).2
    rw [h.cursor_of_doubled hd] at hlt
    exact Nat.le_of_lt_succ hlt
  twice before r after hrs heq := by
    obtain ⟨before', m₀, p, rfl, -, hfires, hbefore, -⟩ := h.doubled d hd
    -- What came before the doubled message is earlier.
    rcases List.eq_nil_or_concat' after with rfl | ⟨after, r', rfl⟩
    · obtain ⟨-, hr⟩ := List.append_inj' hrs rfl
      obtain rfl := List.singleton_inj.1 hr
      exact ⟨rfl, hfires⟩
    · rw [← List.cons_append, ← List.append_assoc] at hrs
      obtain ⟨rfl, -⟩ := List.append_inj' hrs rfl
      exact absurd heq (Nat.ne_of_lt (hbefore r (by simp)))
  again r hr _ := by rw [h.getLast?_of_doubled hd hr]
  missing e he hlt :=
    h.passed e he ((h.cursor_of_doubled hd).symm ▸ Nat.lt_succ_of_lt hlt)
  gap r hr := by
    have hnumber := h.last r hr
    rw [h.getLast?_of_doubled hd hr] at hnumber ⊢
    rw [Log.ahead_of_le (Nat.le_succ _), Nat.add_zero, hnumber, h.delivered,
      h.cursor_of_doubled hd]
  plain hq := absurd hq (h.not_quiet hd)

/-- **The copy of a doubled message** leaves a reader where it stands. -/
theorem copy (h : s.Serves l subject first rs looks) (hd : s.doubled = some d)
    (hm : ∀ fault, ¬ m.Fires d.sequence fault) (awaiting : Option Nat) (since : Nat) :
    { s with
      delivered := s.delivered + 1, awaiting := awaiting, sinceFlow := since
      doubled := none }.Serves l subject first
        (rs ++ [(m, { d with number := s.delivered + 1 })]) looks where
  subject_eq := h.subject_eq
  first_le := h.first_le
  cursor_le := h.cursor_le
  delivered := by rw [h.copies_copy hd rfl, h.delivered, Nat.add_assoc]
  below r hr := by
    rcases List.mem_append.1 hr with hr | hr
    · exact h.below r hr
    · obtain rfl := List.mem_singleton.1 hr
      obtain ⟨before, m₀, p, rfl, -⟩ := h.doubled d hd
      exact h.below (m₀, d) List.mem_concat_self
  last r hr := by
    rw [List.getLast?_concat, Option.some.injEq] at hr
    rw [h.copies_copy hd rfl, ← hr, ← Nat.add_assoc, ← h.cursor_of_doubled hd, ← h.delivered]
  doubled := by simp
  repeats _ r hr hf := by
    rw [List.getLast?_concat, Option.some.injEq] at hr
    exact absurd (hr ▸ hf) (hm _)
  passed e he hlt := h.passed_concat _ he hlt
  quiet hq := absurd hq (h.not_quiet hd)

/-! ### The next message of the row -/

section Hand

variable {e : Published × Nat} {rest : List (Published × Nat)} {fault : Option DeliveryFault}

theorem mem_row (h : s.Serves l subject first rs looks) (hrow : l.row subject s.cursor = e :: rest) :
    e ∈ l.row subject first := by
  have hmem : e ∈ l.row subject s.cursor := hrow ▸ List.mem_cons_self
  rw [Log.row_of_le h.first_le] at hmem
  exact (List.mem_filter.1 hmem).1

/-- It is later than all that came before, -/
theorem lt_of_receipt (h : s.Serves l subject first rs looks) (he : e.2 = s.cursor)
    (fault : Option DeliveryFault) :
    ∀ r ∈ rs, r.2.sequence < (s.hand e fault).1.sequence := fun r hr => by
  rw [hand_sequence, he]
  exact (h.below r hr).2

/-- and counts. -/
theorem delivered_succ (h : s.Serves l subject first rs looks)
    (hrow : l.row subject s.cursor = e :: rest) (he : e.2 = s.cursor) :
    s.delivered + 1 = l.ahead subject first (e.2 + 1) + copies rs := by
  rw [Log.ahead_add (he ▸ h.first_le) (Nat.le_succ e.2), Log.ahead_succ (he ▸ hrow), he,
    h.delivered, Nat.add_right_comm]

/-- **The next message of the row** is lawful. -/
theorem lawful_hand (h : s.Serves l subject first rs looks)
    (hrow : l.row subject s.cursor = e :: rest) (he : e.2 = s.cursor) (hd : s.doubled = none)
    (hopen : s.closed = false) (hm : m ∈ looks) (hf : ∀ f, m.Fires e.2 f ↔ fault = some f) :
    Lawful l subject first rs looks m (s.hand e fault).1 where
  published := by
    refine ⟨e.1, by rw [hand_sequence]; exact h.mem_row hrow, ?_⟩
    have hcopies := copies_of_later (m, (s.hand e fault).1) (h.lt_of_receipt he fault)
    rw [hcopies, hand_sequence, ← h.delivered_succ hrow he, hand_eq]
    simp only [hf]
  sorted r hr := Nat.le_of_lt (h.lt_of_receipt he fault r hr)
  twice before r after hrs heq :=
    absurd heq (Nat.ne_of_lt (h.lt_of_receipt he fault r (by simp [hrs])))
  -- A doubled message would have come first.
  again r hr hdup := absurd (hd.symm.trans (h.repeats hopen r hr hdup)) (by simp)
  missing f hf hlt := by
    rw [hand_sequence, he] at hlt
    exact h.passed f hf hlt
  gap r hr := by
    have hbelow := h.below r (List.mem_of_getLast? hr)
    rw [hand_number, hand_sequence, he, h.last r hr, h.delivered,
      Log.ahead_add (j := r.2.sequence + 1) (Nat.le_succ_of_le hbelow.1) hbelow.2]
    omega
  plain hq := by
    obtain ⟨hnone, hlen, -⟩ := h.quiet hq
    have hplace : l.ahead subject first s.cursor = rs.length := by
      rw [← hlen, h.delivered, hnone, Nat.add_zero]
    have hcorrupt : fault ≠ some .corrupt := fun hc => not_fires hq hm _ ((hf _).2 hc)
    refine ⟨e, by rw [← hplace, Log.getElem?_ahead h.first_le, hrow]; rfl, ?_⟩
    rw [hand_eq, if_neg hcorrupt, hlen]
    rfl

/-- **A reader goes on** behind the message that it is handed. -/
theorem hand (h : s.Serves l subject first rs looks) (hrow : l.row subject s.cursor = e :: rest)
    (he : e.2 = s.cursor) (hd : s.doubled = none) (hm : m ∈ looks)
    (hf : ∀ f, m.Fires e.2 f ↔ fault = some f) :
    (s.hand e fault).2.Serves l subject first (rs ++ [(m, (s.hand e fault).1)]) looks := by
  have hmem := h.mem_row hrow
  have hle := Log.le_size_of_message? (Log.mem_row_iff.1 hmem).2.1
  have hcopies := copies_of_later (m, (s.hand e fault).1) (h.lt_of_receipt he fault)
  rw [hand_snd]
  exact {
    subject_eq := h.subject_eq
    first_le := Nat.le_succ_of_le (he ▸ h.first_le)
    cursor_le := by simp only; omega
    delivered := by rw [hcopies, h.delivered_succ hrow he]
    below := fun r hr => by
      rcases List.mem_append.1 hr with hr | hr
      · have := h.below r hr
        simp only
        omega
      · obtain rfl := List.mem_singleton.1 hr
        rw [hand_sequence]
        exact ⟨he ▸ h.first_le, Nat.lt_succ_self _⟩
    last := fun r hr => by
      rw [List.getLast?_concat, Option.some.injEq] at hr
      rw [hcopies, ← hr, hand_number, hand_sequence, h.delivered_succ hrow he]
    doubled := fun d hdoubled => by
      rw [← hand_snd] at hdoubled
      obtain ⟨hfault, hgiven, rfl⟩ := hand_doubled hd hdoubled
      rw [hgiven]
      exact ⟨rs, m, e.1, rfl, rfl, (hf _).2 hfault, fun r hr => he ▸ (h.below r hr).2, hmem, rfl⟩
    repeats := fun _ r hr hdup => by
      rw [List.getLast?_concat, Option.some.injEq] at hr
      rw [← hr, hand_eq] at hdup ⊢
      have hfault := (hf _).1 hdup
      simp [hfault, Delivery.ofPublished]
    passed := fun f hf hlt => by
      by_cases hcursor : f.2 < s.cursor
      · exact h.passed_concat _ hf hcursor
      · have hlt : f.2 < e.2 + 1 := hlt
        refine .inl ⟨_, List.mem_concat_self, ?_⟩
        rw [hand_sequence]
        omega
    quiet := fun hq => by
      obtain ⟨hnone, hlen, -⟩ := h.quiet hq
      have hdup : fault ≠ some .duplicate := fun hc => not_fires hq hm _ ((hf _).2 hc)
      exact ⟨hcopies.trans hnone, by simp [hlen], by simp [hdup, hd]⟩ }

end Hand

end Serves

end Subscription

/-! ### A look -/

/-- **A look** that finds this in a log, and leaves it like that. -/
structure Moment.Looks (m : Moment) (l : Log) (o : Option Delivery) (l' : Log) : Prop where
  isLook : m.isLook = true
  before : m.before.log = l
  found : m.found = o
  after : m.after.log = l'

namespace Moment.Looks

variable {o : Option Delivery} {places : List Nat} {fault : DeliveryFault}

theorem fires_iff (hm : m.Looks l o l') (h : l.FiredAt places l') :
    m.Fires k fault ↔ k ∈ places ∧ (l.armed? k).map Prod.fst = some fault := by
  obtain ⟨hlook, rfl, -, rfl⟩ := hm
  exact Moment.fires_iff hlook h

theorem given?_eq (hm : m.Looks l o l') : m.given? = o.filter fun d => d.kind = .data := by
  rw [given?, hm.found]

end Moment.Looks

namespace Subscription

namespace Serves

/-- A reader that was closed stands where it stood. -/
theorem close (h : s.Serves l subject first rs looks) :
    (s.unsubscribe l).1.Serves l subject first rs looks := by
  unfold unsubscribe
  split
  · exact h
  · exact ⟨h.subject_eq, h.first_le, h.cursor_le, h.delivered, h.below, h.last, by simp, by simp,
      h.passed, fun hq => ⟨(h.quiet hq).1, (h.quiet hq).2.1, rfl⟩⟩

/-- **A look that drops the rest of the row.** -/
theorem drained (h : s.Serves l subject first rs looks) (hd : s.doubled = none)
    (hdrops : l.Drops (l.row subject s.cursor) l') (hm : m.Looks l none l') :
    { s.behind (l.row subject s.cursor) with
      cursor := max s.cursor (l.messages.size + 1), awaiting := none }.Serves l subject first rs
        (looks ++ [m]) := by
  obtain ⟨harmed, hfired⟩ := hdrops.firedAt (l.row_pairwise _ _)
  refine h.pass (List.append_nil _).symm (fun e he => ⟨?_, ?_⟩) (by simp) (Nat.le_max_left _ _) ?_
    (.inr hd) none s.sinceFlow
  · have := Log.le_size_of_message? (Log.mem_row_iff.1 he).2.1
    omega
  · rw [hm.fires_iff hfired]
    exact ⟨List.mem_map_of_mem he, harmed e he⟩
  · have := h.first_le
    have := h.cursor_le
    omega

/-- **A look that drops some messages** comes to the one behind them. -/
theorem dropped {o : Option Delivery} {l₁ : Log} {e : Published × Nat}
    {skipped rest : List (Published × Nat)} {places : List Nat}
    (h : s.Serves l subject first rs looks) (hd : s.doubled = none)
    (hrow : l.row subject s.cursor = skipped ++ e :: rest) (hdrops : l.Drops skipped l₁)
    (hfired : l.FiredAt (skipped.map Prod.snd ++ places) l') (hm : m.Looks l o l') :
    { s.behind skipped with cursor := e.2, awaiting := none }.Serves l subject first rs
      (looks ++ [m]) := by
  have hsorted := hrow ▸ l.row_pairwise subject s.cursor
  obtain ⟨hcursor, hbefore, hafter⟩ := Log.row_around hrow
  have hmem : e ∈ l.row subject s.cursor := by simp [hrow]
  refine h.pass hrow (fun f hf => ⟨hbefore f hf, ?_⟩) (fun f hf => ?_) hcursor ?_ (.inr hd) none
    s.sinceFlow
  · rw [hm.fires_iff hfired]
    exact ⟨List.mem_append_left _ (List.mem_map_of_mem hf),
      (hdrops.firedAt (List.pairwise_append.1 hsorted).1).1 f hf⟩
  · rcases List.mem_cons.1 hf with rfl | hf
    · exact Nat.le_refl _
    · exact Nat.le_of_lt (hafter f hf)
  · have := Log.le_size_of_message? (Log.mem_row_iff.1 hmem).2.1
    omega

/-- **A look along the row**: what is left out was dropped, and what is given comes next. -/
theorem scan {o : Option Delivery} (h : s.Serves l subject first rs looks)
    (hopen : s.closed = false) (hd : s.doubled = none)
    (hs : Scans { s with awaiting := none } l o s' l') (hm : m.Looks l o l') :
    (∀ d, m.given? = some d → Lawful l' subject first rs (looks ++ [m]) m d) ∧
      s'.Serves l' subject first (rs ++ (m.given?.map fun d => (m, d)).toList) (looks ++ [m]) := by
  obtain ⟨n, hn⟩ := hs.fired
  have hg := Log.Grown.of_messages hn.messages
  obtain rfl := h.subject_eq
  cases hs with
  | drained hdrops =>
    have hnone : m.given? = none := hm.given?_eq
    refine ⟨by simp [hnone], ?_⟩
    rw [hnone, Option.map_none, Option.toList_none, List.append_nil]
    exact (h.drained hd hdrops hm).grown hg
  | @handed skipped rest e l₁ _ fault hrow hdrops hstrike hne =>
    have hrow : l.row s.subject s.cursor = skipped ++ e :: rest := hrow
    obtain ⟨hfault, hfired⟩ := hdrops.strike_firedAt (hrow ▸ l.row_pairwise _ _) hstrike
    have hgiven : m.given? = some (({ s with awaiting := none }.behind skipped).hand e fault).1 := by
      rw [hm.given?_eq, Option.filter_some, if_pos (by simp [hand_kind])]
    have hnext := (h.dropped hd hrow hdrops hfired hm).grown hg
    have hrow' : l'.row s.subject e.2 = e :: rest := by
      rw [Log.row_congr hn.messages, Log.row_at hrow]
    have hfires : ∀ f, m.Fires e.2 f ↔ fault = some f := fun f => by
      rw [hm.fires_iff hfired, hfault]
      exact and_iff_right (by simp)
    have hmem : m ∈ looks ++ [m] := List.mem_concat_self
    rw [hgiven]
    refine ⟨fun d hd' => ?_, hnext.hand hrow' rfl hd hmem hfires⟩
    rw [← Option.some.inj hd']
    exact hnext.lawful_hand hrow' rfl hd hopen hmem hfires

/-- **A look of a reader**: what it is given is lawful, and it goes on serving its row. -/
theorem look {o : Option Delivery} (h : s.Serves l subject first rs looks) (hopen : s.closed = false)
    (hp : s.Polls l o s' l') (hm : m.Looks l o l') :
    (∀ d, m.given? = some d → Lawful l' subject first rs (looks ++ [m]) m d) ∧
      s'.Serves l' subject first (rs ++ (m.given?.map fun d => (m, d)).toList) (looks ++ [m]) := by
  have hmem : m ∈ looks ++ [m] := List.mem_concat_self
  have hg := Log.Grown.of_messages hp.messages
  cases hp with
  | held =>
    have hnone : m.given? = none := hm.given?_eq
    refine ⟨by simp [hnone], ?_⟩
    simpa [hnone] using h.idle m s.awaiting s.sinceFlow
  | ask =>
    have hnone : m.given? = none := hm.given?_eq
    refine ⟨by simp [hnone], ?_⟩
    simpa [hnone] using (h.idle m (some (l.issued + 1)) 0).grown hg
  | @again d _ hd =>
    obtain ⟨-, -, p, -, -, -, -, -, heq⟩ := h.doubled d hd
    have hgiven : m.given? = some { d with number := s.delivered + 1 } := by
      rw [hm.given?_eq, heq]
      rfl
    have hfires : ∀ fault, ¬ m.Fires d.sequence fault := fun fault hf => by
      rw [hm.fires_iff (.of_faults rfl)] at hf
      exact absurd hf.1 List.not_mem_nil
    have hidle := h.idle m s.awaiting s.sinceFlow
    rw [hgiven]
    refine ⟨fun d' hd' => ?_, hidle.copy hd hfires none (s.sinceFlow + 1)⟩
    rw [← Option.some.inj hd']
    exact hidle.lawful_copy hd hfires
  | scanned _ hd _ hs => exact h.scan hopen hd hs hm

end Serves

end Subscription

/-! ## All readers -/

namespace Clients

/-- **Clients whose readers serve their rows.** -/
structure Kept (c : Clients) (ms : List Moment) : Prop where
  length : c.readers.length = (ms.filterMap Moment.opened?).length
  unopened : ∀ i, c.readers.length ≤ i → receipts (looksOf i ms) = []
  serves : ∀ (i : Nat) (s : Subscription), c.readers[i]? = some s → ∃ subject position,
    (ms.filterMap Moment.opened?)[i]? = some (subject, position) ∧
      s.Serves c.log subject position.first (receipts (looksOf i ms)) (looksOf i ms)

namespace Kept

variable {o : Option Delivery} {c' : Clients}

/-- Only looks of a reader that was opened give something. -/
theorem receipts_unopened (h : c.Kept ms) (hch : c.Changes a o c') (hi : c.readers.length ≤ i) :
    receipts (looksOf i (ms ++ [⟨a, c, o, c'⟩])) = [] := by
  by_cases hlook : a = .look i
  · subst hlook
    have hnone : o = none := by_contra fun ho => by
      obtain ⟨s, -, hs, -⟩ := hch.looker ho
      rw [List.getElem?_eq_none hi] at hs
      simp at hs
    rw [looksOf_concat_self rfl, receipts_concat, h.unopened i hi, hnone]
    rfl
  · rw [looksOf_concat_ne hlook, h.unopened i hi]

/-- **A reader that was opened before** goes on serving its row. -/
theorem reader (h : c.Kept ms) (hg : c.log.Grown c'.log) (hs : c.readers[i]? = some s)
    (hm : m = ⟨a, c, o, c'⟩)
    (hcomes : a ≠ .look i ∧ (s' = s ∨ s' = (s.unsubscribe c.log).1) ∨
      a = .look i ∧ (s' = s ∧ o = none ∨ s.closed = false ∧ s.Polls c.log o s' c'.log)) :
    ∃ subject position, (ms.filterMap Moment.opened?)[i]? = some (subject, position) ∧
      s'.Serves c'.log subject position.first (receipts (looksOf i (ms ++ [m])))
        (looksOf i (ms ++ [m])) := by
  obtain ⟨subject, position, hopened, hserves⟩ := h.serves i s hs
  refine ⟨subject, position, hopened, ?_⟩
  rcases hcomes with ⟨hne, hsame⟩ | ⟨rfl, hlook⟩
  · rw [looksOf_concat_ne (hm ▸ hne)]
    rcases hsame with rfl | rfl
    · exact hserves.grown hg
    · exact hserves.close.grown hg
  · rw [looksOf_concat_self (by rw [hm]), receipts_concat]
    rcases hlook with ⟨rfl, rfl⟩ | ⟨hopen, hp⟩
    · have hnone : m.given? = none := by rw [hm]; rfl
      simpa [hnone] using (hserves.idle m s'.awaiting s'.sinceFlow).grown hg
    · subst hm
      exact (hserves.look hopen hp ⟨rfl, rfl, rfl, rfl⟩).2

/-- **An action** keeps all readers serving their rows. -/
theorem act (h : c.Kept ms) (hch : c.Changes a o c') (hg : c.log.Grown c'.log) :
    c'.Kept (ms ++ [⟨a, c, o, c'⟩]) where
  length := by
    rw [hch.length_readers, h.length, List.filterMap_append, List.length_append]
    rcases ho : Moment.opened? ⟨a, c, o, c'⟩ <;> simp [ho]
  unopened i hi := by
    rw [hch.length_readers] at hi
    exact h.receipts_unopened hch (Nat.le_of_add_right_le hi)
  serves i s' hs' := by
    rw [List.filterMap_append]
    rcases hch.reader hs' with ⟨rfl, subject, position, rfl, rfl⟩ | ⟨s, hs, hcomes⟩
    · rw [h.receipts_unopened hch (Nat.le_refl _), h.length]
      exact ⟨subject, position, by simp [Moment.opened?],
        (Subscription.Serves.fresh _ _ _ _).grown hg⟩
    · obtain ⟨subject, position, hopened, hserves⟩ := h.reader hg hs rfl hcomes
      refine ⟨subject, position, ?_, hserves⟩
      rw [List.getElem?_append_left (List.getElem?_eq_some_iff.1 hopened).1, hopened]

end Kept

end Clients

namespace Traffic

/-- **All readers serve their rows**, whatever clients do. -/
theorem kept (h : Traffic options c ms) : c.Kept ms := by
  induction h with
  | begun => exact ⟨rfl, fun _ _ => rfl, by simp⟩
  | @act c ms h a ih => exact ih.act (h.changes a) ⟨_, (h.changes a).messages.symm⟩

/-- **Whatever a reader is given is lawful.** -/
theorem lawful {before after : List Moment} {position : Position}
    (h : Traffic options c (before ++ m :: after)) (hlook : m.action = .look i)
    (hgiven : m.given? = some d)
    (hopened : ((before ++ m :: after).filterMap Moment.opened?)[i]? = some (subject, position)) :
    Lawful c.log subject position.first (receipts (looksOf i before)) (looksOf i before ++ [m])
      m d := by
  obtain ⟨c', a, h', rfl⟩ := h.moment
  obtain rfl : a = .look i := hlook
  have hch := h'.changes (.look i)
  obtain ⟨s, s', hs, hopen, hp⟩ := hch.looker fun ho => by simp [Moment.given?, ho] at hgiven
  obtain ⟨subject', position', hopened', hserves⟩ := h'.kept.serves i s hs
  rw [List.filterMap_append, List.getElem?_append_left (List.getElem?_eq_some_iff.1 hopened').1,
    hopened', Option.some.injEq, Prod.mk.injEq] at hopened
  obtain ⟨rfl, rfl⟩ := hopened
  rw [List.append_cons] at h
  exact ((hserves.look hopen hp ⟨rfl, rfl, rfl, rfl⟩).1 d hgiven).grown ((h'.act _).grown_of_append h)

/-- **The delivery law of a log**, for all that any number of clients do.

Publications are numbered from one on, and messages stay as they were published.  Whatever a reader is
given is lawful, by its receipts and its looks until then.  A fault that fires was armed before; and
until something else is armed at its place, it fires the first so many times that a reader, whichever,
passes over the place, as it was armed for, and no other fault fires there. -/
theorem delivery_law (h : Traffic options c ms) :
    (ms.filterMap Moment.place? = List.range' 1 c.log.messages.size ∧
      c.log.messages.toList = ms.filterMap Moment.published? ∧
      ∀ m ∈ ms, m.before.log.Grown m.after.log) ∧
    (∀ before m after i d subject position, ms = before ++ m :: after → m.action = .look i →
      m.given? = some d → (ms.filterMap Moment.opened?)[i]? = some (subject, position) →
      Lawful c.log subject position.first (receipts (looksOf i before)) (looksOf i before ++ [m])
        m d) ∧
    (∀ before m after p fault, ms = before ++ m :: after → m.Fires p fault →
      m.passes p = true ∧ ∃ m' ∈ before, ∃ times, m'.action = .arm p fault times ∧ 0 < times) ∧
    ∀ before m between after p fault times, ms = before ++ m :: between ++ after →
      m.action = .arm p fault times → 0 < times →
      (∀ m' ∈ between, ∀ fault times, m'.action = .arm p fault times → times = 0) →
      between.countP (·.firesAt p) = min times (between.countP (·.passes p)) ∧
        ∀ m' ∈ between, ∀ fault', m'.Fires p fault' → fault' = fault := by
  refine ⟨⟨h.places, h.messages, h.grown⟩, ?_, ?_, ?_⟩
  · rintro before m after i d subject position rfl hlook hgiven hopened
    exact h.lawful hlook hgiven hopened
  · rintro before m after p fault rfl hm
    exact h.fires hm
  · rintro before m between after p fault times rfl hm htimes hbetween
    obtain ⟨c', h'⟩ := h.upTo
    have hspends := h'.spends hm htimes hbetween
    exact ⟨hspends.fired, hspends.same⟩

/-- A message that a fault doubles comes a second time, under the number two.  A second reader passes
over its place, too, when the fault, which was armed for one delivery, has fired. -/
theorem delivery_law_of_copy :
    let r := Clients.run ⟨.new default, []⟩ [.publish ⟨"a", KeyMap.empty, [7]⟩,
      .arm 1 .duplicate 1, .subscribe "a" .all, .subscribe "a" .all, .look 0, .look 1, .look 0]
    ∃ m d, r.2 = r.2.take 6 ++ [m] ∧ m.given? = some d ∧ d.number = 2 ∧
      Lawful r.1.log "a" 1 (receipts (looksOf 0 (r.2.take 6))) (looksOf 0 (r.2.take 6) ++ [m]) m d ∧
      (r.2.drop 2).countP (·.passes 1) = 2 ∧ (r.2.drop 2).countP (·.firesAt 1) = min 1 2 := by
  intro r
  have hlaw := delivery_law (Traffic.begun.run _ : Traffic default r.1 ([] ++ r.2))
  have hlast : r.2 = r.2.take 6 ++ r.2[6] :: [] := by decide
  have hpasses : (r.2.drop 2).countP (·.passes 1) = 2 := by decide
  have hactions : (r.2.drop 2).map Moment.action
      = [.subscribe "a" .all, .subscribe "a" .all, .look 0, .look 1, .look 0] := by
    decide
  have hunarmed : ∀ m ∈ r.2.drop 2, ∀ fault times, m.action = .arm 1 fault times → times = 0 := by
    intro m hm fault times ha
    have hmem := List.mem_map_of_mem (f := Moment.action) hm
    rw [hactions, ha] at hmem
    simp at hmem
  refine ⟨r.2[6], r.2[6].given?.get (by decide), hlast, by decide, by decide, ?_, hpasses, ?_⟩
  · exact hlaw.2.1 _ _ [] 0 _ "a" .all hlast (by decide) (by decide) (by decide)
  · rw [← hpasses]
    exact (hlaw.2.2.2 (r.2.take 1) r.2[1] (r.2.drop 2) [] 1 .duplicate 1 (by decide) (by decide)
      (by decide) hunarmed).1

end Traffic

end FileRelay
