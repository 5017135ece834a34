import FileRelay.Log.Subscription
import Mathlib.Tactic.Common

/-!
# Proofs/Log/Row — the messages of one subject, in the order of the log

A reader of a log follows a **row**: the messages of its subject from a place on, each with its
place.  Places increase along a row (`row_pairwise`), a longer log has a longer row
(`Grown.row`), and the row behind one of its messages is what follows it (`row_after`).
-/

namespace FileRelay.Log

variable {l l' : Log} {subject : String} {first p : Nat} {m : Published}

/-- **The messages of a subject** from a place on, with their places. -/
def row (l : Log) (subject : String) (first : Nat) : List (Published × Nat) :=
  (l.messages.toList.zipIdx 1).filter fun e => first ≤ e.2 && e.1.subject == subject

theorem message?_eq_some_iff :
    l.message? p = some m ↔ 1 ≤ p ∧ l.messages.toList[p - 1]? = some m := by
  unfold message?
  split
  · have : ¬ 1 ≤ p := by omega
    simp [this]
  · have : 1 ≤ p := by omega
    simp [this]

theorem le_size_of_message? (h : l.message? p = some m) : p ≤ l.messages.size := by
  have := (List.getElem?_eq_some_iff.1 (message?_eq_some_iff.1 h).2).1
  simp only [Array.length_toList] at this
  omega

theorem size_lt_of_message? (hp : 1 ≤ p) (h : l.message? p = none) : l.messages.size < p := by
  have hp' : p ≠ 0 := by omega
  simp only [message?, hp', ↓reduceIte, Array.getElem?_eq_none_iff] at h
  omega

/-- **A log that is the same or longer.** -/
def Grown (l l' : Log) : Prop := l.messages.toList <+: l'.messages.toList

theorem Grown.refl (l : Log) : l.Grown l := List.prefix_rfl

theorem Grown.of_messages (h : l'.messages = l.messages) : l.Grown l' :=
  ⟨[], by rw [h, List.append_nil]⟩

theorem Grown.trans {l'' : Log} (h : l.Grown l') (h' : l'.Grown l'') : l.Grown l'' :=
  List.IsPrefix.trans h h'

/-- **What was added to a log**, with its places. -/
def since (l l' : Log) : List (Published × Nat) :=
  (l'.messages.toList.zipIdx 1).drop l.messages.size

theorem since_of_messages (h : l'.messages = l.messages) : l.since l' = [] := by
  rw [since, h]
  exact List.drop_of_length_le (by simp)

theorem since_of_push (h : l'.messages = l.messages.push m) :
    l.since l' = [(m, l.messages.size + 1)] := by
  rw [since, h, Array.toList_push, List.zipIdx_append, List.drop_append,
    List.drop_of_length_le (by simp)]
  simp [Nat.add_comm]

theorem Grown.size_le (h : l.Grown l') : l.messages.size ≤ l'.messages.size := by
  simpa using h.length_le

/-- A log with a message more is longer. -/
theorem Grown.of_push (h : l'.messages = l.messages.push m) : l.Grown l' :=
  ⟨[m], by rw [h, Array.toList_push]⟩

theorem mem_row_iff : (m, p) ∈ l.row subject first ↔
    first ≤ p ∧ l.message? p = some m ∧ m.subject = subject := by
  simp only [row, List.mem_filter, List.mem_zipIdx_iff_le_and_getElem?_sub, Bool.and_eq_true,
    decide_eq_true_eq, beq_iff_eq, message?_eq_some_iff]
  tauto

/-- What stands in a row stands in the log. -/
theorem mem_messages_of_mem_row {e : Published × Nat} (h : e ∈ l.row subject first) :
    e.1 ∈ l.messages.toList :=
  List.mem_of_getElem? (message?_eq_some_iff.1 (mem_row_iff.1 h).2.1).2

/-- **Places increase along a row.** -/
theorem row_pairwise (l : Log) (subject : String) (first : Nat) :
    (l.row subject first).Pairwise fun e f => e.2 < f.2 := by
  refine List.Pairwise.filter _ (List.pairwise_iff_getElem.2 fun i j hi hj hij => ?_)
  simp only [List.getElem_zipIdx]
  omega

/-- A row depends on the messages alone. -/
theorem row_congr (h : l'.messages = l.messages) : l'.row subject first = l.row subject first := by
  rw [row, row, h]

/-- **A longer log has a longer row.** -/
theorem row_of_append {more : List Published}
    (h : l'.messages.toList = l.messages.toList ++ more) :
    l'.row subject first = l.row subject first ++
      (more.zipIdx (1 + l.messages.toList.length)).filter
        fun e => first ≤ e.2 && e.1.subject == subject := by
  rw [row, h, List.zipIdx_append, List.filter_append, row]

/-- **A message more** is behind the row, if it is one of the subject. -/
theorem row_push (h : l'.messages = l.messages.push m) (hf : first ≤ l.messages.size + 1) :
    l'.row subject first = l.row subject first ++
      if m.subject = subject then [(m, l.messages.size + 1)] else [] := by
  have hmore : l'.messages.toList = l.messages.toList ++ [m] := by rw [h, Array.toList_push]
  rw [row_of_append hmore]
  split
  all_goals rename_i hs; simp [hs, hf, Nat.add_comm]

theorem Grown.row (h : l.Grown l') (subject : String) (first : Nat) :
    l.row subject first <+: l'.row subject first := by
  obtain ⟨more, h⟩ := h
  rw [row_of_append h.symm]
  exact List.prefix_append _ _

/-- **What stands in the row of a longer log** stands in the row of the shorter one, or was added. -/
theorem Grown.mem_row (h : l.Grown l') {e : Published × Nat} (he : e ∈ l'.row subject first) :
    e ∈ l.row subject first ∨ e ∈ l.since l' := by
  obtain ⟨more, hmore⟩ := h
  have hsince : l.since l' = more.zipIdx (1 + l.messages.toList.length) := by
    rw [since, ← hmore, List.zipIdx_append]
    exact List.drop_left' (by simp)
  rw [row_of_append hmore.symm] at he
  rw [hsince]
  exact (List.mem_append.1 he).imp_right fun hadded => (List.mem_filter.1 hadded).1

/-- What stands in a row stands there in the row of a longer log, too. -/
theorem Grown.row_getElem? (h : l.Grown l') {i : Nat} {e : Published × Nat}
    (he : (l.row subject first)[i]? = some e) : (l'.row subject first)[i]? = some e := by
  obtain ⟨rest, hrest⟩ := h.row subject first
  rw [← hrest, List.getElem?_append_left (List.getElem?_eq_some_iff.1 he).1, he]

/-- Reading from a later place leaves the earlier messages out. -/
theorem row_of_le {later : Nat} (h : first ≤ later) :
    l.row subject later = (l.row subject first).filter fun e => later ≤ e.2 := by
  rw [row, row, List.filter_filter]
  refine List.filter_congr fun e _ => ?_
  by_cases hl : later ≤ e.2
  · simp [hl, Nat.le_trans h hl]
  · simp [hl]

/-- A list of rising places is what stands before a place, and then what does not. -/
theorem filter_lt_append {row : List (Published × Nat)} (h : row.Pairwise fun e f => e.2 < f.2)
    (k : Nat) : row.filter (fun e => e.2 < k) ++ row.filter (fun e => k ≤ e.2) = row := by
  induction row with
  | nil => rfl
  | cons e row ih =>
    obtain ⟨hfirst, hrest⟩ := List.pairwise_cons.1 h
    by_cases he : e.2 < k
    · rw [List.filter_cons_of_pos (by simpa using he), List.filter_cons_of_neg (by simpa using he),
        List.cons_append, ih hrest]
    · -- Behind a later place there are later places only.
      have hall : ∀ f ∈ e :: row, k ≤ f.2 := fun f hf => by
        rcases List.mem_cons.1 hf with rfl | hf
        · exact Nat.le_of_not_lt he
        · have := hfirst f hf
          omega
      rw [List.filter_eq_nil_iff.2 (by simpa using hall), List.filter_eq_self.2 (by simpa using hall),
        List.nil_append]

/-- **Up to a place**, a row is a beginning of itself. -/
theorem row_upTo (l : Log) (subject : String) (first last : Nat) :
    (l.row subject first).filter (fun e => e.2 ≤ last) <+: l.row subject first := by
  simp only [← Nat.lt_succ_iff]
  exact ⟨_, filter_lt_append (l.row_pairwise subject first) (last + 1)⟩

/-- Nothing is to be read behind the end of the log. -/
theorem row_of_size_lt (h : l.messages.size < first) : l.row subject first = [] := by
  refine List.eq_nil_iff_forall_not_mem.2 fun ⟨m, p⟩ hm => ?_
  obtain ⟨hp, hm, -⟩ := mem_row_iff.1 hm
  have := le_size_of_message? hm
  omega

/-- **A row in two**: what stands before a place, and the row from there on. -/
theorem row_split {k : Nat} (h : first ≤ k) : l.row subject first
    = (l.row subject first).filter (fun e => e.2 < k) ++ l.row subject k := by
  rw [row_of_le h]
  exact (filter_lt_append (l.row_pairwise subject first) k).symm

/-- What stands at a place of a row or behind it is the row from there on. -/
theorem row_from {k : Nat} {before after : List (Published × Nat)}
    (h : l.row subject first = before ++ after) (hk : first ≤ k) (hbefore : ∀ e ∈ before, e.2 < k)
    (hafter : ∀ e ∈ after, k ≤ e.2) : l.row subject k = after := by
  have hnone : before.filter (fun e => k ≤ e.2) = [] :=
    List.filter_eq_nil_iff.2 fun e he => by simpa using hbefore e he
  rw [row_of_le hk, h, List.filter_append, hnone, List.nil_append]
  exact List.filter_eq_self.2 fun e he => decide_eq_true (hafter e he)

section Middle

variable {before after : List (Published × Nat)} {e : Published × Nat}

/-- Around a message of a row there are earlier ones and later ones. -/
theorem row_around (h : l.row subject first = before ++ e :: after) :
    first ≤ e.2 ∧ (∀ f ∈ before, f.2 < e.2) ∧ ∀ f ∈ after, e.2 < f.2 := by
  have hsorted := l.row_pairwise subject first
  rw [h] at hsorted
  obtain ⟨-, hafter, hbefore⟩ := List.pairwise_append.1 hsorted
  have hmem : e ∈ l.row subject first := by simp [h]
  exact ⟨(mem_row_iff.1 hmem).1, fun f hf => hbefore f hf e List.mem_cons_self,
    (List.pairwise_cons.1 hafter).1⟩

/-- **The row from one of its messages on.** -/
theorem row_at (h : l.row subject first = before ++ e :: after) :
    l.row subject e.2 = e :: after := by
  obtain ⟨hfirst, hbefore, hafter⟩ := row_around h
  exact row_from h hfirst hbefore fun f hf => (List.mem_cons.1 hf).elim
    (fun heq => heq ▸ Nat.le_refl _) fun hf => Nat.le_of_lt (hafter f hf)

/-- **The row behind one of its messages** is what follows it. -/
theorem row_after (h : l.row subject first = before ++ (m, p) :: after) :
    l.row subject (p + 1) = after := by
  obtain ⟨hfirst, hbefore, hafter⟩ := row_around h
  have hrow : l.row subject first = (before ++ [(m, p)]) ++ after := by simp [h]
  refine row_from hrow (Nat.le_succ_of_le hfirst) ?_ hafter
  intro f hf
  rcases List.mem_append.1 hf with hf | hf
  · exact Nat.lt_succ_of_lt (hbefore f hf)
  · rw [List.mem_singleton.1 hf]
    exact Nat.lt_succ_self p

end Middle

/-- The row behind the first messages of a row is the rest of it. -/
theorem row_behind {es : List (Published × Nat)} (h : es <+: l.row subject first)
    (he : es.getLast? = some (m, p)) : first ≤ p ∧ p ≤ l.messages.size ∧
      l.row subject (p + 1) = (l.row subject first).drop es.length := by
  obtain ⟨rest, h⟩ := h
  obtain ⟨before, rfl⟩ := List.getLast?_eq_some_iff.1 he
  have hmem : (m, p) ∈ l.row subject first := by simp [← h]
  obtain ⟨hfirst, hm, -⟩ := mem_row_iff.1 hmem
  refine ⟨hfirst, le_size_of_message? hm, ?_⟩
  rw [List.append_assoc] at h
  rw [row_after h.symm, ← h, List.length_append, List.length_singleton,
    List.drop_append, List.drop_of_length_le (Nat.le_succ _)]
  simp

/-- What a place adds to a row: its message, if it is one of the subject. -/
theorem row_of_message? (h : l.message? p = some m) :
    l.row subject p = if m.subject = subject then (m, p) :: l.row subject (p + 1)
      else l.row subject (p + 1) := by
  obtain ⟨hp, hm⟩ := message?_eq_some_iff.1 h
  obtain ⟨hlt, hget⟩ := List.getElem?_eq_some_iff.1 hm
  have hsplit : l.messages.toList
      = l.messages.toList.take (p - 1) ++ m :: l.messages.toList.drop (p - 1 + 1) := by
    rw [← hget, List.getElem_cons_drop, List.take_append_drop]
  have hrow : ∀ c, p ≤ c → l.row subject c
      = ((m, p) :: (l.messages.toList.drop (p - 1 + 1)).zipIdx (p + 1)).filter
          fun e => c ≤ e.2 && e.1.subject == subject := by
    intro c hc
    have hearlier : ((l.messages.toList.take (p - 1)).zipIdx 1).filter
        (fun e => c ≤ e.2 && e.1.subject == subject) = [] :=
      List.filter_eq_nil_iff.2 fun e he => by
        have := List.snd_lt_add_of_mem_zipIdx he
        simp only [List.length_take] at this
        have : ¬ c ≤ e.2 := by omega
        simp [this]
    have hlen : 1 + (l.messages.toList.take (p - 1)).length = p := by
      rw [List.length_take]; omega
    rw [row]
    conv_lhs => rw [hsplit]
    rw [List.zipIdx_append, List.filter_append, hearlier, List.nil_append, hlen,
      List.zipIdx_cons]
  have hlater : ∀ e ∈ (l.messages.toList.drop (p - 1 + 1)).zipIdx (p + 1), p + 1 ≤ e.2 :=
    fun e he => List.le_snd_of_mem_zipIdx he
  rw [hrow p (Nat.le_refl p), hrow (p + 1) (by omega)]
  simp only [List.filter_cons, Nat.le_refl, decide_true, Bool.true_and, beq_iff_eq,
    Nat.not_succ_le_self, decide_false, Bool.false_and, Bool.false_eq_true, ↓reduceIte]
  have hsame : ((l.messages.toList.drop (p - 1 + 1)).zipIdx (p + 1)).filter
        (fun e => p ≤ e.2 && e.1.subject == subject)
      = ((l.messages.toList.drop (p - 1 + 1)).zipIdx (p + 1)).filter
        (fun e => p + 1 ≤ e.2 && e.1.subject == subject) :=
    List.filter_congr fun e he => by
      have := hlater e he
      have h1 : p ≤ e.2 := by omega
      simp [this, h1]
  rw [hsame]

/-! ## Counting along a row -/

/-- How many messages of a subject stand at a place or behind it, and before another place. -/
def ahead (l : Log) (subject : String) (first k : Nat) : Nat :=
  (l.row subject first).countP fun e => e.2 < k

theorem ahead_of_le {k : Nat} (h : k ≤ first) : l.ahead subject first k = 0 :=
  List.countP_eq_zero.2 fun e he => by
    have := (mem_row_iff.1 he).1
    simp only [decide_eq_true_eq]
    omega

/-- Counting goes on behind a place. -/
theorem ahead_add {j k : Nat} (hj : first ≤ j) (hk : j ≤ k) :
    l.ahead subject first k = l.ahead subject first j + l.ahead subject j k := by
  have hbefore : ((l.row subject first).filter fun e => e.2 < j).countP (fun e => e.2 < k)
      = l.ahead subject first j := by
    rw [List.countP_filter, ahead]
    refine List.countP_congr fun e _ => ?_
    simp only [Bool.and_eq_true, decide_eq_true_eq]
    omega
  rw [ahead, row_split hj, List.countP_append, hbefore, ahead, ahead]

/-- **The message at the beginning of a row** counts. -/
theorem ahead_succ {e : Published × Nat} {rest : List (Published × Nat)}
    (h : l.row subject e.2 = e :: rest) : l.ahead subject e.2 (e.2 + 1) = 1 := by
  have hsorted := l.row_pairwise subject e.2
  rw [h] at hsorted
  rw [ahead, h, List.countP_cons_of_pos (by simp), List.countP_eq_zero.2]
  intro f hf
  have := (List.pairwise_cons.1 hsorted).1 f hf
  simp only [decide_eq_true_eq]
  omega

/-- The message of a row before which so many others stand. -/
theorem getElem?_ahead {k : Nat} (h : first ≤ k) :
    (l.row subject first)[l.ahead subject first k]? = (l.row subject k)[0]? := by
  conv_lhs => rw [row_split h]
  rw [ahead, List.countP_eq_length_filter, List.getElem?_append_right (Nat.le_refl _), Nat.sub_self]

/-- **A longer log has the same messages** before the end of the shorter one. -/
theorem Grown.row_below (h : l.Grown l') {k : Nat} (hk : k ≤ max first (l.messages.size + 1)) :
    (l'.row subject first).filter (fun e => e.2 < k)
      = (l.row subject first).filter fun e => e.2 < k := by
  obtain ⟨more, hmore⟩ := h
  rw [row_of_append hmore.symm, List.filter_append, List.append_right_eq_self,
    List.filter_eq_nil_iff]
  intro e he
  obtain ⟨he, hfirst⟩ := List.mem_filter.1 he
  have hplace := List.le_snd_of_mem_zipIdx he
  simp only [Array.length_toList, Bool.and_eq_true, decide_eq_true_eq] at hplace hfirst ⊢
  omega

theorem Grown.ahead (h : l.Grown l') {k : Nat} (hk : k ≤ max first (l.messages.size + 1)) :
    l'.ahead subject first k = l.ahead subject first k := by
  rw [Log.ahead, Log.ahead, List.countP_eq_length_filter, List.countP_eq_length_filter,
    h.row_below hk]

theorem Grown.mem_row_below (h : l.Grown l') {k : Nat} (hk : k ≤ max first (l.messages.size + 1))
    {e : Published × Nat} (he : e ∈ l'.row subject first) (hlt : e.2 < k) :
    e ∈ l.row subject first := by
  have hmem : e ∈ (l'.row subject first).filter fun e => e.2 < k :=
    List.mem_filter.2 ⟨he, decide_eq_true hlt⟩
  rw [h.row_below hk] at hmem
  exact (List.mem_filter.1 hmem).1

end FileRelay.Log
