import FileRelay.Digest.OfFile
import FileRelay.Proofs.Digest.Streaming
import Mathlib.Data.List.DropRight
import Mathlib.Data.List.Infix

/-!
# Proofs/Digest/History — what a digester answers after any row of requests

What counts are the pieces between the last reset and the first look behind it (`Ask.counted`).  A
digester is at any time one that has absorbed just these, and that was looked at if there was a look
(`Digester.after_eq`); so each request is answered from those before it
(`Digester.answers_from_history`).  It makes no difference how a content is cut, and so the digest of
a file is the digest of its content.
-/

namespace FileRelay.Digest

/-! ## Requests -/

/-- What is **asked** of a digester. -/
inductive Ask where
  | absorb (piece : Bytes)
  | value
  | entry
  | reset
  deriving DecidableEq

/-- What it answers; a piece and a reset have no answer of their own. -/
inductive Answer where
  | done
  | value (text : String)
  | entry (e : Entry)
  deriving DecidableEq

/-- **One request.** -/
def Digester.serve (d : Digester) : Ask → Answer × Digester
  | .absorb p => (.done, d.absorb p)
  | .value => (.value d.value.1, d.value.2)
  | .entry => (.entry d.entry.1, d.entry.2)
  | .reset => (.done, d.reset)

/-- **A row of requests**, one after another. -/
def Digester.serveAll (d : Digester) : List Ask → List Answer × Digester
  | [] => ([], d)
  | q :: qs => ((d.serve q).1 :: ((d.serve q).2.serveAll qs).1, ((d.serve q).2.serveAll qs).2)

namespace Ask

/-- Does a request look at the value? -/
def looks : Ask → Bool
  | value | entry => true
  | absorb _ | reset => false

/-- The octets that a request brings. -/
def piece : Ask → Bytes
  | absorb p => p
  | value | entry | reset => []

/-- The requests since the last reset, or all of them. -/
def sinceReset (history : List Ask) : List Ask := history.rtakeWhile (· ≠ reset)

/-- **Was the value looked at** since the last reset? -/
def looked (history : List Ask) : Bool := (sinceReset history).any looks

/-- **What counts**: the pieces since the last reset, up to the first look behind it. -/
def counted (history : List Ask) : Bytes :=
  ((sinceReset history).takeWhile fun q => !q.looks).flatMap piece

/-- **What a request is answered** after others. -/
def answer (a : Algorithm) (history : List Ask) : Ask → Answer
  | value => .value (a.hexDigest (counted history))
  | entry => .entry ⟨a.name, a.hexDigest (counted history)⟩
  | absorb _ | reset => .done

variable {q : Ask} {history : List Ask}

theorem sinceReset_concat_reset (history : List Ask) : sinceReset (history ++ [reset]) = [] :=
  List.rtakeWhile_concat_neg _ _ _ (by simp)

theorem sinceReset_concat (hq : q ≠ reset) :
    sinceReset (history ++ [q]) = sinceReset history ++ [q] :=
  List.rtakeWhile_concat_pos _ _ _ (by simpa using hq)

theorem looked_concat (hq : q ≠ reset) :
    looked (history ++ [q]) = (looked history || q.looks) := by
  simp [looked, sinceReset_concat hq]

/-- **A piece counts** as long as there was no look. -/
theorem counted_concat (hq : q ≠ reset) : counted (history ++ [q])
    = if looked history then counted history else counted history ++ q.piece := by
  have hpiece : ([q].takeWhile fun q => !q.looks).flatMap piece = q.piece := by
    cases q <;> simp [looks, piece]
  rw [counted, sinceReset_concat hq]
  by_cases hlooked : looked history = true
  · have hstops : ¬ ∀ r ∈ sinceReset history, (!r.looks) = true := by
      simpa [looked] using hlooked
    rw [if_pos hlooked, List.takeWhile_append, if_neg fun hlength =>
      hstops (List.takeWhile_eq_self_iff.1 ((List.takeWhile_prefix _).eq_of_length hlength)), counted]
  · have hgoes : ∀ r ∈ sinceReset history, (!r.looks) = true := by
      simpa [looked] using hlooked
    rw [if_neg hlooked, List.takeWhile_append_of_pos hgoes, List.flatMap_append, hpiece, counted,
      List.takeWhile_eq_self_iff.2 hgoes]

end Ask

/-! ## The digester after a history -/

namespace Digester

/-- The digester after some requests. -/
def after (d : Digester) (history : List Ask) : Digester :=
  history.foldl (fun d q => (d.serve q).2) d

theorem after_concat (d : Digester) (history : List Ask) (q : Ask) :
    d.after (history ++ [q]) = ((d.after history).serve q).2 := by
  simp [after]

/-- A digester that has absorbed a content, and that was looked at or not. -/
def ofContent (a : Algorithm) (content : Bytes) (looked : Bool) : Digester :=
  if looked then ((new a).absorb content).value.2 else (new a).absorb content

section

variable (a : Algorithm) (content : Bytes) (looked : Bool)

theorem isFixed_ofContent : (ofContent a content looked).isFixed = looked := by
  cases looked <;> rfl

theorem value_ofContent : (ofContent a content looked).value.1 = a.hexDigest content := by
  rw [← value_absorb]
  cases looked <;> rfl

theorem entry_ofContent :
    (ofContent a content looked).entry.1 = ⟨a.name, a.hexDigest content⟩ := by
  rw [← value_ofContent a content looked]
  cases looked <;> rfl

/-- **A look** fixes the value and changes nothing if it was fixed. -/
theorem serve_look (q : Ask) (hq : q.looks = true) :
    ((ofContent a content looked).serve q).2 = ofContent a content true := by
  cases q with
  | value | entry => cases looked <;> rfl
  | absorb | reset => simp [Ask.looks] at hq

/-- **A piece more** is absorbed unless there was a look. -/
theorem absorb_ofContent (p : Bytes) : (ofContent a content looked).absorb p
    = ofContent a (if looked then content else content ++ p) looked := by
  cases looked
  · exact absorb_append a content p
  · rfl

theorem reset_ofContent : (ofContent a content looked).reset = new a := by
  cases looked <;> rfl

end

variable {a : Algorithm}

/-- **A digester is what its history makes of it**: it has absorbed what counts, and it was looked at
if there was a look. -/
theorem after_eq (a : Algorithm) (history : List Ask) :
    (new a).after history = ofContent a (Ask.counted history) (Ask.looked history) := by
  induction history using List.reverseRecOn with
  | nil => exact (absorb_nil a).symm
  | append_singleton history q ih =>
    rw [after_concat, ih]
    by_cases hreset : q = .reset
    · subst hreset
      simp only [Ask.counted, Ask.looked, Ask.sinceReset_concat_reset]
      exact (reset_ofContent a _ _).trans (absorb_nil a).symm
    · rw [Ask.counted_concat hreset, Ask.looked_concat hreset]
      cases q with
      | absorb p => rw [Ask.looks, Bool.or_false]; exact absorb_ofContent a _ _ p
      | value | entry =>
        rw [serve_look a _ _ _ rfl, Ask.piece, List.append_nil, ite_self, Ask.looks, Bool.or_true]
      | reset => exact absurd rfl hreset

theorem serve_ofContent (history : List Ask) (q : Ask) :
    (((new a).after history).serve q).1 = Ask.answer a history q := by
  rw [after_eq]
  cases q with
  | absorb | reset => rfl
  | value => exact congrArg Answer.value (value_ofContent a _ _)
  | entry => exact congrArg Answer.entry (entry_ofContent a _ _)

/-- **Each request is answered from those before it.** -/
theorem serveAll_after (history qs : List Ask) : (((new a).after history).serveAll qs).1
    = List.zipWith (fun before q => Ask.answer a (history ++ before) q) qs.inits qs := by
  induction qs generalizing history with
  | nil => rfl
  | cons q qs ih =>
    have hrest := ih (history ++ [q])
    rw [after_concat] at hrest
    simp only [serveAll, serve_ofContent, hrest, List.inits, List.zipWith_cons_cons,
      List.append_nil, List.zipWith_map_left, List.append_assoc, List.singleton_append]

/-! ## Contents in pieces -/

/-- **How a content is cut makes no difference.** -/
theorem absorb_pieces (pieces : List Bytes) (content : Bytes) :
    pieces.foldl absorb ((new a).absorb content) = (new a).absorb (content ++ pieces.flatten) := by
  induction pieces generalizing content with
  | nil => rw [List.foldl_nil, List.flatten_nil, List.append_nil]
  | cons p pieces ih =>
    rw [List.foldl_cons, absorb_append, ih, List.append_assoc, List.flatten_cons]

/-- A content that is absorbed piece by piece is absorbed. -/
theorem absorbPieces_eq (content rest : Bytes) :
    ((new a).absorb content).absorbPieces rest = (new a).absorb (content ++ rest) := by
  induction hn : rest.length using Nat.strong_induction_on generalizing content rest with
  | _ n ih =>
    rw [absorbPieces]
    split
    · rename_i hnil
      rw [hnil, List.append_nil]
    · rename_i hne
      have hpos := List.length_pos_iff.2 hne
      have hshorter : (rest.drop pieceOctets).length < n := by
        rw [List.length_drop, pieceOctets]
        omega
      rw [absorb_append, ih _ hshorter _ _ rfl, List.append_assoc, List.take_append_drop]

/-- **The digest of a file is that of its content.** -/
theorem digest_file (t : FileTree) (a : Algorithm) (p : Path) :
    t.digest a p = ((t.read p).mapError ContentError.io).map a.hexDigest := by
  unfold FileTree.digest
  split
  · rename_i e he
    rw [he]
    rfl
  · rename_i content hcontent
    have hwhole := absorbPieces_eq (a := a) [] content
    rw [absorb_nil, List.nil_append] at hwhole
    rw [hcontent, hwhole, value_absorb]
    rfl

/-! ## All together -/

/-- **Once the value was looked at**, nothing changes it but a reset. -/
theorem after_of_looked {history later : List Ask} (hlooked : Ask.looked history = true)
    (hlater : .reset ∉ later) : (new a).after (history ++ later) = (new a).after history := by
  have hstays : Ask.looked (history ++ later) = true ∧
      Ask.counted (history ++ later) = Ask.counted history := by
    induction later using List.reverseRecOn with
    | nil => rw [List.append_nil]; exact ⟨hlooked, rfl⟩
    | append_singleton later q ih =>
      have hq : q ≠ .reset := fun h => hlater (h ▸ List.mem_concat_self)
      obtain ⟨hl, hc⟩ := ih fun h => hlater (List.mem_append_left _ h)
      rw [← List.append_assoc, Ask.looked_concat hq, Ask.counted_concat hq, hl, if_pos rfl]
      exact ⟨rfl, hc⟩
  rw [after_eq, after_eq, hstays.1, hstays.2, hlooked]

/-- **What a digester answers**, by its history.  Its value is the digest of what counts: the pieces
since the last reset and before the first look behind it; it is fixed from that look on.  So each
request of any row is answered from those before it, and after a look nothing but a reset makes a
difference.  However a content is cut, its pieces have the digest of the whole, and so has a file. -/
theorem answers_from_history (a : Algorithm) :
    (∀ history, ((new a).after history).isFixed = Ask.looked history ∧
      ((new a).after history).value.1 = a.hexDigest (Ask.counted history) ∧
      ((new a).after history).entry.1 = ⟨a.name, a.hexDigest (Ask.counted history)⟩) ∧
    (∀ qs, ((new a).serveAll qs).1 = List.zipWith (Ask.answer a) qs.inits qs) ∧
    (∀ history later, Ask.looked history = true → .reset ∉ later →
      (new a).after (history ++ later) = (new a).after history) ∧
    (∀ pieces : List Bytes, (pieces.foldl absorb (new a)).value.1 = a.hexDigest pieces.flatten) ∧
    ∀ (t : FileTree) (p : Path),
      t.digest a p = ((t.read p).mapError ContentError.io).map a.hexDigest := by
  refine ⟨fun history => ?_, fun qs => ?_, fun history later => after_of_looked, fun pieces => ?_,
    fun t p => digest_file t a p⟩
  · rw [after_eq]
    exact ⟨isFixed_ofContent a _ _, value_ofContent a _ _, entry_ofContent a _ _⟩
  · exact serveAll_after [] qs
  · have hpieces := absorb_pieces (a := a) pieces []
    rw [absorb_nil, List.nil_append] at hpieces
    rw [hpieces, value_absorb]

/-- Two pieces, looked at twice with a piece in between that comes too late. -/
theorem answers_from_history_of_late_piece :
    let early : List Ask := [.absorb [9], .reset, .absorb [0x61], .absorb [0x62], .value]
    let late : List Ask := [.absorb [0x63], .entry]
    Ask.looked early = true ∧ .reset ∉ late ∧ Ask.counted (early ++ late) = [0x61, 0x62] ∧
      (new .sha256).after (early ++ late) = (new .sha256).after early ∧
      ((new .sha256).serveAll (early ++ late)).1 = [.done, .done, .done, .done,
        .value "FB8E20FC2E4C3F248C60C39BD652F3C1347298BB977B8B4D5903B85055620603", .done,
        .entry ⟨"SHA-256", "FB8E20FC2E4C3F248C60C39BD652F3C1347298BB977B8B4D5903B85055620603"⟩] := by
  intro early late
  have hlooked : Ask.looked early = true := by decide
  have hlate : .reset ∉ late := by decide
  refine ⟨hlooked, hlate, by decide, (answers_from_history .sha256).2.2.1 early late hlooked hlate, ?_⟩
  rw [(answers_from_history .sha256).2.1]
  decide +kernel

end Digester

end FileRelay.Digest
