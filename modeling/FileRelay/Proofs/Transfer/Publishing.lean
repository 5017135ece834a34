import FileRelay.Proofs.Source.ChunkReader
import FileRelay.Proofs.Transfer.Calls
import FileRelay.Proofs.Transfer.Turns
import FileRelay.Proofs.Log.Row
import FileRelay.Transfer.Upload

/-!
# Proofs/Transfer/Publishing — all that one turn of an upload can do

A turn publishes the part that it has read, ends the upload because there is nothing more to read, or
breaks it off, mostly before anything is published (`Upload.Acts`).  As `turn_acts` says that it does
one of them, what is said of uploads elsewhere is said case by case of this list.
-/

namespace FileRelay.Upload

/-- **The chunk that a turn reads**, if any. -/
def chunk? (u : Upload) (x : Exchange) : Option Chunk :=
  if x.time.calledOff then none
  else match x.files.read u.path with
    | .error _ => none
    | .ok content => (u.reader.next content).1

/-- The message of a part. -/
def messageOf (u : Upload) (c : Chunk) : Published :=
  ⟨u.subject, (u.partOf c).1.toHeaders, (u.partOf c).2⟩

/-- **What one turn does.** -/
inductive Acts (u : Upload) (x : Exchange) : Turn Upload → Exchange → Prop
  | breaksOff {u' : Upload} {why : Failure} {x' : Exchange}
      (hm : x'.log.messages = x.log.messages) (hs : x'.store = x.store)
      (he : u'.events = u.events) : Acts u x (.broken u' why) x'
  | overflows {c : Chunk} {reader : ChunkReader} {u' : Upload} {why : Failure} {x' : Exchange}
      (hc : u.chunk? x = some c) (hr : u.reader.Advances c reader)
      (hm : x'.log.messages = x.log.messages.push (u.messageOf c)) (hs : x'.store = x.store)
      (he : u'.events = u.events) : Acts u x (.broken u' why) x'
  | ends {reader : ChunkReader} (hc : u.chunk? x = none)
      (hr : reader = u.reader ∨
        (reader = { u.reader with exhausted := true } ∧ u.reader.offset < u.reader.fileSize)) :
      Acts u x (.done { u with reader }) x
  | publishes {c : Chunk} {reader : ChunkReader} {sequence : UInt64} {x' : Exchange}
      (hc : u.chunk? x = some c) (hr : u.reader.Advances c reader)
      (hm : x'.log.messages = x.log.messages.push (u.messageOf c)) (hs : x'.store = x.store)
      (hp : sequence.toNat = x.log.messages.size + 1) :
      Acts u x (.on ({ u with reader, digester := u.digester.absorb c.data }.published c
        (u.partOf c).2.length sequence)) x'

variable {u : Upload} {x : Exchange}

/-- **A turn does one of these.** -/
theorem turn_acts (u : Upload) (x : Exchange) : Acts u x (u.turn x).1 (u.turn x).2 := by
  unfold turn
  split
  · exact .breaksOff rfl rfl rfl
  rename_i hoff
  split
  · exact .breaksOff rfl rfl rfl
  rename_i content hread
  have hchunk : u.chunk? x = (u.reader.next content).1 := by
    unfold chunk?
    rw [if_neg hoff, hread]
  rcases hnext : u.reader.next content with ⟨_ | c, reader⟩
  · exact .ends (by rw [hchunk, hnext]) (ChunkReader.next_none hnext)
  dsimp only
  unfold publish
  dsimp only
  split
  · rename_i e x' hp
    have hb := Exchange.publish_error hp
    exact .breaksOff hb.messages hb.store rfl
  rename_i n x' hp
  obtain ⟨hm, hn, hs⟩ := Exchange.publish_ok hp
  have hchunk' : u.chunk? x = some c := by rw [hchunk, hnext]
  split
  · exact .overflows hchunk' (ChunkReader.next_some hnext) hm hs rfl
  · rename_i sequence hword
    refine .publishes hchunk' (ChunkReader.next_some hnext) hm hs ?_
    rw [Word.ofNat?_eq_some_iff.1 hword, hn]

/-- A turn changes no stored value, and no message. -/
theorem Acts.grown {r : Turn Upload} {x' : Exchange} (h : Acts u x r x') :
    x.log.Grown x'.log ∧ x'.store = x.store := by
  cases h with
  | breaksOff hm hs => exact ⟨.of_messages hm, hs⟩
  | ends => exact ⟨.refl _, rfl⟩
  | overflows hc hr hm hs | publishes hc hr hm hs => exact ⟨.of_push hm, hs⟩

/-- **An upload ends**: each turn that goes on leaves less of the file. -/
theorem takeTurns_patience (u : Upload) (x : Exchange) :
    (Turn.takeTurns turn u.patience u x).1.All (fun _ => False) (fun _ => True)
      (fun _ _ => True) := by
  refine Turn.takeTurns_ends (P := fun _ _ => True) (μ := fun u _ => u.reader.remaining)
    (fun u x _ => ?_) trivial (Nat.lt_succ_self _)
  have h := u.turn_acts x
  generalize (u.turn x).1 = r at h ⊢
  generalize (u.turn x).2 = x' at h ⊢
  cases h with
  | breaksOff | overflows | ends => trivial
  | @publishes c reader sequence x' hc hr =>
    refine ⟨trivial, ?_⟩
    have hpos : 0 < c.data.length := List.length_pos_iff.2 hr.nonempty
    have hbefore := hr.before
    have hle : c.data.length ≤ u.reader.remaining :=
      Nat.le_trans hr.length_le (Nat.min_le_left _ _)
    simp only [published, tell, hr.after, ChunkReader.remaining] at hle ⊢
    omega

end FileRelay.Upload
