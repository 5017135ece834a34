import FileRelay.Part.Label
import FileRelay.Proofs.Calendar.Date
import FileRelay.Proofs.Digest.Entry
import FileRelay.Proofs.Text.Decimal
import FileRelay.Proofs.Text.Octets
import FileRelay.Record.FileRecord

/-!
# Proofs/Record/Naming — names that are put together and can be taken apart

A separator tells where a name ends if it does not occur before its place, or not behind it
(`append_cons_inj`, `append_cons_inj_end`).  So the identifier of a part says which part of which file
it is (`partId_inj`), and a subject says whose it is (`partSubject_inj`) since the identifiers of files
are rows of hexadecimal digits.

What describes a file ends with two numbers of a fixed width, and before them a null octet behind the
content type needs no telling apart.  So it says all that it is made of, save where the name ends when
there is a null character in it (`FileRecord.descriptor_unambiguous`).
-/

namespace FileRelay

/-! ## Separators -/

section

variable {α : Type} {a : α} {s t u v : List α}

/-- **What comes before a separator** that does not occur in it is told from what follows. -/
theorem append_cons_inj (hs : a ∉ s) (ht : a ∉ t) :
    s ++ a :: u = t ++ a :: v ↔ s = t ∧ u = v := by
  refine ⟨fun h => ?_, fun ⟨hst, huv⟩ => hst ▸ huv ▸ rfl⟩
  induction s generalizing t with
  | nil =>
    cases t with
    | nil => exact ⟨rfl, (List.cons.inj h).2⟩
    | cons c t => exact absurd ((List.cons.inj h).1 ▸ List.mem_cons_self) ht
  | cons b s ih =>
    cases t with
    | nil => exact absurd ((List.cons.inj h).1 ▸ List.mem_cons_self) hs
    | cons c t =>
      obtain ⟨rfl, hrest⟩ := List.cons.inj h
      rw [List.mem_cons, not_or] at hs ht
      obtain ⟨rfl, huv⟩ := ih hs.2 ht.2 hrest
      exact ⟨rfl, huv⟩

/-- **What follows a separator** that does not occur in it is told from what comes before. -/
theorem append_cons_inj_end (hu : a ∉ u) (hv : a ∉ v) :
    s ++ a :: u = t ++ a :: v ↔ s = t ∧ u = v := by
  rw [← List.reverse_inj, List.reverse_append, List.reverse_append, List.reverse_cons,
    List.reverse_cons, List.append_assoc, List.append_assoc, List.singleton_append,
    List.singleton_append, append_cons_inj (mt List.mem_reverse.1 hu) (mt List.mem_reverse.1 hv),
    List.reverse_inj, List.reverse_inj, and_comm]

end

/-! ## Digits -/

namespace Bytes

/-- The lower-case hexadecimal digits. -/
def hexLetters : List Char := "0123456789abcdef".toList

/-- **A number is read back** from its octets, if they are enough. -/
theorem ofBigEndian_bigEndian {width n : Nat} (h : n < 256 ^ width) :
    ofBigEndian (bigEndian width n) = n := by
  induction width generalizing n with
  | zero => exact (Nat.lt_one_iff.1 h).symm
  | succ width ih =>
    have hrest : n / 256 < 256 ^ width :=
      Nat.div_lt_of_lt_mul (by rwa [Nat.mul_comm, ← Nat.pow_succ])
    have hread := ih hrest
    rw [ofBigEndian] at hread ⊢
    rw [bigEndian, List.foldl_append, hread, List.foldl_cons, List.foldl_nil, UInt8.toNat_ofNat']
    omega

theorem bigEndian_inj {width m n : Nat} (hm : m < 256 ^ width) (hn : n < 256 ^ width) :
    bigEndian width m = bigEndian width n ↔ m = n := by
  refine ⟨fun h => ?_, fun h => h ▸ rfl⟩
  rw [← ofBigEndian_bigEndian hm, h, ofBigEndian_bigEndian hn]

end Bytes

/-! ## Parts and subjects -/

/-- **The identifier of a part says which part it is**, whatever the identifier of its file. -/
theorem partId_inj {f g : String} {m n : UInt64} : partId f m = partId g n ↔ f = g ∧ m = n := by
  have hdash : ∀ n : UInt64, '-' ∉ Text.Decimal.digits n.toNat := fun n h =>
    absurd (Text.Decimal.isDigit_of_mem_digits h) (by decide)
  have hparts : ∀ (f : String) (n : UInt64),
      (partId f n).toList = f.toList ++ '-' :: Text.Decimal.digits n.toNat := fun f n => by
    simp [partId, Text.Decimal.ofWord, Text.Decimal.text]
  rw [← String.toList_inj, hparts, hparts, append_cons_inj_end (hdash m) (hdash n),
    String.toList_inj]
  exact and_congr_right fun _ =>
    ⟨fun h => UInt64.toNat_inj.1 (Text.Decimal.digits_injective h), fun h => h ▸ rfl⟩

/-- **A subject says whose it is**, if there is no dot in the identifiers of files. -/
theorem partSubject_inj {p q f g : String} (hf : '.' ∉ f.toList) (hg : '.' ∉ g.toList) :
    partSubject p f = partSubject q g ↔ p = q ∧ f = g := by
  have hparts : ∀ p f : String, (partSubject p f).toList = p.toList ++ '.' :: f.toList :=
    fun p f => by simp [partSubject]
  rw [← String.toList_inj, hparts, hparts, append_cons_inj_end hf hg, String.toList_inj,
    String.toList_inj]

/-! ## Files -/

namespace Calendar.Instant

/-- **Milliseconds are rounded down**, also before 1970. -/
theorem millis_eq (t : Instant) : t.millis = (t.seconds * 1000000000 + t.nanos) / 1000000 := by
  rw [millis]
  omega

/-- The milliseconds of an instant fit a signed word. -/
theorem millis_bounds (t : Instant) :
    -0x8000000000000000 ≤ t.millis ∧ t.millis < 0x8000000000000000 := by
  obtain ⟨hfirst, hlast, hnanos, -⟩ := t.valid
  have hlow : (-9000000000000 : Int) ≤ firstSecond := by decide
  have hhigh : lastSecond ≤ 9000000000000 := by decide
  rw [nanosPerSecond] at hnanos
  rw [millis]
  omega

end Calendar.Instant

namespace FileRecord

open Calendar

variable {name name' contentType contentType' : String} {length length' : UInt64}
  {date date' : Instant}

/-- **The identifier of a file is 24 lower-case hexadecimal digits.** -/
theorem deriveId_digits (name contentType : String) (length : UInt64) (date : Instant) :
    (deriveId name contentType length date).toList.length = 24 ∧
      ∀ c ∈ (deriveId name contentType length date).toList, c ∈ Bytes.hexLetters := by
  rw [deriveId, Bytes.hexLower, String.toList_ofList, Bytes.length_hexDigits, List.length_take,
    Digest.Algorithm.length_digest]
  exact ⟨rfl, Digest.forall_hexDigits (by decide)⟩

/-- There is no dot in the identifier of a file. -/
theorem dot_notMem_deriveId (name contentType : String) (length : UInt64) (date : Instant) :
    '.' ∉ (deriveId name contentType length date).toList := fun h =>
  absurd ((deriveId_digits name contentType length date).2 _ h) (by decide)

/-- A name and a content type with a null octet between them are a text. -/
theorem ofText_null (name contentType : String) :
    Bytes.ofText name ++ 0 :: Bytes.ofText contentType
      = Bytes.ofText (name ++ "\u0000" ++ contentType) := by
  have hnull : Bytes.ofText "\u0000" = [0] := by decide
  rw [Bytes.ofText_append, Bytes.ofText_append, hnull, List.append_assoc, List.singleton_append]

/-- **What two descriptions of files say alike** if they are the same. -/
theorem descriptor_inj :
    descriptor name contentType length date = descriptor name' contentType' length' date' ↔
      length = length' ∧ date.millis = date'.millis ∧
        name ++ "\u0000" ++ contentType = name' ++ "\u0000" ++ contentType' := by
  have hparts : ∀ (n c : String) (l : UInt64) (d : Instant), descriptor n c l d
      = Bytes.ofText (n ++ "\u0000" ++ c) ++ (0 :: (Bytes.bigEndian 8 l.toNat ++
          Bytes.bigEndian 8 (d.millis % Word.limit).toNat)) := fun n c l d => by
    rw [← ofText_null, List.append_assoc, List.cons_append, descriptor]
  have hlength : ∀ l : UInt64, l.toNat < 256 ^ 8 := fun l => Word.toNat_lt_limit l
  have hmillis : ∀ d : Instant, (d.millis % Word.limit).toNat < 256 ^ 8 := fun d => by
    rw [Word.limit]
    omega
  have hdates : (date.millis % Word.limit).toNat = (date'.millis % Word.limit).toNat ↔
      date.millis = date'.millis := by
    have hbounds := date.millis_bounds
    have hbounds' := date'.millis_bounds
    rw [Word.limit]
    omega
  rw [hparts, hparts]
  constructor
  · intro h
    obtain ⟨htexts, hnumbers⟩ := List.append_inj' h (by simp)
    obtain ⟨hl, hd⟩ := List.append_inj (List.cons.inj hnumbers).2 (by simp)
    refine ⟨?_, hdates.1 ((Bytes.bigEndian_inj (hmillis _) (hmillis _)).1 hd),
      Bytes.ofText_inj htexts⟩
    exact UInt64.toNat_inj.1 ((Bytes.bigEndian_inj (hlength _) (hlength _)).1 hl)
  · rintro ⟨rfl, hd, htexts⟩
    rw [htexts, hd]

/-- **A name without a null character** is told from the content type. -/
theorem text_null_inj (hname : '\u0000' ∉ name.toList) (hname' : '\u0000' ∉ name'.toList) :
    name ++ "\u0000" ++ contentType = name' ++ "\u0000" ++ contentType' ↔
      name = name' ∧ contentType = contentType' := by
  have hparts : ∀ n c : String, (n ++ "\u0000" ++ c).toList = n.toList ++ '\u0000' :: c.toList :=
    fun n c => by simp
  rw [← String.toList_inj, hparts, hparts, append_cons_inj hname hname', String.toList_inj,
    String.toList_inj]

/-- **What the record of a new file says.** -/
theorem new_ok {partSize : UInt64} {r : FileRecord}
    (h : new name contentType length partSize date = .ok r) :
    r.id = deriveId name contentType length date ∧ r.length = length ∧ r.partSize = partSize ∧
      layout length partSize = .ok (r.parts, r.lastPartSize) := by
  rcases hl : layout length partSize with why | l
  all_goals rw [new, hl] at h
  · cases h
  · obtain rfl := (Except.ok.inj h).symm
    exact ⟨rfl, rfl, rfl, rfl⟩

/-- **What describes a file is not ambiguous.**  Two descriptions are the same octets exactly if the
lengths, the dates to the millisecond, and the names with the content types behind a null character
are the same; so a name in which there is none is told from the content type.  Milliseconds are
rounded down.  The identifier writes the first octets of the digest of these octets, in 24 lower-case
hexadecimal digits, and a record keeps it whatever its part size, its description in words and its
digest. -/
theorem descriptor_unambiguous :
    (∀ (name name' contentType contentType' : String) (length length' : UInt64)
        (date date' : Instant),
      (descriptor name contentType length date = descriptor name' contentType' length' date' ↔
        length = length' ∧ date.millis = date'.millis ∧
          name ++ "\u0000" ++ contentType = name' ++ "\u0000" ++ contentType') ∧
      ('\u0000' ∉ name.toList → '\u0000' ∉ name'.toList →
        (descriptor name contentType length date = descriptor name' contentType' length' date' ↔
          name = name' ∧ contentType = contentType' ∧ length = length' ∧
            date.millis = date'.millis))) ∧
    (∀ t : Instant, t.millis = (t.seconds * 1000000000 + t.nanos) / 1000000) ∧
    ∀ (name contentType : String) (length : UInt64) (date : Instant),
      deriveId name contentType length date = Bytes.hexLower
        ((Digest.Algorithm.sha256.digest (descriptor name contentType length date)).take idOctets) ∧
      (deriveId name contentType length date).toList.length = 24 ∧
      (∀ c ∈ (deriveId name contentType length date).toList, c ∈ "0123456789abcdef".toList) ∧
      ∀ (partSize : UInt64) (r : FileRecord),
        new name contentType length partSize date = .ok r →
        ∀ (description : String) (digest : Digest.Entry),
          ({ r with description }.withDigest digest).id = deriveId name contentType length date := by
  refine ⟨fun name name' contentType contentType' length length' date date' =>
      ⟨descriptor_inj, fun hname hname' => ?_⟩, Instant.millis_eq,
    fun name contentType length date => ⟨rfl, (deriveId_digits ..).1, (deriveId_digits ..).2,
      fun partSize r hnew description digest => (new_ok hnew).1⟩⟩
  rw [descriptor_inj, text_null_inj hname hname']
  constructor
  · rintro ⟨hlength, hdate, hn, hc⟩
    exact ⟨hn, hc, hlength, hdate⟩
  · rintro ⟨hn, hc, hlength, hdate⟩
    exact ⟨hlength, hdate, hn, hc⟩

/-- Where one name ends later and one content type begins later, at a moment before 1970; and the
record of one of the two files in parts of ten octets. -/
theorem descriptor_unambiguous_of_letters : ∃ (eve : Instant) (r : FileRecord),
    eve.seconds = -1 ∧ eve.nanos = 999999999 ∧ eve.millis = -1 ∧
      '\u0000' ∉ "ab".toList ∧ '\u0000' ∉ "a".toList ∧
      descriptor "ab" "c" 25 eve ≠ descriptor "a" "bc" 25 eve ∧
      new "ab" "c" 25 10 eve = .ok r ∧
      ({ r with description := "x" }.withDigest ⟨"SHA-256", "00"⟩).id = Bytes.hexLower
        ((Digest.Algorithm.sha256.digest (descriptor "ab" "c" 25 eve)).take 12) := by
  obtain ⟨hfiles, hmillis, hids⟩ := descriptor_unambiguous
  let eve : Instant := ⟨-1, 999999999, by decide⟩
  have hab : '\u0000' ∉ "ab".toList := by decide
  have ha : '\u0000' ∉ "a".toList := by decide
  obtain ⟨r, hr⟩ : ∃ r, new "ab" "c" 25 10 eve = .ok r := ⟨_, rfl⟩
  obtain ⟨hhash, -, -, hkeeps⟩ := hids "ab" "c" 25 eve
  refine ⟨eve, r, rfl, rfl, ?_, hab, ha, fun h => ?_, hr, (hkeeps _ r hr _ _).trans hhash⟩
  · rw [hmillis]
    decide
  · exact absurd (((hfiles ..).2 hab ha).1 h).1 (by decide)

end FileRecord

end FileRelay
