import FileRelay.Codec
import FileRelay.Proofs.Zstd.RoundTrip

/-!
# Proofs/Codec — a content that was encoded is decoded

Whatever level a codec has, every codec of its encoding decodes what it has encoded, and the payload
of a part has the content that was encoded.  Where fewer octets are expected than the content has,
there is no content at all (`readBack`).
-/

namespace FileRelay

variable {most : Nat} {data : Bytes}

/-- **A codec has the level nearest to the one asked for.** -/
theorem Codec.level_new (encoding : Encoding) (level : Int) :
    1 ≤ (new encoding level).level ∧ (new encoding level).level ≤ highestLevel ∧
      (1 ≤ level ∧ level ≤ highestLevel → ((new encoding level).level : Int) = level) := by
  simp only [new, highestLevel]
  omega

/-- **What is read back of a content** where so many octets are expected at most: all of it or nothing,
and always all of it if it was not encoded. -/
def readBack (encoding : Option Encoding) (most : Nat) (data : Bytes) : Except ContentError Bytes :=
  match encoding with
  | none => .ok data
  | some e => if data.length ≤ most then .ok data else .error (.undecodable e)

theorem readBack_of_le (encoding : Option Encoding) (h : data.length ≤ most) :
    readBack encoding most data = .ok data := by
  cases encoding with
  | none => rfl
  | some e => exact if_pos h

/-- **What a codec encodes is decoded**, at whatever level. -/
theorem Codec.decode_encode (k k' : Codec) (most : Nat) (data : Bytes) :
    k'.decode most (k.encode data) = readBack (some k'.encoding) most data := by
  simp only [decode, encode, Zstd.decode?_encode, readBack]
  by_cases h : data.length ≤ most
  · rw [if_pos h, if_pos h]
  · rw [if_neg h, if_neg h]

/-- **An encoded payload has the content that was encoded.** -/
theorem decodePayload_encode (k : Codec) (most : Nat) (data : Bytes) :
    decodePayload (some k.encoding) most (k.encode data) = readBack (some k.encoding) most data :=
  Codec.decode_encode k (.new k.encoding Codec.usualLevel) most data

/-- An encoded payload whose first octet is turned over has no content. -/
theorem decodePayload_of_encode (k : Codec) (most : Nat) (data : Bytes) :
    ∃ b rest, k.encode data = b :: rest ∧
    ∀ content, decodePayload (some k.encoding) most ((b ^^^ 0xFF) :: rest) ≠ .ok content := by
  obtain ⟨rest, hrest⟩ := Zstd.encode_eq data
  refine ⟨0x28, rest, by simp only [Codec.encode, hrest], fun content => ?_⟩
  have hnone := Zstd.decode?_of_first most (b := 0x28 ^^^ 0xFF) (by decide) (by decide) rest
  simp only [decodePayload, Codec.decode, hnone]
  exact nofun

end FileRelay
