import FileRelay.Proofs.Transfer.AllOrNothing

/-!
# Proofs/Transfer/ReadingBack — what an upload sends is read back exactly within its limit

A codec of any level undoes any other, and the limit on what it makes is neither an octet too strict
nor an octet too lax.  So the payload of each part that an upload sends is read back where the length
of that part is expected, and nothing comes of it where less is expected
(`read_back_within_limit`).
-/

namespace FileRelay

/-- The codec of a configuration has its encoding. -/
theorem Config.encoding_codec (config : Config) :
    config.codec.map Codec.encoding = config.compression := by
  rw [Config.codec, Option.map_map]
  exact congrFun Option.map_id_fun' _

/-- **A message that is read back**: its label says how long its content is, and its payload gives
that content exactly where so much is expected. -/
def Accepted.ReadsBack (a : Accepted) (encoding : Option Encoding) (label : Label) : Prop :=
  Label.ofHeaders a.message.headers = .ok label ∧ label.length.toNat = a.content.length ∧
    (∀ most, decodePayload label.encoding most a.message.payload
      = readBack encoding most a.content) ∧
    decodePayload label.encoding label.length.toNat a.message.payload = .ok a.content

namespace Upload

variable {config : Config} {path : Path} {options : UploadOptions} {x x' : Exchange} {u₀ : Upload}
  {start : Nat} {l : Log} {as : List Accepted} {a : Accepted} {result : Except Failure UploadReport}

/-- **Each message that an upload leaves** is read back. -/
theorem Leaves.readsBack (h : u₀.Leaves start l as) (hb : u₀.Begun config) (ha : a ∈ as) :
    ∃ label, a.ReadsBack config.compression label := by
  obtain ⟨i, hi⟩ := List.getElem?_of_mem ha
  obtain ⟨c, rfl, hmessage, hread, htells⟩ := h.told hb hi
  refine ⟨_, hread, htells.length, fun most => ?_, htells.content⟩
  have hpayload : a.message.payload = (u₀.partOf _).2 := congrArg Published.payload hmessage
  rw [hpayload, decodePayload_partOf_eq, hb.codec, config.encoding_codec]

namespace Attempts

/-- **What is encoded is read back exactly within the limit**, at whatever levels; and so is each part
that an upload sends, for whoever expects a part of the length that its label and the record say. -/
theorem read_back_within_limit (encoding : Encoding) (level level' : Int) (data : Bytes)
    (config : Config) (path : Path) (options : UploadOptions) (x : Exchange) :
    (1 ≤ (Codec.new encoding level).level ∧ (Codec.new encoding level).level ≤ 22 ∧
      (1 ≤ level ∧ level ≤ 22 → ((Codec.new encoding level).level : Int) = level)) ∧
    (∀ most, (Codec.new encoding level').decode most ((Codec.new encoding level).encode data)
      = if data.length ≤ most then .ok data else .error (.undecodable encoding)) ∧
    ∀ as result x', Attempts config path options x as result x' → ∀ a ∈ as, ∃ label,
      a.ReadsBack config.compression label ∧
      ∀ report, result = .ok report →
        report.record.partLength? label.number = some label.length := by
  refine ⟨Codec.level_new encoding level, fun most => ?_, fun as result x' h a ha => ?_⟩
  · exact Codec.decode_encode _ _ most data
  obtain ⟨rfl, -⟩ | ⟨p, u₀, start, -, -, hb, hleaves, hwhole⟩ := h.leaves
  · exact absurd ha List.not_mem_nil
  obtain ⟨label, hback⟩ := hleaves.readsBack hb ha
  refine ⟨label, hback, fun report he => ?_⟩
  obtain ⟨hlength, hparts, hsame⟩ := hwhole report he
  obtain ⟨label', hread, -, hpart⟩ := hleaves.fits hb hlength hparts ha
  obtain rfl := Except.ok.inj (hread.symm.trans hback.1)
  rw [hsame, hpart]

/-- A file of one octet, sent in a part that is encoded at the highest level. -/
theorem read_back_within_limit_of_one : ∃ (x x' : Exchange) (as : List Accepted) (config : Config)
    (report : UploadReport), Attempts config [0x61] ⟨none, none, none⟩ x as (.ok report) x' ∧
      as ≠ [] ∧ config.codec = some (.new .zstd 99) ∧ (Codec.new .zstd 99).level = 22 ∧
      Codec.usual.decode 1 ((Codec.new .zstd 99).encode [7]) = .ok [7] ∧
      Codec.usual.decode 0 ((Codec.new .zstd 99).encode [7]) = .error (.undecodable .zstd) ∧
      ∀ a ∈ as, ∃ label, a.ReadsBack (some .zstd) label := by
  let config : Config := { Config.usual with compression := some .zstd, compressionLevel := 99 }
  let files : FileTree := ⟨[([[0x61]], .file [7] .epoch)], none⟩
  have hrun : (run config [0x61] ⟨none, none, none⟩ (.new default files)).1.result.toOption.isSome
      = true := by decide +kernel
  obtain ⟨as, report, x', h, hne⟩ := exists_of_run hrun
  obtain ⟨-, hdecode, hsent⟩ := read_back_within_limit .zstd 99 Codec.usualLevel [7] config [0x61]
    ⟨none, none, none⟩ (.new default files)
  refine ⟨_, _, as, config, report, h, hne, rfl, rfl, hdecode 1, hdecode 0, fun a ha => ?_⟩
  obtain ⟨label, hback, -⟩ := hsent as _ _ h a ha
  exact ⟨label, hback⟩

end Attempts

end Upload

end FileRelay
