import FileRelay.Zstd.PrefixTree

/-!
# Zstd/Literals — the literals of a compressed block

A compressed block begins with its **literals**: octets that stand for themselves, one octet that is
repeated, or octets coded with a prefix tree, which is described in front of them or is the tree of
an earlier block.  Coded literals come in one section or in four of equal length.
-/

namespace FileRelay.Zstd

/-- The **literals** of a block, what follows them, and the tree that later blocks may use. -/
structure Literals where
  octets : Bytes
  rest : Bytes
  tree : Option PrefixTree
  /-- Do the literals stand for themselves, with enough octets behind them to be used in place? -/
  inPlace : Bool

namespace Literals

/-- The octets behind literals that are used in place. -/
def spare : Nat := 32

/-- The fewest coded literals that may come in four sections. -/
def fewestInFour : Nat := 6

/-- The size of literals that are not coded, and the octets of their header; the form of the header
is in two bits of its first octet. -/
def plainSize (form : Nat) (s : Bytes) : Nat × Nat :=
  if form = 1 then (Bytes.ofLittleEndian (s.take 2) / 16, 2)
  else if form = 3 then (Bytes.ofLittleEndian (s.take 3) / 16, 3)
  else (Bytes.ofLittleEndian (s.take 1) / 8, 1)

/-- The size of coded literals, the size of their code, and the octets of their header. -/
def codedSize (form : Nat) (s : Bytes) : Nat × Nat × Nat :=
  let n := Bytes.ofLittleEndian (s.take 5)
  if form = 2 then (n >>> 4 % 0x4000, n >>> 18 % 0x4000, 4)
  else if form = 3 then (n >>> 4 % 0x40000, n >>> 22, 5)
  else (n >>> 4 % 0x400, n >>> 14 % 0x400, 3)

/-- Literals in four sections, after the lengths of the first three. -/
def four? (t : PrefixTree) (n : Nat) (s : Bytes) : Option Bytes :=
  let len := fun i => Bytes.ofLittleEndian ((s.drop (2 * i)).take 2)
  let body := s.drop 6
  if s.length < 10 ∨ body.length < len 0 + len 1 + len 2 then none
  else
    let quarter := (n + 3) / 4
    (t.decode? quarter (body.take (len 0))).bind fun a =>
      (t.decode? quarter ((body.drop (len 0)).take (len 1))).bind fun b =>
        (t.decode? quarter ((body.drop (len 0 + len 1)).take (len 2))).bind fun c =>
          (t.decode? (n - 3 * quarter) (body.drop (len 0 + len 1 + len 2))).map fun d =>
            a ++ b ++ c ++ d

/-- Coded literals, of which the code alone is given. -/
def decode? (t : PrefixTree) (single : Bool) (n : Nat) (s : Bytes) : Option Bytes :=
  if single then t.decode? n s else four? t n s

/-- Literals that stand for themselves. -/
def plain? (most form : Nat) (tree : Option PrefixTree) (s : Bytes) : Option Literals :=
  let p := plainSize form s
  if s.length < p.2 ∨ most < p.1 ∨ s.length < p.2 + p.1 then none
  else some ⟨(s.drop p.2).take p.1, s.drop (p.2 + p.1), tree, p.2 + p.1 + spare ≤ s.length⟩

/-- One literal repeated. -/
def repeated? (most form : Nat) (tree : Option PrefixTree) (s : Bytes) : Option Literals :=
  let p := plainSize form s
  match s.drop p.2 with
  | [] => none
  | b :: rest => if most < p.1 then none else some ⟨List.replicate p.1 b, rest, tree, false⟩

/-- Coded literals; the tree is that of an earlier block if one is given. -/
def coded? (most form : Nat) (tree : Option PrefixTree) (s : Bytes) : Option Literals :=
  let p := codedSize form s
  let single := form = 0
  let code := (s.drop p.2.2).take p.2.1
  if s.length < 5 ∨ most < p.1 ∨ s.length < p.2.2 + p.2.1 ∨ (¬ single ∧ p.1 < fewestInFour) then
    none
  else
    (match tree with
      | some t => some (t, 0)
      | none => PrefixTree.read? code).bind fun t =>
      if tree.isNone ∧ code.length ≤ t.2 then none
      else (decode? t.1 single p.1 (code.drop t.2)).map fun octets =>
        ⟨octets, s.drop (p.2.2 + p.2.1), some t.1, false⟩

/-- **The literals that a block begins with**, at most `most` of them, when an earlier block may
have left a tree. -/
def read? (most : Nat) (tree : Option PrefixTree) (s : Bytes) : Option Literals :=
  match s with
  | [] | [_] => none
  | h :: _ =>
    let kind := h.toNat % 4
    let form := h.toNat / 4 % 4
    if kind = 0 then plain? most form tree s
    else if kind = 1 then repeated? most form tree s
    else if kind = 2 then coded? most form none s
    else match tree with
      | none => none
      | some t => coded? most form (some t) s

end Literals

end FileRelay.Zstd
