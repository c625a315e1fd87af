/-!
# Compressed data

Data in the deflate format is a sequence of blocks, read bit by bit from the low
end of each byte. A block is stored as it is or coded by two prefix codes, one
for bytes and lengths of repetitions, one for distances. A prefix code is given
by the lengths of its words alone: words of one length are consecutive numbers
in the order of their symbols, and shorter words come before longer ones.

Every block, code word and length takes up at least one bit, so the number of
bits bounds all loops.
-/

namespace JvmReach.Files.Deflate

/-- Reads from compressed bytes; the state is the number of bits read. -/
abbrev BitReader (α : Type) := ReaderT (Array UInt8) (StateT Nat Option) α

def bit : BitReader Nat := fun bytes position =>
  match bytes[position / 8]? with
  | none => none
  | some b => some ((b.toNat >>> (position % 8)) % 2, position + 1)

/-- A number, its low bits first. -/
def bits : Nat → BitReader Nat
  | 0 => return 0
  | count + 1 => do
      let low ← bit
      let high ← bits count
      return low + 2 * high

def alignToByte : BitReader Unit := fun _ position => some ((), (position + 7) / 8 * 8)

/-- A prefix code: how many words there are of each length from one on, and the
symbols in the order of their words. -/
structure PrefixCode where
  counts : List Nat
  symbols : Array Nat

namespace PrefixCode

def maxLength : Nat := 15

/-- The code whose symbols have words of the given lengths; zero stands for no word. -/
def ofLengths (lengths : List Nat) : PrefixCode :=
  let lengthsToUse := (List.range maxLength).map (· + 1)
  { counts := lengthsToUse.map lengths.count
    symbols := (lengthsToUse.flatMap fun length =>
      lengths.zipIdx.filterMap fun (l, symbol) => if l = length then some symbol else none).toArray }

/-- Reads a word bit by bit. `first` is the first word of the current length and
`skipped` the number of shorter words. -/
def decodeFrom (symbols : Array Nat) : List Nat → Nat → Nat → Nat → BitReader Nat
  | [], _, _, _ => fun _ _ => none
  | count :: rest, word, first, skipped => do
      let word := word + (← bit)
      if word < first + count then
        fun _ position => (symbols[skipped + (word - first)]?).map (·, position)
      else decodeFrom symbols rest (2 * word) (2 * (first + count)) (skipped + count)

def decode (c : PrefixCode) : BitReader Nat := decodeFrom c.symbols c.counts 0 0 0

end PrefixCode

/-- The base value and the number of additional bits of each length symbol. -/
def lengthSteps : Array (Nat × Nat) :=
  #[(3, 0), (4, 0), (5, 0), (6, 0), (7, 0), (8, 0), (9, 0), (10, 0), (11, 1), (13, 1), (15, 1),
    (17, 1), (19, 2), (23, 2), (27, 2), (31, 2), (35, 3), (43, 3), (51, 3), (59, 3), (67, 4),
    (83, 4), (99, 4), (115, 4), (131, 5), (163, 5), (195, 5), (227, 5), (258, 0)]

def distanceSteps : Array (Nat × Nat) :=
  #[(1, 0), (2, 0), (3, 0), (4, 0), (5, 1), (7, 1), (9, 2), (13, 2), (17, 3), (25, 3), (33, 4),
    (49, 4), (65, 5), (97, 5), (129, 6), (193, 6), (257, 7), (385, 7), (513, 8), (769, 8),
    (1025, 9), (1537, 9), (2049, 10), (3073, 10), (4097, 11), (6145, 11), (8193, 12),
    (12289, 12), (16385, 13), (24577, 13)]

def stepped (steps : Array (Nat × Nat)) (symbol : Nat) : BitReader Nat :=
  match steps[symbol]? with
  | none => fun _ _ => none
  | some (base, additional) => do return base + (← bits additional)

/-- Repeats what was written `distance` bytes ago, byte by byte. -/
def copy (distance : Nat) : Nat → Array UInt8 → Option (Array UInt8)
  | 0, out => some out
  | count + 1, out =>
      if distance ≤ out.size then do
        let b ← out[out.size - distance]?
        copy distance count (out.push b)
      else none

def endOfBlock : Nat := 256

def coded (literals distances : PrefixCode) : Nat → Array UInt8 → BitReader (Array UInt8)
  | 0, _ => fun _ _ => none
  | bound + 1, out => do
      let symbol ← literals.decode
      if symbol < endOfBlock then coded literals distances bound (out.push symbol.toUInt8)
      else if symbol = endOfBlock then return out
      else
        let length ← stepped lengthSteps (symbol - (endOfBlock + 1))
        let distance ← stepped distanceSteps (← distances.decode)
        let out ← fun _ position => (copy distance length out).map (·, position)
        coded literals distances bound out

def stored (out : Array UInt8) : BitReader (Array UInt8) := do
  alignToByte
  let size ← bits 16
  let complement ← bits 16
  fun bytes position =>
    let start := position / 8
    if size + complement = 0xffff ∧ start + size ≤ bytes.size then
      some (out ++ bytes.extract start (start + size), position + 8 * size)
    else none

def fixedLiterals : PrefixCode :=
  .ofLengths (List.replicate 144 8 ++ List.replicate 112 9 ++ List.replicate 24 7 ++
    List.replicate 8 8)

def fixedDistances : PrefixCode := .ofLengths (List.replicate 30 5)

/-- The order in which the lengths for the code of lengths are given. -/
def lengthOrder : List Nat := [16, 17, 18, 0, 8, 7, 9, 6, 10, 5, 11, 4, 12, 3, 13, 2, 14, 1, 15]

/-- So many word lengths, in reverse before the ones read now; symbols from
sixteen on repeat the last length or zero. -/
def lengths (code : PrefixCode) (total : Nat) : Nat → List Nat → BitReader (List Nat)
  | 0, _ => fun _ _ => none
  | bound + 1, found =>
      if total ≤ found.length then return (found.reverse).take total
      else do
        let symbol ← code.decode
        match symbol, found with
        | 16, [] => fun _ _ => none
        | 16, last :: _ => do
            let count ← bits 2
            lengths code total bound (List.replicate (count + 3) last ++ found)
        | 17, _ => do
            let count ← bits 3
            lengths code total bound (List.replicate (count + 3) 0 ++ found)
        | 18, _ => do
            let count ← bits 7
            lengths code total bound (List.replicate (count + 11) 0 ++ found)
        | length, _ => lengths code total bound (length :: found)

def repeated {α : Type} (item : BitReader α) : Nat → BitReader (List α)
  | 0 => return []
  | count + 1 => do
      let head ← item
      return head :: (← repeated item count)

/-- The two codes that a block brings with it. -/
def ownCodes : BitReader (PrefixCode × PrefixCode) := do
  let literalCount := (← bits 5) + 257
  let distanceCount := (← bits 5) + 1
  let given ← repeated (bits 3) ((← bits 4) + 4)
  let placed := lengthOrder.zip given
  let code := PrefixCode.ofLengths ((List.range 19).map fun symbol => (placed.lookup symbol).getD 0)
  let total := literalCount + distanceCount
  let found ← lengths code total (total + 1) []
  return (.ofLengths (found.take literalCount), .ofLengths (found.drop literalCount))

def block (bound : Nat) (out : Array UInt8) : BitReader (Array UInt8) := do
  match ← bits 2 with
  | 0 => stored out
  | 1 => coded fixedLiterals fixedDistances bound out
  | 2 => do
      let (literals, distances) ← ownCodes
      coded literals distances bound out
  | _ => fun _ _ => none

def blocks (bound : Nat) : Nat → Array UInt8 → BitReader (Array UInt8)
  | 0, _ => fun _ _ => none
  | left + 1, out => do
      let isLast ← bit
      let out ← block bound out
      if isLast = 1 then return out else blocks bound left out

/-- The data that the bytes stand for, if they are well formed. -/
def inflate? (bytes : Array UInt8) : Option (Array UInt8) :=
  let bound := 8 * bytes.size + 1
  ((blocks bound bound #[]).run bytes 0).map Prod.fst

end JvmReach.Files.Deflate
