import UNouns.Evm.Basic

/-!
# Inflate: the decoder

`Inflate.sol`. A function that returns an error code with its value is a `Puff`: callers hand on
every code but `errNone` at once. Counters stay far below `2^256` (every one of them is bounded by
the length of an array in memory), so that the unchecked additions do not wrap.

* `bits`, `decode`     the next bits, and the next symbol of a Huffman code;
* `construct`          the decoding table of a set of lengths;
* `stored`, `codes`    the contents of a block;
* `buildDynamic`       the header of a dynamic block;
* `puff`               all blocks;
* `Machine.puff`       the whole decoder once more, on words of 256 bits.
-/

set_option linter.unusedVariables false

namespace UNouns.Inflate

def MAXBITS : Nat := 15
def MAXLCODES : Nat := 286
def MAXDCODES : Nat := 30
def MAXCODES : Nat := MAXLCODES + MAXDCODES
def FIXLCODES : Nat := 288

inductive ErrorCode where
  | errNone
  | errNotTerminated
  | errOutputExhausted
  | errInvalidBlockType
  | errStoredLengthNoMatch
  | errTooManyLengthOrDistanceCodes
  | errCodeLengthsCodesIncomplete
  | errRepeatNoFirstLength
  | errRepeatMore
  | errInvalidLiteralLengthCodeLengths
  | errInvalidDistanceCodeLengths
  | errMissingEndOfBlock
  | errInvalidLengthOrDistanceCode
  | errDistanceTooFar
  | errConstruct
  deriving DecidableEq, Repr

structure Huffman where
  counts : List Nat
  symbols : List Nat
  deriving DecidableEq, Repr

/-- `Huffman(new uint256[](MAXBITS + 1), new uint256[](n))` -/
def Huffman.new (n : Nat) : Huffman := ⟨List.replicate (MAXBITS + 1) 0, List.replicate n 0⟩

structure State where
  output : Bytes
  outcnt : Nat
  input : Bytes
  incnt : Nat
  bitbuf : Nat
  bitcnt : Nat
  lencode : Huffman
  distcode : Huffman
  deriving DecidableEq, Repr

/-! ## results -/

inductive Outcome (α : Type) where
  | ok (a : α) (s : State)
  | err (e : ErrorCode) (h : e ≠ .errNone) (s : State)
  /-- an index out of bounds -/
  | panic
  /-- the bound on the rounds of a loop is used up -/
  | running

def Puff (α : Type) : Type := State → Outcome α

def fail {α : Type} (e : ErrorCode) (h : e ≠ .errNone := by decide) : Puff α := fun s => .err e h s

def state : Puff State := fun s => .ok s s

instance : Monad Puff where
  pure a := fun s => .ok a s
  bind m f := fun s => match m s with
    | .ok a s => f a s
    | .err e h s => .err e h s
    | .panic => .panic
    | .running => .running

/-- `xs[i]` -/
def fetch {α : Type} (xs : List α) (i : Nat) : Puff α := fun s =>
  match xs[i]? with
  | none => .panic
  | some x => .ok x s

/-- `s.input[s.incnt++]` -/
def next : Puff UInt8 := do
  let s ← state
  let x ← fetch s.input s.incnt
  fun s => .ok x { s with incnt := s.incnt + 1 }

/-- `s.output[s.outcnt++] = x` -/
def put (x : UInt8) : Puff Unit := fun s =>
  if s.outcnt < s.output.length then
    .ok () { s with output := s.output.set s.outcnt x, outcnt := s.outcnt + 1 }
  else .panic

/-! ## input -/

/-- `while (s.bitcnt < need)`, at most `n` rounds -/
def load (need : Nat) : Nat → Nat → Puff Nat
  | 0, val => pure val
  | n + 1, val => do
    let s ← state
    if s.bitcnt < need then
      if s.incnt = s.input.length then fail .errNotTerminated
      else do
        let x ← next
        fun s' => load need n (val ||| x.toNat <<< s.bitcnt) { s' with bitcnt := s.bitcnt + 8 }
    else pure val

/-- a round loads eight bits, so that there are fewer than `need` rounds -/
def bits (need : Nat) : Puff Nat := do
  let s ← state
  let val ← load need need s.bitbuf
  fun s => .ok (val &&& ((1 <<< need) - 1)) { s with bitbuf := val >>> need, bitcnt := s.bitcnt - need }

/-- one of the steps that stand five to a round in the source, then those that follow it -/
def decodeFrom (h : Huffman) : List Nat → Nat → Nat → Nat → Puff Nat
  | [], _, _, _ => fail .errInvalidLengthOrDistanceCode
  | len :: lens, code, first, index => do
    let tempCode ← bits 1
    let code := code ||| tempCode
    let count ← fetch h.counts len
    if code < first + count then fetch h.symbols (index + (code - first))
    else decodeFrom h lens (code <<< 1) ((first + count) <<< 1) (index + count)

/-- `for (len = 1; len <= MAXBITS; len += 5)`, unrolled -/
def lensByFive : List Nat := [1, 6, 11].flatMap fun len => [len, len + 1, len + 2, len + 3, len + 4]

def decode (h : Huffman) : Puff Nat := decodeFrom h lensByFive 0 0 0

/-! ## tables -/

/-- `++h.counts[...]` for the lengths `ls` -/
def countAll : List Nat → List Nat → Option (List Nat)
  | [], counts => some counts
  | l :: ls, counts => do
    let count ← counts[l]?
    countAll ls (counts.set l (count + 1))

/-- the possible codes left, none where the set is over-subscribed -/
def leftOver (counts : List Nat) : List Nat → Nat → Option Nat
  | [], left => some left
  | len :: lens, left =>
    if left <<< 1 < counts.getD len 0 then none
    else leftOver counts lens (left <<< 1 - counts.getD len 0)

/-- `offs[len + 1] = offs[len] + h.counts[len]` -/
def offsets (counts : List Nat) : List Nat :=
  (List.range' 1 (MAXBITS - 1)).foldl
    (fun offs len => offs.set (len + 1) (offs.getD len 0 + counts.getD len 0))
    (List.replicate (MAXBITS + 1) 0)

/-- `h.symbols[offs[l]++] = symbol` for the lengths `ls` of `symbol` and those after it -/
def place : List Nat → Nat → List Nat → List Nat → Option (List Nat)
  | [], _, offs, symbols => some symbols
  | l :: ls, symbol, offs, symbols =>
    if l ≠ 0 then do
      let off ← offs[l]?
      if off < symbols.length then place ls (symbol + 1) (offs.set l (off + 1)) (symbols.set off symbol)
      else none
    else place ls (symbol + 1) offs symbols

/-- `lengths[start]` to `lengths[start + n - 1]`, as both loops over the symbols read them -/
def slice (lengths : List Nat) (n start : Nat) : Option (List Nat) :=
  if start + n ≤ lengths.length then some ((lengths.drop start).take n) else none

/-- the error code and the table `h` afterwards; `none` is an index out of bounds -/
def construct (h : Huffman) (lengths : List Nat) (n start : Nat) : Option (ErrorCode × Huffman) := do
  let ls ← slice lengths n start
  let counts ← countAll ls (List.replicate (MAXBITS + 1) 0)
  if counts.getD 0 0 = n then
    -- complete, but decode() will fail
    some (.errNone, { h with counts := counts })
  else match leftOver counts lensByFive 1 with
    | none => some (.errConstruct, { h with counts := counts })
    | some left => do
      let symbols ← place ls 0 (offsets counts) h.symbols
      some (if left > 0 then .errConstruct else .errNone, ⟨counts, symbols⟩)

def constructed (h : Huffman) (lengths : List Nat) (n start : Nat) : Puff (ErrorCode × Huffman) :=
  fun s => match construct h lengths n start with
  | none => .panic
  | some r => .ok r s

/-! ## stored blocks -/

/-- `while (len != 0)`, from the input -/
def copyInput : Nat → Puff Unit
  | 0 => pure ()
  | len + 1 => do
    let x ← next
    put x
    copyInput len

/-- `~len` of 256 bits -/
def complement (len : Nat) : Nat := 2 ^ 256 - 1 - len

def stored : Puff Unit := do
  fun s => .ok () { s with bitbuf := 0, bitcnt := 0 }
  let s ← state
  if s.incnt + 4 > s.input.length then fail .errNotTerminated
  else do
    let lo ← next
    let hi ← next
    let len := lo.toNat ||| hi.toNat <<< 8
    let x ← next
    if x.toNat ≠ complement len &&& 0xFF then fail .errStoredLengthNoMatch
    else do
      let x ← next
      if x.toNat ≠ (complement len >>> 8) &&& 0xFF then fail .errStoredLengthNoMatch
      else do
        let s ← state
        if s.incnt + len > s.input.length then fail .errNotTerminated
        else if s.outcnt + len > s.output.length then fail .errOutputExhausted
        else copyInput len

/-! ## literals and copies -/

def lens : List Nat :=
  [3, 4, 5, 6, 7, 8, 9, 10, 11, 13, 15, 17, 19, 23, 27, 31, 35, 43, 51, 59, 67, 83, 99, 115, 131,
   163, 195, 227, 258]

def lext : List Nat :=
  [0, 0, 0, 0, 0, 0, 0, 0, 1, 1, 1, 1, 2, 2, 2, 2, 3, 3, 3, 3, 4, 4, 4, 4, 5, 5, 5, 5, 0]

def dists : List Nat :=
  [1, 2, 3, 4, 5, 7, 9, 13, 17, 25, 33, 49, 65, 97, 129, 193, 257, 385, 513, 769, 1025, 1537, 2049,
   3073, 4097, 6145, 8193, 12289, 16385, 24577]

def dext : List Nat :=
  [0, 0, 0, 0, 1, 1, 2, 2, 3, 3, 4, 4, 5, 5, 6, 6, 7, 7, 8, 8, 9, 9, 10, 10, 11, 11, 12, 12, 13, 13]

/-- `while (len != 0)`, from the output -/
def copyOutput (dist : Nat) : Nat → Puff Unit
  | 0 => pure ()
  | len + 1 => do
    let s ← state
    let x ← fetch s.output (s.outcnt - dist)
    put x
    copyOutput dist len

def literal (symbol : Nat) : Puff Unit := do
  let s ← state
  if s.outcnt = s.output.length then fail .errOutputExhausted
  else put (UInt8.ofNat symbol)

/-- the branch `symbol > 256`, after `symbol -= 257` -/
def copy (distcode : Huffman) (symbol : Nat) : Puff Unit := do
  if symbol ≥ 29 then fail .errInvalidLengthOrDistanceCode
  else do
    let extra ← fetch lext symbol
    let tempBits ← bits extra
    let base ← fetch lens symbol
    let len := base + tempBits
    let symbol ← decode distcode
    let extra ← fetch dext symbol
    let tempBits ← bits extra
    let base ← fetch dists symbol
    let dist := base + tempBits
    let s ← state
    if dist > s.outcnt then fail .errDistanceTooFar
    else if s.outcnt + len > s.output.length then fail .errOutputExhausted
    else copyOutput dist len

/-- `while (symbol != 256)`, at most so many rounds, with the variable `len`; a copy leaves it zero -/
def codesFrom (lencode distcode : Huffman) : Nat → Nat → Puff Unit
  | 0, _ => fun s => .running
  | n + 1, len => do
    let symbol ← decode lencode
    if symbol < 256 then do
      literal symbol
      codesFrom lencode distcode n len
    else if symbol > 256 then do
      copy distcode (symbol - 257)
      codesFrom lencode distcode n 0
    else fun s => .ok () { s with outcnt := s.outcnt + len }

/-- each round reads a bit -/
def rounds (s : State) : Nat := 8 * s.input.length + 1

def codes (lencode distcode : Huffman) : Puff Unit := do
  let s ← state
  codesFrom lencode distcode (rounds s) 0

/-! ## fixed blocks -/

/-- `for (; symbol < stop; ++symbol) lengths[symbol] = value;` -/
def fill (lengths : List Nat) (symbol stop value : Nat) : List Nat :=
  (List.range' symbol (stop - symbol)).foldl (fun lengths s => lengths.set s value) lengths

def fixedLencodeLengths : List Nat :=
  fill (fill (fill (fill (List.replicate FIXLCODES 0) 0 144 8) 144 256 9) 256 280 7) 280 FIXLCODES 8

def fixedDistcodeLengths : List Nat := fill fixedLencodeLengths 0 MAXDCODES 5

/-- both tables, of the array `lengths` as it is for each; what `_construct` returns is not looked at -/
def buildFixedFrom (lengths lengths' : List Nat) : Puff Unit := do
  let s ← state
  let (_, lencode) ← constructed s.lencode lengths FIXLCODES 0
  let (_, distcode) ← constructed s.distcode lengths' MAXDCODES 0
  fun s => .ok () { s with lencode := lencode, distcode := distcode }

def buildFixed : Puff Unit := buildFixedFrom fixedLencodeLengths fixedDistcodeLengths

def fixed : Puff Unit := do
  let s ← state
  codes s.lencode s.distcode

/-! ## dynamic blocks -/

def order : List Nat := [16, 17, 18, 0, 8, 7, 9, 6, 10, 5, 11, 4, 12, 3, 13, 2, 14, 1, 15]

/-- `(err, lengths[order[index]]) = bits(s, 3)`, for the indices `os` -/
def readLengths : List Nat → List Nat → Puff (List Nat)
  | [], lengths => pure lengths
  | o :: os, lengths => do
    let v ← bits 3
    readLengths os (lengths.set o v)

def buildDynamicLengths : Puff (List Nat) := do
  let ncode ← bits 4
  let ncode := ncode + 4
  let lengths ← readLengths (order.take ncode) (List.replicate MAXCODES 0)
  pure ((order.drop ncode).foldl (fun lengths o => lengths.set o 0) lengths)

/-- the length to repeat, and how often -/
def repetition (lengths : List Nat) (index symbol : Nat) : Puff (Nat × Nat) :=
  if symbol = 16 then
    if index = 0 then fail .errRepeatNoFirstLength
    else do
      let len ← fetch lengths (index - 1)
      let tempBits ← bits 2
      pure (len, 3 + tempBits)
  else if symbol = 17 then do
    let tempBits ← bits 3
    pure (0, 3 + tempBits)
  else do
    let tempBits ← bits 7
    pure (0, 11 + tempBits)

/-- `lengths[index++] = len`, `count` times -/
def store (len : Nat) : Nat → Nat → List Nat → Puff (List Nat)
  | 0, index, lengths => pure lengths
  | count + 1, index, lengths => fun s =>
    if index < lengths.length then store len count (index + 1) (lengths.set index len) s else .panic

/-- `while (index < nlen + ndist)`, at most so many rounds -/
def readCodes (lencode : Huffman) (total : Nat) : Nat → Nat → List Nat → Puff (List Nat)
  | 0, _, _ => fun s => .running
  | n + 1, index, lengths =>
    if index < total then do
      let symbol ← decode lencode
      if symbol < 16 then do
        let lengths ← store symbol 1 index lengths
        readCodes lencode total n (index + 1) lengths
      else do
        let (len, symbol) ← repetition lengths index symbol
        if index + symbol > total then fail .errRepeatMore
        else do
          let lengths ← store len symbol index lengths
          readCodes lencode total n (index + symbol) lengths
    else pure lengths

/-- the errors of a literal/length or distance table that end the header -/
def Rejected (err : ErrorCode) (n : Nat) (h : Huffman) : Prop :=
  err ≠ .errNone ∧ (err = .errNotTerminated ∨ err = .errOutputExhausted ∨
    n ≠ h.counts.getD 0 0 + h.counts.getD 1 0)

instance (err : ErrorCode) (n : Nat) (h : Huffman) : Decidable (Rejected err n h) :=
  inferInstanceAs (Decidable (_ ∧ _))

/-- the end of `_build_dynamic`; `lencode` is still the table of the code length code -/
def buildTables (lencode : Huffman) (lengths : List Nat) (nlen ndist : Nat) : Puff (Huffman × Huffman) :=
  if lengths.getD 256 0 = 0 then fail .errMissingEndOfBlock
  else do
    let (err, lencode) ← constructed lencode lengths nlen 0
    if Rejected err nlen lencode then fail .errInvalidLiteralLengthCodeLengths
    else do
      let (err, distcode) ← constructed (Huffman.new MAXDCODES) lengths ndist nlen
      if Rejected err ndist distcode then fail .errInvalidDistanceCodeLengths
      else pure (lencode, distcode)

def buildDynamic : Puff (Huffman × Huffman) := do
  let nlen ← bits 5
  let nlen := nlen + 257
  let ndist ← bits 5
  let ndist := ndist + 1
  if nlen > MAXLCODES ∨ ndist > MAXDCODES then fail .errTooManyLengthOrDistanceCodes
  else do
    let lengths ← buildDynamicLengths
    let (err, lencode) ← constructed (Huffman.new MAXLCODES) lengths 19 0
    if err ≠ .errNone then fail .errCodeLengthsCodesIncomplete
    else do
      let lengths ← readCodes lencode (nlen + ndist) (nlen + ndist + 1) 0 lengths
      buildTables lencode lengths nlen ndist

def dynamic : Puff Unit := do
  let (lencode, distcode) ← buildDynamic
  codes lencode distcode

/-! ## all blocks -/

def block (t : Nat) : Puff Unit :=
  if t = 0 then stored
  else if t = 1 then fixed
  else if t = 2 then dynamic
  else fail .errInvalidBlockType

/-- `while (last == 0)`, at most so many rounds -/
def blocks : Nat → Puff Unit
  | 0 => fun s => .running
  | n + 1 => do
    let last ← bits 1
    let t ← bits 2
    block t
    if last = 0 then blocks n else pure ()

def State.start (source : Bytes) (destlen : Nat) : State where
  output := List.replicate destlen 0
  outcnt := 0
  input := source
  incnt := 0
  bitbuf := 0
  bitcnt := 0
  lencode := Huffman.new FIXLCODES
  distcode := Huffman.new MAXDCODES

/-- the tables, and then the blocks -/
def blocksAfter (build : Puff Unit) : Puff Unit := do
  build
  let s ← state
  blocks (rounds s)

/-- what is returned; `none` where the call reverts -/
def Outcome.returned : Outcome Unit → Option (ErrorCode × Bytes)
  | .ok _ s => some (.errNone, s.output)
  | .err e _ s => some (e, s.output)
  | .panic => none
  | .running => none

def puff (source : Bytes) (destlen : Nat) : Option (ErrorCode × Bytes) :=
  (blocksAfter buildFixed (State.start source destlen)).returned

end UNouns.Inflate

/-!
## on machine words

The functions once more, with nothing idealised: the arithmetic of an `unchecked` block is that of
256 bits, every index that is out of bounds is a `panic`, and an array in memory has fewer than
`2^64` elements.
-/

namespace UNouns.Inflate.Machine

/-! ## words -/

def add (a b : Nat) : Nat := (a + b) % 2 ^ 256

def sub (a b : Nat) : Nat := if b ≤ a then a - b else 2 ^ 256 - (b - a)

def shl (a k : Nat) : Nat := a <<< k % 2 ^ 256

/-! ## input and output -/

/-- `s.input[s.incnt++]` -/
def next : Puff UInt8 := do
  let s ← state
  let x ← fetch s.input s.incnt
  fun s => .ok x { s with incnt := add s.incnt 1 }

/-- `s.output[s.outcnt++] = x` -/
def put (x : UInt8) : Puff Unit := fun s =>
  if s.outcnt < s.output.length then
    .ok () { s with output := s.output.set s.outcnt x, outcnt := add s.outcnt 1 }
  else .panic

/-- `xs[i] = v` -/
def update (xs : List Nat) (i v : Nat) : Puff (List Nat) := fun s =>
  if i < xs.length then .ok (xs.set i v) s else .panic

/-- `while (s.bitcnt < need)`, at most so many rounds -/
def load (need : Nat) : Nat → Nat → Puff Nat
  | 0, _ => fun s => .running
  | n + 1, val => do
    let s ← state
    if s.bitcnt < need then
      if s.incnt = s.input.length then fail .errNotTerminated
      else do
        let x ← next
        fun s' => load need n (val ||| shl x.toNat s.bitcnt) { s' with bitcnt := add s.bitcnt 8 }
    else pure val

def bits (need : Nat) : Puff Nat := do
  let s ← state
  let val ← load need (need + 1) s.bitbuf
  fun s => .ok (val &&& sub (shl 1 need) 1) { s with bitbuf := val >>> need, bitcnt := sub s.bitcnt need }

/-! ## decoding -/

def decodeFrom (h : Huffman) : List Nat → Nat → Nat → Nat → Puff Nat
  | [], _, _, _ => fail .errInvalidLengthOrDistanceCode
  | len :: lens, code, first, index => do
    let tempCode ← bits 1
    let code := code ||| tempCode
    let count ← fetch h.counts len
    if code < add first count then fetch h.symbols (add index (sub code first))
    else decodeFrom h lens (shl code 1) (shl (add first count) 1) (add index count)

def decode (h : Huffman) : Puff Nat := decodeFrom h lensByFive 0 0 0

/-! ## tables -/

/-- `for (len = 0; len <= MAXBITS; ++len) h.counts[len] = 0;` -/
def clear (counts : List Nat) : Option (List Nat) :=
  (List.range (MAXBITS + 1)).foldlM
    (fun counts len => if len < counts.length then some (counts.set len 0) else none) counts

/-- `++h.counts[lengths[start + symbol]]`, for the symbols -/
def countAll (lengths : List Nat) (start : Nat) : List Nat → List Nat → Option (List Nat)
  | [], counts => some counts
  | symbol :: symbols, counts => do
    let l ← lengths[add start symbol]?
    let count ← counts[l]?
    countAll lengths start symbols (counts.set l (add count 1))

/-- the possible codes left, none where the set is over-subscribed -/
def leftOver (counts : List Nat) : List Nat → Nat → Option (Option Nat)
  | [], left => some (some left)
  | len :: lens, left => do
    let count ← counts[len]?
    if shl left 1 < count then some none else leftOver counts lens (sub (shl left 1) count)

/-- `offs[len + 1] = offs[len] + h.counts[len]` -/
def offsetsFrom (counts : List Nat) : List Nat → List Nat → Option (List Nat)
  | [], offs => some offs
  | len :: lens, offs => do
    let off ← offs[len]?
    let count ← counts[len]?
    if len + 1 < offs.length then offsetsFrom counts lens (offs.set (len + 1) (add off count)) else none

def offsets (counts : List Nat) : Option (List Nat) :=
  offsetsFrom counts (List.range' 1 (MAXBITS - 1)) (List.replicate (MAXBITS + 1) 0)

/-- `h.symbols[offs[lengths[start + symbol]]++] = symbol`, for the symbols with a length -/
def place (lengths : List Nat) (start : Nat) : List Nat → List Nat → List Nat → Option (List Nat)
  | [], _, symbols => some symbols
  | symbol :: rest, offs, symbols => do
    let l ← lengths[add start symbol]?
    if l ≠ 0 then do
      let off ← offs[l]?
      if off < symbols.length then place lengths start rest (offs.set l (add off 1)) (symbols.set off symbol)
      else none
    else place lengths start rest offs symbols

def construct (h : Huffman) (lengths : List Nat) (n start : Nat) : Option (ErrorCode × Huffman) := do
  let counts ← clear h.counts
  let counts ← countAll lengths start (List.range n) counts
  let zeros ← counts[0]?
  if zeros = n then some (.errNone, { h with counts := counts })
  else do
    let left ← leftOver counts lensByFive 1
    match left with
    | none => some (.errConstruct, { h with counts := counts })
    | some left => do
      let offs ← offsets counts
      let symbols ← place lengths start (List.range n) offs h.symbols
      some (if left > 0 then .errConstruct else .errNone, ⟨counts, symbols⟩)

def constructed (h : Huffman) (lengths : List Nat) (n start : Nat) : Puff (ErrorCode × Huffman) :=
  fun s => match construct h lengths n start with
  | none => .panic
  | some r => .ok r s

/-! ## stored blocks -/

def copyInput : Nat → Puff Unit
  | 0 => pure ()
  | len + 1 => do
    let x ← next
    put x
    copyInput len

def stored : Puff Unit := do
  fun s => .ok () { s with bitbuf := 0, bitcnt := 0 }
  let s ← state
  if add s.incnt 4 > s.input.length then fail .errNotTerminated
  else do
    let lo ← next
    let hi ← next
    let len := lo.toNat ||| shl hi.toNat 8
    let x ← next
    if x.toNat ≠ complement len &&& 0xFF then fail .errStoredLengthNoMatch
    else do
      let x ← next
      if x.toNat ≠ (complement len >>> 8) &&& 0xFF then fail .errStoredLengthNoMatch
      else do
        let s ← state
        if add s.incnt len > s.input.length then fail .errNotTerminated
        else if add s.outcnt len > s.output.length then fail .errOutputExhausted
        else copyInput len

/-! ## literals and copies -/

def copyOutput (dist : Nat) : Nat → Puff Unit
  | 0 => pure ()
  | len + 1 => do
    let s ← state
    let x ← fetch s.output (sub s.outcnt dist)
    put x
    copyOutput dist len

def literal (symbol : Nat) : Puff Unit := do
  let s ← state
  if s.outcnt = s.output.length then fail .errOutputExhausted
  else put (UInt8.ofNat symbol)

/-- the branch `symbol > 256`, after `symbol -= 257` -/
def copy (distcode : Huffman) (symbol : Nat) : Puff Unit := do
  if symbol ≥ 29 then fail .errInvalidLengthOrDistanceCode
  else do
    let extra ← fetch lext symbol
    let tempBits ← bits extra
    let base ← fetch lens symbol
    let len := add base tempBits
    let symbol ← decode distcode
    let extra ← fetch dext symbol
    let tempBits ← bits extra
    let base ← fetch dists symbol
    let dist := add base tempBits
    let s ← state
    if dist > s.outcnt then fail .errDistanceTooFar
    else if add s.outcnt len > s.output.length then fail .errOutputExhausted
    else copyOutput dist len

/-- `while (symbol != 256)`, at most so many rounds, with the variable `len`; a copy leaves it zero -/
def codesFrom (lencode distcode : Huffman) : Nat → Nat → Puff Unit
  | 0, _ => fun s => .running
  | n + 1, len => do
    let symbol ← decode lencode
    if symbol < 256 then do
      literal symbol
      codesFrom lencode distcode n len
    else if symbol > 256 then do
      copy distcode (sub symbol 257)
      codesFrom lencode distcode n 0
    else fun s => .ok () { s with outcnt := add s.outcnt len }

def codes (lencode distcode : Huffman) : Puff Unit := do
  let s ← state
  codesFrom lencode distcode (rounds s) 0

/-! ## fixed blocks -/

/-- `for (; symbol < stop; ++symbol) lengths[symbol] = value;` -/
def fill (symbol stop value : Nat) (lengths : List Nat) : Option (List Nat) :=
  (List.range' symbol (stop - symbol)).foldlM
    (fun lengths s => if s < lengths.length then some (lengths.set s value) else none) lengths

def fixedLencodeLengths : Option (List Nat) :=
  fill 0 144 8 (List.replicate FIXLCODES 0) >>= fill 144 256 9 >>= fill 256 280 7 >>= fill 280 FIXLCODES 8

def fixedDistcodeLengths : Option (List Nat) := fixedLencodeLengths >>= fill 0 MAXDCODES 5

/-- an array, if no index was out of bounds -/
def array (lengths : Option (List Nat)) : Puff (List Nat) := fun s =>
  match lengths with
  | none => .panic
  | some lengths => .ok lengths s

/-- both tables, of the array `lengths` as it is for each -/
def buildFixedFrom (lengths lengths' : Option (List Nat)) : Puff Unit := do
  let s ← state
  let lengths ← array lengths
  let (_, lencode) ← constructed s.lencode lengths FIXLCODES 0
  let lengths ← array lengths'
  let (_, distcode) ← constructed s.distcode lengths MAXDCODES 0
  fun s => .ok () { s with lencode := lencode, distcode := distcode }

def buildFixed : Puff Unit := buildFixedFrom fixedLencodeLengths fixedDistcodeLengths

def fixed : Puff Unit := do
  let s ← state
  codes s.lencode s.distcode

/-! ## dynamic blocks -/

/-- `(err, lengths[order[index]]) = bits(s, 3)`, for the indices -/
def readLengths : List Nat → List Nat → Puff (List Nat)
  | [], lengths => pure lengths
  | index :: rest, lengths => do
    let v ← bits 3
    let o ← fetch order index
    let lengths ← update lengths o v
    readLengths rest lengths

/-- `lengths[order[index]] = 0`, for the indices -/
def dropLengths : List Nat → List Nat → Puff (List Nat)
  | [], lengths => pure lengths
  | index :: rest, lengths => do
    let o ← fetch order index
    let lengths ← update lengths o 0
    dropLengths rest lengths

def buildDynamicLengths : Puff (List Nat) := do
  let ncode ← bits 4
  let ncode := add ncode 4
  let lengths ← readLengths (List.range ncode) (List.replicate MAXCODES 0)
  dropLengths (List.range' ncode (19 - ncode)) lengths

/-- the length to repeat, and how often -/
def repetition (lengths : List Nat) (index symbol : Nat) : Puff (Nat × Nat) :=
  if symbol = 16 then
    if index = 0 then fail .errRepeatNoFirstLength
    else do
      let len ← fetch lengths (sub index 1)
      let tempBits ← bits 2
      pure (len, add 3 tempBits)
  else if symbol = 17 then do
    let tempBits ← bits 3
    pure (0, add 3 tempBits)
  else do
    let tempBits ← bits 7
    pure (0, add 11 tempBits)

/-- `lengths[index++] = len`, `count` times -/
def store (len : Nat) : Nat → Nat → List Nat → Puff (List Nat)
  | 0, index, lengths => pure lengths
  | count + 1, index, lengths => do
    let lengths ← update lengths index len
    store len count (add index 1) lengths

/-- `while (index < nlen + ndist)`, at most so many rounds -/
def readCodes (lencode : Huffman) (nlen ndist : Nat) : Nat → Nat → List Nat → Puff (List Nat)
  | 0, _, _ => fun s => .running
  | n + 1, index, lengths =>
    if index < add nlen ndist then do
      let symbol ← decode lencode
      if symbol < 16 then do
        let lengths ← store symbol 1 index lengths
        readCodes lencode nlen ndist n (add index 1) lengths
      else do
        let (len, symbol) ← repetition lengths index symbol
        if add index symbol > add nlen ndist then fail .errRepeatMore
        else do
          let lengths ← store len symbol index lengths
          readCodes lencode nlen ndist n (add index symbol) lengths
    else pure lengths

/-- the errors of a literal/length or distance table that end the header -/
def rejected (err : ErrorCode) (n : Nat) (h : Huffman) : Puff Bool :=
  if err = .errNone then pure false
  else if err = .errNotTerminated ∨ err = .errOutputExhausted then pure true
  else do
    let zeros ← fetch h.counts 0
    let ones ← fetch h.counts 1
    pure (n ≠ add zeros ones)

/-- the end of `_build_dynamic`; `lencode` is still the table of the code length code -/
def buildTables (lencode : Huffman) (lengths : List Nat) (nlen ndist : Nat) : Puff (Huffman × Huffman) := do
  let stop ← fetch lengths 256
  if stop = 0 then fail .errMissingEndOfBlock
  else do
    let (err, lencode) ← constructed lencode lengths nlen 0
    let bad ← rejected err nlen lencode
    if bad then fail .errInvalidLiteralLengthCodeLengths
    else do
      let (err, distcode) ← constructed (Huffman.new MAXDCODES) lengths ndist nlen
      let bad ← rejected err ndist distcode
      if bad then fail .errInvalidDistanceCodeLengths
      else pure (lencode, distcode)

def buildDynamic : Puff (Huffman × Huffman) := do
  let nlen ← bits 5
  let nlen := add nlen 257
  let ndist ← bits 5
  let ndist := add ndist 1
  if nlen > MAXLCODES ∨ ndist > MAXDCODES then fail .errTooManyLengthOrDistanceCodes
  else do
    let lengths ← buildDynamicLengths
    let (err, lencode) ← constructed (Huffman.new MAXLCODES) lengths 19 0
    if err ≠ .errNone then fail .errCodeLengthsCodesIncomplete
    else do
      let lengths ← readCodes lencode nlen ndist (nlen + ndist + 1) 0 lengths
      buildTables lencode lengths nlen ndist

def dynamic : Puff Unit := do
  let (lencode, distcode) ← buildDynamic
  codes lencode distcode

/-! ## all blocks -/

def block (t : Nat) : Puff Unit :=
  if t = 0 then stored
  else if t = 1 then fixed
  else if t = 2 then dynamic
  else fail .errInvalidBlockType

/-- `while (last == 0)`, at most so many rounds -/
def blocks : Nat → Puff Unit
  | 0 => fun s => .running
  | n + 1 => do
    let last ← bits 1
    let t ← bits 2
    block t
    if last = 0 then blocks n else pure ()

/-- the tables, and then the blocks -/
def blocksAfter (build : Puff Unit) : Puff Unit := do
  build
  let s ← state
  blocks (rounds s)

def run (source : Bytes) (destlen : Nat) : Outcome Unit := blocksAfter buildFixed (State.start source destlen)

/-- what is returned; `none` where the call reverts, as with a `new bytes(destlen)` too large -/
def puff (source : Bytes) (destlen : Nat) : Option (ErrorCode × Bytes) :=
  if 2 ^ 64 ≤ destlen then none else (run source destlen).returned

end UNouns.Inflate.Machine
