import UNouns.Lib.HexString
import UNouns.Token.Storage

/-!
# The seed of a UNoun

`NounsSeeder` takes it from the hash of the previous block and the id, the assets package emulates
this with hex strings.

* `generateSeed`               on chain: five windows of 48 bits of one digest;
* `getNounSeedFromBlockHash`   off chain;
* `Ethers`                     what the package calls of ethers, documented by `Ethers.Documented`;
* `shiftRightAndCast_wide`, `shiftRightAndCast_narrow`
                               a number that is too short for the cast keeps its `0x` twice;
* `shiftRightAndCast_denotes_iff`
                               the numbers that are cast;
* `getNounSeedFromBlockHash_eq_iff`
                               the digests on which the two agree.
-/

set_option linter.unusedVariables false

namespace UNouns
open HexString

/-- how many there are of each part -/
structure PartCounts where
  background : Nat
  body : Nat
  accessory : Nat
  head : Nat
  glasses : Nat

structure PartCounts.Nonzero (c : PartCounts) : Prop where
  background : c.background ≠ 0
  body : c.body ≠ 0
  accessory : c.accessory ≠ 0
  head : c.head ≠ 0
  glasses : c.glasses ≠ 0

/-! ## the contract -/

namespace NounsSeeder

def uint48 (n : Nat) : Nat := n % 2^48

/-- `uint48(uint48(pseudorandomness >> shift) % count)` -/
def part (pseudorandomness shift count : Nat) : Result Nat := do
  revertUnless (count ≠ 0) (.panic 0x12)
  pure (uint48 (uint48 (pseudorandomness >>> shift) % count))

/-- `keccak256` is of the two packed words -/
def generateSeed (keccak256 : BitVec 256 → BitVec 256 → BitVec 256) (blockhash unounId : BitVec 256)
    (descriptor : PartCounts) : Result Seed := do
  let pseudorandomness := (keccak256 blockhash unounId).toNat
  let background ← part pseudorandomness 0 descriptor.background
  let body ← part pseudorandomness 48 descriptor.body
  let accessory ← part pseudorandomness 96 descriptor.accessory
  let head ← part pseudorandomness 144 descriptor.head
  let glasses ← part pseudorandomness 192 descriptor.glasses
  pure ⟨background, body, accessory, head, glasses⟩

/-- the window at `shift`, modulo `count` -/
def window (pseudorandomness shift count : Nat) : Nat := pseudorandomness / 2^shift % 2^48 % count

theorem part_eq (pseudorandomness shift : Nat) {count : Nat} (h : count ≠ 0) :
    part pseudorandomness shift count = .ok (window pseudorandomness shift count) := by
  have hlt : pseudorandomness / 2^shift % 2^48 < 2^48 := Nat.mod_lt _ (by omega)
  have hle : pseudorandomness / 2^shift % 2^48 % count ≤ pseudorandomness / 2^shift % 2^48 :=
    Nat.mod_le _ _
  simp only [part, revertUnless, if_pos h, uint48, Nat.shiftRight_eq_div_pow]
  show Except.ok (pseudorandomness / 2^shift % 2^48 % count % 2^48) = _
  rw [Nat.mod_eq_of_lt (by omega)]
  rfl

theorem generateSeed_eq (keccak256 : BitVec 256 → BitVec 256 → BitVec 256)
    (blockhash unounId : BitVec 256) {descriptor : PartCounts} (h : descriptor.Nonzero) :
    let p := (keccak256 blockhash unounId).toNat
    generateSeed keccak256 blockhash unounId descriptor
      = .ok ⟨window p 0 descriptor.background, window p 48 descriptor.body,
        window p 96 descriptor.accessory, window p 144 descriptor.head,
        window p 192 descriptor.glasses⟩ := by
  intro p
  simp only [generateSeed, part_eq _ _ h.background, part_eq _ _ h.body, part_eq _ _ h.accessory,
    part_eq _ _ h.head, part_eq _ _ h.glasses]
  rfl

end NounsSeeder

/-! ## the package -/

/-- what `BigNumber.from` is given -/
inductive BigNumberish where
  | bigNumber (n : Nat)
  | string (s : List Char)

/-- the functions of ethers that the package calls -/
structure Ethers where
  /-- of `['bytes32', 'uint256']` -/
  solidityKeccak256 : BitVec 256 → BitVec 256 → List Char
  /-- `BigNumber.from` -/
  bigNumber : BigNumberish → Except String Nat
  shr : Nat → Nat → Nat
  toHexString : Nat → List Char
  mod : Nat → Nat → Except String Nat
  toNumber : Nat → Except String Nat

/-- as they are documented -/
structure Ethers.Documented (E : Ethers) (keccak256 : BitVec 256 → BitVec 256 → BitVec 256) :
    Prop where
  solidityKeccak256 : ∀ blockHash unounId, ∃ ds, Digits ds ∧ ds ≠ [] ∧
    value ds = (keccak256 blockHash unounId).toNat ∧
    E.solidityKeccak256 blockHash unounId = prefixed (write ds)
  bigNumber : ∀ n, E.bigNumber (.bigNumber n) = .ok n
  bigNumber_hex : ∀ s ds, s ≠ [] → read s = some ds →
    E.bigNumber (.string (prefixed s)) = .ok (value ds)
  bigNumber_malformed : ∀ s, read s = none → ∃ e, E.bigNumber (.string (prefixed s)) = .error e
  shr : ∀ n shift, E.shr n shift = n / 2^shift
  toHexString : ∀ n, E.toHexString n = prefixed (write (byteDigits n))
  mod : ∀ n m, m ≠ 0 → E.mod n m = .ok (n % m)
  toNumber : ∀ n, n < 2^53 → E.toNumber n = .ok n

/-- of JavaScript: a negative start is zero -/
def substring (s : List Char) (start : Int) : List Char := s.drop start.toNat

namespace Ethers

/-- the start is a fraction, rounded down, unless `uintSize` is a multiple of 4 -/
def shiftRightAndCast (E : Ethers) (value : BigNumberish) (shiftAmount uintSize : Nat) :
    Except String (List Char) := do
  let n ← E.bigNumber value
  let shifted := E.toHexString (E.shr n shiftAmount)
  pure (prefixed (substring shifted ((4 * shifted.length - uintSize : Int) / 4)))

def getPseudorandomPart (E : Ethers) (pseudorandomness : List Char) (partCount shiftAmount : Nat)
    (uintSize : Nat := 48) : Except String Nat := do
  let hex ← E.shiftRightAndCast (.string pseudorandomness) shiftAmount uintSize
  let n ← E.bigNumber (.string hex)
  let r ← E.mod n partCount
  E.toNumber r

/-- `images` are the numbers of images and of background colours of the package -/
def getNounSeedFromBlockHash (E : Ethers) (images : PartCounts) (unounId blockHash : BitVec 256) :
    Except String Seed := do
  let pseudorandomness := E.solidityKeccak256 blockHash unounId
  let background ← E.getPseudorandomPart pseudorandomness images.background 0
  let body ← E.getPseudorandomPart pseudorandomness images.body 48
  let accessory ← E.getPseudorandomPart pseudorandomness images.accessory 192
  let head ← E.getPseudorandomPart pseudorandomness images.head 144
  let glasses ← E.getPseudorandomPart pseudorandomness images.glasses 192
  pure ⟨background, body, accessory, head, glasses⟩

/-! ## shift and cast -/

section
variable {E : Ethers} {keccak256 : BitVec 256 → BitVec 256 → BitVec 256}

theorem substring_prefixed (ds : List Nat) (k : Nat) :
    substring (prefixed (write ds)) ((4 * (prefixed (write ds)).length - (8 * k : Nat) : Int) / 4)
      = (prefixed (write ds)).drop (ds.length + 2 - 2 * k) := by
  have hlen : (prefixed (write ds)).length = ds.length + 2 := by
    show (write ds).length + 1 + 1 = _
    rw [write_length]
  rw [substring, hlen]
  congr 1
  omega

/-- a number of at least `k` bytes is cast to `k` bytes -/
theorem shiftRightAndCast_wide (hE : E.Documented keccak256) {x : BigNumberish} {n s k : Nat}
    (hx : E.bigNumber x = .ok n) (hk : 2 * k ≤ (byteDigits (n / 2^s)).length) :
    ∃ ds, Digits ds ∧ ds.length = 2 * k ∧ value ds = n / 2^s % 2^(8 * k) ∧
      E.shiftRightAndCast x s (8 * k) = .ok (prefixed (write ds)) := by
  have hds := byteDigits_digits (n / 2^s)
  refine ⟨(byteDigits (n / 2^s)).drop ((byteDigits (n / 2^s)).length - 2 * k), hds.drop _, ?_, ?_, ?_⟩
  · rw [List.length_drop]
    omega
  · have hpow : (16 : Nat) ^ (2 * k) = 2 ^ (8 * k) := by
      rw [show 8 * k = 4 * (2 * k) by omega, pow_mul 2 4 (2 * k)]
      rfl
    rw [value_suffix hds hk, value_byteDigits, hpow]
  · unfold shiftRightAndCast
    rw [hx]
    show Except.ok (prefixed (substring (E.toHexString (E.shr n s)) _)) = _
    rw [hE.shr, hE.toHexString, substring_prefixed]
    have hstart : (byteDigits (n / 2^s)).length + 2 - 2 * k
        = (byteDigits (n / 2^s)).length - 2 * k + 2 := by omega
    rw [hstart, ← write_drop]
    rfl

/-- a shorter one is left as it is, with a second `0x` -/
theorem shiftRightAndCast_narrow (hE : E.Documented keccak256) {x : BigNumberish} {n s k : Nat}
    (hx : E.bigNumber x = .ok n) (hk : (byteDigits (n / 2^s)).length < 2 * k) :
    E.shiftRightAndCast x s (8 * k)
      = .ok (prefixed (prefixed (write (byteDigits (n / 2^s))))) := by
  have heven := byteDigits_even (n / 2^s)
  unfold shiftRightAndCast
  rw [hx]
  show Except.ok (prefixed (substring (E.toHexString (E.shr n s)) _)) = _
  rw [hE.shr, hE.toHexString, substring_prefixed]
  have hstart : (byteDigits (n / 2^s)).length + 2 - 2 * k = 0 := by omega
  rw [hstart, List.drop_zero]

/-- a digest as a number -/
theorem bigNumber_prefixed (hE : E.Documented keccak256) {ds : List Nat} (hds : Digits ds)
    (hne : ds ≠ []) : E.bigNumber (.string (prefixed (write ds))) = .ok (value ds) := by
  refine hE.bigNumber_hex _ _ (fun h => hne ?_) (read_write hds)
  exact List.map_eq_nil_iff.mp h

/-- a cast that reads as a number gives a part -/
theorem getPseudorandomPart_ok (hE : E.Documented keccak256) {p : List Char} {count s uintSize : Nat}
    (hc : count ≠ 0) {ds : List Nat} (hds : Digits ds) (hne : ds ≠ [])
    (h : E.shiftRightAndCast (.string p) s uintSize = .ok (prefixed (write ds)))
    (hlt : value ds % count < 2^53) :
    E.getPseudorandomPart p count s uintSize = .ok (value ds % count) := by
  unfold getPseudorandomPart
  rw [h]
  show (E.bigNumber _ >>= _) = _
  rw [bigNumber_prefixed hE hds hne]
  show (E.mod _ _ >>= _) = _
  rw [hE.mod _ _ hc]
  exact hE.toNumber _ hlt

/-- the parts of at least six bytes -/
theorem getPseudorandomPart_wide (hE : E.Documented keccak256) {ds : List Nat} (hds : Digits ds)
    (hne : ds ≠ []) {count : Nat} (hc : count ≠ 0) {s : Nat} (hs : 2^40 ≤ value ds / 2^s) :
    E.getPseudorandomPart (prefixed (write ds)) count s
      = .ok (NounsSeeder.window (value ds) s count) := by
  have hlen : 2 * 6 ≤ (byteDigits (value ds / 2^s)).length :=
    (le_byteDigits_length (by omega)).mpr (.inr hs)
  obtain ⟨es, hes, hel, hev, he⟩ :=
    shiftRightAndCast_wide hE (bigNumber_prefixed hE hds hne) hlen
  have hne' : es ≠ [] := by
    rintro rfl
    cases hel
  have hlt : value es % count < 2^53 := by
    have h1 : value ds / 2^s % 2^(8 * 6) < 2^(8 * 6) := Nat.mod_lt _ (by omega)
    have h2 : value es % count ≤ value es := Nat.mod_le _ _
    omega
  rw [getPseudorandomPart_ok hE hc hes hne' he hlt, hev]
  rfl

/-- the others are not numbers -/
theorem getPseudorandomPart_narrow (hE : E.Documented keccak256) {ds : List Nat} (hds : Digits ds)
    (hne : ds ≠ []) (count : Nat) {s : Nat} (hs : value ds / 2^s < 2^40) :
    ∃ e, E.getPseudorandomPart (prefixed (write ds)) count s = .error e := by
  have hlen : (byteDigits (value ds / 2^s)).length < 2 * 6 := by
    have h1 := (byteDigits_length_le (n := value ds / 2^s) (k := 5) (by omega)).mpr hs
    omega
  have he := shiftRightAndCast_narrow hE (bigNumber_prefixed hE hds hne) hlen
  obtain ⟨e, hm⟩ := hE.bigNumber_malformed _ (read_prefixed (write (byteDigits (value ds / 2^s))))
  refine ⟨e, ?_⟩
  unfold getPseudorandomPart
  rw [show (48 : Nat) = 8 * 6 from rfl, he]
  show (E.bigNumber _ >>= _) = _
  rw [hm]
  rfl

/-- two `0x` are no number -/
theorem prefixed_twice {ds es : List Nat} (hes : Digits es) :
    prefixed (prefixed (write ds)) ≠ prefixed (write es) := by
  intro h
  have htail : prefixed (write ds) = write es := (List.cons.inj (List.cons.inj h).2).2
  have hr : read (prefixed (write ds)) = some es := by rw [htail, read_write hes]
  rw [read_prefixed] at hr
  cases hr

end

/-- **Where the cast is one.**  The text is a hex number, the shifted value modulo `2 ^ uintSize`, from
which the parts are taken, as soon as the shifted value has the bytes of `uintSize`.  A number is given
to ethers as a safe integer. -/
theorem shiftRightAndCast_denotes_iff {E : Ethers} {keccak256 : BitVec 256 → BitVec 256 → BitVec 256}
    (hE : E.Documented keccak256) (x : BigNumberish) (n shiftAmount uintSize : Nat)
    (hx : E.bigNumber x = .ok n) (hpos : 0 < uintSize) (h8 : 8 ∣ uintSize) :
    ((∃ ds, Digits ds ∧ ds ≠ [] ∧ value ds = (n >>> shiftAmount) % 2^uintSize ∧
        E.shiftRightAndCast x shiftAmount uintSize = .ok (prefixed (write ds))) ∧
      ∀ p partCount, E.bigNumber (.string p) = .ok n → 0 < partCount → partCount < 2^53 - 1 →
        E.getPseudorandomPart p partCount shiftAmount uintSize
          = .ok ((n >>> shiftAmount) % 2^uintSize % partCount)) ↔
    uintSize = 8 ∨ 2^(uintSize - 8) ≤ n >>> shiftAmount := by
  obtain ⟨k, rfl⟩ := h8
  rw [Nat.shiftRight_eq_div_pow]
  have hwide : 2 * k ≤ (byteDigits (n / 2^shiftAmount)).length ↔
      8 * k = 8 ∨ 2^(8 * k - 8) ≤ n / 2^shiftAmount := by
    have hpow : (16 : Nat) ^ (2 * (k - 1)) = 2 ^ (8 * k - 8) := by
      rw [show 8 * k - 8 = 4 * (2 * (k - 1)) by omega, pow_mul 2 4 (2 * (k - 1))]
      rfl
    rw [le_byteDigits_length (by omega), hpow]
    exact or_congr_left (by omega)
  rw [← hwide]
  constructor
  · rintro ⟨⟨ds, hds, _, _, h⟩, _⟩
    refine Nat.not_lt.mp fun hlt => ?_
    rw [shiftRightAndCast_narrow hE hx hlt] at h
    exact prefixed_twice hds (Except.ok.inj h)
  · intro hlen
    refine ⟨?_, fun p partCount hp hcount hsafe => ?_⟩
    · obtain ⟨ds, hds, hl, hv, h⟩ := shiftRightAndCast_wide hE hx hlen
      refine ⟨ds, hds, ?_, hv, h⟩
      rintro rfl
      have : 0 = 2 * k := hl
      omega
    · obtain ⟨ds, hds, hl, hv, h⟩ := shiftRightAndCast_wide hE hp hlen
      have hne : ds ≠ [] := by
        rintro rfl
        have : 0 = 2 * k := hl
        omega
      -- the remainder is below a safe integer
      have hlt : value ds % partCount < partCount := Nat.mod_lt _ hcount
      rw [getPseudorandomPart_ok hE (by omega) hds hne h (by omega), hv]

section
variable {E : Ethers} {keccak256 : BitVec 256 → BitVec 256 → BitVec 256}

/-! ## the seed -/

theorem getNounSeedFromBlockHash_wide (hE : E.Documented keccak256) {images : PartCounts}
    (h : images.Nonzero) (unounId blockHash : BitVec 256)
    (hp : 2^232 ≤ (keccak256 blockHash unounId).toNat) :
    let p := (keccak256 blockHash unounId).toNat
    E.getNounSeedFromBlockHash images unounId blockHash
      = .ok ⟨NounsSeeder.window p 0 images.background, NounsSeeder.window p 48 images.body,
        NounsSeeder.window p 192 images.accessory, NounsSeeder.window p 144 images.head,
        NounsSeeder.window p 192 images.glasses⟩ := by
  intro p
  obtain ⟨ds, hds, hne, hv, hk⟩ := hE.solidityKeccak256 blockHash unounId
  -- the window at 192 is the shortest
  have hwide : ∀ s, s ≤ 192 → 2^40 ≤ value ds / 2^s := by
    intro s hs
    have h1 : 2^40 ≤ value ds / 2^192 := by
      rw [hv]
      omega
    exact Nat.le_trans h1 (Nat.div_le_div_left (Nat.pow_le_pow_right (by omega) hs) (by positivity))
  have hpart : ∀ s count, s ≤ 192 → count ≠ 0 →
      E.getPseudorandomPart (prefixed (write ds)) count s = .ok (NounsSeeder.window p s count) := by
    intro s count hs hc
    rw [getPseudorandomPart_wide hE hds hne hc (hwide s hs), hv]
  simp only [getNounSeedFromBlockHash, hk, hpart 0 _ (by omega) h.background,
    hpart 48 _ (by omega) h.body, hpart 192 _ (by omega) h.accessory,
    hpart 144 _ (by omega) h.head, hpart 192 _ (by omega) h.glasses]
  rfl

theorem getNounSeedFromBlockHash_narrow (hE : E.Documented keccak256) (images : PartCounts)
    (unounId blockHash : BitVec 256) (hp : (keccak256 blockHash unounId).toNat < 2^232) :
    ∃ e, E.getNounSeedFromBlockHash images unounId blockHash = .error e := by
  obtain ⟨ds, hds, hne, hv, hk⟩ := hE.solidityKeccak256 blockHash unounId
  obtain ⟨e, he⟩ := getPseudorandomPart_narrow hE hds hne images.accessory (s := 192) (by omega)
  -- the accessory is the first part at 192, an earlier one may fail before it
  simp only [getNounSeedFromBlockHash, hk]
  cases h0 : E.getPseudorandomPart (prefixed (write ds)) images.background 0 with
  | error e' => exact ⟨e', rfl⟩
  | ok background =>
    cases h1 : E.getPseudorandomPart (prefixed (write ds)) images.body 48 with
    | error e' => exact ⟨e', rfl⟩
    | ok body => exact ⟨e, by rw [he]; rfl⟩

end
end Ethers

/-- **Where the emulation is right.**  The digest has at least 233 bits, and its windows at 96, which
the contract takes for the accessory, and at 192, which the package takes for it, are the same modulo
the number of accessories. -/
theorem getNounSeedFromBlockHash_eq_iff (keccak256 : BitVec 256 → BitVec 256 → BitVec 256) (E : Ethers)
    (hE : E.Documented keccak256) (counts : PartCounts) (hc : counts.Nonzero)
    (unounId blockHash : BitVec 256) :
    let pseudorandomness := (keccak256 blockHash unounId).toNat
    (∃ seed, E.getNounSeedFromBlockHash counts unounId blockHash = .ok seed ∧
      NounsSeeder.generateSeed keccak256 blockHash unounId counts = .ok seed) ↔
    2^232 ≤ pseudorandomness ∧ pseudorandomness / 2^96 % 2^48 % counts.accessory
      = pseudorandomness / 2^192 % 2^48 % counts.accessory := by
  intro pseudorandomness
  rw [NounsSeeder.generateSeed_eq keccak256 blockHash unounId hc]
  by_cases hp : 2^232 ≤ pseudorandomness
  · rw [Ethers.getNounSeedFromBlockHash_wide hE hc unounId blockHash hp]
    constructor
    · rintro ⟨seed, h1, h2⟩
      have h1' := Except.ok.inj h1
      have h2' := Except.ok.inj h2
      exact ⟨hp, congrArg Seed.accessory (h2'.trans h1'.symm)⟩
    · rintro ⟨_, h⟩
      have hacc : NounsSeeder.window pseudorandomness 96 counts.accessory
          = NounsSeeder.window pseudorandomness 192 counts.accessory := h
      exact ⟨_, rfl, by rw [← hacc]⟩
  · obtain ⟨e, he⟩ := Ethers.getNounSeedFromBlockHash_narrow hE counts unounId blockHash
      (Nat.lt_of_not_le hp)
    rw [he]
    exact ⟨fun ⟨_, h, _⟩ => (nomatch h), fun h => absurd h.1 hp⟩

/-! ## ethers on numbers and hex strings -/

/-- a digest is written with all its 64 digits -/
def Ethers.sample (keccak256 : BitVec 256 → BitVec 256 → BitVec 256) : Ethers where
  solidityKeccak256 blockHash unounId :=
    let ds := byteDigits (keccak256 blockHash unounId).toNat
    prefixed (write (List.replicate (64 - ds.length) 0 ++ ds))
  bigNumber
    | .bigNumber n => .ok n
    | .string ('0' :: 'x' :: s) => match read s with
      | some (d :: ds) => .ok (value (d :: ds))
      | _ => .error "invalid BigNumber string"
    | .string _ => .error "invalid BigNumber string"
  shr n shift := n / 2^shift
  toHexString n := prefixed (write (byteDigits n))
  mod n m := if m = 0 then .error "division-by-zero" else .ok (n % m)
  toNumber n := if n < 2^53 then .ok n else .error "overflow"

theorem Ethers.sample_documented (keccak256 : BitVec 256 → BitVec 256 → BitVec 256) :
    (Ethers.sample keccak256).Documented keccak256 where
  solidityKeccak256 blockHash unounId := by
    have hne : byteDigits (keccak256 blockHash unounId).toNat ≠ [] := byteDigits_ne_nil _
    refine ⟨_, fun d hd => ?_, List.append_ne_nil_of_right_ne_nil _ hne, ?_, rfl⟩
    · rcases List.mem_append.mp hd with hd | hd
      · rw [List.eq_of_mem_replicate hd]
        omega
      · exact byteDigits_digits _ d hd
    · rw [value_zeros, value_byteDigits]
  bigNumber n := rfl
  bigNumber_hex s ds hs hr := by
    have hds : ds ≠ [] := by
      rintro rfl
      exact hs (read_eq_nil hr)
    obtain ⟨d, ds, rfl⟩ := List.exists_cons_of_ne_nil hds
    show (match read s with | some (d :: ds) => _ | _ => _) = _
    rw [hr]
  bigNumber_malformed s hr := by
    refine ⟨"invalid BigNumber string", ?_⟩
    show (match read s with | some (d :: ds) => _ | _ => _) = _
    rw [hr]
  shr n shift := rfl
  toHexString n := rfl
  mod n m hm := if_neg hm
  toNumber n hn := if_pos hn

/-- the parts of the package -/
def sampleCounts : PartCounts := ⟨2, 60, 3, 59, 31⟩

/-- the digests of UNouns 116 and 1 for one block hash -/
def sampleKeccak (blockHash unounId : BitVec 256) : BitVec 256 :=
  if unounId = 116 then
    0x7f46528ada35c3e8c9f405ab7af3f6dfa2da12cc50274ac1f6ecb6b41a4a6733
  else
    0x82442bcded84751e6dc39a85af8976e8f621217d211b19613888c9c11cc3580a

def sampleBlockHash : BitVec 256 :=
  0x5014101691e81d79a2eba711e698118e1a90c9be7acb2f40d7f200134ee53e01

/-- a digest of all its bytes at the shift of the heads -/
theorem shiftRightAndCast_denotes_iff_run :
    (∃ ds, Digits ds ∧ ds ≠ [] ∧ value ds = ((2^200 + 5) >>> 144) % 2^48 ∧
        (Ethers.sample sampleKeccak).shiftRightAndCast (.bigNumber (2^200 + 5)) 144 48
          = .ok (prefixed (write ds))) ∧
      ∀ p partCount, (Ethers.sample sampleKeccak).bigNumber (.string p) = .ok (2^200 + 5) →
        0 < partCount → partCount < 2^53 - 1 →
        (Ethers.sample sampleKeccak).getPseudorandomPart p partCount 144 48
          = .ok (((2^200 + 5) >>> 144) % 2^48 % partCount) :=
  (Ethers.shiftRightAndCast_denotes_iff (Ethers.sample_documented sampleKeccak)
    (.bigNumber (2^200 + 5)) (2^200 + 5) 144 48 rfl (by decide) (by decide)).mpr (by decide)

/-- **A small number is not cast.** -/
theorem not_shiftRightAndCast_denotes :
    (¬ ∃ ds, Digits ds ∧ ds ≠ [] ∧ value ds = (1 >>> 0) % 2^48 ∧
        (Ethers.sample sampleKeccak).shiftRightAndCast (.bigNumber 1) 0 48
          = .ok (prefixed (write ds))) ∧
      (Ethers.sample sampleKeccak).shiftRightAndCast (.bigNumber 1) 0 48
        = .ok ['0', 'x', '0', 'x', '0', '1'] ∧
      (Ethers.sample sampleKeccak).getPseudorandomPart ['0', 'x', '0', '1'] 2 0 48
        = .error "invalid BigNumber string" := by
  have h : (Ethers.sample sampleKeccak).shiftRightAndCast (.bigNumber 1) 0 48
      = .ok (prefixed (prefixed (write [0, 1]))) := by decide +kernel
  refine ⟨?_, h, by decide +kernel⟩
  rintro ⟨ds, hds, _, _, hok⟩
  exact Ethers.prefixed_twice hds (Except.ok.inj (h.symm.trans hok))

theorem getNounSeedFromBlockHash_eq_iff_run :
    ∃ seed, (Ethers.sample sampleKeccak).getNounSeedFromBlockHash sampleCounts 116 sampleBlockHash
        = .ok seed ∧
      NounsSeeder.generateSeed sampleKeccak sampleBlockHash 116 sampleCounts = .ok seed :=
  (getNounSeedFromBlockHash_eq_iff sampleKeccak (.sample sampleKeccak)
    (Ethers.sample_documented _)
    sampleCounts ⟨by decide, by decide, by decide, by decide, by decide⟩ 116 sampleBlockHash).mpr
    (by decide +kernel)

/-- **The accessory of UNoun 1 is not the one the package shows.** -/
theorem not_getNounSeedFromBlockHash_eq :
    (Ethers.sample sampleKeccak).getNounSeedFromBlockHash sampleCounts 1 sampleBlockHash
        = .ok ⟨0, 44, 2, 39, 26⟩ ∧
      NounsSeeder.generateSeed sampleKeccak sampleBlockHash 1 sampleCounts
        = .ok ⟨0, 44, 1, 39, 26⟩ := by
  decide +kernel

end UNouns
