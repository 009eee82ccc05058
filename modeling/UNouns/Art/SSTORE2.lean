import UNouns.Lib.Machine
import UNouns.Art.NounsArt

/-!
# `SSTORE2`, byte by byte

The library itself: the memory that its assembly writes to, and the creation code that it deploys.  The
byte strings of a call are in its memory, each after its length, below the free memory pointer; how many
bytes the compiler leaves between two of them is left open.

* `Frame`             the memory of a call, and the code of all contracts;
* `Frame.write`       `write`, with the creation code;
* `readBytecode`      the assembly that reads;
* `Frame.Arranged`       which byte strings are in memory;
* `Depot`             what the library is for: byte strings, and contracts that are one;
* `sstore2_exact`     any run of the library does what the store does.
-/

set_option linter.unusedVariables false

namespace UNouns.Art
open Function Vm

/-! ## the library -/

inductive Failure where
  | outOfGas
  | revert (r : Revert)
  deriving DecidableEq

abbrev Attempt := Except Failure

def attempt {α : Type} : Result α → Attempt α
  | .ok a => .ok a
  | .error e => .error (.revert e)

structure Frame where
  memory : Memory
  code : Bytecode
  /-- the places of the byte strings in memory that the caller knows of -/
  places : List Word

namespace Frame

def start (code : Bytecode) : Frame := ⟨Memory.empty.store 0x40 0x80, code, []⟩

def mstore (f : Frame) (place w : Word) : Attempt Frame :=
  if place.toNat + 32 ≤ 2^64 then .ok { f with memory := f.memory.store place.toNat w }
  else .error .outOfGas

def copy (f : Frame) (place : Word) (bs : Bytes) : Attempt Frame :=
  if bs = [] then .ok f
  else if place.toNat + bs.length ≤ 2^64 then .ok { f with memory := f.memory.write place.toNat bs }
  else .error .outOfGas

/-- a new byte string, as `abi.encodePacked` makes it -/
def allocate (f : Frame) (bs : Bytes) (gap : Fin 32) : Attempt (Word × Frame) := do
  let place := f.memory.load 0x40
  let f ← f.mstore 0x40 (place + BitVec.ofNat 256 (32 + bs.length + gap))
  let f ← f.mstore place (BitVec.ofNat 256 bs.length)
  let f ← f.copy (place + 32) bs
  pure (place, f)

/-- `create(0, place, size)`, where `created` is the address that a new contract gets -/
def create (f : Frame) (created : Address) (place size : Word) : Address × Frame :=
  if f.code created ≠ [] then (0, f)
  else
    match Vm.run (f.memory.slice place.toNat size.toNat) with
    | .returned code =>
      if code.length ≤ 24576 ∧ code.head? ≠ some 0xef then
        (created, { f with code := update f.code created code })
      else (0, f)
    | _ => (0, f)

def creationPrefix : Bytes := [0x60, 0x0B, 0x59, 0x81, 0x38, 0x03, 0x80, 0x92, 0x59, 0x39, 0xF3]

def write (f : Frame) (created : Address) (data : Word) (gap gap' : Fin 32) : Attempt (Address × Frame) := do
  let (runtimeCode, f) ← f.allocate (0x00 :: f.memory.bytesAt data.toNat) gap
  let (creationCode, f) ← f.allocate (creationPrefix ++ f.memory.bytesAt runtimeCode.toNat) gap'
  let (pointer, f) := f.create created (creationCode + 32) (f.memory.load creationCode.toNat)
  attempt (require (pointer ≠ 0) "DEPLOYMENT_FAILED")
  pure (pointer, f)

def readBytecode (f : Frame) (pointer : Address) (start size : Nat) : Attempt (Word × Frame) := do
  let data := f.memory.load 0x40
  let f ← f.mstore 0x40 (data + ((BitVec.ofNat 256 size + 32 + 31) &&& ~~~(31 : Word)))
  let f ← f.mstore data (BitVec.ofNat 256 size)
  let f ← f.copy (data + 32) (codeSlice (f.code pointer) start size)
  pure (data, f)

def read (f : Frame) (pointer : Address) : Attempt (Word × Frame) := do
  let size ← attempt (checkedSub (f.code pointer).length 1)
  f.readBytecode pointer 1 size

/-- `read` with a start -/
def readFrom (f : Frame) (pointer : Address) (start : Nat) : Attempt (Word × Frame) := do
  let start ← attempt (checkedAdd start 1)
  let size ← attempt (checkedSub (f.code pointer).length start)
  f.readBytecode pointer start size

/-- `read` with a start and an end -/
def readBetween (f : Frame) (pointer : Address) (start stop : Nat) : Attempt (Word × Frame) := do
  let start ← attempt (checkedAdd start 1)
  let stop ← attempt (checkedAdd stop 1)
  attempt (require ((f.code pointer).length ≥ stop) "OUT_OF_BOUNDS")
  let size ← attempt (checkedSub stop start)
  f.readBytecode pointer start size

end Frame

/-! ## agreement with a plain computation -/

/-- the same value or the same revert, unless it runs out of gas -/
def Agrees {α β : Type} (x : Attempt α) (y : Result β) (R : α → β → Prop) : Prop :=
  match x with
  | .ok a => ∃ b, y = .ok b ∧ R a b
  | .error .outOfGas => True
  | .error (.revert e) => y = .error e

section
variable {α β γ δ : Type} {x : Attempt α} {y : Result β} {R : α → β → Prop} {S : γ → δ → Prop}

theorem Agrees.bind {f : α → Attempt γ} {g : β → Result δ} (h : Agrees x y R)
    (hf : ∀ a b, R a b → Agrees (f a) (g b) S) : Agrees (x >>= f) (y >>= g) S := by
  rcases x with (_ | e) | a
  · trivial
  · obtain rfl : y = .error e := h
    rfl
  · obtain ⟨b, rfl, hab⟩ := h
    exact hf a b hab

theorem Agrees.mono {R' : α → β → Prop} (h : Agrees x y R) (hR : ∀ a b, R a b → R' a b) :
    Agrees x y R' := by
  rcases x with (_ | e) | a
  · trivial
  · exact h
  · obtain ⟨b, hb, hab⟩ := h
    exact ⟨b, hb, hR a b hab⟩

theorem Agrees.attempt (y : Result β) : Agrees (UNouns.Art.attempt y) y fun a b => a = b ∧ y = .ok b := by
  cases y with
  | error e => rfl
  | ok b => exact ⟨b, rfl, rfl, rfl⟩

theorem Agrees.and {P : β → Prop} (h : Agrees x y R) (hP : ∀ b, y = .ok b → P b) :
    Agrees x y fun a b => R a b ∧ P b := by
  rcases x with (_ | e) | a
  · trivial
  · exact h
  · obtain ⟨b, hb, hab⟩ := h
    exact ⟨b, hb, hab, hP b hb⟩

end

/-! ## byte strings in memory -/

section
variable {f : Frame} {m m' : Memory} {places : List Word} {objects : List Bytes}

/-- the free memory pointer, and a byte string below it -/
structure Lies (m : Memory) (place : Word) (bs : Bytes) : Prop where
  low : 0x60 ≤ place.toNat
  high : place.toNat + 32 + bs.length ≤ (m.load 0x40).toNat
  bytes : m.HasBytes place.toNat bs

structure Arranged (m : Memory) (places : List Word) (objects : List Bytes) : Prop where
  low : 0x60 ≤ (m.load 0x40).toNat
  high : (m.load 0x40).toNat < 2^64 + 32
  lie : List.Forall₂ (Lies m) places objects

/-- a byte string is put behind all others -/
theorem Arranged.push {bs : Bytes} {free : Word} (h : Arranged m places objects)
    (hlow : (m.load 0x40).toNat + 32 + bs.length ≤ free.toNat) (hhigh : free.toNat < 2^64 + 32) :
    Arranged (((m.store 0x40 free).store (m.load 0x40).toNat (BitVec.ofNat 256 bs.length)).write
      ((m.load 0x40).toNat + 32) bs) (m.load 0x40 :: places) (bs :: objects) := by
  set data := m.load 0x40 with hdata
  set m1 := m.store 0x40 free with hm1
  set m2 := m1.store data.toNat (BitVec.ofNat 256 bs.length) with hm2
  have hlow' : 0x60 ≤ data.toNat := h.low
  -- the pointer is below the string, and the other strings between them
  have hk1 : m.Keeps m1 0x60 data.toNat := Memory.store_keeps (.inr (Nat.le_refl _))
  have hk2 : m1.Keeps m2 0 data.toNat := Memory.store_keeps (.inl (Nat.le_refl _))
  have hk3 : m2.Keeps (m2.write (data.toNat + 32) bs) 0 (data.toNat + 32) :=
    Memory.write_keeps (.inl (Nat.le_refl _))
  have hkeeps : m.Keeps (m2.write (data.toNat + 32) bs) 0x60 data.toNat :=
    (hk1.trans (hk2.mono (Nat.zero_le _) (Nat.le_refl _))).trans
      (hk3.mono (Nat.zero_le _) (Nat.le_add_right _ _))
  have hfree : (m2.write (data.toNat + 32) bs).load 0x40 = free := by
    have hk := hk2.trans (hk3.mono (Nat.le_refl _) (Nat.le_add_right _ _))
    rw [hk.load (Nat.zero_le _) (by omega), hm1, Memory.load_store]
  refine ⟨by rw [hfree]; omega, by rw [hfree]; exact hhigh, .cons ⟨h.low, ?_, ?_⟩ (h.lie.imp ?_)⟩
  · rw [hfree]
    exact hlow
  · exact Memory.hasBytes_write (by omega)
  · intro place object hl
    have hend : place.toNat + 32 + object.length ≤ data.toNat := hl.high
    refine ⟨hl.low, ?_, hl.bytes.kept hkeeps hl.low hl.high⟩
    rw [hfree]
    omega

end

/-! ## what the library does to memory -/

section
variable {f : Frame} {places : List Word} {objects : List Bytes} {β γ : Type}
  {y : Result β} {S : γ → β → Prop} {k : Frame → Attempt γ}

theorem mstore_bind {place w : Word} (hk : place.toNat + 32 ≤ 2^64 →
    Agrees (k { f with memory := f.memory.store place.toNat w }) y S) : Agrees (f.mstore place w >>= k) y S := by
  unfold Frame.mstore
  split_ifs with h
  · exact hk h
  · trivial

theorem copy_bind {place : Word} {bs : Bytes} (hk : bs = [] ∨ place.toNat + bs.length ≤ 2^64 →
    Agrees (k { f with memory := f.memory.write place.toNat bs }) y S) : Agrees (f.copy place bs >>= k) y S := by
  unfold Frame.copy
  split_ifs with h h'
  · have hk := hk (.inl h)
    rw [h, Memory.write_nil] at hk
    exact hk
  · exact hk (.inr h')
  · trivial

/-- a step that fails only for want of gas -/
theorem Agrees.after {α : Type} {x : Attempt α} {Q : α → Prop} {k : α → Attempt γ}
    (h : Agrees x (.ok () : Result Unit) fun a _ => Q a) (hk : ∀ a, Q a → Agrees (k a) y S) :
    Agrees (x >>= k) y S :=
  Agrees.bind (g := fun _ => y) h fun a _ ha => hk a ha

/-- the place after the length -/
theorem toNat_add_32 {place : Word} (h : place.toNat < 2^64 + 32) : (place + 32).toNat = place.toNat + 32 := by
  rw [BitVec.toNat_add]
  exact Nat.mod_eq_of_lt (by simp; omega)

theorem allocate_agrees (h : Arranged f.memory places objects) (bs : Bytes) (gap : Fin 32) :
    Agrees (f.allocate bs gap) (.ok () : Result Unit) fun r _ =>
      r.2.code = f.code ∧ r.2.places = f.places ∧ Arranged r.2.memory (r.1 :: places) (bs :: objects) := by
  refine mstore_bind fun _ => mstore_bind fun h2 => copy_bind fun h3 => ⟨(), rfl, rfl, rfl, ?_⟩
  have hgap := gap.isLt
  have hhigh := h.high
  rw [toNat_add_32 hhigh] at h3 ⊢
  have hfits : (f.memory.load 0x40).toNat + 32 + bs.length ≤ 2^64 := by
    rcases h3 with rfl | h3
    · exact h2
    · exact h3
  have hfree : (f.memory.load 0x40 + BitVec.ofNat 256 (32 + bs.length + gap)).toNat =
      (f.memory.load 0x40).toNat + (32 + bs.length + gap) := by
    rw [BitVec.toNat_add, BitVec.toNat_ofNat]
    omega
  exact h.push (by omega) (by omega)

/-- `and(x, not(31))` -/
theorem toNat_and_not_31 (x : Word) : (x &&& ~~~(31 : Word)).toNat = x.toNat / 32 * 32 := by
  have hshift : x &&& ~~~(31 : Word) = (x >>> 5) <<< 5 := by
    refine BitVec.eq_of_getLsbD_eq fun i hi => ?_
    have h31 : (31 : Word).getLsbD i = decide (i < 5) := by
      show Nat.testBit (2^5 - 1) i = _
      exact Nat.testBit_two_pow_sub_one ..
    rw [BitVec.getLsbD_and, BitVec.getLsbD_not, BitVec.getLsbD_shiftLeft, BitVec.getLsbD_ushiftRight, h31]
    by_cases h5 : i < 5
    · simp [h5]
    · have hi' : 5 + (i - 5) = i := by omega
      simp [hi, h5, hi']
  have hlt := x.isLt
  rw [hshift, BitVec.toNat_shiftLeft, BitVec.toNat_ushiftRight, Nat.shiftLeft_eq, Nat.shiftRight_eq_div_pow]
  omega

theorem readBytecode_agrees (h : Arranged f.memory places objects) (pointer : Address) (start size : Nat) :
    Agrees (f.readBytecode pointer start size) (.ok () : Result Unit) fun r _ =>
      r.2.code = f.code ∧ r.2.places = f.places ∧
        Arranged r.2.memory (r.1 :: places) (codeSlice (f.code pointer) start size :: objects) := by
  refine mstore_bind fun _ => mstore_bind fun h2 => copy_bind fun h3 => ⟨(), rfl, rfl, rfl, ?_⟩
  have hhigh := h.high
  have hlen := codeSlice_length (f.code pointer) start size
  rw [toNat_add_32 hhigh] at h3 ⊢
  have hfits : (f.memory.load 0x40).toNat + 32 + size ≤ 2^64 := by
    rcases h3 with h3 | h3
    · rw [h3] at hlen
      rw [← hlen]
      exact h2
    · rwa [hlen] at h3
  have hfree : (f.memory.load 0x40 + ((BitVec.ofNat 256 size + 32 + 31) &&& ~~~(31 : Word))).toNat =
      (f.memory.load 0x40).toNat + (size + 63) / 32 * 32 := by
    have h32 : (32 : Word).toNat = 32 := rfl
    have h31 : (31 : Word).toNat = 31 := rfl
    have hsum : (BitVec.ofNat 256 size + 32 + 31).toNat = size + 63 := by
      rw [BitVec.toNat_add, BitVec.toNat_add, BitVec.toNat_ofNat, h32, h31]
      omega
    rw [BitVec.toNat_add, toNat_and_not_31, hsum]
    omega
  have hpush := @Arranged.push f.memory places objects (codeSlice (f.code pointer) start size) _ h
    (by rw [hfree, hlen]; omega) (by rw [hfree]; omega)
  rwa [hlen] at hpush

/-- the creation code returns what follows it -/
theorem run_creation {b : UInt8} {data : Bytes} (hsize : 11 + (b :: data).length ≤ 2^64) :
    Vm.run (Frame.creationPrefix ++ b :: data) = .returned (b :: data) := by
  set code := Frame.creationPrefix ++ b :: data with hcode
  set n : Word := BitVec.ofNat 256 (b :: data).length with hn
  have hlen : code.length = 11 + (b :: data).length := by rw [hcode, List.length_append]; rfl
  have hsub : BitVec.ofNat 256 code.length - 11 = n := by
    have h11 : (11 : Word).toNat = 11 := rfl
    refine BitVec.eq_of_toNat_eq ?_
    rw [BitVec.toNat_sub, hn, BitVec.toNat_ofNat, BitVec.toNat_ofNat, h11, hlen]
    omega
  have hnat : n.toNat = (b :: data).length := by
    rw [hn, BitVec.toNat_ofNat]
    omega
  have hne : n ≠ 0 := fun h => by
    rw [h] at hnat
    cases hnat
  have hdata : codeSlice code 11 n.toNat = b :: data := by
    rw [codeSlice_eq (by rw [hnat, hlen]), hnat]
    exact List.take_length
  have hcopy : instruction code 0x39 [0, 11, n, 0, n] .empty =
      .ok ([0, n], Memory.empty.write 0 (b :: data)) := by
    show (if n = 0 then _ else if 0 + n.toNat ≤ 2^64 then
      Except.ok ([0, n], Memory.empty.write 0 (codeSlice code 11 n.toNat)) else _) = _
    rw [if_neg hne, if_pos (by omega), hdata]
  have hreturn : ∀ m, instruction code 0xF3 [0, n] m = .error (.returned (m.slice 0 n.toNat)) := fun m =>
    if_pos (.inr (show 0 + n.toNat ≤ 2^64 by omega))
  calc Vm.run code
      = execute code (0x39 :: 0xF3 :: b :: data) [0, 11, BitVec.ofNat 256 code.length - 11, 0,
          BitVec.ofNat 256 code.length - 11] .empty := rfl
    _ = execute code (0x39 :: 0xF3 :: b :: data) [0, 11, n, 0, n] .empty := by rw [hsub]
    _ = execute code (0xF3 :: b :: data) [0, n] (Memory.empty.write 0 (b :: data)) :=
      execute_ok (by decide) hcopy
    _ = .returned ((Memory.empty.write 0 (b :: data)).slice 0 n.toNat) :=
      execute_error (by decide) (hreturn _)
    _ = .returned (b :: data) := by rw [hnat, Memory.slice_write]

theorem create_eq {created : Address} {place : Word} {bs : Bytes}
    (h : Lies f.memory place (Frame.creationPrefix ++ 0x00 :: bs)) (hplace : place.toNat < 2^64 + 32)
    (hsize : 11 + (0x00 :: bs).length ≤ 2^64) :
    f.create created (place + 32) (f.memory.load place.toNat) =
      if f.code created ≠ [] then (0, f)
      else if bs.length < 24576 then (created, { f with code := update f.code created (0x00 :: bs) })
      else (0, f) := by
  have hrun : Vm.run (f.memory.slice (place + 32).toNat (f.memory.load place.toNat).toNat) =
      .returned (0x00 :: bs) := by
    rw [toNat_add_32 hplace, h.bytes.length, h.bytes.bytes]
    exact run_creation hsize
  have hfirst : (0x00 :: bs).head? ≠ some 0xef := fun h => absurd (Option.some.inj h) (by decide)
  unfold Frame.create
  rw [hrun]
  simp only [hfirst, ne_eq, not_false_eq_true, and_true, List.length_cons, Nat.succ_le_iff]

end

/-! ## what the library is for -/

/-- byte strings, the newest first, and contracts -/
structure Depot where
  objects : List Bytes
  code : Bytecode
  /-- what was written, with its pointer -/
  written : List (Address × Bytes)

def SSTORE2.readFrom (code : Bytecode) (pointer : Address) (start : Nat) : Result Bytes := do
  let start ← checkedAdd start 1
  let _ ← checkedSub (code pointer).length start
  pure ((code pointer).drop start)

def SSTORE2.readBetween (code : Bytecode) (pointer : Address) (start stop : Nat) : Result Bytes := do
  let start ← checkedAdd start 1
  let stop ← checkedAdd stop 1
  require ((code pointer).length ≥ stop) "OUT_OF_BOUNDS"
  let size ← checkedSub stop start
  pure (((code pointer).drop start).take size)

section
variable {f : Frame} {places : List Word} {objects : List Bytes}

theorem write_agrees {created : Address} {data : Word} {bs : Bytes} (h : Arranged f.memory places objects)
    (hdata : f.memory.HasBytes data.toNat bs) (gap gap' : Fin 32) :
    Agrees (f.write created data gap gap')
      (SSTORE2.write f.code (if bs.length < 24576 then created else 0) bs) fun r s =>
        r.1 = s.1 ∧ r.2.code = s.2 ∧ r.2.places = f.places ∧ Arranged r.2.memory places objects := by
  refine (allocate_agrees h _ gap).after fun ⟨runtimeCode, f1⟩ ⟨hcode1, hplaces1, h1⟩ => ?_
  refine (allocate_agrees h1 _ gap').after fun ⟨creationCode, f2⟩ ⟨hcode2, hplaces2, h2⟩ => ?_
  obtain ⟨hlow, hhigh, hlie⟩ := h2
  rcases hlie with _ | ⟨hcreation, _ | ⟨_, hlie⟩⟩
  have hruntime : f1.memory.bytesAt runtimeCode.toNat = 0x00 :: bs := by
    cases h1.lie with
    | cons hl _ => rw [hl.bytes.bytesAt, hdata.bytesAt]
  rw [hruntime] at hcreation
  have hend := hcreation.high
  have hlen : (Frame.creationPrefix ++ 0x00 :: bs).length = 11 + (0x00 :: bs).length := List.length_append
  have hcreate := @create_eq f2 created _ _ hcreation (by omega) (by omega)
  have hcode : f2.code = f.code := hcode2.trans hcode1
  have hplaces : f2.places = f.places := hplaces2.trans hplaces1
  show Agrees (match f2.create created (creationCode + 32) (f2.memory.load creationCode.toNat) with
    | (pointer, f) => attempt (require (pointer ≠ 0) "DEPLOYMENT_FAILED") >>= fun _ => pure (pointer, f)) _ _
  rw [hcreate, hcode]
  unfold SSTORE2.write
  by_cases hfresh : f.code created = []
  · rw [if_neg (not_not.mpr hfresh)]
    by_cases hsmall : bs.length < 24576
    · rw [if_pos hsmall, if_pos hsmall, if_pos hfresh]
      exact (Agrees.attempt _).bind fun _ _ _ => ⟨_, rfl, rfl, rfl, hplaces, hlow, hhigh, hlie⟩
    · have hzero : (if f.code 0 = [] then (0 : Address) else 0) = 0 := ite_self _
      rw [if_neg hsmall, if_neg hsmall, hzero]
      exact (Agrees.attempt _).bind fun _ _ h => absurd (require_eq_ok.mp h.2) (not_not.mpr rfl)
  · have hzero : (if f.code (if bs.length < 24576 then created else 0) = [] then
        (if bs.length < 24576 then created else 0) else 0) = 0 := by
      split_ifs <;> rfl
    rw [if_pos hfresh, hzero]
    exact (Agrees.attempt _).bind fun _ _ h => absurd (require_eq_ok.mp h.2) (not_not.mpr rfl)

/-- what was allocated is the value -/
theorem Agrees.value {α β : Type} {x : Attempt α} {Q : α → Prop} {R : α → β → Prop} {b : β}
    (h : Agrees x (.ok () : Result Unit) fun a _ => Q a) (hR : ∀ a, Q a → R a b) :
    Agrees x (.ok b) R := by
  rcases x with (_ | e) | a
  · trivial
  · cases h
  · obtain ⟨_, _, ha⟩ := h
    exact ⟨b, rfl, hR a ha⟩

/-- a byte string was read into memory -/
def Fetched (f : Frame) (places : List Word) (objects : List Bytes) (r : Word × Frame) (data : Bytes) : Prop :=
  r.2.code = f.code ∧ r.2.places = f.places ∧ Arranged r.2.memory (r.1 :: places) (data :: objects)

/-- from a place to the end of the code -/
theorem readBytecode_rest (h : Arranged f.memory places objects) (pointer : Address) (start : Nat) :
    Agrees (attempt (checkedSub (f.code pointer).length start) >>= f.readBytecode pointer start)
      (checkedSub (f.code pointer).length start >>= fun _ => pure ((f.code pointer).drop start))
      (Fetched f places objects) := by
  refine (Agrees.attempt _).bind fun size _ ⟨e, hsize⟩ => (readBytecode_agrees h pointer start size).value ?_
  obtain ⟨hle, rfl⟩ := checkedSub_eq_ok.mp hsize
  rintro r ⟨hcode, hplaces, hholds⟩
  rw [e, codeSlice_eq (by omega), List.take_of_length_le (by rw [List.length_drop])] at hholds
  exact ⟨hcode, hplaces, hholds⟩

theorem read_agrees (h : Arranged f.memory places objects) (pointer : Address) :
    Agrees (f.read pointer) (SSTORE2.read f.code pointer) (Fetched f places objects) :=
  readBytecode_rest h pointer 1

theorem readFrom_agrees (h : Arranged f.memory places objects) (pointer : Address) (start : Nat) :
    Agrees (f.readFrom pointer start) (SSTORE2.readFrom f.code pointer start) (Fetched f places objects) := by
  refine (Agrees.attempt _).bind ?_
  rintro start _ ⟨rfl, _⟩
  exact readBytecode_rest h pointer start

theorem readBetween_agrees (h : Arranged f.memory places objects) (pointer : Address) (start stop : Nat) :
    Agrees (f.readBetween pointer start stop) (SSTORE2.readBetween f.code pointer start stop)
      (Fetched f places objects) := by
  refine (Agrees.attempt _).bind ?_
  rintro start _ ⟨rfl, _⟩
  refine (Agrees.attempt _).bind ?_
  rintro stop _ ⟨rfl, _⟩
  refine (Agrees.attempt _).bind fun _ _ ⟨_, hlength⟩ => (Agrees.attempt _).bind ?_
  rintro size _ ⟨rfl, hsize⟩
  refine (readBytecode_agrees h pointer start size).value ?_
  obtain ⟨hle, rfl⟩ := checkedSub_eq_ok.mp hsize
  have hlen := require_eq_ok.mp hlength
  rintro r ⟨hcode, hplaces, hholds⟩
  rw [codeSlice_eq (by omega)] at hholds
  exact ⟨hcode, hplaces, hholds⟩

end

/-! ## runs -/

/-- another contract is created -/
def deployed (code : Bytecode) (created : Address) (new : Bytes) : Bytecode :=
  if code created = [] then update code created new else code

/-- a contract destroys itself, if it has an instruction for that -/
def destroyed (code : Bytecode) (contract : Address) : Bytecode :=
  match Vm.run (code contract) with
  | .unknown => update code contract []
  | _ => code

/-- code that stops at once does not destroy itself -/
theorem destroyed_of_returns {code : Bytecode} {contract pointer : Address} {data : Bytes}
    (h : Vm.run (code pointer) = .returned data) :
    destroyed code contract pointer = code pointer := by
  unfold destroyed
  cases hrun : Vm.run (code contract) with
  | unknown =>
    refine update_of_ne (fun e => ?_) _ _
    rw [e, hrun] at h
    cases h
  | failed => rfl
  | returned _ => rfl

/-- the uses of the library by a call, and what else happens to contracts meanwhile; byte strings are
counted from the newest -/
inductive Use where
  | allocate (bs : Bytes) (gap : Fin 32)
  | write (object : Nat) (created : Address) (gap gap' : Fin 32)
  | read (pointer : Address)
  | readFrom (pointer : Address) (start : Nat)
  | readBetween (pointer : Address) (start stop : Nat)
  | deployed (created : Address) (new : Bytes)
  | destroyed (contract : Address)

def Frame.keep (r : Word × Frame) : Frame := { r.2 with places := r.1 :: r.2.places }

def Frame.apply (f : Frame) : Use → Attempt Frame
  | .allocate bs gap => f.allocate bs gap >>= fun r => pure (keep r)
  | .write object created gap gap' =>
    match f.places[object]? with
    | some data => f.write created data gap gap' >>= fun r => pure r.2
    | none => pure f
  | .read pointer => f.read pointer >>= fun r => pure (keep r)
  | .readFrom pointer start => f.readFrom pointer start >>= fun r => pure (keep r)
  | .readBetween pointer start stop => f.readBetween pointer start stop >>= fun r => pure (keep r)
  | .deployed created new => pure { f with code := deployed f.code created new }
  | .destroyed contract => pure { f with code := destroyed f.code contract }

def Depot.keep (s : Depot) (data : Bytes) : Depot := { s with objects := data :: s.objects }

def Depot.apply (s : Depot) : Use → Result Depot
  | .allocate bs _ => pure (s.keep bs)
  | .write object created _ _ =>
    match s.objects[object]? with
    | some data => do
      let r ← SSTORE2.write s.code (if data.length < 24576 then created else 0) data
      pure { s with code := r.2, written := (r.1, data) :: s.written }
    | none => pure s
  | .read pointer => SSTORE2.read s.code pointer >>= fun data => pure (s.keep data)
  | .readFrom pointer start => SSTORE2.readFrom s.code pointer start >>= fun data => pure (s.keep data)
  | .readBetween pointer start stop =>
    SSTORE2.readBetween s.code pointer start stop >>= fun data => pure (s.keep data)
  | .deployed created new => pure { s with code := deployed s.code created new }
  | .destroyed contract => pure { s with code := destroyed s.code contract }

/-- the machine and the store in step -/
structure InStep (f : Frame) (s : Depot) : Prop where
  code : f.code = s.code
  holds : Arranged f.memory f.places s.objects

theorem forall₂_getElem? {α β : Type} {R : α → β → Prop} {xs : List α} {ys : List β}
    (h : List.Forall₂ R xs ys) : ∀ i : Nat, xs[i]? = none ∧ ys[i]? = none ∨
      ∃ x y, xs[i]? = some x ∧ ys[i]? = some y ∧ R x y := by
  induction h with
  | nil => exact fun i => .inl ⟨rfl, rfl⟩
  | cons hxy _ ih =>
    intro i
    cases i with
    | zero => exact .inr ⟨_, _, rfl, rfl, hxy⟩
    | succ i => exact ih i

theorem InStep.apply {f : Frame} {s : Depot} (h : InStep f s) (c : Use) :
    Agrees (f.apply c) (s.apply c) InStep := by
  obtain ⟨hcode, hholds⟩ := h
  have hkeep : ∀ {r : Word × Frame} {data : Bytes}, Fetched f f.places s.objects r data →
      InStep (Frame.keep r) (s.keep data) := by
    rintro r data ⟨hcode', hplaces, hholds⟩
    refine ⟨hcode'.trans hcode, ?_⟩
    show Arranged r.2.memory (r.1 :: r.2.places) (data :: s.objects)
    rw [hplaces]
    exact hholds
  cases c with
  | allocate bs gap =>
    exact (allocate_agrees hholds bs gap).after fun r hr => ⟨_, rfl, hkeep hr⟩
  | write object created gap gap' =>
    unfold Frame.apply Depot.apply
    rcases forall₂_getElem? hholds.lie object with ⟨hplace, hobject⟩ | ⟨data, bs, hplace, hobject, hlies⟩
    · simp only [hplace, hobject]
      exact ⟨s, rfl, hcode, hholds⟩
    · simp only [hplace, hobject, ← hcode]
      refine (write_agrees hholds hlies.bytes gap gap').bind ?_
      rintro r ⟨pointer, code⟩ ⟨hpointer, hcode', hplaces, hholds'⟩
      refine ⟨_, rfl, hcode', ?_⟩
      rw [hplaces]
      exact hholds'
  | read pointer =>
    unfold Frame.apply Depot.apply
    rw [← hcode]
    exact (read_agrees hholds pointer).bind fun r data hr => ⟨_, rfl, hkeep hr⟩
  | readFrom pointer start =>
    unfold Frame.apply Depot.apply
    rw [← hcode]
    exact (readFrom_agrees hholds pointer start).bind fun r data hr => ⟨_, rfl, hkeep hr⟩
  | readBetween pointer start stop =>
    unfold Frame.apply Depot.apply
    rw [← hcode]
    exact (readBetween_agrees hholds pointer start stop).bind fun r data hr => ⟨_, rfl, hkeep hr⟩
  | deployed created new => exact ⟨_, rfl, by rw [hcode], hholds⟩
  | destroyed contract => exact ⟨_, rfl, by rw [hcode], hholds⟩

/-- what was written is there, each with a pointer of its own -/
structure Depot.Safe (s : Depot) : Prop where
  code : ∀ p ∈ s.written, s.code p.1 = 0x00 :: p.2 ∧ p.2.length < 24576
  nodup : (s.written.map Prod.fst).Nodup

theorem Depot.Safe.of_code {s : Depot} (h : s.Safe) {s' : Depot} (hwritten : s'.written = s.written)
    (hcode : ∀ p ∈ s.written, s'.code p.1 = s.code p.1) : s'.Safe := by
  refine ⟨fun p hp => ?_, by rw [hwritten]; exact h.nodup⟩
  rw [hwritten] at hp
  rw [hcode p hp]
  exact h.code p hp

theorem Depot.Safe.of_read {s s' : Depot} (hs : s.Safe) {x : Result Bytes}
    (h : (x >>= fun data => pure (s.keep data)) = .ok s') : s'.Safe := by
  obtain ⟨data, _, h⟩ := bind_eq_ok.mp h
  obtain rfl := pure_eq_ok.mp h
  exact hs.of_code rfl fun _ _ => rfl

theorem Depot.Safe.apply {s s' : Depot} (hs : s.Safe) {c : Use} (h : s.apply c = .ok s') : s'.Safe := by
  have hnew : ∀ p ∈ s.written, s.code p.1 ≠ [] := fun p hp e => by
    rw [(hs.code p hp).1] at e
    cases e
  cases c with
  | allocate bs gap =>
    obtain rfl := pure_eq_ok.mp h
    exact hs.of_code rfl fun _ _ => rfl
  | write object created gap gap' =>
    unfold Depot.apply at h
    cases hobject : s.objects[object]? with
    | none =>
      simp only [hobject, pure_eq_ok] at h
      exact h ▸ hs
    | some data =>
      simp only [hobject, bind_eq_ok, pure_eq_ok, SSTORE2.write, require_eq_ok] at h
      obtain ⟨_, ⟨_, hp, rfl⟩, rfl⟩ := h
      set created' : Address := if data.length < 24576 then created else 0 with hcreated
      have hfresh : s.code created' = [] := by
        by_contra hf
        exact hp (if_neg hf)
      rw [if_pos hfresh] at hp
      have hsmall : data.length < 24576 := by
        by_contra hl
        exact hp (hcreated.trans (if_neg hl))
      refine ⟨fun p hmem => ?_, ?_⟩
      · rcases List.mem_cons.mp hmem with rfl | hmem
        · exact ⟨update_self _ _ _, hsmall⟩
        · have hne : p.1 ≠ if s.code created' = [] then created' else 0 := by
            rw [if_pos hfresh]
            exact fun e => hnew p hmem (e ▸ hfresh)
          show update s.code _ _ p.1 = _ ∧ _
          rw [update_of_ne hne]
          exact hs.code p hmem
      · refine List.nodup_cons.mpr ⟨fun hmem => ?_, hs.nodup⟩
        obtain ⟨p, hp', e⟩ := List.mem_map.mp hmem
        refine hnew p hp' ?_
        rw [e, if_pos hfresh]
        exact hfresh
  | read pointer => exact hs.of_read h
  | readFrom pointer start => exact hs.of_read h
  | readBetween pointer start stop => exact hs.of_read h
  | deployed created new =>
    obtain rfl := pure_eq_ok.mp h
    refine hs.of_code rfl fun p hp => ?_
    show UNouns.Art.deployed s.code created new p.1 = _
    unfold UNouns.Art.deployed
    split_ifs with hfresh
    · exact update_of_ne (fun e => hnew p hp (by rw [e, hfresh])) _ _
    · rfl
  | destroyed contract =>
    obtain rfl := pure_eq_ok.mp h
    refine hs.of_code rfl fun p hp => ?_
    have hstops : Vm.run (s.code p.1) = .returned [] := by
      rw [(hs.code p hp).1]
      rfl
    exact destroyed_of_returns hstops

theorem Depot.Safe.read {s : Depot} (hs : s.Safe) {pointer : Address} {data : Bytes}
    (h : (pointer, data) ∈ s.written) :
    Vm.run (s.code pointer) = .returned [] ∧ SSTORE2.read s.code pointer = .ok data ∧
      ∀ start stop, start ≤ stop → stop ≤ data.length →
        SSTORE2.readBetween s.code pointer start stop = .ok ((data.drop start).take (stop - start)) := by
  obtain ⟨hcode, hsmall⟩ : s.code pointer = 0x00 :: data ∧ data.length < 24576 := hs.code _ h
  have hlen : (s.code pointer).length = data.length + 1 := by
    rw [hcode]
    rfl
  refine ⟨by rw [hcode]; rfl, bind_eq_ok.mpr ⟨_, checkedSub_eq_ok.mpr ⟨by omega, rfl⟩, by rw [hcode]; rfl⟩,
    fun start stop hle hstop => ?_⟩
  refine bind_eq_ok.mpr ⟨start + 1, checkedAdd_eq_ok.mpr ⟨by omega, rfl⟩, bind_eq_ok.mpr ⟨stop + 1,
    checkedAdd_eq_ok.mpr ⟨by omega, rfl⟩, bind_eq_ok.mpr ⟨(), require_eq_ok.mpr (by omega),
    bind_eq_ok.mpr ⟨_, checkedSub_eq_ok.mpr ⟨by omega, rfl⟩, ?_⟩⟩⟩⟩
  rw [hcode, Nat.add_sub_add_right]
  rfl

def Frame.run (uses : List Use) (f : Frame) : Attempt Frame := uses.foldlM Frame.apply f

def Depot.run (uses : List Use) (s : Depot) : Result Depot := uses.foldlM Depot.apply s

theorem InStep.run {f : Frame} {s : Depot} (h : InStep f s) (hs : s.Safe) (uses : List Use) :
    Agrees (f.run uses) (s.run uses) fun f s => InStep f s ∧ s.Safe := by
  induction uses generalizing f s with
  | nil => exact ⟨s, rfl, h, hs⟩
  | cons c uses ih =>
    unfold Frame.run Depot.run
    rw [List.foldlM_cons, List.foldlM_cons]
    exact ((h.apply c).and fun s' hs' => hs.apply hs').bind fun f' s' ⟨h', hs'⟩ => ih h' hs'

theorem start_inStep (code : Bytecode) : InStep (.start code) ⟨[], code, []⟩ := by
  have hload : (Memory.empty.store 0x40 0x80).load 0x40 = 0x80 := Memory.load_store
  refine ⟨rfl, ?_, ?_, .nil⟩
  · show 0x60 ≤ ((Memory.empty.store 0x40 0x80).load 0x40).toNat
    rw [hload]
    decide
  · show ((Memory.empty.store 0x40 0x80).load 0x40).toNat < _
    rw [hload]
    decide

/-- the byte strings in memory, the newest first -/
def Frame.strings (f : Frame) : List Bytes := f.places.map fun place => f.memory.bytesAt place.toNat

theorem InStep.strings {f : Frame} {s : Depot} (h : InStep f s) : f.strings = s.objects := by
  have hall : ∀ {places : List Word} {objects : List Bytes}, List.Forall₂ (Lies f.memory) places objects →
      (places.map fun place => f.memory.bytesAt place.toNat) = objects := by
    intro places objects h
    induction h with
    | nil => rfl
    | cons hl _ ih => rw [List.map_cons, ih, hl.bytes.bytesAt]
  exact hall h.holds.lie

/-- **The library does what it is for.**  Whatever a call does with it, and whatever contracts are
created or destroyed meanwhile: unless memory runs out, the machine reverts when plain byte strings and
contracts that are one would, and otherwise it has the same byte strings in memory and the same code.
Each pointer that was handed out still has its data, which is read in whole or in part, and calling it
does nothing. -/
theorem sstore2_exact (code : Bytecode) (uses : List Use) :
    Agrees (Frame.run uses (.start code)) (Depot.run uses ⟨[], code, []⟩) fun f s =>
      f.strings = s.objects ∧ f.code = s.code ∧ (s.written.map Prod.fst).Nodup ∧
      ∀ pointer data, (pointer, data) ∈ s.written →
        Vm.run (f.code pointer) = .returned [] ∧ SSTORE2.read f.code pointer = .ok data ∧
        ∀ start stop, start ≤ stop → stop ≤ data.length →
          SSTORE2.readBetween f.code pointer start stop = .ok ((data.drop start).take (stop - start)) := by
  have hsafe : Depot.Safe ⟨[], code, []⟩ := ⟨fun _ h => absurd h List.not_mem_nil, List.nodup_nil⟩
  refine ((start_inStep code).run hsafe uses).mono fun f s ⟨h, hs⟩ => ?_
  refine ⟨h.strings, h.code, hs.nodup, fun pointer data hmem => ?_⟩
  rw [h.code]
  exact hs.read hmem

/-- three bytes are written, read back in whole and in part -/
example : (Frame.run [.allocate [7, 8, 9] 0, .write 0 100 13 5, .read 100, .readBetween 100 1 3]
    (.start fun _ => [])).map Frame.strings = .ok [[8, 9], [7, 8, 9], [7, 8, 9]] := by decide +kernel

end UNouns.Art
