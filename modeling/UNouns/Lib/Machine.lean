import UNouns.Lib.Abi
import Mathlib.Data.BitVec
import Mathlib.Data.List.GetD

/-!
# A fragment of the virtual machine

Memory, and the instructions that creation code without jumps is made of.  An instruction is one byte,
with the byte after it for `PUSH1`; past the end of the code the machine stops.  Gas is not counted, but
no memory past `2^64` bytes can be paid for.

* `Memory`       a byte for each place, and how much of it is in use;
* `Keeps`        the part of memory that a write leaves;
* `HasBytes`     a byte string, after its length;
* `execute`      the outcome of code, from its first instruction on.
-/

set_option linter.unusedVariables false

namespace Vm
open Abi

abbrev Word := BitVec 256

/-! ## memory -/

structure Memory where
  byte : Nat → UInt8
  /-- `MSIZE` -/
  size : Nat

def Memory.empty : Memory := ⟨fun _ => 0, 0⟩

namespace Memory
variable {m m' : Memory} {place n : Nat} {bs : List UInt8}

def slice (m : Memory) (place n : Nat) : List UInt8 := (List.range n).map fun i => m.byte (place + i)

/-- memory is in use in whole words, and only where something is used of it -/
def touch (m : Memory) (place n : Nat) : Memory :=
  if n = 0 then m else { m with size := max m.size ((place + n + 31) / 32 * 32) }

def write (m : Memory) (place : Nat) (bs : List UInt8) : Memory :=
  { m.touch place bs.length with
    byte := fun i => if place ≤ i then bs.getD (i - place) (m.byte i) else m.byte i }

def load (m : Memory) (place : Nat) : Word := BitVec.ofNat 256 (number (m.slice place 32))

def store (m : Memory) (place : Nat) (w : Word) : Memory := m.write place (word w.toNat)

@[simp] theorem slice_length (m : Memory) (place n : Nat) : (m.slice place n).length = n := by
  rw [slice, List.length_map, List.length_range]

/-- what was written is there -/
theorem slice_write : (m.write place bs).slice place bs.length = bs := by
  refine List.ext_getElem (slice_length _ _ _) fun i hi hi' => ?_
  simp only [slice, List.getElem_map, List.getElem_range]
  show (if place ≤ place + i then bs.getD (place + i - place) _ else _) = _
  rw [if_pos (Nat.le_add_right _ _), Nat.add_sub_cancel_left, List.getD_eq_getElem _ _ hi']

theorem write_nil : m.write place [] = m := by
  have hbyte : (fun i => if place ≤ i then [].getD (i - place) (m.byte i) else m.byte i) = m.byte := by
    funext i
    exact ite_self _
  unfold write
  rw [hbyte]
  rfl

/-! ## what is left as it was -/

/-- no byte from `a` to `b` has changed -/
def Keeps (m m' : Memory) (a b : Nat) : Prop := ∀ i, a ≤ i → i < b → m'.byte i = m.byte i

theorem Keeps.trans {m'' : Memory} {a b : Nat} (h : Keeps m m' a b) (h' : Keeps m' m'' a b) :
    Keeps m m'' a b := fun i ha hb => (h' i ha hb).trans (h i ha hb)

theorem Keeps.mono {a b a' b' : Nat} (h : Keeps m m' a b) (ha : a ≤ a') (hb : b' ≤ b) :
    Keeps m m' a' b' := fun i hi hi' => h i (Nat.le_trans ha hi) (Nat.lt_of_lt_of_le hi' hb)

theorem write_keeps {a b : Nat} (h : b ≤ place ∨ place + bs.length ≤ a) : Keeps m (m.write place bs) a b := by
  intro i ha hb
  show (if place ≤ i then bs.getD (i - place) (m.byte i) else m.byte i) = m.byte i
  split_ifs with hi
  · exact List.getD_eq_default _ _ (by omega)
  · rfl

theorem Keeps.slice {a b : Nat} (h : Keeps m m' a b) (ha : a ≤ place) (hb : place + n ≤ b) :
    m'.slice place n = m.slice place n := by
  refine List.map_congr_left fun i hi => h _ (by omega) ?_
  have hlt := List.mem_range.mp hi
  omega

theorem Keeps.load {a b : Nat} (h : Keeps m m' a b) (ha : a ≤ place) (hb : place + 32 ≤ b) :
    m'.load place = m.load place := by
  unfold Memory.load
  rw [h.slice ha hb]

theorem load_store {w : Word} : (m.store place w).load place = w := by
  have hs : (m.store place w).slice place 32 = word w.toNat := by
    have h := @slice_write m place (word w.toNat)
    rwa [word_length] at h
  rw [load, hs, word, number_bytes 32 (by exact w.isLt), BitVec.ofNat_toNat, BitVec.setWidth_eq]

theorem store_keeps {a b : Nat} {w : Word} (h : b ≤ place ∨ place + 32 ≤ a) :
    Keeps m (m.store place w) a b :=
  write_keeps (by rwa [word_length])

/-! ## byte strings -/

/-- `bytes memory`: its length, and then its bytes -/
structure HasBytes (m : Memory) (place : Nat) (bs : List UInt8) : Prop where
  length : (m.load place).toNat = bs.length
  bytes : m.slice (place + 32) bs.length = bs

def bytesAt (m : Memory) (place : Nat) : List UInt8 := m.slice (place + 32) (m.load place).toNat

theorem HasBytes.bytesAt (h : m.HasBytes place bs) : m.bytesAt place = bs := by
  rw [Memory.bytesAt, h.length, h.bytes]

theorem HasBytes.kept {a b : Nat} (h : m.HasBytes place bs) (hk : Keeps m m' a b) (ha : a ≤ place)
    (hb : place + 32 + bs.length ≤ b) : m'.HasBytes place bs := by
  refine ⟨?_, ?_⟩
  · rw [hk.load ha (by omega), h.length]
  · rw [hk.slice (by omega) hb, h.bytes]

/-- a length, and the bytes after it -/
theorem hasBytes_write (hn : bs.length < 2^256) :
    ((m.store place (BitVec.ofNat 256 bs.length)).write (place + 32) bs).HasBytes place bs := by
  refine ⟨?_, slice_write⟩
  rw [(write_keeps (.inl (Nat.le_refl _))).load (Nat.le_refl place) (Nat.le_refl _), load_store,
    BitVec.toNat_ofNat, Nat.mod_eq_of_lt hn]

end Memory

/-! ## instructions -/

/-- the end of a run of the machine -/
inductive Outcome where
  | returned (data : List UInt8)
  | failed
  /-- there is an instruction that is not modelled here -/
  | unknown

/-- bytes of code, with zeros past its end -/
def codeSlice (code : List UInt8) (place n : Nat) : List UInt8 :=
  (List.range n).map fun i => code.getD (place + i) 0

theorem codeSlice_length (code : List UInt8) (place n : Nat) : (codeSlice code place n).length = n := by
  rw [codeSlice, List.length_map, List.length_range]

theorem codeSlice_eq {code : List UInt8} {place n : Nat} (h : place + n ≤ code.length) :
    codeSlice code place n = (code.drop place).take n := by
  refine List.ext_getElem ?_ fun i hi hi' => ?_
  · rw [codeSlice_length, List.length_take, List.length_drop]
    omega
  · rw [codeSlice_length] at hi
    simp only [codeSlice, List.getElem_map, List.getElem_range, List.getElem_take, List.getElem_drop]
    exact List.getD_eq_getElem _ _ (by omega)

/-- what one instruction does, other than `PUSH1` -/
def instruction (code : List UInt8) (op : UInt8) (s : List Word) (m : Memory) :
    Except Outcome (List Word × Memory) :=
  let push := fun w => if s.length < 1024 then .ok (w :: s, m) else .error .failed
  if op = 0x00 then .error (.returned [])                     -- STOP
  else if op = 0x38 then push (BitVec.ofNat 256 code.length)  -- CODESIZE
  else if op = 0x59 then push (BitVec.ofNat 256 m.size)       -- MSIZE
  else if 0x80 ≤ op ∧ op ≤ 0x8f then                          -- DUP1 to DUP16
    match s[op.toNat - 0x80]? with
    | some w => push w
    | none => .error .failed
  else if 0x90 ≤ op ∧ op ≤ 0x9f then                          -- SWAP1 to SWAP16
    match s, s[op.toNat - 0x8f]? with
    | top :: below, some w => .ok (w :: below.set (op.toNat - 0x90) top, m)
    | _, _ => .error .failed
  else
    match op, s with
    | 0x03, x :: y :: s => .ok ((x - y) :: s, m)                -- SUB
    | 0x39, dst :: src :: n :: s =>                            -- CODECOPY
      if n = 0 then .ok (s, m)
      else if dst.toNat + n.toNat ≤ 2^64 then
        .ok (s, m.write dst.toNat (codeSlice code src.toNat n.toNat))
      else .error .failed
    | 0xf3, src :: n :: _ =>                                   -- RETURN
      if n = 0 ∨ src.toNat + n.toNat ≤ 2^64 then .error (.returned (m.slice src.toNat n.toNat))
      else .error .failed
    | 0x03, _ => .error .failed
    | 0x39, _ => .error .failed
    | 0xf3, _ => .error .failed
    | _, _ => .error .unknown

/-- the instructions from `rest` on, in code `code` -/
def execute (code : List UInt8) : List UInt8 → List Word → Memory → Outcome
  | [], _, _ => .returned []
  | [0x60], _, _ => .returned []
  | 0x60 :: b :: rest, s, m =>                                 -- PUSH1
    if s.length < 1024 then execute code rest (BitVec.ofNat 256 b.toNat :: s) m else .failed
  | op :: rest, s, m =>
    match instruction code op s m with
    | .ok (s, m) => execute code rest s m
    | .error outcome => outcome

/-- a call of a contract with this code -/
def run (code : List UInt8) : Outcome := execute code code [] .empty

section
variable {code rest : List UInt8} {op : UInt8} {s s' : List Word} {m m' : Memory} {o : Outcome}

/-- an instruction that is not `PUSH1`, and goes on -/
theorem execute_ok (hop : op ≠ 0x60) (h : instruction code op s m = .ok (s', m')) :
    execute code (op :: rest) s m = execute code rest s' m' := by
  rw [execute.eq_4 _ _ _ _ _ (fun hpush _ => hop hpush) (fun _ _ hpush _ => hop hpush), h]

theorem execute_error (hop : op ≠ 0x60) (h : instruction code op s m = .error o) :
    execute code (op :: rest) s m = o := by
  rw [execute.eq_4 _ _ _ _ _ (fun hpush _ => hop hpush) (fun _ _ hpush _ => hop hpush), h]

end

end Vm
