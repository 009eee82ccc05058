import Mathlib.Algebra.GroupWithZero.Nat
import Mathlib.Data.Fintype.Basic
import Mathlib.Data.Fin.Basic
import Mathlib.Logic.Function.Basic

/-!
# What the contracts run on

Addresses, revert data, the block and the message of a call, and the parts of the platform that
are not contract code (`Platform`).

Quantities that count tokens, votes, seconds, blocks or wei are natural numbers.  The widths that
the contracts check themselves (uint96 votes, uint32 blocks and indices, uint16 basis points) are
checked here too, and so are the uint256 operations whose operands a caller or an owner chooses
freely (`checkedAdd`, `checkedSub`).
-/

namespace UNouns

/-- 160 bits; `0` is `address(0)` -/
abbrev Address := Fin (2^160)

instance Address.neZero : NeZero (2^160) := ⟨by decide⟩

abbrev Bytes := List UInt8

/-- the data of a revert -/
inductive Revert where
  | error (text : String)
  | panic (code : Nat)
  | custom (name : String)
  | empty
  deriving DecidableEq, Repr

abbrev Result := Except Revert

def require (c : Prop) [Decidable c] (text : String) : Result Unit :=
  if c then .ok () else .error (.error text)

/-- `if (!c) revert ...` -/
def revertUnless (c : Prop) [Decidable c] (r : Revert) : Result Unit :=
  if c then .ok () else .error r

def checkedAdd (a b : Nat) : Result Nat :=
  if a + b < 2^256 then .ok (a + b) else .error (.panic 0x11)

def checkedSub (a b : Nat) : Result Nat :=
  if b ≤ a then .ok (a - b) else .error (.panic 0x11)

/-! ## successful results -/

@[simp] theorem bind_eq_ok {α β : Type} {x : Result α} {f : α → Result β} {b : β} :
    (x >>= f) = .ok b ↔ ∃ a, x = .ok a ∧ f a = .ok b := by
  cases x with
  | error e => exact ⟨fun h => (by cases h), fun ⟨_, h, _⟩ => (by cases h)⟩
  | ok a => exact ⟨fun h => ⟨a, rfl, h⟩, fun ⟨_, h, h'⟩ => (by cases h; exact h')⟩

@[simp] theorem pure_eq_ok {α : Type} {a b : α} : (pure a : Result α) = .ok b ↔ a = b :=
  ⟨fun h => by cases h; rfl, fun h => h ▸ rfl⟩

theorem map_eq_ok {α β : Type} {f : α → β} {x : Result α} {b : β} :
    x.map f = .ok b ↔ ∃ a, x = .ok a ∧ f a = b := by
  cases x with
  | error e => exact ⟨fun h => (by cases h), fun ⟨_, h, _⟩ => (by cases h)⟩
  | ok a => exact ⟨fun h => ⟨a, rfl, Except.ok.inj h⟩, fun ⟨_, h, h'⟩ => (by cases h; rw [← h']; rfl)⟩

@[simp] theorem require_eq_ok {c : Prop} [Decidable c] {text : String} {u : Unit} :
    require c text = .ok u ↔ c := by
  unfold require
  split <;> simp_all

@[simp] theorem revertUnless_eq_ok {c : Prop} [Decidable c] {r : Revert} {u : Unit} :
    revertUnless c r = .ok u ↔ c := by
  unfold revertUnless
  split <;> simp_all

@[simp] theorem checkedAdd_eq_ok {a b n : Nat} :
    checkedAdd a b = .ok n ↔ a + b < 2^256 ∧ n = a + b := by
  unfold checkedAdd
  split <;> simp_all [eq_comm]

@[simp] theorem checkedSub_eq_ok {a b n : Nat} :
    checkedSub a b = .ok n ↔ b ≤ a ∧ n = a - b := by
  unfold checkedSub
  split <;> simp_all [eq_comm]

/-! ## reverts -/

@[simp] theorem pure_ne_error {α : Type} (a : α) (e : Revert) : (pure a : Result α) ≠ .error e :=
  fun h => by cases h

@[simp] theorem map_eq_error {α β : Type} {f : α → β} {x : Result α} {e : Revert} :
    (f <$> x) = .error e ↔ x = .error e := by
  cases x with
  | error e' => exact ⟨fun h => by cases h; rfl, fun h => by cases h; rfl⟩
  | ok a => exact ⟨fun h => (by cases h), fun h => (by cases h)⟩

theorem bind_eq_error {α β : Type} {x : Result α} {f : α → Result β} {e : Revert} :
    (x >>= f) = .error e ↔ x = .error e ∨ ∃ a, x = .ok a ∧ f a = .error e := by
  cases x with
  | error e' =>
    refine ⟨fun h => .inl (by cases h; rfl), ?_⟩
    rintro (h | ⟨_, h, _⟩) <;> cases h
    rfl
  | ok a =>
    refine ⟨fun h => .inr ⟨a, rfl, h⟩, ?_⟩
    rintro (h | ⟨_, h, h'⟩) <;> cases h
    exact h'

theorem require_eq_error {c : Prop} [Decidable c] {text : String} {e : Revert} :
    require c text = .error e ↔ ¬ c ∧ e = .error text := by
  unfold require
  split <;> simp_all [eq_comm]

theorem revertUnless_eq_error {c : Prop} [Decidable c] {r e : Revert} :
    revertUnless c r = .error e ↔ ¬ c ∧ e = r := by
  unfold revertUnless
  split <;> simp_all [eq_comm]

theorem checkedSub_eq_error {a b : Nat} {e : Revert} :
    checkedSub a b = .error e ↔ a < b ∧ e = .panic 0x11 := by
  unfold checkedSub
  split <;> simp_all [eq_comm]

/-- what a call reverted with, if it did -/
def failure {α : Type} : Result α → Option Revert
  | .ok _ => none
  | .error e => some e

theorem eq_error_of_failure {α : Type} {x : Result α} {e : Revert}
    (h : failure x = some e) : x = .error e := by
  cases x with
  | ok a => cases h
  | error e' => rw [Option.some.inj h]

theorem eq_ok_get {α : Type} {x : Result α} (h : x.toOption.isSome) :
    x = .ok (x.toOption.get h) := by
  cases x with
  | ok a => rfl
  | error e => cases h

/-! ## block, message, platform -/

/-- block and transaction of a call; `proxies` is what the OpenSea registry answers -/
structure Env where
  number : Nat
  timestamp : Nat
  chainId : Nat
  basefee : Nat
  origin : Address
  gasprice : Nat
  proxies : Address → Address
  /-- the genesis block, the only one without a time, carries no transactions -/
  timestamp_pos : 0 < timestamp
  /-- a block header has 64 bits for its time -/
  timestamp_lt : timestamp < 2^64

/-- later: neither the block number nor the time has gone back -/
instance : LE Env := ⟨fun e e' => e.number ≤ e'.number ∧ e.timestamp ≤ e'.timestamp⟩

instance (e e' : Env) : Decidable (e ≤ e') :=
  inferInstanceAs (Decidable (e.number ≤ e'.number ∧ e.timestamp ≤ e'.timestamp))

theorem Env.le_def {e e' : Env} :
    e ≤ e' ↔ e.number ≤ e'.number ∧ e.timestamp ≤ e'.timestamp := Iff.rfl

theorem Env.le_refl (a : Env) : a ≤ a := ⟨Nat.le_refl _, Nat.le_refl _⟩

/-- nobody holds a key for `address(0)`, and no contract lives there -/
structure Msg where
  sender : Address
  value : Nat
  sender_ne : sender ≠ 0

/-- a message from an account that is given by its number -/
def Msg.of (sender : Address) (value : Nat)
    (h : decide (sender ≠ 0) = true := by exact Eq.refl true) : Msg :=
  ⟨sender, value, of_decide_eq_true h⟩

/-- an action in the timelock, with the time it may be executed from -/
structure Transaction where
  target : Address
  value : Nat
  signature : String
  data : Bytes
  eta : Nat
  deriving DecidableEq, Repr

/-- ether on its way to an account -/
structure Payment where
  toAddr : Address
  amount : Nat
  deriving DecidableEq

structure Signature where
  v : Nat
  r : Nat
  s : Nat
  deriving DecidableEq

/-- what is signed, for the contract that checks it (the domain); there are two versions of the DAO,
with different names -/
inductive Digest where
  | delegation (chainId : Nat) (delegatee : Address) (nonce expiry : Nat)
  | ballot (name : String) (chainId : Nat) (proposalId support : Nat)
  deriving DecidableEq

/-- hashing, signature recovery, and where the contracts live -/
structure Platform where
  Hash : Type
  [decEqHash : DecidableEq Hash]
  /-- keccak256(abi.encode(target, value, signature, data, eta)) -/
  keccak256 : Transaction → Hash
  /-- bytes4(keccak256(bytes(signature))) -/
  selector : String → Bytes
  ecrecover : Digest → Signature → Address
  dao : Address
  timelock : Address
  house : Address

instance (P : Platform) : DecidableEq P.Hash := P.decEqHash

/-- a platform to run things on: a hash is what was hashed, a signature names its signer -/
def Platform.plain (dao timelock house : Address) : Platform where
  Hash := Transaction
  keccak256 := id
  selector := fun s => (s.toUTF8.toList).take 4
  ecrecover := fun _ sig => Fin.ofNat _ sig.r
  dao := dao
  timelock := timelock
  house := house

/-- a block in which nothing is known about the OpenSea registry, mined at `timestamp` -/
def Env.block (number timestamp : Nat)
    (h : decide (0 < timestamp ∧ timestamp < 2^64) = true := by exact Eq.refl true) : Env :=
  ⟨number, timestamp, 1, 0, 1, 0, fun _ => 0, (of_decide_eq_true h).1, (of_decide_eq_true h).2⟩

end UNouns
