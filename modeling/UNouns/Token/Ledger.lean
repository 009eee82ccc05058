import Mathlib.Algebra.BigOperators.Ring.Finset
import UNouns.Token.Storage
import UNouns.Lib.Sums

/-!
# What the token is for: a ledger of owners, delegates and votes

The part of the token's storage that votes depend on, and the only ways in which it ever changes
(`LedgerStep`):

* `transfer`, `mint`, `burn`   one token changes hands, and one vote goes with it;
* `delegate`                   the balance of an account goes to its new delegate, provided that
                               `D delegator delegatee` holds of the ledger it happens in.

`Ledger.Sound` is what every step keeps, `Ledger.Delegated` what those steps keep that do not
delegate a balance to the zero address (`Keeps`).
-/

set_option linter.unusedVariables false

namespace UNouns
open Function Checkpoints Finset

structure Ledger where
  owners : Nat → Address
  balances : Address → Nat
  storedDelegates : Address → Address
  checkpoints : Address → List (Checkpoint Nat)
  supply : Nat
  nextId : Nat

def UNounsToken.ledger (t : UNounsToken) : Ledger where
  owners := t.owners
  balances := t.balances
  storedDelegates := t.storedDelegates
  checkpoints := t.checkpoints
  supply := t.totalSupply
  nextId := t.currentUNounId

namespace Ledger

def delegates (l : Ledger) (a : Address) : Address :=
  if l.storedDelegates a = 0 then a else l.storedDelegates a

def votes (l : Ledger) (a : Address) : Nat := (latest (l.checkpoints a)).getD 0

/-- the votes of `a` at the end of block `b` -/
def votesAt (l : Ledger) (a : Address) (b : Nat) : Nat := (valueAt (l.checkpoints a) b).getD 0

/-- the balances delegated to `d` -/
def delegated (l : Ledger) (d : Address) : Nat :=
  ∑ a, if l.delegates a = d then l.balances a else 0

/-- the votes of all accounts -/
def total (cps : Address → List (Checkpoint Nat)) : Nat := ∑ a, (latest (cps a)).getD 0

/-- how many of the tokens minted so far `a` owns -/
def held (l : Ledger) (a : Address) : Nat :=
  ∑ id ∈ range l.nextId, if l.owners id = a then 1 else 0

theorem delegates_ne_zero (l : Ledger) {a : Address} (ha : a ≠ 0) : l.delegates a ≠ 0 := by
  unfold delegates
  split_ifs with h
  · exact ha
  · exact h

/-! ## moving votes -/

/-- the checkpoints once `n` votes have moved from `src` to `dst`; the zero address has none -/
def moved (b : Nat) (cps : Address → List (Checkpoint Nat)) (src dst : Address) (n : Nat) :
    Address → List (Checkpoint Nat) := fun a =>
  if src = dst ∨ n = 0 ∨ a = 0 then cps a
  else if a = src then write (cps a) b ((latest (cps a)).getD 0 - n)
  else if a = dst then write (cps a) b ((latest (cps a)).getD 0 + n)
  else cps a

theorem moved_cases (b : Nat) (cps : Address → List (Checkpoint Nat)) (src dst : Address)
    (n : Nat) (a : Address) :
    moved b cps src dst n a = cps a ∨ ∃ v, moved b cps src dst n a = write (cps a) b v := by
  unfold moved
  split_ifs
  · exact .inl rfl
  · exact .inr ⟨_, rfl⟩
  · exact .inr ⟨_, rfl⟩
  · exact .inl rfl

@[simp] theorem moved_zero_addr (b : Nat) (cps : Address → List (Checkpoint Nat))
    (src dst : Address) (n : Nat) : moved b cps src dst n 0 = cps 0 := by simp [moved]

/-- what an account other than zero gains is what the move brings it, less what it takes -/
theorem latest_moved (b : Nat) (cps : Address → List (Checkpoint Nat)) (src dst : Address)
    (n : Nat) (hn : src ≠ dst → src ≠ 0 → n ≤ (latest (cps src)).getD 0) {d : Address}
    (hd : d ≠ 0) :
    (latest (moved b cps src dst n d)).getD 0 + (if src = d then n else 0)
      = (latest (cps d)).getD 0 + (if dst = d then n else 0) := by
  unfold moved
  by_cases hsd : src = dst
  · simp [hsd]
  by_cases h0 : n = 0
  · simp [h0]
  simp only [hsd, h0, hd, or_self, if_false]
  by_cases h1 : d = src
  · subst h1
    have := hn hsd hd
    simp [Ne.symm hsd, latest_write]
    omega
  · by_cases h2 : d = dst
    · subst h2
      simp [h1, Ne.symm h1, latest_write]
    · simp [h1, h2, Ne.symm h1, Ne.symm h2]

end Ledger

/-! ## steps -/

open Ledger in
/-- one change of the ledger in block `b` -/
inductive LedgerStep (D : Address → Address → Ledger → Prop) (b : Nat) : Ledger → Ledger → Prop
  | transfer (l : Ledger) (id : Nat) (src dst : Address) (ho : l.owners id = src)
      (hsrc : src ≠ 0) (hdst : dst ≠ 0) (hbal : 1 ≤ l.balances src)
      (hvotes : l.delegates src ≠ l.delegates dst → 1 ≤ l.votes (l.delegates src)) :
      LedgerStep D b l { l with
        owners := update l.owners id dst
        balances := update (update l.balances src (l.balances src - 1)) dst
          (update l.balances src (l.balances src - 1) dst + 1)
        checkpoints := moved b l.checkpoints (l.delegates src) (l.delegates dst) 1 }
  | mint (l : Ledger) (dst : Address) (hdst : dst ≠ 0) (ho : l.owners l.nextId = 0) :
      LedgerStep D b l { l with
        owners := update l.owners l.nextId dst
        balances := update l.balances dst (l.balances dst + 1)
        checkpoints := moved b l.checkpoints (l.delegates 0) (l.delegates dst) 1
        supply := l.supply + 1
        nextId := l.nextId + 1 }
  | burn (l : Ledger) (id : Nat) (src : Address) (ho : l.owners id = src) (hsrc : src ≠ 0)
      (hbal : 1 ≤ l.balances src)
      (hvotes : l.delegates src ≠ l.delegates 0 → 1 ≤ l.votes (l.delegates src)) :
      LedgerStep D b l { l with
        owners := update l.owners id 0
        balances := update l.balances src (l.balances src - 1)
        checkpoints := moved b l.checkpoints (l.delegates src) (l.delegates 0) 1
        supply := l.supply - 1 }
  | delegate (l : Ledger) (a d : Address) (ha : a ≠ 0) (hD : D a d l)
      (hvotes : l.delegates a ≠ d → l.balances a ≤ l.votes (l.delegates a)) :
      LedgerStep D b l { l with
        storedDelegates := update l.storedDelegates a d
        checkpoints := moved b l.checkpoints (l.delegates a) d (l.balances a) }

/-- no balance is delegated to the zero address -/
def Keeps (a d : Address) (l : Ledger) : Prop := d ≠ 0 ∨ l.balances a = 0

namespace Ledger

/-! ## what every step keeps -/

structure Sound (l : Ledger) (b : Nat) : Prop where
  delegate_zero : l.storedDelegates 0 = 0
  balance_zero : l.balances 0 = 0
  fresh : ∀ id, l.nextId ≤ id → l.owners id = 0
  balance_eq : ∀ a, a ≠ 0 → l.balances a = l.held a
  supply_eq : l.supply = ∑ a, l.balances a
  upTo : ∀ a, UpTo (l.checkpoints a) b
  checkpoints_zero : l.checkpoints 0 = []
  votes_le : total l.checkpoints ≤ l.supply

theorem Sound.mono {l : Ledger} {b b' : Nat} (h : l.Sound b) (hb : b ≤ b') : l.Sound b' where
  delegate_zero := h.delegate_zero
  balance_zero := h.balance_zero
  fresh := h.fresh
  balance_eq := h.balance_eq
  supply_eq := h.supply_eq
  upTo := fun a => (h.upTo a).mono hb
  checkpoints_zero := h.checkpoints_zero
  votes_le := h.votes_le

theorem UpTo.moved {cps : Address → List (Checkpoint Nat)} {b : Nat} (h : ∀ a, UpTo (cps a) b)
    (src dst : Address) (n : Nat) (a : Address) : UpTo (moved b cps src dst n a) b := by
  rcases moved_cases b cps src dst n a with e | ⟨v, e⟩
  · exact e ▸ h a
  · exact e ▸ (h a).write v

/-- the holders' counts when the token `id` goes to `dst` -/
theorem sum_owner {s : Finset Nat} {id : Nat} (hid : id ∈ s) (owners : Nat → Address)
    (dst a : Address) :
    (∑ x ∈ s, if update owners id dst x = a then 1 else 0) + (if owners id = a then 1 else 0)
      = (∑ x ∈ s, if owners x = a then 1 else 0) + (if dst = a then 1 else 0) := by
  have h := Sums.sum_change_one (f := fun x => if owners x = a then 1 else 0)
    (g := fun x => if update owners id dst x = a then 1 else 0) hid
    (fun x hx => by simp [update_of_ne hx])
  simpa using h

/-- the sum of all votes when `n` of them move, to or from zero perhaps -/
theorem sum_moved (b : Nat) (cps : Address → List (Checkpoint Nat)) (h0 : cps 0 = [])
    (src dst : Address) (n : Nat)
    (hn : src ≠ dst → src ≠ 0 → n ≤ (latest (cps src)).getD 0) :
    total (moved b cps src dst n) + (if src = 0 then 0 else n)
      = total cps + (if dst = 0 then 0 else n) := by
  have hz : (latest (moved b cps src dst n 0)).getD 0 = 0 := by simp [h0, latest]
  have hz' : (latest (cps 0)).getD 0 = 0 := by simp [h0, latest]
  have e : ∀ c : Address, (∑ a ∈ univ.erase (0 : Address), if c = a then n else 0)
      = if c = 0 then 0 else n := by
    intro c
    rw [sum_ite_eq]
    by_cases hc : c = 0 <;> simp [hc]
  unfold total
  rw [← add_sum_erase univ _ (mem_univ (0 : Address)), hz,
    ← add_sum_erase univ (fun a => (latest (cps a)).getD 0) (mem_univ (0 : Address)), hz',
    ← e src, ← e dst, Nat.zero_add, Nat.zero_add, ← sum_add_distrib, ← sum_add_distrib]
  exact sum_congr rfl (fun d hd => latest_moved b cps src dst n hn (ne_of_mem_erase hd))

theorem Sound.delegates_zero {l : Ledger} {b : Nat} (h : l.Sound b) : l.delegates 0 = 0 := by
  simp [delegates, h.delegate_zero]

theorem Sound.lt_nextId {l : Ledger} {b : Nat} (h : l.Sound b) {id : Nat}
    (ho : l.owners id ≠ 0) : id ∈ range l.nextId := by
  rw [mem_range]
  by_contra hc
  exact ho (h.fresh id (by omega))

/-- an owner has a balance -/
theorem Sound.balance_pos {l : Ledger} {b : Nat} (h : l.Sound b) {id : Nat} {a : Address}
    (ho : l.owners id = a) (ha : a ≠ 0) : 1 ≤ l.balances a := by
  rw [h.balance_eq a ha, held]
  have hid := h.lt_nextId (ho ▸ ha)
  have h1 := single_le_sum (f := fun id => if l.owners id = a then 1 else 0)
    (fun i _ => Nat.zero_le _) hid
  simpa [ho] using h1

theorem Sound.transfer {l : Ledger} {b id : Nat} {src dst : Address} (h : l.Sound b)
    (ho : l.owners id = src) (hsrc : src ≠ 0) (hdst : dst ≠ 0) (hbal : 1 ≤ l.balances src)
    (hvotes : l.delegates src ≠ l.delegates dst → 1 ≤ l.votes (l.delegates src)) :
    Sound { l with
      owners := update l.owners id dst
      balances := update (update l.balances src (l.balances src - 1)) dst
        (update l.balances src (l.balances src - 1) dst + 1)
      checkpoints := moved b l.checkpoints (l.delegates src) (l.delegates dst) 1 } b := by
  have hid := h.lt_nextId (ho ▸ hsrc)
  refine ⟨h.delegate_zero, ?_, ?_, ?_, ?_, UpTo.moved h.upTo _ _ _, ?_, ?_⟩
  · simp [update_of_ne (Ne.symm hsrc), update_of_ne (Ne.symm hdst), h.balance_zero]
  · intro i hi
    have : i ≠ id := fun e => (mem_range.mp hid).not_ge (e ▸ hi)
    simp [update_of_ne this, h.fresh i hi]
  · intro a ha
    have h1 := sum_owner hid l.owners dst a
    have h2 := h.balance_eq a ha
    unfold held at h2 ⊢
    rw [ho] at h1
    show update (update l.balances src (l.balances src - 1)) dst _ a = _
    by_cases e1 : dst = a
    · subst e1
      by_cases e2 : src = dst
      · subst e2; simp [-sum_boole] at h1 ⊢; omega
      · simp [-sum_boole, e2, Ne.symm e2] at h1 ⊢; omega
    · by_cases e2 : src = a
      · subst e2; simp [-sum_boole, e1, update_of_ne (Ne.symm e1)] at h1 ⊢; omega
      · simp [-sum_boole, e1, e2, update_of_ne (Ne.symm e1), update_of_ne (Ne.symm e2)] at h1 ⊢; omega
  · exact h.supply_eq.trans (Sums.sum_move l.balances (mem_univ _) (mem_univ _) hbal).symm
  · simp [h.checkpoints_zero]
  · have h1 := sum_moved b l.checkpoints h.checkpoints_zero _ _ 1 (fun hne _ => hvotes hne)
    have h2 := h.votes_le
    simp only [if_neg (l.delegates_ne_zero hsrc), if_neg (l.delegates_ne_zero hdst)] at h1
    show total (moved _ _ _ _ _) ≤ l.supply
    omega

theorem Sound.mint {l : Ledger} {b : Nat} {dst : Address} (h : l.Sound b) (hdst : dst ≠ 0) :
    Sound { l with
      owners := update l.owners l.nextId dst
      balances := update l.balances dst (l.balances dst + 1)
      checkpoints := moved b l.checkpoints (l.delegates 0) (l.delegates dst) 1
      supply := l.supply + 1
      nextId := l.nextId + 1 } b := by
  refine ⟨h.delegate_zero, ?_, ?_, ?_, ?_, UpTo.moved h.upTo _ _ _, ?_, ?_⟩
  · simp [update_of_ne (Ne.symm hdst), h.balance_zero]
  · intro i hi
    have hi' : l.nextId + 1 ≤ i := hi
    have : i ≠ l.nextId := by omega
    simp [update_of_ne this, h.fresh i (by omega)]
  · intro a ha
    have h2 := h.balance_eq a ha
    unfold held at h2 ⊢
    have e : (∑ x ∈ range l.nextId, if update l.owners l.nextId dst x = a then 1 else 0)
        = ∑ x ∈ range l.nextId, if l.owners x = a then 1 else 0 :=
      sum_congr rfl (fun x hx => by rw [update_of_ne (Nat.ne_of_lt (mem_range.mp hx))])
    show update l.balances dst (l.balances dst + 1) a
      = ∑ x ∈ range (l.nextId + 1), if update l.owners l.nextId dst x = a then 1 else 0
    rw [sum_range_succ, e]
    by_cases e1 : dst = a
    · subst e1; simp [-sum_boole]; omega
    · simp [-sum_boole, e1, update_of_ne (Ne.symm e1)]; omega
  · have h1 := Sums.sum_update l.balances (mem_univ dst) (l.balances dst + 1)
    have h2 := h.supply_eq
    show l.supply + 1 = ∑ a, update l.balances dst (l.balances dst + 1) a
    omega
  · simp [h.checkpoints_zero]
  · have h1 := sum_moved b l.checkpoints h.checkpoints_zero (l.delegates 0) (l.delegates dst) 1
      (fun _ hne => absurd h.delegates_zero hne)
    have h2 := h.votes_le
    simp only [if_neg (l.delegates_ne_zero hdst), if_pos h.delegates_zero] at h1
    show total (moved _ _ _ _ _) ≤ l.supply + 1
    omega

theorem Sound.burn {l : Ledger} {b id : Nat} {src : Address} (h : l.Sound b)
    (ho : l.owners id = src) (hsrc : src ≠ 0) (hbal : 1 ≤ l.balances src)
    (hvotes : l.delegates src ≠ l.delegates 0 → 1 ≤ l.votes (l.delegates src)) :
    Sound { l with
      owners := update l.owners id 0
      balances := update l.balances src (l.balances src - 1)
      checkpoints := moved b l.checkpoints (l.delegates src) (l.delegates 0) 1
      supply := l.supply - 1 } b := by
  have hid := h.lt_nextId (ho ▸ hsrc)
  refine ⟨h.delegate_zero, ?_, ?_, ?_, ?_, UpTo.moved h.upTo _ _ _, ?_, ?_⟩
  · simp [update_of_ne (Ne.symm hsrc), h.balance_zero]
  · intro i hi
    by_cases e : i = id
    · simp [e]
    · simp [update_of_ne e, h.fresh i hi]
  · intro a ha
    have h1 := sum_owner hid l.owners 0 a
    have h2 := h.balance_eq a ha
    unfold held at h2 ⊢
    rw [ho] at h1
    show update l.balances src (l.balances src - 1) a = _
    by_cases e1 : src = a
    · subst e1; simp [-sum_boole, Ne.symm ha] at h1 ⊢; omega
    · simp [-sum_boole, e1, Ne.symm ha, update_of_ne (Ne.symm e1)] at h1 ⊢; omega
  · have h1 := Sums.sum_update l.balances (mem_univ src) (l.balances src - 1)
    have h2 := h.supply_eq
    show l.supply - 1 = ∑ a, update l.balances src (l.balances src - 1) a
    omega
  · simp [h.checkpoints_zero]
  · have h1 := sum_moved b l.checkpoints h.checkpoints_zero (l.delegates src) (l.delegates 0) 1
      (fun hne _ => hvotes hne)
    have h2 := h.votes_le
    simp only [if_neg (l.delegates_ne_zero hsrc), if_pos h.delegates_zero] at h1
    show total (moved _ _ _ _ _) ≤ l.supply - 1
    omega

theorem Sound.delegate {l : Ledger} {b : Nat} {a d : Address} (h : l.Sound b) (ha : a ≠ 0)
    (hvotes : l.delegates a ≠ d → l.balances a ≤ l.votes (l.delegates a)) :
    Sound { l with
      storedDelegates := update l.storedDelegates a d
      checkpoints := moved b l.checkpoints (l.delegates a) d (l.balances a) } b := by
  refine ⟨?_, h.balance_zero, h.fresh, h.balance_eq, h.supply_eq, UpTo.moved h.upTo _ _ _, ?_, ?_⟩
  · simp [update_of_ne (Ne.symm ha), h.delegate_zero]
  · simp [h.checkpoints_zero]
  · -- what arrives at `d` is nothing when `d` is zero
    have h1 := sum_moved b l.checkpoints h.checkpoints_zero (l.delegates a) d (l.balances a)
      (fun hne _ => hvotes hne)
    have h2 := h.votes_le
    simp only [if_neg (l.delegates_ne_zero ha)] at h1
    have h3 : (if d = 0 then 0 else l.balances a) ≤ l.balances a := by split <;> omega
    show total (moved _ _ _ _ _) ≤ l.supply
    omega

end Ledger

theorem LedgerStep.sound {D : Address → Address → Ledger → Prop} {b : Nat} {l l' : Ledger}
    (hs : LedgerStep D b l l') (h : l.Sound b) : l'.Sound b := by
  cases hs with
  | transfer id src dst ho hsrc hdst hbal hvotes => exact h.transfer ho hsrc hdst hbal hvotes
  | mint dst hdst ho => exact h.mint hdst
  | burn id src ho hsrc hbal hvotes => exact h.burn ho hsrc hbal hvotes
  | delegate a d ha hD hvotes => exact h.delegate ha hvotes

/-- the checkpoints of earlier blocks stay as they are -/
theorem LedgerStep.votesAt_eq {D : Address → Address → Ledger → Prop} {b : Nat} {l l' : Ledger}
    (hs : LedgerStep D b l l') {b' : Nat} (hb : b' < b) (a : Address) :
    l'.votesAt a b' = l.votesAt a b' := by
  have key : ∀ (src dst : Address) (n : Nat), valueAt (Ledger.moved b l.checkpoints src dst n a) b'
      = valueAt (l.checkpoints a) b' := by
    intro src dst n
    rcases Ledger.moved_cases b l.checkpoints src dst n a with e | ⟨v, e⟩
    · rw [e]
    · rw [e, valueAt_write _ v hb]
  cases hs <;> exact congrArg (Option.getD · 0) (key _ _ _)

/-- ids are given out in order, and burnt ones not again -/
theorem LedgerStep.nextId_le {D : Address → Address → Ledger → Prop} {b : Nat} {l l' : Ledger}
    (hs : LedgerStep D b l l') : l.nextId ≤ l'.nextId := by
  cases hs with
  | mint dst hdst ho => exact Nat.le_succ _
  | transfer | burn | delegate => exact Nat.le_refl _

/-! ## votes are delegated balances -/

namespace Ledger

def Delegated (l : Ledger) : Prop := ∀ d, d ≠ 0 → l.votes d = l.delegated d

/-- the balances delegated to `d` when one balance changes -/
theorem sum_balance (delegates : Address → Address) (balances : Address → Nat) (a d : Address)
    (v : Nat) :
    (∑ x, if delegates x = d then update balances a v x else 0)
        + (if delegates a = d then balances a else 0)
      = (∑ x, if delegates x = d then balances x else 0) + (if delegates a = d then v else 0) := by
  have h := Sums.sum_change_one (f := fun x => if delegates x = d then balances x else 0)
    (g := fun x => if delegates x = d then update balances a v x else 0) (mem_univ a)
    (fun x hx => by simp [update_of_ne hx])
  simpa using h

/-- the balances delegated to `d` when one account delegates -/
theorem sum_delegate (l : Ledger) (a e d : Address) :
    Ledger.delegated { l with storedDelegates := update l.storedDelegates a e } d
        + (if l.delegates a = d then l.balances a else 0)
      = l.delegated d + (if (if e = 0 then a else e) = d then l.balances a else 0) := by
  have h := Sums.sum_change_one (f := fun x => if l.delegates x = d then l.balances x else 0)
    (g := fun x => if Ledger.delegates { l with storedDelegates := update l.storedDelegates a e } x
      = d then l.balances x else 0) (mem_univ a)
    (fun x hx => by
      have e' : Ledger.delegates { l with storedDelegates := update l.storedDelegates a e } x
        = l.delegates x := by simp [delegates, update_of_ne hx]
      simp only [e'])
  have e' : Ledger.delegates { l with storedDelegates := update l.storedDelegates a e } a
    = if e = 0 then a else e := by simp [delegates]
  rwa [e'] at h

end Ledger

open Ledger in
theorem LedgerStep.delegated {b : Nat} {l l' : Ledger} (hs : LedgerStep Keeps b l l')
    (h : l.Sound b) (hd : l.Delegated) : l'.Delegated := by
  intro d hd0
  have hv := hd d hd0
  cases hs with
  | transfer id src dst ho hsrc hdst hbal hvotes =>
    have h1 := latest_moved b l.checkpoints (l.delegates src) (l.delegates dst) 1
      (fun hne _ => hvotes hne) hd0
    have h2 := sum_balance l.delegates l.balances src d (l.balances src - 1)
    have h3 := sum_balance l.delegates (update l.balances src (l.balances src - 1)) dst d
      (update l.balances src (l.balances src - 1) dst + 1)
    show (latest (moved b l.checkpoints _ _ 1 d)).getD 0
      = ∑ x, if l.delegates x = d then update _ dst _ x else 0
    unfold votes Ledger.delegated at hv
    split_ifs at h1 h2 h3 <;> omega
  | mint dst hdst ho =>
    have h1 := latest_moved b l.checkpoints (l.delegates 0) (l.delegates dst) 1
      (fun _ hne => absurd h.delegates_zero hne) hd0
    have h2 := sum_balance l.delegates l.balances dst d (l.balances dst + 1)
    show (latest (moved b l.checkpoints _ _ 1 d)).getD 0
      = ∑ x, if l.delegates x = d then update _ dst _ x else 0
    unfold votes Ledger.delegated at hv
    rw [if_neg (by rw [h.delegates_zero]; exact Ne.symm hd0)] at h1
    split_ifs at h1 h2 <;> omega
  | burn id src ho hsrc hbal hvotes =>
    have h1 := latest_moved b l.checkpoints (l.delegates src) (l.delegates 0) 1
      (fun hne _ => hvotes hne) hd0
    have h2 := sum_balance l.delegates l.balances src d (l.balances src - 1)
    show (latest (moved b l.checkpoints _ _ 1 d)).getD 0
      = ∑ x, if l.delegates x = d then update _ src _ x else 0
    unfold votes Ledger.delegated at hv
    rw [if_neg (c := l.delegates 0 = d) (by rw [h.delegates_zero]; exact Ne.symm hd0)] at h1
    split_ifs at h1 h2 <;> omega
  | delegate a e ha hD hvotes =>
    have h1 := latest_moved b l.checkpoints (l.delegates a) e (l.balances a)
      (fun hne _ => hvotes hne) hd0
    have h2 := sum_delegate l a e d
    show (latest (moved b l.checkpoints _ _ _ d)).getD 0
      = Ledger.delegated { l with storedDelegates := update l.storedDelegates a e } d
    unfold votes at hv
    rcases hD with he | h0
    · rw [if_neg he] at h2
      omega
    · rw [h0] at h1 h2 ⊢
      simp only [ite_self] at h1 h2
      omega

/-- an account's balance is among those delegated to its delegate -/
theorem Ledger.balance_le_delegated (l : Ledger) (a : Address) :
    l.balances a ≤ l.delegated (l.delegates a) := by
  have h1 := single_le_sum (f := fun x => if l.delegates x = l.delegates a then l.balances x else 0)
    (fun i _ => Nat.zero_le _) (mem_univ a)
  simpa [delegated] using h1

theorem Ledger.Delegated.balance_le {l : Ledger} (hd : l.Delegated) {a : Address} (ha : a ≠ 0) :
    l.balances a ≤ l.votes (l.delegates a) := by
  rw [hd _ (l.delegates_ne_zero ha)]
  exact l.balance_le_delegated a

end UNouns
