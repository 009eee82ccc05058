import UNouns.Token.Steps

/-!
# Votes in every reachable state of the token

`tokenCode` is the token as a contract that anyone may call in any order, also out of the
`onERC721Received` of a receiver.  Three results about all its runs:

* `runs_sound`              the ledger is sound, whatever happens;
* `priorVotes_le_supply`    no block has more votes than tokens;
* `votes_eq_delegated`      votes are delegated balances, as long as no signature hands a balance
                            to the zero address (`ZeroFree`), and `not_votes_eq_delegated` is a
                            run in which one does.
-/

set_option linter.unusedVariables false

namespace UNouns
open Function Checkpoints Relation Reentrant Finset UNounsToken

abbrev TokenConfig := Config Env UNounsToken TokenCall

section
variable (P : Platform)

/-- an entry of the token does its work at once; the receiver comes after it -/
def TokenMove : Env → TokenConfig → TokenConfig → Prop :=
  Move (fun env c t t' => c.op.apply P env c.msg.sender t = .ok t') (fun _ _ _ => False)

theorem TokenCall.follows (env : Env) (c : TokenCall) (k : TokenConfig) :
    (c.code P env k.now).Follows (TokenMove P env) (fun _ _ => True) (k.enter env c) k := by
  refine Code.once_follows (fun t x h => ?_) (fun x ok t t' h => ?_)
  · obtain ⟨u, hu, hx⟩ := map_eq_ok.mp h
    cases hx
    exact ⟨hu, fun _ _ => trivial⟩
  · simp only [TokenOp.after, bind_eq_ok, pure_eq_ok] at h
    obtain ⟨_, _, rfl⟩ := h
    exact .inl rfl

end

/-! ## every run is sound -/

namespace Ledger

theorem deploy_sound (deployer a b c d e : Address) (n : Nat) :
    (UNounsToken.deploy deployer a b c d e).ledger.Sound n where
  delegate_zero := rfl
  balance_zero := rfl
  fresh := fun _ _ => rfl
  balance_eq := fun _ _ => rfl
  supply_eq := by simp [ledger, deploy, totalSupply]
  upTo := fun _ => UpTo.nil n
  checkpoints_zero := rfl
  votes_le := by simp [total, ledger, deploy, latest]

theorem steps_sound {D : Address → Address → Ledger → Prop} {b : Nat} {l l' : Ledger}
    (hs : ReflTransGen (LedgerStep D b) l l') (h : l.Sound b) : l'.Sound b := by
  induction hs with
  | refl => exact h
  | tail _ hs ih => exact hs.sound ih

theorem steps_votesAt {D : Address → Address → Ledger → Prop} {b : Nat} {l l' : Ledger}
    (hs : ReflTransGen (LedgerStep D b) l l') {b' : Nat} (hb : b' < b) (a : Address) :
    l'.votesAt a b' = l.votesAt a b' := by
  induction hs with
  | refl => rfl
  | tail _ hs ih => exact (hs.votesAt_eq hb a).trans ih

theorem steps_delegated {b : Nat} {l l' : Ledger} (hs : ReflTransGen (LedgerStep Keeps b) l l')
    (h : l.Sound b) (hd : l.Delegated) : l'.Sound b ∧ l'.Delegated := by
  induction hs with
  | refl => exact ⟨h, hd⟩
  | tail _ hs ih => exact ⟨hs.sound ih.1, hs.delegated ih.1 ih.2⟩

/-- now is the end of the block, if nothing later has been written -/
theorem Sound.votesAt_eq {l : Ledger} {b : Nat} (h : l.Sound b) (a : Address) :
    l.votesAt a b = l.votes a := by
  rw [votesAt, votes, valueAt_eq_latest _ (h.upTo a).le]

end Ledger

/-- a token call, at the level of the ledger -/
theorem TokenMove.steps {P : Platform} {env : Env} {c c' : TokenConfig}
    (h : TokenMove P env c c') :
    ReflTransGen (LedgerStep (fun _ _ _ => True) env.number) c.now.ledger c'.now.ledger := by
  cases h with
  | enter op t h => exact TokenOp.apply_steps (fun _ _ _ => trivial) h
  | resume t h => exact h.elim

theorem runs_sound {P : Platform} {a b : Env × TokenConfig}
    (h : ReflTransGen (Timed (TokenMove P)) a b) (ha : a.2.now.ledger.Sound a.1.number) :
    b.2.now.ledger.Sound b.1.number :=
  Timed.invariant (I := fun e c => c.now.ledger.Sound e.number)
    (fun e c c' hc hm => Ledger.steps_sound hm.steps hc)
    (fun e e' c hc hle => hc.mono hle.1) h ha

/-! ## no vote inflation -/

/-- the votes at the end of block `b` are settled once block `b` is over -/
theorem runs_votesAt {P : Platform} {b : Nat} {x y : Env × TokenConfig}
    (h : ReflTransGen (Timed (TokenMove P)) x y) (hb : b < x.1.number)
    (hx : x.2.now.ledger.Sound x.1.number) (a : Address) :
    y.2.now.ledger.votesAt a b = x.2.now.ledger.votesAt a b := by
  let I : Env → TokenConfig → Prop := fun e c =>
    b < e.number ∧ c.now.ledger.votesAt a b = x.2.now.ledger.votesAt a b
  have hI : I y.1 y.2 := by
    refine Timed.invariant ?_ ?_ h ⟨hb, rfl⟩
    · exact fun e c c' hc hm => ⟨hc.1, (Ledger.steps_votesAt hm.steps hc.1 a).trans hc.2⟩
    · exact fun e e' c hc hle => ⟨Nat.lt_of_lt_of_le hc.1 (Env.le_def.mp hle).1, hc.2⟩
  exact hI.2

theorem getPriorVotes_eq {t : UNounsToken} {n : Nat} (h : t.ledger.Sound n) {env : Env} {b : Nat}
    (hb : b < env.number) (a : Address) :
    t.getPriorVotes env a b = .ok (t.ledger.votesAt a b) := by
  have e : t.getPriorVotes env a b = .ok ((prior (t.ledger.checkpoints a) b).getD 0) := by
    simp only [getPriorVotes, require, if_pos hb]
    rfl
  rw [e, prior_eq _ _ (h.upTo a).sorted]
  rfl

theorem Ledger.Sound.sum_votesAt_le {l : Ledger} {b : Nat} (h : l.Sound b) :
    ∑ a ∈ univ.erase (0 : Address), l.votesAt a b ≤ l.supply := by
  calc ∑ a ∈ univ.erase (0 : Address), l.votesAt a b
      = ∑ a ∈ univ.erase (0 : Address), l.votes a :=
        sum_congr rfl (fun a _ => h.votesAt_eq a)
    _ ≤ Ledger.total l.checkpoints :=
        sum_le_sum_of_subset (erase_subset _ _)
    _ ≤ l.supply := h.votes_le

section
variable (P : Platform) (deployer unoundersDAO unouncilDAO minter descriptor seeder : Address)

/-- a run cut at the end of block `b`: the votes at `b` are those at the cut, wherever the rest of it
is looked at -/
theorem votesAt_settled {e : Env} {ts us : List (Tx Env TokenCall)} {b : Nat}
    (hch : (e :: (ts ++ us).map Tx.env).IsChain (· ≤ ·))
    (hts : ∀ t ∈ ts, t.env.number ≤ b) (hus : ∀ t ∈ us, b < t.env.number) :
    let start : TokenConfig :=
      ⟨[], deploy deployer unoundersDAO unouncilDAO minter descriptor seeder⟩
    let cut := (runTxs (TokenCall.code P) ts start).2
    ∀ o ∈ observations (TokenCall.code P) (lastEnv e ts) us cut,
      cut.now.ledger.Sound b ∧ o.2.now.ledger.Sound o.1.number ∧
        ∀ a, o.2.now.ledger.votesAt a b = cut.now.ledger.votesAt a b := by
  intro start cut o ho
  have hfollow := fun env (op : TokenCall) (c : TokenConfig) => TokenCall.follows P env op c
  have hstart : ∀ n, start.now.ledger.Sound n := Ledger.deploy_sound _ _ _ _ _ _
  rw [List.map_append, ← List.cons_append] at hch
  have hcut' : ReflTransGen (Timed (TokenMove P)) (e, start) (lastEnv e ts, cut) :=
    (runTxs_timed hfollow ts e start hch.left_of_append).2
  -- the state at the cut is sound at `b` itself: nothing later has been written
  have hcut : cut.now.ledger.Sound b := by
    rcases lastEnv_cases e ts with ⟨rfl, _⟩ | ⟨t, ht, hlast⟩
    · exact hstart b
    · refine (runs_sound hcut' (hstart _)).mono ?_
      rw [hlast]
      exact hts t ht
  refine ⟨hcut, ?_⟩
  cases us with
  | nil =>
    rw [List.mem_singleton.mp ho]
    exact ⟨runs_sound hcut' (hstart _), fun a => rfl⟩
  | cons u us =>
    have hu : b < u.env.number := hus u List.mem_cons_self
    have hch' : (u.env :: (u :: us).map Tx.env).IsChain (· ≤ ·) :=
      List.isChain_cons_cons.mpr ⟨Env.le_refl _, hch.right_of_append⟩
    have hr := observations_timed (e := u.env) hfollow hch' ho
    have hs := hcut.mono (Nat.le_of_lt hu)
    exact ⟨runs_sound hr hs, runs_votesAt hr hu hs⟩

/-- **No block has more votes than tokens.**  A run is cut at the end of block `b`: wherever the
rest of it is looked at, the prior votes at `b` sum to no more than the supply at the cut. -/
theorem priorVotes_le_supply (e : Env) (ts us : List (Tx Env TokenCall)) (b : Nat)
    (hch : (e :: (ts ++ us).map Tx.env).IsChain (· ≤ ·))
    (hts : ∀ t ∈ ts, t.env.number ≤ b) (hus : ∀ t ∈ us, b < t.env.number) :
    let start : TokenConfig :=
      ⟨[], deploy deployer unoundersDAO unouncilDAO minter descriptor seeder⟩
    let cut := (runTxs (TokenCall.code P) ts start).2
    ∀ o ∈ observations (TokenCall.code P) (lastEnv e ts) us cut, ∀ env : Env, b < env.number →
      ∃ votes : Address → Nat, (∀ a, o.2.now.getPriorVotes env a b = .ok (votes a)) ∧
        ∑ a ∈ univ.erase (0 : Address), votes a ≤ cut.now.totalSupply := by
  intro start cut o ho env hb
  obtain ⟨hcut, hs, hsame⟩ :=
    votesAt_settled P deployer unoundersDAO unouncilDAO minter descriptor seeder hch hts hus o ho
  refine ⟨fun a => cut.now.ledger.votesAt a b, fun a => ?_, hcut.sum_votesAt_le⟩
  rw [getPriorVotes_eq hs hb, hsame]

/-- in block 7 the minter mints a token for itself and one for the unounders -/
def mintTxs : List (Tx Env TokenCall) :=
  [⟨.block 7 70, .mk ⟨.of 4 0, .mint (fun _ => .ok ⟨0, 0, 0, 0, 0⟩)⟩ .nil⟩]

/-- in block 8 the unounders give theirs away, and the minter delegates to the new owner -/
def giveTxs : List (Tx Env TokenCall) :=
  [⟨.block 8 80, .mk ⟨.of 2 0, .transferFrom 2 9 0⟩ .nil⟩,
   ⟨.block 8 80, .mk ⟨.of 4 0, .delegate 9⟩ .nil⟩]

theorem priorVotes_le_supply_run :
    let cut := (runTxs (TokenCall.code (.plain 10 11 4)) mintTxs ⟨[], deploy 1 2 3 4 5 6⟩).2
    let last := (runTxs (TokenCall.code (.plain 10 11 4)) giveTxs cut).2
    last.past.length = 3 ∧ last.now.getCurrentVotes 9 = 2 ∧
      ∃ votes : Address → Nat, (∀ a, last.now.getPriorVotes (.block 9 90) a 7 = .ok (votes a)) ∧
        ∑ a ∈ univ.erase (0 : Address), votes a ≤ cut.now.totalSupply :=
  ⟨by decide +kernel, by decide +kernel,
    priorVotes_le_supply (.plain 10 11 4) 1 2 3 4 5 6 (.block 6 60) mintTxs giveTxs 7
      (by simp [mintTxs, giveTxs, Env.le_def, Env.block]) (by simp [mintTxs, Env.block])
      (by simp [giveTxs, Env.block]) _ (final_mem_observations _ _ _ _) (.block 9 90) (by decide)⟩

end

/-! ## votes are delegated balances -/

/-- not a signature that hands a balance to the zero address -/
def keepsVotes (P : Platform) (r : Record Env UNounsToken TokenCall) : Bool :=
  match r.op.op with
  | .delegateBySig a nonce expiry sig =>
    a ≠ 0 || r.pre.balances (P.ecrecover (.delegation r.env.chainId a nonce expiry) sig) = 0
  | _ => true

/-- no accepted signature has handed a balance to the zero address -/
def ZeroFree (P : Platform) (past : List (Record Env UNounsToken TokenCall)) : Prop :=
  ∀ r ∈ past, keepsVotes P r = true

instance (P : Platform) (past : List (Record Env UNounsToken TokenCall)) :
    Decidable (ZeroFree P past) := inferInstanceAs (Decidable (∀ r ∈ past, keepsVotes P r = true))

theorem ZeroFree.of_prefix {P : Platform} {past past' : List (Record Env UNounsToken TokenCall)}
    (h : ZeroFree P past') (hp : past <+: past') : ZeroFree P past :=
  fun r hr => h r (hp.subset hr)

/-- a token call under `ZeroFree`, at the level of the ledger: `delegate` itself turns the zero
address into the sender -/
theorem TokenMove.keeps {P : Platform} {env : Env} {c c' : TokenConfig} (h : TokenMove P env c c')
    (hz : ZeroFree P c'.past) :
    ReflTransGen (LedgerStep Keeps env.number) c.now.ledger c'.now.ledger := by
  cases h with
  | resume t h => exact h.elim
  | enter op t h =>
    refine TokenOp.apply_steps (fun a d hd => ?_) h
    have hr := hz ⟨env, c.now, op⟩ (List.mem_append_right _ (List.mem_singleton_self _))
    obtain ⟨msg, op⟩ := op
    cases op <;> simp only [TokenOp.delegation, Option.some.injEq, Prod.mk.injEq, reduceCtorEq] at hd
    case delegate x =>
      obtain ⟨rfl, rfl⟩ := hd
      refine .inl ?_
      split_ifs with hx
      · exact msg.sender_ne
      · exact hx
    case delegateBySig x nonce expiry sig =>
      obtain ⟨rfl, rfl⟩ := hd
      simpa [keepsVotes, Keeps, UNounsToken.ledger] using hr

theorem runs_delegated {P : Platform} {a b : Env × TokenConfig}
    (h : ReflTransGen (Timed (TokenMove P)) a b) (ha : a.2.now.ledger.Sound a.1.number)
    (hd : a.2.now.ledger.Delegated) (hz : ZeroFree P b.2.past) : b.2.now.ledger.Delegated :=
  (Timed.invariant_under
    (I := fun e c => c.now.ledger.Sound e.number ∧ c.now.ledger.Delegated)
    (P := fun c => ZeroFree P c.past)
    (fun e c c' hm hz => hz.of_prefix hm.past_prefix)
    (fun e c c' _ hz' hc hm => Ledger.steps_delegated (hm.keeps hz') hc.1 hc.2)
    (fun e e' c hc hle => ⟨hc.1.mono (Env.le_def.mp hle).1, hc.2⟩) h ⟨ha, hd⟩ hz).2

theorem Ledger.deploy_delegated (deployer a b c d e : Address) :
    (UNounsToken.deploy deployer a b c d e).ledger.Delegated :=
  fun x _ => (sum_eq_zero fun y _ => ite_self 0).symm

/-! ## and so nobody is short of them -/

section
variable {t : UNounsToken} {n : Nat} (hs : t.ledger.Sound n) (hd : t.ledger.Delegated)
include hs hd

/-- the delegate of an owner has a vote to give -/
theorem owner_votes {id : Nat} {a : Address} (ho : t.owners id = a) (ha : a ≠ 0) :
    ¬ t.getCurrentVotes (t.delegates a) < 1 := by
  have h1 : 1 ≤ t.balances a := hs.balance_pos ho ha
  have h2 : t.balances a ≤ t.getCurrentVotes (t.delegates a) := hd.balance_le ha
  omega

theorem transferFrom_ne_underflow (env : Env) (sender src dst : Address) (id : Nat) :
    t.transferFrom env sender src dst id ≠ .error underflow := by
  intro h
  simp only [transferFrom, transferInternal, bind_eq_error] at h
  rcases h with h | ⟨_, _, h | ⟨_, _, h | ⟨a, ho, h | ⟨_, hsrc, h | ⟨_, _, h | ⟨u, hu, h⟩⟩⟩⟩⟩⟩
  · simp [isApprovedOrOwner, ownerOf, getApproved, underflow, bind_eq_error, require_eq_error] at h
  · simp [require_eq_error, underflow] at h
  · simp [ownerOf, require_eq_error, underflow] at h
  · simp [require_eq_error, underflow] at h
  · simp [require_eq_error, underflow] at h
  · obtain ⟨ho, ha⟩ := ownerOf_ok ho
    rw [require_eq_ok.mp hsrc] at ho ha
    exact owner_votes hs hd ho ha (beforeTokenTransfer_underflow h)
  · rcases h with h | ⟨v, _, h⟩
    · exact approveInternal_ne_underflow _ _ _ h
    · simp [checkedSub_eq_error, underflow] at h

theorem burn_ne_underflow (env : Env) (sender : Address) (id : Nat) :
    t.burn env sender id ≠ .error underflow := by
  intro h
  simp only [burn, burnInternal, bind_eq_error, pure_ne_error, and_false, exists_false,
    or_false] at h
  rcases h with h | ⟨_, _, h | ⟨a, ho, h | ⟨u, hu, h | ⟨v, _, h⟩⟩⟩⟩
  · simp [onlyMinter, require_eq_error, underflow] at h
  · simp [ownerOf, require_eq_error, underflow] at h
  · obtain ⟨ho, ha⟩ := ownerOf_ok ho
    exact owner_votes hs hd ho ha (beforeTokenTransfer_underflow h)
  · exact approveInternal_ne_underflow _ _ _ h
  · simp [checkedSub_eq_error, underflow] at h

omit hs in
theorem delegate_ne_underflow (env : Env) {sender : Address} (hne : sender ≠ 0) (d : Address) :
    t.delegate env sender d ≠ .error underflow := by
  intro h
  simp only [delegate, delegateInternal, bind_eq_error] at h
  rcases h with h | ⟨m, hm, h⟩
  · simp [votesToDelegate, balanceOf, safe96, underflow, bind_eq_error, require_eq_error] at h
  · simp only [votesToDelegate, safe96, bind_eq_ok, pure_eq_ok] at hm
    obtain ⟨_, hb, _, _, rfl⟩ := hm
    obtain ⟨_, rfl⟩ := balanceOf_ok hb
    have h1 := (moveDelegates_underflow h).2
    have h2 : t.balances sender ≤ t.getCurrentVotes (t.delegates sender) := hd.balance_le hne
    exact absurd h1 (Nat.not_lt.mpr h2)

end

section
variable (P : Platform) (deployer unoundersDAO unouncilDAO minter descriptor seeder : Address)

/-- **Votes are delegated balances**, in every state in which no accepted signature has handed a
balance to the zero address; and there no transfer, burn or delegation is short of votes. -/
theorem votes_eq_delegated (e : Env) (ts : List (Tx Env TokenCall))
    (hch : (e :: ts.map Tx.env).IsChain (· ≤ ·)) :
    ∀ o ∈ observations (TokenCall.code P) e ts
        ⟨[], deploy deployer unoundersDAO unouncilDAO minter descriptor seeder⟩,
      ZeroFree P o.2.past →
      (∀ d, d ≠ 0 → o.2.now.getCurrentVotes d
        = ∑ a, if o.2.now.delegates a = d then o.2.now.balances a else 0) ∧
      ∀ (env : Env) (msg : Msg),
        (∀ src dst id, o.2.now.transferFrom env msg.sender src dst id ≠ .error underflow) ∧
        (∀ id, o.2.now.burn env msg.sender id ≠ .error underflow) ∧
        ∀ d, o.2.now.delegate env msg.sender d ≠ .error underflow := by
  intro o ho hz
  have hr := observations_timed
    (fun env (op : TokenCall) (c : TokenConfig) => TokenCall.follows P env op c) hch ho
  have h0 := Ledger.deploy_sound deployer unoundersDAO unouncilDAO minter descriptor seeder e.number
  have hs := runs_sound hr h0
  have hd := runs_delegated hr h0 (Ledger.deploy_delegated _ _ _ _ _ _) hz
  refine ⟨hd, fun env msg => ⟨fun src dst id => ?_, fun id => ?_, fun d => ?_⟩⟩
  · exact transferFrom_ne_underflow hs hd env msg.sender src dst id
  · exact burn_ne_underflow hs hd env msg.sender id
  · exact delegate_ne_underflow hd env msg.sender_ne d

end

/-- the unounders sign a delegation to `a` after the mint -/
def signedTxs (a : Address) : List (Tx Env TokenCall) :=
  mintTxs ++
    [⟨.block 8 80, .mk ⟨.of 9 0, .delegateBySig a 0 100 ⟨27, 2, 0⟩⟩ .nil⟩]

/-- signed over to `9`, the vote of the unounders is there -/
theorem votes_eq_delegated_run :
    let last := (runTxs (TokenCall.code (.plain 10 11 4)) (signedTxs 9) ⟨[], deploy 1 2 3 4 5 6⟩).2
    last.past.length = 2 ∧ last.now.getCurrentVotes 9 = 1 ∧
      last.now.getCurrentVotes 9
        = ∑ a, if last.now.delegates a = 9 then last.now.balances a else 0 :=
  ⟨by decide +kernel, by decide +kernel,
    (votes_eq_delegated (.plain 10 11 4) 1 2 3 4 5 6 (.block 6 60) (signedTxs 9)
      (by simp [signedTxs, mintTxs, Env.le_def, Env.block]) _ (final_mem_observations _ _ _ _)
      (by decide +kernel)).1 9 (by decide)⟩

/-- **Signed over to the zero address it is gone**: the unounders keep their token and delegate to
themselves, but have no vote, and cannot give the token away. -/
theorem not_votes_eq_delegated :
    let last := (runTxs (TokenCall.code (.plain 10 11 4)) (signedTxs 0) ⟨[], deploy 1 2 3 4 5 6⟩).2
    last.past.length = 2 ∧ last.now.owners 0 = 2 ∧
      last.now.getCurrentVotes 2
        ≠ ∑ a, (if last.now.delegates a = 2 then last.now.balances a else 0) ∧
      last.now.transferFrom (.block 9 90) 2 2 9 0 = .error underflow := by
  intro last
  refine ⟨by decide +kernel, by decide +kernel, fun h => ?_,
    eq_error_of_failure (by decide +kernel)⟩
  have h0 : last.now.getCurrentVotes 2 = 0 := by decide +kernel
  have h1 : last.now.balances 2 = 1 := by decide +kernel
  have h2 : last.now.balances 2
      ≤ ∑ a, if last.now.delegates a = last.now.delegates 2 then last.now.balances a else 0 :=
    last.now.ledger.balance_le_delegated 2
  rw [show last.now.delegates 2 = 2 by decide +kernel] at h2
  omega

end UNouns
