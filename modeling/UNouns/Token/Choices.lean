import UNouns.Token.Backing
import UNouns.Token.Votes

/-!
# Delegates are chosen by their delegators

An account names its delegate in a call of its own, or in a call of somebody else that carries its
signature.

* `TokenOp.signed`        the signature that an entry uses up, with its nonce;
* `TokenOp.apply_choices` what an entry does to delegates and nonces;
* `lastWord`              the delegate that an account has named last, read from the history;
* `delegations_chosen`    which is the delegate it has, and no signature has been used twice.
-/

set_option linter.unusedVariables false

namespace UNouns
open Function Relation Reentrant UNounsToken

/-! ## one entry -/

/-- whose signature an entry uses up, and its nonce -/
def TokenOp.signed (P : Platform) (env : Env) : TokenOp → Option (Address × Nat)
  | .delegateBySig a nonce expiry sig => some (P.ecrecover (.delegation env.chainId a nonce expiry) sig, nonce)
  | _ => none

/-- what an entry without a delegation leaves alone -/
structure SameChoices (t u : UNounsToken) : Prop where
  delegates : u.storedDelegates = t.storedDelegates
  nonces : u.nonces = t.nonces

namespace UNounsToken
variable {env : Env} {t u : UNounsToken} {src dst sender a d : Address} {id : Nat}

theorem approveInternal_choices (h : t.approveInternal dst id = .ok u) : SameChoices t u := by
  simp only [approveInternal, bind_eq_ok, pure_eq_ok] at h
  obtain ⟨_, _, rfl⟩ := h
  exact ⟨rfl, rfl⟩

theorem transferFrom_choices (h : t.transferFrom env sender src dst id = .ok u) : SameChoices t u := by
  simp only [transferFrom, transferInternal, bind_eq_ok, require_eq_ok, pure_eq_ok] at h
  obtain ⟨_, _, _, _, _, _, _, _, _, _, v, hv, w, hw, _, _, rfl⟩ := h
  obtain ⟨⟨o, i, al, ai, logs, rfl, _⟩, _⟩ := beforeTokenTransfer_ok hv
  have hsame := approveInternal_choices hw
  exact ⟨hsame.delegates, hsame.nonces⟩

theorem burn_choices (h : t.burn env sender id = .ok u) : SameChoices t u := by
  simp only [burn, burnInternal, bind_eq_ok, pure_eq_ok] at h
  obtain ⟨_, _, _, ⟨_, _, v, hv, w, hw, _, _, rfl⟩, rfl⟩ := h
  obtain ⟨⟨o, i, al, ai, logs, rfl, _⟩, _⟩ := beforeTokenTransfer_ok hv
  have hsame := approveInternal_choices hw
  exact ⟨hsame.delegates, hsame.nonces⟩

theorem mintNext_choices {seeds : Nat → Result Seed} (h : t.mintNext env dst seeds = .ok u) :
    SameChoices t u := by
  simp only [mintNext, mintTo, mintInternal, bind_eq_ok, require_eq_ok, pure_eq_ok] at h
  obtain ⟨_, _, _, ⟨_, _, _, _, v, hv, rfl⟩, rfl⟩ := h
  obtain ⟨⟨o, i, al, ai, logs, rfl, _⟩, _⟩ := beforeTokenTransfer_ok hv
  exact ⟨rfl, rfl⟩

theorem mint_choices {seeds : Nat → Result Seed} (h : t.mint env sender seeds = .ok (u, id)) :
    SameChoices t u := by
  have reward : ∀ {c : Prop} [Decidable c] {t u : UNounsToken} {dst : Address},
      (if c then t.mintNext env dst seeds else pure t) = .ok u → SameChoices t u := by
    intro c _ t u dst h
    split_ifs at h
    · exact mintNext_choices h
    · cases h
      exact ⟨rfl, rfl⟩
  simp only [mint, bind_eq_ok, pure_eq_ok, Prod.mk.injEq] at h
  obtain ⟨_, _, v, hv, w, hw, x, hx, rfl, _⟩ := h
  have h1 := reward hv
  have h2 := reward hw
  have h3 := mintNext_choices hx
  exact ⟨h3.delegates.trans (h2.delegates.trans h1.delegates), h3.nonces.trans (h2.nonces.trans h1.nonces)⟩

theorem delegateInternal_choices (h : t.delegateInternal env a d = .ok u) :
    u.storedDelegates = update t.storedDelegates a d ∧ u.nonces = t.nonces := by
  simp only [delegateInternal, bind_eq_ok] at h
  obtain ⟨_, _, h⟩ := h
  obtain ⟨⟨logs, rfl⟩, _⟩ := moveDelegates_ok h
  exact ⟨rfl, rfl⟩

end UNounsToken

/-- what an entry does to the delegate of `a`, and to the nonce that its next signature must have -/
structure Chooses (P : Platform) (env : Env) (sender : Address) (op : TokenOp) (a : Address)
    (t u : UNounsToken) : Prop where
  delegate : u.storedDelegates a = match op.delegation P env sender with
    | some (b, d) => if a = b then d else t.storedDelegates a
    | none => t.storedDelegates a
  nonce : u.nonces a = match op.signed P env with
    | some (b, _) => if a = b then t.nonces a + 1 else t.nonces a
    | none => t.nonces a
  next : ∀ n, op.signed P env = some (a, n) → n = t.nonces a

/-- **An entry changes no delegate but the one it names.** -/
theorem TokenOp.apply_choices {P : Platform} {env : Env} {sender : Address} {t u : UNounsToken} {op : TokenOp}
    (h : op.apply P env sender t = .ok u) (a : Address) : Chooses P env sender op a t u := by
  have same : op.delegation P env sender = none → op.signed P env = none → SameChoices t u →
      Chooses P env sender op a t u := fun h1 h2 hs =>
    ⟨by rw [h1, hs.delegates], by rw [h2, hs.nonces], fun n hn => by rw [h2] at hn; cases hn⟩
  cases op with
  | approve b id =>
    simp only [TokenOp.apply, UNounsToken.approve, bind_eq_ok] at h
    obtain ⟨_, _, _, _, _, _, h⟩ := h
    exact same rfl rfl (approveInternal_choices h)
  | setApprovalForAll b c =>
    simp only [TokenOp.apply, UNounsToken.setApprovalForAll, bind_eq_ok, pure_eq_ok] at h
    obtain ⟨_, _, rfl⟩ := h
    exact same rfl rfl ⟨rfl, rfl⟩
  | transferFrom b c id => exact same rfl rfl (transferFrom_choices h)
  | safeTransferFrom b c id data => exact same rfl rfl (transferFrom_choices h)
  | mint seeds =>
    simp only [TokenOp.apply, bind_eq_ok, pure_eq_ok] at h
    obtain ⟨⟨v, id⟩, hm, rfl⟩ := h
    exact same rfl rfl (mint_choices hm)
  | burn id => exact same rfl rfl (burn_choices h)
  | delegate d =>
    obtain ⟨h1, h2⟩ := delegateInternal_choices h
    refine ⟨?_, ?_, fun n hn => by cases hn⟩
    · rw [h1]
      exact update_apply ..
    · rw [h2]
      rfl
  | delegateBySig d nonce expiry sig =>
    simp only [TokenOp.apply, UNounsToken.delegateBySig, bind_eq_ok, require_eq_ok] at h
    obtain ⟨_, _, _, hnonce, _, _, h⟩ := h
    obtain ⟨h1, h2⟩ := delegateInternal_choices h
    refine ⟨?_, ?_, fun n hn => ?_⟩
    · rw [h1]
      exact update_apply ..
    · rw [h2]
      show update _ _ _ a = _
      rw [update_apply]
      exact if_ctx_congr Iff.rfl (fun e => by rw [e]) fun _ => rfl
    · cases hn
      exact hnonce
  | setContractURIHash _ | setUNoundersDAO _ | setMinter _ | lockMinter | setDescriptor _
  | lockDescriptor | setSeeder _ | lockSeeder | transferOwnership _ | renounceOwnership =>
    obtain ⟨_, rfl, _⟩ := TokenOp.apply_setting h trivial
    exact same rfl rfl ⟨rfl, rfl⟩

/-! ## the history -/

section
variable (P : Platform) (a : Address)

/-- the delegate that `a` names in an entry -/
def choice (r : Record Env UNounsToken TokenCall) : Option Address :=
  match r.op.op.delegation P r.env r.op.msg.sender with
  | some (b, d) => if a = b then some d else none
  | none => none

/-- the nonce of the signature of `a` that an entry uses up -/
def usedNonce (r : Record Env UNounsToken TokenCall) : Option Nat :=
  match r.op.op.signed P r.env with
  | some (b, n) => if a = b then some n else none
  | none => none

/-- who has named nobody, or the zero address, is its own delegate -/
def lastWord (past : List (Record Env UNounsToken TokenCall)) : Address :=
  ((past.filterMap (choice P a)).getLast?.filter (· ≠ 0)).getD a

/-- the registers of `a` say what the history says -/
structure Chosen (c : TokenConfig) : Prop where
  delegate : c.now.storedDelegates a = (c.past.filterMap (choice P a)).getLast?.getD 0
  nonces : c.past.filterMap (usedNonce P a) = List.range (c.now.nonces a)

variable {P a}

theorem Chosen.lastWord {c : TokenConfig} (h : Chosen P a c) : lastWord P a c.past = c.now.delegates a := by
  unfold UNouns.lastWord delegates
  rw [h.delegate]
  cases (c.past.filterMap (choice P a)).getLast? with
  | none => rfl
  | some d => by_cases hd : d = 0 <;> simp [hd, Option.filter_some]

theorem TokenMove.chosen {env : Env} {c c' : TokenConfig} (hc : Chosen P a c) (h : TokenMove P env c c') :
    Chosen P a c' := by
  cases h with
  | resume t h => exact h.elim
  | enter op t h =>
    obtain ⟨hdelegate, hnonce, hnext⟩ := TokenOp.apply_choices h a
    refine ⟨?_, ?_⟩
    · show t.storedDelegates a = _
      rw [hdelegate, Config.enter, List.filterMap_append]
      cases hd : op.op.delegation P env op.msg.sender with
      | none => simpa [choice, hd] using hc.delegate
      | some x => by_cases hx : a = x.1 <;> simp [choice, hd, hx, hc.delegate]
    · show _ = List.range (t.nonces a)
      rw [hnonce, Config.enter, List.filterMap_append, hc.nonces]
      cases hs : op.op.signed P env with
      | none => simp [usedNonce, hs]
      | some x =>
        by_cases hx : a = x.1
        · have hn := hnext x.2 (by rw [hs, hx])
          simp [usedNonce, hs, hx, List.range_succ, hn]
        · simp [usedNonce, hs, hx]

end

/-! ## runs -/

/-- **Everyone has the delegate that it has named last.**  Wherever a run is looked at: the delegate of
an account is the one that it has named last, in a call of its own or by its signature; the signatures of
an account that were used carry the nonces from zero on, each once and in their order; and as long as no
signature has handed a balance to the zero address, the votes of a delegate are the number of the tokens
whose owners have named it last. -/
theorem delegations_chosen (P : Platform)
    (deployer unoundersDAO unouncilDAO minter descriptor seeder : Address) (e : Env)
    (ts : List (Tx Env TokenCall)) (hch : (e :: ts.map Tx.env).IsChain (· ≤ ·)) :
    ∀ o ∈ observations (TokenCall.code P) e ts
        ⟨[], deploy deployer unoundersDAO unouncilDAO minter descriptor seeder⟩,
      let t := o.2.now
      (∀ a, t.delegates a = lastWord P a o.2.past) ∧
      (∀ a, o.2.past.filterMap (usedNonce P a) = List.range (t.nonces a)) ∧
      (ZeroFree P o.2.past → ∀ d, d ≠ 0 → t.getCurrentVotes d = ((List.range t.currentUNounId).filter
        fun id => t.owners id ≠ 0 ∧ lastWord P (t.owners id) o.2.past = d).length) := by
  intro o ho t
  have hr := observations_timed
    (fun env (op : TokenCall) (c : TokenConfig) => TokenCall.follows P env op c) hch ho
  have hchosen : ∀ a, Chosen P a o.2 := fun a =>
    Timed.invariant (I := fun _ c => Chosen P a c) (fun _ _ _ hc hm => hm.chosen hc) (fun _ _ _ hc _ => hc) hr
      ⟨rfl, rfl⟩
  refine ⟨fun a => (hchosen a).lastWord.symm, fun a => (hchosen a).nonces, fun hz d hd => ?_⟩
  have h0 := Ledger.deploy_sound deployer unoundersDAO unouncilDAO minter descriptor seeder e.number
  have hdelegated := runs_delegated hr h0 (Ledger.deploy_delegated _ _ _ _ _ _) hz
  have hsound := runs_sound hr h0
  refine (hsound.votes_eq_card hdelegated hd (List.nodup_range.filter _) fun id => ?_).symm
  rw [List.mem_filter, List.mem_range, decide_eq_true_iff, (hchosen _).lastWord]
  exact ⟨fun h => h.2, fun h => ⟨Finset.mem_range.mp (hsound.lt_nextId h.1), h⟩⟩

/-- `9` delegates to `7` by its signature, then by a call to `8`, and the signature is sent once more -/
def wordTxs : List (Tx Env TokenCall) :=
  mintTxs ++
    [⟨.block 8 80, .mk ⟨.of 4 0, .transferFrom 4 9 1⟩ .nil⟩,
     ⟨.block 8 80, .mk ⟨.of 2 0, .delegateBySig 7 0 100 ⟨27, 9, 1⟩⟩ .nil⟩,
     ⟨.block 8 80, .mk ⟨.of 9 0, .delegate 8⟩ .nil⟩,
     ⟨.block 8 80, .mk ⟨.of 2 0, .delegateBySig 7 0 100 ⟨27, 9, 1⟩⟩ .nil⟩]

theorem delegations_chosen_run :
    let last := (runTxs (TokenCall.code (.plain 10 11 4)) wordTxs ⟨[], deploy 1 2 3 4 5 6⟩).2
    last.now.delegates 9 = 8 ∧ last.past.filterMap (usedNonce (.plain 10 11 4) 9) = [0] ∧
      last.now.getCurrentVotes 8 = 1 := by
  intro last
  obtain ⟨h1, h2, h3⟩ := delegations_chosen (.plain 10 11 4) 1 2 3 4 5 6 (.block 6 60) wordTxs
    (by decide +kernel) _ (final_mem_observations _ _ _ _)
  exact ⟨(h1 9).trans (by decide +kernel), (h2 9).trans (by decide +kernel),
    (h3 (by decide +kernel) 8 (by decide)).trans (by decide +kernel)⟩

end UNouns
