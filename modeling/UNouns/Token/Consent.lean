import UNouns.Token.Liveness

/-!
# Tokens are given away by their owner only

An account that has made no call of the token, itself or through its OpenSea proxy, has approved nobody,
and the approval of a token does not outlive a transfer.  So the account keeps what it gets, until the
minter burns it.

* `Withheld`                 the account has approved nobody;
* `TokenOp.apply_withheld`   an entry of someone else leaves it so, and takes no token but by a burn;
* `tokens_kept`              over any run.
-/

set_option linter.unusedVariables false

namespace UNouns
namespace UNounsToken
open Function Relation Reentrant

structure Withheld (a : Address) (t : UNounsToken) : Prop where
  operators : ∀ x, t.operatorApprovals a x = false
  approvals : ∀ id, t.owners id = a ∨ t.owners id = 0 → t.tokenApprovals id = 0

/-! ## what entries leave of the approvals -/

section
variable {env : Env} {t u : UNounsToken} {src dst sender a : Address} {id : Nat}

theorem approveInternal_approvals (h : t.approveInternal dst id = .ok u) :
    u = { t with tokenApprovals := update t.tokenApprovals id dst, logs := u.logs } := by
  simp only [approveInternal, bind_eq_ok, pure_eq_ok] at h
  obtain ⟨_, _, rfl⟩ := h
  rfl

/-- a transfer clears the approval -/
theorem transferFrom_approvals (h : t.transferFrom env sender src dst id = .ok u) :
    (sender = src ∨ t.tokenApprovals id = sender ∨ t.isApprovedForAll env src sender = true) ∧
      t.owners id = src ∧ u.owners = update t.owners id dst ∧
      u.tokenApprovals = update t.tokenApprovals id 0 ∧ u.operatorApprovals = t.operatorApprovals := by
  simp only [transferFrom, transferInternal, bind_eq_ok, require_eq_ok, pure_eq_ok] at h
  obtain ⟨_, hallowed, _, rfl, _, howner, _, rfl, _, _, v, hv, w, hw, _, _, rfl⟩ := h
  obtain ⟨ho, hsrc⟩ := ownerOf_ok howner
  obtain ⟨⟨o, i, al, ai, logs, rfl, _⟩, _⟩ := beforeTokenTransfer_ok hv
  rw [approveInternal_approvals hw]
  exact ⟨(isApprovedOrOwner_iff ho hsrc).mp hallowed, ho, rfl, rfl, rfl⟩

theorem burn_approvals (h : t.burn env sender id = .ok u) :
    sender = t.minter ∧ u.owners = update t.owners id 0 ∧
      u.tokenApprovals = update t.tokenApprovals id 0 ∧ u.operatorApprovals = t.operatorApprovals := by
  simp only [burn, burnInternal, onlyMinter, bind_eq_ok, require_eq_ok, pure_eq_ok] at h
  obtain ⟨_, hminter, _, ⟨_, _, v, hv, w, hw, _, _, rfl⟩, rfl⟩ := h
  obtain ⟨⟨o, i, al, ai, logs, rfl, _⟩, _⟩ := beforeTokenTransfer_ok hv
  rw [approveInternal_approvals hw]
  exact ⟨hminter, rfl, rfl, rfl⟩

/-- owners go from nobody to somebody, and approvals stay -/
structure Mints (t u : UNounsToken) : Prop where
  owners : ∀ id, t.owners id ≠ 0 → u.owners id = t.owners id
  approvals : u.tokenApprovals = t.tokenApprovals
  operators : u.operatorApprovals = t.operatorApprovals

theorem Mints.trans {t u v : UNounsToken} (h : Mints t u) (h' : Mints u v) : Mints t v where
  owners id hid := (h'.owners id (by rwa [h.owners id hid])).trans (h.owners id hid)
  approvals := h'.approvals.trans h.approvals
  operators := h'.operators.trans h.operators

theorem mintNext_mints {seeds : Nat → Result Seed} (h : t.mintNext env dst seeds = .ok u) :
    Mints t u := by
  simp only [mintNext, mintTo, mintInternal, bind_eq_ok, require_eq_ok, pure_eq_ok] at h
  obtain ⟨_, _, _, ⟨_, _, _, ho, v, hv, rfl⟩, rfl⟩ := h
  obtain ⟨⟨o, i, al, ai, logs, rfl, _⟩, _⟩ := beforeTokenTransfer_ok hv
  exact ⟨fun id hid => update_of_ne (fun e => hid (by rw [e]; exact ho)) _ _, rfl, rfl⟩

theorem mint_mints {seeds : Nat → Result Seed} {unounId : Nat}
    (h : t.mint env sender seeds = .ok (u, unounId)) : Mints t u := by
  have reward : ∀ {c : Prop} [Decidable c] {t u : UNounsToken} {dst : Address},
      (if c then t.mintNext env dst seeds else pure t) = .ok u → Mints t u := by
    intro c _ t u dst h
    split_ifs at h
    · exact mintNext_mints h
    · cases h
      exact ⟨fun _ _ => rfl, rfl, rfl⟩
  simp only [mint, bind_eq_ok, pure_eq_ok, Prod.mk.injEq] at h
  obtain ⟨_, _, v, hv, w, hw, x, hx, rfl, _⟩ := h
  exact ((reward hv).trans (reward hw)).trans (mintNext_mints hx)

theorem delegateInternal_approvals {d : Address} (h : t.delegateInternal env a d = .ok u) :
    u.owners = t.owners ∧ u.tokenApprovals = t.tokenApprovals ∧
      u.operatorApprovals = t.operatorApprovals := by
  simp only [delegateInternal, bind_eq_ok] at h
  obtain ⟨_, _, h⟩ := h
  obtain ⟨⟨logs, rfl⟩, _⟩ := moveDelegates_ok h
  exact ⟨rfl, rfl, rfl⟩

/-! ## one entry -/

/-- what a call of someone else does to `a` -/
def Spares (a sender : Address) (t u : UNounsToken) (op : TokenOp) : Prop :=
  Withheld a u ∧ ∀ id, t.owners id = a → u.owners id = a ∨ op = .burn id ∧ sender = t.minter

theorem spares_same {op : TokenOp} (hu : Withheld a t) (howners : u.owners = t.owners)
    (happrovals : u.tokenApprovals = t.tokenApprovals)
    (hoperators : u.operatorApprovals = t.operatorApprovals) : Spares a sender t u op := by
  refine ⟨⟨?_, ?_⟩, fun id hid => .inl (by rw [howners]; exact hid)⟩
  · rw [hoperators]
    exact hu.operators
  · rw [howners, happrovals]
    exact hu.approvals

/-- nobody may act for `a` -/
theorem Withheld.not_allowed (hu : Withheld a t) (hsender : sender ≠ a) (h0 : sender ≠ 0)
    (hproxy : env.proxies a ≠ sender) (hid : t.owners id = a) :
    ¬ (sender = a ∨ t.tokenApprovals id = sender ∨ t.isApprovedForAll env a sender = true) := by
  rintro (h | h | h)
  · exact hsender h
  · exact h0 (h.symm.trans (hu.approvals id (.inl hid)))
  · simp [isApprovedForAll, hproxy, hu.operators] at h

theorem transferFrom_spares {op : TokenOp} (ha : a ≠ 0) (hu : Withheld a t) (hsender : sender ≠ a)
    (h0 : sender ≠ 0) (hproxy : env.proxies a ≠ sender)
    (h : t.transferFrom env sender src dst id = .ok u) : Spares a sender t u op := by
  obtain ⟨hallowed, ho, howners, happrovals, hoperators⟩ := transferFrom_approvals h
  have hsrc : src ≠ a := by
    rintro rfl
    exact hu.not_allowed hsender h0 hproxy ho hallowed
  refine ⟨⟨?_, fun k hk => ?_⟩, fun k hk => .inl ?_⟩
  · rw [hoperators]
    exact hu.operators
  · rw [happrovals]
    by_cases e : k = id
    · rw [e, update_self]
    · rw [howners, update_of_ne e] at hk
      rw [update_of_ne e]
      exact hu.approvals k hk
  · have e : k ≠ id := fun e => hsrc (by rw [← ho, ← e, hk])
    rw [howners, update_of_ne e]
    exact hk

end

end UNounsToken

open UNounsToken Function Relation Reentrant

/-- **An entry of someone else takes no token**, but by a burn of the minter. -/
theorem TokenOp.apply_withheld {P : Platform} {env : Env} {sender a : Address} {t u : UNounsToken}
    {op : TokenOp} (ha : a ≠ 0) (hu : Withheld a t) (hsender : sender ≠ a) (h0 : sender ≠ 0)
    (hproxy : env.proxies a ≠ sender) (h : op.apply P env sender t = .ok u) :
    Spares a sender t u op := by
  cases op with
  | approve b id =>
    simp only [TokenOp.apply, UNounsToken.approve, bind_eq_ok, require_eq_ok] at h
    obtain ⟨owner, howner, _, _, _, hallowed, h⟩ := h
    obtain ⟨ho, hne⟩ := ownerOf_ok howner
    rw [approveInternal_approvals h]
    have hother : owner ≠ a := by
      rintro rfl
      refine hu.not_allowed hsender h0 hproxy ho (hallowed.imp_right .inr)
    refine ⟨⟨hu.operators, fun k hk => ?_⟩, fun k hk => .inl hk⟩
    have e : k ≠ id := by
      rintro rfl
      rcases hk with hk | hk
      · exact hother (ho.symm.trans hk)
      · exact hne (ho.symm.trans hk)
    exact (update_of_ne e _ _).trans (hu.approvals k hk)
  | setApprovalForAll operator approved =>
    simp only [TokenOp.apply, UNounsToken.setApprovalForAll, bind_eq_ok, pure_eq_ok] at h
    obtain ⟨_, _, rfl⟩ := h
    refine ⟨⟨fun x => ?_, hu.approvals⟩, fun k hk => .inl hk⟩
    show update t.operatorApprovals sender _ a x = false
    rw [update_of_ne (Ne.symm hsender)]
    exact hu.operators x
  | transferFrom b c id => exact transferFrom_spares ha hu hsender h0 hproxy h
  | safeTransferFrom b c id data => exact transferFrom_spares ha hu hsender h0 hproxy h
  | delegate d =>
    obtain ⟨h1, h2, h3⟩ := delegateInternal_approvals h
    exact spares_same hu h1 h2 h3
  | delegateBySig d nonce expiry sig =>
    simp only [TokenOp.apply, UNounsToken.delegateBySig, bind_eq_ok] at h
    obtain ⟨_, _, _, _, _, _, h⟩ := h
    obtain ⟨h1, h2, h3⟩ := delegateInternal_approvals h
    exact spares_same hu h1 h2 h3
  | mint seeds =>
    simp only [TokenOp.apply, bind_eq_ok, pure_eq_ok] at h
    obtain ⟨⟨v, id⟩, hm, rfl⟩ := h
    have hmints := mint_mints hm
    refine ⟨⟨?_, fun k hk => ?_⟩, fun k hk => .inl ?_⟩
    · rw [hmints.operators]
      exact hu.operators
    · rw [hmints.approvals]
      by_cases e : t.owners k = 0
      · exact hu.approvals k (.inr e)
      · rw [hmints.owners k e] at hk
        exact hu.approvals k hk
    · rw [hmints.owners k (by rwa [hk])]
      exact hk
  | burn id =>
    obtain ⟨hminter, howners, happrovals, hoperators⟩ := burn_approvals h
    refine ⟨⟨?_, fun k hk => ?_⟩, fun k hk => ?_⟩
    · rw [hoperators]
      exact hu.operators
    · rw [happrovals]
      by_cases e : k = id
      · rw [e, update_self]
      · rw [howners, update_of_ne e] at hk
        rw [update_of_ne e]
        exact hu.approvals k hk
    · by_cases e : k = id
      · exact .inr ⟨by rw [e], hminter⟩
      · rw [howners, update_of_ne e]
        exact .inl hk
  | setContractURIHash _ | setUNoundersDAO _ | setMinter _ | lockMinter | setDescriptor _
  | lockDescriptor | setSeeder _ | lockSeeder | transferOwnership _ | renounceOwnership =>
    obtain ⟨_, rfl, _⟩ := TokenOp.apply_setting h trivial
    exact spares_same hu rfl rfl rfl

/-! ## runs -/

/-- `a` has made no call, itself or through its proxy -/
def Idle (a : Address) (past : List (Record Env UNounsToken TokenCall)) : Prop :=
  ∀ r ∈ past, r.op.msg.sender ≠ a ∧ r.env.proxies a ≠ r.op.msg.sender

instance (a : Address) (past : List (Record Env UNounsToken TokenCall)) : Decidable (Idle a past) :=
  inferInstanceAs (Decidable (∀ r ∈ past, r.op.msg.sender ≠ a ∧ r.env.proxies a ≠ r.op.msg.sender))

/-- from each entry on, `a` has what it had then, less what the minter has burned since -/
def Holding (a : Address) (c : TokenConfig) : Prop :=
  Withheld a c.now ∧ ∀ before r after, c.past = before ++ r :: after → ∀ id, r.pre.owners id = a →
    c.now.owners id = a ∨ ∃ x ∈ r :: after, x.op.op = .burn id ∧ x.op.msg.sender = x.pre.minter

theorem TokenMove.kept {P : Platform} {env : Env} {a : Address} {c c' : TokenConfig} (ha : a ≠ 0)
    (hidle : Idle a c'.past) (hc : Holding a c) (h : TokenMove P env c c') : Holding a c' := by
  cases h with
  | resume t h => exact h.elim
  | enter op t h =>
    obtain ⟨hsender, hproxy⟩ := hidle ⟨env, c.now, op⟩
      (List.mem_append_right _ (List.mem_singleton_self _))
    obtain ⟨hu, hspare⟩ := TokenOp.apply_withheld ha hc.1 hsender op.msg.sender_ne hproxy h
    have hnow : ∀ id, c.now.owners id = a → t.owners id = a ∨ ∃ x ∈ [(⟨env, c.now, op⟩ : Record _ _ _)],
        x.op.op = .burn id ∧ x.op.msg.sender = x.pre.minter := fun id hid =>
      (hspare id hid).imp_right fun hb => ⟨_, List.mem_singleton_self _, hb⟩
    refine ⟨hu, forall_cuts_concat.mpr ⟨fun before r after hpast id hid => ?_, hnow⟩⟩
    rcases hc.2 before r after hpast id hid with hid | ⟨x, hx, hb⟩
    · rcases hnow id hid with hid | ⟨x, hx, hb⟩
      · exact .inl hid
      · exact .inr ⟨x, List.mem_cons_of_mem _ (List.mem_append_right _ hx), hb⟩
    · refine .inr ⟨x, ?_, hb⟩
      rw [← List.cons_append]
      exact List.mem_append_left _ hx

/-- **Nobody loses a token by doing nothing.**  Wherever a run is looked at: an account that has made no
call so far, itself or through its proxy, owns each token that it owned when some entry began, unless
from that entry on the minter has burned it. -/
theorem tokens_kept (P : Platform)
    (deployer unoundersDAO unouncilDAO minter descriptor seeder : Address) (e : Env)
    (ts : List (Tx Env TokenCall)) (hch : (e :: ts.map Tx.env).IsChain (· ≤ ·)) :
    ∀ o ∈ observations (TokenCall.code P) e ts
        ⟨[], deploy deployer unoundersDAO unouncilDAO minter descriptor seeder⟩,
      ∀ a, a ≠ 0 → Idle a o.2.past →
        ∀ before r after, o.2.past = before ++ r :: after → ∀ id, r.pre.owners id = a →
          o.2.now.owners id = a ∨
            ∃ x ∈ r :: after, x.op.op = .burn id ∧ x.op.msg.sender = x.pre.minter := by
  intro o ho a ha hidle
  let start : TokenConfig :=
    ⟨[], deploy deployer unoundersDAO unouncilDAO minter descriptor seeder⟩
  have hstart : Holding a start :=
    ⟨⟨fun _ => rfl, fun _ _ => rfl⟩, fun before r after hpast =>
      absurd (congrArg List.length hpast) (by simp [start])⟩
  have hr : ReflTransGen (Timed (TokenMove P)) (e, start) o := observations_timed
    (fun env (op : TokenCall) (c : TokenConfig) => TokenCall.follows P env op c) hch ho
  exact (Timed.invariant_under (I := fun _ c => Holding a c) (P := fun c => Idle a c.past)
    (fun _ _ _ hm hi r hr => hi r (hm.past_prefix.subset hr))
    (fun _ _ _ _ hi hc hm => hm.kept ha hi hc) (fun _ _ _ hc _ => hc) hr hstart hidle).2

/-- `9` has a token from the unounders, and other accounts try to take it -/
def takingTxs : List (Tx Env TokenCall) :=
  mintTxs ++
    [⟨.block 8 80, .mk ⟨.of 2 0, .approve 8 0⟩ .nil⟩,
     ⟨.block 8 80, .mk ⟨.of 2 0, .transferFrom 2 9 0⟩ .nil⟩,
     ⟨.block 8 80, .mk ⟨.of 8 0, .setApprovalForAll 7 true⟩ .nil⟩,
     ⟨.block 8 80, .mk ⟨.of 8 0, .transferFrom 9 8 0⟩ .nil⟩,
     ⟨.block 8 80, .mk ⟨.of 2 0, .transferFrom 9 2 0⟩ .nil⟩]

theorem tokens_kept_run :
    let last := (runTxs (TokenCall.code (.plain 10 11 4)) takingTxs ⟨[], deploy 1 2 3 4 5 6⟩).2
    last.past.length = 4 ∧ (last.now.owners 0 = 9 ∨ ∃ x ∈ last.past.drop 3,
      x.op.op = .burn 0 ∧ x.op.msg.sender = x.pre.minter) := by
  intro last
  have hlen : last.past.length = 4 := by decide +kernel
  have h9 : last.past[3]?.map (fun r => r.pre.owners 0) = some 9 := by decide +kernel
  obtain ⟨r, hr, howner⟩ := Option.map_eq_some_iff.mp h9
  obtain ⟨h3, rfl⟩ := List.getElem?_eq_some_iff.mp hr
  have hpast : last.past = last.past.take 3 ++ last.past[3] :: last.past.drop 4 := by
    rw [List.getElem_cons_drop, List.take_append_drop]
  have h := tokens_kept (.plain 10 11 4) 1 2 3 4 5 6 (.block 6 60) takingTxs (by decide +kernel) _
    (final_mem_observations _ _ _ _) 9 (by decide) (by decide +kernel) _ _ _ hpast 0 howner
  rw [List.getElem_cons_drop] at h
  exact ⟨hlen, h⟩

end UNouns
