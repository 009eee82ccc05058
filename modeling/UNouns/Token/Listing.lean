import UNouns.Lib.Listing
import UNouns.Token.Votes

/-!
# ERC721Enumerable: the lists are right

* `tokenOfOwnerByIndex`, `tokenByIndex`   the views;
* `Listed`                the tokens of each account, and all tokens, are listed with an index;
* `enumerateTransfer_listed`   the hook keeps the lists in step with owners and balances;
* `TokenOp.apply_listed`  so does every entry;
* `listing_exact`         so an account's list has each of its tokens once, and nothing else.
-/

set_option linter.unusedVariables false

namespace UNouns
namespace UNounsToken
open Function Relation Reentrant Listing

/-! ## views -/

def tokenOfOwnerByIndex (t : UNounsToken) (owner : Address) (index : Nat) : Result Nat := do
  let balance ← t.balanceOf owner
  require (index < balance) "ERC721Enumerable: owner index out of bounds"
  pure (t.ownedTokens owner index)

def tokenByIndex (t : UNounsToken) (index : Nat) : Result Nat := do
  require (index < t.totalSupply) "ERC721Enumerable: global index out of bounds"
  pure (t.allTokens.getD index 0)

theorem tokenOfOwnerByIndex_ok {t : UNounsToken} {a : Address} {index id : Nat} :
    t.tokenOfOwnerByIndex a index = .ok id ↔
      a ≠ 0 ∧ index < t.balances a ∧ t.ownedTokens a index = id := by
  simp only [tokenOfOwnerByIndex, balanceOf, bind_eq_ok, require_eq_ok, pure_eq_ok]
  constructor
  · rintro ⟨_, ⟨_, ha, rfl⟩, _, hi, rfl⟩
    exact ⟨ha, hi, rfl⟩
  · rintro ⟨ha, hi, rfl⟩
    exact ⟨_, ⟨(), ha, rfl⟩, (), hi, rfl⟩

theorem tokenByIndex_ok {t : UNounsToken} {index id : Nat} :
    t.tokenByIndex index = .ok id ↔ index < t.allTokens.length ∧ t.allTokens.getD index 0 = id := by
  simp only [tokenByIndex, bind_eq_ok, require_eq_ok, pure_eq_ok]
  constructor
  · rintro ⟨_, hi, rfl⟩
    exact ⟨hi, rfl⟩
  · rintro ⟨hi, rfl⟩
    exact ⟨(), hi, rfl⟩

/-! ## the lists -/

/-- the tokens of each account are listed -/
def OwnedListed (ownedTokens : Address → Nat → Nat) (ownedTokensIndex : Nat → Nat)
    (balances : Address → Nat) (owners : Nat → Address) : Prop :=
  ∀ a, a ≠ 0 → Lists (ownedTokens a) ownedTokensIndex (balances a) (fun id => owners id = a)

/-- all tokens are listed -/
def AllListed (allTokens : List Nat) (allTokensIndex : Nat → Nat) (owners : Nat → Address) : Prop :=
  Lists (fun i => allTokens.getD i 0) allTokensIndex allTokens.length (fun id => owners id ≠ 0)

structure Listed (t : UNounsToken) : Prop where
  owned : OwnedListed t.ownedTokens t.ownedTokensIndex t.balances t.owners
  all : AllListed t.allTokens t.allTokensIndex t.owners

theorem deploy_listed (deployer unoundersDAO unouncilDAO minter descriptor seeder : Address) :
    (deploy deployer unoundersDAO unouncilDAO minter descriptor seeder).Listed where
  owned a ha := lists_zero _ _ fun id h => ha h.symm
  all := lists_zero _ _ fun id h => h rfl

section
variable {t u : UNounsToken} {src dst : Address} {id : Nat}

theorem addTokenToOwnerEnumeration_listed {owners : Nat → Address}
    (hl : OwnedListed t.ownedTokens t.ownedTokensIndex t.balances owners) (hid : owners id = 0)
    (h : t.addTokenToOwnerEnumeration dst id = .ok u) :
    OwnedListed u.ownedTokens u.ownedTokensIndex (update t.balances dst (t.balances dst + 1))
      (update owners id dst) := by
  simp only [addTokenToOwnerEnumeration, bind_eq_ok, pure_eq_ok] at h
  obtain ⟨n, hn, rfl⟩ := h
  obtain ⟨hdst, rfl⟩ := balanceOf_ok hn
  intro a ha
  by_cases e : a = dst
  · subst e
    have hpush := (hl a ha).push (k := id) fun e => ha (e.symm.trans hid)
    simp only [update_self]
    refine hpush.congr (fun _ _ => rfl) (fun _ _ => rfl) fun k => ?_
    by_cases ek : k = id
    · simp [ek]
    · simp [ek]
  · simp only [update_of_ne e]
    refine (hl a ha).congr (fun _ _ => rfl) (fun k hk => ?_) fun k => ?_
    · exact update_of_ne (fun ek => ha (by rw [← hk, ek, hid])) _ _
    · by_cases ek : k = id
      · subst ek
        simp only [update_self, hid]
        exact ⟨fun h => absurd h.symm e, fun h => absurd h.symm ha⟩
      · rw [update_of_ne ek]

/-- the swap of the last token makes no difference where it is left out -/
theorem removeTokenFromOwnerEnumeration_eq (hl : (Lists (t.ownedTokens src) t.ownedTokensIndex
      (t.balances src) (fun id => t.owners id = src))) (hid : t.owners id = src)
    (h : t.removeTokenFromOwnerEnumeration src id = .ok u) :
    let last := t.balances src - 1
    let slots := t.ownedTokens src
    u = { t with
      ownedTokens := update t.ownedTokens src
        (update (update slots (t.ownedTokensIndex id) (slots last)) last 0)
      ownedTokensIndex := update (update t.ownedTokensIndex (slots last) (t.ownedTokensIndex id)) id 0 } := by
  intro last slots
  simp only [removeTokenFromOwnerEnumeration, bind_eq_ok, checkedSub_eq_ok, pure_eq_ok] at h
  obtain ⟨n, hn, _, ⟨_, rfl⟩, rfl⟩ := h
  obtain ⟨_, rfl⟩ := balanceOf_ok hn
  by_cases e : t.ownedTokensIndex id ≠ last
  · rw [if_pos e]
    simp only [update_self, update_idem]
    rfl
  · rw [if_neg e]
    have e' : t.ownedTokensIndex id = last := not_not.mp e
    have hs : slots last = id := e' ▸ (hl.key id hid).2
    have h1 : update slots (t.ownedTokensIndex id) (slots last) = slots := by
      rw [e', update_eq_self]
    have h2 : update t.ownedTokensIndex (slots last) (t.ownedTokensIndex id) = t.ownedTokensIndex := by
      rw [hs, update_eq_self]
    rw [h1, h2]

theorem removeTokenFromOwnerEnumeration_listed
    (hl : OwnedListed t.ownedTokens t.ownedTokensIndex t.balances t.owners) (hid : t.owners id = src)
    (hsrc : src ≠ 0) (h : t.removeTokenFromOwnerEnumeration src id = .ok u) :
    u = { t with ownedTokens := u.ownedTokens, ownedTokensIndex := u.ownedTokensIndex } ∧
    OwnedListed u.ownedTokens u.ownedTokensIndex (update t.balances src (t.balances src - 1))
      (update t.owners id 0) := by
  rw [removeTokenFromOwnerEnumeration_eq (hl src hsrc) hid h]
  refine ⟨rfl, fun a ha => ?_⟩
  have hlast : t.owners (t.ownedTokens src (t.balances src - 1)) = src := by
    have hpos := (hl src hsrc).pos hid
    exact ((hl src hsrc).slot _ (by omega)).1
  by_cases e : a = src
  · subst e
    have hpop := (hl a ha).pop hid 0 0
    simp only [update_self]
    refine hpop.congr (fun _ _ => rfl) (fun _ _ => rfl) fun k => ?_
    by_cases ek : k = id
    · simp [ek, ha.symm]
    · simp [ek]
  · simp only [update_of_ne e]
    refine (hl a ha).congr (fun _ _ => rfl) (fun k hk => ?_) fun k => ?_
    · have h1 : k ≠ id := fun ek => e (by rw [← hk, ek, hid])
      have h2 : k ≠ t.ownedTokens src (t.balances src - 1) := fun ek => e (by rw [← hk, ek, hlast])
      rw [update_of_ne h1, update_of_ne h2]
    · by_cases ek : k = id
      · subst ek
        simp only [update_self, hid]
        exact ⟨fun h => absurd h.symm ha, fun h => absurd h.symm e⟩
      · rw [update_of_ne ek]

theorem addTokenToAllTokensEnumeration_listed (hl : AllListed t.allTokens t.allTokensIndex t.owners)
    (hid : t.owners id = 0) (hdst : dst ≠ 0) :
    let u := t.addTokenToAllTokensEnumeration id
    AllListed u.allTokens u.allTokensIndex (update t.owners id dst) := by
  intro u
  have hpush := Lists.push hl (k := id) fun h => h hid
  rw [← getD_concat] at hpush
  have hlen : u.allTokens.length = t.allTokens.length + 1 := List.length_append
  unfold AllListed
  rw [hlen]
  refine hpush.congr (fun _ _ => rfl) (fun _ _ => rfl) fun k => ?_
  by_cases ek : k = id
  · simp [ek, hdst]
  · simp [ek]

theorem removeTokenFromAllTokensEnumeration_listed {owners : Nat → Address}
    (hl : AllListed t.allTokens t.allTokensIndex owners) (hid : owners id ≠ 0)
    (h : t.removeTokenFromAllTokensEnumeration id = .ok u) :
    u = { t with allTokens := u.allTokens, allTokensIndex := u.allTokensIndex } ∧
    AllListed u.allTokens u.allTokensIndex (update owners id 0) := by
  simp only [removeTokenFromAllTokensEnumeration, bind_eq_ok, checkedSub_eq_ok, pure_eq_ok] at h
  obtain ⟨_, ⟨_, rfl⟩, _, _, rfl⟩ := h
  refine ⟨rfl, ?_⟩
  have hindex := (Lists.key hl id hid).1
  have hpop := Lists.pop hl hid 0 0
  have hlen : ((t.allTokens.set (t.allTokensIndex id)
      (t.allTokens.getD (t.allTokens.length - 1) 0)).dropLast).length = t.allTokens.length - 1 := by simp
  unfold AllListed
  rw [hlen]
  refine hpop.congr (fun i hi => ?_) (fun _ _ => rfl) fun k => ?_
  · rw [update_of_ne (Nat.ne_of_lt hi)]
    exact getD_set_dropLast _ _ _ hindex hi
  · by_cases ek : k = id
    · simp [ek]
    · simp [ek]

/-! ## the hook -/

/-- the balances after a transfer, a mint or a burn -/
def shifted (balances : Address → Nat) (src dst : Address) : Address → Nat :=
  let b := if src = 0 then balances else update balances src (balances src - 1)
  if dst = 0 then b else update b dst (b dst + 1)

/-- **The hook keeps the lists in step**: they are right for the owners and balances to come. -/
theorem enumerateTransfer_listed (hl : t.Listed) (hid : t.owners id = src) (hne : src ≠ 0 ∨ dst ≠ 0)
    (h : t.enumerateTransfer src dst id = .ok u) :
    OwnedListed u.ownedTokens u.ownedTokensIndex (shifted t.balances src dst) (update t.owners id dst) ∧
      AllListed u.allTokens u.allTokensIndex (update t.owners id dst) := by
  simp only [enumerateTransfer, bind_eq_ok] at h
  obtain ⟨v, hv, h⟩ := h
  unfold shifted
  by_cases hsrc : src = 0
  · -- a mint
    have hdst : dst ≠ 0 := hne.resolve_left fun h => h hsrc
    rw [if_pos hsrc, pure_eq_ok] at hv
    rw [if_neg hdst, if_pos (by rwa [hsrc])] at h
    subst hv
    have hadded := addTokenToOwnerEnumeration_listed (t := t.addTokenToAllTokensEnumeration id)
      hl.owned (hid.trans hsrc) h
    have hall := addTokenToAllTokensEnumeration_listed hl.all (hid.trans hsrc) hdst
    obtain ⟨o, i, rfl⟩ := addTokenToOwnerEnumeration_ok h
    rw [if_pos hsrc, if_neg hdst]
    exact ⟨hadded, hall⟩
  rw [if_neg hsrc] at hv
  rw [if_neg hsrc]
  by_cases hdst : dst = 0
  · -- a burn
    rw [if_pos (by rw [hdst]; exact hsrc)] at hv
    rw [if_pos hdst] at h
    obtain ⟨e, hremoved⟩ := removeTokenFromOwnerEnumeration_listed hl.owned hid hsrc hv
    have hkept : AllListed v.allTokens v.allTokensIndex t.owners := by
      rw [e]
      exact hl.all
    obtain ⟨e', hall⟩ := removeTokenFromAllTokensEnumeration_listed hkept (by rwa [hid]) h
    rw [if_pos hdst, hdst]
    refine ⟨?_, hall⟩
    rw [e']
    exact hremoved
  rw [if_neg hdst] at h
  rw [if_neg hdst]
  by_cases e : src = dst
  · -- to its owner
    rw [if_neg (not_not.mpr e), pure_eq_ok] at hv
    rw [if_neg (not_not.mpr e.symm), pure_eq_ok] at h
    subst hv h e
    have hpos := (hl.owned src hsrc).pos hid
    have hb : update (update t.balances src (t.balances src - 1)) src
        (update t.balances src (t.balances src - 1) src + 1) = t.balances := by
      rw [update_idem, update_self, Nat.sub_add_cancel hpos, update_eq_self]
    have ho : update t.owners id src = t.owners := by rw [← hid, update_eq_self]
    rw [hb, ho]
    exact ⟨hl.owned, hl.all⟩
  · -- to another account
    rw [if_pos e] at hv
    rw [if_pos (Ne.symm e)] at h
    obtain ⟨e', hremoved⟩ := removeTokenFromOwnerEnumeration_listed hl.owned hid hsrc hv
    have hb : v.balances = t.balances := by rw [e']
    -- the balance of `dst` is not that of `src`
    have hadd : ({ v with balances := update t.balances src (t.balances src - 1) }
        : UNounsToken).addTokenToOwnerEnumeration dst id =
          .ok { u with balances := update t.balances src (t.balances src - 1) } := by
      simp only [addTokenToOwnerEnumeration, balanceOf, bind_eq_ok, require_eq_ok, pure_eq_ok] at h ⊢
      obtain ⟨n, ⟨_, _, rfl⟩, rfl⟩ := h
      refine ⟨_, ⟨(), hdst, rfl⟩, ?_⟩
      simp only [update_of_ne (Ne.symm e), hb]
    have hadded := addTokenToOwnerEnumeration_listed hremoved (update_self _ _ _) hadd
    obtain ⟨o, i, rfl⟩ := addTokenToOwnerEnumeration_ok h
    rw [update_idem] at hadded
    refine ⟨hadded, ?_⟩
    rw [e']
    refine Lists.congr hl.all (fun _ _ => rfl) (fun _ _ => rfl) fun k => ?_
    by_cases ek : k = id
    · subst ek
      simp [hdst, hid, hsrc]
    · simp [ek]

theorem beforeTokenTransfer_listed {env : Env} (hl : t.Listed) (hid : t.owners id = src)
    (hne : src ≠ 0 ∨ dst ≠ 0) (h : t.beforeTokenTransfer env src dst id = .ok u) :
    OwnedListed u.ownedTokens u.ownedTokensIndex (shifted t.balances src dst) (update t.owners id dst) ∧
      AllListed u.allTokens u.allTokensIndex (update t.owners id dst) := by
  simp only [beforeTokenTransfer, bind_eq_ok] at h
  obtain ⟨v, hv, h⟩ := h
  have hlists := enumerateTransfer_listed hl hid hne hv
  obtain ⟨⟨logs, rfl⟩, _⟩ := moveDelegates_ok h
  exact hlists

/-! ## entries -/

variable {env : Env}

theorem transferInternal_listed (hl : t.Listed) (h : t.transferInternal env src dst id = .ok u) :
    u.Listed := by
  simp only [transferInternal, bind_eq_ok, require_eq_ok, checkedSub_eq_ok, pure_eq_ok] at h
  obtain ⟨_, howner, _, rfl, _, hdst, v, hv, w, hw, _, ⟨_, rfl⟩, rfl⟩ := h
  obtain ⟨ho, hsrc⟩ := ownerOf_ok howner
  obtain ⟨howned, hall⟩ := beforeTokenTransfer_listed hl ho (.inl hsrc) hv
  obtain ⟨⟨o, i, al, ai, logs, rfl, _⟩, _⟩ := beforeTokenTransfer_ok hv
  obtain ⟨approvals, logs', rfl⟩ := approveInternal_ok hw
  rw [shifted, if_neg hsrc, if_neg hdst] at howned
  exact ⟨howned, hall⟩

theorem transferFrom_listed {sender : Address} (hl : t.Listed)
    (h : t.transferFrom env sender src dst id = .ok u) : u.Listed := by
  simp only [transferFrom, bind_eq_ok] at h
  obtain ⟨_, _, _, _, h⟩ := h
  exact transferInternal_listed hl h

theorem mintNext_listed {seeds : Nat → Result Seed} (hl : t.Listed)
    (h : t.mintNext env dst seeds = .ok u) : u.Listed := by
  simp only [mintNext, mintTo, mintInternal, bind_eq_ok, require_eq_ok, pure_eq_ok] at h
  obtain ⟨seed, _, _, ⟨_, hdst, _, ho, v, hv, rfl⟩, rfl⟩ := h
  have hnext : Listed { t with
      currentUNounId := t.currentUNounId + 1
      seeds := update t.seeds t.currentUNounId seed } := ⟨hl.owned, hl.all⟩
  obtain ⟨howned, hall⟩ := beforeTokenTransfer_listed hnext ho (.inr hdst) hv
  obtain ⟨⟨o, i, al, ai, logs, rfl, _⟩, _⟩ := beforeTokenTransfer_ok hv
  rw [shifted, if_pos rfl, if_neg hdst] at howned
  exact ⟨howned, hall⟩

theorem mint_listed {sender : Address} {seeds : Nat → Result Seed} {unounId : Nat} (hl : t.Listed)
    (h : t.mint env sender seeds = .ok (u, unounId)) : u.Listed := by
  have reward : ∀ {c : Prop} [Decidable c] {t u : UNounsToken} {dst : Address}, t.Listed →
      (if c then t.mintNext env dst seeds else pure t) = .ok u → u.Listed := by
    intro c _ t u dst hl h
    split_ifs at h
    · exact mintNext_listed hl h
    · cases h
      exact hl
  simp only [mint, bind_eq_ok, pure_eq_ok, Prod.mk.injEq] at h
  obtain ⟨_, _, v, hv, w, hw, x, hx, rfl, _⟩ := h
  exact mintNext_listed (reward (reward hl hv) hw) hx

theorem burn_listed {sender : Address} (hl : t.Listed) (h : t.burn env sender id = .ok u) :
    u.Listed := by
  simp only [burn, burnInternal, bind_eq_ok, checkedSub_eq_ok, pure_eq_ok] at h
  obtain ⟨_, _, _, ⟨src, howner, v, hv, w, hw, _, ⟨_, rfl⟩, rfl⟩, rfl⟩ := h
  obtain ⟨ho, hsrc⟩ := ownerOf_ok howner
  obtain ⟨howned, hall⟩ := beforeTokenTransfer_listed hl ho (.inl hsrc) hv
  obtain ⟨⟨o, i, al, ai, logs, rfl, _⟩, _⟩ := beforeTokenTransfer_ok hv
  obtain ⟨approvals, logs', rfl⟩ := approveInternal_ok hw
  rw [shifted, if_neg hsrc, if_pos rfl] at howned
  exact ⟨howned, hall⟩

theorem delegateInternal_listed {a d : Address} (hl : t.Listed)
    (h : t.delegateInternal env a d = .ok u) : u.Listed := by
  simp only [delegateInternal, bind_eq_ok] at h
  obtain ⟨_, _, h⟩ := h
  obtain ⟨⟨logs, rfl⟩, _⟩ := moveDelegates_ok h
  exact ⟨hl.owned, hl.all⟩

end

end UNounsToken

open UNounsToken Relation Reentrant

theorem TokenOp.apply_listed {P : Platform} {env : Env} {sender : Address} {t u : UNounsToken}
    {op : TokenOp} (hl : t.Listed) (h : op.apply P env sender t = .ok u) : u.Listed := by
  cases op with
  | approve a id =>
    simp only [TokenOp.apply, UNounsToken.approve, bind_eq_ok] at h
    obtain ⟨_, _, _, _, _, _, h⟩ := h
    obtain ⟨_, _, rfl⟩ := approveInternal_ok h
    exact ⟨hl.owned, hl.all⟩
  | setApprovalForAll a b =>
    simp only [TokenOp.apply, UNounsToken.setApprovalForAll, bind_eq_ok, pure_eq_ok] at h
    obtain ⟨_, _, rfl⟩ := h
    exact ⟨hl.owned, hl.all⟩
  | transferFrom a b id => exact transferFrom_listed hl h
  | safeTransferFrom a b id data => exact transferFrom_listed hl h
  | delegate a => exact delegateInternal_listed hl h
  | delegateBySig a nonce expiry sig =>
    simp only [TokenOp.apply, UNounsToken.delegateBySig, bind_eq_ok] at h
    obtain ⟨_, _, _, _, _, _, h⟩ := h
    refine delegateInternal_listed ?_ h
    exact ⟨hl.owned, hl.all⟩
  | mint seeds =>
    simp only [TokenOp.apply, bind_eq_ok, pure_eq_ok] at h
    obtain ⟨⟨u, id⟩, hm, rfl⟩ := h
    exact mint_listed hl hm
  | burn id => exact burn_listed hl h
  | setContractURIHash _ | setUNoundersDAO _ | setMinter _ | lockMinter | setDescriptor _
  | lockDescriptor | setSeeder _ | lockSeeder | transferOwnership _ | renounceOwnership =>
    obtain ⟨_, rfl, _⟩ := TokenOp.apply_setting h trivial
    exact ⟨hl.owned, hl.all⟩

/-! ## runs -/

theorem TokenMove.listed {P : Platform} {env : Env} {c c' : TokenConfig} (hl : c.now.Listed)
    (h : TokenMove P env c c') : c'.now.Listed := by
  cases h with
  | enter op t h => exact TokenOp.apply_listed hl h
  | resume t h => exact h.elim

theorem runs_listed {P : Platform} {a b : Env × TokenConfig}
    (h : ReflTransGen (Timed (TokenMove P)) a b) (ha : a.2.now.Listed) : b.2.now.Listed :=
  Timed.invariant (I := fun _ c => c.now.Listed) (fun _ _ _ hc hm => hm.listed hc)
    (fun _ _ _ hc _ => hc) h ha

/-- **The lists are exact.**  In every state that a run passes through, `tokenOfOwnerByIndex` answers for
the indices below the balance, with tokens of that account only, each of them at one index; and
`tokenByIndex` answers for the indices below the supply, with the tokens there are, each at one index. -/
theorem listing_exact (P : Platform)
    (deployer unoundersDAO unouncilDAO minter descriptor seeder : Address) (e : Env)
    (ts : List (Tx Env TokenCall)) (hch : (e :: ts.map Tx.env).IsChain (· ≤ ·)) :
    ∀ o ∈ observations (TokenCall.code P) e ts
        ⟨[], deploy deployer unoundersDAO unouncilDAO minter descriptor seeder⟩,
      let t := o.2.now
      (∀ a, a ≠ 0 → Listing.Lists.Answers (fun index id => t.tokenOfOwnerByIndex a index = .ok id) (t.balances a)
        fun id => t.owners id = a) ∧
      Listing.Lists.Answers (fun index id => t.tokenByIndex index = .ok id) t.totalSupply
        fun id => t.owners id ≠ 0 := by
  intro o ho t
  have hr := observations_timed
    (fun env (op : TokenCall) (c : TokenConfig) => TokenCall.follows P env op c) hch ho
  have hl : t.Listed := runs_listed hr (deploy_listed _ _ _ _ _ _)
  refine ⟨fun a ha => Listing.Lists.answers (hl.owned a ha) fun index id => ?_,
    Listing.Lists.answers hl.all fun index id => tokenByIndex_ok⟩
  rw [tokenOfOwnerByIndex_ok]
  exact ⟨And.right, fun h => ⟨ha, h⟩⟩

/-- after the first mint the minter gives its token back and forth, and burns that of the unounders -/
def shuffledTxs : List (Tx Env TokenCall) :=
  mintTxs ++
    [⟨.block 8 80, .mk ⟨.of 4 0, .mint (fun _ => .ok ⟨0, 0, 0, 0, 0⟩)⟩ .nil⟩,
     ⟨.block 8 80, .mk ⟨.of 4 0, .transferFrom 4 9 1⟩ .nil⟩,
     ⟨.block 8 80, .mk ⟨.of 9 0, .transferFrom 9 4 1⟩ .nil⟩,
     ⟨.block 8 80, .mk ⟨.of 4 0, .burn 0⟩ .nil⟩]

theorem listing_exact_run :
    let last := (runTxs (TokenCall.code (.plain 10 11 4)) shuffledTxs ⟨[], deploy 1 2 3 4 5 6⟩).2.now
    last.balances 4 = 2 ∧ last.totalSupply = 3 ∧
      (∃! index, last.tokenOfOwnerByIndex 4 index = .ok 1) ∧
      (∃! index, last.tokenByIndex index = .ok 3) ∧ ∀ index, last.tokenByIndex index ≠ .ok 0 := by
  intro last
  obtain ⟨h1, h2⟩ := listing_exact (.plain 10 11 4) 1 2 3 4 5 6 (.block 6 60) shuffledTxs
    (by decide +kernel) _ (final_mem_observations _ _ _ _)
  refine ⟨by decide +kernel, by decide +kernel, ((h1 4 (by decide)).unique 1).mpr (by decide +kernel),
    (h2.unique 3).mpr (by decide +kernel), fun index h => h2.listed index 0 h (by decide +kernel)⟩

end UNouns
