import UNouns.Token.Listing

/-!
# The token never gets stuck

As long as no signature has handed a balance to the zero address, a transfer, a burn or a delegation
fails for the reasons that the code names and for no other: neither the lists nor the votes nor the
checkpoints stand in the way.  Blocks are below `2^32 - 1`, and there are fewer than `2^96 - 2` tokens.

* `enumerateTransfer_total`, `moveDelegates_total`   the two halves of the hook;
* `Fit`                  what holds of a token in a run, and is enough;
* `transferFrom_iff`, `burn_iff`, `delegate_total`, `delegateBySig_iff`, `mint_total`   the entries;
* `entries_succeed`      all of them, in every run.
-/

set_option linter.unusedVariables false

namespace UNouns
namespace UNounsToken
open Function Relation Reentrant Checkpoints Listing

/-! ## the lists -/

section
variable {t : UNounsToken} {src dst : Address} {id : Nat}

theorem addTokenToOwnerEnumeration_total (hdst : dst ≠ 0) :
    ∃ u, t.addTokenToOwnerEnumeration dst id = .ok u := by
  refine ⟨_, bind_eq_ok.mpr ⟨t.balances dst, ?_, rfl⟩⟩
  exact bind_eq_ok.mpr ⟨(), require_eq_ok.mpr hdst, rfl⟩

theorem removeTokenFromOwnerEnumeration_total (hsrc : src ≠ 0) (hbal : 1 ≤ t.balances src) :
    ∃ u, t.removeTokenFromOwnerEnumeration src id = .ok u := by
  refine ⟨_, bind_eq_ok.mpr ⟨t.balances src, ?_, bind_eq_ok.mpr ⟨_, checkedSub_eq_ok.mpr ⟨hbal, rfl⟩, rfl⟩⟩⟩
  exact bind_eq_ok.mpr ⟨(), require_eq_ok.mpr hsrc, rfl⟩

theorem removeTokenFromAllTokensEnumeration_total (hindex : t.allTokensIndex id < t.allTokens.length) :
    ∃ u, t.removeTokenFromAllTokensEnumeration id = .ok u :=
  ⟨_, bind_eq_ok.mpr ⟨_, checkedSub_eq_ok.mpr ⟨by omega, rfl⟩,
    bind_eq_ok.mpr ⟨(), revertUnless_eq_ok.mpr hindex, rfl⟩⟩⟩

/-- the lists never stand in the way -/
theorem enumerateTransfer_total (hl : t.Listed) (hid : t.owners id = src) (hne : src ≠ 0 ∨ dst ≠ 0) :
    ∃ u, t.enumerateTransfer src dst id = .ok u := by
  by_cases hsrc : src = 0
  · have hdst : dst ≠ 0 := hne.resolve_left fun h => h hsrc
    obtain ⟨u, hu⟩ : ∃ u, (t.addTokenToAllTokensEnumeration id).addTokenToOwnerEnumeration dst id = .ok u :=
      addTokenToOwnerEnumeration_total hdst
    refine ⟨u, bind_eq_ok.mpr ⟨t.addTokenToAllTokensEnumeration id, if_pos hsrc, ?_⟩⟩
    rw [if_neg hdst, if_pos (by rwa [hsrc])]
    exact hu
  by_cases e : src = dst
  · refine ⟨t, bind_eq_ok.mpr ⟨t, ?_, ?_⟩⟩
    · rw [if_neg hsrc, if_neg (not_not.mpr e)]
      rfl
    · rw [if_neg (e ▸ hsrc), if_neg (not_not.mpr e.symm)]
      rfl
  obtain ⟨v, hv⟩ : ∃ v, t.removeTokenFromOwnerEnumeration src id = .ok v :=
    removeTokenFromOwnerEnumeration_total hsrc ((hl.owned src hsrc).pos hid)
  have hfirst : (if src = 0 then pure (t.addTokenToAllTokensEnumeration id)
      else if src ≠ dst then t.removeTokenFromOwnerEnumeration src id else pure t) = .ok v := by
    rw [if_neg hsrc, if_pos e]
    exact hv
  by_cases hdst : dst = 0
  · have hindex : v.allTokensIndex id < v.allTokens.length := by
      obtain ⟨o, i, rfl⟩ := removeTokenFromOwnerEnumeration_ok hv
      exact (Lists.key hl.all id (by rwa [hid])).1
    obtain ⟨u, hu⟩ := removeTokenFromAllTokensEnumeration_total hindex
    refine ⟨u, bind_eq_ok.mpr ⟨v, hfirst, ?_⟩⟩
    rw [if_pos hdst]
    exact hu
  · obtain ⟨u, hu⟩ : ∃ u, v.addTokenToOwnerEnumeration dst id = .ok u :=
      addTokenToOwnerEnumeration_total hdst
    refine ⟨u, bind_eq_ok.mpr ⟨v, hfirst, ?_⟩⟩
    rw [if_neg hdst, if_pos (Ne.symm e)]
    exact hu

end

/-! ## the votes -/

section
variable {env : Env} {t : UNounsToken} (hsmall : env.number + 1 < 2^32)
include hsmall

theorem writeCheckpoint_total {a : Address} (h : UpTo (t.checkpoints a) env.number) (old new : Nat) :
    ∃ u, t.writeCheckpoint env a old new = .ok u := by
  have hlen := (h.write new).length_le
  exact ⟨_, bind_eq_ok.mpr ⟨(), require_eq_ok.mpr (by omega),
    bind_eq_ok.mpr ⟨(), revertUnless_eq_ok.mpr (by omega), rfl⟩⟩⟩

/-- votes that are there are moved -/
theorem moveDelegates_total (h : ∀ a, UpTo (t.checkpoints a) env.number) {src dst : Address} {n : Nat}
    (htake : src ≠ dst → src ≠ 0 → n ≤ t.getCurrentVotes src)
    (hgive : src ≠ dst → dst ≠ 0 → t.getCurrentVotes dst + n < 2^96) :
    ∃ u, t.moveDelegates env src dst n = .ok u := by
  unfold moveDelegates
  by_cases hc : src ≠ dst ∧ 0 < n
  swap
  · exact ⟨t, if_neg hc⟩
  obtain ⟨hne, hn⟩ := hc
  have htaken : ∃ v, t.takeVotes env src n = .ok v ∧ v.checkpoints dst = t.checkpoints dst := by
    unfold takeVotes
    by_cases hsrc : src = 0
    · exact ⟨t, if_neg (not_not.mpr hsrc), rfl⟩
    · obtain ⟨v, hv⟩ := writeCheckpoint_total hsmall (h src) (t.getCurrentVotes src)
        (t.getCurrentVotes src - n)
      refine ⟨v, ?_, ?_⟩
      · rw [if_pos hsrc]
        exact bind_eq_ok.mpr ⟨_, bind_eq_ok.mpr ⟨(), require_eq_ok.mpr (htake hne hsrc), rfl⟩, hv⟩
      · rw [writeCheckpoint_ok hv]
        exact update_of_ne (Ne.symm hne) _ _
  obtain ⟨v, hv, hdst⟩ := htaken
  have hgiven : ∃ u, v.giveVotes env dst n = .ok u := by
    unfold giveVotes
    by_cases h0 : dst = 0
    · exact ⟨v, if_neg (not_not.mpr h0)⟩
    · have hup : UpTo (v.checkpoints dst) env.number := by
        rw [hdst]
        exact h dst
      have hvotes : v.getCurrentVotes dst = t.getCurrentVotes dst := by
        unfold getCurrentVotes
        rw [hdst]
      obtain ⟨u, hu⟩ := writeCheckpoint_total hsmall hup (v.getCurrentVotes dst)
        (v.getCurrentVotes dst + n)
      refine ⟨u, ?_⟩
      rw [if_pos h0]
      refine bind_eq_ok.mpr ⟨_, bind_eq_ok.mpr ⟨(), revertUnless_eq_ok.mpr ?_, bind_eq_ok.mpr ⟨(),
        require_eq_ok.mpr (Nat.le_add_right _ _), rfl⟩⟩, hu⟩
      rw [hvotes]
      exact hgive hne h0
  obtain ⟨u, hu⟩ := hgiven
  refine ⟨u, ?_⟩
  rw [if_pos ⟨hne, hn⟩]
  exact bind_eq_ok.mpr ⟨v, hv, hu⟩

end

end UNounsToken

/-- two accounts have no more votes than there are tokens -/
theorem Ledger.Sound.votes_add_le {l : Ledger} {b : Nat} (h : l.Sound b) {x y : Address} (hne : x ≠ y) :
    l.votes x + l.votes y ≤ l.supply := by
  refine Nat.le_trans ?_ h.votes_le
  rw [← Finset.sum_pair hne]
  exact Finset.sum_le_sum_of_subset (Finset.subset_univ _)

theorem Ledger.Sound.votes_le_totalSupply {l : Ledger} {b : Nat} (h : l.Sound b) (x : Address) :
    l.votes x ≤ l.supply :=
  Nat.le_trans (Finset.single_le_sum (fun _ _ => Nat.zero_le _) (Finset.mem_univ x)) h.votes_le

theorem Ledger.Sound.balance_le_supply {l : Ledger} {b : Nat} (h : l.Sound b) (x : Address) :
    l.balances x ≤ l.supply := by
  rw [h.supply_eq]
  exact Finset.single_le_sum (f := l.balances) (fun _ _ => Nat.zero_le _) (Finset.mem_univ x)

namespace UNounsToken
open Function Relation Reentrant Checkpoints Listing

/-! ## entries -/

/-- what holds of a token in a run, at a time that is not too late -/
structure Fit (env : Env) (t : UNounsToken) : Prop where
  sound : t.ledger.Sound env.number
  listed : t.Listed
  delegated : t.ledger.Delegated
  time : env.number + 1 < 2^32
  supply : t.totalSupply + 2 < 2^96

section
variable {env : Env} {t : UNounsToken} {src dst : Address} {id : Nat}

theorem beforeTokenTransfer_total (hzero : t.delegates 0 = 0)
    (hup : ∀ a, UpTo (t.checkpoints a) env.number) (hle : ∀ a, t.getCurrentVotes a + 1 < 2^96)
    (hl : t.Listed) (htime : env.number + 1 < 2^32) (hid : t.owners id = src)
    (hne : src ≠ 0 ∨ dst ≠ 0) (hvotes : src ≠ 0 → 1 ≤ t.getCurrentVotes (t.delegates src)) :
    ∃ u, t.beforeTokenTransfer env src dst id = .ok u := by
  obtain ⟨v, hv⟩ := enumerateTransfer_total hl hid hne
  have hv' := hv
  obtain ⟨o, i, al, ai, rfl, _⟩ := enumerateTransfer_ok hv
  have hsrc : t.delegates src ≠ 0 → src ≠ 0 := by
    rintro h rfl
    exact h hzero
  let w : UNounsToken := { t with
    ownedTokens := o, ownedTokensIndex := i, allTokens := al, allTokensIndex := ai }
  obtain ⟨u, hu⟩ : ∃ u, w.moveDelegates env (t.delegates src) (t.delegates dst) 1 = .ok u :=
    moveDelegates_total (t := w) htime hup (fun _ h0 => hvotes (hsrc h0)) fun _ _ => hle _
  exact ⟨u, bind_eq_ok.mpr ⟨_, hv', hu⟩⟩

theorem Fit.votes_lt (hf : t.Fit env) (a : Address) : t.getCurrentVotes a + 1 < 2^96 := by
  have h1 : t.getCurrentVotes a ≤ t.totalSupply := hf.sound.votes_le_totalSupply a
  have h2 := hf.supply
  omega

theorem isApprovedOrOwner_iff {spender : Address} (hid : t.owners id = src) (hsrc : src ≠ 0) :
    t.isApprovedOrOwner env spender id = .ok true ↔
      spender = src ∨ t.tokenApprovals id = spender ∨ t.isApprovedForAll env src spender = true := by
  have h0 : t.owners id ≠ 0 := by rwa [hid]
  simp only [isApprovedOrOwner, ownerOf, getApproved, bind_eq_ok, require_eq_ok, pure_eq_ok, hid]
  constructor
  · rintro ⟨_, _, _, ⟨_, _, rfl⟩, _, ⟨_, _, rfl⟩, h⟩
    simpa [or_assoc] using h
  · intro h
    refine ⟨(), hsrc, src, ⟨(), hsrc, rfl⟩, _, ⟨(), hsrc, rfl⟩, ?_⟩
    simpa [or_assoc] using h

/-- **A transfer succeeds if and only if it is allowed.** -/
theorem transferFrom_iff (hf : t.Fit env) {sender : Address} :
    (∃ u, t.transferFrom env sender src dst id = .ok u) ↔
      t.owners id = src ∧ src ≠ 0 ∧ dst ≠ 0 ∧ (sender = src ∨ t.tokenApprovals id = sender ∨
        t.isApprovedForAll env src sender = true) := by
  constructor
  · rintro ⟨u, h⟩
    simp only [transferFrom, transferInternal, bind_eq_ok, require_eq_ok] at h
    obtain ⟨allowed, hallowed, _, htrue, owner, howner, _, rfl, _, hdst, _⟩ := h
    obtain ⟨ho, hsrc⟩ := ownerOf_ok howner
    rw [htrue] at hallowed
    exact ⟨ho, hsrc, hdst, (isApprovedOrOwner_iff ho hsrc).mp hallowed⟩
  · rintro ⟨hid, hsrc, hdst, hallowed⟩
    have h0 : t.owners id ≠ 0 := by rwa [hid]
    have howner : t.ownerOf id = .ok src := bind_eq_ok.mpr ⟨(), require_eq_ok.mpr h0, by rw [hid]; rfl⟩
    have hvotes : 1 ≤ t.getCurrentVotes (t.delegates src) :=
      Nat.le_of_not_lt (owner_votes hf.sound hf.delegated hid hsrc)
    obtain ⟨v, hv⟩ : ∃ v, t.beforeTokenTransfer env src dst id = .ok v :=
      beforeTokenTransfer_total hf.sound.delegates_zero hf.sound.upTo hf.votes_lt hf.listed hf.time hid
        (.inl hsrc) fun _ => hvotes
    have hv' := hv
    obtain ⟨⟨o, i, al, ai, logs, rfl, _⟩, _⟩ := beforeTokenTransfer_ok hv
    refine ⟨_, bind_eq_ok.mpr ⟨true, (isApprovedOrOwner_iff hid hsrc).mpr hallowed,
      bind_eq_ok.mpr ⟨(), require_eq_ok.mpr rfl, bind_eq_ok.mpr ⟨src, howner,
      bind_eq_ok.mpr ⟨(), require_eq_ok.mpr rfl, bind_eq_ok.mpr ⟨(), require_eq_ok.mpr hdst,
      bind_eq_ok.mpr ⟨_, hv', bind_eq_ok.mpr ⟨_, bind_eq_ok.mpr ⟨src, howner, rfl⟩,
      bind_eq_ok.mpr ⟨_, checkedSub_eq_ok.mpr ⟨hf.sound.balance_pos hid hsrc, rfl⟩, rfl⟩⟩⟩⟩⟩⟩⟩⟩⟩

/-- a burn succeeds if and only if it is the minter's, of a token that is there -/
theorem burn_iff (hf : t.Fit env) {sender : Address} :
    (∃ u, t.burn env sender id = .ok u) ↔ sender = t.minter ∧ t.owners id ≠ 0 := by
  constructor
  · rintro ⟨u, h⟩
    simp only [burn, burnInternal, onlyMinter, bind_eq_ok, require_eq_ok] at h
    obtain ⟨_, hminter, _, ⟨owner, howner, _⟩, _⟩ := h
    obtain ⟨rfl, hsrc⟩ := ownerOf_ok howner
    exact ⟨hminter, hsrc⟩
  · rintro ⟨hminter, hsrc⟩
    have howner : t.ownerOf id = .ok (t.owners id) := bind_eq_ok.mpr ⟨(), require_eq_ok.mpr hsrc, rfl⟩
    have hvotes : 1 ≤ t.getCurrentVotes (t.delegates (t.owners id)) :=
      Nat.le_of_not_lt (owner_votes hf.sound hf.delegated rfl hsrc)
    obtain ⟨v, hv⟩ : ∃ v, t.beforeTokenTransfer env (t.owners id) 0 id = .ok v :=
      beforeTokenTransfer_total hf.sound.delegates_zero hf.sound.upTo hf.votes_lt hf.listed hf.time rfl
        (.inl hsrc) fun _ => hvotes
    have hv' := hv
    obtain ⟨⟨o, i, al, ai, logs, rfl, _⟩, _⟩ := beforeTokenTransfer_ok hv
    refine ⟨_, bind_eq_ok.mpr ⟨(), require_eq_ok.mpr hminter, bind_eq_ok.mpr ⟨_, bind_eq_ok.mpr ⟨_, howner,
      bind_eq_ok.mpr ⟨_, hv', bind_eq_ok.mpr ⟨_, bind_eq_ok.mpr ⟨_, howner, rfl⟩,
      bind_eq_ok.mpr ⟨_, checkedSub_eq_ok.mpr ⟨hf.sound.balance_pos rfl hsrc, rfl⟩, rfl⟩⟩⟩⟩, rfl⟩⟩⟩

theorem delegateInternal_total (hf : t.Fit env) {a : Address} (ha : a ≠ 0) (d : Address) :
    ∃ u, t.delegateInternal env a d = .ok u := by
  have hbal : t.balances a ≤ t.getCurrentVotes (t.delegates a) := hf.delegated.balance_le ha
  have hsupply : t.balances a ≤ t.totalSupply := hf.sound.balance_le_supply a
  have hlt := hf.supply
  have hfits : t.delegates a ≠ d → t.getCurrentVotes d + t.balances a < 2^96 := by
    intro hne
    have hadd : t.getCurrentVotes (t.delegates a) + t.getCurrentVotes d ≤ t.totalSupply :=
      hf.sound.votes_add_le hne
    omega
  let w : UNounsToken := { t with storedDelegates := update t.storedDelegates a d }.emit
    (.delegateChanged a (t.delegates a) d)
  obtain ⟨u, hu⟩ : ∃ u, w.moveDelegates env (t.delegates a) d (t.balances a) = .ok u :=
    moveDelegates_total (t := w) hf.time hf.sound.upTo (fun _ _ => hbal) fun hne _ => hfits hne
  refine ⟨u, bind_eq_ok.mpr ⟨t.balances a, ?_, hu⟩⟩
  exact bind_eq_ok.mpr ⟨_, bind_eq_ok.mpr ⟨(), require_eq_ok.mpr ha, rfl⟩,
    bind_eq_ok.mpr ⟨(), require_eq_ok.mpr (show t.balances a < 2^96 by omega), rfl⟩⟩

/-- a signature is good for one delegation, in time and with the right nonce -/
theorem delegateBySig_iff (P : Platform) (hf : t.Fit env) {d : Address} {nonce expiry : Nat}
    {sig : Signature} :
    let signatory := P.ecrecover (.delegation env.chainId d nonce expiry) sig
    (∃ u, t.delegateBySig P env d nonce expiry sig = .ok u) ↔
      signatory ≠ 0 ∧ nonce = t.nonces signatory ∧ env.timestamp ≤ expiry := by
  intro signatory
  constructor
  · rintro ⟨u, h⟩
    simp only [delegateBySig, bind_eq_ok, require_eq_ok] at h
    obtain ⟨_, h0, _, hnonce, _, htime, _⟩ := h
    exact ⟨h0, hnonce, htime⟩
  · rintro ⟨h0, hnonce, htime⟩
    obtain ⟨u, hu⟩ := delegateInternal_total (t := { t with
      nonces := update t.nonces signatory (t.nonces signatory + 1) })
      ⟨hf.sound, ⟨hf.listed.owned, hf.listed.all⟩, hf.delegated, hf.time, hf.supply⟩ h0 d
    exact ⟨u, bind_eq_ok.mpr ⟨(), require_eq_ok.mpr h0, bind_eq_ok.mpr ⟨(), require_eq_ok.mpr hnonce,
      bind_eq_ok.mpr ⟨(), require_eq_ok.mpr htime, hu⟩⟩⟩⟩

theorem mintNext_total {seeds : Nat → Result Seed} {seed : Seed} (hs : t.ledger.Sound env.number)
    (hl : t.Listed) (htime : env.number + 1 < 2^32) (hsupply : t.totalSupply + 1 < 2^96) (hdst : dst ≠ 0)
    (hseed : seeds t.currentUNounId = .ok seed) : ∃ u, t.mintNext env dst seeds = .ok u ∧
      u.minter = t.minter ∧ u.currentUNounId = t.currentUNounId + 1 ∧
      u.totalSupply = t.totalSupply + 1 ∧ u.ledger.Sound env.number ∧ u.Listed := by
  have howner : t.owners t.currentUNounId = 0 := hs.fresh _ (Nat.le_refl _)
  let w : UNounsToken := { t with
    currentUNounId := t.currentUNounId + 1
    seeds := update t.seeds t.currentUNounId seed }
  obtain ⟨v, hv⟩ : ∃ v, w.beforeTokenTransfer env 0 dst t.currentUNounId = .ok v :=
    beforeTokenTransfer_total (t := w) hs.delegates_zero hs.upTo
      (fun a => Nat.lt_of_le_of_lt (Nat.add_le_add_right (hs.votes_le_totalSupply a) 1) hsupply)
      ⟨hl.owned, hl.all⟩ htime howner (.inr hdst) fun h => absurd rfl h
  have hv' := hv
  obtain ⟨⟨o, i, al, ai, logs, rfl, hlen⟩, _⟩ := beforeTokenTransfer_ok hv
  have hmint : t.mintNext env dst seeds = .ok _ := bind_eq_ok.mpr ⟨seed, hseed, bind_eq_ok.mpr ⟨_,
    bind_eq_ok.mpr ⟨(), require_eq_ok.mpr hdst, bind_eq_ok.mpr ⟨(), require_eq_ok.mpr howner,
    bind_eq_ok.mpr ⟨_, hv', rfl⟩⟩⟩, rfl⟩⟩
  have hsupply' : al.length = t.allTokens.length + 1 := by simpa [hdst] using hlen
  exact ⟨_, hmint, rfl, rfl, hsupply',
    (mintNext_step (D := fun _ _ _ => True) hmint).sound hs, mintNext_listed hl hmint⟩

/-- a mint succeeds, if the seeder answers and there are receivers for the rewards -/
theorem mint_total (hf : t.Fit env) {seeds : Nat → Result Seed} (hminter : t.minter ≠ 0)
    (hunounders : t.unoundersDAO ≠ 0) (hunouncil : t.unouncilDAO ≠ 0)
    (hseeds : ∀ n, ∃ seed, seeds n = .ok seed) : ∃ r, t.mint env t.minter seeds = .ok r := by
  have hsupply := hf.supply
  have hnext : ∀ (t : UNounsToken) (dst : Address), t.ledger.Sound env.number → t.Listed →
      t.totalSupply + 1 < 2^96 → dst ≠ 0 → ∃ u, t.mintNext env dst seeds = .ok u ∧
      u.minter = t.minter ∧ u.currentUNounId = t.currentUNounId + 1 ∧
      u.totalSupply = t.totalSupply + 1 ∧ u.ledger.Sound env.number ∧ u.Listed := by
    intro t dst hs hl hlt hdst
    obtain ⟨seed, hseed⟩ := hseeds t.currentUNounId
    exact mintNext_total hs hl hf.time hlt hdst hseed
  -- at most one of the two rewards is due
  by_cases h0 : t.currentUNounId ≤ 1865 ∧ t.currentUNounId % 10 = 0
  · obtain ⟨u, hu, hm, hid, hlen, hs, hl⟩ := hnext t _ hf.sound hf.listed (by omega) hunounders
    have h2 : ¬ (u.currentUNounId ≤ 222 ∧ u.currentUNounId % 10 = 2) := by omega
    obtain ⟨w, hw, _⟩ := hnext u u.minter hs hl (by omega) (by rwa [hm])
    exact ⟨_, bind_eq_ok.mpr ⟨(), require_eq_ok.mpr rfl, bind_eq_ok.mpr ⟨u, (if_pos h0).trans hu,
      bind_eq_ok.mpr ⟨u, if_neg h2, bind_eq_ok.mpr ⟨w, hw, rfl⟩⟩⟩⟩⟩
  · by_cases h2 : t.currentUNounId ≤ 222 ∧ t.currentUNounId % 10 = 2
    · obtain ⟨u, hu, hm, hid, hlen, hs, hl⟩ := hnext t _ hf.sound hf.listed (by omega) hunouncil
      obtain ⟨w, hw, _⟩ := hnext u u.minter hs hl (by omega) (by rwa [hm])
      exact ⟨_, bind_eq_ok.mpr ⟨(), require_eq_ok.mpr rfl, bind_eq_ok.mpr ⟨t, if_neg h0,
        bind_eq_ok.mpr ⟨u, (if_pos h2).trans hu, bind_eq_ok.mpr ⟨w, hw, rfl⟩⟩⟩⟩⟩
    · obtain ⟨w, hw, _⟩ := hnext t _ hf.sound hf.listed (by omega) hminter
      exact ⟨_, bind_eq_ok.mpr ⟨(), require_eq_ok.mpr rfl, bind_eq_ok.mpr ⟨t, if_neg h0,
        bind_eq_ok.mpr ⟨t, if_neg h2, bind_eq_ok.mpr ⟨w, hw, rfl⟩⟩⟩⟩⟩

end

/-! ## runs -/

/-- **No entry gets stuck.**  In every state that a run passes through without a signature that hands a
balance to the zero address, at any later time: a transfer succeeds if and only if the token is the
sender's and the caller is its owner, approved or an operator; a burn if and only if the minter burns a
token that is there; a delegation always; one by signature if and only if the signature is good, in
time and with the next nonce; and a mint by the minter, if the seeder answers and the rewards have
receivers. -/
theorem entries_succeed (P : Platform)
    (deployer unoundersDAO unouncilDAO minter descriptor seeder : Address) (e : Env)
    (ts : List (Tx Env TokenCall)) (hch : (e :: ts.map Tx.env).IsChain (· ≤ ·)) :
    ∀ o ∈ observations (TokenCall.code P) e ts
        ⟨[], deploy deployer unoundersDAO unouncilDAO minter descriptor seeder⟩,
      ZeroFree P o.2.past → ∀ env : Env, o.1 ≤ env → env.number + 1 < 2^32 →
      let t := o.2.now
      t.totalSupply + 2 < 2^96 → ∀ msg : Msg,
        (∀ src dst id, (∃ u, t.transferFrom env msg.sender src dst id = .ok u) ↔
          t.owners id = src ∧ src ≠ 0 ∧ dst ≠ 0 ∧ (msg.sender = src ∨ t.tokenApprovals id = msg.sender ∨
            t.isApprovedForAll env src msg.sender = true)) ∧
        (∀ id, (∃ u, t.burn env msg.sender id = .ok u) ↔ msg.sender = t.minter ∧ t.owners id ≠ 0) ∧
        (∀ d, ∃ u, t.delegate env msg.sender d = .ok u) ∧
        (∀ d nonce expiry sig, (∃ u, t.delegateBySig P env d nonce expiry sig = .ok u) ↔
          let signatory := P.ecrecover (.delegation env.chainId d nonce expiry) sig
          signatory ≠ 0 ∧ nonce = t.nonces signatory ∧ env.timestamp ≤ expiry) ∧
        (t.unoundersDAO ≠ 0 → t.unouncilDAO ≠ 0 → ∀ seeds, (∀ n, ∃ seed, seeds n = .ok seed) →
          ((∃ r, t.mint env msg.sender seeds = .ok r) ↔ msg.sender = t.minter)) := by
  intro o ho hz env hle htime t hsupply msg
  have hr := observations_timed
    (fun env (op : TokenCall) (c : TokenConfig) => TokenCall.follows P env op c) hch ho
  have h0 := Ledger.deploy_sound deployer unoundersDAO unouncilDAO minter descriptor seeder e.number
  have hf : t.Fit env :=
    { sound := (runs_sound hr h0).mono (Env.le_def.mp hle).1
      listed := runs_listed hr (deploy_listed _ _ _ _ _ _)
      delegated := runs_delegated hr h0 (Ledger.deploy_delegated _ _ _ _ _ _) hz
      time := htime
      supply := hsupply }
  refine ⟨fun src dst id => transferFrom_iff hf, fun id => burn_iff hf,
    fun d => delegateInternal_total hf msg.sender_ne _, fun d nonce expiry sig => delegateBySig_iff P hf,
    fun h1 h2 seeds hseeds => ⟨?_, fun h => ?_⟩⟩
  · rintro ⟨r, h⟩
    obtain ⟨_, hminter, _⟩ := bind_eq_ok.mp h
    exact require_eq_ok.mp hminter
  · have hminter : t.minter ≠ 0 := h ▸ msg.sender_ne
    rw [h]
    exact mint_total hf hminter h1 h2 hseeds

/-- the minter makes `9` an operator, which may then give its tokens away -/
def operatorTxs : List (Tx Env TokenCall) :=
  shuffledTxs ++ [⟨.block 8 80, .mk ⟨.of 4 0, .setApprovalForAll 9 true⟩ .nil⟩]

theorem entries_succeed_run :
    let last := (runTxs (TokenCall.code (.plain 10 11 4)) operatorTxs ⟨[], deploy 1 2 3 4 5 6⟩).2.now
    (∃ u, last.transferFrom (.block 9 90) 9 4 12 1 = .ok u) ∧
      (¬ ∃ u, last.transferFrom (.block 9 90) 8 4 12 1 = .ok u) ∧
      ∃ r, last.mint (.block 9 90) 4 (fun _ => .ok ⟨0, 0, 0, 0, 0⟩) = .ok r := by
  intro last
  have h := entries_succeed (.plain 10 11 4) 1 2 3 4 5 6 (.block 6 60) operatorTxs (by decide +kernel) _
    (final_mem_observations _ _ _ _) (by decide +kernel) (.block 9 90) (by decide +kernel)
    (by decide +kernel) (by decide +kernel)
  obtain ⟨h1, _⟩ := h (.of 9 0)
  obtain ⟨h2, _⟩ := h (.of 8 0)
  obtain ⟨_, _, _, _, h3⟩ := h (.of 4 0)
  exact ⟨(h1 4 12 1).mpr (by decide +kernel), fun hu => absurd ((h2 4 12 1).mp hu) (by decide +kernel),
    (h3 (by decide +kernel) (by decide +kernel) _ fun _ => ⟨_, rfl⟩).mpr (by decide +kernel)⟩

end UNounsToken

end UNouns
