import UNouns.Token.UNounsToken
import UNouns.Token.Ledger

/-!
# The token does nothing but ledger steps

One lemma for each function says what it leaves in the ledger, up to the entry points:

* `moveDelegates_ok`   votes move as `Ledger.moved` says;
* `transferFrom_steps`, `mint_steps`, `burn_steps`, `delegateInternal_steps`;
* `TokenOp.apply_setting` what the settings leave as it is;
* `TokenOp.apply_steps`   every successful entry is a sequence of ledger steps;
* `Reached`               a token some time after its deployment.
-/

set_option linter.unusedVariables false

namespace UNouns
open Function Checkpoints Relation

namespace UNounsToken
open Ledger

/-! ## moving votes -/

theorem writeCheckpoint_ok {env : Env} {t t' : UNounsToken} {a : Address} {old new : Nat}
    (h : t.writeCheckpoint env a old new = .ok t') :
    t' = { t with
      checkpoints := update t.checkpoints a (write (t.checkpoints a) env.number new)
      logs := t'.logs } := by
  simp only [writeCheckpoint, bind_eq_ok, require_eq_ok, revertUnless_eq_ok, pure_eq_ok] at h
  obtain ⟨_, _, _, _, rfl⟩ := h
  rfl

theorem sub96_ok {a b n : Nat} {text : String} (h : sub96 a b text = .ok n) :
    b ≤ a ∧ n = a - b := by
  simp only [sub96, bind_eq_ok, require_eq_ok, pure_eq_ok] at h
  obtain ⟨_, h1, h2⟩ := h
  exact ⟨h1, h2.symm⟩

theorem add96_ok {a b n : Nat} {text : String} (h : add96 a b text = .ok n) : n = a + b := by
  simp only [add96, bind_eq_ok, require_eq_ok, revertUnless_eq_ok, pure_eq_ok] at h
  obtain ⟨_, _, _, _, h⟩ := h
  exact h.symm

theorem takeVotes_ok {env : Env} {t t' : UNounsToken} {src : Address} {n : Nat}
    (h : t.takeVotes env src n = .ok t') :
    t' = { t with
      checkpoints := if src = 0 then t.checkpoints else
        update t.checkpoints src (write (t.checkpoints src) env.number (t.getCurrentVotes src - n))
      logs := t'.logs } ∧ (src ≠ 0 → n ≤ t.getCurrentVotes src) := by
  unfold takeVotes at h
  by_cases hs : src = 0
  · rw [if_neg (fun h => h hs), pure_eq_ok] at h
    subst h
    exact ⟨by simp [hs], fun h => absurd hs h⟩
  · rw [if_pos hs] at h
    simp only [bind_eq_ok] at h
    obtain ⟨m, hm, h⟩ := h
    obtain ⟨hle, rfl⟩ := sub96_ok hm
    refine ⟨?_, fun _ => hle⟩
    rw [writeCheckpoint_ok h]
    simp [hs]

theorem giveVotes_ok {env : Env} {t t' : UNounsToken} {dst : Address} {n : Nat}
    (h : t.giveVotes env dst n = .ok t') :
    t' = { t with
      checkpoints := if dst = 0 then t.checkpoints else
        update t.checkpoints dst (write (t.checkpoints dst) env.number (t.getCurrentVotes dst + n))
      logs := t'.logs } := by
  unfold giveVotes at h
  by_cases hs : dst = 0
  · rw [if_neg (fun h => h hs), pure_eq_ok] at h
    subst h
    simp [hs]
  · rw [if_pos hs] at h
    simp only [bind_eq_ok] at h
    obtain ⟨m, hm, h⟩ := h
    rw [writeCheckpoint_ok h, add96_ok hm]
    simp [hs]

theorem moved_of_move (env : Env) (cps : Address → List (Checkpoint Nat)) {src dst : Address}
    {n : Nat} (hsd : src ≠ dst) (hn : 0 < n) :
    let taken := if src = 0 then cps else
      update cps src (write (cps src) env.number ((latest (cps src)).getD 0 - n))
    (if dst = 0 then taken else
      update taken dst (write (cps dst) env.number ((latest (cps dst)).getD 0 + n)))
      = moved env.number cps src dst n := by
  funext a
  unfold moved
  have hn0 : n ≠ 0 := Nat.ne_of_gt hn
  by_cases ha : a = 0
  · subst ha
    by_cases hs : src = 0
    · by_cases hd : dst = 0
      · simp [hs, hd]
      · simp [hs, hd, update_of_ne (Ne.symm hd)]
    · by_cases hd : dst = 0
      · simp [hs, hd, update_of_ne (Ne.symm hs)]
      · simp [hs, hd, update_of_ne (Ne.symm hs), update_of_ne (Ne.symm hd)]
  · by_cases h1 : a = src
    · subst h1
      by_cases hd : dst = 0 <;> simp [ha, hd, hsd, hn0]
    · by_cases h2 : a = dst
      · subst h2
        simp [ha, hsd, hn0, h1]
      · have e : (if src = 0 then cps else
            update cps src (write (cps src) env.number ((latest (cps src)).getD 0 - n))) a
            = cps a := by
          split_ifs
          · rfl
          · exact update_of_ne h1 _ _
        rw [← e]
        by_cases hd : dst = 0 <;> simp [ha, hd, hsd, hn0, h1, h2]

theorem moveDelegates_ok {env : Env} {t t' : UNounsToken} {src dst : Address} {n : Nat}
    (h : t.moveDelegates env src dst n = .ok t') :
    (∃ logs, t' = { t with
      checkpoints := moved env.number t.checkpoints src dst n
      logs := logs }) ∧ (src ≠ dst → src ≠ 0 → n ≤ t.getCurrentVotes src) := by
  unfold moveDelegates at h
  by_cases hc : src ≠ dst ∧ 0 < n
  · rw [if_pos hc] at h
    obtain ⟨hsd, hn⟩ := hc
    simp only [bind_eq_ok] at h
    obtain ⟨u, hu, h⟩ := h
    obtain ⟨hu', hle⟩ := takeVotes_ok hu
    refine ⟨⟨t'.logs, ?_⟩, fun _ hs => hle hs⟩
    have hdst : u.checkpoints dst = t.checkpoints dst := by
      rw [hu']
      by_cases hs : src = 0
      · simp [hs]
      · simp [hs, update_of_ne (Ne.symm hsd)]
    rw [giveVotes_ok h, ← moved_of_move env t.checkpoints hsd hn]
    simp only [getCurrentVotes, hdst]
    rw [hu']
    rfl
  · rw [if_neg hc, pure_eq_ok] at h
    subst h
    have hn : src ≠ dst → n = 0 := fun h1 => by
      by_contra h0
      exact hc ⟨h1, by omega⟩
    refine ⟨⟨t.logs, ?_⟩, fun h1 _ => by rw [hn h1]; exact Nat.zero_le _⟩
    have e : moved env.number t.checkpoints src dst n = t.checkpoints := by
      funext a
      unfold moved
      rw [if_pos]
      by_cases hsd : src = dst
      · exact .inl hsd
      · exact .inr (.inl (hn hsd))
    rw [e]

/-- the revert of `_moveDelegates` when the source has too few votes -/
def underflow : Revert := .error "ERC721Checkpointable::_moveDelegates: amount underflows"

theorem moveDelegates_underflow {env : Env} {t : UNounsToken} {src dst : Address} {n : Nat}
    (h : t.moveDelegates env src dst n = .error underflow) :
    src ≠ 0 ∧ t.getCurrentVotes src < n := by
  have hw : ∀ (t : UNounsToken) (a : Address) (old new : Nat),
      t.writeCheckpoint env a old new ≠ .error underflow := by
    intro t a old new hc
    simp [writeCheckpoint, underflow, bind_eq_error, require_eq_error, revertUnless_eq_error] at hc
  unfold moveDelegates at h
  split_ifs at h
  swap
  · exact absurd h (pure_ne_error _ _)
  simp only [bind_eq_error] at h
  rcases h with h | ⟨u, _, h⟩
  · unfold takeVotes at h
    split_ifs at h with hs
    swap
    · exact absurd h (pure_ne_error _ _)
    simp only [bind_eq_error] at h
    rcases h with h | ⟨m, _, h⟩
    · refine ⟨hs, ?_⟩
      simpa [sub96, underflow, bind_eq_error, require_eq_error] using h
    · exact absurd h (hw _ _ _ _)
  · unfold giveVotes at h
    split_ifs at h
    swap
    · exact absurd h (pure_ne_error _ _)
    simp only [bind_eq_error] at h
    rcases h with h | ⟨m, _, h⟩
    · simp [add96, underflow, bind_eq_error, require_eq_error, revertUnless_eq_error] at h
    · exact absurd h (hw _ _ _ _)

/-! ## the token lists -/

theorem balanceOf_ok {t : UNounsToken} {a : Address} {n : Nat} (h : t.balanceOf a = .ok n) :
    a ≠ 0 ∧ n = t.balances a := by
  simp only [balanceOf, bind_eq_ok, require_eq_ok, pure_eq_ok] at h
  obtain ⟨_, h1, h2⟩ := h
  exact ⟨h1, h2.symm⟩

theorem ownerOf_ok {t : UNounsToken} {id : Nat} {a : Address} (h : t.ownerOf id = .ok a) :
    t.owners id = a ∧ a ≠ 0 := by
  simp only [ownerOf, bind_eq_ok, require_eq_ok, pure_eq_ok] at h
  obtain ⟨_, h1, h2⟩ := h
  exact ⟨h2, h2 ▸ h1⟩

theorem addTokenToOwnerEnumeration_ok {t t' : UNounsToken} {a : Address} {id : Nat}
    (h : t.addTokenToOwnerEnumeration a id = .ok t') :
    ∃ o i, t' = { t with ownedTokens := o, ownedTokensIndex := i } := by
  simp only [addTokenToOwnerEnumeration, bind_eq_ok, pure_eq_ok] at h
  obtain ⟨_, _, rfl⟩ := h
  exact ⟨_, _, rfl⟩

theorem removeTokenFromOwnerEnumeration_ok {t t' : UNounsToken} {a : Address} {id : Nat}
    (h : t.removeTokenFromOwnerEnumeration a id = .ok t') :
    ∃ o i, t' = { t with ownedTokens := o, ownedTokensIndex := i } := by
  simp only [removeTokenFromOwnerEnumeration, bind_eq_ok, pure_eq_ok] at h
  obtain ⟨_, _, last, _, rfl⟩ := h
  by_cases e : t.ownedTokensIndex id ≠ last
  · exact ⟨_, _, by rw [if_pos e]⟩
  · exact ⟨_, _, by rw [if_neg e]⟩

theorem removeTokenFromAllTokensEnumeration_ok {t t' : UNounsToken} {id : Nat}
    (h : t.removeTokenFromAllTokensEnumeration id = .ok t') :
    ∃ al i, t' = { t with allTokens := al, allTokensIndex := i } ∧
      al.length = t.allTokens.length - 1 := by
  simp only [removeTokenFromAllTokensEnumeration, bind_eq_ok, pure_eq_ok] at h
  obtain ⟨_, _, _, _, rfl⟩ := h
  exact ⟨_, _, rfl, by simp⟩

/-- the lists change, and the number of tokens with a mint or a burn only -/
theorem enumerateTransfer_ok {t t' : UNounsToken} {src dst : Address} {id : Nat}
    (h : t.enumerateTransfer src dst id = .ok t') :
    ∃ o i al ai, t' = { t with
        ownedTokens := o, ownedTokensIndex := i, allTokens := al, allTokensIndex := ai } ∧
      al.length = t.allTokens.length + (if src = 0 then 1 else 0) - (if dst = 0 then 1 else 0) := by
  unfold enumerateTransfer at h
  simp only [bind_eq_ok] at h
  obtain ⟨u, hu, h⟩ := h
  have h1 : ∃ o i al ai, u = { t with
        ownedTokens := o, ownedTokensIndex := i, allTokens := al, allTokensIndex := ai } ∧
      al.length = t.allTokens.length + (if src = 0 then 1 else 0) := by
    split_ifs at hu with h1 h2
    · rw [pure_eq_ok] at hu
      exact ⟨_, _, _, _, hu.symm, by simp [h1]⟩
    · obtain ⟨o, i, rfl⟩ := removeTokenFromOwnerEnumeration_ok hu
      exact ⟨o, i, _, _, rfl, by simp [h1]⟩
    · rw [pure_eq_ok] at hu
      exact ⟨_, _, _, _, hu.symm, by simp [h1]⟩
  obtain ⟨o, i, al, ai, rfl, hl⟩ := h1
  split_ifs at h with h1 h2
  · obtain ⟨al', ai', rfl, hl'⟩ := removeTokenFromAllTokensEnumeration_ok h
    exact ⟨o, i, al', ai', rfl, by simp [hl', hl, h1]⟩
  · obtain ⟨o', i', rfl⟩ := addTokenToOwnerEnumeration_ok h
    exact ⟨o', i', al, ai, rfl, by simp [hl, h1]⟩
  · rw [pure_eq_ok] at h
    exact ⟨o, i, al, ai, h.symm, by simp [hl, h1]⟩

theorem beforeTokenTransfer_ok {env : Env} {t t' : UNounsToken} {src dst : Address} {id : Nat}
    (h : t.beforeTokenTransfer env src dst id = .ok t') :
    (∃ o i al ai logs, t' = { t with
        ownedTokens := o, ownedTokensIndex := i, allTokens := al, allTokensIndex := ai
        checkpoints := moved env.number t.checkpoints (t.delegates src) (t.delegates dst) 1
        logs := logs } ∧
      al.length = t.allTokens.length + (if src = 0 then 1 else 0) - (if dst = 0 then 1 else 0)) ∧
    (t.delegates src ≠ t.delegates dst → t.delegates src ≠ 0 →
      1 ≤ t.getCurrentVotes (t.delegates src)) := by
  simp only [beforeTokenTransfer, bind_eq_ok] at h
  obtain ⟨u, hu, h⟩ := h
  obtain ⟨o, i, al, ai, rfl, hl⟩ := enumerateTransfer_ok hu
  obtain ⟨⟨logs, rfl⟩, hv⟩ := moveDelegates_ok h
  exact ⟨⟨o, i, al, ai, logs, rfl, hl⟩, hv⟩

theorem approveInternal_ok {t t' : UNounsToken} {a : Address} {id : Nat}
    (h : t.approveInternal a id = .ok t') :
    ∃ approvals logs, t' = { t with tokenApprovals := approvals, logs := logs } := by
  simp only [approveInternal, bind_eq_ok, pure_eq_ok] at h
  obtain ⟨_, _, rfl⟩ := h
  exact ⟨_, _, rfl⟩

/-- the lists and the approvals never report an underflow of votes -/
theorem enumerateTransfer_ne_underflow (t : UNounsToken) (src dst : Address) (id : Nat) :
    t.enumerateTransfer src dst id ≠ .error underflow := by
  have hb : ∀ (t : UNounsToken) (a : Address), t.balanceOf a ≠ .error underflow := by
    intro t a h
    simp [balanceOf, underflow, require_eq_error] at h
  have hr : ∀ t : UNounsToken, t.removeTokenFromAllTokensEnumeration id ≠ .error underflow := by
    intro t h
    simp [removeTokenFromAllTokensEnumeration, underflow, bind_eq_error, checkedSub_eq_error,
      revertUnless_eq_error] at h
  intro h
  simp only [enumerateTransfer, bind_eq_error] at h
  rcases h with h | ⟨u, _, h⟩
  · split_ifs at h
    · exact pure_ne_error _ _ h
    · simp only [removeTokenFromOwnerEnumeration, bind_eq_error, checkedSub_eq_error, pure_ne_error,
        and_false, exists_false, or_false] at h
      rcases h with h | ⟨_, _, _, h⟩
      · exact hb _ _ h
      · cases h
    · exact pure_ne_error _ _ h
  · split_ifs at h
    · exact hr _ h
    · simp only [addTokenToOwnerEnumeration, bind_eq_error, pure_ne_error, and_false, exists_false,
        or_false] at h
      exact hb _ _ h
    · exact pure_ne_error _ _ h

theorem approveInternal_ne_underflow (t : UNounsToken) (a : Address) (id : Nat) :
    t.approveInternal a id ≠ .error underflow := by
  intro h
  simp [approveInternal, ownerOf, underflow, require_eq_error] at h

theorem beforeTokenTransfer_underflow {env : Env} {t : UNounsToken} {src dst : Address} {id : Nat}
    (h : t.beforeTokenTransfer env src dst id = .error underflow) :
    t.getCurrentVotes (t.delegates src) < 1 := by
  simp only [beforeTokenTransfer, bind_eq_error] at h
  rcases h with h | ⟨u, hu, h⟩
  · exact absurd h (enumerateTransfer_ne_underflow t src dst id)
  · obtain ⟨o, i, al, ai, rfl, _⟩ := enumerateTransfer_ok hu
    exact (moveDelegates_underflow h).2

/-! ## one step for each function that moves a token or a balance -/

section
variable {D : Address → Address → Ledger → Prop} {env : Env} {t t' : UNounsToken}

theorem transferInternal_step {src dst : Address} {id : Nat}
    (h : t.transferInternal env src dst id = .ok t') :
    LedgerStep D env.number t.ledger t'.ledger := by
  simp only [transferInternal, bind_eq_ok, require_eq_ok, checkedSub_eq_ok, pure_eq_ok] at h
  obtain ⟨_, howner, _, rfl, _, hdst, u, hu, v, hv, _, ⟨hbal, rfl⟩, rfl⟩ := h
  obtain ⟨ho, hsrc⟩ := ownerOf_ok howner
  obtain ⟨⟨o, i, al, ai, logs, rfl, hl⟩, hvotes⟩ := beforeTokenTransfer_ok hu
  obtain ⟨approvals, logs', rfl⟩ := approveInternal_ok hv
  have hl' : al.length = t.allTokens.length := by simpa [hsrc, hdst] using hl
  have := LedgerStep.transfer (D := D) (b := env.number) t.ledger id _ dst ho hsrc hdst hbal
    (fun hne => hvotes hne (t.ledger.delegates_ne_zero hsrc))
  rwa [show t.ledger.supply = al.length from hl'.symm] at this

theorem transferFrom_step {sender src dst : Address} {id : Nat}
    (h : t.transferFrom env sender src dst id = .ok t') :
    LedgerStep D env.number t.ledger t'.ledger := by
  simp only [transferFrom, bind_eq_ok] at h
  obtain ⟨_, _, _, _, h⟩ := h
  exact transferInternal_step h

theorem mintNext_step {dst : Address} {seeds : Nat → Result Seed}
    (h : t.mintNext env dst seeds = .ok t') : LedgerStep D env.number t.ledger t'.ledger := by
  simp only [mintNext, mintTo, mintInternal, bind_eq_ok, require_eq_ok, pure_eq_ok] at h
  obtain ⟨_, _, _, ⟨_, hdst, _, ho, u, hu, rfl⟩, rfl⟩ := h
  obtain ⟨⟨o, i, al, ai, logs, rfl, hl⟩, _⟩ := beforeTokenTransfer_ok hu
  have hl' : al.length = t.allTokens.length + 1 := by simpa [hdst] using hl
  have := LedgerStep.mint (D := D) (b := env.number) t.ledger dst hdst ho
  rwa [show t.ledger.supply + 1 = al.length from hl'.symm] at this

theorem mint_steps {sender : Address} {seeds : Nat → Result Seed} {unounId : Nat}
    (h : t.mint env sender seeds = .ok (t', unounId)) :
    ReflTransGen (LedgerStep D env.number) t.ledger t'.ledger := by
  simp only [mint, bind_eq_ok, pure_eq_ok, Prod.mk.injEq] at h
  obtain ⟨_, _, u, hu, v, hv, w, hw, rfl, _⟩ := h
  have h1 : ReflTransGen (LedgerStep D env.number) t.ledger u.ledger := by
    split_ifs at hu
    · exact ReflTransGen.single (mintNext_step hu)
    · cases hu
      exact ReflTransGen.refl
  have h2 : ReflTransGen (LedgerStep D env.number) u.ledger v.ledger := by
    split_ifs at hv
    · exact ReflTransGen.single (mintNext_step hv)
    · cases hv
      exact ReflTransGen.refl
  exact (h1.trans h2).tail (mintNext_step hw)

theorem mintNext_ok {dst : Address} {seeds : Nat → Result Seed}
    (h : t.mintNext env dst seeds = .ok t') :
    t'.owners = update t.owners t.currentUNounId dst ∧
      t'.currentUNounId = t.currentUNounId + 1 ∧ t'.minter = t.minter := by
  simp only [mintNext, mintTo, mintInternal, bind_eq_ok, require_eq_ok, pure_eq_ok] at h
  obtain ⟨_, _, _, ⟨_, _, _, _, u, hu, rfl⟩, rfl⟩ := h
  obtain ⟨⟨o, i, al, ai, logs, rfl, _⟩, _⟩ := beforeTokenTransfer_ok hu
  exact ⟨rfl, rfl, rfl⟩

/-- the minter gets the last of the new tokens -/
theorem mint_ok {sender : Address} {seeds : Nat → Result Seed} {unounId : Nat}
    (h : t.mint env sender seeds = .ok (t', unounId)) :
    t.currentUNounId ≤ unounId ∧ t'.currentUNounId = unounId + 1 ∧ t'.owners unounId = sender := by
  simp only [mint, onlyMinter, bind_eq_ok, require_eq_ok, pure_eq_ok, Prod.mk.injEq] at h
  obtain ⟨_, hminter, u, hu, v, hv, w, hw, rfl, rfl⟩ := h
  have skip : ∀ {c : Prop} [Decidable c] {t u : UNounsToken} {dst : Address},
      (if c then t.mintNext env dst seeds else pure t) = .ok u →
      t.currentUNounId ≤ u.currentUNounId ∧ u.minter = t.minter := by
    intro c _ t u dst h
    split_ifs at h
    · obtain ⟨_, h1, h2⟩ := mintNext_ok h
      exact ⟨by omega, h2⟩
    · cases h
      exact ⟨Nat.le_refl _, rfl⟩
  obtain ⟨h1, h2⟩ := skip hu
  obtain ⟨h3, h4⟩ := skip hv
  obtain ⟨h5, h6, _⟩ := mintNext_ok hw
  exact ⟨Nat.le_trans h1 h3, h6, by rw [h5, h4, h2, hminter, update_self]⟩

/-- tokens that there were keep their owners -/
theorem mint_owners {sender : Address} {seeds : Nat → Result Seed} {unounId : Nat}
    (h : t.mint env sender seeds = .ok (t', unounId)) :
    ∀ id < t.currentUNounId, t'.owners id = t.owners id := by
  simp only [mint, bind_eq_ok, pure_eq_ok, Prod.mk.injEq] at h
  obtain ⟨_, _, u, hu, v, hv, w, hw, rfl, _⟩ := h
  have next : ∀ {t u : UNounsToken} {dst : Address}, t.mintNext env dst seeds = .ok u →
      t.currentUNounId ≤ u.currentUNounId ∧ ∀ id < t.currentUNounId, u.owners id = t.owners id := by
    intro t u dst h
    obtain ⟨h1, h2, _⟩ := mintNext_ok h
    refine ⟨by omega, fun id hid => ?_⟩
    rw [h1, update_of_ne (Nat.ne_of_lt hid)]
  have skip : ∀ {c : Prop} [Decidable c] {t u : UNounsToken} {dst : Address},
      (if c then t.mintNext env dst seeds else pure t) = .ok u →
      t.currentUNounId ≤ u.currentUNounId ∧ ∀ id < t.currentUNounId, u.owners id = t.owners id := by
    intro c _ t u dst h
    split_ifs at h
    · exact next h
    · cases h
      exact ⟨Nat.le_refl _, fun _ _ => rfl⟩
  obtain ⟨h1, h2⟩ := skip hu
  obtain ⟨h3, h4⟩ := skip hv
  obtain ⟨_, h6⟩ := next hw
  intro id hid
  rw [h6 id (by omega), h4 id (by omega), h2 id hid]

theorem transferFrom_ok {sender src dst : Address} {id : Nat}
    (h : t.transferFrom env sender src dst id = .ok t') :
    t.owners id = src ∧ t'.owners = update t.owners id dst ∧
      t'.currentUNounId = t.currentUNounId := by
  simp only [transferFrom, transferInternal, bind_eq_ok, require_eq_ok, checkedSub_eq_ok,
    pure_eq_ok] at h
  obtain ⟨_, _, _, _, _, howner, _, rfl, _, _, u, hu, v, hv, _, _, rfl⟩ := h
  obtain ⟨⟨o, i, al, ai, logs, rfl, _⟩, _⟩ := beforeTokenTransfer_ok hu
  obtain ⟨approvals, logs', rfl⟩ := approveInternal_ok hv
  exact ⟨(ownerOf_ok howner).1, rfl, rfl⟩

theorem burn_step {sender : Address} {id : Nat} (h : t.burn env sender id = .ok t') :
    LedgerStep D env.number t.ledger t'.ledger := by
  simp only [burn, burnInternal, bind_eq_ok, checkedSub_eq_ok, pure_eq_ok] at h
  obtain ⟨_, _, _, ⟨src, howner, u, hu, v, hv, _, ⟨hbal, rfl⟩, rfl⟩, rfl⟩ := h
  obtain ⟨ho, hsrc⟩ := ownerOf_ok howner
  obtain ⟨⟨o, i, al, ai, logs, rfl, hl⟩, hvotes⟩ := beforeTokenTransfer_ok hu
  obtain ⟨approvals, logs', rfl⟩ := approveInternal_ok hv
  have hl' : al.length = t.allTokens.length - 1 := by simpa [hsrc] using hl
  have := LedgerStep.burn (D := D) (b := env.number) t.ledger id src ho hsrc hbal
    (fun hne => hvotes hne (t.ledger.delegates_ne_zero hsrc))
  rwa [show t.ledger.supply - 1 = al.length from hl'.symm] at this

theorem delegateInternal_step {a d : Address} (h : t.delegateInternal env a d = .ok t')
    (hD : D a d t.ledger) : LedgerStep D env.number t.ledger t'.ledger := by
  simp only [delegateInternal, votesToDelegate, safe96, bind_eq_ok, require_eq_ok, pure_eq_ok] at h
  obtain ⟨n, ⟨m, hm, _, _, rfl⟩, h⟩ := h
  obtain ⟨ha, rfl⟩ := balanceOf_ok hm
  obtain ⟨⟨logs, rfl⟩, hvotes⟩ := moveDelegates_ok h
  exact LedgerStep.delegate t.ledger a d ha hD
    (fun hne => hvotes hne (t.ledger.delegates_ne_zero ha))

end

end UNounsToken

open UNounsToken

/-! ## settings -/

/-- the functions that set or lock something -/
def TokenOp.Setting : TokenOp → Prop
  | .setContractURIHash _ | .setUNoundersDAO _ | .setMinter _ | .lockMinter | .setDescriptor _
  | .lockDescriptor | .setSeeder _ | .lockSeeder | .transferOwnership _ | .renounceOwnership => True
  | _ => False

/-- their events -/
def TokenEvent.Setting : TokenEvent → Prop
  | .noundersDAOUpdated _ | .minterUpdated _ | .minterLocked | .descriptorUpdated _
  | .descriptorLocked | .seederUpdated _ | .seederLocked | .ownershipTransferred _ _ => True
  | _ => False

/-- `t` with the settings and the log of `u` -/
def UNounsToken.withSettings (t u : UNounsToken) : UNounsToken :=
  { t with
    owner := u.owner
    unoundersDAO := u.unoundersDAO
    minter := u.minter
    descriptor := u.descriptor
    seeder := u.seeder
    isMinterLocked := u.isMinterLocked
    isDescriptorLocked := u.isDescriptorLocked
    isSeederLocked := u.isSeederLocked
    contractURIHash := u.contractURIHash
    logs := u.logs }

/-- **A setting leaves the rest of the token as it is**, and is all that its log tells of. -/
theorem TokenOp.apply_setting {P : Platform} {env : Env} {sender : Address} {t t' : UNounsToken}
    {op : TokenOp} (h : op.apply P env sender t = .ok t') (hop : op.Setting) :
    ∃ u, t' = t.withSettings u ∧ ∃ vs, u.logs = t.logs ++ vs ∧ ∀ v ∈ vs, v.Setting := by
  refine ⟨t', ?_⟩
  cases op with
  | setContractURIHash hash =>
    simp only [TokenOp.apply, UNounsToken.setContractURIHash, bind_eq_ok, pure_eq_ok] at h
    obtain ⟨_, _, rfl⟩ := h
    exact ⟨rfl, [], (List.append_nil _).symm, fun v hv => absurd hv List.not_mem_nil⟩
  | setUNoundersDAO _ | transferOwnership _ | renounceOwnership | setMinter _ | lockMinter
  | setDescriptor _ | lockDescriptor | setSeeder _ | lockSeeder =>
    simp only [TokenOp.apply, UNounsToken.setUNoundersDAO, UNounsToken.setMinter,
      UNounsToken.lockMinter, UNounsToken.setDescriptor, UNounsToken.lockDescriptor,
      UNounsToken.setSeeder, UNounsToken.lockSeeder, UNounsToken.transferOwnership,
      UNounsToken.renounceOwnership, bind_eq_ok, pure_eq_ok] at h
    first
      | (obtain ⟨_, _, rfl⟩ := h
         exact ⟨rfl, [_], rfl, List.forall_mem_singleton.mpr trivial⟩)
      | (obtain ⟨_, _, _, _, rfl⟩ := h
         exact ⟨rfl, [_], rfl, List.forall_mem_singleton.mpr trivial⟩)
  | _ => exact hop.elim

/-! ## entry points -/

/-- the delegation an entry makes, if it makes one -/
def TokenOp.delegation (P : Platform) (env : Env) (sender : Address) :
    TokenOp → Option (Address × Address)
  | .delegate a => some (sender, if a = 0 then sender else a)
  | .delegateBySig a nonce expiry sig =>
    some (P.ecrecover (.delegation env.chainId a nonce expiry) sig, a)
  | _ => none

/-- **Every successful entry is a sequence of ledger steps.** -/
theorem TokenOp.apply_steps {D : Address → Address → Ledger → Prop} {P : Platform} {env : Env}
    {sender : Address} {t t' : UNounsToken} {op : TokenOp}
    (hD : ∀ a d, op.delegation P env sender = some (a, d) → D a d t.ledger)
    (h : op.apply P env sender t = .ok t') :
    ReflTransGen (LedgerStep D env.number) t.ledger t'.ledger := by
  have same : ∀ {u : UNounsToken}, u.ledger = t.ledger →
      ReflTransGen (LedgerStep D env.number) t.ledger u.ledger := fun e => by rw [e]
  cases op with
  | approve a id =>
    simp only [TokenOp.apply, UNounsToken.approve, bind_eq_ok] at h
    obtain ⟨_, _, _, _, _, _, h⟩ := h
    obtain ⟨_, _, rfl⟩ := approveInternal_ok h
    exact same rfl
  | setApprovalForAll a b =>
    simp only [TokenOp.apply, UNounsToken.setApprovalForAll, bind_eq_ok, pure_eq_ok] at h
    obtain ⟨_, _, rfl⟩ := h
    exact same rfl
  | transferFrom a b id => exact ReflTransGen.single (transferFrom_step h)
  | safeTransferFrom a b id data => exact ReflTransGen.single (transferFrom_step h)
  | delegate a => exact ReflTransGen.single (delegateInternal_step h (hD _ _ rfl))
  | delegateBySig a nonce expiry sig =>
    simp only [TokenOp.apply, UNounsToken.delegateBySig, bind_eq_ok] at h
    obtain ⟨_, _, _, _, _, _, h⟩ := h
    have hs := delegateInternal_step h (hD _ _ rfl)
    exact ReflTransGen.single hs
  | mint seeds =>
    simp only [TokenOp.apply, bind_eq_ok, pure_eq_ok] at h
    obtain ⟨⟨u, id⟩, hm, rfl⟩ := h
    exact mint_steps hm
  | burn id => exact ReflTransGen.single (burn_step h)
  | setContractURIHash _ | setUNoundersDAO _ | setMinter _ | lockMinter | setDescriptor _
  | lockDescriptor | setSeeder _ | lockSeeder | transferOwnership _ | renounceOwnership =>
    obtain ⟨_, rfl, _⟩ := TokenOp.apply_setting h trivial
    exact same rfl

theorem TokenOp.apply_nextId {P : Platform} {env : Env} {sender : Address} {t t' : UNounsToken}
    {op : TokenOp} (h : op.apply P env sender t = .ok t') : t.currentUNounId ≤ t'.currentUNounId := by
  have hs := TokenOp.apply_steps (D := fun _ _ _ => True) (fun _ _ _ => trivial) h
  have key : ∀ l, ReflTransGen (LedgerStep (fun _ _ _ => True) env.number) t.ledger l →
      t.ledger.nextId ≤ l.nextId := by
    intro l hl
    induction hl with
    | refl => exact Nat.le_refl _
    | tail _ h ih => exact Nat.le_trans ih h.nextId_le
  exact key _ hs

/-- a token some time after its deployment, whoever has called it -/
inductive UNounsToken.Reached (P : Platform) : UNounsToken → Prop
  | deployed (deployer unoundersDAO unouncilDAO minter descriptor seeder : Address) :
      Reached P (.deploy deployer unoundersDAO unouncilDAO minter descriptor seeder)
  | entered (env : Env) (sender : Address) (op : TokenOp) (t t' : UNounsToken) (ht : Reached P t)
      (h : op.apply P env sender t = .ok t') : Reached P t'

end UNouns
