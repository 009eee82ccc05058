import UNouns.Token.Steps

/-!
# Seeds are stored once

* `Seeded`              what an entry leaves of the seeds, and what those it adds are;
* `mint_seeded`         a `mint` adds those that the seeder answers;
* `TokenOp.apply_seeded`   no other entry touches them.
-/

set_option linter.unusedVariables false

namespace UNouns
open Function UNounsToken

/-- the seeds below the counter stay, and those that are new are what the seeder answers -/
structure Seeded (seeds : Nat → Result Seed) (t t' : UNounsToken) : Prop where
  counter : t.currentUNounId ≤ t'.currentUNounId
  kept : ∀ id < t.currentUNounId, t'.seeds id = t.seeds id
  added : ∀ id, t.currentUNounId ≤ id → id < t'.currentUNounId → seeds id = .ok (t'.seeds id)

theorem Seeded.same {seeds : Nat → Result Seed} {t t' : UNounsToken}
    (hid : t'.currentUNounId = t.currentUNounId) (hs : t'.seeds = t.seeds) : Seeded seeds t t' where
  counter := Nat.le_of_eq hid.symm
  kept := fun id _ => congrFun hs id
  added := fun id h1 h2 => by omega

theorem Seeded.trans {seeds : Nat → Result Seed} {t t' t'' : UNounsToken} (h : Seeded seeds t t')
    (h' : Seeded seeds t' t'') : Seeded seeds t t'' where
  counter := Nat.le_trans h.counter h'.counter
  kept := fun id hid => (h'.kept id (Nat.lt_of_lt_of_le hid h.counter)).trans (h.kept id hid)
  added := fun id h1 h2 => by
    by_cases hid : id < t'.currentUNounId
    · rw [h'.kept id hid]
      exact h.added id h1 hid
    · exact h'.added id (by omega) h2

section
variable {env : Env} {t t' : UNounsToken}

theorem mintNext_seeded {dst : Address} {seeds : Nat → Result Seed}
    (h : t.mintNext env dst seeds = .ok t') : Seeded seeds t t' := by
  simp only [mintNext, mintTo, mintInternal, bind_eq_ok, require_eq_ok, pure_eq_ok] at h
  obtain ⟨seed, hseed, _, ⟨_, _, _, _, u, hu, rfl⟩, rfl⟩ := h
  obtain ⟨⟨o, i, al, ai, logs, rfl, _⟩, _⟩ := beforeTokenTransfer_ok hu
  refine ⟨Nat.le_succ _, fun id hid => update_of_ne (Nat.ne_of_lt hid) _ _, fun id h1 h2 => ?_⟩
  have hid : id = t.currentUNounId := Nat.le_antisymm (Nat.le_of_lt_succ h2) h1
  rw [hid, hseed]
  show Except.ok seed = Except.ok (update t.seeds t.currentUNounId seed t.currentUNounId)
  rw [update_self]

/-- **A `mint` adds the seeds that the seeder answers**, and leaves the others. -/
theorem mint_seeded {sender : Address} {seeds : Nat → Result Seed} {unounId : Nat}
    (h : t.mint env sender seeds = .ok (t', unounId)) : Seeded seeds t t' := by
  simp only [mint, bind_eq_ok, pure_eq_ok, Prod.mk.injEq] at h
  obtain ⟨_, _, u, hu, v, hv, w, hw, rfl, _⟩ := h
  have reward : ∀ {c : Prop} [Decidable c] {t u : UNounsToken} {dst : Address},
      (if c then t.mintNext env dst seeds else pure t) = .ok u → Seeded seeds t u := by
    intro c _ t u dst h
    split_ifs at h
    · exact mintNext_seeded h
    · cases h
      exact .same rfl rfl
  exact ((reward hu).trans (reward hv)).trans (mintNext_seeded hw)

/-- nothing but a `mint` touches them -/
theorem TokenOp.apply_seeded {P : Platform} {sender : Address} {op : TokenOp}
    (h : op.apply P env sender t = .ok t') (hop : ∀ seeds, op ≠ .mint seeds)
    (seeds : Nat → Result Seed) : Seeded seeds t t' := by
  have moved : ∀ {u : UNounsToken} {src dst : Address} {id : Nat},
      t.transferFrom env sender src dst id = .ok u → Seeded seeds t u := by
    intro u src dst id h
    simp only [UNounsToken.transferFrom, transferInternal, bind_eq_ok, pure_eq_ok] at h
    obtain ⟨_, _, _, _, _, _, _, _, _, _, u, hu, v, hv, _, _, rfl⟩ := h
    obtain ⟨⟨o, i, al, ai, logs, rfl, _⟩, _⟩ := beforeTokenTransfer_ok hu
    obtain ⟨approvals, logs', rfl⟩ := approveInternal_ok hv
    exact .same rfl rfl
  have delegated : ∀ {u v : UNounsToken} {a d : Address}, u.currentUNounId = t.currentUNounId →
      u.seeds = t.seeds → u.delegateInternal env a d = .ok v → Seeded seeds t v := by
    intro u v a d hid hs h
    simp only [delegateInternal, bind_eq_ok] at h
    obtain ⟨n, _, h⟩ := h
    obtain ⟨⟨logs, rfl⟩, _⟩ := moveDelegates_ok h
    exact .same hid hs
  cases op with
  | approve a id =>
    simp only [TokenOp.apply, UNounsToken.approve, bind_eq_ok] at h
    obtain ⟨_, _, _, _, _, _, h⟩ := h
    obtain ⟨_, _, rfl⟩ := approveInternal_ok h
    exact .same rfl rfl
  | setApprovalForAll a b =>
    simp only [TokenOp.apply, UNounsToken.setApprovalForAll, bind_eq_ok, pure_eq_ok] at h
    obtain ⟨_, _, rfl⟩ := h
    exact .same rfl rfl
  | transferFrom a b id => exact moved h
  | safeTransferFrom a b id data => exact moved h
  | delegate a => exact delegated rfl rfl h
  | delegateBySig a nonce expiry sig =>
    simp only [TokenOp.apply, UNounsToken.delegateBySig, bind_eq_ok] at h
    obtain ⟨_, _, _, _, _, _, h⟩ := h
    refine delegated ?_ ?_ h
    · rfl
    · rfl
  | mint seeds => exact absurd rfl (hop seeds)
  | burn id =>
    simp only [TokenOp.apply, UNounsToken.burn, burnInternal, bind_eq_ok, pure_eq_ok] at h
    obtain ⟨_, _, _, ⟨src, _, u, hu, v, hv, _, _, rfl⟩, rfl⟩ := h
    obtain ⟨⟨o, i, al, ai, logs, rfl, _⟩, _⟩ := beforeTokenTransfer_ok hu
    obtain ⟨approvals, logs', rfl⟩ := approveInternal_ok hv
    exact .same rfl rfl
  | setContractURIHash _ | setUNoundersDAO _ | setMinter _ | lockMinter | setDescriptor _
  | lockDescriptor | setSeeder _ | lockSeeder | transferOwnership _ | renounceOwnership =>
    obtain ⟨_, rfl, _⟩ := TokenOp.apply_setting h trivial
    exact .same rfl rfl

end

end UNouns
