import UNouns.Token.Transfers

/-!
# What the token tells of its votes

Every checkpoint is written together with an event, and the event has the votes before and after.

* `Polling`               one event: the votes before are those of the last one about that delegate;
* `TokenOp.apply_polls`   the log of an entry tells the votes;
* `Polled`                and so does the log of a token from its deployment on.
-/

set_option linter.unusedVariables false

namespace UNouns
open Function Relation Reentrant Journal Checkpoints UNounsToken

/-- delegate, old and new votes of a `DelegateVotesChanged` -/
def TokenEvent.polled : TokenEvent → Option (Address × Nat × Nat)
  | .delegateVotesChanged d n m => some (d, n, m)
  | _ => none

theorem TokenEvent.Setting.polled {v : TokenEvent} (h : v.Setting) : v.polled = none := by
  cases v with
  | delegateVotesChanged => exact h.elim
  | _ => rfl

/-- the last checkpoint of each delegate -/
def UNounsToken.polls (t : UNounsToken) (a : Address) : Option Nat := latest (t.checkpoints a)

/-- one event: votes come from somewhere or go somewhere -/
inductive Polling (vs : Address → Option Nat) : TokenEvent → (Address → Option Nat) → Prop
  | change (d : Address) (m : Nat) (h : (vs d).getD 0 ≠ 0 ∨ m ≠ 0) :
      Polling vs (.delegateVotesChanged d ((vs d).getD 0) m) (update vs d (some m))
  | other (v : TokenEvent) (h : v.polled = none) : Polling vs v vs

/-- the log from `t` to `t'` tells the votes -/
def Polls (t t' : UNounsToken) : Prop :=
  ∃ vs, t'.logs = t.logs ++ vs ∧ Told Polling t.polls vs t'.polls

theorem Polls.trans {t t' t'' : UNounsToken} (h1 : Polls t t') (h2 : Polls t' t'') : Polls t t'' := by
  obtain ⟨vs, h1, hv⟩ := h1
  obtain ⟨ws, h2, hw⟩ := h2
  exact ⟨vs ++ ws, by rw [h2, h1, List.append_assoc], hv.trans hw⟩

section
variable {env : Env} {t t' : UNounsToken}

theorem polls_congr (h : t'.checkpoints = t.checkpoints) : t'.polls = t.polls := by
  unfold UNounsToken.polls
  rw [h]

/-- events about no votes -/
theorem Polls.others {vs : List TokenEvent} (hl : t'.logs = t.logs ++ vs)
    (hc : t'.checkpoints = t.checkpoints) (hvs : ∀ v ∈ vs, v.polled = none) : Polls t t' :=
  ⟨vs, hl, by rw [polls_congr hc]; exact .stay fun v hv => .other v (hvs v hv)⟩

theorem Polls.same (hl : t'.logs = t.logs) (hc : t'.checkpoints = t.checkpoints) : Polls t t' :=
  .others (hl.trans (List.append_nil _).symm) hc fun v hv => absurd hv List.not_mem_nil

theorem Polls.one {v : TokenEvent} (hl : t'.logs = t.logs ++ [v]) (hc : t'.checkpoints = t.checkpoints)
    (hv : v.polled = none) : Polls t t' :=
  .others hl hc (List.forall_mem_singleton.mpr hv)

/-! ## checkpoints -/

theorem writeCheckpoint_polls {a : Address} {m : Nat} (hm : t.getCurrentVotes a ≠ 0 ∨ m ≠ 0)
    (h : t.writeCheckpoint env a (t.getCurrentVotes a) m = .ok t') : Polls t t' := by
  simp only [writeCheckpoint, bind_eq_ok, pure_eq_ok] at h
  obtain ⟨_, _, _, _, rfl⟩ := h
  refine ⟨[_], rfl, ?_⟩
  have hnew : UNounsToken.polls (UNounsToken.emit
      { t with checkpoints := update t.checkpoints a (write (t.checkpoints a) env.number m) }
      (.delegateVotesChanged a (t.getCurrentVotes a) m)) = update t.polls a (some m) := by
    funext b
    show latest (update t.checkpoints a (write (t.checkpoints a) env.number m) b) = _
    by_cases e : b = a
    · rw [e, update_self, update_self, latest_write]
    · rw [update_of_ne e, update_of_ne e]
      rfl
  rw [hnew]
  exact Told.single (.change a m hm)

theorem takeVotes_polls {a : Address} {n : Nat} (hn : 0 < n) (h : t.takeVotes env a n = .ok t') :
    Polls t t' := by
  unfold takeVotes at h
  split_ifs at h
  · simp only [sub96, bind_eq_ok, require_eq_ok, pure_eq_ok] at h
    obtain ⟨_, ⟨_, hle, rfl⟩, h⟩ := h
    exact writeCheckpoint_polls (.inl (Nat.ne_of_gt (Nat.lt_of_lt_of_le hn hle))) h
  · cases h
    exact .same rfl rfl

theorem giveVotes_polls {a : Address} {n : Nat} (hn : 0 < n) (h : t.giveVotes env a n = .ok t') :
    Polls t t' := by
  unfold giveVotes at h
  split_ifs at h
  · simp only [add96, bind_eq_ok, require_eq_ok, pure_eq_ok] at h
    obtain ⟨_, ⟨_, _, _, _, rfl⟩, h⟩ := h
    exact writeCheckpoint_polls (.inr (Nat.ne_of_gt (Nat.add_pos_right _ hn))) h
  · cases h
    exact .same rfl rfl

theorem moveDelegates_polls {a b : Address} {n : Nat} (h : t.moveDelegates env a b n = .ok t') :
    Polls t t' := by
  unfold moveDelegates at h
  split_ifs at h with hc
  · simp only [bind_eq_ok] at h
    obtain ⟨u, h1, h2⟩ := h
    exact (takeVotes_polls hc.2 h1).trans (giveVotes_polls hc.2 h2)
  · cases h
    exact .same rfl rfl

theorem beforeTokenTransfer_polls {src dst : Address} {id : Nat}
    (h : t.beforeTokenTransfer env src dst id = .ok t') : Polls t t' := by
  simp only [beforeTokenTransfer, bind_eq_ok] at h
  obtain ⟨u, hu, h⟩ := h
  obtain ⟨o, i, al, ai, rfl, _⟩ := enumerateTransfer_ok hu
  have hmoved := moveDelegates_polls h
  exact Polls.trans (.same rfl rfl) hmoved

/-! ## the entries -/

theorem approveInternal_polls {a : Address} {id : Nat} (h : t.approveInternal a id = .ok t') :
    Polls t t' := by
  simp only [approveInternal, bind_eq_ok, pure_eq_ok] at h
  obtain ⟨_, _, rfl⟩ := h
  exact .one rfl rfl rfl

theorem transferInternal_polls {src dst : Address} {id : Nat}
    (h : t.transferInternal env src dst id = .ok t') : Polls t t' := by
  simp only [transferInternal, bind_eq_ok, pure_eq_ok] at h
  obtain ⟨_, _, _, _, _, _, u, hu, v, hv, _, _, rfl⟩ := h
  exact ((beforeTokenTransfer_polls hu).trans (approveInternal_polls hv)).trans (.one rfl rfl rfl)

theorem burnInternal_polls {id : Nat} (h : t.burnInternal env id = .ok t') : Polls t t' := by
  simp only [burnInternal, bind_eq_ok, pure_eq_ok] at h
  obtain ⟨_, _, u, hu, v, hv, _, _, rfl⟩ := h
  exact ((beforeTokenTransfer_polls hu).trans (approveInternal_polls hv)).trans (.one rfl rfl rfl)

theorem mintInternal_polls {creator dst : Address} {id : Nat}
    (h : t.mintInternal env creator dst id = .ok t') : Polls t t' := by
  simp only [mintInternal, bind_eq_ok, pure_eq_ok] at h
  obtain ⟨_, _, _, _, u, hu, rfl⟩ := h
  have h1 : Polls u (u.emit (.transfer 0 creator id)) := .one rfl rfl rfl
  exact ((beforeTokenTransfer_polls hu).trans h1).trans (.one rfl rfl rfl)

theorem mintNext_polls {dst : Address} {seeds : Nat → Result Seed}
    (h : t.mintNext env dst seeds = .ok t') : Polls t t' := by
  simp only [mintNext, mintTo, bind_eq_ok, pure_eq_ok] at h
  obtain ⟨seed, _, w, hw, rfl⟩ := h
  have h1 := mintInternal_polls hw
  exact (Polls.trans (.same rfl rfl) h1).trans (.one rfl rfl rfl)

theorem mint_polls {sender : Address} {seeds : Nat → Result Seed} {unounId : Nat}
    (h : t.mint env sender seeds = .ok (t', unounId)) : Polls t t' := by
  simp only [mint, bind_eq_ok, pure_eq_ok, Prod.mk.injEq] at h
  obtain ⟨_, _, u, hu, v, hv, w, hw, rfl, _⟩ := h
  have h1 : Polls t u := by
    split_ifs at hu
    · exact mintNext_polls hu
    · cases hu
      exact .same rfl rfl
  have h2 : Polls u v := by
    split_ifs at hv
    · exact mintNext_polls hv
    · cases hv
      exact .same rfl rfl
  exact (h1.trans h2).trans (mintNext_polls hw)

theorem delegateInternal_polls {a d : Address} (h : t.delegateInternal env a d = .ok t') :
    Polls t t' := by
  simp only [delegateInternal, bind_eq_ok] at h
  obtain ⟨_, _, h⟩ := h
  have hmoved := moveDelegates_polls h
  refine Polls.trans ?_ hmoved
  exact .one rfl rfl rfl

/-- **The log of an entry tells the votes.** -/
theorem TokenOp.apply_polls {P : Platform} {sender : Address} {op : TokenOp}
    (h : op.apply P env sender t = .ok t') : Polls t t' := by
  cases op with
  | approve a id =>
    simp only [TokenOp.apply, UNounsToken.approve, bind_eq_ok] at h
    obtain ⟨_, _, _, _, _, _, h⟩ := h
    exact approveInternal_polls h
  | setApprovalForAll a b =>
    simp only [TokenOp.apply, UNounsToken.setApprovalForAll, bind_eq_ok, pure_eq_ok] at h
    obtain ⟨_, _, rfl⟩ := h
    exact .one rfl rfl rfl
  | transferFrom a b id | safeTransferFrom a b id data =>
    simp only [TokenOp.apply, UNounsToken.transferFrom, bind_eq_ok] at h
    obtain ⟨_, _, _, _, h⟩ := h
    exact transferInternal_polls h
  | delegate a => exact delegateInternal_polls h
  | delegateBySig a nonce expiry sig =>
    simp only [TokenOp.apply, UNounsToken.delegateBySig, bind_eq_ok] at h
    obtain ⟨_, _, _, _, _, _, h⟩ := h
    have hsigned := delegateInternal_polls h
    exact Polls.trans (.same rfl rfl) hsigned
  | mint seeds =>
    simp only [TokenOp.apply, bind_eq_ok, pure_eq_ok] at h
    obtain ⟨⟨u, id⟩, hm, rfl⟩ := h
    exact mint_polls hm
  | burn id =>
    simp only [TokenOp.apply, UNounsToken.burn, bind_eq_ok, pure_eq_ok] at h
    obtain ⟨_, _, u, hu, rfl⟩ := h
    exact (burnInternal_polls hu).trans (.one rfl rfl rfl)
  | setContractURIHash _ | setUNoundersDAO _ | setMinter _ | lockMinter | setDescriptor _
  | lockDescriptor | setSeeder _ | lockSeeder | transferOwnership _ | renounceOwnership =>
    obtain ⟨u, rfl, vs, hl, hvs⟩ := TokenOp.apply_setting h trivial
    exact Polls.others hl rfl fun v hv => (hvs v hv).polled

end

/-! ## runs -/

/-- the log of a token from its deployment on tells the votes -/
def Polled (t : UNounsToken) : Prop := Told Polling (fun _ => none) t.logs t.polls

theorem deploy_polled (deployer a b c d e : Address) :
    Polled (UNounsToken.deploy deployer a b c d e) := Told.single (.other _ rfl)

theorem Polls.polled {t t' : UNounsToken} (h : Polls t t') (ht : Polled t) : Polled t' := by
  obtain ⟨vs, hl, hv⟩ := h
  unfold Polled
  rw [hl]
  exact ht.trans hv

theorem UNounsToken.Reached.polled {P : Platform} {t : UNounsToken} (h : t.Reached P) : Polled t := by
  induction h with
  | deployed => exact deploy_polled _ _ _ _ _ _
  | entered env sender op t t' ht h ih => exact (TokenOp.apply_polls h).polled ih

end UNouns
