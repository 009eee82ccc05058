import UNouns.Token.Votes

/-!
# Who gets which token

A `mint` issues one token to the minter, after one to the unounders or to the unouncil when theirs is
due.

* `issues`     the calls of `_mintTo` that one `mint` makes, and for whom;
* `schedule`   for whom a token is, by its id;
* `issuance`   in every run the ids come one after the other, each one once, as the schedule says;
* `exists_issued`   and every id is reached by some run.
-/

set_option linter.unusedVariables false

namespace UNouns
open Function Relation Reentrant UNounsToken Checkpoints

/-- for whom `mint` mints -/
inductive Role where
  | unounders
  | unouncil
  | minter
  deriving DecidableEq, Repr

def Role.address (t : UNounsToken) : Role → Address
  | .unounders => t.unoundersDAO
  | .unouncil => t.unouncilDAO
  | .minter => t.minter

/-- the calls of `_mintTo` that `mint` makes from the counter `n` on -/
def issues (n : Nat) : List (Nat × Role) :=
  let unounders : List (Nat × Role) := if n ≤ 1865 ∧ n % 10 = 0 then [(n, .unounders)] else []
  let n := n + unounders.length
  let unouncil : List (Nat × Role) := if n ≤ 222 ∧ n % 10 = 2 then [(n, .unouncil)] else []
  unounders ++ unouncil ++ [(n + unouncil.length, .minter)]

def schedule (n : Nat) : Role :=
  if n ≤ 1865 ∧ n % 10 = 0 then .unounders
  else if n ≤ 222 ∧ n % 10 = 2 then .unouncil
  else .minter

/-! ## one call -/

theorem schedule_unounders {n : Nat} : schedule n = .unounders ↔ n ≤ 1865 ∧ n % 10 = 0 := by
  unfold schedule
  split_ifs with h1 h2 <;> simp [h1]

theorem schedule_unouncil {n : Nat} : schedule n = .unouncil ↔ n ≤ 222 ∧ n % 10 = 2 := by
  unfold schedule
  split_ifs with h1 h2
  · simp only [false_iff]
    omega
  · simp [h2]
  · simp [h2]

/-- after a reward comes the token of the minter -/
theorem issues_cases (n : Nat) :
    schedule n = .minter ∧ issues n = [(n, .minter)] ∨
      schedule n ≠ .minter ∧ schedule (n + 1) = .minter ∧
        issues n = [(n, schedule n), (n + 1, .minter)] := by
  have h0 : n % 10 = 0 → (n + 1) % 10 = 1 := by omega
  have h2 : n % 10 = 2 → (n + 1) % 10 = 3 := by omega
  unfold schedule issues
  by_cases hA : n ≤ 1865 ∧ n % 10 = 0
  · right
    simp [hA, h0 hA.2]
  · by_cases hB : n ≤ 222 ∧ n % 10 = 2
    · right
      simp [hB, h2 hB.2]
    · left
      simp [hA, hB]

/-- `t'` has the roles of `t` -/
structure SameRoles (t t' : UNounsToken) : Prop where
  unoundersDAO : t'.unoundersDAO = t.unoundersDAO
  unouncilDAO : t'.unouncilDAO = t.unouncilDAO
  minter : t'.minter = t.minter

theorem SameRoles.address {t t' : UNounsToken} (h : SameRoles t t') (ρ : Role) :
    ρ.address t' = ρ.address t := by
  cases ρ
  · exact h.unoundersDAO
  · exact h.unouncilDAO
  · exact h.minter

/-- between `t` and `t'` the tokens `is` have come into being, and no others -/
structure Issued (t t' : UNounsToken) (is : List (Nat × Role)) : Prop where
  ids : List.range t.currentUNounId ++ is.map Prod.fst = List.range t'.currentUNounId
  born : ∀ p ∈ is, t.owners p.1 = 0 ∧ t'.owners p.1 = p.2.address t ∧ t'.owners p.1 ≠ 0
  only : ∀ n, t.owners n = 0 → t'.owners n ≠ 0 → n ∈ is.map Prod.fst
  scheduled : ∀ p ∈ is, p.2 = schedule p.1

theorem Issued.none {t t' : UNounsToken} (hid : t'.currentUNounId = t.currentUNounId)
    (ho : ∀ n, t.owners n = 0 → t'.owners n = 0) : Issued t t' [] where
  ids := by rw [hid, List.map_nil, List.append_nil]
  born := fun _ h => (nomatch h)
  only := fun n h1 h2 => absurd (ho n h1) h2
  scheduled := fun _ h => (nomatch h)

section
variable {env : Env} {t t' : UNounsToken}

theorem mintNext_issues {dst : Address} {seeds : Nat → Result Seed}
    (h : t.mintNext env dst seeds = .ok t') :
    dst ≠ 0 ∧ t.owners t.currentUNounId = 0 ∧ SameRoles t t' := by
  simp only [mintNext, mintTo, mintInternal, bind_eq_ok, require_eq_ok, pure_eq_ok] at h
  obtain ⟨_, _, _, ⟨_, hdst, _, ho, u, hu, rfl⟩, rfl⟩ := h
  obtain ⟨⟨o, i, al, ai, logs, rfl, _⟩, _⟩ := beforeTokenTransfer_ok hu
  exact ⟨hdst, ho, rfl, rfl, rfl⟩

/-- one call of `_mintTo` -/
theorem mintNext_issued {dst : Address} {seeds : Nat → Result Seed} {ρ : Role}
    (h : t.mintNext env dst seeds = .ok t') (hρ : schedule t.currentUNounId = ρ)
    (hdst : dst = ρ.address t) :
    Issued t t' [(t.currentUNounId, ρ)] ∧ t'.currentUNounId = t.currentUNounId + 1 := by
  obtain ⟨h0, hfree, _⟩ := mintNext_issues h
  obtain ⟨ho, hid, _⟩ := mintNext_ok h
  have hnew : t'.owners t.currentUNounId = dst := by rw [ho, update_self]
  refine ⟨⟨?_, fun p hp => ?_, fun n h1 h2 => ?_, fun p hp => ?_⟩, hid⟩
  · rw [hid, List.range_succ]
    rfl
  · rw [List.mem_singleton.mp hp]
    exact ⟨hfree, hnew.trans hdst, hnew ▸ h0⟩
  · by_contra hn
    have hne : n ≠ t.currentUNounId := fun e => hn (by simp [e])
    rw [ho, update_of_ne hne] at h2
    exact h2 h1
  · rw [List.mem_singleton.mp hp]
    exact hρ.symm

/-- a token, then others -/
theorem Issued.cons {u : UNounsToken} {p : Nat × Role} {js : List (Nat × Role)}
    (h1 : Issued t u [p]) (hroles : SameRoles t u) (h2 : Issued u t' js)
    (hkept : ∀ n, u.owners n = 0 → t.owners n = 0) (hkeep : t'.owners p.1 = u.owners p.1) :
    Issued t t' (p :: js) where
  ids := by
    rw [← h2.ids, ← h1.ids]
    simp
  born := by
    intro q hq
    rcases List.mem_cons.mp hq with rfl | hq
    · obtain ⟨ht, ho, hne⟩ := h1.born q (List.mem_singleton_self q)
      exact ⟨ht, hkeep.trans ho, hkeep ▸ hne⟩
    · obtain ⟨hu, ho, hne⟩ := h2.born q hq
      exact ⟨hkept _ hu, ho.trans (hroles.address q.2), hne⟩
  only := by
    intro n ht hn
    by_cases hu : u.owners n = 0
    · exact List.mem_cons_of_mem _ (h2.only n hu hn)
    · exact List.mem_cons.mpr (.inl (List.mem_singleton.mp (h1.only n ht hu)))
  scheduled := by
    intro q hq
    rcases List.mem_cons.mp hq with rfl | hq
    · exact h1.scheduled q (List.mem_singleton_self q)
    · exact h2.scheduled q hq

/-- the token of the minter, after that of a reward -/
theorem mintNext_rewarded {u : UNounsToken} {ρ : Role} {seeds : Nat → Result Seed}
    (h1 : t.mintNext env (ρ.address t) seeds = .ok u) (hρ : schedule t.currentUNounId = ρ)
    (h2 : u.mintNext env u.minter seeds = .ok t')
    (hnext : schedule (t.currentUNounId + 1) = .minter) :
    Issued t t' [(t.currentUNounId, ρ), (t.currentUNounId + 1, .minter)] := by
  obtain ⟨_, hfree, hroles⟩ := mintNext_issues h1
  obtain ⟨ho, _, _⟩ := mintNext_ok h1
  obtain ⟨ho', _, _⟩ := mintNext_ok h2
  obtain ⟨hi, hid⟩ := mintNext_issued h1 hρ rfl
  rw [← hid] at hnext ⊢
  obtain ⟨hj, _⟩ := mintNext_issued h2 hnext rfl
  refine hi.cons hroles hj (fun n hn => ?_) ?_
  · rw [ho] at hn
    by_cases e : n = t.currentUNounId
    · rw [e]
      exact hfree
    · rwa [update_of_ne e] at hn
  · rw [ho', update_of_ne (by show t.currentUNounId ≠ _; omega)]

/-- **One `mint`.**  The id that it returns is that of the minter's token. -/
theorem mint_issued {sender : Address} {seeds : Nat → Result Seed} {unounId : Nat}
    (h : t.mint env sender seeds = .ok (t', unounId)) :
    sender = t.minter ∧ Issued t t' (issues t.currentUNounId) ∧
      (issues t.currentUNounId = [(unounId, .minter)] ∨
        ∃ n ρ, ρ ≠ .minter ∧ issues t.currentUNounId = [(n, ρ), (unounId, .minter)]) := by
  simp only [mint, onlyMinter, bind_eq_ok, require_eq_ok, pure_eq_ok, Prod.mk.injEq] at h
  obtain ⟨_, hminter, u, hu, v, hv, w, hw, rfl, rfl⟩ := h
  refine ⟨hminter, ?_⟩
  rcases issues_cases t.currentUNounId with ⟨hs, hi⟩ | ⟨hs, hnext, hi⟩
  · have hA : ¬ (t.currentUNounId ≤ 1865 ∧ t.currentUNounId % 10 = 0) := fun hc => by
      rw [schedule_unounders.mpr hc] at hs
      exact nomatch hs
    rw [if_neg hA] at hu
    cases hu
    have hB : ¬ (t.currentUNounId ≤ 222 ∧ t.currentUNounId % 10 = 2) := fun hc => by
      rw [schedule_unouncil.mpr hc] at hs
      exact nomatch hs
    rw [if_neg hB] at hv
    cases hv
    rw [hi]
    exact ⟨(mintNext_issued hw hs rfl).1, .inl rfl⟩
  · rw [hi]
    by_cases hA : t.currentUNounId ≤ 1865 ∧ t.currentUNounId % 10 = 0
    · rw [if_pos hA] at hu
      obtain ⟨_, hid, _⟩ := mintNext_ok hu
      rw [if_neg (by omega)] at hv
      cases hv
      have hρ := schedule_unounders.mpr hA
      rw [hρ] at hs ⊢
      exact ⟨mintNext_rewarded hu hρ hw hnext, .inr ⟨_, _, hs, by rw [hid]⟩⟩
    · rw [if_neg hA] at hu
      cases hu
      by_cases hB : t.currentUNounId ≤ 222 ∧ t.currentUNounId % 10 = 2
      · rw [if_pos hB] at hv
        obtain ⟨_, hid, _⟩ := mintNext_ok hv
        have hρ := schedule_unouncil.mpr hB
        rw [hρ] at hs ⊢
        exact ⟨mintNext_rewarded hv hρ hw hnext, .inr ⟨_, _, hs, by rw [hid]⟩⟩
      · exact absurd (by simp [schedule, hA, hB]) hs

/-- nothing but `mint` issues tokens -/
theorem TokenOp.apply_quiet {P : Platform} {sender : Address} {op : TokenOp}
    (h : op.apply P env sender t = .ok t') (hop : ∀ seeds, op ≠ .mint seeds) : Issued t t' [] := by
  have same : ∀ {u : UNounsToken}, u.ledger = t.ledger → Issued t u [] := fun e =>
    .none (congrArg Ledger.nextId e) fun n hn => (congrFun (congrArg Ledger.owners e) n).trans hn
  have changed : ∀ {u : UNounsToken} {id : Nat} {dst : Address}, t.owners id ≠ 0 →
      u.owners = update t.owners id dst → u.currentUNounId = t.currentUNounId → Issued t u [] := by
    intro u id dst hid ho hn
    refine .none hn fun n h0 => ?_
    have hne : n ≠ id := fun e => hid (e ▸ h0)
    rw [ho, update_of_ne hne]
    exact h0
  have moved : ∀ {u : UNounsToken} {src dst : Address} {id : Nat},
      t.transferFrom env sender src dst id = .ok u → Issued t u [] := by
    intro u src dst id h
    obtain ⟨_, h2, h3⟩ := transferFrom_ok h
    simp only [UNounsToken.transferFrom, isApprovedOrOwner, bind_eq_ok, require_eq_ok] at h
    obtain ⟨_, ⟨_, hid, _⟩, _⟩ := h
    exact changed hid h2 h3
  have delegated : ∀ {u v : UNounsToken} {a d : Address}, u.ledger = t.ledger →
      u.delegateInternal env a d = .ok v → Issued t v [] := by
    intro u v a d e h
    simp only [delegateInternal, bind_eq_ok] at h
    obtain ⟨n, _, h⟩ := h
    obtain ⟨⟨logs, rfl⟩, _⟩ := moveDelegates_ok h
    exact .none (congrArg Ledger.nextId e) fun n hn => (congrFun (congrArg Ledger.owners e) n).trans hn
  cases op with
  | approve a id =>
    simp only [TokenOp.apply, UNounsToken.approve, bind_eq_ok] at h
    obtain ⟨_, _, _, _, _, _, h⟩ := h
    obtain ⟨_, _, rfl⟩ := approveInternal_ok h
    exact same rfl
  | setApprovalForAll a b =>
    simp only [TokenOp.apply, UNounsToken.setApprovalForAll, bind_eq_ok, pure_eq_ok] at h
    obtain ⟨_, _, rfl⟩ := h
    exact same rfl
  | transferFrom a b id => exact moved h
  | safeTransferFrom a b id data => exact moved h
  | delegate a => exact delegated rfl h
  | delegateBySig a nonce expiry sig =>
    simp only [TokenOp.apply, UNounsToken.delegateBySig, bind_eq_ok] at h
    obtain ⟨_, _, _, _, _, _, h⟩ := h
    refine delegated ?_ h
    rfl
  | mint seeds => exact absurd rfl (hop seeds)
  | burn id =>
    simp only [TokenOp.apply, UNounsToken.burn, burnInternal, bind_eq_ok, checkedSub_eq_ok,
      pure_eq_ok] at h
    obtain ⟨_, _, _, ⟨src, howner, u, hu, v, hv, _, ⟨hbal, rfl⟩, rfl⟩, rfl⟩ := h
    obtain ⟨ho, hsrc⟩ := ownerOf_ok howner
    obtain ⟨⟨o, i, al, ai, logs, rfl, _⟩, _⟩ := beforeTokenTransfer_ok hu
    obtain ⟨approvals, logs', rfl⟩ := approveInternal_ok hv
    exact changed (ho.trans_ne hsrc) rfl rfl
  | setContractURIHash _ | setUNoundersDAO _ | setMinter _ | lockMinter | setDescriptor _
  | lockDescriptor | setSeeder _ | lockSeeder | transferOwnership _ | renounceOwnership =>
    obtain ⟨_, rfl, _⟩ := TokenOp.apply_setting h trivial
    exact same rfl

end

/-! ## runs -/

/-- what an entry of the history has issued -/
def issued (r : Record Env UNounsToken TokenCall) : List (Nat × Role) :=
  match r.op.op with
  | .mint _ => issues r.pre.currentUNounId
  | _ => []

/-- a `mint` of the history is one of the minter, and returns the id of the one token that is not a
reward -/
def Returns (r : Record Env UNounsToken TokenCall) (next : UNounsToken) : Prop :=
  ∀ seeds, r.op.op = .mint seeds → r.op.msg.sender = r.pre.minter ∧
    ∃ unounId, r.pre.mint r.env r.op.msg.sender seeds = .ok (next, unounId) ∧
      (issued r = [(unounId, .minter)] ∨ ∃ n ρ, ρ ≠ .minter ∧ issued r = [(n, ρ), (unounId, .minter)])

/-- the ids so far are `0, 1, …`, and each entry has issued some of them by the schedule -/
structure Issuance (c : TokenConfig) : Prop where
  ids : (c.past.flatMap issued).map Prod.fst = List.range c.now.currentUNounId
  steps : Linked (fun r next => Issued r.pre next (issued r) ∧ Returns r next) c

theorem TokenMove.issued {P : Platform} {env : Env} {c : TokenConfig} {op : TokenCall}
    {t : UNounsToken} (h : op.op.apply P env op.msg.sender c.now = .ok t) :
    Issued c.now t (UNouns.issued ⟨env, c.now, op⟩) ∧ Returns ⟨env, c.now, op⟩ t := by
  obtain ⟨msg, op⟩ := op
  by_cases hm : ∃ seeds, op = .mint seeds
  · obtain ⟨seeds, rfl⟩ := hm
    simp only [TokenOp.apply, bind_eq_ok, pure_eq_ok] at h
    obtain ⟨⟨u, id⟩, hm, rfl⟩ := h
    obtain ⟨hs, hi, hid⟩ := mint_issued hm
    refine ⟨hi, fun seeds' e => ?_⟩
    cases e
    exact ⟨hs, id, hm, hid⟩
  · have hop : ∀ seeds, op ≠ .mint seeds := fun seeds e => hm ⟨seeds, e⟩
    have hi := TokenOp.apply_quiet h hop
    refine ⟨?_, fun seeds e => absurd e (hop seeds)⟩
    cases op with
    | mint seeds => exact absurd rfl (hop seeds)
    | _ => exact hi

theorem TokenMove.keeps_issuance {P : Platform} {env : Env} {c c' : TokenConfig}
    (h : TokenMove P env c c') (hc : Issuance c) : Issuance c' := by
  refine ⟨?_, hc.steps.move h (fun op t h => TokenMove.issued h) fun _ _ _ _ h => h.elim⟩
  cases h with
  | enter op t h =>
    show ((c.past ++ [_]).flatMap UNouns.issued).map Prod.fst = _
    rw [List.flatMap_append, List.map_append, hc.ids, List.flatMap_singleton]
    exact (TokenMove.issued h).1.ids
  | resume t h => exact h.elim

theorem Issuance.deploy (deployer a b c d e : Address) :
    Issuance ⟨[], UNounsToken.deploy deployer a b c d e⟩ :=
  ⟨rfl, Linked.nil _⟩

theorem runs_issuance {P : Platform} {x y : Env × TokenConfig}
    (h : ReflTransGen (Timed (TokenMove P)) x y) (hx : Issuance x.2) : Issuance y.2 :=
  Timed.invariant (I := fun _ c => Issuance c) (fun _ _ _ hc hm => hm.keeps_issuance hc)
    (fun _ _ _ hc _ => hc) h hx

theorem Issuance.scheduled {c : TokenConfig} (h : Issuance c) {r : Record Env UNounsToken TokenCall}
    (hr : r ∈ c.past) {p : Nat × Role} (hp : p ∈ issued r) : p.2 = schedule p.1 := by
  obtain ⟨before, after, hpast⟩ := List.append_of_mem hr
  exact (h.steps before r after hpast).1.scheduled p hp

/-- **Who gets which token.**  In every run the tokens issued so far are `0, …, k - 1`, one after the
other and none of them twice, whatever is burned; each goes to the one whom the schedule says, as set
at that moment; each `mint` issues one token to the minter, the one it returns, after one reward at
most; and a `mint` that fails leaves everything as it was. -/
theorem issuance (P : Platform) (deployer unoundersDAO unouncilDAO minter descriptor seeder : Address)
    (e : Env) (ts : List (Tx Env TokenCall)) (hch : (e :: ts.map Tx.env).IsChain (· ≤ ·)) :
    ∀ o ∈ observations (TokenCall.code P) e ts
      ⟨[], deploy deployer unoundersDAO unouncilDAO minter descriptor seeder⟩,
      Issuance o.2 ∧ ∀ (env : Env) (msg : Msg) (seeds : Nat → Result Seed) (err : Revert)
        (rs : Replies TokenCall), o.2.now.mint env msg.sender seeds = .error err →
        commit o.2 (Call.run (TokenCall.code P) env (.mk ⟨msg, .mint seeds⟩ rs) o.2).2 = o.2 := by
  intro o ho
  have hr := observations_timed (fun env (op : TokenCall) (c : TokenConfig) => op.follows P env c) hch ho
  refine ⟨runs_issuance hr (.deploy _ _ _ _ _ _), fun env msg seeds err rs h => ?_⟩
  have hcode : TokenCall.code P env ⟨msg, .mint seeds⟩ o.2.now = .revert err := by
    show Code.once _ (((o.2.now.mint env msg.sender seeds).bind _).map _) = _
    rw [h]
    rfl
  show commit o.2 (rs.run (TokenCall.code P) env (TokenCall.code P env _ o.2.now) _).2 = o.2
  rw [hcode]
  cases rs <;> rfl

/-- tokens 0 and 1, of which the minter burns its own, then 2 and 3 -/
def burnTxs : List (Tx Env TokenCall) :=
  mintTxs ++ [⟨.block 8 80, .mk ⟨.of 4 0, .burn 1⟩ .nil⟩,
    ⟨.block 9 90, .mk ⟨.of 4 0, .mint (fun _ => .ok ⟨0, 0, 0, 0, 0⟩)⟩ .nil⟩]

theorem issuance_run :
    let last := (runTxs (TokenCall.code (.plain 10 11 4)) burnTxs ⟨[], deploy 1 2 3 4 5 6⟩).2
    last.past.flatMap issued = [(0, .unounders), (1, .minter), (2, .unouncil), (3, .minter)] ∧
      last.now.owners 1 = 0 ∧ last.now.owners 2 = 3 ∧ Issuance last :=
  ⟨by decide +kernel, by decide +kernel, by decide +kernel,
    (issuance (.plain 10 11 4) 1 2 3 4 5 6 (.block 6 60) burnTxs
      (by simp [burnTxs, mintTxs, Env.le_def, Env.block]) _ (final_mem_observations _ _ _ _)).1⟩

/-! ## every id is reached -/

/-- nobody has delegated, and all checkpoints are of block `b` -/
structure Young (b : Nat) (t : UNounsToken) : Prop where
  noDelegates : ∀ a, t.storedDelegates a = 0
  fresh : ∀ n, t.currentUNounId ≤ n → t.owners n = 0
  checkpoints : ∀ a, t.checkpoints a = [] ∨
    ∃ votes, votes ≤ t.currentUNounId ∧ t.checkpoints a = [⟨b, votes⟩]

theorem Young.votes {b : Nat} {t : UNounsToken} (h : Young b t) (a : Address) :
    t.getCurrentVotes a ≤ t.currentUNounId := by
  unfold getCurrentVotes
  rcases h.checkpoints a with e | ⟨v, hv, e⟩
  · rw [e]
    exact Nat.zero_le _
  · rw [e]
    exact hv

theorem Young.write {b : Nat} {t : UNounsToken} (h : Young b t) (a : Address) (n : Nat) :
    Checkpoints.write (t.checkpoints a) b n = [⟨b, n⟩] := by
  rcases h.checkpoints a with e | ⟨v, _, e⟩
  · rw [e]
    rfl
  · rw [e]
    simp [Checkpoints.write]

theorem moveDelegates_succeeds {env : Env} {t : UNounsToken} {dst : Address} (hdst : dst ≠ 0)
    (hb : env.number < 2 ^ 32) (hvotes : t.getCurrentVotes dst + 1 < 2 ^ 96)
    (hlen : ∀ n, (Checkpoints.write (t.checkpoints dst) env.number n).length < 2 ^ 32) :
    ∃ t', t.moveDelegates env 0 dst 1 = .ok t' := by
  unfold moveDelegates takeVotes giveVotes
  rw [if_pos ⟨Ne.symm hdst, Nat.one_pos⟩, if_neg (fun h => h rfl)]
  simp only [if_pos hdst, add96, writeCheckpoint, bind_eq_ok, require_eq_ok, revertUnless_eq_ok,
    pure_eq_ok]
  exact ⟨_, _, rfl, _, ⟨(), hvotes, (), Nat.le_add_right _ _, rfl⟩, (), hb, (), hlen _, rfl⟩

section
variable {P : Platform} {env : Env} {t : UNounsToken}

theorem enumerateTransfer_mint (t : UNounsToken) {dst : Address} (hdst : dst ≠ 0) (id : Nat) :
    ∃ u, t.enumerateTransfer 0 dst id = .ok u ∧ u.storedDelegates = t.storedDelegates ∧
      u.checkpoints = t.checkpoints := by
  simp only [enumerateTransfer, if_neg hdst, if_pos hdst, addTokenToOwnerEnumeration, balanceOf,
    bind_eq_ok, require_eq_ok, pure_eq_ok]
  exact ⟨_, ⟨_, rfl, _, ⟨(), hdst, rfl⟩, rfl⟩, rfl, rfl⟩

theorem Young.mintNext_succeeds (h : Young env.number t) (hb : env.number < 2 ^ 32)
    (hid : t.currentUNounId + 1 < 2 ^ 96) {dst : Address} (hdst : dst ≠ 0) (seed : Seed) :
    ∃ t', t.mintNext env dst (fun _ => .ok seed) = .ok t' := by
  obtain ⟨u, hu, h1, h2⟩ := enumerateTransfer_mint
    { t with currentUNounId := t.currentUNounId + 1, seeds := update t.seeds t.currentUNounId seed }
    hdst t.currentUNounId
  have hdel : ∀ a, u.delegates a = a := fun a => if_pos ((congrFun h1 a).trans (h.noDelegates a))
  have hvotes := h.votes dst
  have hmove : ∃ v, u.moveDelegates env (u.delegates 0) (u.delegates dst) 1 = .ok v := by
    rw [hdel, hdel]
    refine moveDelegates_succeeds hdst hb ?_ fun n => ?_
    · unfold getCurrentVotes at hvotes ⊢
      rw [h2]
      show (Checkpoints.latest (t.checkpoints dst)).getD 0 + 1 < _
      omega
    · rw [h2]
      show (Checkpoints.write (t.checkpoints dst) env.number n).length < _
      rw [h.write]
      exact Nat.one_lt_two_pow (by decide)
  obtain ⟨v, hv⟩ := hmove
  simp only [mintNext, mintTo, mintInternal, beforeTokenTransfer, bind_eq_ok, require_eq_ok, pure_eq_ok]
  exact ⟨_, _, rfl, _, ⟨(), hdst, (), h.fresh _ (Nat.le_refl _), _, ⟨_, hu, hv⟩, rfl⟩, rfl⟩

theorem Young.mintNext {t' : UNounsToken} (h : Young env.number t) {dst : Address}
    {seeds : Nat → Result Seed} (ht : t.mintNext env dst seeds = .ok t') : Young env.number t' := by
  simp only [UNounsToken.mintNext, mintTo, mintInternal, bind_eq_ok, require_eq_ok, pure_eq_ok] at ht
  obtain ⟨_, _, _, ⟨_, _, _, _, u, hu, rfl⟩, rfl⟩ := ht
  obtain ⟨⟨o, i, al, ai, logs, rfl, _⟩, _⟩ := beforeTokenTransfer_ok hu
  have h0 : t.delegates 0 = 0 := if_pos (h.noDelegates 0)
  refine ⟨h.noDelegates, fun n hn => ?_, fun a => ?_⟩
  · have hn' : t.currentUNounId + 1 ≤ n := hn
    have hne : n ≠ t.currentUNounId := by omega
    show update t.owners t.currentUNounId dst n = 0
    rw [update_of_ne hne]
    exact h.fresh n (by omega)
  · have hv := h.votes a
    have hold : t.checkpoints a = [] ∨
        ∃ v, v ≤ t.currentUNounId + 1 ∧ t.checkpoints a = [⟨env.number, v⟩] := by
      rcases h.checkpoints a with hnil | ⟨v, hv, e⟩
      · exact .inl hnil
      · exact .inr ⟨v, Nat.le_succ_of_le hv, e⟩
    have hnew : ∀ cps, cps = Ledger.moved env.number t.checkpoints (t.delegates 0) (t.delegates dst) 1 a →
        cps = [] ∨ ∃ v, v ≤ t.currentUNounId + 1 ∧ cps = [⟨env.number, v⟩] := by
      intro cps e
      unfold Ledger.moved at e
      rw [h0] at e
      by_cases h1 : 0 = t.delegates dst ∨ 1 = 0 ∨ a = 0
      · rw [if_pos h1] at e
        rwa [e]
      · have h2 : a ≠ 0 := fun h => h1 (.inr (.inr h))
        rw [if_neg h1, if_neg h2] at e
        by_cases h3 : a = t.delegates dst
        · rw [if_pos h3] at e
          exact .inr ⟨_, Nat.succ_le_succ hv, e.trans (h.write a _)⟩
        · rw [if_neg h3] at e
          rwa [e]
    exact hnew _ rfl

/-- a mint by the minter of such a token goes through -/
theorem Young.mint (h : Young env.number t) (hb : env.number < 2 ^ 32)
    (hid : t.currentUNounId + 2 < 2 ^ 96) (hroles : ∀ ρ : Role, ρ.address t ≠ 0) (seed : Seed) :
    ∃ t', (TokenOp.mint fun _ => .ok seed).apply P env t.minter t = .ok t' ∧ Young env.number t' ∧
      SameRoles t t' ∧ t.currentUNounId < t'.currentUNounId ∧
      t'.currentUNounId ≤ t.currentUNounId + 2 := by
  have hnext : ∀ {u : UNounsToken} (ρ : Role), Young env.number u → SameRoles t u →
      u.currentUNounId ≤ t.currentUNounId + 1 →
      ∃ v, u.mintNext env (ρ.address u) (fun _ => .ok seed) = .ok v ∧ Young env.number v ∧
        SameRoles t v ∧ v.currentUNounId = u.currentUNounId + 1 := by
    intro u ρ hu hsame hle
    have hρ : ρ.address u ≠ 0 := by
      rw [hsame.address]
      exact hroles ρ
    obtain ⟨v, hv⟩ := hu.mintNext_succeeds hb (by omega) hρ seed
    obtain ⟨_, _, h1, h2, h3⟩ := mintNext_issues hv
    exact ⟨v, hv, hu.mintNext hv, ⟨h1.trans hsame.1, h2.trans hsame.2, h3.trans hsame.3⟩,
      (mintNext_ok hv).2.1⟩
  simp only [TokenOp.apply, UNounsToken.mint, onlyMinter, bind_eq_ok, require_eq_ok, pure_eq_ok]
  by_cases hA : t.currentUNounId ≤ 1865 ∧ t.currentUNounId % 10 = 0
  · obtain ⟨u, hu, hyu, hru, hcu⟩ := hnext .unounders h ⟨rfl, rfl, rfl⟩ (Nat.le_succ _)
    obtain ⟨v, hv, hyv, hrv, hcv⟩ := hnext .minter hyu hru (by omega)
    have hB : ¬ (u.currentUNounId ≤ 222 ∧ u.currentUNounId % 10 = 2) := by omega
    refine ⟨v, ⟨_, ⟨(), trivial, u, ?_, u, ?_, v, hv, rfl⟩, rfl⟩, hyv, hrv, by omega, by omega⟩
    · rw [if_pos hA]
      exact hu
    · rw [if_neg hB]
      rfl
  · by_cases hB : t.currentUNounId ≤ 222 ∧ t.currentUNounId % 10 = 2
    · obtain ⟨u, hu, hyu, hru, hcu⟩ := hnext .unouncil h ⟨rfl, rfl, rfl⟩ (Nat.le_succ _)
      obtain ⟨v, hv, hyv, hrv, hcv⟩ := hnext .minter hyu hru (by omega)
      refine ⟨v, ⟨_, ⟨(), trivial, t, ?_, u, ?_, v, hv, rfl⟩, rfl⟩, hyv, hrv, by omega, by omega⟩
      · rw [if_neg hA]
        rfl
      · rw [if_pos hB]
        exact hu
    · obtain ⟨v, hv, hyv, hrv, hcv⟩ := hnext .minter h ⟨rfl, rfl, rfl⟩ (Nat.le_succ _)
      refine ⟨v, ⟨_, ⟨(), trivial, t, ?_, t, ?_, v, hv, rfl⟩, rfl⟩, hyv, hrv, by omega, by omega⟩
      · rw [if_neg hA]
        rfl
      · rw [if_neg hB]
        rfl

end

/-- `k` mints in block 7 -/
def manyTxs (k : Nat) : List (Tx Env TokenCall) :=
  List.replicate k ⟨.block 7 70, .mk ⟨.of 4 0, .mint (fun _ => .ok ⟨0, 0, 0, 0, 0⟩)⟩ .nil⟩

theorem manyTxs_chain (k : Nat) : (Env.block 6 60 :: (manyTxs k).map Tx.env).IsChain (· ≤ ·) := by
  have hstep : ∀ k, (Env.block 7 70 :: (manyTxs k).map Tx.env).IsChain (· ≤ ·) := by
    intro k
    induction k with
    | zero => exact List.isChain_singleton _
    | succ k ih => exact List.isChain_cons_cons.mpr ⟨Env.le_refl _, ih⟩
  cases k with
  | zero => exact List.isChain_singleton _
  | succ k => exact List.isChain_cons_cons.mpr ⟨Env.le_def.mpr (by simp [Env.block]), hstep k⟩

/-- each of them adds to the ids, so that every id is reached -/
theorem manyTxs_reach (P : Platform) (k : Nat) (c : TokenConfig) (h : Young 7 c.now)
    (hid : c.now.currentUNounId + 2 * k < 2 ^ 96) (hroles : ∀ ρ : Role, ρ.address c.now ≠ 0)
    (hminter : c.now.minter = 4) :
    c.now.currentUNounId + k ≤ (runTxs (TokenCall.code P) (manyTxs k) c).2.now.currentUNounId := by
  induction k generalizing c with
  | zero => exact Nat.le_refl _
  | succ k ih =>
    have hyoung : Young (Env.block 7 70).number c.now := h
    obtain ⟨t', ht, hy, hr, hlt, hle⟩ := Young.mint (P := P) hyoung (by decide) (by omega) hroles
      ⟨0, 0, 0, 0, 0⟩
    rw [hminter] at ht
    have hcall : commit c (Call.run (TokenCall.code P) (.block 7 70) (.mk ⟨.of 4 0,
        .mint (fun _ => .ok ⟨0, 0, 0, 0, 0⟩)⟩ .nil) c).2
        = ⟨c.enter (.block 7 70) ⟨.of 4 0, .mint (fun _ => .ok ⟨0, 0, 0, 0, 0⟩)⟩, t'⟩ := by
      have hcode : TokenCall.code P (.block 7 70) ⟨.of 4 0,
          .mint (fun _ => .ok ⟨0, 0, 0, 0, 0⟩)⟩ c.now = .done t' := by
        show Code.once _ ((TokenOp.apply P _ 4 c.now _).map _) = _
        rw [ht]
        rfl
      show commit c (Replies.run _ _ _ (TokenCall.code P _ _ c.now) _).2 = _
      rw [hcode]
      rfl
    have hnext := ih ⟨c.enter (.block 7 70) ⟨.of 4 0,
      .mint (fun _ => .ok ⟨0, 0, 0, 0, 0⟩)⟩, t'⟩ hy (by show t'.currentUNounId + _ < _; omega)
      (fun ρ => by rw [hr.address]; exact hroles ρ) (hr.minter.trans hminter)
    show _ ≤ (runTxs (TokenCall.code P) (manyTxs k) (commit c _)).2.now.currentUNounId
    rw [hcall]
    exact Nat.le_trans (by show _ ≤ t'.currentUNounId + k; omega) hnext

theorem deploy_young (b : Nat) (deployer unoundersDAO unouncilDAO minter descriptor seeder : Address) :
    Young b (deploy deployer unoundersDAO unouncilDAO minter descriptor seeder) :=
  ⟨fun _ => rfl, fun _ _ => rfl, fun _ => .inl rfl⟩

/-- **Every id is reached.** -/
theorem exists_issued (P : Platform) {n : Nat} (hn : n < 2 ^ 94) :
    let last := (runTxs (TokenCall.code P) (manyTxs (n + 1)) ⟨[], deploy 1 2 3 4 5 6⟩).2
    ∃ r ∈ last.past, (n, schedule n) ∈ issued r := by
  intro last
  let start : TokenConfig := ⟨[], deploy 1 2 3 4 5 6⟩
  have hreach : 0 + (n + 1) ≤ last.now.currentUNounId := by
    refine manyTxs_reach P (n + 1) start (deploy_young _ _ _ _ _ _ _) ?_ (fun ρ => ?_) rfl
    · show 0 + 2 * (n + 1) < 2 ^ 96
      omega
    · cases ρ <;> exact of_decide_eq_true rfl
  have hlast : Issuance last := runs_issuance
    (runTxs_timed (fun env (op : TokenCall) (c : TokenConfig) => op.follows P env c) _ _ _
      (manyTxs_chain (n + 1))).2 (.deploy 1 2 3 4 5 6)
  have hn : n ∈ (last.past.flatMap issued).map Prod.fst := by
    rw [hlast.ids, List.mem_range]
    omega
  obtain ⟨p, hp, rfl⟩ := List.mem_map.mp hn
  obtain ⟨r, hr, hpr⟩ := List.mem_flatMap.mp hp
  exact ⟨r, hr, hlast.scheduled hr hpr ▸ hpr⟩

end UNouns
