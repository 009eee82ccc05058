import UNouns.Token.Transfers

/-!
# What the token tells of its delegates

The log of the token comes in groups.  A mint moves the new token twice, to the owner of the contract
and on to its receiver, and every other event stands for itself.

* `Dealing`                one group, and whom each account has for its delegate after it;
* `TokenOp.apply_deals`    the log of an entry consists of groups;
* `runs_dealt`             and so does the log of a run;
* `Naming`                 so each of its events leaves the delegates alone or names a new one.
-/

set_option linter.unusedVariables false

namespace UNouns
open Function Relation Reentrant Journal UNounsToken

/-- one group of events, between the delegates `ds` and those after it -/
inductive Dealing (ds : Address → Address) : List TokenEvent → (Address → Address) → Prop
  | delegate (a d : Address) (h : a ≠ 0) :
      Dealing ds [.delegateChanged a (ds a) d] (update ds a (if d = 0 then a else d))
  | mint (creator dst : Address) (id : Nat) (seed : Seed) (h : dst ≠ 0) :
      Dealing ds [.transfer 0 creator id, .transfer creator dst id, .nounCreated id seed] ds
  | move (src dst : Address) (id : Nat) (h : src ≠ 0) : Dealing ds [.transfer src dst id] ds
  | minor (v : TokenEvent) (h : v.Minor) : Dealing ds [v] ds

/-- the log from `t` to `t'` tells the delegates, group by group -/
def Deals (t t' : UNounsToken) : Prop :=
  ∃ gs : List (List TokenEvent), t'.logs = t.logs ++ gs.flatten ∧ Told Dealing t.delegates gs t'.delegates

theorem Deals.trans {t t' t'' : UNounsToken} (h1 : Deals t t') (h2 : Deals t' t'') : Deals t t'' := by
  obtain ⟨gs, h1, hg⟩ := h1
  obtain ⟨fs, h2, hf⟩ := h2
  refine ⟨gs ++ fs, ?_, hg.trans hf⟩
  rw [h2, h1, List.flatten_append, List.append_assoc]

theorem Dealing.told_minor (ds : Address → Address) {vs : List TokenEvent} (h : ∀ v ∈ vs, v.Minor) :
    Told Dealing ds (vs.map ([·])) ds :=
  .stay (List.forall_mem_map.mpr fun v hv => .minor v (h v hv))

section
variable {env : Env} {t t' : UNounsToken}

theorem Murmurs.deals (h : Murmurs t t') (hs : t'.delegates = t.delegates) : Deals t t' := by
  obtain ⟨vs, hl, hv⟩ := h
  refine ⟨vs.map ([·]), ?_, hs ▸ Dealing.told_minor _ hv⟩
  rw [hl, ← List.flatMap_def, List.flatMap_singleton']

theorem Deals.refl (t : UNounsToken) : Deals t t := (Murmurs.refl t).deals rfl

/-- minor events, then one group that leaves the delegates alone -/
theorem Deals.group {vs g : List TokenEvent} (hlogs : t'.logs = t.logs ++ (vs ++ g))
    (hv : ∀ v ∈ vs, v.Minor) (hs : t'.delegates = t.delegates)
    (hg : Dealing t.delegates g t.delegates) : Deals t t' := by
  have htold : Told Dealing t.delegates (vs.map ([·]) ++ [g]) t'.delegates := by
    rw [hs]
    exact (Dealing.told_minor _ hv).trans (Told.single hg)
  refine ⟨_, ?_, htold⟩
  rw [hlogs, List.flatten_append, ← List.flatMap_def, List.flatMap_singleton']
  simp

theorem delegates_congr (h : t'.storedDelegates = t.storedDelegates) : t'.delegates = t.delegates := by
  unfold UNounsToken.delegates
  rw [h]

theorem beforeTokenTransfer_delegates {src dst : Address} {id : Nat}
    (h : t.beforeTokenTransfer env src dst id = .ok t') : t'.storedDelegates = t.storedDelegates := by
  obtain ⟨⟨o, i, al, ai, logs, rfl, _⟩, _⟩ := beforeTokenTransfer_ok h
  rfl

theorem approveInternal_delegates {a : Address} {id : Nat} (h : t.approveInternal a id = .ok t') :
    t'.storedDelegates = t.storedDelegates := by
  obtain ⟨_, _, rfl⟩ := approveInternal_ok h
  rfl

theorem transferInternal_deals {src dst : Address} {id : Nat}
    (h : t.transferInternal env src dst id = .ok t') : Deals t t' := by
  simp only [transferInternal, bind_eq_ok, require_eq_ok, checkedSub_eq_ok, pure_eq_ok] at h
  obtain ⟨owner, howner, _, rfl, _, _, u, hu, v, hv, _, _, rfl⟩ := h
  obtain ⟨vs, hl, hq⟩ := (beforeTokenTransfer_minor hu).trans (approveInternal_minor hv)
  refine Deals.group (g := [.transfer owner dst id]) ?_ hq (delegates_congr ?_)
    (.move _ _ _ (ownerOf_ok howner).2)
  · show v.logs ++ [_] = _
    rw [hl, List.append_assoc]
  · exact (approveInternal_delegates hv).trans (beforeTokenTransfer_delegates hu)

theorem burnInternal_deals {id : Nat} (h : t.burnInternal env id = .ok t') : Deals t t' := by
  simp only [burnInternal, bind_eq_ok, checkedSub_eq_ok, pure_eq_ok] at h
  obtain ⟨src, howner, u, hu, v, hv, _, _, rfl⟩ := h
  obtain ⟨vs, hl, hq⟩ := (beforeTokenTransfer_minor hu).trans (approveInternal_minor hv)
  refine Deals.group (g := [.transfer src 0 id]) ?_ hq (delegates_congr ?_)
    (.move _ _ _ (ownerOf_ok howner).2)
  · show v.logs ++ [_] = _
    rw [hl, List.append_assoc]
  · exact (approveInternal_delegates hv).trans (beforeTokenTransfer_delegates hu)

theorem mintNext_deals {dst : Address} {seeds : Nat → Result Seed}
    (h : t.mintNext env dst seeds = .ok t') : Deals t t' := by
  simp only [mintNext, mintTo, mintInternal, bind_eq_ok, require_eq_ok, pure_eq_ok] at h
  obtain ⟨seed, _, w, ⟨_, hdst, _, _, u, hu, rfl⟩, rfl⟩ := h
  obtain ⟨vs, hl, hq⟩ := beforeTokenTransfer_minor hu
  have hl' : u.logs = t.logs ++ vs := hl
  have hs : u.storedDelegates = t.storedDelegates := (beforeTokenTransfer_delegates hu).trans rfl
  refine Deals.group (g := [.transfer 0 t.owner t.currentUNounId,
    .transfer t.owner dst t.currentUNounId, .nounCreated t.currentUNounId seed]) ?_ hq
    (delegates_congr hs) (.mint _ _ _ _ hdst)
  show ((u.logs ++ [_]) ++ [_]) ++ [_] = _
  rw [hl']
  simp

theorem mint_deals {sender : Address} {seeds : Nat → Result Seed} {unounId : Nat}
    (h : t.mint env sender seeds = .ok (t', unounId)) : Deals t t' := by
  simp only [mint, bind_eq_ok, pure_eq_ok, Prod.mk.injEq] at h
  obtain ⟨_, _, u, hu, v, hv, w, hw, rfl, _⟩ := h
  have h1 : Deals t u := by
    split_ifs at hu
    · exact mintNext_deals hu
    · cases hu
      exact .refl t
  have h2 : Deals u v := by
    split_ifs at hv
    · exact mintNext_deals hv
    · cases hv
      exact .refl u
  exact (h1.trans h2).trans (mintNext_deals hw)

theorem delegateInternal_deals {a d : Address} (h : t.delegateInternal env a d = .ok t') :
    Deals t t' := by
  simp only [delegateInternal, bind_eq_ok] at h
  obtain ⟨n, hn, h⟩ := h
  have ha : a ≠ 0 := by
    simp only [votesToDelegate, balanceOf, bind_eq_ok, require_eq_ok] at hn
    obtain ⟨_, ⟨_, ha, _⟩, _⟩ := hn
    exact ha
  have hmurmurs := moveDelegates_minor h
  obtain ⟨⟨logs, rfl⟩, _⟩ := moveDelegates_ok h
  have hlast : Deals ({ t with storedDelegates := update t.storedDelegates a d }.emit
    (.delegateChanged a (t.delegates a) d)) _ := hmurmurs.deals rfl
  refine Deals.trans ⟨[[.delegateChanged a (t.delegates a) d]], rfl, Told.single ?_⟩ hlast
  have e : UNounsToken.delegates ({ t with storedDelegates := update t.storedDelegates a d }.emit
      (.delegateChanged a (t.delegates a) d)) = update t.delegates a (if d = 0 then a else d) := by
    funext b
    show (if update t.storedDelegates a d b = 0 then b else update t.storedDelegates a d b) = _
    by_cases hb : b = a
    · rw [hb, update_self, update_self]
    · rw [update_of_ne hb, update_of_ne hb]
      rfl
  rw [e]
  exact .delegate a d ha

/-- **The log of an entry consists of groups.** -/
theorem TokenOp.apply_deals {P : Platform} {sender : Address} {op : TokenOp}
    (h : op.apply P env sender t = .ok t') : Deals t t' := by
  cases op with
  | approve a id =>
    simp only [TokenOp.apply, UNounsToken.approve, bind_eq_ok] at h
    obtain ⟨_, _, _, _, _, _, h⟩ := h
    exact (approveInternal_minor h).deals (delegates_congr (approveInternal_delegates h))
  | setApprovalForAll a b =>
    simp only [TokenOp.apply, UNounsToken.setApprovalForAll, bind_eq_ok, pure_eq_ok] at h
    obtain ⟨_, _, rfl⟩ := h
    exact (Murmurs.one rfl ⟨rfl, rfl⟩).deals rfl
  | transferFrom a b id | safeTransferFrom a b id data =>
    simp only [TokenOp.apply, UNounsToken.transferFrom, bind_eq_ok] at h
    obtain ⟨_, _, _, _, h⟩ := h
    exact transferInternal_deals h
  | delegate a => exact delegateInternal_deals h
  | delegateBySig a nonce expiry sig =>
    simp only [TokenOp.apply, UNounsToken.delegateBySig, bind_eq_ok] at h
    obtain ⟨_, _, _, _, _, _, h⟩ := h
    have hs := delegateInternal_deals h
    exact hs
  | mint seeds =>
    simp only [TokenOp.apply, bind_eq_ok, pure_eq_ok] at h
    obtain ⟨⟨u, id⟩, hm, rfl⟩ := h
    exact mint_deals hm
  | burn id =>
    simp only [TokenOp.apply, UNounsToken.burn, bind_eq_ok, pure_eq_ok] at h
    obtain ⟨_, _, u, hu, rfl⟩ := h
    exact (burnInternal_deals hu).trans ((Murmurs.one rfl ⟨rfl, rfl⟩).deals rfl)
  | setContractURIHash _ | setUNoundersDAO _ | setMinter _ | lockMinter | setDescriptor _
  | lockDescriptor | setSeeder _ | lockSeeder | transferOwnership _ | renounceOwnership =>
    obtain ⟨u, rfl, vs, hl, hvs⟩ := TokenOp.apply_setting h trivial
    exact Murmurs.deals ⟨vs, hl, fun v hv => (hvs v hv).minor⟩ rfl

end

/-! ## runs -/

/-- the log of a token from its deployment on consists of groups -/
def Dealt (t : UNounsToken) : Prop :=
  ∃ gs : List (List TokenEvent), t.logs = gs.flatten ∧ Told Dealing id gs t.delegates

theorem deploy_dealt (deployer a b c d e : Address) : Dealt (UNounsToken.deploy deployer a b c d e) :=
  ⟨[[_]], rfl, Told.single (.minor _ ⟨rfl, rfl⟩)⟩

theorem Deals.dealt {t t' : UNounsToken} (h : Deals t t') (ht : Dealt t) : Dealt t' := by
  obtain ⟨gs, hl, hg⟩ := ht
  obtain ⟨fs, hl', hf⟩ := h
  exact ⟨gs ++ fs, by rw [hl', hl, List.flatten_append], hg.trans hf⟩

theorem UNounsToken.Reached.dealt {P : Platform} {t : UNounsToken} (h : t.Reached P) : Dealt t := by
  induction h with
  | deployed => exact deploy_dealt _ _ _ _ _ _
  | entered env sender op t t' ht h ih => exact (TokenOp.apply_deals h).dealt ih

theorem runs_dealt {P : Platform} {x y : Env × TokenConfig}
    (h : ReflTransGen (Timed (TokenMove P)) x y) (hx : Dealt x.2.now) : Dealt y.2.now := by
  refine Timed.invariant (I := fun _ c => Dealt c.now) ?_ (fun _ _ _ hc _ => hc) h hx
  intro e c c' hc hm
  cases hm with
  | enter op t h => exact (TokenOp.apply_deals h).dealt hc
  | resume t h => exact h.elim

/-! ## event by event -/

/-- one event, between the delegates `ds` and those after it -/
inductive Naming (ds : Address → Address) : TokenEvent → (Address → Address) → Prop
  | delegate (a d : Address) (h : a ≠ 0) :
      Naming ds (.delegateChanged a (ds a) d) (update ds a (if d = 0 then a else d))
  | other (v : TokenEvent) (h : v.delegated = none) : Naming ds v ds

theorem Dealing.named {ds ds' : Address → Address} {g : List TokenEvent} (h : Dealing ds g ds') :
    Told Naming ds g ds' := by
  cases h with
  | delegate a d h => exact Told.single (.delegate a d h)
  | mint creator dst id seed h =>
    exact Told.cons (.other _ rfl) (Told.cons (.other _ rfl) (Told.single (.other _ rfl)))
  | move src dst id h => exact Told.single (.other _ rfl)
  | minor v h => exact Told.single (.other v h.delegated)

theorem Dealt.named {t : UNounsToken} (h : Dealt t) : Told Naming id t.logs t.delegates := by
  obtain ⟨gs, hl, hg⟩ := h
  rw [hl]
  exact hg.flatten fun _ _ _ => Dealing.named

end UNouns
