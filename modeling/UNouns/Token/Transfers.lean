import UNouns.Lib.Journal
import UNouns.Token.Votes

/-!
# What the token tells of its owners

The `Transfer` events of the token, in the order of its log, are all that is needed to know who owns
what: each one takes a token from its owner at that time, where `0` stands for nobody.

* `Ownership`            owners, balances and the supply;
* `Ownership.Step`       one event;
* `TokenOp.apply_told`   the log of an entry tells what it does to them;
* `runs_told`            so the log of a run tells who owns what.
-/

set_option linter.unusedVariables false

namespace UNouns
open Function Relation Reentrant Journal UNounsToken

/-- sender, receiver and token of a `Transfer` -/
def TokenEvent.moved : TokenEvent → Option (Address × Address × Nat)
  | .transfer src dst id => some (src, dst, id)
  | _ => none

/-- delegator, old and new delegate of a `DelegateChanged` -/
def TokenEvent.delegated : TokenEvent → Option (Address × Address × Address)
  | .delegateChanged a b c => some (a, b, c)
  | _ => none

structure Ownership where
  owners : Nat → Address
  balances : Address → Int
  supply : Int

def Ownership.none : Ownership := ⟨fun _ => 0, fun _ => 0, 0⟩

def UNounsToken.ownership (t : UNounsToken) : Ownership :=
  ⟨t.owners, fun a => t.balances a, t.totalSupply⟩

/-- the zero address has no balance, and what it sends is new, what it receives is gone -/
def Ownership.transfer (o : Ownership) (src dst : Address) (id : Nat) : Ownership where
  owners := update o.owners id dst
  balances := fun a => o.balances a - (if src = a ∧ a ≠ 0 then 1 else 0)
    + (if dst = a ∧ a ≠ 0 then 1 else 0)
  supply := o.supply + (if src = 0 then 1 else 0) - (if dst = 0 then 1 else 0)

inductive Ownership.Step (o : Ownership) : TokenEvent → Ownership → Prop
  | transfer (src dst : Address) (id : Nat) (h : o.owners id = src) :
      Step o (.transfer src dst id) (o.transfer src dst id)
  | other (v : TokenEvent) (h : v.moved = Option.none) : Step o v o

/-! ## events that move nothing -/

/-- about neither owners nor delegates -/
structure TokenEvent.Minor (v : TokenEvent) : Prop where
  moved : v.moved = none
  delegated : v.delegated = none

/-- from `t` to `t'` the log grows by minor events -/
def Murmurs (t t' : UNounsToken) : Prop :=
  ∃ vs, t'.logs = t.logs ++ vs ∧ ∀ v ∈ vs, v.Minor

theorem Murmurs.refl (t : UNounsToken) : Murmurs t t := ⟨[], by simp, by simp⟩

theorem Murmurs.one {t t' : UNounsToken} {v : TokenEvent} (h : t'.logs = t.logs ++ [v])
    (hv : v.Minor) : Murmurs t t' := ⟨[v], h, by simpa using hv⟩

theorem Murmurs.trans {t t' t'' : UNounsToken} (h1 : Murmurs t t') (h2 : Murmurs t' t'') :
    Murmurs t t'' := by
  obtain ⟨vs, h1, hv⟩ := h1
  obtain ⟨ws, h2, hw⟩ := h2
  refine ⟨vs ++ ws, by rw [h2, h1, List.append_assoc], fun v hv' => ?_⟩
  rcases List.mem_append.mp hv' with h | h
  · exact hv v h
  · exact hw v h

section
variable {env : Env} {t t' : UNounsToken}

theorem writeCheckpoint_minor {a : Address} {old new : Nat}
    (h : t.writeCheckpoint env a old new = .ok t') : Murmurs t t' := by
  simp only [writeCheckpoint, bind_eq_ok, pure_eq_ok] at h
  obtain ⟨_, _, _, _, rfl⟩ := h
  exact .one rfl ⟨rfl, rfl⟩

theorem takeVotes_minor {a : Address} {n : Nat} (h : t.takeVotes env a n = .ok t') : Murmurs t t' := by
  unfold takeVotes at h
  split_ifs at h
  · simp only [bind_eq_ok] at h
    obtain ⟨_, _, h⟩ := h
    exact writeCheckpoint_minor h
  · cases h
    exact .refl t

theorem giveVotes_minor {a : Address} {n : Nat} (h : t.giveVotes env a n = .ok t') : Murmurs t t' := by
  unfold giveVotes at h
  split_ifs at h
  · simp only [bind_eq_ok] at h
    obtain ⟨_, _, h⟩ := h
    exact writeCheckpoint_minor h
  · cases h
    exact .refl t

theorem moveDelegates_minor {a b : Address} {n : Nat} (h : t.moveDelegates env a b n = .ok t') :
    Murmurs t t' := by
  unfold moveDelegates at h
  split_ifs at h
  · simp only [bind_eq_ok] at h
    obtain ⟨u, h1, h2⟩ := h
    exact (takeVotes_minor h1).trans (giveVotes_minor h2)
  · cases h
    exact .refl t

theorem beforeTokenTransfer_minor {src dst : Address} {id : Nat}
    (h : t.beforeTokenTransfer env src dst id = .ok t') : Murmurs t t' := by
  simp only [beforeTokenTransfer, bind_eq_ok] at h
  obtain ⟨u, hu, h⟩ := h
  obtain ⟨o, i, al, ai, rfl, _⟩ := enumerateTransfer_ok hu
  obtain ⟨vs, hl, hv⟩ := moveDelegates_minor h
  exact ⟨vs, hl, hv⟩

theorem approveInternal_minor {a : Address} {id : Nat} (h : t.approveInternal a id = .ok t') :
    Murmurs t t' := by
  simp only [approveInternal, bind_eq_ok, pure_eq_ok] at h
  obtain ⟨_, _, rfl⟩ := h
  exact .one rfl ⟨rfl, rfl⟩

end

/-- from `t` to `t'` the log grows by events that move nothing -/
def MovesNothing (t t' : UNounsToken) : Prop :=
  ∃ vs, t'.logs = t.logs ++ vs ∧ ∀ v ∈ vs, v.moved = Option.none

theorem MovesNothing.refl (t : UNounsToken) : MovesNothing t t := ⟨[], by simp, by simp⟩

theorem MovesNothing.one {t t' : UNounsToken} {v : TokenEvent} (h : t'.logs = t.logs ++ [v])
    (hv : v.moved = Option.none) : MovesNothing t t' := ⟨[v], h, by simpa using hv⟩

theorem MovesNothing.trans {t t' t'' : UNounsToken} (h1 : MovesNothing t t')
    (h2 : MovesNothing t' t'') : MovesNothing t t'' := by
  obtain ⟨vs, h1, hv⟩ := h1
  obtain ⟨ws, h2, hw⟩ := h2
  refine ⟨vs ++ ws, by rw [h2, h1, List.append_assoc], fun v hv' => ?_⟩
  rcases List.mem_append.mp hv' with h | h
  · exact hv v h
  · exact hw v h

theorem Murmurs.movesNothing {t t' : UNounsToken} (h : Murmurs t t') : MovesNothing t t' := by
  obtain ⟨vs, hl, hv⟩ := h
  exact ⟨vs, hl, fun v hm => (hv v hm).moved⟩

theorem Ownership.told_quiet {o : Ownership} {vs : List TokenEvent}
    (h : ∀ v ∈ vs, v.moved = Option.none) : Told Ownership.Step o vs o :=
  .stay fun v hv => .other v (h v hv)

/-! ## what an entry tells -/

section
variable {env : Env} {t t' : UNounsToken}

/-- the log from `t` to `t'` tells the owners -/
def Tells (t t' : UNounsToken) : Prop :=
  ∃ vs, t'.logs = t.logs ++ vs ∧ Told Ownership.Step t.ownership vs t'.ownership

theorem Tells.trans {t t' t'' : UNounsToken} (h1 : Tells t t') (h2 : Tells t' t'') : Tells t t'' := by
  obtain ⟨vs, h1, hv⟩ := h1
  obtain ⟨ws, h2, hw⟩ := h2
  exact ⟨vs ++ ws, by rw [h2, h1, List.append_assoc], hv.trans hw⟩

theorem MovesNothing.tells (h : MovesNothing t t') (ho : t'.ownership = t.ownership) : Tells t t' := by
  obtain ⟨vs, hl, hv⟩ := h
  exact ⟨vs, hl, ho ▸ Ownership.told_quiet hv⟩

theorem Tells.refl (t : UNounsToken) : Tells t t := (MovesNothing.refl t).tells rfl

/-- the books before and after -/
structure SameHoldings (t t' : UNounsToken) : Prop where
  owners : t'.owners = t.owners
  balances : t'.balances = t.balances
  owner : t'.owner = t.owner

theorem beforeTokenTransfer_books {src dst : Address} {id : Nat}
    (h : t.beforeTokenTransfer env src dst id = .ok t') :
    SameHoldings t t' ∧ t'.totalSupply
      = t.totalSupply + (if src = 0 then 1 else 0) - (if dst = 0 then 1 else 0) := by
  obtain ⟨⟨o, i, al, ai, logs, rfl, hlen⟩, _⟩ := beforeTokenTransfer_ok h
  exact ⟨⟨rfl, rfl, rfl⟩, hlen⟩

theorem approveInternal_books {a : Address} {id : Nat} (h : t.approveInternal a id = .ok t') :
    SameHoldings t t' ∧ t'.totalSupply = t.totalSupply := by
  obtain ⟨_, _, rfl⟩ := approveInternal_ok h
  exact ⟨⟨rfl, rfl, rfl⟩, rfl⟩

/-- some events that move nothing, then one transfer -/
theorem Tells.transfer (src dst : Address) (id : Nat) (vs : List TokenEvent)
    (hlogs : t'.logs = t.logs ++ (vs ++ [.transfer src dst id]))
    (hq : ∀ v ∈ vs, v.moved = Option.none) (hsrc : t.owners id = src)
    (ho : t'.owners = update t.owners id dst)
    (hb : ∀ a, (t'.balances a : Int) = (t.ownership.transfer src dst id).balances a)
    (hs : (t'.totalSupply : Int) = (t.ownership.transfer src dst id).supply) : Tells t t' := by
  refine ⟨_, hlogs, (Ownership.told_quiet hq).trans (Told.single ?_)⟩
  have e : t'.ownership = t.ownership.transfer src dst id := by
    show (⟨t'.owners, fun a => t'.balances a, t'.totalSupply⟩ : Ownership) = _
    rw [ho, hs, funext hb]
    rfl
  rw [e]
  exact .transfer src dst id hsrc

/-- one token less for the sender, then one more for the receiver -/
theorem balances_moved (f : Address → Nat) {src : Address} (hsrc : src ≠ 0) (hbal : 1 ≤ f src)
    (a : Address) :
    ((update f src (f src - 1) a : Nat) : Int)
      = f a - (if src = a ∧ a ≠ 0 then 1 else 0) := by
  by_cases ha : a = src
  · subst ha
    rw [update_self, if_pos ⟨rfl, hsrc⟩]
    omega
  · rw [update_of_ne ha, if_neg fun h => ha h.1.symm]
    omega

theorem balances_gained (f : Address → Nat) {dst : Address} (hdst : dst ≠ 0) (a : Address) :
    ((update f dst (f dst + 1) a : Nat) : Int) = f a + (if dst = a ∧ a ≠ 0 then 1 else 0) := by
  by_cases ha : a = dst
  · subst ha
    rw [update_self, if_pos ⟨rfl, hdst⟩]
    omega
  · rw [update_of_ne ha, if_neg fun h => ha h.1.symm]
    omega

theorem transferInternal_tells {src dst : Address} {id : Nat}
    (h : t.transferInternal env src dst id = .ok t') : Tells t t' := by
  simp only [transferInternal, bind_eq_ok, require_eq_ok, checkedSub_eq_ok, pure_eq_ok] at h
  obtain ⟨owner, howner, _, rfl, _, hdst, u, hu, v, hv, _, ⟨hbal, rfl⟩, rfl⟩ := h
  obtain ⟨ho, hsrc⟩ := ownerOf_ok howner
  obtain ⟨vs, hl, hq⟩ := ((beforeTokenTransfer_minor hu).trans (approveInternal_minor hv)).movesNothing
  obtain ⟨hub, hus⟩ := beforeTokenTransfer_books hu
  obtain ⟨hvb, hvs⟩ := approveInternal_books hv
  have hb : v.balances = t.balances := hvb.balances.trans hub.balances
  have hs : v.totalSupply = t.totalSupply := by
    rw [hvs, hus, if_neg hsrc, if_neg hdst]
    omega
  refine Tells.transfer owner dst id vs ?_ hq ho ?_ (fun a => ?_) ?_
  · show v.logs ++ [_] = _
    rw [hl, List.append_assoc]
  · show update v.owners id dst = _
    rw [hvb.owners, hub.owners]
  · rw [hb] at hbal
    show ((update (update v.balances owner (v.balances owner - 1)) dst
      (update v.balances owner (v.balances owner - 1) dst + 1) a : Nat) : Int) = _
    rw [balances_gained _ hdst, hb, balances_moved _ hsrc hbal]
    rfl
  · show (v.totalSupply : Int) = t.totalSupply + _ - _
    rw [hs, if_neg hsrc, if_neg hdst]
    omega

theorem burn_supply_pos {src : Address} {id : Nat} (hsrc : src ≠ 0)
    (h : t.beforeTokenTransfer env src 0 id = .ok t') : 1 ≤ t.totalSupply := by
  simp only [beforeTokenTransfer, enumerateTransfer, if_neg hsrc, if_pos hsrc, bind_eq_ok] at h
  obtain ⟨_, ⟨u, hu, h⟩, _⟩ := h
  obtain ⟨_, _, rfl⟩ := removeTokenFromOwnerEnumeration_ok hu
  simp only [if_true, removeTokenFromAllTokensEnumeration, bind_eq_ok, checkedSub_eq_ok] at h
  obtain ⟨_, ⟨hpos, _⟩, _⟩ := h
  exact hpos

theorem burnInternal_tells {id : Nat} (h : t.burnInternal env id = .ok t') : Tells t t' := by
  simp only [burnInternal, bind_eq_ok, checkedSub_eq_ok, pure_eq_ok] at h
  obtain ⟨src, howner, u, hu, v, hv, _, ⟨hbal, rfl⟩, rfl⟩ := h
  obtain ⟨ho, hsrc⟩ := ownerOf_ok howner
  obtain ⟨vs, hl, hq⟩ := ((beforeTokenTransfer_minor hu).trans (approveInternal_minor hv)).movesNothing
  obtain ⟨hub, hus⟩ := beforeTokenTransfer_books hu
  obtain ⟨hvb, hvs⟩ := approveInternal_books hv
  have hb : v.balances = t.balances := hvb.balances.trans hub.balances
  have hpos : 1 ≤ t.totalSupply := burn_supply_pos hsrc hu
  refine Tells.transfer src 0 id vs ?_ hq ho ?_ (fun a => ?_) ?_
  · show v.logs ++ [_] = _
    rw [hl, List.append_assoc]
  · show update v.owners id 0 = _
    rw [hvb.owners, hub.owners]
  · rw [hb] at hbal
    have h0 : ¬ (0 = a ∧ a ≠ 0) := fun h => h.2 h.1.symm
    show ((update v.balances src (v.balances src - 1) a : Nat) : Int)
      = t.balances a - _ + (if 0 = a ∧ a ≠ 0 then 1 else 0)
    rw [hb, balances_moved _ hsrc hbal, if_neg h0]
    exact (add_zero _).symm
  · rw [if_neg hsrc, if_pos rfl] at hus
    show (v.totalSupply : Int) = t.totalSupply + _ - _
    rw [hvs, if_neg hsrc, if_pos rfl]
    omega

/-- the new token goes to the owner of the contract first -/
theorem mintNext_tells {dst : Address} {seeds : Nat → Result Seed}
    (h : t.mintNext env dst seeds = .ok t') : Tells t t' := by
  simp only [mintNext, mintTo, mintInternal, bind_eq_ok, require_eq_ok, pure_eq_ok] at h
  obtain ⟨seed, _, w, ⟨_, hdst, _, ho, u, hu, rfl⟩, rfl⟩ := h
  obtain ⟨vs, hl, hq⟩ := (beforeTokenTransfer_minor hu).movesNothing
  obtain ⟨hub, hus⟩ := beforeTokenTransfer_books hu
  have hl' : u.logs = t.logs ++ vs := hl
  have hb : u.balances = t.balances := hub.balances
  have hfree : t.ownership.owners t.currentUNounId = 0 := ho
  have h1 : Told Ownership.Step t.ownership [.transfer 0 t.owner t.currentUNounId]
      (t.ownership.transfer 0 t.owner t.currentUNounId) := Told.single (.transfer _ _ _ hfree)
  have h2 := h1.trans (Told.single (.transfer t.owner dst t.currentUNounId (update_self _ _ _)))
  refine ⟨vs ++ ([.transfer 0 t.owner t.currentUNounId, .transfer t.owner dst t.currentUNounId] ++
    [.nounCreated t.currentUNounId seed]), ?_, (Ownership.told_quiet hq).trans (h2.trans ?_)⟩
  · show ((u.logs ++ [_]) ++ [_]) ++ [_] = _
    rw [hl']
    simp
  · have e : (t.ownership.transfer 0 t.owner t.currentUNounId).transfer t.owner dst t.currentUNounId
        = ⟨update u.owners t.currentUNounId dst,
          fun a => (update u.balances dst (u.balances dst + 1) a : Nat), u.totalSupply⟩ := by
      refine congr (congrArg₂ Ownership.mk ?_ (funext fun a => ?_)) ?_
      · rw [hub.owners]
        exact update_idem _ _ _
      · rw [balances_gained _ hdst, hb]
        show (t.balances a : Int) - (if 0 = a ∧ a ≠ 0 then 1 else 0)
          + (if t.owner = a ∧ a ≠ 0 then 1 else 0) - (if t.owner = a ∧ a ≠ 0 then 1 else 0)
          + (if dst = a ∧ a ≠ 0 then 1 else 0) = _
        have h0 : ¬ (0 = a ∧ a ≠ 0) := fun h => h.2 h.1.symm
        rw [if_neg h0]
        omega
      · rw [if_pos rfl, if_neg hdst] at hus
        show (t.totalSupply : Int) + 1 - (if t.owner = 0 then 1 else 0)
          + (if t.owner = 0 then 1 else 0) - (if dst = 0 then 1 else 0) = _
        rw [if_neg hdst]
        have hus' : u.totalSupply = t.totalSupply + 1 := hus
        omega
    rw [e]
    exact Told.single (.other _ rfl)

theorem mint_tells {sender : Address} {seeds : Nat → Result Seed} {unounId : Nat}
    (h : t.mint env sender seeds = .ok (t', unounId)) : Tells t t' := by
  simp only [mint, bind_eq_ok, pure_eq_ok, Prod.mk.injEq] at h
  obtain ⟨_, _, u, hu, v, hv, w, hw, rfl, _⟩ := h
  have h1 : Tells t u := by
    split_ifs at hu
    · exact mintNext_tells hu
    · cases hu
      exact .refl t
  have h2 : Tells u v := by
    split_ifs at hv
    · exact mintNext_tells hv
    · cases hv
      exact .refl u
  exact (h1.trans h2).trans (mintNext_tells hw)

theorem delegateInternal_tells {a d : Address} (h : t.delegateInternal env a d = .ok t') :
    Tells t t' := by
  simp only [delegateInternal, bind_eq_ok] at h
  obtain ⟨n, _, h⟩ := h
  obtain ⟨vs, hl, hq⟩ := (moveDelegates_minor h).movesNothing
  have hquiet : MovesNothing t t' := (MovesNothing.one rfl rfl).trans ⟨vs, hl, hq⟩
  obtain ⟨⟨logs, rfl⟩, _⟩ := moveDelegates_ok h
  exact hquiet.tells rfl

theorem TokenEvent.Setting.minor {v : TokenEvent} (h : v.Setting) : v.Minor := by
  cases v with
  | noundersDAOUpdated _ | minterUpdated _ | minterLocked | descriptorUpdated _ | descriptorLocked
  | seederUpdated _ | seederLocked | ownershipTransferred _ _ => exact ⟨rfl, rfl⟩
  | _ => exact h.elim

/-- **The log of an entry tells what it does to the owners.** -/
theorem TokenOp.apply_tells {P : Platform} {sender : Address} {op : TokenOp}
    (h : op.apply P env sender t = .ok t') : Tells t t' := by
  cases op with
  | approve a id =>
    simp only [TokenOp.apply, UNounsToken.approve, bind_eq_ok] at h
    obtain ⟨_, _, _, _, _, _, h⟩ := h
    have hq := (approveInternal_minor h).movesNothing
    obtain ⟨_, _, rfl⟩ := approveInternal_ok h
    exact hq.tells rfl
  | setApprovalForAll a b =>
    simp only [TokenOp.apply, UNounsToken.setApprovalForAll, bind_eq_ok, pure_eq_ok] at h
    obtain ⟨_, _, rfl⟩ := h
    exact (MovesNothing.one rfl rfl).tells rfl
  | transferFrom a b id | safeTransferFrom a b id data =>
    simp only [TokenOp.apply, UNounsToken.transferFrom, bind_eq_ok] at h
    obtain ⟨_, _, _, _, h⟩ := h
    exact transferInternal_tells h
  | delegate a => exact delegateInternal_tells h
  | delegateBySig a nonce expiry sig =>
    simp only [TokenOp.apply, UNounsToken.delegateBySig, bind_eq_ok] at h
    obtain ⟨_, _, _, _, _, _, h⟩ := h
    have hs := delegateInternal_tells h
    exact hs
  | mint seeds =>
    simp only [TokenOp.apply, bind_eq_ok, pure_eq_ok] at h
    obtain ⟨⟨u, id⟩, hm, rfl⟩ := h
    exact mint_tells hm
  | burn id =>
    simp only [TokenOp.apply, UNounsToken.burn, bind_eq_ok, pure_eq_ok] at h
    obtain ⟨_, _, u, hu, rfl⟩ := h
    exact (burnInternal_tells hu).trans ((MovesNothing.one rfl rfl).tells rfl)
  | setContractURIHash _ | setUNoundersDAO _ | setMinter _ | lockMinter | setDescriptor _
  | lockDescriptor | setSeeder _ | lockSeeder | transferOwnership _ | renounceOwnership =>
    obtain ⟨u, rfl, vs, hl, hvs⟩ := TokenOp.apply_setting h trivial
    exact MovesNothing.tells ⟨vs, hl, fun v hv => (hvs v hv).minor.moved⟩ rfl

end

/-! ## runs -/

/-- the log of a token from its deployment on tells who owns what -/
def Chronicled (t : UNounsToken) : Prop := Told Ownership.Step .none t.logs t.ownership

theorem deploy_chronicled (deployer a b c d e : Address) :
    Chronicled (UNounsToken.deploy deployer a b c d e) := Told.single (.other _ rfl)

theorem Tells.chronicled {t t' : UNounsToken} (h : Tells t t') (ht : Chronicled t) :
    Chronicled t' := by
  obtain ⟨vs, hl, hv⟩ := h
  unfold Chronicled
  rw [hl]
  exact ht.trans hv

theorem UNounsToken.Reached.chronicled {P : Platform} {t : UNounsToken} (h : t.Reached P) :
    Chronicled t := by
  induction h with
  | deployed => exact deploy_chronicled _ _ _ _ _ _
  | entered env sender op t t' ht h ih => exact (TokenOp.apply_tells h).chronicled ih

theorem runs_told {P : Platform} {x y : Env × TokenConfig}
    (h : ReflTransGen (Timed (TokenMove P)) x y) (hx : Chronicled x.2.now) :
    Chronicled y.2.now := by
  refine Timed.invariant (I := fun _ c => Chronicled c.now) ?_ (fun _ _ _ hc _ => hc) h hx
  intro e c c' hc hm
  cases hm with
  | enter op t h => exact (TokenOp.apply_tells h).chronicled hc
  | resume t h => exact h.elim

end UNouns
