import UNouns.Subgraph.Census
import UNouns.Subgraph.Totals
import UNouns.Subgraph.Origin
import UNouns.Governance.Snapshot

/-!
# Does the subgraph add up the votes?

Every change of votes comes with an event that has the votes before and after, and only its mapping
changes those of a delegate.  So the entities have the votes of the last checkpoints, and the totals
are their sums.

* `Store.KeepsVotes`   what the other mappings do to the delegates;
* `Elected`            the entities and totals after the events that tell the votes `vs`;
* `votes_totaled`      after the events of a run they are those of the contract, unless a vote stopped
                       the subgraph.
-/

set_option linter.unusedVariables false

namespace UNouns.Subgraph
open Function Relation Reentrant Journal Finset

/-! ## the votes of a delegate -/

def Delegate.ballot (x : Delegate) : Int × Int := (x.delegatedVotesRaw, x.delegatedVotes)

/-- nobody is forgotten, and who is new has no votes -/
structure Store.KeepsVotes (s s' : Store) : Prop where
  sorted : s'.Sorted
  known : ∀ d, (s.delegates d).isSome = true → (s'.delegates d).isSome = true
  ballot : ∀ d, (s'.delegateOf d).ballot = (s.delegateOf d).ballot

theorem Store.KeepsVotes.trans {s s' s'' : Store} (h1 : s.KeepsVotes s') (h2 : s'.KeepsVotes s'') :
    s.KeepsVotes s'' :=
  ⟨h2.sorted, fun d hd => h2.known d (h1.known d hd), fun d => (h2.ballot d).trans (h1.ballot d)⟩

theorem Store.saveDelegate_known (s : Store) (x : Delegate) {d : Address}
    (h : (s.delegates d).isSome = true ∨ d = x.id) : ((s.saveDelegate x).delegates d).isSome = true := by
  show (update s.delegates x.id (some x) d).isSome = true
  by_cases e : d = x.id
  · rw [e, update_self]
    rfl
  · rw [update_of_ne e]
    exact h.resolve_right e

theorem Store.saveDelegate_delegateOf (s : Store) (x : Delegate) :
    (s.saveDelegate x).delegateOf = update s.delegateOf x.id x := by
  funext d
  show (update s.delegates x.id (some x) d).getD (.new d) = _
  by_cases e : d = x.id
  · rw [e, update_self, update_self]
    rfl
  · rw [update_of_ne e, update_of_ne e]
    rfl

section
variable {s s' : Store} (hs : s.Sorted)
include hs

theorem Store.Sorted.keeps_same {t : Store} (h : t.delegates = s.delegates) : s.KeepsVotes t := by
  refine ⟨fun d x hx => hs d x (h ▸ hx), fun d hd => h ▸ hd, fun d => ?_⟩
  unfold Store.delegateOf
  rw [h]

/-- a delegate is saved with its votes -/
theorem Store.Sorted.keeps_save {x : Delegate} (hx : x.ballot = (s.delegateOf x.id).ballot) :
    s.KeepsVotes (s.saveDelegate x) := by
  refine ⟨hs.saveDelegate x, fun d hd => s.saveDelegate_known x (.inl hd), fun d => ?_⟩
  rw [Store.saveDelegate_delegateOf]
  by_cases e : d = x.id
  · rw [e, update_self, hx]
  · rw [update_of_ne e]

theorem Store.Sorted.keeps_load (d : Address) : s.KeepsVotes (s.getOrCreateDelegate d).2 := by
  obtain ⟨_, h2, _, h4⟩ := Store.getOrCreateDelegate_roll hs d
  refine ⟨h2, fun a ha => ?_, fun a => by rw [h4]⟩
  have hc := congrFun (congrArg Census.known (s.getOrCreateDelegate_census d)) a
  exact hc.trans (Census.loads_other _ ha)

/-- a delegate is loaded, and saved with its votes -/
theorem Store.Sorted.keeps_resave {d : Address} {x : Delegate} (hid : x.id = d)
    (hx : x.ballot = (s.delegateOf d).ballot) :
    s.KeepsVotes ((s.getOrCreateDelegate d).2.saveDelegate x) := by
  have h := hs.keeps_load d
  refine h.trans (h.sorted.keeps_save ?_)
  rw [hx, hid, h.ballot]

/-! ## transfers -/

theorem Store.Sorted.unrepresent_keeps (delegate : Option Address) (id : Nat) :
    s.KeepsVotes (s.unrepresent delegate id) := by
  cases delegate with
  | none => exact hs.keeps_same rfl
  | some d =>
    have hd := (Store.getOrCreateDelegate_roll hs d).1
    refine hs.keeps_resave (Store.getOrCreateDelegate_id hs d) ?_
    rw [← hd]
    rfl

theorem Store.Sorted.represent_keeps (d : Address) (id : Nat) : s.KeepsVotes (s.represent d id) := by
  have hd := (Store.getOrCreateDelegate_roll hs d).1
  refine hs.keeps_resave (Store.getOrCreateDelegate_id hs d) ?_
  rw [← hd]
  rfl

theorem transferFromHolder_keeps (g : Governance) (fromHolder : Account) (src : Address) (id : Nat) :
    s.KeepsVotes (transferFromHolder s g fromHolder src id).store := by
  unfold transferFromHolder
  by_cases h : src = 0
  · rw [if_pos h]
    exact hs.keeps_same rfl
  · rw [if_neg h]
    have hu := hs.unrepresent_keeps fromHolder.delegate id
    exact hu.trans (hu.sorted.keeps_same (Store.recount_roll _ g fromHolder.tokenBalanceRaw _).2)

theorem Store.Sorted.receive_keeps (g : Governance) (toHolder : Account) (id : Nat) :
    s.KeepsVotes (s.receive g toHolder id) := by
  have hr := hs.represent_keeps (toHolder.delegate.getD toHolder.id) id
  exact hr.trans (hr.sorted.keeps_same (Store.recount_roll _ g toHolder.tokenBalanceRaw _).2)

theorem handleTransfer_keeps {V : Type} (e : Event V) (src dst : Address) (id : Nat) :
    s.KeepsVotes (handleTransfer s e src dst id) := by
  have haccount : ∀ (s : Store) (a : Address), (s.getOrCreateAccount a).2.delegates = s.delegates := by
    intro s a
    unfold Store.getOrCreateAccount
    cases s.accounts a <;> rfl
  have h1 := hs.keeps_same ((haccount _ dst).trans (haccount s src))
  unfold handleTransfer
  simp only
  generalize ((s.getOrCreateAccount src).2.getOrCreateAccount dst).2 = s2 at h1 ⊢
  generalize ((s.getOrCreateAccount src).2.getOrCreateAccount dst).1 = toHolder
  generalize TransferEvent.mk _ _ _ _ _ _ = ev
  have h2 := h1.trans (h1.sorted.keeps_same (t := s2.saveTransferEvent ev) rfl)
  have h3 := h2.trans (transferFromHolder_keeps h2.sorted s2.getGovernanceEntity
    (s.getOrCreateAccount src).1 src id)
  unfold transferToHolder
  simp only
  generalize transferFromHolder _ _ _ _ _ = x at h3 ⊢
  generalize DelegationEvent.mk _ _ _ _ _ _ = ev'
  refine h3.trans ?_
  by_cases h : dst = 0
  · simp only [if_pos h]
    have h4 := h3.sorted.keeps_same (t := (x.store.saveGovernance { x.governance with
      totalTokenHolders := x.governance.totalTokenHolders - 1 }).saveDelegationEvent ev') rfl
    exact h4.trans (h4.sorted.receive_keeps _ _ _)
  · simp only [if_neg h]
    have h4 := h3.sorted.keeps_same (t := x.store.saveDelegationEvent ev') rfl
    exact h4.trans (h4.sorted.receive_keeps _ _ _)

/-! ## the other events of the token -/

theorem handleDelegateChanged_keeps {V : Type} (e : Event V) (a b c : Address) :
    s.KeepsVotes (handleDelegateChanged s e a b c) := by
  have haccount : (s.getOrCreateAccount a).2.delegates = s.delegates := by
    unfold Store.getOrCreateAccount
    cases s.accounts a <;> rfl
  have h1 := hs.keeps_same haccount
  unfold handleDelegateChanged
  simp only
  generalize (s.getOrCreateAccount a).1 = tokenHolder
  generalize (s.getOrCreateAccount a).2 = s1 at h1 ⊢
  have hb := (Store.getOrCreateDelegate_roll h1.sorted b).1
  have h2 := h1.trans (h1.sorted.keeps_load b)
  generalize s1.getOrCreateDelegate b = r at hb h2 ⊢
  have hc := (Store.getOrCreateDelegate_roll h2.sorted c).1
  have h3 := h2.trans (h2.sorted.keeps_load c)
  generalize r.2.getOrCreateDelegate c = q at hc h3 ⊢
  have hr : r.1.ballot = (s.delegateOf b).ballot ∧ r.1.id = b :=
    ⟨by rw [hb, h1.ballot], by rw [hb, h1.sorted.id]⟩
  have hq : q.1.ballot = (s.delegateOf c).ballot ∧ q.1.id = c :=
    ⟨by rw [hc, h2.ballot], by rw [hc, h2.sorted.id]⟩
  -- both copies have their votes, also if they are of one delegate
  have h4 := h3.trans (h3.sorted.keeps_same (t := q.2.saveAccount { tokenHolder with
    delegate := some q.1.id }) rfl)
  have h5 := h4.trans (h4.sorted.keeps_save (x := { r.1 with
    tokenHoldersRepresentedAmount := r.1.tokenHoldersRepresentedAmount - 1
    nounsRepresented := r.1.nounsRepresented.filter fun n => !tokenHolder.nouns.contains n })
    (hr.1.trans (by rw [h4.ballot, hr.2])))
  have h6 := h5.trans (h5.sorted.keeps_save (x := { q.1 with
    tokenHoldersRepresentedAmount := q.1.tokenHoldersRepresentedAmount + 1
    nounsRepresented := q.1.nounsRepresented ++ tokenHolder.nouns })
    (hq.1.trans (by rw [h5.ballot, hq.2])))
  exact h6.trans (h6.sorted.keeps_same (saveDelegationEvents_roll _ _ _).delegates)

/-- **Only one mapping of the token changes votes**, those of the delegate that its event is about. -/
theorem handleTokenEvent_ballots {V : Type} (e : Event V) (v : TokenEvent) : match v with
    | .delegateVotesChanged d n m => (handleTokenEvent s e v).Sorted ∧
        (∀ a, a = d ∨ (s.delegates a).isSome = true →
          ((handleTokenEvent s e v).delegates a).isSome = true) ∧
        ∀ a, ((handleTokenEvent s e v).delegateOf a).ballot
          = update (fun a => (s.delegateOf a).ballot) d ((m : Int), (m : Int)) a
    | _ => s.KeepsVotes (handleTokenEvent s e v) := by
  cases v with
  | transfer src dst id => exact handleTransfer_keeps hs e src dst id
  | delegateChanged a b c => exact handleDelegateChanged_keeps hs e a b c
  | nounCreated id seed =>
    have hsame : (handleNounCreated s e id seed).delegates = s.delegates := by
      rcases handleNounCreated_cases s e id seed with h | ⟨noun, _, h⟩ <;> rw [h] <;> rfl
    exact hs.keeps_same hsame
  | delegateVotesChanged d n m =>
    have h := hs.keeps_load d
    have hid := Store.getOrCreateDelegate_id hs d
    refine ⟨(h.sorted.saveDelegate _ : Store.Sorted _), fun a ha => ?_, fun a => ?_⟩
    · refine Store.saveDelegate_known _ _ ?_
      rcases ha with rfl | ha
      · exact .inr hid.symm
      · exact .inl (h.known a ha)
    · have hsave := congrFun (Store.saveDelegate_delegateOf (s.getOrCreateDelegate d).2
        { (s.getOrCreateDelegate d).1 with delegatedVotesRaw := m, delegatedVotes := m }) a
      refine (congrArg Delegate.ballot hsave).trans ?_
      dsimp only
      rw [hid]
      by_cases e : a = d
      · rw [e, update_self, update_self]
        rfl
      · rw [update_of_ne e, update_of_ne e, h.ballot]
  | _ => exact hs.keeps_same rfl

end

/-! ## the totals -/

/-- how many have votes, and how many votes they have -/
def voters (vs : Address → Option Nat) : Nat := #{a : Address | 0 < (vs a).getD 0}

def votesOf (vs : Address → Option Nat) : Nat := ∑ a : Address, (vs a).getD 0

section
variable (vs : Address → Option Nat) (d : Address) (m : Nat)

theorem getD_update (a : Address) :
    (update vs d (some m) a).getD 0 = update (fun a => (vs a).getD 0) d m a := by
  by_cases e : a = d
  · rw [e, update_self, update_self]
    rfl
  · rw [update_of_ne e, update_of_ne e]

theorem votesOf_update :
    (votesOf (update vs d (some m)) : Int) = votesOf vs + (m - (vs d).getD 0) := by
  have h := Sums.sum_update (fun a => (vs a).getD 0) (mem_univ d) m
  have hsum : votesOf (update vs d (some m)) = ∑ a : Address, update (fun a => (vs a).getD 0) d m a :=
    sum_congr rfl fun a _ => getD_update vs d m a
  rw [← hsum] at h
  have h' : votesOf (update vs d (some m)) + (vs d).getD 0 = votesOf vs + m := h
  omega

theorem voters_update (h : (vs d).getD 0 ≠ 0 ∨ m ≠ 0) :
    (voters (update vs d (some m)) : Int) = voters vs
      + (if (vs d).getD 0 = 0 ∧ 0 < m then 1 else 0) - (if m = 0 then 1 else 0) := by
  have hsum := Sums.sum_change_one (f := fun a => if 0 < (vs a).getD 0 then 1 else 0)
    (g := fun a => if 0 < (update vs d (some m) a).getD 0 then 1 else 0) (mem_univ d)
    (fun a ha => by rw [update_of_ne ha])
  rw [← card_filter, ← card_filter, update_self] at hsum
  have hcount : voters (update vs d (some m)) + (if 0 < (vs d).getD 0 then 1 else 0)
      = voters vs + if 0 < m then 1 else 0 := hsum
  split_ifs at hcount ⊢ <;> omega

end

/-- entities and totals have the votes `vs` -/
structure Elected (vs : Address → Option Nat) (s : Store) : Prop where
  sorted : s.Sorted
  known : ∀ d, (vs d).isSome = true → (s.delegates d).isSome = true
  ballot : ∀ d, (s.delegateOf d).ballot = (((vs d).getD 0 : Int), ((vs d).getD 0 : Int))
  current : s.totals.currentDelegates = voters vs
  raw : s.totals.delegatedVotesRaw = votesOf vs
  votes : s.totals.delegatedVotes = votesOf vs

theorem Elected.keeps {vs : Address → Option Nat} {s s' : Store} (h : Elected vs s)
    (hk : s.KeepsVotes s') (hc : s'.totals.currentDelegates = s.totals.currentDelegates)
    (hr : s'.totals.delegatedVotesRaw = s.totals.delegatedVotesRaw)
    (hv : s'.totals.delegatedVotes = s.totals.delegatedVotes) : Elected vs s' :=
  ⟨hk.sorted, fun d hd => hk.known d (h.known d hd), fun d => (hk.ballot d).trans (h.ballot d),
    hc.trans h.current, hr.trans h.raw, hv.trans h.votes⟩

theorem Elected.empty : Elected (fun _ => none) .empty := by
  have hnone : votesOf (fun _ => none) = 0 := sum_eq_zero fun _ _ => rfl
  refine ⟨fun _ _ h => (nomatch h), fun _ h => (nomatch h), fun _ => rfl, ?_, ?_, ?_⟩
  · have hvoters : voters (fun _ => none) = 0 := by
      unfold voters
      rw [card_eq_zero, filter_eq_empty_iff]
      exact fun _ _ h => absurd h (Nat.lt_irrefl 0)
    rw [hvoters]
    rfl
  · rw [hnone]
    rfl
  · rw [hnone]
    rfl

/-- **The mappings of the token keep up.** -/
theorem Elected.token {V : Type} {vs vs' : Address → Option Nat} {s : Store} {v : TokenEvent}
    (h : Elected vs s) (e : Event V) (hv : Polling vs v vs') : Elected vs' (handleTokenEvent s e v) := by
  have hb := handleTokenEvent_ballots h.sorted e v
  have ht := handleTokenEvent_totals s e v
  cases hv with
  | change d m hpos =>
    obtain ⟨h1, h2, h3⟩ := hb
    refine ⟨h1, fun a ha => h2 a ?_, fun a => ?_, ?_, ?_, ?_⟩
    · by_cases e : a = d
      · exact .inl e
      · rw [update_of_ne e] at ha
        exact .inr (h.known a ha)
    · rw [h3, getD_update]
      by_cases e : a = d
      · rw [e, update_self, update_self]
      · rw [update_of_ne e, update_of_ne e, h.ballot]
    · rw [ht, voters_update vs d m hpos, ← h.current]
      rfl
    · rw [ht, votesOf_update, ← h.raw]
      rfl
    · rw [ht, votesOf_update, ← h.raw]
      rfl
  | other v hn =>
    cases v with
    | delegateVotesChanged d n m => cases hn
    | _ => exact h.keeps hb (by rw [ht]) (by rw [ht]) (by rw [ht])

theorem Elected.dao {V : Type} {vs : Address → Option Nat} {s s' : Store} {v : DaoEvent}
    (h : Elected vs s) (e : Event V) (hs : handleDaoEvent s e v = some s') : Elected vs s' := by
  have hr := handleDaoEvent_registers e hs
  have ht := handleDaoEvent_totals e hs
  refine h.keeps ⟨hr.sorted h.sorted, fun d hd => ?_, fun d => by rw [hr.delegateOf h.sorted]⟩
    (by rw [ht]) (by rw [ht]) (by rw [ht])
  have hc := congrFun (congrArg Census.known hr.census) d
  refine hc.trans ?_
  cases senderOf v with
  | none => exact hd
  | some x => exact Census.loads_other _ hd

/-! ## reading -/

/-- the events of both contracts, as the log of the token is told -/
theorem Elected.read {es : List (Event ChainEvent)} :
    ∀ {vs vs' : Address → Option Nat} {s s' : Store}, Elected vs s →
      Told Polling vs (tokens (es.map Event.entry)) vs' → read s es = some s' → Elected vs' s' := by
  induction es with
  | nil =>
    intro vs vs' s s' h ht hs
    obtain rfl : s = s' := Option.some.inj hs
    obtain rfl := ht.eq_of_nil
    exact h
  | cons e es ih =>
    intro vs vs' s s' h ht hs
    unfold UNouns.Subgraph.read at hs
    rw [List.foldlM_cons] at hs
    obtain ⟨s1, h1, hs⟩ := Option.bind_eq_some_iff.mp hs
    unfold handleChainEvent at h1
    cases he : e.params with
    | token v =>
      rw [he] at h1
      obtain rfl := Option.some.inj h1
      have hentry : Event.entry e = (e.block, .token v) := by rw [← he]; rfl
      rw [List.map_cons, hentry] at ht
      obtain ⟨vs1, hv, ht⟩ := ht.uncons
      exact ih (h.token e hv) ht hs
    | dao v =>
      rw [he] at h1
      have hentry : Event.entry e = (e.block, .dao v) := by rw [← he]; rfl
      rw [List.map_cons, hentry] at ht
      exact ih (h.dao e h1) ht hs

/-- **The totals of votes are exact** wherever a run can be looked at, if all its votes can be counted: a
delegate has the votes of the contract, the current delegates are those who have votes, and the
delegated votes are the sum of all votes. -/
theorem votes_totaled {P : Platform} (e : Env) (w : World P) (js : List (Block × ChainEvent))
    (hw : Begins e w js) (ts : List (Tx Env (GovCall P))) (hch : (e :: ts.map Tx.env).IsChain (· ≤ ·))
    (o : Env × GovConfig P) (ho : o ∈ observations GovCall.code e ts ⟨[], w⟩)
    (hcount : CountableRun o.2) (es : List (Event ChainEvent))
    (hes : es.map Event.entry = journalAfter js w.token.logs.length e o.2) :
    let t := o.2.now.token
    ∃ s, read .empty es = some s ∧
      (∀ d, t.checkpoints d ≠ [] →
        ∃ x, s.delegates d = some x ∧ x.delegatedVotes = t.getCurrentVotes d) ∧
      s.getGovernanceEntity.currentDelegates = (#{a : Address | 0 < t.getCurrentVotes a} : Nat) ∧
      s.getGovernanceEntity.delegatedVotes = (∑ a : Address, t.getCurrentVotes a : Nat) := by
  intro t
  have hf := runs_followed hw (observations_timed GovCall.follows_exact hch ho) hcount
  obtain ⟨s, hs, _⟩ := hf.noted es hes
  have htold : Told Polling (fun _ => none) (tokens (es.map Event.entry)) t.polls := by
    rw [hes, hf.written.tokens]
    exact hf.written.reached.polled
  have hI := Elected.empty.read htold hs
  refine ⟨s, hs, fun d hd => ?_, hI.current, hI.votes⟩
  have hsome : (t.polls d).isSome = true := by
    unfold UNounsToken.polls Checkpoints.latest
    cases hl : (t.checkpoints d).getLast? with
    | none => exact absurd (List.getLast?_eq_none_iff.mp hl) hd
    | some c => rfl
  obtain ⟨x, hx⟩ := Option.isSome_iff_exists.mp (hI.known d hsome)
  refine ⟨x, hx, ?_⟩
  have hb := hI.ballot d
  unfold Store.delegateOf at hb
  rw [hx] at hb
  exact congrArg Prod.snd hb

/-! ## runs -/

/-- a token with a mint before the DAO, which gives accounts `2` and `4` a vote each -/
def elderToken : UNounsToken :=
  (TokenOp.apply samplePlatform (.block 3 30) 4 sampleWorld.token
    (.mint fun _ => .ok ⟨0, 0, 0, 0, 0⟩)).toOption.get (by decide +kernel)

theorem elderToken_reached : elderToken.Reached samplePlatform := by
  refine .entered (.block 3 30) 4 (.mint fun _ => .ok ⟨0, 0, 0, 0, 0⟩) sampleWorld.token _ ?_
    (eq_ok_get _)
  rw [(GovSetup.deploy_fresh sampleWorld_deployed).token]
  exact .deployed _ _ _ _ _ _

def elderWorld : World samplePlatform := { sampleWorld with token := elderToken }

theorem elderWorld_begins : Begins (.block 6 60) elderWorld (older ⟨3, 30⟩ elderToken.logs []) :=
  .deployed sampleSetup sampleWorld sampleWorld_deployed elderToken elderToken_reached _
    (older_preceded (by decide) _ _)

/-- `2` proposes and votes for it; `4` burns its token, and `2` delegates its vote to `9` -/
def pollTxs : List (Tx Env (GovCall samplePlatform)) :=
  [⟨.block 8 80, sampleCall 2 0 (.entry (.dao (.propose [9] [3] [""] [[]] "three wei")))⟩,
   ⟨.block 10 100, sampleCall 2 0 (.entry (.dao (.castVote 1 1)))⟩,
   ⟨.block 11 110, sampleCall 4 0 (.entry (.token (.burn 1)))⟩,
   ⟨.block 12 120, sampleCall 2 0 (.entry (.token (.delegate 9)))⟩]

theorem votes_totaled_run :
    let last := (runTxs GovCall.code pollTxs ⟨[], elderWorld⟩).2
    last.past.length = 4 ∧
    ∃ s, read .empty (unhashed (journalAfter (older ⟨3, 30⟩ elderToken.logs []) elderToken.logs.length
        (.block 6 60) last)) = some s ∧
      (∃ x, s.delegates 9 = some x ∧ x.delegatedVotes = 1) ∧
      s.getGovernanceEntity.currentDelegates = 1 ∧
      #{a : Address | 0 < last.now.token.getCurrentVotes a} = 1 ∧
      s.getGovernanceEntity.delegatedVotes = 1 ∧ ∑ a : Address, last.now.token.getCurrentVotes a = 1 := by
  intro last
  have hread : (read .empty (unhashed (journalAfter (older ⟨3, 30⟩ elderToken.logs [])
      elderToken.logs.length (.block 6 60) last))).map (fun s =>
        (s.getGovernanceEntity.currentDelegates, s.getGovernanceEntity.delegatedVotes)) = some (1, 1) := by
    decide +kernel
  obtain ⟨s, hs, h1, h2, h3⟩ := votes_totaled (.block 6 60) elderWorld _ elderWorld_begins pollTxs
    (by simp [pollTxs, Env.le_def, Env.block]) _ (final_mem_observations _ _ _ _)
    (countableRun_of_plain (by decide +kernel) (by decide +kernel)) _ (unhashed_entry _)
  have hlen : last.past.length = 4 := by decide +kernel
  have hone : last.now.token.getCurrentVotes 9 = 1 := by decide +kernel
  obtain ⟨x, hx, hxvotes⟩ := h1 9 (by decide +kernel)
  have hs' : read .empty (unhashed (journalAfter (older ⟨3, 30⟩ elderToken.logs []) elderToken.logs.length
    (.block 6 60) last)) = some s := hs
  rw [hs', Option.map_some, Option.some.injEq, Prod.mk.injEq] at hread
  obtain ⟨hcurrent, hvotes⟩ := hread
  refine ⟨hlen, s, hs', ⟨x, hx, hxvotes.trans (congrArg _ hone)⟩, hcurrent, ?_, hvotes, ?_⟩
  · exact Nat.cast_eq_one.mp (h2.symm.trans hcurrent)
  · exact Int.ofNat.inj (h3.symm.trans hvotes)

/-- `4` burns both tokens, and `2` proposes in the same block and votes; then there is another mint -/
def emptyTxs : List (Tx Env (GovCall samplePlatform)) :=
  [⟨.block 8 80, sampleCall 4 0 (.entry (.token (.burn 0)))⟩,
   ⟨.block 8 80, sampleCall 4 0 (.entry (.token (.burn 1)))⟩,
   ⟨.block 8 80, sampleCall 2 0 (.entry (.dao (.propose [9] [3] [""] [[]] "three wei")))⟩,
   ⟨.block 10 100, sampleCall 2 0 (.entry (.dao (.castVote 1 1)))⟩,
   ⟨.block 11 110, sampleCall 4 0 (.entry (.token (.mint fun _ => .ok ⟨0, 0, 0, 0, 0⟩)))⟩]

/-- **A vote for a proposal made without tokens** stops the subgraph: the mint after it is not counted. -/
theorem not_votes_totaled :
    let last := (runTxs GovCall.code emptyTxs ⟨[], elderWorld⟩).2
    last.past.length = 5 ∧ last.now.token.getCurrentVotes 4 = 1 ∧
      (read .empty (unhashed (journalAfter (older ⟨3, 30⟩ elderToken.logs []) elderToken.logs.length
        (.block 6 60) last))).isNone = true := by
  intro last
  exact ⟨by decide +kernel, by decide +kernel, by decide +kernel⟩

end UNouns.Subgraph
