import UNouns.Subgraph.Census
import UNouns.Subgraph.Delegation
import UNouns.Subgraph.Proposals

/-!
# Does the subgraph count its delegates?

Whoever is given votes, or a token, has an entity as a delegate afterwards.  The mapping makes it if it
is not there, and then it is not counted.

* `Enrolled`                who has an entity, after the events of a token;
* `Overlooks`               an event about an account that has none;
* `delegates_counted_iff`   the count is right as long as there is no such event, and never after.
-/

set_option linter.unusedVariables false

namespace UNouns.Subgraph
open Function Relation Reentrant Journal Finset

/-! ## who is enrolled -/

/-- whom an account has for its delegate after a transfer: the receiver itself, or as before -/
theorem Roll.transfer_delegate {r : Roll} {raw : Address → Int} {src dst a x : Address} {id : Nat}
    (h : (r.transfer raw src dst id).delegate a = some x) :
    (a = dst ∧ x = dst) ∨ r.delegate a = some x := by
  have hgain : ∀ r' : Roll, (r'.gain dst (r.delegate dst) (raw dst) id).delegate
      = update r'.delegate dst (if ¬ Emptied (raw dst) (raw dst + 1) ∧ Filled (raw dst) (raw dst + 1)
        then some dst else r.delegate dst) := fun _ => rfl
  unfold Roll.transfer at h
  rw [hgain] at h
  by_cases e : a = dst
  · subst e
    rw [update_self] at h
    split_ifs at h
    · exact .inl ⟨rfl, (Option.some.inj h).symm⟩
    · exact .inr h
  · rw [update_of_ne e] at h
    by_cases h0 : src = 0
    · rw [if_pos h0] at h
      exact .inr h
    · rw [if_neg h0] at h
      by_cases es : a = src
      · subst es
        have hlose : (r.lose a (raw a) id).delegate a
            = if Emptied (raw a) (raw a - 1) then none else r.delegate a := update_self _ _ _
        rw [hlose] at h
        split_ifs at h
        exact .inr h
      · rw [r.lose_delegate _ id es] at h
        exact .inr h

/-- after the events that `d` tells of: delegates and their delegators have an entity, and so has who
owns a token -/
structure Enrolled (d : Dealings) (s : Store) : Prop where
  keyed : s.Keyed
  sorted : s.Sorted
  named : ∀ a x, (s.account a).delegate = some x → s.census.known a = true ∧ s.census.known x = true
  owner : ∀ id, d.owners id ≠ 0 → s.census.known (d.owners id) = true
  raw : ∀ a, s.census.known a = false → (s.account a).tokenBalanceRaw = 0
  other : ∀ a, d.delegates a ≠ a → s.census.known a = true

theorem Enrolled.empty : Enrolled .none .empty :=
  ⟨⟨fun _ _ h => (nomatch h), fun _ _ h => (nomatch h)⟩, fun _ _ h => (nomatch h), fun _ _ h => (nomatch h),
    fun _ h => absurd rfl h, fun _ _ => rfl, fun _ h => absurd rfl h⟩

section
variable {V : Type} {d : Dealings} {s s' : Store} (h : Enrolled d s)
include h

/-- the delegate of an account is known, or it is the account itself -/
theorem Enrolled.delegate_cases (a : Address) :
    (s.account a).delegate = none ∨
      ∃ x, (s.account a).delegate = some x ∧ s.census.known a = true ∧ s.census.known x = true := by
  cases hx : (s.account a).delegate with
  | none => exact .inl rfl
  | some x => exact .inr ⟨x, rfl, h.named a x hx⟩

/-- the accounts are the same, and nobody is forgotten -/
theorem Enrolled.mono {d' : Dealings} (hk : s'.Keyed) (hs : s'.Sorted)
    (hroll : s'.roll.delegate = s.roll.delegate) (hraw : ∀ a, (s'.account a).tokenBalanceRaw
      = (s.account a).tokenBalanceRaw) (hknown : ∀ a, s.census.known a = true →
      s'.census.known a = true) (howners : d'.owners = d.owners)
    (hdelegates : d'.delegates = d.delegates) : Enrolled d' s' where
  keyed := hk
  sorted := hs
  named := fun a x hx => by
    obtain ⟨h1, h2⟩ := h.named a x ((congrFun hroll a).symm.trans hx)
    exact ⟨hknown _ h1, hknown _ h2⟩
  owner := fun id hid => by
    rw [howners] at hid ⊢
    exact hknown _ (h.owner id hid)
  raw := fun a ha => by
    rw [hraw]
    refine h.raw a ?_
    cases hk : s.census.known a with
    | false => rfl
    | true => exact (hknown a hk).symm.trans ha
  other := fun a ha => by
    rw [hdelegates] at ha
    exact hknown _ (h.other a ha)

theorem Enrolled.transfer (e : Event V) {src dst : Address} {id : Nat} (hsrc : d.owners id = src) :
    Enrolled (d.after (.transfer src dst id)) (handleTransfer s e src dst id) ∧
      (handleTransfer s e src dst id).census.missed
        = s.census.missed + if s.census.isNew dst then 1 else 0 := by
  have hrep : s.census.isNew ((s.account dst).delegate.getD dst) ↔ s.census.isNew dst := by
    rcases h.delegate_cases dst with hn | ⟨x, hx, hdst, hx'⟩
    · rw [hn]
      exact Iff.rfl
    · rw [hx]
      exact ⟨fun hn => (nomatch hx'.symm.trans hn.2), fun hn => (nomatch hdst.symm.trans hn.2)⟩
  have hc := handleTransfer_census h.keyed h.sorted e src dst
    (fun x hx => (h.named src x hx).2) (fun hn => by
      rcases h.delegate_cases dst with hd | ⟨x, hx, _, hx'⟩
      · rw [hd] at hn
        exact h.raw dst hn
      · rw [hx] at hn
        exact nomatch hx'.symm.trans hn) id
  obtain ⟨hk, hb⟩ := handleTransfer_books h.keyed e src dst id
  obtain ⟨hs, hr⟩ := handleTransfer_roll h.keyed h.sorted e src dst id
  have hmissed : (handleTransfer s e src dst id).census.missed
      = s.census.missed + if s.census.isNew dst then 1 else 0 := by
    rw [hc, Census.missed_slips, if_congr hrep rfl rfl]
  have hknown : ∀ a, s.census.known a = true →
      (handleTransfer s e src dst id).census.known a = true := fun a ha => by
    rw [hc]
    exact Census.loads_other _ ha
  have hdst : (handleTransfer s e src dst id).census.known dst = true := by
    rcases h.delegate_cases dst with hn | ⟨_, _, hd, _⟩
    · rw [hc, hn]
      exact Census.slips_known _
    · exact hknown dst hd
  refine ⟨⟨hk, hs, fun a x hx => ?_, fun n hn => ?_, fun a ha => ?_, fun a ha => hknown a (h.other a ha)⟩,
    hmissed⟩
  · have hx' : (handleTransfer s e src dst id).roll.delegate a = some x := hx
    rw [hr] at hx'
    rcases Roll.transfer_delegate hx' with ⟨rfl, rfl⟩ | hold
    · exact ⟨hdst, hdst⟩
    · obtain ⟨h1, h2⟩ := h.named a x hold
      exact ⟨hknown _ h1, hknown _ h2⟩
  · have hafter : (d.after (.transfer src dst id)).owners n
        = update (update d.owners id 0) id dst n := rfl
    rw [hafter] at hn ⊢
    by_cases e : n = id
    · rw [e, update_self]
      exact hdst
    · rw [update_of_ne e, update_of_ne e] at hn ⊢
      exact hknown _ (h.owner n hn)
  · -- neither the sender nor the receiver is unknown
    have hold : s.census.known a = false := by
      cases hka : s.census.known a with
      | false => rfl
      | true => exact (hknown a hka).symm.trans ha
    have hne : dst ≠ a := fun e => by
      rw [← e, hdst] at ha
      cases ha
    have hne' : ¬ (src = a ∧ a ≠ 0) := fun ⟨e, h0⟩ => by
      have howner := h.owner id (by rw [hsrc, e]; exact h0)
      rw [hsrc, e, hold] at howner
      cases howner
    have hraw : (handleTransfer s e src dst id).books.holding a = s.books.holding a := by
      rw [hb, Books.transfer_holding, if_neg hne, if_neg hne']
    exact (congrArg Holding.raw hraw).trans (h.raw a hold)

theorem Enrolled.delegate (e : Event V) (a c : Address) :
    Enrolled (d.after (.delegateChanged a (d.delegates a) c))
      (handleDelegateChanged s e a (d.delegates a) c) ∧
      (handleDelegateChanged s e a (d.delegates a) c).census.missed = s.census.missed := by
  have hc := handleDelegateChanged_census h.sorted e a (d.delegates a) c
  obtain ⟨hk, hb⟩ := handleDelegateChanged_books h.keyed e a (d.delegates a) c
  obtain ⟨hs, hr⟩ := handleDelegateChanged_roll h.keyed h.sorted e a (d.delegates a) c
  have hknown : ∀ b, s.census.known b = true →
      (handleDelegateChanged s e a (d.delegates a) c).census.known b = true := fun b hb => by
    rw [hc]
    exact Census.loads_other _ (Census.loads_other _ hb)
  -- who delegates for the first time is its own delegate before
  have ha : (handleDelegateChanged s e a (d.delegates a) c).census.known a = true := by
    by_cases e : d.delegates a = a
    · rw [hc, e]
      exact Census.loads_other _ (Census.loads_known _)
    · exact hknown a (h.other a e)
  have hcknown : (handleDelegateChanged s e a (d.delegates a) c).census.known c = true := by
    rw [hc]
    exact Census.loads_known _
  refine ⟨⟨hk, hs, fun b x hx => ?_, fun id hid => hknown _ (h.owner id hid), fun b hb' => ?_,
    fun b hb' => ?_⟩, ?_⟩
  · have hx' : (handleDelegateChanged s e a (d.delegates a) c).roll.delegate b = some x := hx
    rw [hr] at hx'
    have hupdate : update s.roll.delegate a (some c) b = some x := hx'
    by_cases e : b = a
    · rw [e, update_self] at hupdate
      rw [e, ← Option.some.inj hupdate]
      exact ⟨ha, hcknown⟩
    · rw [update_of_ne e] at hupdate
      obtain ⟨h1, h2⟩ := h.named b x hupdate
      exact ⟨hknown _ h1, hknown _ h2⟩
  · have hraw : (handleDelegateChanged s e a (d.delegates a) c).books.holding b
        = s.books.holding b := by rw [hb]
    refine (congrArg Holding.raw hraw).trans (h.raw b ?_)
    cases hkb : s.census.known b with
    | false => rfl
    | true => exact (hknown b hkb).symm.trans hb'
  · have hafter : (d.after (.delegateChanged a (d.delegates a) c)).delegates b
        = update d.delegates a (if c = 0 then a else c) b := rfl
    rw [hafter] at hb'
    by_cases e : b = a
    · rw [e]
      exact ha
    · rw [update_of_ne e] at hb'
      exact hknown b (h.other b hb')
  · rw [hc, Census.missed_loads, Census.missed_loads]

theorem Enrolled.votes (e : Event V) (a : Address) (n m : Nat) :
    Enrolled d (handleDelegateVotesChanged s e a n m) ∧
      (handleDelegateVotesChanged s e a n m).census.missed
        = s.census.missed + if s.census.isNew a then 1 else 0 := by
  have hc := handleDelegateVotesChanged_census h.sorted e a n m
  obtain ⟨hs, hr⟩ := handleDelegateVotesChanged_roll h.sorted e a n m
  obtain ⟨hk, hb⟩ := handleDelegateVotesChanged_books h.keyed e a n m
  refine ⟨h.mono hk hs (congrArg Roll.delegate hr) (fun b => ?_) (fun b hb => ?_) rfl rfl, ?_⟩
  · exact congrArg (fun x => (Books.holding x b).raw) hb
  · rw [hc]
    exact Census.loads_other _ hb
  · rw [hc, Census.missed_slips]

/-- an event of the DAO -/
theorem Enrolled.registers {sender : Option Address} (hr : s.Registers s' sender) :
    Enrolled d s' ∧ s'.census.missed = s.census.missed := by
  have hsame : s'.account = s.account := by
    unfold Store.account
    rw [hr.accounts]
  have hk : s'.Keyed := ⟨fun a x hx => h.keyed.account a x (hr.accounts ▸ hx),
    fun n x hx => h.keyed.noun n x (hr.nouns ▸ hx)⟩
  have hc := hr.census
  refine ⟨h.mono hk (hr.sorted h.sorted) ?_ (fun a => by rw [hsame]) (fun a ha => ?_) rfl rfl, ?_⟩
  · show (fun a => (s'.account a).delegate) = _
    rw [hsame]
    rfl
  · rw [hc]
    cases sender with
    | none => exact ha
    | some x => exact Census.loads_other _ ha
  · rw [hc]
    cases sender with
    | none => rfl
    | some x => exact Census.missed_loads _ x

end

/-! ## reading -/

/-- who is given votes or a token -/
def gets : ChainEvent → Option Address
  | .token (.delegateVotesChanged d _ _) => some d
  | .token (.transfer _ dst _) => some dst
  | _ => none

/-- an event that the count of delegates does not survive: the account that it is about has no entity
yet -/
def Overlooks (s : Store) (e : Event ChainEvent) : Prop := ∃ d ∈ gets e.params, s.census.isNew d

instance (s : Store) (e : Event ChainEvent) : Decidable (Overlooks s e) :=
  Option.decidableExistsMem _

theorem overlooks_iff {s : Store} {e : Event ChainEvent} {d : Address} (h : gets e.params = some d) :
    Overlooks s e ↔ s.census.isNew d :=
  ⟨fun ⟨x, hx, hn⟩ => Option.some.inj (h.symm.trans hx) ▸ hn, fun hn => ⟨d, h, hn⟩⟩

theorem not_overlooks {s : Store} {e : Event ChainEvent} (h : gets e.params = none) : ¬ Overlooks s e :=
  fun ⟨_, hx, _⟩ => nomatch h.symm.trans hx

/-- the log of a token that was told, and a store that has read the first part of it -/
structure Enlisting (us ws : List (Event ChainEvent)) (s : Store) : Prop where
  told : ∃ o, Told Ownership.Step .none (tokens ((us ++ ws).map Event.entry)) o
  named : ∃ ds, Told Naming id (tokens ((us ++ ws).map Event.entry)) ds
  enrolled : Enrolled (dealings (tokens (us.map Event.entry))) s

theorem Enrolled.token {d : Dealings} {s : Store} (h : Enrolled d s) (e : Event ChainEvent)
    {v : TokenEvent} (he : e.params = .token v)
    (hsrc : ∀ src dst id, v = .transfer src dst id → d.owners id = src)
    (hfrom : ∀ a b c, v = .delegateChanged a b c → b = d.delegates a) :
    Enrolled (d.after v) (handleTokenEvent s e v) ∧ (handleTokenEvent s e v).census.missed
      = s.census.missed + if Overlooks s e then 1 else 0 := by
  have hquiet : gets e.params = none → ∀ s', Enrolled (d.after v) s' ∧
      s'.census.missed = s.census.missed → Enrolled (d.after v) s' ∧
        s'.census.missed = s.census.missed + if Overlooks s e then 1 else 0 := by
    intro hn s' hs
    rw [if_neg (not_overlooks hn), add_zero]
    exact hs
  cases v with
  | transfer src dst id =>
    rw [if_congr (overlooks_iff (by rw [he]; rfl)) rfl rfl]
    exact h.transfer e (hsrc src dst id rfl)
  | delegateChanged a b c =>
    obtain rfl := hfrom a b c rfl
    exact hquiet (by rw [he]; rfl) _ (h.delegate e a c)
  | delegateVotesChanged a n m =>
    rw [if_congr (overlooks_iff (by rw [he]; rfl)) rfl rfl]
    exact h.votes e a n m
  | nounCreated id seed =>
    refine hquiet (by rw [he]; rfl) _ ?_
    have hr := handleNounCreated_roll (s := s) e id seed
    have hc := handleNounCreated_census (s := s) e id seed
    obtain ⟨hk, hb⟩ := handleNounCreated_books h.keyed e id seed
    refine ⟨h.mono hk (hr.sorted h.sorted) (congrArg Roll.delegate hr.roll) (fun a => ?_)
      (fun a ha => (congrFun (congrArg Census.known hc) a).trans ha) rfl rfl, congrArg Census.missed hc⟩
    exact congrArg (fun x => (Books.holding x a).raw) hb
  | _ => exact hquiet (by rw [he]; rfl) _ ⟨h, rfl⟩

theorem tokens_cons_token {b : Block} {v : TokenEvent} {js : List (Block × ChainEvent)} :
    tokens ((b, .token v) :: js) = v :: tokens js := rfl

theorem Enlisting.step {us ws : List (Event ChainEvent)} {e : Event ChainEvent} {s s' : Store}
    (h : Enlisting us (e :: ws) s) (hs : handleChainEvent s e = some s') :
    Enlisting (us ++ [e]) ws s' ∧
      s'.census.missed = s.census.missed + if Overlooks s e then 1 else 0 := by
  obtain ⟨⟨o, ht⟩, ⟨ds, hn⟩, hI⟩ := h
  have hcut : us ++ e :: ws = (us ++ [e]) ++ ws := by simp
  unfold handleChainEvent at hs
  cases he : e.params with
  | token v =>
    rw [he] at hs
    obtain rfl := Option.some.inj hs
    have hentry : Event.entry e = (e.block, .token v) := by rw [← he]; rfl
    have hsplit : tokens ((us ++ e :: ws).map Event.entry)
        = tokens (us.map Event.entry) ++ v :: tokens (ws.map Event.entry) := by
      rw [List.map_append, tokens_append, List.map_cons, hentry, tokens_cons_token]
    have hlast : tokens ((us ++ [e]).map Event.entry) = tokens (us.map Event.entry) ++ [v] := by
      rw [List.map_append, tokens_append, List.map_singleton, hentry]
      rfl
    have hsrc : ∀ src dst id, v = .transfer src dst id →
        (dealings (tokens (us.map Event.entry))).owners id = src := fun src dst id hv => by
      rw [hsplit, hv] at ht
      exact owner_of_told ht
    have hfrom : ∀ a b c, v = .delegateChanged a b c →
        b = (dealings (tokens (us.map Event.entry))).delegates a := fun a b c hv => by
      rw [hsplit, hv] at hn
      exact delegate_of_told hn
    obtain ⟨h1, h2⟩ := hI.token e he hsrc hfrom
    refine ⟨⟨⟨o, hcut ▸ ht⟩, ⟨ds, hcut ▸ hn⟩, ?_⟩, h2⟩
    rw [hlast, dealings_snoc]
    exact h1
  | dao v =>
    rw [he] at hs
    have hentry : Event.entry e = (e.block, .dao v) := by rw [← he]; rfl
    have hlast : tokens ((us ++ [e]).map Event.entry) = tokens (us.map Event.entry) := by
      rw [List.map_append, tokens_append, List.map_singleton, hentry]
      exact List.append_nil _
    obtain ⟨h1, h2⟩ := hI.registers (handleDaoEvent_registers e hs)
    rw [if_neg (not_overlooks (by rw [he]; rfl)), add_zero]
    refine ⟨⟨⟨o, hcut ▸ ht⟩, ⟨ds, hcut ▸ hn⟩, ?_⟩, h2⟩
    rw [hlast]
    exact h1

/-! ## runs -/

theorem tokens_cut {js ks : List (Block × ChainEvent)} (h : js <+: ks) : tokens js <+: tokens ks := by
  obtain ⟨ls, rfl⟩ := h
  exact ⟨tokens ls, (tokens_append js ls).symm⟩

/-- **The subgraph counts its delegates**, at any moment of its reading, if and only if no event before
was about votes or a token for an account that had no entity yet. -/
theorem delegates_counted_iff {P : Platform} (g : GovSetup) (e : Env) (w : World P)
    (hw : g.deploy P e = .ok w) (ts : List (Tx Env (GovCall P)))
    (hch : (e :: ts.map Tx.env).IsChain (· ≤ ·)) (es : List (Event ChainEvent))
    (hes : es.map Event.entry <+: journal e (runTxs GovCall.code ts ⟨[], w⟩).2) (s : Store)
    (hs : read .empty es = some s) :
    s.getGovernanceEntity.totalDelegates = (#{d : Address | d ≠ 0 ∧ (s.delegates d).isSome = true} : Nat)
      ↔ Avoids handleChainEvent Overlooks .empty es := by
  have hr := (runTxs_timed GovCall.follows_exact ts e ⟨[], w⟩ hch).2
  have hwritten := runs_written hw hr
  have hcut := tokens_cut hes
  rw [hwritten.tokens] at hcut
  obtain ⟨rest, hrest⟩ := hcut
  have htold := hwritten.chronicled
  have hnamed := hwritten.dealt.named
  unfold Chronicled at htold
  rw [← hrest] at htold hnamed
  obtain ⟨o, ho, _⟩ := htold.split
  obtain ⟨ds, hds, _⟩ := hnamed.split
  have hempty : Store.empty.census.missed = 0 := by
    have hnone : #{d : Address | d ≠ 0 ∧ Store.empty.census.known d = true} = 0 := by
      rw [card_eq_zero, filter_eq_empty_iff]
      exact fun d _ h => nomatch h.2
    show ((#{d : Address | d ≠ 0 ∧ Store.empty.census.known d = true} : Nat) : Int) - 0 = 0
    rw [hnone]
    rfl
  obtain ⟨_, _, hiff⟩ := Avoids.drift (I := Enlisting) (f := fun s => s.census.missed)
    (fun us s e ws s' => Enlisting.step) es [] .empty s ⟨⟨o, ho⟩, ⟨ds, hds⟩, .empty⟩ hs
  rw [← hiff, hempty]
  show s.census.total = s.census.delegates ↔ s.census.delegates - s.census.total = 0
  omega

/-- accounts `1`, `2` and `4` delegate, or are delegated to, before there is a token -/
def enlistTxs : List (Tx Env (GovCall samplePlatform)) :=
  [⟨.block 7 70, sampleCall 1 0 (.entry (.token (.delegate 2)))⟩,
   ⟨.block 7 70, sampleCall 4 0 (.entry (.token (.delegate 1)))⟩,
   ⟨.block 7 70, sampleCall 4 0 (.entry (.token (.mint fun _ => .ok ⟨0, 0, 0, 0, 0⟩)))⟩]

theorem delegates_counted_iff_run :
    let last := (runTxs GovCall.code enlistTxs ⟨[], sampleWorld⟩).2
    last.now.token.logs.length = 11 ∧ ∃ s, read .empty (sampleEvents last) = some s ∧
      s.getGovernanceEntity.totalDelegates = 3 ∧
      #{d : Address | d ≠ 0 ∧ (s.delegates d).isSome = true} = 3 := by
  intro last
  have hread : (read .empty (sampleEvents last)).map (·.getGovernanceEntity.totalDelegates) = some 3 := by
    decide +kernel
  obtain ⟨s, hs, htotal⟩ := Option.map_eq_some_iff.mp hread
  have h := delegates_counted_iff sampleSetup (.block 6 60) sampleWorld sampleWorld_deployed enlistTxs
    (by simp [enlistTxs, Env.le_def, Env.block]) (sampleEvents last)
    (by rw [sampleEvents_entry]) s hs
  have havoids : Avoids handleChainEvent Overlooks .empty (sampleEvents last) := by decide +kernel
  have hcount := h.mpr havoids
  rw [htotal] at hcount
  exact ⟨by decide +kernel, s, hs, htotal, by omega⟩

/-- **The first mint is not counted**: account `2` gets a token, has an entity, and is no delegate. -/
theorem delegates_not_counted :
    let last := (runTxs GovCall.code (proposeTxs.take 1) ⟨[], sampleWorld⟩).2
    ∃ s, read .empty (sampleEvents last) = some s ∧
      s.getGovernanceEntity.totalDelegates
        ≠ (#{d : Address | d ≠ 0 ∧ (s.delegates d).isSome = true} : Nat) := by
  intro last
  have hread : (read .empty (sampleEvents last)).map
      (fun s => (s.getGovernanceEntity.totalDelegates, (s.delegates 2).isSome)) = some (0, true) := by
    decide +kernel
  obtain ⟨s, hs, hboth⟩ := Option.map_eq_some_iff.mp hread
  obtain ⟨htotal, h2⟩ := Prod.mk.inj hboth
  have hmem : (2 : Address) ∈ ({d : Address | d ≠ 0 ∧ (s.delegates d).isSome = true} : Finset Address) :=
    mem_filter.mpr ⟨mem_univ _, by decide, h2⟩
  have hpos := card_pos.mpr ⟨_, hmem⟩
  refine ⟨s, hs, fun h => ?_⟩
  rw [htotal] at h
  omega

end UNouns.Subgraph
