import UNouns.Subgraph.Books
import UNouns.Lib.Sums
import Mathlib.Algebra.Order.BigOperators.Group.Finset

/-!
# Does the subgraph mirror the owners?

The books that the mapping of the token keeps, against the owners and balances that the same events
tell of.

* `Books.Reads`            what holds of the books after any events;
* `Books.Honest`           what holds as long as no account has sent a token to itself;
* `indexed_mirrored_iff`   so the subgraph mirrors the token until a token is sent to the zero address or by
                           an account to itself, and never after.
-/

set_option linter.unusedVariables false

namespace UNouns.Subgraph
open Function Relation Reentrant Journal Finset UNounsToken

/-! ## counting events -/

/-- how often a token of the account has gone to the account itself -/
def selfs (a : Address) (vs : List TokenEvent) : Nat :=
  vs.countP fun v => v.moved.any fun m => m.1 = a ∧ m.2.1 = a

/-- how often a token has gone to the zero address -/
def burns (vs : List TokenEvent) : Nat := vs.countP fun v => v.moved.any fun m => m.2.1 = 0

/-- a `Transfer` is to somebody, and to somebody else -/
def Plain : TokenEvent → Prop
  | .transfer src dst _ => dst ≠ 0 ∧ src ≠ dst
  | _ => True

theorem selfs_transfer (a : Address) (vs : List TokenEvent) (src dst : Address) (id : Nat) :
    selfs a (vs ++ [.transfer src dst id]) = selfs a vs + (if src = a ∧ dst = a then 1 else 0) := by
  unfold selfs
  rw [List.countP_append, List.countP_singleton]
  simp [TokenEvent.moved]

theorem burns_transfer (vs : List TokenEvent) (src dst : Address) (id : Nat) :
    burns (vs ++ [.transfer src dst id]) = burns vs + (if dst = 0 then 1 else 0) := by
  unfold burns
  rw [List.countP_append, List.countP_singleton]
  simp [TokenEvent.moved]

theorem selfs_other (a : Address) (vs : List TokenEvent) {v : TokenEvent} (h : v.moved = none) :
    selfs a (vs ++ [v]) = selfs a vs := by
  unfold selfs
  rw [List.countP_append, List.countP_singleton, h]
  rfl

theorem burns_other (vs : List TokenEvent) {v : TokenEvent} (h : v.moved = none) :
    burns (vs ++ [v]) = burns vs := by
  unfold burns
  rw [List.countP_append, List.countP_singleton, h]
  rfl

theorem plain_iff (v : TokenEvent) :
    Plain v ↔ ∀ src dst id, v.moved = some (src, dst, id) → dst ≠ 0 ∧ src ≠ dst := by
  cases v with
  | transfer src dst id =>
    refine ⟨fun h a b n e => ?_, fun h => h src dst id rfl⟩
    obtain ⟨rfl, rfl, rfl⟩ := e
    exact h
  | _ => exact ⟨fun _ _ _ _ e => (nomatch e), fun _ => trivial⟩

instance (v : TokenEvent) : Decidable (Plain v) :=
  decidable_of_iff (v.moved.all fun m => m.2.1 ≠ 0 ∧ m.1 ≠ m.2.1) (by
    rw [plain_iff]
    cases v.moved <;> simp [Prod.ext_iff])

theorem forall_plain_iff (vs : List TokenEvent) :
    (∀ v ∈ vs, Plain v) ↔ burns vs = 0 ∧ ∀ a ≠ 0, selfs a vs = 0 := by
  simp only [burns, selfs, List.countP_eq_zero, plain_iff, Option.any_eq_true, decide_eq_true_eq]
  constructor
  · intro h
    refine ⟨fun v hv => ?_, fun a ha v hv => ?_⟩
    · rintro ⟨⟨src, dst, id⟩, hm, rfl⟩
      exact (h v hv src _ id hm).1 rfl
    · rintro ⟨⟨src, dst, id⟩, hm, h1, h2⟩
      exact (h v hv src dst id hm).2 (h1.trans h2.symm)
  · intro h v hv src dst id hm
    have hdst : dst ≠ 0 := fun e => h.1 v hv ⟨_, hm, e⟩
    exact ⟨hdst, fun e => h.2 dst hdst v hv ⟨_, hm, e, rfl⟩⟩

/-! ## counting holders -/

/-- what an account with this balance is among the holders -/
def mark (balance : Int) : Int := if 0 < balance then 1 else 0

theorem holderChange_lose {x : Int} (h : 1 ≤ x) : holderChange x (x - 1) = mark (x - 1) - mark x := by
  unfold holderChange mark Emptied Filled
  split_ifs <;> omega

theorem holderChange_gain {x : Int} (h : 0 ≤ x) : holderChange x (x + 1) = mark (x + 1) - mark x := by
  unfold holderChange mark Emptied Filled
  split_ifs <;> omega

/-- the number of accounts with something -/
def holdersOf (f : Address → Int) : Int := #{a | 0 < f a}

theorem holdersOf_update (f : Address → Int) (a : Address) (x : Int) :
    holdersOf (update f a x) = holdersOf f + (mark x - mark (f a)) := by
  have h := Sums.sum_change_one (f := fun b => if 0 < f b then 1 else 0)
    (g := fun b => if 0 < update f a x b then 1 else 0) (mem_univ a)
    (fun b hb => by rw [update_of_ne hb])
  rw [← card_filter, ← card_filter, update_self] at h
  unfold holdersOf mark
  split_ifs at h ⊢ <;> omega

/-- the zero address is one of them if it has something -/
theorem holdersOf_eq (f : Address → Int) :
    holdersOf f = #{a : Address | a ≠ 0 ∧ 0 < f a} + mark (f 0) := by
  have h := holdersOf_update f 0 0
  have e : (univ.filter fun a => 0 < update f 0 0 a) = univ.filter fun a : Address => a ≠ 0 ∧ 0 < f a := by
    refine filter_congr fun a _ => ?_
    by_cases ha : a = 0
    · subst ha
      simp
    · simp [ha]
  unfold holdersOf at h ⊢
  rw [e] at h
  have h0 : mark 0 = 0 := rfl
  omega

/-! ## one event -/

theorem Books.transfer_holding (b : Books) (src dst : Address) (id : Nat) (a : Address) :
    (b.transfer src dst id).holding a = if dst = a then (b.holding a).gain id
      else if src = a ∧ a ≠ 0 then (b.holding a).lose id else b.holding a := by
  show update (if src = 0 then b.holding else update b.holding src ((b.holding src).lose id)) dst
    ((b.holding dst).gain id) a = _
  by_cases h1 : dst = a
  · subst h1
    rw [if_pos rfl, update_self]
  · rw [if_neg h1, update_of_ne (Ne.symm h1)]
    by_cases h0 : src = 0
    · have h2 : ¬ (src = a ∧ a ≠ 0) := fun h => h.2 (h.1.symm.trans h0)
      rw [if_pos h0, if_neg h2]
    · by_cases h2 : src = a
      · subst h2
        rw [if_neg h0, if_pos ⟨rfl, h0⟩, update_self]
      · rw [if_neg h0, if_neg fun h => h2 h.1, update_of_ne (Ne.symm h2)]

/-- after any events -/
structure Books.Reads (vs : List TokenEvent) (o : Ownership) (b : Books) : Prop where
  supply : b.supply = o.supply
  owner : ∀ id, o.owners id ≠ 0 → b.owner id = some (o.owners id)
  zero : (b.holding 0).raw = burns vs
  raw : ∀ a, a ≠ 0 → (b.holding a).raw = o.balances a + selfs a vs
  balance : ∀ a, (b.holding a).balance = (b.holding a).raw

/-- as long as no account has sent a token to itself -/
structure Books.Honest (o : Ownership) (b : Books) : Prop where
  nodup : ∀ a, a ≠ 0 → (b.holding a).nouns.Nodup
  mem : ∀ a, a ≠ 0 → ∀ id, id ∈ (b.holding a).nouns ↔ o.owners id = a
  length : ∀ a, a ≠ 0 → (b.holding a).raw = (b.holding a).nouns.length
  holders : b.holders = holdersOf fun a => (b.holding a).raw

theorem Books.Reads.transfer {vs : List TokenEvent} {o : Ownership} {b : Books} (h : b.Reads vs o)
    (src dst : Address) (id : Nat) :
    (b.transfer src dst id).Reads (vs ++ [.transfer src dst id]) (o.transfer src dst id) where
  supply := by
    show b.supply + _ - _ = o.supply + _ - _
    rw [h.supply]
  owner := fun n hn => by
    show update b.owner id (some dst) n = some (update o.owners id dst n)
    have hn' : update o.owners id dst n ≠ 0 := hn
    by_cases e : n = id
    · rw [e, update_self, update_self]
    · rw [update_of_ne e] at hn' ⊢
      rw [update_of_ne e]
      exact h.owner n hn'
  zero := by
    have h0 : ¬ (src = 0 ∧ (0 : Address) ≠ 0) := fun h => h.2 rfl
    rw [Books.transfer_holding, burns_transfer, if_neg h0]
    split_ifs
    · show (b.holding 0).raw + 1 = _
      rw [h.zero]
      omega
    · rw [h.zero]
      omega
  raw := fun a ha => by
    have e := h.raw a ha
    rw [Books.transfer_holding, selfs_transfer]
    show _ = o.balances a - (if src = a ∧ a ≠ 0 then 1 else 0) + (if dst = a ∧ a ≠ 0 then 1 else 0) + _
    by_cases h1 : dst = a <;> by_cases h2 : src = a
    all_goals simp only [h1, h2, ha, if_true, if_false, and_self, and_true, and_false,
      not_false_eq_true, ne_eq, Holding.gain, Holding.lose]
    all_goals omega
  balance := fun a => by
    rw [Books.transfer_holding]
    split_ifs
    · rfl
    · rfl
    · exact h.balance a

theorem Books.Honest.transfer {o : Ownership} {b : Books} (h : b.Honest o)
    (h0 : 0 ≤ (b.holding 0).raw) {src dst : Address} {id : Nat} (hsrc : o.owners id = src)
    (hne : dst ≠ 0 → src ≠ dst) : (b.transfer src dst id).Honest (o.transfer src dst id) where
  nodup := fun a ha => by
    rw [Books.transfer_holding]
    split_ifs with h1 h2
    · subst h1
      have hid : id ∉ (b.holding dst).nouns := fun hm => hne ha (hsrc ▸ (h.mem dst ha id).mp hm)
      exact List.nodup_append.mpr ⟨h.nodup dst ha, by simp, by grind⟩
    · exact (h.nodup a ha).filter _
    · exact h.nodup a ha
  mem := fun a ha n => by
    have hm := h.mem a ha n
    rw [Books.transfer_holding]
    show _ ↔ update o.owners id dst n = a
    by_cases e : n = id
    · subst e
      rw [update_self]
      split_ifs with h1 h2
      · simp [Holding.gain, h1]
      · simp [Holding.lose, h1]
      · rw [hm, hsrc]
        exact ⟨fun h => absurd ⟨h, ha⟩ h2, fun h => absurd h h1⟩
    · rw [update_of_ne e, ← hm]
      split_ifs with h1 h2
      · simp [Holding.gain, e]
      · simp [Holding.lose, e]
      · exact Iff.rfl
  length := fun a ha => by
    have hl := h.length a ha
    rw [Books.transfer_holding]
    split_ifs with h1 h2
    · simp [Holding.gain, hl]
    · obtain ⟨rfl, _⟩ := h2
      have hid : id ∈ (b.holding src).nouns := (h.mem src ha id).mpr hsrc
      have he : ((b.holding src).lose id).nouns = (b.holding src).nouns.erase id := by
        rw [(h.nodup src ha).erase_eq_filter id]
        exact List.filter_congr fun n _ => by grind
      have hpos := List.length_pos_of_mem hid
      rw [he, List.length_erase_of_mem hid]
      show (b.holding src).raw - 1 = _
      omega
    · exact hl
  holders := by
    have hnn : ∀ a, 0 ≤ (b.holding a).raw := fun a => by
      by_cases ha : a = 0
      · rw [ha]
        exact h0
      · rw [h.length a ha]
        exact Int.natCast_nonneg _
    have hgain := holderChange_gain (hnn dst)
    have hraw : (fun a => ((b.transfer src dst id).holding a).raw)
        = update (fun a => ((if src = 0 then b.holding else
          update b.holding src ((b.holding src).lose id)) a).raw) dst ((b.holding dst).raw + 1) :=
      comp_update Holding.raw _ _ _
    rw [hraw, holdersOf_update]
    show b.holders + _ + _ = _
    by_cases hs : src = 0
    · simp only [if_pos hs]
      rw [h.holders, hgain]
      omega
    · have hid : id ∈ (b.holding src).nouns := (h.mem src hs id).mpr hsrc
      have hpos : 1 ≤ (b.holding src).raw := by
        rw [h.length src hs]
        have := List.length_pos_of_mem hid
        omega
      have hd : dst ≠ src := fun e => hne (e.trans_ne hs) e.symm
      have hraw' : (fun a => (update b.holding src ((b.holding src).lose id) a).raw)
          = update (fun a => (b.holding a).raw) src ((b.holding src).raw - 1) :=
        comp_update Holding.raw _ _ _
      simp only [if_neg hs]
      rw [hraw', holdersOf_update, update_of_ne hd, h.holders, hgain, holderChange_lose hpos]

/-! ## a run -/

/-- the store after some events: its books read the owners, honestly if nobody kept a token -/
structure Reading (vs : List TokenEvent) (o : Ownership) (s : Store) : Prop where
  keyed : s.Keyed
  reads : s.books.Reads vs o
  honest : (∀ a, a ≠ 0 → selfs a vs = 0) → s.books.Honest o

theorem Reading.empty : Reading [] .none .empty where
  keyed := ⟨fun _ _ h => (nomatch h), fun _ _ h => (nomatch h)⟩
  reads := ⟨rfl, fun _ h => absurd rfl h, rfl, fun _ _ => rfl, fun _ => rfl⟩
  honest := fun _ =>
    { nodup := fun _ _ => List.nodup_nil
      mem := fun a ha id => ⟨fun h => (nomatch h), fun h => absurd h.symm ha⟩
      length := fun _ _ => rfl
      holders := by
        show 0 = ((univ.filter fun a : Address => (0 : Int) < 0).card : Int)
        simp }

theorem Reading.step {vs : List TokenEvent} {o o' : Ownership} {s : Store} (h : Reading vs o s)
    {v : TokenEvent} (hv : Ownership.Step o v o') {V : Type} (e : Event V) :
    Reading (vs ++ [v]) o' (handleTokenEvent s e v) := by
  obtain ⟨hk, hb⟩ := handleTokenEvent_books h.keyed e v
  cases hv with
  | transfer src dst id hsrc =>
    have hb' : (handleTokenEvent s e (.transfer src dst id)).books = s.books.transfer src dst id := hb
    refine ⟨hk, hb' ▸ h.reads.transfer src dst id, fun hs => ?_⟩
    rw [hb']
    simp only [selfs_transfer] at hs
    have hpos : 0 ≤ (s.books.holding 0).raw := by
      rw [h.reads.zero]
      exact Int.natCast_nonneg _
    refine (h.honest fun a ha => ?_).transfer hpos hsrc fun hd e => ?_
    · have := hs a ha
      omega
    · have := hs dst hd
      rw [if_pos ⟨e, rfl⟩] at this
      omega
  | other v hm =>
    rw [hm] at hb
    refine ⟨hk, ?_, fun hs => ?_⟩
    · rw [hb]
      obtain ⟨h1, h2, h3, h4, h5⟩ := h.reads
      exact ⟨h1, h2, (burns_other vs hm).symm ▸ h3, fun a ha => (selfs_other a vs hm).symm ▸ h4 a ha, h5⟩
    · rw [hb]
      exact h.honest fun a ha => (selfs_other a vs hm) ▸ hs a ha

/-- the store that the subgraph builds from the events -/
def indexed (es : List (Event TokenEvent)) : Store :=
  es.foldl (fun s e => handleTokenEvent s e e.params) .empty

theorem Chronicled.reading {t : UNounsToken} (h : Chronicled t) {es : List (Event TokenEvent)}
    (hes : es.map Event.params = t.logs) : Reading t.logs t.ownership (indexed es) := by
  rw [← hes]
  have ht : Told Ownership.Step .none (es.map Event.params) t.ownership := hes ▸ h
  refine Told.read (R := fun ws o s => Reading (ws.map Event.params) o s) Reading.empty ?_ ht.of_map
  intro ws o e o' s hr hv
  rw [List.map_append]
  exact hr.step hv e

/-- the subgraph has the owners of the token, for every account but the zero address -/
structure Mirrored (s : Store) (t : UNounsToken) : Prop where
  balance : ∀ a, a ≠ 0 → (s.account a).tokenBalance = t.balances a
  nodup : ∀ a, a ≠ 0 → (s.account a).nouns.Nodup
  nouns : ∀ a, a ≠ 0 → ∀ id, id ∈ (s.account a).nouns ↔ t.owners id = a
  owner : ∀ id, t.owners id ≠ 0 → (s.nouns id).map Noun.owner = some (t.owners id)
  holders : s.getGovernanceEntity.currentTokenHolders = #{a : Address | a ≠ 0 ∧ 0 < t.balances a}

theorem Reading.mirrored_iff {vs : List TokenEvent} {t : UNounsToken} {s : Store}
    (h : Reading vs t.ownership s) : Mirrored s t ↔ ∀ v ∈ vs, Plain v := by
  rw [forall_plain_iff]
  have hcount : (∀ a, a ≠ 0 → selfs a vs = 0) → s.getGovernanceEntity.currentTokenHolders
      = #{a : Address | a ≠ 0 ∧ 0 < t.balances a} + mark (burns vs) := by
    intro hs
    have hh : s.getGovernanceEntity.currentTokenHolders = holdersOf fun a => (s.books.holding a).raw :=
      (h.honest hs).holders
    rw [hh, holdersOf_eq, h.reads.zero]
    have e : (univ.filter fun a : Address => a ≠ 0 ∧ 0 < (s.books.holding a).raw)
        = univ.filter fun a => a ≠ 0 ∧ 0 < t.balances a := by
      refine filter_congr fun a _ => and_congr_right fun ha => ?_
      rw [h.reads.raw a ha, hs a ha]
      show 0 < (t.balances a : Int) + (0 : Nat) ↔ _
      omega
    rw [e]
  constructor
  · intro hm
    have hs : ∀ a, a ≠ 0 → selfs a vs = 0 := by
      intro a ha
      have h1 : (s.books.holding a).balance = t.balances a := hm.balance a ha
      have h2 : (s.books.holding a).raw = t.balances a + selfs a vs := h.reads.raw a ha
      rw [h.reads.balance] at h1
      omega
    have h0 := hcount hs
    rw [hm.holders] at h0
    unfold mark at h0
    split_ifs at h0 <;> exact ⟨by omega, hs⟩
  · rintro ⟨h0, hs⟩
    have hh := h.honest hs
    refine ⟨fun a ha => ?_, hh.nodup, hh.mem, h.reads.owner, ?_⟩
    · have h1 : (s.account a).tokenBalance = (s.books.holding a).raw := h.reads.balance a
      have h2 : (s.books.holding a).raw = t.balances a + selfs a vs := h.reads.raw a ha
      rw [h1, h2, hs a ha]
      omega
    · rw [hcount hs, h0]
      exact add_zero _

/-- **Does the subgraph mirror the owners?**  In every run of the token, whatever the blocks and
transactions that the events come with, it does if and only if no token has gone to the zero address
and none from an account to itself.  A token that goes to the zero address makes it a holder, and an
account that sends a token to itself is loaded twice, so that it has one more. -/
theorem indexed_mirrored_iff (P : Platform) (deployer uNoundersDAO minter descriptor seeder
    proxyRegistry : Address) (e : Env) (ts : List (Tx Env TokenCall))
    (hch : (e :: ts.map Tx.env).IsChain (· ≤ ·)) :
    ∀ o ∈ observations (TokenCall.code P) e ts
      ⟨[], UNounsToken.deploy deployer uNoundersDAO minter descriptor seeder proxyRegistry⟩,
      ∀ es : List (Event TokenEvent), es.map Event.params = o.2.now.logs →
        (Mirrored (indexed es) o.2.now ↔ ∀ v ∈ o.2.now.logs, Plain v) := by
  intro o ho es hes
  have hr := observations_timed (fun env (op : TokenCall) (c : TokenConfig) => op.follows P env c) hch ho
  have ht : Chronicled o.2.now := runs_told hr (deploy_chronicled _ _ _ _ _ _)
  exact (Chronicled.reading ht hes).mirrored_iff

/-- an event of block 7 -/
def ofBlock7 (v : TokenEvent) : Event TokenEvent := ⟨v, ⟨7, 70⟩, 0⟩

/-- after a mint of two tokens the subgraph mirrors the owners -/
theorem indexed_mirrored_iff_run :
    let last := (runTxs (TokenCall.code (.plain 10 11 4)) mintTxs
      ⟨[], UNounsToken.deploy 1 2 3 4 5 6⟩).2
    last.past.length = 1 ∧ last.now.owners 0 = 2 ∧ last.now.owners 1 = 4 ∧
      Mirrored (indexed (last.now.logs.map ofBlock7)) last.now :=
  ⟨by decide +kernel, by decide +kernel, by decide +kernel,
    (indexed_mirrored_iff (.plain 10 11 4) 1 2 3 4 5 6 (.block 6 60) mintTxs
      (by simp [mintTxs, Env.le_def, Env.block]) _ (final_mem_observations _ _ _ _) _
      (by simp [ofBlock7, Function.comp_def])).mpr (by decide +kernel)⟩

/-- then the unounders send their token to themselves -/
def keepTxs : List (Tx Env TokenCall) :=
  mintTxs ++ [⟨.block 8 80, .mk ⟨.of 2 0, .transferFrom 2 2 0⟩ .nil⟩]

/-- **Now they have it twice.** -/
theorem not_indexed_mirrored :
    let last := (runTxs (TokenCall.code (.plain 10 11 4)) keepTxs
      ⟨[], UNounsToken.deploy 1 2 3 4 5 6⟩).2
    let store := indexed (last.now.logs.map ofBlock7)
    last.past.length = 2 ∧ last.now.owners 0 = 2 ∧ last.now.balances 2 = 1 ∧
      (store.account 2).tokenBalance = 2 ∧ (store.account 2).nouns = [0, 0] ∧
      ¬ Mirrored store last.now := by
  intro last store
  have hb : last.now.balances 2 = 1 := by decide +kernel
  have hs : (store.account 2).tokenBalance = 2 := by decide +kernel
  refine ⟨by decide +kernel, by decide +kernel, hb, hs, by decide +kernel, fun h => ?_⟩
  have h2 := h.balance 2 (by decide)
  rw [hb, hs] at h2
  exact absurd h2 (by decide)

end UNouns.Subgraph
