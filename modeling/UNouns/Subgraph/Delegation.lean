import UNouns.Subgraph.Ownership
import UNouns.Subgraph.Rolls
import UNouns.Token.Dealings

/-!
# Does the subgraph mirror the delegates?

The token remembers the delegate of an account that holds nothing.  The subgraph forgets it when the
last token goes, and takes an account for its own delegate when the first one comes.

* `Dealings`             what the events so far tell, and whom an account has named since;
* `Dealings.Fair`        an event that the mapping gets right;
* `Faithful`             the roll has the delegates, step by step;
* `delegation_indexed`   so after fair events it has them all.
-/

set_option linter.unusedVariables false

namespace UNouns.Subgraph
open Function Relation Reentrant Journal UNounsToken

/-! ## what the events tell -/

/-- `named` is whom an account has delegated to since it last sent or got a token -/
structure Dealings where
  owners : Nat → Address
  balances : Address → Int
  delegates : Address → Address
  named : Address → Option Address

def Dealings.none : Dealings := ⟨fun _ => 0, fun _ => 0, id, fun _ => .none⟩

def Dealings.drop (d : Dealings) (src : Address) (id : Nat) : Dealings where
  owners := update d.owners id 0
  balances := fun a => d.balances a - (if src = a ∧ a ≠ 0 then 1 else 0)
  delegates := d.delegates
  named := update d.named src .none

def Dealings.take (d : Dealings) (dst : Address) (id : Nat) : Dealings where
  owners := update d.owners id dst
  balances := fun a => d.balances a + (if dst = a ∧ a ≠ 0 then 1 else 0)
  delegates := d.delegates
  named := update d.named dst .none

def Dealings.after (d : Dealings) : TokenEvent → Dealings
  | .transfer src dst id => (d.drop src id).take dst id
  | .delegateChanged a _ c => { d with
      delegates := update d.delegates a (if c = 0 then a else c)
      named := update d.named a (some c) }
  | _ => d

def dealings (vs : List TokenEvent) : Dealings := vs.foldl .after .none

/-! ## fair events -/

/-- a new token that goes on to its receiver at once -/
def passesOn (src dst : Address) (id : Nat) (rest : List TokenEvent) : Bool :=
  src = 0 ∧ (rest.head?.bind TokenEvent.moved).any fun m => m.1 = dst ∧ m.2.2 = id

/-- an event that the mapping gets right: nobody sends a token to itself, who gets a token has one or
is its own delegate (or passes it on and has named nobody else), and who delegates has no tokens or
another delegate -/
def Dealings.Fair (d : Dealings) (v : TokenEvent) (rest : List TokenEvent) : Prop :=
  match v with
  | .transfer src dst id => dst ≠ 0 → src ≠ dst ∧ (0 < d.balances dst ∨
      if passesOn src dst id rest then d.named dst = .none ∨ d.named dst = some dst
      else d.delegates dst = dst)
  | .delegateChanged a _ c => c ≠ 0 ∧ (d.balances a = 0 ∨ c ≠ d.delegates a)
  | _ => True

instance (d : Dealings) (v : TokenEvent) (rest : List TokenEvent) : Decidable (d.Fair v rest) :=
  match v with
  | .transfer src dst id => inferInstanceAs (Decidable (dst ≠ 0 → src ≠ dst ∧ (0 < d.balances dst ∨
      if passesOn src dst id rest then d.named dst = .none ∨ d.named dst = some dst
      else d.delegates dst = dst)))
  | .delegateChanged a _ c => inferInstanceAs (Decidable (c ≠ 0 ∧ (d.balances a = 0 ∨ c ≠ d.delegates a)))
  | .approval .. | .approvalForAll .. | .delegateVotesChanged .. | .nounCreated .. | .nounBurned ..
  | .noundersDAOUpdated .. | .minterUpdated .. | .minterLocked | .descriptorUpdated ..
  | .descriptorLocked | .seederUpdated .. | .seederLocked | .ownershipTransferred .. => isTrue trivial

/-- all of them -/
def Fairly : Dealings → List TokenEvent → Prop
  | _, [] => True
  | d, v :: vs => d.Fair v vs ∧ Fairly (d.after v) vs

instance : (d : Dealings) → (vs : List TokenEvent) → Decidable (Fairly d vs)
  | _, [] => isTrue trivial
  | d, v :: vs => @instDecidableAnd _ _ _ (instDecidableFairly (d.after v) vs)

theorem Fairly.suffix {d : Dealings} {vs ws : List TokenEvent} (h : Fairly d (vs ++ ws)) :
    Fairly (vs.foldl .after d) ws := by
  induction vs generalizing d with
  | nil => exact h
  | cons v vs ih => exact ih h.2

/-! ## the roll of the delegates -/

/-- the roll has the delegates; of an account without tokens it has whom the account has named -/
structure Faithful (d : Dealings) (r : Roll) : Prop where
  nobody : d.balances 0 = 0
  zero : r.delegate 0 = .none ∨ r.delegate 0 = some 0
  held : ∀ a, 0 < d.balances a → r.delegate a = some (d.delegates a)
  bare : ∀ a, a ≠ 0 → d.balances a = 0 → r.delegate a = d.named a
  named : ∀ a c, d.named a = some c → d.delegates a = c
  nonneg : ∀ a, 0 ≤ d.balances a
  nodup : ∀ c, c ≠ 0 → (r.nouns c).Nodup
  mem : ∀ c, c ≠ 0 → ∀ id, id ∈ r.nouns c ↔ d.owners id ≠ 0 ∧ d.delegates (d.owners id) = c

/-- what an account loses leaves the delegates of the others alone -/
theorem Roll.lose_delegate (r : Roll) {src a : Address} (n : Int) (id : Nat) (ha : a ≠ src) :
    (r.lose src n id).delegate a = r.delegate a := by
  have e : (r.lose src n id).delegate a = (r.without (r.delegate src) id).delegate a :=
    update_of_ne ha _ _
  rw [e]
  unfold Roll.without
  cases r.delegate src <;> rfl

theorem Faithful.none : Faithful .none Store.empty.roll where
  nobody := rfl
  zero := .inl rfl
  held := fun a h => absurd h (Int.lt_irrefl 0)
  bare := fun a _ _ => rfl
  named := fun a c h => nomatch h
  nonneg := fun a => Int.le_refl 0
  nodup := fun c _ => List.nodup_nil
  mem := fun c _ id => ⟨fun h => (nomatch h), fun h => absurd rfl h.1⟩

section
variable {d : Dealings} {r : Roll}

/-- nobody's token is dropped -/
theorem Faithful.drop_zero (h : Faithful d r) {id : Nat} (hid : d.owners id = 0) :
    Faithful (d.drop 0 id) r := by
  have howners : (d.drop 0 id).owners = d.owners := by
    show update d.owners id 0 = _
    rw [← hid, update_eq_self]
  have hbalances : (d.drop 0 id).balances = d.balances := by
    funext a
    have h0 : ¬ (0 = a ∧ a ≠ 0) := fun h => h.2 h.1.symm
    show d.balances a - (if 0 = a ∧ a ≠ 0 then 1 else 0) = _
    rw [if_neg h0, sub_zero]
  have hnamed : ∀ a, a ≠ 0 → (d.drop 0 id).named a = d.named a := fun a ha => update_of_ne ha _ _
  refine ⟨by rw [hbalances, h.nobody], h.zero, by rw [hbalances]; exact h.held,
    fun a ha hb => (h.bare a ha (hbalances ▸ hb)).trans (hnamed a ha).symm, fun a c hc => ?_,
    by rw [hbalances]; exact h.nonneg, h.nodup, by rw [howners]; exact h.mem⟩
  by_cases ha : a = 0
  · subst ha
    have hc' : update d.named 0 Option.none 0 = some c := hc
    rw [update_self] at hc'
    cases hc'
  · exact h.named a c ((hnamed a ha).symm.trans hc)

/-- the zero address gets a token -/
theorem Faithful.take_zero (h : Faithful d r) {id : Nat} (hid : d.owners id = 0) (raw : Int) :
    Faithful (d.take 0 id) (r.gain 0 (r.delegate 0) raw id) := by
  have hdrop := h.drop_zero hid
  have hbalances : (d.take 0 id).balances = d.balances := by
    funext a
    have h0 : ¬ (0 = a ∧ a ≠ 0) := fun h => h.2 h.1.symm
    show d.balances a + (if 0 = a ∧ a ≠ 0 then 1 else 0) = _
    rw [if_neg h0, add_zero]
  have hzero : (r.delegate 0).getD 0 = 0 := by
    rcases h.zero with h0 | h0 <;> rw [h0] <;> rfl
  have hnouns : ∀ c, c ≠ 0 → (r.gain 0 (r.delegate 0) raw id).nouns c = r.nouns c := by
    intro c hc
    show update r.nouns ((r.delegate 0).getD 0) _ c = _
    rw [hzero, update_of_ne hc]
  have hdelegate : ∀ a, a ≠ 0 → (r.gain 0 (r.delegate 0) raw id).delegate a = r.delegate a :=
    fun a ha => update_of_ne ha _ _
  have hpos : ∀ a, 0 < d.balances a → a ≠ 0 := by
    rintro _ hb rfl
    rw [h.nobody] at hb
    exact absurd hb (Int.lt_irrefl 0)
  refine ⟨by rw [hbalances, h.nobody], ?_, fun a hb => ?_, fun a ha hb => ?_, hdrop.named,
    by rw [hbalances]; exact h.nonneg, fun c hc => by rw [hnouns c hc]; exact h.nodup c hc,
    fun c hc => by rw [hnouns c hc]; exact hdrop.mem c hc⟩
  · have h0 : (r.gain 0 (r.delegate 0) raw id).delegate 0 = if ¬ Emptied raw (raw + 1) ∧
        Filled raw (raw + 1) then some 0 else r.delegate 0 := by
      unfold Roll.gain
      dsimp only
      rw [update_self]
    rw [h0]
    split_ifs
    · exact .inr rfl
    · exact h.zero
  · rw [hbalances] at hb
    rw [hdelegate a (hpos a hb)]
    exact h.held a hb
  · rw [hdelegate a ha, h.bare a ha (hbalances ▸ hb)]
    exact (update_of_ne ha _ _).symm

/-- an account loses a token -/
theorem Faithful.drop (h : Faithful d r) {src : Address} (hsrc : src ≠ 0) {id : Nat}
    (hid : d.owners id = src) (hpos : 0 < d.balances src) :
    Faithful (d.drop src id) (r.lose src (d.balances src) id) := by
  have hheld := h.held src hpos
  have hroll : r.lose src (d.balances src) id = ⟨update r.delegate src
      (if Emptied (d.balances src) (d.balances src - 1) then .none else r.delegate src),
      update r.nouns (d.delegates src) ((r.nouns (d.delegates src)).filter (· ≠ id))⟩ := by
    unfold Roll.lose Roll.without
    rw [hheld]
  have hself : (d.drop src id).balances src = d.balances src - 1 := by
    show d.balances src - (if src = src ∧ src ≠ 0 then 1 else 0) = _
    rw [if_pos ⟨rfl, hsrc⟩]
  have hother : ∀ a, a ≠ src → (d.drop src id).balances a = d.balances a := fun a ha => by
    show d.balances a - (if src = a ∧ a ≠ 0 then 1 else 0) = _
    rw [if_neg fun h => ha h.1.symm, sub_zero]
  rw [hroll]
  refine ⟨(hother 0 hsrc.symm).trans h.nobody, ?_, fun a hb => ?_, fun a ha hb => ?_, fun a c hc => ?_,
    fun a => ?_, fun c hc => ?_, fun c hc n => ?_⟩
  · show update r.delegate src _ 0 = _ ∨ update r.delegate src _ 0 = _
    rw [update_of_ne hsrc.symm]
    exact h.zero
  · by_cases e : a = src
    · subst e
      rw [hself] at hb
      have hne : ¬ Emptied (d.balances a) (d.balances a - 1) := fun he => by
        have := he.1
        omega
      show update r.delegate a _ a = _
      rw [update_self, if_neg hne, hheld]
      rfl
    · rw [hother a e] at hb
      exact (update_of_ne e _ _).trans (h.held a hb)
  · by_cases e : a = src
    · subst e
      rw [hself] at hb
      show update r.delegate a _ a = update d.named a .none a
      rw [update_self, update_self, if_pos ⟨hb, hpos⟩]
    · rw [hother a e] at hb
      show update r.delegate src _ a = update d.named src .none a
      rw [update_of_ne e, update_of_ne e]
      exact h.bare a ha hb
  · have hc' : update d.named src .none a = some c := hc
    by_cases e : a = src
    · rw [e, update_self] at hc'
      cases hc'
    · rw [update_of_ne e] at hc'
      exact h.named a c hc'
  · by_cases e : a = src
    · subst e
      rw [hself]
      omega
    · rw [hother a e]
      exact h.nonneg a
  · show (update r.nouns _ _ c).Nodup
    by_cases e : c = d.delegates src
    · rw [e, update_self]
      exact (e ▸ h.nodup c hc).filter _
    · rw [update_of_ne e]
      exact h.nodup c hc
  · have hm := h.mem c hc n
    show n ∈ update r.nouns _ _ c ↔ update d.owners id 0 n ≠ 0 ∧ d.delegates (update d.owners id 0 n) = c
    by_cases en : n = id
    · subst en
      rw [update_self]
      have hnot : n ∉ update r.nouns (d.delegates src)
          ((r.nouns (d.delegates src)).filter (· ≠ n)) c := by
        by_cases e : c = d.delegates src
        · rw [e, update_self]
          simp
        · rw [update_of_ne e, hm, hid]
          exact fun h => e h.2.symm
      exact ⟨fun h => absurd h hnot, fun h => absurd rfl h.1⟩
    · rw [update_of_ne en, ← hm]
      by_cases e : c = d.delegates src
      · rw [e, update_self]
        simp [en]
      · rw [update_of_ne e]

/-- an account gets a token that is nobody's -/
theorem Faithful.take (h : Faithful d r) {dst : Address} (hdst : dst ≠ 0) {id : Nat}
    (hid : d.owners id = 0) (hready : 0 < d.balances dst ∨ d.delegates dst = dst) :
    Faithful (d.take dst id) (r.gain dst (r.delegate dst) (d.balances dst) id) := by
  have hnonneg := h.nonneg dst
  have hrep : (r.delegate dst).getD dst = d.delegates dst := by
    by_cases hb : 0 < d.balances dst
    · rw [h.held dst hb]
      rfl
    · have hself := hready.resolve_left hb
      rw [h.bare dst hdst (by omega)]
      cases hn : d.named dst with
      | none => exact hself.symm
      | some c => exact (h.named dst c hn).symm
  have hnew : (if ¬ Emptied (d.balances dst) (d.balances dst + 1) ∧
      Filled (d.balances dst) (d.balances dst + 1) then some dst else r.delegate dst)
      = some (d.delegates dst) := by
    by_cases hb : 0 < d.balances dst
    · have hf : ¬ Filled (d.balances dst) (d.balances dst + 1) := fun hf => by
        have := hf.2
        omega
      rw [if_neg fun h => hf h.2, h.held dst hb]
    · have hf : ¬ Emptied (d.balances dst) (d.balances dst + 1) := fun he => hb he.2
      rw [if_pos ⟨hf, by omega, by omega⟩, hready.resolve_left hb]
  have hroll : r.gain dst (r.delegate dst) (d.balances dst) id
      = ⟨update r.delegate dst (some (d.delegates dst)),
        update r.nouns (d.delegates dst) (r.nouns (d.delegates dst) ++ [id])⟩ := by
    unfold Roll.gain Roll.plus
    rw [hrep, hnew]
  have hother : ∀ a, a ≠ dst → (d.take dst id).balances a = d.balances a := fun a ha => by
    show d.balances a + (if dst = a ∧ a ≠ 0 then 1 else 0) = _
    rw [if_neg fun h => ha h.1.symm, add_zero]
  have hself : (d.take dst id).balances dst = d.balances dst + 1 := by
    show d.balances dst + (if dst = dst ∧ dst ≠ 0 then 1 else 0) = _
    rw [if_pos ⟨rfl, hdst⟩]
  rw [hroll]
  refine ⟨(hother 0 hdst.symm).trans h.nobody, ?_, fun a hb => ?_, fun a ha hb => ?_, fun a c hc => ?_,
    fun a => ?_, fun c hc => ?_, fun c hc n => ?_⟩
  · show update r.delegate dst _ 0 = _ ∨ update r.delegate dst _ 0 = _
    rw [update_of_ne hdst.symm]
    exact h.zero
  · by_cases e : a = dst
    · rw [e]
      exact update_self _ _ _
    · rw [hother a e] at hb
      exact (update_of_ne e _ _).trans (h.held a hb)
  · by_cases e : a = dst
    · rw [e, hself] at hb
      omega
    · rw [hother a e] at hb
      show update r.delegate dst _ a = update d.named dst .none a
      rw [update_of_ne e, update_of_ne e]
      exact h.bare a ha hb
  · have hc' : update d.named dst .none a = some c := hc
    by_cases e : a = dst
    · rw [e, update_self] at hc'
      cases hc'
    · rw [update_of_ne e] at hc'
      exact h.named a c hc'
  · by_cases e : a = dst
    · rw [e, hself]
      omega
    · rw [hother a e]
      exact h.nonneg a
  · show (update r.nouns _ _ c).Nodup
    by_cases e : c = d.delegates dst
    · have hnot : id ∉ r.nouns c := fun hm => ((h.mem c hc id).mp hm).1 hid
      rw [← e, update_self]
      exact List.nodup_append.mpr ⟨h.nodup c hc, by simp, by grind⟩
    · rw [update_of_ne e]
      exact h.nodup c hc
  · have hm := h.mem c hc n
    show n ∈ update r.nouns _ _ c
      ↔ update d.owners id dst n ≠ 0 ∧ d.delegates (update d.owners id dst n) = c
    by_cases en : n = id
    · have hnot : id ∉ r.nouns c := fun hm => ((h.mem c hc id).mp hm).1 hid
      rw [en, update_self]
      by_cases e : c = d.delegates dst
      · rw [← e, update_self]
        simp [hdst]
      · rw [update_of_ne e]
        exact ⟨fun h => absurd h hnot, fun h => absurd h.2.symm e⟩
    · rw [update_of_ne en, ← hm]
      by_cases e : c = d.delegates dst
      · rw [← e, update_self]
        simp [en]
      · rw [update_of_ne e]

/-- a new token passes through the account of the creator -/
theorem Faithful.pass (h : Faithful d r) {c : Address} (hc : c ≠ 0) {id : Nat} (hid : d.owners id = 0)
    (hready : 0 < d.balances c ∨ d.named c = .none ∨ d.named c = some c) :
    Faithful ((d.take c id).drop c id)
      ((r.gain c (r.delegate c) (d.balances c) id).lose c (d.balances c + 1) id) := by
  by_cases hb : 0 < d.balances c
  · have hself : (d.take c id).balances c = d.balances c + 1 := by
      show d.balances c + (if c = c ∧ c ≠ 0 then 1 else 0) = _
      rw [if_pos ⟨rfl, hc⟩]
    rw [← hself]
    exact (h.take hc hid (.inl hb)).drop hc (update_self _ _ _) (by omega)
  have hb0 : d.balances c = 0 := by
    have := h.nonneg c
    omega
  have hrep : (r.delegate c).getD c = c := by
    rw [h.bare c hc hb0]
    rcases hready.resolve_left hb with hn | hn <;> rw [hn] <;> rfl
  have hnot : id ∉ r.nouns c := fun hm => ((h.mem c hc id).mp hm).1 hid
  have hroll : (r.gain c (r.delegate c) (d.balances c) id).lose c (d.balances c + 1) id
      = ⟨update r.delegate c .none, r.nouns⟩ := by
    have hfirst : r.gain c (r.delegate c) (d.balances c) id
        = ⟨update r.delegate c (some c), update r.nouns c (r.nouns c ++ [id])⟩ := by
      unfold Roll.gain Roll.plus
      rw [hrep, hb0, if_pos ⟨fun he => absurd he.2 (by decide), by decide, rfl⟩]
    have hfilter : (r.nouns c ++ [id]).filter (· ≠ id) = r.nouns c := by
      rw [List.filter_append, List.filter_eq_self.mpr fun n hn => by grind]
      simp
    rw [hfirst, hb0]
    unfold Roll.lose Roll.without
    simp only [update_self, update_idem, hfilter, update_eq_self]
    rw [if_pos ⟨rfl, by decide⟩]
  have howners : ((d.take c id).drop c id).owners = d.owners := by
    show update (update d.owners id c) id 0 = _
    rw [update_idem, ← hid, update_eq_self]
  have hbalances : ((d.take c id).drop c id).balances = d.balances := by
    funext a
    show d.balances a + (if c = a ∧ a ≠ 0 then 1 else 0) - (if c = a ∧ a ≠ 0 then 1 else 0) = _
    omega
  have hnamed : ((d.take c id).drop c id).named = update d.named c .none := update_idem _ _ _
  rw [hroll]
  refine ⟨by rw [hbalances, h.nobody], ?_, fun a ha => ?_, fun a ha hb => ?_, fun a b hab => ?_,
    by rw [hbalances]; exact h.nonneg, h.nodup, by rw [howners]; exact h.mem⟩
  · show update r.delegate c .none 0 = _ ∨ update r.delegate c .none 0 = _
    rw [update_of_ne hc.symm]
    exact h.zero
  · rw [hbalances] at ha
    have e : a ≠ c := by
      rintro rfl
      exact hb ha
    exact (update_of_ne e _ _).trans (h.held a ha)
  · rw [hbalances] at hb
    rw [hnamed]
    show update r.delegate c .none a = _
    by_cases e : a = c
    · rw [e, update_self, update_self]
    · rw [update_of_ne e, update_of_ne e]
      exact h.bare a ha hb
  · rw [hnamed] at hab
    by_cases e : a = c
    · rw [e, update_self] at hab
      cases hab
    · rw [update_of_ne e] at hab
      exact h.named a b hab

/-- an account names a delegate -/
theorem Faithful.name (h : Faithful d r) {a c : Address} (ha : a ≠ 0) (hc : c ≠ 0)
    {tokens : List Nat} (hnodup : tokens.Nodup) (hmem : ∀ id, id ∈ tokens ↔ d.owners id = a)
    (hlength : d.balances a = tokens.length) (hfair : d.balances a = 0 ∨ c ≠ d.delegates a) :
    Faithful { d with delegates := update d.delegates a c, named := update d.named a (some c) }
      (r.redelegate tokens a (d.delegates a) c) := by
  have hd : (r.redelegate tokens a (d.delegates a) c).delegate = update r.delegate a (some c) := rfl
  have htokens : d.balances a = 0 → tokens = [] := fun hb => by
    refine List.length_eq_zero_iff.mp ?_
    omega
  have hnew : (r.redelegate tokens a (d.delegates a) c).nouns c = r.nouns c ++ tokens :=
    update_self _ _ _
  have hold : ∀ {x : Address}, x ≠ c → (r.redelegate tokens a (d.delegates a) c).nouns x
      = if x = d.delegates a then (r.nouns x).filter fun n => !tokens.contains n else r.nouns x := by
    intro x hx
    have h1 : (r.redelegate tokens a (d.delegates a) c).nouns x = update r.nouns (d.delegates a)
        ((r.nouns (d.delegates a)).filter fun n => !tokens.contains n) x := update_of_ne hx _ _
    rw [h1]
    split_ifs with e
    · rw [e, update_self]
    · exact update_of_ne e _ _
  have hnone : d.balances a = 0 → ∀ x, (r.redelegate tokens a (d.delegates a) c).nouns x = r.nouns x := by
    intro hb x
    by_cases ex : x = c
    · rw [ex, hnew, htokens hb, List.append_nil]
    · rw [hold ex, htokens hb]
      simp
  refine ⟨h.nobody, ?_, fun b hb => ?_, fun b hb0 hb => ?_, fun b x hx => ?_, h.nonneg,
    fun x hx => ?_, fun x hx id => ?_⟩
  · rw [hd, update_of_ne ha.symm]
    exact h.zero
  · show _ = some (update d.delegates a c b)
    rw [hd]
    by_cases e : b = a
    · rw [e, update_self, update_self]
    · rw [update_of_ne e, update_of_ne e]
      exact h.held b hb
  · show _ = update d.named a (some c) b
    rw [hd]
    by_cases e : b = a
    · rw [e, update_self, update_self]
    · rw [update_of_ne e, update_of_ne e]
      exact h.bare b hb0 hb
  · have hx' : update d.named a (some c) b = some x := hx
    show update d.delegates a c b = x
    by_cases e : b = a
    · rw [e, update_self] at hx' ⊢
      exact Option.some.inj hx'
    · rw [update_of_ne e] at hx' ⊢
      exact h.named b x hx'
  · by_cases hb : d.balances a = 0
    · rw [hnone hb x]
      exact h.nodup x hx
    have hne := hfair.resolve_left hb
    by_cases ex : x = c
    · rw [ex, hnew]
      refine List.nodup_append.mpr ⟨h.nodup c hc, hnodup, fun n hn m hm e => hne ?_⟩
      rw [← ((h.mem c hc n).mp hn).2, e, (hmem m).mp hm]
    · rw [hold ex]
      split_ifs with e
      · exact (h.nodup x hx).filter _
      · exact h.nodup x hx
  · have hm := h.mem x hx id
    show _ ↔ d.owners id ≠ 0 ∧ update d.delegates a c (d.owners id) = x
    by_cases eo : d.owners id = a
    · have hpos : d.balances a ≠ 0 := fun hb => by
        rw [htokens hb] at hmem
        exact absurd ((hmem id).mpr eo) List.not_mem_nil
      have hne := hfair.resolve_left hpos
      rw [eo, update_self]
      by_cases ex : x = c
      · rw [ex, hnew, List.mem_append]
        exact ⟨fun _ => ⟨ha, rfl⟩, fun _ => .inr ((hmem id).mpr eo)⟩
      · rw [hold ex]
        refine ⟨fun hin => ?_, fun h => absurd h.2.symm ex⟩
        split_ifs at hin with e
        · rw [List.mem_filter] at hin
          simp [(hmem id).mpr eo] at hin
        · rw [hm, eo] at hin
          exact absurd hin.2.symm e
    · rw [update_of_ne eo, ← hm]
      have hnot : id ∉ tokens := fun h => eo ((hmem id).mp h)
      by_cases ex : x = c
      · rw [ex, hnew, List.mem_append]
        exact ⟨fun h => h.resolve_right hnot, .inl⟩
      · rw [hold ex]
        split_ifs with e
        · rw [List.mem_filter]
          simp [hnot]
        · exact Iff.rfl

end

/-! ## reading events -/

theorem indexed_snoc (es : List (Event TokenEvent)) (e : Event TokenEvent) :
    indexed (es ++ [e]) = handleTokenEvent (indexed es) e e.params := by
  unfold indexed
  rw [List.foldl_append]
  rfl

/-- the last event -/
theorem map_eq_snoc {es : List (Event TokenEvent)} {vs : List TokenEvent} {v : TokenEvent}
    (h : es.map Event.params = vs ++ [v]) :
    ∃ fs e, es = fs ++ [e] ∧ fs.map Event.params = vs ∧ e.params = v := by
  obtain ⟨fs, gs, rfl, h1, h2⟩ := List.map_eq_append_iff.mp h
  obtain ⟨e, rfl, he⟩ := List.map_eq_singleton_iff.mp h2
  exact ⟨fs, e, rfl, h1, he⟩

theorem dealings_snoc (vs : List TokenEvent) (v : TokenEvent) :
    dealings (vs ++ [v]) = (dealings vs).after v := by
  unfold dealings
  rw [List.foldl_append]
  rfl

/-- the dealings have the owners that the events tell -/
theorem dealings_owners {vs : List TokenEvent} {o : Ownership} (h : Told Ownership.Step .none vs o) :
    (dealings vs).owners = o.owners ∧ (dealings vs).balances = o.balances := by
  induction h with
  | nil => exact ⟨rfl, rfl⟩
  | snoc vs o1 o2 v _ hv ih =>
    rw [dealings_snoc]
    obtain ⟨h1, h2⟩ := ih
    cases hv with
    | transfer src dst id hsrc =>
      refine ⟨?_, ?_⟩
      · show update (update (dealings vs).owners id 0) id dst = update o1.owners id dst
        rw [update_idem, h1]
      · show (fun a => (dealings vs).balances a - _ + _) = _
        rw [h2]
        rfl
    | other v hm =>
      cases v with
      | transfer => cases hm
      | _ => exact ⟨h1, h2⟩

/-- nobody sends a token to itself -/
theorem Fairly.selfs {vs : List TokenEvent} {d : Dealings} (h : Fairly d vs) {a : Address}
    (ha : a ≠ 0) : selfs a vs = 0 := by
  induction vs generalizing d with
  | nil => rfl
  | cons v vs ih =>
    have hv := h.1
    unfold Subgraph.selfs
    rw [List.countP_cons]
    have hnot : ¬ (v.moved.any fun m => m.1 = a ∧ m.2.1 = a) = true := by
      cases v with
      | transfer src dst id =>
        intro hm
        have hm' : src = a ∧ dst = a := by simpa [TokenEvent.moved] using hm
        exact (hv (hm'.2 ▸ ha)).1 (hm'.1.trans hm'.2.symm)
      | _ => exact Bool.false_ne_true
    rw [if_neg hnot]
    exact ih h.2

/-- what else is known of a store that has read some events -/
structure Matched (d : Dealings) (s : Store) : Prop where
  keyed : s.Keyed
  sorted : s.Sorted
  raw : ∀ a, a ≠ 0 → (s.account a).tokenBalanceRaw = d.balances a
  nodup : ∀ a, a ≠ 0 → (s.account a).nouns.Nodup
  mem : ∀ a, a ≠ 0 → ∀ id, id ∈ (s.account a).nouns ↔ d.owners id = a
  length : ∀ a, a ≠ 0 → d.balances a = (s.account a).nouns.length

theorem matched_of_told {vs rest : List TokenEvent} {o : Ownership}
    (ht : Told Ownership.Step .none (vs ++ rest) o) (hf : Fairly .none (vs ++ rest))
    {es : List (Event TokenEvent)} (hes : es.map Event.params = vs) : Matched (dealings vs) (indexed es) := by
  obtain ⟨o', hvs, _⟩ := ht.split
  obtain ⟨howners, hbalances⟩ := dealings_owners hvs
  have hread : Reading (es.map Event.params) o' (indexed es) ∧ (indexed es).Sorted := by
    refine Told.read (R := fun ws o s => Reading (ws.map Event.params) o s ∧ s.Sorted)
      ⟨Reading.empty, fun d x hx => nomatch hx⟩ ?_ (hes ▸ hvs : Told _ _ (es.map Event.params) _).of_map
    intro ws o e o' s hr hv
    rw [List.map_append]
    exact ⟨hr.1.step hv e, (handleTokenEvent_roll hr.1.keyed hr.2 e e.params).1⟩
  obtain ⟨hr, hs⟩ := hread
  rw [hes] at hr
  have hselfs : ∀ a, a ≠ 0 → selfs a vs = 0 := by
    intro a ha
    have h := hf.selfs ha
    unfold selfs at h ⊢
    rw [List.countP_append] at h
    omega
  have hh := hr.honest hselfs
  have hraw : ∀ a, a ≠ 0 → ((indexed es).account a).tokenBalanceRaw = (dealings vs).balances a := by
    intro a ha
    have h := hr.reads.raw a ha
    rw [hselfs a ha] at h
    rw [hbalances]
    exact h.trans (add_zero _)
  exact ⟨hr.keyed, hs, hraw, hh.nodup, fun a ha id => by rw [howners]; exact hh.mem a ha id,
    fun a ha => (hraw a ha).symm.trans (hh.length a ha)⟩

/-- who sends a token has it -/
theorem owner_of_told {vs rest : List TokenEvent} {o : Ownership} {src dst : Address} {id : Nat}
    (ht : Told Ownership.Step .none (vs ++ .transfer src dst id :: rest) o) :
    (dealings vs).owners id = src := by
  obtain ⟨o1, hvs, h⟩ := ht.split
  obtain ⟨o2, hv⟩ := h.head
  rw [(dealings_owners hvs).1]
  cases hv with
  | transfer _ _ _ hsrc => exact hsrc
  | other _ hm => cases hm

/-- the dealings have the delegates that the events tell -/
theorem dealings_delegates {vs : List TokenEvent} {ds : Address → Address} (h : Told Naming id vs ds) :
    (dealings vs).delegates = ds := by
  induction h with
  | nil => rfl
  | snoc vs ds1 ds2 v _ hv ih =>
    rw [dealings_snoc]
    cases hv with
    | delegate a c ha =>
      rw [← ih]
      rfl
    | other v hv =>
      cases v with
      | delegateChanged => cases hv
      | _ => exact ih

/-- who delegates leaves the delegate it had -/
theorem delegate_of_told {vs rest : List TokenEvent} {ds : Address → Address} {a b c : Address}
    (ht : Told Naming id (vs ++ .delegateChanged a b c :: rest) ds) :
    b = (dealings vs).delegates a := by
  obtain ⟨ds1, hvs, h⟩ := ht.split
  obtain ⟨ds2, hv⟩ := h.head
  rw [dealings_delegates hvs]
  cases hv with
  | delegate => rfl
  | other _ hv => cases hv

/-! ## one group -/

section
variable {d : Dealings} {s : Store} {r : Roll}

/-- the balance of the owner of a token -/
theorem Matched.pos (hk : Matched d s) {a : Address} (ha : a ≠ 0) {id : Nat} (hid : d.owners id = a) :
    0 < d.balances a := by
  have := List.length_pos_of_mem ((hk.mem a ha id).mpr hid)
  rw [hk.length a ha]
  omega

theorem Dealings.after_minor {v : TokenEvent} (h : v.Minor) (d : Dealings) : d.after v = d := by
  cases v with
  | transfer => cases h.moved
  | delegateChanged => cases h.delegated
  | _ => rfl

theorem Store.rolled_minor {v : TokenEvent} (h : v.Minor) (s : Store) : s.rolled v = s.roll := by
  cases v with
  | transfer => cases h.moved
  | delegateChanged => cases h.delegated
  | _ => rfl

/-- the second half of a transfer to another account -/
theorem Faithful.arrive {src dst : Address} {id : Nat} {n : Int}
    (h : Faithful (d.drop src id) (r.lose src n id)) (hdst : dst ≠ 0) (hne : src ≠ dst)
    (hready : 0 < d.balances dst ∨ d.delegates dst = dst) :
    Faithful ((d.drop src id).take dst id)
      ((r.lose src n id).gain dst (r.delegate dst) (d.balances dst) id) := by
  have hsame := r.lose_delegate n id (Ne.symm hne)
  have hb : (d.drop src id).balances dst = d.balances dst := by
    show d.balances dst - (if src = dst ∧ dst ≠ 0 then 1 else 0) = _
    rw [if_neg fun h => hne h.1, sub_zero]
  rw [← hsame, ← hb]
  exact h.take hdst (update_self _ _ _) (hb ▸ hready)

/-- a token goes from one account to another, or to the zero address -/
theorem Faithful.move (h : Faithful d s.roll) (hk : Matched d s) {src dst : Address} {id : Nat}
    (hsrc : src ≠ 0) (hid : d.owners id = src) {rest : List TokenEvent}
    (hf : d.Fair (.transfer src dst id) rest) :
    Faithful (d.after (.transfer src dst id)) (s.rolled (.transfer src dst id)) := by
  have hdrop := h.drop hsrc hid (hk.pos hsrc hid)
  have hroll : s.rolled (.transfer src dst id) = (s.roll.lose src (d.balances src) id).gain dst
      (s.roll.delegate dst) (s.account dst).tokenBalanceRaw id := by
    show (if src = 0 then s.roll else s.roll.lose src (s.account src).tokenBalanceRaw id).gain dst
      _ _ id = _
    rw [if_neg hsrc, hk.raw src hsrc]
  rw [hroll]
  by_cases hdst : dst = 0
  · subst hdst
    rw [← s.roll.lose_delegate (d.balances src) id hsrc.symm]
    exact hdrop.take_zero (update_self _ _ _) _
  · obtain ⟨hne, hready⟩ := hf hdst
    have hpass : passesOn src dst id rest = false := by
      unfold passesOn
      simp [hsrc]
    rw [hpass, if_neg Bool.false_ne_true] at hready
    rw [hk.raw dst hdst]
    exact hdrop.arrive hdst hne hready

/-- an account delegates -/
theorem Faithful.delegate (h : Faithful d s.roll) (hk : Matched d s) {a c : Address} (ha : a ≠ 0)
    {rest : List TokenEvent} (hf : d.Fair (.delegateChanged a (d.delegates a) c) rest) :
    Faithful (d.after (.delegateChanged a (d.delegates a) c))
      (s.rolled (.delegateChanged a (d.delegates a) c)) := by
  obtain ⟨hc, hfair⟩ := hf
  have hafter : d.after (.delegateChanged a (d.delegates a) c) = { d with
      delegates := update d.delegates a c
      named := update d.named a (some c) } := by
    simp only [Dealings.after, if_neg hc]
  rw [hafter]
  exact h.name ha hc (hk.nodup a ha) (hk.mem a ha) (hk.length a ha) hfair

/-- a new token passes through the creator, who is not its receiver -/
theorem Faithful.mint (h : Faithful d s.roll) (hk : Matched d s) {s' : Store} {c dst : Address} {id : Nat}
    (hk' : Matched (d.after (.transfer 0 c id)) s') (hid : d.owners id = 0)
    (hs' : s'.roll = s.rolled (.transfer 0 c id)) (hdst : dst ≠ 0) {rest : List TokenEvent}
    (hf : d.Fair (.transfer 0 c id) (.transfer c dst id :: rest)) {rest' : List TokenEvent}
    (hf' : (d.after (.transfer 0 c id)).Fair (.transfer c dst id) rest')
    (hrest : passesOn c dst id rest' = false) :
    Faithful ((d.after (.transfer 0 c id)).after (.transfer c dst id))
      (s'.rolled (.transfer c dst id)) := by
  have hdrop := h.drop_zero hid
  have hnone : (d.drop 0 id).owners id = 0 := update_self _ _ _
  have hbalances : ∀ a, (d.drop 0 id).balances a = d.balances a := fun a => by
    have h0 : ¬ (0 = a ∧ a ≠ 0) := fun h => h.2 h.1.symm
    show d.balances a - (if 0 = a ∧ a ≠ 0 then 1 else 0) = _
    rw [if_neg h0, sub_zero]
  have hfirst : s'.roll = s.roll.gain c (s.roll.delegate c) (s.account c).tokenBalanceRaw id := hs'
  obtain ⟨hne, hready⟩ := hf' hdst
  rw [hrest, if_neg Bool.false_ne_true] at hready
  by_cases hc : c = 0
  · subst hc
    have h1 := hdrop.take_zero hnone (s.account 0).tokenBalanceRaw
    have hnone' : ((d.drop 0 id).take 0 id).owners id = 0 := update_self _ _ _
    have h2 := h1.drop_zero hnone'
    have hraw : (((d.drop 0 id).take 0 id).drop 0 id).balances dst
        = ((d.drop 0 id).take 0 id).balances dst := by
      show _ - (if 0 = dst ∧ dst ≠ 0 then 1 else 0) = _
      rw [if_neg fun h => h.2 h.1.symm, sub_zero]
    have hroll : s'.rolled (.transfer 0 dst id) = s'.roll.gain dst (s'.roll.delegate dst)
        ((((d.drop 0 id).take 0 id).drop 0 id).balances dst) id := by
      show (if (0 : Address) = 0 then s'.roll else _).gain dst _ (s'.account dst).tokenBalanceRaw id = _
      rw [if_pos rfl, hk'.raw dst hdst, hraw]
      rfl
    rw [hroll, hfirst]
    exact h2.take hdst (update_self _ _ _) (hraw.symm ▸ hready)
  · have hpass : passesOn 0 c id (.transfer c dst id :: rest) = true := by simp [passesOn, TokenEvent.moved]
    obtain ⟨_, hcreator⟩ := hf hc
    rw [hpass, if_pos rfl] at hcreator
    have hnamed : (d.drop 0 id).named c = d.named c := update_of_ne hc _ _
    have hcreator' : 0 < (d.drop 0 id).balances c ∨ (d.drop 0 id).named c = .none
        ∨ (d.drop 0 id).named c = some c := by
      rw [hbalances, hnamed]
      exact hcreator
    have h2 := hdrop.pass hc hnone hcreator'
    have hraw : (d.after (.transfer 0 c id)).balances c = (d.drop 0 id).balances c + 1 := by
      show (d.drop 0 id).balances c + (if c = c ∧ c ≠ 0 then 1 else 0) = _
      rw [if_pos ⟨rfl, hc⟩]
    have hroll : s'.rolled (.transfer c dst id) = (s'.roll.lose c ((d.drop 0 id).balances c + 1) id).gain
        dst (s'.roll.delegate dst) ((d.after (.transfer 0 c id)).balances dst) id := by
      show (if c = 0 then s'.roll else s'.roll.lose c (s'.account c).tokenBalanceRaw id).gain dst _
        (s'.account dst).tokenBalanceRaw id = _
      rw [if_neg hc, hk'.raw c hc, hk'.raw dst hdst, hraw]
    rw [hbalances, ← hk.raw c hc, ← hfirst, hk.raw c hc, ← hbalances] at h2
    rw [hroll]
    exact Faithful.arrive h2 hdst hne hready

end

/-! ## a run -/

/-- one more event -/
theorem read_event {vs rest : List TokenEvent} {v : TokenEvent} {o : Ownership}
    (ht : Told Ownership.Step .none (vs ++ v :: rest) o) (hf : Fairly .none (vs ++ v :: rest))
    {es : List (Event TokenEvent)} (hes : es.map Event.params = vs ++ [v]) :
    ∃ fs, fs.map Event.params = vs ∧ Matched (dealings vs) (indexed fs) ∧
      (indexed es).roll = (indexed fs).rolled v := by
  obtain ⟨fs, e, rfl, h1, h2⟩ := map_eq_snoc hes
  have hk := matched_of_told ht hf h1
  refine ⟨fs, h1, hk, ?_⟩
  rw [indexed_snoc, (handleTokenEvent_roll hk.keyed hk.sorted e _).2, h2]

/-- **A reader of fair events keeps a faithful roll**, whatever comes after them. -/
theorem read_faithful {gs : List (List TokenEvent)} {ds : Address → Address} (h : Told Dealing id gs ds) :
    ∀ {rest : List TokenEvent} {o : Ownership}, Told Ownership.Step .none (gs.flatten ++ rest) o →
      Fairly .none (gs.flatten ++ rest) → (dealings gs.flatten).delegates = ds ∧
      ∀ es : List (Event TokenEvent), es.map Event.params = gs.flatten →
        Faithful (dealings gs.flatten) (indexed es).roll := by
  induction h with
  | nil =>
    intro rest o ht hf
    refine ⟨rfl, fun es hes => ?_⟩
    rw [List.map_eq_nil_iff.mp hes]
    exact .none
  | snoc gs ds ds' g _ hg ih =>
    intro rest o ht hf
    rw [List.flatten_append, List.flatten_singleton] at ht hf ⊢
    rw [List.append_assoc] at ht hf
    obtain ⟨hds, hread⟩ := ih ht hf
    have hfair : Fairly (dealings gs.flatten) (g ++ rest) := hf.suffix
    cases hg with
    | minor v hv =>
      rw [dealings_snoc, Dealings.after_minor hv]
      refine ⟨hds, fun es hes => ?_⟩
      obtain ⟨fs, h1, hk, hroll⟩ := read_event ht hf hes
      rw [hroll, Store.rolled_minor hv]
      exact hread fs h1
    | move src dst id hsrc =>
      rw [dealings_snoc]
      refine ⟨hds, fun es hes => ?_⟩
      obtain ⟨fs, h1, hk, hroll⟩ := read_event ht hf hes
      rw [hroll]
      exact (hread fs h1).move hk hsrc (owner_of_told ht) hfair.1
    | delegate a c ha =>
      have hc := hfair.1.1
      rw [dealings_snoc, if_neg hc, ← hds]
      refine ⟨?_, fun es hes => ?_⟩
      · show update (dealings gs.flatten).delegates a (if c = 0 then a else c) = _
        rw [if_neg hc]
      · rw [← hds] at ht hf hfair
        obtain ⟨fs, h1, hk, hroll⟩ := read_event ht hf hes
        rw [hroll]
        exact (hread fs h1).delegate hk ha hfair.1
    | mint c dst id seed hdst =>
      have hcut : gs.flatten ++ [.transfer 0 c id, .transfer c dst id, .nounCreated id seed]
          = ((gs.flatten ++ [.transfer 0 c id]) ++ [.transfer c dst id]) ++ [.nounCreated id seed] := by
        simp
      have hminor : (TokenEvent.nounCreated id seed).Minor := ⟨rfl, rfl⟩
      have ht1 : Told Ownership.Step .none (gs.flatten ++ .transfer 0 c id :: .transfer c dst id ::
        .nounCreated id seed :: rest) o := ht
      have hf1 : Fairly .none (gs.flatten ++ .transfer 0 c id :: .transfer c dst id ::
        .nounCreated id seed :: rest) := hf
      have hid := owner_of_told ht1
      have ht2 := ht1
      have hf2 := hf1
      rw [List.append_cons gs.flatten] at ht2 hf2
      have ht3 := ht2
      have hf3 := hf2
      rw [List.append_cons (gs.flatten ++ [_])] at ht3 hf3
      rw [hcut, dealings_snoc _ (.nounCreated id seed), Dealings.after_minor hminor, dealings_snoc,
        dealings_snoc]
      refine ⟨hds, fun es hes => ?_⟩
      -- the events are taken off from the end
      obtain ⟨es2, h2, hk2, hroll3⟩ := read_event ht3 hf3 hes
      obtain ⟨es1, h1, hk1, hroll2⟩ := read_event ht2 hf2 h2
      obtain ⟨fs, h0, hk0, hroll1⟩ := read_event ht1 hf1 h1
      rw [dealings_snoc] at hk1
      rw [hroll3, Store.rolled_minor hminor, hroll2]
      exact (hread fs h0).mint hk0 hk1 hid hroll1 hdst hfair.1 hfair.2.1 (by simp [passesOn, TokenEvent.moved])

/-- the subgraph has the delegates of the accounts with tokens, and the tokens of the delegates -/
structure Represented (s : Store) (t : UNounsToken) : Prop where
  delegate : ∀ a, 0 < t.balances a → (s.account a).delegate = some (t.delegates a)
  nodup : ∀ d, d ≠ 0 → (s.delegateOf d).nounsRepresented.Nodup
  nouns : ∀ d, d ≠ 0 → ∀ id, id ∈ (s.delegateOf d).nounsRepresented
    ↔ t.owners id ≠ 0 ∧ t.delegates (t.owners id) = d

/-- **The subgraph mirrors the delegates** after every run of the token whose events are fair. -/
theorem delegation_indexed (P : Platform) (deployer uNoundersDAO minter descriptor seeder
    proxyRegistry : Address) (e : Env) (ts : List (Tx Env TokenCall))
    (hch : (e :: ts.map Tx.env).IsChain (· ≤ ·)) :
    ∀ o ∈ observations (TokenCall.code P) e ts
      ⟨[], UNounsToken.deploy deployer uNoundersDAO minter descriptor seeder proxyRegistry⟩,
      Fairly .none o.2.now.logs →
      ∀ es : List (Event TokenEvent), es.map Event.params = o.2.now.logs →
        Represented (indexed es) o.2.now := by
  intro o ho hfair es hes
  have hr := observations_timed (fun env (op : TokenCall) (c : TokenConfig) => op.follows P env c) hch ho
  have ht : Chronicled o.2.now := runs_told hr (deploy_chronicled _ _ _ _ _ _)
  obtain ⟨gs, hlogs, hg⟩ := runs_dealt hr (deploy_dealt _ _ _ _ _ _)
  obtain ⟨howners, hbalances⟩ := dealings_owners ht
  unfold Chronicled at ht
  rw [hlogs] at ht hfair howners hbalances hes
  rw [← List.append_nil gs.flatten] at ht hfair
  obtain ⟨hds, hread⟩ := read_faithful hg ht hfair
  have hf := hread es hes
  refine ⟨fun a ha => ?_, hf.nodup, fun d hd id => ?_⟩
  · rw [← hds]
    refine hf.held a ?_
    rw [hbalances]
    exact Int.natCast_pos.mpr ha
  · have h := hf.mem d hd id
    rw [howners, hds] at h
    exact h

/-- the unounders delegate their token to account `9`, which delegates to account `8` -/
def nameTxs : List (Tx Env TokenCall) :=
  mintTxs ++ [⟨.block 8 80, .mk ⟨.of 2 0, .delegate 9⟩ .nil⟩,
    ⟨.block 8 80, .mk ⟨.of 9 0, .delegate 8⟩ .nil⟩]

theorem delegation_indexed_run :
    let last := (runTxs (TokenCall.code (.plain 10 11 4)) nameTxs
      ⟨[], UNounsToken.deploy 1 2 3 4 5 6⟩).2
    last.past.length = 3 ∧ last.now.delegates 2 = 9 ∧
      Represented (indexed (last.now.logs.map ofBlock7)) last.now :=
  ⟨by decide +kernel, by decide +kernel,
    delegation_indexed (.plain 10 11 4) 1 2 3 4 5 6 (.block 6 60) nameTxs
      (by simp [nameTxs, mintTxs, Env.le_def, Env.block]) _ (final_mem_observations _ _ _ _)
      (by decide +kernel) _ (by simp [ofBlock7, Function.comp_def])⟩

/-- the unounders delegate to themselves, whom they have for their delegate already -/
def againTxs : List (Tx Env TokenCall) :=
  mintTxs ++ [⟨.block 8 80, .mk ⟨.of 2 0, .delegate 2⟩ .nil⟩]

/-- **Now their delegate represents the token twice.** -/
theorem not_delegation_indexed :
    let last := (runTxs (TokenCall.code (.plain 10 11 4)) againTxs
      ⟨[], UNounsToken.deploy 1 2 3 4 5 6⟩).2
    let store := indexed (last.now.logs.map ofBlock7)
    last.past.length = 2 ∧ last.now.owners 0 = 2 ∧ last.now.delegates 2 = 2 ∧
      (store.delegateOf 2).nounsRepresented = [0, 0] ∧ ¬ Represented store last.now := by
  intro last store
  have hs : (store.delegateOf 2).nounsRepresented = [0, 0] := by decide +kernel
  refine ⟨by decide +kernel, by decide +kernel, by decide +kernel, hs, fun h => ?_⟩
  have h2 := h.nodup 2 (by decide)
  rw [hs] at h2
  exact absurd h2 (by decide)

end UNouns.Subgraph
