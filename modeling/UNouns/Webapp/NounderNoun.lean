import UNouns.Token.Issuance

/-!
# The ids that the web application takes for rewards

`utils/nounderNoun.ts` of the web application says by the id alone whether a token went to the
unounders or to the unouncil.

* `knowsRole_iff`   it is right, but for the last token of the unouncil and for the tens beyond 1865.
-/

namespace UNouns.Webapp
open Function Relation Reentrant UNounsToken

/-- `BigNumber.toNumber`, which throws beyond `Number.MAX_SAFE_INTEGER` -/
def toNumber (n : Nat) : Option Nat := if n ≤ 9007199254740991 then some n else none

def isNounderNoun (unounId : Nat) : Bool := unounId % 10 = 0 ∨ unounId = 0

def isUNouncilUNoun (unounId : Nat) : Option Bool := do
  let n ← toNumber unounId
  pure (n < 222 && unounId % 10 = 2)

/-- the application knows for whom the token is: for the unounders, for the unouncil, or to be
auctioned -/
structure KnowsRole (unounId : Nat) (ρ : Role) : Prop where
  unounders : isNounderNoun unounId = true ↔ ρ = .unounders
  unouncil : isUNouncilUNoun unounId = some true ↔ ρ = .unouncil
  auctioned : ρ = .minter ↔ isNounderNoun unounId ≠ true ∧ isUNouncilUNoun unounId ≠ some true

theorem isNounderNoun_eq_true {n : Nat} : isNounderNoun n = true ↔ n % 10 = 0 := by
  unfold isNounderNoun
  rw [decide_eq_true_iff]
  omega

theorem isUNouncilUNoun_eq_true {n : Nat} : isUNouncilUNoun n = some true ↔ n < 222 ∧ n % 10 = 2 := by
  unfold isUNouncilUNoun toNumber
  split_ifs with h
  · simp
  · simp only [Option.bind_eq_bind, Option.bind_none, reduceCtorEq, false_iff]
    omega

theorem knowsRole_schedule (n : Nat) :
    KnowsRole n (schedule n) ↔ n ≠ 222 ∧ (n % 10 = 0 → n ≤ 1865) := by
  constructor
  · intro h
    refine ⟨?_, fun h0 => ?_⟩
    · rintro rfl
      exact absurd (h.unouncil.mpr rfl) (by decide)
    · exact (schedule_unounders.mp (h.unounders.mp (isNounderNoun_eq_true.mpr h0))).1
  · rintro ⟨h1, h2⟩
    have hA : isNounderNoun n = true ↔ schedule n = .unounders := by
      rw [isNounderNoun_eq_true, schedule_unounders]
      exact ⟨fun h => ⟨h2 h, h⟩, fun h => h.2⟩
    have hB : isUNouncilUNoun n = some true ↔ schedule n = .unouncil := by
      rw [isUNouncilUNoun_eq_true, schedule_unouncil]
      omega
    refine ⟨hA, hB, ?_⟩
    rw [ne_eq, ne_eq, hA, hB]
    cases schedule n <;> simp

/-- **Does the application know the rewards?**  In every run, each id that a `mint` issues goes to the
address of some role at that moment, and the application knows the role from the id if and only if the
id is not 222 and not a multiple of ten beyond 1865. -/
theorem knowsRole_iff (P : Platform) (deployer unoundersDAO unouncilDAO minter descriptor seeder : Address)
    (e : Env) (ts : List (Tx Env TokenCall)) (hch : (e :: ts.map Tx.env).IsChain (· ≤ ·)) :
    ∀ o ∈ observations (TokenCall.code P) e ts
      ⟨[], deploy deployer unoundersDAO unouncilDAO minter descriptor seeder⟩,
      Linked (fun r next => ∀ p ∈ issued r, next.owners p.1 = p.2.address r.pre ∧
        (KnowsRole p.1 p.2 ↔ p.1 ≠ 222 ∧ (p.1 % 10 = 0 → p.1 ≤ 1865))) o.2 := by
  intro o ho before r after hpast p hp
  have hr := observations_timed (fun env (op : TokenCall) (c : TokenConfig) => op.follows P env c) hch ho
  have hi := ((runs_issuance hr (.deploy _ _ _ _ _ _)).steps before r after hpast).1
  rw [hi.scheduled p hp, ← hi.scheduled p hp]
  refine ⟨(hi.born p hp).2.1, ?_⟩
  rw [hi.scheduled p hp]
  exact knowsRole_schedule p.1

/-- the first tokens are known -/
theorem knowsRole_iff_run :
    let last := (runTxs (TokenCall.code (.plain 10 11 4)) burnTxs ⟨[], deploy 1 2 3 4 5 6⟩).2
    last.past.flatMap issued = [(0, .unounders), (1, .minter), (2, .unouncil), (3, .minter)] ∧
      Linked (fun r next => ∀ p ∈ issued r, next.owners p.1 = p.2.address r.pre ∧
        (KnowsRole p.1 p.2 ↔ p.1 ≠ 222 ∧ (p.1 % 10 = 0 → p.1 ≤ 1865))) last :=
  ⟨by decide +kernel, knowsRole_iff (.plain 10 11 4) 1 2 3 4 5 6 (.block 6 60) burnTxs
    (by simp [burnTxs, mintTxs, Env.le_def, Env.block]) _ (final_mem_observations _ _ _ _)⟩

/-- **Token 222 goes to the unouncil, and 1870 is auctioned.**  The application takes the one for an
auction and the other for a reward. -/
theorem not_knowsRole :
    (∃ r ∈ (runTxs (TokenCall.code (.plain 10 11 4)) (manyTxs 223) ⟨[], deploy 1 2 3 4 5 6⟩).2.past,
      (222, .unouncil) ∈ issued r) ∧ isUNouncilUNoun 222 = some false ∧
    (∃ r ∈ (runTxs (TokenCall.code (.plain 10 11 4)) (manyTxs 1871) ⟨[], deploy 1 2 3 4 5 6⟩).2.past,
      (1870, .minter) ∈ issued r) ∧ isNounderNoun 1870 = true ∧
    ¬ KnowsRole 222 .unouncil ∧ ¬ KnowsRole 1870 .minter :=
  ⟨exists_issued (.plain 10 11 4) (n := 222) (by decide), by decide,
    exists_issued (.plain 10 11 4) (n := 1870) (by decide), by decide,
    fun h => absurd (h.unouncil.mpr rfl) (by decide), fun h => absurd (h.unounders.mp (by decide)) (by decide)⟩

end UNouns.Webapp
