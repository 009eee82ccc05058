import UNouns.Lib.Lookup
import UNouns.Token.Votes

/-!
# The votes of a block that is over

* `getPriorVotes_lookup`   `getPriorVotes` as it goes through the storage, and what it reads there;
* `getPriorVotes_exact`    it gives the votes at the end of the block, for good.
-/

set_option linter.unusedVariables false

namespace UNouns
open Checkpoints Reentrant UNounsToken

namespace UNounsToken

def numCheckpoints (t : UNounsToken) (account : Address) : Nat := (t.checkpoints account).length

/-- `checkpoints[account][i]`; storage that has never been written holds zeros -/
def checkpointAt (t : UNounsToken) (account : Address) (i : Nat) : Checkpoint Nat :=
  (t.checkpoints account)[i]?.getD ⟨0, 0⟩

theorem checkpointAt_eq (t : UNounsToken) (account : Address) {i : Nat}
    (hi : i < (t.checkpoints account).length) :
    (t.checkpoints account)[i]? = some (t.checkpointAt account i) := by
  unfold checkpointAt
  rw [List.getElem?_eq_getElem hi]
  rfl

theorem getPriorVotes_lookup {t : UNounsToken} {env : Env} {b : Nat} (hb : b < env.number)
    (account : Address) : t.getPriorVotes env account b
      = .ok ((lookup (t.checkpointAt account) (t.numCheckpoints account) b).1.getD 0) := by
  have heq : (lookup (t.checkpointAt account) (t.numCheckpoints account) b).1
      = prior (t.checkpoints account) b := lookup_eq (fun i hi => t.checkpointAt_eq account hi) b
  rw [heq]
  simp only [getPriorVotes, require, if_pos hb]
  rfl

end UNounsToken

section
variable (P : Platform) (deployer unoundersDAO unouncilDAO minter descriptor seeder : Address)

/-- **The lookup of votes is exact.**  A run is cut at the end of block `b`: wherever the rest of it
is looked at, the prior votes at `b` are the current votes at the cut, and only checkpoints that have
been written are read to find them.  Before the first operation nobody has votes. -/
theorem getPriorVotes_exact (e : Env) (ts us : List (Tx Env TokenCall)) (b : Nat)
    (hch : (e :: (ts ++ us).map Tx.env).IsChain (· ≤ ·))
    (hts : ∀ t ∈ ts, t.env.number ≤ b) (hus : ∀ t ∈ us, b < t.env.number) :
    let start : TokenConfig :=
      ⟨[], deploy deployer unoundersDAO unouncilDAO minter descriptor seeder⟩
    let cut := (runTxs (TokenCall.code P) ts start).2
    (∀ account, start.now.getCurrentVotes account = 0) ∧
    ∀ o ∈ observations (TokenCall.code P) (lastEnv e ts) us cut, ∀ env : Env, b < env.number →
      ∀ account,
        o.2.now.getPriorVotes env account b = .ok (cut.now.getCurrentVotes account) ∧
        ∃ votes reads, lookup (o.2.now.checkpointAt account) (o.2.now.numCheckpoints account) b
            = (votes, reads) ∧
          o.2.now.getPriorVotes env account b = .ok (votes.getD 0) ∧
          ∀ i ∈ reads, i < o.2.now.numCheckpoints account := by
  intro start cut
  refine ⟨fun account => rfl, fun o ho env hb account => ⟨?_, ?_⟩⟩
  · obtain ⟨hcut, hs, hsame⟩ :=
      votesAt_settled P deployer unoundersDAO unouncilDAO minter descriptor seeder hch hts hus o ho
    rw [getPriorVotes_eq hs hb, hsame, hcut.votesAt_eq]
    rfl
  · exact ⟨_, _, rfl, getPriorVotes_lookup hb account, lookup_lt _ _ b⟩

/-- two tokens and a delegation later: who had the votes in block 7 -/
theorem getPriorVotes_exact_run :
    let cut := (runTxs (TokenCall.code (.plain 10 11 4)) mintTxs ⟨[], deploy 1 2 3 4 5 6⟩).2
    let last := (runTxs (TokenCall.code (.plain 10 11 4)) giveTxs cut).2
    last.past.length = 3 ∧ last.now.getCurrentVotes 4 = 0 ∧ cut.now.getCurrentVotes 4 = 1 ∧
      last.now.getPriorVotes (.block 9 90) 4 7 = .ok (cut.now.getCurrentVotes 4) :=
  ⟨by decide +kernel, by decide +kernel, by decide +kernel,
    ((getPriorVotes_exact (.plain 10 11 4) 1 2 3 4 5 6 (.block 6 60) mintTxs giveTxs 7
      (by simp [mintTxs, giveTxs, Env.le_def, Env.block]) (by simp [mintTxs, Env.block])
      (by simp [giveTxs, Env.block])).2 _ (final_mem_observations _ _ _ _) (.block 9 90)
      (by decide) 4).1⟩

end

end UNouns
