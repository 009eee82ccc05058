import UNouns.Subgraph.Store

/-!
# The mapping of the token

One definition for each handler of `nouns-erc-721.ts`, and `handleTokenEvent` for the events that the
subgraph subscribes to.  `handleTransfer` is in two parts, the sender and the receiver.
-/

set_option linter.unusedVariables false

namespace UNouns.Subgraph
open Function

variable {V : Type}

def handleNounCreated (s : Store) (e : Event V) (tokenId : Nat) (seed : Seed) : Store :=
  let s := s.saveSeed ⟨tokenId, seed⟩
  match s.nouns tokenId with
  | none => s
  | some noun => s.saveNoun { noun with seed := some tokenId }

/-- the seed is saved, and named by the noun, if it is known -/
theorem handleNounCreated_cases (s : Store) (e : Event V) (id : Nat) (seed : Seed) :
    handleNounCreated s e id seed = s.saveSeed ⟨id, seed⟩ ∨
      ∃ noun, s.nouns id = some noun ∧
        handleNounCreated s e id seed
          = (s.saveSeed ⟨id, seed⟩).saveNoun { noun with seed := some id } := by
  cases hn : (s.saveSeed ⟨id, seed⟩).nouns id with
  | none =>
    left
    simp only [handleNounCreated, hn]
  | some noun =>
    refine .inr ⟨noun, hn, ?_⟩
    simp only [handleNounCreated, hn]

def handleDelegateChanged (s : Store) (e : Event V) (delegator fromDelegate toDelegate : Address) :
    Store :=
  let r := s.getOrCreateAccount delegator
  let tokenHolder := r.1
  let r := r.2.getOrCreateDelegate fromDelegate
  let previousDelegate := r.1
  let r := r.2.getOrCreateDelegate toDelegate
  let newDelegate := r.1
  let accountNouns := tokenHolder.nouns
  let s := r.2.saveAccount { tokenHolder with delegate := some newDelegate.id }
  let previousDelegate := { previousDelegate with
    tokenHoldersRepresentedAmount := previousDelegate.tokenHoldersRepresentedAmount - 1
    nounsRepresented := previousDelegate.nounsRepresented.filter fun n => !accountNouns.contains n }
  let newDelegate := { newDelegate with
    tokenHoldersRepresentedAmount := newDelegate.tokenHoldersRepresentedAmount + 1
    nounsRepresented := newDelegate.nounsRepresented ++ accountNouns }
  let s := (s.saveDelegate previousDelegate).saveDelegate newDelegate
  accountNouns.foldl (fun s n => s.saveDelegationEvent
    { id := (e.transactionHash, n)
      noun := n
      previousDelegate := previousDelegate.id
      newDelegate := newDelegate.id
      blockNumber := e.block.number
      blockTimestamp := e.block.timestamp }) s

def handleDelegateVotesChanged (s : Store) (e : Event V) (delegate : Address)
    (previousBalance newBalance : Nat) : Store :=
  let governance := s.getGovernanceEntity
  let r := s.getOrCreateDelegate delegate
  let votesDifference : Int := newBalance - previousBalance
  let s := r.2.saveDelegate
    { r.1 with delegatedVotesRaw := newBalance, delegatedVotes := newBalance }
  let governance :=
    if previousBalance = 0 ∧ 0 < newBalance then
      { governance with currentDelegates := governance.currentDelegates + 1 }
    else governance
  let governance :=
    if newBalance = 0 then { governance with currentDelegates := governance.currentDelegates - 1 }
    else governance
  s.saveGovernance { governance with
    delegatedVotesRaw := governance.delegatedVotesRaw + votesDifference
    delegatedVotes := governance.delegatedVotesRaw + votesDifference }

/-! ## transfers -/

/-- the token is no longer represented by the delegate of the sender, if there is one -/
def Store.unrepresent (s : Store) (delegate : Option Address) (tokenId : Nat) : Store :=
  match delegate with
  | some delegate =>
    let r := s.getOrCreateDelegate delegate
    r.2.saveDelegate { r.1 with nounsRepresented := r.1.nounsRepresented.filter (· ≠ tokenId) }
  | none => s

/-- but by that of the receiver -/
def Store.represent (s : Store) (delegate : Address) (tokenId : Nat) : Store :=
  let r := s.getOrCreateDelegate delegate
  r.2.saveDelegate { r.1 with nounsRepresented := r.1.nounsRepresented ++ [tokenId] }

/-- the last token of an account has gone -/
def Emptied (previous balance : Int) : Prop := balance = 0 ∧ 0 < previous

/-- its first token has come -/
def Filled (previous balance : Int) : Prop := 0 < balance ∧ previous = 0

instance (previous balance : Int) : Decidable (Emptied previous balance) :=
  inferInstanceAs (Decidable (_ ∧ _))

instance (previous balance : Int) : Decidable (Filled previous balance) :=
  inferInstanceAs (Decidable (_ ∧ _))

/-- both parts of `handleTransfer` count the current holders in the same way, and save the count if
it changes -/
def Store.recount (s : Store) (governance : Governance) (previous balance : Int) :
    Governance × Store :=
  if Emptied previous balance then
    let governance := { governance with currentTokenHolders := governance.currentTokenHolders - 1 }
    (governance, s.saveGovernance governance)
  else if Filled previous balance then
    let governance := { governance with currentTokenHolders := governance.currentTokenHolders + 1 }
    (governance, s.saveGovernance governance)
  else (governance, s)

/-- what `handleTransfer` has in hand between its parts -/
structure Transferring where
  store : Store
  governance : Governance
  fromHolder : Account

/-- the part for the sender -/
def transferFromHolder (s : Store) (governance : Governance) (fromHolder : Account)
    (fromAddr : Address) (tokenId : Nat) : Transferring :=
  if fromAddr = 0 then
    let governance := { governance with totalTokenHolders := governance.totalTokenHolders + 1 }
    ⟨s.saveGovernance governance, governance, fromHolder⟩
  else
    let previous := fromHolder.tokenBalanceRaw
    let balance := fromHolder.tokenBalanceRaw - 1
    let s := s.unrepresent fromHolder.delegate tokenId
    let r := s.recount governance previous balance
    let fromHolder := { fromHolder with
      tokenBalanceRaw := balance
      tokenBalance := balance
      nouns := fromHolder.nouns.filter (· ≠ tokenId)
      delegate := if Emptied previous balance then none else fromHolder.delegate }
    ⟨r.2.saveAccount fromHolder, r.1, fromHolder⟩

/-- the token is entered in the account of the receiver -/
def Store.receive (s : Store) (governance : Governance) (toHolder : Account) (tokenId : Nat) : Store :=
  let s := s.represent (toHolder.delegate.getD toHolder.id) tokenId
  let previous := toHolder.tokenBalanceRaw
  let balance := toHolder.tokenBalanceRaw + 1
  let r := s.recount governance previous balance
  let toHolder := { toHolder with
    tokenBalanceRaw := balance
    tokenBalance := balance
    totalTokensHeldRaw := toHolder.totalTokensHeldRaw + 1
    totalTokensHeld := toHolder.totalTokensHeldRaw + 1
    nouns := toHolder.nouns ++ [tokenId]
    delegate := if ¬ Emptied previous balance ∧ Filled previous balance then some toHolder.id
      else toHolder.delegate }
  let noun := (r.2.nouns tokenId).getD ⟨tokenId, none, 0⟩
  (r.2.saveNoun { noun with owner := toHolder.id }).saveAccount toHolder

/-- the part for the receiver; `toHolder` was loaded before the part for the sender -/
def transferToHolder (x : Transferring) (e : Event V) (toHolder : Account) (toAddr : Address)
    (tokenId : Nat) : Store :=
  let governance := { x.governance with
    totalTokenHolders := x.governance.totalTokenHolders - (if toAddr = 0 then 1 else 0) }
  let s := if toAddr = 0 then x.store.saveGovernance governance else x.store
  let s := s.saveDelegationEvent
    { id := (e.transactionHash, tokenId)
      noun := tokenId
      previousDelegate := x.fromHolder.delegate.getD x.fromHolder.id
      newDelegate := toHolder.delegate.getD toHolder.id
      blockNumber := e.block.number
      blockTimestamp := e.block.timestamp }
  s.receive governance toHolder tokenId

def handleTransfer (s : Store) (e : Event V) (fromAddr toAddr : Address) (tokenId : Nat) : Store :=
  let r := s.getOrCreateAccount fromAddr
  let fromHolder := r.1
  let r := r.2.getOrCreateAccount toAddr
  let toHolder := r.1
  let governance := r.2.getGovernanceEntity
  let s := r.2.saveTransferEvent
    { id := (e.transactionHash, tokenId)
      noun := tokenId
      previousHolder := fromHolder.id
      newHolder := toHolder.id
      blockNumber := e.block.number
      blockTimestamp := e.block.timestamp }
  transferToHolder (transferFromHolder s governance fromHolder fromAddr tokenId) e toHolder toAddr
    tokenId

/-- the events of the token that the subgraph subscribes to -/
def handleTokenEvent (s : Store) (e : Event V) : TokenEvent → Store
  | .nounCreated tokenId seed => handleNounCreated s e tokenId seed
  | .delegateChanged delegator fromDelegate toDelegate =>
    handleDelegateChanged s e delegator fromDelegate toDelegate
  | .delegateVotesChanged delegate previousBalance newBalance =>
    handleDelegateVotesChanged s e delegate previousBalance newBalance
  | .transfer fromAddr toAddr tokenId => handleTransfer s e fromAddr toAddr tokenId
  | _ => s

end UNouns.Subgraph
