import UNouns.Subgraph.Dao
import UNouns.Governance.Deeds
import UNouns.Token.Dealings
import UNouns.Token.Polls

/-!
# The events of a run, in the order of the chain

The token and the DAO keep a log each.  A run makes them grow entry by entry, so the order between
them, and the block of each event, can be read off the history.

* `journalAfter`       what happened before a run, and the events of the run with their blocks;
* `journal`            the events of a run from the deployment of all contracts on;
* `journalAfter_enter`, `journalAfter_resume`   what a move adds;
* `GovBegin.splits`    an entry changes the token or the DAO, not both;
* `WrittenAfter`       so the journal has the log of each, in its order (`runs_written`);
* `read`               the store that the subgraph makes of some events.
-/

set_option linter.unusedVariables false

namespace UNouns.Subgraph
open Function Relation Reentrant Journal

def blockOf (env : Env) : Block := ⟨env.number, env.timestamp⟩

section
variable {P : Platform}

/-- the events after the first `n` of the token and the first `m` of the DAO; an entry does not emit
both -/
def newEvents (b : Block) (n m : Nat) (w : World P) : List (Block × ChainEvent) :=
  ((w.token.logs.drop n).map ChainEvent.token ++ (w.dao.logs.drop m).map ChainEvent.dao).map (b, ·)

def journalFrom (b : Block) (n m : Nat) : List (GovRecord P) → World P → List (Block × ChainEvent)
  | [], w => newEvents b n m w
  | r :: rs, w => newEvents b n m r.pre
      ++ journalFrom (blockOf r.env) r.pre.token.logs.length r.pre.dao.logs.length rs w

/-- what happened before a run, and the events of the run, which began in the block of `e`; the first
`n` events of the token are older -/
def journalAfter (js : List (Block × ChainEvent)) (n : Nat) (e : Env) (c : GovConfig P) :
    List (Block × ChainEvent) := js ++ journalFrom (blockOf e) n 0 c.past c.now

/-- from the deployment of all contracts in the block of `e` on -/
abbrev journal (e : Env) (c : GovConfig P) : List (Block × ChainEvent) := journalAfter [] 0 e c

theorem journalFrom_snoc (past : List (GovRecord P)) (r : GovRecord P) (w : World P) :
    ∀ b n m, journalFrom b n m (past ++ [r]) w = journalFrom b n m past r.pre
      ++ newEvents (blockOf r.env) r.pre.token.logs.length r.pre.dao.logs.length w := by
  induction past with
  | nil => exact fun b n m => rfl
  | cons q past ih =>
    intro b n m
    show newEvents b n m q.pre ++ journalFrom _ _ _ (past ++ [r]) w = _
    rw [ih, ← List.append_assoc]
    rfl

/-- what an entry emits comes last -/
theorem journalAfter_enter (js : List (Block × ChainEvent)) (n : Nat) (e env : Env) (c : GovConfig P)
    (op : GovCall P) {w : World P} {us : List TokenEvent} {vs : List DaoEvent}
    (ht : w.token.logs = c.now.token.logs ++ us) (hd : w.dao.logs = c.now.dao.logs ++ vs) :
    journalAfter js n e ⟨c.enter env op, w⟩ = journalAfter js n e c
      ++ (us.map ChainEvent.token ++ vs.map ChainEvent.dao).map (blockOf env, ·) := by
  have h := journalFrom_snoc c.past ⟨env, c.now, op⟩ w (blockOf e) n 0
  show js ++ journalFrom _ _ _ (c.past ++ [⟨env, c.now, op⟩]) w = _
  rw [h, ← List.append_assoc]
  unfold newEvents
  rw [ht, hd, List.drop_left, List.drop_left]
  rfl

theorem journal_enter (e env : Env) (c : GovConfig P) (op : GovCall P) {w : World P}
    {us : List TokenEvent} {vs : List DaoEvent} (ht : w.token.logs = c.now.token.logs ++ us)
    (hd : w.dao.logs = c.now.dao.logs ++ vs) :
    journal e ⟨c.enter env op, w⟩
      = journal e c ++ (us.map ChainEvent.token ++ vs.map ChainEvent.dao).map (blockOf env, ·) :=
  journalAfter_enter [] 0 e env c op ht hd

/-- the log of the DAO only grows -/
def Grown (c : GovConfig P) : Prop := ∀ r ∈ c.past, r.pre.dao.logs.length ≤ c.now.dao.logs.length

theorem newEvents_append (b : Block) (n m : Nat) {w w' : World P} {vs : List DaoEvent}
    (ht : w'.token = w.token) (hd : w'.dao.logs = w.dao.logs ++ vs) (hm : m ≤ w.dao.logs.length) :
    newEvents b n m w' = newEvents b n m w ++ (vs.map ChainEvent.dao).map (b, ·) := by
  unfold newEvents
  rw [ht, hd, List.drop_append_of_le_length hm, ← List.map_append, List.append_assoc, ← List.map_append]

/-- what an entry emits when it goes on comes last too -/
theorem journalAfter_resume (js : List (Block × ChainEvent)) (n : Nat) (e : Env) {c : GovConfig P}
    (hc : Grown c) {w : World P} {vs : List DaoEvent} (ht : w.token = c.now.token)
    (hd : w.dao.logs = c.now.dao.logs ++ vs) :
    ∃ b, journalAfter js n e ⟨c.past, w⟩
      = journalAfter js n e c ++ (vs.map ChainEvent.dao).map (b, ·) := by
  obtain ⟨past, now⟩ := c
  unfold journalAfter
  rcases List.eq_nil_or_concat past with rfl | ⟨before, r, rfl⟩
  · refine ⟨blockOf e, ?_⟩
    rw [List.append_assoc]
    exact congrArg (js ++ ·) (newEvents_append _ _ _ ht hd (Nat.zero_le _))
  · have hr : r.pre.dao.logs.length ≤ now.dao.logs.length := hc r (by simp)
    refine ⟨blockOf r.env, ?_⟩
    simp only [List.concat_eq_append]
    rw [journalFrom_snoc, journalFrom_snoc, newEvents_append _ _ _ ht hd hr, List.append_assoc,
      List.append_assoc]

theorem journal_resume (e : Env) {c : GovConfig P} (hc : Grown c) {w : World P} {vs : List DaoEvent}
    (ht : w.token = c.now.token) (hd : w.dao.logs = c.now.dao.logs ++ vs) :
    ∃ b, journal e ⟨c.past, w⟩ = journal e c ++ (vs.map ChainEvent.dao).map (b, ·) :=
  journalAfter_resume [] 0 e hc ht hd

/-! ## moves -/

/-- an entry changes the token or the DAO, not both -/
theorem GovBegin.splits {env : Env} {c : GovCall P} {w w' : World P} (h : GovBegin env c w w') :
    (w'.dao = w.dao ∧ ∃ sender op, TokenOp.apply P env sender w.token op = .ok w'.token) ∨
      w'.token = w.token := by
  cases h with
  | execute id d w' hop h hact => exact .inr hact.dao.2
  | entry op w' x hop h =>
    cases op with
    | token op =>
      obtain ⟨t, h1, h2⟩ := map_eq_ok.mp h
      cases h2
      exact .inl ⟨rfl, _, op, h1⟩
    | timelock | dao | queue | cancel | veto =>
      obtain ⟨_, _, h2⟩ := map_eq_ok.mp h
      cases h2
      exact .inr rfl

theorem GovResume.token {env : Env} {w w' : World P} (h : GovResume env w w') : w'.token = w.token :=
  (GovRest.dao h.rest).1

theorem Grown.enter {env : Env} {c : GovConfig P} (hc : Grown c) {op : GovCall P} {w : World P}
    {vs : List DaoEvent} (hd : w.dao.logs = c.now.dao.logs ++ vs) : Grown ⟨c.enter env op, w⟩ := by
  have hlen : c.now.dao.logs.length ≤ w.dao.logs.length := by
    rw [hd, List.length_append]
    omega
  intro r hr
  rcases List.mem_append.mp hr with hr | hr
  · exact Nat.le_trans (hc r hr) hlen
  · rw [List.mem_singleton.mp hr]
    exact hlen

theorem Grown.resume {c : GovConfig P} (hc : Grown c) {w : World P} {vs : List DaoEvent}
    (hd : w.dao.logs = c.now.dao.logs ++ vs) : Grown ⟨c.past, w⟩ := by
  intro r hr
  have h := hc r hr
  show _ ≤ w.dao.logs.length
  rw [hd, List.length_append]
  omega

/-! ## the two logs -/

def tokens (js : List (Block × ChainEvent)) : List TokenEvent :=
  js.filterMap fun j => match j.2 with
    | .token v => some v
    | .dao _ => none

def daos (js : List (Block × ChainEvent)) : List DaoEvent :=
  js.filterMap fun j => match j.2 with
    | .token _ => none
    | .dao v => some v

theorem tokens_append (js ks : List (Block × ChainEvent)) : tokens (js ++ ks) = tokens js ++ tokens ks :=
  List.filterMap_append

theorem daos_append (js ks : List (Block × ChainEvent)) : daos (js ++ ks) = daos js ++ daos ks :=
  List.filterMap_append

theorem tokens_entry (b : Block) (us : List TokenEvent) (vs : List DaoEvent) :
    tokens ((us.map ChainEvent.token ++ vs.map ChainEvent.dao).map (b, ·)) = us := by
  unfold tokens
  rw [List.filterMap_map, List.filterMap_append, List.filterMap_map, List.filterMap_map]
  simp [Function.comp_def]

theorem daos_entry (b : Block) (us : List TokenEvent) (vs : List DaoEvent) :
    daos ((us.map ChainEvent.token ++ vs.map ChainEvent.dao).map (b, ·)) = vs := by
  unfold daos
  rw [List.filterMap_map, List.filterMap_append, List.filterMap_map, List.filterMap_map]
  simp [Function.comp_def]

/-- the journal has both logs, and the token is one that can be reached -/
structure WrittenAfter (js : List (Block × ChainEvent)) (n : Nat) (e : Env) (c : GovConfig P) : Prop where
  grown : Grown c
  reached : c.now.token.Reached P
  tokens : tokens (journalAfter js n e c) = c.now.token.logs
  said : daos (journalAfter js n e c) = daos js ++ c.now.dao.logs

abbrev Written (e : Env) (c : GovConfig P) : Prop := WrittenAfter [] 0 e c

section
variable {js : List (Block × ChainEvent)} {n : Nat} {e env : Env} {c : GovConfig P}

theorem WrittenAfter.daos (h : Written e c) : daos (journal e c) = c.now.dao.logs := h.said

theorem WrittenAfter.chronicled (h : WrittenAfter js n e c) : Chronicled c.now.token :=
  h.reached.chronicled

theorem WrittenAfter.dealt (h : WrittenAfter js n e c) : Dealt c.now.token := h.reached.dealt

/-- older events, all of the token and none of the DAO that is to come -/
theorem writtenAfter_start {w : World P} (ht : w.token.Reached P) (hjs : tokens js = w.token.logs)
    (hn : w.token.logs.length ≤ n) : WrittenAfter js n e ⟨[], w⟩ := by
  have hj : journalAfter js n e ⟨[], w⟩ = js ++ (([] : List TokenEvent).map ChainEvent.token
      ++ w.dao.logs.map ChainEvent.dao).map (blockOf e, ·) := by
    show js ++ newEvents _ _ _ w = _
    unfold newEvents
    rw [List.drop_eq_nil_of_le hn]
    rfl
  refine ⟨fun r hr => absurd hr List.not_mem_nil, ht, ?_, ?_⟩
  · rw [hj, tokens_append, tokens_entry, List.append_nil, hjs]
  · rw [hj, daos_append, daos_entry]

theorem GovSetup.deploy_written {g : GovSetup} {w : World P} (hw : g.deploy P e = .ok w) :
    Written e ⟨[], w⟩ := by
  have hf := GovSetup.deploy_fresh hw
  refine ⟨fun r hr => absurd hr List.not_mem_nil, ?_, tokens_entry _ _ _, daos_entry _ _ _⟩
  rw [hf.token]
  exact .deployed _ _ _ _ _ _

theorem WrittenAfter.enter (h : WrittenAfter js n e c) {op : GovCall P} {w : World P}
    (hb : GovBegin env op c.now w) : WrittenAfter js n e ⟨c.enter env op, w⟩ := by
  obtain ⟨vs, hd⟩ := GovBegin.deed hb
  rcases GovBegin.splits hb with ⟨hdao, sender, top, hop⟩ | htoken
  · have hquiet : w.dao.logs = c.now.dao.logs ++ [] := by rw [hdao, List.append_nil]
    obtain ⟨us, hlogs, _⟩ := TokenOp.apply_tells hop
    have hj := journalAfter_enter js n e env c op hlogs hquiet
    refine ⟨h.grown.enter hquiet, .entered env sender top _ _ h.reached hop, ?_, ?_⟩
    · rw [hj, tokens_append, tokens_entry, h.tokens, hlogs]
    · rw [hj, daos_append, daos_entry, h.said, hquiet, List.append_assoc]
  · have hsame : w.token.logs = c.now.token.logs ++ [] := by rw [htoken, List.append_nil]
    have hj := journalAfter_enter js n e env c op hsame hd.logs
    refine ⟨h.grown.enter hd.logs, htoken.symm ▸ h.reached, ?_, ?_⟩
    · rw [hj, tokens_append, tokens_entry, h.tokens, hsame]
    · rw [hj, daos_append, daos_entry, h.said, hd.logs, List.append_assoc]

theorem WrittenAfter.resume (h : WrittenAfter js n e c) {w : World P} (hr : GovResume env c.now w) :
    WrittenAfter js n e ⟨c.past, w⟩ := by
  obtain ⟨vs, hd⟩ := hr.deed
  have htoken := GovResume.token hr
  obtain ⟨b, hj⟩ := journalAfter_resume js n e h.grown htoken hd.logs
  have htokens : UNouns.Subgraph.tokens ((vs.map ChainEvent.dao).map (b, ·)) = [] := tokens_entry b [] vs
  have hdaos : UNouns.Subgraph.daos ((vs.map ChainEvent.dao).map (b, ·)) = vs := daos_entry b [] vs
  refine ⟨h.grown.resume hd.logs, htoken.symm ▸ h.reached, ?_, ?_⟩
  · rw [hj, tokens_append, h.tokens, htoken, htokens, List.append_nil]
  · rw [hj, daos_append, h.said, hd.logs, List.append_assoc, hdaos]

end

theorem runs_written {g : GovSetup} {e : Env} {w : World P} (hw : g.deploy P e = .ok w)
    {y : Env × GovConfig P} (h : ReflTransGen (Timed GovExact) (e, ⟨[], w⟩) y) : Written e y.2 := by
  refine Timed.invariant (I := fun _ c => Written e c) ?_ (fun _ _ _ hI _ => hI) h
    (GovSetup.deploy_written hw)
  intro env c c' hI hm
  cases hm with
  | enter op w' hb => exact hI.enter hb
  | resume w' hr => exact hI.resume hr

end

/-! ## reading -/

/-- the store that the subgraph makes of some events -/
def read (s : Store) (es : List (Event ChainEvent)) : Option Store := es.foldlM handleChainEvent s

/-- the events as a journal has them -/
def Event.entry (e : Event ChainEvent) : Block × ChainEvent := (e.block, e.params)

theorem read_append {s s' : Store} {es fs : List (Event ChainEvent)} (h : read s es = some s') :
    read s (es ++ fs) = read s' fs := by
  unfold read at h ⊢
  rw [List.foldlM_append, h]
  rfl

/-- a reader that keeps up with what is added keeps up with the journal -/
theorem read_more {js ks : List (Block × ChainEvent)} {R R' : Store → Prop} {s₀ : Store}
    (h : ∀ es, es.map Event.entry = js → ∃ s, read s₀ es = some s ∧ R s)
    (hstep : ∀ s es, R s → es.map Event.entry = ks → ∃ s', read s es = some s' ∧ R' s') :
    ∀ es, es.map Event.entry = js ++ ks → ∃ s, read s₀ es = some s ∧ R' s := by
  intro es hes
  obtain ⟨es1, es2, rfl, h1, h2⟩ := List.map_eq_append_iff.mp hes
  obtain ⟨s, hs, hR⟩ := h es1 h1
  obtain ⟨s', hs', hR'⟩ := hstep s es2 hR h2
  exact ⟨s', (read_append hs).trans hs', hR'⟩

end UNouns.Subgraph
