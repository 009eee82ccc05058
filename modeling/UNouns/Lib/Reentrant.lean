import Mathlib.Logic.Relation
import Mathlib.Order.Defs.PartialOrder
import Mathlib.Data.List.Chain

/-!
# Calls of a contract system with re-entrant external code

A contract system has a state `S`, entry points `Op` and, for each of them, `Code`: what the entry
point does up to its next external call, and how it goes on once that call has come back.  The
code called is not ours.  All that is assumed of it is that it makes finitely many calls back into
the system and then returns or reverts (`Replies`, `Batch`); a revert undoes everything done inside.

* `Call.run`, `runTxs`   the calls that were made to other contracts, and the state at the end;
* `Config`               the state with its `past`: the entries that took effect, in the order in
                         which they began, each with the state it began in;
* `Move`, `Timed`        the same system as a plain transition relation: an entry takes effect, an
                         entry that waited for a call goes on, the environment moves on;
* `Code.once`            code with one external call at most;
* `Code.Follows`         the code of an entry is a sequence of moves, whatever the code it calls
                         does (`Call.run_moves`);
* `observations`         what can be looked at in a run: the configuration at each external call,
                         and the one at the end;
* `runTxs_timed`         so every state a run passes through is reached by moves alone, and an
                         invariant of the moves (`Timed.invariant`, `Timed.invariant_under`) is an
                         invariant of all runs, re-entrant ones included;
* `Config.states`        the states that the history tells of;
* `Linked`               a relation between neighbours in the history.
-/

set_option linter.unusedSectionVars false

namespace Reentrant
open Relation

/-- the code of one entry, cut at its external calls: `call x s resume` hands control to `x` in
the state `s` and goes on with `resume ok s'`, where `ok` is the success flag and `s'` is the state
found afterwards (`s` again after a failure) -/
inductive Code (S X E : Type) where
  | revert (e : E)
  | done (s : S)
  | call (x : X) (s : S) (resume : Bool → S → Code S X E)

/-- code without external calls -/
def Code.ofExcept {S X E : Type} : Except E S → Code S X E
  | .error e => .revert e
  | .ok s => .done s

/-- code with one external call at most: `first` says which, `after` what follows on it -/
def Code.once {S X E : Type} (after : X → Bool → S → Except E S) :
    Except E (S × Option X) → Code S X E
  | .error e => .revert e
  | .ok (s, none) => .done s
  | .ok (s, some x) => .call x s fun ok s => Code.ofExcept (after x ok s)

mutual

/-- an entry, with what the code it calls does -/
inductive Call (Op : Type) where
  | mk (op : Op) (replies : Replies Op)

/-- one reply for each external call; a call beyond the list goes to an address without code -/
inductive Replies (Op : Type) where
  | nil
  | cons (ok : Bool) (calls : Batch Op) (rest : Replies Op)

/-- calls one after the other -/
inductive Batch (Op : Type) where
  | nil
  | cons (c : Call Op) (rest : Batch Op)

end

/-- an entry that took effect -/
structure Record (Env S Op : Type) where
  env : Env
  pre : S
  op : Op

structure Config (Env S Op : Type) where
  past : List (Record Env S Op)
  now : S

/-- the history once `op` has been entered -/
def Config.enter {Env S Op : Type} (c : Config Env S Op) (env : Env) (op : Op) :
    List (Record Env S Op) :=
  c.past ++ [⟨env, c.now, op⟩]

/-- a call made to other code, with the configuration in which it was made -/
structure Request (Env S Op X : Type) where
  env : Env
  cfg : Config Env S Op
  ext : X

/-- a transaction -/
structure Tx (Env Op : Type) where
  env : Env
  call : Call Op

section
variable {Env S Op X E : Type}

/-- the configuration after a call: a failed one leaves everything as it was -/
def commit (c : Config Env S Op) : Except E (Config Env S Op) → Config Env S Op
  | .ok c' => c'
  | .error _ => c

/-! ## execution -/

/-- run code whose external calls all go to addresses without code -/
def Code.quiet (env : Env) (past : List (Record Env S Op)) :
    Code S X E → List (Request Env S Op X) × Except E (Config Env S Op)
  | .revert e => ([], .error e)
  | .done s => ([], .ok ⟨past, s⟩)
  | .call x s k =>
    let r := Code.quiet env past (k true s)
    (⟨env, ⟨past, s⟩, x⟩ :: r.1, r.2)

variable (code : Env → Op → S → Code S X E) (env : Env)

mutual

def Call.run : Call Op → Config Env S Op →
    List (Request Env S Op X) × Except E (Config Env S Op)
  | ⟨op, rs⟩, c => rs.run (code env op c.now) (c.enter env op)

def Replies.run : Replies Op → Code S X E → List (Record Env S Op) →
    List (Request Env S Op X) × Except E (Config Env S Op)
  | _, .revert e, _ => ([], .error e)
  | _, .done s, past => ([], .ok ⟨past, s⟩)
  | .nil, .call x s k, past => Code.quiet env past (.call x s k)
  | .cons ok cs rs, .call x s k, past =>
    let b := cs.run ⟨past, s⟩
    let r := if ok then rs.run (k true b.2.now) b.2.past else rs.run (k false s) past
    (⟨env, ⟨past, s⟩, x⟩ :: b.1 ++ r.1, r.2)

def Batch.run : Batch Op → Config Env S Op → List (Request Env S Op X) × Config Env S Op
  | .nil, c => ([], c)
  | .cons call rest, c =>
    let r := call.run c
    let q := rest.run (commit c r.2)
    (r.1 ++ q.1, q.2)

end

/-- the answer to the next external call, and the configuration that it comes with -/
def Replies.reply (c : Config Env S Op) : Replies Op → Bool × Config Env S Op
  | .nil => (true, c)
  | .cons ok cs _ => if ok then (true, (cs.run code env c).2) else (false, c)

theorem Code.quiet_ofExcept (r : Except E S) (past : List (Record Env S Op)) :
    ((Code.ofExcept r : Code S X E).quiet env past).2 = r.map (Config.mk past) := by
  cases r <;> rfl

/-- what is left of a run once there are no more external calls -/
theorem Replies.run_ofExcept (rs : Replies Op) (r : Except E S) (past : List (Record Env S Op)) :
    (rs.run code env (Code.ofExcept r) past).2 = r.map (Config.mk past) := by
  cases r <;> cases rs <;> rfl

/-- code with one more external call -/
theorem Replies.run_call (rs : Replies Op) (x : X) (s : S) (f : Bool → S → Except E S)
    (past : List (Record Env S Op)) :
    (rs.run code env (.call x s fun ok s => Code.ofExcept (f ok s)) past).2 =
      (f (rs.reply code env ⟨past, s⟩).1 (rs.reply code env ⟨past, s⟩).2.now).map
        (Config.mk (rs.reply code env ⟨past, s⟩).2.past) := by
  cases rs with
  | nil => exact Code.quiet_ofExcept env (f true s) past
  | cons ok cs rs =>
    cases ok with
    | true => exact Replies.run_ofExcept _ _ rs _ _
    | false => exact Replies.run_ofExcept _ _ rs _ _

/-- transactions one after the other -/
def runTxs : List (Tx Env Op) → Config Env S Op →
    List (Request Env S Op X) × Config Env S Op
  | [], c => ([], c)
  | t :: ts, c =>
    let r := t.call.run code t.env c
    let q := runTxs ts (commit c r.2)
    (r.1 ++ q.1, q.2)

/-- the environment at the end of a run that starts at `e` -/
def lastEnv (e : Env) : List (Tx Env Op) → Env
  | [] => e
  | t :: ts => lastEnv t.env ts

/-- where the system can be looked at: in the hands of other code, and at the end of the run -/
def observations (e : Env) (ts : List (Tx Env Op)) (c : Config Env S Op) :
    List (Env × Config Env S Op) :=
  (runTxs code ts c).1.map (fun q => (q.env, q.cfg)) ++ [(lastEnv e ts, (runTxs code ts c).2)]

theorem final_mem_observations (e : Env) (ts : List (Tx Env Op)) (c : Config Env S Op) :
    (lastEnv e ts, (runTxs code ts c).2) ∈ observations code e ts c :=
  List.mem_append_right _ (List.mem_singleton_self _)

theorem lastEnv_cases (e : Env) (ts : List (Tx Env Op)) :
    ts = [] ∧ lastEnv e ts = e ∨ ∃ t ∈ ts, lastEnv e ts = t.env := by
  induction ts generalizing e with
  | nil => exact .inl ⟨rfl, rfl⟩
  | cons t ts ih =>
    rcases ih t.env with ⟨rfl, _⟩ | ⟨u, hu, h⟩
    · exact .inr ⟨t, List.mem_cons_self, rfl⟩
    · exact .inr ⟨u, List.mem_cons_of_mem _ hu, h⟩

/-- a run cut in two -/
theorem isChain_cut [LE Env] {e : Env} {ts us : List (Tx Env Op)}
    (h : (e :: (ts ++ us).map Tx.env).IsChain (· ≤ ·)) :
    (e :: ts.map Tx.env).IsChain (· ≤ ·) ∧ (lastEnv e ts :: us.map Tx.env).IsChain (· ≤ ·) := by
  induction ts generalizing e with
  | nil => exact ⟨List.isChain_singleton e, h⟩
  | cons t ts ih =>
    obtain ⟨h1, h2⟩ := List.isChain_cons_cons.mp h
    obtain ⟨h3, h4⟩ := ih h2
    exact ⟨List.isChain_cons_cons.mpr ⟨h1, h3⟩, h4⟩

theorem runTxs_append (ts us : List (Tx Env Op)) (c : Config Env S Op) :
    (runTxs code (ts ++ us) c).2 = (runTxs code us (runTxs code ts c).2).2 := by
  induction ts generalizing c with
  | nil => rfl
  | cons t ts ih => exact ih _

theorem lastEnv_append (e : Env) (ts us : List (Tx Env Op)) :
    lastEnv e (ts ++ us) = lastEnv (lastEnv e ts) us := by
  induction ts generalizing e with
  | nil => rfl
  | cons t ts ih => exact ih _

end

/-! ## the same system as a transition relation -/

section
variable {Env S Op X E : Type}

/-- `enter`: an entry runs up to its first external call (or its end).  `resume`: an entry that
waited for an external call goes on. -/
inductive Move (Enter : Env → Op → S → S → Prop) (Rest : Env → S → S → Prop) (env : Env) :
    Config Env S Op → Config Env S Op → Prop
  | enter (c : Config Env S Op) (op : Op) (s' : S) (h : Enter env op c.now s') :
      Move Enter Rest env c ⟨c.enter env op, s'⟩
  | resume (c : Config Env S Op) (s' : S) (h : Rest env c.now s') :
      Move Enter Rest env c ⟨c.past, s'⟩

variable {Enter : Env → Op → S → S → Prop} {Rest : Env → S → S → Prop}

theorem Move.past_prefix {env : Env} {c c' : Config Env S Op} (h : Move Enter Rest env c c') :
    c.past <+: c'.past := by
  cases h with
  | enter op s' h => exact List.prefix_append _ _
  | resume s' h => exact List.prefix_refl _

theorem Moves.past_prefix {env : Env} {c c' : Config Env S Op}
    (h : ReflTransGen (Move Enter Rest env) c c') : c.past <+: c'.past := by
  induction h with
  | refl => exact List.prefix_refl _
  | tail _ hm ih => exact ih.trans hm.past_prefix

/-- code that, from the configuration `c` on, does nothing but moves, whatever the called code
does; `G` holds at each external call -/
def Code.Follows (M : Config Env S Op → Config Env S Op → Prop) (G : Config Env S Op → X → Prop) :
    Code S X E → List (Record Env S Op) → Config Env S Op → Prop
  | .revert _, _, _ => True
  | .done s, past, c => ReflTransGen M c ⟨past, s⟩
  | .call x s k, past, c =>
    ReflTransGen M c ⟨past, s⟩ ∧ G ⟨past, s⟩ x ∧
      (∀ c', ReflTransGen M ⟨past, s⟩ c' → Code.Follows M G (k true c'.now) c'.past c') ∧
      Code.Follows M G (k false s) past ⟨past, s⟩

theorem Code.Follows.from {M : Config Env S Op → Config Env S Op → Prop}
    {G : Config Env S Op → X → Prop} {k : Code S X E} {past : List (Record Env S Op)}
    {c d : Config Env S Op} (hk : k.Follows M G past d) (h : ReflTransGen M c d) :
    k.Follows M G past c := by
  cases k with
  | revert e => trivial
  | done s => exact h.trans hk
  | call x s k => exact ⟨h.trans hk.1, hk.2⟩

theorem Code.once_follows_of {M : Config Env S Op → Config Env S Op → Prop} {c : Config Env S Op}
    {past : List (Record Env S Op)} {G : Config Env S Op → X → Prop}
    {after : X → Bool → S → Except E S} {first : Except E (S × Option X)}
    (hfirst : ∀ s x, first = .ok (s, x) → M c ⟨past, s⟩ ∧ ∀ y ∈ x, G ⟨past, s⟩ y)
    (hafter : ∀ x ok (d : Config Env S Op) s', after x ok d.now = .ok s' →
      ReflTransGen M d ⟨d.past, s'⟩) :
    (Code.once after first).Follows M G past c := by
  have hrest : ∀ (x : X) (ok : Bool) (d : Config Env S Op), Code.Follows M G
      (Code.ofExcept (after x ok d.now)) d.past d := by
    intro x ok d
    cases h : after x ok d.now with
    | error e => trivial
    | ok s' => exact hafter x ok d s' h
  match first, hfirst with
  | .error e, _ => trivial
  | .ok (s, none), hfirst => exact ReflTransGen.single (hfirst s none rfl).1
  | .ok (s, some x), hfirst =>
    obtain ⟨he, hg⟩ := hfirst s (some x) rfl
    exact ⟨ReflTransGen.single he, hg x rfl, fun c' _ => hrest x true c', hrest x false ⟨past, s⟩⟩

theorem Code.once_follows {env : Env} {op : Op} {c : Config Env S Op}
    {G : Config Env S Op → X → Prop} {after : X → Bool → S → Except E S}
    {first : Except E (S × Option X)}
    (hfirst : ∀ s x, first = .ok (s, x) → Enter env op c.now s ∧ ∀ y ∈ x, G ⟨c.enter env op, s⟩ y)
    (hafter : ∀ x ok s s', after x ok s = .ok s' → s' = s ∨ Rest env s s') :
    (Code.once after first).Follows (Move Enter Rest env) G (c.enter env op) c := by
  refine Code.once_follows_of (fun s x h => ⟨.enter c op s (hfirst s x h).1, (hfirst s x h).2⟩) ?_
  intro x ok d s' h
  rcases hafter _ _ _ _ h with rfl | hs
  · exact .refl
  · exact .single (.resume d s' hs)

/-- what `Call.run_moves` says of a result -/
def Reaches (M : Config Env S Op → Config Env S Op → Prop) (G : Config Env S Op → X → Prop)
    (env : Env) (c : Config Env S Op) (qs : List (Request Env S Op X)) : Prop :=
  ∀ q ∈ qs, q.env = env ∧ ReflTransGen M c q.cfg ∧ G q.cfg q.ext

theorem Reaches.from {M : Config Env S Op → Config Env S Op → Prop}
    {G : Config Env S Op → X → Prop} {env : Env} {b c : Config Env S Op}
    {qs : List (Request Env S Op X)} (h : Reaches M G env c qs) (hb : ReflTransGen M b c) :
    Reaches M G env b qs := by
  intro q hq
  obtain ⟨he, hr, hg⟩ := h q hq
  exact ⟨he, hb.trans hr, hg⟩

theorem Reaches.append {M : Config Env S Op → Config Env S Op → Prop}
    {G : Config Env S Op → X → Prop} {env : Env} {c : Config Env S Op}
    {qs rs : List (Request Env S Op X)} (h1 : Reaches M G env c qs) (h2 : Reaches M G env c rs) :
    Reaches M G env c (qs ++ rs) := by
  intro q hq
  rcases List.mem_append.mp hq with h | h
  · exact h1 q h
  · exact h2 q h

theorem Reaches.cons {M : Config Env S Op → Config Env S Op → Prop}
    {G : Config Env S Op → X → Prop} {env : Env} {c d : Config Env S Op} {x : X}
    {qs : List (Request Env S Op X)} (hd : ReflTransGen M c d) (hg : G d x)
    (h : Reaches M G env c qs) : Reaches M G env c (⟨env, d, x⟩ :: qs) := by
  intro q hq
  rcases List.mem_cons.mp hq with rfl | h'
  · exact ⟨rfl, hd, hg⟩
  · exact h q h'

theorem Code.quiet_moves {M : Config Env S Op → Config Env S Op → Prop}
    {G : Config Env S Op → X → Prop} (env : Env) (k : Code S X E) :
    ∀ (past : List (Record Env S Op)) (c : Config Env S Op), k.Follows M G past c →
      Reaches M G env c (k.quiet env past).1 ∧
        ∀ c', (k.quiet env past).2 = .ok c' → ReflTransGen M c c' := by
  induction k with
  | revert e =>
    intro past c _
    exact ⟨fun q hq => absurd hq List.not_mem_nil, fun c' h => by cases h⟩
  | done s =>
    intro past c hf
    refine ⟨fun q hq => absurd hq List.not_mem_nil, fun c' h => ?_⟩
    cases h
    exact hf
  | call x s k ih =>
    intro past c hf
    obtain ⟨hm, hg, ht, _⟩ := hf
    obtain ⟨h1, h2⟩ := ih true s past ⟨past, s⟩ (ht ⟨past, s⟩ ReflTransGen.refl)
    exact ⟨(h1.from hm).cons hm hg, fun c' h => hm.trans (h2 c' h)⟩

section
variable {M : Env → Config Env S Op → Config Env S Op → Prop}
  {G : Env → Config Env S Op → X → Prop} {code : Env → Op → S → Code S X E} (env : Env)
  (hcode : ∀ op c, (code env op c.now).Follows (M env) (G env) (c.enter env op) c)
include hcode

mutual

/-- **Whatever the called code does, a call is a sequence of moves.** -/
theorem Call.run_moves (call : Call Op) (c : Config Env S Op) :
    Reaches (M env) (G env) env c (call.run code env c).1 ∧
      ∀ c', (call.run code env c).2 = .ok c' → ReflTransGen (M env) c c' := by
  cases call with
  | mk op rs => exact Replies.run_moves rs _ _ c (hcode op c)

theorem Replies.run_moves (rs : Replies Op) (k : Code S X E) (past : List (Record Env S Op))
    (c : Config Env S Op) (hf : k.Follows (M env) (G env) past c) :
    Reaches (M env) (G env) env c (rs.run code env k past).1 ∧
      ∀ c', (rs.run code env k past).2 = .ok c' → ReflTransGen (M env) c c' := by
  cases rs with
  | nil => cases k <;> exact Code.quiet_moves env _ past c hf
  | cons ok cs rs =>
    cases k with
    | revert e => exact Code.quiet_moves env (.revert e) past c hf
    | done s => exact Code.quiet_moves env (.done s) past c hf
    | call x s k =>
      obtain ⟨hm, hg, ht, hff⟩ := hf
      obtain ⟨hb1, hb2⟩ := Batch.run_moves cs ⟨past, s⟩
      cases ok with
      | true =>
        obtain ⟨h1, h2⟩ := Replies.run_moves rs (k true _) _ _ (ht _ hb2)
        exact ⟨((hb1.append (h1.from hb2)).from hm).cons hm hg,
          fun c' h => (hm.trans hb2).trans (h2 c' h)⟩
      | false =>
        obtain ⟨h1, h2⟩ := Replies.run_moves rs (k false s) past _ hff
        exact ⟨((hb1.append h1).from hm).cons hm hg, fun c' h => hm.trans (h2 c' h)⟩

theorem Batch.run_moves (cs : Batch Op) (c : Config Env S Op) :
    Reaches (M env) (G env) env c (cs.run code env c).1 ∧
      ReflTransGen (M env) c (cs.run code env c).2 := by
  cases cs with
  | nil => exact ⟨fun q hq => absurd hq List.not_mem_nil, ReflTransGen.refl⟩
  | cons call rest =>
    obtain ⟨h1, h2⟩ := Call.run_moves call c
    have hc : ReflTransGen (M env) c (commit c (call.run code env c).2) := by
      cases hr : (call.run code env c).2 with
      | error e => exact ReflTransGen.refl
      | ok c' => exact h2 c' hr
    obtain ⟨h3, h4⟩ := Batch.run_moves rest (commit c (call.run code env c).2)
    exact ⟨h1.append (h3.from hc), hc.trans h4⟩

end

theorem Call.commit_moves (call : Call Op) (c : Config Env S Op) :
    ReflTransGen (M env) c (commit c (call.run code env c).2) := by
  cases hr : (call.run code env c).2 with
  | error e => exact ReflTransGen.refl
  | ok c' => exact (Call.run_moves env hcode call c).2 c' hr

end

/-! ## runs over time -/

/-- a move, or the environment moving on between two transactions -/
inductive Timed [LE Env] (M : Env → Config Env S Op → Config Env S Op → Prop) :
    Env × Config Env S Op → Env × Config Env S Op → Prop
  | move {e : Env} {c c' : Config Env S Op} (h : M e c c') : Timed M (e, c) (e, c')
  | tick {e e' : Env} {c : Config Env S Op} (h : e ≤ e') : Timed M (e, c) (e', c)

theorem Timed.of_moves [LE Env] {M : Env → Config Env S Op → Config Env S Op → Prop} {e : Env}
    {c c' : Config Env S Op} (h : ReflTransGen (M e) c c') :
    ReflTransGen (Timed M) (e, c) (e, c') := by
  induction h with
  | refl => exact ReflTransGen.refl
  | tail _ hm ih => exact ih.tail (.move hm)

variable {M : Env → Config Env S Op → Config Env S Op → Prop}
  {G : Env → Config Env S Op → X → Prop} {code : Env → Op → S → Code S X E}

/-- **Every configuration a run passes through is reached by moves**, provided that the environment
only moves forward. -/
theorem runTxs_timed [LE Env]
    (hcode : ∀ env op c, (code env op c.now).Follows (M env) (G env) (c.enter env op) c)
    (ts : List (Tx Env Op)) :
    ∀ (e : Env) (c : Config Env S Op), (e :: ts.map Tx.env).IsChain (· ≤ ·) →
      (∀ q ∈ (runTxs code ts c).1,
        ReflTransGen (Timed M) (e, c) (q.env, q.cfg) ∧ G q.env q.cfg q.ext) ∧
      ReflTransGen (Timed M) (e, c) (lastEnv e ts, (runTxs code ts c).2) := by
  induction ts with
  | nil =>
    intro e c _
    exact ⟨fun q hq => absurd hq List.not_mem_nil, ReflTransGen.refl⟩
  | cons t ts ih =>
    intro e c hch
    obtain ⟨hle, hch'⟩ := List.isChain_cons_cons.mp hch
    have htick : ReflTransGen (Timed M) (e, c) (t.env, c) := ReflTransGen.single (.tick hle)
    obtain ⟨h1, _⟩ := Call.run_moves t.env (hcode t.env) t.call c
    have hcommit := Call.commit_moves t.env (hcode t.env) t.call c
    obtain ⟨h3, h4⟩ := ih t.env (commit c (t.call.run code t.env c).2) hch'
    have hmid := htick.trans (Timed.of_moves hcommit)
    refine ⟨fun q hq => ?_, hmid.trans h4⟩
    rcases List.mem_append.mp hq with h | h
    · obtain ⟨he, hr, hg⟩ := h1 q h
      rw [he]
      exact ⟨htick.trans (Timed.of_moves hr), hg⟩
    · obtain ⟨hr, hg⟩ := h3 q h
      exact ⟨hmid.trans hr, hg⟩

theorem observations_timed [LE Env]
    (hcode : ∀ env op c, (code env op c.now).Follows (M env) (G env) (c.enter env op) c)
    {ts : List (Tx Env Op)} {e : Env} {c : Config Env S Op}
    (hch : (e :: ts.map Tx.env).IsChain (· ≤ ·)) {o : Env × Config Env S Op}
    (ho : o ∈ observations code e ts c) : ReflTransGen (Timed M) (e, c) o := by
  obtain ⟨h1, h2⟩ := runTxs_timed hcode ts e c hch
  rcases List.mem_append.mp ho with h | h
  · obtain ⟨q, hq, rfl⟩ := List.mem_map.mp h
    exact (h1 q hq).1
  · rw [List.mem_singleton.mp h]
    exact h2

/-- a configuration of a run is the first one, or is reached by moves from the first one at a time
that `Q` allows, if it allows the times of all transactions -/
theorem observations_after [LE Env] (hrefl : ∀ e : Env, e ≤ e)
    (hcode : ∀ env op c, (code env op c.now).Follows (M env) (G env) (c.enter env op) c)
    {ts : List (Tx Env Op)} {e : Env} {c : Config Env S Op}
    (hch : (e :: ts.map Tx.env).IsChain (· ≤ ·)) {Q : Env → Prop} (hQ : ∀ t ∈ ts, Q t.env)
    {o : Env × Config Env S Op} (ho : o ∈ observations code e ts c) :
    o = (e, c) ∨ ∃ e', e ≤ e' ∧ Q e' ∧ ReflTransGen (Timed M) (e', c) o := by
  cases ts with
  | nil => exact .inl (List.mem_singleton.mp ho)
  | cons t ts =>
    obtain ⟨hle, hch'⟩ := List.isChain_cons_cons.mp hch
    have hch2 : (t.env :: (t :: ts).map Tx.env).IsChain (· ≤ ·) :=
      List.isChain_cons_cons.mpr ⟨hrefl t.env, hch'⟩
    exact .inr ⟨t.env, hle, hQ t List.mem_cons_self, observations_timed (e := t.env) hcode hch2 ho⟩

/-- an invariant of the moves that time does not break holds in every configuration reached -/
theorem Timed.invariant [LE Env] {I : Env → Config Env S Op → Prop}
    (hmove : ∀ e c c', I e c → M e c c' → I e c')
    (htick : ∀ e e' c, I e c → e ≤ e' → I e' c) {a b : Env × Config Env S Op}
    (h : ReflTransGen (Timed M) a b) (ha : I a.1 a.2) : I b.1 b.2 := by
  induction h with
  | refl => exact ha
  | tail _ hs ih =>
    cases hs with
    | move hm => exact hmove _ _ _ ih hm
    | tick hle => exact htick _ _ _ ih hle

/-- the same for an invariant that only runs satisfying `P` keep, where `P` can be read off the
history and so held all along if it holds at the end -/
theorem Timed.invariant_under [LE Env] {I : Env → Config Env S Op → Prop}
    {P : Config Env S Op → Prop} (hback : ∀ e c c', M e c c' → P c' → P c)
    (hmove : ∀ e c c', P c → P c' → I e c → M e c c' → I e c')
    (htick : ∀ e e' c, I e c → e ≤ e' → I e' c) {a b : Env × Config Env S Op}
    (h : ReflTransGen (Timed M) a b) (ha : I a.1 a.2) : P b.2 → I b.1 b.2 := by
  induction h with
  | refl => exact fun _ => ha
  | tail _ hs ih =>
    intro hP
    cases hs with
    | move hm => exact hmove _ _ _ (hback _ _ _ hm hP) hP (ih (hback _ _ _ hm hP)) hm
    | tick hle => exact htick _ _ _ (ih hP) hle

/-- where the system was right after an entry of its history -/
def Config.cut (c : Config Env S Op) (before : List (Record Env S Op)) (r : Record Env S Op)
    (after : List (Record Env S Op)) : Config Env S Op :=
  ⟨before ++ [r], (after.head?.map Record.pre).getD c.now⟩

/-- what holds of every configuration reached holds of those that the history tells of -/
theorem Timed.cut [LE Env] {Enter : Env → Op → S → S → Prop} {Rest : Env → S → S → Prop}
    {K : Config Env S Op → Prop} {a b : Env × Config Env S Op}
    (h : ReflTransGen (Timed (Move Enter Rest)) a b)
    (hK : ∀ y, ReflTransGen (Timed (Move Enter Rest)) a y → K y.2) (ha : a.2.past = []) :
    ∀ before r after, b.2.past = before ++ r :: after → K (b.2.cut before r after) := by
  induction h with
  | refl =>
    intro before r after hpast
    rw [ha] at hpast
    exact absurd (congrArg List.length hpast) (by simp)
  | @tail y z hy hs ih =>
    cases hs with
    | tick hle => exact ih
    | @move e c c' hm =>
      have hnow : K c' := hK (e, c') (hy.tail (.move hm))
      cases hm with
      | enter op s h =>
        intro before r after hpast
        rcases List.eq_nil_or_concat after with rfl | ⟨after', x, rfl⟩
        · have hp : c.enter e op = before ++ [r] := hpast
          show K ⟨before ++ [r], s⟩
          rw [← hp]
          exact hnow
        · have hp : c.past ++ [⟨e, c.now, op⟩] = (before ++ r :: after') ++ [x] := by
            simpa [Config.enter] using hpast
          obtain ⟨h1, h2⟩ := List.append_inj' hp rfl
          have h3 := ih before r after' h1
          rw [← List.singleton_inj.mp h2]
          cases after' <;> exact h3
      | resume s h =>
        intro before r after hpast
        cases after with
        | nil =>
          have hp : c.past = before ++ [r] := hpast
          show K ⟨before ++ [r], s⟩
          rw [← hp]
          exact hnow
        | cons x xs => exact ih before r (x :: xs) hpast

/-! ## the states of a history -/

/-- the states in which the entries of the history began, and the one now -/
def Config.states (c : Config Env S Op) : List S := c.past.map Record.pre ++ [c.now]

theorem Config.now_mem_states (c : Config Env S Op) : c.now ∈ c.states :=
  List.mem_append_right _ (List.mem_singleton_self _)

/-- the states after a move are some of those before it, and the new one -/
theorem Move.states {Enter : Env → Op → S → S → Prop} {Rest : Env → S → S → Prop} {env : Env}
    {c c' : Config Env S Op} (hm : Move Enter Rest env c c') :
    ∃ before, before <+: c.states ∧ c'.states = before ++ [c'.now] := by
  cases hm with
  | enter op s' h =>
    refine ⟨c.states, List.prefix_refl _, ?_⟩
    simp [Config.states, Config.enter]
  | resume s' h => exact ⟨c.past.map Record.pre, List.prefix_append _ _, rfl⟩

/-- what holds between the states of each move holds between any two, the earlier one first -/
theorem Move.pairwise {Enter : Env → Op → S → S → Prop} {Rest : Env → S → S → Prop} {env : Env}
    {c c' : Config Env S Op} {R : S → S → Prop} (htrans : ∀ x y z, R x y → R y z → R x z)
    (hm : Move Enter Rest env c c') (hc : c.states.Pairwise R) (hnow : R c.now c'.now) :
    c'.states.Pairwise R := by
  obtain ⟨before, hbefore, hstates⟩ := hm.states
  rw [hstates]
  refine List.pairwise_append.mpr ⟨hc.sublist hbefore.sublist, List.pairwise_singleton _ _, ?_⟩
  intro x hx y hy
  rw [List.mem_singleton.mp hy]
  rcases List.mem_append.mp (hbefore.subset hx) with h | h
  · exact htrans x _ _ ((List.pairwise_append.mp hc).2.2 x h _ (List.mem_singleton_self _)) hnow
  · rw [List.mem_singleton.mp h]
    exact hnow

/-! ## neighbours in a history -/

/-- a statement on each cut of a longer list -/
theorem forall_cuts_concat {α : Type} {l : List α} {a : α} {p : List α → α → List α → Prop} :
    (∀ xs r ys, l ++ [a] = xs ++ r :: ys → p xs r ys) ↔
      (∀ xs r ys, l = xs ++ r :: ys → p xs r (ys ++ [a])) ∧ p l a [] := by
  refine ⟨fun h => ⟨fun xs r ys e => h xs r (ys ++ [a]) (by simp [e]), h l a [] rfl⟩, ?_⟩
  rintro ⟨h1, h2⟩ xs r ys e
  rcases List.eq_nil_or_concat ys with rfl | ⟨ys, y, rfl⟩
  · obtain ⟨e1, e2⟩ := List.append_inj' e rfl
    rw [← e1, ← List.singleton_inj.mp e2]
    exact h2
  · have hp : l ++ [a] = (xs ++ r :: ys) ++ [y] := by simpa using e
    obtain ⟨e1, e2⟩ := List.append_inj' hp rfl
    rw [List.concat_eq_append, ← e2]
    exact h1 xs r ys e1

/-- each entry of the history stands in `R` to the state in which the next one began, the last one to
the state now -/
def Linked (R : Record Env S Op → S → Prop) (c : Config Env S Op) : Prop :=
  ∀ before r after, c.past = before ++ r :: after →
    R r ((after.head?.map Record.pre).getD c.now)

theorem Linked.nil {R : Record Env S Op → S → Prop} (s : S) :
    Linked R (⟨[], s⟩ : Config Env S Op) := by
  intro before r after h
  simp at h

/-- an entry is made, and leaves the state `s` -/
theorem Linked.enter {R : Record Env S Op → S → Prop} {env : Env} {c : Config Env S Op} {op : Op}
    {s : S} (hc : Linked R c) (h : R ⟨env, c.now, op⟩ s) : Linked R ⟨c.enter env op, s⟩ := by
  refine forall_cuts_concat.mpr ⟨fun before r after hpast => ?_, h⟩
  have h1 := hc before r after hpast
  cases after with
  | nil => exact h1
  | cons x xs => exact h1

/-- the state now gives way to another one -/
theorem Linked.rest {R : Record Env S Op → S → Prop} {past : List (Record Env S Op)} {s s' : S}
    (h : Linked R ⟨past, s⟩) (hs : ∀ r ∈ past, R r s → R r s') : Linked R ⟨past, s'⟩ := by
  intro before r after (hpast : past = _)
  have hr := h before r after hpast
  cases after with
  | nil => exact hs r (hpast ▸ List.mem_append_right _ (List.mem_singleton_self r)) hr
  | cons x xs => exact hr

theorem Linked.move {R : Record Env S Op → S → Prop} {Enter : Env → Op → S → S → Prop}
    {Rest : Env → S → S → Prop} {env : Env} {c c' : Config Env S Op} (hc : Linked R c)
    (hm : Move Enter Rest env c c') (henter : ∀ op s, Enter env op c.now s → R ⟨env, c.now, op⟩ s)
    (hrest : ∀ r s s', R r s → Rest env s s' → R r s') : Linked R c' := by
  cases hm with
  | enter op s' h => exact hc.enter (henter op s' h)
  | resume s' h => exact hc.rest fun r _ hr => hrest r _ _ hr h

end

end Reentrant
