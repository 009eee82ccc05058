import UNouns.Lib.Reentrant

/-!
# What each call of a run did

A run is looked at call by call: how a call began, which calls it made itself and how they ended,
and how it ended.  Calls that are undone later, with the call they were made in, are there too.

* `Report`, `runReports`    the calls of a run, in the order in which they began;
* `InOrder`                 the calls of a list, up to the first that failed;
* `Code.Ends`               code whose end stands in `T` to the calls it has made;
* `runReports_timed`        a call begins where moves alone lead, and it ends in `T`.
-/

set_option linter.unusedSectionVars false

namespace Reentrant
open Relation

structure Report (Env S Op X E : Type) where
  env : Env
  before : Config Env S Op
  op : Op
  /-- the calls it made itself, each with its success flag -/
  calls : List (X × Bool)
  result : Except E (Config Env S Op)

section
variable {Env S Op X E : Type}

/-- calls to addresses without code -/
def Code.quietCalls : Code S X E → List (X × Bool)
  | .revert _ => []
  | .done _ => []
  | .call x s k => (x, true) :: Code.quietCalls (k true s)

variable (code : Env → Op → S → Code S X E) (env : Env)

/-- the calls made by the code of one entry, without those made inside them -/
def Replies.calls : Replies Op → Code S X E → List (Record Env S Op) → List (X × Bool)
  | .nil, k, _ => k.quietCalls
  | .cons _ _ _, .revert _, _ => []
  | .cons _ _ _, .done _, _ => []
  | .cons ok cs rs, .call x s k, past =>
    let b := cs.run code env ⟨past, s⟩
    (x, ok) :: if ok then rs.calls (k true b.2.now) b.2.past else rs.calls (k false s) past

mutual

def Call.reports : Call Op → Config Env S Op → List (Report Env S Op X E)
  | ⟨op, rs⟩, c =>
    ⟨env, c, op, rs.calls code env (code env op c.now) (c.enter env op),
      (Call.mk op rs).run code env c |>.2⟩ :: rs.reports (code env op c.now) (c.enter env op)

def Replies.reports : Replies Op → Code S X E → List (Record Env S Op) →
    List (Report Env S Op X E)
  | .nil, _, _ => []
  | .cons _ _ _, .revert _, _ => []
  | .cons _ _ _, .done _, _ => []
  | .cons ok cs rs, .call _ s k, past =>
    let b := cs.run code env ⟨past, s⟩
    cs.reports ⟨past, s⟩ ++
      if ok then rs.reports (k true b.2.now) b.2.past else rs.reports (k false s) past

def Batch.reports : Batch Op → Config Env S Op → List (Report Env S Op X E)
  | .nil, _ => []
  | .cons call rest, c =>
    call.reports c ++ rest.reports (commit c (call.run code env c).2)

end

def runReports : List (Tx Env Op) → Config Env S Op → List (Report Env S Op X E)
  | [], _ => []
  | t :: ts, c =>
    t.call.reports code t.env c ++ runReports ts (commit c (t.call.run code t.env c).2)

end

/-! ## calls in order -/

section
variable {X : Type}

/-- the calls of `xs`, in order and as far as they got, of which only the last can have failed -/
structure InOrder (xs : List X) (made : List (X × Bool)) : Prop where
  first : made.map Prod.fst <+: xs
  succeeded : ∀ m ∈ made.dropLast, m.2 = true

theorem InOrder.of_succeeded {xs done : List X} (h : done <+: xs) : InOrder xs (done.map (·, true)) := by
  refine ⟨by simpa [List.map_map, Function.comp_def] using h, fun m hm => ?_⟩
  obtain ⟨x, _, rfl⟩ := List.mem_map.mp (List.dropLast_subset _ hm)
  rfl

theorem InOrder.of_failed {xs done : List X} {x : X} (h : done ++ [x] <+: xs) :
    InOrder xs (done.map (·, true) ++ [(x, false)]) := by
  refine ⟨by simpa [List.map_map, Function.comp_def] using h, fun m hm => ?_⟩
  rw [List.dropLast_concat] at hm
  obtain ⟨x, _, rfl⟩ := List.mem_map.mp hm
  rfl

end

/-! ## how a call ends -/

section
variable {Env S Op X E : Type}

/-- `T` of the calls made and of the end, when `made` have been made and whatever happens in `R`
during those to come -/
def Code.Ends (R : Config Env S Op → Config Env S Op → Prop)
    (T : List (X × Bool) → Except E (Config Env S Op) → Prop) :
    Code S X E → List (Record Env S Op) → List (X × Bool) → Prop
  | .revert e, _, made => T made (.error e)
  | .done s, past, made => T made (.ok ⟨past, s⟩)
  | .call x s k, past, made =>
    (∀ c', R ⟨past, s⟩ c' → Code.Ends R T (k true c'.now) c'.past (made ++ [(x, true)])) ∧
      Code.Ends R T (k false s) past (made ++ [(x, false)])

theorem Code.Ends.mono {R : Config Env S Op → Config Env S Op → Prop}
    {T T' : List (X × Bool) → Except E (Config Env S Op) → Prop} (hT : ∀ made r, T made r → T' made r)
    {k : Code S X E} : ∀ {past made}, k.Ends R T past made → k.Ends R T' past made := by
  induction k with
  | revert e => exact fun h => hT _ _ h
  | done s => exact fun h => hT _ _ h
  | call x s k ih => exact fun ⟨h1, h2⟩ => ⟨fun c' hc => ih true c'.now (h1 c' hc), ih false s h2⟩

/-- code that makes no calls but the one of `once` -/
theorem Code.once_ends {R : Config Env S Op → Config Env S Op → Prop}
    {T : List (X × Bool) → Except E (Config Env S Op) → Prop} {past : List (Record Env S Op)}
    {after : X → Bool → S → Except E S} {first : Except E (S × Option X)}
    (herror : ∀ made e, T made (.error e)) (hok : ∀ s x, first = .ok (s, x) → ∀ made c, T made (.ok c)) :
    (Code.once after first).Ends R T past [] := by
  have hrest : ∀ (s : S) (x : Option X), first = .ok (s, x) → ∀ (r : Except E S) past' made,
      (Code.ofExcept r : Code S X E).Ends R T past' made := by
    intro s x h r past' made
    cases r with
    | error e => exact herror made e
    | ok s' => exact hok s x h made _
  match first, hok, hrest with
  | .error e, _, _ => exact herror [] e
  | .ok (s, none), hok, _ => exact hok s none rfl [] _
  | .ok (s, some x), _, hrest => exact ⟨fun c' _ => hrest s _ rfl _ _ _, hrest s _ rfl _ _ _⟩

theorem Code.quiet_ends {R : Config Env S Op → Config Env S Op → Prop} (hrefl : ∀ c, R c c)
    {T : List (X × Bool) → Except E (Config Env S Op) → Prop} (env : Env) (k : Code S X E) :
    ∀ past made, k.Ends R T past made → T (made ++ k.quietCalls) (k.quiet env past).2 := by
  induction k with
  | revert e =>
    intro past made h
    rwa [Code.quietCalls, List.append_nil]
  | done s =>
    intro past made h
    rwa [Code.quietCalls, List.append_nil]
  | call x s k ih =>
    intro past made h
    have h1 := ih true s past _ (h.1 ⟨past, s⟩ (hrefl _))
    rwa [List.append_assoc] at h1

variable {M : Env → Config Env S Op → Config Env S Op → Prop}
  {G : Env → Config Env S Op → X → Prop} {code : Env → Op → S → Code S X E}
  {T : Env → Config Env S Op → Op → List (X × Bool) → Except E (Config Env S Op) → Prop}

section
variable (env : Env)
  (hcode : ∀ op c, (code env op c.now).Follows (M env) (G env) (c.enter env op) c)
include hcode

theorem Replies.run_ends {T : List (X × Bool) → Except E (Config Env S Op) → Prop}
    (rs : Replies Op) (k : Code S X E) (past : List (Record Env S Op)) (made : List (X × Bool))
    (h : k.Ends (ReflTransGen (M env)) T past made) :
    T (made ++ rs.calls code env k past) (rs.run code env k past).2 := by
  cases rs with
  | nil => cases k <;> exact Code.quiet_ends (fun _ => .refl) env _ past made h
  | cons ok cs rs =>
    cases k with
    | revert e => exact Code.quiet_ends (fun _ => .refl) env (.revert e) past made h
    | done s => exact Code.quiet_ends (fun _ => .refl) env (.done s) past made h
    | call x s k =>
      have hb := (Batch.run_moves env hcode cs ⟨past, s⟩).2
      cases ok with
      | true =>
        have h1 := Replies.run_ends rs (k true _) _ _ (h.1 _ hb)
        rwa [List.append_assoc] at h1
      | false =>
        have h1 := Replies.run_ends rs (k false s) past _ h.2
        rwa [List.append_assoc] at h1

variable (hends : ∀ op c,
  (code env op c.now).Ends (ReflTransGen (M env)) (T env c op) (c.enter env op) [])
include hends

mutual

theorem Call.reports_moves (call : Call Op) (c : Config Env S Op) :
    ∀ r ∈ (call.reports code env c), r.env = env ∧ ReflTransGen (M env) c r.before ∧
      T env r.before r.op r.calls r.result := by
  cases call with
  | mk op rs =>
    intro r hr
    rcases List.mem_cons.mp hr with rfl | hr
    · exact ⟨rfl, .refl, Replies.run_ends env hcode rs _ _ [] (hends op c)⟩
    · exact Replies.reports_moves rs _ _ c (hcode op c) r hr

theorem Replies.reports_moves (rs : Replies Op) (k : Code S X E) (past : List (Record Env S Op))
    (c : Config Env S Op) (hf : k.Follows (M env) (G env) past c) :
    ∀ r ∈ (rs.reports code env k past), r.env = env ∧ ReflTransGen (M env) c r.before ∧
      T env r.before r.op r.calls r.result := by
  cases rs with
  | nil => exact fun r hr => absurd hr List.not_mem_nil
  | cons ok cs rs =>
    cases k with
    | revert e => exact fun r hr => absurd hr List.not_mem_nil
    | done s => exact fun r hr => absurd hr List.not_mem_nil
    | call x s k =>
      intro r hr
      obtain ⟨hm, _, ht, hff⟩ := hf
      rcases List.mem_append.mp hr with hr | hr
      · obtain ⟨h1, h2, h3⟩ := Batch.reports_moves cs ⟨past, s⟩ r hr
        exact ⟨h1, hm.trans h2, h3⟩
      · have hb := (Batch.run_moves env hcode cs ⟨past, s⟩).2
        cases ok with
        | true =>
          obtain ⟨h1, h2, h3⟩ := Replies.reports_moves rs (k true _) _ _ (ht _ hb) r hr
          exact ⟨h1, (hm.trans hb).trans h2, h3⟩
        | false =>
          obtain ⟨h1, h2, h3⟩ := Replies.reports_moves rs (k false s) past _ hff r hr
          exact ⟨h1, hm.trans h2, h3⟩

theorem Batch.reports_moves (cs : Batch Op) (c : Config Env S Op) :
    ∀ r ∈ (cs.reports code env c), r.env = env ∧ ReflTransGen (M env) c r.before ∧
      T env r.before r.op r.calls r.result := by
  cases cs with
  | nil => exact fun r hr => absurd hr List.not_mem_nil
  | cons call rest =>
    intro r hr
    rcases List.mem_append.mp hr with hr | hr
    · exact Call.reports_moves call c r hr
    · obtain ⟨h1, h2, h3⟩ := Batch.reports_moves rest _ r hr
      exact ⟨h1, (Call.commit_moves env hcode call c).trans h2, h3⟩

end

end

/-- **A call of a run begins where moves alone lead, and it ends as its code says.** -/
theorem runReports_timed [LE Env]
    (hcode : ∀ env op c, (code env op c.now).Follows (M env) (G env) (c.enter env op) c)
    (hends : ∀ env op c,
      (code env op c.now).Ends (ReflTransGen (M env)) (T env c op) (c.enter env op) [])
    (ts : List (Tx Env Op)) :
    ∀ (e : Env) (c : Config Env S Op), (e :: ts.map Tx.env).IsChain (· ≤ ·) →
      ∀ r ∈ runReports code ts c, ReflTransGen (Timed M) (e, c) (r.env, r.before) ∧
        T r.env r.before r.op r.calls r.result := by
  induction ts with
  | nil => exact fun e c _ r hr => absurd hr List.not_mem_nil
  | cons t ts ih =>
    intro e c hch r hr
    obtain ⟨hle, hch'⟩ := List.isChain_cons_cons.mp hch
    have htick : ReflTransGen (Timed M) (e, c) (t.env, c) := ReflTransGen.single (.tick hle)
    rcases List.mem_append.mp hr with hr | hr
    · obtain ⟨he, h1, h2⟩ := Call.reports_moves t.env (hcode t.env) (hends t.env) t.call c r hr
      rw [he]
      exact ⟨htick.trans (Timed.of_moves h1), h2⟩
    · obtain ⟨h1, h2⟩ := ih t.env _ hch' r hr
      have hcommit := Call.commit_moves t.env (hcode t.env) t.call c
      exact ⟨(htick.trans (Timed.of_moves hcommit)).trans h1, h2⟩

end

end Reentrant
