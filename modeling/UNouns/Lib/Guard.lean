import UNouns.Lib.Reentrant

/-!
# Summaries of calls, and reentrancy guards

`Code.Follows` says what may happen next, and forgets which entry is waiting for what.  Where an
entry has to know what was done while it waited, it is summed up from its beginning to its end.

* `Code.Meets`      the end of an entry stands in `R` to its beginning, each external call in `Q`,
                    provided that what runs inside a call stands in `R` too;
* `Summary`         what `R` and `Q` need for that (`Call.run_meets`, `runTxs_meets`);
* `Guard`           a lock: while it is `held` entries do no more than `Frozen` allows, and entries
                    that find it free keep the invariant `Inv`, on histories that satisfy `Fits`;
* `Guard.invariant` so `Inv` holds wherever the lock is free.
-/

set_option linter.unusedSectionVars false

namespace Reentrant

section
variable {Env S Op X E : Type}

/-- `R c` of the end of the code, `Q c` of its external calls, whatever happens in `R` during these -/
def Code.Meets (R Q : Config Env S Op → Config Env S Op → Prop) (c : Config Env S Op) :
    Code S X E → List (Record Env S Op) → Prop
  | .revert _, _ => True
  | .done s, past => R c ⟨past, s⟩
  | .call _ s k, past =>
    Q c ⟨past, s⟩ ∧ (∀ c', R ⟨past, s⟩ c' → Code.Meets R Q c (k true c'.now) c'.past) ∧
      Code.Meets R Q c (k false s) past

structure Summary (R Q : Config Env S Op → Config Env S Op → Prop) : Prop where
  refl : ∀ c, R c c
  trans : ∀ a b c, R a b → R b c → R a c
  midway : ∀ a b, R a b → Q a b
  through : ∀ a b c, Q a b → Q b c → Q a c

variable {R Q : Config Env S Op → Config Env S Op → Prop} {c : Config Env S Op}

theorem Code.ofExcept_meets {past : List (Record Env S Op)} {r : Except E S}
    (h : ∀ s, r = .ok s → R c ⟨past, s⟩) :
    (Code.ofExcept r : Code S X E).Meets R Q c past := by
  cases r with
  | error e => trivial
  | ok s => exact h s rfl

/-- an entry with one external call at most -/
theorem Code.once_meets_of (hS : Summary R Q) {past : List (Record Env S Op)}
    {after : X → Bool → S → Except E S} {first : Except E (S × Option X)}
    (hfirst : ∀ s x, first = .ok (s, x) → R c ⟨past, s⟩)
    (hafter : ∀ x ok (d : Config Env S Op) s', after x ok d.now = .ok s' → R d ⟨d.past, s'⟩) :
    (Code.once after first).Meets R Q c past := by
  have hrest : ∀ (x : X) (ok : Bool) (d : Config Env S Op), R c d →
      (Code.ofExcept (after x ok d.now) : Code S X E).Meets R Q c d.past := fun x ok d hd =>
    Code.ofExcept_meets fun s h => hS.trans _ _ _ hd (hafter _ _ _ _ h)
  match first, hfirst with
  | .error e, _ => trivial
  | .ok (s, none), hfirst => exact hfirst s none rfl
  | .ok (s, some x), hfirst =>
    have h1 := hfirst s (some x) rfl
    exact ⟨hS.midway _ _ h1, fun c' h => hrest x true c' (hS.trans _ _ _ h1 h),
      hrest x false ⟨past, s⟩ h1⟩

/-- an entry whose only external call is its last act -/
theorem Code.once_meets (hS : Summary R Q) {past : List (Record Env S Op)}
    {after : X → Bool → S → Except E S} {first : Except E (S × Option X)}
    (hfirst : ∀ s x, first = .ok (s, x) → R c ⟨past, s⟩)
    (hafter : ∀ x ok s s', after x ok s = .ok s' → s' = s) :
    (Code.once after first).Meets R Q c past :=
  Code.once_meets_of hS hfirst fun x ok d s' h => by
    rw [hafter _ _ _ _ h]
    exact hS.refl d

theorem Code.quiet_meets (hS : Summary R Q) (env : Env) (k : Code S X E) :
    ∀ past, k.Meets R Q c past →
      (∀ q ∈ (k.quiet env past).1, q.env = env ∧ Q c q.cfg) ∧
        ∀ c', (k.quiet env past).2 = .ok c' → R c c' := by
  induction k with
  | revert e =>
    intro past _
    exact ⟨fun q hq => absurd hq List.not_mem_nil, fun c' h => by cases h⟩
  | done s =>
    intro past hm
    refine ⟨fun q hq => absurd hq List.not_mem_nil, fun c' h => ?_⟩
    cases h
    exact hm
  | call x s k ih =>
    intro past hm
    obtain ⟨hq, ht, _⟩ := hm
    obtain ⟨h1, h2⟩ := ih true s past (ht ⟨past, s⟩ (hS.refl _))
    refine ⟨fun q h => ?_, h2⟩
    rcases List.mem_cons.mp h with rfl | h
    · exact ⟨rfl, hq⟩
    · exact h1 q h

end

section
variable {Env S Op X E : Type} {R Q : Config Env S Op → Config Env S Op → Prop}
  {code : Env → Op → S → Code S X E} (env : Env) (hS : Summary R Q)
  (hcode : ∀ op c, (code env op c.now).Meets R Q c (c.enter env op))
include hS hcode

mutual

/-- **A call is summed up by `R`, whatever the code it calls does.** -/
theorem Call.run_meets (call : Call Op) (c : Config Env S Op) :
    (∀ q ∈ (call.run code env c).1, q.env = env ∧ Q c q.cfg) ∧
      ∀ c', (call.run code env c).2 = .ok c' → R c c' := by
  cases call with
  | mk op rs => exact Replies.run_meets rs c _ _ (hcode op c)

theorem Replies.run_meets (rs : Replies Op) (c : Config Env S Op) (k : Code S X E)
    (past : List (Record Env S Op)) (hm : k.Meets R Q c past) :
    (∀ q ∈ (rs.run code env k past).1, q.env = env ∧ Q c q.cfg) ∧
      ∀ c', (rs.run code env k past).2 = .ok c' → R c c' := by
  cases rs with
  | nil => cases k <;> exact Code.quiet_meets hS env _ past hm
  | cons ok cs rs =>
    cases k with
    | revert e => exact Code.quiet_meets hS env (.revert e) past hm
    | done s => exact Code.quiet_meets hS env (.done s) past hm
    | call x s k =>
      obtain ⟨hq, ht, hf⟩ := hm
      obtain ⟨hb1, hb2⟩ := Batch.run_meets cs ⟨past, s⟩
      have inner : ∀ q ∈ (cs.run code env ⟨past, s⟩).1, q.env = env ∧ Q c q.cfg :=
        fun q h => ⟨(hb1 q h).1, hS.through _ _ _ hq (hb1 q h).2⟩
      have join : ∀ qs : List (Request Env S Op X), (∀ q ∈ qs, q.env = env ∧ Q c q.cfg) →
          ∀ q ∈ ⟨env, ⟨past, s⟩, x⟩ :: (cs.run code env ⟨past, s⟩).1 ++ qs,
            q.env = env ∧ Q c q.cfg := by
        intro qs hqs q h
        rcases List.mem_append.mp h with h | h
        · rcases List.mem_cons.mp h with rfl | h
          · exact ⟨rfl, hq⟩
          · exact inner q h
        · exact hqs q h
      cases ok with
      | true =>
        obtain ⟨h1, h2⟩ := Replies.run_meets rs c (k true _) _ (ht _ hb2)
        exact ⟨join _ h1, h2⟩
      | false =>
        obtain ⟨h1, h2⟩ := Replies.run_meets rs c (k false s) past hf
        exact ⟨join _ h1, h2⟩

theorem Batch.run_meets (cs : Batch Op) (c : Config Env S Op) :
    (∀ q ∈ (cs.run code env c).1, q.env = env ∧ Q c q.cfg) ∧ R c (cs.run code env c).2 := by
  cases cs with
  | nil => exact ⟨fun q hq => absurd hq List.not_mem_nil, hS.refl c⟩
  | cons call rest =>
    obtain ⟨h1, h2⟩ := Call.run_meets call c
    have hc : R c (commit c (call.run code env c).2) := by
      cases hr : (call.run code env c).2 with
      | error e => exact hS.refl c
      | ok c' => exact h2 c' hr
    obtain ⟨h3, h4⟩ := Batch.run_meets rest (commit c (call.run code env c).2)
    refine ⟨fun q h => ?_, hS.trans _ _ _ hc h4⟩
    rcases List.mem_append.mp h with h | h
    · exact h1 q h
    · exact ⟨(h3 q h).1, hS.through _ _ _ (hS.midway _ _ hc) (h3 q h).2⟩

end

theorem Replies.reply_meets (rs : Replies Op) (c : Config Env S Op) :
    R c (rs.reply code env c).2 := by
  cases rs with
  | nil => exact hS.refl c
  | cons ok cs rs =>
    cases ok with
    | true => exact (Batch.run_meets env hS hcode cs c).2
    | false => exact hS.refl c

theorem Call.commit_meets (call : Call Op) (c : Config Env S Op) :
    R c (commit c (call.run code env c).2) := by
  cases hr : (call.run code env c).2 with
  | error e => exact hS.refl c
  | ok c' => exact (Call.run_meets env hS hcode call c).2 c' hr

end

/-! ## runs -/

section
variable {Env S Op X E : Type} [LE Env] {R Q : Env → Config Env S Op → Config Env S Op → Prop}
  {code : Env → Op → S → Code S X E} {J K : Env → Config Env S Op → Prop}

/-- `J` between the transactions, `K` at the external calls within them -/
theorem runTxs_meets (hS : ∀ env, Summary (R env) (Q env))
    (hcode : ∀ env op c, (code env op c.now).Meets (R env) (Q env) c (c.enter env op))
    (hJ : ∀ e c c', J e c → R e c c' → J e c') (hK : ∀ e c c', J e c → Q e c c' → K e c')
    (htick : ∀ e e' c, J e c → e ≤ e' → J e' c) (ts : List (Tx Env Op)) :
    ∀ (e : Env) (c : Config Env S Op), (e :: ts.map Tx.env).IsChain (· ≤ ·) → J e c →
      (∀ q ∈ (runTxs code ts c).1, K q.env q.cfg) ∧ J (lastEnv e ts) (runTxs code ts c).2 := by
  induction ts with
  | nil => exact fun e c _ h => ⟨fun q hq => absurd hq List.not_mem_nil, h⟩
  | cons t ts ih =>
    intro e c hch h
    obtain ⟨hle, hch'⟩ := List.isChain_cons_cons.mp hch
    have h0 := htick _ _ _ h hle
    obtain ⟨h1, _⟩ := Call.run_meets t.env (hS t.env) (hcode t.env) t.call c
    have h2 := hJ _ _ _ h0 (Call.commit_meets t.env (hS t.env) (hcode t.env) t.call c)
    obtain ⟨h3, h4⟩ := ih t.env _ hch' h2
    refine ⟨fun q hq => ?_, h4⟩
    rcases List.mem_append.mp hq with hq | hq
    · obtain ⟨he, hq'⟩ := h1 q hq
      rw [he]
      exact hK _ _ _ h0 hq'
    · exact h3 q hq

end

/-! ## a lock -/

/-- `Fits` is what is assumed of the history -/
structure Guard (Env S Op : Type) where
  held : S → Prop
  Fits : List (Record Env S Op) → Prop
  Frozen : Config Env S Op → Config Env S Op → Prop
  Inv : Env → Config Env S Op → Prop
  fits_of_prefix : ∀ {past past'}, past <+: past' → Fits past' → Fits past
  refl : ∀ {c}, held c.now → Frozen c c
  trans : ∀ {a b c}, Frozen a b → Frozen b c → Frozen a c
  still_held : ∀ {c c'}, Frozen c c' → held c'.now

namespace Guard
variable {Env S Op X E : Type} (g : Guard Env S Op)

/-- from the beginning of a call to its end -/
def Done (env : Env) (c c' : Config Env S Op) : Prop :=
  c.past <+: c'.past ∧ (g.Fits c'.past → (g.held c.now → g.Frozen c c') ∧
    (¬ g.held c.now → g.Inv env c → ¬ g.held c'.now ∧ g.Inv env c'))

/-- from the beginning of a call to an external call within it -/
def Midway (env : Env) (c c' : Config Env S Op) : Prop :=
  c.past <+: c'.past ∧ (g.Fits c'.past → (g.held c.now → g.held c'.now) ∧
    (¬ g.held c.now → g.Inv env c → ¬ g.held c'.now → g.Inv env c'))

variable {g}

/-- to an external call made with the lock taken -/
theorem Midway.of_held {env : Env} {c c' : Config Env S Op} (hp : c.past <+: c'.past)
    (h : g.held c'.now) : g.Midway env c c' :=
  ⟨hp, fun _ => ⟨fun _ => h, fun _ _ hn => absurd h hn⟩⟩

theorem summary (env : Env) : Summary (g.Done env) (g.Midway env) where
  refl c := ⟨List.prefix_refl _, fun _ => ⟨g.refl, fun h hI => ⟨h, hI⟩⟩⟩
  trans a b c := by
    rintro ⟨p1, h1⟩ ⟨p2, h2⟩
    refine ⟨p1.trans p2, fun hf => ?_⟩
    obtain ⟨h1, h1'⟩ := h1 (g.fits_of_prefix p2 hf)
    obtain ⟨h2, h2'⟩ := h2 hf
    refine ⟨fun h => g.trans (h1 h) (h2 (g.still_held (h1 h))), fun h hI => ?_⟩
    exact h2' (h1' h hI).1 (h1' h hI).2
  midway a b := by
    rintro ⟨p, h⟩
    exact ⟨p, fun hf => ⟨fun hh => g.still_held ((h hf).1 hh), fun hh hI _ => ((h hf).2 hh hI).2⟩⟩
  through a b c := by
    rintro ⟨p1, h1⟩ ⟨p2, h2⟩
    refine ⟨p1.trans p2, fun hf => ?_⟩
    obtain ⟨h1, h1'⟩ := h1 (g.fits_of_prefix p2 hf)
    obtain ⟨h2, h2'⟩ := h2 hf
    refine ⟨fun h => h2 (h1 h), fun h hI hc => ?_⟩
    by_cases hb : g.held b.now
    · exact absurd (h2 hb) hc
    · exact h2' hb (h1' h hI hb) hc

variable {code : Env → Op → S → Code S X E}

/-- **The invariant holds wherever the lock is free**, and the lock is free after each
transaction. -/
theorem invariant [LE Env]
    (hcode : ∀ env op c, (code env op c.now).Meets (g.Done env) (g.Midway env) c (c.enter env op))
    (htick : ∀ e e' c, g.Inv e c → e ≤ e' → g.Inv e' c) {ts : List (Tx Env Op)} {e : Env}
    {c : Config Env S Op} (hch : (e :: ts.map Tx.env).IsChain (· ≤ ·)) (hc : ¬ g.held c.now)
    (hI : g.Inv e c) :
    (∀ o ∈ observations code e ts c, g.Fits o.2.past → ¬ g.held o.2.now → g.Inv o.1 o.2) ∧
      (g.Fits (runTxs code ts c).2.past → ¬ g.held (runTxs code ts c).2.now) := by
  obtain ⟨h1, h2⟩ := runTxs_meets (K := fun e c => g.Fits c.past → ¬ g.held c.now → g.Inv e c)
    (J := fun e c => g.Fits c.past → ¬ g.held c.now ∧ g.Inv e c) summary hcode
    (fun e c c' hJ hR hf =>
      have h := hJ (g.fits_of_prefix hR.1 hf)
      (hR.2 hf).2 h.1 h.2)
    (fun e c c' hJ hQ hf hn =>
      have h := hJ (g.fits_of_prefix hQ.1 hf)
      (hQ.2 hf).2 h.1 h.2 hn)
    (fun e e' c hJ hle hf => ⟨(hJ hf).1, htick _ _ _ (hJ hf).2 hle⟩) ts e c hch
    (fun _ => ⟨hc, hI⟩)
  refine ⟨fun o ho => ?_, fun hf => (h2 hf).1⟩
  rcases List.mem_append.mp ho with h | h
  · obtain ⟨q, hq, rfl⟩ := List.mem_map.mp h
    exact h1 q hq
  · rw [List.mem_singleton.mp h]
    exact fun hf _ => (h2 hf).2

end Guard

end Reentrant
