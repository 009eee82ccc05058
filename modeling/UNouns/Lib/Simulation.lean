import UNouns.Lib.Reports

/-!
# Two systems side by side

One system of contracts is put in the place of another.  Both get the same calls, with the same
replies of the code they call; the second gets some more, to which the first is blind.

* `Interleaved`        a list, and another with further elements in between;
* `Call.Fits`, `Fit`   the calls of the two systems, and their transactions;
* `Alike`              two computations that both fail, or both end in related values;
* `Code.Sim`           two codes that make the same calls and end alike;
* `Simulation`         what has to be shown of single entries;
* `runTxs_sim`         the states at the end are related, and call by call the runs end alike.
-/

set_option linter.unusedSectionVars false

namespace Reentrant

/-! ## lists with further elements in between -/

inductive Interleaved {α β : Type} (r : α → β → Prop) (skip : β → Prop) : List α → List β → Prop
  | nil : Interleaved r skip [] []
  | cons {a : α} {b : β} {as : List α} {bs : List β} (h : r a b) (t : Interleaved r skip as bs) :
      Interleaved r skip (a :: as) (b :: bs)
  | skip {b : β} {as : List α} {bs : List β} (h : skip b) (t : Interleaved r skip as bs) :
      Interleaved r skip as (b :: bs)

theorem Interleaved.append {α β : Type} {r : α → β → Prop} {skip : β → Prop} {as as' : List α}
    {bs bs' : List β} (h : Interleaved r skip as bs) (h' : Interleaved r skip as' bs') :
    Interleaved r skip (as ++ as') (bs ++ bs') := by
  induction h with
  | nil => exact h'
  | cons h _ ih => exact .cons h ih
  | skip h _ ih => exact .skip h ih

/-! ## calls -/

section
variable {Op₁ Op₂ : Type} (m : Op₁ → Op₂ → Prop) (skip : Op₂ → Prop)

mutual

/-- the same call of both systems -/
inductive Call.Fits : Call Op₁ → Call Op₂ → Prop
  | mk {op₁ : Op₁} {op₂ : Op₂} {rs₁ : Replies Op₁} {rs₂ : Replies Op₂} (h : m op₁ op₂)
      (hr : Replies.Fits rs₁ rs₂) : Call.Fits (.mk op₁ rs₁) (.mk op₂ rs₂)

inductive Replies.Fits : Replies Op₁ → Replies Op₂ → Prop
  | nil : Replies.Fits .nil .nil
  | cons {ok : Bool} {cs₁ : Batch Op₁} {cs₂ : Batch Op₂} {rs₁ : Replies Op₁} {rs₂ : Replies Op₂}
      (hc : Batch.Fits cs₁ cs₂) (hr : Replies.Fits rs₁ rs₂) :
      Replies.Fits (.cons ok cs₁ rs₁) (.cons ok cs₂ rs₂)

/-- the second system may get further calls -/
inductive Batch.Fits : Batch Op₁ → Batch Op₂ → Prop
  | nil : Batch.Fits .nil .nil
  | cons {c₁ : Call Op₁} {c₂ : Call Op₂} {b₁ : Batch Op₁} {b₂ : Batch Op₂}
      (hc : Call.Fits c₁ c₂) (hb : Batch.Fits b₁ b₂) : Batch.Fits (.cons c₁ b₁) (.cons c₂ b₂)
  | skip {op₂ : Op₂} {rs₂ : Replies Op₂} {b₁ : Batch Op₁} {b₂ : Batch Op₂} (h : skip op₂)
      (hb : Batch.Fits b₁ b₂) : Batch.Fits b₁ (.cons (.mk op₂ rs₂) b₂)

end

def Call.op {Op : Type} : Call Op → Op
  | .mk op _ => op

end

/-- the transactions of the two systems -/
def Fit {Env Op₁ Op₂ : Type} (m : Env → Op₁ → Op₂ → Prop) (skip : Op₂ → Prop)
    (ts₁ : List (Tx Env Op₁)) (ts₂ : List (Tx Env Op₂)) : Prop :=
  Interleaved (fun t₁ t₂ => t₁.env = t₂.env ∧ Call.Fits (m t₂.env) skip t₁.call t₂.call)
    (fun t₂ => skip t₂.call.op) ts₁ ts₂

/-! ## computations -/

/-- both fail, or both end in related values -/
inductive Alike {E₁ E₂ α β : Type} (R : α → β → Prop) : Except E₁ α → Except E₂ β → Prop
  | error (e₁ : E₁) (e₂ : E₂) : Alike R (.error e₁) (.error e₂)
  | ok (a : α) (b : β) (h : R a b) : Alike R (.ok a) (.ok b)

theorem Alike.refl {E α : Type} (r : Except E α) : Alike Eq r r := by
  cases r with
  | error e => exact .error e e
  | ok a => exact .ok a a rfl

theorem Alike.bind {E₁ E₂ α β γ δ : Type} {R : α → β → Prop} {Q : γ → δ → Prop} {r₁ : Except E₁ α}
    {r₂ : Except E₂ β} {f : α → Except E₁ γ} {g : β → Except E₂ δ} (h : Alike R r₁ r₂)
    (hf : ∀ a b, R a b → Alike Q (f a) (g b)) : Alike Q (r₁ >>= f) (r₂ >>= g) := by
  cases h with
  | error e₁ e₂ => exact .error e₁ e₂
  | ok a b h => exact hf a b h

/-- two computations that begin with the same -/
theorem Alike.after {E α γ δ : Type} {Q : γ → δ → Prop} (r : Except E α) {f : α → Except E γ}
    {g : α → Except E δ} (hf : ∀ a, Alike Q (f a) (g a)) : Alike Q (r >>= f) (r >>= g) :=
  (Alike.refl r).bind fun a _ e => e ▸ hf a

theorem Alike.map {E₁ E₂ α β γ δ : Type} {R : α → β → Prop} {Q : γ → δ → Prop} {r₁ : Except E₁ α}
    {r₂ : Except E₂ β} {f : α → γ} {g : β → δ} (h : Alike R r₁ r₂)
    (hf : ∀ a b, R a b → Q (f a) (g b)) : Alike Q (r₁.map f) (r₂.map g) := by
  cases h with
  | error e₁ e₂ => exact .error e₁ e₂
  | ok a b h => exact .ok _ _ (hf a b h)

/-! ## code -/

section
variable {Env S₁ S₂ Op₁ Op₂ X E₁ E₂ : Type} (R : S₁ → S₂ → Prop)

/-- the same calls, in related states, and both ends are reverts or related states -/
def Code.Sim : Code S₁ X E₁ → Code S₂ X E₂ → Prop
  | .revert _, .revert _ => True
  | .done s₁, .done s₂ => R s₁ s₂
  | .call x₁ s₁ k₁, .call x₂ s₂ k₂ =>
    x₁ = x₂ ∧ R s₁ s₂ ∧ (∀ s₁' s₂', R s₁' s₂' → Code.Sim (k₁ true s₁') (k₂ true s₂')) ∧
      Code.Sim (k₁ false s₁) (k₂ false s₂)
  | _, _ => False

/-- no call, and nothing the state `s₁` would show -/
def Code.Silent (s₁ : S₁) : Code S₂ X E₂ → Prop
  | .revert _ => True
  | .done s₂ => R s₁ s₂
  | .call _ _ _ => False

theorem Code.ofExcept_sim {r₁ : Except E₁ S₁} {r₂ : Except E₂ S₂} (h : Alike R r₁ r₂) :
    Code.Sim R (Code.ofExcept r₁ : Code S₁ X E₁) (Code.ofExcept r₂ : Code S₂ X E₂) := by
  cases h with
  | error => trivial
  | ok a b h => exact h

theorem Code.once_sim {after₁ : X → Bool → S₁ → Except E₁ S₁} {after₂ : X → Bool → S₂ → Except E₂ S₂}
    {first₁ : Except E₁ (S₁ × Option X)} {first₂ : Except E₂ (S₂ × Option X)}
    (hfirst : Alike (fun a b => R a.1 b.1 ∧ a.2 = b.2) first₁ first₂)
    (hafter : ∀ x ok t₁ t₂, R t₁ t₂ → Alike R (after₁ x ok t₁) (after₂ x ok t₂)) :
    Code.Sim R (Code.once after₁ first₁) (Code.once after₂ first₂) := by
  cases hfirst with
  | error => trivial
  | ok a b h =>
    obtain ⟨s₁, x⟩ := a
    obtain ⟨s₂, _⟩ := b
    obtain ⟨h, rfl⟩ := h
    cases x with
    | none => exact h
    | some x =>
      have hrest := fun ok t₁ t₂ ht => Code.ofExcept_sim R (X := X) (hafter x ok t₁ t₂ ht)
      exact ⟨rfl, h, fun t₁ t₂ ht => hrest true t₁ t₂ ht, hrest false s₁ s₂ h⟩

/-! ## runs -/

variable (code₁ : Env → Op₁ → S₁ → Code S₁ X E₁) (code₂ : Env → Op₂ → S₂ → Code S₂ X E₂)
  (m : Env → Op₁ → Op₂ → Prop) (skip : Op₂ → Prop)

/-- entries that fit end alike, and what the second system is given more does not show -/
structure Simulation : Prop where
  step : ∀ env op₁ op₂ s₁ s₂, m env op₁ op₂ → R s₁ s₂ →
    Code.Sim R (code₁ env op₁ s₁) (code₂ env op₂ s₂)
  silent : ∀ env op₂ s₁ s₂, skip op₂ → R s₁ s₂ → Code.Silent R s₁ (code₂ env op₂ s₂)

/-- both failed, or both ended in related states -/
abbrev SameEnd : Except E₁ (Config Env S₁ Op₁) → Except E₂ (Config Env S₂ Op₂) → Prop :=
  Alike fun c₁ c₂ => R c₁.now c₂.now

/-- the same call, begun in related states, which made the same calls and ended alike -/
structure SameReport (r₁ : Report Env S₁ Op₁ X E₁) (r₂ : Report Env S₂ Op₂ X E₂) : Prop where
  env : r₁.env = r₂.env
  op : m r₂.env r₁.op r₂.op
  before : R r₁.before.now r₂.before.now
  calls : r₁.calls = r₂.calls
  result : SameEnd R r₁.result r₂.result

variable {R code₁ code₂ m skip}

theorem SameEnd.commit {c₁ : Config Env S₁ Op₁} {c₂ : Config Env S₂ Op₂}
    {r₁ : Except E₁ (Config Env S₁ Op₁)} {r₂ : Except E₂ (Config Env S₂ Op₂)}
    (h : SameEnd R r₁ r₂) (hc : R c₁.now c₂.now) : R (commit c₁ r₁).now (commit c₂ r₂).now := by
  cases h with
  | error => exact hc
  | ok a b h => exact h

theorem Code.quiet_sim (env : Env) (k₁ : Code S₁ X E₁) :
    ∀ (k₂ : Code S₂ X E₂) (p₁ : List (Record Env S₁ Op₁)) (p₂ : List (Record Env S₂ Op₂)),
      Code.Sim R k₁ k₂ →
      SameEnd R (k₁.quiet env p₁).2 (k₂.quiet env p₂).2 ∧ k₁.quietCalls = k₂.quietCalls := by
  induction k₁ with
  | revert e =>
    intro k₂ p₁ p₂ h
    cases k₂ with
    | revert e' => exact ⟨.error e e', rfl⟩
    | done | call => exact h.elim
  | done s =>
    intro k₂ p₁ p₂ h
    cases k₂ with
    | done s' => exact ⟨.ok _ _ h, rfl⟩
    | revert | call => exact h.elim
  | call x s k ih =>
    intro k₂ p₁ p₂ h
    cases k₂ with
    | revert | done => exact h.elim
    | call x' s' k' =>
      obtain ⟨rfl, hs, ht, _⟩ := h
      obtain ⟨h1, h2⟩ := ih true s (k' true s') p₁ p₂ (ht s s' hs)
      exact ⟨h1, by rw [Code.quietCalls, Code.quietCalls, h2]⟩

/-- a call that does not show -/
theorem Call.run_silent (hS : Simulation R code₁ code₂ m skip) (env : Env) {op₂ : Op₂}
    (hskip : skip op₂) (rs₂ : Replies Op₂) {s₁ : S₁} {c₂ : Config Env S₂ Op₂} (h : R s₁ c₂.now) :
    R s₁ (commit c₂ ((Call.mk op₂ rs₂).run code₂ env c₂).2).now ∧
      (Call.mk op₂ rs₂).reports code₂ env c₂ = [⟨env, c₂, op₂,
        rs₂.calls code₂ env (code₂ env op₂ c₂.now) (c₂.enter env op₂),
        ((Call.mk op₂ rs₂).run code₂ env c₂).2⟩] := by
  have hsilent := hS.silent env op₂ s₁ c₂.now hskip h
  rw [Call.run, Call.reports, Call.run]
  cases hk : code₂ env op₂ c₂.now with
  | revert e => cases rs₂ <;> exact ⟨h, rfl⟩
  | done s =>
    rw [hk] at hsilent
    cases rs₂ <;> exact ⟨hsilent, rfl⟩
  | call x s k =>
    rw [hk] at hsilent
    exact hsilent.elim

section
variable (hS : Simulation R code₁ code₂ m skip) (env : Env)
include hS

mutual

/-- **The same call ends alike in both systems**, and so do the calls made inside it. -/
theorem Call.run_sim (call₂ : Call Op₂) (call₁ : Call Op₁) (h : Call.Fits (m env) skip call₁ call₂)
    (c₁ : Config Env S₁ Op₁) (c₂ : Config Env S₂ Op₂) (hc : R c₁.now c₂.now) :
    SameEnd R (call₁.run code₁ env c₁).2 (call₂.run code₂ env c₂).2 ∧
      Interleaved (SameReport R m) (fun r => skip r.op) (call₁.reports code₁ env c₁)
        (call₂.reports code₂ env c₂) := by
  cases call₂ with
  | mk op₂ rs₂ =>
    cases h with
    | @mk op₁ _ rs₁ _ hm hr =>
      obtain ⟨h1, h2, h3⟩ := Replies.run_sim rs₂ rs₁ hr _ _ (c₁.enter env op₁) (c₂.enter env op₂)
        (hS.step env op₁ op₂ c₁.now c₂.now hm hc)
      exact ⟨h1, .cons ⟨rfl, hm, hc, h2, h1⟩ h3⟩

theorem Replies.run_sim (rs₂ : Replies Op₂) (rs₁ : Replies Op₁) (h : Replies.Fits (m env) skip rs₁ rs₂)
    (k₁ : Code S₁ X E₁) (k₂ : Code S₂ X E₂) (p₁ : List (Record Env S₁ Op₁))
    (p₂ : List (Record Env S₂ Op₂)) (hk : Code.Sim R k₁ k₂) :
    SameEnd R (rs₁.run code₁ env k₁ p₁).2 (rs₂.run code₂ env k₂ p₂).2 ∧
      rs₁.calls code₁ env k₁ p₁ = rs₂.calls code₂ env k₂ p₂ ∧
      Interleaved (SameReport R m) (fun r => skip r.op) (rs₁.reports code₁ env k₁ p₁)
        (rs₂.reports code₂ env k₂ p₂) := by
  cases rs₂ with
  | nil =>
    cases h
    obtain ⟨h1, h2⟩ := Code.quiet_sim env k₁ k₂ p₁ p₂ hk
    cases k₁ <;> cases k₂ <;> first | exact hk.elim | exact ⟨h1, h2, .nil⟩
  | cons ok cs₂ rs₂ =>
    cases h with
    | @cons _ cs₁ _ rs₁ _ hcs hrs =>
      match k₁, k₂, hk with
      | .revert _, .revert _, _ => exact ⟨.error _ _, rfl, .nil⟩
      | .done _, .done _, hk => exact ⟨.ok _ _ hk, rfl, .nil⟩
      | .call x s₁ k₁, .call x₂ s₂ k₂, ⟨hx, hs, ht, hf⟩ =>
        subst hx
        obtain ⟨hb1, hb2⟩ := Batch.run_sim cs₂ cs₁ hcs ⟨p₁, s₁⟩ ⟨p₂, s₂⟩ hs
        cases ok with
        | true =>
          obtain ⟨h1, h2, h3⟩ := Replies.run_sim rs₂ rs₁ hrs _ _ (cs₁.run code₁ env ⟨p₁, s₁⟩).2.past
            (cs₂.run code₂ env ⟨p₂, s₂⟩).2.past (ht _ _ hb1)
          exact ⟨h1, congrArg _ h2, hb2.append h3⟩
        | false =>
          obtain ⟨h1, h2, h3⟩ := Replies.run_sim rs₂ rs₁ hrs _ _ p₁ p₂ hf
          exact ⟨h1, congrArg _ h2, hb2.append h3⟩

theorem Batch.run_sim (b₂ : Batch Op₂) (b₁ : Batch Op₁) (h : Batch.Fits (m env) skip b₁ b₂)
    (c₁ : Config Env S₁ Op₁) (c₂ : Config Env S₂ Op₂) (hc : R c₁.now c₂.now) :
    R (b₁.run code₁ env c₁).2.now (b₂.run code₂ env c₂).2.now ∧
      Interleaved (SameReport R m) (fun r => skip r.op) (b₁.reports code₁ env c₁)
        (b₂.reports code₂ env c₂) := by
  cases b₂ with
  | nil =>
    cases h
    exact ⟨hc, .nil⟩
  | cons call₂ rest₂ =>
    cases h with
    | @cons call₁ _ rest₁ _ hcall hrest =>
      obtain ⟨h1, h2⟩ := Call.run_sim call₂ call₁ hcall c₁ c₂ hc
      obtain ⟨h3, h4⟩ := Batch.run_sim rest₂ rest₁ hrest _ _ (h1.commit hc)
      exact ⟨h3, h2.append h4⟩
    | @skip op₂ rs₂ _ _ hskip hrest =>
      obtain ⟨h1, h2⟩ := Call.run_silent hS env hskip rs₂ hc
      obtain ⟨h3, h4⟩ := Batch.run_sim rest₂ b₁ hrest c₁ _ h1
      refine ⟨h3, ?_⟩
      rw [Batch.reports, h2]
      exact .skip hskip h4

end

end

/-- **The two systems run alike.** -/
theorem runTxs_sim (hS : Simulation R code₁ code₂ m skip) {ts₁ : List (Tx Env Op₁)}
    {ts₂ : List (Tx Env Op₂)} (h : Fit m skip ts₁ ts₂) :
    ∀ (c₁ : Config Env S₁ Op₁) (c₂ : Config Env S₂ Op₂), R c₁.now c₂.now →
      R (runTxs code₁ ts₁ c₁).2.now (runTxs code₂ ts₂ c₂).2.now ∧
        Interleaved (SameReport R m) (fun r => skip r.op) (runReports code₁ ts₁ c₁)
          (runReports code₂ ts₂ c₂) := by
  induction h with
  | nil => exact fun c₁ c₂ hc => ⟨hc, .nil⟩
  | @cons t₁ t₂ ts₁ ts₂ ht _ ih =>
    intro c₁ c₂ hc
    obtain ⟨env, call₁⟩ := t₁
    obtain ⟨env₂, call₂⟩ := t₂
    obtain ⟨rfl, hcall⟩ := ht
    obtain ⟨h1, h2⟩ := Call.run_sim hS env call₂ call₁ hcall c₁ c₂ hc
    obtain ⟨h3, h4⟩ := ih _ _ (h1.commit hc)
    exact ⟨h3, h2.append h4⟩
  | @skip t₂ ts₁ ts₂ ht _ ih =>
    intro c₁ c₂ hc
    obtain ⟨env, op₂, rs₂⟩ := t₂
    have hskip : skip op₂ := ht
    obtain ⟨h1, h2⟩ := Call.run_silent hS env hskip rs₂ hc
    obtain ⟨h3, h4⟩ := ih c₁ _ h1
    refine ⟨h3, ?_⟩
    show Interleaved _ _ _ ((Call.mk op₂ rs₂).reports code₂ env c₂ ++ _)
    rw [h2]
    exact .skip hskip h4

end

end Reentrant
