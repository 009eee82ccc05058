import Mathlib.Tactic.Common

/-!
# Journals

A system tells what it does by events, and a reader builds a state of its own from the events alone.

* `Told step s vs s'`   the events `vs` tell the way from `s` to `s'`, each one of a `step`;
* `Told.read`           a reader that keeps up with every event keeps up with the whole journal;
* `Avoids`              no event that is read is a bad one when its turn comes;
* `Avoids.drift`        so a count that only bad events spoil is right, and otherwise it never is again.
-/

set_option linter.unusedVariables false

namespace Journal
variable {S T V W : Type}

inductive Told (step : S → V → S → Prop) (s : S) : List V → S → Prop
  | nil : Told step s [] s
  | snoc (vs : List V) (s' s'' : S) (v : V) (h : Told step s vs s') (hv : step s' v s'') :
      Told step s (vs ++ [v]) s''

variable {step : S → V → S → Prop} {s s' s'' : S}

theorem Told.single {v : V} (h : step s v s') : Told step s [v] s' := .snoc [] s s' v .nil h

theorem Told.trans {vs ws : List V} (h1 : Told step s vs s') (h2 : Told step s' ws s'') :
    Told step s (vs ++ ws) s'' := by
  induction h2 with
  | nil =>
    rw [List.append_nil]
    exact h1
  | snoc ws t t' v _ hv ih =>
    rw [← List.append_assoc]
    exact .snoc _ _ _ _ ih hv

theorem Told.cons {v : V} {vs : List V} (hv : step s v s') (h : Told step s' vs s'') :
    Told step s (v :: vs) s'' := (Told.single hv).trans h

/-- events that lead nowhere -/
theorem Told.stay {vs : List V} (h : ∀ v ∈ vs, step s v s) : Told step s vs s := by
  induction vs with
  | nil => exact .nil
  | cons v vs ih =>
    exact Told.cons (h v List.mem_cons_self) (ih fun w hw => h w (List.mem_cons_of_mem _ hw))

/-- a journal that is cut tells the way in two parts -/
theorem Told.split {vs ws : List V} (h : Told step s (vs ++ ws) s'') :
    ∃ s', Told step s vs s' ∧ Told step s' ws s'' := by
  generalize hus : vs ++ ws = us at h
  induction h generalizing ws with
  | nil =>
    obtain ⟨rfl, rfl⟩ := List.append_eq_nil_iff.mp hus
    exact ⟨s, .nil, .nil⟩
  | snoc us t t' v h hv ih =>
    rcases List.eq_nil_or_concat ws with rfl | ⟨ws', x, rfl⟩
    · rw [List.append_nil] at hus
      exact ⟨t', hus ▸ .snoc us t t' v h hv, .nil⟩
    · rw [List.concat_eq_append, ← List.append_assoc] at hus
      obtain ⟨hus', hx⟩ := List.append_inj' hus rfl
      obtain ⟨t'', h1, h2⟩ := ih hus'
      rw [List.singleton_inj.mp hx, List.concat_eq_append]
      exact ⟨t'', h1, .snoc _ _ _ _ h2 hv⟩

/-- an event of two journals put together is in one of them -/
theorem cut_append {vs ws us us' : List V} {v : V} (h : vs ++ ws = us ++ v :: us') :
    (∃ vs', vs = us ++ v :: vs') ∨ ∃ cs, us = vs ++ cs ∧ ws = cs ++ v :: us' := by
  rcases List.append_eq_append_iff.mp h with ⟨cs, rfl, hws⟩ | ⟨cs, rfl, hus⟩
  · exact .inr ⟨cs, rfl, hws⟩
  · cases cs with
    | nil => exact .inr ⟨[], by rw [List.append_nil, List.append_nil], hus.symm⟩
    | cons x cs =>
      obtain ⟨rfl, _⟩ := List.cons.inj hus
      exact .inl ⟨cs, rfl⟩

theorem Told.eq_of_nil (h : Told step s [] s') : s' = s := by
  generalize hus : ([] : List V) = us at h
  cases h with
  | nil => rfl
  | snoc us t v h hv => exact absurd hus.symm (List.append_ne_nil_of_right_ne_nil _ (List.cons_ne_nil _ _))

/-- the first event is a step, and the others tell the rest of the way -/
theorem Told.uncons {v : V} {vs : List V} (h : Told step s (v :: vs) s'') :
    ∃ s', step s v s' ∧ Told step s' vs s'' := by
  generalize hus : v :: vs = us at h
  induction h generalizing vs with
  | nil => cases hus
  | snoc us t t' w h hw ih =>
    cases us with
    | nil =>
      obtain ⟨rfl, rfl⟩ := List.cons.inj hus
      exact ⟨t', h.eq_of_nil ▸ hw, .nil⟩
    | cons u us =>
      obtain ⟨rfl, rfl⟩ := List.cons.inj hus
      obtain ⟨s', h1, h2⟩ := ih rfl
      exact ⟨s', h1, .snoc _ _ _ _ h2 hw⟩

theorem Told.head {v : V} {vs : List V} (h : Told step s (v :: vs) s'') : ∃ s', step s v s' := by
  obtain ⟨s', hv, _⟩ := h.uncons
  exact ⟨s', hv⟩

/-- events that carry more than the journal says -/
theorem Told.of_map {f : W → V} {ws : List W} (h : Told step s (ws.map f) s') :
    Told (fun t w t' => step t (f w) t') s ws s' := by
  generalize hvs : ws.map f = vs at h
  induction h generalizing ws with
  | nil =>
    rw [List.map_eq_nil_iff.mp hvs]
    exact .nil
  | snoc vs t t' v _ hv ih =>
    obtain ⟨us, ws', rfl, hus, hws⟩ := List.map_eq_append_iff.mp hvs
    obtain ⟨w, rfl, rfl⟩ := List.map_eq_singleton_iff.mp hws
    exact .snoc _ _ _ _ (ih hus) hv

/-- **A reader keeps up.**  `R` relates the events so far, the state and what has been read. -/
theorem Told.read {read : T → V → T} {R : List V → S → T → Prop} {t : T} (h0 : R [] s t)
    (hstep : ∀ vs s' v s'' t', R vs s' t' → step s' v s'' → R (vs ++ [v]) s'' (read t' v))
    {vs : List V} (h : Told step s vs s') : R vs s' (vs.foldl read t) := by
  induction h with
  | nil => exact h0
  | snoc vs s' s'' v _ hv ih =>
    rw [List.foldl_append]
    exact hstep vs s' v s'' _ ih hv

/-- coarse events that are themselves told by fine ones -/
theorem Told.flatten {coarse : S → List V → S → Prop} {gs : List (List V)} (h : Told coarse s gs s')
    (hfine : ∀ t g t', coarse t g t' → Told step t g t') : Told step s gs.flatten s' := by
  induction h with
  | nil => exact .nil
  | snoc gs t t' g _ hg ih =>
    rw [List.flatten_append, List.flatten_singleton]
    exact ih.trans (hfine _ _ _ hg)

/-! ## a count that may drift -/

section
variable (read : T → V → Option T) (Bad : T → V → Prop)

/-- no event is bad for the state in which it is read -/
def Avoids : T → List V → Prop
  | _, [] => True
  | t, v :: vs => ¬ Bad t v ∧ match read t v with
    | none => True
    | some t' => Avoids t' vs

instance Avoids.decidable [∀ t v, Decidable (Bad t v)] :
    (t : T) → (vs : List V) → Decidable (Avoids read Bad t vs)
  | _, [] => isTrue trivial
  | t, v :: vs =>
    have : Decidable (match read t v with | none => True | some t' => Avoids read Bad t' vs) :=
      match read t v with
      | none => isTrue trivial
      | some t' => Avoids.decidable t' vs
    inferInstanceAs (Decidable (_ ∧ _))

variable {read Bad} [∀ t v, Decidable (Bad t v)]

/-- **A count that every bad event puts off by one** is right at the end if no event was bad, and only
then.  `I` is known of the events read, those to come and the state between them. -/
theorem Avoids.drift {I : List V → List V → T → Prop} {f : T → Int}
    (hstep : ∀ us t v vs t', I us (v :: vs) t → read t v = some t' →
      I (us ++ [v]) vs t' ∧ f t' = f t + if Bad t v then 1 else 0) (vs : List V) :
    ∀ us t t', I us vs t → vs.foldlM read t = some t' →
      I (us ++ vs) [] t' ∧ f t ≤ f t' ∧ (f t' = f t ↔ Avoids read Bad t vs) := by
  induction vs with
  | nil =>
    intro us t t' hI ht
    obtain rfl : t = t' := Option.some.inj ht
    rw [List.append_nil]
    exact ⟨hI, Int.le_refl _, fun _ => trivial, fun _ => rfl⟩
  | cons v vs ih =>
    intro us t t' hI ht
    rw [List.foldlM_cons] at ht
    obtain ⟨t1, h1, ht⟩ := Option.bind_eq_some_iff.mp ht
    obtain ⟨hI1, hf1⟩ := hstep us t v vs t1 hI h1
    obtain ⟨hI', hle, hiff⟩ := ih _ t1 t' hI1 ht
    have hcons : Avoids read Bad t (v :: vs) ↔ ¬ Bad t v ∧ Avoids read Bad t1 vs := by
      rw [Avoids, h1]
    rw [List.append_assoc] at hI'
    rw [hcons]
    refine ⟨hI', ?_⟩
    by_cases hb : Bad t v
    · rw [if_pos hb] at hf1
      exact ⟨by omega, fun h => by omega, fun h => absurd hb h.1⟩
    · rw [if_neg hb, Int.add_zero] at hf1
      rw [hf1] at hle hiff
      exact ⟨hle, fun h => ⟨hb, hiff.mp h⟩, fun h => hiff.mpr h.2⟩

end

end Journal
