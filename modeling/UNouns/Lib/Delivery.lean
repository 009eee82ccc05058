import Mathlib.Data.List.Perm.Basic
import Mathlib.Data.List.Dedup
import Mathlib.Tactic.Common

/-!
# Deliveries

Events come in any order, some of them more than once.  The receiver puts a new one in front of those
it holds and takes events with the same key for the same event.

* `receive`             an event is taken unless its key is there;
* `received_perm_iff`   the receiver ends up with every event once, however they come, if and only if
                        no two events have the same key;
* `latest`              the last of the greatest events that are held, by a number.
-/

set_option linter.unusedVariables false

namespace Delivery
variable {α κ : Type} [DecidableEq κ] (key : α → κ)

def receive (held : List α) (x : α) : List α := if key x ∈ held.map key then held else x :: held

/-- every event of `es` is delivered, and no other -/
def Delivers (ds es : List α) : Prop := ∀ x, x ∈ ds ↔ x ∈ es

theorem Delivers.refl (es : List α) : Delivers es es := fun _ => Iff.rfl

theorem Delivers.again {es : List α} {x : α} (h : x ∈ es) : Delivers (x :: es) es := fun y => by
  rw [List.mem_cons]
  exact ⟨fun hy => hy.elim (fun e => e ▸ h) fun hy => hy, .inr⟩

variable {key}

/-- what is held stays, at the end -/
theorem suffix_received (ds held : List α) : held <:+ ds.foldl (receive key) held := by
  induction ds generalizing held with
  | nil => exact List.suffix_refl held
  | cons x ds ih =>
    refine List.IsSuffix.trans ?_ (ih (receive key held x))
    unfold receive
    split_ifs
    · exact List.suffix_refl held
    · exact List.suffix_cons x held

theorem nodup_received {ds held : List α} (h : (held.map key).Nodup) :
    ((ds.foldl (receive key) held).map key).Nodup := by
  induction ds generalizing held with
  | nil => exact h
  | cons x ds ih =>
    refine ih ?_
    unfold receive
    split_ifs with hx
    · exact h
    · exact List.nodup_cons.mpr ⟨hx, h⟩

theorem mem_of_received {ds held : List α} {y : α} (h : y ∈ ds.foldl (receive key) held) :
    y ∈ held ∨ y ∈ ds := by
  induction ds generalizing held with
  | nil => exact .inl h
  | cons x ds ih =>
    rcases ih h with hy | hy
    · unfold receive at hy
      split_ifs at hy
      · exact .inl hy
      · rcases List.mem_cons.mp hy with rfl | hy
        · exact .inr List.mem_cons_self
        · exact .inl hy
    · exact .inr (List.mem_cons_of_mem _ hy)

/-- the key of what has come is there -/
theorem key_received {ds held : List α} {y : α} (h : y ∈ ds) :
    key y ∈ (ds.foldl (receive key) held).map key := by
  induction ds generalizing held with
  | nil => cases h
  | cons x ds ih =>
    rcases List.mem_cons.mp h with rfl | hy
    · have hkey : key y ∈ (receive key held y).map key := by
        unfold receive
        split_ifs with hx
        · exact hx
        · exact List.mem_cons_self
      obtain ⟨z, hz, hzy⟩ := List.mem_map.mp hkey
      exact List.mem_map.mpr ⟨z, (suffix_received ds _).subset hz, hzy⟩
    · exact ih hy

theorem received_perm {ds es : List α} (h : (es.map key).Nodup) (hd : Delivers ds es) :
    (ds.foldl (receive key) []).Perm es := by
  have hnodup : ((ds.foldl (receive key) []).map key).Nodup := nodup_received List.nodup_nil
  refine (List.perm_ext_iff_of_nodup hnodup.of_map h.of_map).mpr fun x => ⟨fun hx => ?_, fun hx => ?_⟩
  · exact (hd x).mp ((mem_of_received hx).resolve_left List.not_mem_nil)
  · have hkey : key x ∈ (ds.foldl (receive key) []).map key := key_received ((hd x).mpr hx)
    obtain ⟨y, hy, hyx⟩ := List.mem_map.mp hkey
    have hye := (hd y).mp ((mem_of_received hy).resolve_left List.not_mem_nil)
    rwa [← List.inj_on_of_nodup_map h hye hx hyx]

/-- **Every event once, however they come**, if and only if their keys differ. -/
theorem received_perm_iff {es : List α} :
    (∀ ds, Delivers ds es → (ds.foldl (receive key) []).Perm es) ↔ (es.map key).Nodup := by
  refine ⟨fun h => ?_, fun h ds hd => received_perm h hd⟩
  have hperm := h es (.refl es)
  exact (hperm.map key).nodup_iff.mp (nodup_received List.nodup_nil)

/-! ## the greatest event -/

variable (f : α → Nat)

/-- of `x` and the events after it -/
def latest (x : α) (xs : List α) : α :=
  xs.foldl (fun prev current => if f current < f prev then prev else current) x

variable {f}

theorem latest_mem (x : α) (xs : List α) : latest f x xs ∈ x :: xs := by
  induction xs generalizing x with
  | nil => exact List.mem_cons_self
  | cons y ys ih =>
    unfold latest at ih ⊢
    rw [List.foldl_cons]
    split_ifs
    · rcases List.mem_cons.mp (ih x) with e | h
      · rw [e]
        exact List.mem_cons_self
      · exact List.mem_cons_of_mem _ (List.mem_cons_of_mem _ h)
    · exact List.mem_cons_of_mem _ (ih y)

theorem le_latest {xs : List α} : ∀ {x y : α}, y ∈ x :: xs → f y ≤ f (latest f x xs) := by
  induction xs with
  | nil =>
    intro x y h
    rw [List.mem_singleton.mp h]
    exact Nat.le_refl _
  | cons z zs ih =>
    intro x y h
    have hmax : f x ≤ f (if f z < f x then x else z) ∧ f z ≤ f (if f z < f x then x else z) := by
      split_ifs with hlt
      · exact ⟨Nat.le_refl _, Nat.le_of_lt hlt⟩
      · exact ⟨Nat.not_lt.mp hlt, Nat.le_refl _⟩
    have hhead := ih (x := if f z < f x then x else z) List.mem_cons_self
    show f y ≤ f (latest f (if f z < f x then x else z) zs)
    rcases List.mem_cons.mp h with rfl | h
    · exact Nat.le_trans hmax.1 hhead
    · rcases List.mem_cons.mp h with rfl | h
      · exact Nat.le_trans hmax.2 hhead
      · exact ih (List.mem_cons_of_mem _ h)

/-- the last event, if there is no greater one -/
theorem latest_last {x : α} {xs : List α} {l : α} (h : (x :: xs).getLast? = some l)
    (hmax : ∀ y ∈ x :: xs, f y ≤ f l) : latest f x xs = l := by
  rcases List.eq_nil_or_concat xs with rfl | ⟨ys, z, rfl⟩
  · exact Option.some.inj h
  · rw [List.concat_eq_append, ← List.cons_append, List.getLast?_concat] at h
    obtain rfl := Option.some.inj h
    rw [List.concat_eq_append] at hmax ⊢
    have hmem : latest f x ys ∈ x :: (ys ++ [z]) := by
      rw [← List.cons_append]
      exact List.mem_append_left _ (latest_mem x ys)
    have hle := hmax _ hmem
    show (ys ++ [z]).foldl _ x = z
    rw [List.foldl_append]
    exact if_neg (Nat.not_lt.mpr hle)

end Delivery
