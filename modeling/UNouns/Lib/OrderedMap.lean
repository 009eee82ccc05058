import Mathlib.Data.List.Induction
import Mathlib.Data.List.Nodup
import Mathlib.Data.List.Perm.Basic
import Mathlib.Tactic.Common

/-!
# Maps that keep the order of insertion

A map is the list of its entries, oldest first.  To set a key that is there changes its value in place.

* `get_iff`         with distinct keys, `get` finds exactly the entries;
* `set_of_new`      a new key comes last;
* `nodup_set`       the keys stay distinct;
* `setAll_of_new`   entries with new keys come in their order;
* `get_pushAll`     values that are pushed under keys are grouped by them;
* `draw`            values drawn from a map, each of which is gone then.
-/

set_option linter.unusedVariables false

namespace OrderedMap
variable {K V : Type} [DecidableEq K]

def get (m : List (K × V)) (k : K) : Option V := (m.find? fun e => e.1 = k).map Prod.snd

def set (m : List (K × V)) (k : K) (v : V) : List (K × V) :=
  if (get m k).isSome then m.map fun e => if e.1 = k then (k, v) else e else m ++ [(k, v)]

def erase (m : List (K × V)) (k : K) : List (K × V) := m.filter fun e => e.1 ≠ k

def keys (m : List (K × V)) : List K := m.map Prod.fst

variable {m : List (K × V)} {k : K} {v : V}

theorem get_eq_none : get m k = none ↔ k ∉ keys m := by
  unfold get keys
  rw [Option.map_eq_none_iff, List.find?_eq_none, List.mem_map]
  constructor
  · rintro h ⟨e, he, rfl⟩
    exact h e he (decide_eq_true rfl)
  · intro h e he hk
    exact h ⟨e, he, of_decide_eq_true hk⟩

theorem get_isSome : (get m k).isSome ↔ k ∈ keys m := by
  rw [Option.isSome_iff_ne_none, ne_eq, get_eq_none, not_not]

theorem mem_of_get (h : get m k = some v) : (k, v) ∈ m := by
  unfold get at h
  obtain ⟨e, he, rfl⟩ := Option.map_eq_some_iff.mp h
  have hk : e.1 = k := by simpa using List.find?_some he
  rw [← hk]
  exact List.mem_of_find?_eq_some he

theorem get_iff (hm : (keys m).Nodup) : get m k = some v ↔ (k, v) ∈ m := by
  refine ⟨mem_of_get, fun hmem => ?_⟩
  cases hget : get m k with
  | none => exact absurd (List.mem_map_of_mem hmem) (get_eq_none.mp hget)
  | some w =>
    have he := List.inj_on_of_nodup_map hm (mem_of_get hget) hmem rfl
    rw [(Prod.mk.inj he).2]

theorem get_perm {m m' : List (K × V)} (h : m.Perm m') (hm : (keys m).Nodup) (k : K) : get m k = get m' k := by
  have hm' : (keys m').Nodup := (h.map Prod.fst).nodup_iff.mp hm
  ext v
  rw [get_iff hm, get_iff hm', h.mem_iff]

theorem get_map {W : Type} (m : List (K × V)) (g : V → W) (k : K) :
    get (m.map fun e => (e.1, g e.2)) k = (get m k).map g := by
  unfold get
  rw [List.find?_map, Option.map_map, Option.map_map]
  rfl

theorem set_of_new (v : V) (h : k ∉ keys m) : set m k v = m ++ [(k, v)] := by
  unfold set
  rw [if_neg fun hs => h (get_isSome.mp hs)]

/-- to set a key renames no entry -/
theorem fst_ite (k : K) (v : V) (e : K × V) : (if e.1 = k then (k, v) else e).1 = e.1 := by
  split_ifs with h
  · exact h.symm
  · rfl

theorem keys_set (m : List (K × V)) (k : K) (v : V) :
    keys (set m k v) = if k ∈ keys m then keys m else keys m ++ [k] := by
  unfold set
  split_ifs with h1 h2 h2
  · unfold keys
    rw [List.map_map]
    exact List.map_congr_left fun e he => fst_ite k v e
  · exact absurd (get_isSome.mp h1) h2
  · exact absurd (get_isSome.mpr h2) h1
  · exact List.map_append

theorem nodup_set (k : K) (v : V) (hm : (keys m).Nodup) : (keys (set m k v)).Nodup := by
  rw [keys_set]
  split_ifs with h
  · exact hm
  · refine List.nodup_append.mpr ⟨hm, List.nodup_singleton k, fun a ha b hb => ?_⟩
    rintro rfl
    exact h (List.mem_singleton.mp hb ▸ ha)

theorem get_set (m : List (K × V)) (k : K) (v : V) (j : K) :
    get (set m k v) j = if j = k then some v else get m j := by
  unfold set
  split_ifs with h e e
  · subst e
    obtain ⟨w, hw⟩ := Option.isSome_iff_exists.mp h
    unfold get at hw ⊢
    obtain ⟨e, he, rfl⟩ := Option.map_eq_some_iff.mp hw
    have hk : e.1 = j := by simpa using List.find?_some he
    simp only [List.find?_map, Function.comp_def, fst_ite, he, Option.map_some, if_pos hk]
  · unfold get
    simp only [List.find?_map, Function.comp_def, fst_ite]
    cases he : m.find? fun e => e.1 = j with
    | none => rfl
    | some x =>
      have hx : x.1 = j := by simpa using List.find?_some he
      have hne : ¬ x.1 = k := fun hk => e (hx.symm.trans hk)
      simp only [Option.map_some, if_neg hne]
  · subst e
    have hnone : m.find? (fun e => e.1 = j) = none :=
      Option.map_eq_none_iff.mp (Option.not_isSome_iff_eq_none.mp h)
    unfold get
    rw [List.find?_append, hnone]
    simp
  · unfold get
    rw [List.find?_append]
    have hne : [(k, v)].find? (fun e => e.1 = j) = none := by simp [Ne.symm e]
    rw [hne, Option.or_none]

/-! ## entries one after another -/

def setAll (m : List (K × V)) (es : List (K × V)) : List (K × V) := es.foldl (fun m e => set m e.1 e.2) m

theorem mem_keys_setAll (es : List (K × V)) : ∀ {m : List (K × V)} {k : K},
    k ∈ keys (setAll m es) ↔ k ∈ keys m ∨ k ∈ keys es := by
  induction es with
  | nil =>
    intro m k
    exact ⟨.inl, fun h => h.resolve_right List.not_mem_nil⟩
  | cons e es ih =>
    intro m k
    have hkeys : k ∈ keys (set m e.1 e.2) ↔ k ∈ keys m ∨ k = e.1 := by
      rw [keys_set]
      split_ifs with h
      · exact ⟨.inl, fun hk => hk.elim id fun hk => hk ▸ h⟩
      · rw [List.mem_append, List.mem_singleton]
    have hcons : k ∈ keys (e :: es) ↔ k = e.1 ∨ k ∈ keys es := List.mem_cons
    show k ∈ keys (setAll (set m e.1 e.2) es) ↔ _
    rw [ih, hkeys, hcons, or_assoc]

theorem nodup_setAll (es : List (K × V)) : ∀ {m : List (K × V)}, (keys m).Nodup →
    (keys (setAll m es)).Nodup := by
  induction es with
  | nil => exact fun h => h
  | cons e es ih => exact fun h => ih (nodup_set e.1 e.2 h)

theorem setAll_of_new (es : List (K × V)) : ∀ {m : List (K × V)}, (keys m ++ keys es).Nodup →
    setAll m es = m ++ es := by
  induction es with
  | nil => exact fun h => (List.append_nil _).symm
  | cons e es ih =>
    intro m h
    have he : e.1 ∉ keys m := fun hm => (List.nodup_append.mp h).2.2 e.1 hm e.1 List.mem_cons_self rfl
    have hkeys : keys (m ++ [e]) ++ keys es = keys m ++ keys (e :: es) := by
      unfold keys
      rw [List.map_append, List.append_assoc]
      rfl
    show setAll (set m e.1 e.2) es = _
    rw [set_of_new e.2 he, ih (hkeys ▸ h), List.append_assoc]
    rfl

/-! ## groups -/

section groups
variable {A : Type}

/-- one more value under a key -/
def push (m : List (K × List A)) (k : K) (a : A) : List (K × List A) :=
  set m k ((get m k).getD [] ++ [a])

def pushAll (es : List (K × A)) : List (K × List A) := es.foldl (fun m e => push m e.1 e.2) []

theorem pushAll_concat (es : List (K × A)) (e : K × A) :
    pushAll (es ++ [e]) = push (pushAll es) e.1 e.2 := by
  unfold pushAll
  rw [List.foldl_append]
  rfl

theorem nodup_pushAll (es : List (K × A)) : (keys (pushAll es)).Nodup := by
  induction es using List.reverseRecOn with
  | nil => exact List.nodup_nil
  | append_singleton es e ih =>
    rw [pushAll_concat]
    exact nodup_set _ _ ih

/-- the values of a key, in order -/
theorem get_pushAll (es : List (K × A)) (k : K) : get (pushAll es) k =
    if k ∈ keys es then some ((es.filter fun e => e.1 = k).map Prod.snd) else none := by
  induction es using List.reverseRecOn with
  | nil => rfl
  | append_singleton es e ih =>
    have hkeys : keys (es ++ [e]) = keys es ++ [e.1] := List.map_append
    rw [pushAll_concat, push, get_set, hkeys, List.filter_append, List.map_append]
    by_cases hk : k = e.1
    · subst hk
      have hone : [e].filter (fun x => x.1 = e.1) = [e] := by simp
      rw [if_pos rfl, if_pos (by simp), ih, hone]
      split_ifs with hmem
      · rfl
      · have hnil : es.filter (fun x => x.1 = e.1) = [] := by
          refine List.filter_eq_nil_iff.mpr fun x hx hxk => hmem ?_
          rw [← of_decide_eq_true hxk]
          exact List.mem_map_of_mem hx
        rw [hnil]
        rfl
    · have hone : [e].filter (fun x => x.1 = k) = [] := by simp [Ne.symm hk]
      rw [if_neg hk, ih, hone, List.map_nil, List.append_nil]
      have hmem : k ∈ keys es ++ [e.1] ↔ k ∈ keys es := by simp [hk]
      simp only [hmem]

/-- a value that is pushed is one more value -/
theorem flatMap_push (m : List (K × List A)) (hm : (keys m).Nodup) (k : K) (a : A) :
    ((push m k a).flatMap Prod.snd).Perm (m.flatMap Prod.snd ++ [a]) := by
  unfold push
  by_cases hk : k ∈ keys m
  · obtain ⟨as, has⟩ := Option.isSome_iff_exists.mp (get_isSome.mpr hk)
    obtain ⟨m₁, m₂, rfl⟩ := List.append_of_mem (mem_of_get has)
    have hnew : k ∉ keys m₁ ++ keys m₂ := by
      have hm' : (keys m₁ ++ k :: keys m₂).Nodup := by
        have h := hm
        unfold keys at h ⊢
        rw [List.map_append] at h
        exact h
      exact (List.nodup_cons.mp (List.nodup_middle.mp hm')).1
    have hset : set (m₁ ++ (k, as) :: m₂) k (as ++ [a]) = m₁ ++ (k, as ++ [a]) :: m₂ := by
      have hsame : ∀ {l : List (K × List A)}, k ∉ keys l →
          l.map (fun e => if e.1 = k then (k, as ++ [a]) else e) = l := by
        intro l hl
        refine (List.map_congr_left fun e he => if_neg ?_).trans (List.map_id l)
        rintro rfl
        exact hl (List.mem_map_of_mem he)
      unfold set
      rw [if_pos (get_isSome.mpr hk), List.map_append, List.map_cons, if_pos rfl,
        hsame fun h => hnew (List.mem_append_left _ h), hsame fun h => hnew (List.mem_append_right _ h)]
    rw [has, Option.getD_some, hset]
    simp only [List.flatMap_append, List.flatMap_cons, List.append_assoc]
    refine List.Perm.append_left _ (List.Perm.append_left _ ?_)
    exact List.perm_append_comm
  · rw [get_eq_none.mpr hk, set_of_new _ hk, List.flatMap_append]
    simp

theorem flatMap_pushAll (es : List (K × A)) : ((pushAll es).flatMap Prod.snd).Perm (es.map Prod.snd) := by
  induction es using List.reverseRecOn with
  | nil => exact List.Perm.refl _
  | append_singleton es e ih =>
    rw [pushAll_concat, List.map_append]
    exact (flatMap_push _ (nodup_pushAll es) _ _).trans (ih.append_right _)

end groups

/-! ## values that are drawn -/

/-- the values under the keys, each of which is taken out; `none` where there is none -/
def draw (m : List (K × V)) : List K → List (K × Option V) × List (K × V)
  | [] => ([], m)
  | k :: ks => ((k, get m k) :: (draw (erase m k) ks).1, (draw (erase m k) ks).2)

/-- entries are kept by their keys -/
theorem get_filter (m : List (K × V)) (p : K → Bool) (k : K) :
    get (m.filter fun e => p e.1) k = if p k then get m k else none := by
  unfold get
  rw [List.find?_filter]
  split_ifs with h
  · congr 2
    funext e
    by_cases he : e.1 = k
    · simp [he, h]
    · simp [he]
  · rw [List.find?_eq_none.mpr fun e he hp => ?_]
    · rfl
    · obtain ⟨hp, hk⟩ := of_decide_eq_true hp
      rw [of_decide_eq_true hk] at hp
      exact h hp

theorem get_erase (m : List (K × V)) (k j : K) : get (erase m k) j = if j = k then none else get m j := by
  have h := get_filter m (fun j => j ≠ k) j
  unfold erase
  rw [h]
  by_cases e : j = k
  · rw [if_pos e, if_neg (by simp [e])]
  · rw [if_neg e, if_pos (by simp [e])]

theorem draw_append (as bs : List K) : ∀ m : List (K × V), draw m (as ++ bs)
    = ((draw m as).1 ++ (draw (draw m as).2 bs).1, (draw (draw m as).2 bs).2) := by
  induction as with
  | nil =>
    intro m
    rfl
  | cons a as ih =>
    intro m
    show ((a, get m a) :: (draw (erase m a) (as ++ bs)).1, (draw (erase m a) (as ++ bs)).2) = _
    rw [ih]
    rfl

theorem draw_keys (ks : List K) : ∀ m : List (K × V), (draw m ks).1.map Prod.fst = ks := by
  induction ks with
  | nil => exact fun m => rfl
  | cons k ks ih => exact fun m => congrArg (k :: ·) (ih _)

/-- what is left in the map -/
theorem draw_rest (ks : List K) : ∀ m : List (K × V), (draw m ks).2 = m.filter fun e => e.1 ∉ ks := by
  induction ks with
  | nil =>
    intro m
    show m = _
    simp
  | cons k ks ih =>
    intro m
    show (draw (erase m k) ks).2 = _
    rw [ih, erase, List.filter_filter]
    refine List.filter_congr fun e he => ?_
    simp only [List.mem_cons, not_or, Bool.decide_and, Bool.and_comm]

theorem get_draw_rest (m : List (K × V)) {ks : List K} {k : K} (h : k ∉ ks) :
    get (draw m ks).2 k = get m k := by
  have hfilter := get_filter m (fun k => k ∉ ks) k
  rw [draw_rest, hfilter, if_pos (by simp [h])]

/-- distinct keys are drawn as if nothing was taken out -/
theorem draw_of_nodup {ks : List K} : ∀ {m : List (K × V)}, ks.Nodup →
    (draw m ks).1 = ks.map fun k => (k, get m k) := by
  induction ks with
  | nil => exact fun _ => rfl
  | cons k ks ih =>
    intro m h
    obtain ⟨hk, hks⟩ := List.nodup_cons.mp h
    show (k, get m k) :: (draw (erase m k) ks).1 = _
    rw [ih hks, List.map_cons]
    congr 1
    refine List.map_congr_left fun j hj => ?_
    have hne : j ≠ k := fun e => hk (e ▸ hj)
    rw [get_erase, if_neg hne]

theorem draw_eq_none {ks : List K} : ∀ {m : List (K × V)} {k : K}, get m k = none → k ∈ ks →
    ∃ e ∈ (draw m ks).1, e.2 = none := by
  induction ks with
  | nil => exact fun _ hk => absurd hk List.not_mem_nil
  | cons j ks ih =>
    intro m k hnone hk
    by_cases e : k = j
    · exact ⟨(j, get m j), List.mem_cons_self, e ▸ hnone⟩
    · have hget : get (erase m j) k = none := by rw [get_erase, if_neg e, hnone]
      obtain ⟨x, hx, hx'⟩ := ih hget ((List.mem_cons.mp hk).resolve_left e)
      exact ⟨x, List.mem_cons_of_mem _ hx, hx'⟩

/-- **No key is drawn twice**, if there was a value each time. -/
theorem nodup_of_draw {ks : List K} : ∀ {m : List (K × V)}, (∀ e ∈ (draw m ks).1, e.2 ≠ none) →
    ks.Nodup := by
  induction ks with
  | nil => exact fun _ => List.nodup_nil
  | cons k ks ih =>
    intro m h
    have hrest : ∀ e ∈ (draw (erase m k) ks).1, e.2 ≠ none := fun e he => h e (List.mem_cons_of_mem _ he)
    refine List.nodup_cons.mpr ⟨fun hk => ?_, ih hrest⟩
    have hnone : get (erase m k) k = none := by rw [get_erase, if_pos rfl]
    obtain ⟨e, he, he'⟩ := draw_eq_none hnone hk
    exact hrest e he he'

end OrderedMap
