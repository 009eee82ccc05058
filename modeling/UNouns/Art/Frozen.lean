import UNouns.Art.Descriptor

/-!
# Locked parts

Once the owner has locked the parts, the descriptor hands no parts on to the art.  Two ways stay open to
the owner, locked or not: `setArtDescriptor` makes another account the descriptor of the art, and
`setArtInflator` sets another inflator, so that the pages that are there may be read as other images.

* `svgParams_kept`   what is read for a picture stays, while the palettes and the inflator do;
* `Sealed`           locked, and the art listens to the descriptor;
* `enter_sealed`     one call leaves the art of a sealed gallery as it is;
* `locked_frozen`    so it stays, and with it what is read for each token, over any run.
-/

set_option linter.unusedVariables false

namespace UNouns.Art
open Function Relation Reentrant UNounsToken

/-! ## what is read -/

section
variable {code code' : Bytecode} {a a' : NounsArt}

theorem SSTORE2.read_kept (hcode : ∀ pointer, code pointer ≠ [] → code' pointer = code pointer)
    {pointer : Address} {data : Bytes} (h : SSTORE2.read code pointer = .ok data) :
    SSTORE2.read code' pointer = .ok data := by
  have hkept : code' pointer = code pointer := by
    refine hcode _ fun e => ?_
    obtain ⟨_, hsub, _⟩ := bind_eq_ok.mp h
    rw [checkedSub_eq_ok, e] at hsub
    exact absurd hsub.1 (by decide)
  rw [← h]
  unfold SSTORE2.read
  rw [hkept]

/-- the same computation on each element, on a list -/
theorem mapM_kept {α β : Type} {f g : α → Result β} (h : ∀ x y, f x = .ok y → g x = .ok y)
    (xs : List α) : ∀ ys, xs.mapM f = .ok ys → xs.mapM g = .ok ys := by
  induction xs with
  | nil => exact fun ys hys => hys
  | cons x xs ih =>
    intro ys hys
    simp only [List.mapM_cons, bind_eq_ok, pure_eq_ok] at hys ⊢
    obtain ⟨y, hy, rest, hrest, rfl⟩ := hys
    exact ⟨y, h x y hy, rest, ih rest hrest, rfl⟩

/-- what is read for a picture stays, while the palettes and the inflator do -/
theorem NounsArt.svgParams_kept {C : Chain} (h : a.Extends code code' a')
    (hinflator : a'.inflator = a.inflator) (hpalettes : a'.palettesPointers = a.palettesPointers)
    {seed : Seed} {params : SVGParams}
    (hparams : a.svgParams C code seed = .ok params) : a'.svgParams C code' seed = .ok params := by
  have hpart : ∀ part p, (do pure ⟨part, ← a.getPalette code part⟩ : Result Part) = .ok p →
      (do pure ⟨part, ← a'.getPalette code' part⟩ : Result Part) = .ok p := by
    intro part p hp
    simp only [NounsArt.getPalette, NounsArt.palettes, bind_eq_ok, pure_eq_ok, hpalettes] at hp ⊢
    obtain ⟨palette, ⟨i, hi, u, hu, hread⟩, rfl⟩ := hp
    exact ⟨palette, ⟨i, hi, u, hu, SSTORE2.read_kept h.code hread⟩, rfl⟩
  simp only [NounsArt.svgParams, NounsArt.getPartsForSeed, bind_eq_ok, pure_eq_ok] at hparams ⊢
  obtain ⟨parts, ⟨body, hbody, accessory, haccessory, head, hhead, glasses, hglasses, hparts⟩,
    background, hbackground, rfl⟩ := hparams
  have hpuff : C.puff a'.inflator = C.puff a.inflator := congrArg C.puff hinflator
  refine ⟨parts, ⟨body, h.imageByIndex hpuff hbody, accessory, h.imageByIndex hpuff haccessory, head,
    h.imageByIndex hpuff hhead, glasses, h.imageByIndex hpuff hglasses, mapM_kept hpart _ parts hparts⟩,
    background, ?_, rfl⟩
  obtain ⟨more, hmore⟩ := h.backgrounds
  rw [item_eq_ok] at hbackground ⊢
  rw [← hmore]
  exact (List.getElem?_append_left (List.getElem?_eq_some_iff.mp hbackground).1).trans hbackground

end

/-! ## one call -/

/-- locked, and the art listens to the descriptor -/
structure Sealed (C : Chain) (g : Gallery) : Prop where
  locked : g.descriptor.arePartsLocked = true
  linked : g.art.descriptor = C.descriptor

/-- it makes no other account the descriptor of the art, and sets no inflator -/
def GalleryOp.Stays (op : GalleryOp) : Prop :=
  ∀ x, op ≠ .descriptor (.setArtDescriptor x) ∧ op ≠ .descriptor (.setArtInflator x)

instance (op : GalleryOp) : Decidable op.Stays :=
  match op with
  | .descriptor (.setArtDescriptor descriptor) => isFalse fun h => (h descriptor).1 rfl
  | .descriptor (.setArtInflator inflator) => isFalse fun h => (h inflator).2 rfl
  | .descriptor (.parts _ _) | .descriptor .lockParts | .descriptor (.transferOwnership _)
  | .descriptor .renounceOwnership | .mint | .token _ _ | .art _ | .create _ _ =>
    isTrue fun _ => ⟨fun h => (nomatch h), fun h => nomatch h⟩

/-- **A call leaves the art of a sealed gallery as it is**, apart from the two. -/
theorem GalleryOp.enter_sealed {C : Chain} {P : Platform} {env : Env} {sender : Address}
    {g g' : Gallery} {x : Option ReceiverCall} {op : GalleryOp} (hg : Sealed C g)
    (hsender : sender ≠ C.descriptor) (hop : op.Stays)
    (h : op.enter C P env sender g = .ok (g', x)) : Sealed C g' ∧ g'.art = g.art := by
  cases op with
  | mint =>
    obtain ⟨r, _, h⟩ := map_eq_ok.mp h
    cases h
    exact ⟨⟨hg.locked, hg.linked⟩, rfl⟩
  | token op _ =>
    obtain ⟨t, _, h⟩ := map_eq_ok.mp h
    cases h
    exact ⟨⟨hg.locked, hg.linked⟩, rfl⟩
  | descriptor op =>
    obtain ⟨⟨d, a, code⟩, hr, h⟩ := map_eq_ok.mp h
    cases h
    cases op with
    | parts op _ =>
      simp only [DescriptorOp.apply, bind_eq_ok] at hr
      obtain ⟨_, _, _, hlocked, _⟩ := hr
      rw [NounsDescriptorV2.whenPartsNotLocked, hg.locked] at hlocked
      cases hlocked
    | setArtDescriptor descriptor => exact absurd rfl (hop descriptor).1
    | setArtInflator inflator => exact absurd rfl (hop inflator).2
    | lockParts =>
      simp only [DescriptorOp.apply, bind_eq_ok] at hr
      obtain ⟨_, _, _, hlocked, _⟩ := hr
      rw [NounsDescriptorV2.whenPartsNotLocked, hg.locked] at hlocked
      cases hlocked
    | transferOwnership newOwner =>
      simp only [DescriptorOp.apply, bind_eq_ok, pure_eq_ok, Prod.mk.injEq] at hr
      obtain ⟨_, _, _, _, rfl, rfl, _⟩ := hr
      exact ⟨⟨hg.locked, hg.linked⟩, rfl⟩
    | renounceOwnership =>
      simp only [DescriptorOp.apply, bind_eq_ok, pure_eq_ok, Prod.mk.injEq] at hr
      obtain ⟨_, _, rfl, rfl, _⟩ := hr
      exact ⟨⟨hg.locked, hg.linked⟩, rfl⟩
  | art op =>
    obtain ⟨_, hr, _⟩ := map_eq_ok.mp h
    obtain ⟨_, honly, _⟩ := bind_eq_ok.mp hr
    exact absurd ((revertUnless_eq_ok.mp honly).trans hg.linked) hsender
  | create created runtime =>
    by_cases hcode : g.code created = []
    · cases (if_pos hcode).symm.trans h
      exact ⟨⟨hg.locked, hg.linked⟩, rfl⟩
    · cases (if_neg hcode).symm.trans h

/-! ## runs -/

/-- from each entry that began in a sealed gallery on, without the two -/
def Frozen {C : Chain} (c : GalleryConfig C) : Prop :=
  ∀ before r after, c.past = before ++ r :: after → Sealed C r.pre →
    (∀ x ∈ r :: after, x.op.op.Stays) →
      Sealed C c.now ∧ c.now.art = r.pre.art ∧ Grows r.pre c.now

theorem GalleryMove.frozen {C : Chain} {P : Platform} {env : Env} {c c' : GalleryConfig C}
    (h : GalleryMove C P env c c') (hc : Hung c) (hf : Frozen c) : Frozen c' := by
  cases h with
  | enter op g h =>
    obtain ⟨x, h⟩ := h
    have hgrows := (GalleryOp.enter_ok h (hc.counted _ c.now_mem_states)).1
    refine forall_cuts_concat.mpr ⟨fun before r after hpast hs hx => ?_, fun hs hx => ?_⟩
    · obtain ⟨h1, h2, h3⟩ := hf before r after hpast hs fun y hy => hx y (by
        rw [← List.cons_append]
        exact List.mem_append_left _ hy)
      have hop : op.op.Stays := hx ⟨env, c.now, op⟩ (by simp)
      obtain ⟨h4, h5⟩ := GalleryOp.enter_sealed h1 op.outside hop h
      exact ⟨h4, h5.trans h2, h3.trans hgrows⟩
    · obtain ⟨h4, h5⟩ := GalleryOp.enter_sealed hs op.outside (hx _ (List.mem_singleton_self _)) h
      exact ⟨h4, h5, hgrows⟩
  | resume g h => exact h.elim

/-- **Locked parts are frozen.**  Wherever a run is looked at: if an entry of the history began when the
parts were locked and the art listened to the descriptor, and neither it nor an entry after it was
`setArtDescriptor` or `setArtInflator`, then the art is now what it was then, the parts are still locked,
what the renderer was handed for a seed it is handed now, and the seeds of the tokens that were there are
the same. -/
theorem locked_frozen (C : Chain) (P : Platform) (code : Bytecode)
    (deployer unoundersDAO unouncilDAO minter seeder inflator : Address) (e : Env)
    (ts : List (Tx Env (GalleryCall C))) (hch : (e :: ts.map Tx.env).IsChain (· ≤ ·)) :
    ∀ o ∈ observations (GalleryCall.code C P) e ts
        ⟨[], .deploy C code deployer unoundersDAO unouncilDAO minter seeder inflator⟩,
      ∀ before r after, o.2.past = before ++ r :: after →
        r.pre.descriptor.arePartsLocked = true → r.pre.art.descriptor = C.descriptor →
        (∀ x ∈ r :: after, ∀ y, x.op.op ≠ .descriptor (.setArtDescriptor y) ∧
          x.op.op ≠ .descriptor (.setArtInflator y)) →
          o.2.now.descriptor.arePartsLocked = true ∧ o.2.now.art = r.pre.art ∧
          (∀ seed params, r.pre.art.svgParams C r.pre.code seed = .ok params →
            o.2.now.art.svgParams C o.2.now.code seed = .ok params) ∧
          ∀ id < r.pre.token.currentUNounId, o.2.now.token.seeds id = r.pre.token.seeds id := by
  intro o ho
  let start : GalleryConfig C :=
    ⟨[], .deploy C code deployer unoundersDAO unouncilDAO minter seeder inflator⟩
  have hstart : Hung start ∧ Frozen start :=
    ⟨hung_deploy C code deployer unoundersDAO unouncilDAO minter seeder inflator,
      fun before r after hpast => absurd (congrArg List.length hpast) (by simp [start])⟩
  have hrun : ReflTransGen (Timed (GalleryMove C P)) (e, start) o :=
    observations_timed (fun env op c => GalleryCall.follows C P env op c) hch ho
  have h : Hung o.2 ∧ Frozen o.2 :=
    Timed.invariant (I := fun _ c => Hung c ∧ Frozen c)
      (fun _ _ _ hc hm => ⟨hm.keeps hc.1, hm.frozen hc.1 hc.2⟩) (fun _ _ _ hc _ => hc) hrun hstart
  intro before r after hpast hlocked hlinked hops
  obtain ⟨hsealed, hart, hgrows⟩ := h.2 before r after hpast ⟨hlocked, hlinked⟩ hops
  exact ⟨hsealed.locked, hart, fun seed params hparams =>
    NounsArt.svgParams_kept hgrows.art (congrArg NounsArt.inflator hart)
      (congrArg NounsArt.palettesPointers hart) hparams,
    fun id hid => hgrows.seeds id hid⟩

/-- a palette for the sample parts; after the lock a part that comes too late, a mint and a new owner -/
def lockedTxs : List (Tx Env (GalleryCall sampleChain)) :=
  ⟨.block 7 70, sampleCall 1 (.descriptor (.parts (.setPalette 7 [0, 0, 0] 104) trivial))⟩ :: sampleTxs ++
  [⟨.block 10 100, sampleCall 1 (.descriptor (.parts (.addBackground "000000") trivial))⟩,
   ⟨.block 10 100, sampleCall 4 .mint⟩,
   ⟨.block 11 110, sampleCall 1 (.descriptor (.transferOwnership 2))⟩]

theorem locked_frozen_run :
    let last := (runTxs (GalleryCall.code sampleChain (.plain 10 11 4)) lockedTxs
      ⟨[], .deploy sampleChain (fun _ => []) 1 2 3 4 5 6⟩).2
    last.past.length = 11 ∧ ∃ r ∈ last.past, last.now.art = r.pre.art ∧
      last.now.token.seeds 1 = r.pre.token.seeds 1 ∧ ∃ params,
        last.now.art.svgParams sampleChain last.now.code (r.pre.token.seeds 1) = .ok params := by
  intro last
  have hlen : last.past.length = 11 := by decide +kernel
  have h9 : last.past[9]?.map (fun r => (r.pre.descriptor.arePartsLocked, r.pre.art.descriptor,
      decide (1 < r.pre.token.currentUNounId),
      (r.pre.art.svgParams sampleChain r.pre.code (r.pre.token.seeds 1)).toOption.isSome))
      = some (true, 20, true, true) := by decide +kernel
  have hstays : ∀ x ∈ last.past, x.op.op.Stays := by decide +kernel
  obtain ⟨r, hr, e⟩ := Option.map_eq_some_iff.mp h9
  obtain ⟨hi, rfl⟩ := List.getElem?_eq_some_iff.mp hr
  simp only [Prod.mk.injEq, decide_eq_true_eq] at e
  obtain ⟨hlocked, hlinked, hminted, hparams⟩ := e
  have hpast : last.past = last.past.take 9 ++ last.past[9] :: last.past.drop 10 := by
    rw [List.getElem_cons_drop, List.take_append_drop]
  have hsince : ∀ x ∈ last.past[9] :: last.past.drop 10, x.op.op.Stays := by
    intro x hx
    refine hstays x ?_
    rw [hpast]
    exact List.mem_append_right _ hx
  have h := locked_frozen sampleChain (.plain 10 11 4) (fun _ => []) 1 2 3 4 5 6 (.block 6 60) lockedTxs
    (by decide +kernel) (_, last) (final_mem_observations _ _ _ _)
  clear_value last
  obtain ⟨_, hart, hpicture, hseeds⟩ := h _ _ _ hpast hlocked hlinked hsince
  exact ⟨hlen, last.past[9], List.mem_of_getElem? hr, hart, hseeds 1 hminted, _,
    hpicture _ _ (eq_ok_get hparams)⟩

/-- the ways that stay open to the owner -/
example : let last := (runTxs (GalleryCall.code sampleChain (.plain 10 11 4)) (lockedTxs ++
      [⟨.block 12 120, sampleCall 2 (.descriptor (.setArtInflator 7))⟩,
       ⟨.block 12 120, sampleCall 2 (.descriptor (.setArtDescriptor 9))⟩,
       ⟨.block 12 120, sampleCall 9 (.art (.addBackground "000000"))⟩])
      ⟨[], .deploy sampleChain (fun _ => []) 1 2 3 4 5 6⟩).2.now
    last.descriptor.arePartsLocked = true ∧ last.art.inflator = 7 ∧
      last.art.backgrounds = ["d5d7e1", "e1d7d5", "000000"] := by
  decide +kernel

end UNouns.Art
