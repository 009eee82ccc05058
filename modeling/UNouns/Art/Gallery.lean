import UNouns.Art.NounsArt
import UNouns.Assets.Seed
import UNouns.Token.Seeds
import UNouns.Token.Votes

/-!
# Token, seeder, descriptor and art together

The token mints with the seeds of `NounsSeeder`, who asks `NounsDescriptorV2` for the numbers of parts,
which are in `NounsArt`.  These links stay: the functions that change them (`setSeeder`, `setDescriptor`
of the token, and `setArt`) are not called here.

* `DescriptorOp.apply`   the descriptor, which hands parts on to the art while they are not locked;
* `GalleryCall.code`     a call of the four, or another contract that comes to be;
* `Grows`                what a call leaves as it is;
* `seeds_resolve`        the parts of a seed are there from the mint on, and stay what they are.
-/

set_option linter.unusedVariables false

namespace UNouns.Art
open Function Relation Reentrant UNounsToken

/-! ## the descriptor -/

structure NounsDescriptorV2 where
  owner : Address
  arePartsLocked : Bool

namespace NounsDescriptorV2

def onlyOwner (d : NounsDescriptorV2) (sender : Address) : Result Unit :=
  require (d.owner = sender) "Ownable: caller is not the owner"

def whenPartsNotLocked (d : NounsDescriptorV2) : Result Unit :=
  require (d.arePartsLocked = false) "Parts are locked"

end NounsDescriptorV2

/-- the functions of the art that the descriptor hands parts to -/
def ArtOp.Parts : ArtOp → Prop
  | .setDescriptor _ | .setInflator _ => False
  | _ => True

theorem ArtOp.Parts.inflator {op : ArtOp} (h : op.Parts) : op.inflator = none := by
  cases op with
  | setInflator i => exact h.elim
  | _ => rfl

inductive DescriptorOp where
  /-- the function with the name of one of the art -/
  | parts (op : ArtOp) (h : op.Parts)
  | setArtDescriptor (descriptor : Address)
  | setArtInflator (inflator : Address)
  | lockParts
  | transferOwnership (newOwner : Address)
  | renounceOwnership

/-- art and bytecode go with it -/
def DescriptorOp.apply (C : Chain) (code : Bytecode) (sender : Address) (d : NounsDescriptorV2)
    (a : NounsArt) : DescriptorOp → Result (NounsDescriptorV2 × NounsArt × Bytecode)
  | .parts op _ => do
    d.onlyOwner sender
    d.whenPartsNotLocked
    let r ← op.apply code C.descriptor a
    pure (d, r)
  | .setArtDescriptor descriptor => do
    d.onlyOwner sender
    let r ← (ArtOp.setDescriptor descriptor).apply code C.descriptor a
    pure (d, r)
  | .setArtInflator inflator => do
    d.onlyOwner sender
    let r ← (ArtOp.setInflator inflator).apply code C.descriptor a
    pure (d, r)
  | .lockParts => do
    d.onlyOwner sender
    d.whenPartsNotLocked
    pure ({ d with arePartsLocked := true }, a, code)
  | .transferOwnership newOwner => do
    d.onlyOwner sender
    require (newOwner ≠ 0) "Ownable: new owner is the zero address"
    pure ({ d with owner := newOwner }, a, code)
  | .renounceOwnership => do
    d.onlyOwner sender
    pure ({ d with owner := 0 }, a, code)

/-- the inflator that a function sets -/
def DescriptorOp.inflator : DescriptorOp → Option Address
  | .setArtInflator i => some i
  | _ => none

/-! ## the system -/

structure Gallery where
  token : UNounsToken
  descriptor : NounsDescriptorV2
  art : NounsArt
  code : Bytecode

namespace Gallery

/-- `backgroundCount` and the others, of the descriptor -/
def counts (g : Gallery) : PartCounts where
  background := g.art.backgrounds.length
  body := (g.art.traits .bodies).storedImagesCount
  accessory := (g.art.traits .accessories).storedImagesCount
  head := (g.art.traits .heads).storedImagesCount
  glasses := (g.art.traits .glasses).storedImagesCount

def backgrounds (g : Gallery) (index : Nat) : Result String := item g.art.backgrounds index

def bodies (C : Chain) (g : Gallery) (index : Nat) : Result Bytes :=
  g.art.imageByIndex C g.code .bodies index

def accessories (C : Chain) (g : Gallery) (index : Nat) : Result Bytes :=
  g.art.imageByIndex C g.code .accessories index

def heads (C : Chain) (g : Gallery) (index : Nat) : Result Bytes :=
  g.art.imageByIndex C g.code .heads index

def glasses (C : Chain) (g : Gallery) (index : Nat) : Result Bytes :=
  g.art.imageByIndex C g.code .glasses index

/-- `seeder.generateSeed(unounId, descriptor)` -/
def generateSeed (C : Chain) (env : Env) (g : Gallery) (unounId : Nat) : Result Seed := do
  let previous ← checkedSub env.number 1
  NounsSeeder.generateSeed C.keccak256 (C.blockhash previous) (BitVec.ofNat 256 unounId) g.counts

end Gallery

/-- neither a `mint`, whose seeds come from the seeder, nor a function that changes the links -/
def Unlinked : TokenOp → Prop
  | .mint _ | .setDescriptor _ | .setSeeder _ => False
  | _ => True

inductive GalleryOp where
  | mint
  | token (op : TokenOp) (h : Unlinked op)
  | descriptor (op : DescriptorOp)
  | art (op : ArtOp)
  /-- a contract of someone else comes to be -/
  | create (created : Address) (runtime : Bytes)

/-- the inflator that a call sets -/
def GalleryOp.inflator : GalleryOp → Option Address
  | .descriptor op => op.inflator
  | .art op => op.inflator
  | _ => none

/-- a call from outside -/
structure GalleryCall (C : Chain) where
  msg : Msg
  op : GalleryOp
  outside : msg.sender ≠ C.descriptor

def GalleryOp.enter (C : Chain) (P : Platform) (env : Env) (sender : Address) (g : Gallery) :
    GalleryOp → Result (Gallery × Option ReceiverCall)
  | .mint => (g.token.mint env sender (g.generateSeed C env)).map
      (fun r => ({ g with token := r.1 }, none))
  | .token op _ => (op.apply P env sender g.token).map
      (fun t => ({ g with token := t }, op.receiver sender))
  | .descriptor op => (op.apply C g.code sender g.descriptor g.art).map
      (fun r => ({ g with descriptor := r.1, art := r.2.1, code := r.2.2 }, none))
  | .art op => (op.apply g.code sender g.art).map
      (fun r => ({ g with art := r.1, code := r.2 }, none))
  | .create created runtime =>
    if g.code created = [] then .ok ({ g with code := update g.code created runtime }, none)
    else .error .empty

def GalleryCall.code (C : Chain) (P : Platform) (env : Env) (c : GalleryCall C) (g : Gallery) :
    Reentrant.Code Gallery ReceiverCall Revert :=
  Code.once (fun x ok g => (TokenOp.after x ok g.token).map (fun t => { g with token := t }))
    (c.op.enter C P env c.msg.sender g)

abbrev GalleryConfig (C : Chain) := Config Env Gallery (GalleryCall C)

/-- an entry does its work at once; the receiver of a token comes after it -/
def GalleryMove (C : Chain) (P : Platform) : Env → GalleryConfig C → GalleryConfig C → Prop :=
  Move (fun env c g g' => ∃ x, c.op.enter C P env c.msg.sender g = .ok (g', x)) (fun _ _ _ => False)

theorem GalleryCall.follows (C : Chain) (P : Platform) (env : Env) (c : GalleryCall C)
    (k : GalleryConfig C) :
    (c.code C P env k.now).Follows (GalleryMove C P env) (fun _ _ => True) (k.enter env c) k := by
  refine Code.once_follows (fun g x h => ⟨⟨x, h⟩, fun _ _ => trivial⟩) (fun x ok g g' h => ?_)
  obtain ⟨t, ht, rfl⟩ := map_eq_ok.mp h
  simp only [TokenOp.after, bind_eq_ok, pure_eq_ok] at ht
  obtain ⟨_, _, rfl⟩ := ht
  exact .inl rfl

/-- the four, fresh -/
def Gallery.deploy (C : Chain) (code : Bytecode)
    (deployer unoundersDAO unouncilDAO minter seeder inflator : Address) : Gallery where
  token := UNounsToken.deploy deployer unoundersDAO unouncilDAO minter C.descriptor seeder
  descriptor := ⟨deployer, false⟩
  art := .deploy C.descriptor inflator
  code := code

/-! ## one call -/

/-- what a call leaves as it is -/
structure Grows (g g' : Gallery) : Prop where
  art : g.art.Extends g.code g'.code g'.art
  counted : g.art.Counted → g'.art.Counted
  counter : g.token.currentUNounId ≤ g'.token.currentUNounId
  seeds : ∀ id < g.token.currentUNounId, g'.token.seeds id = g.token.seeds id

/-- the new seeds are those of the seeder -/
def Seeding (C : Chain) (env : Env) (g g' : Gallery) : Prop :=
  ∀ id, g.token.currentUNounId ≤ id → id < g'.token.currentUNounId →
    g.generateSeed C env id = .ok (g'.token.seeds id)

theorem Grows.refl (g : Gallery) : Grows g g :=
  ⟨.refl _ _, id, Nat.le_refl _, fun _ _ => rfl⟩

theorem Grows.trans {g g' g'' : Gallery} (h : Grows g g') (h' : Grows g' g'') : Grows g g'' where
  art := h.art.trans h'.art
  counted := h'.counted ∘ h.counted
  counter := Nat.le_trans h.counter h'.counter
  seeds id hid := (h'.seeds id (Nat.lt_of_lt_of_le hid h.counter)).trans (h.seeds id hid)

theorem DescriptorOp.apply_ok {C : Chain} {code code' : Bytecode} {sender : Address}
    {d d' : NounsDescriptorV2} {a a' : NounsArt} {op : DescriptorOp}
    (h : op.apply C code sender d a = .ok (d', a', code')) (hc : a.Counted) :
    a.Extends code code' a' ∧ a'.Counted := by
  cases op with
  | parts op _ =>
    simp only [DescriptorOp.apply, bind_eq_ok, pure_eq_ok, Prod.mk.injEq] at h
    obtain ⟨_, _, _, _, r, hr, rfl, rfl⟩ := h
    exact ArtOp.apply_ok hr hc
  | setArtDescriptor _ | setArtInflator _ =>
    simp only [DescriptorOp.apply, bind_eq_ok, pure_eq_ok, Prod.mk.injEq] at h
    obtain ⟨_, _, r, hr, rfl, rfl⟩ := h
    exact ArtOp.apply_ok hr hc
  | lockParts =>
    simp only [DescriptorOp.apply, bind_eq_ok, pure_eq_ok, Prod.mk.injEq] at h
    obtain ⟨_, _, _, _, rfl, rfl, rfl⟩ := h
    exact ⟨.refl _ _, hc⟩
  | transferOwnership newOwner =>
    simp only [DescriptorOp.apply, bind_eq_ok, pure_eq_ok, Prod.mk.injEq] at h
    obtain ⟨_, _, _, _, rfl, rfl, rfl⟩ := h
    exact ⟨.refl _ _, hc⟩
  | renounceOwnership =>
    simp only [DescriptorOp.apply, bind_eq_ok, pure_eq_ok, Prod.mk.injEq] at h
    obtain ⟨_, _, rfl, rfl, rfl⟩ := h
    exact ⟨.refl _ _, hc⟩

theorem DescriptorOp.apply_inflator {C : Chain} {code code' : Bytecode} {sender : Address}
    {d d' : NounsDescriptorV2} {a a' : NounsArt} {op : DescriptorOp}
    (h : op.apply C code sender d a = .ok (d', a', code')) : a'.inflator = op.inflator.getD a.inflator := by
  cases op with
  | parts op hop =>
    simp only [DescriptorOp.apply, bind_eq_ok, pure_eq_ok, Prod.mk.injEq] at h
    obtain ⟨_, _, _, _, r, hr, rfl, rfl⟩ := h
    rw [ArtOp.apply_inflator hr, hop.inflator]
    rfl
  | setArtDescriptor _ | setArtInflator _ =>
    simp only [DescriptorOp.apply, bind_eq_ok, pure_eq_ok, Prod.mk.injEq] at h
    obtain ⟨_, _, r, hr, rfl, rfl⟩ := h
    exact ArtOp.apply_inflator hr
  | lockParts =>
    simp only [DescriptorOp.apply, bind_eq_ok, pure_eq_ok, Prod.mk.injEq] at h
    obtain ⟨_, _, _, _, _, rfl, _⟩ := h
    rfl
  | transferOwnership newOwner =>
    simp only [DescriptorOp.apply, bind_eq_ok, pure_eq_ok, Prod.mk.injEq] at h
    obtain ⟨_, _, _, _, _, rfl, _⟩ := h
    rfl
  | renounceOwnership =>
    simp only [DescriptorOp.apply, bind_eq_ok, pure_eq_ok, Prod.mk.injEq] at h
    obtain ⟨_, _, _, rfl, _⟩ := h
    rfl

/-- the inflator is the one that was set last -/
theorem GalleryOp.enter_inflator {C : Chain} {P : Platform} {env : Env} {sender : Address}
    {g g' : Gallery} {x : Option ReceiverCall} {op : GalleryOp}
    (h : op.enter C P env sender g = .ok (g', x)) :
    g'.art.inflator = op.inflator.getD g.art.inflator := by
  cases op with
  | mint | token op _ =>
    obtain ⟨r, _, h⟩ := map_eq_ok.mp h
    cases h
    rfl
  | descriptor op =>
    obtain ⟨r, hr, h⟩ := map_eq_ok.mp h
    cases h
    exact DescriptorOp.apply_inflator hr
  | art op =>
    obtain ⟨r, hr, h⟩ := map_eq_ok.mp h
    cases h
    exact ArtOp.apply_inflator hr
  | create created runtime =>
    by_cases hcode : g.code created = []
    · cases (if_pos hcode).symm.trans h
      rfl
    · cases (if_neg hcode).symm.trans h

/-- **A call grows the gallery**, and the seeds it adds are those of the seeder. -/
theorem GalleryOp.enter_ok {C : Chain} {P : Platform} {env : Env} {sender : Address} {g g' : Gallery}
    {x : Option ReceiverCall} {op : GalleryOp} (h : op.enter C P env sender g = .ok (g', x))
    (hc : g.art.Counted) : Grows g g' ∧ Seeding C env g g' := by
  have seeded : ∀ {t : UNounsToken}, Seeded (g.generateSeed C env) g.token t →
      Grows g { g with token := t } ∧ Seeding C env g { g with token := t } := fun hs =>
    ⟨⟨.refl _ _, id, hs.counter, hs.kept⟩, hs.added⟩
  have extended : ∀ {d : NounsDescriptorV2} {a : NounsArt} {code : Bytecode},
      g.art.Extends g.code code a ∧ a.Counted →
      Grows g { g with descriptor := d, art := a, code := code } ∧
        Seeding C env g { g with descriptor := d, art := a, code := code } := fun ha =>
    ⟨⟨ha.1, fun _ => ha.2, Nat.le_refl _, fun _ _ => rfl⟩, fun _ h1 h2 => absurd h1 (Nat.not_le_of_lt h2)⟩
  cases op with
  | mint =>
    obtain ⟨r, hr, h⟩ := map_eq_ok.mp h
    cases h
    exact seeded (mint_seeded hr)
  | token op hop =>
    obtain ⟨t, ht, h⟩ := map_eq_ok.mp h
    cases h
    refine seeded (TokenOp.apply_seeded ht (fun seeds e => ?_) _)
    rw [e] at hop
    exact hop
  | descriptor op =>
    obtain ⟨r, hr, h⟩ := map_eq_ok.mp h
    cases h
    exact extended (DescriptorOp.apply_ok hr hc)
  | art op =>
    obtain ⟨r, hr, h⟩ := map_eq_ok.mp h
    cases h
    exact extended (ArtOp.apply_ok hr hc)
  | create created runtime =>
    by_cases hcode : g.code created = []
    · cases (if_pos hcode).symm.trans h
      refine extended ⟨⟨List.prefix_refl _, fun _ => List.prefix_refl _, fun p hp => ?_⟩, hc⟩
      refine update_of_ne (fun e => hp ?_) _ _
      rw [e]
      exact hcode
    · cases (if_neg hcode).symm.trans h

/-! ## seeds -/

/-- a component below the count is stored with all its bits, and is the rest of a window of the digest -/
structure Drawn (C : Chain) (env : Env) (counts : PartCounts) (unounId : Nat) (seed : Seed) : Prop where
  nonzero : counts.Nonzero
  eq : let p := (C.keccak256 (C.blockhash (env.number - 1)) (BitVec.ofNat 256 unounId)).toNat
    seed = ⟨p / 2^0 % 2^48 % counts.background, p / 2^48 % 2^48 % counts.body,
      p / 2^96 % 2^48 % counts.accessory, p / 2^144 % 2^48 % counts.head,
      p / 2^192 % 2^48 % counts.glasses⟩

structure Below (counts : PartCounts) (seed : Seed) : Prop where
  background : seed.background < counts.background
  body : seed.body < counts.body
  accessory : seed.accessory < counts.accessory
  head : seed.head < counts.head
  glasses : seed.glasses < counts.glasses

theorem part_nonzero {p shift count n : Nat} (h : NounsSeeder.part p shift count = .ok n) : count ≠ 0 := by
  obtain ⟨_, h0, _⟩ := bind_eq_ok.mp h
  exact revertUnless_eq_ok.mp h0

/-- there is no seed while a count is zero -/
theorem Gallery.generateSeed_ok {C : Chain} {env : Env} {g : Gallery} {unounId : Nat} {seed : Seed}
    (h : g.generateSeed C env unounId = .ok seed) : Drawn C env g.counts unounId seed := by
  obtain ⟨previous, hprev, h⟩ := bind_eq_ok.mp h
  obtain ⟨_, rfl⟩ := checkedSub_eq_ok.mp hprev
  have hnonzero : g.counts.Nonzero := by
    simp only [NounsSeeder.generateSeed, bind_eq_ok] at h
    obtain ⟨_, h0, _, h1, _, h2, _, h3, _, h4, _⟩ := h
    exact ⟨part_nonzero h0, part_nonzero h1, part_nonzero h2, part_nonzero h3, part_nonzero h4⟩
  refine ⟨hnonzero, ?_⟩
  rw [NounsSeeder.generateSeed_eq _ _ _ hnonzero] at h
  exact (Except.ok.inj h).symm

theorem Drawn.below {C : Chain} {env : Env} {counts : PartCounts} {unounId : Nat} {seed : Seed}
    (h : Drawn C env counts unounId seed) : Below counts seed := by
  obtain ⟨h0, h1, h2, h3, h4⟩ := h.nonzero
  rw [h.eq]
  exact ⟨Nat.mod_lt _ (by omega), Nat.mod_lt _ (by omega), Nat.mod_lt _ (by omega),
    Nat.mod_lt _ (by omega), Nat.mod_lt _ (by omega)⟩

/-- the counts only grow -/
theorem Grows.below {g g' : Gallery} (h : Grows g g') (hc : g.art.Counted) {seed : Seed}
    (hs : Below g.counts seed) : Below g'.counts seed := by
  have hpages : ∀ kind, (g.art.traits kind).storedImagesCount ≤ (g'.art.traits kind).storedImagesCount := by
    intro kind
    rw [hc kind, h.counted hc kind]
    obtain ⟨more, hmore⟩ := h.art.pages kind
    rw [← hmore, List.map_append, List.sum_append]
    exact Nat.le_add_right _ _
  exact ⟨Nat.lt_of_lt_of_le hs.background h.art.backgrounds.length_le,
    Nat.lt_of_lt_of_le hs.body (hpages _), Nat.lt_of_lt_of_le hs.accessory (hpages _),
    Nat.lt_of_lt_of_le hs.head (hpages _), Nat.lt_of_lt_of_le hs.glasses (hpages _)⟩

/-! ## reading -/

/-- each page inflates and decodes to as many images as it says -/
def Gallery.Inflates (C : Chain) (g : Gallery) : Prop := g.art.Inflates C g.code

/-- `g` and `g'` read the same at the indices of a seed -/
structure Reads (C : Chain) (g g' : Gallery) (seed : Seed) : Prop where
  background : ∃ b, g.backgrounds seed.background = .ok b ∧ g'.backgrounds seed.background = .ok b
  body : ∃ im, g.bodies C seed.body = .ok im ∧ g'.bodies C seed.body = .ok im
  accessory : ∃ im, g.accessories C seed.accessory = .ok im ∧ g'.accessories C seed.accessory = .ok im
  head : ∃ im, g.heads C seed.head = .ok im ∧ g'.heads C seed.head = .ok im
  glasses : ∃ im, g.glasses C seed.glasses = .ok im ∧ g'.glasses C seed.glasses = .ok im

theorem prefix_getElem? {α : Type} {l l' : List α} (h : l <+: l') {i : Nat} (hi : i < l.length) :
    ∃ x, l[i]? = some x ∧ l'[i]? = some x := by
  obtain ⟨more, rfl⟩ := h
  refine ⟨l[i], List.getElem?_eq_getElem hi, ?_⟩
  rw [List.getElem?_append_left hi, List.getElem?_eq_getElem hi]

/-- **What is read below the counts stays**, with the same inflator. -/
theorem Grows.reads {C : Chain} {g g' : Gallery} (h : Grows g g') (hc : g.art.Counted)
    (hinflator : g'.art.inflator = g.art.inflator) (hi : g.Inflates C) (hi' : g'.Inflates C) {seed : Seed}
    (hs : Below g.counts seed) : Reads C g g' seed := by
  have himage : ∀ {kind : TraitKind} {index : Nat}, index < (g.art.traits kind).storedImagesCount →
      ∃ im, g.art.imageByIndex C g.code kind index = .ok im ∧
        g'.art.imageByIndex C g'.code kind index = .ok im := by
    intro kind index hlt
    obtain ⟨im, h1, h2⟩ := prefix_getElem? (h.art.images (congrArg C.puff hinflator) hi kind)
      (by rwa [hi.images_length hc kind])
    exact ⟨im, NounsArt.imageByIndex_eq hi h1, NounsArt.imageByIndex_eq hi' h2⟩
  obtain ⟨b, hb, hb'⟩ := prefix_getElem? h.art.backgrounds hs.background
  exact ⟨⟨b, item_eq_ok.mpr hb, item_eq_ok.mpr hb'⟩, himage hs.body, himage hs.accessory,
    himage hs.head, himage hs.glasses⟩

/-! ## runs -/

/-- the new seeds are drawn with the counts of the time -/
def Draws (C : Chain) (r : Record Env Gallery (GalleryCall C)) (next : Gallery) : Prop :=
  ∀ id, r.pre.token.currentUNounId ≤ id → id < next.token.currentUNounId →
    Drawn C r.env r.pre.counts id (next.token.seeds id)

/-- what holds of every history -/
structure Hung {C : Chain} (c : GalleryConfig C) : Prop where
  counted : ∀ g ∈ c.states, g.art.Counted
  grows : c.states.Pairwise Grows
  /-- it is the same all the time, if no call sets it -/
  inflator : (∀ r ∈ c.past, r.op.op.inflator = none) →
    ∀ g ∈ c.states, g.art.inflator = c.now.art.inflator
  draws : Linked (Draws C) c
  below : ∀ g ∈ c.states, ∀ id < g.token.currentUNounId, Below g.counts (g.token.seeds id)

theorem GalleryMove.keeps {C : Chain} {P : Platform} {env : Env} {c c' : GalleryConfig C}
    (h : GalleryMove C P env c c') (hc : Hung c) : Hung c' := by
  have hcounted := hc.counted _ c.now_mem_states
  obtain ⟨before, hbefore, hstates⟩ := Move.states h
  have henter : ∀ (op : GalleryCall C) (g : Gallery),
      (∃ x, op.op.enter C P env op.msg.sender c.now = .ok (g, x)) →
        Grows c.now g ∧ Draws C ⟨env, c.now, op⟩ g := by
    rintro op g ⟨x, h⟩
    obtain ⟨h1, h2⟩ := GalleryOp.enter_ok h hcounted
    exact ⟨h1, fun id hid hid' => Gallery.generateSeed_ok (h2 id hid hid')⟩
  have hstep : ∃ op, Grows c.now c'.now ∧ Draws C ⟨env, c.now, op⟩ c'.now := by
    cases h with
    | enter op g h => exact ⟨op, henter op g h⟩
    | resume g h => exact h.elim
  obtain ⟨_, hgrows, hdrawn⟩ := hstep
  have hset : (∀ r ∈ c'.past, r.op.op.inflator = none) →
      (∀ r ∈ c.past, r.op.op.inflator = none) ∧ c'.now.art.inflator = c.now.art.inflator := by
    cases h with
    | enter op g h =>
      obtain ⟨x, h⟩ := h
      intro hall
      have hop : op.op.inflator = none :=
        hall ⟨env, c.now, op⟩ (List.mem_append_right _ (List.mem_singleton_self _))
      refine ⟨fun r hr => hall r (List.mem_append_left _ hr), ?_⟩
      show g.art.inflator = _
      rw [GalleryOp.enter_inflator h, hop]
      rfl
    | resume g h => exact h.elim
  have hnew : ∀ {Q : Gallery → Prop}, (∀ g ∈ c.states, Q g) → Q c'.now → ∀ g ∈ c'.states, Q g := by
    intro Q hQ hnow g hg
    rw [hstates] at hg
    rcases List.mem_append.mp hg with hg | hg
    · exact hQ g (hbefore.subset hg)
    · rw [List.mem_singleton.mp hg]
      exact hnow
  refine ⟨hnew hc.counted (hgrows.counted hcounted),
    Move.pairwise (fun _ _ _ => Grows.trans) h hc.grows hgrows,
    fun hall => hnew (fun g hg => (hc.inflator (hset hall).1 g hg).trans (hset hall).2.symm) rfl,
    hc.draws.move h (fun op g hop => (henter op g hop).2) (fun _ _ _ _ h => h.elim),
    hnew hc.below fun id hid => hgrows.below hcounted ?_⟩
  by_cases hold : id < c.now.token.currentUNounId
  · rw [hgrows.seeds id hold]
    exact hc.below _ c.now_mem_states id hold
  · exact (hdrawn id (Nat.le_of_not_lt hold) hid).below

theorem runs_hung {C : Chain} {P : Platform} {x y : Env × GalleryConfig C}
    (h : ReflTransGen (Timed (GalleryMove C P)) x y) (hx : Hung x.2) : Hung y.2 :=
  Timed.invariant (I := fun _ c => Hung c) (fun _ _ _ hc hm => hm.keeps hc)
    (fun _ _ _ hc _ => hc) h hx

theorem hung_deploy (C : Chain) (code : Bytecode)
    (deployer unoundersDAO unouncilDAO minter seeder inflator : Address) :
    Hung (⟨[], .deploy C code deployer unoundersDAO unouncilDAO minter seeder inflator⟩ :
      GalleryConfig C) := by
  refine ⟨fun g hg => ?_, List.pairwise_singleton _ _, fun _ g hg => ?_, .nil _, fun g hg id hid => ?_⟩
  · rw [List.mem_singleton.mp hg]
    exact NounsArt.deploy_counted _ _
  · rw [List.mem_singleton.mp hg]
  · rw [List.mem_singleton.mp hg] at hid
    exact absurd hid (Nat.not_lt_zero _)

/-- **Every seed stays resolvable.**  Wherever a run is looked at, the seeds that its history tells of
were drawn from the digest with the counts of their mint, none of them zero, and no bit was lost; from
the mint on each stays what it is, its components are below the counts, and what is read at them stays
the same, if no call sets the inflator and as long as each page inflates and decodes to the images that
it says. -/
theorem seeds_resolve (C : Chain) (P : Platform) (code : Bytecode)
    (deployer unoundersDAO unouncilDAO minter seeder inflator : Address) (e : Env)
    (ts : List (Tx Env (GalleryCall C))) (hch : (e :: ts.map Tx.env).IsChain (· ≤ ·)) :
    ∀ o ∈ observations (GalleryCall.code C P) e ts
        ⟨[], .deploy C code deployer unoundersDAO unouncilDAO minter seeder inflator⟩,
      Linked (Draws C) o.2 ∧
      ∀ (i j : Nat) (g g' : Gallery), i ≤ j → o.2.states[i]? = some g → o.2.states[j]? = some g' →
        ∀ id < g.token.currentUNounId, g'.token.seeds id = g.token.seeds id ∧
          Below g'.counts (g.token.seeds id) ∧
          ((∀ r ∈ o.2.past, r.op.op.inflator = none) → (∀ s ∈ o.2.states, s.Inflates C) →
            Reads C g g' (g.token.seeds id)) := by
  intro o ho
  have hstart : Hung (⟨[], .deploy C code deployer unoundersDAO unouncilDAO minter seeder inflator⟩ :
      GalleryConfig C) := hung_deploy C code deployer unoundersDAO unouncilDAO minter seeder inflator
  have hrun : ReflTransGen (Timed (GalleryMove C P)) (e, _) o :=
    observations_timed (fun env op c => GalleryCall.follows C P env op c) hch ho
  have h := runs_hung hrun hstart
  refine ⟨h.draws, fun i j g g' hij hi hj id hid => ?_⟩
  have hg := List.mem_of_getElem? hi
  have hg' := List.mem_of_getElem? hj
  have hgrows : Grows g g' := by
    rcases Nat.eq_or_lt_of_le hij with rfl | hlt
    · cases hi.symm.trans hj
      exact .refl g
    · obtain ⟨hi', rfl⟩ := List.getElem?_eq_some_iff.mp hi
      obtain ⟨hj', rfl⟩ := List.getElem?_eq_some_iff.mp hj
      exact List.pairwise_iff_getElem.mp h.grows i j hi' hj' hlt
  have hbelow := h.below g hg id hid
  refine ⟨hgrows.seeds id hid, hgrows.below (h.counted g hg) hbelow, fun hset hinf => ?_⟩
  have hinflator : g'.art.inflator = g.art.inflator :=
    (h.inflator hset g' hg').trans (h.inflator hset g hg).symm
  exact hgrows.reads (h.counted g hg) hinflator (hinf g hg) (hinf g' hg') hbelow

/-- a word with a small number -/
def word (n : UInt8) : Bytes := List.replicate 31 0 ++ [n]

/-- the number in a word -/
def wordAt (data : Bytes) (i : Nat) : Nat :=
  ((data.drop i).take 32).foldl (fun n b => n * 256 + b.toNat) 0

/-- one stored block is inflated, and an array of byte strings is decoded -/
def sampleChain : Chain where
  descriptor := 20
  keccak256 := sampleKeccak
  blockhash _ := sampleBlockHash
  puff _ source destlen := match source with
    | 0x01 :: _ :: _ :: _ :: _ :: data => .ok (0, data.take destlen)
    | _ => .ok (1, [])
  decode data :=
    let array := data.drop (wordAt data 0)
    let elements := array.drop 32
    .ok ((List.range (wordAt array 0)).map fun k =>
      let element := elements.drop (wordAt elements (32 * k))
      (element.drop 32).take (wordAt element 0))

/-- one image of two bytes, in a stored block -/
def samplePage : Bytes :=
  [0x01, 160, 0, 95, 255] ++ word 32 ++ word 1 ++ word 32 ++ word 2 ++ [7, 8] ++ List.replicate 30 0

def sampleCall (sender : Address) (op : GalleryOp)
    (h : decide (sender ≠ 0 ∧ sender ≠ sampleChain.descriptor) = true := by exact Eq.refl true) :
    Call (GalleryCall sampleChain) :=
  .mk ⟨⟨sender, 0, (of_decide_eq_true h).1⟩, op, (of_decide_eq_true h).2⟩ .nil

/-- parts, a mint, more parts, and no more -/
def sampleTxs : List (Tx Env (GalleryCall sampleChain)) :=
  [⟨.block 7 70, sampleCall 1
      (.descriptor (.parts (.addManyBackgrounds ["d5d7e1", "e1d7d5"]) trivial))⟩,
    ⟨.block 7 70, sampleCall 1
      (.descriptor (.parts (.addBodies samplePage 100 160 1) trivial))⟩,
    ⟨.block 7 70, sampleCall 1
      (.descriptor (.parts (.addAccessories samplePage 101 160 1) trivial))⟩,
    ⟨.block 7 70, sampleCall 1
      (.descriptor (.parts (.addHeads samplePage 102 160 1) trivial))⟩,
    ⟨.block 7 70, sampleCall 1
      (.descriptor (.parts (.addGlasses samplePage 103 160 1) trivial))⟩,
    ⟨.block 8 80, sampleCall 4 .mint⟩,
    ⟨.block 9 90, sampleCall 1
      (.descriptor (.parts (.addHeadsFromPointer 101 160 1) trivial))⟩,
    ⟨.block 9 90, sampleCall 1 (.descriptor .lockParts)⟩]

theorem seeds_resolve_run :
    let last := (runTxs (GalleryCall.code sampleChain (.plain 10 11 4)) sampleTxs
      ⟨[], .deploy sampleChain (fun _ => []) 1 2 3 4 5 6⟩).2
    last.now.descriptor.arePartsLocked = true ∧ last.now.counts.head = 2 ∧
      ∃ g g', last.states[6]? = some g ∧ last.states[8]? = some g' ∧ 1 < g.token.currentUNounId ∧
        Below g'.counts (g.token.seeds 1) ∧ Reads sampleChain g g' (g.token.seeds 1) := by
  intro last
  have hlen : last.states.length = 9 := by decide +kernel
  have hinf : ∀ s ∈ last.states, s.Inflates sampleChain := by
    have : ∀ s ∈ last.states, s.art.Inflates sampleChain s.code := by decide +kernel
    exact this
  have hset : ∀ r ∈ last.past, r.op.op.inflator = none := by decide +kernel
  have hi : last.states[6]? = some last.states[6] := List.getElem?_eq_getElem (by omega)
  have hj : last.states[8]? = some last.states[8] := List.getElem?_eq_getElem (by omega)
  have hminted : 1 < last.states[6].token.currentUNounId := by decide +kernel
  obtain ⟨_, h⟩ := seeds_resolve sampleChain (.plain 10 11 4) (fun _ => []) 1 2 3 4 5 6 (.block 6 60)
    sampleTxs (by decide +kernel) _ (final_mem_observations _ _ _ _)
  obtain ⟨_, hbelow, hreads⟩ := h 6 8 _ _ (by omega) hi hj 1 hminted
  exact ⟨by decide +kernel, by decide +kernel, _, _, hi, hj, hminted, hbelow, hreads hset hinf⟩

end UNouns.Art
