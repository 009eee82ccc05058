import UNouns.Sdk.Encoder
import Mathlib.Data.List.Perm.Subperm
import Mathlib.Data.List.Nodup

/-!
# What the encoder lists

`PNGCollectionEncoder.data` lists the encoded images by their folders.  The texts are kept by the names
of the images only, and each is gone once it is listed.

* `objectEntries`, `format`     the getter;
* `log`                         the calls with the texts that were made of their images;
* `pieces`                      the folders, one drawn after another from one map;
* `Lossless`                    each image is listed once, where it belongs;
* `encodeAll_lossless_iff`      it is so if no name is used twice and no folder has a special name.
-/

set_option linter.unusedVariables false

namespace UNouns.Sdk

/-! ## the getter -/

/-- `data` is `none` for `undefined` -/
structure EncodedImage where
  filename : String
  data : Option (List Char)
  deriving DecidableEq

structure ImageData where
  palette : List (List Char)
  images : List (String × List EncodedImage)

/-- the number that a key is written for, if it is an array index -/
def arrayIndex (key : String) : Option Nat :=
  let n := key.toList.foldl (fun n c => 10 * n + (c.toNat - '0'.toNat)) 0
  if toString n = key ∧ n < 2 ^ 32 - 1 then some n else none

/-- `Object.entries`: first the array indexes, in ascending order, and then the rest as it was put -/
def objectEntries {V : Type} (o : List (String × V)) : List (String × V) :=
  (o.filter fun e => (arrayIndex e.1).isSome).mergeSort
    (fun a b => (arrayIndex a.1).getD 0 ≤ (arrayIndex b.1).getD 0)
  ++ o.filter fun e => !(arrayIndex e.1).isSome

theorem objectEntries_perm {V : Type} (o : List (String × V)) : (objectEntries o).Perm o :=
  (List.Perm.append_right _ (List.mergeSort_perm _ _)).trans (List.filter_append_perm _ o)

namespace PNGCollectionEncoder

/-- the files of a folder, and the map without them -/
def writeFolder (images : List (String × List Char)) (filenames : List String) :
    List EncodedImage × List (String × List Char) :=
  ((OrderedMap.draw images filenames).1.map fun e => ⟨e.1, e.2⟩, (OrderedMap.draw images filenames).2)

def format (enc : PNGCollectionEncoder) (flatten : Bool) : List (String × List EncodedImage) :=
  let folders := objectEntries enc.folders
  let written := if flatten = false ∧ folders ≠ [] then
      folders.foldl (fun s e =>
        (OrderedMap.set s.1 e.1 (writeFolder s.2 e.2).1, (writeFolder s.2 e.2).2)) ([], enc.images)
    else ([], enc.images)
  if written.2 = [] then written.1
  else OrderedMap.set written.1 "root" (written.2.map fun e => ⟨e.1, some e.2⟩)

def data (enc : PNGCollectionEncoder) : ImageData := ⟨enc.palette, enc.format false⟩

end PNGCollectionEncoder

/-! ## a run -/

/-- where an image is filed, and its name -/
def Call.filed (c : Call) : Option (String × String) :=
  match c.folder with
  | none => none
  | some folder => if folder = "" ∨ folder ∈ inherited then none else some (folder, c.name)

def Call.Throws (c : Call) : Prop := ∃ folder ∈ inherited, c.folder = some folder

instance (c : Call) : Decidable c.Throws := inferInstanceAs (Decidable (∃ folder ∈ inherited, _))

namespace PNGCollectionEncoder

/-- the calls, with the texts that were made of their images -/
def log (enc : PNGCollectionEncoder) : List Call → List (Call × List Char)
  | [] => []
  | c :: cs => (c, (c.png.toRLE enc.colors).1) :: log (enc.encodeImage c).2 cs

theorem log_calls (cs : List Call) : ∀ enc : PNGCollectionEncoder, (enc.log cs).map Prod.fst = cs := by
  induction cs with
  | nil => exact fun _ => rfl
  | cons c cs ih => exact fun enc => congrArg (c :: ·) (ih _)

theorem encodeImage_eq (enc : PNGCollectionEncoder) (c : Call) :
    (enc.encodeImage c).1 = (if c.Throws then none else some (c.png.toRLE enc.colors).1) ∧
    (enc.encodeImage c).2.images = OrderedMap.set enc.images c.name (c.png.toRLE enc.colors).1 ∧
    (enc.encodeImage c).2.folders =
      c.filed.elim enc.folders fun e => OrderedMap.push enc.folders e.1 e.2 := by
  obtain ⟨name, png, folder⟩ := c
  cases folder with
  | none =>
    have hthrows : ¬ (⟨name, png, none⟩ : Call).Throws := by
      rintro ⟨folder, _, h⟩
      cases h
    rw [if_neg hthrows]
    exact ⟨rfl, rfl, rfl⟩
  | some folder =>
    have hthrows : (⟨name, png, some folder⟩ : Call).Throws ↔ folder ∈ inherited := by
      constructor
      · rintro ⟨f, hf, h⟩
        exact Option.some.inj h ▸ hf
      · exact fun h => ⟨folder, h, rfl⟩
    unfold encodeImage Call.filed
    simp only [hthrows]
    by_cases hempty : folder = ""
    · subst hempty
      rw [if_neg (by decide : ¬ "" ∈ inherited)]
      exact ⟨rfl, rfl, rfl⟩
    · by_cases hin : folder ∈ inherited
      · rw [if_neg hempty, if_pos hin, if_pos hin, if_pos (Or.inr hin)]
        exact ⟨rfl, rfl, rfl⟩
      · rw [if_neg hempty, if_neg hin, if_neg hin, if_neg (not_or.mpr ⟨hempty, hin⟩)]
        exact ⟨rfl, rfl, rfl⟩

theorem encodeAll_returns (cs : List Call) : ∀ enc : PNGCollectionEncoder,
    (enc.encodeAll cs).1 = (enc.log cs).map fun p => if p.1.Throws then none else some p.2 := by
  induction cs with
  | nil => exact fun _ => rfl
  | cons c cs ih =>
    intro enc
    show (enc.encodeImage c).1 :: ((enc.encodeImage c).2.encodeAll cs).1 = _
    rw [ih, (encodeImage_eq enc c).1]
    rfl

theorem encodeAll_images (cs : List Call) : ∀ enc : PNGCollectionEncoder,
    (enc.encodeAll cs).2.images = OrderedMap.setAll enc.images ((enc.log cs).map fun p => (p.1.name, p.2)) := by
  induction cs with
  | nil => exact fun _ => rfl
  | cons c cs ih =>
    intro enc
    show ((enc.encodeImage c).2.encodeAll cs).2.images = _
    rw [ih, (encodeImage_eq enc c).2.1]
    rfl

theorem encodeAll_folders (cs : List Call) : ∀ enc : PNGCollectionEncoder, (enc.encodeAll cs).2.folders =
    (cs.filterMap Call.filed).foldl (fun m e => OrderedMap.push m e.1 e.2) enc.folders := by
  induction cs with
  | nil => exact fun _ => rfl
  | cons c cs ih =>
    intro enc
    show ((enc.encodeImage c).2.encodeAll cs).2.folders = _
    rw [ih, (encodeImage_eq enc c).2.2]
    cases hc : c.filed with
    | none =>
      rw [List.filterMap_cons_none hc]
      rfl
    | some e =>
      rw [List.filterMap_cons_some hc]
      rfl

end PNGCollectionEncoder

/-! ## folders one after another -/

open PNGCollectionEncoder

/-- what each folder gets when they are written in turn -/
def pieces (images : List (String × List Char)) :
    List (String × List String) → List (String × List EncodedImage)
  | [] => []
  | e :: folders => (e.1, (writeFolder images e.2).1) :: pieces (writeFolder images e.2).2 folders

theorem keys_pieces (folders : List (String × List String)) : ∀ images : List (String × List Char),
    OrderedMap.keys (pieces images folders) = OrderedMap.keys folders := by
  induction folders with
  | nil => exact fun _ => rfl
  | cons e folders ih => exact fun images => congrArg (e.1 :: ·) (ih _)

/-- together they get what is drawn under all names -/
theorem flatMap_pieces (folders : List (String × List String)) : ∀ images : List (String × List Char),
    (pieces images folders).flatMap Prod.snd
      = (writeFolder images (folders.flatMap Prod.snd)).1 := by
  induction folders with
  | nil => exact fun _ => rfl
  | cons e folders ih =>
    intro images
    have hdraw := OrderedMap.draw_append e.2 (folders.flatMap Prod.snd) images
    unfold writeFolder at ih ⊢
    rw [List.flatMap_cons, hdraw, List.map_append]
    exact congrArg (_ ++ ·) (ih _)

theorem pieces_of_nodup {images : List (String × List Char)} {folders : List (String × List String)} :
    ∀ {rest : List (String × List Char)}, (folders.flatMap Prod.snd).Nodup →
      (∀ name ∈ folders.flatMap Prod.snd, OrderedMap.get rest name = OrderedMap.get images name) →
      pieces rest folders
        = folders.map fun e => (e.1, e.2.map fun name => ⟨name, OrderedMap.get images name⟩) := by
  induction folders with
  | nil => exact fun _ _ => rfl
  | cons e folders ih =>
    intro rest h hget
    rw [List.flatMap_cons] at h hget
    obtain ⟨he, hfolders, hdisjoint⟩ := List.nodup_append.mp h
    have hfirst : (writeFolder rest e.2).1 = e.2.map fun name => ⟨name, OrderedMap.get images name⟩ := by
      unfold writeFolder
      rw [OrderedMap.draw_of_nodup he, List.map_map]
      refine List.map_congr_left fun name hname => ?_
      show (⟨name, OrderedMap.get rest name⟩ : EncodedImage) = _
      rw [hget name (List.mem_append_left _ hname)]
    have hkept : ∀ name ∈ folders.flatMap Prod.snd,
        OrderedMap.get (writeFolder rest e.2).2 name = OrderedMap.get images name := by
      intro name hname
      have hnot : name ∉ e.2 := fun hmem => hdisjoint name hmem name hname rfl
      have hdrawn : OrderedMap.get (writeFolder rest e.2).2 name = OrderedMap.get rest name :=
        OrderedMap.get_draw_rest rest hnot
      rw [hdrawn, hget name (List.mem_append_right _ hname)]
    show (e.1, (writeFolder rest e.2).1) :: pieces (writeFolder rest e.2).2 folders = _
    rw [hfirst, ih hfolders hkept]
    rfl

/-- the reduction of the code -/
theorem foldl_pieces (folders : List (String × List String)) :
    ∀ (acc : List (String × List EncodedImage)) (images : List (String × List Char)),
      (OrderedMap.keys acc ++ OrderedMap.keys folders).Nodup →
      folders.foldl (fun s e => (OrderedMap.set s.1 e.1 (writeFolder s.2 e.2).1, (writeFolder s.2 e.2).2))
        (acc, images) = (acc ++ pieces images folders, (writeFolder images (folders.flatMap Prod.snd)).2) := by
  induction folders with
  | nil =>
    intro acc images _
    rw [List.foldl_nil, show pieces images [] = [] from rfl, List.append_nil]
    rfl
  | cons e folders ih =>
    intro acc images h
    have hkeys : OrderedMap.keys (e :: folders) = e.1 :: OrderedMap.keys folders := rfl
    rw [hkeys] at h
    have hnew : e.1 ∉ OrderedMap.keys acc := fun hmem =>
      (List.nodup_append.mp h).2.2 e.1 hmem e.1 List.mem_cons_self rfl
    have hdraw := OrderedMap.draw_append e.2 (folders.flatMap Prod.snd) images
    rw [List.foldl_cons, OrderedMap.set_of_new _ hnew, ih]
    · unfold writeFolder
      rw [List.flatMap_cons, hdraw, List.append_assoc]
      rfl
    · unfold OrderedMap.keys at h ⊢
      rw [List.map_append, List.append_assoc]
      exact h

/-- the getter, with the folders in whatever order -/
theorem format_eq (enc : PNGCollectionEncoder) (hnodup : (OrderedMap.keys enc.folders).Nodup) :
    ∃ folders rest, folders.Perm enc.folders ∧
      rest = (writeFolder enc.images (folders.flatMap Prod.snd)).2 ∧
      enc.format false = if rest = [] then pieces enc.images folders
        else OrderedMap.set (pieces enc.images folders) "root" (rest.map fun e => ⟨e.1, some e.2⟩) := by
  have hperm := objectEntries_perm enc.folders
  refine ⟨objectEntries enc.folders, _, hperm, rfl, ?_⟩
  have hkeys : (OrderedMap.keys (objectEntries enc.folders)).Nodup := (hperm.map Prod.fst).nodup_iff.mpr hnodup
  have hfold := foldl_pieces (objectEntries enc.folders) [] enc.images hkeys
  rw [List.nil_append] at hfold
  have hwritten : (if false = false ∧ objectEntries enc.folders ≠ [] then
      (objectEntries enc.folders).foldl (fun s e =>
        (OrderedMap.set s.1 e.1 (writeFolder s.2 e.2).1, (writeFolder s.2 e.2).2)) ([], enc.images)
      else ([], enc.images)) = (pieces enc.images (objectEntries enc.folders),
        (writeFolder enc.images ((objectEntries enc.folders).flatMap Prod.snd)).2) := by
    rw [hfold]
    split_ifs with h
    · rfl
    · have hnil : objectEntries enc.folders = [] := by_contra fun hne => h ⟨rfl, hne⟩
      rw [hnil]
      rfl
  unfold format
  dsimp only
  rw [hwritten]

/-! ## what is filed -/

theorem filed_eq_some {c : Call} {e : String × String} (h : c.filed = some e) :
    c.folder = some e.1 ∧ c.name = e.2 ∧ e.1 ≠ "" ∧ e.1 ∉ inherited := by
  unfold Call.filed at h
  split at h
  · cases h
  · next folder hfolder =>
    split_ifs at h with hs
    obtain rfl := Option.some.inj h
    exact ⟨hfolder, rfl, fun h => hs (.inl h), fun h => hs (.inr h)⟩

theorem filed_of_folder {c : Call} {folder : String} (h : c.folder = some folder) (h1 : folder ≠ "")
    (h2 : folder ∉ inherited) : c.filed = some (folder, c.name) := by
  unfold Call.filed
  rw [h]
  exact if_neg (not_or.mpr ⟨h1, h2⟩)

theorem filed_of_none {c : Call} (h : c.folder = none) : c.filed = none := by
  unfold Call.filed
  rw [h]

theorem filed_names (calls : List Call) : (calls.filterMap Call.filed).map Prod.snd
    = (calls.filter fun c => c.filed.isSome).map Call.name := by
  induction calls with
  | nil => rfl
  | cons c calls ih =>
    cases hc : c.filed with
    | none => rw [List.filterMap_cons_none hc, List.filter_cons_of_neg (by simp [hc]), ih]
    | some e =>
      rw [List.filterMap_cons_some hc, List.filter_cons_of_pos (by simp [hc]), List.map_cons, List.map_cons,
        ih, (filed_eq_some hc).2.1]

/-- the names under one folder -/
theorem filed_folder (calls : List Call) {folder : String} (h1 : folder ≠ "") (h2 : folder ∉ inherited) :
    ((calls.filterMap Call.filed).filter fun e => e.1 = folder).map Prod.snd
      = (calls.filter fun c => c.folder = some folder).map Call.name := by
  induction calls with
  | nil => rfl
  | cons c calls ih =>
    by_cases hf : c.folder = some folder
    · rw [List.filterMap_cons_some (filed_of_folder hf h1 h2), List.filter_cons_of_pos (by simp),
        List.filter_cons_of_pos (by simp [hf]), List.map_cons, List.map_cons, ih]
    · rw [List.filter_cons_of_neg (by simp [hf])]
      cases hc : c.filed with
      | none => rw [List.filterMap_cons_none hc, ih]
      | some e =>
        have hne : e.1 ≠ folder := fun he => hf (he ▸ (filed_eq_some hc).1)
        rw [List.filterMap_cons_some hc, List.filter_cons_of_neg (by simp [hne]), ih]

/-- every name is that of a filed image or of one that is not -/
theorem names_perm (calls : List Call) : (calls.map Call.name).Perm
    ((calls.filterMap Call.filed).map Prod.snd ++ (calls.filter fun c => !c.filed.isSome).map Call.name) := by
  rw [filed_names, ← List.map_append]
  exact ((List.filter_append_perm _ calls).map Call.name).symm

/-! ## the law -/

namespace PNGCollectionEncoder

/-- the images that were encoded into a folder, in call order, each with what its call returned -/
def listing (enc : PNGCollectionEncoder) (calls : List Call) (folder : Option String) : List EncodedImage :=
  ((calls.zip (enc.encodeAll calls).1).filter fun p => p.1.folder = folder).map fun p => ⟨p.1.name, p.2⟩

/-- what the getter lists after the calls -/
def listed (enc : PNGCollectionEncoder) (calls : List Call) : List (String × List EncodedImage) :=
  (enc.encodeAll calls).2.data.images

end PNGCollectionEncoder

/-- no call throws, and each image is listed once, where it belongs -/
structure Lossless (enc : PNGCollectionEncoder) (calls : List Call) : Prop where
  returned : ∀ r ∈ (enc.encodeAll calls).1, r ≠ none
  folder : ∀ c ∈ calls, ∀ folder, c.folder = some folder →
    OrderedMap.get (enc.listed calls) folder = some (enc.listing calls (some folder))
  root : (OrderedMap.get (enc.listed calls) "root").getD [] = enc.listing calls none
  total : ((enc.listed calls).map fun e => e.2.length).sum = calls.length

/-- the folder is one that an object can have of its own, and not the one for the rest -/
def Call.Plain (c : Call) : Prop :=
  ∀ folder, c.folder = some folder → folder ≠ "" ∧ folder ≠ "root" ∧ folder ∉ inherited

section
variable {colors : Option (List (List Char))} {calls : List Call}

theorem mem_log {p : Call × List Char} {enc : PNGCollectionEncoder} (h : p ∈ enc.log calls) : p.1 ∈ calls := by
  rw [← enc.log_calls calls]
  exact List.mem_map_of_mem h

theorem listing_eq {enc : PNGCollectionEncoder} (h : ∀ c ∈ calls, ¬ c.Throws) (folder : Option String) :
    enc.listing calls folder
      = ((enc.log calls).filter fun p => p.1.folder = folder).map fun p => ⟨p.1.name, some p.2⟩ := by
  have hzip : calls.zip (enc.encodeAll calls).1 = (enc.log calls).map fun p => (p.1, some p.2) := by
    have hreturns : (enc.encodeAll calls).1 = (enc.log calls).map fun p => some p.2 := by
      rw [encodeAll_returns]
      exact List.map_congr_left fun p hp => if_neg (h p.1 (mem_log hp))
    have hcalls := enc.log_calls calls
    rw [hreturns]
    conv_lhs => arg 1; rw [← hcalls]
    exact List.zip_map'
  unfold listing
  rw [hzip, List.filter_map, List.map_map]
  rfl

theorem not_throws (h : ∀ r ∈ ((new colors).encodeAll calls).1, r ≠ none) : ∀ c ∈ calls, ¬ c.Throws := by
  intro c hc hthrows
  rw [← (new colors).log_calls calls] at hc
  obtain ⟨p, hp, rfl⟩ := List.mem_map.mp hc
  rw [encodeAll_returns] at h
  exact h _ (List.mem_map_of_mem hp) (if_pos hthrows)

/-- what the getter has before it -/
structure Walk (colors : Option (List (List Char))) (calls : List Call) (folders : List (String × List String))
    (images rest : List (String × List Char)) : Prop where
  images_eq : images = OrderedMap.setAll [] (((new colors).log calls).map fun p => (p.1.name, p.2))
  nodup : (OrderedMap.keys folders).Nodup
  names : (folders.flatMap Prod.snd).Perm ((calls.filterMap Call.filed).map Prod.snd)
  get : ∀ f, OrderedMap.get folders f = OrderedMap.get (OrderedMap.pushAll (calls.filterMap Call.filed)) f
  rest_eq : rest = images.filter fun e => e.1 ∉ folders.flatMap Prod.snd
  listed : (new colors).listed calls = if rest = [] then pieces images folders
    else OrderedMap.set (pieces images folders) "root" (rest.map fun e => ⟨e.1, some e.2⟩)

theorem exists_walk (colors : Option (List (List Char))) (calls : List Call) :
    ∃ folders images rest, Walk colors calls folders images rest := by
  have hfolders := encodeAll_folders calls (new colors)
  have hpush := OrderedMap.nodup_pushAll (calls.filterMap Call.filed)
  have hflat := OrderedMap.flatMap_pushAll (calls.filterMap Call.filed)
  have hkeys : (OrderedMap.keys ((new colors).encodeAll calls).2.folders).Nodup := hfolders ▸ hpush
  obtain ⟨folders, rest, hperm, hrest, hformat⟩ := format_eq ((new colors).encodeAll calls).2 hkeys
  have hnodup : (OrderedMap.keys folders).Nodup := (hperm.map Prod.fst).nodup_iff.mpr hkeys
  refine ⟨folders, _, rest, encodeAll_images calls (new colors), hnodup, ?_, fun f => ?_, ?_, ?_⟩
  · exact (hperm.flatMap_right Prod.snd).trans (hfolders ▸ hflat)
  · rw [OrderedMap.get_perm hperm hnodup, hfolders]
    rfl
  · rw [hrest]
    exact OrderedMap.draw_rest _ _
  · exact hformat

namespace Walk
variable {folders : List (String × List String)} {images rest : List (String × List Char)}

theorem mem_folders (w : Walk colors calls folders images rest) {f : String} :
    f ∈ OrderedMap.keys folders ↔ ∃ c ∈ calls, c.folder = some f ∧ f ≠ "" ∧ f ∉ inherited := by
  have hkeys : f ∈ OrderedMap.keys folders ↔ f ∈ OrderedMap.keys (calls.filterMap Call.filed) := by
    rw [← OrderedMap.get_isSome, w.get, OrderedMap.get_pushAll]
    split_ifs with h
    · exact ⟨fun _ => h, fun _ => rfl⟩
    · exact ⟨fun hs => (nomatch hs), fun hs => absurd hs h⟩
  rw [hkeys]
  constructor
  · intro h
    obtain ⟨e, he, rfl⟩ := List.mem_map.mp h
    obtain ⟨c, hc, hfiled⟩ := List.mem_filterMap.mp he
    obtain ⟨h1, _, h3⟩ := filed_eq_some hfiled
    exact ⟨c, hc, h1, h3⟩
  · rintro ⟨c, hc, h1, h2, h3⟩
    exact List.mem_map.mpr ⟨_, List.mem_filterMap.mpr ⟨c, hc, filed_of_folder h1 h2 h3⟩, rfl⟩

theorem mem_names (w : Walk colors calls folders images rest) {name : String} :
    name ∈ folders.flatMap Prod.snd ↔ ∃ c ∈ calls, c.filed.isSome ∧ c.name = name := by
  rw [w.names.mem_iff, filed_names, List.mem_map]
  simp only [List.mem_filter, and_assoc]

theorem keys_images (w : Walk colors calls folders images rest) :
    (OrderedMap.keys images).Nodup ∧ ∀ name, name ∈ OrderedMap.keys images ↔ name ∈ calls.map Call.name := by
  have hkeys : OrderedMap.keys (((new colors).log calls).map fun p => (p.1.name, p.2))
      = calls.map Call.name := by
    conv_rhs => rw [← (new colors).log_calls calls]
    unfold OrderedMap.keys
    rw [List.map_map, List.map_map]
    rfl
  rw [w.images_eq]
  refine ⟨OrderedMap.nodup_setAll _ List.nodup_nil, fun name => ?_⟩
  rw [OrderedMap.mem_keys_setAll, hkeys]
  exact ⟨fun h => h.resolve_left List.not_mem_nil, .inr⟩

/-- the folders get as many images as were filed -/
theorem pieces_length (w : Walk colors calls folders images rest) :
    ((pieces images folders).map fun e => e.2.length).sum = (calls.filterMap Call.filed).length := by
  have hflat := congrArg List.length (flatMap_pieces folders images)
  have hdraw := congrArg List.length (OrderedMap.draw_keys (folders.flatMap Prod.snd) images)
  unfold writeFolder at hflat
  rw [List.length_flatMap, List.length_map] at hflat
  rw [List.length_map, w.names.length_eq, List.length_map] at hdraw
  rw [hflat, hdraw]

theorem get_listed (w : Walk colors calls folders images rest) {f : String} (h : f ≠ "root") :
    OrderedMap.get ((new colors).listed calls) f = OrderedMap.get (pieces images folders) f := by
  rw [w.listed]
  split_ifs
  · rfl
  · rw [OrderedMap.get_set, if_neg h]

theorem root_listed (w : Walk colors calls folders images rest) (h : "root" ∉ OrderedMap.keys folders) :
    (OrderedMap.get ((new colors).listed calls) "root").getD [] = rest.map (fun e => ⟨e.1, some e.2⟩) ∧
    (((new colors).listed calls).map fun e => e.2.length).sum
      = (calls.filterMap Call.filed).length + rest.length := by
  have hkeys : "root" ∉ OrderedMap.keys (pieces images folders) := by
    rw [keys_pieces]
    exact h
  rw [w.listed, ← w.pieces_length]
  split_ifs with hnil
  · rw [OrderedMap.get_eq_none.mpr hkeys, hnil]
    exact ⟨rfl, rfl⟩
  · rw [OrderedMap.get_set, if_pos rfl, OrderedMap.set_of_new _ hkeys, List.map_append, List.sum_append]
    exact ⟨rfl, by simp⟩

/-! ## names that are used twice -/

section
variable (w : Walk colors calls folders images rest) (h : Lossless (new colors) calls)
include w h

theorem ne_root : "root" ∉ OrderedMap.keys folders := by
  intro hroot
  obtain ⟨c₀, hc₀, hfolder, _⟩ := w.mem_folders.mp hroot
  have hfiled := filed_of_folder hfolder (by decide) (by decide)
  have hthrows := not_throws h.returned
  -- the image is listed under its folder
  have hmem : ∃ e ∈ (new colors).listing calls (some "root"), e.filename = c₀.name := by
    rw [← (new colors).log_calls calls] at hc₀
    obtain ⟨p, hp, rfl⟩ := List.mem_map.mp hc₀
    rw [listing_eq hthrows]
    exact ⟨_, List.mem_map_of_mem (List.mem_filter.mpr ⟨hp, decide_eq_true hfolder⟩), rfl⟩
  have hget := h.folder c₀ hc₀ "root" hfolder
  have hrest := h.root
  have htotal := h.total
  rw [hget, Option.getD_some] at hrest
  rw [w.listed] at hget htotal
  split_ifs at hget htotal with hnil
  · -- all images are filed, and none is left for the root
    rw [w.pieces_length] at htotal
    obtain ⟨e, he, _⟩ := hmem
    rw [hrest, listing_eq hthrows] at he
    obtain ⟨p, hp, _⟩ := List.mem_map.mp he
    obtain ⟨hp, hnone⟩ := List.mem_filter.mp hp
    have hlength := (names_perm calls).length_eq
    rw [List.length_append, List.length_map, List.length_map, List.length_map, htotal] at hlength
    have hunfiled : calls.filter (fun c => !c.filed.isSome) = [] := List.length_eq_zero_iff.mp (by omega)
    have hin : p.1 ∈ calls.filter (fun c => !c.filed.isSome) := by
      refine List.mem_filter.mpr ⟨mem_log hp, ?_⟩
      rw [filed_of_none (of_decide_eq_true hnone)]
      rfl
    rw [hunfiled] at hin
    cases hin
  · -- the rest takes the place of the folder, without the image
    rw [OrderedMap.get_set, if_pos rfl] at hget
    obtain ⟨e, he, hname⟩ := hmem
    rw [← Option.some.inj hget] at he
    obtain ⟨x, hx, rfl⟩ := List.mem_map.mp he
    rw [w.rest_eq] at hx
    have hnot := of_decide_eq_true (List.mem_filter.mp hx).2
    exact hnot (w.mem_names.mpr ⟨c₀, hc₀, by rw [hfiled]; rfl, hname.symm⟩)

theorem filed_nodup : ((calls.filterMap Call.filed).map Prod.snd).Nodup := by
  refine w.names.nodup_iff.mp (OrderedMap.nodup_of_draw (m := images) fun e he hnone => ?_)
  -- the image is in the list of some folder, and has what its call returned
  have hmem : (⟨e.1, e.2⟩ : EncodedImage) ∈ (pieces images folders).flatMap Prod.snd := by
    rw [flatMap_pieces]
    exact List.mem_map_of_mem he
  obtain ⟨piece, hpiece, hin⟩ := List.mem_flatMap.mp hmem
  have hkeys : (OrderedMap.keys (pieces images folders)).Nodup := by
    rw [keys_pieces]
    exact w.nodup
  have hfolder : piece.1 ∈ OrderedMap.keys folders := by
    rw [← keys_pieces folders images]
    exact List.mem_map_of_mem hpiece
  have hne : piece.1 ≠ "root" := fun hr => w.ne_root h (hr ▸ hfolder)
  obtain ⟨c, hc, hcf, _⟩ := w.mem_folders.mp hfolder
  have hget := h.folder c hc piece.1 hcf
  rw [w.get_listed hne, (OrderedMap.get_iff hkeys).mpr hpiece, listing_eq (not_throws h.returned)] at hget
  rw [Option.some.inj hget] at hin
  obtain ⟨p, _, hp⟩ := List.mem_map.mp hin
  have hdata := congrArg EncodedImage.data hp
  rw [hnone] at hdata
  cases hdata

/-- **No image is lost only if no name is used twice.** -/
theorem names_nodup : (calls.map Call.name).Nodup := by
  have hunfiled : (OrderedMap.keys rest).Perm ((calls.filter fun c => !c.filed.isSome).map Call.name) := by
    have hlength := (names_perm calls).length_eq
    have htotal := h.total
    rw [(w.root_listed (w.ne_root h)).2] at htotal
    rw [List.length_append, List.length_map, List.length_map, ← htotal] at hlength
    have hrest := w.rest_eq
    have hnodup : (OrderedMap.keys rest).Nodup := by
      rw [hrest]
      exact List.Sublist.nodup (List.Sublist.map _ List.filter_sublist) w.keys_images.1
    have hsub : OrderedMap.keys rest ⊆ (calls.filter fun c => !c.filed.isSome).map Call.name := by
      intro name hname
      obtain ⟨e, he, rfl⟩ := List.mem_map.mp hname
      rw [hrest] at he
      obtain ⟨hin, hnot⟩ := List.mem_filter.mp he
      have hcall := (w.keys_images.2 e.1).mp (List.mem_map_of_mem hin)
      obtain ⟨c, hc, hcn⟩ := List.mem_map.mp hcall
      refine List.mem_map.mpr ⟨c, List.mem_filter.mpr ⟨hc, ?_⟩, hcn⟩
      by_contra hsome
      refine of_decide_eq_true hnot (w.mem_names.mpr ⟨c, hc, ?_, hcn⟩)
      simpa [Option.isSome_iff_ne_none] using hsome
    refine (List.subperm_of_subset hnodup hsub).perm_of_length_le ?_
    have hlen : (OrderedMap.keys rest).length = rest.length := List.length_map _
    omega
  refine (names_perm calls).nodup_iff.mpr (List.nodup_append.mpr ⟨w.filed_nodup h, ?_, ?_⟩)
  · refine hunfiled.nodup_iff.mp ?_
    rw [w.rest_eq]
    exact List.Sublist.nodup (List.Sublist.map _ List.filter_sublist) w.keys_images.1
  · rintro a ha b hb rfl
    rw [← hunfiled.mem_iff] at hb
    obtain ⟨e, he, rfl⟩ := List.mem_map.mp hb
    rw [w.rest_eq] at he
    exact of_decide_eq_true (List.mem_filter.mp he).2 (w.names.mem_iff.mpr ha)

theorem plain : ∀ c ∈ calls, c.Plain := by
  intro c hc folder hfolder
  have hthrows := not_throws h.returned c hc
  have hin : folder ∉ inherited := fun hin => hthrows ⟨folder, hin, hfolder⟩
  have hempty : folder ≠ "" := by
    rintro rfl
    have hget := h.folder c hc "" hfolder
    rw [w.get_listed (by decide)] at hget
    have hkey := OrderedMap.get_isSome.mp (Option.isSome_iff_exists.mpr ⟨_, hget⟩)
    rw [keys_pieces] at hkey
    obtain ⟨_, _, _, hne, _⟩ := w.mem_folders.mp hkey
    exact hne rfl
  refine ⟨hempty, ?_, hin⟩
  rintro rfl
  exact w.ne_root h (w.mem_folders.mpr ⟨c, hc, hfolder, hempty, hin⟩)

end

/-! ## names that are used once -/

section
variable (w : Walk colors calls folders images rest) (hnames : (calls.map Call.name).Nodup)
  (hplain : ∀ c ∈ calls, c.Plain)
include w hnames

theorem images_log : images = ((new colors).log calls).map fun p => (p.1.name, p.2) := by
  have hkeys : OrderedMap.keys (((new colors).log calls).map fun p => (p.1.name, p.2))
      = calls.map Call.name := by
    conv_rhs => rw [← (new colors).log_calls calls]
    unfold OrderedMap.keys
    rw [List.map_map, List.map_map]
    rfl
  rw [w.images_eq, OrderedMap.setAll_of_new _ (by rw [hkeys]; exact hnames), List.nil_append]

theorem get_images {p : Call × List Char} (hp : p ∈ (new colors).log calls) :
    OrderedMap.get images p.1.name = some p.2 := by
  refine (OrderedMap.get_iff w.keys_images.1).mpr ?_
  rw [w.images_log hnames]
  exact List.mem_map_of_mem (f := fun p : Call × List Char => (p.1.name, p.2)) hp

theorem names_flat : (folders.flatMap Prod.snd).Nodup := by
  refine w.names.nodup_iff.mpr ?_
  rw [filed_names]
  exact List.Sublist.nodup (List.Sublist.map _ List.filter_sublist) hnames

/-- a name is filed if and only if its image has a folder -/
theorem mem_names_iff (hplain : ∀ c ∈ calls, c.Plain) {c : Call} (hc : c ∈ calls) :
    c.name ∈ folders.flatMap Prod.snd ↔ c.folder ≠ none := by
  rw [w.mem_names]
  constructor
  · rintro ⟨c', hc', hfiled, hname⟩ hnone
    obtain rfl := List.inj_on_of_nodup_map hnames hc' hc hname
    rw [filed_of_none hnone] at hfiled
    cases hfiled
  · intro hne
    obtain ⟨folder, hfolder⟩ := Option.ne_none_iff_exists'.mp hne
    obtain ⟨h1, _, h3⟩ := hplain c hc folder hfolder
    exact ⟨c, hc, by rw [filed_of_folder hfolder h1 h3]; rfl, rfl⟩

include hplain

theorem rest_log : rest = (((new colors).log calls).filter fun p => p.1.folder = none).map
    fun p => (p.1.name, p.2) := by
  rw [w.rest_eq, w.images_log hnames, List.filter_map]
  congr 1
  refine List.filter_congr fun p hp => ?_
  have h := w.mem_names_iff hnames hplain (mem_log hp)
  simp only [Function.comp_apply, h, not_not]

theorem get_folder {c : Call} (hc : c ∈ calls) {folder : String} (hfolder : c.folder = some folder)
    (hthrows : ∀ c ∈ calls, ¬ c.Throws) :
    OrderedMap.get ((new colors).listed calls) folder = some ((new colors).listing calls (some folder)) := by
  obtain ⟨h1, h2, h3⟩ := hplain c hc folder hfolder
  have hmem : folder ∈ OrderedMap.keys (calls.filterMap Call.filed) :=
    List.mem_map.mpr ⟨_, List.mem_filterMap.mpr ⟨c, hc, filed_of_folder hfolder h1 h3⟩, rfl⟩
  rw [w.get_listed h2, pieces_of_nodup (w.names_flat hnames) fun _ _ => rfl, OrderedMap.get_map, w.get,
    OrderedMap.get_pushAll, if_pos hmem, Option.map_some, filed_folder calls h1 h3, listing_eq hthrows]
  have hcalls : calls.filter (fun c => c.folder = some folder)
      = (((new colors).log calls).filter fun p => p.1.folder = some folder).map Prod.fst := by
    conv_lhs => rw [← (new colors).log_calls calls]
    rw [List.filter_map]
    rfl
  rw [hcalls, List.map_map, List.map_map]
  congr 1
  refine List.map_congr_left fun p hp => ?_
  show (⟨p.1.name, OrderedMap.get images p.1.name⟩ : EncodedImage) = _
  rw [w.get_images hnames (List.mem_filter.mp hp).1]

/-- **With names that are used once, and plain folders, no image is lost.** -/
theorem lossless : Lossless (new colors) calls := by
  have hthrows : ∀ c ∈ calls, ¬ c.Throws := by
    rintro c hc ⟨folder, hin, hfolder⟩
    exact (hplain c hc folder hfolder).2.2 hin
  have hroot : "root" ∉ OrderedMap.keys folders := by
    intro hmem
    obtain ⟨c, hc, hfolder, _⟩ := w.mem_folders.mp hmem
    exact (hplain c hc "root" hfolder).2.1 rfl
  obtain ⟨hlisted, htotal⟩ := w.root_listed hroot
  refine ⟨fun r hr => ?_, fun c hc folder hfolder => w.get_folder hnames hplain hc hfolder hthrows, ?_, ?_⟩
  · rw [encodeAll_returns] at hr
    obtain ⟨p, hp, rfl⟩ := List.mem_map.mp hr
    rw [if_neg (hthrows p.1 (mem_log hp))]
    exact Option.some_ne_none _
  · rw [hlisted, w.rest_log hnames hplain, listing_eq hthrows, List.map_map]
    rfl
  · have hlength := (names_perm calls).length_eq
    rw [List.length_append, List.length_map, List.length_map, List.length_map] at hlength
    rw [htotal, hlength, w.rest_log hnames hplain, List.length_map]
    congr 1
    -- those that are not filed have no folder
    have hcalls : calls.filter (fun c => !c.filed.isSome)
        = (((new colors).log calls).filter fun p => p.1.folder = none).map Prod.fst := by
      conv_lhs => rw [← (new colors).log_calls calls]
      rw [List.filter_map]
      congr 1
      refine List.filter_congr fun p hp => ?_
      show (!p.1.filed.isSome) = decide (p.1.folder = none)
      cases hfolder : p.1.folder with
      | none => rw [filed_of_none hfolder]; rfl
      | some folder =>
        obtain ⟨h1, _, h3⟩ := hplain p.1 (mem_log hp) folder hfolder
        rw [filed_of_folder hfolder h1 h3]
        rfl
    rw [hcalls, List.length_map]

end

end Walk

end

/-- **When no image is lost.**  After any calls the getter lists every image once, where it belongs,
with what its call returned, if and only if no name is used twice and every folder is plain. -/
theorem encodeAll_lossless_iff (colors : Option (List (List Char))) (calls : List Call) :
    Lossless (new colors) calls ↔ (calls.map Call.name).Nodup ∧
      ∀ c ∈ calls, ∀ folder, c.folder = some folder →
        folder ≠ "" ∧ folder ≠ "root" ∧ folder ∉ inherited := by
  obtain ⟨folders, images, rest, w⟩ := exists_walk colors calls
  exact ⟨fun h => ⟨w.names_nodup h, w.plain h⟩, fun h => w.lossless h.1 h.2⟩

/-- two images with one name, in two folders -/
def namesakes : List Call := [⟨"cat", dot, some "heads"⟩, ⟨"cat", blank, some "bodies"⟩]

/-- the text of the second is listed for the first, and none for the second -/
theorem namesakes_lost : (namesakes.map fun c => (c.folder, c.name)).Nodup ∧
    ((new none).encodeAll namesakes).1
      = [some "0x00010201010101".toList, some "0x0000000000".toList] ∧
    (new none).listed namesakes
      = [("heads", [⟨"cat", some "0x0000000000".toList⟩]), ("bodies", [⟨"cat", none⟩])] ∧
    ¬ Lossless (new none) namesakes := by
  refine ⟨by decide, by decide +kernel, by decide +kernel, fun h => ?_⟩
  have hget := h.folder _ List.mem_cons_self "heads" rfl
  revert hget
  decide +kernel

end UNouns.Sdk
