import UNouns.Art.Descriptor
import UNouns.Lib.Base64
import UNouns.Lib.Json
import UNouns.Token.Storage
import Mathlib.Data.Bool.AllAny

/-!
# What is made of the data URI of a token

The descriptor writes the metadata of a token as base64 of a JSON text, with the picture, again in base64,
in it.  The bots, the API and the web application read it, each in its own way.  The library that writes
base64 is a parameter, of which its documentation is assumed.

* `split`, `ascii`, `latin1`        of JavaScript;
* `readMetadata`, `useNounToken`    the readers;
* `dataURI_read`                    all of them get what was written;
* `Server.step`                     the API, with requests that overlap;
* `metadata_served`                 what it answers, over any run.
-/

set_option linter.unusedVariables false

namespace UNouns.Webapp
open Art

/-- `bytes(s)` -/
def utf8 (s : String) : Bytes := s.toList.flatMap String.utf8EncodeChar

/-! ## reading -/

/-- `toString('ascii')` -/
def ascii (bs : Bytes) : List Char := bs.map fun b => Char.ofNat (b.toNat % 2^7)

/-- the string that `atob` returns -/
def latin1 (bs : Bytes) : List Char := bs.map fun b => Char.ofNat b.toNat

/-- with what is left of a separator that was found, and the part so far -/
def splitFrom (sep : List Char) : Nat → List Char → List Char → List (List Char)
  | _, part, [] => [part]
  | n + 1, part, _ :: cs => splitFrom sep n part cs
  | 0, part, c :: cs =>
    if sep.isPrefixOf (c :: cs) then part :: splitFrom sep (sep.length - 1) [] cs
    else splitFrom sep 0 (part ++ [c]) cs

def split (sep text : List Char) : List (List Char) := splitFrom sep 0 [] text

structure TokenMetadata where
  name : List Char
  description : List Char
  image : List Char
  deriving DecidableEq

/-- `JSON.parse`, where it has the fields -/
def tokenMetadata (text : List Char) : Option TokenMetadata := do
  let ms ← Json.parse text
  let name ← Json.get ms "name".toList
  let description ← Json.get ms "description".toList
  let image ← Json.get ms "image".toList
  some ⟨name, description, image⟩

/-- in `getTokenMetadata` and in `getNounPngBuffer` -/
def readMetadata (uri : String) : Option TokenMetadata := do
  let bytes ← Base64.decode (uri.toList.drop 29)
  tokenMetadata (ascii bytes)

/-- the picture that they have converted -/
def svgOf (data : TokenMetadata) : Option Bytes := Base64.decode (data.image.drop 26)

def useNounToken (uri : String) : Option TokenMetadata := do
  let nounImgData ← (split ";base64,".toList uri.toList).getLast?
  let bytes ← Base64.decode nounImgData
  tokenMetadata (latin1 bytes)

/-! ## characters -/

/-- a character that is one byte, and stands for itself -/
structure Simple (c : Char) : Prop where
  plain : Json.Plain c
  low : c.toNat < 2^7
  colon : c ≠ ';'

instance (c : Char) : Decidable (Simple c) :=
  decidable_of_iff (Json.Plain c ∧ c.toNat < 2^7 ∧ c ≠ ';') ⟨fun ⟨h, h', h''⟩ => ⟨h, h', h''⟩,
    fun ⟨h, h', h''⟩ => ⟨h, h', h''⟩⟩

theorem simple_of_spelled {c : Char} (h : Base64.Spelled c) : Simple c := by
  have hall : ∀ c ∈ Base64.alphabet, Simple c := by
    unfold Base64.alphabet
    rw [String.toList_ofList]
    exact List.all_iff_forall_prop.mp (by decide +kernel)
  rcases h with h | rfl
  · exact hall c h
  · decide

theorem simple_of_digit {c : Char} (h : c.isDigit = true) : Simple c := by
  have hrange : 48 ≤ c.toNat ∧ c.toNat ≤ 57 := by
    simp only [Char.isDigit, Bool.and_eq_true, decide_eq_true_eq] at h
    exact h
  have hne : ∀ d : Char, 57 < d.toNat ∨ d.toNat < 48 → c ≠ d := by
    rintro d hd rfl
    omega
  exact ⟨⟨by omega, hne _ (by decide), hne _ (by decide)⟩, by omega, hne _ (by decide)⟩

theorem utf8EncodeChar_low {c : Char} (h : c.toNat < 2^7) :
    String.utf8EncodeChar c = [UInt8.ofNat c.toNat] := by
  have hsize : c.utf8Size = 1 := by
    unfold Char.utf8Size
    exact if_pos (show c.toNat ≤ 127 by omega)
  exact String.utf8EncodeChar_eq_singleton hsize

/-- a text of single bytes is read back by both -/
theorem ascii_utf8 {s : String} (h : ∀ c ∈ s.toList, c.toNat < 2^7) :
    ascii (utf8 s) = s.toList ∧ latin1 (utf8 s) = s.toList := by
  have hbytes : utf8 s = s.toList.map fun c => UInt8.ofNat c.toNat := by
    rw [List.map_eq_flatMap]
    exact List.flatMap_congr fun c hc => utf8EncodeChar_low (h c hc)
  have hbyte : ∀ c ∈ s.toList, (UInt8.ofNat c.toNat).toNat = c.toNat := fun c hc => by
    have hlow := h c hc
    rw [UInt8.toNat_ofNat']
    omega
  have hback : ∀ f : UInt8 → Char, (∀ c ∈ s.toList, f (UInt8.ofNat c.toNat) = c) →
      (utf8 s).map f = s.toList := fun f hf => by
    rw [hbytes, List.map_map]
    exact (List.map_congr_left hf).trans (List.map_id' _)
  refine ⟨hback _ fun c hc => ?_, hback _ fun c hc => ?_⟩
  · rw [hbyte c hc, Nat.mod_eq_of_lt (h c hc), Char.ofNat_toNat]
  · rw [hbyte c hc, Char.ofNat_toNat]

/-! ## the text -/

theorem toString_simple (n : Nat) : ∀ c ∈ (toString n).toList, Simple c := by
  intro c hc
  refine simple_of_digit (Nat.isDigit_of_mem_toDigits (b := 10) (n := n) (by decide) (by decide) ?_)
  rw [← Nat.toList_repr]
  exact hc

/-- the members of the text -/
def memberEntries (name description image : List Char) : List Json.Entry :=
  [⟨[], "name".toList, [], name⟩, ⟨[' '], "description".toList, [], description⟩,
    ⟨[' '], "image".toList, [' '], image⟩]

/-- the text that `constructTokenURI` encodes -/
def metadataText (name description image : String) : String :=
  "\x7b\"name\":\"" ++ name ++ "\", \"description\":\"" ++ description ++ "\", \"image\": \""
    ++ "data:image/svg+xml;base64," ++ image ++ "\"\x7d"

theorem metadataText_toList (name description image : String) :
    (metadataText name description image).toList = Json.object (memberEntries name.toList description.toList
      ("data:image/svg+xml;base64," ++ image).toList) := by
  have h1 : "\x7b\"name\":\"".toList = '\x7b' :: '"' :: ("name".toList ++ ['"', ':', '"']) := by
    rw [String.toList_ofList, String.toList_ofList]
    rfl
  have h2 : "\", \"description\":\"".toList =
      '"' :: ',' :: ' ' :: '"' :: ("description".toList ++ ['"', ':', '"']) := by
    rw [String.toList_ofList, String.toList_ofList]
    rfl
  have h3 : "\", \"image\": \"".toList =
      '"' :: ',' :: ' ' :: '"' :: ("image".toList ++ ['"', ':', ' ', '"']) := by
    rw [String.toList_ofList, String.toList_ofList]
    rfl
  have h4 : "\"\x7d".toList = ['"', '\x7d'] := String.toList_ofList
  delta metadataText
  simp only [memberEntries, Json.object, Json.entries, Json.Entry.text, String.toList_append,
    h1, h2, h3, h4, List.append_assoc, List.cons_append, List.nil_append]

theorem metadataText_low {name description image : String} (hname : ∀ c ∈ name.toList, c.toNat < 2^7)
    (hdescription : ∀ c ∈ description.toList, c.toNat < 2^7) (himage : ∀ c ∈ image.toList, c.toNat < 2^7) :
    ∀ c ∈ (metadataText name description image).toList, c.toNat < 2^7 := by
  delta metadataText
  simp only [String.toList_append, List.forall_mem_append]
  refine ⟨⟨⟨⟨⟨⟨⟨?_, hname⟩, ?_⟩, hdescription⟩, ?_⟩, ?_⟩, himage⟩, ?_⟩
  all_goals
    rw [String.toList_ofList]
    exact List.all_iff_forall_prop.mp (by decide)

theorem tokenMetadata_text {name description image : List Char} (hname : ∀ c ∈ name, Json.Plain c)
    (hdescription : ∀ c ∈ description, Json.Plain c) (himage : ∀ c ∈ image, Json.Plain c) :
    tokenMetadata (Json.object (memberEntries name description image)) = some ⟨name, description, image⟩ := by
  have hnone : ∀ c ∈ ([] : List Char), Json.blank c = true := fun c hc => absurd hc List.not_mem_nil
  have hblank : ∀ c ∈ [' '], Json.blank c = true := List.all_iff_forall_prop.mp rfl
  have hkey1 : ∀ c ∈ "name".toList, Json.Plain c := by
    rw [String.toList_ofList]
    exact List.all_iff_forall_prop.mp (by decide)
  have hkey2 : ∀ c ∈ "description".toList, Json.Plain c := by
    rw [String.toList_ofList]
    exact List.all_iff_forall_prop.mp (by decide)
  have hkey3 : ∀ c ∈ "image".toList, Json.Plain c := by
    rw [String.toList_ofList]
    exact List.all_iff_forall_prop.mp (by decide)
  have hgood : ∀ e ∈ memberEntries name description image, e.Good := by
    simp only [memberEntries, List.forall_mem_cons, List.not_mem_nil, false_implies, implies_true, and_true]
    exact ⟨⟨hnone, hnone, hkey1, hname⟩, ⟨hblank, hnone, hkey2, hdescription⟩,
      ⟨hblank, hblank, hkey3, himage⟩⟩
  let ms : List Json.Member :=
    [("name".toList, name), ("description".toList, description), ("image".toList, image)]
  have hparse : Json.parse (Json.object (memberEntries name description image)) = some ms :=
    Json.parse_object (show memberEntries name description image ≠ [] from List.cons_ne_nil _ _) hgood
  have hnodup : (ms.map Prod.fst).Nodup := by
    change ["name".toList, "description".toList, "image".toList].Nodup
    rw [String.toList_ofList, String.toList_ofList, String.toList_ofList]
    decide
  have hget1 : Json.get ms "name".toList = some name := Json.get_of_mem hnodup List.mem_cons_self
  have hget2 : Json.get ms "description".toList = some description :=
    Json.get_of_mem hnodup (List.mem_cons_of_mem _ List.mem_cons_self)
  have hget3 : Json.get ms "image".toList = some image :=
    Json.get_of_mem hnodup (List.mem_cons_of_mem _ (List.mem_cons_of_mem _ List.mem_cons_self))
  simp only [tokenMetadata, hparse, hget1, hget2, hget3, Option.bind_eq_bind, Option.bind_some]

/-! ## the readers -/

/-- a separator is not found where its first character is not -/
theorem splitFrom_append {x : Char} {sep cs : List Char} (h : ∀ c ∈ cs, c ≠ x) (part rest : List Char) :
    splitFrom (x :: sep) 0 part (cs ++ rest) = splitFrom (x :: sep) 0 (part ++ cs) rest := by
  induction cs generalizing part with
  | nil => rw [List.nil_append, List.append_nil]
  | cons c cs ih =>
    obtain ⟨hc, hcs⟩ := List.forall_mem_cons.mp h
    have hfirst : (x :: sep).isPrefixOf (c :: (cs ++ rest)) = false := by
      rw [List.isPrefixOf_cons_cons, beq_false_of_ne (Ne.symm hc), Bool.false_and]
    rw [List.cons_append, splitFrom, hfirst, if_neg Bool.false_ne_true, ih hcs, List.append_assoc]
    rfl

theorem splitFrom_skip (sep part xs rest : List Char) :
    splitFrom sep xs.length part (xs ++ rest) = splitFrom sep 0 part rest := by
  induction xs with
  | nil => rfl
  | cons x xs ih => rw [List.length_cons, List.cons_append, splitFrom, ih]

/-- a text with one separator in it -/
theorem split_once {x : Char} {sep before after : List Char} (hbefore : ∀ c ∈ before, c ≠ x)
    (hafter : ∀ c ∈ after, c ≠ x) : split (x :: sep) (before ++ (x :: sep ++ after)) = [before, after] := by
  have hfound : (x :: sep).isPrefixOf (x :: (sep ++ after)) = true := by
    rw [List.isPrefixOf_iff_prefix]
    exact ⟨after, rfl⟩
  have hlast : splitFrom (x :: sep) 0 [] after = [after] := by
    have h := @splitFrom_append x sep after hafter [] []
    rw [List.append_nil] at h
    exact h.trans rfl
  unfold split
  rw [splitFrom_append hbefore, List.nil_append, List.cons_append, splitFrom, hfound, if_pos rfl]
  exact congrArg _ ((splitFrom_skip (x :: sep) [] sep after).trans hlast)

/-- the payload of a data URI is after the only separator -/
theorem split_dataURI {payload : List Char} (h : ∀ c ∈ payload, c ≠ ';') :
    (split ";base64,".toList ("data:application/json;base64,".toList ++ payload)).getLast? = some payload := by
  have hsep : ";base64,".toList = ';' :: "base64,".toList := by
    rw [String.toList_ofList, String.toList_ofList]
  have hhead : "data:application/json;base64,".toList =
      "data:application/json".toList ++ ';' :: "base64,".toList := by
    rw [String.toList_ofList, String.toList_ofList, String.toList_ofList]
    rfl
  have hbefore : ∀ c ∈ "data:application/json".toList, c ≠ ';' := by
    rw [String.toList_ofList]
    exact List.all_iff_forall_prop.mp (by decide)
  rw [hsep, hhead, List.append_assoc, split_once hbefore h]
  rfl

section
variable {base64 : String → String} (hbase64 : ∀ s, (base64 s).toList = Base64.encode (utf8 s))
include hbase64

theorem base64_simple (s : String) : ∀ c ∈ (base64 s).toList, Simple c := by
  rw [hbase64]
  exact fun c hc => simple_of_spelled (Base64.encode_spelled _ c hc)

/-- both readers get the members that were written -/
theorem read_text {name description image : String} (hname : ∀ c ∈ name.toList, Simple c)
    (hdescription : ∀ c ∈ description.toList, Simple c) (himage : ∀ c ∈ image.toList, Simple c) :
    let uri := "data:application/json;base64," ++ base64 (metadataText name description image)
    let data : TokenMetadata :=
      ⟨name.toList, description.toList, ("data:image/svg+xml;base64," ++ image).toList⟩
    readMetadata uri = some data ∧ useNounToken uri = some data := by
  intro uri data
  have hplain : ∀ c ∈ ("data:image/svg+xml;base64," ++ image).toList, Json.Plain c := by
    rw [String.toList_append, List.forall_mem_append]
    rw [String.toList_ofList]
    exact ⟨List.all_iff_forall_prop.mp (by decide), fun c hc => (himage c hc).plain⟩
  obtain ⟨hascii, hlatin1⟩ := ascii_utf8 (metadataText_low (fun c hc => (hname c hc).low)
    (fun c hc => (hdescription c hc).low) fun c hc => (himage c hc).low)
  have hdata : tokenMetadata (metadataText name description image).toList = some data := by
    rw [metadataText_toList]
    exact tokenMetadata_text (fun c hc => (hname c hc).plain) (fun c hc => (hdescription c hc).plain) hplain
  have huri : uri.toList = "data:application/json;base64,".toList ++
      Base64.encode (utf8 (metadataText name description image)) := by
    rw [String.toList_append, hbase64]
  have hpayload : ∀ c ∈ Base64.encode (utf8 (metadataText name description image)), c ≠ ';' := fun c hc =>
    (simple_of_spelled (Base64.encode_spelled _ c hc)).colon
  have hlen : "data:application/json;base64,".toList.length = 29 := by
    rw [String.toList_ofList]
    rfl
  unfold readMetadata useNounToken
  rw [huri, List.drop_left' hlen, split_dataURI hpayload]
  simp only [Option.bind_eq_bind, Option.bind_some, Base64.decode_encode, hascii, hlatin1]
  exact ⟨hdata, hdata⟩

/-- the picture in the metadata is the one that was rendered -/
theorem svgOf_image (name description : List Char) (svg : String) :
    svgOf ⟨name, description, ("data:image/svg+xml;base64," ++ base64 svg).toList⟩ = some (utf8 svg) := by
  have hlen : "data:image/svg+xml;base64,".toList.length = 26 := by
    rw [String.toList_ofList]
    rfl
  unfold svgOf
  rw [String.toList_append, List.drop_left' hlen, hbase64, Base64.decode_encode]

/-- **What the descriptor writes is read.** -/
theorem dataURI_read {C : Chain} {code : Bytecode} {a : NounsArt} {id : Nat} {seed : Seed} {uri : String}
    (h : dataURI base64 C code a id seed = .ok uri) :
    ∃ params svg, a.svgParams C code seed = .ok params ∧ generateSVG params = .ok svg ∧
      let data : TokenMetadata := ⟨("UNoun " ++ toString id).toList,
        ("UNoun " ++ toString id ++ " is a member of the UNouns DAO").toList,
        ("data:image/svg+xml;base64," ++ base64 svg).toList⟩
      readMetadata uri = some data ∧ useNounToken uri = some data ∧ svgOf data = some (utf8 svg) := by
  simp only [dataURI, genericDataURI, generateSVGImage, bind_eq_ok, pure_eq_ok] at h
  obtain ⟨image, ⟨params, hparams, svg, hsvg, rfl⟩, rfl⟩ := h
  have hid : ∀ c ∈ ("UNoun " ++ toString id).toList, Simple c := by
    rw [String.toList_append, List.forall_mem_append]
    rw [String.toList_ofList]
    exact ⟨List.all_iff_forall_prop.mp (by decide), toString_simple id⟩
  have hmember : ∀ c ∈ ("UNoun " ++ toString id ++ " is a member of the UNouns DAO").toList, Simple c := by
    rw [String.toList_append, List.forall_mem_append]
    refine ⟨hid, ?_⟩
    rw [String.toList_ofList]
    exact List.all_iff_forall_prop.mp (by decide)
  obtain ⟨hread, huse⟩ := read_text hbase64 hid hmember (base64_simple hbase64 svg)
  exact ⟨params, svg, hparams, hsvg, hread, huse, svgOf_image hbase64 _ _ svg⟩

end

/-! ## the API -/

/-- the contracts at the time of a call -/
structure Site where
  chain : Chain
  code : Bytecode
  art : NounsArt
  token : UNounsToken

/-- `dataURI` of the token -/
def Site.dataURI (base64 : String → String) (s : Site) (tokenId : Nat) : Result String := do
  require (s.token.owners tokenId ≠ 0) "UNounsToken: URI query for nonexistent token"
  Art.dataURI base64 s.chain s.code s.art tokenId (s.token.seeds tokenId)

/-- what the API uses besides -/
structure Services where
  /-- the token id that a text is for -/
  number : String → Nat
  /-- `sharp(svg).png().toBuffer()` -/
  png : Bytes → Bytes
  storeBlob : Bytes → String

/-- the cache, and the requests that were not answered from it -/
structure Server where
  cache : String → Option TokenMetadata
  /-- nothing was in the cache -/
  asked : List String
  /-- the contract was called, and the picture is to be stored -/
  drawn : List (String × TokenMetadata)
  answers : List (String × Option TokenMetadata)
  /-- a text was not one that can be read -/
  thrown : Bool

inductive ServerStep where
  | ask (tokenId : String)
  /-- the call of the contract for one of the requests -/
  | call (request : Nat) (site : Site)
  /-- its picture is stored, and it is answered -/
  | store (request : Nat)

namespace Server

def start (cache : String → Option TokenMetadata) : Server := ⟨cache, [], [], [], false⟩

def answer (s : Server) (tokenId : String) (x : Option TokenMetadata) : Server :=
  { s with answers := s.answers ++ [(tokenId, x)] }

/-- the metadata of a picture that is stored -/
def stored (S : Services) (data : TokenMetadata) (svg : Bytes) : TokenMetadata :=
  { data with image := ("ipfs://" ++ S.storeBlob (S.png svg)).toList }

/-- `getTokenMetadata`, from one `await` to the next -/
def step (base64 : String → String) (S : Services) (s : Server) : ServerStep → Server
  | .ask tokenId =>
    match s.cache tokenId with
    | some data => s.answer tokenId (some data)
    | none => { s with asked := s.asked ++ [tokenId] }
  | .call request site =>
    match s.asked[request]? with
    | none => s
    | some tokenId =>
      let s := { s with asked := s.asked.eraseIdx request }
      match site.dataURI base64 (S.number tokenId) with
      | .error _ => s.answer tokenId none
      | .ok uri =>
        match readMetadata uri with
        | none => { s with thrown := true }
        | some data =>
          match svgOf data with
          | none => { s with thrown := true }
          | some svg => { s with drawn := s.drawn ++ [(tokenId, stored S data svg)] }
  | .store request =>
    match s.drawn[request]? with
    | none => s
    | some (tokenId, data) =>
      { s with
        drawn := s.drawn.eraseIdx request
        cache := Function.update s.cache tokenId (some data) }.answer tokenId (some data)

end Server

/-! ## its answers -/

section
variable {base64 : String → String} {S : Services} {P : Site → Prop} {s : Server}

/-- the name and the description of a token that there was, at a site that was called, and a picture that
was rendered there for its seed -/
def Genuine (S : Services) (P : Site → Prop) (tokenId : String) (data : TokenMetadata) : Prop :=
  let id := S.number tokenId
  ∃ site, P site ∧ site.token.owners id ≠ 0 ∧
  ∃ params svg, site.art.svgParams site.chain site.code (site.token.seeds id) = .ok params ∧
    generateSVG params = .ok svg ∧
    data = ⟨("UNoun " ++ toString id).toList,
      ("UNoun " ++ toString id ++ " is a member of the UNouns DAO").toList,
      ("ipfs://" ++ S.storeBlob (S.png (utf8 svg))).toList⟩

/-- what the contract returns can be read, and is genuine -/
theorem Site.dataURI_genuine (hbase64 : ∀ s, (base64 s).toList = Base64.encode (utf8 s)) {site : Site}
    {tokenId uri : String} (hp : P site) (h : site.dataURI base64 (S.number tokenId) = .ok uri) :
    ∃ data svg, readMetadata uri = some data ∧ svgOf data = some svg ∧
      Genuine S P tokenId (Server.stored S data svg) := by
  obtain ⟨_, howner, h⟩ := bind_eq_ok.mp h
  obtain ⟨params, svg, hparams, hsvg, hread, _, hof⟩ := dataURI_read hbase64 h
  exact ⟨_, _, hread, hof, site, hp, require_eq_ok.mp howner, params, svg, hparams, hsvg, rfl⟩

/-- all that a step can do -/
inductive Server.Moves (S : Services) (P : Site → Prop) (s : Server) : Server → Prop
  | idle : Moves S P s s
  | hit {tokenId : String} {data : TokenMetadata} (h : s.cache tokenId = some data) :
    Moves S P s (s.answer tokenId (some data))
  | miss {tokenId : String} (h : s.cache tokenId = none) :
    Moves S P s { s with asked := s.asked ++ [tokenId] }
  | failed {request : Nat} {tokenId : String} (h : s.asked[request]? = some tokenId) :
    Moves S P s ({ s with asked := s.asked.eraseIdx request }.answer tokenId none)
  | drawn {request : Nat} {tokenId : String} {data : TokenMetadata} (h : s.asked[request]? = some tokenId)
    (hdata : Genuine S P tokenId data) :
    Moves S P s { s with asked := s.asked.eraseIdx request, drawn := s.drawn ++ [(tokenId, data)] }
  | stored {request : Nat} {tokenId : String} {data : TokenMetadata}
    (h : s.drawn[request]? = some (tokenId, data)) :
    Moves S P s ({ s with
      drawn := s.drawn.eraseIdx request
      cache := Function.update s.cache tokenId (some data) }.answer tokenId (some data))

theorem Server.step_moves (hbase64 : ∀ s, (base64 s).toList = Base64.encode (utf8 s)) {c : ServerStep}
    (hc : ∀ request site, c = .call request site → P site) : s.Moves S P (s.step base64 S c) := by
  cases c with
  | ask tokenId =>
    cases hcache : s.cache tokenId with
    | none =>
      simp only [Server.step, hcache]
      exact .miss hcache
    | some data =>
      simp only [Server.step, hcache]
      exact .hit hcache
  | call request site =>
    cases hasked : s.asked[request]? with
    | none =>
      simp only [Server.step, hasked]
      exact .idle
    | some tokenId =>
      cases huri : site.dataURI base64 (S.number tokenId) with
      | error e =>
        simp only [Server.step, hasked, huri]
        exact .failed hasked
      | ok uri =>
        obtain ⟨data, svg, hread, hof, hgenuine⟩ := site.dataURI_genuine hbase64 (hc _ _ rfl) huri
        simp only [Server.step, hasked, huri, hread, hof]
        exact .drawn hasked hgenuine
  | store request =>
    cases hdrawn : s.drawn[request]? with
    | none =>
      simp only [Server.step, hdrawn]
      exact .idle
    | some r =>
      simp only [Server.step, hdrawn]
      exact .stored hdrawn

structure Server.Honest (S : Services) (P : Site → Prop) (s : Server) : Prop where
  cache : ∀ tokenId data, s.cache tokenId = some data → Genuine S P tokenId data
  drawn : ∀ tokenId data, (tokenId, data) ∈ s.drawn → Genuine S P tokenId data
  answers : ∀ tokenId data, (tokenId, some data) ∈ s.answers → Genuine S P tokenId data
  thrown : s.thrown = false

theorem Server.Honest.answer (h : s.Honest S P) {tokenId : String} {x : Option TokenMetadata}
    (hx : ∀ data, x = some data → Genuine S P tokenId data) : (s.answer tokenId x).Honest S P := by
  refine { h with answers := fun k data hmem => ?_ }
  rcases List.mem_append.mp hmem with hmem | hmem
  · exact h.answers k data hmem
  · obtain ⟨rfl, e⟩ := Prod.mk.inj (List.mem_singleton.mp hmem)
    exact hx data e.symm

theorem Server.Moves.honest {s' : Server} (h : s.Honest S P) (hm : s.Moves S P s') : s'.Honest S P := by
  cases hm with
  | idle => exact h
  | hit hcache => exact h.answer fun x hx => Option.some.inj hx ▸ h.cache _ _ hcache
  | miss => exact { h with }
  | @failed request tokenId hasked =>
    have h' : Server.Honest S P { s with asked := s.asked.eraseIdx request } := { h with }
    exact h'.answer fun data hx => by cases hx
  | drawn hasked hdata =>
    refine { h with drawn := fun k x hmem => ?_ }
    rcases List.mem_append.mp hmem with hmem | hmem
    · exact h.drawn k x hmem
    · obtain ⟨rfl, rfl⟩ := Prod.mk.inj (List.mem_singleton.mp hmem)
      exact hdata
  | @stored request tokenId data hdrawn =>
    have hgenuine := h.drawn tokenId data (List.mem_of_getElem? hdrawn)
    have hcache : ∀ k x, Function.update s.cache tokenId (some data) k = some x → Genuine S P k x := by
      intro k x hk
      by_cases e : k = tokenId
      · subst e
        rw [Function.update_self] at hk
        exact Option.some.inj hk ▸ hgenuine
      · rw [Function.update_of_ne e] at hk
        exact h.cache k x hk
    have h' : Server.Honest S P { s with
        drawn := s.drawn.eraseIdx request
        cache := Function.update s.cache tokenId (some data) } :=
      ⟨hcache, fun k x hmem => h.drawn k x (List.mem_of_mem_eraseIdx hmem), h.answers, h.thrown⟩
    exact h'.answer fun x hx => Option.some.inj hx ▸ hgenuine

/-- no request for the token is on its way, and it is in the cache -/
structure Server.Settled (s : Server) (tokenId : String) (data : TokenMetadata) : Prop where
  cache : s.cache tokenId = some data
  asked : tokenId ∉ s.asked
  drawn : ∀ x ∈ s.drawn, x.1 ≠ tokenId

theorem Server.Moves.settled {s' : Server} {tokenId : String} {data : TokenMetadata}
    (h : s.Settled tokenId data) (hm : s.Moves S P s') : s'.Settled tokenId data ∧
      ∃ new, s'.answers = s.answers ++ new ∧ ∀ x ∈ new, x.1 = tokenId → x.2 = some data := by
  obtain ⟨hcache, hasked, hdrawn⟩ := h
  cases hm with
  | idle => exact ⟨⟨hcache, hasked, hdrawn⟩, [], (List.append_nil _).symm, fun x hx => by cases hx⟩
  | @hit k x hk =>
    refine ⟨⟨hcache, hasked, hdrawn⟩, _, rfl, fun y hy e => ?_⟩
    obtain rfl := List.mem_singleton.mp hy
    obtain rfl : k = tokenId := e
    exact hk.symm.trans hcache
  | @miss k hk =>
    refine ⟨⟨hcache, fun hmem => ?_, hdrawn⟩, [], (List.append_nil _).symm, fun x hx => by cases hx⟩
    rcases List.mem_append.mp hmem with hmem | hmem
    · exact hasked hmem
    · rw [← List.mem_singleton.mp hmem, hcache] at hk
      cases hk
  | @failed request k hk =>
    refine ⟨⟨hcache, fun hmem => hasked (List.mem_of_mem_eraseIdx hmem), hdrawn⟩, _, rfl, fun y hy e => ?_⟩
    obtain rfl := List.mem_singleton.mp hy
    obtain rfl : k = tokenId := e
    exact absurd (List.mem_of_getElem? hk) hasked
  | @drawn request k x hk _ =>
    refine ⟨⟨hcache, fun hmem => hasked (List.mem_of_mem_eraseIdx hmem), fun y hy => ?_⟩, [],
      (List.append_nil _).symm, fun x hx => by cases hx⟩
    rcases List.mem_append.mp hy with hy | hy
    · exact hdrawn y hy
    · rw [List.mem_singleton.mp hy]
      rintro rfl
      exact hasked (List.mem_of_getElem? hk)
  | @stored request k x hk =>
    have hne : k ≠ tokenId := hdrawn _ (List.mem_of_getElem? hk)
    refine ⟨⟨(Function.update_of_ne (Ne.symm hne) _ _).trans hcache, hasked,
      fun y hy => hdrawn y (List.mem_of_mem_eraseIdx hy)⟩, _, rfl, fun y hy e => ?_⟩
    obtain rfl := List.mem_singleton.mp hy
    exact absurd e hne

/-! ## runs -/

def Server.run (base64 : String → String) (S : Services) (steps : List ServerStep) (s : Server) : Server :=
  steps.foldl (Server.step base64 S) s

section
variable (hbase64 : ∀ s, (base64 s).toList = Base64.encode (utf8 s))
include hbase64

theorem Server.run_honest {steps : List ServerStep} (h : s.Honest S P)
    (hsteps : ∀ request site, .call request site ∈ steps → P site) : (s.run base64 S steps).Honest S P := by
  induction steps generalizing s with
  | nil => exact h
  | cons c steps ih =>
    have hc : ∀ request site, c = .call request site → P site := by
      rintro request site rfl
      exact hsteps request site List.mem_cons_self
    exact ih ((Server.step_moves hbase64 hc).honest h) fun request site hmem =>
      hsteps request site (List.mem_cons_of_mem _ hmem)

theorem Server.run_settled {tokenId : String} {data : TokenMetadata} (steps : List ServerStep)
    (h : s.Settled tokenId data) :
    ∃ new, (s.run base64 S steps).answers = s.answers ++ new ∧ ∀ x ∈ new, x.1 = tokenId → x.2 = some data := by
  induction steps generalizing s with
  | nil => exact ⟨[], (List.append_nil _).symm, fun x hx => by cases hx⟩
  | cons c steps ih =>
    have hm : s.Moves S (fun _ => True) (s.step base64 S c) := Server.step_moves hbase64 fun _ _ _ => trivial
    obtain ⟨h', new, hnew, hall⟩ := hm.settled h
    obtain ⟨new', hnew', hall'⟩ := ih h'
    refine ⟨new ++ new', ?_, fun x hx => ?_⟩
    · show (Server.run base64 S steps (s.step base64 S c)).answers = _
      rw [hnew', hnew, List.append_assoc]
    · rcases List.mem_append.mp hx with hx | hx
      · exact hall x hx
      · exact hall' x hx

end

end

/-- **The metadata of a token is what was written and rendered.**  Whatever the contracts are: both readers
of the text that they return get the name and the description of the token and the picture of its seed.
The API, with any number of requests under way, is never returned what it cannot read; each answer has
the name and the description of the token, which there was, and the picture that was rendered for its
seed at one of the calls; and once a token is in the cache and no request for it is under way, all
answers for it are the same. -/
theorem metadata_served (base64 : String → String)
    (hbase64 : ∀ s, (base64 s).toList = Base64.encode (utf8 s)) (S : Services) (steps : List ServerStep) :
    (∀ (site : Site) (id : Nat) (uri : String), site.dataURI base64 id = .ok uri → ∃ params svg,
      site.art.svgParams site.chain site.code (site.token.seeds id) = .ok params ∧
      generateSVG params = .ok svg ∧ ∃ data : TokenMetadata, data.name = ("UNoun " ++ toString id).toList ∧
      data.description = ("UNoun " ++ toString id ++ " is a member of the UNouns DAO").toList ∧
      readMetadata uri = some data ∧ useNounToken uri = some data ∧ svgOf data = some (utf8 svg)) ∧
    let s := (Server.start fun _ => none).run base64 S steps
    s.thrown = false ∧
    (∀ tokenId data, (tokenId, some data) ∈ s.answers →
      Genuine S (fun site => ∃ request, .call request site ∈ steps) tokenId data) ∧
    ∀ tokenId data, s.Settled tokenId data → ∀ later, ∃ new,
      (s.run base64 S later).answers = s.answers ++ new ∧ ∀ x ∈ new, x.1 = tokenId → x.2 = some data := by
  refine ⟨fun site id uri h => ?_, ?_⟩
  · obtain ⟨_, _, h⟩ := bind_eq_ok.mp h
    obtain ⟨params, svg, hparams, hsvg, hread, huse, hof⟩ := dataURI_read hbase64 h
    exact ⟨params, svg, hparams, hsvg, _, rfl, rfl, hread, huse, hof⟩
  intro s
  have hstart : (Server.start fun _ => none).Honest S fun site => ∃ request, .call request site ∈ steps :=
    ⟨fun _ _ h => (by cases h), fun _ _ h => (by cases h), fun _ _ h => (by cases h), rfl⟩
  have hhonest := Server.run_honest hbase64 hstart fun request site hmem => ⟨request, hmem⟩
  exact ⟨hhonest.thrown, hhonest.answers, fun tokenId data h later => Server.run_settled hbase64 later h⟩

/-- base64 as it is defined -/
def plainBase64 (s : String) : String := String.ofList (Base64.encode (utf8 s))

/-- one token, whose four parts are one pixel each -/
def sampleSite : Site where
  chain := ⟨20, sampleKeccak, fun _ => sampleBlockHash, fun _ source _ => .ok (0, source),
    fun data => .ok [data]⟩
  code pointer := if pointer = 100 then [0, 0, 0, 1, 1, 0, 1, 1] else [0, 0, 0, 0, 9, 9, 9]
  art := { NounsArt.deploy 20 30 with
    palettesPointers := fun _ => 101
    backgrounds := ["d5d7e1"]
    traits := fun _ => ⟨[⟨1, 7, 100⟩], 1⟩ }
  token := { UNounsToken.deploy 1 2 3 4 20 5 with owners := fun id => if id = 1 then 6 else 0 }

def sampleServices : Services := ⟨fun _ => 1, id, fun _ => "Qm"⟩

/-- two requests for one token that overlap -/
def overlap (tokenId : String) (site : Site) : List ServerStep :=
  [.ask tokenId, .ask tokenId, .call 1 site, .call 0 site, .store 1, .store 0]

theorem overlap_answers {base64 : String → String} {S : Services} {site : Site} {tokenId uri : String}
    {data : TokenMetadata} {svg : Bytes} (huri : site.dataURI base64 (S.number tokenId) = .ok uri)
    (hread : readMetadata uri = some data) (hof : svgOf data = some svg) :
    ((Server.start fun _ => none).run base64 S (overlap tokenId site)).answers =
      List.replicate 2 (tokenId, some (Server.stored S data svg)) := by
  simp [Server.run, overlap, Server.step, Server.start, Server.answer, huri, hread, hof]

theorem metadata_served_run : ∃ uri data answer, sampleSite.dataURI plainBase64 1 = .ok uri ∧
    readMetadata uri = some data ∧ useNounToken uri = some data ∧
    data.name = ("UNoun " ++ toString 1).toList ∧
    ((Server.start fun _ => none).run plainBase64 sampleServices (overlap "1" sampleSite)).answers =
      List.replicate 2 ("1", some answer) ∧
    Genuine sampleServices (fun site => ∃ request, .call request site ∈ overlap "1" sampleSite) "1"
      answer := by
  obtain ⟨hread, -, hgenuine, -⟩ :=
    metadata_served plainBase64 (fun _ => String.toList_ofList) sampleServices (overlap "1" sampleSite)
  have hsome : (sampleSite.dataURI plainBase64 1).toOption.isSome = true := by decide +kernel
  obtain ⟨uri, huri⟩ : ∃ uri, sampleSite.dataURI plainBase64 1 = .ok uri := ⟨_, eq_ok_get hsome⟩
  obtain ⟨params, svg, _, _, data, hname, _, hmetadata, huse, hof⟩ := hread sampleSite 1 uri huri
  have hanswers := @overlap_answers _ sampleServices _ "1" _ _ _ huri hmetadata hof
  refine ⟨uri, data, _, huri, hmetadata, huse, hname, hanswers, hgenuine "1" _ ?_⟩
  rw [hanswers]
  exact List.mem_cons_self

end UNouns.Webapp
