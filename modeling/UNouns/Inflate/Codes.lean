import UNouns.Inflate.Tables

/-!
# Inflate: literals and copies

* `literal_ok`, `copy_ok`  what one symbol of a block writes;
* `codes_ok`               a block's symbols up to its end, as the format has them.
-/

set_option linter.unusedVariables false

namespace UNouns.Inflate

open Bits Deflate

variable {c : Setting} {rest rest' : List Bool} {out : Bytes} {s' : State} {L D : Words} {l d : Huffman}

/-! ## one symbol -/

theorem literal_ok (hout : out.length ≤ c.size) (symbol : Nat) : literal symbol (c.at rest out) = .ok () s' ↔
    out.length < c.size ∧ s' = c.at rest (out ++ [UInt8.ofNat symbol]) := by
  have hcnt : (c.at rest out).outcnt = out.length := rfl
  unfold literal
  rw [state_bind, hcnt, output_length hout]
  by_cases h : out.length = c.size
  · rw [if_pos h, fail_ok]
    exact ⟨False.elim, fun h' => absurd h'.1 (by omega)⟩
  · rw [if_neg h, put_at _ (by omega)]
    constructor
    · intro h'
      cases h'
      exact ⟨by omega, rfl⟩
    · rintro ⟨-, rfl⟩
      rfl

theorem copyOutput_at {dist : Nat} (hpos : 0 < dist) (len : Nat) : ∀ out : Bytes, dist ≤ out.length →
    out.length + len ≤ c.size →
    copyOutput dist len (c.at rest out) = .ok () (c.at rest (copied dist len out)) := by
  induction len with
  | zero => exact fun out h1 h2 => rfl
  | succ len ih =>
    intro out h1 h2
    have hget : (out ++ List.replicate (c.size - out.length) 0)[out.length - dist]?
        = some (out.getD (out.length - dist) 0) := by
      rw [List.getElem?_append_left (by omega), List.getD_eq_getElem?_getD,
        List.getElem?_eq_getElem (by omega)]
      rfl
    have hfetch : fetch (c.at rest out).output ((c.at rest out).outcnt - dist) (c.at rest out)
        = .ok (out.getD (out.length - dist) 0) (c.at rest out) := fetch_ok.mpr ⟨hget, rfl⟩
    have hlen : (out ++ [out.getD (out.length - dist) 0]).length = out.length + 1 := by
      rw [List.length_append, List.length_singleton]
    rw [copyOutput, state_bind, bind_of_ok hfetch, bind_of_ok (put_at _ (by omega)), copied]
    exact ih _ (by omega) (by omega)

theorem lengthCodes_eq : lengthCodes = lens.zip lext := rfl

theorem distanceCodes_eq : distanceCodes = dists.zip dext := rfl

theorem dists_pos {j distance : Nat} (h : dists[j]? = some distance) : 0 < distance := by
  have hall : ∀ x ∈ dists, 0 < x := by decide
  exact hall distance (List.mem_of_getElem? h)

/-- a length, a distance, and the bytes they stand for -/
theorem copy_ok (hd : Decodes d D) (hleft : c.Left rest) (hout : out.length ≤ c.size) (i : Nat) :
    copy d i (c.at rest out) = .ok () s' ↔
      ∃ x wd y rest' j length distance, rest = x ++ (wd ++ (y ++ rest')) ∧
        lengthCodes[i]? = some (length, x.length) ∧ D j wd ∧
        distanceCodes[j]? = some (distance, y.length) ∧ distance + value y ≤ out.length ∧
        out.length + (length + value x) ≤ c.size ∧
        s' = c.at rest' (copied (distance + value y) (length + value x) out) := by
  simp only [lengthCodes_eq, distanceCodes_eq, List.getElem?_zip_eq_some]
  constructor
  · intro h
    rcases ite_ok.mp h with ⟨-, h⟩ | ⟨-, h⟩
    · exact (nomatch h)
    obtain ⟨extra, s1, h1, h⟩ := bind_ok.mp h
    obtain ⟨hextra, rfl⟩ := fetch_ok.mp h1
    obtain ⟨_, s2, h2, h⟩ := bind_ok.mp h
    obtain ⟨x, rest1, rfl, rfl, rfl, rfl⟩ := (bits_ok hleft).mp h2
    obtain ⟨length, s3, h3, h⟩ := bind_ok.mp h
    obtain ⟨hlength, rfl⟩ := fetch_ok.mp h3
    obtain ⟨j, s4, h4, h⟩ := bind_ok.mp h
    obtain ⟨wd, rest2, rfl, hD, rfl⟩ := (hd.ok hleft.of_append).mp h4
    obtain ⟨extra, s5, h5, h⟩ := bind_ok.mp h
    obtain ⟨hextra', rfl⟩ := fetch_ok.mp h5
    obtain ⟨_, s6, h6, h⟩ := bind_ok.mp h
    obtain ⟨y, rest3, rfl, rfl, rfl, rfl⟩ := (bits_ok hleft.of_append.of_append).mp h6
    obtain ⟨distance, s7, h7, h⟩ := bind_ok.mp h
    obtain ⟨hdistance, rfl⟩ := fetch_ok.mp h7
    rw [state_bind] at h
    have hcnt : (c.at rest3 out).outcnt = out.length := rfl
    rw [hcnt, output_length hout] at h
    rcases ite_ok.mp h with ⟨-, h⟩ | ⟨hdist, h⟩
    · exact (nomatch h)
    rcases ite_ok.mp h with ⟨-, h⟩ | ⟨hroom, h⟩
    · exact (nomatch h)
    have hpos := dists_pos hdistance
    rw [copyOutput_at (by omega) _ _ (by omega) (by omega)] at h
    cases h
    exact ⟨x, wd, y, rest3, j, length, distance, rfl, ⟨hlength, hextra⟩, hD, ⟨hdistance, hextra'⟩,
      by omega, by omega, rfl⟩
  · rintro ⟨x, wd, y, rest', j, length, distance, rfl, ⟨hlength, hextra⟩, hD, ⟨hdistance, hextra'⟩,
      hdist, hroom, rfl⟩
    have hi : i < lens.length := (List.getElem?_eq_some_iff.mp hlength).1
    have hpos := dists_pos hdistance
    refine ite_ok.mpr (.inr ⟨Nat.not_le_of_lt hi, ?_⟩)
    refine (bind_of_ok (fetch_ok.mpr ⟨hextra, rfl⟩)).trans ?_
    refine (bind_of_ok ((bits_ok hleft).mpr ⟨x, _, rfl, rfl, rfl, rfl⟩)).trans ?_
    refine (bind_of_ok (fetch_ok.mpr ⟨hlength, rfl⟩)).trans ?_
    refine (bind_of_ok ((hd.ok hleft.of_append).mpr ⟨wd, _, rfl, hD, rfl⟩)).trans ?_
    refine (bind_of_ok (fetch_ok.mpr ⟨hextra', rfl⟩)).trans ?_
    refine (bind_of_ok ((bits_ok hleft.of_append.of_append).mpr ⟨y, _, rfl, rfl, rfl, rfl⟩)).trans ?_
    refine (bind_of_ok (fetch_ok.mpr ⟨hdistance, rfl⟩)).trans ?_
    have hcnt : (c.at rest' out).outcnt = out.length := rfl
    rw [state_bind, hcnt, output_length hout, if_neg (by omega), if_neg (by omega)]
    exact copyOutput_at (by omega) _ _ (by omega) (by omega)

/-! ## all symbols of a block -/

theorem codesFrom_eq {s s1 : State} {symbol : Nat} (h : decode l s = .ok symbol s1) (n len : Nat) :
    codesFrom l d (n + 1) len s = (if symbol < 256 then literal symbol >>= fun _ => codesFrom l d n len
      else if symbol > 256 then copy d (symbol - 257) >>= fun _ => codesFrom l d n 0
      else fun s => .ok () { s with outcnt := s.outcnt + len }) s1 := bind_of_ok h

theorem codesFrom_sound (hl : Decodes l L) (hd : Decodes d D) (n : Nat) : ∀ {rest out s'}, c.Left rest →
    out.length ≤ c.size → codesFrom l d n 0 (c.at rest out) = .ok () s' →
    ∃ rest' out', Items L D rest out rest' out' ∧ out'.length ≤ c.size ∧ s' = c.at rest' out' := by
  induction n with
  | zero => exact fun _ _ h => (nomatch h)
  | succ n ih =>
    intro rest out s' hleft hout h
    obtain ⟨v, s1, h1, h⟩ := bind_ok.mp h
    obtain ⟨w, rest1, rfl, hw, rfl⟩ := (hl.ok hleft).mp h1
    rcases ite_ok.mp h with ⟨hv, h⟩ | ⟨hv, h⟩
    · obtain ⟨⟨⟩, s2, h2, h⟩ := bind_ok.mp h
      obtain ⟨hroom, rfl⟩ := (literal_ok hout v).mp h2
      obtain ⟨rest', out', hitems, hsize, rfl⟩ := ih hleft.of_append
        (by rw [List.length_append, List.length_singleton]; omega) h
      have hx : (UInt8.ofNat v).toNat = v := UInt8.toNat_ofNat_of_lt hv
      exact ⟨rest', out', .literal (by rwa [hx]) hitems, hsize, rfl⟩
    rcases ite_ok.mp h with ⟨hv', h⟩ | ⟨hv', h⟩
    · obtain ⟨⟨⟩, s2, h2, h⟩ := bind_ok.mp h
      obtain ⟨x, wd, y, rest2, j, length, distance, rfl, hlength, hD, hdistance, hdist, hroom, rfl⟩ :=
        (copy_ok hd hleft.of_append hout _).mp h2
      obtain ⟨rest', out', hitems, hsize, rfl⟩ := ih hleft.of_append.of_append.of_append.of_append
        (by rw [copied_length]; omega) h
      refine ⟨rest', out', .copy ?_ hlength hD hdistance hdist hitems, hsize, rfl⟩
      rwa [show 257 + (v - 257) = v by omega]
    · cases h
      obtain rfl : v = 256 := by omega
      exact ⟨rest1, out, .stop hw, hout, rfl⟩

theorem codesFrom_complete (hl : Decodes l L) (hd : Decodes d D) {out' : Bytes}
    (hitems : Items L D rest out rest' out') (hsize : out'.length ≤ c.size) : ∀ n, c.Left rest →
    rest.length < n → codesFrom l d n 0 (c.at rest out) = .ok () (c.at rest' out') := by
  induction hitems with
  | @stop w rest out hw =>
    intro n hleft hn
    obtain ⟨n, rfl⟩ := Nat.exists_eq_add_one_of_ne_zero (show n ≠ 0 by omega)
    have hdec : decode l (c.at (w ++ rest) out) = .ok 256 (c.at rest out) :=
      (hl.ok hleft).mpr ⟨w, rest, rfl, hw, rfl⟩
    rw [codesFrom_eq hdec]
    exact ite_ok.mpr (.inr ⟨Nat.lt_irrefl 256, ite_ok.mpr (.inr ⟨Nat.lt_irrefl 256, rfl⟩)⟩)
  | @literal w rest rest' out out' x hw hitems ih =>
    intro n hleft hn
    obtain ⟨n, rfl⟩ := Nat.exists_eq_add_one_of_ne_zero (show n ≠ 0 by omega)
    have hpos := List.length_pos_of_ne_nil (hl.ne_nil _ _ hw)
    have hle := hitems.length_le
    rw [List.length_append] at hle hn
    rw [List.length_singleton] at hle
    have hdec : decode l (c.at (w ++ rest) out) = .ok x.toNat (c.at rest out) :=
      (hl.ok hleft).mpr ⟨w, rest, rfl, hw, rfl⟩
    have hlit : literal x.toNat (c.at rest out) = .ok () (c.at rest (out ++ [x])) :=
      (literal_ok (by omega) _).mpr ⟨by omega, by rw [UInt8.ofNat_toNat]⟩
    rw [codesFrom_eq hdec, if_pos x.toNat_lt, bind_of_ok hlit]
    exact ih hsize n hleft.of_append (by omega)
  | @copy wl x wd y rest rest' out out' i j length distance hw hlength hD hdistance hdist hitems ih =>
    intro n hleft hn
    obtain ⟨n, rfl⟩ := Nat.exists_eq_add_one_of_ne_zero (show n ≠ 0 by omega)
    have hpos := List.length_pos_of_ne_nil (hl.ne_nil _ _ hw)
    have hle := hitems.length_le
    rw [copied_length] at hle
    simp only [List.length_append] at hn
    have hdec : decode l (c.at (wl ++ (x ++ (wd ++ (y ++ rest)))) out)
        = .ok (257 + i) (c.at (x ++ (wd ++ (y ++ rest))) out) := (hl.ok hleft).mpr ⟨wl, _, rfl, hw, rfl⟩
    have hcopy : copy d i (c.at (x ++ (wd ++ (y ++ rest))) out)
        = .ok () (c.at rest (copied (distance + value y) (length + value x) out)) :=
      (copy_ok hd hleft.of_append (by omega) i).mpr
        ⟨x, wd, y, rest, j, length, distance, rfl, hlength, hD, hdistance, hdist, by omega, rfl⟩
    rw [codesFrom_eq hdec, show 257 + i - 257 = i by omega]
    refine ite_ok.mpr (.inr ⟨by omega, ite_ok.mpr (.inl ⟨by omega, ?_⟩)⟩)
    rw [bind_of_ok hcopy]
    exact ih hsize n hleft.of_append.of_append.of_append.of_append (by omega)

/-- **`_codes`.** -/
theorem codes_ok (hl : Decodes l L) (hd : Decodes d D) (hleft : c.Left rest) (hout : out.length ≤ c.size) :
    codes l d (c.at rest out) = .ok () s' ↔
      ∃ rest' out', Items L D rest out rest' out' ∧ out'.length ≤ c.size ∧ s' = c.at rest' out' := by
  unfold codes
  rw [state_bind]
  constructor
  · exact codesFrom_sound hl hd _ hleft hout
  · rintro ⟨rest', out', hitems, hsize, rfl⟩
    exact codesFrom_complete hl hd hitems hsize _ hleft (Nat.lt_succ_of_le hleft.length_le)

end UNouns.Inflate
