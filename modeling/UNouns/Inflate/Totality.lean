import UNouns.Inflate.Codes
import UNouns.Inflate.Inflation
import UNouns.Inflate.Usable

/-!
# Inflate: the decoder is total

Every round of a loop takes bits from the input, so that the bits that are left bound the rounds, and
every index and every sum is bounded by an array or by a table of the source.

* `stored_meets`, `codes_meets`   the contents of a block;
* `buildDynamic_meets`            the header of a dynamic block;
* `puff_total`                    the whole decoder on machine words.
-/

set_option linter.unusedVariables false

namespace UNouns.Inflate

variable {c : Setting} {s : State}

/-- fewer bits are left than a greater bound says -/
theorem Meets.le {α : Type} {m f : Puff α} {n k : Nat}
    (h : Meets c.Written m f s fun _ s' => c.Sound s' ∧ s'.left ≤ n) (hk : n ≤ k) :
    Meets c.Written m f s fun _ s' => c.Sound s' ∧ s'.left ≤ k :=
  h.mono fun _ _ h' => ⟨h'.1, Nat.le_trans h'.2 hk⟩

/-! ## bytes -/

theorem next_sound (hc : c.Small) (h : c.Sound s) (hlt : s.incnt < c.source.length) :
    Meets c.Written Machine.next next s fun x s' =>
      c.Sound s' ∧ s'.incnt = s.incnt + 1 ∧ s'.outcnt = s.outcnt ∧ s'.left ≤ s.left := by
  refine (next_meets hc h.toWithin hlt).mono ?_
  rintro x s' rfl
  have hleft : State.left { s with incnt := s.incnt + 1 } ≤ s.left := by
    show 8 * (s.input.length - (s.incnt + 1)) + s.bitcnt ≤ 8 * (s.input.length - s.incnt) + s.bitcnt
    omega
  exact ⟨⟨⟨⟨h.output, h.outcnt⟩, h.input, hlt, h.lencode, h.distcode, Nat.le_trans hleft h.left_le⟩,
    h.bitcnt, h.bitbuf⟩, rfl, rfl, hleft⟩

theorem put_sound (hc : c.Small) (h : c.Sound s) (hlt : s.outcnt < c.size) (x : UInt8) :
    Meets c.Written (Machine.put x) (put x) s fun _ s' =>
      c.Sound s' ∧ s'.incnt = s.incnt ∧ s'.outcnt = s.outcnt + 1 ∧ s'.left = s.left := by
  refine (put_meets hc h.toWritten hlt x).mono ?_
  rintro _ s' rfl
  have hlen : (s.output.set s.outcnt x).length = c.size := by rw [List.length_set, h.output]
  exact ⟨⟨⟨⟨hlen, hlt⟩, h.input, h.incnt, h.lencode, h.distcode, h.left_le⟩, h.bitcnt, h.bitbuf⟩,
    rfl, rfl, rfl⟩

/-! ## stored blocks -/

theorem copyInput_meets (hc : c.Small) (len : Nat) : ∀ s, c.Sound s → s.incnt + len ≤ c.source.length →
    s.outcnt + len ≤ c.size → Meets c.Written (Machine.copyInput len) (copyInput len) s fun _ s' =>
      c.Sound s' ∧ s'.left ≤ s.left := by
  induction len with
  | zero => exact fun s hs _ _ => Meets.pure ⟨hs, Nat.le_refl _⟩
  | succ len ih =>
    intro s hs hin hout
    refine Meets.bind (next_sound hc hs (by omega)) ?_
    rintro x s1 ⟨hs1, hi1, ho1, hl1⟩
    refine Meets.bind (put_sound hc hs1 (by omega) x) ?_
    rintro _ s2 ⟨hs2, hi2, ho2, hl2⟩
    exact (ih s2 hs2 (by omega) (by omega)).le (by omega)

/-- the bits of the current byte are dropped -/
theorem Setting.Sound.dropped (h : c.Sound s) :
    c.Sound { s with bitbuf := 0, bitcnt := 0 } ∧ State.left { s with bitbuf := 0, bitcnt := 0 } ≤ s.left := by
  have hleft : State.left { s with bitbuf := 0, bitcnt := 0 } ≤ s.left := Nat.le_add_right _ _
  exact ⟨⟨⟨⟨h.output, h.outcnt⟩, h.input, h.incnt, h.lencode, h.distcode, Nat.le_trans hleft h.left_le⟩,
    Nat.succ_pos 7, Nat.one_pos⟩, hleft⟩

theorem stored_meets (hc : c.Small) (hs : c.Sound s) :
    Meets c.Written Machine.stored stored s fun _ s' => c.Sound s' ∧ s'.left ≤ s.left := by
  have hsource := hc.source
  have hsize := hc.size
  obtain ⟨hs0, hl0⟩ := hs.dropped
  refine Meets.bind (Meets.of_ok (a := ()) rfl rfl (Q := fun _ s' => c.Sound s' ∧ s'.left ≤ s.left) ⟨hs0, hl0⟩) ?_
  rintro _ s1 ⟨hs1, hl1⟩
  have hi1 := hs1.incnt
  refine Meets.state ?_
  rw [Machine.add_eq (a := s1.incnt) (by omega), hs1.input]
  refine Meets.ite (fun _ => Meets.fail hs1.toWritten) fun hroom => ?_
  refine Meets.bind (next_sound hc hs1 (by omega)) ?_
  rintro lo s2 ⟨hs2, hi2, ho2, hl2⟩
  refine Meets.bind (next_sound hc hs2 (by omega)) ?_
  rintro hi s3 ⟨hs3, hi3, ho3, hl3⟩
  have hlen : lo.toNat ||| hi.toNat <<< 8 < 2 ^ 16 := by
    have h1 := lo.toNat_lt
    have h2 := hi.toNat_lt
    rw [lor_shiftLeft_eq]
    omega
  rw [Machine.shl_small hi.toNat_lt (by omega)]
  refine Meets.bind (next_sound hc hs3 (by omega)) ?_
  rintro x s4 ⟨hs4, hi4, ho4, hl4⟩
  refine Meets.ite (fun _ => Meets.fail hs4.toWritten) fun _ => ?_
  refine Meets.bind (next_sound hc hs4 (by omega)) ?_
  rintro y s5 ⟨hs5, hi5, ho5, hl5⟩
  refine Meets.ite (fun _ => Meets.fail hs5.toWritten) fun _ => ?_
  have hi5' := hs5.incnt
  have ho5' := hs5.outcnt
  refine Meets.state ?_
  rw [Machine.add_eq (a := s5.incnt) (by omega), Machine.add_eq (a := s5.outcnt) (by omega), hs5.input, hs5.output]
  refine Meets.ite (fun _ => Meets.fail hs5.toWritten) fun hin => ?_
  refine Meets.ite (fun _ => Meets.fail hs5.toWritten) fun hout => ?_
  exact (copyInput_meets hc _ s5 hs5 (by omega) (by omega)).le (by omega)

/-! ## literals and copies -/

theorem literal_meets (hc : c.Small) (hs : c.Sound s) (symbol : Nat) :
    Meets c.Written (Machine.literal symbol) (literal symbol) s fun _ s' => c.Sound s' ∧ s'.left ≤ s.left := by
  refine Meets.state (Meets.ite (fun _ => Meets.fail hs.toWritten) fun hne => ?_)
  rw [hs.output] at hne
  have hle := hs.outcnt
  refine (put_sound hc hs (by omega) _).mono ?_
  rintro _ s1 ⟨hs1, -, -, hl1⟩
  exact ⟨hs1, Nat.le_of_eq hl1⟩

theorem copyOutput_meets (hc : c.Small) (dist len : Nat) : ∀ s, c.Sound s → dist ≤ s.outcnt →
    s.outcnt + len ≤ c.size → Meets c.Written (Machine.copyOutput dist len) (copyOutput dist len) s
      fun _ s' => c.Sound s' ∧ s'.left ≤ s.left := by
  induction len with
  | zero => exact fun s hs _ _ => Meets.pure ⟨hs, Nat.le_refl _⟩
  | succ len ih =>
    intro s hs hdist hout
    have hsize := hc.size
    refine Meets.state ?_
    rw [Machine.sub_eq hdist]
    refine Meets.fetch (by rw [hs.output]; omega) fun x hx => ?_
    refine Meets.bind (put_sound hc hs (by omega) x) ?_
    rintro _ s1 ⟨hs1, hi1, ho1, hl1⟩
    exact (ih s1 hs1 (by omega) (by omega)).le (by omega)

/-- the tables of the source for lengths and distances -/
theorem lext_le : ∀ x ∈ lext, x ≤ 5 := by decide

theorem lens_le : ∀ x ∈ lens, x ≤ 258 := by decide

theorem dext_le : ∀ x ∈ dext, x ≤ 13 := by decide

theorem dists_le : ∀ x ∈ dists, x ≤ 24577 := by decide

theorem copy_meets (hc : c.Small) {d : Huffman} (hd : d.Usable MAXDCODES) (hs : c.Sound s) (symbol : Nat) :
    Meets c.Written (Machine.copy d symbol) (copy d symbol) s fun _ s' => c.Sound s' ∧ s'.left ≤ s.left := by
  have hsize := hc.size
  refine Meets.ite (fun _ => Meets.fail hs.toWritten) fun h29 => ?_
  have hsymbol : symbol < 29 := Nat.lt_of_not_le h29
  refine Meets.fetch hsymbol fun extra hextra => ?_
  have h5 := lext_le _ (List.mem_of_getElem? hextra)
  refine Meets.bind (bits_meets hc hs (by omega)) ?_
  rintro tempBits s1 ⟨hs1, hbits, hl1⟩
  refine Meets.fetch hsymbol fun base hbase => ?_
  have h258 := lens_le _ (List.mem_of_getElem? hbase)
  have hpow : 2 ^ extra ≤ 2 ^ 5 := Nat.pow_le_pow_right (by omega) h5
  rw [Machine.add_eq (a := base) (by omega)]
  refine Meets.bind (decode_meets hc hd hs1) ?_
  rintro v s2 ⟨hs2, hv, hl2⟩
  refine Meets.fetch hv fun extra' hextra' => ?_
  have h13 := dext_le _ (List.mem_of_getElem? hextra')
  refine Meets.bind (bits_meets hc hs2 (by omega)) ?_
  rintro tempBits' s3 ⟨hs3, hbits', hl3⟩
  refine Meets.fetch hv fun base' hbase' => ?_
  have h24577 := dists_le _ (List.mem_of_getElem? hbase')
  have hpow' : 2 ^ extra' ≤ 2 ^ 13 := Nat.pow_le_pow_right (by omega) h13
  have ho3 := hs3.outcnt
  refine Meets.state ?_
  rw [Machine.add_eq (a := base') (by omega), Machine.add_eq (a := s3.outcnt) (by omega), hs3.output]
  refine Meets.ite (fun _ => Meets.fail hs3.toWritten) fun hfar => ?_
  refine Meets.ite (fun _ => Meets.fail hs3.toWritten) fun hout => ?_
  exact (copyOutput_meets hc _ _ s3 hs3 (by omega) (by omega)).le (by omega)

/-- more rounds than bits are left, so that the last one is not reached -/
theorem codesFrom_meets (hc : c.Small) {l d : Huffman} (hl : l.Usable FIXLCODES) (hd : d.Usable MAXDCODES)
    (n : Nat) : ∀ s, c.Sound s → s.left < n →
    Meets c.Written (Machine.codesFrom l d n 0) (codesFrom l d n 0) s fun _ s' =>
      c.Sound s' ∧ s'.left ≤ s.left := by
  induction n with
  | zero => exact fun s hs h => absurd h (Nat.not_lt_zero _)
  | succ n ih =>
    intro s hs hn
    have h288 : FIXLCODES = 288 := rfl
    have hsize := hc.size
    refine Meets.bind (decode_meets hc hl hs) ?_
    rintro v s1 ⟨hs1, hv, hl1⟩
    -- what follows a literal or a copy
    have hnext : ∀ s2, c.Sound s2 → s2.left ≤ s1.left →
        Meets c.Written (Machine.codesFrom l d n 0) (codesFrom l d n 0) s2 fun _ s' =>
          c.Sound s' ∧ s'.left ≤ s.left := by
      intro s2 hs2 hl2
      exact (ih s2 hs2 (by omega)).le (by omega)
    refine Meets.ite (fun _ => ?_) fun h256 => Meets.ite (fun hgt => ?_) fun _ => ?_
    · exact Meets.bind (literal_meets hc hs1 v) fun _ s2 h => hnext s2 h.1 h.2
    · rw [Machine.sub_eq (Nat.succ_le_of_lt hgt)]
      exact Meets.bind (copy_meets hc hd hs1 _) fun _ s2 h => hnext s2 h.1 h.2
    · have hadd : Machine.add s1.outcnt 0 = s1.outcnt := Machine.add_eq (by have := hs1.outcnt; omega)
      refine Meets.of_ok (t := s1) ?_ rfl ⟨hs1, Nat.le_of_lt hl1⟩
      show Outcome.ok () { s1 with outcnt := Machine.add s1.outcnt 0 } = _
      rw [hadd]

theorem left_lt_rounds (hs : c.Sound s) : s.left < rounds s := by
  have h := hs.left_le
  unfold rounds
  rw [hs.input]
  omega

theorem codes_meets (hc : c.Small) {l d : Huffman} (hl : l.Usable FIXLCODES) (hd : d.Usable MAXDCODES)
    (hs : c.Sound s) : Meets c.Written (Machine.codes l d) (codes l d) s fun _ s' =>
      c.Sound s' ∧ s'.left ≤ s.left :=
  Meets.state (codesFrom_meets hc hl hd (rounds s) s hs (left_lt_rounds hs))

/-! ## the lengths of the code length code -/

/-- an array of lengths -/
structure Lengths (lengths : List Nat) : Prop where
  length : lengths.length = MAXCODES
  le : ∀ l ∈ lengths, l ≤ MAXBITS

theorem Lengths.set {lengths : List Nat} (h : Lengths lengths) {i v : Nat} (hv : v ≤ MAXBITS) :
    Lengths (lengths.set i v) where
  length := by rw [List.length_set, h.length]
  le := fun l hl => by
    rcases List.mem_or_eq_of_mem_set hl with hl | rfl
    · exact h.le l hl
    · exact hv

theorem lengths_zero : Lengths (List.replicate MAXCODES 0) where
  length := List.length_replicate
  le := fun l hl => by
    rw [List.eq_of_mem_replicate hl]
    exact Nat.zero_le _

theorem Lengths.foldl_set (os : List Nat) : ∀ {lengths : List Nat}, Lengths lengths →
    Lengths (os.foldl (fun lengths o => lengths.set o 0) lengths) := by
  induction os with
  | nil => exact fun h => h
  | cons o os ih => exact fun h => ih (h.set (Nat.zero_le _))

/-- the lengths that stand at `start` -/
theorem Lengths.slice {lengths : List Nat} (h : Lengths lengths) {n start : Nat} (hn : start + n ≤ MAXCODES) :
    ∃ ls, slice lengths n start = some ls ∧ ∀ l ∈ ls, l ≤ MAXBITS := by
  refine ⟨(lengths.drop start).take n, ?_, fun l hl => h.le l (List.mem_of_mem_drop (List.mem_of_mem_take hl))⟩
  unfold UNouns.Inflate.slice
  rw [if_pos (by rwa [h.length])]

theorem order_lt : ∀ o ∈ order, o < MAXCODES := by decide

theorem update_ok {lengths : List Nat} (h : Lengths lengths) {o : Nat} (ho : o < MAXCODES) (v : Nat) :
    Machine.update lengths o v s = .ok (lengths.set o v) s := if_pos (by rwa [h.length])

theorem readLengths_meets (hc : c.Small) (j : Nat) : ∀ i lengths s, i + j ≤ 19 → Lengths lengths → c.Sound s →
    Meets c.Written (Machine.readLengths (List.range' i j) lengths)
      (readLengths ((order.drop i).take j) lengths) s fun ls s' => c.Sound s' ∧ Lengths ls ∧ s'.left ≤ s.left := by
  induction j with
  | zero => exact fun i lengths s _ hl hs => Meets.pure ⟨hs, hl, Nat.le_refl _⟩
  | succ j ih =>
    intro i lengths s hi hl hs
    have h19 : order.length = 19 := rfl
    have hget : order[i]? = some order[i] := List.getElem?_eq_getElem (by omega)
    have ho := order_lt _ (List.mem_of_getElem? hget)
    rw [List.range'_succ, drop_take_succ hget]
    refine Meets.bind (bits_meets hc hs (by omega)) ?_
    rintro v s1 ⟨hs1, hv, hl1⟩
    have h15 : MAXBITS = 15 := rfl
    refine Meets.step (t := s1) ((bind_of_ok (fetch_ok.mpr ⟨hget, rfl⟩)).trans (bind_of_ok (update_ok hl ho v))) rfl ?_
    refine (ih (i + 1) _ s1 (by omega) (hl.set (by omega)) hs1).mono ?_
    rintro ls s2 ⟨hs2, hls, hl2⟩
    exact ⟨hs2, hls, by omega⟩

theorem dropLengths_eq (j : Nat) : ∀ i lengths, i + j ≤ 19 → Lengths lengths →
    Machine.dropLengths (List.range' i j) lengths s
      = .ok (((order.drop i).take j).foldl (fun lengths o => lengths.set o 0) lengths) s := by
  induction j with
  | zero => exact fun i lengths _ _ => rfl
  | succ j ih =>
    intro i lengths hi hl
    have h19 : order.length = 19 := rfl
    have hget : order[i]? = some order[i] := List.getElem?_eq_getElem (by omega)
    have ho := order_lt _ (List.mem_of_getElem? hget)
    rw [List.range'_succ, drop_take_succ hget, Machine.dropLengths]
    exact (bind_of_ok (fetch_ok.mpr ⟨hget, rfl⟩)).trans ((bind_of_ok (update_ok hl ho 0)).trans
      (ih (i + 1) _ (by omega) (hl.set (Nat.zero_le _))))

theorem buildDynamicLengths_meets (hc : c.Small) (hs : c.Sound s) :
    Meets c.Written Machine.buildDynamicLengths buildDynamicLengths s fun ls s' =>
      c.Sound s' ∧ Lengths ls ∧ s'.left ≤ s.left := by
  refine Meets.bind (bits_meets hc hs (by omega)) ?_
  rintro ncode s1 ⟨hs1, hncode, hl1⟩
  have h19 : order.length = 19 := rfl
  have hread := readLengths_meets hc (ncode + 4) 0 _ s1 (by omega) lengths_zero hs1
  rw [← List.range_eq_range', List.drop_zero] at hread
  have hadd : Machine.add ncode 4 = ncode + 4 := Machine.add_eq (by omega)
  rw [hadd]
  refine Meets.bind hread ?_
  rintro ls s2 ⟨hs2, hls, hl2⟩
  have hdrop := dropLengths_eq (s := s2) (19 - (ncode + 4)) (ncode + 4) ls (by omega) hls
  rw [List.take_of_length_le (by rw [List.length_drop]; omega)] at hdrop
  exact Meets.of_ok hdrop rfl ⟨hs2, hls.foldl_set _, by omega⟩

/-! ## the lengths of the other two codes -/

theorem store_meets {E : State → Prop} {len : Nat} (h15 : len ≤ MAXBITS) (count : Nat) : ∀ index lengths,
    index + count ≤ MAXCODES → Lengths lengths →
    Meets E (Machine.store len count index lengths) (store len count index lengths) s fun ls s' =>
      s' = s ∧ Lengths ls := by
  induction count with
  | zero => exact fun index lengths _ hl => Meets.pure ⟨rfl, hl⟩
  | succ count ih =>
    intro index lengths hi hl
    have h316 : MAXCODES = 316 := rfl
    have hadd : Machine.add index 1 = index + 1 := Machine.add_eq (by omega)
    refine Meets.step (bind_of_ok (update_ok hl (by omega) len)) (if_pos (by rw [hl.length]; omega)) ?_
    rw [hadd]
    exact ih (index + 1) _ (by omega) (hl.set h15)

theorem repetition_meets (hc : c.Small) {lengths : List Nat} {index : Nat} (hl : Lengths lengths)
    (hi : index ≤ MAXCODES) (hs : c.Sound s) (symbol : Nat) :
    Meets c.Written (Machine.repetition lengths index symbol) (repetition lengths index symbol) s
      fun r s' => c.Sound s' ∧ r.1 ≤ MAXBITS ∧ 0 < r.2 ∧ r.2 < 2 ^ 8 ∧ s'.left ≤ s.left := by
  have h316 : MAXCODES = 316 := rfl
  refine Meets.ite (fun _ => Meets.ite (fun _ => Meets.fail hs.toWritten) fun h0 => ?_) fun _ =>
    Meets.ite (fun _ => ?_) fun _ => ?_
  · rw [Machine.sub_eq (by omega)]
    refine Meets.fetch (by rw [hl.length]; omega) fun len hlen => ?_
    refine Meets.bind (bits_meets hc hs (by omega)) ?_
    rintro v s1 ⟨hs1, hv, hl1⟩
    rw [Machine.add_eq (by omega)]
    exact Meets.pure ⟨hs1, hl.le _ (List.mem_of_getElem? hlen), by omega, by omega, by omega⟩
  · refine Meets.bind (bits_meets hc hs (by omega)) ?_
    rintro v s1 ⟨hs1, hv, hl1⟩
    rw [Machine.add_eq (by omega)]
    exact Meets.pure ⟨hs1, Nat.zero_le _, by omega, by omega, by omega⟩
  · refine Meets.bind (bits_meets hc hs (by omega)) ?_
    rintro v s1 ⟨hs1, hv, hl1⟩
    rw [Machine.add_eq (by omega)]
    exact Meets.pure ⟨hs1, Nat.zero_le _, by omega, by omega, by omega⟩

/-- every round stores a length -/
theorem readCodes_meets (hc : c.Small) {l : Huffman} {limit nlen ndist : Nat} (hu : l.Usable limit)
    (hroom : nlen + ndist ≤ MAXCODES) (n : Nat) : ∀ index lengths s, nlen + ndist < index + n →
    index ≤ nlen + ndist → Lengths lengths → c.Sound s →
    Meets c.Written (Machine.readCodes l nlen ndist n index lengths)
      (readCodes l (nlen + ndist) n index lengths) s fun ls s' => c.Sound s' ∧ Lengths ls ∧ s'.left ≤ s.left := by
  induction n with
  | zero => exact fun index lengths s h h' => absurd h (Nat.not_lt_of_le h')
  | succ n ih =>
    intro index lengths s hn hi hl hs
    have h316 : MAXCODES = 316 := rfl
    have h15 : MAXBITS = 15 := rfl
    have htotal : Machine.add nlen ndist = nlen + ndist := Machine.add_eq (by omega)
    rw [Machine.readCodes, readCodes, htotal]
    refine Meets.ite (fun hlt => ?_) fun _ => Meets.pure ⟨hs, hl, Nat.le_refl _⟩
    refine Meets.bind (decode_meets hc hu hs) ?_
    rintro v s1 ⟨hs1, hv, hl1⟩
    -- what follows when `count` lengths are stored
    have hnext : ∀ count ls s2, 0 < count → index + count ≤ nlen + ndist → c.Sound s2 → Lengths ls →
        s2.left ≤ s1.left → Meets c.Written (Machine.readCodes l nlen ndist n (index + count) ls)
          (readCodes l (nlen + ndist) n (index + count) ls) s2 fun ls s' =>
            c.Sound s' ∧ Lengths ls ∧ s'.left ≤ s.left := by
      intro count ls s2 hpos hcount hs2 hls hl2
      refine (ih _ _ s2 (by omega) hcount hls hs2).mono ?_
      rintro ls' s3 ⟨hs3, hls', hl3⟩
      exact ⟨hs3, hls', by omega⟩
    refine Meets.ite (fun h16 => ?_) fun h16 => ?_
    · rw [Machine.add_eq (a := index) (by omega)]
      refine Meets.bind (store_meets (by omega) 1 index lengths (by omega) hl) ?_
      rintro ls _ ⟨rfl, hls⟩
      exact hnext 1 ls _ Nat.one_pos (by omega) hs1 hls (Nat.le_refl _)
    · refine Meets.bind (repetition_meets hc hl (by omega) hs1 v) ?_
      rintro ⟨len, count⟩ s2 ⟨hs2, hlen, hpos, hsmall, hl2⟩
      have hadd : Machine.add index count = index + count := Machine.add_eq (by
        have : count < 2 ^ 8 := hsmall
        omega)
      show Meets _ (if Machine.add index count > nlen + ndist then _ else _) _ _ _
      rw [hadd]
      refine Meets.ite (fun _ => Meets.fail hs2.toWritten) fun hle => ?_
      refine Meets.bind (store_meets hlen count index lengths (by omega) hl) ?_
      rintro ls _ ⟨rfl, hls⟩
      exact hnext count ls _ hpos (by omega) hs2 hls hl2

/-! ## the tables of a dynamic block -/

theorem rejected_eq {err : ErrorCode} {n : Nat} {h : Huffman} {ls : List Nat} (hcounts : h.counts = countsOf ls)
    (hsmall : ls.length < 2 ^ 64) : Machine.rejected err n h s = .ok (decide (Rejected err n h)) s := by
  have h0 : h.counts[0]? = some (h.counts.getD 0 0) := getElem?_getD (by rw [hcounts, countsOf_length]; decide)
  have h1 : h.counts[1]? = some (h.counts.getD 1 0) := getElem?_getD (by rw [hcounts, countsOf_length]; decide)
  have hle0 : h.counts.getD 0 0 ≤ ls.length := countsOf_le _ (hcounts ▸ List.mem_of_getElem? h0)
  have hle1 : h.counts.getD 1 0 ≤ ls.length := countsOf_le _ (hcounts ▸ List.mem_of_getElem? h1)
  unfold Machine.rejected
  by_cases hnone : err = .errNone
  · rw [if_pos hnone, decide_eq_false fun h => h.1 hnone]
    rfl
  by_cases hend : err = .errNotTerminated ∨ err = .errOutputExhausted
  · rw [if_neg hnone, if_pos hend, decide_eq_true (show Rejected err n h from ⟨hnone, by tauto⟩)]
    rfl
  · rw [if_neg hnone, if_neg hend]
    refine (bind_of_ok (fetch_ok.mpr ⟨h0, rfl⟩)).trans ((bind_of_ok (fetch_ok.mpr ⟨h1, rfl⟩)).trans ?_)
    rw [Machine.add_eq (by omega)]
    refine congrArg (fun b => Outcome.ok b s) (decide_eq_decide.mpr ?_)
    exact ⟨fun h => ⟨hnone, .inr (.inr h)⟩, fun h => by rcases h.2 with h | h | h <;> tauto⟩

theorem buildTables_meets (hc : c.Small) {l : Huffman} {lengths : List Nat} {nlen ndist : Nat}
    (hu : l.Usable FIXLCODES) (hsymbols : l.symbols.length = MAXLCODES) (hl : Lengths lengths)
    (hnlen : nlen ≤ MAXLCODES) (hndist : ndist ≤ MAXDCODES) (hs : c.Sound s) :
    Meets c.Written (Machine.buildTables l lengths nlen ndist) (buildTables l lengths nlen ndist) s
      fun r s' => s' = s ∧ r.1.Usable FIXLCODES ∧ r.2.Usable MAXDCODES := by
  have h286 : MAXLCODES = 286 := rfl
  have h30 : MAXDCODES = 30 := rfl
  have h288 : FIXLCODES = 288 := rfl
  have h316 : MAXCODES = 316 := rfl
  have hlen := hl.length
  obtain ⟨ls, hls, hlsle⟩ := hl.slice (show 0 + nlen ≤ MAXCODES by omega)
  obtain ⟨ds, hds, hdsle⟩ := hl.slice (show nlen + ndist ≤ MAXCODES by omega)
  have hstop : lengths[256]? = some (lengths.getD 256 0) := getElem?_getD (by omega)
  refine Meets.step (t := s) (bind_of_ok (fetch_ok.mpr ⟨hstop, rfl⟩)) rfl ?_
  refine Meets.ite (fun _ => Meets.fail hs.toWritten) fun _ => ?_
  refine Meets.bind (constructed_meets hu (by omega) hls hlsle (by omega) (by omega)) ?_
  rintro ⟨err, l'⟩ _ ⟨rfl, herr, hb, hul⟩
  refine Meets.decided (rejected_eq hb.counts (by have := slice_some hls; omega))
    (fun _ => Meets.fail hs.toWritten) fun _ => ?_
  have hroom : ndist ≤ (Huffman.new MAXDCODES).symbols.length := by rwa [new_symbols_length]
  refine Meets.bind (constructed_meets (new_usable (by omega) (by omega)) (by omega) hds hdsle hroom hndist) ?_
  rintro ⟨err', d⟩ _ ⟨rfl, herr', hb', hud⟩
  exact Meets.decided (rejected_eq hb'.counts (by have := slice_some hds; omega))
    (fun _ => Meets.fail hs.toWritten) fun _ => Meets.pure ⟨rfl, hul, hud⟩

theorem buildDynamic_meets (hc : c.Small) (hs : c.Sound s) :
    Meets c.Written Machine.buildDynamic buildDynamic s fun r s' =>
      c.Sound s' ∧ r.1.Usable FIXLCODES ∧ r.2.Usable MAXDCODES ∧ s'.left ≤ s.left := by
  have h286 : MAXLCODES = 286 := rfl
  have h30 : MAXDCODES = 30 := rfl
  have h316 : MAXCODES = 316 := rfl
  refine Meets.bind (bits_meets hc hs (by omega)) ?_
  rintro nlen s1 ⟨hs1, hnlen, hl1⟩
  rw [Machine.add_eq (a := nlen) (by omega)]
  refine Meets.bind (bits_meets hc hs1 (by omega)) ?_
  rintro ndist s2 ⟨hs2, hndist, hl2⟩
  rw [Machine.add_eq (a := ndist) (by omega)]
  refine Meets.ite (fun _ => Meets.fail hs2.toWritten) fun hfew => ?_
  refine Meets.bind (buildDynamicLengths_meets hc hs2) ?_
  rintro lengths s3 ⟨hs3, hl, hl3⟩
  have hlen := hl.length
  obtain ⟨cs, hcs, hcsle⟩ := hl.slice (show 0 + 19 ≤ MAXCODES by omega)
  have hnew : (Huffman.new MAXLCODES).Usable FIXLCODES := new_usable (by decide) (by decide)
  have hroom : 19 ≤ (Huffman.new MAXLCODES).symbols.length := by
    rw [new_symbols_length]
    omega
  refine Meets.bind (constructed_meets hnew (by omega) hcs hcsle hroom (by decide)) ?_
  rintro ⟨err, l⟩ _ ⟨rfl, herr, hb, hul⟩
  refine Meets.ite (fun _ => Meets.fail hs3.toWritten) fun _ => ?_
  refine Meets.bind (readCodes_meets hc hul (by omega) _ 0 lengths _ (by omega) (by omega) hl hs3) ?_
  rintro lengths' s4 ⟨hs4, hl', hl4⟩
  have hsymbols : l.symbols.length = MAXLCODES := hb.length.trans (new_symbols_length _)
  refine (buildTables_meets hc hul hsymbols hl' (by omega) (by omega) hs4).mono ?_
  rintro r _ ⟨rfl, hu, hu'⟩
  exact ⟨hs4, hu, hu', by omega⟩

/-! ## all blocks -/

/-- the tables of the fixed codes are within bounds, too -/
structure Setting.Usable (c : Setting) : Prop where
  lencode : c.lencode.Usable FIXLCODES
  distcode : c.distcode.Usable MAXDCODES

theorem block_meets (hc : c.Small) (hu : c.Usable) (hs : c.Sound s) (t : Nat) :
    Meets c.Written (Machine.block t) (block t) s fun _ s' => c.Sound s' ∧ s'.left ≤ s.left := by
  refine Meets.ite (fun _ => stored_meets hc hs) fun _ => Meets.ite (fun _ => ?_) fun _ =>
    Meets.ite (fun _ => ?_) fun _ => Meets.fail hs.toWritten
  · have hl : s.lencode.Usable FIXLCODES := hs.lencode ▸ hu.lencode
    have hd : s.distcode.Usable MAXDCODES := hs.distcode ▸ hu.distcode
    exact Meets.state (codes_meets hc hl hd hs)
  · refine Meets.bind (buildDynamic_meets hc hs) ?_
    rintro ⟨l, d⟩ s1 ⟨hs1, hl, hd, hl1⟩
    exact (codes_meets hc hl hd hs1).le (by omega)

/-- more rounds than bits are left -/
theorem blocks_meets (hc : c.Small) (hu : c.Usable) (n : Nat) : ∀ s, c.Sound s → s.left < n →
    Meets c.Written (Machine.blocks n) (blocks n) s fun _ s' => c.Sound s' := by
  induction n with
  | zero => exact fun s hs h => absurd h (Nat.not_lt_zero _)
  | succ n ih =>
    intro s hs hn
    refine Meets.bind (bits_meets hc hs (by omega)) ?_
    rintro last s1 ⟨hs1, _, hl1⟩
    refine Meets.bind (bits_meets hc hs1 (by omega)) ?_
    rintro t s2 ⟨hs2, _, hl2⟩
    refine Meets.bind (block_meets hc hu hs2 t) ?_
    rintro _ s3 ⟨hs3, hl3⟩
    exact Meets.ite (fun _ => ih s3 hs3 (by omega)) fun _ => Meets.pure hs3

/-! ## the tables of the fixed codes -/

theorem fill_exact {lengths : List Nat} {symbol stop : Nat} (value : Nat) (h : stop ≤ lengths.length) :
    Machine.fill symbol stop value lengths = some (fill lengths symbol stop value) := by
  refine foldlM_set value _ lengths fun i hi => ?_
  have := List.mem_range'_1.mp hi
  omega

theorem foldl_set_length (value : Nat) (is : List Nat) : ∀ xs : List Nat,
    (is.foldl (fun xs i => xs.set i value) xs).length = xs.length := by
  induction is with
  | nil => exact fun xs => rfl
  | cons i is ih => exact fun xs => (ih _).trans List.length_set

theorem fill_length (lengths : List Nat) (symbol stop value : Nat) :
    (fill lengths symbol stop value).length = lengths.length := foldl_set_length value _ lengths

theorem fixedLencodeLengths_length : fixedLencodeLengths.length = FIXLCODES := by
  unfold fixedLencodeLengths
  rw [fill_length, fill_length, fill_length, fill_length, List.length_replicate]

theorem fill_bind {o : Option (List Nat)} {lengths : List Nat} (h : o = some lengths) {symbol stop : Nat}
    (value : Nat) (hstop : stop ≤ lengths.length) :
    (o >>= Machine.fill symbol stop value) = some (fill lengths symbol stop value) := by
  rw [h]
  exact fill_exact value hstop

theorem fixedLencodeLengths_exact : Machine.fixedLencodeLengths = some fixedLencodeLengths := by
  have h0 : (List.replicate FIXLCODES 0).length = FIXLCODES := List.length_replicate
  unfold Machine.fixedLencodeLengths fixedLencodeLengths
  refine fill_bind (fill_bind (fill_bind (fill_exact 8 ?_) 9 ?_) 7 ?_) 8 ?_
  · rw [h0]
    decide
  · rw [fill_length, h0]
    decide
  · rw [fill_length, fill_length, h0]
    decide
  · rw [fill_length, fill_length, fill_length, h0]

theorem fixedDistcodeLengths_exact : Machine.fixedDistcodeLengths = some fixedDistcodeLengths := by
  unfold Machine.fixedDistcodeLengths fixedDistcodeLengths
  refine fill_bind fixedLencodeLengths_exact 5 ?_
  rw [fixedLencodeLengths_length]
  decide

theorem array_some (lengths : List Nat) : Machine.array (some lengths) s = .ok lengths s := rfl

theorem constructed_of_some {h : Huffman} {lengths : List Nat} {n start : Nat} {r : ErrorCode × Huffman}
    (h1 : Machine.construct h lengths n start = some r) : Machine.constructed h lengths n start s = .ok r s := by
  unfold Machine.constructed
  rw [h1]

theorem Machine.buildFixedFrom_eq {lengths lengths' : List Nat} {e e' : ErrorCode} {l d : Huffman}
    (hl : Machine.construct s.lencode lengths FIXLCODES 0 = some (e, l))
    (hd : Machine.construct s.distcode lengths' MAXDCODES 0 = some (e', d)) :
    Machine.buildFixedFrom (some lengths) (some lengths') s
      = .ok () { s with lencode := l, distcode := d } := by
  unfold Machine.buildFixedFrom
  rw [state_bind]
  refine (bind_of_ok (array_some lengths)).trans ?_
  refine (bind_of_ok (constructed_of_some hl)).trans ?_
  refine (bind_of_ok (array_some lengths')).trans ?_
  exact bind_of_ok (constructed_of_some hd)

/-- both decoders start with the same tables -/
theorem buildFixed_exact (source : Bytes) (destlen : Nat) : ∃ c : Setting, c.source = source ∧
    c.size = destlen ∧ c.Usable ∧ ∃ s, Machine.buildFixed (State.start source destlen) = .ok () s ∧
      buildFixed (State.start source destlen) = .ok () s ∧ c.Sound s := by
  obtain ⟨l, d, hl, hd, hbl, hbd⟩ := built_fixed
  have hnewl : (Huffman.new FIXLCODES).Usable FIXLCODES := new_usable (by decide) (by decide)
  have hnewd : (Huffman.new MAXDCODES).Usable MAXDCODES := new_usable (by decide) (by decide)
  have hlen : fixedDistcodeLengths.length = FIXLCODES := by
    unfold fixedDistcodeLengths
    rw [fill_length, fixedLencodeLengths_length]
  have hexactl := construct_exact (h := Huffman.new FIXLCODES) hnewl.counts
    (by rw [new_symbols_length]; decide) (by rw [fixedLencodeLengths_length]; decide) slice_fixedLencode
    fixedLengths_le
  have hexactd := construct_exact (h := Huffman.new MAXDCODES) hnewd.counts
    (by rw [new_symbols_length]; decide) (by rw [hlen]; decide) slice_fixedDistcode fixedDistances_le
  refine ⟨⟨source, destlen, l, d⟩, rfl, rfl, ⟨?_, ?_⟩,
    { State.start source destlen with lencode := l, distcode := d }, ?_, ?_, ?_⟩
  · exact hbl.usable (by rw [new_symbols_length, fixedLengths_length]) hnewl (Nat.le_of_eq fixedLengths_length)
  · exact hbd.usable (by rw [new_symbols_length, List.length_replicate]) hnewd (Nat.le_of_eq List.length_replicate)
  · unfold Machine.buildFixed
    rw [fixedLencodeLengths_exact, fixedDistcodeLengths_exact]
    exact Machine.buildFixedFrom_eq (hexactl.trans hl) (hexactd.trans hd)
  · exact buildFixedFrom_eq (s := State.start source destlen) hl hd
  · exact ⟨⟨⟨List.length_replicate, Nat.zero_le _⟩, rfl, Nat.zero_le _, rfl, rfl, Nat.le_refl _⟩,
      Nat.succ_pos 7, Nat.one_pos⟩

/-! ## the whole decoder -/

theorem Machine.blocksAfter_eq {build : Puff Unit} {s1 : State} (h : build s = .ok () s1) :
    Machine.blocksAfter build s = Machine.blocks (rounds s1) s1 := by
  unfold Machine.blocksAfter
  rw [bind_of_ok h, state_bind]

/-- the run on machine words is the exact one, from the state in which the blocks are read -/
theorem run_exact {source : Bytes} {destlen : Nat} (hsource : source.length < 2 ^ 64)
    (hdest : destlen < 2 ^ 64) : ∃ c : Setting, c.source = source ∧ c.size = destlen ∧
      Machine.run source destlen = blocksAfter buildFixed (State.start source destlen) ∧
      ((∃ s, Machine.run source destlen = .ok () s ∧ c.Written s) ∨
        ∃ e he s, Machine.run source destlen = .err e he s ∧ c.Written s) := by
  obtain ⟨c, rfl, rfl, hu, s0, hm0, hf0, hs0⟩ := buildFixed_exact source destlen
  have hblocks := blocks_meets ⟨hsource, hdest⟩ hu (rounds s0) s0 hs0 (left_lt_rounds hs0)
  have hrun : Machine.run c.source c.size = Machine.blocks (rounds s0) s0 := Machine.blocksAfter_eq hm0
  refine ⟨c, rfl, rfl, ?_, ?_⟩
  · rw [hrun, hblocks.same, blocksAfter_eq hf0]
  · rcases hblocks.cases with ⟨_, s, hm, hf, hs⟩ | ⟨e, he, s, hm, hf, hs⟩
    · exact .inl ⟨s, hrun.trans hm, hs.toWritten⟩
    · exact .inr ⟨e, he, s, hrun.trans hm, hs⟩

/-- **`puff` is total.**  Whatever the source, the decoder on machine words does what the exact one
does, with no index out of bounds: it ends with an error code, and no more than `destlen` bytes of
the output have been written. -/
theorem puff_total (source : Bytes) (destlen : Nat) (hsource : source.length < 2 ^ 64)
    (hdest : destlen < 2 ^ 64) :
    Machine.puff source destlen = puff source destlen ∧
    ∃ e s, (Machine.run source destlen = .ok () s ∧ e = .errNone ∨
        ∃ he, Machine.run source destlen = .err e he s) ∧
      s.outcnt ≤ destlen ∧ s.output.length = destlen ∧
      Machine.puff source destlen = some (e, s.output) := by
  obtain ⟨c, rfl, rfl, hexact, hends⟩ := run_exact hsource hdest
  have hpuff : Machine.puff c.source c.size = (Machine.run c.source c.size).returned :=
    if_neg (Nat.not_le_of_lt hdest)
  refine ⟨?_, ?_⟩
  · rw [hpuff, hexact]
    rfl
  · rcases hends with ⟨s, hm, hs⟩ | ⟨e, he, s, hm, hs⟩
    · rw [hpuff, hm]
      exact ⟨_, s, .inl ⟨rfl, rfl⟩, hs.outcnt, hs.output, rfl⟩
    · rw [hpuff, hm]
      exact ⟨e, s, .inr ⟨he, rfl⟩, hs.outcnt, hs.output, rfl⟩

theorem puff_total_run : Machine.puff [75, 4, 2, 0] 4 = some (.errNone, [97, 97, 97, 97]) ∧
    Machine.puff [75, 4, 2, 0] 4 = puff [75, 4, 2, 0] 4 ∧
    ∃ e s, (Machine.run [75, 4, 2, 0] 4 = .ok () s ∧ e = .errNone ∨
        ∃ he, Machine.run [75, 4, 2, 0] 4 = .err e he s) ∧
      s.outcnt ≤ 4 ∧ s.output.length = 4 ∧ Machine.puff [75, 4, 2, 0] 4 = some (e, s.output) := by
  have htotal := puff_total [75, 4, 2, 0] 4 (by decide) (by decide)
  obtain ⟨sets, rest, hblocks⟩ := copies_decompresses
  have hpuff := puff_blocks (blocks_of_proper hblocks)
  rw [show ([97, 97, 97, 97] : Bytes).length = 4 from rfl] at hpuff
  exact ⟨htotal.1.trans hpuff, htotal⟩

/-- the output cannot be allocated -/
theorem puff_reverts : Machine.puff [3, 0] (2 ^ 64) = none := if_pos (Nat.le_refl _)

end UNouns.Inflate
