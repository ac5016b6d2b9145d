-- The line of a dwell reads back as the dwell: each group of fields by the
-- list that reads it, and then the record.
import Devourer.Chanmig.TokenReads

namespace devourer.chanmig

open FlatJson

/-! ## Numbers in their own types -/

theorem ofInt_toNat8 (v : UInt8) : UInt8.ofInt (v.toNat : ℤ) = v := by
  have := v.toNat_lt
  unfold UInt8.ofInt
  rw [Int.emod_eq_of_lt (by omega) (by omega)]
  simp

theorem ofInt_toNat16 (v : UInt16) : UInt16.ofInt (v.toNat : ℤ) = v := by
  have := v.toNat_lt
  unfold UInt16.ofInt
  rw [Int.emod_eq_of_lt (by omega) (by omega)]
  simp

theorem ofInt_toNat32 (v : UInt32) : UInt32.ofInt (v.toNat : ℤ) = v := by
  have := v.toNat_lt
  unfold UInt32.ofInt
  rw [Int.emod_eq_of_lt (by omega) (by omega)]
  simp

theorem ofInt_toNat64 (v : UInt64) : UInt64.ofInt (v.toNat : ℤ) = v := by
  have := v.toNat_lt
  unfold UInt64.ofInt
  rw [Int.emod_eq_of_lt (by omega) (by omega)]
  simp

theorem toInt_promoted {n : ℕ} (h : n < 2 ^ 16) : (Int32.ofNat n).toInt = n :=
  Int32.toInt_ofNat_of_lt (by omega)

/-! ## Hexadecimal text -/

theorem isxdigit_hexDigit {k : ℕ} (h : k < 16) : isxdigit (hexDigit k) = true := by
  have hall : ∀ k < 16, isxdigit (hexDigit k) = true := by decide
  exact hall k h

theorem foldl_hex (n : ℕ) : (Nat.toDigits 16 n).foldl (fun n c => 16 * n + hexVal c) 0 = n := by
  induction n using Nat.strongRecOn with
  | ind n ih =>
    by_cases h : n < 16
    · rw [Nat.toDigits_of_lt_base h]
      have hval : hexVal n.digitChar = n := Ev.hexVal_hexDigit h
      simp [hval]
    · have hlast : hexVal (n % 16).digitChar = n % 16 :=
        Ev.hexVal_hexDigit (Nat.mod_lt _ (by omega))
      rw [Nat.toDigits_of_base_le (by omega) (by omega), List.foldl_append, ih _ (by omega)]
      simp only [List.foldl_cons, List.foldl_nil, hlast]
      omega

/-- `strtoul` reads what `%0*llx` printed behind the prefix. -/
theorem strtoul16_hex_padded {n : ℕ} (width : ℕ) (h : n < 2 ^ 64) :
    strtoul16 ('0' :: 'x' :: Ev.hex_padded n width) = n := by
  have hdigits : ∀ c ∈ Ev.hex_padded n width, isxdigit c = true := by
    intro c hc
    rcases List.mem_append.mp hc with hc | hc
    · rw [List.eq_of_mem_replicate hc]
      rfl
    · obtain ⟨k, hk, rfl⟩ := Ev.mem_toDigits_hex hc
      exact isxdigit_hexDigit hk
  have hval : (Ev.hex_padded n width).foldl (fun n c => 16 * n + hexVal c) 0 = n := by
    have hzeros : ∀ m, (List.replicate m '0').foldl (fun n c => 16 * n + hexVal c) 0 = 0 := by
      intro m
      induction m with
      | zero => rfl
      | succ m ih => exact ih
    unfold Ev.hex_padded
    rw [List.foldl_append, hzeros, foldl_hex]
  have hne : Ev.hex_padded n width ≠ [] := by
    unfold Ev.hex_padded
    simp [Nat.toDigits_ne_nil]
  obtain ⟨c, t, hct⟩ := List.exists_cons_of_ne_nil hne
  have hc : isxdigit c = true := hdigits c (by rw [hct]; exact List.mem_cons_self)
  have htake : (Ev.hex_padded n width).takeWhile isxdigit = Ev.hex_padded n width :=
    List.takeWhile_eq_self_iff.mpr hdigits
  unfold strtoul16
  rw [hct, List.dropWhile_cons_of_neg (by decide)]
  simp only [List.head?_cons, Option.some.injEq, Char.reduceEq, or_self, if_false, hc, and_true,
    true_or, if_true]
  rw [← hct, htake, hval, if_pos h]

/-! ## The groups of fields -/

section groups

variable {line : List Char} {key : String} {d e : SurveyDwell} {set : ℤ → SurveyDwell}

theorem take_int_ll {v : Int64} (h : ReadsAs line key.toList (.ll v)) (hv : |v.toInt| ≤ 2 ^ 53) :
    take_int line key e set = set v.toInt := by
  unfold take_int
  rw [h hv]

theorem take_int_ull {v : UInt64} (h : ReadsAs line key.toList (.ull v))
    (hv : (v.toNat : ℤ) ≤ 2 ^ 53) : take_int line key e set = set v.toNat := by
  unfold take_int
  rw [h hv]

/-- What is as wide as an `int` is exact in a double. -/
theorem take_int_int {v : Int32} (h : ReadsAs line key.toList (Ev.f_int key.toList v).arg) :
    take_int line key e set = set v.toInt := by
  have hlo := v.le_toInt
  have hhi := v.toInt_lt
  have hv : v.toInt64.toInt = v.toInt := by simp
  rw [take_int_ll h (by rw [hv, abs_le]; omega), hv]

theorem take_int_unsigned {v : UInt32}
    (h : ReadsAs line key.toList (Ev.f_unsigned key.toList v).arg) :
    take_int line key e set = set v.toNat := by
  have hlt := v.toNat_lt
  have hv : v.toUInt64.toNat = v.toNat := by simp
  rw [take_int_ull h (by rw [hv]; omega), hv]

theorem take_int_short {v : UInt16} (h : ReadsAs line key.toList (Ev.f_short key.toList v).arg) :
    take_int line key e set = set v.toNat := by
  rw [take_int_int h, toInt_promoted v.toNat_lt]

theorem take_int_byte {v : UInt8} (h : ReadsAs line key.toList (Ev.f_byte key.toList v).arg) :
    take_int line key e set = set v.toNat := by
  have hlt := v.toNat_lt
  rw [take_int_int h, toInt_promoted (by omega)]

theorem take_int_null (h : ReadsAs line key.toList .null) : take_int line key e set = e := by
  unfold take_int
  rw [h.2.1]

theorem take_hex_hexf {v : UInt32} {put : ℕ → SurveyDwell}
    (h : ReadsAs line key.toList (.hexf v.toUInt64 8)) :
    take_hex line key e put = put v.toNat := by
  have hlt := v.toNat_lt
  have hv : v.toUInt64.toNat = v.toNat := by simp
  unfold take_hex
  rw [h]
  dsimp only
  rw [hv, strtoul16_hex_padded _ (by omega)]

/-- The fields of 64 bits hold what a double holds. -/
structure Exact (d : SurveyDwell) : Prop where
  seq : (d.seq.toNat : ℤ) ≤ 2 ^ 53
  round : (d.round.toNat : ℤ) ≤ 2 ^ 53
  start : |d.t_start_ms.toInt| ≤ 2 ^ 53
  stop : |d.t_end_ms.toInt| ≤ 2 ^ 53
  retune : |d.retune_us.toInt| ≤ 2 ^ 53
  observe : |d.observe_ms.toInt| ≤ 2 ^ 53
  dvr : (d.dvr_air_us.toNat : ℤ) ≤ 2 ^ 53
  oth : (d.oth_air_us.toNat : ℤ) ≤ 2 ^ 53

theorem read_head_of (h : ∀ c ∈ head_fields d, ReadsAs line c.key c.arg) (hd : Exact d) :
    read_head line e = { e with seq := d.seq, round := d.round, plan_hash := d.plan_hash } := by
  simp only [head_fields, List.forall_mem_cons] at h
  obtain ⟨-, hseq, -, hround, hplan, -⟩ := h
  simp only [read_head, take_int_ull hseq hd.seq, take_int_ull hround hd.round, take_hex_hexf hplan,
    ofInt_toNat64, UInt32.ofNat_toNat]

theorem read_times_of (h : ∀ c ∈ time_fields d, ReadsAs line c.key c.arg) (hd : Exact d) :
    read_times line e =
      { e with
        t_start_ms := d.t_start_ms, t_end_ms := d.t_end_ms, retune_us := d.retune_us,
        settle_ms := d.settle_ms, observe_ms := d.observe_ms } := by
  simp only [time_fields, List.forall_mem_cons] at h
  obtain ⟨hstart, hstop, hretune, hsettle, hobserve, -⟩ := h
  simp only [read_times, take_int_ll hstart hd.start, take_int_ll hstop hd.stop,
    take_int_ll hretune hd.retune, take_int_int hsettle, take_int_ll hobserve hd.observe,
    Int64.ofInt_toInt, Int32.ofInt_toInt]

theorem read_fa_of (h : ∀ c ∈ fa_fields d, ReadsAs line c.key c.arg)
    (he : e = { e with valid_fa := false, fa_ofdm := 0, cca_ofdm := 0 }) :
    read_fa line e =
      { e with
        valid_fa := d.valid_fa, fa_ofdm := if d.valid_fa then d.fa_ofdm else 0,
        cca_ofdm := if d.valid_fa then d.cca_ofdm else 0 } := by
  unfold fa_fields at h
  cases hv : d.valid_fa with
  | true =>
    rw [hv, if_pos rfl] at h
    simp only [List.forall_mem_cons] at h
    obtain ⟨h1, h2, -⟩ := h
    simp only [read_fa, take_int_unsigned h1, take_int_unsigned h2, ofInt_toNat32, if_true]
  | false =>
    rw [hv, if_neg Bool.false_ne_true] at h
    simp only [List.forall_mem_cons] at h
    simp only [read_fa, take_int_null h.1, Bool.false_eq_true, if_false]
    exact he

theorem read_cck_of (h : ∀ c ∈ cck_fields d, ReadsAs line c.key c.arg)
    (he : e = { e with valid_cck := false, fa_cck := 0, cca_cck := 0 }) :
    read_cck line e =
      { e with
        valid_cck := d.valid_cck, fa_cck := if d.valid_cck then d.fa_cck else 0,
        cca_cck := if d.valid_cck then d.cca_cck else 0 } := by
  unfold cck_fields at h
  cases hv : d.valid_cck with
  | true =>
    rw [hv, if_pos rfl] at h
    simp only [List.forall_mem_cons] at h
    obtain ⟨h1, h2, -⟩ := h
    simp only [read_cck, take_int_unsigned h1, take_int_unsigned h2, ofInt_toNat32, if_true]
  | false =>
    rw [hv, if_neg Bool.false_ne_true] at h
    simp only [List.forall_mem_cons] at h
    simp only [read_cck, take_int_null h.1, Bool.false_eq_true, if_false]
    exact he

theorem read_igi_of (h : ∀ c ∈ igi_fields d, ReadsAs line c.key c.arg)
    (he : e = { e with valid_igi := false, igi := 0 }) :
    read_igi line e =
      { e with valid_igi := d.valid_igi, igi := if d.valid_igi then d.igi else 0 } := by
  unfold igi_fields at h
  cases hv : d.valid_igi with
  | true =>
    rw [hv, if_pos rfl] at h
    simp only [List.forall_mem_cons] at h
    simp only [read_igi, take_int_byte h.1, ofInt_toNat8, if_true]
  | false =>
    rw [hv, if_neg Bool.false_ne_true] at h
    simp only [List.forall_mem_cons] at h
    simp only [read_igi, take_int_null h.1, Bool.false_eq_true, if_false]
    exact he

/-- The twelve bytes of the histogram come back. -/
theorem read_hist_of (h : ReadsAs line "nhm".toList
    (.arr (d.nhm.val.map fun b => Int32.ofNat b.toNat))) :
    read_hist line e = { e with nhm := d.nhm } := by
  have hlen : (d.nhm.val.map fun b => Int32.ofNat b.toNat).length = 12 := by
    rw [List.length_map]
    exact d.nhm.property
  have htake : (d.nhm.val.map fun b => Int32.ofNat b.toNat).take (12 : ℤ).toNat =
      d.nhm.val.map fun b => Int32.ofNat b.toNat := List.take_of_length_le (by rw [hlen]; decide)
  have hback : (d.nhm.val.map fun b => Int32.ofNat b.toNat).map (fun x => UInt8.ofInt x.toInt) =
      d.nhm.val := by
    rw [List.map_map]
    conv_rhs => rw [← List.map_id d.nhm.val]
    apply List.map_congr_left
    intro b _
    have hlt := b.toNat_lt
    simp only [Function.comp_apply, id_eq]
    rw [toInt_promoted (by omega), ofInt_toNat8]
  have hslice : Octets.slice d.nhm.val 0 12 = d.nhm := by
    have := @Octets.slice_append _ [] d.nhm [] 0 rfl
    simpa using this
  unfold read_hist
  rw [h 12, htake]
  dsimp only
  rw [hback, hslice]

theorem read_nhm_of (h : ∀ c ∈ nhm_fields d, ReadsAs line c.key c.arg)
    (he : e = { e with valid_nhm := false, nhm := Octets.zero 12, nhm_dur := 0,
                       nhm_busy_pct := 0, nhm_peak := 0, nhm_env_pct := 0 }) :
    read_nhm line e =
      { e with
        valid_nhm := d.valid_nhm, nhm := if d.valid_nhm then d.nhm else Octets.zero 12,
        nhm_dur := if d.valid_nhm then d.nhm_dur else 0,
        nhm_busy_pct := if d.valid_nhm then d.nhm_busy_pct else 0,
        nhm_peak := if d.valid_nhm then d.nhm_peak else 0,
        nhm_env_pct := if d.valid_nhm then d.nhm_env_pct else 0 } := by
  unfold nhm_fields at h
  cases hv : d.valid_nhm with
  | true =>
    rw [hv, if_pos rfl] at h
    simp only [List.forall_mem_cons] at h
    obtain ⟨h1, h2, h3, h4, h5, -⟩ := h
    simp only [read_nhm, take_int_byte h1, take_int_byte h2, take_int_byte h3, take_int_short h4,
      read_hist_of h5, ofInt_toNat8, ofInt_toNat16, if_true]
  | false =>
    rw [hv, if_neg Bool.false_ne_true] at h
    simp only [List.forall_mem_cons] at h
    simp only [read_nhm, take_int_null h.1, Bool.false_eq_true, if_false]
    exact he

theorem read_clm_of (h : ∀ c ∈ clm_fields d, ReadsAs line c.key c.arg)
    (he : e = { e with valid_clm := false, clm_ratio_pct := 0, busy_source := 0 }) :
    read_clm line e =
      { e with
        valid_clm := d.valid_clm, clm_ratio_pct := if d.valid_clm then d.clm_ratio_pct else 0,
        busy_source := if d.valid_clm then d.busy_source else 0 } := by
  unfold clm_fields at h
  cases hv : d.valid_clm with
  | true =>
    rw [hv, if_pos rfl] at h
    simp only [List.forall_mem_cons] at h
    obtain ⟨h1, h2, -⟩ := h
    simp only [read_clm, take_int_byte h1, take_int_byte h2, ofInt_toNat8, if_true]
  | false =>
    rw [hv, if_neg Bool.false_ne_true] at h
    simp only [List.forall_mem_cons] at h
    simp only [read_clm, take_int_null h.1, Bool.false_eq_true, if_false]
    exact he

theorem read_frames_of (h : ∀ c ∈ frame_fields d, ReadsAs line c.key c.arg) :
    read_frames line e =
      { e with
        frames := d.frames, rssi_mean_raw := d.rssi_mean_raw, rssi_max_raw := d.rssi_max_raw,
        snr_mean_raw := d.snr_mean_raw, snr_min_raw := d.snr_min_raw } := by
  simp only [frame_fields, List.forall_mem_cons] at h
  obtain ⟨h1, h2, h3, h4, h5, -⟩ := h
  simp only [read_frames, take_int_unsigned h1, take_int_int h2, take_int_int h3, take_int_int h4,
    take_int_int h5, ofInt_toNat32, Int32.ofInt_toInt]

theorem read_evm_of (h : ∀ c ∈ evm_fields d, ReadsAs line c.key c.arg)
    (he : e = { e with evm_valid := false, evm_mean_raw := 0 }) :
    read_evm line e =
      { e with
        evm_valid := d.evm_valid, evm_mean_raw := if d.evm_valid then d.evm_mean_raw else 0 } := by
  unfold evm_fields at h
  cases hv : d.evm_valid with
  | true =>
    rw [hv, if_pos rfl] at h
    simp only [List.forall_mem_cons] at h
    simp only [read_evm, take_int_int h.1, Int32.ofInt_toInt, if_true]
  | false =>
    rw [hv, if_neg Bool.false_ne_true] at h
    simp only [List.forall_mem_cons] at h
    simp only [read_evm, take_int_null h.1, Bool.false_eq_true, if_false]
    exact he

theorem read_tail_of (h : ∀ c ∈ tail_fields d, ReadsAs line c.key c.arg) (hd : Exact d) :
    read_tail line e =
      { e with
        dvr_frames := d.dvr_frames, dvr_air_us := d.dvr_air_us, oth_air_us := d.oth_air_us,
        flags := d.flags, scout_id := d.scout_id, adapter_gen := d.adapter_gen } := by
  simp only [tail_fields, List.forall_mem_cons] at h
  obtain ⟨h1, h2, h3, h4, h5, h6, -⟩ := h
  simp only [read_tail, take_int_unsigned h1, take_int_ull h2 hd.dvr, take_int_ull h3 hd.oth,
    take_int_short h4, take_hex_hexf h5, take_int_byte h6, ofInt_toNat8, ofInt_toNat16,
    ofInt_toNat32, ofInt_toNat64, UInt32.ofNat_toNat]

end groups

end devourer.chanmig
