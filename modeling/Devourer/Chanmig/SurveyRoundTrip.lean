-- The line of a dwell is a whole event, and the record that is read from it
-- is the dwell that was written, down to what the line leaves out.
import Devourer.Chanmig.SurveyReads
import Mathlib.Algebra.Order.BigOperators.Group.List

namespace devourer.chanmig

open FlatJson

/-! ## The keys -/

/-- The keys of the record, of which three are there for a histogram only. -/
def survey_keys (hist : Bool) : List (List Char) :=
  ["v".toList, "seq".toList, "chan".toList, "round".toList, "plan".toList, "start_ms".toList,
   "end_ms".toList, "retune_us".toList, "settle_ms".toList, "observe_ms".toList,
   "cca_ofdm".toList, "fa_ofdm".toList, "cca_cck".toList, "fa_cck".toList, "igi".toList] ++
  (if hist then ["nhm_busy".toList, "nhm_peak".toList, "nhm_env".toList, "nhm_dur".toList,
    "nhm".toList] else ["nhm_busy".toList, "nhm_env".toList]) ++
  ["clm".toList, "busy_src".toList, "frames".toList, "rssi_mean".toList, "rssi_max".toList,
   "snr_mean".toList, "snr_min".toList, "evm_mean".toList, "dvr_frames".toList,
   "dvr_air_us".toList, "oth_air_us".toList, "flags".toList, "scout_id".toList, "agen".toList]

/-- The keys of a group that is null or not. -/
theorem keys_flag {p : Bool} {a b : List Ev.Call} (h : a.map Ev.Call.key = b.map Ev.Call.key) :
    (if p then a else b).map Ev.Call.key = a.map Ev.Call.key := by
  cases p with
  | false => exact h.symm
  | true => rfl

theorem keys_survey_fields (d : SurveyDwell) :
    (survey_fields d).map Ev.Call.key = survey_keys d.valid_nhm := by
  have hfa : (fa_fields d).map Ev.Call.key = ["cca_ofdm".toList, "fa_ofdm".toList] :=
    keys_flag rfl
  have hcck : (cck_fields d).map Ev.Call.key = ["cca_cck".toList, "fa_cck".toList] :=
    keys_flag rfl
  have higi : (igi_fields d).map Ev.Call.key = ["igi".toList] :=
    keys_flag rfl
  have hnhm : (nhm_fields d).map Ev.Call.key =
      if d.valid_nhm then ["nhm_busy".toList, "nhm_peak".toList, "nhm_env".toList,
        "nhm_dur".toList, "nhm".toList] else ["nhm_busy".toList, "nhm_env".toList] := by
    unfold nhm_fields
    split
    · rfl
    · rfl
  have hclm : (clm_fields d).map Ev.Call.key = ["clm".toList, "busy_src".toList] :=
    keys_flag rfl
  have hevm : (evm_fields d).map Ev.Call.key = ["evm_mean".toList] :=
    keys_flag rfl
  unfold survey_fields survey_keys
  simp only [List.map_append, hfa, hcck, higi, hnhm, hclm, hevm]
  rfl

/-- The keys are all different, short, and need no escape. -/
theorem survey_keys_plain (hist : Bool) :
    (['e', 'v'] :: survey_keys hist).Nodup ∧
      ∀ k ∈ survey_keys hist, Unquoted k ∧ k.length ≤ 10 := by
  cases hist with
  | false => exact ⟨by decide +kernel, by decide +kernel⟩
  | true => exact ⟨by decide +kernel, by decide +kernel⟩

/-! ## The size -/

theorem length_decimal_Int64 (v : Int64) : (decimal v.toInt).length ≤ 20 := by
  have hlo := v.le_toInt
  have hhi := v.toInt_lt
  exact length_decimal_le (by decide) (by omega)

theorem need_ll (v : Int64) : (Ev.Arg.ll v).need ≤ 160 := by
  have := length_decimal_Int64 v
  exact le_trans this (by decide)

theorem need_ull (v : UInt64) : (Ev.Arg.ull v).need ≤ 160 := by
  have hlt := v.toNat_lt
  have hlen : (decimal (v.toNat : ℤ)).length ≤ 21 := length_decimal_le (by decide) (by omega)
  exact le_trans hlen (by decide)

theorem need_hexf (v : UInt64) : (Ev.Arg.hexf v 8).need ≤ 160 := by
  have hlt := v.toNat_lt
  have hlen := (Nat.length_toDigits_le_iff (b := 16) (n := v.toNat) (k := 16) (by decide)
    (by decide)).mpr (by omega)
  have hpad : (Ev.hex_padded v.toNat 8).length ≤ 24 := by
    unfold Ev.hex_padded
    rw [List.length_append, List.length_replicate]
    omega
  have hneed : (Ev.Arg.hexf v 8).need = (Ev.hex_padded v.toNat 8).length + 4 := by
    simp [Ev.Arg.need, Ev.Arg.exact, Value.text]
  omega

theorem need_chan (d : ChannelDef) : (Ev.Arg.str d.format).need ≤ 160 := by
  have := length_format d
  unfold Ev.Arg.need
  dsimp only
  omega

theorem need_hist (o : Octets 12) :
    (Ev.Arg.arr (o.val.map fun b => Int32.ofNat b.toNat)).need ≤ 160 := by
  have helements : ∀ t ∈ ((o.val.map fun b => Int32.ofNat b.toNat).map
      fun x => some (Number.ofInt x.toInt)).map element, t.length ≤ 11 := by
    intro t ht
    obtain ⟨n, hn, rfl⟩ := List.mem_map.mp ht
    obtain ⟨x, -, rfl⟩ := List.mem_map.mp hn
    have hlo := x.le_toInt
    have hhi := x.toInt_lt
    exact length_decimal_le (by decide) (by omega)
  have hlen := length_commas_le helements
  simp only [List.length_map, o.property] at hlen
  unfold Ev.Arg.need Ev.Arg.exact Value.text
  dsimp only
  rw [List.length_cons, List.length_append, List.length_singleton]
  omega

theorem needs_survey_fields (d : SurveyDwell) : ∀ c ∈ survey_fields d, c.arg.need ≤ 160 := by
  have hnull : Ev.Arg.null.need ≤ 160 := by decide
  have hfa : ∀ c ∈ fa_fields d, c.arg.need ≤ 160 := by
    unfold fa_fields
    split
    · simp [Ev.f_unsigned, need_ull]
    · simp [hnull]
  have hcck : ∀ c ∈ cck_fields d, c.arg.need ≤ 160 := by
    unfold cck_fields
    split
    · simp [Ev.f_unsigned, need_ull]
    · simp [hnull]
  have higi : ∀ c ∈ igi_fields d, c.arg.need ≤ 160 := by
    unfold igi_fields
    split
    · simp [Ev.f_byte, Ev.f_int, need_ll]
    · simp [hnull]
  have hnhm : ∀ c ∈ nhm_fields d, c.arg.need ≤ 160 := by
    have hist := need_hist d.nhm
    unfold nhm_fields
    split
    · simp [Ev.f_byte, Ev.f_short, Ev.f_int, need_ll, hist]
    · simp [hnull]
  have hclm : ∀ c ∈ clm_fields d, c.arg.need ≤ 160 := by
    unfold clm_fields
    split
    · simp [Ev.f_byte, Ev.f_int, need_ll]
    · simp [hnull]
  have hevm : ∀ c ∈ evm_fields d, c.arg.need ≤ 160 := by
    unfold evm_fields
    split
    · simp [Ev.f_int, need_ll]
    · simp [hnull]
  unfold survey_fields
  simp only [List.forall_mem_append]
  refine ⟨?_, ?_, hfa, hcck, higi, hnhm, hclm, ?_, hevm, ?_⟩
  · simp [head_fields, Ev.f_int, need_ll, need_ull, need_hexf, need_chan]
  · simp [time_fields, Ev.f_int, need_ll]
  · simp [frame_fields, Ev.f_int, Ev.f_unsigned, need_ll, need_ull]
  · simp [tail_fields, Ev.f_short, Ev.f_byte, Ev.f_int, Ev.f_unsigned, need_ll, need_ull, need_hexf]

/-- The whole record fits in a line. -/
theorem survey_untruncated (d : SurveyDwell) :
    (Ev.run "survey.dwell".toList (survey_fields d))._truncated = false := by
  apply Ev.untruncated_of_short
  have hsize : ∀ n ∈ (survey_fields d).map Ev.Call.size, n ≤ 174 := by
    intro n hn
    obtain ⟨c, hc, rfl⟩ := List.mem_map.mp hn
    have hkey : c.key.length ≤ 10 := by
      apply ((survey_keys_plain d.valid_nhm).2 c.key _).2
      rw [← keys_survey_fields]
      exact List.mem_map_of_mem hc
    have hneed := needs_survey_fields d c hc
    unfold Ev.Call.size
    rw [Ev.length_key_text]
    omega
  have hcount : ((survey_fields d).map Ev.Call.size).length ≤ 34 := by
    have hlen : ((survey_fields d).map Ev.Call.key).length ≤ 34 := by
      rw [keys_survey_fields]
      cases d.valid_nhm
      · decide
      · decide
    rwa [List.length_map] at hlen ⊢
  have hsum := List.sum_le_card_nsmul _ _ hsize
  have hname : "survey.dwell".toList.length = 12 := rfl
  have hmax : Ev.kMaxLine = 65536 := rfl
  have hslack : Ev.kSlack = 32 := rfl
  rw [Nat.nsmul_eq_mul] at hsum
  rw [hname, hmax, hslack]
  omega

/-! ## The record -/

/-- What a line tells of a dwell: nothing of the flags of its channel, and zeros where a sensor was
not there. -/
def readable (d : SurveyDwell) : SurveyDwell :=
  { d with
    def_ := d.def_.rf
    fa_ofdm := if d.valid_fa then d.fa_ofdm else 0
    cca_ofdm := if d.valid_fa then d.cca_ofdm else 0
    fa_cck := if d.valid_cck then d.fa_cck else 0
    cca_cck := if d.valid_cck then d.cca_cck else 0
    igi := if d.valid_igi then d.igi else 0
    nhm := if d.valid_nhm then d.nhm else Octets.zero 12
    nhm_dur := if d.valid_nhm then d.nhm_dur else 0
    nhm_busy_pct := if d.valid_nhm then d.nhm_busy_pct else 0
    nhm_peak := if d.valid_nhm then d.nhm_peak else 0
    nhm_env_pct := if d.valid_nhm then d.nhm_env_pct else 0
    clm_ratio_pct := if d.valid_clm then d.clm_ratio_pct else 0
    busy_source := if d.valid_clm then d.busy_source else 0
    evm_mean_raw := if d.evm_valid then d.evm_mean_raw else 0 }

theorem read_fields_of {line : List Char} {d : SurveyDwell} {c : ChannelDef}
    (h : ∀ c ∈ survey_fields d, ReadsAs line c.key c.arg) (hd : Exact d) :
    read_fields line { def_ := c } = { readable d with def_ := c } := by
  unfold survey_fields at h
  simp only [List.forall_mem_append] at h
  obtain ⟨hhead, htimes, hfa, hcck, higi, hnhm, hclm, hframes, hevm, htail⟩ := h
  unfold read_fields
  rw [read_head_of hhead hd, read_times_of htimes hd, read_fa_of hfa rfl, read_cck_of hcck rfl,
    read_igi_of higi rfl, read_nhm_of hnhm rfl, read_clm_of hclm rfl, read_frames_of hframes,
    read_evm_of hevm rfl, read_tail_of htail hd]
  rfl

theorem line_isSome (name : List Char) (calls : List Ev.Call) :
    ∃ line, Ev.line name calls = some line := by
  unfold Ev.line Ev.emit
  rw [if_neg (by rw [Ev.dead_run]; decide)]
  exact ⟨_, rfl⟩

/-- The line of a valid dwell reads back as what it tells, if its channel does. -/
theorem dwell_reads_back {d : SurveyDwell} {line : List Char} (hd : Exact d)
    (hline : emit_survey_dwell d = some line) :
    survey_dwell_from_jsonl line =
      match parse_chan_token d.def_.format with
      | .error _ => none
      | .ok c => some { readable d with def_ := c } := by
  have hplain : Plain "survey.dwell".toList := by decide
  obtain ⟨hnodup, hkeys⟩ := survey_keys_plain d.valid_nhm
  rw [← keys_survey_fields] at hnodup hkeys
  have hwhole := survey_untruncated d
  obtain ⟨h, -⟩ := event_reads_back hplain
    (fun c hc => (hkeys _ (List.mem_map_of_mem hc)).1) hnodup hline hwhole
  have hhead : ∀ c ∈ head_fields d, ReadsAs line c.key c.arg :=
    fun c hc => h c (List.mem_append_left _ hc)
  simp only [head_fields, List.forall_mem_cons] at hhead
  obtain ⟨hv, -, hchan, -⟩ := hhead
  have hversion : jsonl_int line "v".toList = some 3 := hv (by decide)
  have hsanitize : d.def_.format.map sanitize = d.def_.format := by
    conv_rhs => rw [← List.map_id d.def_.format]
    apply List.map_congr_left
    intro c hc
    have hprintable : 0x20 ≤ c.toNat := plain_format d.def_ c hc
    unfold sanitize
    rw [if_neg (by omega)]
    rfl
  have htoken : jsonl_str line "chan".toList = some d.def_.format := by
    have hread : jsonl_str line "chan".toList = some (d.def_.format.map sanitize) := hchan
    rwa [hsanitize] at hread
  have hrange : ¬((3 : ℤ) < 1 ∨ (3 : ℤ) > kSurveySchemaV.toInt) := by decide
  unfold survey_dwell_from_jsonl
  rw [jsonl_ev_is_line hplain hline hwhole, hversion, htoken]
  dsimp only
  rw [if_neg (by decide), if_neg hrange]
  cases parse_chan_token d.def_.format with
  | error e => rfl
  | ok c =>
    dsimp only
    rw [read_fields_of h hd]

/-- Each field of a whole event reads back as it was written. The line of a valid dwell reads back
as the dwell if the offset of its channel is set, and only then. -/
theorem events_read_back (name line : List Char) (calls : List Ev.Call) (d : SurveyDwell) :
    (Plain name → (∀ c ∈ calls, Unquoted c.key) → (['e', 'v'] :: calls.map Ev.Call.key).Nodup →
      Ev.line name calls = some line → (Ev.run name calls)._truncated = false →
      (∀ c ∈ calls, ReadsAs line c.key c.arg) ∧
        ∀ key, key ≠ ['e', 'v'] → key ∉ calls.map Ev.Call.key → Misses line key) ∧
      (validate d.def_ = true → Exact d →
        ∃ line, emit_survey_dwell d = some line ∧
          (survey_dwell_from_jsonl line = some (readable d) ↔ OffsetSet d.def_)) := by
  constructor
  · intro hplain hkeys hnodup hline hwhole
    exact event_reads_back hplain hkeys hnodup hline hwhole
  · intro hvalid hd
    obtain ⟨line, hline⟩ := line_isSome "survey.dwell".toList (survey_fields d)
    refine ⟨line, hline, ?_⟩
    rw [dwell_reads_back hd hline, ← format_reads_back hvalid]
    cases parse_chan_token d.def_.format with
    | error e => simp
    | ok c =>
      have hdef : (readable d).def_ = d.def_.rf := rfl
      simp only [Option.some.injEq, Except.ok.injEq]
      constructor
      · intro h
        rw [← hdef, ← h]
      · rintro rfl
        rfl

/-- Channel 36 at 40 MHz, up, in a quiet dwell. -/
def set_dwell : SurveyDwell :=
  { seq := 7, def_ := { band := 5, primary := 36, width := .CHANNEL_WIDTH_40, offset := 1 },
    t_start_ms := -40, valid_igi := true, igi := 32 }

theorem a_set_offset_reads_back :
    ∃ line, emit_survey_dwell set_dwell = some line ∧
      survey_dwell_from_jsonl line = some (readable set_dwell) := by
  have hd : Exact set_dwell := by constructor <;> decide
  obtain ⟨line, hline, hread⟩ := (events_read_back [] [] [] set_dwell).2 (by decide) hd
  exact ⟨line, hline, hread.mpr (fun _ => by decide)⟩

/-- Channel 36 at 40 MHz, with its offset left for the grid. -/
def unset_dwell : SurveyDwell :=
  { def_ := { band := 5, primary := 36, width := .CHANNEL_WIDTH_40 } }

/-- A valid channel with no offset is written with the wrong side, and the line is refused. -/
theorem an_unset_offset_is_lost :
    ¬∀ d : SurveyDwell, validate d.def_ = true → Exact d →
      ∃ line, emit_survey_dwell d = some line ∧
        survey_dwell_from_jsonl line = some (readable d) := by
  intro h
  have hd : Exact unset_dwell := by constructor <;> decide
  obtain ⟨line, hline, hread⟩ := h unset_dwell (by decide) hd
  have hparse : parse_chan_token unset_dwell.def_.format = .error (def_error_name .BadOffset) := by
    rfl
  rw [dwell_reads_back hd hline, hparse] at hread
  cases hread

end devourer.chanmig
