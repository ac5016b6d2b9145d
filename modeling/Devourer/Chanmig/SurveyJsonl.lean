-- The record of one scout dwell and its line: written field by field by one
-- list, and read back by another.
import Devourer.Chanmig.JsonlReads

namespace devourer.chanmig

open ChannelWidth_t

def kSurveySchemaV : Int32 := 3

structure SurveyDwell where
  seq : UInt64 := 0
  /-- `def` of the source. -/
  def_ : ChannelDef := {}
  round : UInt64 := 0
  plan_hash : UInt32 := 0
  t_start_ms : Int64 := 0
  t_end_ms : Int64 := 0
  retune_us : Int64 := 0
  settle_ms : Int32 := 0
  observe_ms : Int64 := 0
  valid_fa : Bool := false
  fa_ofdm : UInt32 := 0
  fa_cck : UInt32 := 0
  cca_ofdm : UInt32 := 0
  cca_cck : UInt32 := 0
  valid_cck : Bool := false
  valid_igi : Bool := false
  igi : UInt8 := 0
  valid_nhm : Bool := false
  nhm : Octets 12 := Octets.zero 12
  nhm_dur : UInt16 := 0
  nhm_busy_pct : UInt8 := 0
  nhm_peak : UInt8 := 0
  nhm_env_pct : UInt8 := 0
  valid_clm : Bool := false
  clm_ratio_pct : UInt8 := 0
  busy_source : UInt8 := 0
  frames : UInt32 := 0
  rssi_mean_raw : Int32 := 0
  rssi_max_raw : Int32 := 0
  snr_mean_raw : Int32 := 0
  snr_min_raw : Int32 := 0
  evm_mean_raw : Int32 := 0
  evm_valid : Bool := false
  dvr_frames : UInt32 := 0
  dvr_air_us : UInt64 := 0
  oth_air_us : UInt64 := 0
  flags : UInt16 := 0
  scout_id : UInt32 := 0
  adapter_gen : UInt8 := 0
  deriving DecidableEq

/-! ## The channel token -/

namespace ChannelDef

def width_name : ChannelWidth_t → List Char
  | CHANNEL_WIDTH_20 => "20".toList
  | CHANNEL_WIDTH_40 => "40".toList
  | CHANNEL_WIDTH_80 => "80".toList
  | CHANNEL_WIDTH_160 => "160".toList
  | CHANNEL_WIDTH_80_80 => "80+80".toList
  | CHANNEL_WIDTH_5 => "5".toList
  | CHANNEL_WIDTH_10 => "10".toList
  | CHANNEL_WIDTH_MAX => "?".toList
  | other _ _ => "?".toList

/-- The canonical text, which fits in the 20 bytes that the callers have. -/
def format (d : ChannelDef) : List Char :=
  let suf := if d.width = CHANNEL_WIDTH_40 then (if d.offset = 1 then "u".toList else "l".toList)
    else []
  FlatJson.decimal d.band.toNat ++ (':' :: (FlatJson.decimal d.primary.toNat ++
    ('/' :: (width_name d.width ++ suf))))

end ChannelDef

/-! ## The line -/

section emit

open Ev

def head_fields (d : SurveyDwell) : List Call :=
  [f_int "v".toList kSurveySchemaV, ⟨"seq".toList, .ull d.seq⟩,
   ⟨"chan".toList, .str d.def_.format⟩, ⟨"round".toList, .ull d.round⟩,
   ⟨"plan".toList, .hexf d.plan_hash.toUInt64 8⟩]

def time_fields (d : SurveyDwell) : List Call :=
  [⟨"start_ms".toList, .ll d.t_start_ms⟩, ⟨"end_ms".toList, .ll d.t_end_ms⟩,
   ⟨"retune_us".toList, .ll d.retune_us⟩, f_int "settle_ms".toList d.settle_ms,
   ⟨"observe_ms".toList, .ll d.observe_ms⟩]

def fa_fields (d : SurveyDwell) : List Call :=
  if d.valid_fa then
    [f_unsigned "cca_ofdm".toList d.cca_ofdm, f_unsigned "fa_ofdm".toList d.fa_ofdm]
  else [⟨"cca_ofdm".toList, .null⟩, ⟨"fa_ofdm".toList, .null⟩]

def cck_fields (d : SurveyDwell) : List Call :=
  if d.valid_cck then
    [f_unsigned "cca_cck".toList d.cca_cck, f_unsigned "fa_cck".toList d.fa_cck]
  else [⟨"cca_cck".toList, .null⟩, ⟨"fa_cck".toList, .null⟩]

def igi_fields (d : SurveyDwell) : List Call :=
  if d.valid_igi then [f_byte "igi".toList d.igi] else [⟨"igi".toList, .null⟩]

def nhm_fields (d : SurveyDwell) : List Call :=
  if d.valid_nhm then
    [f_byte "nhm_busy".toList d.nhm_busy_pct, f_byte "nhm_peak".toList d.nhm_peak,
     f_byte "nhm_env".toList d.nhm_env_pct, f_short "nhm_dur".toList d.nhm_dur,
     ⟨"nhm".toList, .arr (d.nhm.val.map fun b => Int32.ofNat b.toNat)⟩]
  else [⟨"nhm_busy".toList, .null⟩, ⟨"nhm_env".toList, .null⟩]

def clm_fields (d : SurveyDwell) : List Call :=
  if d.valid_clm then
    [f_byte "clm".toList d.clm_ratio_pct, f_byte "busy_src".toList d.busy_source]
  else [⟨"clm".toList, .null⟩, ⟨"busy_src".toList, .null⟩]

def frame_fields (d : SurveyDwell) : List Call :=
  [f_unsigned "frames".toList d.frames, f_int "rssi_mean".toList d.rssi_mean_raw,
   f_int "rssi_max".toList d.rssi_max_raw, f_int "snr_mean".toList d.snr_mean_raw,
   f_int "snr_min".toList d.snr_min_raw]

def evm_fields (d : SurveyDwell) : List Call :=
  if d.evm_valid then [f_int "evm_mean".toList d.evm_mean_raw] else [⟨"evm_mean".toList, .null⟩]

def tail_fields (d : SurveyDwell) : List Call :=
  [f_unsigned "dvr_frames".toList d.dvr_frames, ⟨"dvr_air_us".toList, .ull d.dvr_air_us⟩,
   ⟨"oth_air_us".toList, .ull d.oth_air_us⟩, f_short "flags".toList d.flags,
   ⟨"scout_id".toList, .hexf d.scout_id.toUInt64 8⟩, f_byte "agen".toList d.adapter_gen]

/-- The calls of `emit_survey_dwell`, in order. -/
def survey_fields (d : SurveyDwell) : List Call :=
  head_fields d ++ (time_fields d ++ (fa_fields d ++ (cck_fields d ++ (igi_fields d ++
    (nhm_fields d ++ (clm_fields d ++ (frame_fields d ++ (evm_fields d ++ tail_fields d))))))))

def emit_survey_dwell (d : SurveyDwell) : Option (List Char) :=
  Ev.line "survey.dwell".toList (survey_fields d)

end emit

/-! ## The record read back -/

def isxdigit (c : Char) : Bool :=
  isdigit c || ('a' ≤ c && c ≤ 'f') || ('A' ≤ c && c ≤ 'F')

/-- `strtoul` of base 16, on 64 bits. -/
def strtoul16 (t : List Char) : ℕ :=
  let s := t.dropWhile isspace
  let neg := s.head? = some '-'
  let s := if neg ∨ s.head? = some '+' then s.tail else s
  let s :=
    match s with
    | '0' :: x :: h :: r => if (x = 'x' ∨ x = 'X') ∧ isxdigit h then h :: r else '0' :: x :: h :: r
    | s => s
  let n := (s.takeWhile isxdigit).foldl (fun n c => 16 * n + FlatJson.hexVal c) 0
  let n := if n < 2 ^ 64 then n else 2 ^ 64 - 1
  if neg then (2 ^ 64 - n) % 2 ^ 64 else n

section read

variable (line : List Char)

/-- `if (jsonl_int(line, key, &x))` with one assignment behind it. -/
def take_int (key : String) (d : SurveyDwell) (set : ℤ → SurveyDwell) : SurveyDwell :=
  match jsonl_int line key.toList with
  | some x => set x
  | none => d

def take_hex (key : String) (d : SurveyDwell) (set : ℕ → SurveyDwell) : SurveyDwell :=
  match jsonl_str line key.toList with
  | some hex => set (strtoul16 hex)
  | none => d

def read_head (d : SurveyDwell) : SurveyDwell :=
  let d := take_int line "seq" d fun x => { d with seq := .ofInt x }
  let d := take_int line "round" d fun x => { d with round := .ofInt x }
  take_hex line "plan" d fun n => { d with plan_hash := .ofNat n }

def read_times (d : SurveyDwell) : SurveyDwell :=
  let d := take_int line "start_ms" d fun x => { d with t_start_ms := .ofInt x }
  let d := take_int line "end_ms" d fun x => { d with t_end_ms := .ofInt x }
  let d := take_int line "retune_us" d fun x => { d with retune_us := .ofInt x }
  let d := take_int line "settle_ms" d fun x => { d with settle_ms := .ofInt x }
  take_int line "observe_ms" d fun x => { d with observe_ms := .ofInt x }

def read_fa (d : SurveyDwell) : SurveyDwell :=
  take_int line "cca_ofdm" d fun x =>
    let d := { d with valid_fa := true, cca_ofdm := .ofInt x }
    take_int line "fa_ofdm" d fun x => { d with fa_ofdm := .ofInt x }

def read_cck (d : SurveyDwell) : SurveyDwell :=
  take_int line "cca_cck" d fun x =>
    let d := { d with valid_cck := true, cca_cck := .ofInt x }
    take_int line "fa_cck" d fun x => { d with fa_cck := .ofInt x }

def read_igi (d : SurveyDwell) : SurveyDwell :=
  take_int line "igi" d fun x => { d with valid_igi := true, igi := .ofInt x }

/-- The elements found stand over the zeros of the record. -/
def read_hist (d : SurveyDwell) : SurveyDwell :=
  match jsonl_arr line "nhm".toList 12 with
  | some hist => { d with nhm := Octets.slice (hist.map fun x => UInt8.ofInt x.toInt) 0 12 }
  | none => d

def read_nhm (d : SurveyDwell) : SurveyDwell :=
  take_int line "nhm_busy" d fun x =>
    let d := { d with valid_nhm := true, nhm_busy_pct := .ofInt x }
    let d := take_int line "nhm_peak" d fun x => { d with nhm_peak := .ofInt x }
    let d := take_int line "nhm_env" d fun x => { d with nhm_env_pct := .ofInt x }
    let d := take_int line "nhm_dur" d fun x => { d with nhm_dur := .ofInt x }
    read_hist line d

def read_clm (d : SurveyDwell) : SurveyDwell :=
  take_int line "clm" d fun x =>
    let d := { d with valid_clm := true, clm_ratio_pct := .ofInt x }
    take_int line "busy_src" d fun x => { d with busy_source := .ofInt x }

def read_frames (d : SurveyDwell) : SurveyDwell :=
  let d := take_int line "frames" d fun x => { d with frames := .ofInt x }
  let d := take_int line "rssi_mean" d fun x => { d with rssi_mean_raw := .ofInt x }
  let d := take_int line "rssi_max" d fun x => { d with rssi_max_raw := .ofInt x }
  let d := take_int line "snr_mean" d fun x => { d with snr_mean_raw := .ofInt x }
  take_int line "snr_min" d fun x => { d with snr_min_raw := .ofInt x }

def read_evm (d : SurveyDwell) : SurveyDwell :=
  take_int line "evm_mean" d fun x => { d with evm_valid := true, evm_mean_raw := .ofInt x }

def read_tail (d : SurveyDwell) : SurveyDwell :=
  let d := take_int line "dvr_frames" d fun x => { d with dvr_frames := .ofInt x }
  let d := take_int line "dvr_air_us" d fun x => { d with dvr_air_us := .ofInt x }
  let d := take_int line "oth_air_us" d fun x => { d with oth_air_us := .ofInt x }
  let d := take_int line "flags" d fun x => { d with flags := .ofInt x }
  let d := take_hex line "scout_id" d fun n => { d with scout_id := .ofNat n }
  take_int line "agen" d fun x => { d with adapter_gen := .ofInt x }

/-- The fields behind the channel. -/
def read_fields (d : SurveyDwell) : SurveyDwell :=
  read_tail line (read_evm line (read_frames line (read_clm line (read_nhm line (read_igi line
    (read_cck line (read_fa line (read_times line (read_head line d)))))))))

/-- `none` is another event, a schema that this build does not know, or a channel that does not
parse. -/
def survey_dwell_from_jsonl : Option SurveyDwell :=
  if !jsonl_ev_is line "survey.dwell".toList then none
  else
    match jsonl_int line "v".toList with
    | none => none
    | some v =>
      if v < 1 ∨ v > kSurveySchemaV.toInt then none
      else
        match jsonl_str line "chan".toList with
        | none => none
        | some chan =>
          match parse_chan_token chan with
          | .error _ => none
          | .ok c => some (read_fields line { def_ := c })

end read

end devourer.chanmig
