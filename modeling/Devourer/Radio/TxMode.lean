-- What a frame is to be sent with: the mode, the text that names it, the
-- radiotap header that carries it, and what a text is never read as.
import Devourer.Chanmig.ChannelDef
import Devourer.Lib.Octets

namespace devourer

open chanmig (ChannelWidth_t)

inductive TxMode.Mode
  | Legacy
  | HT
  | VHT
  | HE
  deriving DecidableEq

/-- `he_gi_ltf` is the code of the chip, and `he_er` is 1 for the 242-tone and 2 for the 106-tone
extended range. -/
structure TxMode where
  mode : TxMode.Mode := .Legacy
  legacy_rate_500kbps : UInt8 := 12
  ht_mcs : UInt8 := 0
  vht_mcs : UInt8 := 0
  vht_nss : UInt8 := 1
  he_mcs : UInt8 := 0
  he_nss : UInt8 := 1
  he_gi_ltf : UInt8 := 3
  he_er : UInt8 := 0
  he_dcm : Bool := false
  bw_mhz : UInt8 := 20
  sgi : Bool := false
  ldpc : Bool := false
  stbc : Bool := false
  no_agg : Bool := false
  deriving DecidableEq

def MGN_1M : UInt8 := 0x02
def MGN_2M : UInt8 := 0x04
def MGN_5_5M : UInt8 := 0x0B
def MGN_6M : UInt8 := 0x0C
def MGN_11M : UInt8 := 0x16
def MGN_MCS0 : UInt8 := 0x80
def MGN_VHT1SS_MCS0 : UInt8 := 0xA0

/-- What the descriptor takes of a mode. `fixed_rate` is a rate by the driver's own numbers. -/
structure TxParams where
  fixed_rate : UInt8
  vht : Bool
  sgi : UInt8
  ldpc : UInt8
  stbc : UInt8
  bwidth : ChannelWidth_t
  deriving DecidableEq

def vht_rate (nss mcs : UInt8) : UInt8 :=
  let nss := if nss < 1 then 1 else if nss > 4 then 4 else nss
  let mcs := if mcs > 9 then 9 else mcs
  MGN_VHT1SS_MCS0 + (nss - 1) * 10 + mcs

def tx_mode_to_params (m : TxMode) : TxParams where
  sgi := m.sgi.toUInt8
  ldpc := m.ldpc.toUInt8
  stbc := m.stbc.toUInt8
  bwidth :=
    if m.bw_mhz = 40 then .CHANNEL_WIDTH_40
    else if m.bw_mhz = 80 then .CHANNEL_WIDTH_80
    -- the descriptor has no 160 MHz
    else if m.bw_mhz = 160 then .CHANNEL_WIDTH_80
    else .CHANNEL_WIDTH_20
  fixed_rate :=
    match m.mode with
    | .HT => MGN_MCS0 + if m.ht_mcs ≤ 31 then m.ht_mcs else 0
    | .VHT => vht_rate m.vht_nss m.vht_mcs
    | .HE => vht_rate m.he_nss m.he_mcs
    | .Legacy => m.legacy_rate_500kbps
  vht :=
    match m.mode with
    | .VHT | .HE => true
    | .HT | .Legacy => false

/-! ## The radiotap header -/

def kPresentRate : UInt32 := 0x000004
def kPresentTxFlags : UInt32 := 0x008000
def kPresentMcs : UInt32 := 0x080000
def kPresentVht : UInt32 := 0x200000
def kPresentHe : UInt32 := 0x800000

def kTxFlagsNoAck : UInt16 := 0x0008
def kRadiotapTxFlagNoAgg : UInt16 := 0x0100

def emit_u16_le (x : UInt16) : Bytes := [x.toUInt8, (x >>> 8).toUInt8]

def emit_u32_le (x : UInt32) : Bytes :=
  [x.toUInt8, (x >>> 8).toUInt8, (x >>> 16).toUInt8, (x >>> 24).toUInt8]

/-- The version and the pad, the length, the present word and the fields. -/
def radiotap_header (len : UInt16) (present : UInt32) (fields : Bytes) : Bytes :=
  [0, 0] ++ emit_u16_le len ++ emit_u32_le present ++ fields

def build_legacy (cfg : TxMode) (tx_flags : UInt16) : Bytes :=
  radiotap_header 13 (kPresentRate ||| kPresentTxFlags)
    ([cfg.legacy_rate_500kbps, 0] ++ emit_u16_le tx_flags ++ [0])

def build_ht (cfg : TxMode) (tx_flags : UInt16) : Bytes :=
  -- the MCS, the guard interval, the coding, the width and the STBC
  let known : UInt8 := 0x02 ||| 0x04 ||| 0x10 ||| 0x01 ||| 0x20
  let flags : UInt8 := (if cfg.bw_mhz ≥ 40 then 0x01 else 0) ||| (if cfg.sgi then 0x04 else 0) |||
    (if cfg.ldpc then 0x10 else 0) ||| (if cfg.stbc then 0x20 else 0)
  radiotap_header 13 (kPresentTxFlags ||| kPresentMcs)
    (emit_u16_le tx_flags ++ [known, flags, if cfg.ht_mcs ≤ 31 then cfg.ht_mcs else 0])

def build_vht (cfg : TxMode) (tx_flags : UInt16) : Bytes :=
  let bw_code : UInt8 :=
    if cfg.bw_mhz = 40 then 1 else if cfg.bw_mhz = 80 then 4 else if cfg.bw_mhz = 160 then 11 else 0
  -- the STBC, the guard interval and the width
  let known : UInt16 := 0x01 ||| 0x04 ||| 0x40
  let vht_flags : UInt8 := (if cfg.stbc then 0x01 else 0) ||| (if cfg.sgi then 0x04 else 0)
  let mcs_nss_user0 : UInt8 := (cfg.vht_mcs &&& 0x0F) <<< 4 ||| cfg.vht_nss &&& 0x0F
  let coding_user0 : UInt8 := if cfg.ldpc then 0x01 else 0x00
  radiotap_header 22 (kPresentTxFlags ||| kPresentVht)
    (emit_u16_le tx_flags ++ emit_u16_le known ++
      [vht_flags, bw_code, mcs_nss_user0, 0, 0, 0, coding_user0, 0] ++ emit_u16_le 0)

/-- The guard interval and the size of the training field of a code of the chip. -/
def he_giltf_to_radiotap (gi_ltf : UInt8) : UInt8 × UInt8 :=
  if gi_ltf = 0 then (2, 3)
  else if gi_ltf = 1 then (0, 3)
  else if gi_ltf = 2 then (1, 2)
  else if gi_ltf = 4 then (1, 1)
  else if gi_ltf = 5 then (0, 1)
  else (0, 2)

def IEEE80211_RADIOTAP_HE_DATA5_RU_106 : UInt8 := 6
def IEEE80211_RADIOTAP_HE_DATA5_RU_242 : UInt8 := 7

def he_bw_code (he_er bw_mhz : UInt8) : UInt8 :=
  if he_er = 1 then IEEE80211_RADIOTAP_HE_DATA5_RU_242
  else if he_er = 2 then IEEE80211_RADIOTAP_HE_DATA5_RU_106
  else if bw_mhz = 40 then 1
  else if bw_mhz = 80 then 2
  else if bw_mhz = 160 then 3
  else 0

/-- What is known, and whether the format is the extended range. -/
def he_data1 (he_er : UInt8) (he_dcm : Bool) : UInt16 :=
  0x0020 ||| 0x0080 ||| 0x0200 ||| 0x4000 ||| (if he_er ≠ 0 then 0x0001 else 0) |||
    if he_dcm then 0x0040 else 0

def he_data3 (he_mcs : UInt8) (ldpc stbc he_dcm : Bool) : UInt16 :=
  (he_mcs &&& 0x0f).toUInt16 <<< 8 &&& 0x0f00 ||| (if ldpc then 0x2000 else 0) |||
    (if stbc then 0x8000 else 0) ||| if he_dcm then 0x1000 else 0

def he_data5 (bw_code gi_ltf : UInt8) : UInt16 :=
  let (gi, ltf) := he_giltf_to_radiotap gi_ltf
  (bw_code &&& 0x0f).toUInt16 ||| (gi &&& 0x3).toUInt16 <<< 4 ||| (ltf &&& 0x3).toUInt16 <<< 6

def build_he (cfg : TxMode) (tx_flags : UInt16) : Bytes :=
  let data2 : UInt16 := 0x0002 ||| 0x0004
  let data6 : UInt16 := (cfg.he_nss &&& 0x0f).toUInt16
  radiotap_header 22 (kPresentTxFlags ||| kPresentHe)
    (emit_u16_le tx_flags ++ emit_u16_le (he_data1 cfg.he_er cfg.he_dcm) ++ emit_u16_le data2 ++
      emit_u16_le (he_data3 cfg.he_mcs cfg.ldpc cfg.stbc cfg.he_dcm) ++ emit_u16_le 0 ++
      emit_u16_le (he_data5 (he_bw_code cfg.he_er cfg.bw_mhz) cfg.he_gi_ltf) ++ emit_u16_le data6)

def stream_tx_flags (cfg : TxMode) (no_ack : Bool) : UInt16 :=
  (if no_ack then kTxFlagsNoAck else 0) ||| if cfg.no_agg then kRadiotapTxFlagNoAgg else 0

def build_stream_radiotap (cfg : TxMode) (no_ack : Bool) : Bytes :=
  let tx_flags := stream_tx_flags cfg no_ack
  match cfg.mode with
  | .HT => build_ht cfg tx_flags
  | .VHT => build_vht cfg tx_flags
  | .HE => build_he cfg tx_flags
  | .Legacy => build_legacy cfg tx_flags

/-! ## The text of a mode -/

/-- The C string that the text starts with, in capitals and without its blanks. -/
def to_upper_stripped (raw : List Char) : List Char :=
  ((raw.takeWhile (· ≠ '\x00')).filter fun c => c ≠ ' ' ∧ c ≠ '\t' ∧ c ≠ '\n').map Char.toUpper

/-- The digits from here on, over the number that was read so far. -/
def parse_digits : ℕ → List Char → Option ℕ
  | v, [] => some v
  | v, c :: cs =>
    if c.isDigit then
      let v := v * 10 + (c.toNat - '0'.toNat)
      if v > 1000 then none else parse_digits v cs
    else some v

def parse_uint (s : List Char) : Option ℕ :=
  if (s.head?.map Char.isDigit).getD false then parse_digits 0 s else none

/-- Streams and MCS of `<nss>SS_MCS<mcs>`. -/
def parse_ss_mcs (s : List Char) (mcs_max : ℕ) : Option (ℕ × ℕ) :=
  match parse_uint s with
  | none => none
  | some nss =>
    let rest := s.dropWhile Char.isDigit
    if 1 ≤ nss ∧ nss ≤ 4 ∧ rest.take 6 = ['S', 'S', '_', 'M', 'C', 'S'] then
      match parse_uint (rest.drop 6) with
      | none => none
      | some mcs => if mcs ≤ mcs_max then some (nss, mcs) else none
    else none

/-- The legacy rates by name, in units of 500 kbps. -/
def legacy_rates : List (List Char × UInt8) :=
  [(['1', 'M'], 2), (['2', 'M'], 4), (['5', '.', '5', 'M'], 11), (['5', '_', '5', 'M'], 11),
    (['1', '1', 'M'], 22), (['6', 'M'], 12), (['9', 'M'], 18), (['1', '2', 'M'], 24),
    (['1', '8', 'M'], 36), (['2', '4', 'M'], 48), (['3', '6', 'M'], 72), (['4', '8', 'M'], 96),
    (['5', '4', 'M'], 108)]

def parse_ht (s : List Char) (cfg : TxMode) : Option TxMode :=
  if ['M', 'C', 'S'] <+: s then
    match parse_uint (s.drop 3) with
    | some mcs => if mcs ≤ 31 then some { cfg with mode := .HT, ht_mcs := mcs.toUInt8 } else none
    | none => none
  else none

def parse_vht (s : List Char) (cfg : TxMode) : Option TxMode :=
  if ['V', 'H', 'T'] <+: s then
    (parse_ss_mcs (s.drop 3) 9).map fun (nss, mcs) =>
      { cfg with mode := .VHT, vht_nss := nss.toUInt8, vht_mcs := mcs.toUInt8 }
  else none

def parse_he (s : List Char) (cfg : TxMode) : Option TxMode :=
  if ['H', 'E'] <+: s then
    (parse_ss_mcs (s.drop 2) 11).map fun (nss, mcs) =>
      { cfg with mode := .HE, he_nss := nss.toUInt8, he_mcs := mcs.toUInt8 }
  else none

def parse_rate_token (s : List Char) (cfg : TxMode) : Option TxMode :=
  match legacy_rates.lookup s with
  | some rate => some { cfg with legacy_rate_500kbps := rate }
  | none => parse_ht s cfg <|> parse_vht s cfg <|> parse_he s cfg

/-- A token behind the rate. One that is not known is skipped. -/
def parse_modifier (cfg : TxMode) (t : List Char) : TxMode :=
  if t = ['S', 'G', 'I'] then { cfg with sgi := true }
  else if t = ['L', 'D', 'P', 'C'] then { cfg with ldpc := true }
  else if t = ['S', 'T', 'B', 'C'] then { cfg with stbc := true }
  else if t = ['N', 'O', 'A', 'G', 'G'] then { cfg with no_agg := true }
  else if t = ['E', 'R'] ∨ t = ['E', 'R', '1', '0', '6'] ∨ t = ['D', 'C', 'M'] then
    if cfg.mode ≠ .HE then cfg
    else if t = ['D', 'C', 'M'] then { cfg with he_dcm := true }
    else { cfg with he_er := if t = ['E', 'R', '1', '0', '6'] then 2 else 1 }
  else if t = ['2', '0'] then { cfg with bw_mhz := 20 }
  else if t = ['4', '0'] then { cfg with bw_mhz := 40 }
  else if t = ['8', '0'] then { cfg with bw_mhz := 80 }
  else if t = ['1', '6', '0'] then { cfg with bw_mhz := 160 }
  else cfg

/-- The largest MCS of the extended range. -/
def er_mcs_max (he_er : UInt8) : UInt8 := if he_er = 2 then 0 else 2

/-- The limits of the extended range. -/
def clamp_er (cfg : TxMode) : TxMode :=
  if cfg.mode = .HE ∧ cfg.he_er ≠ 0 then
    let mcs_max := er_mcs_max cfg.he_er
    let cfg :=
      if cfg.he_mcs > mcs_max ∨ cfg.he_nss > 1 then
        { cfg with he_nss := 1, he_mcs := if cfg.he_mcs > mcs_max then mcs_max else cfg.he_mcs }
      else cfg
    { cfg with bw_mhz := 20 }
  else cfg

/-- The MCS that the dual carrier goes with. -/
def dcm_mcs_ok (er : Bool) (mcs : UInt8) : Bool :=
  if er then mcs ≤ 1 else mcs ≤ 1 || mcs = 3 || mcs = 4

/-- The limits of the dual carrier. -/
def clamp_dcm (cfg : TxMode) : TxMode :=
  if cfg.mode = .HE ∧ cfg.he_dcm then
    if !dcm_mcs_ok (cfg.he_er ≠ 0) cfg.he_mcs then { cfg with he_dcm := false }
    else if cfg.stbc then { cfg with stbc := false }
    else cfg
  else cfg

def parse_tx_mode_str (spec : List Char) : TxMode :=
  if spec = [] then {}
  else
    match (to_upper_stripped spec).splitOn '/' with
    | [] => {}
    | rate :: modifiers =>
      if rate = [] then {}
      else
        match parse_rate_token rate {} with
        | none => {}
        | some cfg => clamp_dcm (clamp_er (modifiers.foldl parse_modifier cfg))

/-! ## What a text gives

The rate token settles the family with its numbers, the tokens behind it the rest, and the clamps
the limits of the two. -/

namespace TxMode

/-- A rate that its family has. -/
structure Rated (m : TxMode) : Prop where
  legacy : m.legacy_rate_500kbps ∈ legacy_rates.map (·.2)
  ht : m.ht_mcs ≤ 31
  vht : 1 ≤ m.vht_nss ∧ m.vht_nss ≤ 4 ∧ m.vht_mcs ≤ 9
  he : 1 ≤ m.he_nss ∧ m.he_nss ≤ 4 ∧ m.he_mcs ≤ 11
  gi_ltf : m.he_gi_ltf ≤ 5

/-- A mode whose other fields the tokens behind the rate may have set. -/
structure Modified (m : TxMode) : Prop extends Rated m where
  bw : m.bw_mhz = 20 ∨ m.bw_mhz = 40 ∨ m.bw_mhz = 80 ∨ m.bw_mhz = 160
  er : m.he_er ≤ 2
  he_only : m.mode ≠ .HE → m.he_er = 0 ∧ m.he_dcm = false

/-- What the extended range is limited to. -/
def ErLimited (m : TxMode) : Prop :=
  m.he_er ≠ 0 → m.he_nss = 1 ∧ m.he_mcs ≤ er_mcs_max m.he_er ∧ m.bw_mhz = 20

/-- A mode that keeps to the limits of its format. -/
structure Legal (m : TxMode) : Prop extends Modified m where
  er_su : m.ErLimited
  dcm : m.he_dcm = true → dcm_mcs_ok (m.he_er ≠ 0) m.he_mcs ∧ m.stbc = false

end TxMode

open TxMode

theorem parse_ss_mcs_spec {s : List Char} {mcs_max nss mcs : ℕ}
    (h : parse_ss_mcs s mcs_max = some (nss, mcs)) : 1 ≤ nss ∧ nss ≤ 4 ∧ mcs ≤ mcs_max := by
  unfold parse_ss_mcs at h
  split at h
  · cases h
  dsimp only at h
  split at h
  · next hrest =>
    split at h
    · cases h
    split at h
    · next hle =>
      obtain ⟨rfl, rfl⟩ := Prod.mk.inj (Option.some.inj h)
      exact ⟨hrest.1, hrest.2.1, hle⟩
    · cases h
  · cases h

theorem toUInt8_le {n k : ℕ} (h : n ≤ k) (hk : k < 256) : n.toUInt8 ≤ k.toUInt8 := by
  have hn : n.toUInt8.toNat = n := Nat.mod_eq_of_lt (by omega)
  have hk' : k.toUInt8.toNat = k := Nat.mod_eq_of_lt hk
  rw [UInt8.le_iff_toNat_le, hn, hk']
  exact h

theorem le_toUInt8 {n : ℕ} (h : 1 ≤ n) (hn : n < 256) : 1 ≤ n.toUInt8 := by
  have htoNat : n.toUInt8.toNat = n := Nat.mod_eq_of_lt hn
  rw [UInt8.le_iff_toNat_le, htoNat]
  exact h

theorem legacy_rates_of_lookup {s : List Char} {rate : UInt8}
    (h : legacy_rates.lookup s = some rate) : rate ∈ legacy_rates.map (·.2) := by
  obtain ⟨before, behind, hsplit, -⟩ := List.lookup_eq_some_iff.mp h
  rw [hsplit]
  simp

theorem default_modified : Modified {} := by
  refine ⟨⟨?_, by decide, by decide, by decide, by decide⟩, Or.inl rfl, by decide,
    fun _ => ⟨rfl, rfl⟩⟩
  simp [legacy_rates]

/-- The rate token names a rate of its family, in the default mode. -/
theorem parse_rate_token_spec {s : List Char} {m : TxMode} (h : parse_rate_token s {} = some m) :
    m.Modified := by
  unfold parse_rate_token at h
  split at h
  · next rate hrate =>
    obtain rfl := Option.some.inj h
    exact { default_modified with legacy := legacy_rates_of_lookup hrate }
  simp only [Option.orElse_eq_orElse, Option.orElse_eq_or, Option.or_eq_some_iff] at h
  rcases h with h | ⟨-, h | ⟨-, h⟩⟩
  · unfold parse_ht at h
    split at h
    · split at h
      · next mcs hmcs =>
        split at h
        · next hle =>
          obtain rfl := Option.some.inj h
          exact { default_modified with
            ht := toUInt8_le hle (by decide), he_only := fun _ => ⟨rfl, rfl⟩ }
        · cases h
      · cases h
    · cases h
  · unfold parse_vht at h
    split at h
    · obtain ⟨⟨nss, mcs⟩, hread, rfl⟩ := Option.map_eq_some_iff.mp h
      obtain ⟨hone, hfour, hmcs⟩ := parse_ss_mcs_spec hread
      exact { default_modified with
        vht :=
          ⟨le_toUInt8 hone (by omega), toUInt8_le hfour (by decide), toUInt8_le hmcs (by decide)⟩
        he_only := fun _ => ⟨rfl, rfl⟩ }
    · cases h
  · unfold parse_he at h
    split at h
    · obtain ⟨⟨nss, mcs⟩, hread, rfl⟩ := Option.map_eq_some_iff.mp h
      obtain ⟨hone, hfour, hmcs⟩ := parse_ss_mcs_spec hread
      exact { default_modified with
        he :=
          ⟨le_toUInt8 hone (by omega), toUInt8_le hfour (by decide), toUInt8_le hmcs (by decide)⟩
        he_only := fun hne => absurd rfl hne }
    · cases h

/-- A token behind the rate leaves the rate. -/
theorem parse_modifier_modified {m : TxMode} (h : m.Modified) (t : List Char) :
    (parse_modifier m t).Modified := by
  unfold parse_modifier
  split_ifs with hsgi hldpc hstbc hnoagg hhe hmode hdcm her
  · exact { h with }
  · exact { h with }
  · exact { h with }
  · exact { h with }
  · exact h
  · exact { h with he_only := fun hne => absurd hne hmode }
  · exact { h with er := UInt8.le_refl 2, he_only := fun hne => absurd hne hmode }
  · exact { h with er := by simp, he_only := fun hne => absurd hne hmode }
  · exact { h with bw := Or.inl rfl }
  · exact { h with bw := Or.inr (Or.inl rfl) }
  · exact { h with bw := Or.inr (Or.inr (Or.inl rfl)) }
  · exact { h with bw := Or.inr (Or.inr (Or.inr rfl)) }
  · exact h

theorem er_mcs_max_le (he_er : UInt8) : er_mcs_max he_er ≤ 11 := by
  unfold er_mcs_max
  split <;> decide

theorem clamp_er_spec {m : TxMode} (h : m.Modified) :
    (clamp_er m).Modified ∧ (clamp_er m).ErLimited := by
  unfold clamp_er ErLimited
  by_cases hhe : m.mode = .HE ∧ m.he_er ≠ 0
  · rw [if_pos hhe]
    dsimp only
    by_cases hlong : m.he_mcs > er_mcs_max m.he_er ∨ m.he_nss > 1
    · rw [if_pos hlong]
      have hmcs : (if m.he_mcs > er_mcs_max m.he_er then er_mcs_max m.he_er else m.he_mcs) ≤
          er_mcs_max m.he_er := by
        split
        · exact UInt8.le_refl _
        · next hle => exact UInt8.not_lt.mp hle
      refine ⟨{ h with
        he := ⟨UInt8.le_refl 1, by simp, UInt8.le_trans hmcs (er_mcs_max_le _)⟩
        bw := Or.inl rfl }, fun _ => ⟨rfl, hmcs, rfl⟩⟩
    · rw [if_neg hlong]
      obtain ⟨hmcs, hnss⟩ := not_or.mp hlong
      refine ⟨{ h with bw := Or.inl rfl }, fun _ => ⟨?_, UInt8.not_lt.mp hmcs, rfl⟩⟩
      exact UInt8.le_antisymm (UInt8.not_lt.mp hnss) h.he.1
  · rw [if_neg hhe]
    refine ⟨h, fun her => absurd (h.he_only ?_).1 her⟩
    intro hmode
    exact hhe ⟨hmode, her⟩

theorem clamp_dcm_legal {m : TxMode} (h : m.Modified) (her : m.ErLimited) :
    (clamp_dcm m).Legal := by
  unfold clamp_dcm
  by_cases hhe : m.mode = .HE ∧ m.he_dcm = true
  · rw [if_pos hhe]
    cases hok : dcm_mcs_ok (m.he_er ≠ 0) m.he_mcs with
    | false =>
      exact { h with
        he_only := fun hne => absurd hhe.1 hne
        er_su := her
        dcm := fun hdcm => by cases hdcm }
    | true =>
      cases hstbc : m.stbc with
      | true => exact { h with er_su := her, dcm := fun _ => ⟨hok, rfl⟩ }
      | false => exact { h with er_su := her, dcm := fun _ => ⟨hok, hstbc⟩ }
  · rw [if_neg hhe]
    refine { h with er_su := her, dcm := fun hdcm => ?_ }
    have hmode : m.mode ≠ .HE := fun hmode => hhe ⟨hmode, hdcm⟩
    rw [(h.he_only hmode).2] at hdcm
    cases hdcm

theorem default_legal : Legal {} where
  toModified := default_modified
  er_su her := absurd rfl her
  dcm hdcm := by cases hdcm

theorem modifiers_modified {m : TxMode} (h : m.Modified) (tokens : List (List Char)) :
    (tokens.foldl parse_modifier m).Modified := by
  induction tokens generalizing m with
  | nil => exact h
  | cons t tokens ih => exact ih (parse_modifier_modified h t)

/-- No text gives a mode outside of the limits of its format. -/
theorem parse_tx_mode_legal (spec : List Char) : (parse_tx_mode_str spec).Legal := by
  unfold parse_tx_mode_str
  split
  · exact default_legal
  split
  · exact default_legal
  split
  · exact default_legal
  split
  · exact default_legal
  · next cfg hcfg =>
    obtain ⟨hmodified, her⟩ := clamp_er_spec (modifiers_modified (parse_rate_token_spec hcfg) _)
    exact clamp_dcm_legal hmodified her

example : parse_tx_mode_str ("he2ss_mcs9/80/Er106/dcm/stbc").toList =
    { mode := .HE, he_nss := 1, he_mcs := 0, he_er := 2, he_dcm := true } := by decide

end devourer
