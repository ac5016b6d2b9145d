-- The Basic Trigger as a monitor reads it back: the addresses, the common
-- info, and the user infos up to the one that ends the list.
import Devourer.Lib.Fetch
import Devourer.TriggerTwt

namespace devourer

open Packed

/-! ## The builder and the users that it has -/

/-- The same builder over the array of 8 users: it fails where it reads an entry behind them. -/
def build_basic_trigger_in (cfg : TriggerConfig) (ra ta : Option (Octets 6)) (cap : ℕ) :
    Option Bytes :=
  if cap < cfg.need then some []
  else do
    let users ← (List.range cfg.nuser).mapM fun u => cfg.users[u]?
    some (trigger_header ra ta ++ Wire.putLe 8 (pack cfg.common) ++ users.flatMap TrigUser.bytes ++
      ([0xff, 0x0f] ++ List.replicate kPad 0xff))

/-! ## The parser -/

structure TriggerUserInfo where
  aid12 : UInt16 := 0
  ru_alloc : UInt8 := 0
  ldpc : Bool := false
  mcs : UInt8 := 0
  dcm : Bool := false
  ss : UInt8 := 0
  tgt_rssi_dbm : Int8 := 0
  deriving DecidableEq

/-- `users` are the first `n_users` entries of the array, at most 8. -/
structure TriggerInfo where
  trigger_type : UInt8 := 0
  ul_length : UInt16 := 0
  ul_bw : UInt8 := 0
  gi_ltf : UInt8 := 0
  num_he_ltf : UInt8 := 0
  ap_tx_power : UInt8 := 0
  ta : Octets 6 := Octets.zero 6
  ra : Octets 6 := Octets.zero 6
  users : List TriggerUserInfo := []
  deriving DecidableEq

def COMMON_TRIGGER_TYPE : Field 64 := ⟨0, 0xf⟩

/-- The `n` bytes at an offset as a word, where the frame has them. -/
def word_in (frame : Bytes) (n o : ℕ) : Option (BitVec 64) := (Wire.fetch 64 n frame o).map Prod.fst

def octets_in (frame : Bytes) (o : ℕ) : Option (Octets 6) :=
  if o + 6 ≤ frame.length then some (Octets.slice frame o 6) else none

def is_trigger_frame (frame : Bytes) : Bool :=
  decide (2 ≤ frame.length) && decide (peek frame 0 = some 0x24)

/-- 0..90 are -110..-20 dBm, and all above is full power. -/
def he_tgt_rssi_dec (rssi7 : UInt8) : Int8 :=
  if rssi7 ≥ 91 then 0 else Int8.ofInt (rssi7.toNat - 110)

def user_of (ui : BitVec 64) : TriggerUserInfo where
  aid12 := (USER_AID12.get ui).toNat.toUInt16
  ru_alloc := (USER_RU_ALLOC.get ui).toNat.toUInt8
  ldpc := decide ((USER_UL_FEC.get ui).toNat ≠ 0)
  mcs := (USER_UL_MCS.get ui).toNat.toUInt8
  dcm := decide ((USER_UL_DCM.get ui).toNat ≠ 0)
  ss := (USER_SS_ALLOC.get ui).toNat.toUInt8
  tgt_rssi_dbm := he_tgt_rssi_dec (USER_TGT_RSSI.get ui).toNat.toUInt8

/-- The users from `o` on, for the slots that are left. One with AID12 4095 ends the list. -/
def users_in (frame : Bytes) (ustride : ℕ) : ℕ → ℕ → Option (List TriggerUserInfo)
  | 0, _ => some []
  | slots + 1, o =>
    if o + ustride ≤ frame.length then do
      let ui ← word_in frame 5 o
      if (user_of ui).aid12 = 0xfff then some []
      else
        let rest ← users_in frame ustride slots (o + ustride)
        some (user_of ui :: rest)
    else some []

/-- The answer and what is in `out` then. There is none where it reads past the frame. -/
def parse_trigger (frame : Bytes) (out : TriggerInfo) : Option (Bool × TriggerInfo) :=
  if !is_trigger_frame frame || decide (frame.length < 24 + 5) then some (false, out)
  else do
    let ra ← octets_in frame 4
    let ta ← octets_in frame 10
    let common ← word_in frame 8 16
    let trigger_type := (COMMON_TRIGGER_TYPE.get common).toNat.toUInt8
    -- A Basic Trigger has one byte more behind each user.
    let tdep := if trigger_type = 0 then 1 else 0
    let users ← users_in frame (5 + tdep) 8 24
    some (decide (users ≠ []), {
      trigger_type
      ul_length := (COMMON_UL_LENGTH.get common).toNat.toUInt16
      ul_bw := (COMMON_UL_BW.get common).toNat.toUInt8
      gi_ltf := (COMMON_GI_LTF.get common).toNat.toUInt8
      num_he_ltf := (COMMON_NUM_HE_LTF.get common).toNat.toUInt8
      ap_tx_power := (COMMON_AP_TX_POWER.get common).toNat.toUInt8
      ta
      ra
      users })

/-! ## What a configuration grants -/

/-- AID12 4095 is no station's. -/
def TrigUser.listed (tu : TrigUser) : Bool := decide (tu.aid12 &&& 0xfff ≠ 0xfff)

/-- The users of the round, up to the first with AID12 4095. -/
def TriggerConfig.granted (cfg : TriggerConfig) : List TrigUser :=
  ((List.range cfg.nuser).map cfg.user).takeWhile TrigUser.listed

/-- A level as it reaches the station: 0 for full power, else within -110..-20. -/
def clamped_rssi (dbm : Int8) : Int8 :=
  if 0 ≤ dbm.toInt then 0 else Int8.ofInt (max (-110) (min (-20) dbm.toInt))

def TrigUser.told (tu : TrigUser) : TriggerUserInfo where
  aid12 := tu.aid12 &&& 0xfff
  ru_alloc := tu.ru_alloc
  ldpc := tu.ldpc
  mcs := tu.ul_mcs &&& 0xf
  dcm := tu.dcm
  ss := tu.ss &&& 0x3f
  tgt_rssi_dbm := clamped_rssi tu.tgt_rssi_dbm

def TriggerConfig.told (cfg : TriggerConfig) (ra ta : Option (Octets 6)) : TriggerInfo where
  trigger_type := 0
  ul_length := cfg.ul_length &&& 0xfff
  ul_bw := cfg.ul_bw &&& 0x3
  gi_ltf := cfg.gi_ltf &&& 0x3
  num_he_ltf := cfg.num_he_ltf &&& 0x7
  ap_tx_power := cfg.ap_tx_power &&& 0x3f
  ta := ta.getD (Octets.zero 6)
  ra := ra.getD ⟨[0xff, 0xff, 0xff, 0xff, 0xff, 0xff], rfl⟩
  users := cfg.granted.map TrigUser.told

/-! ## No read goes past the frame -/

section

variable {frame : Bytes} {n o : ℕ}

theorem word_in_eq (h : o + n ≤ frame.length) :
    word_in frame n o = some (Wire.getLe 64 n fun i => byteAt frame (o + i)) := by
  rw [word_in, Wire.fetch_eq h]
  rfl

theorem users_in_inside (frame : Bytes) {ustride : ℕ} (h : 5 ≤ ustride) (slots o : ℕ) :
    ∃ us, users_in frame ustride slots o = some us := by
  induction slots generalizing o with
  | zero => exact ⟨[], rfl⟩
  | succ slots ih =>
    unfold users_in
    split
    · rw [word_in_eq (by omega), Option.bind_eq_bind, Option.bind_some]
      split
      · exact ⟨[], rfl⟩
      · obtain ⟨rest, hrest⟩ := ih (o + ustride)
        rw [hrest]
        exact ⟨_, rfl⟩
    · exact ⟨[], rfl⟩

theorem parse_trigger_inside (frame : Bytes) (out : TriggerInfo) :
    ∃ r, parse_trigger frame out = some r := by
  unfold parse_trigger
  split
  · exact ⟨_, rfl⟩
  · next h =>
    have hlen : 24 + 5 ≤ frame.length := by
      simp only [Bool.or_eq_true, decide_eq_true_eq, not_or] at h
      omega
    have hra : octets_in frame 4 = some (Octets.slice frame 4 6) := if_pos (by omega)
    have hta : octets_in frame 10 = some (Octets.slice frame 10 6) := if_pos (by omega)
    rw [hra, hta, word_in_eq (by omega)]
    simp only [Option.bind_eq_bind, Option.bind_some]
    obtain ⟨us, hus⟩ := users_in_inside frame (Nat.le_add_right 5 _) 8 24
    rw [hus]
    exact ⟨_, rfl⟩

end

/-! ## A field is read back under its mask -/

theorem toUInt8_and (x m : UInt8) : (x.toNat &&& m.toNat).toUInt8 = x &&& m := by
  rw [← UInt8.toNat_and]
  exact UInt8.ofNat_toNat

theorem toUInt16_and (x m : UInt16) : (x.toNat &&& m.toNat).toUInt16 = x &&& m := by
  rw [← UInt16.toNat_and]
  exact UInt16.ofNat_toNat

theorem he_tgt_rssi_dec_enc (dbm : Int8) :
    he_tgt_rssi_dec (he_tgt_rssi_enc dbm.toInt &&& 0x7f).toUInt8 = clamped_rssi dbm := by
  have hle := he_tgt_rssi_enc_le dbm.toInt
  have hmask : he_tgt_rssi_enc dbm.toInt &&& 0x7f = he_tgt_rssi_enc dbm.toInt := by
    rw [show 0x7f = 2 ^ 7 - 1 from rfl, Nat.and_two_pow_sub_one_eq_mod, Nat.mod_eq_of_lt (by omega)]
  have hread : (he_tgt_rssi_enc dbm.toInt).toUInt8.toNat = he_tgt_rssi_enc dbm.toInt :=
    Nat.mod_eq_of_lt (by omega)
  have hhigh : (he_tgt_rssi_enc dbm.toInt).toUInt8 ≥ 91 ↔ 91 ≤ he_tgt_rssi_enc dbm.toInt := by
    rw [ge_iff_le, UInt8.le_iff_toNat_le, hread]
    rfl
  simp only [hmask, he_tgt_rssi_dec, clamped_rssi, hhigh, hread]
  by_cases hfull : 0 ≤ dbm.toInt
  · have henc : he_tgt_rssi_enc dbm.toInt = 127 := if_pos hfull
    rw [henc, if_pos (by decide), if_pos hfull]
  · have henc : (he_tgt_rssi_enc dbm.toInt : ℤ) = max (-110) (min (-20) dbm.toInt) + 110 := by
      unfold he_tgt_rssi_enc
      rw [if_neg hfull]
      dsimp only
      split <;> split <;> omega
    rw [if_neg (by omega), if_neg hfull, henc, Int.add_sub_cancel]

theorem user_of_ui (tu : TrigUser) : user_of (pack tu.ui) = tu.told := by
  have hlt := fun x => Nat.lt_trans (lt_of_uint8 x) (by decide : 2 ^ 32 < 2 ^ 64)
  have hbool : ∀ b : Bool, b.toNat < 2 ^ 64 := by decide
  have hflag : ∀ b : Bool, decide (b.toNat &&& 1 ≠ 0) = b := by decide
  have haid : tu.aid12.toNat < 2 ^ 64 := Nat.lt_trans (lt_of_uint16 _) (by decide)
  have hrssi : he_tgt_rssi_enc tu.tgt_rssi_dbm.toInt < 2 ^ 64 :=
    Nat.lt_of_le_of_lt (he_tgt_rssi_enc_le _) (by decide)
  have hru : tu.ru_alloc &&& 0xff = tu.ru_alloc := UInt8.and_neg_one
  rw [user_of,
    get_ui (f := USER_AID12) (by simp [TrigUser.ui]) (by decide) haid,
    get_ui (f := USER_RU_ALLOC) (by simp [TrigUser.ui]) (by decide) (hlt tu.ru_alloc),
    get_ui (f := USER_UL_FEC) (by simp [TrigUser.ui]) (by decide) (hbool tu.ldpc),
    get_ui (f := USER_UL_MCS) (by simp [TrigUser.ui]) (by decide) (hlt tu.ul_mcs),
    get_ui (f := USER_UL_DCM) (by simp [TrigUser.ui]) (by decide) (hbool tu.dcm),
    get_ui (f := USER_SS_ALLOC) (by simp [TrigUser.ui]) (by decide) (hlt tu.ss),
    get_ui (f := USER_TGT_RSSI) (by simp [TrigUser.ui]) (by decide) hrssi]
  rw [TrigUser.told, ← he_tgt_rssi_dec_enc, ← toUInt16_and, ← toUInt8_and, ← toUInt8_and]
  congr 1
  · exact (toUInt8_and tu.ru_alloc 0xff).trans hru
  · exact hflag tu.ldpc
  · exact hflag tu.dcm

/-! ## The users in the frame -/

theorem word_at_front {front back : Bytes} {v : BitVec 64} {n : ℕ}
    (h : ∀ j, 8 * n ≤ j → v.getLsbD j = false) :
    word_in (front ++ (Wire.putLe n v ++ back)) n front.length = some v := by
  rw [word_in_eq (by simp)]
  congr 1
  apply getLe_of_low h
  intro i hi
  rw [byteAt_behind, byteAt_append_left _ (by simpa using hi)]

theorem ui_below (tu : TrigUser) : Below (8 * 5) tu.ui := by
  have hbelow : ∀ f ∈ [USER_AID12, USER_RU_ALLOC, USER_UL_FEC, USER_UL_MCS, USER_UL_DCM,
      USER_SS_ALLOC, USER_TGT_RSSI], (f.msk <<< f.sh) >>> (8 * 5) = 0#64 := by decide
  exact hbelow

/-- The padding reads as a user with AID12 4095, whatever stands behind it. -/
theorem padding_ends (front back : Bytes) (slots : ℕ) :
    users_in (front ++ ([0xff, 0x0f] ++ List.replicate kPad 0xff ++ back)) 6 slots front.length =
      some [] := by
  cases slots with
  | zero => rfl
  | succ slots =>
    have hword : word_in (front ++ ([0xff, 0x0f] ++ List.replicate kPad 0xff ++ back)) 5
        front.length = some 0xffffff0fff := by
      have h := @word_at_front front (0xff :: back) 0xffffff0fff 5 (by
        intro j hj
        rw [BitVec.getLsbD, Nat.testBit_lt_two_pow]
        exact Nat.lt_of_lt_of_le (by decide) (Nat.pow_le_pow_right (by decide) hj))
      exact h
    unfold users_in
    rw [if_pos (by simp [kPad]), hword]
    rfl

/-- The users are read one after another until the list ends or the slots do. -/
theorem users_read (us : List TrigUser) (front back : Bytes) {slots : ℕ} (h : us.length ≤ slots) :
    users_in (front ++ (us.flatMap TrigUser.bytes ++
        ([0xff, 0x0f] ++ List.replicate kPad 0xff ++ back))) 6 slots front.length =
      some ((us.takeWhile TrigUser.listed).map TrigUser.told) := by
  induction us generalizing front slots with
  | nil => exact padding_ends front back slots
  | cons tu us ih =>
    obtain ⟨slots, rfl⟩ := Nat.exists_eq_add_of_le' (Nat.zero_lt_of_lt h)
    have hword : word_in (front ++ ((tu :: us).flatMap TrigUser.bytes ++
        ([0xff, 0x0f] ++ List.replicate kPad 0xff ++ back))) 5 front.length =
          some (pack tu.ui) := by
      rw [List.flatMap_cons, TrigUser.bytes, List.append_assoc, List.append_assoc]
      exact word_at_front fun j hj => getLsbD_pack_below (ui_below tu) hj
    have hrest := ih (front ++ tu.bytes) (Nat.le_of_succ_le_succ h)
    rw [List.append_assoc, ← List.append_assoc tu.bytes, ← List.flatMap_cons, List.length_append,
      TrigUser.length_bytes] at hrest
    unfold users_in
    rw [if_pos (by simp [kPad]), hword]
    simp only [Option.bind_eq_bind, Option.bind_some, user_of_ui, hrest]
    have hlisted : tu.told.aid12 = 0xfff ↔ tu.listed = false :=
      (decide_eq_false_iff_not.trans not_not).symm
    cases hl : tu.listed with
    | false => rw [if_pos (hlisted.mpr hl), List.takeWhile_cons_of_neg (by simp [hl]), List.map_nil]
    | true =>
      have hgo : ¬ tu.told.aid12 = 0xfff := by simp [hlisted, hl]
      rw [if_neg hgo, List.takeWhile_cons_of_pos hl, List.map_cons]

/-! ## The whole frame -/

variable {cfg : TriggerConfig} {ra ta : Option (Octets 6)} {cap : ℕ}

theorem mapM_none {α β : Type} {f : α → Option β} {l : List α} {a : α} (ha : a ∈ l)
    (h : f a = none) : l.mapM f = none := by
  induction l with
  | nil => cases ha
  | cons b l ih =>
    rw [List.mapM_cons]
    rcases List.mem_cons.mp ha with rfl | ha
    · rw [h]
      rfl
    · rw [ih ha]
      cases f b <;> rfl

theorem users_there {n : ℕ} (h : n ≤ 8) :
    (List.range n).mapM (fun u => cfg.users[u]?) = some ((List.range n).map cfg.user) := by
  induction n with
  | zero => rfl
  | succ n ih =>
    have hu : cfg.users[n]? = some (cfg.user n) := by simp [TriggerConfig.user, show n < 8 by omega]
    rw [List.range_succ, List.mapM_append, ih (by omega), List.map_append, List.mapM_cons, hu]
    rfl

theorem users_missing {n : ℕ} (h : 8 < n) :
    (List.range n).mapM (fun u => cfg.users[u]?) = none :=
  mapM_none (List.mem_range.mpr h) (by simp)

/-- A frame of the builder. -/
def trigger_frame (cfg : TriggerConfig) (ra ta : Option (Octets 6)) : Bytes :=
  trigger_header ra ta ++ (Wire.putLe 8 (pack cfg.common) ++
    (((List.range cfg.nuser).map cfg.user).flatMap TrigUser.bytes ++
      ([0xff, 0x0f] ++ List.replicate kPad 0xff)))

theorem build_in_eq (hcap : cfg.need ≤ cap) (h : cfg.nuser ≤ 8) :
    build_basic_trigger_in cfg ra ta cap = some (trigger_frame cfg ra ta) := by
  rw [build_basic_trigger_in, if_neg (by omega), users_there h]
  simp only [Option.bind_eq_bind, Option.bind_some, trigger_frame, List.append_assoc]

/-- With users that are all there the two builders are one. -/
theorem build_basic_trigger_in_eq (h : cfg.nuser ≤ 8) :
    build_basic_trigger_in cfg ra ta cap = some (build_basic_trigger cfg ra ta cap) := by
  unfold build_basic_trigger_in build_basic_trigger
  split
  · rfl
  · rw [users_there h]
    simp only [Option.bind_eq_bind, Option.bind_some, List.flatMap_map]

theorem length_trigger_frame (cfg : TriggerConfig) (ra ta : Option (Octets 6)) :
    (trigger_frame cfg ra ta).length = cfg.need := by
  have hblock : ∀ v, ((cfg.user v).bytes).length = 6 := fun v => (cfg.user v).length_bytes
  simp only [trigger_frame, List.flatMap_map, List.length_append, length_trigger_header,
    Wire.length_putLe, length_blocks hblock, List.length_replicate, TriggerConfig.need]
  simp only [List.length_cons, List.length_nil]
  omega

theorem trigger_type_common : COMMON_TRIGGER_TYPE.get (pack cfg.common) = 0#64 := by
  have hapart : ∀ f ∈ [COMMON_UL_LENGTH, COMMON_UL_BW, COMMON_GI_LTF, COMMON_NUM_HE_LTF,
      COMMON_AP_TX_POWER], COMMON_TRIGGER_TYPE.Apart f := by decide
  apply get_pack_apart
  intro p hp
  exact hapart p.1 (List.mem_map_of_mem (f := Prod.fst) hp)

section reads

variable (fcs : Bytes)

theorem frame_length (cfg : TriggerConfig) (ra ta : Option (Octets 6)) :
    (trigger_frame cfg ra ta ++ fcs).length = cfg.need + fcs.length ∧ 30 ≤ cfg.need := by
  refine ⟨by rw [List.length_append, length_trigger_frame], ?_⟩
  simp only [TriggerConfig.need, kPad]
  omega

theorem ra_of_frame : octets_in (trigger_frame cfg ra ta ++ fcs) 4 =
    some (ra.getD ⟨List.replicate 6 0xff, rfl⟩) := by
  obtain ⟨hlen, hneed⟩ := frame_length fcs cfg ra ta
  have hfront : ([0x24, 0x00, 0x00, 0x00] : Bytes).length = 4 := rfl
  rw [octets_in, if_pos (by omega), trigger_frame, trigger_header]
  simp only [List.append_assoc]
  rw [Octets.slice_append _ _ _ hfront]

theorem ta_of_frame :
    octets_in (trigger_frame cfg ra ta ++ fcs) 10 = some (ta.getD (Octets.zero 6)) := by
  obtain ⟨hlen, hneed⟩ := frame_length fcs cfg ra ta
  have hfront : ([0x24, 0x00, 0x00, 0x00] ++
      (ra.getD ⟨List.replicate 6 0xff, rfl⟩).val : Bytes).length = 10 := by
    rw [List.length_append, (ra.getD _).property]
    rfl
  rw [octets_in, if_pos (by omega), trigger_frame, trigger_header]
  simp only [List.append_assoc]
  rw [← List.append_assoc, Octets.slice_append _ _ _ hfront]

theorem common_of_frame :
    word_in (trigger_frame cfg ra ta ++ fcs) 8 16 = some (pack cfg.common) := by
  rw [trigger_frame, List.append_assoc, List.append_assoc, ← length_trigger_header ra ta]
  exact word_at_front fun j hj => BitVec.getLsbD_of_ge _ _ (by omega)

theorem users_of_frame (h : cfg.nuser ≤ 8) :
    users_in (trigger_frame cfg ra ta ++ fcs) 6 8 24 = some (cfg.granted.map TrigUser.told) := by
  have hfront : (trigger_header ra ta ++ Wire.putLe 8 (pack cfg.common)).length = 24 := by simp
  have hslots : ((List.range cfg.nuser).map cfg.user).length ≤ 8 := by simpa using h
  have hread := users_read ((List.range cfg.nuser).map cfg.user)
    (trigger_header ra ta ++ Wire.putLe 8 (pack cfg.common)) fcs hslots
  rw [hfront] at hread
  simp only [trigger_frame, List.append_assoc] at hread ⊢
  exact hread

end reads

/-- What was built is read back, whatever stands behind it. -/
theorem parse_trigger_frame (h : cfg.nuser ≤ 8) (fcs : Bytes) (out : TriggerInfo) :
    parse_trigger (trigger_frame cfg ra ta ++ fcs) out =
      some (decide (cfg.granted ≠ []), cfg.told ra ta) := by
  obtain ⟨hlen, hneed⟩ := frame_length fcs cfg ra ta
  have hstart : is_trigger_frame (trigger_frame cfg ra ta ++ fcs) = true := by
    rw [is_trigger_frame, decide_eq_true (by omega)]
    rfl
  have hlong : decide ((trigger_frame cfg ra ta ++ fcs).length < 24 + 5) = false :=
    decide_eq_false (by omega)
  have hlt := fun x => Nat.lt_trans (lt_of_uint8 x) (by decide : 2 ^ 32 < 2 ^ 64)
  have hul : cfg.ul_length.toNat < 2 ^ 64 := Nat.lt_trans (lt_of_uint16 _) (by decide)
  rw [parse_trigger, hstart, hlong, if_neg (by decide), ra_of_frame, ta_of_frame,
    common_of_frame]
  simp only [Option.bind_eq_bind, Option.bind_some, trigger_type_common]
  rw [show (if (0#64).toNat.toUInt8 = 0 then 1 else 0) = 1 from rfl,
    users_of_frame fcs h,
    get_common (f := COMMON_UL_LENGTH) (by simp [TriggerConfig.common]) (by decide) hul,
    get_common (f := COMMON_UL_BW) (by simp [TriggerConfig.common]) (by decide) (hlt cfg.ul_bw),
    get_common (f := COMMON_GI_LTF) (by simp [TriggerConfig.common]) (by decide) (hlt cfg.gi_ltf),
    get_common (f := COMMON_NUM_HE_LTF) (by simp [TriggerConfig.common]) (by decide)
      (hlt cfg.num_he_ltf),
    get_common (f := COMMON_AP_TX_POWER) (by simp [TriggerConfig.common]) (by decide)
      (hlt cfg.ap_tx_power)]
  simp only [Option.bind_some, ne_eq, List.map_eq_nil_iff]
  rw [TriggerConfig.told, ← toUInt16_and, ← toUInt8_and, ← toUInt8_and, ← toUInt8_and,
    ← toUInt8_and]
  rfl

/-! ## The grant over the air -/

/-- The frame keeps to the buffer, and the grant is read back from it, with an FCS or without. -/
structure Carries (cfg : TriggerConfig) (ra ta : Option (Octets 6)) (cap : ℕ) (frame : Bytes) :
    Prop where
  inside : frame.length ≤ cap
  refused : frame = [] ↔ cap < cfg.need
  read_back : frame ≠ [] → ∀ fcs, fcs.length = 0 ∨ fcs.length = 4 → ∀ out,
    parse_trigger (frame ++ fcs) out = some (decide (cfg.granted ≠ []), cfg.told ra ta)

theorem carries_nothing (h : cap < cfg.need) : Carries cfg ra ta cap [] where
  inside := Nat.zero_le _
  refused := iff_of_true rfl h
  read_back := fun hne => absurd rfl hne

theorem carries_frame (hcap : cfg.need ≤ cap) (h : cfg.nuser ≤ 8) :
    Carries cfg ra ta cap (trigger_frame cfg ra ta) where
  inside := by rw [length_trigger_frame]; exact hcap
  refused := by
    have hlen := length_trigger_frame cfg ra ta
    refine iff_of_false (fun hnil => ?_) (by omega)
    rw [hnil, List.length_nil, TriggerConfig.need] at hlen
    omega
  read_back := fun _ fcs _ out => parse_trigger_frame h fcs out

theorem nuser_le_iff : cfg.nuser ≤ 8 ↔ cfg.n_users ≤ 8 := by
  unfold TriggerConfig.nuser
  rw [UInt8.le_iff_toNat_le]
  split
  · next h => simp [h]
  · exact Iff.rfl

/-- The builder looks at users that the array has, and the grant survives, exactly with at most 8
users or in a buffer that is too short for the frame. The parser never reads past its frame. -/
theorem the_grant_survives_iff (cfg : TriggerConfig) (ra ta : Option (Octets 6)) (cap : ℕ) :
    ((∃ frame, build_basic_trigger_in cfg ra ta cap = some frame ∧ Carries cfg ra ta cap frame) ∧
        ∀ frame out, ∃ r, parse_trigger frame out = some r) ↔
      cfg.n_users ≤ 8 ∨ cap < cfg.need := by
  rw [and_iff_left parse_trigger_inside, ← nuser_le_iff]
  by_cases hcap : cap < cfg.need
  · exact iff_of_true ⟨[], if_pos hcap, carries_nothing hcap⟩ (Or.inr hcap)
  rw [or_iff_left hcap]
  constructor
  · rintro ⟨frame, hbuild, -⟩
    by_contra hmany
    rw [build_basic_trigger_in, if_neg hcap, users_missing (by omega)] at hbuild
    cases hbuild
  · intro h
    exact ⟨_, build_in_eq (by omega) h, carries_frame (by omega) h⟩

/-- Nine users in a buffer with room for them. -/
theorem a_ninth_user_is_not_there :
    ¬ ∃ frame, build_basic_trigger_in { n_users := 9 } none none 96 = some frame ∧
      Carries { n_users := 9 } none none 96 frame := by
  rintro ⟨frame, hbuild, -⟩
  have hnone : build_basic_trigger_in { n_users := 9 } none none 96 = none := by decide
  rw [hnone] at hbuild
  cases hbuild

end devourer
