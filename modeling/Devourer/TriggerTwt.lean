-- The Basic Trigger frame that the host builds itself: the grant of one round
-- of uplink, with a user info for each station.
import Devourer.Lib.Packed
import Mathlib.Data.Int.Notation

namespace devourer

open Packed

/-- The grant of one user. -/
structure TrigUser where
  aid12 : UInt16 := 0
  macid : UInt8 := 0
  ru_alloc : UInt8 := 61
  ul_mcs : UInt8 := 0
  ss : UInt8 := 1
  ldpc : Bool := false
  dcm : Bool := false
  tgt_rssi_dbm : Int8 := -60
  pref_ac : UInt8 := 0
  deriving DecidableEq

structure TriggerConfig where
  ul_bw : UInt8 := 0
  gi_ltf : UInt8 := 0
  num_he_ltf : UInt8 := 1
  ap_tx_power : UInt8 := 20
  ul_length : UInt16 := 0x1F4
  pri20_bitmap : UInt8 := 0x1
  trig_rate : UInt16 := 0
  mode : UInt8 := 0
  frexch_type : UInt8 := 0
  users : Vector TrigUser 8 := Vector.replicate 8 {}
  n_users : UInt8 := 1

def TriggerConfig.user (cfg : TriggerConfig) (u : ℕ) : TrigUser := cfg.users[u]?.getD {}

/-- 127 asks for full power. A level out of range clamps into 0..90. -/
def he_tgt_rssi_enc (dbm : ℤ) : ℕ :=
  if 0 ≤ dbm then 127
  else
    let v := dbm + 110
    let v := if v < 0 then 0 else v
    let v := if 90 < v then 90 else v
    v.toNat

theorem he_tgt_rssi_enc_le (dbm : ℤ) : he_tgt_rssi_enc dbm ≤ 127 := by
  unfold he_tgt_rssi_enc
  dsimp only
  split
  · exact Nat.le_refl _
  · split <;> split <;> omega

/-! ## The ranges that the fields are documented with -/

def TrigUser.InRange (tu : TrigUser) : Prop :=
  tu.aid12.toNat < 4096 ∧ tu.ul_mcs.toNat ≤ 11 ∧ 1 ≤ tu.ss.toNat ∧ tu.ss.toNat ≤ 8 ∧
    tu.pref_ac.toNat ≤ 3

def TriggerConfig.InRange (cfg : TriggerConfig) : Prop :=
  cfg.ul_bw.toNat ≤ 3 ∧ cfg.gi_ltf.toNat ≤ 3 ∧ cfg.num_he_ltf.toNat ≤ 7 ∧
    cfg.ap_tx_power.toNat ≤ 63 ∧ cfg.ul_length.toNat < 4096 ∧ cfg.trig_rate.toNat < 512 ∧
      cfg.mode.toNat ≤ 3 ∧ cfg.frexch_type.toNat ≤ 63 ∧
        ∀ u < cfg.n_users.toNat, (cfg.user u).InRange

instance (tu : TrigUser) : Decidable tu.InRange := inferInstanceAs (Decidable (_ ∧ _))

instance (cfg : TriggerConfig) : Decidable cfg.InRange := inferInstanceAs (Decidable (_ ∧ _))

/-! ## The frame -/

/-! The fields of the common info. -/

def COMMON_UL_LENGTH : Field 64 := ⟨4, 0xfff⟩
def COMMON_UL_BW : Field 64 := ⟨18, 0x3⟩
def COMMON_GI_LTF : Field 64 := ⟨20, 0x3⟩
def COMMON_NUM_HE_LTF : Field 64 := ⟨23, 0x7⟩
def COMMON_AP_TX_POWER : Field 64 := ⟨28, 0x3f⟩

/-! The fields of a user info. -/

def USER_AID12 : Field 64 := ⟨0, 0xfff⟩
def USER_RU_ALLOC : Field 64 := ⟨12, 0xff⟩
def USER_UL_FEC : Field 64 := ⟨20, 1⟩
def USER_UL_MCS : Field 64 := ⟨21, 0xf⟩
def USER_UL_DCM : Field 64 := ⟨25, 1⟩
def USER_SS_ALLOC : Field 64 := ⟨26, 0x3f⟩
def USER_TGT_RSSI : Field 64 := ⟨32, 0x7f⟩

def TriggerConfig.common (cfg : TriggerConfig) : List (Field 64 × BitVec 64) :=
  [(COMMON_UL_LENGTH, BitVec.ofNat 64 cfg.ul_length.toNat),
    (COMMON_UL_BW, BitVec.ofNat 64 cfg.ul_bw.toNat),
    (COMMON_GI_LTF, BitVec.ofNat 64 cfg.gi_ltf.toNat),
    (COMMON_NUM_HE_LTF, BitVec.ofNat 64 cfg.num_he_ltf.toNat),
    (COMMON_AP_TX_POWER, BitVec.ofNat 64 cfg.ap_tx_power.toNat)]

/-- The spatial streams go in as they are. -/
def TrigUser.ui (tu : TrigUser) : List (Field 64 × BitVec 64) :=
  [(USER_AID12, BitVec.ofNat 64 tu.aid12.toNat),
    (USER_RU_ALLOC, BitVec.ofNat 64 tu.ru_alloc.toNat),
    (USER_UL_FEC, BitVec.ofNat 64 tu.ldpc.toNat),
    (USER_UL_MCS, BitVec.ofNat 64 tu.ul_mcs.toNat),
    (USER_UL_DCM, BitVec.ofNat 64 tu.dcm.toNat),
    (USER_SS_ALLOC, BitVec.ofNat 64 tu.ss.toNat),
    (USER_TGT_RSSI, BitVec.ofNat 64 (he_tgt_rssi_enc tu.tgt_rssi_dbm.toInt))]

/-- The user info, and the byte that a Basic Trigger puts behind it. -/
def TrigUser.bytes (tu : TrigUser) : Bytes :=
  Wire.putLe 5 (pack tu.ui) ++ [(tu.pref_ac &&& 0x3) <<< 6]

def TriggerConfig.nuser (cfg : TriggerConfig) : ℕ :=
  if cfg.n_users = 0 then 1 else cfg.n_users.toNat

def kPad : ℕ := 4

def TriggerConfig.need (cfg : TriggerConfig) : ℕ :=
  2 + 2 + 6 + 6 + 8 + cfg.nuser * 6 + 2 + kPad

/-- Frame control, duration and the two addresses. -/
def trigger_header (ra ta : Option (Octets 6)) : Bytes :=
  [0x24, 0x00, 0x00, 0x00] ++ (ra.getD ⟨List.replicate 6 0xff, rfl⟩).val ++
    (ta.getD (Octets.zero 6)).val

/-- The frame for a buffer of `cap` bytes. Nothing is written where it does not fit. -/
def build_basic_trigger (cfg : TriggerConfig) (ra ta : Option (Octets 6)) (cap : ℕ) : Bytes :=
  if cap < cfg.need then []
  else
    trigger_header ra ta ++ Wire.putLe 8 (pack cfg.common) ++
      (List.range cfg.nuser).flatMap (fun u => (cfg.user u).bytes) ++
        ([0xff, 0x0f] ++ List.replicate kPad 0xff)

/-! ## The grant in the frame -/

/-- What the common info says. -/
structure CommonInfo where
  ul_bw : ℕ
  gi_ltf : ℕ
  num_he_ltf : ℕ
  ap_tx_power : ℕ
  deriving DecidableEq

/-- What a user info says. -/
structure UserInfo where
  aid12 : ℕ
  ru_alloc : ℕ
  ul_fec : ℕ
  ul_mcs : ℕ
  ul_dcm : ℕ
  ss_alloc : ℕ
  tgt_rssi : ℕ
  deriving DecidableEq

def common_at (frame : Bytes) : BitVec 64 := Wire.getLe 64 8 fun i => byteAt frame (16 + i)

def user_at (frame : Bytes) (u : ℕ) : BitVec 64 :=
  Wire.getLe 64 5 fun i => byteAt frame (24 + 6 * u + i)

def trigger_common (frame : Bytes) : CommonInfo where
  ul_bw := (COMMON_UL_BW.get (common_at frame)).toNat
  gi_ltf := (COMMON_GI_LTF.get (common_at frame)).toNat
  num_he_ltf := (COMMON_NUM_HE_LTF.get (common_at frame)).toNat
  ap_tx_power := (COMMON_AP_TX_POWER.get (common_at frame)).toNat

def trigger_user (frame : Bytes) (u : ℕ) : UserInfo where
  aid12 := (USER_AID12.get (user_at frame u)).toNat
  ru_alloc := (USER_RU_ALLOC.get (user_at frame u)).toNat
  ul_fec := (USER_UL_FEC.get (user_at frame u)).toNat
  ul_mcs := (USER_UL_MCS.get (user_at frame u)).toNat
  ul_dcm := (USER_UL_DCM.get (user_at frame u)).toNat
  ss_alloc := (USER_SS_ALLOC.get (user_at frame u)).toNat
  tgt_rssi := (USER_TGT_RSSI.get (user_at frame u)).toNat

/-- The common info that a configuration asks for. -/
def TriggerConfig.commonInfo (cfg : TriggerConfig) : CommonInfo where
  ul_bw := cfg.ul_bw.toNat &&& 0x3
  gi_ltf := cfg.gi_ltf.toNat &&& 0x3
  num_he_ltf := cfg.num_he_ltf.toNat &&& 0x7
  ap_tx_power := cfg.ap_tx_power.toNat &&& 0x3f

/-- The user info that it asks for, with this for the streams. -/
def TrigUser.userInfo (tu : TrigUser) (ss_alloc : ℕ) : UserInfo where
  aid12 := tu.aid12.toNat &&& 0xfff
  ru_alloc := tu.ru_alloc.toNat &&& 0xff
  ul_fec := tu.ldpc.toNat &&& 1
  ul_mcs := tu.ul_mcs.toNat &&& 0xf
  ul_dcm := tu.dcm.toNat &&& 1
  ss_alloc := ss_alloc &&& 0x3f
  tgt_rssi := he_tgt_rssi_enc tu.tgt_rssi_dbm.toInt &&& 0x7f

/-! ## What the host writes -/

@[simp] theorem TrigUser.length_bytes (tu : TrigUser) : tu.bytes.length = 6 := by
  simp [TrigUser.bytes]

@[simp] theorem length_trigger_header (ra ta : Option (Octets 6)) :
    (trigger_header ra ta).length = 16 := by
  rw [trigger_header, List.length_append, List.length_append, (ra.getD _).property,
    (ta.getD _).property]
  rfl

variable {cfg : TriggerConfig} {ra ta : Option (Octets 6)} {cap u : ℕ}

theorem common_at_build (hcap : cfg.need ≤ cap) :
    common_at (build_basic_trigger cfg ra ta cap) = pack cfg.common := by
  rw [build_basic_trigger, if_neg (by omega)]
  apply Wire.getLe_of_bytes _ (by omega)
  intro i hi
  rw [byteAt_append_left _ (by simp; omega), byteAt_append_left _ (by simp; omega),
    byteAt_append_right _ (by simp), length_trigger_header, Nat.add_sub_cancel_left]

theorem user_at_build (hcap : cfg.need ≤ cap) (hu : u < cfg.nuser) :
    user_at (build_basic_trigger cfg ra ta cap) u = pack (cfg.user u).ui := by
  have hblock : ∀ v, ((cfg.user v).bytes).length = 6 := fun v => (cfg.user v).length_bytes
  have hlen := length_blocks hblock cfg.nuser
  have hbelow : ∀ f ∈ [USER_AID12, USER_RU_ALLOC, USER_UL_FEC, USER_UL_MCS, USER_UL_DCM,
      USER_SS_ALLOC, USER_TGT_RSSI], (f.msk <<< f.sh) >>> (8 * 5) = 0#64 := by decide
  rw [build_basic_trigger, if_neg (by omega)]
  have hlow : Below (8 * 5) (cfg.user u).ui := hbelow
  apply getLe_of_low (fun j hj => getLsbD_pack_below hlow hj)
  intro i hi
  have hfront : (trigger_header ra ta ++ Wire.putLe 8 (pack cfg.common)).length = 24 := by simp
  have hmul : 6 * (u + 1) ≤ 6 * cfg.nuser := Nat.mul_le_mul_left 6 hu
  rw [byteAt_append_left _ (by rw [List.length_append, hfront, hlen]; omega),
    byteAt_append_right _ (by rw [hfront]; omega), hfront, Nat.add_assoc, Nat.add_sub_cancel_left,
    byteAt_blocks hblock hu (by omega), TrigUser.bytes, byteAt_append_left _ (by simpa using hi)]

/-- Each field of the common info is read back under its mask. -/
theorem get_common {f : Field 64} {n : ℕ} (hm : (f, BitVec.ofNat 64 n) ∈ cfg.common) (hf : f.Fits)
    (hn : n < 2 ^ 64) : (f.get (pack cfg.common)).toNat = n &&& f.msk.toNat := by
  have hapart : [COMMON_UL_LENGTH, COMMON_UL_BW, COMMON_GI_LTF, COMMON_NUM_HE_LTF,
      COMMON_AP_TX_POWER].Pairwise Field.Apart := by decide
  exact toNat_get_pack hapart hm hf hn

theorem get_ui {tu : TrigUser} {f : Field 64} {n : ℕ} (hm : (f, BitVec.ofNat 64 n) ∈ tu.ui)
    (hf : f.Fits) (hn : n < 2 ^ 64) : (f.get (pack tu.ui)).toNat = n &&& f.msk.toNat := by
  have hapart : [USER_AID12, USER_RU_ALLOC, USER_UL_FEC, USER_UL_MCS, USER_UL_DCM, USER_SS_ALLOC,
      USER_TGT_RSSI].Pairwise Field.Apart := by decide
  exact toNat_get_pack hapart hm hf hn

theorem lt_of_uint8 (x : UInt8) : x.toNat < 2 ^ 32 := by
  have h := x.toNat_lt
  omega

theorem lt_of_uint16 (x : UInt16) : x.toNat < 2 ^ 32 := by
  have h := x.toNat_lt
  omega

theorem trigger_common_build (hcap : cfg.need ≤ cap) :
    trigger_common (build_basic_trigger cfg ra ta cap) = cfg.commonInfo := by
  have hlt := fun x => Nat.lt_trans (lt_of_uint8 x) (by decide : 2 ^ 32 < 2 ^ 64)
  rw [trigger_common, common_at_build hcap,
    get_common (f := COMMON_UL_BW) (by simp [TriggerConfig.common]) (by decide) (hlt cfg.ul_bw),
    get_common (f := COMMON_GI_LTF) (by simp [TriggerConfig.common]) (by decide) (hlt cfg.gi_ltf),
    get_common (f := COMMON_NUM_HE_LTF) (by simp [TriggerConfig.common]) (by decide)
      (hlt cfg.num_he_ltf),
    get_common (f := COMMON_AP_TX_POWER) (by simp [TriggerConfig.common]) (by decide)
      (hlt cfg.ap_tx_power)]
  rfl

theorem trigger_user_build (hcap : cfg.need ≤ cap) (hu : u < cfg.nuser) :
    trigger_user (build_basic_trigger cfg ra ta cap) u =
      (cfg.user u).userInfo (cfg.user u).ss.toNat := by
  have hlt := fun x => Nat.lt_trans (lt_of_uint8 x) (by decide : 2 ^ 32 < 2 ^ 64)
  have hbool : ∀ b : Bool, b.toNat < 2 ^ 64 := by decide
  have haid : (cfg.user u).aid12.toNat < 2 ^ 64 := Nat.lt_trans (lt_of_uint16 _) (by decide)
  have hrssi : he_tgt_rssi_enc (cfg.user u).tgt_rssi_dbm.toInt < 2 ^ 64 :=
    Nat.lt_of_le_of_lt (he_tgt_rssi_enc_le _) (by decide)
  rw [trigger_user, user_at_build hcap hu,
    get_ui (f := USER_AID12) (by simp [TrigUser.ui]) (by decide) haid,
    get_ui (f := USER_RU_ALLOC) (by simp [TrigUser.ui]) (by decide) (hlt (cfg.user u).ru_alloc),
    get_ui (f := USER_UL_FEC) (by simp [TrigUser.ui]) (by decide) (hbool (cfg.user u).ldpc),
    get_ui (f := USER_UL_MCS) (by simp [TrigUser.ui]) (by decide) (hlt (cfg.user u).ul_mcs),
    get_ui (f := USER_UL_DCM) (by simp [TrigUser.ui]) (by decide) (hbool (cfg.user u).dcm),
    get_ui (f := USER_SS_ALLOC) (by simp [TrigUser.ui]) (by decide) (hlt (cfg.user u).ss),
    get_ui (f := USER_TGT_RSSI) (by simp [TrigUser.ui]) (by decide) hrssi]
  rfl

end devourer
