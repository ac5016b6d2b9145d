-- The same grant as a command to the firmware, which then builds the Trigger
-- itself, and where the two say the same.
import Devourer.Lib.BitFields
import Devourer.TriggerTwt

namespace devourer.kestrel

open Packed
open BitFields (le32)

/-! ## The fields of the command -/

def FWCMD_F2PTEST_ULBW : Field 32 := ⟨0, 0x3⟩
def FWCMD_F2PTEST_GILTF : Field 32 := ⟨2, 0x3⟩
def FWCMD_F2PTEST_NUMLTF : Field 32 := ⟨4, 0x7⟩
def FWCMD_F2PTEST_TXPWR : Field 32 := ⟨9, 0x3f⟩
def FWCMD_F2PTEST_USERNUM : Field 32 := ⟨16, 0xf⟩
def FWCMD_F2PTEST_BITMAP : Field 32 := ⟨24, 0xff⟩

def FWCMD_F2PTEST_AID12 : Field 32 := ⟨0, 0xfff⟩
def FWCMD_F2PTEST_ULMCS : Field 32 := ⟨12, 0xf⟩
def FWCMD_F2PTEST_MACID : Field 32 := ⟨16, 0xff⟩
def FWCMD_F2PTEST_RUPOS : Field 32 := ⟨24, 0xff⟩

def FWCMD_F2PTEST_ULFEC : Field 32 := ⟨0, 0x1⟩
def FWCMD_F2PTEST_ULDCM : Field 32 := ⟨1, 0x1⟩
def FWCMD_F2PTEST_SS_ALLOC : Field 32 := ⟨2, 0x3f⟩
def FWCMD_F2PTEST_UL_TGTRSSI : Field 32 := ⟨8, 0x7f⟩

def FWCMD_F2PTEST_DATARATE : Field 32 := ⟨0, 0x1ff⟩
def FWCMD_F2PTEST_MODE : Field 32 := ⟨16, 0x3⟩
def FWCMD_F2PTEST_TYPE : Field 32 := ⟨18, 0x3f⟩

def F2P_WD_CMD_QSEL : Field 32 := ⟨0, 0x3f⟩
def F2P_WD_LS : Field 32 := ⟨10, 1⟩
def F2P_WD_FS : Field 32 := ⟨11, 1⟩
def F2P_WD_TOTAL_NUMBER : Field 32 := ⟨12, 0xf⟩
def F2P_WD_LENGTH : Field 32 := ⟨24, 0xff⟩

def MAC_AX_MG0_SEL : ℕ := 18

/-! ## The command -/

/-- One layout of the command. -/
structure Layout where
  content_len : ℕ
  max_users : ℕ
  tfwd_off : ℕ
  depuser_off : ℕ

/-- The 4 users of the 8852B, or the 8 of the 8852C. -/
def layout (v1 : Bool) : Layout :=
  if v1 then ⟨288, 8, 76, 68⟩ else ⟨236, 4, 40, 36⟩

/-- Bits 2:0 are the first stream and bits 5:3 the number of streams less 1. -/
def ss_alloc_enc (ss : UInt8) : ℕ :=
  let nss := if ss = 0 then 0 else ss.toNat - 1
  (nss &&& 0x7) <<< 3

/-- The users that the layout has room for. -/
def users_of (cfg : TriggerConfig) (v1 : Bool) : ℕ := min cfg.nuser (layout v1).max_users

def f2p_common (cfg : TriggerConfig) (n : ℕ) : List (Field 32 × BitVec 32) :=
  [(FWCMD_F2PTEST_ULBW, BitVec.ofNat 32 cfg.ul_bw.toNat),
    (FWCMD_F2PTEST_GILTF, BitVec.ofNat 32 cfg.gi_ltf.toNat),
    (FWCMD_F2PTEST_NUMLTF, BitVec.ofNat 32 cfg.num_he_ltf.toNat),
    (FWCMD_F2PTEST_TXPWR, BitVec.ofNat 32 cfg.ap_tx_power.toNat),
    (FWCMD_F2PTEST_USERNUM, BitVec.ofNat 32 n),
    (FWCMD_F2PTEST_BITMAP, BitVec.ofNat 32 cfg.pri20_bitmap.toNat)]

def f2p_user_a (tu : TrigUser) : List (Field 32 × BitVec 32) :=
  [(FWCMD_F2PTEST_AID12, BitVec.ofNat 32 tu.aid12.toNat),
    (FWCMD_F2PTEST_ULMCS, BitVec.ofNat 32 tu.ul_mcs.toNat),
    (FWCMD_F2PTEST_MACID, BitVec.ofNat 32 tu.macid.toNat),
    (FWCMD_F2PTEST_RUPOS, BitVec.ofNat 32 tu.ru_alloc.toNat)]

def f2p_user_b (tu : TrigUser) : List (Field 32 × BitVec 32) :=
  [(FWCMD_F2PTEST_ULFEC, BitVec.ofNat 32 tu.ldpc.toNat),
    (FWCMD_F2PTEST_ULDCM, BitVec.ofNat 32 tu.dcm.toNat),
    (FWCMD_F2PTEST_SS_ALLOC, BitVec.ofNat 32 (ss_alloc_enc tu.ss)),
    (FWCMD_F2PTEST_UL_TGTRSSI, BitVec.ofNat 32 (he_tgt_rssi_enc tu.tgt_rssi_dbm.toInt))]

def f2p_tf_wd (cfg : TriggerConfig) : List (Field 32 × BitVec 32) :=
  [(FWCMD_F2PTEST_DATARATE, BitVec.ofNat 32 cfg.trig_rate.toNat),
    (FWCMD_F2PTEST_MODE, BitVec.ofNat 32 cfg.mode.toNat),
    (FWCMD_F2PTEST_TYPE, BitVec.ofNat 32 cfg.frexch_type.toNat)]

/-- The descriptor of the frame that the firmware builds, with its length in dwords. -/
def f2p_wd (n : ℕ) : List (Field 32 × BitVec 32) :=
  [(F2P_WD_CMD_QSEL, BitVec.ofNat 32 MAC_AX_MG0_SEL), (F2P_WD_FS, 1), (F2P_WD_LS, 1),
    (F2P_WD_TOTAL_NUMBER, 1), (F2P_WD_LENGTH, BitVec.ofNat 32 ((16 + 8 + 5 * n + 4 + 3) / 4))]

def put_le32 (o : ℕ) (l : List (Field 32 × BitVec 32)) : Memory.Store := ⟨o, Wire.putLe 4 (pack l)⟩

/-- What one user stores: two dwords, and a byte for the access category. -/
def user_stores (depuser_off : ℕ) (tu : TrigUser) (u : ℕ) : List Memory.Store :=
  [put_le32 ((1 + 2 * u) * 4) (f2p_user_a tu), put_le32 ((2 + 2 * u) * 4) (f2p_user_b tu),
    ⟨depuser_off + u, [tu.pref_ac &&& 0x3]⟩]

def f2p_stores (cfg : TriggerConfig) (v1 : Bool) : List Memory.Store :=
  let n := users_of cfg v1
  put_le32 0 (f2p_common cfg n) ::
    (List.range n).flatMap (fun u => user_stores (layout v1).depuser_off (cfg.user u) u) ++
      [put_le32 (layout v1).tfwd_off (f2p_tf_wd cfg),
        put_le32 ((layout v1).tfwd_off + 4) (f2p_wd n)]

def encode_f2p_trigger (cfg : TriggerConfig) (v1 : Bool) : Bytes :=
  (Memory.stores (fun _ => 0) (f2p_stores cfg v1)).read 0 (layout v1).content_len

/-! ## The grant in the command -/

def command_common (c : Bytes) : CommonInfo where
  ul_bw := (FWCMD_F2PTEST_ULBW.get (le32 c 0)).toNat
  gi_ltf := (FWCMD_F2PTEST_GILTF.get (le32 c 0)).toNat
  num_he_ltf := (FWCMD_F2PTEST_NUMLTF.get (le32 c 0)).toNat
  ap_tx_power := (FWCMD_F2PTEST_TXPWR.get (le32 c 0)).toNat

def command_user (c : Bytes) (u : ℕ) : UserInfo where
  aid12 := (FWCMD_F2PTEST_AID12.get (le32 c ((1 + 2 * u) * 4))).toNat
  ru_alloc := (FWCMD_F2PTEST_RUPOS.get (le32 c ((1 + 2 * u) * 4))).toNat
  ul_fec := (FWCMD_F2PTEST_ULFEC.get (le32 c ((2 + 2 * u) * 4))).toNat
  ul_mcs := (FWCMD_F2PTEST_ULMCS.get (le32 c ((1 + 2 * u) * 4))).toNat
  ul_dcm := (FWCMD_F2PTEST_ULDCM.get (le32 c ((2 + 2 * u) * 4))).toNat
  ss_alloc := (FWCMD_F2PTEST_SS_ALLOC.get (le32 c ((2 + 2 * u) * 4))).toNat
  tgt_rssi := (FWCMD_F2PTEST_UL_TGTRSSI.get (le32 c ((2 + 2 * u) * 4))).toNat

/-- The frame and the command say the same of the round and of each of `n` users. -/
def SameGrant (n : ℕ) (frame c : Bytes) : Prop :=
  trigger_common frame = command_common c ∧ ∀ u < n, trigger_user frame u = command_user c u

instance (n : ℕ) (frame c : Bytes) : Decidable (SameGrant n frame c) :=
  inferInstanceAs (Decidable (_ ∧ _))

/-! ## No two stores of the command meet -/

variable {cfg : TriggerConfig} {v1 : Bool} {u : ℕ}

theorem users_of_le (cfg : TriggerConfig) (v1 : Bool) : users_of cfg v1 ≤ (layout v1).max_users :=
  Nat.min_le_right _ _

/-- The dwords of the users end where their bytes start, and these before the last dwords. -/
theorem layout_fits (v1 : Bool) :
    4 + 8 * (layout v1).max_users ≤ (layout v1).depuser_off ∧
      (layout v1).depuser_off + (layout v1).max_users ≤ (layout v1).tfwd_off ∧
        (layout v1).tfwd_off + 8 ≤ (layout v1).content_len := by
  cases v1 <;> decide

@[simp] theorem put_le32_place (o : ℕ) (l : List (Field 32 × BitVec 32)) :
    (put_le32 o l).place = o := rfl

@[simp] theorem put_le32_length (o : ℕ) (l : List (Field 32 × BitVec 32)) :
    (put_le32 o l).bytes.length = 4 := Wire.length_putLe _ _

/-- A user writes its own two dwords and its own byte. -/
theorem user_stores_within {d : ℕ} {tu : TrigUser} {x : Memory.Store} (h : x ∈ user_stores d tu u) :
    x.Within (4 + 8 * u) 8 ∨ x.Within (d + u) 1 := by
  simp only [user_stores, List.mem_cons, List.not_mem_nil, or_false] at h
  rcases h with rfl | rfl | rfl
  · left
    simp only [Memory.Store.Within, put_le32_place, put_le32_length]
    omega
  · left
    simp only [Memory.Store.Within, put_le32_place, put_le32_length]
    omega
  · right
    simp [Memory.Store.Within]

/-- What two stores keep from each other. -/
abbrev ApartStores (x y : Memory.Store) : Prop :=
  Memory.Apart x.place x.bytes.length y.place y.bytes.length

theorem user_stores_pairwise {d : ℕ} (tu : TrigUser) (h : 4 + 8 * u + 8 ≤ d + u) :
    (user_stores d tu u).Pairwise ApartStores := by
  simp only [user_stores, List.pairwise_cons, List.mem_cons, List.not_mem_nil, or_false,
    forall_eq_or_imp, forall_eq, ApartStores, Memory.Apart, put_le32_place, put_le32_length,
    List.length_singleton]
  refine ⟨⟨?_, ?_⟩, ?_, ?_, List.Pairwise.nil⟩
  · omega
  · omega
  · omega
  · exact fun _ hx => hx.elim

theorem users_pairwise (cfg : TriggerConfig) (v1 : Bool) :
    ((List.range (users_of cfg v1)).flatMap
      fun u => user_stores (layout v1).depuser_off (cfg.user u) u).Pairwise ApartStores := by
  obtain ⟨hdep, -, -⟩ := layout_fits v1
  have hmax := users_of_le cfg v1
  rw [List.pairwise_flatMap]
  constructor
  · intro u hu
    have hlt := List.mem_range.mp hu
    exact user_stores_pairwise _ (by omega)
  · apply List.Pairwise.imp_of_mem _ List.pairwise_lt_range
    intro u v hu hv huv x hx y hy
    have hltu := List.mem_range.mp hu
    have hltv := List.mem_range.mp hv
    have hinx := user_stores_within hx
    have hiny := user_stores_within hy
    unfold Memory.Store.Within at hinx hiny
    unfold ApartStores Memory.Apart
    omega

theorem f2p_stores_pairwise (cfg : TriggerConfig) (v1 : Bool) :
    (f2p_stores cfg v1).Pairwise ApartStores := by
  obtain ⟨hdep, htfwd, -⟩ := layout_fits v1
  have hmax := users_of_le cfg v1
  -- every store of a user stands between the first dword and the last two
  have hmid : ∀ x ∈ (List.range (users_of cfg v1)).flatMap
      (fun u => user_stores (layout v1).depuser_off (cfg.user u) u),
      4 ≤ x.place ∧ x.place + x.bytes.length ≤ (layout v1).tfwd_off := by
    intro x hx
    obtain ⟨u, hu, hx⟩ := List.mem_flatMap.mp hx
    have hlt := List.mem_range.mp hu
    have hin := user_stores_within hx
    unfold Memory.Store.Within at hin
    omega
  rw [f2p_stores, List.cons_append, List.pairwise_cons, List.pairwise_append]
  refine ⟨?_, users_pairwise cfg v1, ?_, ?_⟩
  · intro y hy
    rcases List.mem_append.mp hy with hy | hy
    · have hin := hmid y hy
      simp only [ApartStores, Memory.Apart, put_le32_place, put_le32_length]
      omega
    · simp only [List.mem_cons, List.not_mem_nil, or_false] at hy
      rcases hy with rfl | rfl
      · simp only [ApartStores, Memory.Apart, put_le32_place, put_le32_length]
        omega
      · simp only [ApartStores, Memory.Apart, put_le32_place, put_le32_length]
        omega
  · simp only [List.pairwise_cons, List.mem_cons, List.not_mem_nil, or_false, forall_eq,
      ApartStores, Memory.Apart, put_le32_place, put_le32_length]
    exact ⟨by omega, fun _ hx => hx.elim, List.Pairwise.nil⟩
  · intro x hx y hy
    have hin := hmid x hx
    simp only [List.mem_cons, List.not_mem_nil, or_false] at hy
    rcases hy with rfl | rfl
    · simp only [ApartStores, Memory.Apart, put_le32_place, put_le32_length]
      omega
    · simp only [ApartStores, Memory.Apart, put_le32_place, put_le32_length]
      omega

/-! ## What the firmware reads -/

/-- A dword of the command is read back at its place. -/
theorem le32_encode {o : ℕ} {l : List (Field 32 × BitVec 32)} (h : put_le32 o l ∈ f2p_stores cfg v1)
    (ho : o + 4 ≤ (layout v1).content_len) : le32 (encode_f2p_trigger cfg v1) o = pack l := by
  have hread := Memory.read_stores_mem (m := fun _ => 0) h (f2p_stores_pairwise cfg v1)
  rw [put_le32_length] at hread
  apply Wire.getLe_of_bytes _ (by omega)
  intro i hi
  rw [encode_f2p_trigger, Memory.byteAt_read (by omega), Nat.zero_add]
  have hbyte := congrArg (byteAt · i) hread
  simp only [Memory.byteAt_read hi] at hbyte
  exact hbyte

theorem le32_common (cfg : TriggerConfig) (v1 : Bool) :
    le32 (encode_f2p_trigger cfg v1) 0 = pack (f2p_common cfg (users_of cfg v1)) := by
  apply le32_encode
  · simp [f2p_stores]
  · cases v1 <;> decide

theorem user_stores_subset (hu : u < users_of cfg v1) {x : Memory.Store}
    (hx : x ∈ user_stores (layout v1).depuser_off (cfg.user u) u) : x ∈ f2p_stores cfg v1 := by
  apply List.mem_append_left
  apply List.mem_cons_of_mem
  exact List.mem_flatMap.mpr ⟨u, List.mem_range.mpr hu, hx⟩

theorem le32_user_a (hu : u < users_of cfg v1) :
    le32 (encode_f2p_trigger cfg v1) ((1 + 2 * u) * 4) = pack (f2p_user_a (cfg.user u)) := by
  have hmax := users_of_le cfg v1
  have hfits := layout_fits v1
  apply le32_encode
  · exact user_stores_subset hu (by simp [user_stores])
  · omega

theorem le32_user_b (hu : u < users_of cfg v1) :
    le32 (encode_f2p_trigger cfg v1) ((2 + 2 * u) * 4) = pack (f2p_user_b (cfg.user u)) := by
  have hmax := users_of_le cfg v1
  have hfits := layout_fits v1
  apply le32_encode
  · exact user_stores_subset hu (by simp [user_stores])
  · omega

theorem get_f2p_common {f : Field 32} {n k : ℕ} (hm : (f, BitVec.ofNat 32 n) ∈ f2p_common cfg k)
    (hf : f.Fits) (hn : n < 2 ^ 32) :
    (f.get (pack (f2p_common cfg k))).toNat = n &&& f.msk.toNat := by
  have hapart : [FWCMD_F2PTEST_ULBW, FWCMD_F2PTEST_GILTF, FWCMD_F2PTEST_NUMLTF,
      FWCMD_F2PTEST_TXPWR, FWCMD_F2PTEST_USERNUM, FWCMD_F2PTEST_BITMAP].Pairwise Field.Apart := by
    decide
  exact toNat_get_pack hapart hm hf hn

theorem get_f2p_user_a {tu : TrigUser} {f : Field 32} {n : ℕ}
    (hm : (f, BitVec.ofNat 32 n) ∈ f2p_user_a tu) (hf : f.Fits) (hn : n < 2 ^ 32) :
    (f.get (pack (f2p_user_a tu))).toNat = n &&& f.msk.toNat := by
  have hapart : [FWCMD_F2PTEST_AID12, FWCMD_F2PTEST_ULMCS, FWCMD_F2PTEST_MACID,
      FWCMD_F2PTEST_RUPOS].Pairwise Field.Apart := by decide
  exact toNat_get_pack hapart hm hf hn

theorem get_f2p_user_b {tu : TrigUser} {f : Field 32} {n : ℕ}
    (hm : (f, BitVec.ofNat 32 n) ∈ f2p_user_b tu) (hf : f.Fits) (hn : n < 2 ^ 32) :
    (f.get (pack (f2p_user_b tu))).toNat = n &&& f.msk.toNat := by
  have hapart : [FWCMD_F2PTEST_ULFEC, FWCMD_F2PTEST_ULDCM, FWCMD_F2PTEST_SS_ALLOC,
      FWCMD_F2PTEST_UL_TGTRSSI].Pairwise Field.Apart := by decide
  exact toNat_get_pack hapart hm hf hn

theorem command_common_encode (cfg : TriggerConfig) (v1 : Bool) :
    command_common (encode_f2p_trigger cfg v1) = cfg.commonInfo := by
  rw [command_common, le32_common,
    get_f2p_common (f := FWCMD_F2PTEST_ULBW) (by simp [f2p_common]) (by decide)
      (lt_of_uint8 cfg.ul_bw),
    get_f2p_common (f := FWCMD_F2PTEST_GILTF) (by simp [f2p_common]) (by decide)
      (lt_of_uint8 cfg.gi_ltf),
    get_f2p_common (f := FWCMD_F2PTEST_NUMLTF) (by simp [f2p_common]) (by decide)
      (lt_of_uint8 cfg.num_he_ltf),
    get_f2p_common (f := FWCMD_F2PTEST_TXPWR) (by simp [f2p_common]) (by decide)
      (lt_of_uint8 cfg.ap_tx_power)]
  rfl

theorem ss_alloc_enc_lt (ss : UInt8) : ss_alloc_enc ss < 2 ^ 32 := by
  have hle : (if ss = 0 then 0 else ss.toNat - 1) &&& 0x7 ≤ 7 := Nat.and_le_right
  rw [ss_alloc_enc, Nat.shiftLeft_eq]
  omega

theorem command_user_encode (hu : u < users_of cfg v1) :
    command_user (encode_f2p_trigger cfg v1) u =
      (cfg.user u).userInfo (ss_alloc_enc (cfg.user u).ss) := by
  have hbool : ∀ b : Bool, b.toNat < 2 ^ 32 := by decide
  have hrssi : he_tgt_rssi_enc (cfg.user u).tgt_rssi_dbm.toInt < 2 ^ 32 :=
    Nat.lt_of_le_of_lt (he_tgt_rssi_enc_le _) (by decide)
  rw [command_user, le32_user_a hu, le32_user_b hu,
    get_f2p_user_a (f := FWCMD_F2PTEST_AID12) (by simp [f2p_user_a]) (by decide)
      (lt_of_uint16 (cfg.user u).aid12),
    get_f2p_user_a (f := FWCMD_F2PTEST_RUPOS) (by simp [f2p_user_a]) (by decide)
      (lt_of_uint8 (cfg.user u).ru_alloc),
    get_f2p_user_b (f := FWCMD_F2PTEST_ULFEC) (by simp [f2p_user_b]) (by decide)
      (hbool (cfg.user u).ldpc),
    get_f2p_user_a (f := FWCMD_F2PTEST_ULMCS) (by simp [f2p_user_a]) (by decide)
      (lt_of_uint8 (cfg.user u).ul_mcs),
    get_f2p_user_b (f := FWCMD_F2PTEST_ULDCM) (by simp [f2p_user_b]) (by decide)
      (hbool (cfg.user u).dcm),
    get_f2p_user_b (f := FWCMD_F2PTEST_SS_ALLOC) (by simp [f2p_user_b]) (by decide)
      (ss_alloc_enc_lt (cfg.user u).ss),
    get_f2p_user_b (f := FWCMD_F2PTEST_UL_TGTRSSI) (by simp [f2p_user_b]) (by decide) hrssi]
  rfl

/-! ## Where the two agree -/

/-- The number of streams and its subfield are the same 6 bits for these values only. -/
theorem raw_ss_iff (ss : UInt8) :
    ss.toNat &&& 0x3f = ss_alloc_enc ss &&& 0x3f ↔ ss = 0 ∨ ss.toNat % 64 = 56 := by
  have hzero : ss = 0 ↔ ss.toNat = 0 := by
    rw [← UInt8.toNat_inj]
    rfl
  have hlow : ∀ n, n &&& 0x3f = n % 64 := fun n => Nat.and_two_pow_sub_one_eq_mod n 6
  have hlow' : ∀ n, n &&& 0x7 = n % 8 := fun n => Nat.and_two_pow_sub_one_eq_mod n 3
  simp only [ss_alloc_enc, hzero, hlow, hlow', Nat.shiftLeft_eq]
  by_cases h : ss.toNat = 0
  · simp [h]
  · rw [if_neg h]
    omega

theorem userInfo_inj {tu : TrigUser} {a b : ℕ} :
    tu.userInfo a = tu.userInfo b ↔ a &&& 0x3f = b &&& 0x3f := by
  simp [TrigUser.userInfo]

/-- A round of 1 to 4 users fits both layouts. -/
theorem users_of_eq (h1 : 1 ≤ cfg.n_users.toNat) (h4 : cfg.n_users.toNat ≤ 4) (v1 : Bool) :
    cfg.nuser = cfg.n_users.toNat ∧ users_of cfg v1 = cfg.n_users.toNat := by
  have hne : cfg.n_users ≠ 0 := by
    rintro h
    rw [h] at h1
    exact absurd h1 (by decide)
  have hnuser : cfg.nuser = cfg.n_users.toNat := if_neg hne
  refine ⟨hnuser, ?_⟩
  rw [users_of, hnuser]
  apply Nat.min_eq_left
  cases v1
  · exact h4
  · exact Nat.le_trans h4 (by decide)

/-- All but the streams is the same in both. -/
theorem grants_agree_but_for_streams (ra ta : Option (Octets 6)) (v1 : Bool) {cap : ℕ}
    (h1 : 1 ≤ cfg.n_users.toNat) (h4 : cfg.n_users.toNat ≤ 4) (hcap : cfg.need ≤ cap) :
    trigger_common (build_basic_trigger cfg ra ta cap) =
        command_common (encode_f2p_trigger cfg v1) ∧
      ∀ u < cfg.n_users.toNat,
        trigger_user (build_basic_trigger cfg ra ta cap) u =
            (cfg.user u).userInfo (cfg.user u).ss.toNat ∧
          command_user (encode_f2p_trigger cfg v1) u =
            (cfg.user u).userInfo (ss_alloc_enc (cfg.user u).ss) := by
  obtain ⟨hnuser, husers⟩ := users_of_eq h1 h4 v1
  constructor
  · rw [trigger_common_build hcap, command_common_encode]
  · intro u hu
    exact ⟨trigger_user_build hcap (by omega), command_user_encode (by omega)⟩

theorem sameGrant_iff (ra ta : Option (Octets 6)) (v1 : Bool) {cap : ℕ}
    (h1 : 1 ≤ cfg.n_users.toNat) (h4 : cfg.n_users.toNat ≤ 4) (hcap : cfg.need ≤ cap) :
    SameGrant cfg.n_users.toNat (build_basic_trigger cfg ra ta cap) (encode_f2p_trigger cfg v1) ↔
      ∀ u < cfg.n_users.toNat, (cfg.user u).ss = 0 ∨ (cfg.user u).ss.toNat % 64 = 56 := by
  obtain ⟨hcommon, huser⟩ := grants_agree_but_for_streams ra ta v1 h1 h4 hcap
  constructor
  · rintro ⟨-, h⟩ u hu
    have hsame := h u hu
    rwa [(huser u hu).1, (huser u hu).2, userInfo_inj, raw_ss_iff] at hsame
  · intro h
    refine ⟨hcommon, ?_⟩
    intro u hu
    rw [(huser u hu).1, (huser u hu).2, userInfo_inj, raw_ss_iff]
    exact h u hu

/-- The two are the same grant only for stream counts that the field does not document: the frame
takes the count itself for its subfield. -/
theorem host_and_firmware_grants_agree (cfg : TriggerConfig) (ra ta : Option (Octets 6)) (cap : ℕ)
    (v1 : Bool) (h1 : 1 ≤ cfg.n_users.toNat) (h4 : cfg.n_users.toNat ≤ 4) (hcap : cfg.need ≤ cap) :
    (SameGrant cfg.n_users.toNat (build_basic_trigger cfg ra ta cap) (encode_f2p_trigger cfg v1) ↔
      ∀ u < cfg.n_users.toNat, (cfg.user u).ss = 0 ∨ (cfg.user u).ss.toNat % 64 = 56) ∧
    (cfg.InRange → ¬ SameGrant cfg.n_users.toNat (build_basic_trigger cfg ra ta cap)
      (encode_f2p_trigger cfg v1)) := by
  have hiff := sameGrant_iff ra ta v1 h1 h4 hcap
  refine ⟨hiff, ?_⟩
  intro hrange hsame
  obtain ⟨-, -, -, -, -, -, -, -, huser⟩ := hrange
  obtain ⟨-, -, hlow, hhigh, -⟩ := huser 0 h1
  rcases hiff.mp hsame 0 h1 with h | h
  · rw [h] at hlow
    exact absurd hlow (by decide)
  · omega

/-- Three stations with a unit each of a 40 MHz round, and this number of streams. -/
def three_users (ss : UInt8) : TriggerConfig where
  ul_bw := 1
  n_users := 3
  users :=
    #v[{ aid12 := 1, macid := 4, ru_alloc := 53, ul_mcs := 7, ss },
      { aid12 := 2, macid := 5, ru_alloc := 54, ldpc := true, ss },
      { aid12 := 3, macid := 6, ru_alloc := 55, dcm := true, tgt_rssi_dbm := -70, ss },
      {}, {}, {}, {}, {}]

/-- With two streams each the grants differ, and only with none are they the same. -/
theorem three_grants_differ :
    (three_users 2).InRange ∧
      ¬ SameGrant 3 (build_basic_trigger (three_users 2) none none 64)
        (encode_f2p_trigger (three_users 2) true) ∧
      SameGrant 3 (build_basic_trigger (three_users 0) none none 64)
        (encode_f2p_trigger (three_users 0) true) := by
  have hrange : (three_users 2).InRange := by decide
  have h := host_and_firmware_grants_agree (three_users 2) none none 64 true (by decide) (by decide)
    (by decide)
  have h0 :=
    host_and_firmware_grants_agree (three_users 0) none none 64 true (by decide) (by decide)
    (by decide)
  exact ⟨hrange, h.2 hrange, h0.1.mpr (by decide)⟩

/-- The default configuration: one stream is 1 in the frame and 0 in the command. -/
theorem one_stream_reads_differently :
    ¬ ∀ (cfg : TriggerConfig) (ra ta : Option (Octets 6)) (cap : ℕ) (v1 : Bool),
      1 ≤ cfg.n_users.toNat → cfg.n_users.toNat ≤ 4 → cfg.InRange → cfg.need ≤ cap →
        SameGrant cfg.n_users.toNat (build_basic_trigger cfg ra ta cap)
          (encode_f2p_trigger cfg v1) := by
  intro h
  have hsame := h {} none none 36 false (by decide) (by decide) (by decide) (by decide)
  have hss := (sameGrant_iff none none false (by decide) (by decide) (by decide)).mp hsame 0
    (by decide)
  exact absurd hss (by decide)

end devourer.kestrel
