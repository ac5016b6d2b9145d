-- The codec of the migration messages. The fields of each type are written
-- and read back by two lists of their own, and a MAC follows the last field.
import Devourer.Chanmig.MigTypes
import Devourer.HopSchedule

namespace devourer.chanmig

open Wire

def kMigMagic : UInt16 := 0x4D43
def kMigVersion : UInt8 := 1
def kMigHeader : Nat := 8
def kMigMacLen : Nat := 8
def kMigMaxLen : Nat := 96

/-- The control key. -/
structure MigKey where
  k : HopSchedule.Key

def MigKey.mac (key : MigKey) (p : Bytes) : UInt64 := HopSchedule.siphash24 key.k p

/-! ## Fields -/

namespace wire

def p8 (v : UInt8) : Bytes := putLe 1 v.toBitVec
def p16 (v : UInt16) : Bytes := putLe 2 v.toBitVec
def p32 (v : UInt32) : Bytes := putLe 4 v.toBitVec
def p64 (v : UInt64) : Bytes := putLe 8 v.toBitVec

def g8 : Get UInt8 := UInt8.ofBitVec <$> word 8 1
def g16 : Get UInt16 := UInt16.ofBitVec <$> word 16 2
def g32 : Get UInt32 := UInt32.ofBitVec <$> word 32 4
def g64 : Get UInt64 := UInt64.ofBitVec <$> word 64 8

@[simp] theorem length_p8 (v : UInt8) : (p8 v).length = 1 := length_putLe _ _
@[simp] theorem length_p16 (v : UInt16) : (p16 v).length = 2 := length_putLe _ _
@[simp] theorem length_p32 (v : UInt32) : (p32 v).length = 4 := length_putLe _ _
@[simp] theorem length_p64 (v : UInt64) : (p64 v).length = 8 := length_putLe _ _

theorem reads_p8 (v : UInt8) : Reads g8 (p8 v) v :=
  (reads_word v.toBitVec (by decide)).map UInt8.ofBitVec

theorem reads_p16 (v : UInt16) : Reads g16 (p16 v) v :=
  (reads_word v.toBitVec (by decide)).map UInt16.ofBitVec

theorem reads_p32 (v : UInt32) : Reads g32 (p32 v) v :=
  (reads_word v.toBitVec (by decide)).map UInt32.ofBitVec

theorem reads_p64 (v : UInt64) : Reads g64 (p64 v) v :=
  (reads_word v.toBitVec (by decide)).map UInt64.ofBitVec

/-- The center byte of a channel: its number on the raster of its band. -/
def center (d : ChannelDef) : UInt8 :=
  let mhz : Int := d.center_mhz.toNat
  UInt8.ofInt (if mhz ≥ 5000 then (mhz - 5000).tdiv 5 else (mhz - 2407).tdiv 5)

def flags (no_ir dfs backup : Bool) : UInt8 :=
  (if no_ir then 1 else 0) ||| (if dfs then 2 else 0) ||| (if backup then 4 else 0)

theorem flags_bits : ∀ no_ir dfs backup : Bool,
    (flags no_ir dfs backup &&& 1 != 0) = no_ir ∧ (flags no_ir dfs backup &&& 2 != 0) = dfs ∧
      (flags no_ir dfs backup &&& 4 != 0) = backup := by
  decide

def pdef (d : ChannelDef) : Bytes :=
  List.flatten
    [ p8 d.band,
      p8 d.primary,
      p8 (center d),
      p8 d.width.toUInt8,
      p8 d.offset,
      p8 (flags d.no_ir d.dfs d.backup) ]

/-- The center byte is read and dropped. -/
def gdef : Get ChannelDef := do
  let band ← g8
  let primary ← g8
  let _ ← g8
  let width ← g8
  let offset ← g8
  let fl ← g8
  return {
    band
    primary
    width := .ofUInt8 width
    offset
    no_ir := fl &&& 1 != 0
    dfs := fl &&& 2 != 0
    backup := fl &&& 4 != 0 }

@[simp] theorem length_pdef (d : ChannelDef) : (pdef d).length = 6 := by
  simp [pdef]

/-- A channel is read back whole: what the center byte loses nobody reads. -/
theorem reads_pdef (d : ChannelDef) : Reads gdef (pdef d) d := by
  obtain ⟨h1, h2, h3⟩ := flags_bits d.no_ir d.dfs d.backup
  refine .cons (reads_p8 d.band) ?_
  refine .cons (reads_p8 d.primary) ?_
  refine .cons (reads_p8 (center d)) ?_
  refine .cons (reads_p8 d.width.toUInt8) ?_
  refine .cons (reads_p8 d.offset) ?_
  refine .cons (reads_p8 (flags d.no_ir d.dfs d.backup)) ?_
  simp only [h1, h2, h3, ChannelWidth_t.ofUInt8_toUInt8]
  exact .nil d

end wire

/-! ## Messages -/

def mig_header (t : MigMsgType) (link_id : UInt32) : List Bytes :=
  [wire.p16 kMigMagic, wire.p8 kMigVersion, wire.p8 t.toUInt8, wire.p32 link_id]

/-- The fields that `mig_encode` writes for each type. -/
def mig_fields (m : MigMsg) : List Bytes :=
  match m.type with
  | .MT_PROPOSAL =>
    [ wire.p32 m.ground_epoch,
      wire.p32 m.generation,
      wire.pdef m.source,
      wire.pdef m.target,
      wire.p32 m.evidence_gen,
      wire.p64 m.evidence_digest,
      wire.p64 m.earliest_tsf,
      wire.p64 m.latest_tsf,
      wire.p8 m.fallback_mode,
      wire.pdef m.rescue,
      wire.p32 m.ground_nonce ]
  | .MT_COMMIT =>
    [ wire.p32 m.drone_epoch,
      wire.p32 m.ground_epoch,
      wire.p32 m.generation,
      wire.pdef m.target,
      wire.p64 m.activate_tsf,
      wire.p64 m.tx_tsf,
      wire.p32 m.confirm_window_us,
      wire.p64 m.rollback_deadline_tsf,
      wire.pdef m.rescue,
      wire.p32 m.ground_nonce_echo,
      wire.p32 m.drone_nonce,
      wire.p8 m.armed ]
  | .MT_STATUS =>
    [ wire.p8 m.role,
      wire.p32 m.sender_epoch,
      wire.p32 m.generation,
      wire.p8 m.state,
      wire.pdef m.current,
      wire.p64 m.tx_tsf,
      wire.p8 m.reason,
      wire.p32 m.peer_nonce_echo ]
  | .MT_CONFIRM =>
    [ wire.p32 m.ground_epoch,
      wire.p32 m.generation,
      wire.p32 m.drone_nonce_echo,
      wire.p16 m.marker_count,
      wire.p16 m.video_frames,
      wire.p32 m.first_marker_tsfl ]
  | .MT_ABORT =>
    [ wire.p8 m.role,
      wire.p32 m.sender_epoch,
      wire.p32 m.generation,
      wire.p8 m.reason,
      wire.p8 m.effective,
      wire.p64 m.tx_tsf ]
  | .MT_MARKER =>
    [ wire.p32 m.drone_epoch,
      wire.p32 m.generation,
      wire.p32 m.seq,
      wire.pdef m.aired_on,
      wire.p8 m.marker_flags,
      wire.p64 m.tx_tsf ]
  | .MT_VALIDATION =>
    [ wire.p32 m.drone_epoch,
      wire.p32 m.generation,
      wire.pdef m.target,
      wire.p8 m.method,
      wire.p8 m.result,
      wire.p8 m.reason,
      wire.p32 m.obs_age_ms,
      wire.p32 m.obs_dur_ms,
      wire.p32 m.cca_delta,
      wire.p32 m.fa_delta,
      wire.p8 m.igi,
      wire.p8 m.nhm_busy_pct,
      wire.p8 m.energy_valid,
      wire.p16 m.cost_est_ms,
      wire.p64 m.tx_tsf ]

/-- Everything that the MAC is over. -/
def mig_plain (m : MigMsg) : Bytes :=
  (mig_header m.type m.link_id).flatten ++ (mig_fields m).flatten

/-- The MAC over everything so far follows it. -/
def mig_seal (b : Bytes) (key : MigKey) : Bytes := b ++ wire.p64 (key.mac b)

def mig_encode (m : MigMsg) (key : MigKey) : Bytes := mig_seal (mig_plain m) key

/-- The fields that `mig_decode` reads for each type. -/
def mig_read (out : MigMsg) : Get MigMsg :=
  match out.type with
  | .MT_PROPOSAL => do
    let ground_epoch ← wire.g32
    let generation ← wire.g32
    let source ← wire.gdef
    let target ← wire.gdef
    let evidence_gen ← wire.g32
    let evidence_digest ← wire.g64
    let earliest_tsf ← wire.g64
    let latest_tsf ← wire.g64
    let fallback_mode ← wire.g8
    let rescue ← wire.gdef
    let ground_nonce ← wire.g32
    return { out with
      ground_epoch, generation, source, target, evidence_gen, evidence_digest, earliest_tsf,
      latest_tsf, fallback_mode, rescue, ground_nonce }
  | .MT_COMMIT => do
    let drone_epoch ← wire.g32
    let ground_epoch ← wire.g32
    let generation ← wire.g32
    let target ← wire.gdef
    let activate_tsf ← wire.g64
    let tx_tsf ← wire.g64
    let confirm_window_us ← wire.g32
    let rollback_deadline_tsf ← wire.g64
    let rescue ← wire.gdef
    let ground_nonce_echo ← wire.g32
    let drone_nonce ← wire.g32
    let armed ← wire.g8
    return { out with
      drone_epoch, ground_epoch, generation, target, activate_tsf, tx_tsf, confirm_window_us,
      rollback_deadline_tsf, rescue, ground_nonce_echo, drone_nonce, armed }
  | .MT_STATUS => do
    let role ← wire.g8
    let sender_epoch ← wire.g32
    let generation ← wire.g32
    let state ← wire.g8
    let current ← wire.gdef
    let tx_tsf ← wire.g64
    let reason ← wire.g8
    let peer_nonce_echo ← wire.g32
    return { out with
      role, sender_epoch, generation, state, current, tx_tsf, reason, peer_nonce_echo }
  | .MT_CONFIRM => do
    let ground_epoch ← wire.g32
    let generation ← wire.g32
    let drone_nonce_echo ← wire.g32
    let marker_count ← wire.g16
    let video_frames ← wire.g16
    let first_marker_tsfl ← wire.g32
    return { out with
      ground_epoch, generation, drone_nonce_echo, marker_count, video_frames, first_marker_tsfl }
  | .MT_ABORT => do
    let role ← wire.g8
    let sender_epoch ← wire.g32
    let generation ← wire.g32
    let reason ← wire.g8
    let effective ← wire.g8
    let tx_tsf ← wire.g64
    return { out with
      role, sender_epoch, generation, reason, effective, tx_tsf }
  | .MT_MARKER => do
    let drone_epoch ← wire.g32
    let generation ← wire.g32
    let seq ← wire.g32
    let aired_on ← wire.gdef
    let marker_flags ← wire.g8
    let tx_tsf ← wire.g64
    return { out with
      drone_epoch, generation, seq, aired_on, marker_flags, tx_tsf }
  | .MT_VALIDATION => do
    let drone_epoch ← wire.g32
    let generation ← wire.g32
    let target ← wire.gdef
    let method ← wire.g8
    let result ← wire.g8
    let reason ← wire.g8
    let obs_age_ms ← wire.g32
    let obs_dur_ms ← wire.g32
    let cca_delta ← wire.g32
    let fa_delta ← wire.g32
    let igi ← wire.g8
    let nhm_busy_pct ← wire.g8
    let energy_valid ← wire.g8
    let cost_est_ms ← wire.g16
    let tx_tsf ← wire.g64
    return { out with
      drone_epoch, generation, target, method, result, reason, obs_age_ms, obs_dur_ms, cca_delta,
      fa_delta, igi, nhm_busy_pct, energy_valid, cost_est_ms, tx_tsf }

/-- Decodes and authenticates. The offset moves through the fields of the type, and the MAC is
where it ends; the bytes after the MAC are not looked at. -/
def mig_decode (p : Bytes) (key : MigKey) (expect_link : UInt32) (out : MigMsg) :
    MigReason × MigMsg :=
  if p.length < kMigHeader + kMigMacLen ∨ p.length > kMigMaxLen + 8 then (.Truncated, out)
  else
    let (magic, o) := wire.g16 p 0
    if magic ≠ kMigMagic then (.BadType, out)
    else
      let (version, o) := wire.g8 p o
      if version ≠ kMigVersion then (.BadVersion, out)
      else
        let (type, o) := wire.g8 p o
        let (link, o) := wire.g32 p o
        match MigMsgType.ofUInt8 type with
        | none => (.BadType, out)
        | some type =>
          if expect_link ≠ 0 ∧ link ≠ expect_link then (.BadLinkId, out)
          else
            let (out, o) := mig_read { type, link_id := link } p o
            if o + kMigMacLen > p.length then (.Truncated, out)
            else
              let want := key.mac (p.take o)
              let (got, _) := wire.g64 p o
              if want ≠ got then (.BadMac, out) else (.None, out)

/-! ## The round trip -/

/-- The message as its type carries it: the other fields have their defaults. -/
def carried (m : MigMsg) : MigMsg :=
  match m.type with
  | .MT_PROPOSAL =>
    { type := .MT_PROPOSAL
      link_id := m.link_id
      ground_epoch := m.ground_epoch
      generation := m.generation
      source := m.source
      target := m.target
      evidence_gen := m.evidence_gen
      evidence_digest := m.evidence_digest
      earliest_tsf := m.earliest_tsf
      latest_tsf := m.latest_tsf
      fallback_mode := m.fallback_mode
      rescue := m.rescue
      ground_nonce := m.ground_nonce }
  | .MT_COMMIT =>
    { type := .MT_COMMIT
      link_id := m.link_id
      drone_epoch := m.drone_epoch
      ground_epoch := m.ground_epoch
      generation := m.generation
      target := m.target
      activate_tsf := m.activate_tsf
      tx_tsf := m.tx_tsf
      confirm_window_us := m.confirm_window_us
      rollback_deadline_tsf := m.rollback_deadline_tsf
      rescue := m.rescue
      ground_nonce_echo := m.ground_nonce_echo
      drone_nonce := m.drone_nonce
      armed := m.armed }
  | .MT_STATUS =>
    { type := .MT_STATUS
      link_id := m.link_id
      role := m.role
      sender_epoch := m.sender_epoch
      generation := m.generation
      state := m.state
      current := m.current
      tx_tsf := m.tx_tsf
      reason := m.reason
      peer_nonce_echo := m.peer_nonce_echo }
  | .MT_CONFIRM =>
    { type := .MT_CONFIRM
      link_id := m.link_id
      ground_epoch := m.ground_epoch
      generation := m.generation
      drone_nonce_echo := m.drone_nonce_echo
      marker_count := m.marker_count
      video_frames := m.video_frames
      first_marker_tsfl := m.first_marker_tsfl }
  | .MT_ABORT =>
    { type := .MT_ABORT
      link_id := m.link_id
      role := m.role
      sender_epoch := m.sender_epoch
      generation := m.generation
      reason := m.reason
      effective := m.effective
      tx_tsf := m.tx_tsf }
  | .MT_MARKER =>
    { type := .MT_MARKER
      link_id := m.link_id
      drone_epoch := m.drone_epoch
      generation := m.generation
      seq := m.seq
      aired_on := m.aired_on
      marker_flags := m.marker_flags
      tx_tsf := m.tx_tsf }
  | .MT_VALIDATION =>
    { type := .MT_VALIDATION
      link_id := m.link_id
      drone_epoch := m.drone_epoch
      generation := m.generation
      target := m.target
      method := m.method
      result := m.result
      reason := m.reason
      obs_age_ms := m.obs_age_ms
      obs_dur_ms := m.obs_dur_ms
      cca_delta := m.cca_delta
      fa_delta := m.fa_delta
      igi := m.igi
      nhm_busy_pct := m.nhm_busy_pct
      energy_valid := m.energy_valid
      cost_est_ms := m.cost_est_ms
      tx_tsf := m.tx_tsf }

/-- Each list of reads takes the list of writes of its type, field for field. -/
theorem reads_fields (m : MigMsg) :
    Reads (mig_read { type := m.type, link_id := m.link_id }) (mig_fields m).flatten
      (carried m) := by
  unfold mig_read mig_fields carried
  rcases m.type with _ | _ | _ | _ | _ | _ | _
  all_goals
    simp only
    with_reducible
      repeat
        apply Reads.cons
        first
          | exact wire.reads_p8 _
          | exact wire.reads_p16 _
          | exact wire.reads_p32 _
          | exact wire.reads_p64 _
          | exact wire.reads_pdef _
      exact .nil _

theorem length_fields_le (m : MigMsg) : (mig_fields m).flatten.length ≤ 61 := by
  unfold mig_fields
  rcases m.type with _ | _ | _ | _ | _ | _ | _
  all_goals simp

theorem length_header (t : MigMsgType) (link_id : UInt32) :
    (mig_header t link_id).flatten.length = kMigHeader := by
  simp [mig_header, kMigHeader]

theorem length_encode (m : MigMsg) (key : MigKey) :
    (mig_encode m key).length = kMigHeader + (mig_fields m).flatten.length + kMigMacLen := by
  simp only [mig_encode, mig_seal, mig_plain, List.length_append, length_header, wire.length_p64]
  rfl

/-- A sealed message in a buffer, and where each of its parts is read. -/
theorem read_sealed (m : MigMsg) (key : MigKey) (t : Bytes) :
    let p := mig_encode m key ++ t
    let n := (mig_fields m).flatten.length
    wire.g16 p 0 = (kMigMagic, 2) ∧ wire.g8 p 2 = (kMigVersion, 3) ∧
      wire.g8 p 3 = (m.type.toUInt8, 4) ∧ wire.g32 p 4 = (m.link_id, 8) ∧
      mig_read { type := m.type, link_id := m.link_id } p 8 = (carried m, 8 + n) ∧
      wire.g64 p (8 + n) = (key.mac (mig_plain m), 8 + n + 8) ∧ p.take (8 + n) = mig_plain m := by
  intro p n
  have hp : p = wire.p16 kMigMagic ++ (wire.p8 kMigVersion ++ (wire.p8 m.type.toUInt8 ++
      (wire.p32 m.link_id ++ ((mig_fields m).flatten ++
        (wire.p64 (key.mac (mig_plain m)) ++ t))))) := by
    simp [p, mig_encode, mig_seal, mig_plain, mig_header]
  have hplain : (mig_plain m).length = 8 + n := by
    rw [mig_plain, List.length_append, length_header, kMigHeader]
  have hver := hp.trans (List.append_assoc _ _ _).symm
  have htype := hver.trans (List.append_assoc _ _ _).symm
  have hhead : p = (mig_header m.type m.link_id).flatten ++ ((mig_fields m).flatten ++
      (wire.p64 (key.mac (mig_plain m)) ++ t)) := by
    simp only [hp, mig_header, List.flatten_cons, List.flatten_nil, List.append_assoc,
      List.nil_append]
  have hbody : p = mig_plain m ++ (wire.p64 (key.mac (mig_plain m)) ++ t) := by
    simp only [p, mig_encode, mig_seal, List.append_assoc]
  refine ⟨?_, ?_, ?_, ?_, ?_, ?_, ?_⟩
  · exact (wire.reads_p16 _).at (u := []) hp rfl
  · exact (wire.reads_p8 _).at hp (wire.length_p16 _)
  · exact (wire.reads_p8 _).at hver (by simp)
  · exact (wire.reads_p32 _).at htype (by simp)
  · exact (reads_fields m).at hhead (length_header _ _)
  · exact (wire.reads_p64 _).at hbody hplain
  · rw [hbody, ← hplain]
    exact List.take_left

/-- What is encoded is decoded, whatever follows it on the air, and no encoding is longer than
the limit. -/
theorem the_codec_round_trips (m : MigMsg) (key : MigKey) :
    (mig_encode m key).length ≤ kMigMaxLen ∧
      ∀ (t : Bytes) (expect_link : UInt32) (out : MigMsg),
        expect_link = 0 ∨ expect_link = m.link_id →
        (mig_encode m key).length + t.length ≤ kMigMaxLen + 8 →
        mig_decode (mig_encode m key ++ t) key expect_link out = (.None, carried m) := by
  have hfields := length_fields_le m
  have hlen := length_encode m key
  simp only [kMigHeader, kMigMacLen] at hlen
  constructor
  · rw [hlen, kMigMaxLen]
    omega
  · intro t expect_link out hlink hfit
    obtain ⟨hmagic, hver, htype, hid, hread, hmac, htake⟩ := read_sealed m key t
    have htotal : (mig_encode m key ++ t).length =
        (mig_encode m key).length + t.length := List.length_append
    generalize mig_encode m key ++ t = p at *
    have hsize : ¬ (p.length < kMigHeader + kMigMacLen ∨ p.length > kMigMaxLen + 8) := by
      simp only [kMigHeader, kMigMacLen]
      omega
    have hlink' : ¬ (expect_link ≠ 0 ∧ m.link_id ≠ expect_link) := by
      rintro ⟨h0, hne⟩
      rcases hlink with rfl | rfl
      · exact h0 rfl
      · exact hne rfl
    have hroom : ¬ 8 + (mig_fields m).flatten.length + kMigMacLen > p.length := by
      simp only [kMigMacLen]
      omega
    unfold mig_decode
    rw [if_neg hsize]
    simp only [hmagic, hver, htype, hid, MigMsgType.ofUInt8_toUInt8, hread, hmac, htake]
    simp only [ne_eq, not_true_eq_false, if_false]
    rw [if_neg hlink', if_neg hroom]

/-- A commit to channel 40. -/
def demoMessage : MigMsg :=
  { type := .MT_COMMIT
    link_id := 0xC1
    drone_epoch := 0x22220001
    ground_epoch := 0x11110001
    generation := 1
    target := { band := 5, primary := 40, dfs := true }
    activate_tsf := 1600000
    rescue := { band := 5, primary := 44, width := .CHANNEL_WIDTH_40, offset := 1, backup := true }
    armed := 1 }

/-- The commit comes back with a check sequence of four bytes behind it. -/
theorem a_commit_round_trips :
    mig_decode (mig_encode demoMessage ⟨Octets.zero 16⟩ ++ [1, 2, 3, 4]) ⟨Octets.zero 16⟩ 0xC1 {} =
      (.None, demoMessage) := by
  have h := (the_codec_round_trips demoMessage ⟨Octets.zero 16⟩).2 [1, 2, 3, 4] 0xC1 {} (.inr rfl)
    (by rw [length_encode]; decide)
  exact h

end devourer.chanmig
