-- The codec of the hopset messages, and of the two sync markers of the hot
-- path. A message is read inside its buffer or not at all.
import Devourer.Lib.Fetch
import Devourer.Hopset.HopsetTypes
import Devourer.Hopset.HopsetSchedule

namespace devourer.hopset

open Wire

def kHopsetMagic : UInt16 := 0x5348
def kHopsetVersion : UInt8 := 1
def kHopsetHeader : Nat := 8
def kHopsetMacLen : Nat := 8
def kHopsetMaxLen : Nat := 96

/-! ## Messages -/

namespace HopsetMsgType

def toUInt8 : HopsetMsgType → UInt8
  | HT_PROPOSAL => 1
  | HT_COMMIT => 2
  | HT_STATUS => 3

/-- The type of a byte, if it is in the range that the decoder checks. -/
def ofUInt8 : UInt8 → Option HopsetMsgType
  | 1 => some HT_PROPOSAL
  | 2 => some HT_COMMIT
  | 3 => some HT_STATUS
  | _ => none

theorem ofUInt8_toUInt8 (t : HopsetMsgType) : ofUInt8 t.toUInt8 = some t := by
  cases t with
  | HT_PROPOSAL => rfl
  | HT_COMMIT => rfl
  | HT_STATUS => rfl

/-- The whole length of a message, as the decoder has it. -/
def size : HopsetMsgType → Nat
  | HT_PROPOSAL => 56
  | HT_COMMIT => 68
  | HT_STATUS => 58

end HopsetMsgType

def hopset_header (t : HopsetMsgType) (link_id : UInt32) : List Bytes :=
  [put16 kHopsetMagic, put8 kHopsetVersion, put8 t.toUInt8, put32 link_id]

/-- The fields that `hopset_encode` writes for each type. -/
def hopset_fields (m : HopsetMsg) : List Bytes :=
  match m.type with
  | .HT_PROPOSAL =>
    [ put32 m.rx_epoch,
      put32 m.generation,
      put64 m.active_mask,
      put32 m.base_fp,
      put32 m.observation_count,
      put32 m.reason_bitmap,
      put64 m.earliest_activate_round,
      put32 m.rx_nonce ]
  | .HT_COMMIT =>
    [ put32 m.tx_epoch,
      put32 m.rx_epoch_echo,
      put32 m.generation,
      put64 m.active_mask,
      put32 m.base_fp,
      put64 m.activate_round,
      put64 m.activate_slot,
      put64 m.current_round,
      put32 m.rx_nonce_echo ]
  | .HT_STATUS =>
    [ put8 m.role,
      put32 m.sender_epoch,
      put32 m.generation,
      put64 m.active_mask,
      put32 m.base_fp,
      put64 m.current_round,
      put64 m.activate_slot,
      put8 m.reason,
      put32 m.rx_nonce_echo ]

def hopset_plain (m : HopsetMsg) : Bytes :=
  (hopset_header m.type m.link_id).flatten ++ (hopset_fields m).flatten

def hopset_seal (b : Bytes) (keys : HopsetKeys) : Bytes := b ++ put64 (keys.mac b)

def hopset_encode (m : HopsetMsg) (keys : HopsetKeys) : Bytes := hopset_seal (hopset_plain m) keys

/-- The fields that `hopset_decode` reads for each type. -/
def hopset_read (out : HopsetMsg) : Fetch HopsetMsg :=
  match out.type with
  | .HT_PROPOSAL => do
    let rx_epoch ← get32
    let generation ← get32
    let active_mask ← get64
    let base_fp ← get32
    let observation_count ← get32
    let reason_bitmap ← get32
    let earliest_activate_round ← get64
    let rx_nonce ← get32
    return { out with
      rx_epoch, generation, active_mask, base_fp, observation_count, reason_bitmap,
      earliest_activate_round, rx_nonce }
  | .HT_COMMIT => do
    let tx_epoch ← get32
    let rx_epoch_echo ← get32
    let generation ← get32
    let active_mask ← get64
    let base_fp ← get32
    let activate_round ← get64
    let activate_slot ← get64
    let current_round ← get64
    let rx_nonce_echo ← get32
    return { out with
      tx_epoch, rx_epoch_echo, generation, active_mask, base_fp, activate_round, activate_slot,
      current_round, rx_nonce_echo }
  | .HT_STATUS => do
    let role ← get8
    let sender_epoch ← get32
    let generation ← get32
    let active_mask ← get64
    let base_fp ← get32
    let current_round ← get64
    let activate_slot ← get64
    let reason ← get8
    let rx_nonce_echo ← get32
    return { out with
      role, sender_epoch, generation, active_mask, base_fp, current_round, activate_slot, reason,
      rx_nonce_echo }

/-- The part of `hopset_decode` from the `switch` on: the fields of the type, and the MAC right
after them. -/
def hopset_open (type : HopsetMsgType) (link : UInt32) (p : Bytes) (keys : HopsetKeys) :
    Option (HopsetReason × HopsetMsg) :=
  if p.length < type.size then some (.Truncated, { type, link_id := link })
  else do
    let (out, o) ← hopset_read { type, link_id := link } p kHopsetHeader
    if o + kHopsetMacLen > p.length then some (.Truncated, out)
    else do
      let body ← first p o
      let (got, _) ← get64 p o
      if keys.mac body ≠ got then some (.BadMac, out) else some (.None, out)

/-- Decodes and authenticates. There is no result when a byte past the end is read. -/
def hopset_decode (p : Bytes) (keys : HopsetKeys) (expect_link : UInt32) (out : HopsetMsg) :
    Option (HopsetReason × HopsetMsg) :=
  if p.length < kHopsetHeader + kHopsetMacLen ∨ p.length > kHopsetMaxLen + 8 then
    some (.Truncated, out)
  else do
    let (magic, o) ← get16 p 0
    if magic ≠ kHopsetMagic then some (.BadType, out)
    else do
      let (version, o) ← get8 p o
      if version ≠ kHopsetVersion then some (.BadVersion, out)
      else do
        let (type, o) ← get8 p o
        let (link, _) ← get32 p o
        match HopsetMsgType.ofUInt8 type with
        | none => some (.BadType, out)
        | some type =>
          if expect_link ≠ 0 ∧ link ≠ expect_link then some (.BadLinkId, out)
          else hopset_open type link p keys

/-! ## Reads stay inside -/

/-- The widths of the fields of each type. -/
def widths : HopsetMsgType → List Nat
  | .HT_PROPOSAL => [4, 4, 8, 4, 4, 4, 8, 4]
  | .HT_COMMIT => [4, 4, 4, 8, 4, 8, 8, 8, 4]
  | .HT_STATUS => [1, 4, 4, 8, 4, 8, 8, 1, 4]

theorem takes_read (out : HopsetMsg) : Takes (hopset_read out) (widths out.type).sum := by
  unfold hopset_read widths
  rcases out.type with _ | _ | _
  all_goals
    simp only
    with_reducible
      repeat
        refine Takes.cons ?_ fun _ => ?_
        first
          | exact takes_get8
          | exact takes_get32
          | exact takes_get64
      exact .nil _

/-- The lengths that the decoder asks for are those of the fields, the header and the MAC. -/
theorem size_eq (t : HopsetMsgType) : t.size = kHopsetHeader + (widths t).sum + kHopsetMacLen := by
  cases t with
  | HT_PROPOSAL => rfl
  | HT_COMMIT => rfl
  | HT_STATUS => rfl

theorem hopset_open_isSome (type : HopsetMsgType) (link : UInt32) (p : Bytes) (keys : HopsetKeys) :
    (hopset_open type link p keys).isSome := by
  unfold hopset_open
  split
  · rfl
  · rename_i hsize
    rw [size_eq, kHopsetHeader, kHopsetMacLen] at hsize
    have hfields : 8 + (widths type).sum ≤ p.length := by omega
    obtain ⟨m, hm⟩ := takes_read { type, link_id := link } p 8 hfields
    obtain ⟨got, hgot⟩ := takes_get64 p (8 + (widths type).sum) (by omega)
    rw [kHopsetHeader, hm]
    dsimp only [Option.bind_eq_bind, Option.bind_some]
    split
    · rfl
    · rw [first_eq hfields, hgot]
      dsimp only [Option.bind_some]
      split
      · rfl
      · rfl

/-- Whatever the buffer holds, no byte past its end is read. -/
theorem hopset_decode_isSome (p : Bytes) (keys : HopsetKeys) (expect_link : UInt32)
    (out : HopsetMsg) : (hopset_decode p keys expect_link out).isSome := by
  unfold hopset_decode
  split
  · rfl
  · rename_i hlen
    have hroom : 16 ≤ p.length := by
      rw [not_or, Nat.not_lt] at hlen
      exact hlen.1
    obtain ⟨magic, hmagic⟩ := takes_get16 p 0 (by omega)
    obtain ⟨version, hversion⟩ := takes_get8 p 2 (by omega)
    obtain ⟨type, htype⟩ := takes_get8 p 3 (by omega)
    obtain ⟨link, hlink⟩ := takes_get32 p 4 (by omega)
    simp only [Nat.zero_add, Nat.reduceAdd] at hmagic hversion htype hlink
    simp only [hmagic, hversion, htype, hlink, Option.bind_eq_bind, Option.bind_some]
    split
    · rfl
    · split
      · rfl
      · split
        · rfl
        · split
          · rfl
          · exact hopset_open_isSome _ _ _ _

/-! ## The round trip -/

/-- The message as its type carries it: the other fields have their defaults. -/
def carried (m : HopsetMsg) : HopsetMsg :=
  match m.type with
  | .HT_PROPOSAL =>
    { type := .HT_PROPOSAL
      link_id := m.link_id
      rx_epoch := m.rx_epoch
      generation := m.generation
      active_mask := m.active_mask
      base_fp := m.base_fp
      observation_count := m.observation_count
      reason_bitmap := m.reason_bitmap
      earliest_activate_round := m.earliest_activate_round
      rx_nonce := m.rx_nonce }
  | .HT_COMMIT =>
    { type := .HT_COMMIT
      link_id := m.link_id
      tx_epoch := m.tx_epoch
      rx_epoch_echo := m.rx_epoch_echo
      generation := m.generation
      active_mask := m.active_mask
      base_fp := m.base_fp
      activate_round := m.activate_round
      activate_slot := m.activate_slot
      current_round := m.current_round
      rx_nonce_echo := m.rx_nonce_echo }
  | .HT_STATUS =>
    { type := .HT_STATUS
      link_id := m.link_id
      role := m.role
      sender_epoch := m.sender_epoch
      generation := m.generation
      active_mask := m.active_mask
      base_fp := m.base_fp
      current_round := m.current_round
      activate_slot := m.activate_slot
      reason := m.reason
      rx_nonce_echo := m.rx_nonce_echo }

/-- Each list of reads takes the list of writes of its type, field for field. -/
theorem fetches_fields (m : HopsetMsg) :
    Fetches (hopset_read { type := m.type, link_id := m.link_id }) (hopset_fields m).flatten
      (carried m) := by
  unfold hopset_read hopset_fields carried
  rcases m.type with _ | _ | _
  all_goals
    simp only
    with_reducible
      repeat
        apply Fetches.cons
        first
          | exact fetches_put8 _
          | exact fetches_put32 _
          | exact fetches_put64 _
      exact .nil _

theorem length_fields (m : HopsetMsg) : (hopset_fields m).flatten.length = (widths m.type).sum := by
  unfold hopset_fields widths
  rcases m.type with _ | _ | _
  all_goals simp

theorem length_header (t : HopsetMsgType) (link_id : UInt32) :
    (hopset_header t link_id).flatten.length = kHopsetHeader := by
  simp [hopset_header, kHopsetHeader]

theorem length_plain (m : HopsetMsg) :
    (hopset_plain m).length = kHopsetHeader + (widths m.type).sum := by
  rw [hopset_plain, List.length_append, length_header, length_fields]

theorem length_encode (m : HopsetMsg) (keys : HopsetKeys) :
    (hopset_encode m keys).length = m.type.size := by
  rw [hopset_encode, hopset_seal, List.length_append, length_plain, length_put64, size_eq]
  rfl

/-- A sealed message is opened where it was sealed. -/
theorem hopset_open_encode (m : HopsetMsg) (keys : HopsetKeys) (t : Bytes) :
    hopset_open m.type m.link_id (hopset_encode m keys ++ t) keys = some (.None, carried m) := by
  have hlen : (hopset_encode m keys ++ t).length = m.type.size + t.length := by
    rw [List.length_append, length_encode]
  have hsize := size_eq m.type
  have hplain := length_plain m
  have hbody :
      hopset_encode m keys ++ t = hopset_plain m ++ (put64 (keys.mac (hopset_plain m)) ++ t) := by
    rw [hopset_encode, hopset_seal, List.append_assoc]
  have hhead : hopset_encode m keys ++ t = (hopset_header m.type m.link_id).flatten ++
      ((hopset_fields m).flatten ++ (put64 (keys.mac (hopset_plain m)) ++ t)) := by
    rw [hbody, hopset_plain, List.append_assoc]
  have hread := (fetches_fields m).at hhead (length_header _ _)
  rw [length_fields] at hread
  have hgot := (fetches_put64 _).at hbody hplain
  have hmac : first (hopset_encode m keys ++ t) (kHopsetHeader + (widths m.type).sum) =
      some (hopset_plain m) := by
    rw [first_eq (by omega), hbody, ← hplain, List.take_left]
  unfold hopset_open
  rw [if_neg (by omega), hread]
  dsimp only [Option.bind_eq_bind, Option.bind_some]
  rw [if_neg (by omega), hmac, hgot]
  dsimp only [Option.bind_some]
  rw [if_neg (not_not.mpr rfl)]

/-- The header of a sealed message. -/
theorem fetch_header (m : HopsetMsg) (keys : HopsetKeys) (t : Bytes) :
    let p := hopset_encode m keys ++ t
    get16 p 0 = some (kHopsetMagic, 2) ∧ get8 p 2 = some (kHopsetVersion, 3) ∧
      get8 p 3 = some (m.type.toUInt8, 4) ∧ get32 p 4 = some (m.link_id, 8) := by
  intro p
  have hmagic : p = put16 kHopsetMagic ++ (put8 kHopsetVersion ++
      (put8 m.type.toUInt8 ++ (put32 m.link_id ++ ((hopset_fields m).flatten ++
        (put64 (keys.mac (hopset_plain m)) ++ t))))) := by
    simp [p, hopset_encode, hopset_seal, hopset_plain, hopset_header]
  have hver := hmagic.trans (List.append_assoc _ _ _).symm
  have htype := hver.trans (List.append_assoc _ _ _).symm
  refine ⟨?_, ?_, ?_, ?_⟩
  · exact (fetches_put16 _).at (u := []) hmagic rfl
  · exact (fetches_put8 _).at hmagic (length_put16 _)
  · exact (fetches_put8 _).at hver (by simp)
  · exact (fetches_put32 _).at htype (by simp)

/-- A message comes back whole, whatever follows it on the air. -/
theorem hopset_decode_encode {m : HopsetMsg} {keys : HopsetKeys} {t : Bytes} {expect_link : UInt32}
    {out : HopsetMsg} (hlink : expect_link = 0 ∨ expect_link = m.link_id)
    (hfit : (hopset_encode m keys ++ t).length ≤ kHopsetMaxLen + 8) :
    hopset_decode (hopset_encode m keys ++ t) keys expect_link out = some (.None, carried m) := by
  obtain ⟨hmagic, hversion, htype, hid⟩ := fetch_header m keys t
  have hopen := hopset_open_encode m keys t
  have hlen : (hopset_encode m keys ++ t).length = m.type.size + t.length := by
    rw [List.length_append, length_encode]
  have hsize := size_eq m.type
  generalize hopset_encode m keys ++ t = p at *
  have hroom : ¬ (p.length < kHopsetHeader + kHopsetMacLen ∨ p.length > kHopsetMaxLen + 8) := by
    omega
  have hlink' : ¬ (expect_link ≠ 0 ∧ m.link_id ≠ expect_link) := by
    rintro ⟨h0, hne⟩
    rcases hlink with rfl | rfl
    · exact h0 rfl
    · exact hne rfl
  unfold hopset_decode
  rw [if_neg hroom]
  simp only [hmagic, hversion, htype, hid, HopsetMsgType.ofUInt8_toUInt8, Option.bind_eq_bind,
    Option.bind_some]
  rw [if_neg (not_not.mpr rfl), if_neg (not_not.mpr rfl), if_neg hlink', hopen]

end devourer.hopset

/-! ## Sync markers -/

namespace devourer

open Wire

/-- The element that a marker starts with, its version, and the two bytes that it ends with. -/
def marker_at (kSize : Nat) (version : UInt8) (p : Bytes) (i : Nat) : Bool :=
  byteAt p i = 221 ∧ byteAt p (i + 1) = UInt8.ofNat (kSize - 2) ∧ byteAt p (i + 2) = 0x57 ∧
    byteAt p (i + 3) = 0x42 ∧ byteAt p (i + 4) = 0x75 ∧ byteAt p (i + 5) = 0x48 ∧
    byteAt p (i + 6) = version ∧ byteAt p (i + (kSize - 2)) = 0xd7 ∧
    byteAt p (i + (kSize - 1)) = 0x3a

/-- The first offset that a marker fits at and is found at. -/
def find_marker (kSize : Nat) (version : UInt8) (p : Bytes) : Option Nat :=
  (List.range (p.length + 1 - kSize)).find? (marker_at kSize version p)

/-- A marker around its fields. -/
def put_marker (kSize : Nat) (version : UInt8) (fields : Bytes) : Bytes :=
  [221, UInt8.ofNat (kSize - 2), 0x57, 0x42, 0x75, 0x48, version] ++ (fields ++ [0xd7, 0x3a])

/-- A marker is found where it starts. -/
theorem find_marker_put {kSize : Nat} (version : UInt8) {fields : Bytes}
    (h : fields.length + 9 = kSize) (t : Bytes) :
    find_marker kSize version (put_marker kSize version fields ++ t) = some 0 := by
  have hlen : (put_marker kSize version fields ++ t).length + 1 - kSize = t.length + 1 := by
    simp only [put_marker, List.length_append, List.length_cons, List.length_nil]
    omega
  have hfirst : put_marker kSize version fields ++ t =
      ([221, UInt8.ofNat (kSize - 2), 0x57, 0x42, 0x75, 0x48, version] ++ fields) ++
        ([0xd7, 0x3a] ++ t) := by
    simp [put_marker]
  have hfront : ∀ i, byteAt (put_marker kSize version fields ++ t) (7 + (fields.length + i)) =
      byteAt ([0xd7, 0x3a] ++ t) i := by
    intro i
    rw [hfirst, byteAt_append_right _ (by simp; omega)]
    congr 1
    simp
    omega
  have hat : marker_at kSize version (put_marker kSize version fields ++ t) 0 = true := by
    have h0 := hfront 0
    have h1 := hfront 1
    rw [show 7 + (fields.length + 0) = kSize - 2 by omega] at h0
    rw [show 7 + (fields.length + 1) = kSize - 1 by omega] at h1
    simp only [marker_at, Nat.zero_add, decide_eq_true_eq]
    exact ⟨rfl, rfl, rfl, rfl, rfl, rfl, rfl, h0, h1⟩
  rw [find_marker, hlen, List.range_succ_eq_map, List.find?_cons_of_pos hat]

structure HopSyncMarker where
  fingerprint : UInt32 := 0
  epoch : UInt32 := 0
  phase_us : UInt32 := 0
  slot : UInt64 := 0
  deriving DecidableEq

namespace HopSyncMarker

def kSize : Nat := 29

def encode (m : HopSyncMarker) : Bytes :=
  put_marker kSize 1
    (List.flatten [put32 m.fingerprint, put32 m.epoch, put64 m.slot, put32 m.phase_us])

def fields : Fetch HopSyncMarker := do
  let fingerprint ← get32
  let epoch ← get32
  let slot ← get64
  let phase_us ← get32
  return { fingerprint, epoch, phase_us, slot }

def decode (p : Bytes) : Option HopSyncMarker := do
  let i ← find_marker kSize 1 p
  let (m, _) ← fields p (i + 7)
  return m

end HopSyncMarker

namespace hopset

structure HopSyncMarkerV2 where
  fingerprint : UInt32 := 0
  epoch : UInt32 := 0
  phase_us : UInt32 := 0
  slot : UInt64 := 0
  generation : UInt32 := 0
  mask_fp : UInt32 := 0
  deriving DecidableEq

namespace HopSyncMarkerV2

def kSize : Nat := 37

def encode (m : HopSyncMarkerV2) : Bytes :=
  put_marker kSize 2 (List.flatten
    [ put32 m.fingerprint,
      put32 m.epoch,
      put64 m.slot,
      put32 m.phase_us,
      put32 m.generation,
      put32 m.mask_fp ])

def fields : Fetch HopSyncMarkerV2 := do
  let fingerprint ← get32
  let epoch ← get32
  let slot ← get64
  let phase_us ← get32
  let generation ← get32
  let mask_fp ← get32
  return { fingerprint, epoch, phase_us, slot, generation, mask_fp }

def decode (p : Bytes) : Option HopSyncMarkerV2 := do
  let i ← find_marker kSize 2 p
  let (m, _) ← fields p (i + 7)
  return m

end HopSyncMarkerV2

/-- The fields stand behind the seven bytes of the element. -/
theorem fields_put_marker {α : Type} {g : Fetch α} {x : Bytes} {a : α} (hg : Fetches g x a)
    (kSize : Nat) (version : UInt8) (t : Bytes) :
    g (put_marker kSize version x ++ t) (0 + 7) = some (a, 0 + 7 + x.length) := by
  have hp : put_marker kSize version x ++ t =
      [221, UInt8.ofNat (kSize - 2), 0x57, 0x42, 0x75, 0x48, version] ++
        (x ++ ([0xd7, 0x3a] ++ t)) := by
    simp [put_marker]
  exact hg.at hp rfl

theorem decode_encode_v1 (x : HopSyncMarker) (t : Bytes) :
    HopSyncMarker.decode (x.encode ++ t) = some x := by
  have hfields : Fetches HopSyncMarker.fields
      (List.flatten [put32 x.fingerprint, put32 x.epoch, put64 x.slot, put32 x.phase_us]) x := by
    refine .cons (fetches_put32 x.fingerprint) ?_
    refine .cons (fetches_put32 x.epoch) ?_
    refine .cons (fetches_put64 x.slot) ?_
    refine .cons (fetches_put32 x.phase_us) ?_
    exact .nil x
  unfold HopSyncMarker.decode HopSyncMarker.encode
  rw [find_marker_put 1 (by simp [HopSyncMarker.kSize]) t]
  dsimp only [Option.bind_eq_bind, Option.bind_some]
  rw [fields_put_marker hfields]
  rfl

theorem decode_encode_v2 (x : HopSyncMarkerV2) (t : Bytes) :
    HopSyncMarkerV2.decode (x.encode ++ t) = some x := by
  have hfields : Fetches HopSyncMarkerV2.fields
      (List.flatten [put32 x.fingerprint, put32 x.epoch, put64 x.slot, put32 x.phase_us,
        put32 x.generation, put32 x.mask_fp]) x := by
    refine .cons (fetches_put32 x.fingerprint) ?_
    refine .cons (fetches_put32 x.epoch) ?_
    refine .cons (fetches_put64 x.slot) ?_
    refine .cons (fetches_put32 x.phase_us) ?_
    refine .cons (fetches_put32 x.generation) ?_
    refine .cons (fetches_put32 x.mask_fp) ?_
    exact .nil x
  unfold HopSyncMarkerV2.decode HopSyncMarkerV2.encode
  rw [find_marker_put 2 (by simp [HopSyncMarkerV2.kSize]) t]
  dsimp only [Option.bind_eq_bind, Option.bind_some]
  rw [fields_put_marker hfields]
  rfl

/-- What is encoded is decoded whatever follows it, as a message and as either marker, and no
buffer at all is read past its end. -/
theorem the_wire_round_trips :
    (∀ (m : HopsetMsg) (keys : HopsetKeys) (t : Bytes) (expect_link : UInt32) (out : HopsetMsg),
      expect_link = 0 ∨ expect_link = m.link_id →
      (hopset_encode m keys ++ t).length ≤ kHopsetMaxLen + 8 →
      hopset_decode (hopset_encode m keys ++ t) keys expect_link out = some (.None, carried m)) ∧
    (∀ (p : Bytes) (keys : HopsetKeys) (expect_link : UInt32) (out : HopsetMsg),
      hopset_decode p keys expect_link out ≠ none) ∧
    (∀ (x : HopSyncMarkerV2) (t : Bytes), HopSyncMarkerV2.decode (x.encode ++ t) = some x) ∧
    (∀ (x : HopSyncMarker) (t : Bytes), HopSyncMarker.decode (x.encode ++ t) = some x) := by
  refine ⟨?_, ?_, decode_encode_v2, decode_encode_v1⟩
  · intro m keys t expect_link out hlink hfit
    exact hopset_decode_encode hlink hfit
  · intro p keys expect_link out
    exact Option.isSome_iff_ne_none.mp (hopset_decode_isSome p keys expect_link out)

/-- A status of an authority, with a check sequence of four bytes behind it. -/
theorem a_status_round_trips :
    hopset_decode (hopset_encode { type := .HT_STATUS, link_id := 9, role := 1, generation := 3 }
        (.derive (Octets.zero 16)) ++ [1, 2, 3, 4]) (.derive (Octets.zero 16)) 9 {} =
      some (.None, { type := .HT_STATUS, link_id := 9, role := 1, generation := 3 }) := by
  exact the_wire_round_trips.1 { type := .HT_STATUS, link_id := 9, role := 1, generation := 3 }
    (.derive (Octets.zero 16)) [1, 2, 3, 4] 9 {} (.inr rfl)
    (by rw [List.length_append, length_encode]; decide)

end hopset

end devourer
