-- A batch of frames: where it goes out several frames to a transfer, the chip gets
-- the same frames, in the same order, on the same queues and with the same radio
-- as where each one is sent by itself.
import Devourer.Jaguar3.TxBlock
import Devourer.TxAggPlan

namespace devourer.jaguar3

open BitFields
open chanmig (ChannelWidth_t)

/-! ## Looking at a packet -/

/-- The first argument of a field in the header of a packet. -/
def peek (packet : Bytes) (index : ℕ) : Option radiotap.Arg :=
  ((handed_out packet (radiotap_hdr_len packet)).getD []).find? fun a => a.index = index

/-- A packet with a malformed header has no channel, and one without the field neither. -/
def radiotap_peek_channel (packet : Bytes) : ℤ :=
  if radiotap_hdr_len packet = 0 then 0
  else
    match peek packet IEEE80211_RADIOTAP_CHANNEL with
    | some a => freq_to_chan ⟨mt7612u.rd16 packet a.off⟩
    | none => 0

def radiotap_peek_dbm_tx_power (packet : Bytes) : Option ℤ :=
  if radiotap_hdr_len packet = 0 then none
  else (peek packet IEEE80211_RADIOTAP_DBM_TX_POWER).map fun a => (byteAt packet a.off).toInt8.toInt

def peek_tx_qsel (c : TxCfg) (am : AmpduMode) (packet : Bytes) : UInt8 :=
  let rl := radiotap_hdr_len packet
  let is_data := rl ≠ 0 && dot11_is_data (byteAt packet rl)
  tx_qsel is_data c.eps.length am.enabled am.tid c.tx_qsel

def tx_ep_for_qsel (c : TxCfg) (qsel : UInt8) : UInt8 :=
  match c.ep with
  | some ep => ep
  | none =>
    let ep := c.eps.getD (bulkout_id_for_qsel qsel c.eps.length).toNat 0
    if ep ≠ 0 then ep else c.eps.headD 0x02

def tx_ep_for_descriptor (c : TxCfg) (desc : Bytes) : UInt8 :=
  tx_ep_for_qsel c (UInt8.ofNat (txdesc.get desc .QSEL))

/-! ## Sending one by one -/

/-- What the radio is set to. -/
structure Air where
  channel : UInt8
  width : ChannelWidth_t
  banks : UInt16
  deriving DecidableEq

def Tx.air (t : Tx) : Air := ⟨t.channel, t.width, t.txpkt_img⟩

/-- A transfer: its endpoint, its bytes, and what the radio is set to then. -/
structure Submission where
  ep : UInt8
  air : Air
  urb : Bytes

structure Sending where
  tx : Tx
  log : List Submission := []
  ok : ℕ := 0

/-- What the bus says to the transfer of a number. -/
abbrev Bus := ℕ → Bytes → ℤ

/-- One transfer. The frames in it count if it went out as a whole. -/
def bulk_send_data_sync_ep (usb : Bus) (ep : UInt8) (urb : Bytes) (frames : ℕ) (s : Sending) :
    Sending :=
  let rc := usb s.log.length urb
  { s with
    log := s.log ++ [⟨ep, s.tx.air, urb⟩]
    ok := if rc = int_of_long urb.length then s.ok + frames else s.ok }

def send_built_block (c : TxCfg) (usb : Bus) (s : Sending) (block : Bytes) : Sending :=
  bulk_send_data_sync_ep usb (tx_ep_for_descriptor c block) block 1 s

def send_one (c : TxCfg) (am : AmpduMode) (usb : Bus) (s : Sending) (packet : Bytes) : Sending :=
  match build_tx_block c am s.tx packet 0 with
  | none => s
  | some (block, tx) => send_built_block c usb { s with tx } block

/-- `IRadio::send_packets`. A packet without data counts as an empty one. -/
def one_by_one (c : TxCfg) (am : AmpduMode) (usb : Bus) (tx : Tx) (pkts : List Bytes) : Sending :=
  pkts.foldl (send_one c am usb) { tx }

/-! ## Sending a batch -/

/-- What a frame needs of the transfer that it is in. -/
structure Wants where
  chan : ℤ
  pwr : Option ℤ
  ep : UInt8

def wants (c : TxCfg) (am : AmpduMode) (packet : Bytes) : Wants where
  chan := radiotap_peek_channel packet
  pwr := radiotap_peek_dbm_tx_power packet
  ep := tx_ep_for_qsel c (peek_tx_qsel c am packet)

/-- A frame that does not go along with the first one of its transfer. -/
def leaves (channel : UInt8) (run want : Wants) : Bool :=
  (want.chan > 0 && want.chan ≠ if run.chan > 0 then run.chan else channel.toNat) ||
    want.pwr ≠ run.pwr || want.ep ≠ run.ep

/-- The frames that may share one transfer: the length of each. -/
def collect (c : TxCfg) (am : AmpduMode) (channel : UInt8) (max_frames : ℕ) :
    List Bytes → Option Wants → ℕ → List UInt64
  | [], _, _ => []
  | p :: ps, run, n =>
    if n < max_frames then
      let rlen := radiotap_hdr_len p
      if rlen = 0 then []
      else
        let want := wants c am p
        match run with
        | none =>
          UInt64.ofNat (p.length - rlen) :: collect c am channel max_frames ps (some want) (n + 1)
        | some r =>
          if leaves channel r want then []
          else UInt64.ofNat (p.length - rlen) :: collect c am channel max_frames ps run (n + 1)
    else []

/-- How far the frames of a transfer are built. -/
structure Built where
  tx : Tx
  urb : Bytes
  built : ℕ := 0

/-- The frames of a transfer, each into its place, up to one that does not build. -/
def build_all (c : TxCfg) (am : AmpduMode) (shim : Bool) :
    List TxAggBlock → List Bytes → Built → Built
  | b :: bs, p :: ps, s =>
    let poff := if s.built = 0 ∧ shim then 1 else 0
    match build_tx_block c am s.tx p poff with
    | none => s
    | some (block, tx) =>
      build_all c am shim bs ps
        { tx, urb := paste s.urb b.offset.toNat block, built := s.built + 1 }
  | _, _, s => s

/-- A block of a transfer. -/
def block_at (urb : Bytes) (b : TxAggBlock) : Bytes := (urb.drop b.offset.toNat).take b.length.toNat

/-- A transfer with the number of its frames. One that is too short for a descriptor has none. -/
def numbered (urb : Bytes) (frames : ℕ) : Bytes :=
  if h : 48 ≤ urb.length then (number ⟨urb, h⟩ frames).bytes else urb

/-- The transfer of a plan, or its frames one by one where they do not fit together. -/
def send_run (c : TxCfg) (am : AmpduMode) (usb : Bus) (plan : TxAggPlan) (s : Sending)
    (pkts : List Bytes) : Sending :=
  let frames := plan.blocks.length
  let b := build_all c am plan.shim plan.blocks pkts
    { tx := s.tx, urb := List.replicate plan.total.toNat 0 }
  let s := { s with tx := b.tx }
  if b.built ≠ frames then
    -- only the frame that failed is lost
    let s := ((plan.blocks.take b.built).map (block_at b.urb)).foldl (send_built_block c usb) s
    ((pkts.take frames).drop (b.built + 1)).foldl (send_one c am usb) s
  else
    let agg_ep := tx_ep_for_descriptor c b.urb
    let one_ep := plan.blocks.tail.all fun k =>
      tx_ep_for_descriptor c (b.urb.drop k.offset.toNat) = agg_ep
    if !one_ep then
      (plan.blocks.map (block_at b.urb)).foldl (send_built_block c usb) s
    else bulk_send_data_sync_ep usb agg_ep (numbered b.urb frames) frames s

def send_loop (c : TxCfg) (am : AmpduMode) (usb : Bus) (lim : TxAggLimits) (pkts : List Bytes)
    (s : Sending) : Sending :=
  match pkts with
  | [] => s
  | p :: ps =>
    let lens := collect c am s.tx.channel lim.max_frames.toNat (p :: ps) none 0
    if lens = [] then send_loop c am usb lim ps s
    else
      let plan := plan_tx_agg lens lim
      if plan.blocks.length ≤ 1 then send_loop c am usb lim ps (send_one c am usb s p)
      else
        send_loop c am usb lim ((p :: ps).drop plan.blocks.length)
          (send_run c am usb plan s (p :: ps))
  termination_by pkts.length
  decreasing_by
    · exact Nat.lt_succ_self _
    · exact Nat.lt_succ_self _
    · rename_i hmany
      rw [List.length_drop]
      exact Nat.sub_lt (Nat.succ_pos _) (Nat.zero_lt_of_lt (Nat.lt_of_not_le hmany))

def kUsbSpeedHigh : ℤ := 3
def kUsbSpeedSuper : ℤ := 4

/-- The chip takes three frames to a transfer. -/
def limits (agg : UInt32) (speed : ℤ) : TxAggLimits where
  desc_size := 48
  bulk_size := if speed ≥ kUsbSpeedSuper then 1024 else if speed ≥ kUsbSpeedHigh then 512 else 64
  max_frames := min agg 3
  descs_per_bulk := 0
  first_reserve := false

def send_packets (c : TxCfg) (am : AmpduMode) (usb : Bus) (agg : UInt32) (is_usb : Bool) (speed : ℤ)
    (tx : Tx) (pkts : List Bytes) : Sending :=
  if agg ≤ 1 ∨ !is_usb ∨ pkts = [] then one_by_one c am usb tx pkts
  else send_loop c am usb (limits agg speed) pkts { tx }

/-! ## The frames of a batch -/

/-- A frame that the chip gets: on which endpoint, with which setting of the radio. -/
structure Aired where
  ep : UInt8
  air : Air
  seen : Seen

def Submission.aired (s : Submission) : List Aired := (read_urb s.urb).map (⟨s.ep, s.air, ·⟩)

/-- A packet with its descriptor. -/
def placed (c : TxCfg) (t : Tx) (packet : Bytes) (pkt_offset : UInt8) : Placed :=
  let s := tx_ask c.tx_mode_default packet
  let dot11 := packet.drop (radiotap_hdr_len packet)
  { frame := frame_of c s (prepare c t s) dot11 pkt_offset, dot11 }

/-- The radio behind a packet. -/
def after (c : TxCfg) (t : Tx) (packet : Bytes) : Tx :=
  (prepare c t (tx_ask c.tx_mode_default packet)).tx

/-- What the chip is to get of a packet. -/
def to_air (c : TxCfg) (am : AmpduMode) (t : Tx) (packet : Bytes) : Aired where
  ep := tx_ep_for_qsel c (peek_tx_qsel c am packet)
  air := (after c t packet).air
  seen := (placed c t packet 0).seen c.toDescCfg am c.eps.length

/-- What the chip is to get of a batch, and the radio behind it. Malformed packets are left out. -/
def all_to_air (c : TxCfg) (am : AmpduMode) : Tx → List Bytes → List Aired × Tx
  | t, [] => ([], t)
  | t, p :: ps =>
    if radiotap_hdr_len p = 0 then all_to_air c am t ps
    else
      let (frames, t') := all_to_air c am (after c t p) ps
      (to_air c am t p :: frames, t')

variable {c : TxCfg} {am : AmpduMode} {usb : Bus}

theorem build_eq (t : Tx) (packet : Bytes) (pkt_offset : UInt8) :
    build_tx_block c am t packet pkt_offset =
      if radiotap_hdr_len packet = 0 then none
      else some ((placed c t packet pkt_offset).block c.toDescCfg am c.eps.length,
        after c t packet) :=
  rfl

/-- The reserve is not about the frame. -/
theorem seen_placed (t : Tx) (packet : Bytes) (pkt_offset : UInt8) :
    (placed c t packet pkt_offset).seen c.toDescCfg am c.eps.length =
      (placed c t packet 0).seen c.toDescCfg am c.eps.length := by
  have hfields :
      of_frame (described c.toDescCfg am c.eps.length (placed c t packet pkt_offset).frame) =
        of_frame (described c.toDescCfg am c.eps.length (placed c t packet 0).frame) := by
    funext i
    unfold of_frame
    split
    · rfl
    · next h => cases i <;> first | rfl | exact absurd (by simp [of_transfer]) h
  unfold Placed.seen seen
  rw [hfields]
  rfl

theorem hdr_len_lt {packet : Bytes} (h : radiotap_hdr_len packet ≠ 0) :
    radiotap_hdr_len packet < packet.length := by
  unfold radiotap_hdr_len at h ⊢
  dsimp only at h ⊢
  split at h
  · exact absurd rfl h
  · next hno =>
    rw [if_neg hno]
    rw [not_or] at hno
    exact Nat.lt_of_not_le hno.2

theorem placed_sized (t : Tx) {packet : Bytes} {pkt_offset : UInt8} (hpo : pkt_offset.toNat < 32)
    (hlen : packet.length - radiotap_hdr_len packet < 65536) :
    (placed c t packet pkt_offset).Sized where
  pkt_offset := hpo
  pkt_size := by
    have hdrop : (placed c t packet pkt_offset).dot11.length =
        packet.length - radiotap_hdr_len packet := List.length_drop
    have hsize : (placed c t packet pkt_offset).frame.tx.pkt_size =
        UInt16.ofNat (placed c t packet pkt_offset).dot11.length := rfl
    rw [hsize, hdrop]
    exact Nat.mod_eq_of_lt hlen

/-- The queue that the peek finds is the one in the descriptor, and so the endpoint is the same. -/
theorem ep_of_block (c : TxCfg) (am : AmpduMode) (t : Tx) {packet : Bytes}
    (h : radiotap_hdr_len packet ≠ 0) (pkt_offset : UInt8) (rest : Bytes) :
    tx_ep_for_descriptor c
        ((placed c t packet pkt_offset).block c.toDescCfg am c.eps.length ++ rest) =
      tx_ep_for_qsel c (peek_tx_qsel c am packet) := by
  have hlt := hdr_len_lt h
  have hbyte : byteAt (packet.drop (radiotap_hdr_len packet)) 0 =
      byteAt packet (radiotap_hdr_len packet) := byteAt_drop _ _ _
  have hlong : (packet.drop (radiotap_hdr_len packet)).length ≥ 1 := by
    rw [List.length_drop]
    omega
  have hqsel : described c.toDescCfg am c.eps.length (placed c t packet pkt_offset).frame .QSEL =
      (peek_tx_qsel c am packet).toNat := by
    show (tx_qsel (decide ((packet.drop (radiotap_hdr_len packet)).length ≥ 1) &&
      dot11_is_data (byteAt (packet.drop (radiotap_hdr_len packet)) 0)) c.eps.length
        am.enabled am.tid c.tx_qsel).toNat = _
    unfold peek_tx_qsel
    simp only [hbyte, hlong, h, ne_eq, not_false_eq_true, decide_true]
  unfold tx_ep_for_descriptor Placed.block
  rw [get_block _ _ _ _ _ _ (by simp), hqsel, UInt8.ofNat_toNat]

theorem read_single_placed (c : TxCfg) (am : AmpduMode) (t : Tx) (packet : Bytes) :
    read_urb ((placed c t packet 0).block c.toDescCfg am c.eps.length) =
      [(placed c t packet 0).seen c.toDescCfg am c.eps.length] :=
  read_single _ _ _ _ _ (by decide : (0 : UInt8).toNat < 32) (Nat.mod_le _ _)

/-! ## One by one -/

/-- From one state of a session to another, the chip gets the frames of these packets. -/
structure Sends (c : TxCfg) (am : AmpduMode) (usb : Bus) (s : Sending) (pkts : List Bytes)
    (s' : Sending) : Prop where
  tx : s'.tx = (all_to_air c am s.tx pkts).2
  aired : s'.log.flatMap Submission.aired =
    s.log.flatMap Submission.aired ++ (all_to_air c am s.tx pkts).1
  ok : (∀ k urb, usb k urb = int_of_long urb.length) →
    s'.ok = s.ok + (all_to_air c am s.tx pkts).1.length

theorem all_to_air_append (t : Tx) (ps qs : List Bytes) : all_to_air c am t (ps ++ qs) =
    ((all_to_air c am t ps).1 ++ (all_to_air c am (all_to_air c am t ps).2 qs).1,
      (all_to_air c am (all_to_air c am t ps).2 qs).2) := by
  induction ps generalizing t with
  | nil => rfl
  | cons p ps ih =>
    rw [List.cons_append, all_to_air, all_to_air]
    split
    · exact ih t
    · rw [ih]
      rfl

theorem Sends.refl (s : Sending) : Sends c am usb s [] s :=
  ⟨rfl, (List.append_nil _).symm, fun _ => rfl⟩

theorem Sends.trans {s s' s'' : Sending} {ps qs : List Bytes} (h : Sends c am usb s ps s')
    (h' : Sends c am usb s' qs s'') : Sends c am usb s (ps ++ qs) s'' := by
  constructor
  · rw [all_to_air_append, h'.tx, h.tx]
  · rw [all_to_air_append, h'.aired, h.aired, h.tx, List.append_assoc]
  · intro husb
    rw [all_to_air_append, h'.ok husb, h.ok husb, h.tx, List.length_append, Nat.add_assoc]

/-- One transfer that is read as the frames of these packets. -/
theorem sends_bulk {s : Sending} {pkts : List Bytes} {ep : UInt8} {urb : Bytes} {tx : Tx}
    (htx : tx = (all_to_air c am s.tx pkts).2)
    (haired : Submission.aired ⟨ep, tx.air, urb⟩ = (all_to_air c am s.tx pkts).1) :
    Sends c am usb s pkts
      (bulk_send_data_sync_ep usb ep urb (all_to_air c am s.tx pkts).1.length { s with tx }) := by
  unfold bulk_send_data_sync_ep
  constructor
  · exact htx
  · simp [haired]
  · intro husb
    exact if_pos (husb _ _)

theorem sends_one (s : Sending) (packet : Bytes) :
    Sends c am usb s [packet] (send_one c am usb s packet) := by
  unfold send_one
  rw [build_eq]
  by_cases h : radiotap_hdr_len packet = 0
  · rw [if_pos h]
    have hnone : all_to_air c am s.tx [packet] = ([], s.tx) := by
      simp [all_to_air, h]
    constructor <;> simp [hnone]
  · rw [if_neg h]
    have hone : all_to_air c am s.tx [packet] =
        ([to_air c am s.tx packet], after c s.tx packet) := by
      simp [all_to_air, h]
    have hread := read_single_placed c am s.tx packet
    have hep := ep_of_block c am s.tx h 0 []
    rw [List.append_nil] at hep
    generalize (placed c s.tx packet 0).block c.toDescCfg am c.eps.length = block at hread hep
    have haired : Submission.aired ⟨tx_ep_for_qsel c (peek_tx_qsel c am packet),
        (after c s.tx packet).air, block⟩ = (all_to_air c am s.tx [packet]).1 := by
      unfold Submission.aired
      rw [hone, hread]
      rfl
    have hsend : Sends c am usb s [packet] _ := sends_bulk (congrArg Prod.snd hone).symm haired
    rw [hone] at hsend
    unfold send_built_block
    dsimp only
    rw [hep]
    exact hsend

theorem sends_one_by_one (c : TxCfg) (am : AmpduMode) (usb : Bus) (s : Sending)
    (pkts : List Bytes) :
    Sends c am usb s pkts (pkts.foldl (send_one c am usb) s) := by
  induction pkts generalizing s with
  | nil => exact Sends.refl s
  | cons p ps ih => exact (sends_one s p).trans (ih _)

/-! ## What sets the radio -/

/-- The fields that set the radio come at most once in the header of a packet. -/
def Once (packet : Bytes) : Prop :=
  ∀ i ∈ [IEEE80211_RADIOTAP_CHANNEL, IEEE80211_RADIOTAP_DBM_TX_POWER],
    (((handed_out packet (radiotap_hdr_len packet)).getD []).filter fun a => a.index = i).length ≤ 1

/-- A header with one present word has each field at most once. -/
theorem once_of_one_word {packet : Bytes} (h : (mt7612u.rd32 packet 4).getLsbD 31 = false) :
    Once packet :=
  fun i _ => handed_out_once h i

theorem first_is_last {α : Type} {p : α → Bool} {l : List α} (h : (l.filter p).length ≤ 1) :
    (l.filter p).getLast? = l.find? p := by
  rw [← List.head?_filter]
  match hl : l.filter p, h with
  | [], _ => rfl
  | [a], _ => rfl

theorem take_field_channel (narrows flagged : Bool) (b : Bytes) (s : TxAsk) (a : radiotap.Arg) :
    (take_field narrows flagged b s a).radiotap_channel =
      if a.index = IEEE80211_RADIOTAP_CHANNEL then freq_to_chan ⟨mt7612u.rd16 b a.off⟩
      else s.radiotap_channel := by
  unfold take_field
  split_ifs with h1 h2 <;> first | rfl | (rw [h1] at h2; cases h2)

theorem take_field_power (narrows flagged : Bool) (b : Bytes) (s : TxAsk) (a : radiotap.Arg) :
    (take_field narrows flagged b s a).radiotap_pkt_pwr_db =
      if a.index = IEEE80211_RADIOTAP_DBM_TX_POWER then some (byteAt b a.off).toInt8.toInt
      else s.radiotap_pkt_pwr_db := by
  unfold take_field
  split_ifs with h1 h2 h3 <;> first | rfl | simp_all [IEEE80211_RADIOTAP_RATE,
    IEEE80211_RADIOTAP_CHANNEL, IEEE80211_RADIOTAP_TX_FLAGS, IEEE80211_RADIOTAP_DBM_TX_POWER]

/-- A field that is set by one kind of argument has what the last of them says. -/
theorem fold_last {β : Type} {f : TxAsk → β} {step : TxAsk → radiotap.Arg → TxAsk} {i : ℕ}
    {g : radiotap.Arg → β} (hstep : ∀ s a, f (step s a) = if a.index = i then g a else f s)
    (args : List radiotap.Arg) (s : TxAsk) : f (args.foldl step s) =
      ((args.filter fun a => a.index = i).getLast?.map g).getD (f s) := by
  induction args generalizing s with
  | nil => rfl
  | cons a args ih =>
    rw [List.foldl_cons, ih, hstep]
    by_cases ha : a.index = i
    · rw [if_pos ha, List.filter_cons_of_pos (by simpa using ha)]
      cases hl : args.filter fun a => a.index = i with
      | nil => rfl
      | cons b bs => rw [List.getLast?_cons_cons]; cases h : (b :: bs).getLast? <;> simp_all
    · rw [if_neg ha, List.filter_cons_of_neg (by simpa using ha)]

theorem with_default_keeps (flagged : Bool) (d : Option TxMode) (s : TxAsk) :
    (with_default flagged d s).radiotap_channel = s.radiotap_channel ∧
      (with_default flagged d s).radiotap_pkt_pwr_db = s.radiotap_pkt_pwr_db := by
  unfold with_default
  cases d with
  | none => exact ⟨rfl, rfl⟩
  | some m =>
    dsimp only
    split <;> exact ⟨rfl, rfl⟩

/-- What the peeks find is what the frame is built with. -/
theorem peeked (d : Option TxMode) {packet : Bytes} (h : radiotap_hdr_len packet ≠ 0)
    (honce : Once packet) :
    (tx_ask d packet).radiotap_channel = radiotap_peek_channel packet ∧
      (tx_ask d packet).radiotap_pkt_pwr_db = radiotap_peek_dbm_tx_power packet := by
  obtain ⟨hchan, hpwr⟩ := with_default_keeps true d (read_ask false true packet)
  constructor
  · have hfold := fold_last (f := TxAsk.radiotap_channel) (take_field_channel false true packet)
      ((handed_out packet (radiotap_hdr_len packet)).getD []) {}
    rw [first_is_last (honce _ (by simp))] at hfold
    unfold tx_ask radiotap_peek_channel peek
    rw [hchan, if_neg h]
    refine hfold.trans ?_
    cases ((handed_out packet (radiotap_hdr_len packet)).getD []).find? fun a =>
      a.index = IEEE80211_RADIOTAP_CHANNEL <;> rfl
  · have hfold := fold_last (f := TxAsk.radiotap_pkt_pwr_db) (take_field_power false true packet)
      ((handed_out packet (radiotap_hdr_len packet)).getD []) {}
    rw [first_is_last (honce _ (by simp))] at hfold
    unfold tx_ask radiotap_peek_dbm_tx_power peek
    rw [hpwr, if_neg h]
    refine hfold.trans ?_
    cases ((handed_out packet (radiotap_hdr_len packet)).getD []).find? fun a =>
      a.index = IEEE80211_RADIOTAP_DBM_TX_POWER <;> rfl

/-- The register has an offset, or there is none to have. -/
def Settled (img : UInt16) (idx : ℤ) : Prop :=
  clamp_idx idx = 0 ∨ img &&& 0xff = bank_byte (clamp_idx idx) ∨ img >>> 8 =
    bank_byte (clamp_idx idx)

theorem type_settled {t : Tx} {idx : ℤ} (h : Settled t.txpkt_img idx) :
    (txpkt_type_for_idx t idx).2 = t := by
  unfold txpkt_type_for_idx
  dsimp only
  rcases h with h | h | h
  · rw [if_pos h]
  all_goals split_ifs <;> rfl

theorem clamp_clamp (idx : ℤ) : clamp_idx (clamp_idx idx) = clamp_idx idx := by
  have hbounds := clamp_idx_bounds idx
  rw [clamp_idx, if_neg (by omega), if_neg (by omega)]

/-- The register shows the byte of each bank. -/
theorem shows (p : TxPktPwrBankPlanner) :
    p.reg16 &&& 0xff = (p.b 0).byte ∧ p.reg16 >>> 8 = (p.b 1).byte := by
  have h0 := toNat_byte (p.b 0)
  have h1 := toNat_byte (p.b 1)
  have hreg := toNat_reg16 p
  have hlow : (p.reg16 &&& 0xff).toNat = p.reg16.toNat % 256 := by
    rw [UInt16.toNat_and]
    exact and_255 _
  have hhigh : (p.reg16 >>> 8).toNat = p.reg16.toNat / 256 := by
    rw [UInt16.toNat_shiftRight]
    exact Nat.shiftRight_eq_div_pow _ 8
  constructor <;> apply UInt16.toNat_inj.mp
  · rw [hlow]
    split at h0 <;> omega
  · rw [hhigh]
    split at h0 <;> omega

/-- A request leaves the offset in the register. -/
theorem settles (t : Tx) (idx : ℤ) : Settled (txpkt_type_for_idx t idx).2.txpkt_img idx := by
  unfold txpkt_type_for_idx
  dsimp only
  split_ifs with h0 h1 h2
  · exact Or.inl h0
  · exact Or.inr (Or.inl h1)
  · exact Or.inr (Or.inr h2)
  · have hne : clamp_idx (clamp_idx idx) ≠ 0 := by rwa [clamp_clamp]
    obtain ⟨u, program, hrequest, -⟩ := request_spec t.txpkt_banks hne
    rw [clamp_clamp] at hrequest
    have hbyte : ((t.txpkt_banks.use u (Int8.ofInt (clamp_idx idx))).b u).byte =
        bank_byte (clamp_idx idx) := by
      rw [use_self]
      rfl
    obtain ⟨hlow, hhigh⟩ := shows (t.txpkt_banks.use u (Int8.ofInt (clamp_idx idx)))
    rw [hrequest]
    fin_cases u
    · exact Or.inr (Or.inl (hlow.trans hbyte))
    · exact Or.inr (Or.inr (hhigh.trans hbyte))

/-! ## The frames of a transfer -/

/-- A request for a bank is about the banks, and leaves the rest of the radio. -/
theorem type_air (t t' : Tx) (idx : ℤ) (hbanks : t'.txpkt_banks = t.txpkt_banks)
    (himg : t'.txpkt_img = t.txpkt_img) :
    (txpkt_type_for_idx t' idx).2.air =
      ⟨t'.channel, t'.width, (txpkt_type_for_idx t idx).2.txpkt_img⟩ := by
  unfold txpkt_type_for_idx
  dsimp only
  rw [hbanks, himg]
  split_ifs
  · rw [← himg]
    rfl
  · rw [← himg]
    rfl
  · rw [← himg]
    rfl
  · rfl

/-- The register of the banks behind a frame. -/
def banked (c : TxCfg) (t : Tx) (s : TxAsk) : UInt16 :=
  match s.radiotap_pkt_pwr_db with
  | some db => (txpkt_type_for_idx t (txpkt_idx_for_qdb c (db * 4))).2.txpkt_img
  | none => t.txpkt_img

theorem air_after (t : Tx) (packet : Bytes) :
    (after c t packet).air = ⟨(hopped t (tx_ask c.tx_mode_default packet)).channel, t.width,
      banked c t (tx_ask c.tx_mode_default packet)⟩ := by
  unfold after
  generalize tx_ask c.tx_mode_default packet = s
  have hhop : (hopped t s).width = t.width ∧ (hopped t s).txpkt_banks = t.txpkt_banks ∧
      (hopped t s).txpkt_img = t.txpkt_img := by
    unfold hopped
    split <;> exact ⟨rfl, rfl, rfl⟩
  obtain ⟨hwidth, hbanks, himg⟩ := hhop
  -- the later steps leave what the radio is set to
  have hlater : (prepare c t s).tx.air =
      (match s.radiotap_pkt_pwr_db with
        | some db => (txpkt_type_for_idx
            (if c.ndpa_period > 0 then
              { hopped t s with ndpa_ctr := (hopped t s).ndpa_ctr + 1 } else hopped t s)
            (txpkt_idx_for_qdb c (db * 4))).2
        | none => hopped t s).air := by
    unfold prepare
    dsimp only
    cases s.radiotap_pkt_pwr_db with
    | none =>
      dsimp only
      split_ifs <;> rfl
    | some db =>
      dsimp only
      split_ifs <;> rfl
  rw [hlater]
  unfold banked
  cases s.radiotap_pkt_pwr_db with
  | none =>
    dsimp only
    rw [← himg, ← hwidth]
    rfl
  | some db =>
    have hbank : ∀ t', t'.channel = (hopped t s).channel → t'.width = t.width →
        t'.txpkt_banks = t.txpkt_banks → t'.txpkt_img = t.txpkt_img →
        (txpkt_type_for_idx t' (txpkt_idx_for_qdb c (db * 4))).2.air =
          ⟨(hopped t s).channel, t.width,
          (txpkt_type_for_idx t (txpkt_idx_for_qdb c (db * 4))).2.txpkt_img⟩ := by
      intro t' hchannel hwidth hbanks himg
      rw [type_air t t' _ hbanks himg, hchannel, hwidth]
    dsimp only
    split
    · exact hbank _ rfl hwidth hbanks himg
    · exact hbank _ rfl hwidth hbanks himg

theorem freq_to_chan_lt (f : UInt16) : freq_to_chan f < 256 := by
  unfold freq_to_chan
  dsimp only
  split_ifs <;> omega

/-- Behind a frame the radio is on the channel that it asks for, if it asks for one. -/
theorem channel_hopped (t : Tx) {s : TxAsk} (h : s.radiotap_channel < 256) :
    ((hopped t s).channel.toNat : ℤ) =
      if s.radiotap_channel > 0 then s.radiotap_channel else t.channel.toNat := by
  unfold hopped
  by_cases hpos : s.radiotap_channel > 0
  · rw [if_pos hpos]
    split_ifs with hhop
    · show ((UInt8.ofInt s.radiotap_channel).toNat : ℤ) = _
      rw [UInt8.ofInt, UInt8.toNat_ofNat']
      omega
    · have hsame : s.radiotap_channel = t.channel.toNat :=
        Classical.not_not.mp fun hne => hhop ⟨hpos, hne⟩
      exact hsame.symm
  · rw [if_neg hpos, if_neg fun h => hpos h.1]

theorem goes_along {channel : UInt8} {run want : Wants} (h : leaves channel run want = false) :
    (want.chan > 0 → want.chan = if run.chan > 0 then run.chan else channel.toNat) ∧
      want.pwr = run.pwr ∧ want.ep = run.ep := by
  simp [leaves] at h
  exact ⟨h.1.1, h.1.2, h.2⟩

/-- A frame that goes along with the first one finds the radio as it is to be. -/
theorem stays {t t' : Tx} {p q : Bytes} (hp : radiotap_hdr_len p ≠ 0) (hq : radiotap_hdr_len q ≠ 0)
    (hop : Once p) (hoq : Once q) (halong : leaves t.channel (wants c am p) (wants c am q) = false)
    (hair : t'.air = (after c t p).air) : (after c t' q).air = t'.air := by
  obtain ⟨hchan, hpwr⟩ := peeked c.tx_mode_default hp hop
  obtain ⟨hchan', hpwr'⟩ := peeked c.tx_mode_default hq hoq
  have hlt : (tx_ask c.tx_mode_default p).radiotap_channel < 256 := by
    rw [hchan]
    unfold radiotap_peek_channel
    split
    · omega
    · split
      · exact freq_to_chan_lt _
      · omega
  rw [air_after] at hair ⊢
  obtain ⟨hnow, -, hbanks⟩ := Air.mk.inj hair
  obtain ⟨hgoes, hsame, -⟩ := goes_along halong
  have hsame : radiotap_peek_dbm_tx_power q = radiotap_peek_dbm_tx_power p := hsame
  -- the channel is the one of the first frame
  have hchannel : hopped t' (tx_ask c.tx_mode_default q) = t' := by
    apply if_neg
    rintro ⟨hpos, hne⟩
    have hfirst := channel_hopped t hlt
    rw [← hnow, hchan] at hfirst
    rw [hchan'] at hpos hne
    apply hne
    rw [hfirst]
    exact hgoes hpos
  -- and the offset is in the register since then
  have hsettled : banked c t' (tx_ask c.tx_mode_default q) = t'.txpkt_img := by
    unfold banked at hbanks ⊢
    rw [hpwr] at hbanks
    rw [hpwr', hsame]
    cases hdb : radiotap_peek_dbm_tx_power p with
    | none => rfl
    | some db =>
      dsimp only
      have hin : Settled t'.txpkt_img (txpkt_idx_for_qdb c (db * 4)) := by
        rw [hbanks, hdb]
        exact settles t _
      rw [type_settled hin]
  rw [hchannel, hsettled]
  rfl

/-- Packets with their descriptors, the first with this reserve. -/
def placements (c : TxCfg) : Tx → UInt8 → List Bytes → List Placed
  | _, _, [] => []
  | t, pkt_offset, p :: ps => placed c t p pkt_offset :: placements c (after c t p) 0 ps

/-- The frames of a run: all are well formed, and go along with the first one. -/
structure Runs (c : TxCfg) (am : AmpduMode) (channel : UInt8) (p : Bytes) (qs : List Bytes) :
    Prop where
  first : radiotap_hdr_len p ≠ 0
  rest : ∀ q ∈ qs, radiotap_hdr_len q ≠ 0
  along : ∀ q ∈ qs, leaves channel (wants c am p) (wants c am q) = false

def blocks (c : TxCfg) (am : AmpduMode) (xs : List Placed) : List Bytes :=
  xs.map (Placed.block c.toDescCfg am c.eps.length)

theorem blocks_cons (t : Tx) (pkt_offset : UInt8) (p : Bytes) (ps : List Bytes) :
    blocks c am (placements c t pkt_offset (p :: ps)) =
      (placed c t p pkt_offset).block c.toDescCfg am c.eps.length ::
        blocks c am (placements c (after c t p) 0 ps) :=
  rfl

/-- The frames that go along with the first one leave the radio. -/
theorem all_along {t t' : Tx} {p : Bytes} {qs : List Bytes} (hrun : Runs c am t.channel p qs)
    (hop : Once p) (hoq : ∀ q ∈ qs, Once q) (hair : t'.air = (after c t p).air) :
    (all_to_air c am t' qs).2.air = t'.air ∧ (all_to_air c am t' qs).1 = (placements c t' 0 qs).map
      fun x => ⟨(wants c am p).ep, t'.air, x.seen c.toDescCfg am c.eps.length⟩ := by
  induction qs generalizing t' with
  | nil => exact ⟨rfl, rfl⟩
  | cons q qs ih =>
    obtain ⟨hq, hqs⟩ := List.forall_mem_cons.mp hrun.rest
    obtain ⟨halong, halongs⟩ := List.forall_mem_cons.mp hrun.along
    obtain ⟨hoq, hoqs⟩ := List.forall_mem_cons.mp hoq
    have hstays := stays hrun.first hq hop hoq halong hair
    have hep : (wants c am q).ep = (wants c am p).ep := (goes_along halong).2.2
    obtain ⟨hlast, hframes⟩ := ih ⟨hrun.first, hqs, halongs⟩ hoqs (hstays.trans hair)
    rw [all_to_air, if_neg hq, placements, List.map_cons]
    dsimp only
    refine ⟨hlast.trans hstays, ?_⟩
    rw [hframes, hstays, ← hep]
    unfold to_air
    rw [hstays]
    rfl

/-- All frames of a transfer find the radio as it is behind the last one. -/
theorem run_to_air {t : Tx} {p : Bytes} {qs : List Bytes} (hrun : Runs c am t.channel p qs)
    (hop : Once p) (hoq : ∀ q ∈ qs, Once q) (pkt_offset : UInt8) :
    (all_to_air c am t (p :: qs)).1 = (placements c t pkt_offset (p :: qs)).map
      fun x => ⟨(wants c am p).ep, (all_to_air c am t (p :: qs)).2.air,
        x.seen c.toDescCfg am c.eps.length⟩ := by
  obtain ⟨hlast, hframes⟩ := all_along hrun hop hoq rfl
  rw [all_to_air, if_neg hrun.first, placements, List.map_cons]
  dsimp only
  rw [hframes, hlast, seen_placed]
  rfl

def frame_len (p : Bytes) : UInt64 := UInt64.ofNat (p.length - radiotap_hdr_len p)

theorem collect_along (channel : UInt8) (max_frames : ℕ) (r : Wants) (qs : List Bytes) (n : ℕ) :
    ∃ k, collect c am channel max_frames qs (some r) n = (qs.take k).map frame_len ∧
      ∀ q ∈ qs.take k, radiotap_hdr_len q ≠ 0 ∧ leaves channel r (wants c am q) = false := by
  induction qs generalizing n with
  | nil => exact ⟨0, rfl, by simp⟩
  | cons q qs ih =>
    have hnone : ∃ k, ([] : List UInt64) = ((q :: qs).take k).map frame_len ∧
        ∀ x ∈ (q :: qs).take k, radiotap_hdr_len x ≠ 0 ∧ leaves channel r (wants c am x) = false :=
      ⟨0, rfl, by simp⟩
    rw [collect]
    dsimp only
    split_ifs with hmore hq hleaves
    · exact hnone
    · exact hnone
    · obtain ⟨k, hlens, hk⟩ := ih (n + 1)
      refine ⟨k + 1, ?_, ?_⟩
      · rw [hlens, List.take_succ_cons, List.map_cons]
        rfl
      · rw [List.take_succ_cons]
        exact List.forall_mem_cons.mpr ⟨⟨hq, by simpa using hleaves⟩, hk⟩
    · exact hnone

/-- What is collected is a run, and nothing only where the first packet is malformed. -/
theorem collect_runs (c : TxCfg) (am : AmpduMode) (channel : UInt8) {max_frames : ℕ}
    (hmax : 0 < max_frames) (p : Bytes) (ps : List Bytes) :
    radiotap_hdr_len p = 0 ∧ collect c am channel max_frames (p :: ps) none 0 = [] ∨
      ∃ k, collect c am channel max_frames (p :: ps) none 0 = (p :: ps.take k).map frame_len ∧
        Runs c am channel p (ps.take k) := by
  rw [collect, if_pos hmax]
  dsimp only
  split
  · next hp => exact Or.inl ⟨hp, rfl⟩
  · next hp =>
    obtain ⟨k, hlens, hk⟩ := collect_along channel max_frames (wants c am p) ps 1
    refine Or.inr ⟨k, ?_, hp, fun q hq => (hk q hq).1, fun q hq => (hk q hq).2⟩
    rw [hlens]
    rfl

theorem build_all_eq (shim : Bool) {bs : List TxAggBlock} {ps : List Bytes}
    (hps : ∀ p ∈ ps, radiotap_hdr_len p ≠ 0) (hlen : ps.length = bs.length) (rest : List Bytes)
    (s : Built) : build_all c am shim bs (ps ++ rest) s =
      { tx := (all_to_air c am s.tx ps).2
        urb := pasteAll s.urb ((bs.map fun b => b.offset.toNat).zip
          (blocks c am (placements c s.tx (if s.built = 0 ∧ shim then 1 else 0) ps)))
        built := s.built + bs.length } := by
  induction bs generalizing ps s with
  | nil =>
    cases ps with
    | nil => simp [build_all, all_to_air, pasteAll]
    | cons p ps => cases hlen
  | cons b bs ih =>
    cases ps with
    | nil => cases hlen
    | cons p ps =>
      obtain ⟨hp, hps⟩ := List.forall_mem_cons.mp hps
      rw [List.cons_append, build_all, build_eq, if_neg hp]
      dsimp only
      have hlater : ¬ (s.built + 1 = 0 ∧ shim) := fun h => Nat.succ_ne_zero _ h.1
      rw [ih hps (Nat.succ_inj.mp hlen), if_neg hlater, all_to_air, if_neg hp, blocks_cons,
        List.map_cons, List.zip_cons_cons, List.length_cons, Nat.add_assoc, Nat.add_comm 1]
      rfl

/-- The reserve of a first block. -/
def reserve (shim : Bool) : UInt8 := if shim then 1 else 0

theorem length_placed (t : Tx) {p : Bytes} (hlen : p.length < 2 ^ 63) (pkt_offset : UInt8) :
    ((placed c t p pkt_offset).block c.toDescCfg am c.eps.length).length =
      48 + 8 * pkt_offset.toNat + (frame_len p).toNat := by
  have hframe : (frame_len p).toNat = p.length - radiotap_hdr_len p :=
    UInt64.toNat_ofNat_of_lt' (by
      show _ < 2 ^ 64
      omega)
  rw [Placed.length_block, hframe, ← List.length_drop]
  rfl

theorem lens_plain (t : Tx) {ps : List Bytes} (hlen : ∀ p ∈ ps, p.length < 2 ^ 63) :
    (blocks c am (placements c t 0 ps)).map List.length =
      ps.map fun p => 48 + (frame_len p).toNat := by
  induction ps generalizing t with
  | nil => rfl
  | cons p ps ih =>
    obtain ⟨hp, hps⟩ := List.forall_mem_cons.mp hlen
    rw [blocks_cons, List.map_cons, List.map_cons, ih (after c t p) hps, length_placed t hp]
    rfl

/-- The blocks are as long as they are planned. -/
theorem lens_run (t : Tx) (shim : Bool) {ps : List Bytes} (hlen : ∀ p ∈ ps, p.length < 2 ^ 63) :
    (blocks c am (placements c t (reserve shim) ps)).map List.length =
      sizes 48 shim (ps.map frame_len) := by
  cases ps with
  | nil => rfl
  | cons p ps =>
    obtain ⟨hp, hps⟩ := List.forall_mem_cons.mp hlen
    have hfirst : 48 + 8 * (reserve shim).toNat + (frame_len p).toNat =
        48 + (frame_len p).toNat + if shim then 8 else 0 := by
      cases shim
      · rfl
      · show 48 + 8 + _ = _ + 8
        omega
    rw [blocks_cons, List.map_cons, List.map_cons, lens_plain (after c t p) hps, length_placed t hp,
      hfirst, sizes, List.map_map]
    rfl

/-- The blocks of a plan lie where they are copied to. -/
theorem laid_run (c : TxCfg) (am : AmpduMode) (t : Tx) {lim : TxAggLimits} {plan : TxAggPlan}
    {ps : List Bytes} (hdesc : lim.desc_size = 48) (hlen : ∀ p ∈ ps, p.length < 2 ^ 63)
    (hlays : Lays lim (ps.map frame_len) plan) {cs : List Bytes}
    (hcs : blocks c am (placements c t (reserve plan.shim) ps) = cs) :
    (plan.blocks.map fun b => b.offset.toNat).zip cs = pieces 8 0 cs ∧
      Laid plan.total.toNat (pieces 8 0 cs) := by
  have hplace : extents plan.blocks = Layout.place 8 0 (cs.map List.length) := by
    rw [hlays.blocks, hdesc, ← hcs, lens_run t plan.shim hlen]
    rfl
  constructor
  · unfold pieces
    rw [← hplace, extents, List.map_map]
    rfl
  · apply laid_pieces (by decide)
    intro q hq
    rw [hlays.total, hplace]
    exact Layout.end_le_stop (by decide) hq

theorem mem_placements {t : Tx} {pkt_offset : UInt8} {ps : List Bytes} {x : Placed}
    (h : x ∈ placements c t pkt_offset ps) :
    ∃ p ∈ ps, ∃ t' po, (po = pkt_offset ∨ po = 0) ∧ x = placed c t' p po := by
  induction ps generalizing t pkt_offset with
  | nil => cases h
  | cons p ps ih =>
    rcases List.mem_cons.mp h with rfl | h
    · exact ⟨p, List.mem_cons_self, t, pkt_offset, Or.inl rfl, rfl⟩
    · obtain ⟨q, hq, t', po, hpo, rfl⟩ := ih h
      exact ⟨q, List.mem_cons_of_mem p hq, t', po, Or.inr (hpo.elim id id), rfl⟩

/-- Each block of a transfer has its queue. -/
theorem ep_in_urb {xs : List Placed} {ep : UInt8} {buf : Bytes}
    (hep : ∀ x ∈ xs, ∀ rest,
      tx_ep_for_descriptor c (x.block c.toDescCfg am c.eps.length ++ rest) = ep)
    (hlaid : Laid buf.length (pieces 8 0 (blocks c am xs))) {o : ℕ}
    (ho : o ∈ (pieces 8 0 (blocks c am xs)).map Prod.fst) :
    tx_ep_for_descriptor c ((pasteAll buf (pieces 8 0 (blocks c am xs))).drop o) = ep := by
  obtain ⟨e, he, rfl⟩ := List.mem_map.mp ho
  obtain ⟨x, hx, hblock⟩ := List.mem_map.mp (List.of_mem_zip he).2
  have hholds := pasteAll_holds hlaid he
  rw [← List.take_append_drop e.2.length ((pasteAll buf _).drop e.1), hholds, ← hblock]
  exact hep x hx _

/-- A transfer with its number is read as its frames. -/
theorem read_run {xs : List Placed} (hsized : ∀ x ∈ xs, x.Sized) (hne : xs ≠ [])
    (hfew : xs.length < 256) {buf : Bytes} (hlaid : Laid buf.length (pieces 8 0 (blocks c am xs))) :
    read_urb (numbered (pasteAll buf (pieces 8 0 (blocks c am xs))) xs.length) =
      xs.map (Placed.seen c.toDescCfg am c.eps.length) := by
  have hread : read_blocks xs.length (pasted c.toDescCfg am c.eps.length buf xs) =
      xs.map (Placed.seen c.toDescCfg am c.eps.length) := read_pasted hsized hlaid
  obtain ⟨x, ys, hxs⟩ := List.exists_cons_of_ne_nil hne
  have hx := hsized x (hxs ▸ List.mem_cons_self)
  have hfirst : (0, x.block c.toDescCfg am c.eps.length) ∈ pieces 8 0 (blocks c am xs) := by
    rw [hxs]
    exact List.mem_cons_self
  have hholds := pasteAll_holds hlaid hfirst
  rw [← hread]
  unfold pasted
  generalize hurb : pasteAll buf (pieces 8 0 (blocks c am xs)) = urb at hholds
  rw [List.drop_zero] at hholds
  have hsplit : x.block c.toDescCfg am c.eps.length ++
      urb.drop (x.block c.toDescCfg am c.eps.length).length = urb := by
    conv_rhs => rw [← List.take_append_drop (x.block c.toDescCfg am c.eps.length).length urb,
      hholds]
  have hlong : 48 ≤ urb.length := by
    rw [← hsplit, List.length_append, x.length_block]
    omega
  have hoffset : txdesc.get urb .OFFSET = 48 := by
    rw [← hsplit]
    exact get_block _ _ _ _ _ _ (by simp)
  have hchecked : (read_block urb).1.checked = true := by
    rw [← hsplit]
    exact checks_block _ _ _ _ _ _ hx.pkt_offset
  unfold numbered
  rw [dif_pos hlong]
  exact (read_numbered ⟨urb, hlong⟩ (List.length_pos_of_ne_nil hne) hfew hoffset hchecked).trans
    (congrArg (read_blocks xs.length) hurb.symm)

theorem length_placements (t : Tx) (pkt_offset : UInt8) (ps : List Bytes) :
    (placements c t pkt_offset ps).length = ps.length := by
  induction ps generalizing t pkt_offset with
  | nil => rfl
  | cons p ps ih => exact congrArg (· + 1) (ih (after c t p) 0)

/-- The blocks of a plan, in a transfer that is as long. -/
theorem build_run (c : TxCfg) (am : AmpduMode) (t : Tx) {lim : TxAggLimits} {plan : TxAggPlan}
    {ps : List Bytes} (hps : ∀ p ∈ ps, radiotap_hdr_len p ≠ 0) (hlen : ∀ p ∈ ps, p.length < 2 ^ 63)
    (hdesc : lim.desc_size = 48) (hlays : Lays lim (ps.map frame_len) plan) (rest : List Bytes) :
    build_all c am plan.shim plan.blocks (ps ++ rest)
        { tx := t, urb := List.replicate plan.total.toNat 0 } =
      { tx := (all_to_air c am t ps).2
        urb := pasteAll (List.replicate plan.total.toNat 0)
          (pieces 8 0 (blocks c am (placements c t (reserve plan.shim) ps)))
        built := plan.blocks.length } := by
  have hcount : ps.length = plan.blocks.length := by
    have hsame := congrArg List.length hlays.blocks
    rw [Layout.length_place, length_sizes, List.length_map, extents, List.length_map] at hsame
    exact hsame.symm
  have hreserve : (if (0 : ℕ) = 0 ∧ plan.shim then (1 : UInt8) else 0) = reserve plan.shim := by
    simp [reserve]
  rw [build_all_eq plan.shim hps hcount rest]
  dsimp only
  rw [hreserve, (laid_run c am t hdesc hlen hlays rfl).1, Nat.zero_add]

/-- A transfer is so short that each of its descriptors has the size of its frame. -/
theorem sized_run {t : Tx} {shim : Bool} {ps : List Bytes} {n : ℕ} (hn : n < 65536)
    (hlaid : Laid n (pieces 8 0 (blocks c am (placements c t (reserve shim) ps)))) :
    ∀ x ∈ placements c t (reserve shim) ps, x.Sized := by
  intro x hx
  have hblock : x.block c.toDescCfg am c.eps.length ∈ (pieces 8 0
      (blocks c am (placements c t (reserve shim) ps))).map Prod.snd := by
    unfold pieces
    rw [List.map_snd_zip]
    · exact List.mem_map_of_mem hx
    · rw [List.length_map, Layout.length_place, List.length_map]
  obtain ⟨e, he, hsnd⟩ := List.mem_map.mp hblock
  have hend := hlaid.le he
  rw [hsnd, x.length_block] at hend
  obtain ⟨p, -, t', po, hpo, rfl⟩ := mem_placements hx
  have hdot11 : (placed c t' p po).dot11.length = p.length - radiotap_hdr_len p := List.length_drop
  apply placed_sized
  · rcases hpo with rfl | rfl
    · cases shim <;> decide
    · decide
  · omega

theorem length_lays {lim : TxAggLimits} {plan : TxAggPlan} {ls : List UInt64}
    (h : Lays lim ls plan) :
    plan.blocks.length = ls.length := by
  have hsame := congrArg List.length h.blocks
  rw [Layout.length_place, length_sizes, extents, List.length_map] at hsame
  exact hsame

/-- The frames of a run as they are read. -/
theorem run_aired {t : Tx} {p : Bytes} {qs : List Bytes} (hrun : Runs c am t.channel p qs)
    (hop : Once p) (hoq : ∀ q ∈ qs, Once q) (hfew : (p :: qs).length < 256)
    {shim : Bool} {buf : Bytes} (hbuf : buf.length < 65536)
    (hlaid : Laid buf.length (pieces 8 0 (blocks c am (placements c t (reserve shim) (p :: qs))))) :
    Submission.aired ⟨(wants c am p).ep, (all_to_air c am t (p :: qs)).2.air,
      numbered (pasteAll buf (pieces 8 0 (blocks c am (placements c t (reserve shim) (p :: qs)))))
        (p :: qs).length⟩ = (all_to_air c am t (p :: qs)).1 := by
  have hlength := length_placements (c := c) t (reserve shim) (p :: qs)
  have hread := read_run (sized_run hbuf hlaid) (List.cons_ne_nil _ _) (by rwa [hlength]) hlaid
  rw [hlength] at hread
  unfold Submission.aired
  rw [hread, run_to_air hrun hop hoq (reserve shim), List.map_map]
  rfl

/-- The frames of a run are all for one queue. -/
theorem run_one_ep {t : Tx} {p : Bytes} {qs : List Bytes} (hrun : Runs c am t.channel p qs)
    {shim : Bool} {buf : Bytes}
    (hlaid : Laid buf.length (pieces 8 0 (blocks c am (placements c t (reserve shim) (p :: qs)))))
    {o : ℕ}
    (ho : o ∈ (pieces 8 0 (blocks c am (placements c t (reserve shim) (p :: qs)))).map Prod.fst) :
    tx_ep_for_descriptor c ((pasteAll buf
      (pieces 8 0 (blocks c am (placements c t (reserve shim) (p :: qs))))).drop o) =
        (wants c am p).ep := by
  have heps : ∀ x ∈ p :: qs, radiotap_hdr_len x ≠ 0 ∧ (wants c am x).ep = (wants c am p).ep :=
    List.forall_mem_cons.mpr ⟨⟨hrun.first, rfl⟩,
      fun q hq => ⟨hrun.rest q hq, (goes_along (hrun.along q hq)).2.2⟩⟩
  apply ep_in_urb (fun x hx tail => ?_) hlaid ho
  obtain ⟨q, hq, t', po, -, rfl⟩ := mem_placements hx
  exact (ep_of_block c am t' (heps q hq).1 po tail).trans (heps q hq).2

/-- A run goes out as one transfer. -/
theorem sends_run {s : Sending} {p : Bytes} {qs : List Bytes} (hrun : Runs c am s.tx.channel p qs)
    (hop : Once p) (hoq : ∀ q ∈ qs, Once q) (hlen : ∀ x ∈ p :: qs, x.length < 2 ^ 63)
    {lim : TxAggLimits} (hdesc : lim.desc_size = 48) (hbytes : lim.max_bytes.toNat < 65536)
    (hfew : (p :: qs).length < 256) {plan : TxAggPlan}
    (hlays : Lays lim ((p :: qs).map frame_len) plan) (rest : List Bytes) :
    Sends c am usb s (p :: qs) (send_run c am usb plan s (p :: qs ++ rest)) := by
  have hcount : plan.blocks.length = (p :: qs).length :=
    (length_lays hlays).trans (List.length_map _)
  have hbuild := build_run c am s.tx
    (List.forall_mem_cons.mpr ⟨hrun.first, hrun.rest⟩) hlen hdesc hlays rest
  obtain ⟨hpieces, hlaid⟩ := laid_run c am s.tx hdesc hlen hlays rfl
  have hbuf := List.length_replicate (n := plan.total.toNat) (a := (0 : UInt8))
  rw [← hbuf] at hlaid
  have haired := run_aired hrun hop hoq hfew (by
    rw [hbuf]
    exact lt_of_le_of_lt hlays.le hbytes) hlaid
  have hep := fun o => run_one_ep hrun hlaid (o := o)
  have hagg := hep 0 List.mem_cons_self
  rw [List.drop_zero] at hagg
  have hoffsets : (pieces 8 0 (blocks c am (placements c s.tx (reserve plan.shim) (p :: qs)))).map
      Prod.fst = plan.blocks.map fun b => b.offset.toNat := by
    rw [← hpieces, List.map_fst_zip]
    rw [List.length_map, blocks, List.length_map, length_placements, hcount]
  rw [hoffsets] at hep
  generalize pasteAll (List.replicate plan.total.toNat 0)
    (pieces 8 0 (blocks c am (placements c s.tx (reserve plan.shim) (p :: qs)))) = urb at *
  have hone : (plan.blocks.tail.all fun k =>
      tx_ep_for_descriptor c (urb.drop k.offset.toNat) = (wants c am p).ep) = true := by
    rw [List.all_eq_true]
    intro b hb
    apply decide_eq_true
    exact hep _ (List.mem_map_of_mem (List.mem_of_mem_tail hb))
  have hsend : Sends c am usb s (p :: qs) _ := sends_bulk rfl haired
  have hframes : (all_to_air c am s.tx (p :: qs)).1.length = (p :: qs).length := by
    rw [run_to_air hrun hop hoq 0, List.length_map, length_placements]
  rw [hframes] at hsend
  unfold send_run
  rw [hbuild]
  dsimp only
  rw [if_neg (fun h => h rfl), hagg, hone, hcount]
  exact hsend

/-- What is planned of what is collected is a run, and the rest is left for the next turn. -/
theorem planned_run {channel : UInt8} {lim : TxAggLimits} (hdesc : lim.desc_size = 48)
    (hbytes : lim.max_bytes.toNat < 65536) (hbulk : ¬ lim.bulk_size.toNat ∣ 8)
    {p : Bytes} {ps : List Bytes} (hlen : ∀ x ∈ p :: ps, x.length < 2 ^ 63) {k : ℕ}
    (hrun : Runs c am channel p (ps.take k)) {plan : TxAggPlan}
    (hplan : plan_tx_agg ((p :: ps.take k).map frame_len) lim = plan)
    (hmany : 1 < plan.blocks.length) :
    ∃ j, plan.blocks.length = j + 1 ∧ j ≤ ps.length ∧ Runs c am channel p (ps.take j) ∧
      Lays lim ((p :: ps.take j).map frame_len) plan := by
  have hfit : NoWrap lim ((p :: ps.take k).map frame_len) := by
    intro l hl
    obtain ⟨x, hx, rfl⟩ := List.mem_map.mp hl
    have hmem : x ∈ p :: ps := List.cons_subset_cons p (List.take_subset k ps) hx
    have hshort := hlen x hmem
    have hle : (frame_len x).toNat ≤ x.length := (Nat.mod_le _ _).trans (Nat.sub_le _ _)
    have hreach : reach lim ((p :: ps.take k).map frame_len) ≤ lim.max_bytes.toNat :=
      min_le_left _ _
    rw [hdesc]
    show 48 + _ + _ + 15 < _
    omega
  obtain ⟨i, hi, hlays, -⟩ := lays_plan hfit hbulk
  rw [hplan, ← List.map_take] at hlays
  have hcount := length_lays hlays
  rw [List.length_map] at hi
  rw [List.length_map, List.length_take, Nat.min_eq_left hi] at hcount
  obtain ⟨j, rfl⟩ : ∃ j, i = j + 1 := ⟨i - 1, by omega⟩
  have hj : j ≤ k ∧ j ≤ ps.length := by
    rw [List.length_cons, List.length_take] at hi
    omega
  rw [List.take_succ_cons, List.take_take, Nat.min_eq_left hj.1] at hlays
  have hsub : ∀ q ∈ ps.take j, q ∈ ps.take k := fun q hq =>
    List.take_subset_take_left ps hj.1 hq
  exact ⟨j, hcount, hj.2, ⟨hrun.first, fun q hq => hrun.rest q (hsub q hq),
    fun q hq => hrun.along q (hsub q hq)⟩, hlays⟩

theorem sends_skip (s : Sending) {p : Bytes} (h : radiotap_hdr_len p = 0) :
    Sends c am usb s [p] s := by
  have hnone : all_to_air c am s.tx [p] = ([], s.tx) := by simp [all_to_air, h]
  constructor <;> simp [hnone]

/-- The loop sends what the frames are to be, one after another. -/
theorem sends_loop {lim : TxAggLimits} (hdesc : lim.desc_size = 48)
    (hbytes : lim.max_bytes.toNat < 65536) (hmax : 0 < lim.max_frames.toNat)
    (hfew : lim.max_frames.toNat < 256)
    (hbulk : ¬ lim.bulk_size.toNat ∣ 8) (pkts : List Bytes) (s : Sending)
    (hlen : ∀ p ∈ pkts, p.length < 2 ^ 63) (honce : ∀ p ∈ pkts, Once p) :
    Sends c am usb s pkts (send_loop c am usb lim pkts s) := by
  induction pkts, s using send_loop.induct c am usb lim with
  | case1 s =>
    rw [send_loop]
    exact Sends.refl s
  | case2 s p ps lens hnone ih =>
    rw [send_loop, if_pos hnone]
    have hrest := ih (fun q hq => hlen q (List.mem_cons_of_mem p hq))
      (fun q hq => honce q (List.mem_cons_of_mem p hq))
    rcases collect_runs c am s.tx.channel hmax p ps with ⟨hp, -⟩ | ⟨k, hlens, -⟩
    · exact (sends_skip s hp).trans hrest
    · exact absurd (hlens.symm.trans hnone) (List.cons_ne_nil _ _)
  | case3 s p ps lens hsome plan hfew ih =>
    rw [send_loop, if_neg hsome]
    dsimp only
    rw [if_pos hfew]
    have hrest := ih (fun q hq => hlen q (List.mem_cons_of_mem p hq))
      (fun q hq => honce q (List.mem_cons_of_mem p hq))
    exact (sends_one s p).trans hrest
  | case4 s p ps lens hsome plan hmany ih =>
    rw [send_loop, if_neg hsome]
    dsimp only
    rw [if_neg hmany]
    rcases collect_runs c am s.tx.channel hmax p ps with ⟨-, hlens⟩ | ⟨k, hlens, hrun⟩
    · exact absurd hlens hsome
    · have hplan : plan_tx_agg ((p :: ps.take k).map frame_len) lim = plan := by
        rw [← hlens]
      obtain ⟨j, hcount, hj, hrun, hlays⟩ := planned_run hdesc hbytes hbulk hlen hrun hplan
        (Nat.lt_of_not_le hmany)
      have hcut : (p :: ps.take j) ++ (p :: ps).drop plan.blocks.length = p :: ps := by
        rw [hcount, List.drop_succ_cons, List.cons_append, List.take_append_drop]
      have hlt : (p :: ps.take j).length < 256 := by
        have hle := hlays.count
        rw [length_lays hlays, List.length_map] at hle
        omega
      have hsends : Sends c am usb s _ _ := sends_run hrun (honce p List.mem_cons_self)
        (fun q hq => honce q (List.mem_cons_of_mem p (List.mem_of_mem_take hq)))
        (fun x hx => hlen x (List.cons_subset_cons p (List.take_subset j ps) hx)) hdesc hbytes hlt
        hlays ((p :: ps).drop plan.blocks.length)
      rw [hcut] at hsends
      have hrest := ih (fun q hq => hlen q (List.mem_of_mem_drop hq))
        (fun q hq => honce q (List.mem_of_mem_drop hq))
      have hboth := hsends.trans hrest
      rw [hcut] at hboth
      exact hboth

theorem sends_packets (c : TxCfg) (am : AmpduMode) (usb : Bus) (agg : UInt32) (is_usb : Bool)
    (speed : ℤ) (tx : Tx) {pkts : List Bytes} (hlen : ∀ p ∈ pkts, p.length < 2 ^ 63)
    (honce : ∀ p ∈ pkts, Once p) :
    Sends c am usb { tx } pkts (send_packets c am usb agg is_usb speed tx pkts) := by
  unfold send_packets
  split
  · exact sends_one_by_one c am usb _ _
  · next hbatch =>
    rw [not_or] at hbatch
    have hagg : 1 < agg.toNat := Nat.lt_of_not_le hbatch.1
    have hmax : (limits agg speed).max_frames.toNat = min agg.toNat 3 := by
      show (if agg ≤ 3 then agg else 3).toNat = _
      split
      · next h => exact (Nat.min_eq_left (UInt32.le_iff_toNat_le.mp h)).symm
      · next h =>
        have hgt := Nat.lt_of_not_le fun h' => h (UInt32.le_iff_toNat_le.mpr h')
        exact (Nat.min_eq_right (Nat.le_of_lt hgt)).symm
    have hbytes : (limits agg speed).max_bytes.toNat < 65536 := by
      show (20480 : UInt64).toNat < 65536
      decide
    apply sends_loop rfl hbytes (by omega) (by omega) ?_ pkts _ hlen honce
    show ¬ (if speed ≥ kUsbSpeedSuper then (1024 : UInt64) else
      if speed ≥ kUsbSpeedHigh then 512 else 64).toNat ∣ 8
    split_ifs <;> decide

theorem all_to_air_length (t : Tx) (pkts : List Bytes) : (all_to_air c am t pkts).1.length =
    (pkts.filter fun p => radiotap_hdr_len p ≠ 0).length := by
  induction pkts generalizing t with
  | nil => rfl
  | cons p ps ih =>
    rw [all_to_air]
    by_cases hp : radiotap_hdr_len p = 0
    · rw [if_pos hp, List.filter_cons_of_neg (by simpa using hp), ih]
    · rw [if_neg hp, List.filter_cons_of_pos (by simpa using hp), List.length_cons,
        List.length_cons, ih]

theorem all_to_air_checked (t : Tx) (pkts : List Bytes) :
    ∀ a ∈ (all_to_air c am t pkts).1, a.seen.checked = true := by
  induction pkts generalizing t with
  | nil => simp [all_to_air]
  | cons p ps ih =>
    rw [all_to_air]
    split
    · exact ih t
    · exact List.forall_mem_cons.mpr ⟨rfl, ih _⟩

/-- Sending a batch is sending its packets one by one: the chip gets the same frames in the same
order, each on its endpoint and with the radio set as it asks for, each descriptor passes its check,
and where the bus takes all transfers all well-formed packets are counted. -/
theorem batch_as_single (c : TxCfg) (am : AmpduMode) (usb : Bus) (agg : UInt32) (is_usb : Bool)
    (speed : ℤ) (tx : Tx) {pkts : List Bytes} (hlen : ∀ p ∈ pkts, p.length < 2 ^ 63)
    (honce : ∀ p ∈ pkts, Once p) :
    let batch := send_packets c am usb agg is_usb speed tx pkts
    let single := one_by_one c am usb tx pkts
    batch.log.flatMap Submission.aired = single.log.flatMap Submission.aired ∧
      batch.tx = single.tx ∧
      (∀ a ∈ batch.log.flatMap Submission.aired, a.seen.checked = true) ∧
      ((∀ k urb, usb k urb = int_of_long urb.length) →
        batch.ok = (pkts.filter fun p => radiotap_hdr_len p ≠ 0).length ∧
          single.ok = batch.ok) := by
  have hbatch := sends_packets c am usb agg is_usb speed tx hlen honce
  have hsingle := sends_one_by_one c am usb { tx } pkts
  dsimp only
  refine ⟨hbatch.aired.trans hsingle.aired.symm, hbatch.tx.trans hsingle.tx.symm, ?_, ?_⟩
  · rw [hbatch.aired]
    exact all_to_air_checked tx pkts
  · intro husb
    have hok := hbatch.ok husb
    have hok' := hsingle.ok husb
    rw [all_to_air_length] at hok hok'
    rw [hok]
    exact ⟨Nat.zero_add _, hok'⟩

/-- A frame for a channel with a power, of data or of management. -/
def tuned (chan : UInt16) (pwr dot11 : UInt8) : Bytes :=
  [0, 0, 13, 0, 0x08, 0x04, 0, 0] ++ Wire.putLe 2 chan.toBitVec ++ [0, 0, pwr, dot11, 0, 0, 0, 0x11]

theorem batch_as_single_three :
    let pkts := [tuned 5180 20 0x08, tuned 5180 20 0x88, tuned 5200 20 0x80]
    let c : TxCfg := { eps := [2, 3] }
    let usb : Bus := fun _ urb => int_of_long urb.length
    let tx : Tx := { channel := 36, width := .CHANNEL_WIDTH_20 }
    (one_by_one c {} usb tx pkts).log.length = 3 ∧
      (send_packets c {} usb 3 true 3 tx pkts).log.flatMap Submission.aired =
        (one_by_one c {} usb tx pkts).log.flatMap Submission.aired ∧
      (send_packets c {} usb 3 true 3 tx pkts).log.length = 2 := by
  intro pkts c usb tx
  have hshort : ∀ p ∈ pkts, p.length < 2 ^ 63 := by simp [pkts, tuned, Wire.length_putLe]
  have hone : ∀ p ∈ pkts, (mt7612u.rd32 p 4).getLsbD 31 = false := by decide
  exact ⟨by decide +kernel,
    (batch_as_single c {} usb 3 true 3 tx hshort fun p hp => once_of_one_word (hone p hp)).1,
    by decide +kernel⟩

/-! ## From the modes to the air -/

/-- A frame that is to be sent with a mode. Its size fits into the descriptor. -/
structure Job where
  mode : TxMode
  legal : mode.Legal
  not_he : mode.mode ≠ .HE
  no_ack : Bool
  frame : Bytes
  some : frame ≠ []
  short : frame.length < 65536

def Job.packet (j : Job) : Bytes := build_stream_radiotap j.mode j.no_ack ++ j.frame

theorem Job.hdr_len (j : Job) :
    radiotap_hdr_len j.packet = (build_stream_radiotap j.mode j.no_ack).length :=
  built_hdr_len j.mode j.no_ack j.some

theorem length_header (m : TxMode) (no_ack : Bool) :
    (build_stream_radiotap m no_ack).length = 13 ∨
    (build_stream_radiotap m no_ack).length = 22 := by
  unfold build_stream_radiotap
  cases m.mode
  · exact Or.inl rfl
  · exact Or.inl rfl
  · exact Or.inr rfl
  · exact Or.inr rfl

theorem Job.well_formed (j : Job) : radiotap_hdr_len j.packet ≠ 0 := by
  rw [j.hdr_len]
  rcases length_header j.mode j.no_ack with h | h
  · omega
  · omega

theorem Job.once (j : Job) : Once j.packet := by
  unfold Once
  rw [j.hdr_len]
  unfold Job.packet
  rw [handed_out_built]
  cases j.mode.mode <;> decide

theorem Job.ask (j : Job) (d : Option TxMode) : tx_ask d j.packet = header_ask true j.mode :=
  built_ask false true j.legal j.not_he j.no_ack j.some d

/-- The header of a mode asks for no channel and no power. -/
theorem Job.air_after (j : Job) (t : Tx) : (after c t j.packet).air = t.air := by
  have hkeeps : (header_ask true j.mode).radiotap_channel = 0 ∧
      (header_ask true j.mode).radiotap_pkt_pwr_db = none := by
    unfold header_ask
    cases j.mode.mode <;> exact ⟨rfl, rfl⟩
  rw [jaguar3.air_after, j.ask]
  unfold hopped banked
  rw [hkeeps.1, hkeeps.2, if_neg fun h => absurd h.1 (lt_irrefl 0)]
  rfl

theorem Job.seen (j : Job) (c : TxCfg) (am : AmpduMode) (t : Tx) (hndpa : c.ndpa_period ≤ 1) :
    ((placed c t j.packet 0).seen c.toDescCfg am c.eps.length).air = j.mode.header_air ∧
      ((placed c t j.packet 0).seen c.toDescCfg am c.eps.length).frame = j.frame := by
  have hdot11 : j.packet.drop (radiotap_hdr_len j.packet) = j.frame := by
    rw [j.hdr_len]
    exact List.drop_left
  have hpaced : ∀ ndpa : Bool, (ndpa && c.ndpa_period > 1) = false := by
    intro ndpa
    simp [hndpa]
  have hstbc : (header_ask true j.mode).stbc.toNat < 4 := by
    have hbit : ∀ b : Bool, b.toUInt8.toNat < 4 := by decide
    unfold header_ask
    cases j.mode.mode
    · exact hbit false
    · exact hbit j.mode.stbc
    · exact hbit j.mode.stbc
    · exact hbit false
  unfold placed Placed.seen
  dsimp only
  rw [hdot11, j.ask]
  constructor
  · rw [seen_air c am c.eps.length j.frame 0 (header_has_hw_rate true j.legal j.not_he) hstbc
      (hpaced _)]
    exact (header_ask_air true j.legal j.not_he).2
  · show j.frame.take (j.frame.length % 65536) = j.frame
    rw [Nat.mod_eq_of_lt j.short, List.take_length]

theorem jobs_to_air (hndpa : c.ndpa_period ≤ 1) (t : Tx) (js : List Job) :
    (all_to_air c am t (js.map Job.packet)).1.map (fun a => (a.air, a.seen.air, a.seen.frame)) =
      js.map fun j => (t.air, j.mode.header_air, j.frame) := by
  induction js generalizing t with
  | nil => rfl
  | cons j js ih =>
    obtain ⟨hair, hframe⟩ := j.seen c am t hndpa
    rw [List.map_cons, all_to_air, if_neg j.well_formed]
    dsimp only
    rw [List.map_cons, ih, j.air_after, List.map_cons]
    unfold to_air
    dsimp only
    rw [hair, hframe, j.air_after]

/-- Frames that are sent with modes, in one call and in transfers as the driver likes: the chip
reads each of them in order, with what the header of its mode carries, while the radio stays as
it is. -/
theorem batch_on_air (c : TxCfg) (am : AmpduMode) (usb : Bus) (agg : UInt32) (is_usb : Bool)
    (speed : ℤ) (tx : Tx) (js : List Job) (hndpa : c.ndpa_period ≤ 1) :
    ((send_packets c am usb agg is_usb speed tx
        (js.map Job.packet)).log.flatMap Submission.aired).map
        (fun a => (a.air, a.seen.air, a.seen.frame)) =
      js.map fun j => (tx.air, j.mode.header_air, j.frame) := by
  have hlen : ∀ p ∈ js.map Job.packet, p.length < 2 ^ 63 := by
    intro p hp
    obtain ⟨j, -, rfl⟩ := List.mem_map.mp hp
    have hheader := length_header j.mode j.no_ack
    have hshort := j.short
    unfold Job.packet
    rw [List.length_append]
    omega
  have honce : ∀ p ∈ js.map Job.packet, Once p := by
    intro p hp
    obtain ⟨j, -, rfl⟩ := List.mem_map.mp hp
    exact j.once
  have hsends := sends_packets c am usb agg is_usb speed tx hlen honce
  have haired := hsends.aired
  rw [haired]
  exact jobs_to_air hndpa tx js

/-- A frame of data with a mode that is given as text. -/
def job (spec : String) (hhe : (parse_tx_mode_str spec.toList).mode ≠ .HE) : Job where
  mode := parse_tx_mode_str spec.toList
  legal := parse_tx_mode_legal spec.toList
  not_he := hhe
  no_ack := false
  frame := [0x88, 0]
  some := List.cons_ne_nil _ _
  short := Nat.lt_of_sub_eq_succ rfl

theorem vht_behind_legacy :
    let tx : Tx := { channel := 36, width := .CHANNEL_WIDTH_80 }
    let js := [job "6M" (by decide), job "VHT2SS_MCS7/80/LDPC" (by decide)]
    ((send_packets { eps := [2, 3] } {} (fun _ urb => int_of_long urb.length) 3 true 4 tx
        (js.map Job.packet)).log.flatMap Submission.aired).map
      (fun a => (a.air, a.seen.air, a.seen.frame)) =
        [(tx.air, ⟨.Legacy, 12, 1, 20, false, false, false⟩, [0x88, 0]),
          (tx.air, ⟨.VHT, 7, 2, 80, false, true, false⟩, [0x88, 0])] := by
  intro tx js
  exact (batch_on_air { eps := [2, 3] } {} _ 3 true 4 tx js (by decide)).trans (by decide)

end devourer.jaguar3
