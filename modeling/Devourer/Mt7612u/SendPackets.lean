-- Injection one frame at a time and in batches: a batch selects frames, then
-- builds them into one transfer. Which lists the two send alike.
import Devourer.Mt7612u.AsyncRing
import Devourer.Mt7612u.TxBuild

namespace devourer.mt7612u

def MT_TX_BUF_MAX : ℕ := 4096
def MT_USB_AGG_MAX : ℕ := 32

/-- What the transfers of a run return. The first argument says how many there were before. -/
structure Usb where
  /-- A ring is running. -/
  a : Bool
  mt_async_tx_submit : ℕ → Bytes → ℕ → ℤ
  /-- The result, and the number of bytes that went. -/
  mt_bulk : ℕ → Bytes → ℤ × ℕ

/-- Every transfer succeeds in full. -/
structure Usb.Succeeds (usb : Usb) : Prop where
  submit : ∀ k buf n, buf.length ≤ MT_TX_BUFSZ → usb.mt_async_tx_submit k buf n = 0
  bulk : ∀ k buf, usb.mt_bulk k buf = (0, buf.length)

/-- A frame behind its radiotap header. -/
structure Sel where
  mpdu : Bytes
  r : TxRate
  deriving DecidableEq

/-- The frame of a buffer that has a usable radiotap header. -/
def mpdu_of (buf : Option Bytes) : Option Sel :=
  let (rlen, r) := mt_radiotap_parse buf
  match buf with
  | none => none
  | some p => if rlen ≤ 0 ∨ p.length ≤ rlen.toNat then none else some ⟨p.drop rlen.toNat, r⟩

/-! ## One frame -/

/-- What is returned, and the transfers that were made. -/
def mt_tx_raw (d : Dev) (usb : Usb) (k : ℕ) (frame : Bytes) (rate : TxRate) (wcid : UInt8)
    (opts : BitVec 32) : ℤ × List Bytes :=
  match mt_tx_build d MT_TX_BUF_MAX frame rate wcid opts false true with
  | none => (-1, [])
  | some buf =>
    if usb.a then (usb.mt_async_tx_submit k buf 1, [buf])
    else
      let (rc, n) := usb.mt_bulk k buf
      if rc ≠ 0 then (-1, [buf])
      else if n ≠ buf.length then (-1, [buf])
      else (0, [buf])

def mt7612u_tx (d : Dev) (usb : Usb) (k : ℕ) (frame : Bytes) (rate : TxRate) : ℤ × List Bytes :=
  mt_tx_raw d usb k frame rate 0xff 0

def mt7612u_send_packet (d : Dev) (usb : Usb) (k : ℕ) (buf : Option Bytes) : ℤ × List Bytes :=
  match mpdu_of buf with
  | none => (-1, [])
  | some s => mt7612u_tx d usb k s.mpdu s.r

/-- The buffers sent one by one: how many are accepted, and their transfers. -/
def one_by_one (d : Dev) (usb : Usb) : ℕ → List (Option Bytes) → ℕ × List Bytes
  | _, [] => (0, [])
  | k, pkt :: pkts =>
    let (rc, sent) := mt7612u_send_packet d usb k pkt
    let (n, later) := one_by_one d usb (k + sent.length) pkts
    (n + if rc = 0 then 1 else 0, sent ++ later)

/-! ## A batch -/

/-- The worst case of one block. -/
def need (len : ℕ) : ℕ := 4 + MT_TXWI_LEN + 2 + len + 3 + 4

/-- The first pass: the frames of one transfer, and the buffers behind them. `off` is what the
frames so far may take, `n` is their number. -/
def select : List (Option Bytes) → ℕ → ℕ → List Sel × List (Option Bytes)
  | [], _, _ => ([], [])
  | pkt :: pkts, off, n =>
    if n < MT_USB_AGG_MAX then
      if pkt.all fun p => p.length < 8 then select pkts off n
      else
        match mpdu_of pkt with
        | none => select pkts off n
        | some s =>
          if need s.mpdu.length > MT_TX_BUF_MAX then select pkts off n
          else if off + need s.mpdu.length > MT_USB_AGG_BUF then ([], pkt :: pkts)
          else
            let (sel, rest) := select pkts (off + need s.mpdu.length) (n + 1)
            (s :: sel, rest)
    else ([], pkt :: pkts)

/-- The second pass, behind the blocks that are built. -/
def build (d : Dev) : List Sel → Bytes → Option Bytes
  | [], buf => some buf
  | s :: sel, buf =>
    let last := sel.isEmpty
    match mt_tx_build d (MT_USB_AGG_BUF - buf.length) s.mpdu s.r 0xff 0 (!last) last with
    | none => none
    | some blk => build d sel (buf ++ blk)

structure Batch where
  sent : ℕ := 0
  transfers : List Bytes := []
  /-- A block failed to build, and its transfer was dropped. -/
  build_failed : Bool := false
  deriving DecidableEq

theorem length_select_le (pkts : List (Option Bytes)) (off n : ℕ) :
    (select pkts off n).1.length + (select pkts off n).2.length ≤ pkts.length := by
  induction pkts generalizing off n with
  | nil => rfl
  | cons pkt pkts ih =>
    unfold select
    split
    · split
      · exact Nat.le_succ_of_le (ih off n)
      · split
        · exact Nat.le_succ_of_le (ih off n)
        · next s _ =>
          split
          · exact Nat.le_succ_of_le (ih off n)
          · split
            · simp
            · have hrest := ih (off + need s.mpdu.length) (n + 1)
              simp only [List.length_cons]
              omega
    · simp

/-- The loop over the transfers. -/
def send_packets (d : Dev) (usb : Usb) (pkts : List (Option Bytes)) (b : Batch) : Batch :=
  let sel := (select pkts 0 0).1
  if _hsel : sel = [] then b
  else
    match build d sel [] with
    | none => { b with build_failed := true }
    | some buf =>
      let transfers := b.transfers ++ [buf]
      if usb.a then
        if usb.mt_async_tx_submit b.transfers.length buf sel.length ≠ 0 then { b with transfers }
        else send_packets d usb (select pkts 0 0).2
          { b with sent := b.sent + sel.length, transfers }
      else
        let (rc, _) := usb.mt_bulk b.transfers.length buf
        send_packets d usb (select pkts 0 0).2
          { b with sent := if rc = 0 then b.sent + sel.length else b.sent, transfers }
  termination_by pkts.length
  decreasing_by all_goals
    have hle := length_select_le pkts 0 0
    have hpos : 0 < (select pkts 0 0).1.length := List.length_pos_iff.mpr _hsel
    omega

/-- No list at all sends nothing. -/
def mt7612u_send_packets (d : Dev) (usb : Usb) : Option (List (Option Bytes)) → Batch
  | none => {}
  | some pkts => send_packets d usb pkts {}

/-! ## What the two accept -/

/-- A single send goes as far as a transfer. -/
def accepted (pkt : Option Bytes) : Option Sel :=
  (mpdu_of pkt).filter fun s => 10 ≤ s.mpdu.length ∧ s.mpdu.length + 32 ≤ MT_TX_BUF_MAX

/-- The first pass does not skip the buffer. -/
def picked (pkt : Option Bytes) : Option Sel :=
  (mpdu_of pkt).filter fun s => need s.mpdu.length ≤ MT_TX_BUF_MAX

/-- The frame as the chip gets it. -/
def Sel.aired (d : Dev) (s : Sel) : Aired :=
  { txwi := txwi d s.mpdu.length s.r 0xff 0, mpdu := s.mpdu }

/-- The transfers are read as these lists of frames. -/
def Reads (ts : List Bytes) (fs : List (List Aired)) : Prop :=
  List.Forall₂ (fun t f => txdma t = some f) ts fs

/-- A batch sends what its buffers would one by one. -/
structure Agrees (d : Dev) (usb : Usb) (pkts : List (Option Bytes)) : Prop where
  built : (mt7612u_send_packets d usb (some pkts)).build_failed = false
  within : ∀ t ∈ (mt7612u_send_packets d usb (some pkts)).transfers, t.length ≤ MT_USB_AGG_BUF
  aired : ∃ bursts ones, Reads (mt7612u_send_packets d usb (some pkts)).transfers bursts ∧
    Reads (one_by_one d usb 0 pkts).2 ones ∧ bursts.flatten = ones.flatten
  sent : (mt7612u_send_packets d usb (some pkts)).sent = (one_by_one d usb 0 pkts).1

variable {d : Dev} {usb : Usb}

theorem mpdu_of_short {pkt : Option Bytes} (h : pkt.all fun p => p.length < 8) :
    mpdu_of pkt = none := by
  cases pkt with
  | none => rfl
  | some p =>
    have hlt : p.length < 8 := by simpa using h
    simp [mpdu_of, radiotap_short hlt]

/-! ### One frame -/

theorem accepted_some {pkt : Option Bytes} {s : Sel} (hs : accepted pkt = some s) :
    mpdu_of pkt = some s ∧ 10 ≤ s.mpdu.length ∧ s.mpdu.length + 32 ≤ MT_TX_BUF_MAX := by
  obtain ⟨hmpdu, hlen⟩ := Option.filter_eq_some_iff.mp hs
  exact ⟨hmpdu, of_decide_eq_true hlen⟩

theorem mt_tx_build_whole (d : Dev) (s : Sel) (bufsz : ℕ) (h10 : 10 ≤ s.mpdu.length)
    (hlen : s.mpdu.length < 65000) (hfit : s.mpdu.length + 32 ≤ bufsz) :
    ∃ t, mt_tx_build d bufsz s.mpdu s.r 0xff 0 false true = some t ∧
      0 < t.length ∧ t.length ≤ need s.mpdu.length ∧
      ∀ left, txdma_chain (left + 1) t = some [s.aired d] := by
  have hle := length_body_le d s.mpdu s.r 0xff 0
  refine ⟨_, mt_tx_build_eq d h10 hfit s.r 0xff 0 false true, ?_, ?_, ?_⟩
  · simp
  · simp only [List.length_append, length_put_le32, List.length_replicate, if_true, need,
      MT_TXWI_LEN]
    omega
  · intro left
    rw [txdma_chain_block d s.r 0xff 0 h10 hlen false left]
    rfl

theorem send_packet_accepted (d : Dev) (h : usb.Succeeds) {pkt : Option Bytes} {s : Sel}
    (hs : accepted pkt = some s) (k : ℕ) :
    ∃ t, mt7612u_send_packet d usb k pkt = (0, [t]) ∧ txdma t = some [s.aired d] := by
  obtain ⟨hmpdu, h10, hmax⟩ := accepted_some hs
  rw [MT_TX_BUF_MAX] at hmax
  obtain ⟨t, ht, hpos, hle, hread⟩ := mt_tx_build_whole d s MT_TX_BUF_MAX h10 (by omega) hmax
  refine ⟨t, ?_, ?_⟩
  · have hring : t.length ≤ MT_TX_BUFSZ := by
      simp only [need, MT_TXWI_LEN, MT_TX_BUFSZ, MT_USB_AGG_BUF] at hle ⊢
      omega
    unfold mt7612u_send_packet mt7612u_tx mt_tx_raw
    simp only [hmpdu, ht, h.submit k t 1 hring, h.bulk k t]
    simp
  · obtain ⟨left, hleft⟩ := Nat.exists_eq_succ_of_ne_zero (by omega : t.length ≠ 0)
    rw [txdma, hleft]
    exact hread left

theorem send_packet_refused (d : Dev) (usb : Usb) {pkt : Option Bytes} (hs : accepted pkt = none)
    (k : ℕ) : mt7612u_send_packet d usb k pkt = (-1, []) := by
  unfold mt7612u_send_packet
  split
  · rfl
  · next s hmpdu =>
    have hbad : s.mpdu.length < 10 ∨ s.mpdu.length + 32 > MT_TX_BUF_MAX := by
      by_contra hok
      have hgood : 10 ≤ s.mpdu.length ∧ s.mpdu.length + 32 ≤ MT_TX_BUF_MAX := by omega
      simp [accepted, hmpdu, Option.filter, hgood] at hs
    rw [mt7612u_tx, mt_tx_raw, mt_tx_build, if_pos hbad]

theorem one_by_one_eq (d : Dev) (h : usb.Succeeds) (k : ℕ) (pkts : List (Option Bytes)) :
    (one_by_one d usb k pkts).1 = (pkts.filterMap accepted).length ∧
      Reads (one_by_one d usb k pkts).2 ((pkts.filterMap accepted).map fun s => [s.aired d]) := by
  induction pkts generalizing k with
  | nil => exact ⟨rfl, List.Forall₂.nil⟩
  | cons pkt pkts ih =>
    cases hs : accepted pkt with
    | none =>
      rw [List.filterMap_cons_none hs, one_by_one, send_packet_refused d usb hs k]
      exact ih _
    | some s =>
      obtain ⟨t, ht, hread⟩ := send_packet_accepted d h hs k
      rw [List.filterMap_cons_some hs, one_by_one, ht]
      exact ⟨congrArg (· + 1) (ih _).1, List.Forall₂.cons hread (ih _).2⟩

/-! ### A batch -/

theorem picked_some {pkt : Option Bytes} {s : Sel} (hs : picked pkt = some s) :
    mpdu_of pkt = some s ∧ need s.mpdu.length ≤ MT_TX_BUF_MAX := by
  obtain ⟨hmpdu, hlen⟩ := Option.filter_eq_some_iff.mp hs
  exact ⟨hmpdu, of_decide_eq_true hlen⟩

/-- The first pass, by what it skips. -/
theorem select_cons (pkt : Option Bytes) (pkts : List (Option Bytes)) (off n : ℕ) :
    select (pkt :: pkts) off n =
      if n < MT_USB_AGG_MAX then
        match picked pkt with
        | none => select pkts off n
        | some s =>
          if off + need s.mpdu.length > MT_USB_AGG_BUF then ([], pkt :: pkts)
          else
            (s :: (select pkts (off + need s.mpdu.length) (n + 1)).1,
              (select pkts (off + need s.mpdu.length) (n + 1)).2)
      else ([], pkt :: pkts) := by
  rw [select, picked]
  congr 1
  by_cases hshort : (pkt.all fun p => p.length < 8) = true
  · rw [if_pos hshort, mpdu_of_short hshort]
    rfl
  · rw [if_neg hshort]
    cases hmpdu : mpdu_of pkt with
    | none => rfl
    | some s =>
      by_cases hbig : need s.mpdu.length > MT_TX_BUF_MAX
      · simp [Option.filter, hbig, Nat.not_le_of_gt hbig]
      · simp [Option.filter, hbig, Nat.le_of_not_gt hbig]

/-- What the frames of a transfer may take. -/
def room (sel : List Sel) : ℕ := (sel.map fun s => need s.mpdu.length).sum

/-- The first pass takes the next frames that it does not skip, as many as there is room for. -/
theorem select_spec (pkts : List (Option Bytes)) (off n : ℕ) (hoff : off ≤ MT_USB_AGG_BUF) :
    pkts.filterMap picked = (select pkts off n).1 ++ (select pkts off n).2.filterMap picked ∧
    off + room (select pkts off n).1 ≤ MT_USB_AGG_BUF := by
  induction pkts generalizing off n with
  | nil => exact ⟨rfl, hoff⟩
  | cons pkt pkts ih =>
    rw [select_cons]
    split
    · cases hpick : picked pkt with
      | none =>
        rw [List.filterMap_cons_none hpick]
        exact ih off n hoff
      | some s =>
        dsimp only
        split
        · exact ⟨rfl, hoff⟩
        · next hroom =>
          obtain ⟨hmap, hfit⟩ := ih (off + need s.mpdu.length) (n + 1) (by omega)
          rw [List.filterMap_cons_some hpick]
          refine ⟨congrArg (s :: ·) hmap, ?_⟩
          simp only [room, List.map_cons, List.sum_cons] at hfit ⊢
          omega
    · exact ⟨rfl, hoff⟩

/-- With nothing in the transfer yet, only the end of the list ends the first pass. -/
theorem picked_none_of_select (pkts : List (Option Bytes)) (h : (select pkts 0 0).1 = []) :
    pkts.filterMap picked = [] := by
  induction pkts with
  | nil => rfl
  | cons pkt pkts ih =>
    rw [select_cons, if_pos (by decide)] at h
    cases hpick : picked pkt with
    | none =>
      rw [hpick] at h
      rw [List.filterMap_cons_none hpick]
      exact ih h
    | some s =>
      have hmax := (picked_some hpick).2
      rw [MT_TX_BUF_MAX] at hmax
      rw [hpick] at h
      dsimp only at h
      rw [if_neg (by rw [MT_USB_AGG_BUF]; omega)] at h
      cases h

/-- The second pass builds what the first one has room for, and the chip reads all of it. -/
theorem build_spec (d : Dev) (sel : List Sel) (buf : Bytes) (hne : sel ≠ [])
    (hlen : ∀ s ∈ sel, 10 ≤ s.mpdu.length ∧ need s.mpdu.length ≤ MT_TX_BUF_MAX)
    (hroom : buf.length + room sel ≤ MT_USB_AGG_BUF) :
    ∃ t, build d sel buf = some (buf ++ t) ∧ sel.length ≤ t.length ∧ t.length ≤ room sel ∧
      ∀ left, sel.length ≤ left → txdma_chain left t = some (sel.map (Sel.aired d)) := by
  induction sel generalizing buf with
  | nil => exact absurd rfl hne
  | cons s sel ih =>
    obtain ⟨h10, hmax⟩ := hlen s (by simp)
    have hneed : need s.mpdu.length = s.mpdu.length + 33 := by
      rw [need, MT_TXWI_LEN]
      omega
    rw [hneed, MT_TX_BUF_MAX] at hmax
    have hsum : room (s :: sel) = need s.mpdu.length + room sel := by simp [room]
    rw [hsum, hneed] at hroom
    have hfit : s.mpdu.length + 32 ≤ MT_USB_AGG_BUF - buf.length := by omega
    unfold build
    dsimp only
    cases sel with
    | nil =>
      obtain ⟨t, ht, hpos, hle, hread⟩ := mt_tx_build_whole d s _ h10 (by omega) hfit
      refine ⟨t, ?_, hpos, ?_, ?_⟩
      · rw [show (!List.isEmpty ([] : List Sel)) = false from rfl,
          show List.isEmpty ([] : List Sel) = true from rfl, ht]
        rfl
      · rw [hsum]
        exact Nat.le_add_right_of_le hle
      · intro left hleft
        obtain ⟨rest, rfl⟩ := Nat.exists_eq_add_of_le' hleft
        exact hread rest
    | cons s' sel' =>
      have hle := length_body_le d s.mpdu s.r 0xff 0
      have hblk := mt_tx_build_eq d h10 hfit s.r 0xff 0 true false
      obtain ⟨t, ht, hpos, hroom', hread⟩ := ih (buf ++
        (put_le32 (txinfo (body d s.mpdu s.r 0xff 0).length 0 true) ++ body d s.mpdu s.r 0xff 0))
        (by simp) (fun x hx => hlen x (by simp [hx]))
        (by simp only [List.length_append, length_put_le32]; omega)
      refine ⟨put_le32 (txinfo (body d s.mpdu s.r 0xff 0).length 0 true) ++
        (body d s.mpdu s.r 0xff 0 ++ t), ?_, ?_, ?_, ?_⟩
      · rw [show (!List.isEmpty (s' :: sel')) = true from rfl,
          show List.isEmpty (s' :: sel') = false from rfl, hblk]
        simp only [Bool.false_eq_true, if_false, List.replicate_zero, List.append_nil]
        rw [ht]
        simp only [List.append_assoc]
      · simp only [List.length_append, length_put_le32, List.length_cons] at hpos ⊢
        omega
      · rw [hsum]
        simp only [List.length_append, length_put_le32]
        omega
      · intro left hleft
        obtain ⟨rest, rfl⟩ := Nat.exists_eq_add_of_le' (Nat.le_trans (Nat.le_add_left 1 _) hleft)
        rw [txdma_chain_block d s.r 0xff 0 h10 (by omega), if_pos rfl,
          hread rest (by simpa using hleft)]
        rfl

/-- A frame that is too short for the second pass loses the transfer. -/
theorem build_short (d : Dev) (sel : List Sel) (buf : Bytes) {s : Sel} (hs : s ∈ sel)
    (hshort : s.mpdu.length < 10) : build d sel buf = none := by
  induction sel generalizing buf with
  | nil => cases hs
  | cons s' sel ih =>
    unfold build
    dsimp only
    rcases List.mem_cons.mp hs with rfl | hs
    · rw [mt_tx_build_short d hshort]
    · cases mt_tx_build d (MT_USB_AGG_BUF - buf.length) s'.mpdu s'.r 0xff 0 (!sel.isEmpty)
        sel.isEmpty with
      | none => rfl
      | some blk => exact ih _ hs

/-- One turn of the loop, when the transfer succeeds. -/
theorem send_packets_turn (d : Dev) (h : usb.Succeeds) (pkts : List (Option Bytes)) (b : Batch)
    (hsel : (select pkts 0 0).1 ≠ []) {buf : Bytes}
    (hbuf : build d (select pkts 0 0).1 [] = some buf) (hlen : buf.length ≤ MT_TX_BUFSZ) :
    send_packets d usb pkts b = send_packets d usb (select pkts 0 0).2
      { b with
        sent := b.sent + (select pkts 0 0).1.length
        transfers := b.transfers ++ [buf] } := by
  rw [send_packets]
  dsimp only
  rw [dif_neg hsel]
  simp only [hbuf, h.submit _ buf _ hlen, h.bulk _ buf]
  simp

/-- Without a frame that is too short, every frame that the first pass does not skip is sent. -/
theorem send_packets_eq (d : Dev) (h : usb.Succeeds) (pkts : List (Option Bytes)) (b : Batch)
    (hlong : ∀ s ∈ pkts.filterMap picked, 10 ≤ s.mpdu.length) :
    ∃ ts bursts, send_packets d usb pkts b =
      { b with
        sent := b.sent + (pkts.filterMap picked).length
        transfers := b.transfers ++ ts } ∧
      (∀ t ∈ ts, t.length ≤ MT_USB_AGG_BUF) ∧ Reads ts bursts ∧
      bursts.flatten = (pkts.filterMap picked).map (Sel.aired d) := by
  induction hn : pkts.length using Nat.strong_induction_on generalizing pkts b with
  | _ n ih =>
    by_cases hsel : (select pkts 0 0).1 = []
    · refine ⟨[], [], ?_, nofun, List.Forall₂.nil, ?_⟩
      · rw [send_packets]
        simp [hsel, picked_none_of_select pkts hsel]
      · simp [picked_none_of_select pkts hsel]
    · obtain ⟨hmap, hroom⟩ := select_spec pkts 0 0 (Nat.zero_le _)
      have hmem : ∀ s ∈ (select pkts 0 0).1, s ∈ pkts.filterMap picked := by
        intro s hs
        rw [hmap]
        exact List.mem_append_left _ hs
      have hgood : ∀ s ∈ (select pkts 0 0).1,
          10 ≤ s.mpdu.length ∧ need s.mpdu.length ≤ MT_TX_BUF_MAX := by
        intro s hs
        obtain ⟨pkt, -, hpick⟩ := List.mem_filterMap.mp (hmem s hs)
        exact ⟨hlong s (hmem s hs), (picked_some hpick).2⟩
      obtain ⟨buf, hbuf, hpos, hle, hread⟩ := build_spec d _ [] hsel hgood (by simpa using hroom)
      rw [List.nil_append] at hbuf
      have hfit : buf.length ≤ MT_USB_AGG_BUF := by omega
      have hshorter : (select pkts 0 0).2.length < n := by
        have htotal := length_select_le pkts 0 0
        have hone := List.length_pos_iff.mpr hsel
        omega
      obtain ⟨ts, bursts, hrest, hwithin, hreads, hall⟩ := ih _ hshorter (select pkts 0 0).2
        { b with
          sent := b.sent + (select pkts 0 0).1.length
          transfers := b.transfers ++ [buf] }
        (fun s hs => hlong s (by rw [hmap]; exact List.mem_append_right _ hs)) rfl
      refine ⟨buf :: ts, (select pkts 0 0).1.map (Sel.aired d) :: bursts, ?_, ?_, ?_, ?_⟩
      · rw [send_packets_turn d h pkts b hsel hbuf hfit, hrest, hmap]
        simp [Nat.add_assoc]
      · exact List.forall_mem_cons.mpr ⟨hfit, hwithin⟩
      · exact List.Forall₂.cons (hread _ hpos) hreads
      · rw [List.flatten_cons, hall, hmap, List.map_append]

/-- The first frame that is too short ends the batch with a block that failed to build. -/
theorem send_packets_short (d : Dev) (h : usb.Succeeds) (pkts : List (Option Bytes)) (b : Batch)
    {s : Sel} (hs : s ∈ pkts.filterMap picked) (hshort : s.mpdu.length < 10) :
    (send_packets d usb pkts b).build_failed = true := by
  induction hn : pkts.length using Nat.strong_induction_on generalizing pkts b with
  | _ n ih =>
    by_cases hsel : (select pkts 0 0).1 = []
    · rw [picked_none_of_select pkts hsel] at hs
      cases hs
    · obtain ⟨hmap, hroom⟩ := select_spec pkts 0 0 (Nat.zero_le _)
      by_cases hin : ∃ x ∈ (select pkts 0 0).1, x.mpdu.length < 10
      · obtain ⟨x, hx, hxshort⟩ := hin
        rw [send_packets]
        dsimp only
        rw [dif_neg hsel, build_short d _ [] hx hxshort]
      · have hgood : ∀ x ∈ (select pkts 0 0).1,
            10 ≤ x.mpdu.length ∧ need x.mpdu.length ≤ MT_TX_BUF_MAX := by
          intro x hx
          have hmem : x ∈ pkts.filterMap picked := by
            rw [hmap]
            exact List.mem_append_left _ hx
          obtain ⟨pkt, -, hpick⟩ := List.mem_filterMap.mp hmem
          exact ⟨Nat.le_of_not_lt fun hlt => hin ⟨x, hx, hlt⟩, (picked_some hpick).2⟩
        obtain ⟨buf, hbuf, -, hle, -⟩ := build_spec d _ [] hsel hgood (by simpa using hroom)
        rw [List.nil_append] at hbuf
        have hfit : buf.length ≤ MT_USB_AGG_BUF := by omega
        have hshorter : (select pkts 0 0).2.length < n := by
          have htotal := length_select_le pkts 0 0
          have hone := List.length_pos_iff.mpr hsel
          omega
        rw [send_packets_turn d h pkts b hsel hbuf hfit]
        refine ih _ hshorter _ _ ?_ rfl
        rw [hmap] at hs
        rcases List.mem_append.mp hs with hs | hs
        · exact absurd ⟨s, hs, hshort⟩ hin
        · exact hs

/-! ### The two against each other -/

/-- Of the frames that are long enough, the first pass skips what a single send has no room for,
and the longest one that it has room for. -/
theorem picked_eq {pkt : Option Bytes} (hlong : ∀ s, mpdu_of pkt = some s → 10 ≤ s.mpdu.length) :
    picked pkt = (accepted pkt).filter fun s => s.mpdu.length ≠ MT_TX_BUF_MAX - 32 := by
  unfold picked accepted
  cases hmpdu : mpdu_of pkt with
  | none => rfl
  | some s =>
    have h10 := hlong s hmpdu
    have hneed : need s.mpdu.length ≤ MT_TX_BUF_MAX ↔
        s.mpdu.length + 32 ≤ MT_TX_BUF_MAX ∧ s.mpdu.length ≠ MT_TX_BUF_MAX - 32 := by
      rw [need, MT_TXWI_LEN, MT_TX_BUF_MAX]
      omega
    by_cases hfit : s.mpdu.length + 32 ≤ MT_TX_BUF_MAX
    · simp [Option.filter, hneed, h10, hfit]
    · simp [Option.filter, hneed, hfit]

theorem filterMap_picked_eq {pkts : List (Option Bytes)}
    (hlong : ∀ pkt ∈ pkts, ∀ s, mpdu_of pkt = some s → 10 ≤ s.mpdu.length) :
    pkts.filterMap picked =
      (pkts.filterMap accepted).filter fun s => s.mpdu.length ≠ MT_TX_BUF_MAX - 32 := by
  rw [List.filter_filterMap]
  apply List.filterMap_congr
  intro pkt hpkt
  exact picked_eq (hlong pkt hpkt)

/-- The lengths that the two take alike. -/
def Alike (pkts : List (Option Bytes)) : Prop :=
  ∀ pkt ∈ pkts, ∀ s, mpdu_of pkt = some s →
    10 ≤ s.mpdu.length ∧ s.mpdu.length ≠ MT_TX_BUF_MAX - 32

theorem agrees_of_alike (d : Dev) (h : usb.Succeeds) {pkts : List (Option Bytes)}
    (halike : Alike pkts) : Agrees d usb pkts := by
  have hsame : pkts.filterMap picked = pkts.filterMap accepted := by
    rw [filterMap_picked_eq fun pkt hpkt s hs => (halike pkt hpkt s hs).1, List.filter_eq_self]
    intro s hs
    obtain ⟨pkt, hpkt, hacc⟩ := List.mem_filterMap.mp hs
    exact decide_eq_true (halike pkt hpkt s (accepted_some hacc).1).2
  have hlong : ∀ s ∈ pkts.filterMap picked, 10 ≤ s.mpdu.length := by
    intro s hs
    obtain ⟨pkt, hpkt, hpick⟩ := List.mem_filterMap.mp hs
    exact (halike pkt hpkt s (picked_some hpick).1).1
  obtain ⟨ts, bursts, hbatch, hwithin, hreads, hall⟩ := send_packets_eq d h pkts {} hlong
  obtain ⟨hcount, hones⟩ := one_by_one_eq d h 0 pkts
  rw [hsame] at hbatch hall
  refine ⟨?_, ?_, ⟨bursts, _, ?_, hones, ?_⟩, ?_⟩
  · rw [mt7612u_send_packets, hbatch]
  · rw [mt7612u_send_packets, hbatch]
    exact hwithin
  · rw [mt7612u_send_packets, hbatch]
    exact hreads
  · rw [hall, ← List.flatMap_def]
    exact List.map_eq_flatMap
  · rw [mt7612u_send_packets, hbatch, hcount]
    exact Nat.zero_add _

theorem alike_of_agrees (d : Dev) (h : usb.Succeeds) {pkts : List (Option Bytes)}
    (hagrees : Agrees d usb pkts) : Alike pkts := by
  have hlong : ∀ pkt ∈ pkts, ∀ s, mpdu_of pkt = some s → 10 ≤ s.mpdu.length := by
    intro pkt hpkt s hs
    by_contra hshort
    have hpick : picked pkt = some s := by
      rw [picked, hs, Option.filter, if_pos]
      rw [need, MT_TXWI_LEN, MT_TX_BUF_MAX, decide_eq_true_eq]
      omega
    have hfailed := send_packets_short d h pkts {}
      (List.mem_filterMap.mpr ⟨pkt, hpkt, hpick⟩) (by omega)
    cases hfailed.symm.trans hagrees.built
  intro pkt hpkt s hs
  refine ⟨hlong pkt hpkt s hs, fun hmax => ?_⟩
  have hlong' : ∀ s ∈ pkts.filterMap picked, 10 ≤ s.mpdu.length := by
    intro x hx
    obtain ⟨y, hy, hpick⟩ := List.mem_filterMap.mp hx
    exact hlong y hy x (picked_some hpick).1
  obtain ⟨ts, bursts, hbatch, -, -, -⟩ := send_packets_eq d h pkts {} hlong'
  have hcount := hagrees.sent
  rw [mt7612u_send_packets, hbatch, (one_by_one_eq d h 0 pkts).1, filterMap_picked_eq hlong]
    at hcount
  have hacc : accepted pkt = some s := by
    rw [accepted, hs, Option.filter, if_pos]
    rw [hmax]
    decide
  have hfewer :
      ((pkts.filterMap accepted).filter fun s => s.mpdu.length ≠ MT_TX_BUF_MAX - 32).length <
      (pkts.filterMap accepted).length :=
    List.length_filter_lt_length_iff_exists.mpr
      ⟨s, List.mem_filterMap.mpr ⟨pkt, hpkt, hacc⟩, by simp [hmax]⟩
  simp only [Nat.zero_add] at hcount
  omega

theorem batched_and_single_injection_agree (d : Dev) {usb : Usb} (h : usb.Succeeds)
    (pkts : List (Option Bytes)) :
    Agrees d usb pkts ↔ ∀ pkt ∈ pkts, ∀ s, mpdu_of pkt = some s →
      10 ≤ s.mpdu.length ∧ s.mpdu.length ≠ MT_TX_BUF_MAX - 32 :=
  ⟨alike_of_agrees d h, agrees_of_alike d h⟩

/-- A device without a ring, on which every transfer succeeds. -/
def quiet_usb : Usb where
  a := false
  mt_async_tx_submit _ _ _ := 0
  mt_bulk _ buf := (0, buf.length)

theorem quiet_usb_succeeds : quiet_usb.Succeeds := ⟨fun _ _ _ _ => rfl, fun _ _ => rfl⟩

/-- A device that is not tuned. -/
def untuned : Dev where
  chan := 0
  bw := .BW_20
  chainmask := 0x202
  txpower_conf := 0
  target_power := 0
  target_power_delta _ := 0
  enable_tpc := false
  rate_power := ⟨fun _ => 0, fun _ => 0, fun _ => 0, fun _ => 0⟩

/-- A radiotap header without fields, in front of a frame. -/
def framed (mpdu : Bytes) : Option Bytes := some ([0, 0, 8, 0, 0, 0, 0, 0] ++ mpdu)

theorem mpdu_of_data : mpdu_of (framed (List.replicate 24 0)) =
    some ⟨List.replicate 24 0, { phy := .OFDM, nss := 1 }⟩ := by decide

theorem mpdu_of_nine : mpdu_of (framed (List.replicate 9 0)) =
    some ⟨List.replicate 9 0, { phy := .OFDM, nss := 1 }⟩ := by decide

theorem mpdu_of_more : mpdu_of (framed (List.replicate 40 1)) =
    some ⟨List.replicate 40 1, { phy := .OFDM, nss := 1 }⟩ := by decide

/-- Two frames, and a packet between them that is none. -/
theorem a_batch_of_two_frames : Agrees untuned quiet_usb
    [framed (List.replicate 24 0), none, framed (List.replicate 40 1)] := by
  apply (batched_and_single_injection_agree untuned quiet_usb_succeeds _).mpr
  simp only [List.forall_mem_cons, mpdu_of_data, mpdu_of_more]
  refine ⟨?_, ?_, ?_, by simp⟩
  · rintro s hs
    cases hs
    decide
  · rintro s hs
    cases hs
  · rintro s hs
    cases hs
    decide

/-- A frame of nine bytes, and a whole one behind it that is lost with it. -/
theorem a_short_frame_loses_the_batch : ¬ Agrees untuned quiet_usb
    [framed (List.replicate 9 0), framed (List.replicate 24 0)] := by
  intro hagrees
  have halike :=
    alike_of_agrees untuned quiet_usb_succeeds hagrees _ List.mem_cons_self _ mpdu_of_nine
  exact absurd halike.1 (by decide)

end devourer.mt7612u
