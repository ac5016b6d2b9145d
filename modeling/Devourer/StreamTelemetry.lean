-- The timing of the stream on the wire: the field of each frame, the marker
-- in a frame of its own, and the latency that a receiver takes from them.
import Devourer.Lib.Fetch
import Mathlib.Algebra.Order.Group.Int
import Mathlib.Algebra.Order.Group.Unbundled.Abs
import Mathlib.Data.List.Range

namespace devourer.stream_timing

open Wire

/-! ## The clock in 16 bits -/

/-- The wrap of a TSF that travels as 16 bits of tens of microseconds. -/
def kTsf10WrapUs : ℤ := 655360

def llabs (x : ℤ) : ℤ := x.natAbs

/-- The time with these low bits that is nearest to `near_us`. -/
def unwrap_tsf10 (lo16 : UInt16) (near_us : ℤ) : ℤ :=
  let base := near_us - (near_us.tmod kTsf10WrapUs + kTsf10WrapUs).tmod kTsf10WrapUs +
    lo16.toNat * 10
  [base - kTsf10WrapUs, base + kTsf10WrapUs].foldl
    (fun best cand => if llabs (cand - near_us) < llabs (best - near_us) then cand else best) base

/-! ## The field of a frame -/

def kFrameVersion : UInt8 := 1
def kFrameHasCapture : UInt8 := 0x01
def kFrameHasTsf : UInt8 := 0x02
def kFrameHasDepth : UInt8 := 0x04
def kFrameTxAsync : UInt8 := 0x08

structure FrameTiming where
  has_capture : Bool := false
  has_tsf : Bool := false
  has_depth : Bool := false
  tx_async : Bool := false
  depth : UInt8 := 0
  tsf10_lo : UInt16 := 0
  c2s10 : UInt16 := 0
  deriving DecidableEq

namespace FrameTiming

def kSize : ℕ := 6

def flags (has_capture has_tsf has_depth tx_async : Bool) : UInt8 :=
  (if has_capture then kFrameHasCapture else 0) ||| (if has_tsf then kFrameHasTsf else 0) |||
    (if has_depth then kFrameHasDepth else 0) ||| (if tx_async then kFrameTxAsync else 0)

def encode (t : FrameTiming) : Octets kSize :=
  let f := flags t.has_capture t.has_tsf t.has_depth t.tx_async
  ⟨[kFrameVersion <<< 5 ||| (f &&& 0x1f), t.depth] ++ (put16 t.tsf10_lo ++ put16 t.c2s10), by
    simp [kSize]⟩

/-- A frame of another version carries no timing. -/
def decode (b : Octets kSize) : Option FrameTiming :=
  let f := byteAt b 0
  if f >>> 5 ≠ kFrameVersion then none
  else
    some {
      has_capture := f &&& kFrameHasCapture != 0
      has_tsf := f &&& kFrameHasTsf != 0
      has_depth := f &&& kFrameHasDepth != 0
      tx_async := f &&& kFrameTxAsync != 0
      depth := byteAt b 1
      tsf10_lo := UInt16.ofBitVec (getLe 16 2 fun i => byteAt b (2 + i))
      c2s10 := UInt16.ofBitVec (getLe 16 2 fun i => byteAt b (4 + i)) }

end FrameTiming

structure FrameLatency where
  submit_to_air_us : ℤ
  capture_to_air_us : ℤ
  has_capture : Bool
  deriving DecidableEq

def latency (t : FrameTiming) (remote_arrival_us : ℤ) : Option FrameLatency :=
  if !t.has_tsf then none
  else
    let submit := unwrap_tsf10 t.tsf10_lo remote_arrival_us
    some {
      submit_to_air_us := remote_arrival_us - submit
      capture_to_air_us := remote_arrival_us - submit + t.c2s10.toNat * 10
      has_capture := t.has_capture }

/-! ## The marker -/

def kMarkerIeType : UInt8 := 0x49
def kMarkerVersion : UInt8 := 1

structure TimingMarker where
  flags : UInt8 := 0
  tsf_pred_us : UInt64 := 0
  host_ns : UInt64 := 0
  fit_ppm_x100 : Int32 := 0
  fit_n : UInt16 := 0
  frames : UInt32 := 0
  t_queue_p50_10 : UInt16 := 0
  t_queue_max_10 : UInt16 := 0
  t_write_p50_10 : UInt16 := 0
  t_write_max_10 : UInt16 := 0
  c2s_p50_10 : UInt16 := 0
  c2s_max_10 : UInt16 := 0
  depth_max : UInt8 := 0
  captured : UInt16 := 0
  deriving DecidableEq

namespace TimingMarker

def kSize : ℕ := 51

/-- The element that a marker starts with, and its version. -/
def head : Bytes := [221, UInt8.ofNat (kSize - 2), 0x57, 0x42, 0x75, kMarkerIeType, kMarkerVersion]

def body (m : TimingMarker) : Bytes :=
  List.flatten
    [ put8 m.flags,
      put64 m.tsf_pred_us,
      put64 m.host_ns,
      put32 m.fit_ppm_x100.toUInt32,
      put16 m.fit_n,
      put32 m.frames,
      put16 m.t_queue_p50_10,
      put16 m.t_queue_max_10,
      put16 m.t_write_p50_10,
      put16 m.t_write_max_10,
      put16 m.c2s_p50_10,
      put16 m.c2s_max_10,
      put8 m.depth_max,
      put16 m.captured ]

def encode (m : TimingMarker) : Bytes := head ++ (m.body ++ [0xd7, 0x3b])

/-- A marker stands at an offset of a buffer, by the bytes of its head and of its end. -/
def marker_at (p : Bytes) (i : ℕ) : Bool :=
  byteAt p i = 221 ∧ byteAt p (i + 1) = UInt8.ofNat (kSize - 2) ∧ byteAt p (i + 2) = 0x57 ∧
    byteAt p (i + 3) = 0x42 ∧ byteAt p (i + 4) = 0x75 ∧ byteAt p (i + 5) = kMarkerIeType ∧
    byteAt p (i + 6) = kMarkerVersion ∧ byteAt p (i + (kSize - 2)) = 0xd7 ∧
    byteAt p (i + (kSize - 1)) = 0x3b

def fields : Fetch TimingMarker := do
  let flags ← get8
  let tsf_pred_us ← get64
  let host_ns ← get64
  let fit_ppm_x100 ← get32
  let fit_n ← get16
  let frames ← get32
  let t_queue_p50_10 ← get16
  let t_queue_max_10 ← get16
  let t_write_p50_10 ← get16
  let t_write_max_10 ← get16
  let c2s_p50_10 ← get16
  let c2s_max_10 ← get16
  let depth_max ← get8
  let captured ← get16
  return {
    flags, tsf_pred_us, host_ns, fit_ppm_x100 := fit_ppm_x100.toInt32, fit_n, frames,
    t_queue_p50_10, t_queue_max_10, t_write_p50_10, t_write_max_10, c2s_p50_10, c2s_max_10,
    depth_max, captured }

/-- The fields of the first marker that fits into the buffer. -/
def decode (p : Bytes) : Option TimingMarker := do
  let i ← (List.range (p.length + 1 - kSize)).find? (marker_at p)
  let (m, _) ← fields p (i + 7)
  return m

end TimingMarker

/-! ## The frame of the marker -/

def ssid : Bytes := "devourer-stream".toList.map fun c => UInt8.ofNat c.toNat

/-- The header up to the addresses of the sender. -/
def mgmt_front (fc0 : UInt8) : Bytes := [fc0, 0, 0, 0, 0xff, 0xff, 0xff, 0xff, 0xff, 0xff]

/-- The sequence number, the timestamp, the interval and the capabilities, the name of the
stream, and the element of the channel up to the channel. -/
def mgmt_middle : Bytes :=
  [0, 0] ++ (List.replicate 8 0 ++ ([0x64, 0x00, 0x21, 0x04] ++
    ([0x00, UInt8.ofNat ssid.length] ++ (ssid ++ [0x03, 0x01]))))

def append_mgmt_mpdu (out : Bytes) (fc0 : UInt8) (sa : Octets 6) (channel : UInt8)
    (m : Option TimingMarker) : Bytes :=
  out ++ (mgmt_front fc0 ++ (sa ++ (sa ++ (mgmt_middle ++ ([channel] ++
    ((m.map TimingMarker.encode).getD []))))))

def append_marker_mpdu (out : Bytes) (sa : Octets 6) (channel : UInt8) (m : TimingMarker) : Bytes :=
  append_mgmt_mpdu out 0x50 sa channel (some m)

/-! ## The latency of a frame -/

theorem getLe_put16 (v : UInt16) {f : ℕ → UInt8} (h : ∀ i, i < 2 → f i = byteAt (put16 v) i) :
    UInt16.ofBitVec (getLe 16 2 f) = v := by
  rw [getLe_of_bytes v.toBitVec (by decide) h]

/-- The field of a frame is read back. -/
theorem FrameTiming.decode_encode (t : FrameTiming) : decode t.encode = some t := by
  obtain ⟨capture, tsf, depth, async, n, lo, c2s⟩ := t
  have hflags : ∀ a b c d : Bool, let f := kFrameVersion <<< 5 ||| (flags a b c d &&& 0x1f)
      f >>> 5 = kFrameVersion ∧ (f &&& kFrameHasCapture != 0) = a ∧
        (f &&& kFrameHasTsf != 0) = b ∧ (f &&& kFrameHasDepth != 0) = c ∧
        (f &&& kFrameTxAsync != 0) = d := by
    decide
  obtain ⟨hversion, hcapture, htsf, hdepth, hasync⟩ := hflags capture tsf depth async
  have hlo : UInt16.ofBitVec (getLe 16 2 fun i => byteAt
      (encode ⟨capture, tsf, depth, async, n, lo, c2s⟩) (2 + i)) = lo := by
    apply getLe_put16
    intro i hi
    show byteAt ([_, _] ++ (put16 lo ++ put16 c2s)) (2 + i) = _
    rw [byteAt_append_right _ (by simp), byteAt_append_left _ (by simp; omega)]
    simp
  have hc2s : UInt16.ofBitVec (getLe 16 2 fun i => byteAt
      (encode ⟨capture, tsf, depth, async, n, lo, c2s⟩) (4 + i)) = c2s := by
    apply getLe_put16
    intro i hi
    show byteAt ([_, _] ++ (put16 lo ++ put16 c2s)) (4 + i) = _
    rw [byteAt_append_right _ (by simp; omega), byteAt_append_right _ (by simp; omega)]
    congr 1
    simp
    omega
  have hbyte : byteAt (encode ⟨capture, tsf, depth, async, n, lo, c2s⟩) 0 =
      kFrameVersion <<< 5 ||| (flags capture tsf depth async &&& 0x1f) := rfl
  unfold decode
  rw [hlo, hc2s, hbyte]
  dsimp only
  rw [if_neg (not_not.mpr hversion), hcapture, htsf, hdepth, hasync]
  rfl

theorem tmod_wrap (r : ℤ) :
    (r.tmod kTsf10WrapUs + kTsf10WrapUs).tmod kTsf10WrapUs = r % kTsf10WrapUs := by
  have hlow := Int.lt_tmod_of_pos r (show 0 < kTsf10WrapUs by decide)
  have hsum : 0 ≤ r.tmod kTsf10WrapUs + kTsf10WrapUs := by omega
  rw [Int.tmod_eq_emod_of_nonneg hsum, Int.add_emod_right, Int.tmod_def, Int.sub_mul_emod_self_left]

/-- Of the times with the same low bits, the one less than half a wrap away is taken. -/
theorem unwrap_near {lo : UInt16} {near submit : ℤ} (hdvd : kTsf10WrapUs ∣ submit - lo.toNat * 10)
    (hnear : |near - submit| < 327680) : unwrap_tsf10 lo near = submit := by
  have hlo : lo.toNat < 65536 := lo.toNat_lt
  rw [abs_lt] at hnear
  unfold unwrap_tsf10
  rw [tmod_wrap]
  simp only [List.foldl_cons, List.foldl_nil, llabs, kTsf10WrapUs] at hdvd ⊢
  omega

/-- What `unwrap_tsf10` computes on its way. -/
def unwrap_values (lo16 : UInt16) (near_us : ℤ) : List ℤ :=
  let rest := near_us.tmod kTsf10WrapUs + kTsf10WrapUs
  let base := near_us - rest.tmod kTsf10WrapUs + lo16.toNat * 10
  [rest, base, base - kTsf10WrapUs, base + kTsf10WrapUs, base - near_us,
    base - kTsf10WrapUs - near_us, base + kTsf10WrapUs - near_us]

/-- All of it is `int64_t` but for the last 1.4 seconds of the range. -/
theorem unwrap_fits {lo : UInt16} {near : ℤ} (h : |near| < 9223372036853465088) :
    ∀ v ∈ unwrap_values lo near, |v| < 9223372036854775808 := by
  have hlo : lo.toNat < 65536 := lo.toNat_lt
  have hpos : 0 < kTsf10WrapUs := by decide
  have hlow := Int.lt_tmod_of_pos near hpos
  have hhigh := Int.tmod_lt_of_pos near hpos
  rw [abs_lt] at h
  unfold unwrap_values
  dsimp only
  rw [tmod_wrap]
  simp only [kTsf10WrapUs] at hlow hhigh ⊢
  simp only [List.forall_mem_cons, abs_lt]
  refine ⟨?_, ?_, ?_, ?_, ?_, ?_, ?_, by simp⟩ <;> omega

/-- The latency of a frame is the one from its submit time, rounded down to 10 microseconds. -/
theorem latency_near {t : FrameTiming} {s r : ℤ} (htsf : t.has_tsf)
    (hlo : (t.tsf10_lo.toNat : ℤ) = s / 10 % 65536) (hnear : |r - s| < 327670) :
    ∃ out, latency t r = some out ∧ r - s ≤ out.submit_to_air_us ∧
      out.submit_to_air_us < r - s + 10 := by
  rw [abs_lt] at hnear
  have hsubmit : unwrap_tsf10 t.tsf10_lo r = s - s % 10 := by
    apply unwrap_near
    · rw [kTsf10WrapUs, hlo]
      omega
    · rw [abs_lt]
      omega
  refine ⟨_, by rw [latency, htsf]; rfl, ?_⟩
  dsimp only
  rw [hsubmit]
  omega

/-! ## The marker in its frame -/

namespace TimingMarker

theorem length_body (m : TimingMarker) : m.body.length = 42 := by simp [body]

theorem length_encode (m : TimingMarker) : m.encode.length = kSize := by
  simp [encode, length_body, head, kSize]

theorem fetches_body (m : TimingMarker) : Fetches fields m.body m := by
  obtain ⟨flags, tsf, host, ppm, n, frames, q, q', w, w', c, c', depth, captured⟩ := m
  refine .cons (fetches_put8 flags) ?_
  refine .cons (fetches_put64 tsf) ?_
  refine .cons (fetches_put64 host) ?_
  refine .cons (fetches_put32 ppm.toUInt32) ?_
  refine .cons (fetches_put16 n) ?_
  refine .cons (fetches_put32 frames) ?_
  refine .cons (fetches_put16 q) ?_
  refine .cons (fetches_put16 q') ?_
  refine .cons (fetches_put16 w) ?_
  refine .cons (fetches_put16 w') ?_
  refine .cons (fetches_put16 c) ?_
  refine .cons (fetches_put16 c') ?_
  refine .cons (fetches_put8 depth) ?_
  refine .cons (fetches_put16 captured) ?_
  exact .nil _

/-- A marker stands where it starts, whatever is around it. -/
theorem marker_at_encode (u : Bytes) (m : TimingMarker) (t : Bytes) :
    marker_at (u ++ (m.encode ++ t)) u.length = true := by
  have hbyte : ∀ i < kSize, byteAt (u ++ (m.encode ++ t)) (u.length + i) = byteAt m.encode i := by
    intro i hi
    rw [byteAt_behind, byteAt_append_left _]
    rw [length_encode]
    exact hi
  have hend : ∀ i, byteAt m.encode (head.length + (m.body.length + i)) = byteAt [0xd7, 0x3b] i := by
    intro i
    rw [encode, byteAt_behind, byteAt_behind]
  have hlast := hend 0
  have hlast' := hend 1
  rw [length_body] at hlast hlast'
  have hfirst := hbyte 0 (by decide)
  simp only [marker_at, decide_eq_true_eq]
  rw [Nat.add_zero] at hfirst
  rw [hfirst, hbyte 1 (by decide), hbyte 2 (by decide), hbyte 3 (by decide), hbyte 4 (by decide),
    hbyte 5 (by decide), hbyte 6 (by decide), hbyte (kSize - 2) (by decide),
    hbyte (kSize - 1) (by decide)]
  exact ⟨rfl, rfl, rfl, rfl, rfl, rfl, rfl, hlast, hlast'⟩

/-- The marker is decoded where none is found before it. -/
theorem decode_at {u t : Bytes} {m : TimingMarker}
    (h : ∀ i < u.length, marker_at (u ++ (m.encode ++ t)) i = false) :
    decode (u ++ (m.encode ++ t)) = some m := by
  have hfind : (List.range ((u ++ (m.encode ++ t)).length + 1 - kSize)).find?
      (marker_at (u ++ (m.encode ++ t))) = some u.length := by
    rw [List.find?_range_eq_some]
    refine ⟨marker_at_encode u m t, ?_, ?_⟩
    · rw [List.mem_range, List.length_append, List.length_append, length_encode]
      omega
    · intro i hi
      rw [h i hi]
      rfl
  have hfields : fields (u ++ (m.encode ++ t)) (u.length + 7) =
      some (m, u.length + 7 + m.body.length) := by
    apply (fetches_body m).at (u := u ++ head) (v := [0xd7, 0x3b] ++ t)
    · simp [encode]
    · simp [head]
  unfold decode
  rw [hfind]
  dsimp only [Option.bind_eq_bind, Option.bind_some]
  rw [hfields]
  rfl

end TimingMarker

theorem length_front (fc0 : UInt8) : (mgmt_front fc0).length = 10 := rfl

theorem length_middle : mgmt_middle.length = 33 := by decide

/-- No address and no channel looks like the start of a marker. -/
theorem no_marker_before (sa : Octets 6) (channel : UInt8) (rest : Bytes) {i : ℕ} (h : i < 56) :
    TimingMarker.marker_at (mgmt_front 0x50 ++
      (sa.val ++ (sa.val ++ (mgmt_middle ++ (channel :: 221 :: rest))))) i = false := by
  generalize hp : mgmt_front 0x50 ++
    (sa.val ++ (sa.val ++ (mgmt_middle ++ (channel :: 221 :: rest)))) = p
  have hsa := sa.property
  have hfront : ∀ k < 10, byteAt p k = byteAt (mgmt_front 0x50) k := by
    intro k hk
    rw [← hp, byteAt_append_left _ hk]
  have hfirst : ∀ k < 6, byteAt p (10 + k) = byteAt sa k := by
    intro k hk
    rw [← hp, ← length_front 0x50, byteAt_behind, byteAt_append_left _]
    omega
  have hbehind : ∀ k, byteAt p (16 + k) =
      byteAt (sa.val ++ (mgmt_middle ++ (channel :: 221 :: rest))) k := by
    intro k
    rw [← hp, show 16 + k = (mgmt_front 0x50).length + (sa.val.length + k) by
      rw [length_front]; omega, byteAt_behind, byteAt_behind]
  have hsecond : ∀ k < 6, byteAt p (16 + k) = byteAt sa k := by
    intro k hk
    rw [hbehind, byteAt_append_left _]
    omega
  have hmiddle : ∀ k, byteAt p (22 + k) = byteAt (mgmt_middle ++ (channel :: 221 :: rest)) k := by
    intro k
    rw [show 22 + k = 16 + (sa.val.length + k) by omega, hbehind, byteAt_behind]
  have hlength := length_middle
  have hconst : ∀ k < 33, byteAt p (22 + k) = byteAt mgmt_middle k := by
    intro k hk
    rw [hmiddle, byteAt_append_left _]
    omega
  have hlast : byteAt p 56 = 221 := by
    rw [show 56 = 22 + (mgmt_middle.length + 1) by rw [hlength], hmiddle, byteAt_behind]
    rfl
  simp only [TimingMarker.marker_at, decide_eq_false_iff_not]
  rintro ⟨hid, hlen, -, -, -, -, hversion, -⟩
  rcases Nat.lt_or_ge i 10 with h10 | h10
  · rw [hfront i h10] at hid
    have hnone : ∀ k < 10, byteAt (mgmt_front 0x50) k ≠ 221 := by decide
    exact hnone i h10 hid
  obtain ⟨k, rfl⟩ := Nat.exists_eq_add_of_le h10
  rcases Nat.lt_or_ge k 6 with h6 | h6
  · -- the same byte stands six further on, in the second address
    rw [hfirst k h6] at hid
    rw [show 10 + k + 6 = 16 + k by omega, hsecond k h6, hid] at hversion
    exact absurd hversion (by decide)
  rcases Nat.lt_or_ge k 12 with h12 | h12
  · obtain ⟨j, rfl⟩ := Nat.exists_eq_add_of_le h6
    have hzero : ∀ j < 6, byteAt mgmt_middle j ≠ kMarkerVersion := by decide
    rw [show 10 + (6 + j) + 6 = 22 + j by omega, hconst j (by omega)] at hversion
    exact hzero j (by omega) hversion
  obtain ⟨j, rfl⟩ := Nat.exists_eq_add_of_le h12
  rcases Nat.lt_or_ge j 33 with h33 | h33
  · have hnone : ∀ j < 33, byteAt mgmt_middle j ≠ 221 := by decide
    rw [show 10 + (12 + j) = 22 + j by omega, hconst j h33] at hid
    exact hnone j h33 hid
  · -- the channel, with the element of the marker behind it
    rw [show 10 + (12 + j) + 1 = 56 by omega, hlast] at hlen
    exact absurd hlen (by decide)

/-- The marker and the timing of a frame come off the wire as they were sent: whatever the
addresses, the channel and what follows, and with the submit time to 10 microseconds, in numbers
that are `int64_t` up to the end of the range of the arrival. -/
theorem the_timing_survives_the_wire :
    (∀ (sa : Octets 6) (channel : UInt8) (m : TimingMarker) (trailer : Bytes),
      TimingMarker.decode (append_marker_mpdu [] sa channel m ++ trailer) = some m) ∧
    (∀ (t : FrameTiming) (s r : ℤ), t.has_tsf → (t.tsf10_lo.toNat : ℤ) = s / 10 % 65536 → 0 ≤ s →
      |r - s| < 327670 → ∃ out, (FrameTiming.decode t.encode).bind (latency · r) = some out ∧
        r - s ≤ out.submit_to_air_us ∧ out.submit_to_air_us < r - s + 10) ∧
    ∀ (lo : UInt16) (r : ℤ), |r| < 9223372036853465088 →
      ∀ v ∈ unwrap_values lo r, |v| < 9223372036854775808 := by
  refine ⟨?_, ?_, fun lo r h => unwrap_fits h⟩
  · intro sa channel m trailer
    have hmpdu : append_marker_mpdu [] sa channel m ++ trailer =
        (mgmt_front 0x50 ++ (sa ++ (sa ++ (mgmt_middle ++ [channel])))) ++
          (m.encode ++ trailer) := by
      simp [append_marker_mpdu, append_mgmt_mpdu]
    rw [hmpdu]
    apply TimingMarker.decode_at
    intro i hi
    have hi' : i < 56 := by
      simp only [List.length_append, length_front, sa.property, length_middle,
        List.length_singleton] at hi
      exact hi
    have hnone := no_marker_before sa channel
      (TimingMarker.head.tail ++ (m.body ++ ([0xd7, 0x3b] ++ trailer))) hi'
    rw [← hnone]
    congr 1
    simp [TimingMarker.encode, TimingMarker.head]
  · intro t s r htsf hlo _ hnear
    rw [FrameTiming.decode_encode]
    exact latency_near htsf hlo hnear

/-- A frame that went on the air 433 microseconds behind its submit. -/
theorem a_frame_behind_its_submit :
    ∃ out, (FrameTiming.decode (FrameTiming.encode { has_tsf := true, tsf10_lo := 57920 })).bind
        (latency · 1235000) = some out ∧
      (1235000 : ℤ) - 1234567 ≤ out.submit_to_air_us ∧
      out.submit_to_air_us < (1235000 : ℤ) - 1234567 + 10 := by
  apply the_timing_survives_the_wire.2.1 { has_tsf := true, tsf10_lo := 57920 } 1234567 1235000
  · rfl
  · simp
  · simp
  · rw [abs_lt]
    simp

end devourer.stream_timing
