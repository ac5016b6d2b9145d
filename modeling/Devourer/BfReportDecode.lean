-- The compressed beamforming report: the header, the reader of the packed
-- angles, the decoder, and the search for the split of the bits.
import Devourer.Lib.BitStream
import Devourer.Lib.DoubleOps

namespace devourer.bf

open DoubleOps

/-! ## The header -/

/-- Subcarriers of a report, 0 for a bandwidth or a grouping that there is not. -/
def report_ns (bw ng : ℕ) : ℕ :=
  match bw, ng with
  | 0, 1 => 52
  | 0, 2 => 30
  | 0, 4 => 16
  | 1, 1 => 108
  | 1, 2 => 58
  | 1, 4 => 30
  | 2, 1 => 234
  | 2, 2 => 122
  | 2, 4 => 62
  | 3, 1 => 468
  | 3, 2 => 244
  | 3, 4 => 124
  | _, _ => 0

structure ReportHdr where
  nc : ℕ
  nr : ℕ
  bw : ℕ
  ng : ℕ
  mu : Bool
  vht : Bool
  ns : ℕ
  /-- The `angle_len` bytes from `angles` on. -/
  angles : Bytes
  per_sc_bits : ℕ
  deriving DecidableEq

/-- The header of a frame that is a report. -/
def parse_report (d : Bytes) (fcs_present : Bool) : Option ReportHdr :=
  let n := d.length
  let sub := byteAt d 0 &&& 0xF0
  let vht := byteAt d 24 = 0x15 ∧ byteAt d 25 = 0x00
  let ht := byteAt d 24 = 0x07 ∧ byteAt d 25 = 0x00
  if n < 30 ∨ (sub ≠ 0xD0 ∧ sub ≠ 0xE0) ∨ (¬ vht ∧ ¬ ht) then none
  else
    let mc := (byteAt d 26).toNat + 256 * (byteAt d 27).toNat + 65536 * (byteAt d 28).toNat
    let nc := mc % 8 + 1
    let nr := mc / 8 % 8 + 1
    let bw := mc / 64 % 4
    let ng_code := mc / 256 % 4
    let ng := if ng_code = 0 then 1 else if ng_code = 1 then 2 else 4
    let mu := (mc / 2048 % 2 ≠ 0 : Bool)
    let ns := report_ns bw ng
    let fcs := if fcs_present then 4 else 0
    if ns = 0 ∨ n < 30 + nc + fcs then none
    else
      let ab_len := n - (29 + nc) - fcs
      if mu then
        -- The per-tone SNR behind the angles is left out.
        let vbytes := (ns * 10 + 7) / 8
        if vbytes > ab_len then none
        else some ⟨nc, nr, bw, ng, mu, vht, ns, (d.drop (29 + nc)).take vbytes, 10⟩
      else if ab_len * 8 % ns ≠ 0 ∨ ab_len * 8 / ns < 2 then none
      else some ⟨nc, nr, bw, ng, mu, vht, ns, (d.drop (29 + nc)).take ab_len, ab_len * 8 / ns⟩

/-! ## The reader of the angles -/

/-- `x << n` of a word of 32 bits, which is not defined from a shift of 32 on. -/
def shl32 (x : BitVec 32) (n : ℕ) : Option (BitVec 32) := if n < 32 then some (x <<< n) else none

structure BitReader where
  d : Bytes
  pos : ℕ := 0

namespace BitReader

/-- The bits from `i` on, as long as there are any. -/
def readFrom : ℕ → ℕ → BitVec 32 → BitReader → Option (BitVec 32 × BitReader)
  | 0, _, v, br => some (v, br)
  | left + 1, i, v, br =>
    if br.pos ≥ br.d.length * 8 then some (v, br)
    else do
      let byte ← peek br.d (br.pos / 8)
      let bit ← shl32 ((byte.toBitVec.setWidth 32 >>> (br.pos % 8)) &&& 1#32) i
      readFrom left (i + 1) (v ||| bit) { br with pos := br.pos + 1 }

def read (n : ℕ) (br : BitReader) : Option (BitVec 32 × BitReader) := readFrom n 0 0#32 br

/-- One code after another. -/
def reads : List ℕ → BitReader → Option (List (BitVec 32) × BitReader)
  | [], br => some ([], br)
  | n :: ns, br => do
    let (q, br) ← br.read n
    let (qs, br) ← reads ns br
    some (q :: qs, br)

end BitReader

/-! ## The decoder -/

variable {F : Type} [DoubleOps F]

def M_PI : F := 3.14159265358979323846

def dequant_phi (q : BitVec 32) (b : ℕ) : Option F :=
  (shl32 1#32 b).map fun s => (2.0 * ofInt q.toNat + 1.0) * M_PI / ofInt s.toNat

def dequant_psi (q : BitVec 32) (b : ℕ) : Option F :=
  (shl32 1#32 (b + 2)).map fun s => (2.0 * ofInt q.toNat + 1.0) * M_PI / ofInt s.toNat

/-- The angles of each kind for a matrix of this size. There are as many of the one as of the
other. -/
def angle_counts (nr nc : ℕ) : ℕ × ℕ :=
  let lim := min nc (nr - 1)
  let n := ((List.range lim).map fun i => nr - (i + 1)).sum
  if n = 0 then (1, 1) else (n, n)

/-- The angles of one kind of one subcarrier. -/
def read_angles (dequant : BitVec 32 → ℕ → Option F) (b : ℕ) :
    ℕ → BitReader → Option (List F × BitReader)
  | 0, br => some ([], br)
  | n + 1, br => do
    let (q, br) ← br.read b
    let a ← dequant q b
    let (rest, br) ← read_angles dequant b n br
    some (a :: rest, br)

/-- `out[k] = x`. -/
def store (out : List F) (k : ℕ) (x : F) : Option (List F) :=
  if k < out.length then some (out.set k x) else none

/-- The subcarriers from `k` on, into the two outputs. -/
def decode_tones (nphi npsi bphi bpsi : ℕ) :
    ℕ → ℕ → BitReader → List F → List F → Option (List F × List F)
  | 0, _, _, phi_out, psi_out => some (phi_out, psi_out)
  | left + 1, k, br, phi_out, psi_out => do
    let (phis, br) ← read_angles dequant_phi bphi nphi br
    let (psis, br) ← read_angles dequant_psi bpsi npsi br
    let phi_out ← store phi_out k (phis.head?.getD 0)
    let psi_out ← store psi_out k (psis.head?.getD 0)
    decode_tones nphi npsi bphi bpsi left (k + 1) br phi_out psi_out

/-- The bits that a split takes for each subcarrier. -/
def ReportHdr.budget (h : ReportHdr) (bphi bpsi : ℕ) : ℕ :=
  (angle_counts h.nr h.nc).1 * bphi + (angle_counts h.nr h.nc).2 * bpsi

/-- The angle bytes have the bits for a split. -/
def ReportHdr.fits (h : ReportHdr) (bphi bpsi : ℕ) : Bool :=
  decide (h.ns * h.budget bphi bpsi ≤ h.angles.length * 8)

/-- The outputs, where the stream is long enough. The outer `none` is a step without a meaning:
a read or a store out of bounds, or a shift by too much. -/
def decode_angles (hdr : ReportHdr) (bphi bpsi : ℕ) : Option (Option (List F × List F)) :=
  if !hdr.fits bphi bpsi then some none
  else
    (decode_tones (angle_counts hdr.nr hdr.nc).1 (angle_counts hdr.nr hdr.nc).2 bphi bpsi hdr.ns 0
      ⟨hdr.angles, 0⟩ (List.replicate hdr.ns 0) (List.replicate hdr.ns 0)).map some

def decode_psi (hdr : ReportHdr) (bphi bpsi : ℕ) : Option (Option (List F)) :=
  (decode_angles hdr bphi bpsi).map fun r => r.map Prod.snd

/-! ## The search for the split -/

/-- The sums over the frames for each tone, with the number of frames. -/
structure ToneSums (F : Type) where
  sum : List F
  sumsq : List F
  nfr : ℕ

/-- The tones of one frame from `k` on. -/
def add_tones (psi : List F) : ℕ → ℕ → List F → List F → Option (List F × List F)
  | 0, _, sum, sumsq => some (sum, sumsq)
  | left + 1, k, sum, sumsq => do
    let p ← psi[k]?
    let s ← sum[k]?
    let q ← sumsq[k]?
    let sum ← store sum k (s + p)
    let sumsq ← store sumsq k (q + p * p)
    add_tones psi left (k + 1) sum sumsq

/-- The frames of the batch under one split. The inner `none` is a frame that is too short. -/
def sum_frames (ns bphi bpsi : ℕ) : List ReportHdr → ToneSums F → Option (Option (ToneSums F))
  | [], t => some (some t)
  | h :: batch, t => do
    match ← decode_psi h bphi bpsi with
    | none => some none
    | some psi =>
      let (sum, sumsq) ← add_tones psi ns 0 t.sum t.sumsq
      sum_frames ns bphi bpsi batch ⟨sum, sumsq, t.nfr + 1⟩

/-- The variances of the tones from `k` on, added up. -/
def variance (t : ToneSums F) : ℕ → ℕ → F → Option F
  | 0, _, var => some var
  | left + 1, k, var => do
    let s ← t.sum[k]?
    let q ← t.sumsq[k]?
    let m := s / ofInt t.nfr
    variance t left (k + 1) (var + (q / ofInt t.nfr - m * m))

/-- Nothing is added up yet. -/
def ToneSums.start (ns : ℕ) : ToneSums F := ⟨List.replicate ns 0, List.replicate ns 0, 0⟩

/-- The widths `bpsi` of the list one after another. `best` is the least variance yet and the split
that has it. -/
def try_splits (batch : List ReportHdr) (first : ReportHdr) :
    List ℕ → F × Option (ℕ × ℕ) → Option (Option (ℕ × ℕ))
  | [], best => some best.2
  | bpsi :: rest, best =>
    -- The codebook pairs each width of psi with one of phi that is 2 more.
    let bphi := bpsi + 2
    if first.budget bphi bpsi ≠ first.per_sc_bits then try_splits batch first rest best
    else do
      match ← sum_frames (F := F) first.ns bphi bpsi batch (ToneSums.start first.ns) with
      | none => try_splits batch first rest best
      | some t =>
        if t.nfr = 0 then try_splits batch first rest best
        else
          let var ← variance t first.ns 0 0
          let var := var / ofInt first.ns
          try_splits batch first rest (if var < best.1 then (var, some (bphi, bpsi)) else best)

variable (F) in
/-- The split, where one fits. -/
def pick_split (batch : List ReportHdr) : Option (Option (ℕ × ℕ)) :=
  match batch with
  | [] => some none
  | first :: _ =>
    try_splits (F := F) batch first (List.range' 1 first.per_sc_bits) (1e300, none)

end devourer.bf
