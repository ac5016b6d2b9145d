-- Where the search for the split of a batch and the decoder under it have a
-- meaning, and what the reader gives back of packed codes.
import Devourer.BfReportDecode

namespace devourer.bf

open DoubleOps BitStream

/-! ## The reader -/

namespace BitReader

variable {br : BitReader} {d : Bytes} {pos : ℕ}

theorem shl32_eq {x : BitVec 32} {n : ℕ} (h : n < 32) : shl32 x n = some (x <<< n) := if_pos h

/-- Up to 32 bits are read without a shift by too much, and never behind the data. -/
theorem readFrom_inside {left i : ℕ} (h : i + left ≤ 32) (v : BitVec 32) (br : BitReader) :
    ∃ r, readFrom left i v br = some r := by
  induction left generalizing i v br with
  | zero => exact ⟨_, rfl⟩
  | succ left ih =>
    unfold readFrom
    split
    · exact ⟨_, rfl⟩
    · rw [peek_eq (by omega), Option.bind_eq_bind, Option.bind_some, shl32_eq (by omega),
        Option.bind_eq_bind, Option.bind_some]
      exact ih (by omega) _ _

theorem read_inside {n : ℕ} (h : n ≤ 32) (br : BitReader) : ∃ r, br.read n = some r :=
  readFrom_inside (by omega) _ _

/-- The one bit that a turn of the reader adds. -/
theorem getLsbD_bit (x : UInt8) {k i : ℕ} (hk : k < 8) (hi : i < 32) {j : ℕ} (hj : j < 32) :
    (((x.toBitVec.setWidth 32 >>> k) &&& 1#32) <<< i).getLsbD j =
      (decide (j = i) && x.toBitVec.getLsbD k) := by
  rw [BitVec.getLsbD_shiftLeft, BitVec.getLsbD_and, BitVec.getLsbD_ushiftRight,
    BitVec.getLsbD_setWidth, BitVec.getLsbD_one]
  by_cases hji : j = i
  · subst hji
    simp [hj, show k < 32 by omega]
  · by_cases hlow : j < i
    · simp [hji, hlow]
    · simp [hji, show ¬ j - i = 0 by omega]

/-- With the low bits of a code in `v`, the rest of it is read behind them. -/
theorem readFrom_code {c : Code 32} (hfit : c.Fits) (hwidth : c.1 ≤ 32)
    (hbits : ∀ i < c.1, pos + i < 8 * d.length ∧
      (byteAt d ((pos + i) / 8)).toBitVec.getLsbD ((pos + i) % 8) = c.2.getLsbD i)
    {left i : ℕ} (hi : i + left = c.1) {v : BitVec 32}
    (hv : ∀ j < 32, v.getLsbD j = (decide (j < i) && c.2.getLsbD j)) :
    readFrom left i v ⟨d, pos + i⟩ = some (c.2, ⟨d, pos + c.1⟩) := by
  induction left generalizing i v with
  | zero =>
    have hall : v = c.2 := by
      apply BitVec.eq_of_getLsbD_eq
      intro j hj
      rw [hv j hj]
      by_cases hlow : j < i
      · simp [hlow]
      · have hout : c.2.getLsbD j = false := by
          rw [BitVec.getLsbD, Nat.testBit_lt_two_pow]
          exact Nat.lt_of_lt_of_le hfit (Nat.pow_le_pow_right (by decide) (by omega))
        simp [hout]
    rw [readFrom, hall, show i = c.1 by omega]
  | succ left ih =>
    obtain ⟨hin, hbit⟩ := hbits i (by omega)
    unfold readFrom
    have hbyte : (pos + i) / 8 < d.length := by omega
    rw [if_neg (by show ¬ pos + i ≥ d.length * 8; omega), peek_eq hbyte,
      Option.bind_eq_bind, Option.bind_some, shl32_eq (by omega), Option.bind_eq_bind,
      Option.bind_some]
    apply ih (by omega)
    intro j hj
    rw [BitVec.getLsbD_or, hv j hj, getLsbD_bit _ (Nat.mod_lt _ (by decide)) (by omega) hj, hbit]
    by_cases hji : j = i
    · subst hji
      simp
    · have hnext : j < i + 1 ↔ j < i := by omega
      simp [hji, hnext]

/-- The codes that the data begin with are read back, each in its width. -/
theorem reads_codes {l : List (Code 32)} (hfit : ∀ c ∈ l, c.Fits ∧ c.1 ≤ 32) {rest : List Bool}
    (h : (ofBytes d).drop pos = ofCodes l ++ rest) :
    ∃ br, reads (l.map Prod.fst) ⟨d, pos⟩ = some (l.map Prod.snd, br) := by
  induction l generalizing pos with
  | nil => exact ⟨_, rfl⟩
  | cons c l ih =>
    obtain ⟨hc, hwidth⟩ := hfit c List.mem_cons_self
    have hsplit : (ofBytes d).drop pos = c.bits ++ (ofCodes l ++ rest) := by
      rw [h, ofCodes, List.flatMap_cons, List.append_assoc]
      rfl
    have hread : BitReader.read c.1 ⟨d, pos⟩ = some (c.2, ⟨d, pos + c.1⟩) := by
      have hstart : ∀ j < 32, (0#32).getLsbD j = (decide (j < 0) && c.2.getLsbD j) := by
        intro j _
        simp
      exact readFrom_code hc hwidth (fun i hi => bit_of_drop hsplit hi) (Nat.zero_add c.1) hstart
    obtain ⟨br, hrest⟩ := ih (fun c hc => hfit c (List.mem_cons_of_mem _ hc)) (drop_of_drop hsplit)
    refine ⟨br, ?_⟩
    rw [List.map_cons, List.map_cons, reads, hread]
    simp only [Option.bind_eq_bind, Option.bind_some, hrest]

end BitReader

/-! ## The decoder -/

variable {F : Type} [DoubleOps F]

omit [DoubleOps F] in
theorem read_angles_inside {dequant : BitVec 32 → ℕ → Option F} {b : ℕ} (hb : b ≤ 32)
    (hq : ∀ q, ∃ a, dequant q b = some a) (n : ℕ) (br : BitReader) :
    ∃ r, read_angles dequant b n br = some r := by
  induction n generalizing br with
  | zero => exact ⟨_, rfl⟩
  | succ n ih =>
    obtain ⟨⟨q, br⟩, hread⟩ := BitReader.read_inside hb br
    obtain ⟨a, ha⟩ := hq q
    obtain ⟨⟨rest, br⟩, hrest⟩ := ih br
    unfold read_angles
    rw [hread]
    simp only [Option.bind_eq_bind, Option.bind_some, ha, hrest]
    exact ⟨_, rfl⟩

theorem dequant_phi_inside {b : ℕ} (h : b < 32) (q : BitVec 32) :
    ∃ a : F, dequant_phi q b = some a := by
  rw [dequant_phi, BitReader.shl32_eq h]
  exact ⟨_, rfl⟩

theorem dequant_psi_inside {b : ℕ} (h : b + 2 < 32) (q : BitVec 32) :
    ∃ a : F, dequant_psi q b = some a := by
  rw [dequant_psi, BitReader.shl32_eq h]
  exact ⟨_, rfl⟩

omit [DoubleOps F] in
theorem store_eq {out : List F} {k : ℕ} (h : k < out.length) (x : F) :
    store out k x = some (out.set k x) := if_pos h

omit [DoubleOps F] in
theorem le_length_set {out : List F} {k left : ℕ} (h : k + (left + 1) ≤ out.length) (x : F) :
    k + 1 + left ≤ (out.set k x).length := by
  rw [List.length_set]
  omega

theorem decode_tones_inside {bphi bpsi : ℕ} (hphi : bphi < 32) (hpsi : bpsi + 2 < 32)
    (nphi npsi : ℕ) {left k : ℕ} (br : BitReader) {phi_out psi_out : List F}
    (hlphi : k + left ≤ phi_out.length) (hlpsi : k + left ≤ psi_out.length) :
    ∃ phi psi, decode_tones nphi npsi bphi bpsi left k br phi_out psi_out = some (phi, psi) ∧
      psi.length = psi_out.length := by
  induction left generalizing k br phi_out psi_out with
  | zero => exact ⟨_, _, rfl, rfl⟩
  | succ left ih =>
    obtain ⟨⟨phis, br⟩, hphis⟩ :=
      read_angles_inside (by omega) (dequant_phi_inside (F := F) hphi) nphi br
    obtain ⟨⟨psis, br⟩, hpsis⟩ :=
      read_angles_inside (by omega) (dequant_psi_inside (F := F) hpsi) npsi br
    unfold decode_tones
    rw [hphis]
    simp only [Option.bind_eq_bind, Option.bind_some, hpsis]
    rw [store_eq (by omega), Option.bind_some, store_eq (by omega), Option.bind_some]
    obtain ⟨phi, psi, hrest, hlen⟩ := ih br (le_length_set hlphi _) (le_length_set hlpsi _)
    exact ⟨phi, psi, hrest, by rw [hlen, List.length_set]⟩

theorem decode_psi_short {h : ReportHdr} {bphi bpsi : ℕ} (hfit : h.fits bphi bpsi = false) :
    decode_psi (F := F) h bphi bpsi = some none := by
  rw [decode_psi, decode_angles, hfit]
  rfl

/-- Under a split of narrow codes the tones of a frame that is long enough are decoded. -/
theorem decode_fits {bphi bpsi : ℕ} (hphi : bphi < 32) (hpsi : bpsi + 2 < 32) {h : ReportHdr}
    (hfit : h.fits bphi bpsi = true) :
    ∃ phi psi : List F, decode_angles h bphi bpsi = some (some (phi, psi)) ∧ psi.length = h.ns := by
  have hlen : 0 + h.ns ≤ (List.replicate h.ns (0 : F)).length := by simp
  obtain ⟨phi, psi, hdecode, hpsi⟩ := decode_tones_inside hphi hpsi (angle_counts h.nr h.nc).1
    (angle_counts h.nr h.nc).2 ⟨h.angles, 0⟩ hlen hlen
  refine ⟨phi, psi, ?_, by rw [hpsi, List.length_replicate]⟩
  rw [decode_angles, hfit, hdecode]
  rfl

theorem decode_angles_inside {bphi bpsi : ℕ} (hphi : bphi < 32) (hpsi : bpsi + 2 < 32)
    (h : ReportHdr) : ∃ r, decode_angles (F := F) h bphi bpsi = some r := by
  cases hfit : h.fits bphi bpsi with
  | false =>
    rw [decode_angles, hfit]
    exact ⟨_, rfl⟩
  | true =>
    obtain ⟨phi, psi, hdecode, -⟩ := decode_fits (F := F) hphi hpsi hfit
    exact ⟨_, hdecode⟩

theorem decode_psi_fits {bphi bpsi : ℕ} (hphi : bphi < 32) (hpsi : bpsi + 2 < 32) {h : ReportHdr}
    (hfit : h.fits bphi bpsi = true) :
    ∃ psi : List F, decode_psi h bphi bpsi = some (some psi) ∧ psi.length = h.ns := by
  obtain ⟨phi, psi, hdecode, hlen⟩ := decode_fits (F := F) hphi hpsi hfit
  refine ⟨psi, ?_, hlen⟩
  rw [decode_psi, hdecode]
  rfl

theorem angle_counts_pos (nr nc : ℕ) : 0 < (angle_counts nr nc).1 := by
  unfold angle_counts
  dsimp only
  split
  · exact Nat.one_pos
  · next h => exact Nat.pos_of_ne_zero h

/-- The first angle of wide codes is shifted by too much already. -/
theorem decode_psi_wide {bphi bpsi : ℕ} (hphi : 32 ≤ bphi) {h : ReportHdr} (hns : 0 < h.ns)
    (hfit : h.fits bphi bpsi = true) : decode_psi (F := F) h bphi bpsi = none := by
  have hdequant : ∀ q, dequant_phi (F := F) q bphi = none := by
    intro q
    rw [dequant_phi, shl32, if_neg (by omega)]
    rfl
  have hangles : ∀ br, read_angles (F := F) dequant_phi bphi
      (angle_counts h.nr h.nc).1 br = none := by
    intro br
    obtain ⟨n, hn⟩ := Nat.exists_eq_add_of_lt (angle_counts_pos h.nr h.nc)
    rw [hn, Nat.zero_add, read_angles]
    cases br.read bphi with
    | none => rfl
    | some r => simp [hdequant]
  obtain ⟨left, hleft⟩ := Nat.exists_eq_add_of_lt hns
  rw [decode_psi, decode_angles, hfit, hleft, Nat.zero_add, decode_tones, hangles]
  rfl

/-! ## The sums over the batch -/

/-- A frame with as many tones is added up. -/
theorem add_tones_inside {psi : List F} {left k : ℕ} {sum sumsq : List F}
    (hpsi : k + left ≤ psi.length) (hsum : k + left ≤ sum.length)
    (hsumsq : k + left ≤ sumsq.length) :
    ∃ sum' sumsq', add_tones psi left k sum sumsq = some (sum', sumsq') ∧
      sum'.length = sum.length ∧ sumsq'.length = sumsq.length := by
  induction left generalizing k sum sumsq with
  | zero => exact ⟨_, _, rfl, rfl, rfl⟩
  | succ left ih =>
    unfold add_tones
    simp only [Option.bind_eq_bind]
    rw [List.getElem?_eq_getElem (by omega), Option.bind_some,
      List.getElem?_eq_getElem (by omega), Option.bind_some,
      List.getElem?_eq_getElem (by omega), Option.bind_some,
      store_eq (by omega), Option.bind_some, store_eq (by omega), Option.bind_some]
    have hpsi' : k + 1 + left ≤ psi.length := by omega
    obtain ⟨sum', sumsq', hrest, hlen, hlensq⟩ :=
      ih hpsi' (le_length_set hsum _) (le_length_set hsumsq _)
    exact ⟨sum', sumsq', hrest, by rw [hlen, List.length_set], by rw [hlensq, List.length_set]⟩

/-- A frame with fewer tones is read past its end. -/
theorem add_tones_past {psi : List F} {left k : ℕ} {sum sumsq : List F} (hk : k ≤ psi.length)
    (hpsi : psi.length < k + left) : add_tones psi left k sum sumsq = none := by
  induction left generalizing k sum sumsq with
  | zero => omega
  | succ left ih =>
    unfold add_tones
    by_cases hend : k = psi.length
    · rw [List.getElem?_eq_none (by omega)]
      rfl
    · rw [List.getElem?_eq_getElem (by omega), Option.bind_eq_bind, Option.bind_some]
      cases sum[k]? with
      | none => rfl
      | some s =>
        cases sumsq[k]? with
        | none => rfl
        | some q =>
          simp only [Option.bind_eq_bind, Option.bind_some]
          cases store sum k (s + psi[k]) with
          | none => rfl
          | some sum' =>
            cases store sumsq k (q + psi[k] * psi[k]) with
            | none => rfl
            | some sumsq' => exact ih (by omega) (by omega)

/-- The sums have a place for each tone. -/
def ToneSums.Of (t : ToneSums F) (ns : ℕ) : Prop := t.sum.length = ns ∧ t.sumsq.length = ns

theorem ToneSums.of_start (ns : ℕ) : (ToneSums.start ns : ToneSums F).Of ns :=
  ⟨List.length_replicate, List.length_replicate⟩

section

variable {ns bphi bpsi : ℕ} {batch : List ReportHdr}

theorem sum_frames_inside (hphi : bphi < 32) (hpsi : bpsi + 2 < 32)
    (hns : ∀ h ∈ batch.takeWhile (·.fits bphi bpsi), ns ≤ h.ns) {t : ToneSums F} (ht : t.Of ns) :
    ∃ r, sum_frames ns bphi bpsi batch t = some r ∧ ∀ t', r = some t' → t'.Of ns := by
  induction batch generalizing t with
  | nil => exact ⟨_, rfl, fun t' h => Option.some.inj h ▸ ht⟩
  | cons h batch ih =>
    unfold sum_frames
    cases hfit : h.fits bphi bpsi with
    | false =>
      rw [decode_psi_short hfit]
      exact ⟨_, rfl, fun t' h => absurd h (by simp)⟩
    | true =>
      rw [List.takeWhile_cons_of_pos (by simpa using hfit)] at hns
      obtain ⟨psi, hdecode, hlen⟩ := decode_psi_fits (F := F) hphi hpsi hfit
      have hle := hns h List.mem_cons_self
      have hpsi' : 0 + ns ≤ psi.length := by omega
      obtain ⟨sum, sumsq, hadd, hsum, hsumsq⟩ := add_tones_inside hpsi'
        (Nat.le_of_eq ((Nat.zero_add ns).trans ht.1.symm))
        (Nat.le_of_eq ((Nat.zero_add ns).trans ht.2.symm))
      rw [hdecode]
      simp only [Option.bind_eq_bind, Option.bind_some, hadd]
      exact ih (fun h' h'mem => hns h' (List.mem_cons_of_mem _ h'mem))
        ⟨hsum.trans ht.1, hsumsq.trans ht.2⟩

theorem sum_frames_past (hphi : bphi < 32) (hpsi : bpsi + 2 < 32)
    (hns : ∃ h ∈ batch.takeWhile (·.fits bphi bpsi), h.ns < ns) (t : ToneSums F) :
    sum_frames ns bphi bpsi batch t = none := by
  induction batch generalizing t with
  | nil =>
    obtain ⟨h, hmem, -⟩ := hns
    cases hmem
  | cons h batch ih =>
    obtain ⟨h', hmem, hlt⟩ := hns
    unfold sum_frames
    cases hfit : h.fits bphi bpsi with
    | false =>
      rw [List.takeWhile_cons_of_neg (by simp [hfit])] at hmem
      cases hmem
    | true =>
      rw [List.takeWhile_cons_of_pos (by simpa using hfit)] at hmem
      obtain ⟨psi, hdecode, hlen⟩ := decode_psi_fits (F := F) hphi hpsi hfit
      rw [hdecode]
      simp only [Option.bind_eq_bind, Option.bind_some]
      rcases List.mem_cons.mp hmem with rfl | hmem
      · rw [add_tones_past (Nat.zero_le _) (by omega)]
        rfl
      · cases add_tones psi ns 0 t.sum t.sumsq with
        | none => rfl
        | some sums => exact ih ⟨h', hmem, hlt⟩ _

theorem variance_inside {t : ToneSums F} (ht : t.Of ns) {left k : ℕ}
    (hk : k + left ≤ ns) (var : F) :
    ∃ v, variance t left k var = some v := by
  induction left generalizing k var with
  | zero => exact ⟨_, rfl⟩
  | succ left ih =>
    unfold variance
    simp only [Option.bind_eq_bind]
    rw [List.getElem?_eq_getElem (by rw [ht.1]; omega), Option.bind_some,
      List.getElem?_eq_getElem (by rw [ht.2]; omega), Option.bind_some]
    exact ih (by omega) _

/-! ## The search -/

/-- The widths of the one split that the bits of the first report allow are below 32, and no report
has fewer tones than the first, up to the first that is too short for the split. -/
def Matched (batch : List ReportHdr) : Prop :=
  ∀ first ∈ batch.head?, ∀ bpsi, 1 ≤ bpsi → bpsi ≤ first.per_sc_bits →
    first.budget (bpsi + 2) bpsi = first.per_sc_bits →
      bpsi + 2 < 32 ∧ ∀ h ∈ batch.takeWhile (·.fits (bpsi + 2) bpsi), first.ns ≤ h.ns

variable {first : ReportHdr} {widths : List ℕ}

/-- Each split of the right budget can be tried, so the search ends with one of them or none. -/
theorem try_splits_inside
    (h : ∀ bpsi ∈ widths, first.budget (bpsi + 2) bpsi = first.per_sc_bits →
      bpsi + 2 < 32 ∧ ∀ h ∈ batch.takeWhile (·.fits (bpsi + 2) bpsi), first.ns ≤ h.ns)
    (best : F × Option (ℕ × ℕ)) (hbest : ∀ split, best.2 = some split → split.1 < 32 ∧
      split.2 + 2 < 32) :
    ∃ r, try_splits batch first widths best = some r ∧
      ∀ split, r = some split → split.1 < 32 ∧ split.2 + 2 < 32 := by
  induction widths generalizing best with
  | nil => exact ⟨_, rfl, hbest⟩
  | cons bpsi widths ih =>
    have hrest := ih fun b hb => h b (List.mem_cons_of_mem _ hb)
    unfold try_splits
    dsimp only
    split
    · exact hrest best hbest
    · next heq =>
      obtain ⟨hwidth, hns⟩ := h bpsi List.mem_cons_self (not_not.mp heq)
      obtain ⟨r, hsums, hof⟩ :=
        sum_frames_inside hwidth hwidth hns (ToneSums.of_start (F := F) first.ns)
      rw [hsums]
      simp only [Option.bind_eq_bind, Option.bind_some]
      cases r with
      | none => exact hrest best hbest
      | some t =>
        dsimp only
        split
        · exact hrest best hbest
        · obtain ⟨v, hv⟩ := variance_inside (hof t rfl) (Nat.le_of_eq (Nat.zero_add first.ns)) 0
          rw [hv, Option.bind_some]
          apply hrest
          intro split hsplit
          split at hsplit
          · rw [← Option.some.inj hsplit]
            exact ⟨hwidth, hwidth⟩
          · exact hbest split hsplit

/-- A split that cannot be tried is met on the way. -/
theorem try_splits_past {bpsi : ℕ} (hmem : bpsi ∈ widths)
    (heq : first.budget (bpsi + 2) bpsi = first.per_sc_bits)
    (hnone : sum_frames (F := F) first.ns (bpsi + 2) bpsi batch (ToneSums.start first.ns) = none)
    (best : F × Option (ℕ × ℕ)) : try_splits batch first widths best = none := by
  induction widths generalizing best with
  | nil => cases hmem
  | cons b widths ih =>
    unfold try_splits
    dsimp only
    rcases List.mem_cons.mp hmem with rfl | hmem
    · rw [if_neg (not_not.mpr heq), hnone]
      rfl
    · split
      · exact ih hmem best
      · cases sum_frames (F := F) first.ns (b + 2) b batch (ToneSums.start first.ns) with
        | none => rfl
        | some r =>
          cases r with
          | none => exact ih hmem best
          | some t =>
            simp only [Option.bind_eq_bind, Option.bind_some]
            split
            · exact ih hmem best
            · cases variance t first.ns 0 0 with
              | none => rfl
              | some v => exact ih hmem _

end

/-! ## Batches of captured frames -/

/-- The headers of the frames that are reports. With each frame stands whether it has its FCS. -/
def reports (frames : List (Bytes × Bool)) : List ReportHdr :=
  frames.filterMap fun f => parse_report f.1 f.2

/-- A report has tones, and the bits for all of them. -/
theorem bits_of_report {d : Bytes} {fcs_present : Bool} {hdr : ReportHdr}
    (h : parse_report d fcs_present = some hdr) :
    0 < hdr.ns ∧ hdr.ns * hdr.per_sc_bits ≤ hdr.angles.length * 8 := by
  unfold parse_report at h
  extract_lets n sub vht ht mc nc nr bw ng_code ng mu ns fcs ab_len vbytes at h
  split at h
  · cases h
  split at h
  · cases h
  next hns =>
  have hpos : 0 < ns := Nat.pos_of_ne_zero fun hzero => hns (Or.inl hzero)
  have hab : ab_len ≤ d.length - (29 + nc) := Nat.sub_le _ _
  have htake : ∀ m ≤ ab_len, ((d.drop (29 + nc)).take m).length = m := by
    intro m hm
    rw [List.length_take, List.length_drop, Nat.min_eq_left (hm.trans hab)]
  split at h
  · split at h
    · cases h
    · next hfew =>
      cases h
      refine ⟨hpos, ?_⟩
      have hup : ns * 10 ≤ vbytes * 8 := by
        have hdiv := Nat.div_add_mod (ns * 10 + 7) 8
        have hmod : (ns * 10 + 7) % 8 < 8 := Nat.mod_lt _ (by decide)
        have hv : vbytes = (ns * 10 + 7) / 8 := rfl
        omega
      rw [htake vbytes (Nat.le_of_not_lt hfew)]
      exact hup
  · split at h
    · cases h
    · cases h
      refine ⟨hpos, ?_⟩
      rw [htake ab_len (Nat.le_refl _)]
      exact Nat.mul_div_le _ _

/-- The widths of the codes in the angle bytes, tone by tone. -/
def ReportHdr.widths (h : ReportHdr) (bphi bpsi : ℕ) : List ℕ :=
  (List.replicate h.ns (List.replicate (angle_counts h.nr h.nc).1 bphi ++
    List.replicate (angle_counts h.nr h.nc).2 bpsi)).flatten

/-- Where the angle bytes are codes of these widths in a row, the reader gives these codes. -/
def Recovers (h : ReportHdr) (bphi bpsi : ℕ) : Prop :=
  ∀ codes : List (Code 32), codes.map Prod.fst = h.widths bphi bpsi → (∀ c ∈ codes, c.Fits) →
    (∃ rest, ofBytes h.angles = ofCodes codes ++ rest) →
      ∃ br, BitReader.reads (h.widths bphi bpsi) ⟨h.angles, 0⟩ = some (codes.map Prod.snd, br)

variable (F) in
/-- The search has a meaning, and under the split that it gives so has the decoder of each report,
and its codes are read back. -/
def Decodes (batch : List ReportHdr) : Prop :=
  ∃ r, pick_split F batch = some r ∧ ∀ split, r = some split → ∀ h ∈ batch,
    (∃ out, decode_angles (F := F) h split.1 split.2 = some out) ∧ Recovers h split.1 split.2

theorem recovers {bphi bpsi : ℕ} (hphi : bphi < 32) (hpsi : bpsi + 2 < 32) (h : ReportHdr) :
    Recovers h bphi bpsi := by
  intro codes hwidths hfit hbits
  obtain ⟨rest, hbits⟩ := hbits
  have hnarrow : ∀ n ∈ h.widths bphi bpsi, n ≤ 32 := by
    intro n hn
    obtain ⟨tone, htone, hn⟩ := List.mem_flatten.mp hn
    rw [List.eq_of_mem_replicate htone] at hn
    rcases List.mem_append.mp hn with hn | hn
    · rw [List.eq_of_mem_replicate hn]
      omega
    · rw [List.eq_of_mem_replicate hn]
      omega
  rw [← hwidths] at hnarrow ⊢
  exact BitReader.reads_codes (fun c hc => ⟨hfit c hc, hnarrow _ (List.mem_map_of_mem hc)⟩)
    (show (ofBytes h.angles).drop 0 = _ from hbits)

theorem decodes_of_matched {batch : List ReportHdr} (h : Matched batch) : Decodes F batch := by
  cases batch with
  | nil => exact ⟨none, rfl, fun split hsplit => by cases hsplit⟩
  | cons first batch =>
    have hall : ∀ bpsi ∈ List.range' 1 first.per_sc_bits,
        first.budget (bpsi + 2) bpsi = first.per_sc_bits → bpsi + 2 < 32 ∧
          ∀ h ∈ (first :: batch).takeWhile (·.fits (bpsi + 2) bpsi), first.ns ≤ h.ns := by
      intro bpsi hmem
      rw [List.mem_range'_1] at hmem
      exact h first rfl bpsi hmem.1 (by omega)
    obtain ⟨r, hr, hwidths⟩ := try_splits_inside hall ((1e300 : F), none)
      (fun split hsplit => by cases hsplit)
    refine ⟨r, hr, ?_⟩
    intro split hsplit h hmem
    obtain ⟨hphi, hpsi⟩ := hwidths split hsplit
    exact ⟨decode_angles_inside hphi hpsi h, recovers hphi hpsi h⟩

theorem matched_of_decodes {frames : List (Bytes × Bool)} (h : Decodes F (reports frames)) :
    Matched (reports frames) := by
  intro first hfirst bpsi hone hle heq
  obtain ⟨r, hr, -⟩ := h
  obtain ⟨batch, hbatch⟩ : ∃ batch, reports frames = first :: batch :=
    List.head?_eq_some_iff.mp (Option.mem_def.mp hfirst)
  have hparsed : ∃ f ∈ frames, parse_report f.1 f.2 = some first := by
    apply List.mem_filterMap.mp
    show first ∈ reports frames
    rw [hbatch]
    exact List.mem_cons_self
  obtain ⟨f, -, hparse⟩ := hparsed
  obtain ⟨hns, hbits⟩ := bits_of_report hparse
  have hfits : first.fits (bpsi + 2) bpsi = true := decide_eq_true (by rw [heq]; exact hbits)
  have hmem : bpsi ∈ List.range' 1 first.per_sc_bits := by
    rw [List.mem_range'_1]
    omega
  have htried : sum_frames (F := F) first.ns (bpsi + 2) bpsi (first :: batch)
      (ToneSums.start first.ns) ≠ none := by
    intro hnone
    rw [hbatch, pick_split, try_splits_past hmem heq hnone] at hr
    cases hr
  have hwidth : bpsi + 2 < 32 := by
    by_contra hwide
    apply htried
    rw [sum_frames, decode_psi_wide (by omega) hns hfits]
    rfl
  refine ⟨hwidth, ?_⟩
  rw [hbatch]
  by_contra hfew
  simp only [not_forall, Nat.not_le] at hfew
  obtain ⟨h', hmem', hlt⟩ := hfew
  exact htried (sum_frames_past hwidth hwidth ⟨h', hmem', hlt⟩ _)

variable (F) in
/-- A batch is decoded, whatever the frames are, exactly where its first report allows no split of
wide codes and no report that is added up has fewer tones than the first. -/
theorem the_batch_is_decoded_iff (frames : List (Bytes × Bool)) :
    Decodes F (reports frames) ↔ Matched (reports frames) :=
  ⟨matched_of_decodes, decodes_of_matched⟩

/-! ## Batches that are not -/

/-- A report of a 2x1 matrix at 20 MHz without its FCS. -/
def report_frame (mc1 : UInt8) (angle_len : ℕ) : Bytes × Bool :=
  (0xD0 :: List.replicate 23 0 ++ [0x15, 0x00, 0x08, mc1, 0x00, 0x00] ++
    List.replicate angle_len 0, false)

open scoped DoubleOps in
/-- A report of 16 tones behind one of 52, and a report with 62 bits for each tone. -/
theorem fewer_tones_and_wide_codes :
    ¬ Decodes ℚ (reports [report_frame 0 26, report_frame 2 8]) ∧
      ¬ Decodes ℚ (reports [report_frame 2 124]) := by
  constructor
  · intro h
    have hmatched := matched_of_decodes h _ rfl 1 (by decide) (by decide) (by decide)
    exact absurd (hmatched.2 _ (List.mem_cons_of_mem _ List.mem_cons_self)) (by decide)
  · intro h
    have hfirst : (reports [report_frame 2 124]).head? =
        some ⟨1, 2, 0, 4, false, true, 16, List.replicate 124 0, 62⟩ := by decide +kernel
    have hmatched := matched_of_decodes h _ hfirst 30 (by decide) (by decide) (by decide)
    exact absurd hmatched.1 (by decide)

end devourer.bf
