-- The feed of the primary receiver: its lines are gathered into windows of
-- telemetry, and where the loss that the windows show is the whole loss.
import Devourer.Chanmig.ActiveLink
import Devourer.Chanmig.ChannelBins
import Devourer.Chanmig.JsonlLite
import Devourer.Lib.Adjacent
import Devourer.Lib.Runs

namespace devourer.chanmig

open Adjacent

/-! ## The estimator -/

/-- The frames that came and those that should have, by the numbers of 12 bits that they carry. -/
structure SeqLossEstimator where
  delivered_ : UInt32 := 0
  expected_ : UInt32 := 0
  prev_ : UInt16 := 0
  have_prev_ : Bool := false
  deriving DecidableEq

namespace SeqLossEstimator

def observe (e : SeqLossEstimator) (seq : UInt16) : SeqLossEstimator :=
  let gap := (seq - e.prev_) &&& 0xFFF
  { delivered_ := e.delivered_ + 1
    expected_ := e.expected_ +
      if e.have_prev_ then if 1 ≤ gap ∧ gap < 2048 then gap.toUInt32 else 1 else 1
    prev_ := seq
    have_prev_ := true }

def delivered (e : SeqLossEstimator) : UInt32 := e.delivered_

def expected (e : SeqLossEstimator) : UInt32 :=
  if e.expected_ < e.delivered_ then e.delivered_ else e.expected_

def reset (e : SeqLossEstimator) : SeqLossEstimator :=
  { e with delivered_ := 0, expected_ := 0, have_prev_ := false }

end SeqLossEstimator

/-! ## The reader -/

def verdict_from_label (s : List Char) : LinkVerdict :=
  if s = "HEALTHY".toList then .Healthy
  else if s = "SATURATED".toList then .Saturated
  else if s = "INTERFERENCE".toList then .Interference
  else if s = "WEAK".toList then .Weak
  else if s = "MARGINAL".toList then .Marginal
  else .NoSignal

/-- A window with the figures of the signal. -/
structure FeedWindow extends ActiveLinkWindow ℚ where
  fec_margin := 0
  rssi_max_dbm : ℤ := 0
  snr_mean_db : ℚ := 0
  evm_mean_db : ℚ := 0

structure PrimaryFeedReader where
  seq_ : SeqLossEstimator := {}
  frames_since_ : UInt32 := 0
  crc_ : UInt32 := 0
  icv_ : UInt32 := 0
  saw_frames_ : Bool := false
  have_crc_ : Bool := false
  seen_quality_ : Bool := false
  deriving DecidableEq

namespace PrimaryFeedReader

/-- The window that a line closes. -/
def window (r : PrimaryFeedReader) (l : List Char) (arrival_ms : ℤ) : FeedWindow :=
  let label := jsonl_str l "verdict".toList
  { t_ms := arrival_ms
    telemetry_ok := true
    have_quality := label.isSome
    verdict := (label.map verdict_from_label).getD .NoSignal
    rssi_max_dbm := (((jsonl_num l "rssi_max_dbm".toList).or (jsonl_num l "rssi_dbm".toList)).map
      Doubles.truncate).getD 0
    snr_mean_db := ((jsonl_num l "snr_mean_db".toList).or (jsonl_num l "snr_db".toList)).getD 0
    evm_mean_db := (jsonl_num l "evm_db".toList).getD 0
    have_delivery := r.saw_frames_
    delivered := if r.saw_frames_ then r.seq_.delivered else 0
    expected := if r.saw_frames_ then r.seq_.expected else 0
    have_crc := r.have_crc_
    crc_err := if r.have_crc_ then r.crc_ else 0
    icv_err := if r.have_crc_ then r.icv_ else 0 }

/-- The accumulators of the next window. -/
def reset (r : PrimaryFeedReader) : PrimaryFeedReader :=
  { r with
    seq_ := r.seq_.reset
    frames_since_ := 0
    saw_frames_ := false
    crc_ := 0
    icv_ := 0
    have_crc_ := false }

/-- One line, and the window that it closes. -/
def line (r : PrimaryFeedReader) (l : List Char) (arrival_ms : ℤ) :
    PrimaryFeedReader × Option FeedWindow :=
  if jsonl_ev_is l "rx.txhit".toList then
    ({ r with
        seq_ := match jsonl_int l "seq".toList with
          | some seq => r.seq_.observe (UInt16.ofInt seq)
          | none => r.seq_
        frames_since_ := r.frames_since_ + 1
        saw_frames_ := true }, none)
  else if jsonl_ev_is l "rx.energy".toList then
    let crc_err := jsonl_int l "crc_err".toList
    let icv_err := jsonl_int l "icv_err".toList
    ({ r with
        crc_ := r.crc_ + (crc_err.map UInt32.ofInt).getD 0
        have_crc_ := r.have_crc_ || crc_err.isSome
        icv_ := r.icv_ + (icv_err.map UInt32.ofInt).getD 0 }, none)
  else
    let q := jsonl_ev_is l "rx.quality".toList
    let h := !q && jsonl_ev_is l "link.health".toList
    if !q && !h then (r, none)
    else if h && r.seen_quality_ then (r, none)
    else
      let r := { r with seen_quality_ := r.seen_quality_ || q }
      (r.reset, some (r.window l arrival_ms))

def step (r : PrimaryFeedReader) (a : List Char × ℤ) : PrimaryFeedReader := (r.line a.1 a.2).1

def out (r : PrimaryFeedReader) (a : List Char × ℤ) : List FeedWindow := (r.line a.1 a.2).2.toList

/-- The frames that did not come, by the windows that a run closes and by the open one. -/
def lost (r : PrimaryFeedReader) (run : List (List Char × ℤ)) : ℤ :=
  ((Runs.emitted step out r run).map fun w => (w.expected.toNat : ℤ) - w.delivered.toNat).sum +
    ((Runs.after step r run).seq_.expected.toNat - (Runs.after step r run).seq_.delivered.toNat)

end PrimaryFeedReader

/-! ## What the lines say -/

/-- The number of the frame that a line tells of. -/
def hit (l : List Char) : Option ℤ :=
  if jsonl_ev_is l "rx.txhit".toList then jsonl_int l "seq".toList else none

def hits (run : List (List Char × ℤ)) : List ℤ := run.filterMap fun a => hit a.1

/-- A line closes the window. One about the health does so up to the first one about the quality. -/
def closes (seen_quality : Bool) (l : List Char) : Bool :=
  jsonl_ev_is l "rx.quality".toList || (!seen_quality && jsonl_ev_is l "link.health".toList)

/-- The numbers of the frames, window by window. `w` are those of the window that is open. -/
def windows (seen_quality : Bool) (w : List ℤ) : List (List Char × ℤ) → List (List ℤ)
  | [] => [w]
  | (l, _) :: run =>
    if closes seen_quality l then
      w :: windows (seen_quality || jsonl_ev_is l "rx.quality".toList) [] run
    else windows seen_quality (w ++ (hit l).toList) run

/-- A frame comes behind another, by less than half of the numbers. -/
def Behind (a b : ℤ) : Prop := 1 ≤ (b - a) % 4096 ∧ (b - a) % 4096 ≤ 2047

/-- How many numbers there are between two frames. -/
def skipped (a b : ℤ) : ℕ := ((b - a) % 4096).toNat - 1

/-- The counters of a window of these frames do not wrap apart. -/
def Fits (w : List ℤ) : Prop := w.length % 2 ^ 32 + total skipped w < 2 ^ 32

/-! ## The estimator in a window -/

/-- What the two counters of a window of these frames are apart. -/
def shown (w : List ℤ) : ℕ :=
  max ((w.length + total skipped w) % 2 ^ 32) (w.length % 2 ^ 32) - w.length % 2 ^ 32

/-- A window never shows more than was lost in it, and it shows all of it if the counters fit. -/
theorem shown_le (w : List ℤ) : shown w ≤ total skipped w ∧
    (shown w = total skipped w ↔ Fits w) := by
  unfold shown Fits
  omega

namespace SeqLossEstimator

/-- The estimator has observed these frames since its reset. -/
structure Observed (e : SeqLossEstimator) (w : List ℤ) : Prop where
  delivered : e.delivered_ = UInt32.ofNat w.length
  expected : e.expected_ = UInt32.ofNat (w.length + total skipped w)
  have_prev : e.have_prev_ = !w.isEmpty
  prev : ∀ z ∈ w.getLast?, e.prev_ = UInt16.ofInt z

variable {e : SeqLossEstimator} {w : List ℤ}

theorem observed_reset (e : SeqLossEstimator) : Observed e.reset [] :=
  ⟨rfl, rfl, rfl, by simp⟩

theorem toNat_gap (a b : ℤ) :
    ((UInt16.ofInt b - UInt16.ofInt a) &&& 0xFFF).toNat = ((b - a) % 4096).toNat := by
  have hsub : UInt16.ofInt b - UInt16.ofInt a = UInt16.ofInt (b - a) := by
    rw [UInt16.sub_eq_add_neg, ← UInt16.ofInt_neg, ← UInt16.ofInt_add, Int.sub_eq_add_neg]
  have hmask : (UInt16.ofInt (b - a)).toNat &&& 2 ^ 12 - 1 =
      (UInt16.ofInt (b - a)).toNat % 2 ^ 12 :=
    Nat.and_two_pow_sub_one_eq_mod _ 12
  rw [hsub, UInt16.toNat_and]
  refine hmask.trans ?_
  rw [toNat_ofInt16]
  omega

theorem observed_observe (h : Observed e w) {z : ℤ} (hz : ∀ a ∈ w.getLast?, Behind a z) :
    Observed (e.observe (UInt16.ofInt z)) (w ++ [z]) := by
  obtain ⟨hdelivered, hexpected, hprev, hlast⟩ := h
  have hjoint : total skipped (w ++ [z]) = total skipped w + joint skipped w [z] := by
    rw [total_append]
    rfl
  refine ⟨?_, ?_, by simp [observe], by simp [observe]⟩
  · rw [observe, hdelivered, List.length_append, UInt32.ofNat_add]
    rfl
  · rw [hjoint, observe, hexpected, hprev, List.length_append, List.length_singleton]
    dsimp only
    rw [show w.length + 1 + (total skipped w + joint skipped w [z]) =
      w.length + total skipped w + (1 + joint skipped w [z]) by omega,
      UInt32.ofNat_add (w.length + total skipped w)]
    congr 1
    cases hw : w.getLast? with
    | none =>
      rw [List.getLast?_eq_none_iff.mp hw]
      rfl
    | some a =>
      obtain ⟨hone, hhalf⟩ := hz a hw
      have hgap := toNat_gap a z
      have hempty : w.isEmpty = false := by
        cases w with
        | nil => simp at hw
        | cons b w => rfl
      rw [hempty, hlast a hw, if_pos (by simp), if_pos]
      · apply UInt32.toNat_inj.mp
        rw [UInt16.toNat_toUInt32, hgap, UInt32.toNat_ofNat', joint, hw]
        simp only [List.head?_cons, skipped]
        omega
      · rw [UInt16.le_iff_toNat_le, UInt16.lt_iff_toNat_lt, hgap]
        have h1 : (1 : UInt16).toNat = 1 := rfl
        have h2 : (2048 : UInt16).toNat = 2048 := rfl
        omega

theorem shown_eq (h : Observed e w) :
    (e.expected.toNat : ℤ) - e.delivered.toNat = shown w := by
  unfold expected delivered shown
  rw [h.delivered, h.expected]
  split
  · next hlt =>
    rw [UInt32.lt_iff_toNat_lt, UInt32.toNat_ofNat', UInt32.toNat_ofNat'] at hlt
    rw [UInt32.toNat_ofNat']
    omega
  · next hge =>
    rw [UInt32.lt_iff_toNat_lt, UInt32.toNat_ofNat', UInt32.toNat_ofNat'] at hge
    rw [UInt32.toNat_ofNat', UInt32.toNat_ofNat']
    omega

end SeqLossEstimator

/-! ## One line -/

/-- A line is of one kind of event. -/
theorem ev_is_unique {l a b : List Char} (ha : jsonl_ev_is l a) (hb : jsonl_ev_is l b)
    (ha' : '"' ∉ a) (hb' : '"' ∉ b) : a = b := by
  have hname : ∀ n : List Char, jsonl_ev_is l n → '"' ∉ n → n = (l.drop 7).takeWhile (· ≠ '"') := by
    intro n hn hquote
    simp only [jsonl_ev_is, decide_eq_true_eq] at hn
    have hline : l = '\x7b' :: '"' :: 'e' :: 'v' :: '"' :: ':' :: '"' :: (n ++ ['"']) ++
        l.drop ('\x7b' :: '"' :: 'e' :: 'v' :: '"' :: ':' :: '"' :: (n ++ ['"'])).length := by
      conv_lhs => rw [← List.take_append_drop
        ('\x7b' :: '"' :: 'e' :: 'v' :: '"' :: ':' :: '"' :: (n ++ ['"'])).length l, hn]
    rw [hline]
    simp only [List.cons_append, List.drop_succ_cons, List.drop_zero, List.append_assoc]
    rw [List.takeWhile_append_of_pos]
    · simp
    · intro c hc
      simpa using fun h : c = '"' => hquote (h ▸ hc)
  rw [hname a ha ha', hname b hb hb']

theorem ev_is_other {l a b : List Char} (ha : jsonl_ev_is l a) (ha' : '"' ∉ a) (hb' : '"' ∉ b)
    (hne : a ≠ b) : jsonl_ev_is l b = false :=
  Bool.eq_false_iff.mpr fun hb => hne (ev_is_unique ha hb ha' hb')

/-- A line that closes a window tells of no frame and of no energy. -/
theorem other_closes {seen : Bool} {l : List Char} (h : closes seen l) :
    jsonl_ev_is l "rx.txhit".toList = false ∧ jsonl_ev_is l "rx.energy".toList = false := by
  rw [closes, Bool.or_eq_true, Bool.and_eq_true] at h
  rcases h with h | ⟨-, h⟩
  · refine ⟨ev_is_other h ?_ ?_ ?_, ev_is_other h ?_ ?_ ?_⟩ <;> decide +kernel
  · refine ⟨ev_is_other h ?_ ?_ ?_, ev_is_other h ?_ ?_ ?_⟩ <;> decide +kernel

namespace PrimaryFeedReader

/-- The reader has these frames in its open window. -/
structure Holds (r : PrimaryFeedReader) (seen : Bool) (w : List ℤ) : Prop where
  observed : r.seq_.Observed w
  saw_frames : w ≠ [] → r.saw_frames_
  seen_quality : r.seen_quality_ = seen

variable {r : PrimaryFeedReader} {seen : Bool} {w : List ℤ} {l : List Char}

theorem holds_start : Holds {} false [] := ⟨⟨rfl, rfl, rfl, by simp⟩, by simp, rfl⟩

/-- A line that is of no frame and of no energy closes the window or does nothing. -/
theorem line_other (hhit : jsonl_ev_is l "rx.txhit".toList = false)
    (henergy : jsonl_ev_is l "rx.energy".toList = false) (t : ℤ) :
    r.line l t =
      if closes r.seen_quality_ l then
        ({ r with seen_quality_ := r.seen_quality_ || jsonl_ev_is l "rx.quality".toList }.reset,
          some ({ r with
            seen_quality_ := r.seen_quality_ || jsonl_ev_is l "rx.quality".toList }.window l t))
      else (r, none) := by
  unfold line closes
  rw [hhit, henergy]
  generalize jsonl_ev_is l "rx.quality".toList = q
  generalize jsonl_ev_is l "link.health".toList = h
  cases hseen : r.seen_quality_ <;> cases q <;> cases h <;> rfl

theorem line_closes (h : Holds r seen w) (hl : closes seen l) (t : ℤ) :
    Holds (r.line l t).1 (seen || jsonl_ev_is l "rx.quality".toList) [] ∧
      ∃ o, (r.line l t).2 = some o ∧ (o.expected.toNat : ℤ) - o.delivered.toNat = shown w := by
  obtain ⟨hobserved, hsaw, rfl⟩ := h
  obtain ⟨hhit, henergy⟩ := other_closes hl
  rw [line_other hhit henergy, if_pos hl]
  refine ⟨⟨SeqLossEstimator.observed_reset _, by simp, rfl⟩, _, rfl, ?_⟩
  simp only [window]
  cases hframes : r.saw_frames_ with
  | true => exact SeqLossEstimator.shown_eq hobserved
  | false =>
    have hnone : w = [] := by
      by_contra hne
      rw [hsaw hne] at hframes
      cases hframes
    subst hnone
    rfl

theorem line_open (h : Holds r seen w) (hl : closes seen l = false)
    (hz : ∀ z ∈ hit l, ∀ a ∈ w.getLast?, Behind a z) (t : ℤ) :
    Holds (r.line l t).1 seen (w ++ (hit l).toList) ∧ (r.line l t).2 = none := by
  obtain ⟨hobserved, hsaw, rfl⟩ := h
  cases hhit : jsonl_ev_is l "rx.txhit".toList with
  | true =>
    simp only [line, hit, hhit, if_true] at hz ⊢
    refine ⟨⟨?_, fun _ => rfl, rfl⟩, trivial⟩
    cases hnum : jsonl_int l "seq".toList with
    | none => simpa using hobserved
    | some z => exact SeqLossEstimator.observed_observe hobserved (hz z hnum)
  | false =>
    have hnone : hit l = none := by simp only [hit, hhit]; rfl
    rw [hnone, Option.toList_none, List.append_nil]
    cases henergy : jsonl_ev_is l "rx.energy".toList with
    | true =>
      unfold line
      rw [hhit, henergy]
      exact ⟨⟨hobserved, hsaw, rfl⟩, rfl⟩
    | false =>
      rw [line_other hhit henergy, hl]
      exact ⟨⟨hobserved, hsaw, rfl⟩, rfl⟩

/-- The windows share out the frames of the run in order. -/
theorem flatten_windows (seen : Bool) (w : List ℤ) (run : List (List Char × ℤ)) :
    (windows seen w run).flatten = w ++ hits run := by
  induction run generalizing seen w with
  | nil => simp [windows, hits]
  | cons a run ih =>
    obtain ⟨l, t⟩ := a
    rw [windows, hits, List.filterMap_cons]
    split
    · next hl =>
      have hnone : hit l = none := by
        simp only [hit, (other_closes hl).1]
        rfl
      rw [List.flatten_cons, ih, hnone, List.nil_append]
      rfl
    · rw [ih, List.append_assoc]
      cases hit l <;> rfl

/-- A run from any reader shows of each of its windows what the counters of it are apart. -/
theorem lost_windows {run : List (List Char × ℤ)} (h : Holds r seen w)
    (horder : (windows seen w run).flatten.IsChain Behind) :
    lost r run = ((windows seen w run).map shown).sum := by
  induction run generalizing r seen w with
  | nil =>
    simp only [lost, windows, Runs.emitted, Runs.after_nil]
    rw [SeqLossEstimator.shown_eq h.observed]
    simp
  | cons a run ih =>
    obtain ⟨l, t⟩ := a
    rw [windows] at horder ⊢
    split at horder
    · next hl =>
      obtain ⟨hnext, o, ho, hshown⟩ := line_closes h hl t
      rw [if_pos hl]
      have hrest := ih hnext (List.isChain_append.mp horder).2.1
      rw [List.map_cons, List.sum_cons, Nat.cast_add, ← hshown, ← hrest]
      simp only [lost, Runs.emitted, Runs.after_cons, step, out, ho]
      simp [add_assoc]
    · next hl =>
      rw [if_neg hl]
      have hz : ∀ z ∈ hit l, ∀ a ∈ w.getLast?, Behind a z := by
        intro z hz a ha
        rw [flatten_windows] at horder
        have hmeet := (List.isChain_append.mp (List.isChain_append.mp horder).1).2.2
        exact hmeet a ha z (by rw [hz]; rfl)
      obtain ⟨hnext, ho⟩ := line_open h (Bool.eq_false_iff.mpr hl) hz t
      rw [← ih hnext horder]
      simp only [lost, Runs.emitted, Runs.after_cons, step, out, ho]
      simp

/-- The windows of a run show all that was lost in it exactly where their counters fit and no frame
was lost between one of them and the next that has frames. -/
theorem all_loss_shows_iff (run : List (List Char × ℤ)) (h : (hits run).IsChain Behind) :
    lost {} run = total skipped (hits run) ↔
      (∀ w ∈ windows false [] run, Fits w) ∧
        (filled (windows false [] run)).IsChain (Meet skipped) := by
  have hflatten := flatten_windows false [] run
  rw [List.nil_append] at hflatten
  have hlost := lost_windows holds_start (hflatten ▸ h)
  rw [hlost, ← hflatten, Nat.cast_inj, sum_eq_total_iff fun w _ => (shown_le w).1]
  apply and_congr_left'
  exact forall₂_congr fun w _ => (shown_le w).2

def frame_line (seq : String) : List Char × ℤ :=
  ("\x7b\"ev\":\"rx.txhit\",\"seq\":".toList ++ seq.toList ++ ['\x7d'], 0)

def quality_line : List Char × ℤ := ("\x7b\"ev\":\"rx.quality\"\x7d".toList, 0)

/-- A frame that is lost inside a window is in it. -/
theorem a_gap_inside_a_window :
    lost {} [frame_line "1", frame_line "3", quality_line] =
      total skipped (hits [frame_line "1", frame_line "3", quality_line]) := by
  have hhits : hits [frame_line "1", frame_line "3", quality_line] = [1, 3] := by decide +kernel
  have hwindows : windows false [] [frame_line "1", frame_line "3", quality_line] =
      [[1, 3], []] := by
    decide +kernel
  apply (all_loss_shows_iff [frame_line "1", frame_line "3", quality_line] _).mpr
  · rw [hwindows]
    simp [Fits, total, skipped]
  · rw [hhits]
    simp [Behind]

/-- A frame that is lost while a window closes is in none of the windows. -/
theorem a_gap_between_windows :
    (hits [frame_line "1", quality_line, frame_line "3"]).IsChain Behind ∧
      lost {} [frame_line "1", quality_line, frame_line "3"] ≠
        total skipped (hits [frame_line "1", quality_line, frame_line "3"]) := by
  have hhits : hits [frame_line "1", quality_line, frame_line "3"] = [1, 3] := by decide +kernel
  have hlost : lost {} [frame_line "1", quality_line, frame_line "3"] = 0 := by decide +kernel
  rw [hhits, hlost]
  simp [Behind, total, skipped]

end PrimaryFeedReader

end devourer.chanmig
