-- The primary receiver's view of the active channel: each window of telemetry
-- is judged impaired or not, with a fault domain, and a track counts how many
-- windows in a row blame the channel.
import Devourer.Chanmig.EvidenceStore

namespace devourer.chanmig

inductive LinkVerdict
  | NoSignal
  | Saturated
  | Interference
  | Weak
  | Marginal
  | Healthy
  deriving DecidableEq

/-- The verdict on one window, and why it is not the channel's fault if it is not. -/
inductive Impair
  | Healthy
  | Channel
  | WeakSignal
  | Saturation
  | TelemetryDown
  deriving DecidableEq

/-! ## One window -/

section

variable (F : Type)

/-- One window of primary telemetry. Each kind of evidence has a flag for whether it is there. -/
structure ActiveLinkWindow where
  t_ms : ℤ := 0
  have_delivery : Bool := false
  delivered : UInt32 := 0
  expected : UInt32 := 0
  have_fec : Bool := false
  fec_margin : F
  have_crc : Bool := false
  crc_err : UInt32 := 0
  icv_err : UInt32 := 0
  have_quality : Bool := false
  verdict : LinkVerdict := .NoSignal
  telemetry_ok : Bool := true

end

variable {F : Type} [DoubleOps F]

structure ActivePolicy (F : Type) [DoubleOps F] where
  loss_impair : F := 0.05
  crc_impair : F := 0.10
  fec_margin_impair : F := 0.0
  min_frames : UInt32 := 20

open DoubleOps

/-- Does the FEC margin, the loss or the share of corrupted frames say that the window is bad? -/
def delivery_impaired (w : ActiveLinkWindow F) (p : ActivePolicy F) : Bool :=
  let loss : F := if w.expected ≠ 0 then
    1.0 - ofInt w.delivered.toNat / ofInt w.expected.toNat else 0.0
  let bad : F := ofInt (w.crc_err + w.icv_err).toNat /
    ofInt (w.delivered + w.crc_err + w.icv_err).toNat
  w.have_fec && decide (w.fec_margin ≤ p.fec_margin_impair) ||
    w.have_delivery && decide (w.expected ≥ p.min_frames) && decide (p.loss_impair < loss) ||
    w.have_crc && decide (w.delivered ≥ p.min_frames) && decide (p.crc_impair < bad)

/-- A verdict of interference counts where there is no evidence of the delivery. -/
def interfered (w : ActiveLinkWindow F) : Bool :=
  w.have_quality && decide (w.verdict = .Interference) && !w.have_delivery && !w.have_fec &&
    !w.have_crc

/-- The fault domain comes before the delivery: a weak or saturated link is not the channel's. -/
def classify_window (w : ActiveLinkWindow F) (p : ActivePolicy F) : Impair :=
  if !w.telemetry_ok then .TelemetryDown
  else if w.have_quality && decide (w.verdict = .Weak) then .WeakSignal
  else if w.have_quality && decide (w.verdict = .Saturated) then .Saturation
  else if w.have_quality && decide (w.verdict = .NoSignal) && decide (w.delivered = 0) then
    .WeakSignal
  else if delivery_impaired w p || interfered w then .Channel
  else .Healthy

/-! ## The track -/

structure ActiveLinkTrack (F : Type) [DoubleOps F] where
  policy_ : ActivePolicy F
  cap_ : ℕ := 64
  win_ : List (ActiveLinkWindow F) := []
  consec_channel_ : ℕ := 0
  last_ : Impair := .TelemetryDown
  last_t_ms_ : ℤ := 0
  have_last_ : Bool := false

namespace ActiveLinkTrack

def add (t : ActiveLinkTrack F) (w : ActiveLinkWindow F) : ActiveLinkTrack F :=
  let im := classify_window w t.policy_
  { t with
    consec_channel_ := if im = .Channel then t.consec_channel_ + 1 else 0
    last_ := im
    last_t_ms_ := w.t_ms
    have_last_ := true
    win_ := EvidenceStore.push_cell t.cap_ t.win_ w }

def consecutive_channel_impaired (t : ActiveLinkTrack F) : ℕ := t.consec_channel_

def last_domain (t : ActiveLinkTrack F) : Impair := t.last_

def last_verdict (t : ActiveLinkTrack F) : LinkVerdict :=
  (t.win_.getLast?.map (·.verdict)).getD .NoSignal

/-! ## What the count says -/

/-- The last `n` windows, at least, blame the channel. -/
def ImpairedFor (p : ActivePolicy F) (windows : List (ActiveLinkWindow F)) (n : ℤ) : Prop :=
  ∃ older recent, windows = older ++ recent ∧ n ≤ recent.length ∧
    ∀ w ∈ recent, classify_window w p = .Channel

/-- The track counts the windows that were added to it. -/
structure Counts (t : ActiveLinkTrack F) (p : ActivePolicy F)
    (windows : List (ActiveLinkWindow F)) : Prop where
  policy : t.policy_ = p
  impaired : ImpairedFor p windows t.consec_channel_

variable {t : ActiveLinkTrack F} {p : ActivePolicy F} {windows : List (ActiveLinkWindow F)}

theorem ImpairedFor.mono {m n : ℤ}
    (h : ImpairedFor p windows n) (hmn : m ≤ n) : ImpairedFor p windows m := by
  obtain ⟨older, recent, hsplit, hlen, hrecent⟩ := h
  exact ⟨older, recent, hsplit, hmn.trans hlen, hrecent⟩

theorem counts_start : Counts ({ policy_ := p } : ActiveLinkTrack F) p [] :=
  ⟨rfl, [], [], rfl, le_refl 0, fun _ hw => absurd hw List.not_mem_nil⟩

theorem counts_add (h : Counts t p windows) (w : ActiveLinkWindow F) :
    Counts (t.add w) p (windows ++ [w]) := by
  obtain ⟨rfl, older, recent, hsplit, hlen, hrecent⟩ := h
  refine ⟨rfl, ?_⟩
  by_cases hw : classify_window w t.policy_ = .Channel
  · refine ⟨older, recent ++ [w], ?_, ?_, ?_⟩
    · rw [hsplit, List.append_assoc]
    · simp only [add, if_pos hw, List.length_append, List.length_singleton]
      push_cast
      omega
    · intro v hv
      rcases List.mem_append.mp hv with hv | hv
      · exact hrecent v hv
      · rw [List.mem_singleton.mp hv]
        exact hw
  · refine ⟨windows ++ [w], [], (List.append_nil _).symm, ?_,
      fun _ hv => absurd hv List.not_mem_nil⟩
    simp [add, if_neg hw]

end ActiveLinkTrack

end devourer.chanmig
