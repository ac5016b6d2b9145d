-- The two banks of power offsets that a descriptor can name: a request is
-- mapped to a bank, and the register of the banks is written when it has to be.
import Mathlib.Algebra.GroupWithZero.Nat
import Mathlib.Data.Fin.Basic
import Mathlib.Data.Fintype.Basic
import Mathlib.Data.Int.Notation
import Mathlib.Logic.Function.Basic
import Mathlib.Tactic.FinCases
import Devourer.Lib.Runs

namespace devourer.jaguar3

/-! ## The planner -/

local instance two_banks : NeZero 2 := ⟨Nat.succ_ne_zero 1⟩

structure Bank where
  en : Bool := false
  idx : Int8 := 0
  stamp : UInt32 := 0
  deriving DecidableEq

structure TxPktPwrBankPlanner where
  b : Fin 2 → Bank := fun _ => {}
  tick : UInt32 := 0

/-- What to put into the descriptor, and whether the register is to be written first. -/
structure Plan where
  type : UInt8
  program : Bool
  reg16 : UInt16
  deriving DecidableEq

def clamp_idx (idx : ℤ) : ℤ := if idx < -64 then -64 else if 63 < idx then 63 else idx

/-- The byte of a bank in the register. -/
def Bank.byte (b : Bank) : UInt16 := if b.en then 0x80 ||| (b.idx.toUInt8.toUInt16 &&& 0x7f) else 0

namespace TxPktPwrBankPlanner

def reg16 (p : TxPktPwrBankPlanner) : UInt16 := (p.b 1).byte <<< 8 ||| (p.b 0).byte

def reset (_ : TxPktPwrBankPlanner) : TxPktPwrBankPlanner := {}

/-- The type of a descriptor that names a bank. -/
def type (t : Fin 2) : UInt8 := 2 + UInt8.ofNat t

/-- The bank that holds an offset. -/
def hit (p : TxPktPwrBankPlanner) (idx : ℤ) : Option (Fin 2) :=
  [0, 1].find? fun t => (p.b t).en && (p.b t).idx.toInt = idx

/-- The bank that is given up for an offset that none holds. -/
def victim (p : TxPktPwrBankPlanner) : Fin 2 :=
  if !(p.b 0).en then 0
  else if !(p.b 1).en then 1
  else if (p.b 0).stamp ≤ (p.b 1).stamp then 0 else 1

/-- A bank with a value, as of the next tick. -/
def use (p : TxPktPwrBankPlanner) (t : Fin 2) (idx : Int8) : TxPktPwrBankPlanner :=
  { b := Function.update p.b t { en := true, idx, stamp := p.tick + 1 }
    tick := p.tick + 1 }

def request (p : TxPktPwrBankPlanner) (idx : ℤ) : TxPktPwrBankPlanner × Plan :=
  let idx := clamp_idx idx
  if idx = 0 then (p, { type := 0, program := false, reg16 := p.reg16 })
  else
    match p.hit idx with
    | some t =>
      let p := { p with
        b := Function.update p.b t { p.b t with stamp := p.tick + 1 }
        tick := p.tick + 1 }
      (p, { type := type t, program := false, reg16 := p.reg16 })
    | none =>
      let t := p.victim
      let p := p.use t (Int8.ofInt idx)
      (p, { type := type t, program := true, reg16 := p.reg16 })

end TxPktPwrBankPlanner

/-! ## Sessions -/

open TxPktPwrBankPlanner

inductive Call
  | request (idx : ℤ)
  | reset

/-- The planner with the register that is written by its plans, and the bank that the last request
for an offset named. -/
structure Session where
  planner : TxPktPwrBankPlanner := {}
  image : UInt16 := 0
  named : Option UInt8 := none

def Session.step (s : Session) : Call → Session
  | .reset => { planner := s.planner.reset }
  | .request idx =>
    let (p, plan) := s.planner.request idx
    { planner := p
      image := if plan.program then plan.reg16 else s.image
      named := if clamp_idx idx = 0 then s.named else some plan.type }

/-- How many requests there are. -/
def requests (calls : List Call) : ℕ := calls.countP fun | .request _ => true | .reset => false

/-! ## The register -/

/-- The byte of a bank in the register, as the hardware takes it. -/
def field (image : UInt16) (t : Fin 2) : ℕ := image.toNat / 256 ^ t.val % 256

/-- The 7 bits of an offset, in two's complement. -/
def offset (field : ℕ) : ℤ := if field % 128 < 64 then field % 128 else (field % 128 : ℤ) - 128

theorem clamp_idx_bounds (idx : ℤ) : -64 ≤ clamp_idx idx ∧ clamp_idx idx ≤ 63 := by
  unfold clamp_idx
  split_ifs <;> omega

/-- A clamped offset keeps its value in the 8 bits of a bank. -/
theorem toInt_clamped (idx : ℤ) : (Int8.ofInt (clamp_idx idx)).toInt = clamp_idx idx := by
  have := clamp_idx_bounds idx
  apply Int8.toInt_ofInt_of_le <;> omega

theorem toNat_byte (b : Bank) :
    b.byte.toNat = if b.en then 128 + (b.idx.toInt % 128).toNat else 0 := by
  unfold Bank.byte
  split
  · have hlow : (b.idx.toUInt8.toUInt16 &&& 0x7f).toNat = b.idx.toUInt8.toNat % 128 := by
      rw [UInt16.toNat_and, UInt8.toNat_toUInt16]
      exact Nat.and_two_pow_sub_one_eq_mod _ 7
    have hcond := BitVec.toInt_eq_toNat_cond b.idx.toBitVec
    have hint : b.idx.toInt = b.idx.toBitVec.toInt := rfl
    have hnat : b.idx.toUInt8.toNat = b.idx.toBitVec.toNat := rfl
    have hsum : 1 <<< 7 + b.idx.toUInt8.toNat % 128 = 1 <<< 7 ||| b.idx.toUInt8.toNat % 128 :=
      Nat.shiftLeft_add_eq_or_of_lt (Nat.mod_lt _ (by decide)) 1
    rw [UInt16.toNat_or, hlow]
    refine hsum.symm.trans ?_
    rw [hnat, hint, hcond]
    split <;> omega
  · rfl

theorem toNat_reg16 (p : TxPktPwrBankPlanner) :
    p.reg16.toNat = (p.b 1).byte.toNat * 256 + (p.b 0).byte.toNat := by
  have hbyte : ∀ b : Bank, b.byte.toNat < 256 := by
    intro b
    rw [toNat_byte]
    split <;> omega
  have h0 := hbyte (p.b 0)
  have h1 := hbyte (p.b 1)
  have hshift : (8 : UInt16).toNat % 16 = 8 := rfl
  rw [reg16, UInt16.toNat_or, UInt16.toNat_shiftLeft, hshift, Nat.shiftLeft_eq,
    Nat.mod_eq_of_lt (by omega), ← Nat.shiftLeft_eq, ← Nat.shiftLeft_add_eq_or_of_lt h0,
    Nat.shiftLeft_eq]

theorem field_reg16 (p : TxPktPwrBankPlanner) (t : Fin 2) :
    field p.reg16 t = (p.b t).byte.toNat := by
  have h0 := toNat_byte (p.b 0)
  have h1 := toNat_byte (p.b 1)
  rw [field, toNat_reg16]
  fin_cases t
  · simp only [Fin.zero_eta, Nat.pow_zero]
    split at h0 <;> omega
  · simp only [Fin.mk_one, Nat.pow_one]
    split at h0 <;> split at h1 <;> omega

/-- The field of a bank says whether it is enabled, and its offset. -/
theorem field_of_bank {p : TxPktPwrBankPlanner} {t : Fin 2} (h : (p.b t).en) {idx : ℤ}
    (hidx : (p.b t).idx = Int8.ofInt (clamp_idx idx)) :
    128 ≤ field p.reg16 t ∧ offset (field p.reg16 t) = clamp_idx idx := by
  have := clamp_idx_bounds idx
  rw [field_reg16, toNat_byte, if_pos h, hidx, toInt_clamped, offset]
  split <;> omega

/-! ## One request -/

theorem use_self (p : TxPktPwrBankPlanner) (t : Fin 2) (idx : Int8) :
    (p.use t idx).b t = { en := true, idx, stamp := p.tick + 1 } := Function.update_self _ _ _

theorem use_other (p : TxPktPwrBankPlanner) {t u : Fin 2} (h : u ≠ t) (idx : Int8) :
    (p.use t idx).b u = p.b u := Function.update_of_ne h _ _

/-- A bank that is used again with its own value leaves the register as it is. -/
theorem reg16_use {p : TxPktPwrBankPlanner} {t : Fin 2} {idx : Int8} (hen : (p.b t).en)
    (hidx : (p.b t).idx = idx) : (p.use t idx).reg16 = p.reg16 := by
  have hbyte : ∀ u, ((p.use t idx).b u).byte = (p.b u).byte := by
    intro u
    by_cases hu : u = t
    · subst hu
      rw [use_self, Bank.byte, Bank.byte, hen, hidx]
    · rw [use_other p hu]
  rw [reg16, reg16, hbyte, hbyte]

/-- Banks of different values stay so where the value is in no other bank. -/
theorem apart_use {p : TxPktPwrBankPlanner} {t : Fin 2} {idx : Int8}
    (hp : ∀ t u, (p.b t).en → (p.b u).en → (p.b t).idx = (p.b u).idx → t = u)
    (ht : ∀ u, u ≠ t → (p.b u).en → (p.b u).idx ≠ idx) (u v : Fin 2)
    (hu : ((p.use t idx).b u).en) (hv : ((p.use t idx).b v).en)
    (huv : ((p.use t idx).b u).idx = ((p.use t idx).b v).idx) : u = v := by
  by_cases hut : u = t
  · by_cases hvt : v = t
    · rw [hut, hvt]
    · rw [hut, use_self, use_other p hvt] at huv
      rw [use_other p hvt] at hv
      exact absurd huv.symm (ht v hvt hv)
  · by_cases hvt : v = t
    · rw [hvt, use_self, use_other p hut] at huv
      rw [use_other p hut] at hu
      exact absurd huv (ht u hut hu)
    · rw [use_other p hut] at hu huv
      rw [use_other p hvt] at hv huv
      exact hp u v hu hv huv

theorem hit_some {p : TxPktPwrBankPlanner} {idx : ℤ} {t : Fin 2} (h : p.hit idx = some t) :
    (p.b t).en ∧ (p.b t).idx.toInt = idx := by
  have := List.find?_some h
  simpa using this

theorem hit_none {p : TxPktPwrBankPlanner} {idx : ℤ} (h : p.hit idx = none) (t : Fin 2)
    (ht : (p.b t).en) : (p.b t).idx.toInt ≠ idx := by
  have hall := List.find?_eq_none.mp h t (by fin_cases t <;> simp)
  simpa [ht] using hall

/-- A request for an offset takes a bank: the one that holds it, or the victim where none does. -/
theorem request_spec (p : TxPktPwrBankPlanner) {idx : ℤ} (h : clamp_idx idx ≠ 0) :
    ∃ t program, p.request idx =
        (p.use t (Int8.ofInt (clamp_idx idx)),
          ⟨type t, program, (p.use t (Int8.ofInt (clamp_idx idx))).reg16⟩) ∧
      if program then t = p.victim ∧ ∀ u, (p.b u).en → (p.b u).idx ≠ Int8.ofInt (clamp_idx idx)
      else (p.b t).en ∧ (p.b t).idx = Int8.ofInt (clamp_idx idx) := by
  unfold request
  dsimp only
  rw [if_neg h]
  cases hhit : p.hit (clamp_idx idx) with
  | some t =>
    obtain ⟨hen, hidx⟩ := hit_some hhit
    have hsame : (p.b t).idx = Int8.ofInt (clamp_idx idx) := by
      rw [← hidx, Int8.ofInt_toInt]
    refine ⟨t, false, ?_, hen, hsame⟩
    have huse : p.use t (Int8.ofInt (clamp_idx idx)) =
        { b := Function.update p.b t { p.b t with stamp := p.tick + 1 }, tick := p.tick + 1 } := by
      rw [use, ← hsame, ← hen]
    rw [huse]
  | none =>
    refine ⟨p.victim, true, rfl, rfl, fun u hu hidx => hit_none hhit u hu ?_⟩
    rw [hidx, toInt_clamped]

/-- The victim is free, or it is no more recent than the other bank. -/
theorem victim_spec {p : TxPktPwrBankPlanner} (h : (p.b p.victim).en) (t : Fin 2) :
    (p.b t).en ∧ (p.b p.victim).stamp.toNat ≤ (p.b t).stamp.toNat := by
  revert h
  unfold victim
  cases h0 : (p.b 0).en with
  | false => simp [h0]
  | true =>
    cases h1 : (p.b 1).en with
    | false => simp [h1]
    | true =>
      by_cases hle : (p.b 0).stamp ≤ (p.b 1).stamp
      · have hle' := UInt32.le_iff_toNat_le.mp hle
        fin_cases t <;> simp [h0, h1, hle, hle']
      · have hlt : (p.b 1).stamp.toNat ≤ (p.b 0).stamp.toNat := by
          rw [UInt32.le_iff_toNat_le] at hle
          omega
        fin_cases t <;> simp [h0, h1, hle, hlt]

/-! ## The invariant of a session -/

/-- The register has the banks, the banks have different values, and the bank that was named last
has the highest stamp. -/
structure Sound (s : Session) (n : ℕ) : Prop where
  image : s.image = s.planner.reg16
  apart : ∀ t u, (s.planner.b t).en → (s.planner.b u).en →
    (s.planner.b t).idx = (s.planner.b u).idx → t = u
  tick : s.planner.tick.toNat ≤ n
  stamps : ∀ t, (s.planner.b t).stamp.toNat ≤ s.planner.tick.toNat
  fresh : s.named = none → ∀ t, (s.planner.b t).en = false
  recent : ∀ ty ∈ s.named, ∃ u, ty = type u ∧ (s.planner.b u).stamp = s.planner.tick ∧
    ∀ v, v ≠ u → (s.planner.b v).stamp.toNat < s.planner.tick.toNat

variable {s : Session} {n : ℕ}

theorem sound_start (n : ℕ) : Sound {} n :=
  ⟨by decide, by simp, by simp, by simp, by simp, by simp⟩

theorem sound_request (h : Sound s n) (hn : n + 1 < 2 ^ 32) (idx : ℤ) :
    Sound (s.step (.request idx)) (n + 1) := by
  by_cases hzero : clamp_idx idx = 0
  · have hsame : s.step (.request idx) = s := by
      simp [Session.step, request, hzero]
    rw [hsame]
    exact { h with tick := Nat.le_succ_of_le h.tick }
  obtain ⟨t, program, hrequest, hbank⟩ := request_spec s.planner hzero
  have hstep : s.step (.request idx) =
      { planner := s.planner.use t (Int8.ofInt (clamp_idx idx))
        image := if program then (s.planner.use t (Int8.ofInt (clamp_idx idx))).reg16 else s.image
        named := some (type t) } := by
    simp only [Session.step, hrequest, if_neg hzero]
  have htick : (s.planner.tick + 1).toNat = s.planner.tick.toNat + 1 := by
    have := h.tick
    have hone : (1 : UInt32).toNat = 1 := rfl
    rw [UInt32.toNat_add, hone]
    omega
  have happart : ∀ u, u ≠ t → (s.planner.b u).en →
      (s.planner.b u).idx ≠ Int8.ofInt (clamp_idx idx) := by
    intro u hu hen hidx
    cases program with
    | true => exact hbank.2 u hen hidx
    | false => exact hu (h.apart u t hen hbank.1 (hidx.trans hbank.2.symm))
  rw [hstep]
  refine ⟨?_, apart_use h.apart happart, ?_, ?_, by simp, ?_⟩
  · cases program with
    | true => rfl
    | false => exact h.image.trans (reg16_use hbank.1 hbank.2).symm
  · have := h.tick
    show (s.planner.tick + 1).toNat ≤ n + 1
    omega
  · intro u
    show _ ≤ (s.planner.tick + 1).toNat
    by_cases hut : u = t
    · rw [hut, use_self]
    · have := h.stamps u
      rw [use_other s.planner hut]
      omega
  · rintro ty hty
    refine ⟨t, (Option.some.inj hty).symm, by rw [use_self]; rfl, fun v hv => ?_⟩
    have := h.stamps v
    show _ < (s.planner.tick + 1).toNat
    rw [use_other s.planner hv]
    omega

theorem sound_run (calls : List Call) (h : requests calls < 2 ^ 32) :
    Sound (Runs.after Session.step {} calls) (requests calls) := by
  induction calls using List.reverseRecOn with
  | nil => exact sound_start 0
  | append_singleton calls c ih =>
    have hcount : requests (calls ++ [c]) =
        requests calls + requests [c] := List.countP_append
    rw [Runs.after_snoc, hcount]
    cases c with
    | request idx =>
      rw [hcount] at h
      exact sound_request (ih (by omega)) h idx
    | reset => exact sound_start _

/-! ## Every request -/

/-- A bank that a request overwrites is the older one of two that hold other values. -/
theorem overwritten (h : Sound s n) {idx : ℤ} (hne : clamp_idx idx ≠ 0) {t : Fin 2}
    (ht : (s.planner.b t).en)
    (hgone : ¬ (((s.planner.request idx).1.b t).en ∧
      ((s.planner.request idx).1.b t).idx = (s.planner.b t).idx)) :
    (∀ u, (s.planner.b u).en ∧ (s.planner.b u).idx.toInt ≠ clamp_idx idx) ∧
      ∃ w, w ≠ t ∧ s.named = some (type w) ∧
        (s.planner.request idx).1.b w = s.planner.b w := by
  obtain ⟨r, program, hrequest, hbank⟩ := request_spec s.planner hne
  rw [hrequest] at hgone ⊢
  dsimp only at hgone ⊢
  have htr : t = r := by
    by_contra htr
    refine hgone ?_
    rw [use_other s.planner htr]
    exact ⟨ht, rfl⟩
  subst htr
  cases program with
  | false =>
    refine absurd ?_ hgone
    rw [use_self]
    exact ⟨rfl, hbank.2.symm⟩
  | true =>
    obtain ⟨rfl, hvalues⟩ := hbank
    have hvictim := victim_spec ht
    refine ⟨fun u => ⟨(hvictim u).1, fun hidx => hvalues u (hvictim u).1 ?_⟩, ?_⟩
    · rw [← hidx, Int8.ofInt_toInt]
    · cases hnamed : s.named with
      | none =>
        rw [h.fresh hnamed] at ht
        cases ht
      | some ty =>
        obtain ⟨w, rfl, hstamp, hothers⟩ := h.recent ty hnamed
        have hw : w ≠ s.planner.victim := by
          intro hw
          obtain ⟨v, hv⟩ : ∃ v, v ≠ w := ⟨w + 1, by fin_cases w <;> decide⟩
          have hlt := hothers v hv
          have hle := (hvictim v).2
          rw [← hw, hstamp] at hle
          omega
        exact ⟨w, hw, rfl, use_other s.planner hw _⟩

/-- After every request of every session the register is the one of the plan, and the bank that
the descriptor names is enabled there with the offset that was asked for. No value is in both
banks, and a bank is overwritten only where both hold other values and it is not the one that was
named last. -/
theorem the_banks_match (calls : List Call) (idx : ℤ) (h : requests calls + 1 < 2 ^ 32) :
    let s := Runs.after Session.step {} calls
    let plan := (s.planner.request idx).2
    let s' := s.step (.request idx)
    s'.image = plan.reg16 ∧ (plan.type = 0 ↔ clamp_idx idx = 0) ∧
      (clamp_idx idx ≠ 0 → ∃ t, plan.type = type t ∧ (s'.planner.b t).en ∧
        128 ≤ field s'.image t ∧ offset (field s'.image t) = clamp_idx idx) ∧
      (∀ t u, (s'.planner.b t).en → (s'.planner.b u).en →
        (s'.planner.b t).idx = (s'.planner.b u).idx → t = u) ∧
      ∀ t, (s.planner.b t).en →
        ¬ ((s'.planner.b t).en ∧ (s'.planner.b t).idx = (s.planner.b t).idx) →
        (∀ u, (s.planner.b u).en ∧ (s.planner.b u).idx.toInt ≠ clamp_idx idx) ∧
          ∃ w, w ≠ t ∧ s.named = some (type w) ∧ s'.planner.b w = s.planner.b w := by
  intro s plan s'
  have hsound : Sound s (requests calls) := sound_run calls (by omega)
  have hnext : Sound s' (requests calls + 1) := sound_request hsound h idx
  have hplanner : s'.planner = (s.planner.request idx).1 := rfl
  have htype : ∀ t, type t ≠ 0 := by decide
  by_cases hzero : clamp_idx idx = 0
  · have hrequest : s.planner.request idx = (s.planner, ⟨0, false, s.planner.reg16⟩) := by
      simp [request, hzero]
    refine ⟨?_, ?_, fun hne => absurd hzero hne, hnext.apart, ?_⟩
    · show s'.image = (s.planner.request idx).2.reg16
      rw [hnext.image, hplanner, hrequest]
    · show (s.planner.request idx).2.type = 0 ↔ _
      rw [hrequest]
      exact iff_of_true rfl hzero
    · intro t ht hgone
      rw [hplanner, hrequest] at hgone
      exact absurd ⟨ht, rfl⟩ hgone
  · obtain ⟨t, program, hrequest, -⟩ := request_spec s.planner hzero
    have hself : s'.planner.b t =
        { en := true, idx := Int8.ofInt (clamp_idx idx), stamp := s.planner.tick + 1 } := by
      rw [hplanner, hrequest]
      exact use_self s.planner t _
    refine ⟨?_, ?_, fun _ => ⟨t, ?_, by rw [hself], ?_⟩, hnext.apart, ?_⟩
    · show s'.image = (s.planner.request idx).2.reg16
      rw [hnext.image, hplanner, hrequest]
    · show (s.planner.request idx).2.type = 0 ↔ _
      rw [hrequest]
      exact iff_of_false (htype t) hzero
    · show (s.planner.request idx).2.type = _
      rw [hrequest]
    · rw [hnext.image]
      exact field_of_bank (by rw [hself]) (by rw [hself])
    · intro u hu hgone
      exact overwritten hsound hzero hu hgone

/-- A third offset goes to the bank of the first one. -/
theorem a_third_offset :
    let s := Runs.after Session.step {} [.request 5, .request (-3)]
    (s.step (.request 7)).image = (s.planner.request 7).2.reg16 ∧
      ((s.planner.request 7).2.type = 0 ↔ clamp_idx 7 = 0) := by
  obtain ⟨himage, htype, -⟩ := the_banks_match [.request 5, .request (-3)] 7 (by decide)
  exact ⟨himage, htype⟩

end devourer.jaguar3
