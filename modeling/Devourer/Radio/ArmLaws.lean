-- What the arm of a station holds on to when the bus lies: the verdicts read
-- back are true, and a bus that is honest about success never opens the gate
-- over half an address.
import Devourer.Radio.AckResponder

namespace devourer

open devourer.ack Triples

/-! ## Port states -/

namespace ack

def Port0.identity (p : Port0) : PortIdentity :=
  { macid_lo := p.macid_lo, macid_hi := p.macid_hi, bssid_lo := p.bssid_lo, bssid_hi := p.bssid_hi }

def Port0.net_type (p : Port0) : UInt8 := p.msr &&& kNetTypeMask

/-- The MACID and the BSSID are one pair of addresses. -/
def Paired (own bssid : Octets 6) (p : Port0) : Prop :=
  p.identity = { macid_lo := macid_lo own, macid_hi := macid_hi own, bssid_lo := macid_lo bssid,
                 bssid_hi := macid_hi bssid }

/-- The port has the identity and the net type of another state. -/
def Port0.Same (p q : Port0) : Prop := p.identity = q.identity ∧ p.net_type = q.net_type

def Port0.snap (p : Port0) : StationRestore := { identity := p.identity, net_type := p.net_type }

/-- A write that reports success has landed. -/
def Honest (wire : ℕ → Fate) : Prop := ∀ n, (wire n).report = .success → (wire n).lands = true

section

variable (wire : ℕ → Fate) (pairs : Octets 6 → Octets 6 → Prop)

def Closed (p : Port0) : Prop := Honest wire → p.net_type = 0

/-- The port answers for no address, or for one that an arm gave it as a whole. -/
def Safe (p : Port0) : Prop :=
  Honest wire → p.net_type = 0 ∨ ∃ own bssid, pairs own bssid ∧ Paired own bssid p

end

/-- The registers as they stand have `J`, and as each write left them, `S`. -/
def At (J S : Port0 → Prop) (b : Bus) : Prop := J b.port ∧ ∀ q ∈ b.seen, S q

/-! ## One access -/

variable {wire : ℕ → Fate} {pairs : Octets 6 → Octets 6 → Prop} {α : Type} {J K L S : Port0 → Prop}

theorem read_triple (r : Reg α) :
    Triple (At J S) (rtw_read wire r) (fun v => At (fun p => J p ∧ r.get p = v) S) (At J S) := by
  rintro b ⟨hJ, hS⟩
  change Ends _ _ (rtw_read wire r b)
  unfold rtw_read
  split
  · exact ⟨hJ, hS⟩
  · exact ⟨⟨hJ, rfl⟩, hS⟩

/-- What a write leaves, whether it lands or not, and what it leaves when an honest bus reports
success. -/
theorem write_triple {r : Reg α} {v : α} (hmiss : ∀ p, J p → K p)
    (hland : ∀ p, J p → K (r.set v p)) (hset : ∀ p, J p → L (r.set v p))
    (hS : ∀ p, K p → S p) :
    Triple (At J S) (rtw_write wire r v)
      (fun ok => At (fun p => K p ∧ (ok = true → Honest wire → L p)) S) (At K S) := by
  rintro b ⟨hJ, hseen⟩
  change Ends _ _ (rtw_write wire r v b)
  have hK : K (if (wire b.accesses).lands then r.set v b.port else b.port) := by
    split
    · exact hland _ hJ
    · exact hmiss _ hJ
  have hall :
      ∀ q ∈ (if (wire b.accesses).lands then r.set v b.port else b.port) :: b.seen, S q := by
    intro q hq
    rcases List.mem_cons.mp hq with rfl | hq
    · exact hS _ hK
    · exact hseen q hq
  unfold rtw_write
  dsimp only
  split
  · next hsuccess =>
    refine ⟨⟨hK, fun _ honest => ?_⟩, hall⟩
    rw [if_pos (honest _ hsuccess)]
    exact hset _ hJ
  · exact ⟨⟨hK, fun h => by cases h⟩, hall⟩
  · exact ⟨hK, hall⟩

theorem contained_triple {r : Reg α} {v : α} (hland : ∀ p, K p → K (r.set v p))
    (hS : ∀ p, K p → S p) :
    Triple (At K S) (write_contained wire r v) (fun _ => At K S) (fun _ => False) := by
  apply Triple.catch (F := At K S)
  · exact (write_triple (L := fun _ => True) (fun _ h => h) hland (fun _ _ => trivial) hS).conseq
      (fun _ h => h) (fun _ _ h => ⟨h.1.1, h.2⟩) (fun _ h => h)
  · exact fun _ => Triple.pure fun _ h => h

/-! ## The tests -/

/-- A test leaves the port as it is, and where it is true the port has `A`. It may throw. -/
def Tests (S : Port0 → Prop) (y : Access Bool) (A : Port0 → Prop) : Prop :=
  ∀ J : Port0 → Prop,
    Triple (At J S) y (fun b => At (fun p => J p ∧ (b = true → A p)) S) (At J S)

/-- A test that does not throw. -/
def Verdict (S : Port0 → Prop) (y : Access Bool) (A : Port0 → Prop) : Prop :=
  ∀ J : Port0 → Prop,
    Triple (At J S) y (fun b => At (fun p => J p ∧ (b = true → A p)) S) (fun _ => False)

theorem reads_tests [DecidableEq α] (r : Reg α) (v : α) :
    Tests S (reads wire r v) fun p => r.get p = v := by
  intro J
  apply Triple.map
  refine (read_triple r).conseq (fun _ h => h) ?_ (fun _ h => h)
  rintro x b ⟨⟨hJ, rfl⟩, hS⟩
  exact ⟨⟨hJ, fun h => of_decide_eq_true h⟩, hS⟩

theorem net_type_tests (nt : UInt8) : Tests S (net_type_is wire nt) fun p => p.net_type = nt := by
  intro J
  apply Triple.map
  refine (read_triple reg_0102).conseq (fun _ h => h) ?_ (fun _ h => h)
  rintro x b ⟨⟨hJ, rfl⟩, hS⟩
  exact ⟨⟨hJ, fun h => of_decide_eq_true h⟩, hS⟩

theorem Tests.both {y z : Access Bool} {A B : Port0 → Prop} (hy : Tests S y A) (hz : Tests S z B) :
    Tests S (y <&&> z) fun p => A p ∧ B p := by
  intro J
  apply Triple.andM (T := At (fun p => J p ∧ A p) S)
  · refine (hy J).conseq (fun _ h => h) ?_ (fun _ h => h)
    rintro b s ⟨⟨hJ, hA⟩, hS⟩
    cases b with
    | false => exact ⟨⟨hJ, fun h => by cases h⟩, hS⟩
    | true => exact ⟨⟨hJ, hA rfl⟩, hS⟩
  · refine (hz _).conseq (fun _ h => h) ?_ (fun _ h => ⟨h.1.1, h.2⟩)
    rintro b s ⟨⟨⟨hJ, hA⟩, hB⟩, hS⟩
    exact ⟨⟨hJ, fun h => ⟨hA, hB h⟩⟩, hS⟩

/-- A test that throws has failed. -/
theorem Tests.guarded {y : Access Bool} {A : Port0 → Prop} (hy : Tests S y A) :
    Verdict S (tryCatch y fun _ => pure false) A := by
  intro J
  apply Triple.catch (hy J)
  exact fun _ => Triple.pure fun _ h => ⟨⟨h.1, fun h => by cases h⟩, h.2⟩

theorem Verdict.tests {y : Access Bool} {A : Port0 → Prop} (hy : Verdict S y A) : Tests S y A :=
  fun J => (hy J).conseq (fun _ h => h) (fun _ _ h => h) (fun _ h => h.elim)

theorem Verdict.mono {y : Access Bool} {A B : Port0 → Prop} (hy : Verdict S y A)
    (h : ∀ p, A p → B p) : Verdict S y B :=
  fun J => (hy J).conseq (fun _ h => h) (fun _ _ hA => ⟨⟨hA.1.1, fun hb => h _ (hA.1.2 hb)⟩, hA.2⟩)
    (fun _ h => h)

theorem port_identity_verdict (identity : PortIdentity) :
    Verdict S (port_identity_is wire identity) fun p => p.identity = identity := by
  apply Verdict.mono
  · exact ((reads_tests reg_0610 _).both ((reads_tests reg_0614 _).both
      ((reads_tests reg_0618 _).both (reads_tests reg_061c _)))).guarded
  · rintro p ⟨hml, hmh, hbl, hbh⟩
    cases identity
    simp_all [Port0.identity, reg_0610, reg_0614, reg_0618, reg_061c]

/-- A true verdict of the arm is true of the registers. -/
theorem station_is_verdict (own bssid : Octets 6) :
    Verdict S (station_is wire own bssid)
      fun p => Paired own bssid p ∧ p.net_type = kNetTypeInfra := by
  apply Verdict.mono
  · exact ((net_type_tests kNetTypeInfra).both ((reads_tests reg_0610 _).both
      ((reads_tests reg_0614 _).both ((reads_tests reg_0618 _).both
        (reads_tests reg_061c _))))).guarded
  · rintro p ⟨hnt, hml, hmh, hbl, hbh⟩
    simp_all [Paired, Port0.identity, reg_0610, reg_0614, reg_0618, reg_061c]

/-- A true verdict of a restore is true of the registers. -/
theorem station_matches_verdict (p0 : Port0) :
    Verdict S (station_matches wire p0.snap) fun p => p.Same p0 := by
  have hmask : p0.snap.net_type &&& kNetTypeMask = p0.net_type := by
    simp [Port0.snap, Port0.net_type, UInt8.and_assoc]
  unfold station_matches
  rw [hmask]
  exact ((port_identity_verdict p0.identity).tests.both (net_type_tests p0.net_type)).guarded

/-! ## The writes -/

theorem net_type_closed (nt : UInt8) (p : Port0) :
    (reg_0102.set (nt &&& ~~~kNetTypeMask) p).net_type = 0 := by
  simp [reg_0102, Port0.net_type, UInt8.and_assoc]

theorem safe_of_closed (p : Port0) (h : Closed wire p) : Safe wire pairs p :=
  fun honest => .inl (h honest)

/-- Once the gate is closed, a register beside it may be written. -/
def Beside (r : Reg α) : Prop := ∀ v p, (r.set v p).net_type = p.net_type

theorem Beside.closed {r : Reg α} (hr : Beside r) {v : α} {p : Port0} (h : Closed wire p) :
    Closed wire (r.set v p) := fun honest => (hr v p).trans (h honest)

theorem close_triple (nt : UInt8) :
    Triple (At (Safe wire pairs) (Safe wire pairs))
      (rtw_write wire reg_0102 (nt &&& ~~~kNetTypeMask))
      (fun ok => At (fun p => Safe wire pairs p ∧ (ok = true → Closed wire p)) (Safe wire pairs))
      (At (Safe wire pairs) (Safe wire pairs)) := by
  refine (write_triple (L := fun p => p.net_type = 0) (fun _ h => h) ?_ ?_ (fun _ h => h)).conseq
    (fun _ h => h) ?_ (fun _ h => h)
  · exact fun p _ => safe_of_closed _ fun _ => net_type_closed nt p
  · exact fun p _ => net_type_closed nt p
  · exact fun _ _ h => ⟨⟨h.1.1, fun hok honest => h.1.2 hok honest⟩, h.2⟩

/-- The four halves of an address pair, as far as the bus reports them written. -/
structure Written (wire : ℕ → Fate) (own bssid : Octets 6) (ml mh bl bh : Bool) (p : Port0) :
    Prop where
  closed : Closed wire p
  ml : ml = true → Honest wire → p.macid_lo = macid_lo own
  mh : mh = true → Honest wire → p.macid_hi = macid_hi own
  bl : bl = true → Honest wire → p.bssid_lo = macid_lo bssid
  bh : bh = true → Honest wire → p.bssid_hi = macid_hi bssid

theorem written_triple {own bssid : Octets 6} :
    Triple (At (Closed wire) (Safe wire pairs)) (write_identity wire own bssid)
      (fun ok => At (fun p => Closed wire p ∧ (ok = true → Honest wire → Paired own bssid p))
        (Safe wire pairs))
      (At (Safe wire pairs) (Safe wire pairs)) := by
  have hsafe : ∀ {ml mh bl bh : Bool} (p : Port0), Written wire own bssid ml mh bl bh p →
      Safe wire pairs p := fun p h => safe_of_closed p h.closed
  have hthrow : ∀ {ml mh bl bh : Bool} (b : Bus),
      At (Written wire own bssid ml mh bl bh) (Safe wire pairs) b →
        At (Safe wire pairs) (Safe wire pairs) b := fun b h => ⟨hsafe _ h.1, h.2⟩
  refine Triple.bind (Q := fun ml => At (Written wire own bssid ml false false false)
    (Safe wire pairs)) ?_ fun ml => ?_
  · refine (write_triple (K := Written wire own bssid false false false false)
      (L := fun p => p.macid_lo = macid_lo own) ?_ ?_ (fun _ _ => rfl) hsafe).conseq
      (fun _ h => h) (fun _ _ h => ⟨⟨h.1.1.1, h.1.2, h.1.1.3, h.1.1.4, h.1.1.5⟩, h.2⟩) hthrow
    · exact fun p h => ⟨h, nofun, nofun, nofun, nofun⟩
    · exact fun p h => ⟨h, nofun, nofun, nofun, nofun⟩
  refine Triple.bind (Q := fun mh => At (Written wire own bssid ml mh false false)
    (Safe wire pairs)) ?_ fun mh => ?_
  · exact (write_triple (L := fun p => p.macid_hi = macid_hi own) (fun _ h => h)
      (fun _ h => ⟨h.1, h.2, nofun, nofun, nofun⟩) (fun _ _ => rfl) hsafe).conseq
      (fun _ h => h) (fun _ _ h => ⟨⟨h.1.1.1, h.1.1.2, h.1.2, h.1.1.4, h.1.1.5⟩, h.2⟩) hthrow
  refine Triple.bind (Q := fun bl => At (Written wire own bssid ml mh bl false)
    (Safe wire pairs)) ?_ fun bl => ?_
  · exact (write_triple (L := fun p => p.bssid_lo = macid_lo bssid) (fun _ h => h)
      (fun _ h => ⟨h.1, h.2, h.3, nofun, nofun⟩) (fun _ _ => rfl) hsafe).conseq
      (fun _ h => h) (fun _ _ h => ⟨⟨h.1.1.1, h.1.1.2, h.1.1.3, h.1.2, h.1.1.5⟩, h.2⟩) hthrow
  refine Triple.bind (Q := fun bh => At (Written wire own bssid ml mh bl bh)
    (Safe wire pairs)) ?_ fun bh => ?_
  · exact (write_triple (L := fun p => p.bssid_hi = macid_hi bssid) (fun _ h => h)
      (fun _ h => ⟨h.1, h.2, h.3, h.4, nofun⟩) (fun _ _ => rfl) hsafe).conseq
      (fun _ h => h) (fun _ _ h => ⟨⟨h.1.1.1, h.1.1.2, h.1.1.3, h.1.1.4, h.1.2⟩, h.2⟩) hthrow
  apply Triple.pure
  rintro b ⟨h, hseen⟩
  refine ⟨⟨h.closed, fun hok honest => ?_⟩, hseen⟩
  simp only [Bool.and_eq_true] at hok
  obtain ⟨⟨⟨hml, hmh⟩, hbl⟩, hbh⟩ := hok
  simp [Paired, Port0.identity, h.ml hml honest, h.mh hmh honest, h.bl hbl honest,
    h.bh hbh honest]

theorem arm_station_triple {own bssid : Octets 6} (hpair : pairs own bssid) :
    Triple (At (Safe wire pairs) (Safe wire pairs)) (arm_station wire own bssid)
      (fun _ => At (Safe wire pairs) (Safe wire pairs)) (fun _ => False) := by
  apply Triple.catch (F := At (Safe wire pairs) (Safe wire pairs))
  · refine Triple.bind (Q := fun _ => At (Safe wire pairs) (Safe wire pairs)) ?_ fun nt => ?_
    · exact (read_triple reg_0102).conseq (fun _ h => h) (fun _ _ h => ⟨h.1.1, h.2⟩) (fun _ h => h)
    refine Triple.bind (close_triple nt) fun ok => ?_
    cases ok with
    | false => exact Triple.pure fun _ h => ⟨h.1.1, h.2⟩
    | true =>
      refine (Triple.bind written_triple fun ok => ?_).conseq
        (fun _ h => ⟨h.1.2 rfl, h.2⟩) (fun _ _ h => h) (fun _ h => h)
      cases ok with
      | false => exact Triple.pure fun _ h => ⟨safe_of_closed _ h.1.1, h.2⟩
      | true =>
        refine (write_triple (K := Safe wire pairs) (L := fun _ => True) ?_ ?_
          (fun _ _ => trivial) (fun _ h => h)).conseq (fun _ h => h)
          (fun _ _ h => ⟨h.1.1, h.2⟩) (fun _ h => h)
        · exact fun p h => safe_of_closed p h.1
        · exact fun p h honest => .inr ⟨own, bssid, hpair, h.2 rfl honest⟩
  · exact fun _ => Triple.pure fun _ h => h

theorem restore_identity_triple (identity : PortIdentity) :
    Triple (At (Closed wire) (Safe wire pairs)) (restore_port_identity wire identity)
      (fun _ => At (Closed wire) (Safe wire pairs)) (fun _ => False) := by
  have hclosed : ∀ {β : Type} {r : Reg β} (v : β), Beside r →
      Triple (At (Closed wire) (Safe wire pairs)) (write_contained wire r v)
        (fun _ => At (Closed wire) (Safe wire pairs)) (fun _ => False) :=
    fun v hr => contained_triple (fun p h => hr.closed h) fun p h => safe_of_closed p h
  refine Triple.bind (hclosed _ fun _ _ => rfl) fun _ => ?_
  refine Triple.bind (hclosed _ fun _ _ => rfl) fun _ => ?_
  refine Triple.bind (hclosed _ fun _ _ => rfl) fun _ => ?_
  refine Triple.bind (hclosed _ fun _ _ => rfl) fun _ => ?_
  exact Triple.pure fun _ h => h

theorem net_type_reopened {p0 : Port0} (h0 : p0.net_type = 0) (nt : UInt8) (p : Port0) :
    (reg_0102.set ((nt &&& ~~~kNetTypeMask) ||| (p0.snap.net_type &&& kNetTypeMask)) p).net_type =
      0 := by
  have hsnap : p0.snap.net_type = 0 := h0
  rw [hsnap, UInt8.zero_and, UInt8.or_zero]
  exact net_type_closed nt p

theorem reopen_triple {p0 : Port0} (h0 : p0.net_type = 0) :
    Triple (At (Closed wire) (Safe wire pairs)) (tryCatch (reopen wire p0.snap) fun _ => pure ())
      (fun _ => At (Safe wire pairs) (Safe wire pairs)) (fun _ => False) := by
  apply Triple.catch (F := At (Safe wire pairs) (Safe wire pairs))
  · refine Triple.bind (Q := fun _ => At (Safe wire pairs) (Safe wire pairs)) ?_ fun nt => ?_
    · exact (read_triple reg_0102).conseq (fun _ h => h)
        (fun _ _ h => ⟨safe_of_closed _ h.1.1, h.2⟩) (fun _ h => ⟨safe_of_closed _ h.1, h.2⟩)
    refine Triple.bind (write_triple (K := Safe wire pairs) (L := fun _ => True) (fun _ h => h) ?_
      (fun _ _ => trivial) (fun _ h => h)) fun _ => Triple.pure fun _ h => ⟨h.1.1, h.2⟩
    exact fun p _ => safe_of_closed _ fun _ => net_type_reopened h0 nt p
  · exact fun _ => Triple.pure fun _ h => h

/-- A restore to a port without an owner keeps the gate closed, and its verdict is true. -/
theorem restore_station_triple {p0 : Port0} (h0 : p0.net_type = 0) :
    Triple (At (Safe wire pairs) (Safe wire pairs)) (restore_station wire p0.snap)
      (fun ok => At (fun p => Safe wire pairs p ∧ (ok = true → p.Same p0)) (Safe wire pairs))
      (fun _ => False) := by
  refine Triple.bind (Q := fun closed =>
    At (fun p => Safe wire pairs p ∧ (closed = true → Closed wire p)) (Safe wire pairs)) ?_
    fun closed => ?_
  · apply Triple.catch (F := At (Safe wire pairs) (Safe wire pairs))
    · refine Triple.bind (Q := fun _ => At (Safe wire pairs) (Safe wire pairs)) ?_ close_triple
      exact (read_triple reg_0102).conseq (fun _ h => h) (fun _ _ h => ⟨h.1.1, h.2⟩) (fun _ h => h)
    · exact fun _ => Triple.pure fun _ h => ⟨⟨h.1, nofun⟩, h.2⟩
  cases closed with
  | false =>
    exact (station_matches_verdict p0 _).conseq (fun _ h => ⟨h.1.1, h.2⟩) (fun _ _ h => h)
      (fun _ h => h)
  | true =>
    refine (Triple.bind (restore_identity_triple p0.identity) fun _ => ?_).conseq
      (fun _ h => ⟨h.1.2 rfl, h.2⟩) (fun _ _ h => h) (fun _ h => h)
    exact Triple.bind (reopen_triple h0) fun _ => station_matches_verdict p0 _

theorem snapshot_identity_triple :
    Triple (At J S) (snapshot_port_identity wire)
      (fun id => At (fun p => J p ∧ ∀ i ∈ id, i = p.identity) S) (fun _ => False) := by
  apply Triple.catch (F := At J S)
  · refine Triple.bind (read_triple reg_0610) fun ml => ?_
    refine Triple.bind ((read_triple reg_0614).conseq (fun _ h => h) (fun _ _ h => h)
      fun _ h => ⟨h.1.1, h.2⟩) fun mh => ?_
    refine Triple.bind ((read_triple reg_0618).conseq (fun _ h => h) (fun _ _ h => h)
      fun _ h => ⟨h.1.1.1, h.2⟩) fun bl => ?_
    refine Triple.bind ((read_triple reg_061c).conseq (fun _ h => h) (fun _ _ h => h)
      fun _ h => ⟨h.1.1.1.1, h.2⟩) fun bh => ?_
    apply Triple.pure
    rintro b ⟨⟨⟨⟨⟨hJ, rfl⟩, rfl⟩, rfl⟩, rfl⟩, hS⟩
    refine ⟨⟨hJ, ?_⟩, hS⟩
    rintro i ⟨⟩
    rfl
  · exact fun _ => Triple.pure fun _ h => ⟨⟨h.1, nofun⟩, h.2⟩

theorem snapshot_triple :
    Triple (At J S) (snapshot_station_restore wire)
      (fun snap => At (fun p => J p ∧ ∀ r ∈ snap, r = p.snap) S) (fun _ => False) := by
  apply Triple.catch (F := At J S)
  · refine Triple.bind (snapshot_identity_triple.conseq (fun _ h => h) (fun _ _ h => h)
      fun _ h => h.elim) fun id => ?_
    cases id with
    | none => exact Triple.pure fun _ h => ⟨⟨h.1.1, nofun⟩, h.2⟩
    | some identity =>
      refine Triple.bind ((read_triple reg_0102).conseq (fun _ h => h) (fun _ _ h => h)
        fun _ h => ⟨h.1.1, h.2⟩) fun msr => ?_
      apply Triple.pure
      rintro b ⟨⟨⟨hJ, hid⟩, rfl⟩, hS⟩
      refine ⟨⟨hJ, ?_⟩, hS⟩
      rintro r ⟨⟩
      rw [hid identity rfl]
      rfl
  · exact fun _ => Triple.pure fun _ h => ⟨⟨h.1, nofun⟩, h.2⟩

end ack

namespace StationArm

variable {wire : ℕ → Fate} {pairs : Octets 6 → Octets 6 → Prop} {p0 : Port0}

/-! ## The calls -/

/-- What the arm keeps of the port before its first arm: without a record the port is as it was
then, and the record is of a port that had no owner. -/
structure Kept (p0 : Port0) (s : StationArm) (b : Bus) : Prop where
  unarmed : s._restore = none → b.port.Same p0
  record : ∀ saved ∈ s._restore, saved = p0.snap ∧ p0.net_type = 0

/-- Once something was written, every register state is safe. -/
def Trail (wire : ℕ → Fate) (pairs : Octets 6 → Octets 6 → Prop) (p0 : Port0) (b : Bus) : Prop :=
  b.seen = [] ∧ b.port = p0 ∨ p0.net_type = 0 ∧ At (Safe wire pairs) (Safe wire pairs) b

theorem Trail.writable {b : Bus} (h : Trail wire pairs p0 b) (h0 : p0.net_type = 0) :
    At (Safe wire pairs) (Safe wire pairs) b := by
  rcases h with ⟨hseen, hport⟩ | ⟨-, h⟩
  · refine ⟨fun _ => .inl (hport ▸ h0), ?_⟩
    rw [hseen]
    exact nofun
  · exact h

/-- A call that only read leaves the trail as it was. -/
theorem Trail.quiet {b b' : Bus} (h : Trail wire pairs p0 b) (hport : b'.port = b.port)
    (hseen : ∀ q ∈ b'.seen, q ∈ b.seen) : Trail wire pairs p0 b' := by
  rcases h with ⟨hnil, hp0⟩ | ⟨h0, hsafe, hall⟩
  · refine .inl ⟨List.eq_nil_iff_forall_not_mem.mpr fun q hq => ?_, hport.trans hp0⟩
    rw [hnil] at hseen
    exact absurd (hseen q hq) (List.not_mem_nil)
  · exact .inr ⟨h0, hport ▸ hsafe, fun q hq => hall q (hseen q hq)⟩

theorem snap_of_same {p : Port0} (h : p.Same p0) : p.snap = p0.snap := by
  unfold Port0.snap
  rw [h.1, h.2]

theorem rollback_triple {s : StationArm} :
    Triple (fun b => Kept p0 s b ∧ Trail wire pairs p0 b) (s.rollback_target wire)
      (fun target b => Trail wire pairs p0 b ∧ Kept p0 s b ∧
        ∀ saved ∈ target, saved = p0.snap ∧ p0.net_type = 0)
      (fun _ => False) := by
  rintro b ⟨hkept, htrail⟩
  unfold rollback_target
  cases hs : s._restore with
  | some saved =>
    refine ⟨htrail, hkept, ?_⟩
    rintro _ ⟨⟩
    exact hkept.record saved hs
  | none =>
    have hsame := hkept.unarmed hs
    refine (Triple.bind (P := At (· = b.port) (· ∈ b.seen)) snapshot_triple fun snap => ?_) b
      ⟨rfl, fun q hq => hq⟩
    have hend : ∀ b', At (· = b.port) (· ∈ b.seen) b' → Trail wire pairs p0 b' ∧ Kept p0 s b' := by
      rintro b' ⟨hport, hseen⟩
      refine ⟨htrail.quiet hport hseen, ?_, ?_⟩
      · exact fun _ => hport ▸ hsame
      · exact fun saved h => by rw [hs] at h; cases h
    cases snap with
    | none =>
      exact Triple.pure fun b' h => ⟨(hend b' ⟨h.1.1, h.2⟩).1, (hend b' ⟨h.1.1, h.2⟩).2, nofun⟩
    | some snap =>
      apply Triple.pure
      intro b' h
      obtain ⟨htrail', hkept'⟩ := hend b' ⟨h.1.1, h.2⟩
      refine ⟨htrail', hkept', ?_⟩
      intro saved hsaved
      split at hsaved
      · cases hsaved
      · next hnt =>
        obtain rfl : snap = saved := Option.some.inj hsaved
        have hsnap : snap = p0.snap := by
          rw [h.1.2 snap rfl, h.1.1]
          exact snap_of_same hsame
        rw [hsnap] at hnt ⊢
        exact ⟨rfl, not_not.mp hnt⟩

/-- An arm that answers true is true of the registers. -/
theorem arm_triple {s : StationArm} {own bssid : Octets 6}
    (hpair : station_args_ok own bssid = true → pairs own bssid) :
    Triple (fun b => Kept p0 s b ∧ Trail wire pairs p0 b) (s.arm wire own bssid)
      (fun r b => (Kept p0 r.2 b ∧ Trail wire pairs p0 b) ∧
        (r.1 = true → Paired own bssid b.port ∧ b.port.net_type = kNetTypeInfra))
      (fun _ => False) := by
  unfold arm
  split
  · exact Triple.pure fun b h => ⟨h, nofun⟩
  · next hargs =>
    have hpairs := hpair (by simpa using hargs)
    refine Triple.bind rollback_triple fun target => ?_
    cases target with
    | none => exact Triple.pure fun b h => ⟨⟨h.2.1, h.1⟩, nofun⟩
    | some saved =>
      rintro b ⟨htrail, hkept, hsaved⟩
      obtain ⟨rfl, h0⟩ := hsaved saved rfl
      refine (Triple.bind (arm_station_triple hpairs) fun _ => ?_) b (htrail.writable h0)
      refine Triple.bind (station_is_verdict own bssid _) fun ok => ?_
      have hrecord : ∀ saved ∈ some p0.snap, saved = p0.snap ∧ p0.net_type = 0 := by
        rintro _ ⟨⟩
        exact ⟨rfl, h0⟩
      cases ok with
      | true =>
        exact Triple.pure fun b h => ⟨⟨⟨nofun, hrecord⟩, .inr ⟨h0, h.1.1, h.2⟩⟩, h.1.2⟩
      | false =>
        refine (Triple.bind (restore_station_triple h0) fun ok => ?_).conseq
          (fun b h => ⟨h.1.1, h.2⟩) (fun _ _ h => h) (fun _ h => h)
        cases ok with
        | true =>
          exact Triple.pure fun b h =>
            ⟨⟨⟨fun _ => h.1.2 rfl, nofun⟩, .inr ⟨h0, h.1.1, h.2⟩⟩, nofun⟩
        | false =>
          exact Triple.pure fun b h => ⟨⟨⟨nofun, hrecord⟩, .inr ⟨h0, h.1.1, h.2⟩⟩, nofun⟩

/-- A clear that answers true has put the port back. -/
theorem clear_triple {s : StationArm} :
    Triple (fun b => Kept p0 s b ∧ Trail wire pairs p0 b) (s.clear wire)
      (fun r b => (Kept p0 r.2 b ∧ Trail wire pairs p0 b) ∧ (r.1 = true → b.port.Same p0))
      (fun _ => False) := by
  rintro b ⟨hkept, htrail⟩
  unfold clear
  cases hs : s._restore with
  | none => exact ⟨⟨hkept, htrail⟩, fun _ => hkept.unarmed hs⟩
  | some saved =>
    obtain ⟨rfl, h0⟩ := hkept.record saved hs
    refine (Triple.bind (restore_station_triple h0) fun ok => ?_) b (htrail.writable h0)
    cases ok with
    | true =>
      exact Triple.pure fun b h => ⟨⟨⟨fun _ => h.1.2 rfl, nofun⟩, .inr ⟨h0, h.1.1, h.2⟩⟩, h.1.2⟩
    | false =>
      refine Triple.pure fun b h => ⟨⟨⟨fun hnone => ?_, hkept.record⟩, .inr ⟨h0, h.1.1, h.2⟩⟩,
        nofun⟩
      rw [hs] at hnone
      cases hnone

theorem retire_triple {s : StationArm} :
    Triple (fun b => Kept p0 s b ∧ Trail wire pairs p0 b) (s.retire wire)
      (fun s b => Kept p0 s b ∧ Trail wire pairs p0 b) (fun _ => False) := by
  unfold retire
  split
  · exact Triple.pure fun b h => h
  · apply Triple.catch (F := fun _ => False)
    · apply Triple.map
      exact clear_triple.conseq (fun _ h => h) (fun _ _ h => h.1) (fun _ h => h)
    · exact fun _ b h => h.elim

/-! ## Sessions -/

/-- What a call that answers true tells of the port. -/
def Told (p0 p : Port0) : Call → Prop
  | .arm own bssid => Paired own bssid p ∧ p.net_type = kNetTypeInfra
  | .clear => p.Same p0
  | .retire => True

theorem program_triple {s : StationArm} {c : Call}
    (hpair : ∀ own bssid, c = .arm own bssid → station_args_ok own bssid = true →
      pairs own bssid) :
    Triple (fun b => Kept p0 s b ∧ Trail wire pairs p0 b) (program wire s c)
      (fun r b => (Kept p0 r.2 b ∧ Trail wire pairs p0 b) ∧ (r.1 = true → Told p0 b.port c))
      (fun _ => False) := by
  cases c with
  | arm own bssid => exact arm_triple (hpair own bssid rfl)
  | clear => exact clear_triple
  | retire =>
    apply Triple.map
    exact retire_triple.conseq (fun _ h => h) (fun _ _ h => ⟨h, fun _ => trivial⟩) fun _ h => h

/-- No call throws. -/
theorem answer_spec {s : Session} {c : Call}
    (hpair : ∀ own bssid, c = .arm own bssid → station_args_ok own bssid = true → pairs own bssid)
    (h : Kept p0 s.station s.bus ∧ Trail wire pairs p0 s.bus) :
    ∃ b, (answer wire s c).1 = .ok b ∧
      (Kept p0 (answer wire s c).2.station (answer wire s c).2.bus ∧
        Trail wire pairs p0 (answer wire s c).2.bus) ∧
      (b = true → Told p0 (answer wire s c).2.bus.port c) := by
  have hend := program_triple hpair s.bus h
  unfold answer
  rcases hrun : (program wire s.station c).run.run s.bus with ⟨e | ⟨b, station⟩, bus⟩
  · rw [hrun] at hend
    exact hend.elim
  · rw [hrun] at hend
    exact ⟨b, rfl, hend⟩

theorem kept_session {calls : List Call}
    (hpair : ∀ own bssid, Call.arm own bssid ∈ calls → station_args_ok own bssid = true →
      pairs own bssid) :
    Kept p0 (session wire p0 calls).station (session wire p0 calls).bus ∧
      Trail wire pairs p0 (session wire p0 calls).bus := by
  apply Runs.after_keeps_along (P := fun s : Session => Kept p0 s.station s.bus ∧
      Trail wire pairs p0 s.bus)
    (C := fun _ c => ∀ own bssid, c = .arm own bssid → station_args_ok own bssid = true →
      pairs own bssid)
  · exact ⟨⟨fun _ => ⟨rfl, rfl⟩, nofun⟩, .inl ⟨rfl, rfl⟩⟩
  · intro s c hc h
    obtain ⟨_, _, hkept, _⟩ := answer_spec hc h
    exact hkept
  · apply Runs.along_of_forall
    rintro s c hc own bssid rfl hargs
    exact hpair own bssid hc hargs

/-- The registers as they were at the start, and as each write left them. -/
def Session.states (p0 : Port0) (s : Session) : List Port0 := p0 :: s.bus.seen

/-- Over a bus that lies as it likes, an arm or a clear that answers true tells the truth, and a
port that is not armed is as it was before the first arm. Over one that is honest about success, no
register state of a session that wrote anything answers for half an address. -/
theorem the_port_is_as_told (wire : ℕ → Fate) (p0 : Port0) (calls : List Call) :
    (∀ c, ∃ b, (answer wire (session wire p0 calls) c).1 = .ok b ∧
      (b = true → Told p0 (answer wire (session wire p0 calls) c).2.bus.port c)) ∧
    ((session wire p0 calls).station.armed = false → (session wire p0 calls).bus.port.Same p0) ∧
    (Honest wire → (session wire p0 calls).bus.seen ≠ [] →
      ∀ p ∈ (session wire p0 calls).states p0, p.net_type = 0 ∨
        ∃ own bssid, Call.arm own bssid ∈ calls ∧ Paired own bssid p) := by
  refine ⟨fun c => ?_, fun harmed => ?_, fun honest hseen p hp => ?_⟩
  · obtain ⟨b, hb, -, htold⟩ := @answer_spec wire (fun _ _ => True) p0 (session wire p0 calls) c
      (fun _ _ _ _ => trivial) (kept_session fun _ _ _ _ => trivial)
    exact ⟨b, hb, htold⟩
  · obtain ⟨hkept, -⟩ := @kept_session wire (fun _ _ => True) p0 calls fun _ _ _ _ => trivial
    exact hkept.unarmed (by simpa [armed] using harmed)
  · obtain ⟨-, htrail⟩ := @kept_session wire (fun own bssid => Call.arm own bssid ∈ calls) p0 calls
      fun _ _ h _ => h
    rcases htrail with ⟨hnil, -⟩ | ⟨h0, -, hall⟩
    · exact absurd hnil hseen
    · rcases List.mem_cons.mp hp with rfl | hp
      · exact .inl h0
      · exact hall p hp honest

/-- A bus that loses one access, and reports this of it. -/
def losing (lost : ℕ) (report : Report) (n : ℕ) : Fate :=
  if n = lost then { lands := false, report } else { lands := true, report := .success }

/-- A port as a bring-up leaves it. -/
def freshPort : Port0 :=
  { msr := 0x10, macid_lo := 0x33221100, macid_hi := 0x5544, bssid_lo := 0, bssid_hi := 0 }

def demoOwn : Octets 6 := ⟨[0x02, 1, 2, 3, 4, 5], rfl⟩

def demoBssid : Octets 6 := ⟨[0x02, 6, 7, 8, 9, 10], rfl⟩

/-- A write of an arm is lost. Where the bus calls it done, the arm finds out and puts the port
back; where the bus tells, no state on the way is half an address. -/
theorem a_lost_write_is_told :
    (answer (losing 8 .success) (session (losing 8 .success) freshPort [])
        (.arm demoOwn demoBssid)).1 = .ok false ∧
      (session (losing 8 .success) freshPort [.arm demoOwn demoBssid]).bus.port.Same freshPort ∧
      ∀ p ∈ (session (losing 8 .failure) freshPort [.arm demoOwn demoBssid]).states freshPort,
        p.net_type = 0 ∨ ∃ own bssid, Call.arm own bssid ∈ [Call.arm demoOwn demoBssid] ∧
          Paired own bssid p := by
  obtain ⟨-, hback, -⟩ := the_port_is_as_told (losing 8 .success) freshPort
    [.arm demoOwn demoBssid]
  obtain ⟨-, -, hsafe⟩ := the_port_is_as_told (losing 8 .failure) freshPort
    [.arm demoOwn demoBssid]
  refine ⟨by decide +kernel, hback (by decide +kernel), hsafe ?_ (by decide +kernel)⟩
  intro n
  unfold losing
  split
  · exact nofun
  · exact fun _ => rfl

end StationArm

end devourer
