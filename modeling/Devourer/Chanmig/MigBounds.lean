-- Where the decoder of the migration messages reads. The fields are read
-- before the end of the buffer is looked at, so a frame that is cut short
-- in its fields is read past its end.
import Devourer.Chanmig.MigWire
import Devourer.Lib.Fetch

namespace devourer.chanmig

open Wire

/-! ## The decoder with every read checked -/

/-- `mig_decode`, read for read, without a result once a read is past the end of the buffer. -/
def mig_decode_checked (p : Bytes) (key : MigKey) (expect_link : UInt32) (out : MigMsg) :
    Option (MigReason × MigMsg) :=
  if p.length < kMigHeader + kMigMacLen ∨ p.length > kMigMaxLen + 8 then some (.Truncated, out)
  else do
    let (magic, o) ← checked wire.g16 p 0
    if magic ≠ kMigMagic then return (.BadType, out)
    else
      let (version, o) ← checked wire.g8 p o
      if version ≠ kMigVersion then return (.BadVersion, out)
      else
        let (type, o) ← checked wire.g8 p o
        let (link, o) ← checked wire.g32 p o
        match MigMsgType.ofUInt8 type with
        | none => return (.BadType, out)
        | some type =>
          if expect_link ≠ 0 ∧ link ≠ expect_link then return (.BadLinkId, out)
          else
            let (out, o) ← checked (mig_read { type, link_id := link }) p o
            if o + kMigMacLen > p.length then return (.Truncated, out)
            else
              let want := key.mac (← first p o)
              let (got, _) ← checked wire.g64 p o
              if want ≠ got then return (.BadMac, out) else return (.None, out)

/-! ## How far each reader moves -/

namespace wire

theorem moves_g8 : Moves g8 1 := (moves_word 8 1).map _
theorem moves_g16 : Moves g16 2 := (moves_word 16 2).map _
theorem moves_g32 : Moves g32 4 := (moves_word 32 4).map _
theorem moves_g64 : Moves g64 8 := (moves_word 64 8).map _

theorem moves_gdef : Moves gdef 6 := by
  show Moves gdef [1, 1, 1, 1, 1, 1].sum
  refine .cons moves_g8 fun _ => ?_
  refine .cons moves_g8 fun _ => ?_
  refine .cons moves_g8 fun _ => ?_
  refine .cons moves_g8 fun _ => ?_
  refine .cons moves_g8 fun _ => ?_
  refine .cons moves_g8 fun _ => ?_
  exact .nil _

/-- One byte read is the byte. -/
theorem g8_byte {p : Bytes} {o : Nat} {b : UInt8} (h : p[o]? = some b) : g8 p o = (b, o + 1) := by
  obtain ⟨hlt, rfl⟩ := List.getElem?_eq_some_iff.mp h
  refine Prod.ext ?_ rfl
  show UInt8.ofBitVec (getLe 8 1 fun i => byteAt p (o + i)) = p[o]
  simp [getLe, byteAt, h]

end wire

/-- The lengths of the fields of a type. -/
def mig_widths (t : MigMsgType) : List Nat := (mig_fields { type := t }).map List.length

theorem moves_read (out : MigMsg) : Moves (mig_read out) (mig_widths out.type).sum := by
  unfold mig_read mig_widths mig_fields
  rcases out.type with _ | _ | _ | _ | _ | _ | _
  all_goals
    simp only [List.map_cons, List.map_nil, wire.length_p8, wire.length_p16, wire.length_p32,
      wire.length_p64, wire.length_pdef]
    with_reducible
      repeat
        apply Moves.cons
        · first
            | exact wire.moves_g8
            | exact wire.moves_g16
            | exact wire.moves_g32
            | exact wire.moves_g64
            | exact wire.moves_gdef
        intro _
      exact .nil _

/-- A message is as long as the fields of its type are. -/
theorem length_encode_type (m : MigMsg) (key : MigKey) :
    (mig_encode m key).length = kMigHeader + (mig_widths m.type).sum + kMigMacLen := by
  rw [length_encode]
  unfold mig_widths mig_fields
  rcases m.type with _ | _ | _ | _ | _ | _ | _
  all_goals simp

/-! ## The decoder stays inside -/

/-- The size that the decoder looks at. -/
def Sized (p : Bytes) : Prop :=
  kMigHeader + kMigMacLen ≤ p.length ∧ p.length ≤ kMigMaxLen + 8

/-- The type that byte 3 names. -/
def named_type (p : Bytes) : Option MigMsgType := p[3]?.bind MigMsgType.ofUInt8

/-- The header is one of this protocol and of the link. -/
structure Addressed (p : Bytes) (expect_link : UInt32) : Prop where
  magic : (wire.g16 p 0).1 = kMigMagic
  version : (wire.g8 p 2).1 = kMigVersion
  link : expect_link = 0 ∨ (wire.g32 p 4).1 = expect_link

variable {p : Bytes} {key : MigKey} {expect_link : UInt32} {out : MigMsg}

theorem unsized_iff : ¬ Sized p ↔
    p.length < kMigHeader + kMigMacLen ∨ p.length > kMigMaxLen + 8 := by
  unfold Sized
  omega

variable (key out)

/-- A frame whose size is refused is not read. -/
theorem decode_unsized (expect_link : UInt32) (h : ¬ Sized p) :
    mig_decode p key expect_link out = (.Truncated, out) ∧
      mig_decode_checked p key expect_link out = some (.Truncated, out) := by
  have h := unsized_iff.mp h
  exact ⟨if_pos h, if_pos h⟩

/-- What the header reads give, with and without a check. -/
theorem header_reads (h : Sized p) : ∃ magic version type link,
    wire.g16 p 0 = (magic, 2) ∧ wire.g8 p 2 = (version, 3) ∧ wire.g8 p 3 = (type, 4) ∧
    wire.g32 p 4 = (link, 8) ∧
    checked wire.g16 p 0 = some (magic, 2) ∧ checked wire.g8 p 2 = some (version, 3) ∧
    checked wire.g8 p 3 = some (type, 4) ∧ checked wire.g32 p 4 = some (link, 8) ∧
    named_type p = MigMsgType.ofUInt8 type := by
  have hlen : 16 ≤ p.length := h.1
  obtain ⟨magic, hmagic⟩ := wire.moves_g16.eq p 0
  obtain ⟨version, hversion⟩ := wire.moves_g8.eq p 2
  obtain ⟨link, hlink⟩ := wire.moves_g32.eq p 4
  have htype := wire.g8_byte (List.getElem?_eq_getElem (l := p) (i := 3) (by omega))
  refine ⟨magic, version, p[3], link, hmagic, hversion, htype, hlink, ?_, ?_, ?_, ?_, ?_⟩
  · rw [checked_inside wire.moves_g16 (by omega), hmagic]
  · rw [checked_inside wire.moves_g8 (by omega), hversion]
  · rw [checked_inside wire.moves_g8 (by omega), htype]
  · rw [checked_inside wire.moves_g32 (by omega), hlink]
  · unfold named_type
    rw [List.getElem?_eq_getElem (by omega)]
    rfl

/-- A refused header: only the header has been read, and the frame is not called truncated. -/
theorem decode_refused (hs : Sized p) (h : ¬ (Addressed p expect_link ∧ (named_type p).isSome)) :
    mig_decode_checked p key expect_link out = some (mig_decode p key expect_link out) ∧
      (mig_decode p key expect_link out).1 ≠ .Truncated := by
  obtain ⟨magic, version, type, link, h1, h2, h3, h4, c1, c2, c3, c4, hn⟩ := header_reads hs
  have hsize := mt unsized_iff.mpr (not_not.mpr hs)
  unfold mig_decode mig_decode_checked
  rw [if_neg hsize, if_neg hsize]
  simp only [h1, h2, h3, h4, c1, c2, c3, c4, Option.bind_eq_bind, Option.bind_some]
  by_cases hmagic : magic ≠ kMigMagic
  · simp only [if_pos hmagic]
    exact ⟨rfl, by simp⟩
  · simp only [if_neg hmagic]
    by_cases hversion : version ≠ kMigVersion
    · simp only [if_pos hversion]
      exact ⟨rfl, by simp⟩
    · simp only [if_neg hversion]
      rcases ht : MigMsgType.ofUInt8 type with _ | t
      · exact ⟨rfl, by simp⟩
      · by_cases hlink : expect_link ≠ 0 ∧ link ≠ expect_link
        · simp only [if_pos hlink]
          exact ⟨rfl, by simp⟩
        · refine absurd ⟨⟨?_, ?_, ?_⟩, ?_⟩ h
          · rw [h1]
            exact not_not.mp hmagic
          · rw [h2]
            exact not_not.mp hversion
          · rw [h4]
            tauto
          · rw [hn, ht]
            rfl

/-- An accepted header: the fields are read, whole or not, and then the end is looked at. -/
theorem decode_accepted (hs : Sized p) (h : Addressed p expect_link) {t : MigMsgType}
    (ht : named_type p = some t) :
    (kMigHeader + (mig_widths t).sum ≤ p.length →
      mig_decode_checked p key expect_link out = some (mig_decode p key expect_link out)) ∧
    (p.length < kMigHeader + (mig_widths t).sum →
      mig_decode_checked p key expect_link out = none) ∧
    (p.length < kMigHeader + (mig_widths t).sum + kMigMacLen →
      (mig_decode p key expect_link out).1 = .Truncated) := by
  obtain ⟨magic, version, type, link, h1, h2, h3, h4, c1, c2, c3, c4, hn⟩ := header_reads hs
  have hsize := mt unsized_iff.mpr (not_not.mpr hs)
  have hmagic : magic = kMigMagic := by simpa only [h1] using h.magic
  have hversion : version = kMigVersion := by simpa only [h2] using h.version
  have hlink : ¬ (expect_link ≠ 0 ∧ link ≠ expect_link) := by
    have := h.link
    rw [h4] at this
    tauto
  have hread := moves_read { type := t, link_id := link }
  obtain ⟨m, hm⟩ := hread.eq p 8
  unfold mig_decode mig_decode_checked
  rw [if_neg hsize, if_neg hsize]
  simp only [h1, h2, h3, h4, c1, c2, c3, c4, Option.bind_eq_bind, Option.bind_some, hmagic,
    hversion, ne_eq, not_true_eq_false, if_false, ← hn, ht, hm]
  rw [if_neg hlink, if_neg hlink]
  simp only [kMigHeader]
  refine ⟨?_, ?_, ?_⟩
  · intro hfit
    rw [checked_inside hread hfit, hm]
    simp only [Option.bind_some]
    by_cases hmac : 8 + (mig_widths t).sum + kMigMacLen > p.length
    · rw [if_pos hmac, if_pos hmac]
      rfl
    · obtain ⟨got, hgot⟩ := wire.moves_g64.eq p (8 + (mig_widths t).sum)
      rw [if_neg hmac, if_neg hmac, first_eq hfit,
        checked_inside wire.moves_g64 (Nat.le_of_not_lt hmac), hgot]
      simp only [Option.bind_some]
      split <;> rfl
  · intro hshort
    rw [checked_past hread hshort]
    rfl
  · intro hshort
    rw [if_pos hshort]

/-- A frame on which the decoder does not go wrong: one of a size that it does not read, one that
names no type, a whole one, and one with a good header and all of its fields, of which only the
MAC is cut short. -/
def Whole (p : Bytes) (expect_link : UInt32) : Prop :=
  ¬ Sized p ∨ ∀ t, named_type p = some t →
    kMigHeader + (mig_widths t).sum + kMigMacLen ≤ p.length ∨
      Addressed p expect_link ∧ kMigHeader + (mig_widths t).sum ≤ p.length

theorem named_type_iff {t : MigMsgType} : named_type p = some t ↔ p[3]? = some t.toUInt8 := by
  unfold named_type
  rw [Option.bind_eq_some_iff]
  constructor
  · rintro ⟨b, hb, ht⟩
    rw [hb, MigMsgType.toUInt8_ofUInt8 ht]
  · intro h
    exact ⟨_, h, MigMsgType.ofUInt8_toUInt8 t⟩

/-- No read is past the end, and every frame that is shorter than an encoding of the type it names
is called truncated, exactly if the fields are all there before the decoder reads them. -/
theorem reads_stay_inside_whole_frames (p : Bytes) (key : MigKey) (expect_link : UInt32)
    (out : MigMsg) :
    (mig_decode_checked p key expect_link out = some (mig_decode p key expect_link out) ∧
      ∀ m : MigMsg, p[3]? = some m.type.toUInt8 → p.length < (mig_encode m key).length →
        (mig_decode p key expect_link out).1 = .Truncated) ↔
      Whole p expect_link := by
  simp only [← named_type_iff, length_encode_type]
  by_cases hs : Sized p
  · constructor
    · rintro ⟨hinside, hshort⟩
      right
      intro t ht
      by_contra hno
      obtain ⟨hcut, hnot⟩ := not_or.mp hno
      have htrunc := hshort { type := t } ht (Nat.lt_of_not_le hcut)
      by_cases haddr : Addressed p expect_link
      · -- the fields are read past the end
        have hfields := Nat.lt_of_not_le fun hle => hnot ⟨haddr, hle⟩
        rw [(decode_accepted key out hs haddr ht).2.1 hfields] at hinside
        exact absurd hinside (by simp)
      · exact (decode_refused key out hs fun hc => haddr hc.1).2 htrunc
    · intro hwhole
      have hwhole := hwhole.resolve_left (not_not.mpr hs)
      by_cases hacc : Addressed p expect_link ∧ (named_type p).isSome
      · obtain ⟨t, ht⟩ := Option.isSome_iff_exists.mp hacc.2
        obtain ⟨hfit, _, hmac⟩ := decode_accepted key out hs hacc.1 ht
        refine ⟨hfit ?_, ?_⟩
        · rcases hwhole t ht with h | h
          · omega
          · exact h.2
        · intro m hm hlt
          have : m.type = t := Option.some.inj (hm.symm.trans ht)
          exact hmac (this ▸ hlt)
      · obtain ⟨hin, _⟩ := decode_refused key out hs hacc
        refine ⟨hin, ?_⟩
        intro m hm hlt
        rcases hwhole m.type hm with h | h
        · omega
        · exact absurd ⟨h.1, by rw [hm]; rfl⟩ hacc
  · obtain ⟨hd, hc⟩ := decode_unsized key out expect_link hs
    rw [hd, hc]
    exact ⟨fun _ => .inl hs, fun _ => ⟨rfl, fun _ _ _ => rfl⟩⟩

/-- The header of a proposal and eight bytes more, which is as short as a frame may be. -/
def demoCut : Bytes := (mig_header .MT_PROPOSAL 0xC1).flatten ++ List.replicate 8 0

/-- The decoder reads past the end of it. -/
theorem a_cut_proposal_is_read_past_its_end :
    mig_decode_checked demoCut ⟨Octets.zero 16⟩ 0xC1 {} = none ∧ ¬ Whole demoCut 0xC1 := by
  have hnone : mig_decode_checked demoCut ⟨Octets.zero 16⟩ 0xC1 {} = none := by decide +kernel
  refine ⟨hnone, ?_⟩
  intro h
  have := ((reads_stay_inside_whole_frames demoCut ⟨Octets.zero 16⟩ 0xC1 {}).mpr h).1
  rw [hnone] at this
  cases this

end devourer.chanmig
