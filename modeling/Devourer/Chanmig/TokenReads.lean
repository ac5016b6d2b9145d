-- The text of a channel reads back as the channel, if its offset is filled in.
import Devourer.Chanmig.ChannelBins
import Devourer.Chanmig.SurveyJsonl
import Mathlib.Data.List.TakeWhile

namespace devourer.chanmig

open ChannelDef ChannelWidth_t FlatJson

/-! ## The channel token -/

theorem split_at_absent {c : Char} {t : List Char} (h : ∀ d ∈ t, d ≠ c) :
    split_at c t = (t, none) := by
  have hdrop : t.dropWhile (· != c) = [] := by
    rw [List.dropWhile_eq_nil_iff]
    intro d hd
    simpa using h d hd
  unfold split_at
  rw [hdrop]

theorem split_at_first {c : Char} {s : List Char} (t : List Char) (h : ∀ d ∈ s, d ≠ c) :
    split_at c (s ++ c :: t) = (s, some t) := by
  have hall : ∀ d ∈ s, (d != c) = true := fun d hd => by simpa using h d hd
  unfold split_at
  rw [List.dropWhile_append_of_pos hall, List.takeWhile_append_of_pos hall,
    List.dropWhile_cons_of_neg (by simp), List.takeWhile_cons_of_neg (by simp), List.append_nil]

theorem decimal_natCast (n : ℕ) : decimal n = Nat.toDigits 10 n := by
  unfold decimal
  rw [if_neg (by omega)]
  rfl

theorem decimal_ne {n : ℕ} {c : Char} (hc : c.isDigit = false) : ∀ d ∈ decimal n, d ≠ c := by
  intro d hd
  rw [decimal_natCast] at hd
  exact digit_ne ((isDigits_toDigits n).2 d hd) hc

/-- The widths of a candidate. -/
def Candidate (w : ChannelWidth_t) : Prop :=
  w = CHANNEL_WIDTH_20 ∨ w = CHANNEL_WIDTH_5 ∨ w = CHANNEL_WIDTH_10 ∨ w = CHANNEL_WIDTH_40 ∨
    w = CHANNEL_WIDTH_80

/-- The offset that the token of a channel has: a pair that is not up is down. -/
def token_offset (d : ChannelDef) : UInt8 :=
  if d.width = CHANNEL_WIDTH_40 then (if d.offset = 1 then 1 else 2) else 0

/-- The width of the token, with the side of a pair. -/
def token_width (d : ChannelDef) : List Char :=
  width_name d.width ++
    if d.width = CHANNEL_WIDTH_40 then (if d.offset = 1 then "u".toList else "l".toList) else []

theorem parse_token_width {d : ChannelDef} (hw : Candidate d.width) :
    parse_width {} (some (token_width d)) =
        .ok { width := d.width, offset := token_offset d } ∧
      ∀ c ∈ token_width d, c ≠ ':' := by
  unfold token_width token_offset
  rcases hw with hw | hw | hw | hw | hw
  · rw [hw, if_neg (by decide), if_neg (by decide)]
    exact ⟨rfl, forall_chars (by decide)⟩
  · rw [hw, if_neg (by decide), if_neg (by decide)]
    exact ⟨rfl, forall_chars (by decide)⟩
  · rw [hw, if_neg (by decide), if_neg (by decide)]
    exact ⟨rfl, forall_chars (by decide)⟩
  · rw [hw]
    by_cases ho : d.offset = 1
    · rw [if_pos rfl, if_pos ho, if_pos rfl, if_pos ho]
      exact ⟨rfl, forall_chars (by decide)⟩
    · rw [if_pos rfl, if_neg ho, if_pos rfl, if_neg ho]
      exact ⟨rfl, forall_chars (by decide)⟩
  · rw [hw, if_neg (by decide), if_neg (by decide)]
    exact ⟨rfl, forall_chars (by decide)⟩

/-- The band, by its prefix. -/
theorem band_prefix_format {b : UInt8} (hb : b = 2 ∨ b = 5) (t : List Char) :
    band_prefix (decimal b.toNat ++ ':' :: t) = (b, t) := by
  rcases hb with rfl | rfl
  · rfl
  · rfl

/-- The number behind it stands in its band. -/
theorem parse_primary_format {d e : ChannelDef} (hin : d.InBand) :
    parse_primary d.band (decimal d.primary.toNat) e =
      match normalize { e with primary := d.primary, band := d.band } with
      | .error why => .error (def_error_name why)
      | .ok c => .ok c := by
  have hread : strtol (decimal d.primary.toNat) = ((d.primary.toNat : ℤ), []) := by
    have h := @strtol_decimal (d.primary.toNat : ℤ) [] nofun
    rwa [List.append_nil] at h
  have hne : decimal d.primary.toNat ≠ [] := number_ne_nil (.ofInt d.primary.toNat)
  have hrange : 1 ≤ d.primary.toNat ∧ d.primary.toNat ≤ 253 ∧
      (if (d.primary.toNat : ℤ) ≤ 14 then (2 : UInt8) else 5) = d.band := by
    rcases hin with ⟨hb, h1, h14⟩ | ⟨hb, h16, h253⟩
    · have h1' : 1 ≤ d.primary.toNat := UInt8.le_iff_toNat_le.mp h1
      have h14' : d.primary.toNat ≤ 14 := UInt8.le_iff_toNat_le.mp h14
      exact ⟨h1', by omega, by rw [if_pos (by omega), hb]⟩
    · have h16' : 16 ≤ d.primary.toNat := UInt8.le_iff_toNat_le.mp h16
      have h253' : d.primary.toNat ≤ 253 := UInt8.le_iff_toNat_le.mp h253
      exact ⟨by omega, h253', by rw [if_neg (by omega), hb]⟩
  obtain ⟨hlo, hhi, hband⟩ := hrange
  have hprimary : UInt8.ofNat ((d.primary.toNat : ℤ)).toNat = d.primary := by simp
  unfold parse_primary
  rw [hread]
  dsimp only
  rewrite [if_neg (by simp [hne]; omega), hband, if_neg (by simp), hprimary]
  cases normalize { e with primary := d.primary, band := d.band } with
  | error why => rfl
  | ok c => rfl

/-- The token of a candidate parses as its channel with the offset of the token. -/
theorem parse_format {d : ChannelDef} (hin : d.InBand) (hw : Candidate d.width) :
    parse_chan_token d.format =
      match normalize { band := d.band, primary := d.primary, width := d.width,
                        offset := token_offset d } with
      | .error why => .error (def_error_name why)
      | .ok c => .ok c := by
  obtain ⟨hwidth, hcolon⟩ := parse_token_width hw
  have hformat : d.format = decimal d.band.toNat ++
      (':' :: (decimal d.primary.toNat ++ ('/' :: token_width d))) := rfl
  have hb : d.band = 2 ∨ d.band = 5 := by
    rcases hin with h | h
    · exact .inl h.1
    · exact .inr h.1
  have hflags : split_at ':' (decimal d.primary.toNat ++ ('/' :: token_width d)) =
      (decimal d.primary.toNat ++ ('/' :: token_width d), none) := by
    apply split_at_absent
    intro c hc
    rcases List.mem_append.mp hc with hc | hc
    · exact decimal_ne (by decide) c hc
    · rcases List.mem_cons.mp hc with rfl | hc
      · decide
      · exact hcolon c hc
  have hslash : split_at '/' (decimal d.primary.toNat ++ ('/' :: token_width d)) =
      (decimal d.primary.toNat, some (token_width d)) :=
    split_at_first _ (decimal_ne (by decide))
  have hall := parse_primary_format (d := d)
    (e := { width := d.width, offset := token_offset d }) hin
  unfold parse_chan_token
  rw [hformat, band_prefix_format hb]
  dsimp only
  rw [hflags, hslash]
  have hnone : List.foldlM flag ({} : ChannelDef) ((none : Option (List Char)).getD []) = .ok {} :=
    rfl
  rw [hnone, ← hall]
  have hok : ∀ (x : ChannelDef) (f : ChannelDef → Except String ChannelDef),
      ((Except.ok x : Except String ChannelDef) >>= f) = f x := fun _ _ => rfl
  rw [hok, hwidth, hok]

/-- The channel without the flags, which the token leaves out. -/
def ChannelDef.rf (d : ChannelDef) : ChannelDef :=
  { band := d.band, primary := d.primary, width := d.width, offset := d.offset }

theorem onGrid_rf {d : ChannelDef} : d.rf.OnGrid ↔ d.OnGrid := by
  constructor
  · rintro (⟨hw, ho⟩ | ⟨hw, hb, hp, ho⟩ | ⟨hw, hb, hp, hn, ho⟩ | ⟨hw, hb, hr, h4, ho⟩ |
      ⟨hw, hb, hr, h4, ho⟩)
    · exact .single hw ho
    · exact .up hw hb hp ho
    · exact .down hw hb hp hn ho
    · exact .pair hw hb hr h4 ho
    · exact .quad hw hb hr h4 ho
  · rintro (⟨hw, ho⟩ | ⟨hw, hb, hp, ho⟩ | ⟨hw, hb, hp, hn, ho⟩ | ⟨hw, hb, hr, h4, ho⟩ |
      ⟨hw, hb, hr, h4, ho⟩)
    · exact .single hw ho
    · exact .up hw hb hp ho
    · exact .down hw hb hp hn ho
    · exact .pair hw hb hr h4 ho
    · exact .quad hw hb hr h4 ho

/-- The channel that a token leaves out nothing of but the offset of a block of four. -/
theorem normalize_token {d : ChannelDef} (hin : d.InBand) (h : d.OnGrid) :
    normalize { band := d.band, primary := d.primary, width := d.width,
                offset := token_offset d } = .ok d.rf := by
  have hself : normalize d.rf = .ok d.rf := normalize_of_onGrid hin (onGrid_rf.mpr h)
  have hsame : token_offset d = d.offset →
      normalize { band := d.band, primary := d.primary, width := d.width,
                  offset := token_offset d } = .ok d.rf := by
    intro ho
    rw [ho]
    exact hself
  cases h with
  | single hw ho =>
    apply hsame
    unfold token_offset
    rcases hw with hw | hw | hw
    all_goals simp [hw, ho]
  | up hw hb hp ho =>
    apply hsame
    simp [token_offset, hw, ho]
  | down hw hb hp hn ho =>
    apply hsame
    simp [token_offset, hw, ho]
  | pair hw hb hr h4 ho =>
    apply hsame
    unfold token_offset
    rw [if_pos hw, ho]
    split
    · rfl
    · rfl
  | quad hw hb hr h4 ho =>
    -- the offset is filled in again
    have hzero : token_offset d = 0 := by simp [token_offset, hw]
    have hquad : ({ band := d.band, primary := d.primary, width := d.width,
                    offset := UInt8.ofInt (d.rel % 16 / 4 + 1) } : ChannelDef) = d.rf := by
      unfold ChannelDef.rf
      rw [ho]
    have hband : ¬(d.band ≠ 2 ∧ d.band ≠ 5) := by
      unfold InBand at hin
      grind
    have h5 : ¬(d.band = 5 ∧ (d.primary < 16 ∨ d.primary > 253)) := by
      unfold InBand at hin
      grind
    unfold rel at hr h4 hquad
    unfold normalize
    simp only [if_neg hband, hb, false_and, if_false, if_neg h5, hw, hzero,
      if_neg (not_or.mpr ⟨not_lt.mpr hr, not_not.mpr h4⟩)]
    unfold fill_offset
    rw [if_pos rfl, ← hquad, hw]

/-- What is valid is in its band and of a width that a token has. -/
theorem valid_candidate {d : ChannelDef} (h : validate d = true) :
    d.InBand ∧ Candidate d.width := by
  unfold validate at h
  cases hn : normalize d with
  | error e =>
    rw [hn] at h
    cases h
  | ok c =>
    obtain ⟨hin, hgrid, o, rfl⟩ := normalize_onGrid hn
    refine ⟨hin, ?_⟩
    unfold Candidate
    cases hgrid with
    | single hw ho =>
      rcases hw with hw | hw | hw
      · exact .inl hw
      · exact .inr (.inl hw)
      · exact .inr (.inr (.inl hw))
    | up hw hb hp ho => exact .inr (.inr (.inr (.inl hw)))
    | down hw hb hp hn ho => exact .inr (.inr (.inr (.inl hw)))
    | pair hw hb hr h4 ho => exact .inr (.inr (.inr (.inl hw)))
    | quad hw hb hr h4 ho => exact .inr (.inr (.inr (.inr hw)))

/-- The offset is not left for the grid to fill in. -/
def OffsetSet (d : ChannelDef) : Prop :=
  d.width = CHANNEL_WIDTH_40 ∨ d.width = CHANNEL_WIDTH_80 → d.offset ≠ 0

theorem fill_offset_set {d c : ChannelDef} {o : UInt8} (ho : d.offset ≠ 0)
    (h : fill_offset d o = .ok c) : c = d := by
  unfold fill_offset at h
  rw [if_neg ho] at h
  split at h
  · exact (Except.ok.inj h).symm
  · cases h

theorem normalize40_2g_set {d c : ChannelDef} (ho : d.offset ≠ 0)
    (h : normalize40_2g d = .ok c) : c = d := by
  unfold normalize40_2g at h
  simp only [if_neg ho] at h
  split_ifs at h
  all_goals exact (Except.ok.inj h).symm

/-- A channel with its offset set is legal as it is or not at all. -/
theorem normalize_set {d c : ChannelDef} (hset : OffsetSet d) (h : normalize d = .ok c) :
    c = d := by
  have hsingle : (if d.offset ≠ 0 then Except.error DefError.BadOffset else .ok d) = .ok c →
      c = d := by
    intro h
    split at h
    · cases h
    · exact (Except.ok.inj h).symm
  unfold normalize at h
  split at h
  · cases h
  split at h
  · cases h
  split at h
  · cases h
  dsimp only at h
  split at h
  · exact hsingle h
  · exact hsingle h
  · exact hsingle h
  · next hw =>
    split at h
    · exact normalize40_2g_set (hset (.inl hw)) h
    split at h
    · cases h
    · exact fill_offset_set (hset (.inl hw)) h
  · next hw =>
    split at h
    · cases h
    split at h
    · cases h
    · exact fill_offset_set (hset (.inr hw)) h
  · cases h

theorem onGrid_set {d : ChannelDef} (h : d.OnGrid) : OffsetSet d := by
  intro hwidth
  cases h with
  | single hw ho =>
    rcases hw with hw | hw | hw
    all_goals simp [hw] at hwidth
  | up hw hb hp ho => simp [ho]
  | down hw hb hp hn ho => simp [ho]
  | pair hw hb hr h4 ho =>
    rw [ho]
    split
    · decide
    · decide
  | quad hw hb hr h4 ho =>
    rw [ho]
    have hpos : d.rel % 16 / 4 + 1 = 1 ∨ d.rel % 16 / 4 + 1 = 2 ∨ d.rel % 16 / 4 + 1 = 3 ∨
        d.rel % 16 / 4 + 1 = 4 := by omega
    rcases hpos with hpos | hpos | hpos | hpos
    all_goals
      rw [hpos]
      decide

/-- The token of a valid channel reads back as the channel if its offset is set, and only then. -/
theorem format_reads_back {d : ChannelDef} (h : validate d = true) :
    parse_chan_token d.format = .ok d.rf ↔ OffsetSet d := by
  obtain ⟨hin, hw⟩ := valid_candidate h
  constructor
  · intro hparse
    obtain ⟨e, he⟩ := parse_chan_token_normalized hparse
    obtain ⟨hin', hgrid, -⟩ := normalize_onGrid he
    exact onGrid_set (onGrid_rf.mp hgrid)
  · intro hset
    unfold validate at h
    cases hn : normalize d with
    | error e =>
      rw [hn] at h
      cases h
    | ok c =>
      obtain ⟨-, hgrid, -⟩ := normalize_onGrid hn
      rw [normalize_set hset hn] at hgrid
      rw [parse_format hin hw, normalize_token hin hgrid]

/-! ## The characters of the token -/

theorem digit_printable {c : Char} (h : c.isDigit = true) : ' ' ≤ c := by
  rw [← isdigit_eq] at h
  simp only [isdigit, Bool.and_eq_true, decide_eq_true_eq] at h
  have h0 : ' ' ≤ '0' := by decide
  exact Char.le_trans h0 h.1

theorem plain_format (d : ChannelDef) : ∀ c ∈ d.format, ' ' ≤ c := by
  have hdecimal : ∀ (n : ℕ), ∀ c ∈ decimal n, ' ' ≤ c := by
    intro n c hc
    rw [decimal_natCast] at hc
    exact digit_printable ((isDigits_toDigits n).2 c hc)
  have hname : ∀ c ∈ width_name d.width, ' ' ≤ c := by
    cases d.width with
    | other v h =>
      have hmark : Printable "?".toList := by decide
      exact hmark
    | _ => exact forall_chars (by decide)
  have hside : ∀ c ∈ (if d.width = CHANNEL_WIDTH_40 then
      (if d.offset = 1 then "u".toList else "l".toList) else []), ' ' ≤ c := by
    split
    · split
      · exact forall_chars (by decide)
      · exact forall_chars (by decide)
    · exact forall_chars (by decide)
  intro c hc
  rcases List.mem_append.mp hc with hc | hc
  · exact hdecimal _ c hc
  rcases List.mem_cons.mp hc with rfl | hc
  · decide
  rcases List.mem_append.mp hc with hc | hc
  · exact hdecimal _ c hc
  rcases List.mem_cons.mp hc with rfl | hc
  · decide
  rcases List.mem_append.mp hc with hc | hc
  · exact hname c hc
  · exact hside c hc

/-- The token fits in the 20 bytes of the caller. -/
theorem length_format (d : ChannelDef) : d.format.length < 20 := by
  have hdecimal : ∀ (v : UInt8), (decimal v.toNat).length ≤ 4 := by
    intro v
    have := v.toNat_lt
    exact length_decimal_le (by decide) (by omega)
  have hname : (width_name d.width).length ≤ 5 := by
    cases d.width with
    | other v h =>
      have hmark : "?".toList.length ≤ 5 := by decide
      exact hmark
    | _ => decide
  have hside : (if d.width = CHANNEL_WIDTH_40 then
      (if d.offset = 1 then "u".toList else "l".toList) else []).length ≤ 1 := by
    split
    · split
      · decide
      · decide
    · decide
  have hband := hdecimal d.band
  have hprimary := hdecimal d.primary
  unfold format
  simp only [List.length_append, List.length_cons]
  omega

end devourer.chanmig
