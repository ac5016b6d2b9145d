-- The grammar of the scan plan, token by token, against what the parser reads.
import Devourer.Chanmig.JsonlReads
import Devourer.Chanmig.TokenReads

namespace devourer.chanmig

open ChannelDef ChannelWidth_t FlatJson

/-! ## Tokens -/

/-- Which side the secondary of a pair is on. -/
inductive Side
  | u
  | l

/-- A token `[<band>:]<primary>[/<width>[u|l]][:<flags>]` of the documented grammar. -/
structure PlanToken where
  band : Option UInt8
  primary : List Char
  width : Option (ChannelWidth_t × Option Side)
  flags : Option (List Char)
  band_in : ∀ b ∈ band, b = 2 ∨ b = 5
  digits : IsDigits primary
  primary_in : 1 ≤ digits_value primary ∧ digits_value primary ≤ 253
  width_in : ∀ w ∈ width, Candidate w.1
  flags_in : ∀ fs ∈ flags, ∀ c ∈ fs, c = 'b' ∨ c = 'p' ∨ c = 'd'

def side_text : Option Side → List Char
  | none => []
  | some .u => ['u']
  | some .l => ['l']

/-- The offset that a side stands for. -/
def side_offset : Option Side → UInt8
  | none => 0
  | some .u => 1
  | some .l => 2

namespace PlanToken

variable (t : PlanToken)

def band_text : List Char :=
  match t.band with
  | none => []
  | some b => decimal b.toNat ++ [':']

def width_text : List Char :=
  match t.width with
  | none => []
  | some w => '/' :: (width_name w.1 ++ side_text w.2)

def flags_text : List Char :=
  match t.flags with
  | none => []
  | some fs => ':' :: fs

def text : List Char := t.band_text ++ (t.primary ++ (t.width_text ++ t.flags_text))

/-! ## Meaning -/

def side : Option Side := t.width.bind (·.2)

def flagged (c : Char) : Bool := decide (c ∈ t.flags.getD [])

/-- The channel that a token describes. The primary fixes the band. -/
def channel : ChannelDef :=
  { band := if digits_value t.primary ≤ 14 then 2 else 5
    primary := UInt8.ofNat (digits_value t.primary)
    width := (t.width.map (·.1)).getD CHANNEL_WIDTH_20
    offset := side_offset t.side
    no_ir := t.flagged 'p'
    dfs := t.flagged 'd'
    backup := t.flagged 'b' }

/-- What the parser should return: the channel as `normalize` has it. Only a pair has a side, and a
prefix has to name the band of the primary. -/
def meaning : Option ChannelDef :=
  if t.side.isSome ∧ t.channel.width ≠ CHANNEL_WIDTH_40 then none
  else if t.band.all (· == t.channel.band) then (normalize t.channel).toOption
  else none

/-- Channel 2 or 5 with flags and nothing between: it reads as the prefix of a band. -/
def Shadowed : Prop :=
  t.band = none ∧ (t.primary = ['2'] ∨ t.primary = ['5']) ∧ t.width = none ∧ t.flags ≠ none

end PlanToken

/-! ## The parts of a token -/

theorem width_chars {w : ChannelWidth_t} (hw : Candidate w) (side : Option Side) :
    ∀ c ∈ width_name w ++ side_text side, c ≠ ':' := by
  rcases hw with rfl | rfl | rfl | rfl | rfl
  all_goals
    rcases side with _ | _ | _
    all_goals exact forall_chars (by decide)

/-- A width is read with its side, which only a pair may have. -/
theorem parse_width_text (d : ChannelDef) {w : ChannelWidth_t} (hw : Candidate w)
    (side : Option Side) : parse_width d (some (width_name w ++ side_text side)) =
      if side.isSome ∧ w ≠ CHANNEL_WIDTH_40 then .error "u/l suffix is 40 MHz-only"
      else .ok { d with width := w, offset := side_offset side } := by
  rcases hw with rfl | rfl | rfl | rfl | rfl
  all_goals
    rcases side with _ | _ | _
    all_goals rfl

theorem foldlM_flags {fs : List Char} (h : ∀ c ∈ fs, c = 'b' ∨ c = 'p' ∨ c = 'd')
    (d : ChannelDef) : fs.foldlM flag d = .ok { d with
      no_ir := d.no_ir || decide ('p' ∈ fs)
      dfs := d.dfs || decide ('d' ∈ fs)
      backup := d.backup || decide ('b' ∈ fs) } := by
  induction fs generalizing d with
  | nil => simp [pure, Except.pure]
  | cons c fs ih =>
    have hrest : ∀ c ∈ fs, c = 'b' ∨ c = 'p' ∨ c = 'd' :=
      fun c hc => h c (List.mem_cons_of_mem _ hc)
    rw [List.foldlM_cons]
    rcases h c List.mem_cons_self with rfl | rfl | rfl
    · exact (ih hrest { d with backup := true }).trans (by simp)
    · exact (ih hrest { d with no_ir := true }).trans (by simp)
    · exact (ih hrest { d with dfs := true }).trans (by simp)

namespace PlanToken

variable {t : PlanToken}

theorem primary_ne {c : Char} (hc : c.isDigit = false) : ∀ d ∈ t.primary, d ≠ c :=
  fun _ hd => digit_ne (t.digits.2 _ hd) hc

theorem split_flags : split_at ':' (t.primary ++ (t.width_text ++ t.flags_text)) =
    (t.primary ++ t.width_text, t.flags) := by
  have hcolon : ∀ d ∈ t.primary ++ t.width_text, d ≠ ':' := by
    intro d hd
    rcases List.mem_append.mp hd with hd | hd
    · exact primary_ne rfl d hd
    · unfold width_text at hd
      split at hd
      · cases hd
      · rename_i w hw
        rcases List.mem_cons.mp hd with rfl | hd
        · decide
        · exact width_chars (t.width_in w hw) w.2 d hd
  rw [← List.append_assoc]
  unfold flags_text
  split
  · rename_i hflags
    rw [List.append_nil, split_at_absent hcolon, hflags]
  · rename_i fs hflags
    rw [split_at_first fs hcolon, hflags]

theorem split_width : split_at '/' (t.primary ++ t.width_text) =
    (t.primary, t.width.map fun w => width_name w.1 ++ side_text w.2) := by
  unfold width_text
  split
  · rename_i hwidth
    rw [List.append_nil, split_at_absent (primary_ne rfl), hwidth]
    rfl
  · rename_i w hwidth
    rw [split_at_first _ (primary_ne rfl), hwidth]
    rfl

/-- The flags of the token, on a channel of which nothing else is known. -/
def bare (t : PlanToken) : ChannelDef :=
  { no_ir := t.flagged 'p', dfs := t.flagged 'd', backup := t.flagged 'b' }

theorem read_flags : (t.flags.getD []).foldlM flag {} = .ok t.bare := by
  have hin : ∀ c ∈ t.flags.getD [], c = 'b' ∨ c = 'p' ∨ c = 'd' := by
    cases hflags : t.flags with
    | none => exact fun c hc => absurd hc List.not_mem_nil
    | some fs => exact t.flags_in fs hflags
  rw [foldlM_flags hin]
  simp [bare, flagged]

/-- The flags and the width of the token. -/
def wide (t : PlanToken) : ChannelDef :=
  { t.bare with
    width := (t.width.map (·.1)).getD CHANNEL_WIDTH_20
    offset := side_offset t.side }

theorem read_width : parse_width t.bare (t.width.map fun w => width_name w.1 ++ side_text w.2) =
    if t.side.isSome ∧ t.channel.width ≠ CHANNEL_WIDTH_40 then .error "u/l suffix is 40 MHz-only"
    else .ok t.wide := by
  unfold wide channel side
  cases hwidth : t.width with
  | none => rfl
  | some w => exact parse_width_text t.bare (t.width_in w hwidth) w.2

/-- The primary of the token, with a prefix or, for 0, without. -/
theorem read_primary (want_band : UInt8) : parse_primary want_band t.primary t.wide =
    if want_band ≠ 0 ∧ want_band ≠ t.channel.band then
      .error "band prefix contradicts the primary"
    else
      match normalize t.channel with
      | .error e => .error (def_error_name e)
      | .ok d => .ok d := by
  obtain ⟨hlow, hhigh⟩ := t.primary_in
  have hread := strtol_digits t.digits
  have hok : ¬ (t.primary = [] ∨ (strtol t.primary).2 ≠ [] ∨ (strtol t.primary).1 ≤ 0 ∨
      (strtol t.primary).1 > 253) := by
    rw [hread]
    rintro (h | h | h | h)
    · exact t.digits.1 h
    · exact h rfl
    · have : (digits_value t.primary : ℤ) ≤ 0 := h
      omega
    · have : (digits_value t.primary : ℤ) > 253 := h
      omega
  unfold parse_primary
  simp only [if_neg hok]
  rw [hread]
  have hband : (if (digits_value t.primary : ℤ) ≤ 14 then (2 : UInt8) else 5) = t.channel.band := by
    unfold channel
    simp
  simp only [hband]
  rfl

/-- Behind the prefix the token reads as it is meant. -/
theorem read_token {want_band : UInt8}
    (h : band_prefix t.text = (want_band, t.primary ++ (t.width_text ++ t.flags_text))) :
    (parse_chan_token t.text).toOption =
      if t.side.isSome ∧ t.channel.width ≠ CHANNEL_WIDTH_40 then none
      else if want_band = 0 ∨ want_band = t.channel.band then (normalize t.channel).toOption
      else none := by
  unfold parse_chan_token
  rw [h]
  dsimp only
  rw [split_flags, split_width, read_flags]
  change (parse_width t.bare _ >>= parse_primary want_band t.primary).toOption = _
  rw [read_width]
  split
  · rfl
  · change (parse_primary want_band t.primary t.wide).toOption = _
    rw [read_primary]
    by_cases hband : want_band = 0 ∨ want_band = t.channel.band
    · have hmatch : ¬ (want_band ≠ 0 ∧ want_band ≠ t.channel.band) := by
        rintro ⟨h0, hne⟩
        exact hband.elim h0 hne
      rw [if_pos hband, if_neg hmatch]
      cases normalize t.channel with
      | error e => rfl
      | ok d => rfl
    · rw [if_neg hband, if_pos (not_or.mp hband)]
      rfl

theorem band_prefix_named {b : UInt8} (hb : t.band = some b) :
    band_prefix t.text = (b, t.primary ++ (t.width_text ++ t.flags_text)) := by
  have htext : t.text = decimal b.toNat ++ ':' ::
      (t.primary ++ (t.width_text ++ t.flags_text)) := by
    unfold text band_text
    rw [hb, List.append_assoc]
    rfl
  rw [htext]
  exact band_prefix_format (t.band_in b hb) _

theorem band_prefix_none {s : List Char} (h : ∀ c rest, s = c :: ':' :: rest → c ≠ '2' ∧ c ≠ '5') :
    band_prefix s = (0, s) := by
  unfold band_prefix
  split
  · exact absurd rfl (h _ _ rfl).1
  · exact absurd rfl (h _ _ rfl).2
  · rfl

/-- What follows the primary does not start with a colon, unless flags follow with no width. -/
theorem band_prefix_bare (hb : t.band = none) (h : ¬ t.Shadowed) :
    band_prefix t.text = (0, t.primary ++ (t.width_text ++ t.flags_text)) := by
  have htext : t.text = t.primary ++ (t.width_text ++ t.flags_text) := by
    unfold text band_text
    rw [hb]
    rfl
  rw [htext]
  apply band_prefix_none
  intro c rest hsplit
  obtain ⟨c', cs, hprimary⟩ := List.exists_cons_of_ne_nil t.digits.1
  rw [hprimary, List.cons_append] at hsplit
  obtain ⟨rfl, hcs⟩ := List.cons.inj hsplit
  have halone : cs = [] := by
    cases cs with
    | nil => rfl
    | cons d ds =>
      obtain ⟨rfl, -⟩ := List.cons.inj hcs
      exact absurd rfl (primary_ne rfl ':' (by rw [hprimary]; simp))
  subst halone
  have hwidth : t.width = none := by
    cases hw : t.width with
    | none => rfl
    | some w =>
      rw [width_text, hw] at hcs
      exact absurd (List.cons.inj hcs).1 (by decide)
  have hflags : t.flags ≠ none := by
    intro hnone
    rw [width_text, hwidth, flags_text, hnone] at hcs
    cases hcs
  refine ⟨?_, ?_⟩
  · rintro rfl
    exact h ⟨hb, .inl hprimary, hwidth, hflags⟩
  · rintro rfl
    exact h ⟨hb, .inr hprimary, hwidth, hflags⟩

/-- A token that no prefix shadows is read as it is meant. -/
theorem meaning_of_not_shadowed (h : ¬ t.Shadowed) :
    (parse_chan_token t.text).toOption = t.meaning := by
  unfold meaning
  cases hb : t.band with
  | none =>
    rw [read_token (band_prefix_bare hb h)]
    simp
  | some b =>
    have hset : b ≠ 0 := by
      rcases t.band_in b hb with rfl | rfl
      · decide
      · decide
    rw [read_token (band_prefix_named hb)]
    simp [hset]

/-- Flags alone are no number. -/
theorem strtol_flags {fs : List Char} (h : ∀ c ∈ fs, c = 'b' ∨ c = 'p' ∨ c = 'd') :
    strtol fs = (0, fs) := by
  cases fs with
  | nil => rfl
  | cons c fs =>
    have hc := h c List.mem_cons_self
    rcases hc with rfl | rfl | rfl
    · rfl
    · rfl
    · rfl

/-- A shadowed token is refused, though it describes a channel of 2.4 GHz. -/
theorem refused_of_shadowed (h : t.Shadowed) :
    (parse_chan_token t.text).toOption = none ∧ t.meaning ≠ none := by
  obtain ⟨hb, hprimary, hwidth, hflags⟩ := h
  obtain ⟨fs, hfs⟩ := Option.ne_none_iff_exists'.mp hflags
  have hin := t.flags_in fs hfs
  have htext : t.text = t.primary ++ ':' :: fs := by
    unfold text band_text width_text flags_text
    rw [hb, hwidth, hfs]
    rfl
  have hprefix : ∃ b, band_prefix t.text = (b, fs) := by
    rw [htext]
    rcases hprimary with h2 | h5
    · exact ⟨2, by rw [h2]; rfl⟩
    · exact ⟨5, by rw [h5]; rfl⟩
  refine ⟨?_, ?_⟩
  · obtain ⟨b, hb⟩ := hprefix
    have hcolon : split_at ':' fs = (fs, none) := split_at_absent fun c hc => by
      rcases hin c hc with rfl | rfl | rfl
      all_goals decide
    have hslash : split_at '/' fs = (fs, none) := split_at_absent fun c hc => by
      rcases hin c hc with rfl | rfl | rfl
      all_goals decide
    unfold parse_chan_token
    rw [hb]
    dsimp only
    rw [hcolon, hslash]
    change (parse_primary b fs {}).toOption = none
    have hbad : fs = [] ∨ (strtol fs).2 ≠ [] ∨ (strtol fs).1 ≤ 0 ∨ (strtol fs).1 > 253 := by
      rw [strtol_flags hin]
      exact .inr (.inr (.inl le_rfl))
    unfold parse_primary
    simp only [if_pos hbad]
    rfl
  · unfold meaning side channel side
    rw [hb, hwidth]
    rcases hprimary with h2 | h5
    · simp [h2, digits_value, normalize, side_offset, Except.toOption]
    · simp [h5, digits_value, normalize, side_offset, Except.toOption]

theorem read_iff_not_shadowed : (parse_chan_token t.text).toOption = t.meaning ↔ ¬ t.Shadowed := by
  constructor
  · intro h hshadowed
    obtain ⟨hrefused, hmeant⟩ := refused_of_shadowed hshadowed
    exact hmeant (h.symm.trans hrefused)
  · exact meaning_of_not_shadowed

end PlanToken

/-! ## Plans -/

/-- The tokens of a plan that are not empty. -/
def tokens (text : List Char) : List (List Char) := (text.splitOn ',').filter (· ≠ [])

/-- A token is a candidate as it was parsed, or an error that names it. -/
def Judged (tok : List Char) : ChannelDef ⊕ PlanParseError → Prop
  | .inl d => parse_chan_token tok = .ok d
  | .inr e => e.token = tok

/-- The candidates and the errors are the verdicts on the tokens, in their order. -/
def PlanParse.Sorts (s : PlanParse) (toks : List (List Char)) : Prop :=
  ∃ verdicts, List.Forall₂ Judged toks verdicts ∧ s.out = verdicts.filterMap Sum.getLeft? ∧
    s.errors = verdicts.filterMap Sum.getRight?

theorem PlanParse.Sorts.candidate {s : PlanParse} {toks : List (List Char)} (h : s.Sorts toks)
    {tok : List Char} {d : ChannelDef} (hd : parse_chan_token tok = .ok d) :
    ({ s with out := s.out ++ [d] } : PlanParse).Sorts (toks ++ [tok]) := by
  obtain ⟨verdicts, hjudged, hout, herrors⟩ := h
  refine ⟨verdicts ++ [.inl d], ?_, ?_, ?_⟩
  · exact List.rel_append hjudged (.cons hd .nil)
  · rw [List.filterMap_append, ← hout]
    rfl
  · rw [List.filterMap_append, ← herrors]
    exact (List.append_nil _).symm

theorem PlanParse.Sorts.error {s : PlanParse} {toks : List (List Char)} (h : s.Sorts toks)
    (tok : List Char) (reason : String) :
    ({ s with errors := s.errors ++ [⟨tok, reason⟩] } : PlanParse).Sorts (toks ++ [tok]) := by
  obtain ⟨verdicts, hjudged, hout, herrors⟩ := h
  refine ⟨verdicts ++ [.inr ⟨tok, reason⟩], ?_, ?_, ?_⟩
  · exact List.rel_append hjudged (.cons rfl .nil)
  · rw [List.filterMap_append, ← hout]
    exact (List.append_nil _).symm
  · rw [List.filterMap_append, ← herrors]
    rfl

theorem parse_token_sorts {s : PlanParse} {toks : List (List Char)} (h : s.Sorts toks)
    (tok : List Char) : (parse_token s tok).Sorts (toks ++ [tok].filter (· ≠ [])) := by
  unfold parse_token
  by_cases hempty : tok = []
  · subst hempty
    simpa using h
  · have hkeep : [tok].filter (· ≠ []) = [tok] := by simp [hempty]
    rw [if_neg hempty, hkeep]
    cases hparse : parse_chan_token tok with
    | error err => exact h.error tok err
    | ok d =>
      dsimp only
      split
      · exact h.error tok _
      · split
        · exact h.error tok _
        · exact h.candidate hparse

theorem parse_tokens_sorts (toks : List (List Char)) :
    (toks.foldl parse_token {}).Sorts (toks.filter (· ≠ [])) := by
  induction toks using List.reverseRecOn with
  | nil => exact ⟨[], .nil, rfl, rfl⟩
  | append_singleton toks tok ih =>
    rw [List.foldl_append, List.filter_append]
    exact parse_token_sorts ih tok

/-- What a plan comes to: every token that is not empty is a candidate or an error, in order, and a
plan with no such token is an error of its own. -/
structure PlanRead (text : List Char) (ok : Bool) (s : PlanParse) : Prop where
  sorted : ∃ verdicts, List.Forall₂ Judged (tokens text) verdicts ∧
    s.out = verdicts.filterMap Sum.getLeft? ∧
    s.errors = verdicts.filterMap Sum.getRight? ++ if verdicts = []
      then [⟨[], "empty plan"⟩] else []
  sound : s.Sound
  verdict : ok = true ↔ s.errors = [] ∧ s.out ≠ []

theorem verdicts_eq_nil {s : PlanParse} {verdicts : List (ChannelDef ⊕ PlanParseError)}
    (hout : s.out = verdicts.filterMap Sum.getLeft?)
    (herrors : s.errors = verdicts.filterMap Sum.getRight?) :
    s.out = [] ∧ s.errors = [] ↔ verdicts = [] := by
  rw [hout, herrors]
  cases verdicts with
  | nil => simp
  | cons v verdicts =>
    cases v with
    | inl d => simp
    | inr e => simp

theorem plan_read (text : List Char) :
    PlanRead text (parse_scan_plan text).1 (parse_scan_plan text).2 := by
  refine ⟨?_, plan_sound text, plan_verdict text⟩
  obtain ⟨verdicts, hjudged, hout, herrors⟩ := parse_tokens_sorts (text.splitOn ',')
  have hnil := verdicts_eq_nil hout herrors
  refine ⟨verdicts, hjudged, ?_⟩
  unfold parse_scan_plan
  by_cases htext : text = []
  · subst htext
    have hnone : verdicts = [] := List.forall₂_nil_left_iff.mp hjudged
    simp [hnone]
  · rw [if_neg htext]
    dsimp only
    by_cases hempty : verdicts = []
    · rw [if_pos (hnil.mpr hempty), hempty]
      exact ⟨(hnil.mpr hempty).1, rfl⟩
    · rw [if_neg (fun h => hempty (hnil.mp h)), if_neg hempty, List.append_nil]
      exact ⟨hout, herrors⟩

/-- The parser reads the documented grammar, except for channels 2 and 5 with flags and no width,
which it takes for the prefix of a band. Every plan is read whole. -/
theorem the_grammar_is_read_iff (t : PlanToken) (text : List Char) :
    ((parse_chan_token t.text).toOption = t.meaning ↔ ¬ t.Shadowed) ∧
      PlanRead text (parse_scan_plan text).1 (parse_scan_plan text).2 :=
  ⟨t.read_iff_not_shadowed, plan_read text⟩

/-- Channel 2 as a preferred backup is refused. -/
theorem a_low_backup_is_refused :
    ¬ ((∀ t : PlanToken, (parse_chan_token t.text).toOption = t.meaning) ∧
      ∀ text, PlanRead text (parse_scan_plan text).1 (parse_scan_plan text).2) := by
  rintro ⟨h, -⟩
  have hread := h ⟨none, ['2'], none, some ['b'], by simp, ⟨by decide, by simp⟩, by decide,
    by simp, by simp⟩
  revert hread
  decide +kernel

end devourer.chanmig
