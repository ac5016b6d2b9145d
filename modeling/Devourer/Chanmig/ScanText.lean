-- The text of a scan plan: the tokens between the commas, each a channel with
-- its width and its flags, and what is wrong with those that are none.
import Mathlib.Data.List.Basic
import Mathlib.Data.Int.Notation
import Devourer.Chanmig.ChannelDef

namespace devourer.chanmig

open ChannelWidth_t

def def_error_name : DefError → String
  | .BadBand => "bad_band"
  | .BadPrimary => "bad_primary"
  | .BadWidth => "bad_width"
  | .BadOffset => "bad_offset"
  | .OffGrid40 => "off_grid_40"
  | .OffGrid80 => "off_grid_80"
  | .AmbiguousOffset => "ambiguous_offset"

/-! ## Numbers -/

def isspace (c : Char) : Bool :=
  c = ' ' || c = '\t' || c = '\n' || c = '\x0b' || c = '\x0c' || c = '\r'

def isdigit (c : Char) : Bool := '0' ≤ c && c ≤ '9'

/-- The decimal number at the start of a text, and the text behind it, which is the whole text when
there is no digit. -/
def strtol (t : List Char) : ℤ × List Char :=
  let s := t.dropWhile isspace
  let neg := s.head? = some '-'
  let s := if neg ∨ s.head? = some '+' then s.tail else s
  let digits := s.takeWhile isdigit
  if digits = [] then (0, t)
  else
    let n : ℤ := digits.foldl (fun n c => 10 * n + (c.toNat - 48 : ℕ)) 0
    (if neg then -n else n, s.dropWhile isdigit)

/-! ## Tokens -/

structure PlanParseError where
  token : List Char
  reason : String
  deriving DecidableEq

/-- The flags behind the colon. -/
def flag (d : ChannelDef) (c : Char) : Except String ChannelDef :=
  if c = 'b' then .ok { d with backup := true }
  else if c = 'p' then .ok { d with no_ir := true }
  else if c = 'd' then .ok { d with dfs := true }
  else .error "unknown flag"

/-- The text before the first of a character, and the text behind it. -/
def split_at (c : Char) (t : List Char) : List Char × Option (List Char) :=
  match t.dropWhile (· != c) with
  | [] => (t, none)
  | _ :: rest => (t.takeWhile (· != c), some rest)

/-- The width behind the slash, with the side of the secondary. -/
def parse_width (d : ChannelDef) : Option (List Char) → Except String ChannelDef
  | none => .ok d
  | some w => do
    let offset : UInt8 :=
      if w.getLast? = some 'u' then 1 else if w.getLast? = some 'l' then 2 else 0
    let w := if offset ≠ 0 then w.dropLast else w
    let width ←
      if w = ['5'] then .ok CHANNEL_WIDTH_5
      else if w = ['1', '0'] then .ok CHANNEL_WIDTH_10
      else if w = ['2', '0'] then .ok CHANNEL_WIDTH_20
      else if w = ['4', '0'] then .ok CHANNEL_WIDTH_40
      else if w = ['8', '0'] then .ok CHANNEL_WIDTH_80
      else .error "bad width"
    if offset ≠ 0 ∧ width ≠ CHANNEL_WIDTH_40 then .error "u/l suffix is 40 MHz-only"
    else .ok { d with width, offset }

/-- The primary, which fixes the band and lets the grid fill in the offset. -/
def parse_primary (want_band : UInt8) (t : List Char) (d : ChannelDef) :
    Except String ChannelDef :=
  let ch := (strtol t).1
  let band : UInt8 := if ch ≤ 14 then 2 else 5
  if t = [] ∨ (strtol t).2 ≠ [] ∨ ch ≤ 0 ∨ ch > 253 then .error "bad primary channel"
  else if want_band ≠ 0 ∧ want_band ≠ band then .error "band prefix contradicts the primary"
  else
    match normalize { d with primary := UInt8.ofNat ch.toNat, band } with
    | .error e => .error (def_error_name e)
    | .ok d => .ok d

/-- The band that a canonical prefix names, or 0, and the text behind it. -/
def band_prefix : List Char → UInt8 × List Char
  | '2' :: ':' :: t => (2, t)
  | '5' :: ':' :: t => (5, t)
  | t => (0, t)

/-- The flags are read first, then the width, and the primary last. -/
def parse_chan_token (tok : List Char) : Except String ChannelDef := do
  let p := band_prefix tok
  let colon := split_at ':' p.2
  let slash := split_at '/' colon.1
  let out ← (colon.2.getD []).foldlM flag {}
  let out ← parse_width out slash.2
  parse_primary p.1 slash.1 out

/-! ## Plans -/

/-- What the loop over the tokens has. -/
structure PlanParse where
  out : List ChannelDef := []
  errors : List PlanParseError := []

/-- One token, of which every one that is refused is reported. -/
def parse_token (s : PlanParse) (tok : List Char) : PlanParse :=
  if tok = [] then s
  else
    match parse_chan_token tok with
    | .error err => { s with errors := s.errors ++ [⟨tok, err⟩] }
    | .ok d =>
      if s.out.head?.any (·.band != d.band) then
        { s with errors := s.errors ++ [⟨tok, "mixed band (scout plans are single-band)"⟩] }
      else if s.out.any (·.same_rf d) then
        { s with errors := s.errors ++ [⟨tok, "duplicate candidate"⟩] }
      else { s with out := s.out ++ [d] }

/-- The verdict, the candidates and the errors. -/
def parse_scan_plan (text : List Char) : Bool × PlanParse :=
  if text = [] then (false, { errors := [⟨[], "empty plan"⟩] })
  else
    let s := (text.splitOn ',').foldl parse_token {}
    let s :=
      if s.out = [] ∧ s.errors = [] then { s with errors := [⟨[], "empty plan"⟩] } else s
    (s.errors = [] ∧ s.out ≠ [], s)

/-! ## What an accepted plan holds -/

/-- Candidates that were normalized, all of one band, and none twice. -/
structure PlanParse.Sound (s : PlanParse) : Prop where
  normalized : ∀ c ∈ s.out, ∃ d, normalize d = .ok c
  band : ∀ c ∈ s.out, ∀ d ∈ s.out, c.band = d.band
  distinct : s.out.Pairwise fun c d => c.same_rf d = false

theorem ok_of_bind {ε α β : Type} {x : Except ε α} {f : α → Except ε β} {b : β}
    (h : x >>= f = .ok b) : ∃ a, x = .ok a ∧ f a = .ok b := by
  cases x with
  | error e => cases h
  | ok a => exact ⟨a, rfl, h⟩

theorem parse_primary_normalized {want_band : UInt8} {t : List Char} {d c : ChannelDef}
    (h : parse_primary want_band t d = .ok c) : ∃ e, normalize e = .ok c := by
  unfold parse_primary at h
  extract_lets ch band at h
  split at h
  · cases h
  · split at h
    · cases h
    · split at h
      · cases h
      · next hn => cases h; exact ⟨_, hn⟩

theorem parse_chan_token_normalized {tok : List Char} {c : ChannelDef}
    (h : parse_chan_token tok = .ok c) : ∃ e, normalize e = .ok c := by
  obtain ⟨out, -, h⟩ := ok_of_bind h
  obtain ⟨out', -, h⟩ := ok_of_bind h
  exact parse_primary_normalized h

namespace PlanParse

theorem parse_token_sound {s : PlanParse} (h : s.Sound) (tok : List Char) :
    (parse_token s tok).Sound := by
  unfold parse_token
  split
  · exact h
  · split
    · exact ⟨h.normalized, h.band, h.distinct⟩
    · next d hd =>
      split
      · exact ⟨h.normalized, h.band, h.distinct⟩
      · next hband =>
        split
        · exact ⟨h.normalized, h.band, h.distinct⟩
        · next hdup =>
          have hb : ∀ c ∈ s.out, c.band = d.band := by
            intro c hc
            cases hout : s.out with
            | nil => rw [hout] at hc; cases hc
            | cons o os =>
              have ho : o.band = d.band := by simpa [hout] using hband
              rw [← ho]
              exact h.band c hc o (by rw [hout]; exact List.mem_cons_self)
          refine ⟨?_, ?_, ?_⟩
          · intro c hc
            rcases List.mem_append.mp hc with hc | hc
            · exact h.normalized c hc
            · rw [List.mem_singleton.mp hc]
              exact parse_chan_token_normalized hd
          · intro c hc e he
            have hone : ∀ c ∈ s.out ++ [d], c.band = d.band := by
              intro c hc
              rcases List.mem_append.mp hc with hc | hc
              · exact hb c hc
              · rw [List.mem_singleton.mp hc]
            rw [hone c hc, hone e he]
          · refine List.pairwise_append.mpr ⟨h.distinct, List.pairwise_singleton _ _, ?_⟩
            intro c hc e he
            rw [List.mem_singleton.mp he]
            simp only [List.any_eq_true, not_exists, not_and, Bool.not_eq_true] at hdup
            exact hdup c hc

theorem parse_tokens_sound {s : PlanParse} (h : s.Sound) (toks : List (List Char)) :
    (toks.foldl parse_token s).Sound := by
  induction toks generalizing s with
  | nil => exact h
  | cons tok toks ih => exact ih (parse_token_sound h tok)

end PlanParse

theorem plan_sound (text : List Char) : (parse_scan_plan text).2.Sound := by
  have h0 : ({} : PlanParse).Sound := ⟨nofun, nofun, List.Pairwise.nil⟩
  have hs := PlanParse.parse_tokens_sound h0 (text.splitOn ',')
  unfold parse_scan_plan
  split
  · exact ⟨nofun, nofun, List.Pairwise.nil⟩
  · dsimp only
    split
    · exact ⟨hs.normalized, hs.band, hs.distinct⟩
    · exact hs

theorem plan_verdict (text : List Char) : (parse_scan_plan text).1 = true ↔
    (parse_scan_plan text).2.errors = [] ∧ (parse_scan_plan text).2.out ≠ [] := by
  unfold parse_scan_plan
  split
  · exact iff_of_false Bool.false_ne_true fun h => List.cons_ne_nil _ _ h.1
  · exact decide_eq_true_iff

/-- An accepted plan has a candidate, and what it has is sound. -/
theorem accepted_plan {text : List Char} (h : (parse_scan_plan text).1 = true) :
    (parse_scan_plan text).2.Sound ∧ (parse_scan_plan text).2.out ≠ [] :=
  ⟨plan_sound text, ((plan_verdict text).mp h).2⟩

end devourer.chanmig
