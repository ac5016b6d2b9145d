-- The loader of the PHY tables: a headline is selected for the chip, and the
-- rows of the table are written by the branches that stand under it.
import Devourer.Lib.Branches
import Mathlib.Data.List.MinMax
import Mathlib.Data.Nat.Bitwise
import Mathlib.Order.Lattice.Nat

namespace devourer.jaguar3

open Branches

/-! ## The loader -/

def PARA_IF : UInt32 := 0x8
def PARA_ELSE_IF : UInt32 := 0x9
def PARA_ELSE : UInt32 := 0xa
def PARA_END : UInt32 := 0xb
def PARA_CHK : UInt32 := 0x4
def CUT_DONT_CARE : UInt32 := 0xf
def RFE_DONT_CARE : UInt32 := 0xff

structure Jaguar3PhyContext where
  cut_version : UInt8
  rfe_type : UInt8

/-- An address and its data. -/
abbrev Row := UInt32 × UInt32

/-- The rows of a table. A word at the end that has no second one is not looked at. -/
def rows_of : List UInt32 → List Row
  | v1 :: v2 :: table => (v1, v2) :: rows_of table
  | _ => []

def opcode (r : Row) : UInt32 := r.1 >>> 28

/-- The scan for the end of the headlines: `headline_size`, and the `i` that it ends with. -/
def headline_end (i : ℕ) : List Row → UInt8 × ℕ
  | [] => (0, i)
  | r :: rows => if opcode r ≠ 0xf then (UInt8.ofNat i, i) else headline_end (i + 2) rows

/-- The first headline with a cut and an RFE. -/
def compare_pass (cut rfe : UInt32) (headlines : List UInt32) : Option ℕ :=
  headlines.findIdx? fun h => h &&& 0x0f0000ff = (cut <<< (24 : UInt32) ||| rfe &&& 0xff)

/-- The last headline with an RFE and the largest cut so far. -/
def max_pass (rfe : UInt32) (headlines : List UInt32) : UInt32 × Option ℕ :=
  headlines.zipIdx.foldl (fun (cut_max, idx) (h, i) =>
    let rfe_para := h &&& 0xff
    let cut_para := (h &&& 0x0f000000) >>> 24
    if rfe_para = rfe ∧ cut_max ≤ cut_para then (cut_para, some i) else (cut_max, idx)) (0, none)

/-- The passes over the headlines, one after another. -/
def matching (headlines : List UInt32) (ctx : Jaguar3PhyContext) : Option ℕ :=
  let cut_drv := ctx.cut_version.toUInt32
  let rfe_drv := ctx.rfe_type.toUInt32
  (((compare_pass (cut_drv &&& 0x0f) rfe_drv headlines).or
    (compare_pass CUT_DONT_CARE rfe_drv headlines)).or
    (max_pass rfe_drv headlines).2).or
    (max_pass RFE_DONT_CARE headlines).2

/-- The size of the headlines in words, and which of them is selected. -/
def sel_headline (rows : List Row) (ctx : Jaguar3PhyContext) : Option (UInt8 × UInt8) :=
  let (headline_size, i) := headline_end 0 rows
  if i = 0 then some (headline_size, 0)
  else
    (matching ((rows.take (headline_size.toNat / 2)).map Prod.fst) ctx).map fun k =>
      (headline_size, UInt8.ofNat k)

/-- The rows that the walk of the body writes. -/
def load_rows (cfg_target : UInt32) : UInt32 → Bool → Bool → List Row → List Row
  | _, _, _, [] => []
  | cfg_para, is_matched, find_target, r :: rows =>
    if opcode r = PARA_IF ∨ opcode r = PARA_ELSE_IF then
      load_rows cfg_target (r.1 &&& 0x0fffffff) is_matched find_target rows
    else if opcode r = PARA_ELSE then
      if !find_target then [] else load_rows cfg_target cfg_para false find_target rows
    else if opcode r = PARA_END then load_rows cfg_target cfg_para true false rows
    else if opcode r = PARA_CHK then
      if find_target then load_rows cfg_target cfg_para false find_target rows
      else if cfg_para = cfg_target then load_rows cfg_target cfg_para true true rows
      else load_rows cfg_target cfg_para false false rows
    else if is_matched then r :: load_rows cfg_target cfg_para is_matched find_target rows
    else load_rows cfg_target cfg_para is_matched find_target rows

/-- The calls of `write`, in order. -/
def Load (table : List UInt32) (ctx : Jaguar3PhyContext) : List Row :=
  let rows := rows_of table
  match sel_headline rows ctx with
  | none => []
  | some (h_size, h_idx) =>
    let cfg_target :=
      if h_size ≠ 0 then ((rows.map Prod.fst).getD h_idx.toNat 0) &&& 0x0fffffff else 0
    load_rows cfg_target 0 true false (rows.drop (h_size.toNat / 2))

/-! ## The structure of a table -/

/-- What a row of the body is for. -/
def token (r : Row) : Token UInt32 Row :=
  if opcode r = PARA_IF then .if_ (r.1 &&& 0x0fffffff)
  else if opcode r = PARA_ELSE_IF then .else_if (r.1 &&& 0x0fffffff)
  else if opcode r = PARA_ELSE then .else_
  else if opcode r = PARA_END then .end_if
  else if opcode r = PARA_CHK then .check
  else .row r

/-- A table of headlines, and of plain rows and chains of branches behind them. -/
structure PhyTable where
  headlines : List Row
  headline : ∀ r ∈ headlines, opcode r = 0xf
  few : headlines.length ≤ 127
  body : List Row
  items : List (Item UInt32 Row)
  structured : body.map token = items.flatMap Item.tokens
  starts : ∀ r ∈ body.head?, opcode r ≠ 0xf

def words (rows : List Row) : List UInt32 := rows.flatMap fun r => [r.1, r.2]

def PhyTable.table (t : PhyTable) : List UInt32 := words (t.headlines ++ t.body)

def rfe_of (h : UInt32) : UInt32 := h &&& 0xff

def cut_of (h : UInt32) : UInt32 := (h &&& 0x0f000000) >>> 24

/-- The last of the headlines of an RFE that have the largest cut. -/
def last_largest (rfe : UInt32) (headlines : List UInt32) : Option UInt32 :=
  (headlines.filter (rfe_of · = rfe)).reverse.argmax fun h => (cut_of h).toNat

/-- The condition that is selected, if any is: the exact match, then any cut, then the largest cut,
then the largest cut of any RFE. -/
def selected (headlines : List UInt32) (ctx : Jaguar3PhyContext) : Option UInt32 :=
  let cut := (ctx.cut_version &&& 0xf).toUInt32
  let rfe := ctx.rfe_type.toUInt32
  if headlines = [] then some 0
  else
    ((((headlines.find? fun h => rfe_of h = rfe ∧ cut_of h = cut).or
      (headlines.find? fun h => rfe_of h = rfe ∧ cut_of h = CUT_DONT_CARE)).or
      (last_largest rfe headlines)).or
      (last_largest RFE_DONT_CARE headlines)).map (· &&& 0x0fffffff)

/-! ## The body -/

theorem load_rows_eq (cfg_target : UInt32) (rows : List Row) (cfg_para : UInt32)
    (is_matched find_target : Bool) :
    load_rows cfg_target cfg_para is_matched find_target rows =
      walk cfg_target cfg_para is_matched find_target (rows.map token) := by
  induction rows generalizing cfg_para is_matched find_target with
  | nil => rfl
  | cons r rows ih =>
    rw [List.map_cons, load_rows, token]
    simp only [PARA_IF, PARA_ELSE_IF, PARA_ELSE, PARA_END, PARA_CHK]
    by_cases hif : opcode r = 0x8
    · simp [walk, hif, ih]
    by_cases helif : opcode r = 0x9
    · simp [walk, helif, ih]
    by_cases helse : opcode r = 0xa
    · simp [walk, helse, ih]
    by_cases hend : opcode r = 0xb
    · simp [walk, hend, ih]
    by_cases hchk : opcode r = 0x4
    · simp [walk, hchk, ih]
    · simp [walk, hif, helif, helse, hend, hchk, ih]

/-! ## The fields of a headline -/

theorem and_mask (n w s : ℕ) : n &&& (2 ^ w - 1) <<< s = n / 2 ^ s % 2 ^ w * 2 ^ s := by
  rw [← Nat.shiftLeft_eq, ← Nat.shiftRight_eq_div_pow, ← Nat.and_two_pow_sub_one_eq_mod,
    Nat.shiftLeft_and_distrib]
  apply Nat.eq_of_testBit_eq
  intro i
  simp only [Nat.testBit_and, Nat.testBit_shiftLeft, Nat.testBit_shiftRight]
  by_cases hi : s ≤ i
  · simp [hi]
  · simp [hi]

theorem toNat_rfe_of (h : UInt32) : (rfe_of h).toNat = h.toNat % 256 := by
  rw [rfe_of, UInt32.toNat_and]
  exact Nat.and_two_pow_sub_one_eq_mod _ 8

theorem toNat_cut_of (h : UInt32) : (cut_of h).toNat = h.toNat / 2 ^ 24 % 16 := by
  have hmask : (0x0f000000 : UInt32).toNat = (2 ^ 4 - 1) <<< 24 := rfl
  have hshift : (24 : UInt32).toNat % 32 = 24 := rfl
  rw [cut_of, UInt32.toNat_shiftRight, UInt32.toNat_and, hmask, and_mask, hshift,
    Nat.shiftRight_eq_div_pow]
  omega

theorem toNat_both (h : UInt32) :
    (h &&& 0x0f0000ff).toNat = (cut_of h).toNat * 2 ^ 24 + (rfe_of h).toNat := by
  have hmask : (0x0f0000ff : UInt32).toNat = (2 ^ 4 - 1) <<< 24 ||| (2 ^ 8 - 1) := rfl
  have hlow : h.toNat % 2 ^ 8 < 2 ^ 24 := by omega
  rw [UInt32.toNat_and, hmask, Nat.and_or_distrib_left, and_mask, Nat.and_two_pow_sub_one_eq_mod,
    ← Nat.shiftLeft_eq, ← Nat.shiftLeft_add_eq_or_of_lt hlow, Nat.shiftLeft_eq, toNat_cut_of,
    toNat_rfe_of]
  rfl

/-- The comparison of both fields at once. -/
theorem compare_target {cut rfe : UInt32} (hcut : cut.toNat < 16) (hrfe : rfe.toNat < 256)
    (h : UInt32) :
    h &&& 0x0f0000ff = (cut <<< (24 : UInt32) ||| rfe &&& 0xff) ↔
    rfe_of h = rfe ∧ cut_of h = cut := by
  have hshift : (24 : UInt32).toNat % 32 = 24 := rfl
  have hlow : rfe.toNat &&& 255 = rfe.toNat := by
    rw [show 255 = 2 ^ 8 - 1 from rfl, Nat.and_two_pow_sub_one_eq_mod]
    omega
  have htarget : (cut <<< 24 ||| rfe &&& 0xff).toNat = cut.toNat * 2 ^ 24 + rfe.toNat := by
    rw [UInt32.toNat_or, UInt32.toNat_shiftLeft, UInt32.toNat_and, hshift, Nat.shiftLeft_eq,
      Nat.mod_eq_of_lt (by omega), show (0xff : UInt32).toNat = 255 from rfl, hlow,
      ← Nat.shiftLeft_eq, ← Nat.shiftLeft_add_eq_or_of_lt (by omega)]
  have hrfe' := toNat_rfe_of h
  rw [← UInt32.toNat_inj, ← UInt32.toNat_inj, ← UInt32.toNat_inj, toNat_both, htarget]
  omega

/-! ## The passes -/

theorem compare_pass_eq {cut rfe : UInt32} (hcut : cut.toNat < 16) (hrfe : rfe.toNat < 256)
    (headlines : List UInt32) :
    (compare_pass cut rfe headlines).bind (headlines[·]?) =
      headlines.find? fun h => rfe_of h = rfe ∧ cut_of h = cut := by
  have hsame : (fun h : UInt32 => decide (h &&& 0x0f0000ff =
    (cut <<< (24 : UInt32) ||| rfe &&& 0xff))) =
      fun h => decide (rfe_of h = rfe ∧ cut_of h = cut) := by
    funext h
    exact decide_eq_decide.mpr (compare_target hcut hrfe h)
  rw [compare_pass, hsame, List.find?_eq_bind_findIdx?_getElem?]

theorem max_pass_snoc (rfe : UInt32) (hs : List UInt32) (h : UInt32) :
    max_pass rfe (hs ++ [h]) =
      if rfe_of h = rfe ∧ (max_pass rfe hs).1 ≤ cut_of h then (cut_of h, some hs.length)
      else max_pass rfe hs := by
  rw [max_pass, List.zipIdx_append, List.foldl_append]
  simp only [Nat.zero_add, List.zipIdx_singleton, List.foldl_cons, List.foldl_nil]
  rfl

theorem last_largest_snoc (rfe : UInt32) (hs : List UInt32) (h : UInt32) :
    last_largest rfe (hs ++ [h]) =
      if rfe_of h = rfe ∧ ((last_largest rfe hs).map cut_of).getD 0 ≤ cut_of h then some h
      else last_largest rfe hs := by
  unfold last_largest
  rw [List.filter_append]
  by_cases hrfe : rfe_of h = rfe
  · rw [List.filter_cons_of_pos (by simp [hrfe]), List.filter_nil, List.reverse_append,
      List.reverse_singleton, List.singleton_append, List.argmax_cons]
    cases hbest : List.argmax (fun h => (cut_of h).toNat)
        (hs.filter (rfe_of · = rfe)).reverse with
    | none => simp [hrfe]
    | some b =>
      by_cases hlt : (cut_of h).toNat < (cut_of b).toNat
      · have hle : ¬ cut_of b ≤ cut_of h := by rw [UInt32.le_iff_toNat_le]; omega
        simp [hrfe, hlt, hle]
      · have hle : cut_of b ≤ cut_of h := by rw [UInt32.le_iff_toNat_le]; omega
        simp [hrfe, hlt, hle]
  · rw [List.filter_cons_of_neg (by simp [hrfe]), List.filter_nil, List.append_nil]
    simp [hrfe]

/-- The pass holds the largest cut so far and the place of the headline that has it. -/
theorem max_pass_eq (rfe : UInt32) (headlines : List UInt32) :
    (∀ k ∈ (max_pass rfe headlines).2, k < headlines.length) ∧
      (max_pass rfe headlines).2.bind (headlines[·]?) = last_largest rfe headlines ∧
      (max_pass rfe headlines).1 = ((last_largest rfe headlines).map cut_of).getD 0 := by
  induction headlines using List.reverseRecOn with
  | nil => exact ⟨by simp [max_pass], rfl, rfl⟩
  | append_singleton hs h ih =>
    obtain ⟨hlt, hidx, hcut⟩ := ih
    have hold : (max_pass rfe hs).2.bind ((hs ++ [h])[·]?) = last_largest rfe hs := by
      rw [← hidx]
      apply Option.bind_congr
      intro k hk
      exact List.getElem?_append_left (hlt k hk)
    rw [max_pass_snoc, last_largest_snoc, ← hcut]
    split
    · simp
    · refine ⟨fun k hk => ?_, hold, hcut⟩
      have := hlt k hk
      rw [List.length_append]
      omega

/-! ## The headlines -/

theorem rows_of_words (rows : List Row) : rows_of (words rows) = rows := by
  induction rows with
  | nil => rfl
  | cons r rows ih => rw [words, List.flatMap_cons, List.cons_append, List.cons_append, rows_of,
      List.nil_append, ← words, ih]

/-- The scan ends at the first row of the body. Without a body it finds no headlines. -/
theorem headline_end_eq {heads body : List Row} (hheads : ∀ r ∈ heads, opcode r = 0xf)
    (hbody : ∀ r ∈ body.head?, opcode r ≠ 0xf) (i : ℕ) :
    headline_end i (heads ++ body) =
      (if body = [] then 0 else UInt8.ofNat (i + 2 * heads.length), i + 2 * heads.length) := by
  induction heads generalizing i with
  | nil =>
    cases body with
    | nil => rfl
    | cons r body => simp [headline_end, hbody r rfl]
  | cons r heads ih =>
    have hr := hheads r List.mem_cons_self
    rw [List.cons_append, headline_end, if_neg (not_not.mpr hr),
      ih (fun s hs => hheads s (List.mem_cons_of_mem r hs))]
    rw [List.length_cons, show i + 2 + 2 * heads.length = i + 2 * (heads.length + 1) by omega]

theorem bind_or {a b : Option ℕ} {hs : List UInt32} (ha : ∀ k ∈ a, k < hs.length) :
    (a.or b).bind (hs[·]?) = (a.bind (hs[·]?)).or (b.bind (hs[·]?)) := by
  cases a with
  | none => rfl
  | some k => simp [List.getElem?_eq_getElem (ha k rfl)]

theorem compare_pass_lt {cut rfe : UInt32} {headlines : List UInt32} :
    ∀ k ∈ compare_pass cut rfe headlines, k < headlines.length := by
  intro k hk
  exact (List.findIdx?_eq_some_iff_getElem.mp hk).1

theorem matching_lt {headlines : List UInt32} {ctx : Jaguar3PhyContext} :
    ∀ k ∈ matching headlines ctx, k < headlines.length := by
  intro k hk
  rcases Option.or_eq_some_iff.mp hk with hk | ⟨-, hk⟩
  · rcases Option.or_eq_some_iff.mp hk with hk | ⟨-, hk⟩
    · rcases Option.or_eq_some_iff.mp hk with hk | ⟨-, hk⟩
      · exact compare_pass_lt k hk
      · exact compare_pass_lt k hk
    · exact (max_pass_eq _ _).1 k hk
  · exact (max_pass_eq _ _).1 k hk

theorem or_lt {a b : Option ℕ} {n : ℕ} (ha : ∀ k ∈ a, k < n) (hb : ∀ k ∈ b, k < n) :
    ∀ k ∈ a.or b, k < n := by
  intro k hk
  rcases Option.or_eq_some_iff.mp hk with hk | ⟨-, hk⟩
  · exact ha k hk
  · exact hb k hk

/-- The passes find the headline that is to be selected. -/
theorem matching_eq {headlines : List UInt32} (hne : headlines ≠ []) (ctx : Jaguar3PhyContext) :
    ((matching headlines ctx).bind (headlines[·]?)).map (· &&& 0x0fffffff) =
      selected headlines ctx := by
  have hcut : ctx.cut_version.toUInt32 &&& 0x0f = (ctx.cut_version &&& 0xf).toUInt32 := by
    rw [UInt8.toUInt32_and]
    rfl
  have hcut' : (ctx.cut_version &&& 0xf).toUInt32.toNat < 16 := by
    rw [UInt8.toNat_toUInt32, UInt8.toNat_and]
    exact Nat.and_lt_two_pow _ (by decide : (0xf : UInt8).toNat < 2 ^ 4)
  have hrfe : ctx.rfe_type.toUInt32.toNat < 256 := ctx.rfe_type.toNat_lt
  have hdrop : CUT_DONT_CARE.toNat < 16 := by decide
  obtain ⟨hlt, hmax, -⟩ := max_pass_eq ctx.rfe_type.toUInt32 headlines
  obtain ⟨-, hany, -⟩ := max_pass_eq RFE_DONT_CARE headlines
  unfold matching selected
  dsimp only
  rw [if_neg hne, bind_or (or_lt (or_lt compare_pass_lt compare_pass_lt) hlt),
    bind_or (or_lt compare_pass_lt compare_pass_lt), bind_or compare_pass_lt, hcut,
    compare_pass_eq hcut' hrfe, compare_pass_eq hdrop hrfe, hmax, hany]

/-! ## The whole table -/

theorem sel_headline_eq {heads body : List Row} (hheads : ∀ r ∈ heads, opcode r = 0xf)
    (hbody : ∀ r ∈ body.head?, opcode r ≠ 0xf) (hfew : heads.length ≤ 127) (hne : heads ≠ [])
    (hne' : body ≠ []) (ctx : Jaguar3PhyContext) :
    sel_headline (heads ++ body) ctx = (matching (heads.map Prod.fst) ctx).map fun k =>
      (UInt8.ofNat (2 * heads.length), UInt8.ofNat k) := by
  have hsize : (UInt8.ofNat (2 * heads.length)).toNat / 2 = heads.length := by
    rw [UInt8.toNat_ofNat']
    omega
  have hpos : 0 < heads.length := List.length_pos_iff.mpr hne
  rw [sel_headline, headline_end_eq hheads hbody, if_neg hne']
  dsimp only
  rw [if_neg (by omega), Nat.zero_add, hsize, List.take_left']
  rfl

theorem load_unmatched {rows : List Row} {ctx : Jaguar3PhyContext}
    (hsel : sel_headline rows ctx = none) : Load (words rows) ctx = [] := by
  unfold Load
  rw [rows_of_words]
  dsimp only
  rw [hsel]

/-- The body is walked for the condition of the headline that was selected. -/
theorem load_selected {heads body : List Row} (hfew : heads.length ≤ 127) {k : ℕ}
    (hk : k < heads.length) {ctx : Jaguar3PhyContext}
    (hsel : sel_headline (heads ++ body) ctx =
      some (UInt8.ofNat (2 * heads.length), UInt8.ofNat k)) :
    Load (words (heads ++ body)) ctx =
      load_rows ((heads[k]).1 &&& 0x0fffffff) 0 true false body := by
  have hsize : (UInt8.ofNat (2 * heads.length)).toNat = 2 * heads.length := by
    rw [UInt8.toNat_ofNat']
    omega
  have hne0 : UInt8.ofNat (2 * heads.length) ≠ 0 := by
    intro hzero
    rw [hzero, show (0 : UInt8).toNat = 0 from rfl] at hsize
    omega
  have hplace : (UInt8.ofNat k).toNat = k := by
    rw [UInt8.toNat_ofNat']
    omega
  have hget : ((heads ++ body).map Prod.fst).getD k 0 = (heads[k]).1 := by
    rw [List.map_append, List.getD_append _ _ _ _ (by simpa using hk),
      List.getD_eq_getElem _ _ (by simpa using hk), List.getElem_map]
  unfold Load
  rw [rows_of_words]
  dsimp only
  rw [hsel]
  dsimp only
  rw [if_pos hne0, hsize, hplace, hget, Nat.mul_div_cancel_left _ (by decide), List.drop_left']
  rfl

/-- The loader writes the plain rows and the rows of the branches that stand under the selected
headline, up to the first chain that it stops at. Without a match it writes nothing. -/
theorem the_table_is_loaded (t : PhyTable) (ctx : Jaguar3PhyContext) :
    Load t.table ctx =
      match selected (t.headlines.map Prod.fst) ctx with
      | some target => meaning target t.items
      | none => [] := by
  obtain ⟨heads, hheads, hfew, body, items, hitems, hbody⟩ := t
  have hwalk : ∀ target, load_rows target 0 true false body = meaning target items := by
    intro target
    rw [load_rows_eq, hitems, walk_items]
  unfold PhyTable.table
  by_cases hne : heads = []
  · subst hne
    have hsel : sel_headline ([] ++ body) ctx = some (0, 0) := by
      rw [sel_headline, headline_end_eq (by simp) hbody]
      cases body <;> rfl
    rw [Load, rows_of_words]
    dsimp only
    rw [hsel]
    exact hwalk 0
  by_cases hne' : body = []
  · subst hne'
    have hsel : sel_headline (heads ++ []) ctx = none := by
      have hpos : 0 < heads.length := List.length_pos_iff.mpr hne
      rw [sel_headline, headline_end_eq hheads hbody, if_pos rfl]
      dsimp only
      rw [if_neg (by omega)]
      rfl
    rw [load_unmatched hsel]
    cases selected (heads.map Prod.fst) ctx with
    | none => rfl
    | some target => exact hwalk target
  · have hsel := sel_headline_eq hheads hbody hfew hne hne' ctx
    dsimp only
    rw [← matching_eq (by simpa using hne)]
    cases hidx : matching (heads.map Prod.fst) ctx with
    | none =>
      rw [hidx] at hsel
      exact load_unmatched hsel
    | some k =>
      have hk : k < heads.length := by simpa using matching_lt k hidx
      rw [hidx] at hsel
      rw [load_selected hfew hk hsel, hwalk]
      simp [hk]

/-- A table for two cuts of RFE 3: a chain of two branches and a rest, between two plain rows. -/
def demoTable : PhyTable where
  headlines := [(0xf1000003, 0), (0xf2000003, 0)]
  headline := List.forall_mem_cons.mpr ⟨by decide, List.forall_mem_singleton.mpr (by decide)⟩
  few := by decide
  body := [(0x830, 1), (0x81000003, 0), (0x40000000, 0), (0x840, 2), (0x92000003, 0),
    (0x40000000, 0), (0x840, 3), (0xa0000000, 0), (0x840, 4), (0xb0000000, 0), (0x850, 5)]
  items := [.row (0x830, 1),
    .chain
      { first := { cond := 0x1000003, rows := [(0x840, 2)] }
        others := [{ cond := 0x2000003, rows := [(0x840, 3)] }]
        otherwise := some [(0x840, 4)] },
    .row (0x850, 5)]
  structured := rfl
  starts := by
    rintro _ ⟨⟩
    decide

/-- Of the chain, the second cut takes the second branch. -/
theorem the_second_branch_is_loaded :
    Load demoTable.table { cut_version := 2, rfe_type := 3 } =
      [(0x830, 1), (0x840, 3), (0x850, 5)] := by
  rw [the_table_is_loaded]
  decide +kernel

end devourer.jaguar3
