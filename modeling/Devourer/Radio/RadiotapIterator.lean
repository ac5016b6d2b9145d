-- The radiotap iterator: it hands out the fields of a header one by one, in
-- the order of the present bits, through chained present words and changes of
-- the namespace. No vendor namespace is registered with it anywhere.
import Devourer.Mt7612u.RadiotapReads

namespace devourer.radiotap

open mt7612u (rd16 rd32 get_le16 get_le32 get_le32_eq rt_field rt_present rt_bits rt_fields rt_take
  mt_radiotap_parse TxRate it_len)

/-- The alignment and the size of each field. -/
def rtap_namespace_sizes : List (ℕ × ℕ) :=
  [(8, 8), (1, 1), (1, 1), (2, 4), (2, 2), (1, 1), (1, 1), (2, 2), (2, 2), (2, 2), (1, 1), (1, 1),
    (1, 1), (1, 1), (2, 2), (2, 2), (1, 1), (1, 1), (0, 0), (1, 3), (4, 8), (2, 12), (8, 12),
    (2, 12)]

def IEEE80211_RADIOTAP_RADIOTAP_NAMESPACE : ℕ := 29
def IEEE80211_RADIOTAP_VENDOR_NAMESPACE : ℕ := 30
def IEEE80211_RADIOTAP_EXT : ℕ := 31

/-! ## The iterator -/

/-- Pointers are offsets from the start of the header. `next_ns_data` holds nothing until a vendor
namespace was met, and `current_namespace` is the radiotap one or none. -/
structure Iterator where
  max_length : ℕ
  arg_index : ℕ := 0
  bitmap_shifter : BitVec 32
  arg : ℕ
  next_bitmap : ℕ
  next_ns_data : Option ℕ := none
  reset_on_ext : Bool := false
  in_namespace : Bool := true
  this_arg : ℕ
  this_arg_index : ℕ := 0
  this_arg_size : ℕ := 0
  is_radiotap_ns : Bool := true

/-- Where the present words end that are chained on from `off`. `none` is a read out of reach. -/
def skip_ext (r : Reach) (max_length : ℕ) : ℕ → ℕ → Option (Option ℕ)
  | 0, _ => some none
  | fuel + 1, off =>
    if off + 4 > max_length then some none
    else do
      let word ← get_le32 r off
      if word.getLsbD IEEE80211_RADIOTAP_EXT then skip_ext r max_length fuel (off + 4)
      else some (some (off + 4))

/-- The outer option is a read out of reach, the inner one the error. -/
def iterator_init (r : Reach) (max_length : ℕ) : Option (Option Iterator) :=
  if max_length < 8 then some none
  else do
    let version ← r.read 0 1
    if byteAt version 0 ≠ 0 then some none
    else
      let it_len := (rd16 (← r.read 2 2) 0).toNat
      if max_length < it_len then some none
      else
        let present ← get_le32 r 4
        let data ← if present.getLsbD IEEE80211_RADIOTAP_EXT then skip_ext r it_len it_len 8
          else some (some 8)
        some (data.map fun arg =>
          { max_length := it_len, bitmap_shifter := present, arg, next_bitmap := 8,
            this_arg := arg })

/-- What the namespace says of the next bit. -/
inductive Field
  | stop
  | skip
  | known (align size : ℕ)

def Iterator.field (it : Iterator) : Field :=
  let bit := it.arg_index % 32
  if bit = IEEE80211_RADIOTAP_RADIOTAP_NAMESPACE ∨ bit = IEEE80211_RADIOTAP_EXT then .known 1 0
  else if bit = IEEE80211_RADIOTAP_VENDOR_NAMESPACE then .known 2 6
  else if !it.in_namespace then .skip
  else
    match rtap_namespace_sizes[it.arg_index]? with
    | none => .stop
    | some (align, size) => if align = 0 then .skip else .known align size

/-- One round of the loop: an argument, or on to the next bit, or the end. `undefined` is a use of
`next_ns_data` before it was set, `outside` a read out of reach. -/
inductive Round
  | hit (it : Iterator)
  | go (it : Iterator)
  | enoent
  | einval
  | undefined
  | outside

def Iterator.next_entry (it : Iterator) : Iterator :=
  { it with bitmap_shifter := it.bitmap_shifter >>> 1, arg_index := it.arg_index + 1 }

/-- The argument is the `size` bytes at `arg`, and `arg` moves behind them. -/
def Iterator.taken (it : Iterator) (arg size : ℕ) : Iterator :=
  { it with
    this_arg_index := it.arg_index, this_arg := arg, this_arg_size := size, arg := arg + size }

/-- A vendor namespace is handed out raw, with all its data. -/
def Iterator.vendor (r : Reach) (it : Iterator) (arg : ℕ) : Round :=
  if arg + 6 > it.max_length then .einval
  else
    match r.read arg 6 with
    | none => .outside
    | some p =>
      let size := 6 + (rd16 p 4).toNat
      let it :=
        ({ it with next_ns_data := some (arg + size), in_namespace := false }).taken arg size
      if it.arg > it.max_length then .einval
      else
        .hit { it with
          reset_on_ext := true
          is_radiotap_ns := false
          this_arg_index := IEEE80211_RADIOTAP_VENDOR_NAMESPACE }.next_entry

/-- On to the next present word. -/
def Iterator.extend (r : Reach) (it : Iterator) : Round :=
  match get_le32 r it.next_bitmap with
  | none => .outside
  | some word =>
    .go { it with
      bitmap_shifter := word
      next_bitmap := it.next_bitmap + 4
      arg_index := if it.reset_on_ext then 0 else it.arg_index + 1
      reset_on_ext := false }

def Iterator.round (r : Reach) (it : Iterator) : Round :=
  let bit := it.arg_index % 32
  if bit = IEEE80211_RADIOTAP_EXT ∧ !it.bitmap_shifter.getLsbD 0 then .enoent
  else if !it.bitmap_shifter.getLsbD 0 then .go it.next_entry
  else
    match it.field with
    | .stop => .enoent
    | .skip =>
      match it.next_ns_data with
      | none => .undefined
      | some arg => .go { it with arg, in_namespace := false }.next_entry
    | .known align size =>
      let pad := it.arg % align
      let arg := if pad ≠ 0 then it.arg + (align - pad) else it.arg
      if bit = IEEE80211_RADIOTAP_VENDOR_NAMESPACE then it.vendor r arg
      else
        let it := it.taken arg size
        if it.arg > it.max_length then .einval
        else if bit = IEEE80211_RADIOTAP_RADIOTAP_NAMESPACE then
          .go { it with
            reset_on_ext := true, in_namespace := true, is_radiotap_ns := true }.next_entry
        else if bit = IEEE80211_RADIOTAP_EXT then it.extend r
        else .hit it.next_entry

/-- `iterator_next`, with a bound on its rounds. -/
def iterator_next (r : Reach) : ℕ → Iterator → Round
  | 0, it => .go it
  | fuel + 1, it =>
    match it.round r with
    | .go it => iterator_next r fuel it
    | done => done

/-- An argument that was handed out. -/
structure Arg where
  index : ℕ
  off : ℕ
  size : ℕ
  deriving DecidableEq

/-- How the calls of `iterator_next` end. -/
inductive End
  | enoent
  | einval
  | undefined
  | outside
  | spins
  deriving DecidableEq

def Iterator.this (it : Iterator) : Arg := ⟨it.this_arg_index, it.this_arg, it.this_arg_size⟩

/-- What calls of `iterator_next` hand out until one of them fails, with a bound on the rounds of
all of them together. -/
def walk (r : Reach) : ℕ → Iterator → List Arg × End
  | 0, _ => ([], .spins)
  | fuel + 1, it =>
    match it.round r with
    | .hit it => let (args, e) := walk r fuel it; (it.this :: args, e)
    | .go it => walk r fuel it
    | .enoent => ([], .enoent)
    | .einval => ([], .einval)
    | .undefined => ([], .undefined)
    | .outside => ([], .outside)

/-- The calls themselves: at most `calls` of them, each with a bound on its rounds. -/
def consume (r : Reach) (fuel : ℕ) : ℕ → Iterator → List Arg × End
  | 0, _ => ([], .spins)
  | calls + 1, it =>
    match iterator_next r fuel it with
    | .hit it => let (args, e) := consume r fuel calls it; (it.this :: args, e)
    | .go _ => ([], .spins)
    | .enoent => ([], .enoent)
    | .einval => ([], .einval)
    | .undefined => ([], .undefined)
    | .outside => ([], .outside)

/-- A walk that ends is what the calls give, for every bound that is as large. -/
theorem consume_eq_walk (r : Reach) (n : ℕ) (it : Iterator) (h : (walk r n it).2 ≠ .spins)
    {fuel calls : ℕ} (hfuel : n ≤ fuel) (hcalls : n ≤ calls) :
    consume r fuel calls it = walk r n it := by
  -- the first call may have used some of its rounds already
  have first : ∀ (n : ℕ) (it : Iterator), (walk r n it).2 ≠ .spins → ∀ (g calls : ℕ), n ≤ fuel →
      n ≤ g → n ≤ calls + 1 →
      (match iterator_next r g it with
        | .hit it => let (args, e) := consume r fuel calls it; (it.this :: args, e)
        | .go _ => ([], .spins)
        | .enoent => ([], .enoent)
        | .einval => ([], .einval)
        | .undefined => ([], .undefined)
        | .outside => ([], .outside)) = walk r n it := by
    intro n
    induction n with
    | zero => intro it h; exact absurd rfl h
    | succ n ih =>
      intro it h g calls hf hg hc
      obtain ⟨g, rfl⟩ : ∃ g', g = g' + 1 := ⟨g - 1, by omega⟩
      unfold walk at h ⊢
      unfold iterator_next
      cases hround : it.round r with
      | hit it' =>
        rw [hround] at h
        dsimp only at h ⊢
        cases calls with
        | zero =>
          obtain rfl : n = 0 := by omega
          exact absurd rfl h
        | succ calls =>
          have hrest := ih it' h fuel calls (by omega) (by omega) (by omega)
          rw [← hrest]
          rfl
      | go it' =>
        rw [hround] at h
        exact ih it' h g calls (by omega) (by omega) (by omega)
      | enoent => rfl
      | einval => rfl
      | undefined => rfl
      | outside => rfl
  cases calls with
  | zero =>
    obtain rfl : n = 0 := by omega
    exact absurd rfl h
  | succ calls => exact first n it h fuel calls hfuel hfuel hcalls

/-! ## The present words -/

/-- Words that are chained: each but the last has the extension bit. -/
structure Chain (f : ℕ → BitVec 32) (words : List (BitVec 32)) : Prop where
  some : 0 < words.length
  word : ∀ w (h : w < words.length), f w = words[w]
  chained : ∀ w (h : w < words.length),
    words[w].getLsbD IEEE80211_RADIOTAP_EXT = decide (w + 1 < words.length)

theorem chain_single {f : ℕ → BitVec 32} (h : ¬ (f 0).getLsbD IEEE80211_RADIOTAP_EXT = true) :
    Chain f [f 0] := by
  refine ⟨by simp, ?_, ?_⟩
  · intro w hw
    obtain rfl : w = 0 := by simpa using hw
    rfl
  · intro w hw
    obtain rfl : w = 0 := by simpa using hw
    simpa using h

theorem chain_cons {f : ℕ → BitVec 32} {words : List (BitVec 32)}
    (h : (f 0).getLsbD IEEE80211_RADIOTAP_EXT = true) (hrest : Chain (fun w => f (w + 1)) words) :
    Chain f (f 0 :: words) := by
  refine ⟨by simp, ?_, ?_⟩
  · intro w hw
    cases w with
    | zero => rfl
    | succ w => exact hrest.word w (by simpa using hw)
  · intro w hw
    cases w with
    | zero => simpa [hrest.some] using h
    | succ w => simpa using hrest.chained w (by simpa using hw)

/-- Two chains of words at one place are the same. -/
theorem Chain.unique {f : ℕ → BitVec 32} {p q : List (BitVec 32)} (hp : Chain f p)
    (hq : Chain f q) :
    p = q := by
  have shorter : ∀ {p q : List (BitVec 32)}, Chain f p → Chain f q → ¬ p.length < q.length := by
    intro p q hp hq hlt
    have hsome := hp.some
    have hlast := hp.chained (p.length - 1) (by omega)
    have hon := hq.chained (p.length - 1) (by omega)
    rw [← hp.word] at hlast
    rw [← hq.word, hlast] at hon
    simp only [decide_eq_decide] at hon
    omega
  have hlen : p.length = q.length := by
    have hle := shorter hp hq
    have hge := shorter hq hp
    omega
  apply List.ext_getElem hlen
  intro w hw hw'
  rw [← hp.word w hw, hq.word w hw']

/-- The present words of a header whose declared length is `it_len`: they are chained, and those
behind the first stand inside of that length. -/
structure Presents (r : Reach) (it_len : ℕ) (present : List (BitVec 32)) : Prop
    extends Chain (fun w => rd32 r.bytes (4 + 4 * w)) present where
  first : 8 ≤ r.limit
  declared : it_len ≤ r.limit
  inside : 2 ≤ present.length → 4 + 4 * present.length ≤ it_len

/-- Where the fields start. -/
def data_start (present : List (BitVec 32)) : ℕ := 4 + 4 * present.length

theorem rd32_next (b : Bytes) (off w : ℕ) :
    rd32 b (off + 4 + 4 * w) = rd32 b (off + 4 * (w + 1)) := by
  rw [Nat.mul_add, Nat.mul_one, Nat.add_assoc, Nat.add_comm 4]

/-- The word where the chain stands is read, and the rest of the chain behind it. -/
theorem skip_ext_spec {r : Reach} {max_length : ℕ} (hmax : max_length ≤ r.limit) {fuel off stop : ℕ}
    (h : skip_ext r max_length fuel off = some (some stop)) :
    ∃ words : List (BitVec 32), Chain (fun w => rd32 r.bytes (off + 4 * w)) words ∧
      stop = off + 4 * words.length ∧ stop ≤ max_length := by
  induction fuel generalizing off with
  | zero => cases h
  | succ fuel ih =>
    unfold skip_ext at h
    by_cases hend : off + 4 > max_length
    · rw [if_pos hend] at h
      cases h
    rw [if_neg hend, get_le32_eq (by omega)] at h
    simp only [Option.bind_eq_bind, Option.bind_some] at h
    split at h
    · next hext =>
      obtain ⟨words, hchain, hlen, hle⟩ := ih h
      simp only [rd32_next] at hchain
      refine ⟨_, chain_cons (f := fun w => rd32 r.bytes (off + 4 * w)) hext hchain, ?_, hle⟩
      rw [List.length_cons]
      omega
    · next hext =>
      obtain rfl : off + 4 = stop := by simpa using h
      refine ⟨_, chain_single (f := fun w => rd32 r.bytes (off + 4 * w)) hext, by simp, by omega⟩

theorem skip_ext_reads {r : Reach} {max_length : ℕ} (hmax : max_length ≤ r.limit) (fuel off : ℕ) :
    ∃ x, skip_ext r max_length fuel off = some x := by
  induction fuel generalizing off with
  | zero => exact ⟨none, rfl⟩
  | succ fuel ih =>
    unfold skip_ext
    split
    · exact ⟨none, rfl⟩
    · rw [get_le32_eq (by omega)]
      simp only [Option.bind_eq_bind, Option.bind_some]
      split
      · exact ih (off + 4)
      · exact ⟨_, rfl⟩

/-- The start of an iterator: it stands on the first bit of the first word. -/
structure Starts (r : Reach) (present : List (BitVec 32)) (it : Iterator) : Prop where
  presents : Presents r it.max_length present
  eq : it = {
    max_length := it.max_length
    bitmap_shifter := present.headD 0
    arg := data_start present
    next_bitmap := 8
    this_arg := data_start present }

/-- It reads nothing out of reach, and what it accepts has present words. -/
theorem iterator_init_spec {r : Reach} {max_length : ℕ} (hmax : max_length ≤ r.limit) :
    ∃ x, iterator_init r max_length = some x ∧
      ∀ it, x = some it → it.max_length ≤ max_length ∧ ∃ present, Starts r present it := by
  unfold iterator_init
  by_cases hshort : max_length < 8
  · exact ⟨none, if_pos hshort, by simp⟩
  have hin := r.inside
  rw [if_neg hshort, r.read_eq (by omega), r.read_eq (by omega), get_le32_eq (by omega)]
  simp only [Option.bind_eq_bind, Option.bind_some]
  split
  · exact ⟨none, rfl, by simp⟩
  generalize hit_len : (rd16 ((r.bytes.drop 2).take 2) 0).toNat = it_len
  by_cases hlong : max_length < it_len
  · rw [if_pos hlong]
    exact ⟨none, rfl, by simp⟩
  rw [if_neg hlong]
  by_cases hext : (rd32 r.bytes 4).getLsbD IEEE80211_RADIOTAP_EXT = true
  · rw [if_pos hext]
    obtain ⟨x, hx⟩ := skip_ext_reads (show it_len ≤ r.limit by omega) it_len 8
    rw [hx, Option.bind_some]
    refine ⟨_, rfl, ?_⟩
    intro it hit
    cases x with
    | none => cases hit
    | some stop =>
      obtain rfl := Option.some.inj hit
      refine ⟨by dsimp only; omega, ?_⟩
      obtain ⟨words, hchain, hlen, hle⟩ := skip_ext_spec (by omega) hx
      have hnext : ∀ w, rd32 r.bytes (8 + 4 * w) = rd32 r.bytes (4 + 4 * (w + 1)) := rd32_next _ 4
      simp only [hnext] at hchain
      refine ⟨_, ⟨chain_cons (f := fun w => rd32 r.bytes (4 + 4 * w)) hext hchain, by omega,
        by dsimp only; omega, ?_⟩, ?_⟩
      · intro _
        rw [List.length_cons]
        dsimp only
        omega
      · have hdata : data_start (rd32 r.bytes (4 + 4 * 0) :: words) = stop := by
          rw [data_start, List.length_cons]
          omega
        rw [hdata]
        rfl
  · rw [if_neg hext]
    refine ⟨_, rfl, ?_⟩
    intro it hit
    obtain rfl := Option.some.inj hit
    refine ⟨by dsimp only; omega, _, ⟨chain_single (f := fun w => rd32 r.bytes (4 + 4 * w)) hext,
      by omega, by dsimp only; omega, by simp⟩, rfl⟩

/-! ## One round -/

section

variable {r : Reach} {it_len : ℕ} {present : List (BitVec 32)}

/-- No present word has the bit that the radiotap namespace gives no size. -/
def Clean (present : List (BitVec 32)) : Prop := ∀ word ∈ present, word.getLsbD 18 = false

/-- The iterator stands on bit `j` of word `w`, and its pointers are behind the present words. -/
structure At (it_len : ℕ) (present : List (BitVec 32)) (w j : ℕ) (it : Iterator) : Prop where
  len : it.max_length = it_len
  word : w < present.length
  bit : j < 32
  shifter : it.bitmap_shifter = present.getD w 0 >>> j
  index : it.arg_index % 32 = j
  bitmap : it.next_bitmap = 8 + 4 * w
  data : data_start present ≤ it.arg
  next_ns : ∀ p, it.next_ns_data = some p → data_start present ≤ p
  lost : it.in_namespace = false → ∃ p, it.next_ns_data = some p ∧ (Clean present → p = it.arg)

/-- How many rounds are left at most. -/
def left (present : List (BitVec 32)) (w j : ℕ) : ℕ := 32 * (present.length - w) - j

theorem shifted_bit {present : List (BitVec 32)} {w j : ℕ} :
    (present.getD w 0 >>> j).getLsbD 0 = (present.getD w 0).getLsbD j := by
  rw [BitVec.getLsbD_ushiftRight, Nat.add_zero]

variable {w j : ℕ} {it : Iterator}

theorem At.present_bit (h : At it_len present w j it) :
    it.bitmap_shifter.getLsbD 0 = (present.getD w 0).getLsbD j := by
  rw [h.shifter, shifted_bit]

/-- On to the next bit of the word. -/
theorem At.next_entry (h : At it_len present w j it) (hj : j < 31) {it' : Iterator}
    (hlen : it'.max_length = it.max_length) (hshifter : it'.bitmap_shifter = it.bitmap_shifter)
    (hindex : it'.arg_index = it.arg_index) (hbitmap : it'.next_bitmap = it.next_bitmap)
    (hdata : data_start present ≤ it'.arg)
    (hnext_ns : ∀ p, it'.next_ns_data = some p → data_start present ≤ p)
    (hlost : it'.in_namespace = false →
      ∃ p, it'.next_ns_data = some p ∧ (Clean present → p = it'.arg)) :
    At it_len present w (j + 1) it'.next_entry := by
  have hmod := h.index
  refine ⟨hlen.trans h.len, h.word, by omega, ?_, ?_, hbitmap.trans h.bitmap, hdata,
    hnext_ns, hlost⟩
  · change it'.bitmap_shifter >>> 1 = _
    rw [hshifter, h.shifter, ← BitVec.shiftRight_add]
  · change (it'.arg_index + 1) % 32 = _
    rw [hindex]
    omega

/-- An argument stands inside of the header, and its place is that of a field of the table or of a
vendor's data. -/
structure Arg.Fits (it_len : ℕ) (present : List (BitVec 32)) (a : Arg) : Prop where
  start : data_start present ≤ a.off
  stop : a.off + a.size ≤ it_len
  field : a.index = IEEE80211_RADIOTAP_VENDOR_NAMESPACE ∧ 6 ≤ a.size ∧ 2 ∣ a.off ∨
    ∃ align, rtap_namespace_sizes[a.index]? = some (align, a.size) ∧ align ∣ a.off

/-- What a round may come to. -/
inductive Comes (it_len : ℕ) (present : List (BitVec 32)) (w j : ℕ) (it : Iterator) : Round → Prop
  | enoent : Comes it_len present w j it .enoent
  | einval : Comes it_len present w j it .einval
  | undefined (h : ¬ Clean present) : Comes it_len present w j it .undefined
  | go {it' : Iterator} {v k : ℕ} (at' : At it_len present v k it')
      (less : left present v k + 1 = left present w j)
      (on : Clean present → it.arg ≤ it'.arg) : Comes it_len present w j it (.go it')
  | hit {it' : Iterator} {v k : ℕ} (at' : At it_len present v k it')
      (less : left present v k + 1 = left present w j)
      (fits : it'.this.Fits it_len present)
      (on : it.arg ≤ it'.this_arg) (behind : it'.arg = it'.this_arg + it'.this_arg_size) :
      Comes it_len present w j it (.hit it')

theorem left_bit (hw : w < present.length) (hj : j < 31) :
    left present w (j + 1) + 1 = left present w j := by
  unfold left
  omega

theorem left_word (hw : w < present.length) : left present (w + 1) 0 + 1 = left present w 31 := by
  unfold left
  omega

/-- The pad in front of a field is up to the next multiple of its alignment. -/
theorem padded_spec {align : ℕ} (h : 0 < align) (arg : ℕ) :
    let arg' := if arg % align ≠ 0 then arg + (align - arg % align) else arg
    arg ≤ arg' ∧ align ∣ arg' ∧ arg' < arg + align := by
  dsimp only
  have hlt := Nat.mod_lt arg h
  split
  · refine ⟨by omega, ?_, by omega⟩
    have hdiv := Nat.div_add_mod arg align
    refine ⟨arg / align + 1, ?_⟩
    rw [Nat.mul_add, Nat.mul_one]
    omega
  · next hmod =>
    exact ⟨le_rfl, Nat.dvd_of_mod_eq_zero (by simpa using hmod), by omega⟩

theorem vendor_comes (hp : Presents r it_len present) (h : At it_len present w j it) (hj : j = 30)
    {arg : ℕ} (harg : it.arg ≤ arg) (hdvd : 2 ∣ arg) :
    Comes it_len present w j it (it.vendor r arg) := by
  have hlen := h.len
  have hdata := h.data
  have hdeclared := hp.declared
  unfold Iterator.vendor
  by_cases hshort : arg + 6 > it.max_length
  · rw [if_pos hshort]
    exact .einval
  rw [if_neg hshort, r.read_eq (by omega)]
  dsimp only
  generalize (rd16 ((r.bytes.drop arg).take 6) 4).toNat = vnslen
  by_cases hlong : arg + (6 + vnslen) > it.max_length
  · rw [if_pos (by exact hlong)]
    exact .einval
  rw [if_neg (by exact hlong)]
  refine .hit (v := w) (k := j + 1) ?_ (left_bit h.word (by omega))
    ⟨by exact h.data.trans harg, ?_, ?_⟩
    harg rfl
  · refine h.next_entry (by omega) rfl rfl rfl rfl ?_ ?_ ?_
    · exact (h.data.trans harg).trans (Nat.le_add_right _ _)
    · intro p hp
      obtain rfl := Option.some.inj hp
      exact (h.data.trans harg).trans (Nat.le_add_right _ _)
    · intro _
      exact ⟨_, rfl, fun _ => rfl⟩
  · rw [← hlen]
    exact Nat.le_of_not_lt hlong
  · exact Or.inl ⟨rfl, Nat.le_add_right 6 vnslen, hdvd⟩

/-- The last bit of a word, where it is set, leads to the word behind it. -/
theorem extend_eq (hp : Presents r it_len present) (h : At it_len present w 31 it)
    (hbit : (present.getD w 0).getLsbD 31 = true) (it' : Iterator)
    (hbitmap : it'.next_bitmap = it.next_bitmap) : w + 1 < present.length ∧
      it'.extend r = .go { it' with
        bitmap_shifter := present.getD (w + 1) 0
        next_bitmap := it'.next_bitmap + 4
        arg_index := if it'.reset_on_ext then 0 else it'.arg_index + 1
        reset_on_ext := false } := by
  have hword := h.word
  have hnext : w + 1 < present.length := by
    have hchain := hp.chained w hword
    rw [List.getD_eq_getElem _ _ hword] at hbit
    change present[w].getLsbD 31 = _ at hchain
    rw [hbit] at hchain
    exact of_decide_eq_true hchain.symm
  have hinside := hp.inside (by omega)
  have hdeclared := hp.declared
  have hread : get_le32 r it'.next_bitmap = some (present.getD (w + 1) 0) := by
    have hoff : 8 + 4 * w = 4 + 4 * (w + 1) := by omega
    rw [hbitmap, h.bitmap, get_le32_eq (by omega), hoff, hp.word (w + 1) hnext,
      List.getD_eq_getElem _ _ hnext]
  refine ⟨hnext, ?_⟩
  unfold Iterator.extend
  rw [hread]

/-- On to the first bit of the next word. -/
theorem At.next_word (h : At it_len present w 31 it) (hnext : w + 1 < present.length)
    {it' : Iterator} (hlen : it'.max_length = it.max_length)
    (hshifter : it'.bitmap_shifter = present.getD (w + 1) 0) (hindex : it'.arg_index % 32 = 0)
    (hbitmap : it'.next_bitmap = it.next_bitmap + 4) (harg : it'.arg = it.arg)
    (hnext_ns : it'.next_ns_data = it.next_ns_data) (hns : it'.in_namespace = it.in_namespace) :
    At it_len present (w + 1) 0 it' := by
  refine ⟨hlen.trans h.len, hnext, by omega, ?_, hindex, ?_, ?_, ?_, ?_⟩
  · rw [hshifter]
    simp
  · rw [hbitmap, h.bitmap]
    omega
  · rw [harg]
    exact h.data
  · rw [hnext_ns]
    exact h.next_ns
  · rw [hnext_ns, hns, harg]
    exact h.lost

theorem extend_comes (hp : Presents r it_len present) (h : At it_len present w 31 it)
    (hbit : (present.getD w 0).getLsbD 31 = true) :
    Comes it_len present w 31 it ((it.taken it.arg 0).extend r) := by
  obtain ⟨hnext, heq⟩ := extend_eq hp h hbit (it.taken it.arg 0) rfl
  have hindex := h.index
  rw [heq]
  refine .go (v := w + 1) (k := 0) ?_ (left_word h.word) (fun _ => le_rfl)
  refine h.next_word hnext rfl rfl ?_ rfl rfl rfl rfl
  change (if it.reset_on_ext then 0 else it.arg_index + 1) % 32 = 0
  split <;> omega

/-- A bit that is not set leads to the next one, or ends the calls where it is the last. -/
theorem clear_comes (h : At it_len present w j it) (hclear : (present.getD w 0).getLsbD j = false) :
    Comes it_len present w j it (it.round r) := by
  have hbit := h.bit
  unfold Iterator.round
  rw [h.present_bit, h.index, hclear]
  dsimp only
  by_cases hext : j = IEEE80211_RADIOTAP_EXT
  · rw [if_pos ⟨hext, rfl⟩]
    exact .enoent
  · have hne : j ≠ 31 := hext
    have hlt : j < 31 := by omega
    rw [if_neg (fun hboth => hext hboth.1), if_pos (by rfl)]
    refine .go (v := w) (k := j + 1) ?_ (left_bit h.word hlt) fun _ => le_rfl
    exact h.next_entry hlt rfl rfl rfl rfl h.data h.next_ns h.lost

/-- The bit of the radiotap namespace is a field of no bytes. -/
theorem radiotap_comes (h : At it_len present w j it) (hj : j = 29) :
    Comes it_len present w j it (.go { it.taken it.arg 0 with
      reset_on_ext := true, in_namespace := true, is_radiotap_ns := true }.next_entry) := by
  have hlt : j < 31 := by omega
  refine .go (v := w) (k := j + 1) ?_ (left_bit h.word hlt) fun _ => le_rfl
  exact h.next_entry hlt rfl rfl rfl rfl h.data h.next_ns (by simp)

/-- Where the namespace is lost, or the bit has no size, the data of the vendor is skipped. -/
theorem skip_comes (h : At it_len present w j it) (hlt : j < 31)
    (hunknown : it.in_namespace = true → ¬ Clean present) :
    Comes it_len present w j it (match it.next_ns_data with
      | none => .undefined
      | some arg => .go { it with arg, in_namespace := false }.next_entry) := by
  cases hdata : it.next_ns_data with
  | none =>
    refine .undefined ?_
    apply hunknown
    by_contra hlost
    obtain ⟨p, hp, -⟩ := h.lost (by simpa using hlost)
    rw [hdata] at hp
    cases hp
  | some arg =>
    refine .go (v := w) (k := j + 1) ?_ (left_bit h.word hlt) ?_
    · refine h.next_entry hlt rfl rfl rfl rfl (h.next_ns arg hdata) ?_ ?_
      · intro p hp
        exact h.next_ns p (hdata.trans hp)
      · intro _
        exact ⟨arg, rfl, fun _ => rfl⟩
    · intro hclean
      have hlost : it.in_namespace = false := by
        by_contra hin
        exact hunknown (by simpa using hin) hclean
      obtain ⟨p, hp, hsame⟩ := h.lost hlost
      rw [hdata] at hp
      have hat := hsame hclean
      rw [← Option.some.inj hp] at hat
      exact hat.ge

/-- The one entry of the table without a size is the one of bit 18. -/
theorem unclean_of_unsized (h : At it_len present w j it)
    (hbit : (present.getD w 0).getLsbD j = true) {size : ℕ}
    (hfield : rtap_namespace_sizes[it.arg_index]? = some (0, size)) : ¬ Clean present := by
  intro hclean
  have hindex := h.index
  have hword := h.word
  have hsmall : it.arg_index < 24 := (List.getElem?_eq_some_iff.mp hfield).1
  have hentry : ∀ i < 24, rtap_namespace_sizes[i]?.map Prod.fst = some 0 → i = 18 := by decide
  have h18 := hentry it.arg_index hsmall (by rw [hfield]; rfl)
  have hj : j = 18 := by omega
  rw [List.getD_eq_getElem _ _ hword, hj, hclean _ (List.getElem_mem hword)] at hbit
  cases hbit

/-- A field of the radiotap namespace that has its bytes inside of the header. -/
theorem field_comes (h : At it_len present w j it) (hlt : j < 31) (hin : it.in_namespace = true)
    {align size : ℕ} (hfield : rtap_namespace_sizes[it.arg_index]? = some (align, size)) {arg : ℕ}
    (hle : it.arg ≤ arg) (hdvd : align ∣ arg) (hroom : arg + size ≤ it.max_length) :
    Comes it_len present w j it (.hit (it.taken arg size).next_entry) := by
  refine .hit (v := w) (k := j + 1) ?_ (left_bit h.word hlt) ⟨?_, ?_, ?_⟩ hle rfl
  · refine h.next_entry hlt rfl rfl rfl rfl ?_ h.next_ns ?_
    · exact (h.data.trans hle).trans (Nat.le_add_right _ _)
    · intro hlost
      rw [show (it.taken arg size).in_namespace = it.in_namespace from rfl, hin] at hlost
      cases hlost
  · exact h.data.trans hle
  · rw [← h.len]
    exact hroom
  · exact Or.inr ⟨align, hfield, hdvd⟩

/-- The bits of the namespaces and of the extension: their fields have no table. -/
theorem namespace_comes (hp : Presents r it_len present) (h : At it_len present w j it)
    (hbit : (present.getD w 0).getLsbD j = true)
    (hns : j = IEEE80211_RADIOTAP_RADIOTAP_NAMESPACE ∨ j = IEEE80211_RADIOTAP_EXT) :
    Comes it_len present w j it (it.round r) := by
  have hne : j ≠ IEEE80211_RADIOTAP_VENDOR_NAMESPACE := by
    rcases hns with rfl | rfl <;> decide
  unfold Iterator.round Iterator.field
  rw [h.present_bit, h.index, hbit]
  dsimp only
  rw [if_neg (by simp), if_neg (by simp), if_pos hns]
  dsimp only
  rw [if_neg hne]
  simp only [Nat.mod_one, ne_eq, not_true_eq_false, if_false]
  by_cases hlong : (it.taken it.arg 0).arg > (it.taken it.arg 0).max_length
  · rw [if_pos hlong]
    exact .einval
  rw [if_neg hlong]
  by_cases hradiotap : j = IEEE80211_RADIOTAP_RADIOTAP_NAMESPACE
  · rw [if_pos hradiotap]
    exact radiotap_comes h hradiotap
  · obtain rfl : j = 31 := hns.resolve_left hradiotap
    rw [if_neg hradiotap, if_pos (show 31 = IEEE80211_RADIOTAP_EXT from rfl)]
    exact extend_comes hp h hbit

/-- Every other bit that is set: a field of the table, one without a size, or one behind it. -/
theorem set_comes (h : At it_len present w j it) (hbit : (present.getD w 0).getLsbD j = true)
    (hns : ¬ (j = IEEE80211_RADIOTAP_RADIOTAP_NAMESPACE ∨ j = IEEE80211_RADIOTAP_EXT))
    (hvendor : j ≠ IEEE80211_RADIOTAP_VENDOR_NAMESPACE) :
    Comes it_len present w j it (it.round r) := by
  obtain ⟨hradiotap, hext⟩ := not_or.mp hns
  have hlt : j < 31 := by
    have hle := h.bit
    have hne : j ≠ 31 := hext
    omega
  unfold Iterator.round Iterator.field
  rw [h.present_bit, h.index, hbit]
  dsimp only
  rw [if_neg (by simp), if_neg (by simp), if_neg hns, if_neg hvendor]
  cases hin : it.in_namespace with
  | false =>
    simp only [Bool.not_false, if_true]
    exact skip_comes h hlt (by simp [hin])
  | true =>
    simp only [Bool.not_true, Bool.false_eq_true, if_false]
    cases hfield : rtap_namespace_sizes[it.arg_index]? with
    | none => exact .enoent
    | some f =>
      obtain ⟨align, size⟩ := f
      dsimp only
      by_cases hzero : align = 0
      · rw [if_pos hzero]
        subst hzero
        exact skip_comes h hlt fun _ => unclean_of_unsized h hbit hfield
      rw [if_neg hzero]
      dsimp only
      rw [if_neg hvendor]
      obtain ⟨hle, hdvd, -⟩ := padded_spec (Nat.pos_of_ne_zero hzero) it.arg
      generalize (if it.arg % align ≠ 0 then it.arg + (align - it.arg % align) else it.arg) = arg
        at hle hdvd ⊢
      by_cases hlong : (it.taken arg size).arg > (it.taken arg size).max_length
      · rw [if_pos hlong]
        exact .einval
      · rw [if_neg hlong, if_neg hradiotap, if_neg hext]
        exact field_comes h hlt hin hfield hle hdvd (Nat.le_of_not_lt hlong)

theorem round_comes (hp : Presents r it_len present) (h : At it_len present w j it) :
    Comes it_len present w j it (it.round r) := by
  cases hbit : (present.getD w 0).getLsbD j with
  | false => exact clear_comes h hbit
  | true =>
    by_cases hns : j = IEEE80211_RADIOTAP_RADIOTAP_NAMESPACE ∨ j = IEEE80211_RADIOTAP_EXT
    · exact namespace_comes hp h hbit hns
    by_cases hvendor : j = IEEE80211_RADIOTAP_VENDOR_NAMESPACE
    · unfold Iterator.round Iterator.field
      rw [h.present_bit, h.index, hbit]
      dsimp only
      rw [if_neg (by simp), if_neg (by simp), if_neg hns, if_pos hvendor]
      dsimp only
      rw [if_pos hvendor]
      obtain ⟨hle, hdvd, -⟩ := padded_spec (by decide : 0 < 2) it.arg
      exact vendor_comes hp h hvendor hle hdvd
    · exact set_comes h hbit hns hvendor

end

/-! ## What is read -/

section

variable {v r : Reach}

theorem vendor_of_less (hbytes : v.bytes = r.bytes) (hlimit : v.limit ≤ r.limit) {it : Iterator}
    {arg : ℕ} (h : it.vendor v arg ≠ .outside) : it.vendor r arg = it.vendor v arg := by
  unfold Iterator.vendor at h ⊢
  split
  · rfl
  · next hroom =>
    rw [if_neg hroom] at h
    cases hread : v.read arg 6 with
    | none =>
      rw [hread] at h
      exact absurd rfl h
    | some p => rw [Reach.read_of_less hbytes hlimit hread]

theorem extend_of_less (hbytes : v.bytes = r.bytes) (hlimit : v.limit ≤ r.limit) {it : Iterator}
    (h : it.extend v ≠ .outside) : it.extend r = it.extend v := by
  unfold Iterator.extend get_le32 at h ⊢
  cases hread : v.read it.next_bitmap 4 with
  | none =>
    rw [hread] at h
    exact absurd rfl h
  | some p => rw [Reach.read_of_less hbytes hlimit hread]

/-- A round that reads nothing out of reach is the same with more in reach. -/
theorem round_of_less (hbytes : v.bytes = r.bytes) (hlimit : v.limit ≤ r.limit) {it : Iterator}
    (h : it.round v ≠ .outside) : it.round r = it.round v := by
  unfold Iterator.round at h ⊢
  dsimp only at h ⊢
  split
  · rfl
  next hlast =>
  rw [if_neg hlast] at h
  split
  · rfl
  next hset =>
  rw [if_neg hset] at h
  cases hfield : it.field with
  | stop => rfl
  | skip => rfl
  | known align size =>
    simp only [hfield] at h ⊢
    generalize (if it.arg % align ≠ 0 then it.arg + (align - it.arg % align) else it.arg) = arg
      at h ⊢
    split
    · next hvendor =>
      rw [if_pos hvendor] at h
      exact vendor_of_less hbytes hlimit h
    next hvendor =>
    rw [if_neg hvendor] at h
    split
    · rfl
    next hroom =>
    rw [if_neg hroom] at h
    split
    · rfl
    next hradiotap =>
    rw [if_neg hradiotap] at h
    split
    · next hext =>
      rw [if_pos hext] at h
      exact extend_of_less hbytes hlimit h
    · rfl

theorem walk_of_less (hbytes : v.bytes = r.bytes) (hlimit : v.limit ≤ r.limit) (fuel : ℕ)
    (it : Iterator) (h : (walk v fuel it).2 ≠ .outside) : walk r fuel it = walk v fuel it := by
  induction fuel generalizing it with
  | zero => rfl
  | succ fuel ih =>
    unfold walk at h ⊢
    have hround : it.round v ≠ .outside := by
      intro hout
      rw [hout] at h
      exact h rfl
    rw [round_of_less hbytes hlimit hround]
    cases hcase : it.round v with
    | hit it' =>
      rw [hcase] at h
      dsimp only at h ⊢
      rw [ih it' h]
    | go it' =>
      rw [hcase] at h
      exact ih it' h
    | enoent => rfl
    | einval => rfl
    | undefined => rfl
    | outside => rfl

theorem skip_ext_eq (hbytes : v.bytes = r.bytes) {max_length : ℕ} (hv : max_length ≤ v.limit)
    (hr : max_length ≤ r.limit) (fuel off : ℕ) :
    skip_ext v max_length fuel off = skip_ext r max_length fuel off := by
  induction fuel generalizing off with
  | zero => rfl
  | succ fuel ih =>
    unfold skip_ext
    split
    · rfl
    · rw [get_le32_eq (by omega), get_le32_eq (by omega), hbytes, ih]

/-- The length that a header declares. -/
theorem declared_eq (b : Bytes) : (rd16 ((b.drop 2).take 2) 0).toNat = it_len b := by
  apply congrArg BitVec.toNat
  apply mt7612u.rd16_congr
  intro i hi
  rw [Nat.zero_add]
  exact mt7612u.byteAt_read b 2 hi

/-- The first eight bytes and what the header declares. -/
def own_reach (r : Reach) : Reach := Reach.upto r.bytes (max 8 (it_len r.bytes))

/-- An accepted header has the length that it declares. -/
theorem max_length_eq {max_length : ℕ} (hmax : max_length ≤ r.limit) {it : Iterator}
    (h : iterator_init r max_length = some (some it)) : it.max_length = it_len r.bytes := by
  unfold iterator_init at h
  by_cases hshort : max_length < 8
  · rw [if_pos hshort] at h
    cases h
  rw [if_neg hshort, Reach.read_eq (by omega), Reach.read_eq (by omega),
    get_le32_eq (by omega)] at h
  simp only [Option.bind_eq_bind, Option.bind_some] at h
  split at h
  · cases h
  split at h
  · cases h
  split at h
  · obtain ⟨data, -, hdata⟩ := Option.bind_eq_some_iff.mp h
    obtain ⟨arg, -, rfl⟩ := Option.map_eq_some_iff.mp (Option.some.inj hdata)
    exact declared_eq r.bytes
  · obtain ⟨arg, -, rfl⟩ := Option.map_eq_some_iff.mp (Option.some.inj h)
    exact declared_eq r.bytes

/-- The initialisation reads no more than the first eight bytes and what the header declares. -/
theorem iterator_init_own {max_length : ℕ} (hmax : max_length ≤ r.limit) :
    iterator_init (own_reach r) max_length = iterator_init r max_length := by
  have hin := r.inside
  have hlimit : (own_reach r).limit = min (max 8 (it_len r.bytes)) r.bytes.length := rfl
  have hbytes : (own_reach r).bytes = r.bytes := rfl
  unfold iterator_init
  by_cases hshort : max_length < 8
  · rw [if_pos hshort, if_pos hshort]
  rw [if_neg hshort, if_neg hshort, Reach.read_eq (by omega), Reach.read_eq (by omega),
    get_le32_eq (by omega), Reach.read_eq (by omega), Reach.read_eq (by omega),
    get_le32_eq (by omega), hbytes]
  simp only [Option.bind_eq_bind, Option.bind_some]
  split
  · rfl
  rw [declared_eq]
  by_cases hlong : max_length < it_len r.bytes
  · rw [if_pos hlong, if_pos hlong]
  rw [if_neg hlong, if_neg hlong, skip_ext_eq hbytes (by omega) (by omega)]

end

/-! ## Whole headers -/

section

variable {r : Reach} {it_len : ℕ} {present : List (BitVec 32)}

/-- What holds of the arguments handed out from `arg` on, and of how the calls end. -/
structure Sound (it_len : ℕ) (present : List (BitVec 32)) (arg : ℕ) (x : List Arg × End) :
    Prop where
  ends : x.2 ≠ .spins ∧ x.2 ≠ .outside
  undefined : x.2 = .undefined → ¬ Clean present
  fits : ∀ a ∈ x.1, a.Fits it_len present
  from_arg : Clean present → ∀ a ∈ x.1, arg ≤ a.off
  apart : Clean present → x.1.Pairwise fun a b => a.off + a.size ≤ b.off

theorem walk_sound (hp : Presents r it_len present) {w j : ℕ} {it : Iterator}
    (h : At it_len present w j it) {fuel : ℕ} (hfuel : left present w j ≤ fuel) :
    Sound it_len present it.arg (walk r fuel it) := by
  induction fuel generalizing w j it with
  | zero =>
    have hword := h.word
    have hbit := h.bit
    unfold left at hfuel
    omega
  | succ fuel ih =>
    have hcomes := round_comes hp h
    unfold walk
    cases hround : it.round r with
    | enoent => exact ⟨by simp, by simp, by simp, by simp, by simp⟩
    | einval => exact ⟨by simp, by simp, by simp, by simp, by simp⟩
    | undefined =>
      rw [hround] at hcomes
      cases hcomes with
      | undefined hunclean => exact ⟨by simp, fun _ => hunclean, by simp, by simp, by simp⟩
    | outside =>
      rw [hround] at hcomes
      cases hcomes
    | go it' =>
      rw [hround] at hcomes
      cases hcomes with
      | go at' less on =>
        have hrest := ih at' (by omega)
        refine ⟨hrest.ends, hrest.undefined, hrest.fits, ?_, hrest.apart⟩
        intro hclean a ha
        exact (on hclean).trans (hrest.from_arg hclean a ha)
    | hit it' =>
      rw [hround] at hcomes
      cases hcomes with
      | hit at' less fits on behind =>
        have hrest := ih at' (by omega)
        refine ⟨hrest.ends, hrest.undefined, ?_, ?_, ?_⟩
        · intro a ha
          rcases List.mem_cons.mp ha with rfl | ha
          · exact fits
          · exact hrest.fits a ha
        · intro hclean a ha
          rcases List.mem_cons.mp ha with rfl | ha
          · exact on
          · have hlater := hrest.from_arg hclean a ha
            rw [behind] at hlater
            omega
        · intro hclean
          refine List.Pairwise.cons ?_ (hrest.apart hclean)
          intro b hb
          have hlater := hrest.from_arg hclean b hb
          rw [behind] at hlater
          exact hlater

theorem at_start (hp : Presents r it_len present) {it : Iterator} (h : Starts r present it)
    (hlen : it.max_length = it_len) : At it_len present 0 0 it := by
  have hsome := hp.some
  rw [h.eq]
  refine ⟨hlen, hsome, by omega, ?_, rfl, rfl, le_rfl, by simp, by simp⟩
  cases present with
  | nil => cases hsome
  | cons word words => simp

end

/-- Every header is read inside of its first eight bytes and of what it declares: the initialisation
and the calls behind it are the same where no more than that is in reach, they read nothing out of
reach, and the calls come to an end. Each argument stands inside of the header, where its field has
to stand. A pointer that nobody set is used only where a present word has the bit that the radiotap
namespace gives no size. Without that bit the arguments stand one behind the other. -/
theorem iterator_safe (r : Reach) (max_length : ℕ) (hmax : max_length ≤ r.limit) :
    ∃ x, iterator_init r max_length = some x ∧ iterator_init (own_reach r) max_length = some x ∧
      ∀ it, x = some it → it.max_length = it_len r.bytes ∧ it.max_length ≤ max_length ∧
        ∃ present, Presents r it.max_length present ∧
          ∀ fuel, 32 * present.length ≤ fuel →
            consume (own_reach r) fuel fuel it = consume r fuel fuel it ∧
            Sound it.max_length present (data_start present) (consume r fuel fuel it) := by
  obtain ⟨x, hx, hspec⟩ := iterator_init_spec hmax
  refine ⟨x, hx, (iterator_init_own hmax).trans hx, ?_⟩
  intro it hit
  obtain ⟨hle, present, hstarts⟩ := hspec it hit
  have hdeclared : it.max_length = it_len r.bytes :=
    max_length_eq hmax (hx.trans (congrArg some hit))
  refine ⟨hdeclared, hle, present, hstarts.presents, ?_⟩
  intro fuel hfuel
  have hat := at_start hstarts.presents hstarts rfl
  have hleft : left present 0 0 ≤ fuel := by
    unfold left
    omega
  have hlimit : (own_reach r).limit = max 8 (it_len r.bytes) := by
    have hin := r.inside
    have hfirst := hstarts.presents.first
    apply Reach.limit_upto
    omega
  have hown : Presents (own_reach r) it.max_length present :=
    ⟨hstarts.presents.toChain, by omega, by omega, hstarts.presents.inside⟩
  have hwalk := walk_sound hown hat hleft
  have hless : (own_reach r).limit ≤ r.limit := by
    have hfirst := hstarts.presents.first
    omega
  have hsame : walk r fuel it = walk (own_reach r) fuel it :=
    walk_of_less (v := own_reach r) (r := r) rfl hless fuel it hwalk.ends.2
  have harg : it.arg = data_start present := congrArg Iterator.arg hstarts.eq
  rw [harg] at hwalk
  rw [consume_eq_walk r fuel it (by rw [hsame]; exact hwalk.ends.1) le_rfl le_rfl,
    consume_eq_walk (own_reach r) fuel it hwalk.ends.1 le_rfl le_rfl, hsame]
  exact ⟨rfl, hwalk⟩

/-- A header with a channel and a vendor namespace of two bytes, chained to a second word. -/
def vendor_header : Reach :=
  Reach.upto
    [0, 0, 26, 0, 8, 0, 0, 0xc0, 0, 0, 0, 0, 0x3c, 0x14, 0, 0, 1, 2, 3, 0, 2, 0, 9, 9, 0, 0] 26

theorem vendor_header_safe : ∃ x, iterator_init vendor_header 26 = some x ∧
    iterator_init (own_reach vendor_header) 26 = some x ∧
    ∀ it, x = some it → it.max_length = it_len vendor_header.bytes ∧ it.max_length ≤ 26 ∧
      ∃ present, Presents vendor_header it.max_length present ∧
        ∀ fuel, 32 * present.length ≤ fuel →
          consume (own_reach vendor_header) fuel fuel it = consume vendor_header fuel fuel it ∧
          Sound it.max_length present (data_start present) (consume vendor_header fuel fuel it) :=
  iterator_safe vendor_header 26 le_rfl

example : (iterator_init vendor_header 26).map (Option.map (walk vendor_header 64)) =
    some (some ([⟨3, 12, 4⟩, ⟨30, 16, 8⟩], .enoent)) := by decide

/-! ## The parser of the MT7612U

It walks the same header by a table of its own, over a list of the present bits. -/

/-- A present word of fields only, each with a size. -/
def Plain (word : BitVec 32) : Prop :=
  word.getLsbD 18 = false ∧ word.getLsbD IEEE80211_RADIOTAP_RADIOTAP_NAMESPACE = false ∧
    word.getLsbD IEEE80211_RADIOTAP_VENDOR_NAMESPACE = false

theorem sizes_eq : rtap_namespace_sizes = rt_field := rfl

/-- Each entry of the table but one has an alignment and a size. -/
theorem field_known {i align size : ℕ} (h : rt_field[i]? = some (align, size)) (hne : i ≠ 18) :
    0 < align ∧ size ≠ 0 := by
  have hall : ∀ i < 24, i ≠ 18 → 0 < (rt_field.getD i (0, 0)).1 ∧
      (rt_field.getD i (0, 0)).2 ≠ 0 := by
    decide
  have hsmall : i < 24 := by
    by_contra hlarge
    have hlength : rt_field.length = 24 := rfl
    rw [List.getElem?_eq_none (by omega)] at h
    cases h
  have hentry := hall i hsmall hne
  rw [List.getD_eq_getElem?_getD, h] at hentry
  exact hentry

section

variable {r : Reach} {it_len : ℕ} {present : List (BitVec 32)} {w j : ℕ} {it : Iterator}

/-- In words of fields only the index counts the bits through, and the namespace stays. -/
structure Steady (it_len : ℕ) (present : List (BitVec 32)) (w j : ℕ) (it : Iterator) : Prop
    extends At it_len present w j it where
  counts : it.arg_index = 32 * w + j
  keeps : it.reset_on_ext = false
  stays : it.in_namespace = true

theorem Steady.next_entry (h : Steady it_len present w j it) (hj : j < 31) {it' : Iterator}
    (hlen : it'.max_length = it.max_length) (hshifter : it'.bitmap_shifter = it.bitmap_shifter)
    (hindex : it'.arg_index = it.arg_index) (hbitmap : it'.next_bitmap = it.next_bitmap)
    (hdata : it.arg ≤ it'.arg) (hnext_ns : it'.next_ns_data = it.next_ns_data)
    (hkeeps : it'.reset_on_ext = it.reset_on_ext) (hstays : it'.in_namespace = it.in_namespace) :
    Steady it_len present w (j + 1) it'.next_entry := by
  refine ⟨h.toAt.next_entry hj hlen hshifter hindex hbitmap (h.data.trans hdata) ?_ ?_, ?_,
    hkeeps.trans h.keeps, hstays.trans h.stays⟩
  · rw [hnext_ns]
    exact h.next_ns
  · rw [hstays, h.stays]
    simp
  · change it'.arg_index + 1 = _
    rw [hindex, h.counts, Nat.add_assoc]

theorem round_clear (h : Steady it_len present w j it)
    (hclear : (present.getD w 0).getLsbD j = false) (hj : j < 31) :
    it.round r = .go it.next_entry := by
  have hext : j ≠ IEEE80211_RADIOTAP_EXT := Nat.ne_of_lt hj
  unfold Iterator.round
  rw [h.present_bit, h.index, hclear]
  simp [hext]

theorem round_last (h : Steady it_len present w 31 it)
    (hclear : (present.getD w 0).getLsbD 31 = false) : it.round r = .enoent := by
  unfold Iterator.round
  rw [h.present_bit, h.index, hclear]
  simp [IEEE80211_RADIOTAP_EXT]

/-- The last bit leads to the next word, unless the fields went past the header. -/
theorem round_ext (hp : Presents r it_len present) (h : Steady it_len present w 31 it)
    (hbit : (present.getD w 0).getLsbD 31 = true) (hin : it.arg ≤ it_len) :
    ∃ it', it.round r = .go it' ∧ it'.arg = it.arg ∧ Steady it_len present (w + 1) 0 it' := by
  obtain ⟨hnext, heq⟩ := extend_eq hp h.toAt hbit (it.taken it.arg 0) rfl
  have hfield : it.field = .known 1 0 := by
    unfold Iterator.field
    rw [h.index]
    rfl
  have hlen := h.len
  have hround : it.round r = (it.taken it.arg 0).extend r := by
    unfold Iterator.round
    rw [h.present_bit, h.index, hbit, hfield]
    have hroom : ¬ (it.taken it.arg 0).arg > (it.taken it.arg 0).max_length := by
      change ¬ it.arg > it.max_length
      omega
    simp [IEEE80211_RADIOTAP_EXT, IEEE80211_RADIOTAP_VENDOR_NAMESPACE,
      IEEE80211_RADIOTAP_RADIOTAP_NAMESPACE, Nat.mod_one, hroom]
  have hreset : (it.taken it.arg 0).reset_on_ext = false := h.keeps
  have hcount : (it.taken it.arg 0).arg_index + 1 = 32 * (w + 1) + 0 := by
    change it.arg_index + 1 = _
    rw [h.counts]
    omega
  rw [heq, hreset, hcount] at hround
  refine ⟨_, hround, rfl, h.toAt.next_word hnext rfl rfl ?_ rfl rfl rfl rfl, ?_, rfl, h.stays⟩
  · simp
  · simp

/-- A field that is present is taken behind its pad, or it is not known, or it is too long. -/
theorem round_field (h : Steady it_len present w j it) (hplain : Plain (present.getD w 0))
    (hj : j < 31) (hbit : (present.getD w 0).getLsbD j = true) :
    it.round r = match rt_field[32 * w + j]? with
      | none => .enoent
      | some (align, size) =>
        if Layout.alignUp align it.arg + size > it_len then .einval
        else .hit (it.taken (Layout.alignUp align it.arg) size).next_entry := by
  obtain ⟨h18, h29, h30⟩ := hplain
  have hbits : j ≠ 18 ∧ j ≠ IEEE80211_RADIOTAP_RADIOTAP_NAMESPACE ∧
      j ≠ IEEE80211_RADIOTAP_VENDOR_NAMESPACE := by
    refine ⟨?_, ?_, ?_⟩
    · rintro rfl
      rw [h18] at hbit
      cases hbit
    · rintro rfl
      rw [h29] at hbit
      cases hbit
    · rintro rfl
      rw [h30] at hbit
      cases hbit
  obtain ⟨hne18, hne29, hne30⟩ := hbits
  have hne31 : j ≠ IEEE80211_RADIOTAP_EXT := Nat.ne_of_lt hj
  have hlen := h.len
  unfold Iterator.round Iterator.field
  rw [h.present_bit, h.index, hbit, h.stays]
  dsimp only
  rw [if_neg (by simp), if_neg (by simp), if_neg (not_or.mpr ⟨hne29, hne31⟩), if_neg hne30,
    if_neg (by simp), sizes_eq, h.counts]
  cases hfield : rt_field[32 * w + j]? with
  | none => rfl
  | some f =>
    obtain ⟨align, size⟩ := f
    have hpos : align ≠ 0 := by
      have hsmall : 32 * w + j ≠ 18 := by omega
      have hknown := (field_known hfield hsmall).1
      omega
    obtain ⟨hle, hdvd, hlt⟩ := padded_spec (show 0 < align by omega) it.arg
    dsimp only
    rw [if_neg hpos]
    dsimp only
    rw [if_neg hne30, if_neg hne29, if_neg hne31, ← Layout.alignUp_eq hdvd hle hlt]
    change (if Layout.alignUp align it.arg + size > it.max_length then _ else _) = _
    rw [hlen]

/-- Behind the first word there is no field that either table knows. -/
theorem walk_behind (hp : Presents r it_len present) (hplain : ∀ word ∈ present, Plain word)
    {fuel : ℕ} (h : Steady it_len present (w + 1) j it) (hin : it.arg ≤ it_len)
    (hfuel : left present (w + 1) j ≤ fuel) : walk r fuel it = ([], .enoent) := by
  induction fuel generalizing w j it with
  | zero =>
    have hword := h.word
    have hbit := h.bit
    unfold left at hfuel
    omega
  | succ fuel ih =>
    have hword := h.word
    have hmem : present.getD (w + 1) 0 ∈ present := by
      rw [List.getD_eq_getElem _ _ hword]
      exact List.getElem_mem hword
    unfold walk
    rcases Nat.lt_or_eq_of_le (Nat.le_of_lt_succ h.bit) with hj | rfl
    · cases hbit : (present.getD (w + 1) 0).getLsbD j with
      | false =>
        rw [round_clear h hbit hj]
        have hless := left_bit hword hj
        exact ih (h.next_entry hj rfl rfl rfl rfl le_rfl rfl rfl rfl) hin (by omega)
      | true =>
        have hnone : rt_field[32 * (w + 1) + j]? = none := by
          apply List.getElem?_eq_none
          have hlength : rt_field.length = 24 := rfl
          omega
        rw [round_field h (hplain _ hmem) hj hbit, hnone]
    · cases hbit : (present.getD (w + 1) 0).getLsbD 31 with
      | false => rw [round_last h hbit]
      | true =>
        obtain ⟨it', hround, harg, hsteady⟩ := round_ext hp h hbit hin
        rw [hround]
        have hless := left_word hword
        exact ih hsteady (harg ▸ hin) (by omega)

/-- The present bits of the first word, from bit `j` on. -/
def bits_from (present : List (BitVec 32)) (j : ℕ) : List ℕ :=
  (List.range' j (31 - j)).filter fun b => (present.getD 0 0).getLsbD b

theorem bits_from_succ (hj : j < 31) : bits_from present j =
    if (present.getD 0 0).getLsbD j then j :: bits_from present (j + 1)
    else bits_from present (j + 1) := by
  have hrange : List.range' j (31 - j) = j :: List.range' (j + 1) (31 - (j + 1)) := by
    rw [show 31 - j = (31 - (j + 1)) + 1 by omega, List.range'_succ]
  rw [bits_from, hrange, List.filter_cons]
  rfl

/-- What the parser returns, by how the calls of the iterator end. -/
def returned (it_len : ℕ) : End → ℤ
  | .einval => -1
  | _ => it_len

/-- What the fields say, one after another. -/
def taken (b : Bytes) (present0 : BitVec 32) (args : List Arg) (rate : TxRate) : TxRate :=
  args.foldl (fun rate a => rt_take b present0 a.index a.off rate) rate

theorem walk_fields (hp : Presents r it_len present) (hplain : ∀ word ∈ present, Plain word)
    {fuel : ℕ} (h : Steady it_len present 0 j it) (hin : it.arg ≤ it_len)
    (hfuel : left present 0 j ≤ fuel) (rate : TxRate) :
    rt_fields r.bytes it_len (present.getD 0 0) (bits_from present j) it.arg rate =
      (returned it_len (walk r fuel it).2,
        taken r.bytes (present.getD 0 0) (walk r fuel it).1 rate) := by
  induction fuel generalizing j it rate with
  | zero =>
    have hword := h.word
    have hbit := h.bit
    unfold left at hfuel
    omega
  | succ fuel ih =>
    have hword := h.word
    have hmem : present.getD 0 0 ∈ present := by
      rw [List.getD_eq_getElem _ _ hword]
      exact List.getElem_mem hword
    unfold walk
    rcases Nat.lt_or_eq_of_le (Nat.le_of_lt_succ h.bit) with hj | rfl
    · have hless := left_bit hword hj
      rw [bits_from_succ hj]
      cases hbit : (present.getD 0 0).getLsbD j with
      | false =>
        rw [round_clear h hbit hj]
        exact ih (h.next_entry hj rfl rfl rfl rfl le_rfl rfl rfl rfl) hin (by omega) rate
      | true =>
        have hround := round_field (r := r) h (hplain _ hmem) hj hbit
        rw [Nat.mul_zero, Nat.zero_add] at hround
        rw [if_pos rfl, rt_fields, hround]
        cases hfield : rt_field[j]? with
        | none => rfl
        | some f =>
          obtain ⟨align, size⟩ := f
          have hne : j ≠ 18 := by
            rintro rfl
            rw [(hplain _ hmem).1] at hbit
            cases hbit
          obtain ⟨hpos, hsize⟩ := field_known hfield hne
          dsimp only
          rw [if_neg hsize]
          by_cases hlong : Layout.alignUp align it.arg + size > it_len
          · rw [if_pos hlong, if_pos hlong]
            rfl
          · rw [if_neg hlong, if_neg hlong]
            have hup := (Layout.alignUp_spec hpos it.arg).2.1
            have hnext : Steady it_len present 0 (j + 1)
                (it.taken (Layout.alignUp align it.arg) size).next_entry :=
              h.next_entry hj rfl rfl rfl rfl
                (by exact hup.trans (Nat.le_add_right _ _)) rfl rfl rfl
            have hrest := ih hnext (by exact Nat.le_of_not_lt hlong) (by omega)
              (rt_take r.bytes (present.getD 0 0) j (Layout.alignUp align it.arg) rate)
            have hthis : (it.taken (Layout.alignUp align it.arg) size).next_entry.this =
                ⟨j, Layout.alignUp align it.arg, size⟩ := by
              have hcounts := h.counts
              rw [Nat.mul_zero, Nat.zero_add] at hcounts
              unfold Iterator.this Iterator.next_entry Iterator.taken
              rw [hcounts]
            refine Eq.trans hrest ?_
            dsimp only
            rw [hthis]
            rfl
    · have hnil : bits_from present 31 = [] := rfl
      rw [hnil, rt_fields]
      cases hbit : (present.getD 0 0).getLsbD 31 with
      | false =>
        rw [round_last h hbit]
        rfl
      | true =>
        obtain ⟨it', hround, harg, hsteady⟩ := round_ext hp h hbit hin
        rw [hround]
        have hless := left_word hword
        dsimp only
        rw [walk_behind hp hplain hsteady (harg ▸ hin) (by omega)]
        rfl

end

/-- Bits that the table does not know, behind those of the header, change nothing. -/
theorem fields_append {b : Bytes} {rlen : ℕ} {present0 : BitVec 32} (bits : List ℕ) {rest : List ℕ}
    (hrest : ∀ bit ∈ rest, rt_field[bit]? = none) (off : ℕ) (rate : TxRate) :
    rt_fields b rlen present0 (bits ++ rest) off rate =
      rt_fields b rlen present0 bits off rate := by
  induction bits generalizing off rate with
  | nil =>
    cases rest with
    | nil => rfl
    | cons bit rest =>
      simp only [List.nil_append, rt_fields, hrest bit (by simp)]
  | cons bit bits ih =>
    rw [List.cons_append, rt_fields, rt_fields]
    cases rt_field[bit]? with
    | none => rfl
    | some f => simp only [ih]

/-- The present bits are those of the first word, and behind them none that the table knows. -/
theorem bits_split {present : List (BitVec 32)} (h : 0 < present.length) :
    ∃ rest, rt_bits present = bits_from present 0 ++ rest ∧ ∀ bit ∈ rest,
      rt_field[bit]? = none := by
  cases present with
  | nil => cases h
  | cons word words =>
    refine ⟨(words.zipIdx 1).flatMap fun p =>
      ((List.range 31).filter fun b => p.1.getLsbD b).map fun b => 31 * p.2 + b, ?_, ?_⟩
    · unfold rt_bits bits_from
      rw [List.zipIdx_cons, List.flatMap_cons]
      congr 1
      rw [← List.range_eq_range']
      simp
    · intro bit hbit
      obtain ⟨⟨later, w⟩, hmem, hbit⟩ := List.mem_flatMap.mp hbit
      obtain ⟨b, -, rfl⟩ := List.mem_map.mp hbit
      have hw : 1 ≤ w := (List.mem_zipIdx hmem).1
      apply List.getElem?_eq_none
      have hlength : rt_field.length = 24 := rfl
      omega

theorem rt_present_succ (b : Bytes) (rlen left off : ℕ) : rt_present b rlen (left + 1) off =
    if off + 4 > rlen then none
    else if (rd32 b off).getLsbD IEEE80211_RADIOTAP_EXT then
      (rt_present b rlen left (off + 4)).map fun (words, stop) => (rd32 b off :: words, stop)
    else some ([rd32 b off], off + 4) := by
  rw [rt_present]
  rfl

/-- The chain of words that the parser collects, and where it ends. -/
theorem rt_present_spec {b : Bytes} {rlen left off : ℕ} {words : List (BitVec 32)} {stop : ℕ}
    (h : rt_present b rlen left off = some (words, stop)) :
    Chain (fun w => rd32 b (off + 4 * w)) words ∧ stop = off + 4 * words.length ∧ stop ≤ rlen := by
  induction left generalizing off words with
  | zero => cases h
  | succ left ih =>
    rw [rt_present_succ] at h
    by_cases hend : off + 4 > rlen
    · rw [if_pos hend] at h
      cases h
    rw [if_neg hend] at h
    split at h
    · next hext =>
      obtain ⟨⟨later, stop'⟩, hlater, heq⟩ := Option.map_eq_some_iff.mp h
      obtain ⟨rfl, rfl⟩ := Prod.mk.inj heq
      obtain ⟨hchain, hstop, hle⟩ := ih hlater
      simp only [rd32_next] at hchain
      refine ⟨chain_cons (f := fun w => rd32 b (off + 4 * w)) hext hchain, ?_, hle⟩
      rw [List.length_cons]
      omega
    · next hext =>
      obtain ⟨rfl, rfl⟩ := Prod.mk.inj (Option.some.inj h)
      exact ⟨chain_single (f := fun w => rd32 b (off + 4 * w)) hext, by simp, by omega⟩

/-- What the parser of the MT7612U takes for a header. -/
theorem parse_accepts {b : Bytes} (h : (mt_radiotap_parse (some b)).1 ≠ 0) :
    8 ≤ b.length ∧ byteAt b 0 = 0 ∧ 8 ≤ it_len b ∧ it_len b ≤ b.length ∧
      ∃ present off, rt_present b (it_len b) 8 4 = some (present, off) ∧
        mt_radiotap_parse (some b) =
          rt_fields b (it_len b) (present.headD 0) (rt_bits present) off
            { phy := .OFDM, nss := 1 } := by
  unfold mt_radiotap_parse at h ⊢
  dsimp only at h ⊢
  by_cases hshort : b.length < 8 ∨ byteAt b 0 ≠ 0
  · rw [if_pos hshort] at h
    exact absurd rfl h
  rw [if_neg hshort] at h ⊢
  change (if it_len b < 8 ∨ b.length < it_len b then (0, {}) else _ : ℤ × TxRate).1 ≠ 0 at h
  by_cases hlen : it_len b < 8 ∨ b.length < it_len b
  · rw [if_pos hlen] at h
    exact absurd rfl h
  rw [if_neg hlen] at h
  have hlen' : ¬((rd16 b 2).toNat < 8 ∨ b.length < (rd16 b 2).toNat) := hlen
  cases hp : rt_present b (it_len b) 8 4 with
  | none =>
    rw [show rt_present b (rd16 b 2).toNat 8 4 = none from hp] at h
    exact absurd rfl h
  | some x =>
    obtain ⟨present, off⟩ := x
    refine ⟨by omega, by simpa using fun hne => hshort (Or.inr hne), by omega, by omega,
      present, off, rfl, ?_⟩
    rw [if_neg hlen', show rt_present b (rd16 b 2).toNat 8 4 = some (present, off) from hp]
    rfl

/-- The iterator takes every header that the parser takes. -/
theorem init_of_present {b : Bytes} (h8 : 8 ≤ b.length) (hversion : byteAt b 0 = 0)
    (hle : it_len b ≤ b.length) {present : List (BitVec 32)} {off : ℕ}
    (hp : rt_present b (it_len b) 8 4 = some (present, off)) :
    ∃ it, iterator_init (Reach.upto b b.length) b.length = some (some it) ∧
      it.max_length = it_len b := by
  have hlimit : (Reach.upto b b.length).limit = b.length := Reach.limit_upto le_rfl
  have hread : ∀ off, off + 4 ≤ b.length → get_le32 (Reach.upto b b.length) off =
      some (rd32 b off) :=
    fun off hoff => get_le32_eq (by rw [hlimit]; exact hoff)
  have hver : byteAt ((b.drop 0).take 1) 0 = 0 := by
    rw [byteAt_take (by omega), byteAt_drop]
    exact hversion
  have hword := declared_eq b
  -- the loop over the chained words stops where the parser stops
  have hskip : ∀ left off words stop, rt_present b (it_len b) left off = some (words, stop) →
      ∀ fuel, left ≤ fuel →
        skip_ext (Reach.upto b b.length) (it_len b) fuel off = some (some stop) := by
    intro left
    induction left with
    | zero => intro off words stop hnone; cases hnone
    | succ left ih =>
      intro off words stop hsome fuel hfuel
      obtain ⟨fuel, rfl⟩ : ∃ f, fuel = f + 1 := ⟨fuel - 1, by omega⟩
      rw [rt_present_succ] at hsome
      unfold skip_ext
      by_cases hend : off + 4 > it_len b
      · rw [if_pos hend] at hsome
        cases hsome
      rw [if_neg hend] at hsome ⊢
      rw [hread off (by omega)]
      simp only [Option.bind_eq_bind, Option.bind_some]
      split at hsome
      · next hext =>
        obtain ⟨⟨later, stop'⟩, hlater, heq⟩ := Option.map_eq_some_iff.mp hsome
        obtain ⟨-, rfl⟩ := Prod.mk.inj heq
        rw [if_pos hext]
        exact ih _ _ _ hlater fuel (by omega)
      · next hext =>
        obtain ⟨-, rfl⟩ := Prod.mk.inj (Option.some.inj hsome)
        rw [if_neg hext]
  unfold iterator_init
  rw [if_neg (by omega), Reach.read_eq (by rw [hlimit]; omega),
    Reach.read_eq (by rw [hlimit]; omega), hread 4 (by omega)]
  simp only [Option.bind_eq_bind, Option.bind_some, Reach.bytes_upto, hver, hword]
  rw [if_neg (by simp), if_neg (by omega)]
  rw [rt_present_succ] at hp
  have hroom : ¬ 4 + 4 > it_len b := by
    intro hend
    rw [if_pos hend] at hp
    cases hp
  rw [if_neg hroom] at hp
  split at hp
  · next hext =>
    obtain ⟨⟨later, stop'⟩, hlater, -⟩ := Option.map_eq_some_iff.mp hp
    rw [if_pos hext, hskip 7 8 later stop' hlater (it_len b) (by omega)]
    exact ⟨_, rfl, rfl⟩
  · next hext =>
    rw [if_neg hext]
    exact ⟨_, rfl, rfl⟩

/-- On a header that it accepts, with fields in plain words only, the parser of the MT7612U takes
the arguments that the iterator hands out, from the same places and in the same order, and calls the
header malformed exactly if the iterator does. -/
theorem parsers_agree (b : Bytes) (h : (mt_radiotap_parse (some b)).1 ≠ 0)
    (hplain : ∀ present off, rt_present b (it_len b) 8 4 = some (present, off) →
      ∀ word ∈ present, Plain word) :
    ∃ it present, iterator_init (Reach.upto b b.length) b.length = some (some it) ∧
      Presents (Reach.upto b b.length) (it_len b) present ∧
      ∀ fuel, 32 * present.length ≤ fuel →
        let x := consume (Reach.upto b b.length) fuel fuel it
        mt_radiotap_parse (some b) =
          (returned (it_len b) x.2, taken b (present.getD 0 0) x.1 { phy := .OFDM, nss := 1 }) := by
  obtain ⟨h8, hversion, hsome, hle, present, off, hpresent, hparse⟩ := parse_accepts h
  obtain ⟨it, hinit, hlen⟩ := init_of_present h8 hversion hle hpresent
  have hlimit : (Reach.upto b b.length).limit = b.length := Reach.limit_upto le_rfl
  obtain ⟨x, hx, hspec⟩ := iterator_init_spec (r := Reach.upto b b.length) (by rw [hlimit])
  rw [hinit] at hx
  obtain ⟨-, present', hstarts⟩ := hspec it (Option.some.inj hx).symm
  have hp := hstarts.presents
  rw [hlen] at hp
  obtain ⟨hchain, hoff, hstop⟩ := rt_present_spec hpresent
  obtain rfl : present' = present := hp.toChain.unique hchain
  refine ⟨it, present', hinit, hp, ?_⟩
  intro fuel hfuel
  have hat := at_start hp hstarts hlen
  have hleft : left present' 0 0 ≤ fuel := by
    unfold left
    omega
  have hsteady : Steady (it_len b) present' 0 0 it := by
    refine ⟨hat, ?_, ?_, ?_⟩
    · rw [hstarts.eq]
    · rw [hstarts.eq]
    · rw [hstarts.eq]
  have harg : it.arg = off := by
    rw [hstarts.eq, hoff]
    rfl
  have hin : it.arg ≤ it_len b := by rw [harg]; exact hstop
  have hwords := hplain present' off hpresent
  obtain ⟨rest, hbits, hrest⟩ := bits_split hchain.some
  have hend := (walk_sound hp hat hleft).ends.1
  dsimp only
  rw [consume_eq_walk _ fuel it hend le_rfl le_rfl, hparse, hbits, fields_append _ hrest, ← harg]
  have hhead : present'.headD 0 = present'.getD 0 0 := by
    cases present' <;> rfl
  rw [hhead]
  exact walk_fields hp hwords hsteady hin hleft _

/-- A header with flags and an MCS, in front of a frame of two bytes. -/
def mcs_packet : Bytes := [0, 0, 13, 0, 0, 0x80, 8, 0, 8, 0, 0x37, 1, 7, 0x88, 0]

theorem mcs_packet_agrees :
    ∃ it present, iterator_init (Reach.upto mcs_packet mcs_packet.length) mcs_packet.length =
        some (some it) ∧
      Presents (Reach.upto mcs_packet mcs_packet.length) (it_len mcs_packet) present ∧
      ∀ fuel, 32 * present.length ≤ fuel →
        let x := consume (Reach.upto mcs_packet mcs_packet.length) fuel fuel it
        mt_radiotap_parse (some mcs_packet) = (returned (it_len mcs_packet) x.2,
          taken mcs_packet (present.getD 0 0) x.1 { phy := .OFDM, nss := 1 }) := by
  refine parsers_agree mcs_packet (by decide) ?_
  intro present off hpresent
  have hwords : rt_present mcs_packet (it_len mcs_packet) 8 4 = some ([0x88000], 8) := by decide
  rw [hwords] at hpresent
  obtain ⟨rfl, -⟩ := Prod.mk.inj (Option.some.inj hpresent)
  intro word hword
  rw [List.mem_singleton.mp hword]
  unfold Plain
  decide

/-! ## One present word -/

/-- The iterator stands on a bit of a word that is not chained. -/
structure Unchained (j : ℕ) (it : Iterator) : Prop where
  index : it.arg_index = j
  bit : j < 32
  last : it.bitmap_shifter.getLsbD (31 - j) = false

theorem Unchained.next_entry {j : ℕ} {it it' : Iterator} (h : Unchained j it) (hj : j ≠ 31)
    (hindex : it'.arg_index = it.arg_index) (hshifter : it'.bitmap_shifter = it.bitmap_shifter) :
    Unchained (j + 1) it'.next_entry := by
  have hbit := h.bit
  have hplace : 1 + (31 - (j + 1)) = 31 - j := by omega
  refine ⟨?_, by omega, ?_⟩
  · show it'.arg_index + 1 = _
    rw [hindex, h.index]
  · show (it'.bitmap_shifter >>> 1).getLsbD _ = _
    rw [BitVec.getLsbD_ushiftRight, hplace, hshifter, h.last]

/-- What a round on bit `j` may come to: the argument of that bit, or none. -/
inductive Rises (j : ℕ) : Round → Prop
  | go {it : Iterator} (next : Unchained (j + 1) it) : Rises j (.go it)
  | hit {it : Iterator} (next : Unchained (j + 1) it) (this : it.this_arg_index = j) :
      Rises j (.hit it)
  | enoent : Rises j .enoent
  | einval : Rises j .einval
  | undefined : Rises j .undefined
  | outside : Rises j .outside

theorem vendor_rises (r : Reach) {it : Iterator} (h : Unchained 30 it) (arg : ℕ) :
    Rises 30 (it.vendor r arg) := by
  unfold Iterator.vendor
  split
  · exact .einval
  · cases r.read arg 6 with
    | none => exact .outside
    | some p =>
      dsimp only
      split
      · exact .einval
      · exact .hit (h.next_entry (by decide) rfl rfl) rfl

theorem round_rises (r : Reach) {j : ℕ} {it : Iterator} (h : Unchained j it) :
    Rises j (it.round r) := by
  have hmod : it.arg_index % 32 = j := by
    rw [h.index]
    exact Nat.mod_eq_of_lt h.bit
  unfold Iterator.round
  dsimp only
  rw [hmod]
  by_cases hlast : j = 31
  · subst hlast
    have hclear : it.bitmap_shifter.getLsbD 0 = false := h.last
    rw [hclear, if_pos ⟨rfl, rfl⟩]
    exact .enoent
  rw [if_neg fun hend => hlast hend.1]
  split
  · exact .go (h.next_entry hlast rfl rfl)
  · cases it.field with
    | stop => exact .enoent
    | skip =>
      cases it.next_ns_data with
      | none => exact .undefined
      | some arg => exact .go (h.next_entry hlast rfl rfl)
    | known align size =>
      dsimp only
      generalize (if it.arg % align ≠ 0 then it.arg + (align - it.arg % align) else it.arg) = arg
      split
      · next hvendor =>
        obtain rfl : j = 30 := hvendor
        exact vendor_rises r h _
      · split
        · exact .einval
        · split
          · exact .go (h.next_entry hlast rfl rfl)
          · have hnoext : ¬ j = IEEE80211_RADIOTAP_EXT := hlast
            rw [if_neg hnoext]
            exact .hit (h.next_entry hlast rfl rfl) h.index

/-- The fields of one word come in the order of its bits, each once. -/
theorem walk_rises (r : Reach) {j : ℕ} {it : Iterator} (h : Unchained j it) {fuel : ℕ}
    (hfuel : 32 - j ≤ fuel) : (walk r fuel it).2 ≠ .spins ∧
      (∀ a ∈ (walk r fuel it).1, j ≤ a.index) ∧
      (walk r fuel it).1.Pairwise fun a b => a.index < b.index := by
  induction fuel generalizing j it with
  | zero =>
    have hbit := h.bit
    omega
  | succ fuel ih =>
    have hrises := round_rises r h
    unfold walk
    cases hround : it.round r with
    | enoent => simp
    | einval => simp
    | undefined => simp
    | outside => simp
    | go it' =>
      rw [hround] at hrises
      cases hrises with
      | go next =>
        obtain ⟨hends, hfrom, hsorted⟩ := ih next (by omega)
        exact ⟨hends, fun a ha => Nat.le_of_succ_le (hfrom a ha), hsorted⟩
    | hit it' =>
      rw [hround] at hrises
      cases hrises with
      | hit next this =>
        obtain ⟨hends, hfrom, hsorted⟩ := ih next (by omega)
        refine ⟨hends, List.forall_mem_cons.mpr
          ⟨this.ge, fun a ha => Nat.le_of_succ_le (hfrom a ha)⟩, ?_⟩
        refine List.Pairwise.cons (fun a ha => ?_) hsorted
        exact lt_of_eq_of_lt this (hfrom a ha)

end devourer.radiotap
