-- Buffers that hold one block after another, each from the next aligned place
-- on: a descriptor whose fields say how long the parts are, what stands
-- between it and the payload, and the payload.
import Devourer.Lib.Octets
import Devourer.Lib.Layout

namespace Aggregate

variable {α : Type*}

/-- A block at the head of a buffer: where its payload is, and where the next block may be. -/
structure Rx (α : Type*) where
  frame : ℕ
  len : ℕ
  next_offset : ℕ
  info : α

/-- The blocks that the parser accepts from `o` on, each with its place, when so many turns are
enough to come to the end. -/
def walk (parse : Bytes → Option (Rx α)) (buf : Bytes) : ℕ → ℕ → Option (List (ℕ × Rx α))
  | fuel, o =>
    match parse (buf.drop o) with
    | none => some []
    | some rx =>
      match fuel with
      | 0 => none
      | fuel + 1 => (walk parse buf fuel (o + rx.next_offset)).map ((o, rx) :: ·)

/-- The payload of a block of the walk. -/
def data (buf : Bytes) (x : ℕ × Rx α) : Bytes := (buf.drop (x.1 + x.2.frame)).take x.2.len

/-- What the descriptor says. Its fields stand in the first `size` bytes. -/
structure Format (α : Type*) where
  align : ℕ
  align_pos : 0 < align
  size : ℕ
  size_pos : 0 < size
  desc : Bytes → ℕ
  between : Bytes → ℕ
  len : Bytes → ℕ
  info : Bytes → α
  size_le : ∀ b, size ≤ desc b
  /-- The fields are read from the first `size` bytes. -/
  fields : ∀ b c, size ≤ b.length → desc (b ++ c) = desc b ∧ between (b ++ c) = between b ∧
    len (b ++ c) = len b ∧ info (b ++ c) = info b

namespace Format

variable (F : Format α)

/-- The block at the head of a buffer, when there is a whole one. -/
def parse (b : Bytes) : Option (Rx α) :=
  if b.length < F.size then none
  else if b.length < F.desc b then none
  else if F.len b = 0 ∨ b.length < F.desc b + F.between b + F.len b then none
  else some {
    frame := F.desc b + F.between b
    len := F.len b
    next_offset := Layout.alignUp F.align (F.desc b + F.between b + F.len b)
    info := F.info b }

theorem parse_some {b : Bytes} {rx : Rx α} (h : F.parse b = some rx) :
    F.desc b ≤ rx.frame ∧ rx.frame + rx.len ≤ b.length ∧ 0 < rx.len ∧
      rx.next_offset = Layout.alignUp F.align (rx.frame + rx.len) := by
  unfold parse at h
  split at h
  · cases h
  · split at h
    · cases h
    · split at h
      · cases h
      · next hwhole =>
        cases h
        simp only [not_or, Nat.not_lt] at hwhole
        exact ⟨Nat.le_add_right _ _, hwhole.2, Nat.pos_of_ne_zero hwhole.1, rfl⟩

/-- A parser moves on by more than the payload. -/
theorem parse_next {b : Bytes} {rx : Rx α} (h : F.parse b = some rx) :
    rx.frame + rx.len ≤ rx.next_offset ∧ 0 < rx.next_offset := by
  obtain ⟨hdesc, -, hpos, hnext⟩ := F.parse_some h
  have hle := (Layout.alignUp_spec F.align_pos (rx.frame + rx.len)).2.1
  rw [← hnext] at hle
  omega

theorem parse_short {b : Bytes} (h : b.length < F.size) : F.parse b = none := by
  rw [parse, if_pos h]

theorem parse_nil : F.parse [] = none := F.parse_short (by simpa using F.size_pos)

/-! ## Every buffer -/

/-- The walk ends: each turn leaves fewer bytes. -/
theorem walk_ends (buf : Bytes) (fuel o : ℕ) (h : buf.length ≤ o + fuel) :
    ∃ fs, walk F.parse buf fuel o = some fs := by
  induction fuel generalizing o with
  | zero =>
    have hnil : buf.drop o = [] := List.drop_eq_nil_of_le (by omega)
    refine ⟨[], ?_⟩
    rw [walk, hnil, F.parse_nil]
  | succ fuel ih =>
    rw [walk]
    cases hrx : F.parse (buf.drop o) with
    | none => exact ⟨[], rfl⟩
    | some rx =>
      obtain ⟨fs, hfs⟩ := ih (o + rx.next_offset) (by have := (F.parse_next hrx).2; omega)
      exact ⟨(o, rx) :: fs, by dsimp only; rw [hfs]; rfl⟩

/-- Where the blocks of a walk stand: each behind its descriptor and inside the buffer, and each
after the one before it. -/
structure Laid (buf : Bytes) (o : ℕ) (fs : List (ℕ × Rx α)) : Prop where
  inside : ∀ x ∈ fs, o ≤ x.1 ∧ x.1 + F.desc (buf.drop x.1) ≤ x.1 + x.2.frame ∧
    x.1 + x.2.frame + x.2.len ≤ buf.length
  ascending : fs.Pairwise fun x y => x.1 + x.2.frame + x.2.len ≤ y.1

theorem walk_laid (buf : Bytes) (fuel o : ℕ) {fs : List (ℕ × Rx α)}
    (h : walk F.parse buf fuel o = some fs) : F.Laid buf o fs := by
  induction fuel generalizing o fs with
  | zero =>
    rw [walk] at h
    split at h
    · cases h
      exact ⟨nofun, List.Pairwise.nil⟩
    · cases h
  | succ fuel ih =>
    rw [walk] at h
    split at h
    · cases h
      exact ⟨nofun, List.Pairwise.nil⟩
    · next rx hrx =>
      obtain ⟨gs, hgs, rfl⟩ := Option.map_eq_some_iff.mp h
      obtain ⟨hdesc, hend, hpos, -⟩ := F.parse_some hrx
      have hnext := (F.parse_next hrx).1
      have hlaid := ih (o + rx.next_offset) hgs
      rw [List.length_drop] at hend
      refine ⟨?_, ?_⟩
      · intro x hx
        rcases List.mem_cons.mp hx with rfl | hx
        · exact ⟨le_rfl, Nat.add_le_add_left hdesc o, by dsimp only; omega⟩
        · obtain ⟨hle, hrest⟩ := hlaid.inside x hx
          exact ⟨by omega, hrest⟩
      · refine List.Pairwise.cons ?_ hlaid.ascending
        intro y hy
        have hle := (hlaid.inside y hy).1
        dsimp only
        omega

/-! ## Blocks that are whole -/

/-- A block that is what its descriptor says. -/
structure Block where
  desc : Bytes
  between : Bytes
  payload : Bytes
  desc_len : desc.length = F.desc desc
  between_len : between.length = F.between desc
  payload_len : payload.length = F.len desc
  payload_pos : 0 < payload.length

variable {F}

def Block.bytes (b : F.Block) : Bytes := b.desc ++ b.between ++ b.payload

variable (F) in
/-- A block with the bytes that pad it. -/
structure Padded where
  block : F.Block
  pad : Bytes
  pad_len : block.bytes.length + pad.length = Layout.alignUp F.align block.bytes.length

/-- The blocks one after another, the last one without its pad. -/
def join : List F.Padded → Bytes
  | [] => []
  | [x] => x.block.bytes
  | x :: y :: xs => x.block.bytes ++ x.pad ++ join (y :: xs)

/-- What the parser makes of a block. -/
def Block.rx (b : F.Block) : Rx α where
  frame := b.desc.length + b.between.length
  len := b.payload.length
  next_offset := Layout.alignUp F.align b.bytes.length
  info := F.info b.desc

theorem parse_block (b : F.Block) (rest : Bytes) : F.parse (b.bytes ++ rest) = some b.rx := by
  have hsize : F.size ≤ b.desc.length := b.desc_len ▸ F.size_le b.desc
  obtain ⟨hdesc, hbetween, hlen, hinfo⟩ :=
    F.fields b.desc (b.between ++ (b.payload ++ rest)) hsize
  have hpos := b.payload_pos
  have hwhole : b.bytes ++ rest = b.desc ++ (b.between ++ (b.payload ++ rest)) := by
    simp [Block.bytes]
  rw [hwhole, parse, hdesc, hbetween, hlen, hinfo, ← b.desc_len, ← b.between_len, ← b.payload_len]
  simp only [List.length_append]
  rw [if_neg (by omega), if_neg (by omega), if_neg (by omega)]
  simp [Block.rx, Block.bytes, Nat.add_assoc]

/-- The walk has found this block. -/
structure Finds (buf : Bytes) (x : ℕ × Rx α) (b : F.Padded) : Prop where
  rx : x.2 = b.block.rx
  head : ∃ rest, buf.drop x.1 = b.block.bytes ++ rest

theorem data_block {buf : Bytes} {o : ℕ} (b : F.Block) {rest : Bytes}
    (h : buf.drop o = b.bytes ++ rest) : data buf (o, b.rx) = b.payload := by
  have hfront : (b.desc ++ b.between).length = b.desc.length + b.between.length :=
    List.length_append
  rw [data, ← List.drop_drop, h, Block.bytes, Block.rx, List.append_assoc, ← hfront,
    List.drop_left' rfl, List.take_left' rfl]

theorem Finds.data_eq {buf : Bytes} {x : ℕ × Rx α} {b : F.Padded} (h : Finds buf x b) :
    data buf x = b.block.payload := by
  obtain ⟨rest, hrest⟩ := h.head
  rw [← data_block b.block hrest, ← h.rx]

/-- What is read of the blocks that were found. -/
theorem map_finds {β : Type*} {buf : Bytes} {fs : List (ℕ × Rx α)} {bs : List F.Padded}
    (h : List.Forall₂ (Finds buf) fs bs) {f : ℕ × Rx α → β} {g : F.Padded → β}
    (hfg : ∀ x b, Finds buf x b → f x = g b) : fs.map f = bs.map g := by
  induction h with
  | nil => rfl
  | cons hx _ ih => rw [List.map_cons, List.map_cons, hfg _ _ hx, ih]

theorem walk_nil {buf : Bytes} {o fuel : ℕ} {fs : List (ℕ × Rx α)} (h : buf.drop o = [])
    (hfs : walk F.parse buf fuel o = some fs) : fs = [] := by
  rw [walk, h, F.parse_nil] at hfs
  cases hfs
  rfl

/-- One turn of the walk, at a block. -/
theorem walk_block (b : F.Block) {buf rest : Bytes} {o fuel : ℕ}
    (h : buf.drop o = b.bytes ++ rest) (hfuel : buf.length ≤ o + fuel) :
    ∃ left, buf.length ≤ o + b.rx.next_offset + left ∧
      walk F.parse buf fuel o =
        (walk F.parse buf left (o + b.rx.next_offset)).map ((o, b.rx) :: ·) := by
  have hpos := b.payload_pos
  have hnext := (F.parse_next (parse_block b rest)).2
  have hlen := congrArg List.length h
  simp only [List.length_drop, List.length_append, Block.bytes] at hlen
  obtain ⟨left, rfl⟩ := Nat.exists_eq_succ_of_ne_zero (by omega : fuel ≠ 0)
  refine ⟨left, by omega, ?_⟩
  rw [walk, h, parse_block]

/-- The walk over blocks, whatever stands behind them, comes to each of them first. -/
theorem walk_join (bs : List F.Padded) (tail buf : Bytes) (o fuel : ℕ)
    (h : buf.drop o = join bs ++ tail) (hfuel : buf.length ≤ o + fuel) :
    ∃ fs more, walk F.parse buf fuel o = some (fs ++ more) ∧
      List.Forall₂ (Finds buf) fs bs ∧ (tail = [] → more = []) := by
  induction bs generalizing o fuel with
  | nil =>
    obtain ⟨more, hmore⟩ := F.walk_ends buf fuel o hfuel
    refine ⟨[], more, hmore, List.Forall₂.nil, ?_⟩
    intro htail
    exact walk_nil (by rw [h, htail]; rfl) hmore
  | cons x xs ih =>
    cases xs with
    | nil =>
      obtain ⟨left, hleft, hwalk⟩ := walk_block x.block h hfuel
      obtain ⟨more, hmore⟩ := F.walk_ends buf left _ hleft
      refine ⟨[(o, x.block.rx)], more, ?_, ?_, ?_⟩
      · rw [hwalk, hmore]
        rfl
      · exact List.Forall₂.cons ⟨rfl, tail, h⟩ List.Forall₂.nil
      · intro htail
        refine walk_nil ?_ hmore
        have hle := (Layout.alignUp_spec F.align_pos x.block.bytes.length).2.1
        rw [← List.drop_drop, h, htail, List.append_nil]
        exact List.drop_eq_nil_of_le hle
    | cons y ys =>
      have hbuf : buf.drop o = x.block.bytes ++ (x.pad ++ (join (y :: ys) ++ tail)) := by
        rw [h, join]
        simp only [List.append_assoc]
      obtain ⟨left, hleft, hwalk⟩ := walk_block x.block hbuf hfuel
      have hpad : (x.block.bytes ++ x.pad).length = x.block.rx.next_offset := by
        rw [List.length_append]
        exact x.pad_len
      have hrest : buf.drop (o + x.block.rx.next_offset) = join (y :: ys) ++ tail := by
        rw [← List.drop_drop, hbuf, ← List.append_assoc]
        exact List.drop_left' hpad
      obtain ⟨fs, more, hmore, hfinds, htail⟩ := ih _ left hrest hleft
      refine ⟨(o, x.block.rx) :: fs, more, ?_, List.Forall₂.cons ⟨rfl, _, hbuf⟩ hfinds, htail⟩
      rw [hwalk, hmore]
      rfl

end Format

/-- The walk with this parser takes apart any buffer, and gets the payloads of whole blocks. -/
structure Deaggregates (F : Format α) (parse : Bytes → Option (Rx α)) : Prop where
  any : ∀ buf, ∃ fs, walk parse buf buf.length 0 = some fs ∧ F.Laid buf 0 fs
  whole : ∀ bs : List F.Padded, ∃ fs,
    walk parse (Format.join bs) (Format.join bs).length 0 = some fs ∧
      fs.map (data (Format.join bs)) = bs.map fun x => x.block.payload

theorem Format.deaggregates (F : Format α) : Deaggregates F F.parse := by
  refine ⟨?_, ?_⟩
  · intro buf
    obtain ⟨fs, hfs⟩ := F.walk_ends buf buf.length 0 (by omega)
    exact ⟨fs, hfs, F.walk_laid buf buf.length 0 hfs⟩
  · intro bs
    obtain ⟨fs, more, hwalk, hfinds, hnil⟩ := Format.walk_join bs [] (Format.join bs) 0
      (Format.join bs).length (by rw [List.append_nil, List.drop_zero]) (by omega)
    rw [hnil rfl, List.append_nil] at hwalk
    exact ⟨fs, hwalk, Format.map_finds hfinds fun x b hx => hx.data_eq⟩

end Aggregate
