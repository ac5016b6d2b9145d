-- An event that is not truncated: its line holds every field with its exact
-- value. An event whose fields are short is not truncated.
import Devourer.EventLines
import Mathlib.Algebra.GroupWithZero.Nat

namespace devourer.Ev

open FlatJson

variable {s : Ev} {p : List Char}

/-! ## The slack stays -/

theorem room_raw (p : List Char) (h : Room s 0) : Room (s.raw p) 0 := by
  unfold raw
  split
  · exact h
  · by_cases hp : Room s p.length
    · rw [ensure_room hp]
      exact room_append hp
    · rw [ensure_full hp]
      exact h

/-- What is written after its room was asked for, or null in its place. -/
theorem room_reserved {n : ℕ} (hp : p.length ≤ n) (h : Room s 0) :
    Room (if (s.ensure n kSlack).2 then (s.ensure n kSlack).1.append p
      else (s.ensure n kSlack).1.raw null_text) 0 := by
  by_cases hn : Room s n
  · rw [ensure_room hn, if_pos rfl]
    exact room_append (hn.mono hp)
  · rw [ensure_full hn, if_neg Bool.false_ne_true]
    exact room_raw _ h

theorem room_items (ts : List (List Char)) (h : Room s 0) : Room (s.items ts) 0 := by
  have htail : ∀ (ts : List (List Char)) {s : Ev}, Room s 0 →
      Room (ts.foldl (fun s t => (s.raw [',']).raw t) s) 0 := by
    intro ts
    induction ts with
    | nil => exact id
    | cons t ts ih => exact fun h => ih (room_raw t (room_raw _ h))
  cases ts with
  | nil => exact h
  | cons t ts => exact htail ts (room_raw t h)

theorem room_value (a : Arg) (h : Room s 0) : Room (s.value a) 0 := by
  have harray : ∀ ts, Room (s.array ts) 0 := fun ts => room_raw _ (room_items ts (room_raw _ h))
  cases a with
  | ll v => exact room_raw _ h
  | ull v => exact room_raw _ h
  | double v =>
    cases v with
    | none => exact room_raw _ h
    | some v => exact room_raw _ h
  | bool v =>
    cases v with
    | false => exact room_raw _ h
    | true => exact room_raw _ h
  | str v =>
    apply room_reserved _ h
    have := length_escape v
    simp only [List.length_cons, List.length_append, List.length_nil]
    omega
  | null => exact room_raw _ h
  | hexf v digits => exact room_raw _ h
  | hex p =>
    apply room_reserved _ h
    have := length_hex_text p
    simp only [List.length_cons, List.length_append, List.length_nil]
    omega
  | arr v => exact harray _
  | arr_double v => exact harray _

theorem room_call (c : Call) (h : Room s 0) : Room (s.call c) 0 := by
  have hkey : Room (s.begin_field c.key).1 0 := by
    unfold begin_field
    split
    · exact h
    · by_cases hk : Room s (c.key.length + 4)
      · rw [ensure_room hk]
        apply room_append
        apply hk.mono
        simp
      · rw [ensure_full hk]
        exact h
  unfold call
  dsimp only
  split
  · exact room_value _ hkey
  · exact hkey

/-! ## What an unflagged buffer holds -/

/-- `t` is `s` with `p` behind it, and neither is flagged. -/
structure Kept (s : Ev) (p : List Char) (t : Ev) : Prop where
  eq : t = s.append p
  clear : s._truncated = false

theorem Kept.append {q : List Char} {t u : Ev} (h : Kept s p t) (h' : Kept t q u) :
    Kept s (p ++ q) u := by
  refine ⟨?_, h.clear⟩
  rw [h'.eq, h.eq, append_append]

theorem Kept.alive {t : Ev} (h : Kept s p t) (hd : s._dead = false) : t._dead = false := by
  rw [h.eq]
  exact hd

theorem raw_dead (s : Ev) (p : List Char) : (s.raw p)._dead = s._dead := by
  unfold raw ensure
  split
  · rfl
  · dsimp only
    split
    · split
      · rfl
      · rfl
    · rfl

theorem raw_kept (hd : s._dead = false) (h : (s.raw p)._truncated = false) :
    Kept s p (s.raw p) := by
  by_cases hp : Room s p.length
  · rw [raw_room hd hp] at h ⊢
    exact ⟨rfl, h⟩
  · rw [raw_full hd hp] at h
    cases h

/-- A value that asks for its room first. -/
theorem reserved_kept {n : ℕ} {t : Ev} (hd : s._dead = false)
    (ht : t = if (s.ensure n kSlack).2 then (s.ensure n kSlack).1.append p
      else (s.ensure n kSlack).1.raw null_text) (h : t._truncated = false) : Kept s p t := by
  by_cases hn : Room s n
  · rw [ensure_room hn, if_pos rfl] at ht
    refine ⟨ht, ?_⟩
    rw [ht] at h
    exact h
  · rw [ensure_full hn, if_neg Bool.false_ne_true] at ht
    have hk := raw_kept (s := { s with _truncated := true }) (p := null_text) hd (by
      rw [← ht]
      exact h)
    have hflag := hk.clear
    cases hflag

theorem tail_items_dead (ts : List (List Char)) (s : Ev) :
    (ts.foldl (fun s t => (s.raw [',']).raw t) s)._dead = s._dead := by
  induction ts generalizing s with
  | nil => rfl
  | cons t ts ih => rw [List.foldl_cons, ih, raw_dead, raw_dead]

theorem tail_items_kept (ts : List (List Char)) (hd : s._dead = false)
    (h : (ts.foldl (fun s t => (s.raw [',']).raw t) s)._truncated = false) :
    Kept s (ts.flatMap (',' :: ·)) (ts.foldl (fun s t => (s.raw [',']).raw t) s) := by
  induction ts generalizing s with
  | nil =>
    refine ⟨?_, h⟩
    unfold append
    simp
  | cons t ts ih =>
    rw [List.foldl_cons] at h ⊢
    have hd1 : (s.raw [','])._dead = false := by rw [raw_dead]; exact hd
    have hd2 : ((s.raw [',']).raw t)._dead = false := by rw [raw_dead]; exact hd1
    have hrest := ih hd2 h
    have ht := raw_kept hd1 hrest.clear
    have hcomma := raw_kept hd ht.clear
    have hall := (hcomma.append ht).append hrest
    rw [List.flatMap_cons]
    exact hall

theorem items_kept (ts : List (List Char)) (hd : s._dead = false)
    (h : (s.items ts)._truncated = false) : Kept s (commas ts) (s.items ts) := by
  cases ts with
  | nil =>
    refine ⟨?_, h⟩
    unfold append
    simp [items, commas]
  | cons t ts =>
    have hd1 : (s.raw t)._dead = false := by rw [raw_dead]; exact hd
    have hrest := tail_items_kept (s := s.raw t) ts hd1 h
    exact (raw_kept hd hrest.clear).append hrest

theorem items_dead (ts : List (List Char)) (s : Ev) : (s.items ts)._dead = s._dead := by
  cases ts with
  | nil => rfl
  | cons t ts => exact (tail_items_dead ts _).trans (raw_dead s t)

theorem array_kept (ts : List (List Char)) (hd : s._dead = false)
    (h : (s.array ts)._truncated = false) :
    Kept s ('[' :: (commas ts ++ [']'])) (s.array ts) := by
  have hd1 : (s.raw ['['])._dead = false := by rw [raw_dead]; exact hd
  have hd2 : ((s.raw ['[']).items ts)._dead = false := by rw [items_dead]; exact hd1
  have hclose := raw_kept hd2 h
  have hitems := items_kept ts hd1 hclose.clear
  have hopen := raw_kept hd hitems.clear
  have hall := hopen.append (hitems.append hclose)
  exact hall

theorem value_kept {a : Arg} (hd : s._dead = false) (h : (s.value a)._truncated = false) :
    Kept s a.exact.text (s.value a) := by
  cases a with
  | ll v => exact raw_kept hd h
  | ull v => exact raw_kept hd h
  | double v =>
    cases v with
    | none => exact raw_kept hd h
    | some v => exact raw_kept hd h
  | bool v =>
    cases v with
    | false => exact raw_kept hd h
    | true => exact raw_kept hd h
  | str v =>
    exact reserved_kept (n := v.length * 6 + 2) (p := '"' :: (escape v ++ ['"'])) hd rfl h
  | null => exact raw_kept hd h
  | hexf v digits => exact raw_kept hd h
  | hex p =>
    exact reserved_kept (n := p.length * 2 + 2) (p := '"' :: (hex_text p ++ ['"'])) hd rfl h
  | arr v =>
    have hmap : (v.map fun x : Int32 => some (Number.ofInt x.toInt)).map element =
        v.map fun x : Int32 => decimal x.toInt := by
      rw [List.map_map]
      rfl
    have hvalue : s.value (.arr v) =
        s.array ((v.map fun x : Int32 => some (Number.ofInt x.toInt)).map element) := by
      rw [hmap]
      rfl
    rw [hvalue] at h ⊢
    exact array_kept _ hd h
  | arr_double v => exact array_kept _ hd h

/-- The member that a call stands for. -/
def Call.member (c : Call) : Member := ⟨c.key, c.arg.exact⟩

theorem call_kept {c : Call} (hd : s._dead = false) (h : (s.call c)._truncated = false) :
    Kept s (',' :: c.member.text) (s.call c) := by
  by_cases hk : Room s (key_text c).length
  · rw [call_room hd hk] at h ⊢
    have hv := value_kept (s := s.append (key_text c)) hd h
    have hkey : Kept s (key_text c) (s.append (key_text c)) := ⟨rfl, hv.clear⟩
    have hall := hkey.append hv
    have htext : key_text c ++ c.arg.exact.text = ',' :: c.member.text := by
      simp [key_text, Call.member, Member.text]
    rwa [htext] at hall
  · rw [call_full hd hk] at h
    cases h

theorem value_dead (a : Arg) (hd : s._dead = false) : (s.value a)._dead = false := by
  have hraw : ∀ p, (s.raw p)._dead = false := fun p => (raw_dead s p).trans hd
  have hreserved : ∀ (n : ℕ) (p : List Char), (if (s.ensure n kSlack).2 then
      (s.ensure n kSlack).1.append p else (s.ensure n kSlack).1.raw null_text)._dead = false := by
    intro n p
    by_cases hn : Room s n
    · rw [ensure_room hn, if_pos rfl]
      exact hd
    · rw [ensure_full hn, if_neg Bool.false_ne_true, raw_dead]
      exact hd
  have harray : ∀ ts, (s.array ts)._dead = false := by
    intro ts
    unfold array
    rw [raw_dead, items_dead]
    exact hraw _
  cases a with
  | ll v => exact hraw _
  | ull v => exact hraw _
  | double v =>
    cases v with
    | none => exact hraw _
    | some v => exact hraw _
  | bool v =>
    cases v with
    | false => exact hraw _
    | true => exact hraw _
  | str v => exact hreserved _ _
  | null => exact hraw _
  | hexf v digits => exact hraw _
  | hex p => exact hreserved _ _
  | arr v => exact harray _
  | arr_double v => exact harray _

theorem call_dead (c : Call) (hd : s._dead = false) : (s.call c)._dead = false := by
  by_cases hk : Room s (key_text c).length
  · rw [call_room hd hk]
    exact value_dead (s := s.append (key_text c)) _ hd
  · rw [call_full hd hk]
    exact hd

theorem calls_kept (calls : List Call) (hd : s._dead = false)
    (h : (Runs.after call s calls)._truncated = false) :
    Kept s (calls.flatMap fun c => ',' :: c.member.text) (Runs.after call s calls) := by
  induction calls generalizing s with
  | nil =>
    refine ⟨?_, h⟩
    unfold append
    simp
  | cons c calls ih =>
    have hrest := ih (call_dead c hd) h
    have hall := (call_kept hd hrest.clear).append hrest
    rw [List.flatMap_cons]
    exact hall

/-! ## The line -/

theorem start_kept {name : List Char} (h : (start true name)._truncated = false) :
    start true name = { _buf := head_text ++ (name ++ ['"']) } := by
  have hstart : start true name = ((({} : Ev).append head_text).raw name).raw ['"'] := rfl
  rw [hstart] at h ⊢
  have hd : ((({} : Ev).append head_text).raw name)._dead = false := by
    rw [raw_dead]
    rfl
  have hquote := raw_kept hd h
  have hname := raw_kept (s := ({} : Ev).append head_text) rfl hquote.clear
  rw [(hname.append hquote).eq]
  rfl

theorem room_run (name : List Char) (calls : List Call) : Room (run name calls) 0 := by
  have h0 : Room (({} : Ev).append head_text) 0 := by decide
  exact Runs.after_keeps call (P := fun s => Room s 0) _ (room_raw _ (room_raw _ h0))
    (fun _ c h => room_call c h) calls

theorem dead_run (name : List Char) (calls : List Call) : (run name calls)._dead = false := by
  have h0 : (start true name)._dead = false := by
    have hstart : start true name = ((({} : Ev).append head_text).raw name).raw ['"'] := rfl
    rw [hstart, raw_dead, raw_dead]
    rfl
  exact Runs.after_keeps call (P := fun s => s._dead = false) _ h0
    (fun _ c h => call_dead c h) calls

/-- An event that is not truncated is the object of its name and its fields. -/
theorem line_of_untruncated {name : List Char} (hplain : Plain name) (calls : List Call)
    (h : (run name calls)._truncated = false) :
    Ev.line name calls =
      some (object (name_member ⟨name, hplain.body⟩ :: calls.map Call.member) ++ ['\n']) := by
  have hd0 : (start true name)._dead = false := dead_run name []
  have hcalls := calls_kept calls hd0 h
  have hbuf : (run name calls)._buf =
      head_text ++ (name ++ ['"']) ++ calls.flatMap fun c => ',' :: c.member.text := by
    have hrun : run name calls = Runs.after call (start true name) calls := rfl
    rw [hrun, hcalls.eq, start_kept hcalls.clear]
    rfl
  have hroom : (run name calls)._buf.length + 32 ≤ 65536 := room_run name calls
  have hmax : kMaxLine = 65536 := rfl
  unfold Ev.line emit
  rw [if_neg (by rw [dead_run]; decide), h]
  dsimp only
  rw [if_neg Bool.false_ne_true, closer_room (p := ['\x7d', '\n']) (by
    rw [hmax]
    simp only [List.length_cons, List.length_nil]
    omega)]
  simp [append, hbuf, object, commas, name_member, Member.text, head_text, List.flatMap_map]

/-! ## Short events -/

/-- The room that a call asks for. -/
def Call.size (c : Call) : ℕ := (key_text c).length + c.arg.need

theorem calls_room (calls : List Call) (hd : s._dead = false)
    (h : Room s (calls.map Call.size).sum) :
    (Runs.after call s calls)._truncated = s._truncated := by
  induction calls generalizing s with
  | nil => rfl
  | cons c calls ih =>
    rw [List.map_cons, List.sum_cons] at h
    have hlen : c.arg.exact.text.length ≤ c.arg.need := c.arg.length_le_need
    have hc : s.call c = s.append (key_text c ++ c.arg.exact.text) := by
      rw [call_room hd (h.mono (by unfold Call.size; omega)),
        value_room (s := s.append (key_text c)) hd
          (room_append (h.mono (by unfold Call.size; omega))), append_append]
    have hrest : Room (s.append (key_text c ++ c.arg.exact.text)) (calls.map Call.size).sum := by
      apply room_append
      apply h.mono
      rw [List.length_append]
      unfold Call.size
      omega
    rw [Runs.after_cons, hc, ih (s := s.append _) hd hrest]
    rfl

/-- An event with room for its name and for all that its calls ask for. -/
theorem untruncated_of_short {name : List Char} {calls : List Call}
    (h : name.length + 8 + (calls.map Call.size).sum + kSlack ≤ kMaxLine) :
    (run name calls)._truncated = false := by
  have hquoted : (name ++ ['"']).length = name.length + 1 := by simp
  have hhead : (({} : Ev).append head_text)._buf.length = 7 := rfl
  have hroom : Room (({} : Ev).append head_text) (name ++ ['"']).length := by
    unfold Room
    rw [hhead, hquoted]
    omega
  have hstart : start true name = (({} : Ev).append head_text).append (name ++ ['"']) :=
    raw_raw_room (s := ({} : Ev).append head_text) ['"'] rfl hroom
  have hcalls : Room (start true name) (calls.map Call.size).sum := by
    rw [hstart]
    apply room_append
    unfold Room
    rw [hhead, hquoted]
    omega
  have hrun := calls_room calls (s := start true name) (by rw [hstart]; rfl) hcalls
  rw [hstart] at hrun
  unfold run
  rw [hstart, hrun]
  rfl

end devourer.Ev
