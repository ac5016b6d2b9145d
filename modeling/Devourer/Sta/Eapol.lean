-- The EAPOL-Key wire format and the key derivations built on it: parse,
-- build, verify, derive, and the walk over unwrapped key data.
import Devourer.Sta.CryptoOps

namespace devourer.sta

def kEapolKeyFixedLen : Nat := 99
def kEapolMicOff : Nat := 81
def kEapolMicLen : Nat := 16
def kEapolNonceOff : Nat := 17
def kEapolReplayOff : Nat := 9
def kEapolRscOff : Nat := 65
def kEapolKeyDataLenOff : Nat := 97

def kKiVersionMask : UInt16 := 0x0007
def kKiPairwise : UInt16 := 0x0008
def kKiInstall : UInt16 := 0x0040
def kKiAck : UInt16 := 0x0080
def kKiMic : UInt16 := 0x0100
def kKiSecure : UInt16 := 0x0200
def kKiRequest : UInt16 := 0x0800
def kKiEncrypted : UInt16 := 0x1000

def kKeyDescVersionCcmp : UInt16 := 2
def kKeyDescTypeRsn : UInt8 := 2
def kEapolVersionSupplicant : UInt8 := 1
def kEapolTypeKey : UInt8 := 3

/-! ## Parse -/

/-- A parsed EAPOL-Key frame. `frame` is the buffer that the source points into, so it
may go on past `frame_len`; the fields that the source points at are copied out. -/
structure EapolKey where
  frame : Bytes
  frame_len : Nat
  descriptor : UInt8
  key_info : UInt16
  version : UInt16
  key_len : UInt16
  replay : UInt64
  nonce : Octets 32
  rsc : Octets 8
  mic : Octets 16
  key_data : Bytes
  key_data_len : Nat
  deriving DecidableEq

namespace EapolKey

def pairwise (k : EapolKey) : Bool := k.key_info &&& kKiPairwise != 0
def install (k : EapolKey) : Bool := k.key_info &&& kKiInstall != 0
def ack (k : EapolKey) : Bool := k.key_info &&& kKiAck != 0
def has_mic (k : EapolKey) : Bool := k.key_info &&& kKiMic != 0
def secure (k : EapolKey) : Bool := k.key_info &&& kKiSecure != 0
def request (k : EapolKey) : Bool := k.key_info &&& kKiRequest != 0
def encrypted (k : EapolKey) : Bool := k.key_info &&& kKiEncrypted != 0

end EapolKey

def eapol_be16 (p : Bytes) (i : Nat) : UInt16 :=
  ((byteAt p i).toUInt16 <<< 8) ||| (byteAt p (i + 1)).toUInt16

def eapol_be64 (p : Bytes) (i : Nat) : UInt64 :=
  (List.range 8).foldl (fun v n => (v <<< 8) ||| (byteAt p (i + n)).toUInt64) 0

def put_be16 (v : UInt16) : Bytes := [(v >>> 8).toUInt8, v.toUInt8]

def eapol_put_be64 (v : UInt64) : Bytes :=
  (List.range 8).map (fun i => ((v >>> (8 * (7 - i)).toUInt64) &&& 0xff).toUInt8)

/-- Is this EAPOL packet an EAPOL-Key? Only the type octet is read. -/
def eapol_is_key (eapol : Bytes) : Bool :=
  decide (2 ≤ eapol.length) && byteAt eapol 1 == kEapolTypeKey

def parse_eapol_key (eapol : Bytes) : Option EapolKey :=
  if eapol.length < kEapolKeyFixedLen then none
  else if byteAt eapol 1 ≠ 3 then none
  else
    let body_len := (eapol_be16 eapol 2).toNat
    if body_len < kEapolKeyFixedLen - 4 then none
    else
      let total := 4 + body_len
      if total > eapol.length then none
      else if byteAt eapol 4 ≠ kKeyDescTypeRsn then none
      else
        let kdlen := (eapol_be16 eapol kEapolKeyDataLenOff).toNat
        if kEapolKeyFixedLen + kdlen ≠ total then none
        else
          let key_info := eapol_be16 eapol 5
          some
            { frame := eapol
              frame_len := total
              descriptor := byteAt eapol 4
              key_info := key_info
              version := key_info &&& kKiVersionMask
              key_len := eapol_be16 eapol 7
              replay := eapol_be64 eapol kEapolReplayOff
              nonce := Octets.slice eapol kEapolNonceOff 32
              rsc := Octets.slice eapol kEapolRscOff 8
              mic := Octets.slice eapol kEapolMicOff 16
              key_data := (eapol.drop kEapolKeyFixedLen).take kdlen
              key_data_len := kdlen }

/-! ## Build -/

/-- The frame before its MIC: the fixed 99 bytes with the MIC field zero, then the key
data. `body` is the 802.1X body length. -/
def eapol_key_frame (key_info key_len : UInt16) (replay : UInt64) (nonce : Octets 32)
    (rsc : Octets 8) (key_data : Bytes) (proto_version : UInt8) : Bytes :=
  let body := kEapolKeyFixedLen - 4 + key_data.length
  [proto_version, 3] ++ put_be16 body.toUInt16 ++ [kKeyDescTypeRsn] ++ put_be16 key_info ++
    put_be16 key_len ++ eapol_put_be64 replay ++ nonce.val ++ List.replicate 16 0 ++ rsc.val ++
    List.replicate 8 0 ++ List.replicate kEapolMicLen 0 ++ put_be16 key_data.length.toUInt16 ++
    key_data

/-- `frame` with the MIC field replaced. -/
def with_mic (frame : Bytes) (mic : Bytes) : Bytes :=
  frame.take kEapolMicOff ++ mic.take kEapolMicLen ++ frame.drop (kEapolMicOff + kEapolMicLen)

/-- `none` for a pointer is the null pointer. The empty result is a refusal. -/
def build_eapol_key (key_info key_len : UInt16) (replay : UInt64) (nonce : Option (Octets 32))
    (rsc : Option (Octets 8)) (key_data : Option Bytes) (key_data_len : Nat)
    (crypto : Option CryptoOps) (mic_kck : Option (Octets 16)) (proto_version : UInt8) : Bytes :=
  if key_data_len > 0xffff - (kEapolKeyFixedLen - 4) then []
  else if key_data_len ≠ 0 ∧ key_data = none then []
  else if mic_kck.isSome ∧ crypto.isNone then []
  else
    let e := eapol_key_frame key_info key_len replay (nonce.getD (Octets.zero 32))
      (rsc.getD (Octets.zero 8)) ((key_data.getD []).take key_data_len) proto_version
    match crypto, mic_kck with
    | some c, some kck =>
      match c.hmac_sha1 kck.val e with
      | some d => with_mic e d.val
      | none => []
    | _, _ => e

/-! ## Verify -/

inductive MicCheck
  | Ok
  | Mismatch
  | CryptoError
  deriving DecidableEq

def eapol_mic_ok (crypto : CryptoOps) (kck : Octets 16) (k : EapolKey) : MicCheck :=
  if k.frame_len < kEapolKeyFixedLen then .Mismatch
  else if k.version ≠ kKeyDescVersionCcmp then .Mismatch
  else if !k.has_mic then .Mismatch
  else
    let copy := k.frame.take k.frame_len
    let got := Octets.slice k.frame kEapolMicOff kEapolMicLen
    match crypto.hmac_sha1 kck.val (with_mic copy (List.replicate kEapolMicLen 0)) with
    | none => .CryptoError
    | some want => if got.val = want.val.take kEapolMicLen then .Ok else .Mismatch

/-! ## Derive -/

/-- The 802.11 PRF: `olen` bytes, 20 at a time. -/
def prf_sha1 (crypto : CryptoOps) (key label data : Bytes) (olen : Nat) : Option Bytes :=
  ((List.range ((olen + 19) / 20)).mapM fun i =>
    crypto.hmac_sha1 key (label ++ [0] ++ data ++ [i.toUInt8])).map fun ds =>
      (ds.flatMap (·.val)).take olen

/-- The label "Pairwise key expansion". -/
def pairwise_label : Bytes :=
  [0x50, 0x61, 0x69, 0x72, 0x77, 0x69, 0x73, 0x65, 0x20, 0x6b, 0x65, 0x79, 0x20, 0x65, 0x78,
   0x70, 0x61, 0x6e, 0x73, 0x69, 0x6f, 0x6e]

/-- KCK, KEK and TK, 16 bytes each. -/
abbrev Ptk := Octets 48

def Ptk.kck (p : Ptk) : Octets 16 := Octets.slice p.val 0 16
def Ptk.kek (p : Ptk) : Octets 16 := Octets.slice p.val 16 16

def derive_ptk (crypto : CryptoOps) (pmk : Octets 32) (aa spa : Octets 6)
    (anonce snonce : Octets 32) : Option Ptk :=
  let amin := if aa.val < spa.val then aa else spa
  let amax := if aa.val < spa.val then spa else aa
  let nmin := if anonce.val < snonce.val then anonce else snonce
  let nmax := if anonce.val < snonce.val then snonce else anonce
  (prf_sha1 crypto pmk.val pairwise_label (amin.val ++ amax.val ++ nmin.val ++ nmax.val) 48).map
    (Octets.slice · 0 48)

def hex_digit (c : UInt8) : Option UInt8 :=
  if 0x30 ≤ c ∧ c ≤ 0x39 then some (c - 0x30)
  else if 0x61 ≤ c ∧ c ≤ 0x66 then some (c - 0x61 + 10)
  else if 0x41 ≤ c ∧ c ≤ 0x46 then some (c - 0x41 + 10)
  else none

/-- A passphrase of 8..63 characters goes through PBKDF2; exactly 64 hex digits are the
PMK itself. `none` for the passphrase is the null pointer. -/
def pmk_from_psk (crypto : CryptoOps) (passphrase : Option Bytes) (ssid : Bytes) :
    Option (Octets 32) :=
  match passphrase with
  | none => none
  | some psk =>
    if ssid.isEmpty || decide (ssid.length > 32) then none
    else if psk.length = 64 then
      (psk.mapM hex_digit).map fun vs =>
        Octets.slice ((List.range 32).map fun i =>
          (byteAt vs (2 * i) <<< 4) ||| byteAt vs (2 * i + 1)) 0 32
    else if psk.length < 8 ∨ psk.length > 63 then none
    else crypto.pbkdf2_sha1 psk ssid 4096 32

/-! ## Key data -/

/-- A GTK lifted out of a key-data KDE. -/
structure GtkKde where
  key_id : UInt8 := 0
  tx : Bool := false
  gtk : Octets 32 := Octets.zero 32
  gtk_len : Nat := 0
  deriving DecidableEq

inductive KdeResult
  | Found
  | Absent
  | Malformed
  deriving DecidableEq

/-- The loop of `walk_key_data` over the rest of the key data. `visit` answers with its
new state and whether to go on. The flag of the result is the source's return value.
Every round takes two bytes or more, so `kd.length` rounds are enough
(`walk_loop_enough`). -/
def walk_loop {σ : Type} (visit : σ → UInt8 → Bytes → σ × Bool) : Nat → Bytes → σ → σ × Bool
  | 0, _, st => (st, true)
  | fuel + 1, id :: l :: rest, st =>
    if rest.length < l.toNat then (st, false)
    else
      let r := visit st id (rest.take l.toNat)
      if r.2 then walk_loop visit fuel (rest.drop l.toNat) r.1 else (r.1, true)
  | _ + 1, _, st => (st, true)

def walk_key_data {σ : Type} (kd : Bytes) (visit : σ → UInt8 → Bytes → σ × Bool) (st : σ) :
    σ × Bool := walk_loop visit kd.length kd st

/-- More rounds than bytes change nothing: the walk ends before its rounds do. -/
theorem walk_loop_enough {σ : Type} (visit : σ → UInt8 → Bytes → σ × Bool) (fuel : Nat)
    (kd : Bytes) (st : σ) (h : kd.length ≤ fuel) :
    walk_loop visit fuel kd st = walk_key_data kd visit st := by
  unfold walk_key_data
  induction fuel using Nat.strongRecOn generalizing kd st with
  | ind fuel ih =>
    match kd, fuel with
    | [], 0 => rfl
    | [], fuel + 1 => rfl
    | [x], fuel + 1 => rfl
    | id :: l :: rest, fuel + 1 =>
      simp only [List.length_cons, walk_loop]
      split
      · rfl
      · have hlen : (rest.drop l.toNat).length ≤ rest.length := by simp
        simp only [List.length_cons] at h
        rw [ih fuel (by omega) _ _ (by omega), ih (rest.length + 1) (by omega) _ _ (by omega)]

/-- The walk on key data that starts with an element header. -/
theorem walk_key_data_cons {σ : Type} (visit : σ → UInt8 → Bytes → σ × Bool) (id l : UInt8)
    (rest : Bytes) (st : σ) :
    walk_key_data (id :: l :: rest) visit st =
      if rest.length < l.toNat then (st, false)
      else if (visit st id (rest.take l.toNat)).2 then
        walk_key_data (rest.drop l.toNat) visit (visit st id (rest.take l.toNat)).1
      else ((visit st id (rest.take l.toNat)).1, true) := by
  conv_lhs => rw [walk_key_data, List.length_cons, walk_loop]
  dsimp only
  rw [List.length_cons, walk_loop_enough visit (rest.length + 1) _ _ (by simp; omega)]

/-- The walk on what is too short for an element header. -/
theorem walk_key_data_short {σ : Type} (visit : σ → UInt8 → Bytes → σ × Bool) (kd : Bytes) (st : σ)
    (h : kd.length < 2) : walk_key_data kd visit st = (st, true) := by
  match kd with
  | [] => rfl
  | [x] => rfl
  | x :: y :: rest =>
    simp only [List.length_cons] at h
    omega

/-- Is this element a GTK KDE: `0xDD`, 00-0F-AC, type 1? -/
def is_gtk_kde (id : UInt8) (b : Bytes) : Bool :=
  id == 0xdd && decide (4 ≤ b.length) && byteAt b 0 == 0x00 && byteAt b 1 == 0x0f &&
    byteAt b 2 == 0xac && byteAt b 3 == 0x01

/-- What the visitor of `find_gtk_kde` captures. -/
structure GtkSearch where
  found : Bool := false
  bad : Bool := false
  out : GtkKde := {}

/-- The visitor of `find_gtk_kde`. -/
def visit_gtk (st : GtkSearch) (id : UInt8) (b : Bytes) : GtkSearch × Bool :=
  if !is_gtk_kde id b then (st, true)
  else
    let body := b.length - 4
    if st.found || decide (body < 2 + 16) || decide (body > 2 + 32) then
      ({ st with bad := true }, false)
    else
      ({ found := true
         bad := st.bad
         out :=
           { key_id := byteAt b 4 &&& 0x03
             tx := byteAt b 4 &&& 0x04 != 0
             gtk := Octets.overwrite (Octets.zero 32) (Octets.slice b 6 32) (body - 2)
             gtk_len := body - 2 } }, true)

/-- The GTK KDE of unwrapped key data, with the whole field walked. The result is wiped
unless it is `Found`. -/
def find_gtk_kde (kd : Bytes) : KdeResult × GtkKde :=
  let r := walk_key_data kd visit_gtk {}
  if !r.2 || r.1.bad then (.Malformed, {})
  else if r.1.found then (.Found, r.1.out)
  else (.Absent, r.1.out)

/-! ## The elements of key data -/

/-- The elements that a walk to the end meets, and whether it gets there. -/
def elements (kd : Bytes) : List (UInt8 × Bytes) × Bool :=
  walk_key_data kd (fun es id b => (es ++ [(id, b)], true)) []

/-- The GTK that a GTK KDE of body `b` carries. -/
def gtk_of (b : Bytes) : GtkKde :=
  { key_id := byteAt b 4 &&& 0x03
    tx := byteAt b 4 &&& 0x04 != 0
    gtk := Octets.overwrite (Octets.zero 32) (Octets.slice b 6 32) (b.length - 4 - 2)
    gtk_len := b.length - 4 - 2 }

/-- The bodies of the GTK KDEs of key data, in order. -/
def gtk_bodies (kd : Bytes) : List Bytes :=
  ((elements kd).1.filter fun e => is_gtk_kde e.1 e.2).map (·.2)

theorem elements_short (kd : Bytes) (h : kd.length < 2) : elements kd = ([], true) :=
  walk_key_data_short _ kd [] h

theorem elements_cons (id l : UInt8) (rest : Bytes) :
    elements (id :: l :: rest) =
      if rest.length < l.toNat then ([], false)
      else ((id, rest.take l.toNat) :: (elements (rest.drop l.toNat)).1,
        (elements (rest.drop l.toNat)).2) := by
  -- The accumulator only grows at its end, so it stands in front of every result.
  have acc : ∀ (n : Nat) (kd : Bytes) (es : List (UInt8 × Bytes)), kd.length ≤ n →
      walk_key_data kd (fun es id b => (es ++ [(id, b)], true)) es =
        (es ++ (elements kd).1, (elements kd).2) := by
    intro n
    induction n with
    | zero =>
      intro kd es h
      rw [elements_short kd (by omega), walk_key_data_short _ _ _ (by omega), List.append_nil]
    | succ n ih =>
      intro kd es h
      match kd with
      | [] => rw [elements_short _ (by simp), walk_key_data_short _ _ _ (by simp), List.append_nil]
      | [x] => rw [elements_short _ (by simp), walk_key_data_short _ _ _ (by simp), List.append_nil]
      | id :: l :: rest =>
        have hlen : (rest.drop l.toNat).length ≤ n := by
          simp only [List.length_cons] at h
          simp only [List.length_drop]
          omega
        simp only [elements, walk_key_data_cons, if_true]
        split
        · simp
        · rw [ih _ _ hlen, ih _ ([] ++ _) hlen]
          simp
  simp only [elements, walk_key_data_cons, if_true]
  split
  · rfl
  · rw [acc _ _ _ (Nat.le_refl _)]
    rfl

/-! ## A walk is a loop over its elements -/

/-- The elements one after another, until the visitor stops. The flag says that it did. -/
def visit_all {σ : Type} (visit : σ → UInt8 → Bytes → σ × Bool) :
    List (UInt8 × Bytes) → σ → σ × Bool
  | [], st => (st, false)
  | e :: es, st =>
    if (visit st e.1 e.2).2 then visit_all visit es (visit st e.1 e.2).1
    else ((visit st e.1 e.2).1, true)

theorem walk_visits {σ : Type} (visit : σ → UInt8 → Bytes → σ × Bool) (kd : Bytes) (st : σ) :
    walk_key_data kd visit st =
      ((visit_all visit (elements kd).1 st).1,
        (visit_all visit (elements kd).1 st).2 || (elements kd).2) := by
  induction hn : kd.length using Nat.strongRecOn generalizing kd st with
  | ind n ih =>
    match kd with
    | [] => rfl
    | [x] => rfl
    | id :: l :: rest =>
      rw [walk_key_data_cons, elements_cons]
      by_cases hrest : rest.length < l.toNat
      · rw [if_pos hrest, if_pos hrest]
        rfl
      · have hlen : (rest.drop l.toNat).length < n := by
          rw [List.length_drop, ← hn, List.length_cons, List.length_cons]
          omega
        rw [if_neg hrest, if_neg hrest, ih _ hlen _ _ rfl, visit_all]
        dsimp only
        split
        · rfl
        · rfl

/-! ## The search for the GTK -/

/-- The bodies of the GTK KDEs among these elements. -/
def kde_bodies (es : List (UInt8 × Bytes)) : List Bytes :=
  (es.filter fun e => is_gtk_kde e.1 e.2).map (·.2)

/-- The KDE has a key of 16 to 32 bytes. -/
def KeySized (b : Bytes) : Prop := 4 + 2 + 16 ≤ b.length ∧ b.length ≤ 4 + 2 + 32

instance (b : Bytes) : Decidable (KeySized b) := inferInstanceAs (Decidable (_ ∧ _))

/-- What these GTK KDEs come to in key data that is read to its end, or not. -/
def gtk_verdict : Bool → List Bytes → KdeResult × GtkKde
  | true, [] => (.Absent, {})
  | true, [b] => if KeySized b then (.Found, gtk_of b) else (.Malformed, {})
  | _, _ => (.Malformed, {})

theorem kde_bodies_cons (e : UInt8 × Bytes) (es : List (UInt8 × Bytes)) :
    kde_bodies (e :: es) =
      if is_gtk_kde e.1 e.2 then e.2 :: kde_bodies es else kde_bodies es := by
  unfold kde_bodies
  rw [List.filter_cons]
  split
  · rfl
  · rfl

theorem visit_gtk_other (st : GtkSearch) (id : UInt8) (b : Bytes) (h : is_gtk_kde id b = false) :
    visit_gtk st id b = (st, true) := by
  simp [visit_gtk, h]

/-- What the visitor does with a GTK KDE. -/
theorem visit_gtk_eq {st : GtkSearch} {id : UInt8} {b : Bytes} (h : is_gtk_kde id b = true) :
    visit_gtk st id b =
      if st.found = false ∧ KeySized b then (⟨true, st.bad, gtk_of b⟩, true)
      else ({ st with bad := true }, false) := by
  have hfour : 4 ≤ b.length := by
    simp only [is_gtk_kde, Bool.and_eq_true, decide_eq_true_eq] at h
    exact h.1.1.1.1.2
  unfold visit_gtk
  rw [h]
  simp only [Bool.not_true, Bool.false_eq_true, if_false, Bool.or_eq_true, decide_eq_true_eq]
  by_cases hok : st.found = false ∧ KeySized b
  · have hsized := hok.2
    unfold KeySized at hsized
    rw [if_pos hok, if_neg]
    · rfl
    · rw [hok.1]
      rintro ((hfound | hshort) | hlong)
      · cases hfound
      · omega
      · omega
  · rw [if_neg hok, if_pos]
    by_contra hno
    rw [not_or, not_or, Bool.not_eq_true] at hno
    apply hok
    unfold KeySized
    exact ⟨hno.1.1, by omega, by omega⟩

/-- Behind the one GTK that was taken, any other GTK KDE is one too many. -/
theorem visit_found (es : List (UInt8 × Bytes)) {st : GtkSearch} (h : st.found = true) :
    visit_all visit_gtk es st =
      if kde_bodies es = [] then (st, false) else ({ st with bad := true }, true) := by
  induction es with
  | nil => rfl
  | cons e es ih =>
    rw [visit_all, kde_bodies_cons]
    cases hkde : is_gtk_kde e.1 e.2 with
    | false =>
      rw [visit_gtk_other st e.1 e.2 hkde]
      exact ih
    | true =>
      rw [visit_gtk_eq hkde, h]
      rfl

/-- The search over elements, before any GTK is taken. -/
theorem visit_search (es : List (UInt8 × Bytes)) :
    visit_all visit_gtk es {} =
      match kde_bodies es with
      | [] => ({}, false)
      | b :: bs =>
        if KeySized b then
          if bs = [] then (⟨true, false, gtk_of b⟩, false) else (⟨true, true, gtk_of b⟩, true)
        else ({ bad := true }, true) := by
  induction es with
  | nil => rfl
  | cons e es ih =>
    rw [visit_all, kde_bodies_cons]
    cases hkde : is_gtk_kde e.1 e.2 with
    | false =>
      rw [visit_gtk_other {} e.1 e.2 hkde]
      exact ih
    | true =>
      simp only [if_true]
      by_cases hsized : KeySized e.2
      · have htaken : visit_gtk {} e.1 e.2 = (⟨true, false, gtk_of e.2⟩, true) :=
          (visit_gtk_eq hkde).trans (if_pos ⟨rfl, hsized⟩)
        rw [htaken, if_pos hsized]
        exact visit_found es rfl
      · have hbad : visit_gtk {} e.1 e.2 = ({ bad := true }, false) :=
          (visit_gtk_eq hkde).trans (if_neg fun h => hsized h.2)
        rw [hbad, if_neg hsized]
        rfl

/-- The search depends only on the GTK KDEs, and on whether the walk gets to the end. -/
theorem find_gtk_kde_verdict (kd : Bytes) :
    find_gtk_kde kd = gtk_verdict (elements kd).2 (kde_bodies (elements kd).1) := by
  have hsearch := visit_search (elements kd).1
  unfold find_gtk_kde
  rw [walk_visits]
  generalize visit_all visit_gtk (elements kd).1 {} = r at hsearch ⊢
  cases hbodies : kde_bodies (elements kd).1 with
  | nil =>
    rw [hbodies] at hsearch
    subst hsearch
    cases (elements kd).2 with
    | false => rfl
    | true => rfl
  | cons b bs =>
    rw [hbodies] at hsearch
    dsimp only at hsearch
    by_cases hsized : KeySized b
    · rw [if_pos hsized] at hsearch
      cases bs with
      | nil =>
        rw [if_pos rfl] at hsearch
        subst hsearch
        cases (elements kd).2 with
        | false => rfl
        | true => exact (if_pos hsized).symm
      | cons b' bs =>
        rw [if_neg (List.cons_ne_nil b' bs)] at hsearch
        subst hsearch
        cases (elements kd).2 with
        | false => rfl
        | true => rfl
    · rw [if_neg hsized] at hsearch
      subst hsearch
      cases bs with
      | nil =>
        cases (elements kd).2 with
        | false => rfl
        | true => exact (if_neg hsized).symm
      | cons b' bs =>
        cases (elements kd).2 with
        | false => rfl
        | true => rfl

theorem kde_of_mem {es : List (UInt8 × Bytes)} {b : Bytes} (hb : b ∈ kde_bodies es) :
    is_gtk_kde 0xdd b = true := by
  obtain ⟨⟨id, body⟩, he, rfl⟩ := List.mem_map.mp hb
  have hkde := (List.mem_filter.mp he).2
  have hid : id = 0xdd := by
    simp only [is_gtk_kde, Bool.and_eq_true, beq_iff_eq] at hkde
    exact hkde.1.1.1.1.1
  exact hid ▸ hkde

/-- `find_gtk_kde` finds a GTK only in key data that parses to its end and holds exactly
one GTK KDE. -/
theorem find_gtk_kde_found (kd : Bytes) (h : (find_gtk_kde kd).1 = .Found) :
    (elements kd).2 = true ∧ ∃ b, gtk_bodies kd = [b] ∧ is_gtk_kde 0xdd b = true ∧
      (find_gtk_kde kd).2 = gtk_of b := by
  have hbodies : gtk_bodies kd = kde_bodies (elements kd).1 := rfl
  have hmem := @kde_of_mem (elements kd).1
  rw [find_gtk_kde_verdict] at h ⊢
  rw [hbodies]
  generalize kde_bodies (elements kd).1 = bodies at h hmem ⊢
  cases hwhole : (elements kd).2 with
  | false =>
    rw [hwhole] at h
    cases h
  | true =>
    rw [hwhole] at h
    match bodies with
    | [] => cases h
    | [b] =>
      refine ⟨rfl, b, rfl, hmem List.mem_cons_self, ?_⟩
      by_cases hsized : KeySized b
      · rw [gtk_verdict, if_pos hsized]
      · rw [gtk_verdict, if_neg hsized] at h
        cases h
    | b :: b' :: rest => cases h

end devourer.sta
