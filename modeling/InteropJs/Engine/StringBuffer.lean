import InteropJs.Engine.Memory
import InteropJs.Engine.Utf8

/-!
# String buffers (`quickjs.c`)

A `JSString` holds 8-bit or 16-bit units. The functions that make one go through a `StringBuffer`, which is
widened at the first unit that needs 16 bits.

* `Appended` says how one call ends: with the units behind those of before, in the block, or with an error
  that has a reason. `Piece.apply_spec` says it of every function that appends.
* `StringBuffer.run_made`: so whatever is appended, in whichever order, `string_buffer_end` gives the
  appended units, in 16 bits exactly when the buffer started with these or one of them needs them, or the
  exception.
-/

namespace InteropJs.QuickJS

open Hoare

/-! ## The functions -/

/-- An `int`, where it is not negative. -/
def intSize (n : Nat) : Nat := (Int.bmod n 0x100000000).toNat

theorem bmod_of_lt {n : Nat} (h : n < 2 ^ 31) : Int.bmod n 0x100000000 = n :=
  Int.bmod_eq_of_le (by omega) (by omega)

theorem intSize_of_lt {n : Nat} (h : n < 2 ^ 31) : intSize n = n := by
  unfold intSize
  rw [bmod_of_lt h, Int.toNat_natCast]

/-- The units of a string. -/
inductive JSString where
  | str8 (units : List UInt8)
  | str16 (units : List UInt16)
  deriving DecidableEq

namespace JSString

def isWideChar : JSString → Bool
  | .str8 _ => false
  | .str16 _ => true

def units : JSString → List UInt16
  | .str8 us => us.map UInt8.toUInt16
  | .str16 us => us

def len (s : JSString) : Nat := s.units.length

/-- The 8-bit units stored as 16-bit ones. -/
def widened (s : JSString) : JSString := .str16 s.units

/-- Units copied behind the string, in its width: `str->u.str8[len++] = c` for each, or
`str->u.str16[len++] = c`. -/
def append (s : JSString) (us : List UInt16) : JSString :=
  match s with
  | .str8 bs => .str8 (bs ++ us.map UInt16.toUInt8)
  | .str16 vs => .str16 (vs ++ us)

end JSString

/-- `JS_STRING_LEN_MAX`. -/
def jsStringLenMax : Nat := 2 ^ 30 - 1

/-- The bytes of a block for `n` units, a `size_t`; the shift is one of `int`. 8-bit units have a terminator. -/
def stringBytes (n : Nat) (wide : Bool) : Nat :=
  if wide then ((16 + Int.bmod (2 * n) 0x100000000) % 2 ^ 64).toNat else 16 + n + 1

/-- A buffer under construction; after an error there is no string. -/
structure StringBuffer where
  str : JSString
  size : Nat
  error : Bool

namespace StringBuffer

/-- `string_buffer_set_error`. -/
def failed : StringBuffer := ⟨.str8 [], 0, true⟩

def init2 (size : Nat) (isWide : Bool) : Alloc StringBuffer := do
  match ← realloc (stringBytes size isWide) with
  | none => return failed
  | some _ => return ⟨if isWide then .str16 [] else .str8 [], size, false⟩

def init (size : Nat) : Alloc StringBuffer := init2 size false

def widen (s : StringBuffer) (size : Nat) : Alloc StringBuffer := do
  if s.error then
    return s
  match ← realloc (stringBytes size true) with
  | none => return failed
  | some slack => return ⟨s.str.widened, intSize (size + slack / 2), false⟩

/-- `string_buffer_realloc`; the multiplication of `int` wraps around. -/
def grow (s : StringBuffer) (newLen c : Nat) : Alloc StringBuffer := do
  if s.error then
    return s
  if jsStringLenMax < newLen then
    return failed
  let newSize := min (max newLen ((Int.bmod (s.size * 3) 0x100000000).tdiv 2).toNat) jsStringLenMax
  if !s.str.isWideChar && 0x100 ≤ c then
    widen s newSize
  else
    match ← realloc (stringBytes newSize s.str.isWideChar) with
    | none => return failed
    | some slack =>
      return { s with
        size := min (newSize + if s.str.isWideChar then slack / 2 else slack) jsStringLenMax }

/-- `string_buffer_putc_slow`. -/
def putcSlow (s : StringBuffer) (c : UInt16) : Alloc StringBuffer := do
  let s ← if s.size ≤ s.str.len then grow s (intSize (s.str.len + 1)) c.toNat else pure s
  if s.error then
    return s
  if s.str.isWideChar || c.toNat < 0x100 then
    return { s with str := s.str.append [c] }
  let s ← widen s s.size
  if s.error then
    return s
  return { s with str := s.str.append [c] }

def putc8 (s : StringBuffer) (c : UInt8) : Alloc StringBuffer := do
  let s ← if s.size ≤ s.str.len then grow s (intSize (s.str.len + 1)) c.toNat else pure s
  if s.error then
    return s
  return { s with str := s.str.append [c.toUInt16] }

def putc16 (s : StringBuffer) (c : UInt16) : Alloc StringBuffer :=
  if s.str.len < s.size && (s.str.isWideChar || c.toNat < 0x100) then
    return { s with str := s.str.append [c] }
  else
    putcSlow s c

/-- `string_buffer_putc` of a code point. -/
def putc (s : StringBuffer) (c : Nat) : Alloc StringBuffer := do
  if 0x10000 ≤ c then
    let s ← putc16 s (.ofNat (getHiSurrogate c))
    if s.error then
      return s
    putc16 s (.ofNat (getLoSurrogate c))
  else
    putc16 s (.ofNat c)

def write8 (s : StringBuffer) (p : List UInt8) : Alloc StringBuffer := do
  let newLen := intSize (s.str.len + p.length)
  let s ← if s.size < newLen then grow s newLen 0 else pure s
  if s.error then
    return s
  return { s with str := s.str.append (p.map UInt8.toUInt16) }

def write16 (s : StringBuffer) (p : List UInt16) : Alloc StringBuffer := do
  let c := p.foldl (fun c u => c ||| u.toNat) 0
  let newLen := intSize (s.str.len + p.length)
  let s ←
    if s.size < newLen then grow s newLen c
    else if !s.str.isWideChar && 0x100 ≤ c then widen s s.size
    else pure s
  if s.error then
    return s
  return { s with str := s.str.append p }

/-- `string_buffer_concat` of the units from `from` up to `to`. -/
def concat (s : StringBuffer) (p : JSString) (start stop : Nat) : Alloc StringBuffer :=
  if stop ≤ start then
    return s
  else
    match p with
    | .str16 us => write16 s ((us.drop start).take (stop - start))
    | .str8 us => write8 s ((us.drop start).take (stop - start))

def fillLoop (c : UInt16) : Nat → StringBuffer → Alloc StringBuffer
  | 0, s => return s
  | count + 1, s => do
    let s ← putc16 s c
    if s.error then
      return s
    fillLoop c count s

def fill (s : StringBuffer) (c : UInt16) (count : Nat) : Alloc StringBuffer := do
  let newLen := intSize (s.str.len + count)
  let s ← if s.size < newLen then grow s newLen c.toNat else pure s
  if s.error then
    return s
  fillLoop c count s

/-- `string_buffer_end`: nothing is `JS_EXCEPTION`. A block that cannot be made smaller is kept. -/
def finish (s : StringBuffer) : Alloc (Option JSString) := do
  if s.error then
    return none
  if s.str.len = 0 then
    return some (.str8 [])
  if s.str.len < s.size then
    let _ ← realloc (stringBytes s.str.len s.str.isWideChar)
  return some s.str

end StringBuffer

/-! ## What a call appends -/

/-- The unit does not fit in 8 bits. -/
def isWide (u : UInt16) : Bool := 0x100 ≤ u.toNat

theorem toUInt8_toUInt16 {u : UInt16} (h : isWide u = false) : u.toUInt8.toUInt16 = u := by
  rw [isWide, decide_eq_false_iff_not] at h
  apply UInt16.toNat_inj.mp
  rw [UInt8.toNat_toUInt16, UInt16.toNat_toUInt8]
  omega

theorem isWide_toUInt16 (b : UInt8) : isWide b.toUInt16 = false := by
  have := b.toNat_lt
  rw [isWide, UInt8.toNat_toUInt16, decide_eq_false_iff_not]
  omega

namespace JSString

@[simp] theorem units_widened (s : JSString) : s.widened.units = s.units := rfl

@[simp] theorem len_widened (s : JSString) : s.widened.len = s.len := rfl

theorem units_append {s : JSString} {us : List UInt16} (h : s.isWideChar = true ∨ us.any isWide = false) :
    (s.append us).units = s.units ++ us := by
  cases s with
  | str8 bs =>
    obtain h | h := h
    · cases h
    · have hmap : us.map (UInt8.toUInt16 ∘ UInt16.toUInt8) = us := by
        refine (List.map_congr_left fun u hu => ?_).trans (List.map_id us)
        exact toUInt8_toUInt16 (by simpa using List.any_eq_false.mp h u hu)
      simp [append, units, hmap]
  | str16 vs => rfl

@[simp] theorem isWideChar_append (s : JSString) (us : List UInt16) :
    (s.append us).isWideChar = s.isWideChar := by
  cases s <;> rfl

end JSString

namespace StringBuffer

variable {ok w : Prop} {s : StringBuffer}

/-- The size of a block that may still have to be widened. -/
def Widens (w : Prop) (s : StringBuffer) : Prop := w → s.str.isWideChar = false → s.size ≤ jsStringLenMax

/-- A buffer without an error; its units are in its block. With `w`, wide units may come. -/
structure Fine (w : Prop) (s : StringBuffer) : Prop where
  error : s.error = false
  fits : s.str.len ≤ s.size
  widens : s.Widens w

/-- `s'` is the buffer `s` with the units `us` at its end, or with an error that has a reason. -/
inductive Appended (ok w : Prop) (s : StringBuffer) (us : List UInt16) : StringBuffer → Prop where
  | fine {s' : StringBuffer} (fine : s'.Fine w) (units : s'.str.units = s.str.units ++ us)
      (wide : s'.str.isWideChar = (s.str.isWideChar || us.any isWide)) : Appended ok w s us s'
  | error (reason : ¬ (ok ∧ s.str.len + us.length ≤ jsStringLenMax)) : Appended ok w s us failed

/-- Room for `newLen` units, wide ones if `c` needs them. -/
inductive Grown (ok w : Prop) (s : StringBuffer) (newLen : Nat) (needed : Bool) : StringBuffer → Prop where
  | fine {s' : StringBuffer} (error : s'.error = false) (room : newLen ≤ s'.size)
      (units : s'.str.units = s.str.units) (wide : s'.str.isWideChar = (s.str.isWideChar || needed))
      (widens : s'.Widens w) : Grown ok w s newLen needed s'
  | error (reason : ¬ (ok ∧ newLen ≤ jsStringLenMax)) : Grown ok w s newLen needed failed

/-- A wide block of at least `newLen` units. -/
theorem widen_spec (hs : s.error = false) {size newLen : Nat} (hsize : newLen ≤ size)
    (hmax : size ≤ jsStringLenMax) :
    Yields (Answers ok) (widen s size) (Grown ok w s newLen true) := by
  unfold widen
  simp only [hs, Bool.false_eq_true, if_false]
  refine Yields.bind (realloc_spec _) fun o ho => ?_
  cases o with
  | none => exact Yields.ret (.error fun h => ho rfl h.1)
  | some slack =>
    have hslack := slack.isLt
    have hlimit : size ≤ 2 ^ 30 - 1 := hmax
    refine Yields.ret (.fine rfl ?_ rfl (by simp [JSString.widened, JSString.isWideChar]) fun _ hn => by cases hn)
    dsimp only
    rw [intSize_of_lt (by omega)]
    omega

theorem grow_spec (hs : s.error = false) (newLen c : Nat) :
    Yields (Answers ok) (grow s newLen c) (Grown ok w s newLen (decide (0x100 ≤ c))) := by
  unfold grow
  simp only [hs, Bool.false_eq_true, if_false]
  by_cases hmax : jsStringLenMax < newLen
  · rw [if_pos hmax]
    exact Yields.ret (.error (by omega))
  rw [if_neg hmax]
  generalize ((Int.bmod (s.size * 3) 0x100000000).tdiv 2).toNat = half
  obtain ⟨newSize, hnew⟩ : ∃ n, n = min (max newLen half) jsStringLenMax := ⟨_, rfl⟩
  have hroom : newLen ≤ newSize := by omega
  rw [← hnew]
  by_cases hwide : (!s.str.isWideChar && decide (0x100 ≤ c)) = true
  · rw [if_pos hwide]
    simp only [Bool.and_eq_true, Bool.not_eq_true', decide_eq_true_eq] at hwide
    rw [decide_eq_true hwide.2]
    exact widen_spec hs hroom (by omega)
  rw [if_neg hwide]
  refine Yields.bind (realloc_spec _) fun o ho => ?_
  cases o with
  | none => exact Yields.ret (.error fun h => ho rfl h.1)
  | some slack =>
    refine Yields.ret (.fine rfl ?_ rfl ?_ fun _ _ => min_le_right _ _)
    · dsimp only
      omega
    · cases hw : s.str.isWideChar <;> simp_all

/-- Units are put where there is room for them. -/
theorem Appended.put {us : List UInt16} {s' : StringBuffer} (hroom : s.str.len + us.length ≤ s'.size)
    (hunits : s'.str.units = s.str.units) (hwide : s'.str.isWideChar = (s.str.isWideChar || us.any isWide))
    (hwidens : s'.Widens w) : Appended ok w s us ⟨s'.str.append us, s'.size, false⟩ := by
  have hput : (s'.str.append us).units = s.str.units ++ us := by
    rw [JSString.units_append, hunits]
    cases hany : us.any isWide with
    | false => exact .inr rfl
    | true => exact .inl (by rw [hwide, hany, Bool.or_true])
  refine .fine ⟨rfl, ?_, fun hw hn => ?_⟩ hput ?_
  · rw [JSString.len, hput, List.length_append]
    exact hroom
  · exact hwidens hw (by rwa [JSString.isWideChar_append] at hn)
  · rw [← hwide, JSString.isWideChar_append]

/-- The same for one unit. -/
theorem Appended.push {c : UInt16} {s' : StringBuffer} (hroom : s.str.len + 1 ≤ s'.size)
    (hunits : s'.str.units = s.str.units) (hwide : s'.str.isWideChar = (s.str.isWideChar || isWide c))
    (hwidens : s'.Widens w) : Appended ok w s [c] ⟨s'.str.append [c], s'.size, false⟩ :=
  .put hroom hunits (by simpa using hwide) hwidens

theorem isWide_eq_false_iff {c : UInt16} : isWide c = false ↔ c.toNat < 0x100 := by
  rw [isWide, decide_eq_false_iff_not, Nat.not_le]

theorem putcSlow_spec (hs : s.Fine w) {c : UInt16} (hc : isWide c = true → w) (hlen : s.str.len + 1 < 2 ^ 31) :
    Yields (Answers ok) (putcSlow s c) (Appended ok w s [c]) := by
  unfold putcSlow
  rw [intSize_of_lt hlen]
  by_cases hroom : s.size ≤ s.str.len
  · rw [if_pos hroom]
    refine Yields.bind (grow_spec (w := w) hs.error _ _) fun s' hgrown => ?_
    cases hgrown with
    | error hreason => exact Yields.ret (.error hreason)
    | fine herror hsize hunits hwide hwidens =>
      have hfit : (s'.str.isWideChar || decide (c.toNat < 0x100)) = true := by
        rw [hwide, Bool.or_assoc]
        by_cases hc : c.toNat < 0x100
        · simp [hc]
        · simp [Nat.not_lt.mp hc]
      simp only [herror, Bool.false_eq_true, if_false, hfit, if_true]
      exact Yields.ret (.push hsize hunits hwide hwidens)
  · rw [if_neg hroom]
    refine Yields.bind (Yields.ret (Q := (· = s)) rfl) fun s' hs' => ?_
    subst hs'
    simp only [hs.error, Bool.false_eq_true, if_false]
    by_cases hfit : (s'.str.isWideChar || decide (c.toNat < 0x100)) = true
    · simp only [hfit, if_true]
      refine Yields.ret (.push (by omega) rfl ?_ hs.widens)
      rw [Bool.or_eq_true, decide_eq_true_eq] at hfit
      obtain h | h := hfit
      · rw [h, Bool.true_or]
      · rw [isWide_eq_false_iff.mpr h, Bool.or_false]
    · simp only [hfit, Bool.false_eq_true, if_false]
      simp only [Bool.or_eq_true, decide_eq_true_eq, not_or, Nat.not_lt, Bool.not_eq_true] at hfit
      have hwide : isWide c = true := decide_eq_true hfit.2
      refine Yields.bind (widen_spec (w := w) hs.error (show s'.str.len + 1 ≤ s'.size by omega)
        (hs.widens (hc hwide) hfit.1)) fun s₂ hgrown => ?_
      cases hgrown with
      | error hreason => exact Yields.ret (.error hreason)
      | fine herror hsize hunits hwide' hwidens =>
        simp only [herror, Bool.false_eq_true, if_false]
        refine Yields.ret (.push hsize hunits ?_ hwidens)
        rw [hwide', Bool.or_true, hwide, Bool.or_true]

theorem putc16_spec (hs : s.Fine w) {c : UInt16} (hc : isWide c = true → w) (hlen : s.str.len + 1 < 2 ^ 31) :
    Yields (Answers ok) (putc16 s c) (Appended ok w s [c]) := by
  unfold putc16
  by_cases hfit : (decide (s.str.len < s.size) && (s.str.isWideChar || decide (c.toNat < 0x100))) = true
  · rw [if_pos hfit]
    simp only [Bool.and_eq_true, decide_eq_true_eq, Bool.or_eq_true] at hfit
    rw [hs.error]
    refine Yields.ret (.push hfit.1 rfl ?_ hs.widens)
    obtain h | h := hfit.2
    · rw [h, Bool.true_or]
    · rw [isWide_eq_false_iff.mpr h, Bool.or_false]
  · rw [if_neg hfit]
    exact putcSlow_spec hs hc hlen

theorem putc8_spec (hs : s.Fine w) (c : UInt8) (hlen : s.str.len + 1 < 2 ^ 31) :
    Yields (Answers ok) (putc8 s c) (Appended ok w s [c.toUInt16]) := by
  have hnarrow := isWide_toUInt16 c
  have hc : ¬ 0x100 ≤ c.toNat := by
    have := c.toNat_lt
    omega
  unfold putc8
  rw [intSize_of_lt hlen]
  by_cases hroom : s.size ≤ s.str.len
  · rw [if_pos hroom]
    refine Yields.bind (grow_spec (w := w) hs.error _ _) fun s' hgrown => ?_
    cases hgrown with
    | error hreason => exact Yields.ret (.error hreason)
    | fine herror hsize hunits hwide hwidens =>
      simp only [herror, Bool.false_eq_true, if_false]
      refine Yields.ret (.push hsize hunits ?_ hwidens)
      rw [hwide, hnarrow, decide_eq_false hc]
  · rw [if_neg hroom]
    refine Yields.bind (Yields.ret (Q := (· = s)) rfl) fun s' hs' => ?_
    subst hs'
    simp only [hs.error, Bool.false_eq_true, if_false]
    exact Yields.ret (.push (by omega) rfl (by rw [hnarrow, Bool.or_false]) hs.widens)

theorem Appended.nil (hs : s.Fine w) : Appended ok w s [] s :=
  .fine hs (by simp) (by simp)

/-- What a first error says of all that was to be appended. -/
theorem Appended.cut {us : List UInt16} (vs : List UInt16)
    (h : ¬ (ok ∧ s.str.len + us.length ≤ jsStringLenMax)) : Appended ok w s (us ++ vs) failed := by
  refine .error fun hg => h ⟨hg.1, ?_⟩
  have := hg.2
  rw [List.length_append] at this
  omega

theorem len_of_units {s' : StringBuffer} {us : List UInt16} (h : s'.str.units = s.str.units ++ us) :
    s'.str.len = s.str.len + us.length := by
  rw [JSString.len, h, List.length_append]
  rfl

theorem Appended.trans {us vs : List UInt16} {s₁ s₂ : StringBuffer} (h₁ : Appended ok w s us s₁)
    (hfine : s₁.Fine w) (h₂ : Appended ok w s₁ vs s₂) : Appended ok w s (us ++ vs) s₂ := by
  cases h₁ with
  | error hreason => cases hfine.error
  | fine _ hunits hwide =>
    have hlen := len_of_units hunits
    cases h₂ with
    | error hreason =>
      refine .error fun hg => hreason ⟨hg.1, ?_⟩
      have := hg.2
      rw [List.length_append] at this
      omega
    | fine hfine' hunits' hwide' =>
      refine .fine hfine' ?_ ?_
      · rw [hunits', hunits, List.append_assoc]
      · rw [hwide', hwide, List.any_append, Bool.or_assoc]

/-- One append after another, unless the first one failed. -/
theorem Yields.append {u v : List UInt16} {f g : StringBuffer → Alloc StringBuffer}
    (hf : Yields (Answers ok) (f s) (Appended ok w s u))
    (hg : ∀ s', s'.Fine w → s'.str.len = s.str.len + u.length →
      Yields (Answers ok) (g s') (Appended ok w s' v)) :
    Yields (Answers ok) (do let s ← f s
                            if s.error then return s
                            g s) (Appended ok w s (u ++ v)) := by
  refine Yields.bind hf fun s' hs' => ?_
  cases hs' with
  | error hreason => exact Yields.ret (.cut v hreason)
  | fine hfine hunits hwide =>
    simp only [hfine.error, Bool.false_eq_true, if_false]
    exact (hg s' hfine (len_of_units hunits)).post fun s₂ h₂ => Appended.trans (.fine hfine hunits hwide) hfine h₂

theorem units_ofNat (c : Nat) : Utf.units c =
    if 0x10000 ≤ c then [.ofNat (getHiSurrogate c), .ofNat (getLoSurrogate c)] else [.ofNat c] := by
  have hhi : getHiSurrogate c = c / 1024 - 64 + 0xD800 := by
    rw [getHiSurrogate, Nat.shiftRight_eq_div_pow]
    rfl
  have hlo : getLoSurrogate c = c % 1024 + 0xDC00 := by
    rw [getLoSurrogate, show (0x3FF : Nat) = 2 ^ 10 - 1 from rfl, Nat.and_two_pow_sub_one_eq_mod]
    exact or_mark 55 10 (Nat.mod_lt _ (by omega))
  unfold Utf.units Utf.unit
  by_cases hc : c < 0x10000
  · rw [if_pos hc, if_neg (by omega)]
  · rw [if_neg hc, if_pos (by omega), hhi, hlo]

theorem putc_spec (hs : s.Fine w) (c : Nat) (hc : (Utf.units c).any isWide = true → w)
    (hlen : s.str.len + (Utf.units c).length < 2 ^ 31) :
    Yields (Answers ok) (putc s c) (Appended ok w s (Utf.units c)) := by
  rw [units_ofNat] at hc hlen ⊢
  unfold putc
  by_cases hlarge : 0x10000 ≤ c
  · rw [if_pos hlarge] at hc hlen ⊢
    rw [if_pos hlarge]
    simp only [List.length_cons, List.length_nil] at hlen
    refine Yields.append (u := [.ofNat (getHiSurrogate c)]) (f := fun s => putc16 s _)
      (putc16_spec hs (fun h => hc (by simp [h])) (by omega)) fun s' hs' hlen' => ?_
    rw [List.length_singleton] at hlen'
    exact putc16_spec hs' (fun h => hc (by simp [h])) (by omega)
  · rw [if_neg hlarge] at hc hlen ⊢
    rw [if_neg hlarge]
    exact putc16_spec hs (fun h => hc (by simp [h])) hlen

theorem write8_spec (hs : s.Fine w) (p : List UInt8) (hlen : s.str.len + p.length < 2 ^ 31) :
    Yields (Answers ok) (write8 s p) (Appended ok w s (p.map UInt8.toUInt16)) := by
  have hnarrow : (p.map UInt8.toUInt16).any isWide = false := by
    simp [isWide_toUInt16]
  unfold write8
  rw [intSize_of_lt hlen]
  by_cases hroom : s.size < s.str.len + p.length
  · simp only [if_pos hroom]
    refine Yields.bind (grow_spec (w := w) hs.error _ _) fun s' hgrown => ?_
    cases hgrown with
    | error hreason => exact Yields.ret (.error (by simpa using hreason))
    | fine herror hsize hunits hwide hwidens =>
      simp only [herror, Bool.false_eq_true, if_false]
      exact Yields.ret (.put (by simpa using hsize) hunits (by rw [hwide, hnarrow]; rfl) hwidens)
  · simp only [if_neg hroom]
    refine Yields.bind (Yields.ret (Q := (· = s)) rfl) fun s' hs' => ?_
    subst hs'
    simp only [hs.error, Bool.false_eq_true, if_false]
    exact Yields.ret (.put (by simpa using hroom) rfl (by rw [hnarrow, Bool.or_false]) hs.widens)

/-- The bits of all units show whether one of them is wide. -/
theorem foldl_or_wide (p : List UInt16) (c : Nat) :
    0x100 ≤ p.foldl (fun c u => c ||| u.toNat) c ↔ 0x100 ≤ c ∨ p.any isWide = true := by
  induction p generalizing c with
  | nil => simp
  | cons u p ih =>
    have hor : 0x100 ≤ c ||| u.toNat ↔ 0x100 ≤ c ∨ 0x100 ≤ u.toNat := by
      constructor
      · intro h
        by_contra hn
        have hlt : c ||| u.toNat < 2 ^ 8 := Nat.or_lt_two_pow (by omega) (by omega)
        omega
      · rintro (h | h)
        · exact h.trans Nat.left_le_or
        · exact h.trans Nat.right_le_or
    rw [List.foldl_cons, ih, hor, List.any_cons, Bool.or_eq_true, isWide, decide_eq_true_eq, or_assoc]

theorem write16_spec (hs : s.Fine w) (p : List UInt16) (hp : p.any isWide = true → w)
    (hlen : s.str.len + p.length < 2 ^ 31) : Yields (Answers ok) (write16 s p) (Appended ok w s p) := by
  have hbits : decide (0x100 ≤ p.foldl (fun c u => c ||| u.toNat) 0) = p.any isWide := by
    rw [Bool.eq_iff_iff, decide_eq_true_iff, foldl_or_wide]
    simp
  unfold write16
  rw [intSize_of_lt hlen]
  simp only
  by_cases hroom : s.size < s.str.len + p.length
  · rw [if_pos hroom]
    refine Yields.bind (grow_spec (w := w) hs.error _ _) fun s' hgrown => ?_
    rw [hbits] at hgrown
    cases hgrown with
    | error hreason => exact Yields.ret (.error hreason)
    | fine herror hsize hunits hwide hwidens =>
      simp only [herror, Bool.false_eq_true, if_false]
      exact Yields.ret (.put hsize hunits hwide hwidens)
  rw [if_neg hroom, hbits]
  by_cases hwiden : (!s.str.isWideChar && p.any isWide) = true
  · rw [if_pos hwiden]
    simp only [Bool.and_eq_true, Bool.not_eq_true'] at hwiden
    refine Yields.bind (widen_spec (w := w) hs.error (Nat.not_lt.mp hroom) (hs.widens (hp hwiden.2) hwiden.1))
      fun s' hgrown => ?_
    cases hgrown with
    | error hreason => exact Yields.ret (.error hreason)
    | fine herror hsize hunits hwide hwidens =>
      simp only [herror, Bool.false_eq_true, if_false]
      refine Yields.ret (.put hsize hunits ?_ hwidens)
      rw [hwide, hwiden.2]
  · rw [if_neg hwiden]
    refine Yields.bind (Yields.ret (Q := (· = s)) rfl) fun s' hs' => ?_
    subst hs'
    simp only [hs.error, Bool.false_eq_true, if_false]
    refine Yields.ret (.put (Nat.not_lt.mp hroom) rfl ?_ hs.widens)
    revert hwiden
    cases s'.str.isWideChar <;> cases p.any isWide <;> simp

/-- The units of a part of a string. -/
def part (p : JSString) (start stop : Nat) : List UInt16 := (p.units.drop start).take (stop - start)

theorem concat_spec (hs : s.Fine w) (p : JSString) (start stop : Nat)
    (hp : (part p start stop).any isWide = true → w) (hlen : s.str.len + (part p start stop).length < 2 ^ 31) :
    Yields (Answers ok) (concat s p start stop) (Appended ok w s (part p start stop)) := by
  unfold concat
  by_cases h : stop ≤ start
  · rw [if_pos h, part, Nat.sub_eq_zero_of_le h, List.take_zero]
    exact Yields.ret (.nil hs)
  rw [if_neg h]
  cases p with
  | str16 us =>
    have hunits : part (.str16 us) start stop = (us.drop start).take (stop - start) := rfl
    rw [hunits] at hp hlen ⊢
    exact write16_spec hs _ hp hlen
  | str8 us =>
    have hunits : part (.str8 us) start stop = ((us.drop start).take (stop - start)).map UInt8.toUInt16 := by
      rw [part, JSString.units, ← List.map_drop, ← List.map_take]
    rw [hunits, List.length_map] at hlen
    rw [hunits]
    exact write8_spec hs _ hlen

theorem fillLoop_spec {c : UInt16} {count : Nat} (hs : s.Fine w) (hc : count ≠ 0 → isWide c = true → w)
    (hlen : s.str.len + count < 2 ^ 31) :
    Yields (Answers ok) (fillLoop c count s) (Appended ok w s (.replicate count c)) := by
  induction count generalizing s with
  | zero => exact Yields.ret (.nil hs)
  | succ count ih =>
    have hfirst : isWide c = true → w := hc (Nat.succ_ne_zero _)
    refine Yields.append (u := [c]) (f := fun s => putc16 s c) (putc16_spec hs hfirst (by omega))
      fun s' hs' hlen' => ih hs' (fun _ => hfirst) ?_
    rw [List.length_singleton] at hlen'
    omega

theorem fill_spec (hs : s.Fine w) (c : UInt16) (count : Nat) (hc : count ≠ 0 → isWide c = true → w)
    (hlen : s.str.len + count < 2 ^ 31) :
    Yields (Answers ok) (fill s c count) (Appended ok w s (.replicate count c)) := by
  unfold fill
  rw [intSize_of_lt hlen]
  by_cases hroom : s.size < s.str.len + count
  · simp only [if_pos hroom]
    have hpos : count ≠ 0 := by
      have := hs.fits
      omega
    refine Yields.bind (grow_spec (w := w) hs.error _ _) fun s' hgrown => ?_
    cases hgrown with
    | error hreason => exact Yields.ret (.error (by simpa using hreason))
    | fine herror hsize hunits hwide hwidens =>
      simp only [herror, Bool.false_eq_true, if_false]
      have hsame : s'.str.len = s.str.len := congrArg List.length hunits
      refine (fillLoop_spec ⟨herror, by omega, hwidens⟩ hc (by omega)).post fun s₂ h₂ => ?_
      cases h₂ with
      | error hreason =>
        rw [hsame] at hreason
        exact .error hreason
      | fine hfine hunits' hwide' =>
        refine .fine hfine (by rw [hunits', hunits]) ?_
        rw [hwide', hwide, List.any_replicate, if_neg hpos, Bool.or_assoc]
        exact congrArg _ (Bool.or_self _)
  · simp only [if_neg hroom]
    refine Yields.bind (Yields.ret (Q := (· = s)) rfl) fun s' hs' => ?_
    subst hs'
    simp only [hs.error, Bool.false_eq_true, if_false]
    exact fillLoop_spec hs hc hlen

/-! ## Runs -/

/-- What a caller appends with one call: code points and parts of strings, as its callers promise. -/
inductive Piece where
  | putc8 (c : UInt8)
  | putc16 (c : UInt16)
  | putc (c : Nat) (isPoint : c ≤ 0x10FFFF)
  | write8 (p : List UInt8)
  | write16 (p : List UInt16) (short : p.length ≤ jsStringLenMax)
  | concat (p : JSString) (start stop : Nat) (short : p.len ≤ jsStringLenMax) (inside : stop ≤ p.len)
  | fill (c : UInt16) (count : Nat)

def Piece.units : Piece → List UInt16
  | .putc8 c => [c.toUInt16]
  | .putc16 c => [c]
  | .putc c _ => Utf.units c
  | .write8 p => p.map UInt8.toUInt16
  | .write16 p _ => p
  | .concat p start stop _ _ => part p start stop
  | .fill c count => .replicate count c

def Piece.apply (s : StringBuffer) : Piece → Alloc StringBuffer
  | .putc8 c => StringBuffer.putc8 s c
  | .putc16 c => StringBuffer.putc16 s c
  | .putc c _ => StringBuffer.putc s c
  | .write8 p => StringBuffer.write8 s p
  | .write16 p _ => StringBuffer.write16 s p
  | .concat p start stop _ _ => StringBuffer.concat s p start stop
  | .fill c count => StringBuffer.fill s c count

/-- The calls one after another; their results are not looked at. -/
def run : List Piece → StringBuffer → Alloc StringBuffer
  | [], s => return s
  | piece :: pieces, s => do run pieces (← piece.apply s)

theorem Piece.apply_spec (piece : Piece) (hs : s.Fine w) (hw : piece.units.any isWide = true → w)
    (hlen : s.str.len + piece.units.length < 2 ^ 31) :
    Yields (Answers ok) (piece.apply s) (Appended ok w s piece.units) := by
  cases piece with
  | putc8 c => exact putc8_spec hs c (by simpa only [Piece.units, List.length_singleton] using hlen)
  | putc16 c =>
    exact putc16_spec hs (fun h => hw (by simp [Piece.units, h]))
      (by simpa only [Piece.units, List.length_singleton] using hlen)
  | putc c isPoint =>
    simp only [Piece.units] at hw hlen ⊢
    exact putc_spec hs c hw hlen
  | write8 p => exact write8_spec hs p (by simpa only [Piece.units, List.length_map] using hlen)
  | write16 p short =>
    simp only [Piece.units] at hw hlen ⊢
    exact write16_spec hs p hw hlen
  | concat p start stop short inside =>
    simp only [Piece.units] at hw hlen ⊢
    exact concat_spec hs p start stop hw hlen
  | fill c count =>
    refine fill_spec hs c count (fun hpos hc => hw ?_) ?_
    · rw [Piece.units, List.any_replicate, if_neg hpos, hc]
    · rwa [Piece.units, List.length_replicate] at hlen

theorem write8_failed (p : List UInt8) : write8 failed p = pure failed := by
  unfold write8
  simp only
  split <;> rfl

theorem write16_failed (p : List UInt16) : write16 failed p = pure failed := by
  unfold write16
  simp only
  split
  · rfl
  split
  · rfl
  · rfl

/-- After an error every call fails. -/
theorem Piece.apply_failed (piece : Piece) : piece.apply failed = pure failed := by
  cases piece with
  | putc8 c => rfl
  | putc16 c => rfl
  | putc c isPoint =>
    show StringBuffer.putc failed c = _
    unfold StringBuffer.putc
    by_cases hc : 0x10000 ≤ c
    · rw [if_pos hc]
      rfl
    · rw [if_neg hc]
      rfl
  | write8 p => exact write8_failed p
  | write16 p short => exact write16_failed p
  | concat p start stop short inside =>
    show StringBuffer.concat failed p start stop = _
    unfold StringBuffer.concat
    by_cases h : stop ≤ start
    · rw [if_pos h]
    rw [if_neg h]
    cases p with
    | str8 us => exact write8_failed _
    | str16 us => exact write16_failed _
  | fill c count =>
    show StringBuffer.fill failed c count = _
    unfold StringBuffer.fill
    simp only
    split <;> cases count <;> rfl

/-- One append after another, when the first result is not looked at. -/
theorem Yields.appendNext {u v : List UInt16} {c : Alloc StringBuffer} {g : StringBuffer → Alloc StringBuffer}
    (hc : Yields (Answers ok) c (Appended ok w s u))
    (hg : ∀ s', s'.Fine w → s'.str.len = s.str.len + u.length →
      Yields (Answers ok) (g s') (Appended ok w s' v))
    (hfailed : Yields (Answers ok) (g failed) (· = failed)) :
    Yields (Answers ok) (c >>= g) (Appended ok w s (u ++ v)) := by
  refine Yields.bind hc fun s' hs' => ?_
  cases hs' with
  | error hreason => exact hfailed.post fun s₂ h₂ => h₂ ▸ .cut v hreason
  | fine hfine hunits hwide =>
    exact (hg s' hfine (len_of_units hunits)).post fun s₂ h₂ => Appended.trans (.fine hfine hunits hwide) hfine h₂

theorem run_failed (pieces : List Piece) : Yields (Answers ok) (run pieces failed) (· = failed) := by
  induction pieces with
  | nil => exact Yields.ret rfl
  | cons piece pieces ih =>
    rw [run, Piece.apply_failed, pure_bind]
    exact ih

theorem run_appended (pieces : List Piece) (hs : s.Fine w)
    (hw : (pieces.flatMap Piece.units).any isWide = true → w)
    (hlen : s.str.len + (pieces.flatMap Piece.units).length < 2 ^ 31) :
    Yields (Answers ok) (run pieces s) (Appended ok w s (pieces.flatMap Piece.units)) := by
  induction pieces generalizing s with
  | nil => exact Yields.ret (.nil hs)
  | cons piece pieces ih =>
    rw [run]
    rw [List.flatMap_cons] at hw hlen ⊢
    rw [List.any_append, Bool.or_eq_true] at hw
    rw [List.length_append] at hlen
    exact Yields.appendNext (piece.apply_spec hs (fun h => hw (.inl h)) (by omega))
      (fun s' hs' hlen' => ih hs' (fun h => hw (.inr h)) (by omega)) (run_failed pieces)

/-- The string made of the units, or nothing for a reason. -/
def Made (ok : Prop) (us : List UInt16) (wide : Bool) : Option JSString → Prop
  | some str => str.units = us ∧ str.isWideChar = wide
  | none => ¬ (ok ∧ us.length ≤ jsStringLenMax)

theorem init2_spec {size : Nat} {wide : Bool} (hsize : w → wide = false → size ≤ jsStringLenMax) :
    Yields (Answers ok) (init2 size wide) fun s =>
      (s.Fine w ∧ s.str.units = [] ∧ s.str.isWideChar = wide) ∨ s = failed ∧ ¬ ok := by
  unfold init2
  refine Yields.bind (realloc_spec _) fun o ho => ?_
  cases o with
  | none => exact Yields.ret (.inr ⟨rfl, ho rfl⟩)
  | some slack =>
    refine Yields.ret (.inl ?_)
    cases wide with
    | false => exact ⟨⟨rfl, Nat.zero_le _, fun hw _ => hsize hw rfl⟩, rfl, rfl⟩
    | true => exact ⟨⟨rfl, Nat.zero_le _, fun _ hn => by cases hn⟩, rfl, rfl⟩

theorem finish_spec {us : List UInt16} {s' : StringBuffer} (hs : s.str.units = [])
    (h : Appended ok w s us s') :
    Yields (Answers ok) (finish s') (Made ok us (!us.isEmpty && (s.str.isWideChar || us.any isWide))) := by
  unfold finish
  cases h with
  | error hreason =>
    refine Yields.ret fun hg => hreason ⟨hg.1, ?_⟩
    rw [JSString.len, hs]
    exact (Nat.zero_add _).trans_le hg.2
  | fine hfine hunits hwide =>
    rw [hs] at hunits
    have hunits' : s'.str.units = us := hunits
    simp only [hfine.error, Bool.false_eq_true, if_false]
    by_cases hempty : s'.str.len = 0
    · have hnil : us = [] := by
        rw [← hunits']
        exact List.length_eq_zero_iff.mp hempty
      simp only [hempty, if_true]
      subst hnil
      exact Yields.ret ⟨rfl, rfl⟩
    have hmade : Made ok us (!us.isEmpty && (s.str.isWideChar || us.any isWide)) (some s'.str) := by
      refine ⟨hunits', ?_⟩
      rw [hwide]
      cases us with
      | nil => exact absurd (congrArg List.length hunits') hempty
      | cons u us => rfl
    simp only [hempty, if_false]
    by_cases hsmall : s'.str.len < s'.size
    · simp only [hsmall, if_true]
      exact Yields.bind (realloc_spec _) fun _ _ => Yields.ret hmade
    · simp only [hsmall, if_false]
      exact Yields.ret hmade

/-- Whatever a caller appends, up to the range of `int`, and whatever memory does: the string has the appended
units, in 16 bits exactly when the buffer started with these or one of them needs them, or a request of the run
was refused or the length ran out. An empty string is the constant one. -/
theorem run_made {size : Nat} (wide : Bool) {pieces : List Piece} (hsize : size ≤ jsStringLenMax)
    (hlen : (pieces.flatMap Piece.units).length < 2 ^ 31) :
    EveryRun (do finish (← run pieces (← init2 size wide))) fun ok =>
      let us := pieces.flatMap Piece.units
      Made ok us (!us.isEmpty && (wide || us.any isWide)) := by
  refine EveryRun.of fun ok => ?_
  refine Yields.bind (init2_spec (w := True) fun _ _ => hsize) fun s hs => ?_
  obtain ⟨hfine, hempty, hwide⟩ | ⟨rfl, hreason⟩ := hs
  · have hzero : s.str.len = 0 := congrArg List.length hempty
    rw [← hwide]
    exact Yields.bind (run_appended pieces hfine (fun _ => trivial) (by omega)) fun s' hs' =>
      finish_spec hempty hs'
  · refine Yields.bind (run_failed pieces) fun s' hs' => ?_
    subst hs'
    exact Yields.ret fun hg => hreason hg.1

/-- A buffer that is widened at its second unit. -/
theorem run_made_short :
    EveryRun (do finish (← run [.putc8 65, .putc16 0x3A9] (← init2 1 false))) fun ok => Made ok [65, 0x3A9] true := by
  have hlen : ([.putc8 65, .putc16 0x3A9].flatMap Piece.units).length < 2 ^ 31 := by decide
  exact run_made false (by decide) hlen

end StringBuffer

end InteropJs.QuickJS
