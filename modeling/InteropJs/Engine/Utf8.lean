import InteropJs.Engine.Value

/-!
# UTF-8 in the engine (`cutils.c`, `cutils.h`)

`unicode_to_utf8` and `unicode_from_utf8` on bytes, with the masks and shifts of the source. Both know
sequences of up to six bytes; below `0x110000` they are the code points of `InteropJs/Lib/Utf.lean`
(`unicodeToUtf8_eq`, `unicodeFromUtf8_filter`).
-/

namespace InteropJs.QuickJS

/-- `unicode_to_utf8`: the bytes that it writes. -/
def unicodeToUtf8 (c : Nat) : List UInt8 :=
  let first (n : Nat) : UInt8 := .ofNat n
  let next (shift : Nat) : UInt8 := .ofNat ((c >>> shift &&& 0x3f) ||| 0x80)
  if c < 0x80 then [first c]
  else if c < 0x800 then [first (c >>> 6 ||| 0xc0), next 0]
  else if c < 0x10000 then [first (c >>> 12 ||| 0xe0), next 6, next 0]
  else if c < 0x200000 then [first (c >>> 18 ||| 0xf0), next 12, next 6, next 0]
  else if c < 0x4000000 then [first (c >>> 24 ||| 0xf8), next 18, next 12, next 6, next 0]
  else if c < 0x80000000 then
    [first (c >>> 30 ||| 0xfc), next 24, next 18, next 12, next 6, next 0]
  else []

/-- The `switch` of `unicode_from_utf8`: the number of bytes after the first. -/
def utf8Length (c : Nat) : Option Nat :=
  if 0xc0 ≤ c ∧ c ≤ 0xdf then some 1
  else if 0xe0 ≤ c ∧ c ≤ 0xef then some 2
  else if 0xf0 ≤ c ∧ c ≤ 0xf7 then some 3
  else if 0xf8 ≤ c ∧ c ≤ 0xfb then some 4
  else if 0xfc ≤ c ∧ c ≤ 0xfd then some 5
  else none

/-- `utf8_min_code[l - 1]`. -/
def utf8MinCode : Nat → Nat
  | 1 => 0x80
  | 2 => 0x800
  | 3 => 0x10000
  | 4 => 0x200000
  | _ => 0x4000000

/-- `utf8_first_code_mask[l - 1]`. -/
def utf8FirstCodeMask : Nat → Nat
  | 1 => 0x1f
  | 2 => 0xf
  | 3 => 0x7
  | 4 => 0x3
  | _ => 0x1

/-- The loop of `unicode_from_utf8` over `l` bytes. -/
def utf8Rest : Nat → Nat → List UInt8 → Option (Nat × List UInt8)
  | 0, c, p => some (c, p)
  | l + 1, c, b :: p =>
    if b.toNat < 0x80 ∨ 0xc0 ≤ b.toNat then none else utf8Rest l (c <<< 6 ||| b.toNat &&& 0x3f) p
  | _ + 1, _, [] => none

/-- `unicode_from_utf8` with `max_len` the length of the buffer: the code and the buffer after it. -/
def unicodeFromUtf8 : List UInt8 → Option (Nat × List UInt8)
  | [] => none
  | c :: p =>
    if c.toNat < 0x80 then some (c.toNat, p)
    else
      match utf8Length c.toNat with
      | none => none
      | some l =>
        if p.length < l then none
        else
          match utf8Rest l (c.toNat &&& utf8FirstCodeMask l) p with
          | none => none
          | some (c, p) => if c < utf8MinCode l then none else some (c, p)

/-! ## They agree with the code points -/

theorem shift_or {a b : Nat} (hb : b < 64) : a <<< 6 ||| b = a * 64 + b := by
  rw [← Nat.shiftLeft_add_eq_or_of_lt (show b < 2 ^ 6 by omega), Nat.shiftLeft_eq]

/-- The bits of a byte of UTF-8 below its mark. -/
theorem or_mark {a : Nat} (k i : Nat) (h : a < 2 ^ i) : a ||| k * 2 ^ i = a + k * 2 ^ i := by
  rw [Nat.or_comm, Nat.mul_comm, ← Nat.two_pow_add_eq_or_of_lt h, Nat.add_comm]

theorem and_63 (a : Nat) : a &&& 0x3f = a % 64 := Nat.and_two_pow_sub_one_eq_mod a 6

theorem unicodeToUtf8_eq {c : Nat} (h : c < 0x200000) : unicodeToUtf8 c = Utf.encodePoint c := by
  have cont (n : Nat) : n % 64 ||| 0x80 = n % 64 + 0x80 := or_mark 2 6 (Nat.mod_lt _ (by omega))
  have s6 : c >>> 6 = c / 64 := Nat.shiftRight_eq_div_pow c 6
  have s12 : c >>> 12 = c / 4096 := Nat.shiftRight_eq_div_pow c 12
  have s18 : c >>> 18 = c / 262144 := Nat.shiftRight_eq_div_pow c 18
  unfold unicodeToUtf8 Utf.encodePoint Utf.byte
  simp only [and_63, s6, s12, s18, Nat.shiftRight_zero, cont]
  by_cases h1 : c < 0x80
  · simp only [h1, if_true]
  by_cases h2 : c < 0x800
  · have hlead : c / 64 ||| 0xc0 = c / 64 + 0xc0 := or_mark 3 6 (by omega)
    simp only [h1, h2, hlead, if_true, if_false]
  by_cases h3 : c < 0x10000
  · have hlead : c / 4096 ||| 0xe0 = c / 4096 + 0xe0 := or_mark 7 5 (by omega)
    simp only [h1, h2, h3, hlead, if_true, if_false]
  · have hlead : c / 262144 ||| 0xf0 = c / 262144 + 0xf0 := or_mark 15 4 (by omega)
    simp only [h1, h2, h3, h, hlead, if_true, if_false]

theorem utf8Rest_eq (l c : Nat) (p : List UInt8) : utf8Rest l c p = Utf.tails l c p := by
  induction l generalizing c p with
  | zero => rfl
  | succ l ih =>
    cases p with
    | nil => rfl
    | cons b p =>
      unfold utf8Rest Utf.tails
      rw [and_63, shift_or (Nat.mod_lt _ (by omega)), ih]
      by_cases hb : 0x80 ≤ b.toNat ∧ b.toNat < 0xc0
      · rw [if_neg (by omega), if_pos hb]
      · rw [if_pos (by omega), if_neg hb]

/-- Too few bytes are noticed before they are read. -/
theorem tails_short {l c : Nat} {p : List UInt8} (h : p.length < l) : Utf.tails l c p = none := by
  induction l generalizing c p with
  | zero => omega
  | succ l ih =>
    cases p with
    | nil => rfl
    | cons b p =>
      unfold Utf.tails
      rw [List.length_cons] at h
      rw [ih (by omega), ite_self]

/-- What the engine makes of the bytes after a first byte. -/
theorem utf8Code_filter (l c : Nat) (p : List UInt8) :
    Option.filter (fun x => x.1 < 0x110000)
        (if p.length < l then none
        else match utf8Rest l c p with
          | none => none
          | some (c, p) => if c < utf8MinCode l then none else some (c, p)) =
      match Utf.tails l c p with
      | none => none
      | some (c, p) => if utf8MinCode l ≤ c ∧ c < 0x110000 then some (c, p) else none := by
  rw [utf8Rest_eq]
  by_cases hl : p.length < l
  · rw [if_pos hl, tails_short hl]
    rfl
  rw [if_neg hl]
  cases Utf.tails l c p with
  | none => rfl
  | some x =>
    obtain ⟨c, q⟩ := x
    by_cases hmin : c < utf8MinCode l
    · simp [hmin, Nat.not_le.mpr hmin]
    · by_cases hc : c < 0x110000
      · simp [hmin, Nat.not_lt.mp hmin, hc]
      · simp [hmin, hc, Nat.not_lt.mp hc]

/-- The code points that the engine takes are those of `decodePoint`; the codes above them have no
character. -/
theorem unicodeFromUtf8_filter (p : List UInt8) :
    (unicodeFromUtf8 p).filter (fun x => x.1 < 0x110000) = Utf.decodePoint p := by
  cases p with
  | nil => rfl
  | cons b p =>
    unfold unicodeFromUtf8 Utf.decodePoint
    by_cases hb : b.toNat < 0x80
    · have hlt : b.toNat < 0x110000 := by omega
      simp [hb, hlt]
    simp only [hb, if_false]
    -- a first byte of four or five more bytes starts no code point
    have far {l c : Nat} (h : 4 ≤ l) : (match Utf.tails l c p with
        | none => none
        | some (c, p) => if utf8MinCode l ≤ c ∧ c < 0x110000 then some (c, p) else none) = none := by
      have hmin : 0x200000 ≤ utf8MinCode l := by
        unfold utf8MinCode
        split <;> omega
      cases Utf.tails l c p with
      | none => rfl
      | some x => simp only [show ¬ (utf8MinCode l ≤ x.1 ∧ x.1 < 0x110000) by omega, if_false]
    have mask (i : Nat) : b.toNat &&& (2 ^ i - 1) = b.toNat % 2 ^ i := Nat.and_two_pow_sub_one_eq_mod _ i
    by_cases h1 : 0xc0 ≤ b.toNat ∧ b.toNat < 0xe0
    · rw [show utf8Length b.toNat = some 1 from if_pos (by omega),
        show Utf.lead b.toNat = some (1, 32, 0x80) from if_pos h1]
      exact (utf8Code_filter 1 _ p).trans (by rw [show utf8FirstCodeMask 1 = 2 ^ 5 - 1 from rfl, mask 5]; rfl)
    by_cases h2 : 0xe0 ≤ b.toNat ∧ b.toNat < 0xf0
    · have hlength : utf8Length b.toNat = some 2 := by
        rw [utf8Length, if_neg (by omega), if_pos (by omega)]
      rw [hlength, show Utf.lead b.toNat = some (2, 16, 0x800) by rw [Utf.lead, if_neg h1, if_pos h2]]
      exact (utf8Code_filter 2 _ p).trans (by rw [show utf8FirstCodeMask 2 = 2 ^ 4 - 1 from rfl, mask 4]; rfl)
    by_cases h3 : 0xf0 ≤ b.toNat ∧ b.toNat < 0xf8
    · have hlength : utf8Length b.toNat = some 3 := by
        rw [utf8Length, if_neg (by omega), if_neg (by omega), if_pos (by omega)]
      rw [hlength, show Utf.lead b.toNat = some (3, 8, 0x10000) by rw [Utf.lead, if_neg h1, if_neg h2, if_pos h3]]
      exact (utf8Code_filter 3 _ p).trans (by rw [show utf8FirstCodeMask 3 = 2 ^ 3 - 1 from rfl, mask 3]; rfl)
    rw [show Utf.lead b.toNat = none by rw [Utf.lead, if_neg h1, if_neg h2, if_neg h3]]
    cases hlength : utf8Length b.toNat with
    | none => rfl
    | some l =>
      refine (utf8Code_filter l _ p).trans (far ?_)
      unfold utf8Length at hlength
      repeat' split at hlength
      all_goals first | omega | cases hlength
      all_goals omega

/-! ## Surrogates (`cutils.h`) -/

def isHiSurrogate (c : Nat) : Bool := c >>> 10 = 0xD800 >>> 10

def isLoSurrogate (c : Nat) : Bool := c >>> 10 = 0xDC00 >>> 10

def getHiSurrogate (c : Nat) : Nat := (c >>> 10) - (0x10000 >>> 10) + 0xD800

def getLoSurrogate (c : Nat) : Nat := c &&& 0x3FF ||| 0xDC00

def fromSurrogate (hi lo : Nat) : Nat := 0x10000 + 0x400 * (hi - 0xD800) + (lo - 0xDC00)

end InteropJs.QuickJS
