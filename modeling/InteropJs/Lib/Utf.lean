import Mathlib.Data.List.Basic
import Mathlib.Tactic.Ring

/-!
# UTF-8 and UTF-16 of code points

Code points are numbers below `0x110000`, surrogates included: a UTF-16 string may have a
surrogate without its partner, and its generalised UTF-8 form keeps it. A list of *scalar* values
(no surrogates) is what a Unicode string holds.

* `encodePoint`/`decodePoint`: one code point in UTF-8. `decodePoint` refuses overlong forms, so
  the two are inverse in both directions (`decodePoint_encodePoint`, `encodePoint_of_decodePoint`).
* `encode8`/`decode8`: a list of code points in UTF-8; `decode8` refuses a malformed sequence.
* `encode16`/`decode16`: a list of code points in UTF-16. `decode16` pairs surrogates and keeps the
  unmatched ones, so `encode16 (decode16 us) = us` for every list of 16-bit units
  (`encode16_decode16`), and `decode16 (encode16 cs) = cs` for scalar values
  (`decode16_encode16`).
* `takeWhile_encode8`: the bytes before the first zero byte are those of the code points before
  the first zero.
-/

namespace Utf

/-- A surrogate code point. -/
def isSurrogate (c : Nat) : Bool := 0xD800 ≤ c ∧ c < 0xE000

/-- A Unicode scalar value. -/
def IsScalar (c : Nat) : Prop := c < 0x110000 ∧ isSurrogate c = false

instance (c : Nat) : Decidable (IsScalar c) := inferInstanceAs (Decidable (_ ∧ _))

/-! ## One code point in UTF-8 -/

def byte (n : Nat) : UInt8 := UInt8.ofNat n

theorem byte_toNat {n : Nat} (h : n < 256) : (byte n).toNat = n := by
  simp [byte, Nat.mod_eq_of_lt h]

theorem byte_of_toNat (b : UInt8) : byte b.toNat = b := UInt8.ofNat_toNat

/-- The UTF-8 bytes of a code point below `0x200000`. -/
def encodePoint (c : Nat) : List UInt8 :=
  if c < 0x80 then [byte c]
  else if c < 0x800 then [byte (c / 64 + 0xc0), byte (c % 64 + 0x80)]
  else if c < 0x10000 then
    [byte (c / 4096 + 0xe0), byte (c / 64 % 64 + 0x80), byte (c % 64 + 0x80)]
  else
    [byte (c / 262144 + 0xf0), byte (c / 4096 % 64 + 0x80), byte (c / 64 % 64 + 0x80),
      byte (c % 64 + 0x80)]

/-- `n` continuation bytes after the bits `c`. -/
def tails : Nat → Nat → List UInt8 → Option (Nat × List UInt8)
  | 0, c, bs => some (c, bs)
  | n + 1, c, b :: bs =>
    if 0x80 ≤ b.toNat ∧ b.toNat < 0xc0 then tails n (c * 64 + b.toNat % 64) bs else none
  | _ + 1, _, [] => none

/-- The number of continuation bytes after a first byte, the range of its own bits, and the least
code point of that length. -/
def lead (b : Nat) : Option (Nat × Nat × Nat) :=
  if 0xc0 ≤ b ∧ b < 0xe0 then some (1, 32, 0x80)
  else if 0xe0 ≤ b ∧ b < 0xf0 then some (2, 16, 0x800)
  else if 0xf0 ≤ b ∧ b < 0xf8 then some (3, 8, 0x10000)
  else none

/-- The first code point of a byte sequence and the bytes after it. -/
def decodePoint : List UInt8 → Option (Nat × List UInt8)
  | [] => none
  | b :: bs =>
    if b.toNat < 0x80 then some (b.toNat, bs)
    else
      match lead b.toNat with
      | none => none
      | some (n, m, least) =>
        match tails n (b.toNat % m) bs with
        | none => none
        | some (c, rest) => if least ≤ c ∧ c < 0x110000 then some (c, rest) else none

theorem decodePoint_encodePoint {c : Nat} (h : c < 0x110000) (rest : List UInt8) :
    decodePoint (encodePoint c ++ rest) = some (c, rest) := by
  unfold encodePoint
  split
  · rename_i h1
    simp only [List.singleton_append, decodePoint, byte_toNat (show c < 256 by omega), h1, ↓reduceIte]
  split
  · rename_i h1 h2
    have e1 := byte_toNat (show c / 64 + 0xc0 < 256 by omega)
    have e2 := byte_toNat (show c % 64 + 0x80 < 256 by omega)
    have hl : lead (c / 64 + 0xc0) = some (1, 32, 0x80) := by
      rw [lead, if_pos (by omega)]
    simp only [List.cons_append, List.nil_append, decodePoint, e1, e2, hl, tails,
      show ¬ c / 64 + 0xc0 < 0x80 by omega, show (0x80 ≤ c % 64 + 0x80 ∧ c % 64 + 0x80 < 0xc0) by omega,
      and_self, ↓reduceIte, show (c / 64 + 0xc0) % 32 * 64 + (c % 64 + 0x80) % 64 = c by omega,
      show (0x80 ≤ c ∧ c < 0x110000) by omega]
  split
  · rename_i h1 h2 h3
    have e1 := byte_toNat (show c / 4096 + 0xe0 < 256 by omega)
    have e2 := byte_toNat (show c / 64 % 64 + 0x80 < 256 by omega)
    have e3 := byte_toNat (show c % 64 + 0x80 < 256 by omega)
    have hl : lead (c / 4096 + 0xe0) = some (2, 16, 0x800) := by
      rw [lead, if_neg (by omega), if_pos (by omega)]
    simp only [List.cons_append, List.nil_append, decodePoint, e1, e2, e3, hl, tails,
      show ¬ c / 4096 + 0xe0 < 0x80 by omega,
      show (0x80 ≤ c / 64 % 64 + 0x80 ∧ c / 64 % 64 + 0x80 < 0xc0) by omega,
      show (0x80 ≤ c % 64 + 0x80 ∧ c % 64 + 0x80 < 0xc0) by omega, and_self, ↓reduceIte,
      show ((c / 4096 + 0xe0) % 16 * 64 + (c / 64 % 64 + 0x80) % 64) * 64 + (c % 64 + 0x80) % 64 = c
        by omega,
      show (0x800 ≤ c ∧ c < 0x110000) by omega]
  · rename_i h1 h2 h3
    have e1 := byte_toNat (show c / 262144 + 0xf0 < 256 by omega)
    have e2 := byte_toNat (show c / 4096 % 64 + 0x80 < 256 by omega)
    have e3 := byte_toNat (show c / 64 % 64 + 0x80 < 256 by omega)
    have e4 := byte_toNat (show c % 64 + 0x80 < 256 by omega)
    have hl : lead (c / 262144 + 0xf0) = some (3, 8, 0x10000) := by
      rw [lead, if_neg (by omega), if_neg (by omega), if_pos (by omega)]
    simp only [List.cons_append, List.nil_append, decodePoint, e1, e2, e3, e4, hl, tails,
      show ¬ c / 262144 + 0xf0 < 0x80 by omega,
      show (0x80 ≤ c / 4096 % 64 + 0x80 ∧ c / 4096 % 64 + 0x80 < 0xc0) by omega,
      show (0x80 ≤ c / 64 % 64 + 0x80 ∧ c / 64 % 64 + 0x80 < 0xc0) by omega,
      show (0x80 ≤ c % 64 + 0x80 ∧ c % 64 + 0x80 < 0xc0) by omega, and_self, ↓reduceIte,
      show (((c / 262144 + 0xf0) % 8 * 64 + (c / 4096 % 64 + 0x80) % 64) * 64 +
        (c / 64 % 64 + 0x80) % 64) * 64 + (c % 64 + 0x80) % 64 = c by omega,
      show (0x10000 ≤ c ∧ c < 0x110000) by omega]

/-- A continuation byte is `0x80` plus its six bits. -/
theorem tails_succ {n c d : Nat} {bs rest : List UInt8} (h : tails (n + 1) c bs = some (d, rest)) :
    ∃ x bs', x < 64 ∧ bs = byte (x + 0x80) :: bs' ∧ tails n (c * 64 + x) bs' = some (d, rest) := by
  cases bs with
  | nil => simp [tails] at h
  | cons b bs =>
    simp only [tails] at h
    split at h
    · rename_i hb
      refine ⟨b.toNat % 64, bs, by omega, ?_, h⟩
      rw [show b.toNat % 64 + 0x80 = b.toNat by omega, byte_of_toNat]
    · cases h

/-- `decodePoint` accepts only the shortest form. -/
theorem encodePoint_of_decodePoint {bs rest : List UInt8} {c : Nat}
    (h : decodePoint bs = some (c, rest)) : bs = encodePoint c ++ rest ∧ c < 0x110000 := by
  cases bs with
  | nil => simp [decodePoint] at h
  | cons b bs =>
    simp only [decodePoint] at h
    split at h
    · rename_i hb
      simp only [Option.some.injEq, Prod.mk.injEq] at h
      obtain ⟨rfl, rfl⟩ := h
      exact ⟨by simp [encodePoint, hb, byte_of_toNat], by omega⟩
    split at h
    · cases h
    rename_i hb n m least hl
    split at h
    · cases h
    rename_i d rest' ht
    split at h
    · rename_i hd
      simp only [Option.some.injEq, Prod.mk.injEq] at h
      obtain ⟨rfl, rfl⟩ := h
      refine ⟨?_, hd.2⟩
      have hbl : byte b.toNat = b := byte_of_toNat b
      unfold lead at hl
      split at hl
      · simp only [Option.some.injEq, Prod.mk.injEq] at hl
        obtain ⟨rfl, rfl, rfl⟩ := hl
        obtain ⟨x, bs', hx, rfl, hx'⟩ := tails_succ ht
        simp only [tails, Option.some.injEq, Prod.mk.injEq] at hx'
        obtain ⟨rfl, rfl⟩ := hx'
        rw [encodePoint, if_neg (by omega), if_pos (by omega),
          show (b.toNat % 32 * 64 + x) / 64 + 0xc0 = b.toNat by omega, hbl,
          show (b.toNat % 32 * 64 + x) % 64 = x by omega]
        rfl
      split at hl
      · simp only [Option.some.injEq, Prod.mk.injEq] at hl
        obtain ⟨rfl, rfl, rfl⟩ := hl
        obtain ⟨x, bs', hx, rfl, hx'⟩ := tails_succ ht
        obtain ⟨y, bs', hy, rfl, hy'⟩ := tails_succ hx'
        simp only [tails, Option.some.injEq, Prod.mk.injEq] at hy'
        obtain ⟨rfl, rfl⟩ := hy'
        rw [encodePoint, if_neg (by omega), if_neg (by omega), if_pos (by omega),
          show ((b.toNat % 16 * 64 + x) * 64 + y) / 4096 + 0xe0 = b.toNat by omega, hbl,
          show ((b.toNat % 16 * 64 + x) * 64 + y) / 64 % 64 = x by omega,
          show ((b.toNat % 16 * 64 + x) * 64 + y) % 64 = y by omega]
        rfl
      split at hl
      · simp only [Option.some.injEq, Prod.mk.injEq] at hl
        obtain ⟨rfl, rfl, rfl⟩ := hl
        obtain ⟨x, bs', hx, rfl, hx'⟩ := tails_succ ht
        obtain ⟨y, bs', hy, rfl, hy'⟩ := tails_succ hx'
        obtain ⟨z, bs', hz, rfl, hz'⟩ := tails_succ hy'
        simp only [tails, Option.some.injEq, Prod.mk.injEq] at hz'
        obtain ⟨rfl, rfl⟩ := hz'
        rw [encodePoint, if_neg (by omega), if_neg (by omega), if_neg (by omega),
          show (((b.toNat % 8 * 64 + x) * 64 + y) * 64 + z) / 262144 + 0xf0 = b.toNat by omega, hbl,
          show (((b.toNat % 8 * 64 + x) * 64 + y) * 64 + z) / 4096 % 64 = x by omega,
          show (((b.toNat % 8 * 64 + x) * 64 + y) * 64 + z) / 64 % 64 = y by omega,
          show (((b.toNat % 8 * 64 + x) * 64 + y) * 64 + z) % 64 = z by omega]
        rfl
      · cases hl
    · cases h

theorem encodePoint_ne_nil (c : Nat) : encodePoint c ≠ [] := by
  unfold encodePoint
  split <;> [skip; split <;> [skip; split]] <;> simp

/-- Only code point zero has a zero byte. -/
theorem zero_notMem_encodePoint {c : Nat} (h0 : c ≠ 0) (h : c < 0x110000) :
    ∀ b ∈ encodePoint c, b ≠ 0 := by
  have key : ∀ n, 0 < n → n < 256 → byte n ≠ 0 := by
    intro n hpos hn he
    have := byte_toNat hn
    rw [he] at this
    simp at this
    omega
  intro b hb
  unfold encodePoint at hb
  split at hb <;> [skip; split at hb <;> [skip; split at hb]] <;>
    simp only [List.mem_cons, List.not_mem_nil, or_false] at hb <;>
    rcases hb with rfl | rfl | rfl | rfl <;> exact key _ (by omega) (by omega)

/-! ## Lists of code points in UTF-8 -/

def encode8 (cs : List Nat) : List UInt8 := cs.flatMap encodePoint

@[simp] theorem encode8_nil : encode8 [] = [] := rfl

@[simp] theorem encode8_cons (c : Nat) (cs : List Nat) :
    encode8 (c :: cs) = encodePoint c ++ encode8 cs := rfl

/-- The code points of at most `fuel` UTF-8 sequences. -/
def decodeFuel : Nat → List UInt8 → Option (List Nat)
  | _, [] => some []
  | 0, _ :: _ => none
  | n + 1, b :: bs =>
    match decodePoint (b :: bs) with
    | none => none
    | some (c, rest) => (decodeFuel n rest).map (c :: ·)

/-- The code points of a UTF-8 byte sequence, or `none` for a malformed one. -/
def decode8 (bs : List UInt8) : Option (List Nat) := decodeFuel bs.length bs

theorem decodeFuel_encode8 {cs : List Nat} (h : ∀ c ∈ cs, c < 0x110000) {n : Nat}
    (hn : cs.length ≤ n) : decodeFuel n (encode8 cs) = some cs := by
  induction cs generalizing n with
  | nil => cases n <;> rfl
  | cons c cs ih =>
    cases n with
    | zero => simp at hn
    | succ n =>
      have hc := decodePoint_encodePoint (h c (by simp)) (encode8 cs)
      obtain ⟨b, bs, hb⟩ : ∃ b bs, encode8 (c :: cs) = b :: bs :=
        List.exists_cons_of_ne_nil (by simp [encodePoint_ne_nil])
      rw [encode8_cons] at hb
      rw [encode8_cons, hb, decodeFuel, ← hb, hc]
      simp only
      rw [ih (fun d hd => h d (by simp [hd])) (by simpa using hn)]
      rfl

theorem length_le_encode8 (cs : List Nat) : cs.length ≤ (encode8 cs).length := by
  induction cs with
  | nil => simp
  | cons c cs ih =>
    have := List.length_pos_iff.mpr (encodePoint_ne_nil c)
    simp only [encode8_cons, List.length_append, List.length_cons]
    omega

/-- Decoding inverts encoding. -/
theorem decode8_encode8 {cs : List Nat} (h : ∀ c ∈ cs, c < 0x110000) :
    decode8 (encode8 cs) = some cs :=
  decodeFuel_encode8 h (length_le_encode8 cs)

theorem encode8_of_decodeFuel {n : Nat} {bs : List UInt8} {cs : List Nat}
    (h : decodeFuel n bs = some cs) : bs = encode8 cs := by
  induction n generalizing bs cs with
  | zero =>
    cases bs with
    | nil => simp only [decodeFuel, Option.some.injEq] at h; subst h; rfl
    | cons b bs => simp [decodeFuel] at h
  | succ n ih =>
    cases bs with
    | nil => simp only [decodeFuel, Option.some.injEq] at h; subst h; rfl
    | cons b bs =>
      simp only [decodeFuel] at h
      split at h
      · cases h
      · rename_i c rest hd
        obtain ⟨ds, hds, rfl⟩ := Option.map_eq_some_iff.mp h
        rw [(encodePoint_of_decodePoint hd).1, ih hds, encode8_cons]

/-- A sequence that decodes is the encoding of what it decodes to. -/
theorem encode8_of_decode8 {bs : List UInt8} {cs : List Nat} (h : decode8 bs = some cs) :
    bs = encode8 cs := encode8_of_decodeFuel h

/-- The bytes before the first zero byte are those of the code points before the first zero. -/
theorem takeWhile_encode8 {cs : List Nat} (h : ∀ c ∈ cs, c < 0x110000) :
    (encode8 cs).takeWhile (· ≠ 0) = encode8 (cs.takeWhile (· ≠ 0)) := by
  induction cs with
  | nil => rfl
  | cons c cs ih =>
    by_cases h0 : c = 0
    · subst h0; simp [encodePoint, byte]
    · have hnz := zero_notMem_encodePoint h0 (h c (by simp))
      rw [encode8_cons, List.takeWhile_append_of_pos (by simpa using hnz),
        ih fun d hd => h d (by simp [hd]), List.takeWhile_cons_of_pos (by simpa using h0), encode8_cons]

/-! ## UTF-16 -/

def unit (n : Nat) : UInt16 := UInt16.ofNat n

theorem unit_toNat {n : Nat} (h : n < 65536) : (unit n).toNat = n := by
  simp [unit, Nat.mod_eq_of_lt h]

theorem unit_of_toNat (u : UInt16) : unit u.toNat = u := UInt16.ofNat_toNat

def isHigh (u : UInt16) : Bool := 0xD800 ≤ u.toNat ∧ u.toNat < 0xDC00

def isLow (u : UInt16) : Bool := 0xDC00 ≤ u.toNat ∧ u.toNat < 0xE000

/-- The UTF-16 units of a code point. -/
def units (c : Nat) : List UInt16 :=
  if c < 0x10000 then [unit c]
  else [unit (c / 1024 - 64 + 0xD800), unit (c % 1024 + 0xDC00)]

def encode16 (cs : List Nat) : List UInt16 := cs.flatMap units

@[simp] theorem encode16_nil : encode16 [] = [] := rfl

@[simp] theorem encode16_cons (c : Nat) (cs : List Nat) :
    encode16 (c :: cs) = units c ++ encode16 cs := rfl

/-- The code point of a surrogate pair. -/
def fromSurrogates (hi lo : UInt16) : Nat :=
  0x10000 + 0x400 * (hi.toNat - 0xD800) + (lo.toNat - 0xDC00)

/-- The units of a pair, read off its code point. -/
theorem fromSurrogates_split {hi lo : UInt16} (h : (isHigh hi && isLow lo) = true) :
    ∃ c, fromSurrogates hi lo = c ∧ 0x10000 ≤ c ∧ c < 0x110000 ∧ c / 1024 - 64 + 0xD800 = hi.toNat ∧
      c % 1024 + 0xDC00 = lo.toNat := by
  simp only [isHigh, isLow, Bool.and_eq_true, decide_eq_true_eq] at h
  obtain ⟨⟨h1, h2⟩, h3, h4⟩ := h
  refine ⟨_, rfl, ?_⟩
  unfold fromSurrogates
  generalize hi.toNat = a at *
  generalize lo.toNat = b at *
  refine ⟨by omega, by omega, by omega, by omega⟩

/-- The code points of a list of units: a high surrogate before a low one is a pair, every other
unit stands for itself. -/
def decode16 : List UInt16 → List Nat
  | [] => []
  | [u] => [u.toNat]
  | u :: v :: us =>
    if isHigh u && isLow v then fromSurrogates u v :: decode16 us
    else u.toNat :: decode16 (v :: us)

theorem encode16_decode16 (us : List UInt16) : encode16 (decode16 us) = us := by
  induction us using decode16.induct with
  | case1 => rfl
  | case2 u => simp [decode16, units, u.toNat_lt, unit_of_toNat]
  | case3 u v us h ih =>
    simp only [decode16, h, ↓reduceIte, encode16_cons, ih]
    obtain ⟨c, hc, hlo, -, h1, h2⟩ := fromSurrogates_split h
    rw [hc, units, if_neg (by omega), h1, h2, unit_of_toNat, unit_of_toNat]
    rfl
  | case4 u v us h ih =>
    simp only [decode16, h, Bool.false_eq_true, ↓reduceIte, encode16_cons, ih]
    simp [units, u.toNat_lt, unit_of_toNat]

theorem decode16_lt (us : List UInt16) : ∀ c ∈ decode16 us, c < 0x110000 := by
  induction us using decode16.induct with
  | case1 => simp [decode16]
  | case2 u =>
    have := u.toNat_lt
    simp only [decode16, List.mem_singleton, forall_eq]
    omega
  | case3 u v us h ih =>
    simp only [decode16, h, ↓reduceIte, List.mem_cons, forall_eq_or_imp]
    obtain ⟨c, hc, -, hlt, -⟩ := fromSurrogates_split h
    exact ⟨hc ▸ hlt, ih⟩
  | case4 u v us h ih =>
    have := u.toNat_lt
    simp only [decode16, h, Bool.false_eq_true, ↓reduceIte, List.mem_cons, forall_eq_or_imp]
    exact ⟨by omega, ih⟩

/-- A zero unit is the code point zero: it is no surrogate. -/
theorem zero_mem_decode16 (us : List UInt16) : 0 ∈ decode16 us ↔ 0 ∈ us := by
  have key : ∀ u : UInt16, 0 = u.toNat ↔ 0 = u := fun u =>
    ⟨fun h => (UInt16.toNat_inj.mp h.symm).symm, fun h => h ▸ rfl⟩
  induction us using decode16.induct with
  | case1 => simp [decode16]
  | case2 u => simpa [decode16] using key u
  | case3 u v us h ih =>
    have hpair : (0 : Nat) ≠ fromSurrogates u v ∧ (0 : UInt16) ≠ u ∧ (0 : UInt16) ≠ v := by
      obtain ⟨hu, hv⟩ := Bool.and_eq_true_iff.mp h
      refine ⟨by unfold fromSurrogates; omega, ?_, ?_⟩
      · rintro rfl
        exact absurd hu (by decide)
      · rintro rfl
        exact absurd hv (by decide)
    simp [decode16, h, ih, hpair.1, hpair.2.1, hpair.2.2]
  | case4 u v us h ih =>
    simp [decode16, h, ih, key u]

/-- A unit that starts no pair decodes to itself. -/
theorem decode16_cons_of_not_high {u : UInt16} (h : isHigh u = false) (us : List UInt16) :
    decode16 (u :: us) = u.toNat :: decode16 us := by
  cases us with
  | nil => rfl
  | cons v us => simp [decode16, h]

theorem decode16_encode16 {cs : List Nat} (h : ∀ c ∈ cs, IsScalar c) :
    decode16 (encode16 cs) = cs := by
  induction cs with
  | nil => rfl
  | cons c cs ih =>
    have ih := ih fun d hd => h d (by simp [hd])
    obtain ⟨hc, hs⟩ := h c (by simp)
    rw [encode16_cons, units]
    split
    · rename_i h1
      have e := unit_toNat (n := c) (by omega)
      have hh : isHigh (unit c) = false := by
        simp only [isSurrogate, decide_eq_false_iff_not] at hs
        simp only [isHigh, e, decide_eq_false_iff_not]
        omega
      rw [List.singleton_append, decode16_cons_of_not_high hh, e, ih]
    · rename_i h1
      have e1 := unit_toNat (n := c / 1024 - 64 + 0xD800) (by omega)
      have e2 := unit_toNat (n := c % 1024 + 0xDC00) (by omega)
      have hp : (isHigh (unit (c / 1024 - 64 + 0xD800)) && isLow (unit (c % 1024 + 0xDC00))) = true := by
        simp only [isHigh, isLow, e1, e2, Bool.and_eq_true, decide_eq_true_eq]
        omega
      obtain ⟨d, hd, hlo, hhi, h2, h3⟩ := fromSurrogates_split hp
      rw [e1] at h2
      rw [e2] at h3
      have hdc : d = c := by omega
      simp only [List.cons_append, List.nil_append, decode16, hp, ↓reduceIte, ih, hd, hdc]

/-- The code points of a Unicode string: scalar values. -/
def points (s : String) : List Nat := s.toList.map Char.toNat

theorem isScalar_toNat (c : Char) : IsScalar c.toNat := by
  have hv := c.valid
  simp only [UInt32.isValidChar, Nat.isValidChar] at hv
  refine ⟨?_, ?_⟩
  · simp only [Char.toNat]; omega
  · simp only [isSurrogate, Char.toNat, decide_eq_false_iff_not]; omega

theorem points_isScalar (s : String) : ∀ c ∈ points s, IsScalar c := by
  intro c hc
  obtain ⟨d, -, rfl⟩ := List.mem_map.mp hc
  exact isScalar_toNat d

/-- The string with the given code points, if they are all scalar values. -/
def ofPoints (cs : List Nat) : Option String :=
  if ∀ c ∈ cs, IsScalar c then some (String.ofList (cs.map Char.ofNat)) else none

theorem ofNat_toNat_of_scalar {c : Nat} (h : IsScalar c) : (Char.ofNat c).toNat = c := by
  obtain ⟨h1, h2⟩ := h
  simp only [isSurrogate, decide_eq_false_iff_not] at h2
  have hv : c.isValidChar := by simp only [Nat.isValidChar]; omega
  rw [Char.ofNat, dif_pos hv]
  rfl

theorem points_ofPoints {cs : List Nat} {s : String} (h : ofPoints cs = some s) : points s = cs := by
  unfold ofPoints at h
  split at h
  · rename_i hs
    cases h
    simp only [points, String.toList_ofList, List.map_map]
    exact (List.map_congr_left fun c hc => ofNat_toNat_of_scalar (hs c hc)).trans (List.map_id _)
  · cases h

theorem ofPoints_points (s : String) : ofPoints (points s) = some s := by
  rw [ofPoints, if_pos (points_isScalar s), points, List.map_map]
  have : s.toList.map (Char.ofNat ∘ Char.toNat) = s.toList :=
    (List.map_congr_left fun c _ => Char.ofNat_toNat c).trans (List.map_id _)
  rw [this, String.ofList_toList]

theorem points_injective {s t : String} (h : points s = points t) : s = t := by
  have := ofPoints_points s
  rw [h, ofPoints_points] at this
  exact (Option.some.inj this).symm

end Utf
