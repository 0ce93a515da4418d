import InteropJs.Engine.FromDigits
import InteropJs.Engine.Text

/-!
# Writing the digits of a BigInt (`quickjs.c`, `dtoa.c`)

`js_bigint_to_string1` writes a number backwards into a block whose size it computes from the number of
bits. A short BigInt goes through `i64toa_radix` of `dtoa.c`.

* `i64toaRadix_spec`: the 64-bit integers, in every radix from 2 to 36.
* `printLoop_spec` and `printBinLoop_spec`: the loops over the limbs.
* `toString1_spec`: the text is exact for every number and radix, and fits in its block.
-/

namespace InteropJs.QuickJS

open Hoare Limbs

/-! ## The functions -/

/-- A block that is filled from its end: the bytes free in front of `q`, and those from `q` on. -/
structure Back where
  room : Nat
  text : List UInt8

/-- `*--q = c`. -/
def Back.put (q : Back) (c : UInt8) : Except Fault Back :=
  match q.room with
  | 0 => .error .bounds
  | n + 1 => .ok ⟨n, c :: q.text⟩

/-- `digits`: the bytes of `"0123456789abcdefghijklmnopqrstuvwxyz"`. -/
def digits : List UInt8 :=
  [48, 49, 50, 51, 52, 53, 54, 55, 56, 57, 97, 98, 99, 100, 101, 102, 103, 104, 105, 106, 107, 108, 109, 110,
    111, 112, 113, 114, 115, 116, 117, 118, 119, 120, 121, 122]

/-- The byte of a digit: `'0' + digit` in radix 10, else `digits[digit]`. -/
def digitByte (radix digit : Nat) : UInt8 := if radix = 10 then .ofNat (48 + digit) else digits.getD digit 0

/-- The byte of a digit in `dtoa.c`. -/
def digitByte36 (digit : Nat) : UInt8 := if digit < 10 then .ofNat (digit + 48) else .ofNat (digit + 97 - 10)

/-- The digits of `n` written backwards, at least one. The fuel is over the number of digits. -/
def putDigits (byte : Nat → UInt8) (radix : Nat) : Nat → Back → Nat → Except Fault Back
  | 0, q, _ => .ok q
  | k + 1, q, n => do
    let q ← q.put (byte (n % radix))
    if n / radix ≠ 0 then putDigits byte radix k q (n / radix) else return q

/-- `len` digits of `n` written backwards. -/
def putLow (byte : Nat → UInt8) (radix : Nat) : Nat → Back → Nat → Except Fault Back
  | 0, q, _ => .ok q
  | k + 1, q, n => do
    let q ← q.put (byte (n % radix))
    putLow byte radix k q (n / radix)

/-- `js_u64toa`. -/
def jsU64toa (q : Back) (n radix : Nat) : Except Fault Back := putDigits (digitByte radix) radix 64 q n

/-- `limb_to_a` of `quickjs.c`. -/
def limbToA (q : Back) (n radix len : Nat) : Except Fault Back := putLow (digitByte radix) radix len q n

/-- `u32toa_len`: `len` bytes that a loop fills from the last one down. -/
def u32toaLen (n len : Nat) : Except Fault (List UInt8) := do
  let q ← putLow (digitByte 10) 10 len ⟨len, []⟩ n
  return q.text

/-- `u32toa`, through a buffer of 10 bytes. -/
def u32toa (n : Nat) : Except Fault (List UInt8) := do
  let q ← putDigits (digitByte 10) 10 32 ⟨10, []⟩ n
  return q.text

def u64toa (n : Nat) : Except Fault (List UInt8) := do
  if n < 0x100000000 then
    u32toa n
  else
    let n1 := n / 1000000000
    let n := n % 1000000000
    if 0x100000000 ≤ n1 then
      let n2 := n1 / 1000000000
      let n1 := n1 % 1000000000
      -- at most two digits
      let first := if 10 ≤ n2 then [digitByte 10 (n2 / 10), digitByte 10 (n2 % 10)] else [digitByte 10 n2]
      return first ++ (← u32toaLen n1 9) ++ (← u32toaLen n 9)
    else
      return (← u32toa n1) ++ (← u32toaLen n 9)

/-- `u64toa_bin_len`. -/
def u64toaBinLen (n radixBits len : Nat) : Except Fault (List UInt8) := do
  let q ← putLow digitByte36 (2 ^ radixBits) len ⟨len, []⟩ n
  return q.text

/-- `clz64` of a number that is not zero. -/
def clz64 (a : Nat) : Nat := 63 - a.log2

/-- `u64toa_radix`. -/
def u64toaRadix (n radix : Nat) : Except Fault (List UInt8) :=
  if radix = 10 then
    u64toa n
  else if radix &&& (radix - 1) = 0 then
    let radixBits := 31 - clz32 radix
    let l := if n = 0 then 1 else (64 - clz64 n + radixBits - 1) / radixBits
    u64toaBinLen n radixBits l
  else do
    let q ← putDigits digitByte36 radix 64 ⟨41, []⟩ n
    return q.text

/-- `i64toa_radix`. -/
def i64toaRadix (n : Limb) (radix : Nat) : Except Fault (List UInt8) := do
  if 0 ≤ n.toInt then
    u64toaRadix n.toNat radix
  else
    return 45 :: (← u64toaRadix (-n).toNat radix)

/-- `digits_per_limb_table`, from radix 2 on. -/
def digitsPerLimbTable : List Nat :=
  [64, 40, 32, 27, 24, 22, 21, 20, 19, 18, 17, 17, 16, 16, 16, 15, 15, 15, 14, 14, 14, 14, 13, 13, 13, 13, 13,
    13, 13, 12, 12, 12, 12, 12, 12]

/-- `radix_base_table`, from radix 2 on. -/
def radixBaseTable : List Limb :=
  [0x0000000000000000, 0xa8b8b452291fe821, 0x0000000000000000, 0x6765c793fa10079d,
    0x41c21cb8e1000000, 0x3642798750226111, 0x8000000000000000, 0xa8b8b452291fe821,
    0x8ac7230489e80000, 0x4d28cb56c33fa539, 0x1eca170c00000000, 0x780c7372621bd74d,
    0x1e39a5057d810000, 0x5b27ac993df97701, 0x0000000000000000, 0x27b95e997e21d9f1,
    0x5da0e1e53c5c8000, 0xd2ae3299c1c4aedb, 0x16bcc41e90000000, 0x2d04b7fdd9c0ef49,
    0x5658597bcaa24000, 0xa0e2073737609371, 0x0c29e98000000000, 0x14adf4b7320334b9,
    0x226ed36478bfa000, 0x383d9170b85ff80b, 0x5a3c23e39c000000, 0x8e65137388122bcd,
    0xdd41bb36d259e000, 0x0aee5720ee830681, 0x1000000000000000, 0x172588ad4f5f0981,
    0x211e44f7d02c1000, 0x2ee56725f06e5c71, 0x41c21cb8e1000000]

/-- A BigInt value: `JS_TAG_SHORT_BIG_INT` or the limbs of a `JS_TAG_BIG_INT`. -/
inductive BigIntVal where
  | short (n : Limb)
  | long (tab : List Limb)
  deriving DecidableEq

namespace BigInt

/-- The length without leading zero limbs. -/
def trimLen (tab : List Limb) : Nat → Nat
  | l + 2 => if tab.getD (l + 1) 0 = 0 then trimLen tab (l + 1) else l + 2
  | l => l

/-- The loop of `js_bigint_to_string1` for a radix that is no power of two, with more fuel than digits. -/
def printLoop (radix : Nat) : Nat → List Limb → Back → Except Fault Back
  | 0, _, q => .ok q
  | n + 1, tab, q => do
    let tab := tab.take (trimLen tab tab.length)
    let radixBase := radixBaseTable.getD (radix - 2) 0
    if tab.length = 1 ∧ tab.getD 0 0 < radixBase then
      if tab.getD 0 0 ≠ 0 then
        jsU64toa q (tab.getD 0 0).toNat radix
      else
        return q
    else
      let d := mpDiv1 tab radixBase 0
      let q ← limbToA q d.2.toNat radix (digitsPerLimbTable.getD (radix - 2) 0)
      printLoop radix n d.1 q

/-- The digit `i` for a radix that is a power of two, an `unsigned int`. -/
def binDigit (radix log2Radix : Nat) (tab : List Limb) (i : Nat) : BitVec 32 :=
  let pos := i * log2Radix / 64
  let shift := i * log2Radix % 64
  let c : BitVec 32 := (tab.getD pos 0 >>> shift).setWidth 32
  let c : BitVec 32 :=
    if 64 < shift + log2Radix ∧ pos + 1 < tab.length then
      (c.setWidth 64 ||| tab.getD (pos + 1) 0 <<< (64 - shift) : Limb).setWidth 32
    else c
  c &&& BitVec.ofNat 32 (radix - 1)

/-- The loop for a radix that is a power of two. -/
def printBinLoop (radix log2Radix : Nat) (tab : List Limb) : Nat → Nat → Back → Except Fault Back
  | 0, _, q => .ok q
  | n + 1, i, q => do
    let q ← q.put (digits.getD (binDigit radix log2Radix tab i).toNat 0)
    printBinLoop radix log2Radix tab n (i + 1) q

/-- `js_limb_safe_clz`. -/
def safeClz (a : Limb) : Nat := if a = 0 then 64 else clz64 a.toNat

/-- `js_new_string8_len`. -/
def newText (text : List UInt8) : ExceptT Fault Alloc JSString := do
  match ← (ExceptT.lift (newString8Len text)) with
  | none => throw .memory
  | some str => return str

/-- The limbs that `js_bigint_to_string1` divides: `tmp`, or those of the number. -/
def absolute (r : List Limb) (radix : Nat) : ExceptT Fault Alloc (List Limb) :=
  if sign r ≠ 0 then
    neg r
  else if ¬ radix &&& (radix - 1) = 0 then do
    new r.length
    return r
  else
    return r

/-- The part of `js_bigint_to_string1` for the limbs of a number that is not zero. -/
def longToString (r : List Limb) (radix : Nat) : ExceptT Fault Alloc JSString := do
  let isBinaryRadix := radix &&& (radix - 1) = 0
  let isNeg := sign r ≠ 0
  let r ← absolute r radix
  let log2Radix := 31 - clz32 radix
  let nBits := r.length * 64 - safeClz (top r)
  let nDigits := (nBits + log2Radix - 1) / log2Radix
  let nSign := if isNeg then 1 else 0
  malloc (nDigits + nSign + 1)
  -- `q` after the terminator
  let q : Back := ⟨nDigits + nSign, []⟩
  let q ← ExceptT.mk (pure (
    if ¬ isBinaryRadix then printLoop radix (r.length * 64 + 1) r q
    else printBinLoop radix log2Radix r nDigits 0 q))
  let q ← ExceptT.mk (pure (if isNeg then q.put 45 else .ok q))
  newText q.text

/-- `js_bigint_to_string1`; the buffer of a short BigInt has 66 bytes. -/
def toString1 (val : BigIntVal) (radix : Nat) : ExceptT Fault Alloc JSString := do
  match val with
  | .short n =>
    let text ← ExceptT.mk (pure (i64toaRadix n radix))
    if 66 < text.length then
      throw .bounds
    newText text
  | .long r =>
    if r.length = 1 ∧ r.getD 0 0 = 0 then
      newText [48]
    else
      longToString r radix

end BigInt

/-! ## The text of a number -/

/-- The digits of a number, the lowest first; zero has one. -/
def radixDigits (radix n : Nat) : List Nat := if n = 0 then [0] else Nat.digits radix n

def radixText (radix n : Nat) : List UInt8 := (radixDigits radix n).reverse.map digitByte36

/-- The text of an integer. -/
def signedText (radix : Nat) (i : Int) : List UInt8 := (if i < 0 then [45] else []) ++ radixText radix i.natAbs

theorem digitByte_eq {radix d : Nat} (hd : d < radix) (hr : radix ≤ 36) : digitByte radix d = digitByte36 d := by
  rw [digitByte]
  by_cases h10 : radix = 10
  · rw [if_pos h10, digitByte36, if_pos (by omega), Nat.add_comm]
  · rw [if_neg h10]
    have hall : ∀ d < 36, digits.getD d 0 = digitByte36 d := by decide
    exact hall d (by omega)

theorem toDigit_digitByte36 {d : Nat} (hd : d < 36) : toDigit (digitByte36 d) = d := by
  have hall : ∀ d < 36, toDigit (digitByte36 d) = d := by decide
  exact hall d hd

theorem radixDigits_lt {radix n : Nat} (hr : 1 < radix) : ∀ d ∈ radixDigits radix n, d < radix := by
  intro d hd
  rw [radixDigits] at hd
  by_cases hn : n = 0
  · rw [if_pos hn, List.mem_singleton] at hd
    omega
  · rw [if_neg hn] at hd
    exact Nat.digits_lt_base hr hd

theorem radixDigits_of_lt {radix n : Nat} (hn : n < radix) : radixDigits radix n = [n] := by
  rw [radixDigits]
  by_cases h0 : n = 0
  · rw [if_pos h0, h0]
  · rw [if_neg h0, Nat.digits_of_lt radix n h0 hn]

theorem radixDigits_low {radix n k : Nat} (hr : 1 < radix) (hn : n / radix ^ k ≠ 0) :
    radixDigits radix n = low radix k n ++ radixDigits radix (n / radix ^ k) := by
  have hn0 : n ≠ 0 := by
    rintro rfl
    simp at hn
  rw [radixDigits, if_neg hn0, radixDigits, if_neg hn, digits_low hr hn]

/-! ## Filling a block -/

theorem Back.put_spec {q : Back} (h : 0 < q.room) (c : UInt8) : q.put c = .ok ⟨q.room - 1, c :: q.text⟩ := by
  obtain ⟨room, text⟩ := q
  cases room with
  | zero => simp at h
  | succ n => rfl

theorem putLow_spec (byte : Nat → UInt8) (radix : Nat) {k : Nat} {q : Back} (hk : k ≤ q.room) (n : Nat) :
    putLow byte radix k q n = .ok ⟨q.room - k, (low radix k n).reverse.map byte ++ q.text⟩ := by
  induction k generalizing q n with
  | zero => rfl
  | succ k ih =>
    rw [putLow, Back.put_spec (by omega)]
    show putLow byte radix k _ _ = _
    rw [ih (by dsimp only; omega)]
    simp only [low, List.reverse_cons, List.map_append, List.append_assoc, List.map_singleton,
      List.singleton_append, Except.ok.injEq, Back.mk.injEq, and_true]
    omega

theorem putDigits_spec (byte : Nat → UInt8) {radix : Nat} (hr : 1 < radix) {k : Nat} (hk : 0 < k) {q : Back}
    {n : Nat} (hn : n < radix ^ k) (hroom : (radixDigits radix n).length ≤ q.room) :
    putDigits byte radix k q n =
      .ok ⟨q.room - (radixDigits radix n).length, (radixDigits radix n).reverse.map byte ++ q.text⟩ := by
  induction k generalizing q n with
  | zero => omega
  | succ k ih =>
    by_cases hlast : n / radix = 0
    · have hlt : n < radix := (Nat.div_eq_zero_iff_lt (by omega)).mp hlast
      rw [radixDigits_of_lt hlt] at hroom ⊢
      rw [putDigits, Back.put_spec (by rw [List.length_singleton] at hroom; omega), Nat.mod_eq_of_lt hlt]
      show (if n / radix ≠ 0 then _ else _) = _
      rw [if_neg (not_not.mpr hlast)]
      rfl
    · have hcons : radixDigits radix n = n % radix :: radixDigits radix (n / radix) := by
        have := radixDigits_low hr (k := 1) (n := n) (by rwa [pow_one])
        rwa [pow_one] at this
      have hk' : 0 < k := by
        by_contra h0
        obtain rfl : k = 0 := by omega
        rw [Nat.zero_add, pow_one] at hn
        exact hlast (Nat.div_eq_of_lt hn)
      rw [hcons, List.length_cons] at hroom ⊢
      rw [putDigits, Back.put_spec (by omega)]
      show (if n / radix ≠ 0 then _ else _) = _
      rw [if_pos hlast, ih hk' (Nat.div_lt_of_lt_mul (by rwa [← pow_succ'])) (by dsimp only; omega)]
      simp only [List.reverse_cons, List.map_append, List.append_assoc, List.map_singleton,
        List.singleton_append, Except.ok.injEq, Back.mk.injEq, and_true]
      omega

/-! ## The 64-bit integers -/

theorem radixDigits_length {radix n k : Nat} (hr : 1 < radix) (hk : 0 < k) (hn : n < radix ^ k) :
    (radixDigits radix n).length ≤ k := by
  rw [radixDigits]
  by_cases h0 : n = 0
  · rw [if_pos h0]
    exact hk
  · rw [if_neg h0]
    exact (Nat.digits_length_le_iff hr n).mpr hn

/-- The digits of a radix `2 ^ l`, from the number of bits. -/
theorem digits_length_bits {l n bits : Nat} (hl : 0 < l) (hlo : 2 ^ bits ≤ n) (hhi : n < 2 ^ (bits + 1)) :
    (Nat.digits (2 ^ l) n).length = (bits + 1 + l - 1) / l := by
  have hr : 1 < 2 ^ l := Nat.one_lt_two_pow (by omega)
  have hdiv := Nat.div_add_mod (bits + 1 + l - 1) l
  have hmod := Nat.mod_lt (bits + 1 + l - 1) hl
  generalize (bits + 1 + l - 1) / l = k at hdiv ⊢
  apply le_antisymm
  · rw [Nat.digits_length_le_iff hr, ← pow_mul]
    exact hhi.trans_le (Nat.pow_le_pow_right (by omega) (by omega))
  · by_contra hlt
    have hle : (Nat.digits (2 ^ l) n).length ≤ k - 1 := by omega
    rw [Nat.digits_length_le_iff hr, ← pow_mul] at hle
    have hbits : l * (k - 1) ≤ bits := by
      rw [Nat.mul_sub]
      omega
    have := Nat.pow_le_pow_right (n := 2) (by omega) hbits
    omega

theorem map_digitByte {radix : Nat} (hr : radix ≤ 36) {ds : List Nat} (hds : ∀ d ∈ ds, d < radix) :
    ds.map (digitByte radix) = ds.map digitByte36 :=
  List.map_congr_left fun d hd => digitByte_eq (hds d hd) hr

theorem map_reverse_digitByte {radix : Nat} (hr : radix ≤ 36) {ds : List Nat} (hds : ∀ d ∈ ds, d < radix) :
    ds.reverse.map (digitByte radix) = ds.reverse.map digitByte36 :=
  map_digitByte hr (by simpa using hds)

theorem u32toa_spec {n : Nat} (hn : n < 0x100000000) : u32toa n = .ok (radixText 10 n) := by
  have hlen := radixDigits_length (k := 10) (n := n) (show 1 < 10 by omega) (by omega) (by omega)
  rw [u32toa, putDigits_spec _ (by omega) (by omega) (by omega) hlen]
  show Except.ok _ = _
  rw [List.append_nil, map_reverse_digitByte (by omega) (radixDigits_lt (by omega)), radixText]

theorem u32toaLen_spec (n len : Nat) : u32toaLen n len = .ok ((low 10 len n).reverse.map digitByte36) := by
  rw [u32toaLen, putLow_spec _ _ (q := ⟨len, []⟩) le_rfl]
  show Except.ok _ = _
  rw [List.append_nil, map_reverse_digitByte (by omega) (low_lt (by omega) _ _)]

/-- The text of a number is the text of its high part and the low digits. -/
theorem radixText_low {radix n : Nat} (hr : 1 < radix) (k : Nat) (hn : n / radix ^ k ≠ 0) :
    radixText radix n = radixText radix (n / radix ^ k) ++ (low radix k n).reverse.map digitByte36 := by
  rw [radixText, radixDigits_low hr hn, List.reverse_append, List.map_append, radixText]

/-- The digits of the number as `Nat.toDigits` writes them. -/
theorem toDigits_radixText (n : Nat) : (Nat.toDigits 10 n).map Char.toNat = (radixText 10 n).map UInt8.toNat := by
  have hdigit : ∀ d < 10, (Nat.digitChar d).toNat = (digitByte36 d).toNat := by decide
  induction n using Nat.strong_induction_on with
  | _ n ih =>
    by_cases hn : n < 10
    · rw [Nat.toDigits_of_lt_base hn, radixText, radixDigits_of_lt hn]
      simp [hdigit n hn]
    · have hlow := radixText_low (n := n) (show 1 < 10 by omega) 1 (by omega)
      rw [pow_one] at hlow
      rw [Nat.toDigits_of_base_le (by omega) (by omega), List.map_append, ih (n / 10) (by omega), hlow,
        List.map_append]
      simp [low, hdigit (n % 10) (Nat.mod_lt _ (by omega))]

theorem low_mod_billion (n : Nat) : low 10 9 (n % 1000000000) = low 10 9 n := low_mod 9 n

/-- The first digits of `u64toa`. -/
theorem radixText_of_lt {n : Nat} (hn : n < 100) :
    (if 10 ≤ n then [digitByte 10 (n / 10), digitByte 10 (n % 10)] else [digitByte 10 n]) = radixText 10 n := by
  by_cases h : 10 ≤ n
  · rw [if_pos h, radixText, radixDigits_low (k := 1) (by omega) (by omega),
      radixDigits_of_lt (show _ < 10 by omega), digitByte_eq (by omega) (by omega),
      digitByte_eq (by omega) (by omega)]
    rfl
  · rw [if_neg h, radixText, radixDigits_of_lt (by omega), digitByte_eq (by omega) (by omega)]
    rfl

theorem u64toa_spec {n : Nat} (hn : n < 2 ^ 64) : u64toa n = .ok (radixText 10 n) := by
  rw [u64toa]
  by_cases h32 : n < 0x100000000
  · rw [if_pos h32]
    exact u32toa_spec h32
  rw [if_neg h32]
  have htop : radixText 10 n = radixText 10 (n / 1000000000) ++ (low 10 9 n).reverse.map digitByte36 :=
    radixText_low (by omega) 9 (by norm_num; omega)
  rw [htop]
  dsimp only
  by_cases h64 : 0x100000000 ≤ n / 1000000000
  · rw [if_pos h64, u32toaLen_spec, u32toaLen_spec, low_mod_billion, low_mod_billion]
    have hmid : radixText 10 (n / 1000000000) = radixText 10 (n / 1000000000 / 1000000000) ++
        (low 10 9 (n / 1000000000)).reverse.map digitByte36 :=
      radixText_low (by omega) 9 (by norm_num; omega)
    rw [hmid, ← radixText_of_lt (by omega)]
    rfl
  · rw [if_neg h64, u32toa_spec (by omega), u32toaLen_spec, low_mod_billion]
    rfl

/-- The powers of two among the radixes. -/
theorem binary_radix {radix : Nat} (h2 : 2 ≤ radix) (h36 : radix ≤ 36) (h : radix &&& (radix - 1) = 0) :
    0 < 31 - clz32 radix ∧ 31 - clz32 radix ≤ 5 ∧ radix = 2 ^ (31 - clz32 radix) := by
  interval_cases radix <;> first | exact absurd h (by decide) | exact ⟨by decide, by decide, by decide⟩

theorem u64toaRadix_spec {n radix : Nat} (hn : n < 2 ^ 64) (h2 : 2 ≤ radix) (h36 : radix ≤ 36) :
    u64toaRadix n radix = .ok (radixText radix n) := by
  rw [u64toaRadix]
  by_cases h10 : radix = 10
  · rw [if_pos h10, h10]
    exact u64toa_spec hn
  rw [if_neg h10]
  by_cases hbin : radix &&& (radix - 1) = 0
  · obtain ⟨hl, hl', hrad⟩ := binary_radix h2 h36 hbin
    rw [if_pos hbin]
    dsimp only
    generalize 31 - clz32 radix = l at hl hl' hrad ⊢
    subst hrad
    generalize hlen : (if n = 0 then 1 else (64 - clz64 n + l - 1) / l) = len
    rw [u64toaBinLen, putLow_spec _ _ (q := ⟨len, []⟩) le_rfl]
    have hlow : low (2 ^ l) len n = radixDigits (2 ^ l) n := by
      rw [radixDigits]
      by_cases h0 : n = 0
      · rw [if_pos h0] at hlen ⊢
        rw [← hlen, h0]
        simp [low]
      · rw [if_neg h0] at hlen ⊢
        apply low_eq_digits (Nat.one_lt_two_pow (by omega))
        rw [digits_length_bits hl (Nat.log2_self_le h0) Nat.lt_log2_self, ← hlen, clz64]
        have : n.log2 < 64 := (Nat.log2_lt h0).mpr hn
        congr 2
        omega
    rw [hlow]
    show Except.ok _ = _
    rw [List.append_nil, radixText]
  · rw [if_neg hbin]
    have h3 : 3 ≤ radix := by
      by_contra h
      obtain rfl : radix = 2 := by omega
      exact hbin rfl
    have hpow : 2 ^ 64 ≤ radix ^ 41 := le_trans (by norm_num) (Nat.pow_le_pow_left h3 41)
    have hpow' : 2 ^ 64 ≤ radix ^ 64 := Nat.pow_le_pow_left h2 64
    have hlen := radixDigits_length (n := n) (k := 41) (show 1 < radix by omega) (by omega) (by omega)
    rw [putDigits_spec _ (by omega) (by omega) (by omega) hlen]
    show Except.ok _ = _
    rw [List.append_nil, radixText]

theorem toNat_neg_of_neg {n : Limb} (h : n.toInt < 0) : (-n).toNat = n.toInt.natAbs := by
  have hlt := n.isLt
  rw [BitVec.toInt_eq_toNat_cond] at h ⊢
  rw [BitVec.toNat_neg]
  split at h <;> omega

theorem i64toaRadix_spec (n : Limb) {radix : Nat} (h2 : 2 ≤ radix) (h36 : radix ≤ 36) :
    i64toaRadix n radix = .ok (signedText radix n.toInt) := by
  rw [i64toaRadix, signedText]
  by_cases h : 0 ≤ n.toInt
  · have hnat : n.toNat = n.toInt.natAbs := by
      have hlt := n.isLt
      rw [BitVec.toInt_eq_toNat_cond] at h ⊢
      split at h <;> omega
    rw [if_pos h, u64toaRadix_spec n.isLt h2 h36, if_neg (by omega), hnat]
    rfl
  · rw [if_neg h, u64toaRadix_spec (BitVec.isLt _) h2 h36, if_pos (by omega), toNat_neg_of_neg (by omega)]
    rfl

theorem signedText_short_length (n : Limb) {radix : Nat} (h2 : 2 ≤ radix) :
    (signedText radix n.toInt).length ≤ 66 := by
  have hbound : n.toInt.natAbs < 2 ^ 64 := by
    have := two_mul_toInt (w := 64) (by omega) n
    omega
  have hpow : 2 ^ 64 ≤ radix ^ 64 := Nat.pow_le_pow_left h2 64
  have hlen := radixDigits_length (n := n.toInt.natAbs) (k := 64) (show 1 < radix by omega) (by omega)
    (by omega)
  rw [signedText, List.length_append, radixText, List.length_map, List.length_reverse]
  by_cases h : n.toInt < 0
  · rw [if_pos h, List.length_singleton]
    omega
  · rw [if_neg h, List.length_nil]
    omega

/-! ## Limbs -/

namespace BigInt

/-- The tables: a base is the power of its radix with the most digits in a limb. -/
theorem radixBase_eq {radix : Nat} (h2 : 2 ≤ radix) (h36 : radix ≤ 36) (h : radix &&& (radix - 1) ≠ 0) :
    (radixBaseTable.getD (radix - 2) 0).toNat = radix ^ digitsPerLimbTable.getD (radix - 2) 0 ∧
      0 < digitsPerLimbTable.getD (radix - 2) 0 := by
  interval_cases radix <;> first | exact absurd rfl h | exact ⟨by decide, by decide⟩

theorem trimLen_spec (tab : List Limb) (l : Nat) (hl : l + 1 ≤ tab.length) :
    0 < trimLen tab (l + 1) ∧ trimLen tab (l + 1) ≤ l + 1 ∧
      value (tab.take (trimLen tab (l + 1))) = value (tab.take (l + 1)) ∧
      (trimLen tab (l + 1) = 1 ∨ (2 ^ 64) ^ (trimLen tab (l + 1) - 1) ≤ value (tab.take (l + 1))) := by
  induction l with
  | zero =>
    rw [trimLen]
    · exact ⟨by omega, le_rfl, rfl, .inl rfl⟩
    · omega
  | succ l ih =>
    have htake := take_succ_getD (show l + 1 < tab.length by omega)
    have hlen : (tab.take (l + 1)).length = l + 1 := by
      rw [List.length_take]
      omega
    have hval : value (tab.take (l + 1 + 1)) =
        value (tab.take (l + 1)) + (2 ^ 64) ^ (l + 1) * (tab.getD (l + 1) 0).toNat := by
      rw [htake, value_concat, hlen]
    rw [trimLen]
    by_cases h : tab.getD (l + 1) 0 = 0
    · rw [if_pos h]
      rw [h, show (0 : Limb).toNat = 0 from rfl, Nat.mul_zero, Nat.add_zero] at hval
      obtain ⟨h1, h2, h3, h4⟩ := ih (by omega)
      rw [hval]
      exact ⟨h1, by omega, h3, h4⟩
    · rw [if_neg h]
      refine ⟨by omega, le_rfl, rfl, .inr ?_⟩
      have hpos : 1 ≤ (tab.getD (l + 1) 0).toNat :=
        Nat.one_le_iff_ne_zero.mpr fun h0 => h (BitVec.eq_of_toNat_eq h0)
      rw [hval]
      exact (Nat.le_mul_of_pos_right _ hpos).trans (Nat.le_add_left _ _)

/-- The text that the loop puts in front: nothing for zero. -/
def loopText (radix n : Nat) : List UInt8 := (Nat.digits radix n).reverse.map digitByte36

theorem printLoop_spec {radix : Nat} (h2 : 2 ≤ radix) (h36 : radix ≤ 36) (hbin : radix &&& (radix - 1) ≠ 0)
    {n : Nat} {tab : List Limb} (hne : tab ≠ []) (hn : value tab < 2 ^ n) {q : Back}
    (hroom : (Nat.digits radix (value tab)).length ≤ q.room) :
    printLoop radix n tab q = .ok ⟨q.room - (Nat.digits radix (value tab)).length,
      loopText radix (value tab) ++ q.text⟩ := by
  obtain ⟨hbase, hk⟩ := radixBase_eq h2 h36 hbin
  induction n generalizing tab q with
  | zero =>
    have h0 : value tab = 0 := by omega
    rw [printLoop, h0]
    simp [loopText]
  | succ n ih =>
    have hpos := List.length_pos_iff.mpr hne
    obtain ⟨l, hl⟩ : ∃ l, tab.length = l + 1 := ⟨tab.length - 1, by omega⟩
    obtain ⟨ht0, htle, htval, httop⟩ := trimLen_spec tab l (by omega)
    rw [← hl] at ht0 htle htval httop
    rw [List.take_length] at htval httop
    have htlen : (tab.take (trimLen tab tab.length)).length = trimLen tab tab.length := by
      rw [List.length_take]
      omega
    rw [printLoop]
    dsimp only
    generalize trimLen tab tab.length = t at *
    generalize htab : tab.take t = tab₁ at *
    generalize radixBaseTable.getD (radix - 2) 0 = base at *
    generalize digitsPerLimbTable.getD (radix - 2) 0 = k at *
    rw [← htval] at hn hroom httop ⊢
    have hradix : 1 < radix := by omega
    by_cases hlast : tab₁.length = 1 ∧ tab₁.getD 0 0 < base
    · rw [if_pos hlast]
      obtain ⟨x, rfl⟩ := List.length_eq_one_iff.mp hlast.1
      have hx : value [x] = x.toNat := by simp
      rw [hx] at hroom ⊢
      rw [List.getD_cons_zero]
      by_cases h0 : x = 0
      · rw [if_neg (not_not.mpr h0), h0]
        simp [loopText]
        rfl
      · have h0' : x.toNat ≠ 0 := fun h => h0 (BitVec.eq_of_toNat_eq h)
        have hdigits : radixDigits radix x.toNat = Nat.digits radix x.toNat := by
          rw [radixDigits, if_neg h0']
        have hpow : 2 ^ 64 ≤ radix ^ 64 := Nat.pow_le_pow_left h2 64
        rw [if_pos h0, jsU64toa, putDigits_spec _ hradix (by omega) (x.isLt.trans_le hpow)
          (by rw [hdigits]; exact hroom), hdigits, loopText,
          map_reverse_digitByte h36 fun d hd => Nat.digits_lt_base hradix hd]
    · rw [if_neg hlast]
      -- the number is at least the base, so that there are digits in front of the group
      have hge : base.toNat ≤ value tab₁ := by
        by_cases h1 : tab₁.length = 1
        · obtain ⟨x, rfl⟩ := List.length_eq_one_iff.mp h1
          have hx : ¬ x < base := fun h => hlast ⟨h1, by simpa using h⟩
          rw [BitVec.lt_def] at hx
          simp only [value_cons, value_nil, Nat.mul_zero, Nat.add_zero]
          omega
        · have hbig : (2 ^ 64) ^ 1 ≤ (2 ^ 64) ^ (t - 1) := Nat.pow_le_pow_right (by omega) (by omega)
          have := httop.resolve_left (by omega)
          have hlt := base.isLt
          omega
      have hbase2 : 2 ≤ base.toNat := by
        rw [hbase]
        exact h2.trans (Nat.le_self_pow (by omega) _)
      obtain ⟨hquot, hrem⟩ := mpDiv1_eq tab₁ (b := base) (by omega)
      have hlen := mpDiv1_length tab₁ base 0
      have hdiv : value tab₁ / radix ^ k ≠ 0 := by
        rw [← hbase]
        exact (Nat.div_pos hge (by omega)).ne'
      have hdigits := digits_low hradix hdiv
      rw [hdigits, List.length_append, low_length, ← hbase] at hroom
      rw [limbToA, putLow_spec _ _ (by omega), hrem, hbase, low_mod]
      show printLoop radix n _ _ = _
      rw [ih (List.ne_nil_of_length_pos (by omega)) (by
          rw [hquot]
          exact Nat.div_lt_of_lt_mul (by rw [pow_succ] at hn; nlinarith)) (by
          dsimp only
          rw [hquot]
          omega), hquot, hbase, map_reverse_digitByte h36 (low_lt (by omega) _ _), loopText, loopText,
        hdigits]
      simp only [List.length_append, low_length, List.reverse_append, List.map_append, List.append_assoc,
        Except.ok.injEq, Back.mk.injEq, and_true]
      omega

/-- The digit is read from one limb or from two. -/
theorem binDigit_spec {l : Nat} (hl : 0 < l) (hl' : l ≤ 5) (tab : List Limb) (i : Nat) :
    (binDigit (2 ^ l) l tab i).toNat = value tab / (2 ^ l) ^ i % 2 ^ l := by
  have hbit : i * l = 64 * (i * l / 64) + i * l % 64 := (Nat.div_add_mod _ _).symm
  have hs : i * l % 64 < 64 := Nat.mod_lt _ (by omega)
  have hbits := value_bits tab (i * l / 64) hs.le (l := l) (by omega)
  rw [← hbit, Nat.mul_comm i l, pow_mul, Nat.mul_comm l i] at hbits
  rw [hbits, binDigit]
  generalize i * l % 64 = shift at *
  generalize i * l / 64 = pos at *
  have hdvd : 2 ^ l ∣ 2 ^ 32 := Nat.pow_dvd_pow 2 (by omega)
  have hmask : (BitVec.ofNat 32 (2 ^ l - 1)).toNat = 2 ^ l - 1 := by
    have hpow : 2 ^ l ≤ 2 ^ 5 := Nat.pow_le_pow_right (by omega) hl'
    rw [BitVec.toNat_ofNat, Nat.mod_eq_of_lt (by omega)]
  rw [BitVec.toNat_and, hmask, Nat.and_two_pow_sub_one_eq_mod]
  have hlow : (((tab.getD pos 0 >>> shift).setWidth 32 : BitVec 32)).toNat =
      (tab.getD pos 0).toNat / 2 ^ shift % 2 ^ 32 := by
    rw [BitVec.toNat_setWidth, BitVec.toNat_ushiftRight, Nat.shiftRight_eq_div_pow]
  by_cases hcross : 64 < shift + l ∧ pos + 1 < tab.length
  · rw [if_pos hcross]
    have hx : (tab.getD pos 0).toNat / 2 ^ shift < 2 ^ (64 - shift) := by
      rw [Nat.div_lt_iff_lt_mul (Nat.two_pow_pos shift), ← pow_add, Nat.sub_add_cancel hs.le]
      exact BitVec.isLt _
    rw [Nat.add_comm (_ / _), Nat.two_pow_add_eq_or_of_lt hx, Nat.or_mod_two_pow, BitVec.toNat_setWidth,
      BitVec.toNat_or, BitVec.toNat_shiftLeft, BitVec.toNat_setWidth, hlow, Nat.shiftLeft_eq,
      Nat.mod_mod_of_dvd _ hdvd, Nat.or_mod_two_pow, Nat.or_comm]
    congr 1
    · rw [Nat.mod_mod_of_dvd _ (Nat.pow_dvd_pow 2 (by omega)), Nat.mul_comm]
    · rw [Nat.mod_mod_of_dvd _ (Nat.pow_dvd_pow 2 (by omega)), Nat.mod_mod_of_dvd _ hdvd]
  · rw [if_neg hcross, hlow, Nat.mod_mod_of_dvd _ hdvd]
    -- nothing of the limb above
    have hnone : 2 ^ l ∣ 2 ^ (64 - shift) * (tab.getD (pos + 1) 0).toNat := by
      by_cases h : 64 < shift + l
      · have hout : tab.length ≤ pos + 1 := by
          by_contra hlt
          exact hcross ⟨h, by omega⟩
        rw [List.getD_eq_getElem?_getD, List.getElem?_eq_none hout]
        simp
      · exact Dvd.dvd.mul_right (Nat.pow_dvd_pow 2 (by omega)) _
    rw [Nat.add_mod, Nat.mod_eq_zero_of_dvd hnone, Nat.add_zero, Nat.mod_mod]

theorem printBinLoop_spec {l : Nat} (hl : 0 < l) (hl' : l ≤ 5) (tab : List Limb) {n : Nat} (i : Nat) {q : Back}
    (hroom : n ≤ q.room) :
    printBinLoop (2 ^ l) l tab n i q = .ok ⟨q.room - n,
      (low (2 ^ l) n (value tab / (2 ^ l) ^ i)).reverse.map digitByte36 ++ q.text⟩ := by
  induction n generalizing i q with
  | zero => rfl
  | succ n ih =>
    have hpow : 2 ^ l ≤ 2 ^ 5 := Nat.pow_le_pow_right (by omega) hl'
    have hlt := Nat.mod_lt (value tab / (2 ^ l) ^ i) (Nat.two_pow_pos l)
    have hbyte : ∀ d < 36, digits.getD d 0 = digitByte36 d := by decide
    rw [printBinLoop, Back.put_spec (by omega), binDigit_spec hl hl', hbyte _ (by omega)]
    show printBinLoop _ _ _ _ _ _ = _
    rw [ih (i + 1) (by dsimp only; omega), pow_succ, ← Nat.div_div_eq_div_mul]
    simp only [low, List.reverse_cons, List.map_append, List.append_assoc, List.map_singleton,
      List.singleton_append, Except.ok.injEq, Back.mk.injEq, and_true]
    omega

/-- The number of bits that `js_bigint_to_string1` computes is that of the number. -/
theorem bits_spec {r : List Limb} (hr : Normal r) (hpos : 0 < int r) :
    ∃ bits, r.length * 64 - safeClz (top r) = bits + 1 ∧ 2 ^ bits ≤ value r ∧ value r < 2 ^ (bits + 1) := by
  have hsign : Limbs.sign r = false := (int_nonneg_iff r).mp hpos.le
  rw [int_of_nonneg hsign] at hpos
  obtain ⟨s, v, rfl⟩ := exists_concat hr.1
  have hs := value_lt s
  rw [top_concat, safeClz, List.length_append, List.length_singleton, value_concat] at *
  by_cases hv : v = 0
  · rw [if_pos hv]
    rw [hv, show (0 : Limb).toNat = 0 from rfl, Nat.mul_zero, Nat.add_zero] at hpos ⊢
    have hne : s ≠ [] := by
      rintro rfl
      simp at hpos
    obtain ⟨t, u, rfl⟩ := exists_concat hne
    -- the limb is needed for the sign of the one below
    have hu : Limbs.sign (t ++ [u]) = true := by
      have := hr.2 t u v rfl
      rw [hv, fill] at this
      rw [sign_concat]
      cases hm : u.msb with
      | true => rfl
      | false =>
        rw [hm] at this
        exact absurd rfl this
    have hfits := (int_fits (w := 64) (by decide) (List.concat_ne_nil u t)).1
    have hint := value_eq_int (t ++ [u])
    rw [hu, if_pos rfl] at hint
    rw [← pow_mul] at hs hfits hint
    have hlen : 0 < (t ++ [u]).length := by simp
    obtain ⟨b, hb⟩ : ∃ b, 64 * (t ++ [u]).length = b + 1 := ⟨64 * (t ++ [u]).length - 1, by omega⟩
    refine ⟨b, by omega, ?_, by rwa [← hb]⟩
    rw [hb, pow_succ] at hint hfits
    generalize 2 ^ b = p at hint hfits ⊢
    omega
  · rw [if_neg hv]
    have hv' : v.toNat ≠ 0 := fun h => hv (BitVec.eq_of_toNat_eq h)
    have hlog : v.toNat.log2 < 64 := (Nat.log2_lt hv').mpr v.isLt
    refine ⟨64 * s.length + v.toNat.log2, by rw [clz64]; omega, ?_, ?_⟩
    · rw [pow_add, pow_mul]
      exact (Nat.mul_le_mul_left _ (Nat.log2_self_le hv')).trans (Nat.le_add_left _ _)
    · rw [Nat.add_assoc, pow_add, pow_mul]
      have hlt : v.toNat + 1 ≤ 2 ^ (v.toNat.log2 + 1) := Nat.lt_log2_self
      have hle := Nat.mul_le_mul_left ((2 ^ 64) ^ s.length) hlt
      rw [Nat.mul_add, Nat.mul_one] at hle
      omega

/-! ## `js_bigint_to_string1` -/

variable {ok : Prop}

theorem newText_spec (text : List UInt8) (large : Prop) :
    Ends (Answers ok) (newText text) (Refused ok large) (· = .str8 text) := by
  have hmade : Yields (Answers ok) (newString8Len text) fun o =>
      o = some (.str8 text) ∨ o = none ∧ ¬ ok := by
    unfold newString8Len
    by_cases hempty : text.length = 0
    · rw [if_pos hempty]
      obtain rfl := List.length_eq_zero_iff.mp hempty
      exact Yields.ret (.inl rfl)
    rw [if_neg hempty]
    refine Yields.bind (realloc_spec _) fun o ho => ?_
    cases o with
    | none => exact Yields.ret (.inr ⟨rfl, ho rfl⟩)
    | some slack => exact Yields.ret (.inl rfl)
  refine Ends.bind (Ends.lift hmade) fun o ho => ?_
  obtain rfl | ⟨rfl, hg⟩ := ho
  · exact Ends.ret rfl
  · exact Ends.throw (.inl ⟨rfl, hg⟩)

/-- The two loops for a positive number, in a block of the size that the number of bits gives. -/
theorem loops_spec {r : List Limb} (hr : Normal r) (hpos : 0 < int r) {radix : Nat} (h2 : 2 ≤ radix)
    (h36 : radix ≤ 36) (extra : Nat) :
    let log2Radix := 31 - clz32 radix
    let nDigits := (r.length * 64 - safeClz (top r) + log2Radix - 1) / log2Radix
    ∃ room, extra ≤ room ∧
      (if ¬ radix &&& (radix - 1) = 0 then printLoop radix (r.length * 64 + 1) r ⟨nDigits + extra, []⟩
        else printBinLoop radix log2Radix r nDigits 0 ⟨nDigits + extra, []⟩) =
        .ok ⟨room, radixText radix (value r)⟩ := by
  intro log2Radix nDigits
  obtain ⟨bits, hbits, hlo, hhi⟩ := bits_spec hr hpos
  have hne : value r ≠ 0 := by
    have := Nat.two_pow_pos bits
    omega
  have htext : loopText radix (value r) = radixText radix (value r) := by
    rw [radixText, radixDigits, if_neg hne, loopText]
  by_cases hbin : radix &&& (radix - 1) = 0
  · obtain ⟨hl, hl', hrad⟩ := binary_radix h2 h36 hbin
    have hdigits : nDigits = (bits + 1 + log2Radix - 1) / log2Radix := by rw [← hbits]
    rw [if_neg (not_not.mpr hbin)]
    have hlen : (Nat.digits radix (value r)).length = nDigits := by
      rw [hdigits, ← digits_length_bits hl hlo hhi, ← hrad]
    have hrun := printBinLoop_spec hl hl' r 0 (q := ⟨nDigits + extra, []⟩) (n := nDigits) (by dsimp only; omega)
    rw [← hrad, pow_zero, Nat.div_one, low_eq_digits (by omega) hlen, List.append_nil] at hrun
    refine ⟨nDigits + extra - nDigits, by omega, hrun.trans ?_⟩
    rw [← htext, loopText]
  · rw [if_pos hbin]
    have hlog : 2 ^ log2Radix ≤ radix ∧ 0 < log2Radix := by
      have : ∀ radix ≤ 36, 2 ≤ radix → 2 ^ (31 - clz32 radix) ≤ radix ∧ 0 < 31 - clz32 radix := by
        intro radix h36 h2
        interval_cases radix <;> exact ⟨by decide, by decide⟩
      exact this radix h36 h2
    have hroom : (Nat.digits radix (value r)).length ≤ nDigits := by
      rw [Nat.digits_length_le_iff (by omega)]
      have hdiv := Nat.div_add_mod (bits + 1 + log2Radix - 1) log2Radix
      have hmod := Nat.mod_lt (bits + 1 + log2Radix - 1) hlog.2
      calc value r < 2 ^ (bits + 1) := hhi
        _ ≤ 2 ^ (log2Radix * nDigits) := by
            apply Nat.pow_le_pow_right (by omega)
            show bits + 1 ≤ log2Radix * ((r.length * 64 - safeClz (top r) + log2Radix - 1) / log2Radix)
            rw [hbits]
            omega
        _ = (2 ^ log2Radix) ^ nDigits := pow_mul _ _ _
        _ ≤ radix ^ nDigits := Nat.pow_le_pow_left hlog.1 _
    have hfuel : value r < 2 ^ (r.length * 64 + 1) := by
      have := value_lt r
      rw [← pow_mul, Nat.mul_comm] at this
      exact this.trans_le (Nat.pow_le_pow_right (by omega) (by omega))
    refine ⟨_, ?_, printLoop_spec h2 h36 hbin hr.1 hfuel (q := ⟨nDigits + extra, []⟩)
      (by dsimp only; omega) |>.trans (by rw [htext, List.append_nil])⟩
    dsimp only
    omega

/-- A number of `len` limbs is too large to be written in the radix: a power of two needs no copy. -/
def Refuses (radix : Nat) (r : List Limb) : Prop :=
  jsBigintMaxSize < r.length ∧ ¬ (radix &&& (radix - 1) = 0 ∧ 0 ≤ int r)

theorem sign_ne_zero {r : List Limb} (hr : r ≠ []) : sign r ≠ 0 ↔ int r < 0 := by
  rw [sign_eq hr, ← not_le, int_nonneg_iff]
  cases Limbs.sign r <;> decide

theorem absolute_spec {r : List Limb} (hr : Normal r) (radix : Nat) :
    Ends (Answers ok) (absolute r radix) (Refused ok (Refuses radix r)) fun r' =>
      ¬ Refuses radix r ∧ Normal r' ∧ int r' = (int r).natAbs := by
  unfold absolute
  by_cases hneg : int r < 0
  · rw [if_pos ((sign_ne_zero hr.1).mpr hneg)]
    refine (neg_spec hr.1).post (fun e he => he.mono fun h => ⟨h, by omega⟩) fun r' hr' => ?_
    exact ⟨fun h => by have := h.1; omega, hr'.2.1, by rw [hr'.2.2]; omega⟩
  · rw [if_neg (fun h => hneg ((sign_ne_zero hr.1).mp h))]
    by_cases hbin : ¬ radix &&& (radix - 1) = 0
    · rw [if_pos hbin]
      refine Ends.bind ((new_spec _).post (fun e he => he.mono fun h => ⟨h, fun h' => hbin h'.1⟩)
        fun _ h => h) fun _ h => Ends.ret ⟨fun h' => by have := h'.1; omega, hr, by omega⟩
    · rw [if_neg hbin]
      exact Ends.ret ⟨fun h => h.2 ⟨not_not.mp hbin, by omega⟩, hr, by omega⟩

theorem longToString_spec {r : List Limb} (hr : Normal r) (h0 : int r ≠ 0) {radix : Nat} (h2 : 2 ≤ radix)
    (h36 : radix ≤ 36) :
    Ends (Answers ok) (longToString r radix) (Refused ok (Refuses radix r)) fun str =>
      ¬ Refuses radix r ∧ str = .str8 (signedText radix (int r)) := by
  have hsign := sign_ne_zero hr.1
  refine Ends.bind (absolute_spec hr radix) fun r' hr' => ?_
  obtain ⟨hsize, hnormal, hint⟩ := hr'
  have hpos : 0 < int r' := by omega
  have hvalue : value r' = (int r).natAbs := by
    rw [int_of_nonneg ((int_nonneg_iff r').mp hpos.le)] at hint
    exact_mod_cast hint
  refine Ends.bind (malloc_spec _ _) fun _ _ => ?_
  obtain ⟨room, hroom, hrun⟩ := loops_spec hnormal hpos h2 h36 (if sign r ≠ 0 then 1 else 0)
  refine Ends.bind (Ends.ofOk (Q := fun q => q = ⟨room, radixText radix (value r')⟩) hrun rfl) fun q hq => ?_
  subst hq
  rw [hvalue]
  refine Ends.bind (Ends.ofOk (v := ⟨room - (if sign r ≠ 0 then 1 else 0), signedText radix (int r)⟩)
    (Q := fun q => q.text = signedText radix (int r)) ?_ rfl) fun q hq => ?_
  · by_cases hneg : int r < 0
    · rw [if_pos (hsign.mpr hneg)] at hroom
      rw [if_pos (hsign.mpr hneg), if_pos (hsign.mpr hneg), Back.put_spec (by dsimp only; omega), signedText,
        if_pos hneg]
      rfl
    · have hs : ¬ sign r ≠ 0 := fun h => hneg (hsign.mp h)
      rw [if_neg hs, if_neg hs, signedText, if_neg hneg]
      rfl
  · rw [hq]
    exact (newText_spec _ _).post (fun _ => id) fun _ h => ⟨hsize, h⟩

end BigInt

namespace BigIntVal

/-- The integer of a BigInt value. -/
def int : BigIntVal → Int
  | .short n => n.toInt
  | .long tab => Limbs.int tab

/-- The limbs are normalized. -/
def Normal : BigIntVal → Prop
  | .short _ => True
  | .long tab => Limbs.Normal tab

/-- The number is too large to be written in the radix. -/
def Refuses (radix : Nat) : BigIntVal → Prop
  | .short _ => False
  | .long tab => BigInt.Refuses radix tab

end BigIntVal

variable {ok : Prop}

theorem BigInt.toString1_spec {val : BigIntVal} (hval : val.Normal) {radix : Nat} (h2 : 2 ≤ radix)
    (h36 : radix ≤ 36) :
    Ends (Answers ok) (toString1 val radix) (Refused ok (val.Refuses radix)) fun str =>
      ¬ val.Refuses radix ∧ str = .str8 (signedText radix val.int) := by
  unfold toString1
  cases val with
  | short n =>
    refine Ends.bind (Ends.ofOk (Q := fun t => t = signedText radix n.toInt) (i64toaRadix_spec n h2 h36) rfl)
      fun t ht => ?_
    subst ht
    rw [if_neg (not_lt.mpr (signedText_short_length n h2))]
    exact (newText_spec _ _).post (fun _ => id) fun _ h => ⟨id, h⟩
  | long r =>
    dsimp only
    by_cases h0 : r.length = 1 ∧ r.getD 0 0 = 0
    · rw [if_pos h0]
      obtain ⟨x, rfl⟩ := List.length_eq_one_iff.mp h0.1
      obtain rfl : x = 0 := by simpa using h0.2
      refine (newText_spec _ _).post (fun _ => id) fun _ h => ⟨fun hr => ?_, h⟩
      exact absurd hr.1 (by decide)
    · rw [if_neg h0]
      refine longToString_spec hval (fun hz => h0 ?_) h2 h36
      have hunique := Normal.unique (by decide) hval (Normal.singleton (0 : Limb)) (hz.trans (by decide))
      rw [hunique]
      exact ⟨rfl, rfl⟩

end InteropJs.QuickJS
