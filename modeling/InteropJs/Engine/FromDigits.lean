import InteropJs.Engine.BigInt

/-!
# Reading the digits of a BigInt (`quickjs.c`)

`js_bigint_from_string` asks for a block by the number of digits, and then takes the decimal digits in
groups of 19 or sets the bits of the digits of a power of two.

* `decLoop_spec` and `binLoop_spec`: the two loops take all digits and stay in the block.
* `fromString_spec`: the number is exact and normalized, and the `RangeError` comes exactly when the block is
  over the limit.
-/

namespace InteropJs.QuickJS

open Hoare Limbs

/-! ## The functions -/

/-- `to_digit`: 36 for a byte that is no digit. -/
def toDigit (c : UInt8) : Nat :=
  if 48 ≤ c.toNat ∧ c.toNat ≤ 57 then c.toNat - 48
  else if 65 ≤ c.toNat ∧ c.toNat ≤ 90 then c.toNat - 65 + 10
  else if 97 ≤ c.toNat ∧ c.toNat ≤ 122 then c.toNat - 97 + 10
  else 36

/-- `clz32`. -/
def clz32 (a : Nat) : Nat := 31 - a.log2

/-- `js_pow_dec`. -/
def jsPowDec : List Limb :=
  [1, 10, 100, 1000, 10000, 100000, 1000000, 10000000, 100000000, 1000000000, 10000000000, 100000000000,
    1000000000000, 10000000000000, 100000000000000, 1000000000000000, 10000000000000000,
    100000000000000000, 1000000000000000000, 10000000000000000000]

namespace BigInt

/-- `tab[len++] = x` in a block of `size` limbs. -/
def push (size : Nat) (tab : List Limb) (x : Limb) : Except Fault (List Limb) :=
  if tab.length < size then .ok (tab ++ [x]) else .error .bounds

/-- `tab[pos] |= x`. -/
def orAt (tab : List Limb) (pos : Nat) (x : Limb) : Except Fault (List Limb) :=
  if pos < tab.length then .ok (tab.set pos (tab.getD pos 0 ||| x)) else .error .bounds

/-- A group of at most `left` decimal digits: its value, their number and the text behind them. -/
def decGroup : Nat → List UInt8 → Limb → Nat → Limb × Nat × List UInt8
  | 0, p, v, i => (v, i, p)
  | left + 1, p, v, i =>
    let c := toDigit (p.headD 0)
    if 10 ≤ c then (v, i, p) else decGroup left p.tail (v * 10 + BitVec.ofNat 64 c) (i + 1)

/-- The loop over the groups of decimal digits, with more fuel than digits. -/
def decLoop (size : Nat) : Nat → List UInt8 → List Limb → Except Fault (List Limb)
  | 0, _, tab => .ok tab
  | n + 1, p, tab => do
    -- `JS_LIMB_DIGITS`
    let g := decGroup 19 p 0 0
    if g.2.1 = 0 then
      return tab
    if tab.length = 1 ∧ tab.getD 0 0 = 0 then
      decLoop size n g.2.2 [g.1]
    else
      let m := mpMul1 tab (jsPowDec.getD g.2.1 0) g.1
      if m.2 ≠ 0 then
        decLoop size n g.2.2 (← push size m.1 m.2)
      else
        decLoop size n g.2.2 m.1

/-- The decimal digits; the last limb keeps the sign bit free. -/
def fromDecimal (size : Nat) (p : List UInt8) : Except Fault (List Limb) := do
  let tab ← decLoop size (p.length + 1) p [0]
  if top tab >>> 63 ≠ 0 then push size tab 0 else return tab

/-- The digits of a power of two, from the last one on: that of the index `i` is first. -/
def binLoop (radix log2Radix : Nat) : List UInt8 → Nat → List Limb → Except Fault (List Limb)
  | [], _, tab => .ok tab
  | d :: ds, i, tab => do
    let c := toDigit d
    if radix ≤ c then
      throw .assertion
    let shift := i * log2Radix % 64
    let pos := i * log2Radix / 64
    let tab ← orAt tab pos (BitVec.ofNat 64 c <<< shift)
    if 64 < shift + log2Radix then
      binLoop radix log2Radix ds (i + 1) (← orAt tab (pos + 1) (BitVec.ofNat 64 c >>> (64 - shift)))
    else
      binLoop radix log2Radix ds (i + 1) tab

/-- The number of bits that `js_bigint_from_string` takes for `nDigits` digits. -/
def digitBits (radix nDigits : Nat) : Nat :=
  if radix = 10 then (nDigits * 27 + 7) / 8 else nDigits * (32 - clz32 (radix - 1))

/-- `js_bigint_from_string` of the bytes `str` in front of the terminator. -/
def fromString (str : List UInt8) (radix : Nat) : ExceptT Fault Alloc (List Limb) := do
  let isNeg := str.headD 0 = 45
  let p := (if isNeg then str.tail else str).dropWhile (· = 48)
  if jsBigintMaxSize * 64 < p.length then
    throw tooLarge
  let nLimbs := max 1 (digitBits radix p.length / 64 + 1)
  new nLimbs
  let r ← ExceptT.mk (pure (
    if radix = 10 then fromDecimal nLimbs p
    else binLoop radix (32 - clz32 (radix - 1)) p.reverse 0 (List.replicate nLimbs 0)))
  let r ← normalize r
  if isNeg then neg r else return r

/-! ## The number of the digits -/

/-- The number with the digits `ds`, the highest first. -/
def number (radix : Nat) (ds : List UInt8) : Nat := Nat.ofDigits radix (ds.map toDigit).reverse

@[simp] theorem number_nil (radix : Nat) : number radix [] = 0 := rfl

theorem number_append (radix : Nat) (ds es : List UInt8) :
    number radix (ds ++ es) = number radix ds * radix ^ es.length + number radix es := by
  rw [number, List.map_append, List.reverse_append, Nat.ofDigits_append, List.length_reverse,
    List.length_map, Nat.mul_comm, Nat.add_comm]
  rfl

theorem number_singleton (radix : Nat) (d : UInt8) : number radix [d] = toDigit d := by
  simp [number]

theorem number_cons (radix : Nat) (d : UInt8) (ds : List UInt8) :
    number radix (d :: ds) = toDigit d * radix ^ ds.length + number radix ds := by
  rw [← number_singleton radix d, ← number_append, List.singleton_append]

theorem number_lt {radix : Nat} {ds : List UInt8} (h : ∀ d ∈ ds, toDigit d < radix) :
    number radix ds < radix ^ ds.length := by
  induction ds with
  | nil => simp
  | cons d ds ih =>
    have hd := h d (by simp)
    have hds := ih fun e he => h e (by simp [he])
    rw [number_cons, List.length_cons, pow_succ]
    nlinarith

/-- Leading zeros do not change the number. -/
theorem number_dropWhile (radix : Nat) (ds : List UInt8) : number radix (ds.dropWhile (· = 48)) = number radix ds := by
  induction ds with
  | nil => rfl
  | cons d ds ih =>
    by_cases hd : d = 48
    · subst hd
      rw [List.dropWhile_cons_of_pos (by simp), ih, number_cons, show toDigit 48 = 0 from rfl, Nat.zero_mul,
        Nat.zero_add]
    · rw [List.dropWhile_cons_of_neg (by simpa using hd)]

/-! ## Decimal digits -/

theorem jsPowDec_eq {i : Nat} (hi : i ≤ 19) : (jsPowDec.getD i 0).toNat = 10 ^ i := by
  interval_cases i <;> rfl

/-- A group holds the next digits, at most `left` of them, and does not wrap around. -/
theorem decGroup_spec {left j : Nat} (hj : j + left ≤ 19) {p : List UInt8}
    (hp : ∀ d ∈ p, toDigit d < 10) {v : Limb} (hv : v.toNat < 10 ^ j) (i : Nat) :
    ∃ v' : Limb, decGroup left p v i = (v', i + min left p.length, p.drop left) ∧
      v'.toNat = v.toNat * 10 ^ min left p.length + number 10 (p.take left) := by
  induction left generalizing p v i j with
  | zero => exact ⟨v, by simp [decGroup], by simp⟩
  | succ left ih =>
    cases p with
    | nil => exact ⟨v, by simp [decGroup, toDigit], by simp⟩
    | cons d p =>
      have hd := hp d (by simp)
      have hpow : 10 ^ (j + 1) ≤ 10 ^ 19 := Nat.pow_le_pow_right (by omega) (by omega)
      rw [pow_succ] at hpow
      have hnext : (v * 10 + BitVec.ofNat 64 (toDigit d)).toNat = v.toNat * 10 + toDigit d := by
        rw [BitVec.toNat_add, BitVec.toNat_mul, BitVec.toNat_ofNat, show (10 : Limb).toNat = 10 from rfl]
        omega
      obtain ⟨v', hrun, hval⟩ := ih (j := j + 1) (by omega) (p := p) (fun e he => hp e (by simp [he]))
        (v := v * 10 + BitVec.ofNat 64 (toDigit d)) (by rw [hnext, pow_succ]; omega) (i + 1)
      refine ⟨v', ?_, ?_⟩
      · rw [decGroup]
        simp only [List.headD_cons, List.tail_cons, if_neg (not_le.mpr hd), hrun, List.drop_succ_cons,
          List.length_cons, Prod.mk.injEq, true_and, and_true]
        omega
      · rw [hval, hnext, List.take_succ_cons, number_cons, List.length_take, List.length_cons,
          Nat.succ_min_succ, pow_succ]
        ring

/-- No limb of the list is there for nothing. -/
def Tight (tab : List Limb) : Prop :=
  0 < tab.length ∧ (tab.length = 1 ∨ (2 ^ 64) ^ (tab.length - 1) ≤ value tab)

/-- A number of `bits` bits has at most `bits / 64` limbs below its last one. -/
theorem limbs_lt {l v bits : Nat} (hl : (2 ^ 64) ^ l ≤ v) (hv : v < 2 ^ bits) : 64 * l < bits := by
  rw [← pow_mul] at hl
  exact (Nat.pow_lt_pow_iff_right (by decide)).mp (hl.trans_lt hv)

theorem push_of_le {size bits : Nat} (hsize : bits / 64 < size) {tab : List Limb}
    (h : 64 * tab.length ≤ bits) (x : Limb) : push size tab x = .ok (tab ++ [x]) := by
  rw [push, if_pos]
  omega

/-- One group of digits. -/
theorem decGroup_step {p : List UInt8} (hp : ∀ d ∈ p, toDigit d < 10) (hne : p ≠ []) :
    ∃ (v : Limb) (i : Nat), decGroup 19 p 0 0 = (v, i, p.drop i) ∧ 0 < i ∧ i ≤ 19 ∧ i ≤ p.length ∧
      v.toNat = number 10 (p.take i) := by
  obtain ⟨v, hrun, hval⟩ := decGroup_spec (show 0 + 19 ≤ 19 by omega) hp (v := 0) (by decide) 0
  have hpos := List.length_pos_iff.mpr hne
  refine ⟨v, min 19 p.length, ?_, by omega, by omega, by omega, ?_⟩
  · rw [hrun, Nat.zero_add]
    by_cases h : 19 ≤ p.length
    · rw [min_eq_left h]
    · rw [min_eq_right (by omega), List.drop_eq_nil_of_le (by omega), List.drop_length]
  · rw [hval, show (0 : Limb).toNat = 0 from rfl, Nat.zero_mul, Nat.zero_add]
    by_cases h : 19 ≤ p.length
    · rw [min_eq_left h]
    · rw [min_eq_right (by omega), List.take_of_length_le (by omega), List.take_length]

/-- The loop takes all digits into the limbs, and the limbs fit in the block. -/
theorem decLoop_spec {size bits : Nat} (hsize : bits / 64 < size) {n : Nat} {p : List UInt8}
    (hn : p.length < n) (hp : ∀ d ∈ p, toDigit d < 10) {tab : List Limb} (htab : Tight tab)
    (hbits : (value tab + 1) * 10 ^ p.length ≤ 2 ^ bits) :
    ∃ tab', decLoop size n p tab = .ok tab' ∧ Tight tab' ∧
      value tab' = value tab * 10 ^ p.length + number 10 p := by
  induction n generalizing p tab with
  | zero => omega
  | succ n ih =>
    by_cases hne : p = []
    · subst hne
      refine ⟨tab, ?_, htab, by simp⟩
      rw [decLoop]
      rfl
    obtain ⟨v, i, hgroup, hi, hi19, hip, hv⟩ := decGroup_step hp hne
    have hrest : ∀ d ∈ p.drop i, toDigit d < 10 := fun d hd => hp d (List.mem_of_mem_drop hd)
    have hvlt : v.toNat < 10 ^ i := by
      have := number_lt fun d hd => hp d (List.mem_of_mem_take (i := i) hd)
      rwa [← hv, List.length_take, min_eq_left hip] at this
    have hsplit : number 10 p = v.toNat * 10 ^ (p.length - i) + number 10 (p.drop i) := by
      rw [hv, ← List.length_drop, ← number_append, List.take_append_drop]
    have hpow : 10 ^ p.length = 10 ^ i * 10 ^ (p.length - i) := by
      rw [← pow_add, Nat.add_sub_cancel' hip]
    -- the limbs after this group, and what the rest of the loop makes of them
    have hgo : ∀ tab₁ : List Limb, Tight tab₁ → value tab₁ = value tab * 10 ^ i + v.toNat →
        ∃ tab', decLoop size n (p.drop i) tab₁ = .ok tab' ∧ Tight tab' ∧
          value tab' = value tab * 10 ^ p.length + number 10 p := by
      intro tab₁ htight hval
      obtain ⟨tab', hrun, htight', hval'⟩ := ih (p := p.drop i)
        (by rw [List.length_drop]; omega) hrest htight (by
          rw [List.length_drop, hval]
          calc (value tab * 10 ^ i + v.toNat + 1) * 10 ^ (p.length - i)
              ≤ (value tab + 1) * 10 ^ i * 10 ^ (p.length - i) := by
                apply Nat.mul_le_mul_right
                rw [Nat.add_mul, Nat.one_mul]
                omega
            _ = (value tab + 1) * 10 ^ p.length := by rw [hpow, Nat.mul_assoc]
            _ ≤ 2 ^ bits := hbits)
      refine ⟨tab', hrun, htight', ?_⟩
      rw [hval', hval, List.length_drop, hsplit, hpow]
      ring
    rw [decLoop]
    simp only [hgroup, if_neg (by omega : ¬ i = 0)]
    by_cases hzero : tab.length = 1 ∧ tab.getD 0 0 = 0
    · rw [if_pos hzero]
      obtain ⟨x, rfl⟩ := List.length_eq_one_iff.mp hzero.1
      obtain rfl : x = 0 := by simpa using hzero.2
      exact hgo [v] ⟨by simp, .inl rfl⟩ (by simp)
    rw [if_neg hzero]
    have hmul := mpMul1_spec tab (jsPowDec.getD i 0) v
    have hlen := mpMul1_length tab (jsPowDec.getD i 0) v
    rw [jsPowDec_eq hi19] at hmul
    generalize mpMul1 tab (jsPowDec.getD i 0) v = m at hmul hlen ⊢
    obtain ⟨m, h⟩ := m
    simp only at hmul hlen ⊢
    by_cases hh : h ≠ 0
    · rw [if_pos hh]
      have hpos : 1 ≤ h.toNat := by
        rw [Nat.one_le_iff_ne_zero]
        exact fun h0 => hh (BitVec.eq_of_toNat_eq h0)
      have hbig : (2 ^ 64) ^ m.length ≤ value tab * 10 ^ i + v.toNat := by
        rw [← hmul, hlen]
        exact (Nat.le_mul_of_pos_right _ hpos).trans (Nat.le_add_left _ _)
      have hsmall : value tab * 10 ^ i + v.toNat < 2 ^ bits := by
        have hone : 1 ≤ 10 ^ (p.length - i) := Nat.one_le_pow _ _ (by omega)
        calc value tab * 10 ^ i + v.toNat < (value tab + 1) * 10 ^ i := by
              rw [Nat.add_mul, Nat.one_mul]
              omega
          _ ≤ (value tab + 1) * 10 ^ i * 10 ^ (p.length - i) := Nat.le_mul_of_pos_right _ hone
          _ = (value tab + 1) * 10 ^ p.length := by rw [hpow, Nat.mul_assoc]
          _ ≤ 2 ^ bits := hbits
      have hvalue : value (m ++ [h]) = value tab * 10 ^ i + v.toNat := by
        rw [value_concat, hlen, hmul]
      rw [push_of_le hsize (limbs_lt hbig hsmall).le]
      refine hgo (m ++ [h]) ⟨by simp, .inr ?_⟩ hvalue
      rw [hvalue, List.length_append, List.length_singleton, Nat.add_sub_cancel]
      exact hbig
    · rw [if_neg hh]
      obtain rfl : h = 0 := not_not.mp hh
      rw [show (0 : Limb).toNat = 0 from rfl, Nat.mul_zero, Nat.add_zero] at hmul
      refine hgo m ⟨hlen ▸ htab.1, htab.2.imp (fun h => hlen.trans h) fun h => ?_⟩ hmul
      rw [hmul, hlen]
      have : value tab ≤ value tab * 10 ^ i := Nat.le_mul_of_pos_right _ (Nat.one_le_pow _ _ (by omega))
      omega

/-- The bits that `js_bigint_from_string` counts for a decimal digit are enough: `10 ^ 8 ≤ 2 ^ 27`. -/
theorem ten_pow_le (n : Nat) : 10 ^ n ≤ 2 ^ ((n * 27 + 7) / 8) := by
  rw [← Nat.pow_le_pow_iff_left (n := 8) (by omega)]
  calc (10 ^ n) ^ 8 = (10 ^ 8) ^ n := by rw [← pow_mul, ← pow_mul, Nat.mul_comm]
    _ ≤ (2 ^ 27) ^ n := Nat.pow_le_pow_left (by norm_num) n
    _ = 2 ^ (27 * n) := by rw [← pow_mul]
    _ ≤ 2 ^ ((n * 27 + 7) / 8 * 8) := Nat.pow_le_pow_right (by omega) (by omega)
    _ = (2 ^ ((n * 27 + 7) / 8)) ^ 8 := by rw [← pow_mul]

theorem top_shift_iff {tab : List Limb} (hne : tab ≠ []) : top tab >>> 63 ≠ 0 ↔ Limbs.sign tab = true := by
  have h := sign_eq hne
  rw [sign] at h
  rw [h]
  cases Limbs.sign tab <;> decide

theorem fromDecimal_spec {size bits : Nat} (hsize : bits / 64 < size) {p : List UInt8}
    (hp : ∀ d ∈ p, toDigit d < 10) (hbits : 10 ^ p.length ≤ 2 ^ bits) :
    ∃ tab, fromDecimal size p = .ok tab ∧ tab ≠ [] ∧ int tab = number 10 p := by
  obtain ⟨tab, hrun, htight, hval⟩ := decLoop_spec hsize (Nat.lt_succ_self _) hp
    (show Tight [0] from ⟨by simp, .inl rfl⟩) (by simpa using hbits)
  have hne : tab ≠ [] := List.ne_nil_of_length_pos htight.1
  rw [show value [(0 : Limb)] = 0 from rfl, Nat.zero_mul, Nat.zero_add] at hval
  rw [fromDecimal, hrun]
  show ∃ r, (if top tab >>> 63 ≠ 0 then push size tab 0 else .ok tab) = .ok r ∧ _
  by_cases hs : Limbs.sign tab = true
  · rw [if_pos ((top_shift_iff hne).mpr hs)]
    have hfits := (int_fits (by decide) hne).1
    have hint := value_eq_int tab
    rw [hs, if_pos rfl] at hint
    have hlt := (number_lt hp).trans_le hbits
    have hle : 64 * tab.length ≤ bits := by
      have : (2 ^ 64) ^ tab.length ≤ 2 * value tab := by
        generalize (2 ^ 64) ^ tab.length = size at hint hfits ⊢
        omega
      have h2 := limbs_lt this (show _ < 2 ^ (bits + 1) by rw [pow_succ]; omega)
      omega
    refine ⟨tab ++ [0], push_of_le hsize hle 0, by simp, ?_⟩
    rw [int_concat, hval]
    simp
  · rw [if_neg (fun h => hs ((top_shift_iff hne).mp h))]
    refine ⟨tab, rfl, hne, ?_⟩
    rw [int_of_nonneg (by simpa using hs), hval]

/-! ## Digits of a power of two -/

theorem orAt_spec {tab : List Limb} {pos : Nat} (hpos : pos < tab.length) {x : Limb}
    (hor : (tab.getD pos 0 ||| x).toNat = (tab.getD pos 0).toNat + x.toNat) :
    ∃ tab', orAt tab pos x = .ok tab' ∧ tab'.length = tab.length ∧
      (tab'.getD (pos + 1) 0 = tab.getD (pos + 1) 0) ∧
      value tab' = value tab + (2 ^ 64) ^ pos * x.toNat := by
  refine ⟨_, if_pos hpos, List.length_set, ?_, ?_⟩
  · rw [List.getD_eq_getElem?_getD, List.getElem?_set_ne (by omega), ← List.getD_eq_getElem?_getD]
  have h := value_set hpos (tab.getD pos 0 ||| x)
  rw [hor, Nat.mul_add] at h
  omega

/-- The digit `c` at the bit `64 * pos + shift`, in one limb or two. -/
theorem digit_limbs {c shift : Nat} (hs : shift < 64) (hc : c < 2 ^ 64) :
    (BitVec.ofNat 64 c <<< shift : Limb).toNat + 2 ^ 64 * (BitVec.ofNat 64 c >>> (64 - shift) : Limb).toNat =
      2 ^ shift * c := by
  have hpow : 2 ^ 64 = 2 ^ shift * 2 ^ (64 - shift) := by rw [← pow_add, Nat.add_sub_cancel' hs.le]
  rw [BitVec.toNat_shiftLeft, BitVec.toNat_ushiftRight, BitVec.toNat_ofNat, Nat.mod_eq_of_lt hc,
    Nat.shiftLeft_eq, Nat.shiftRight_eq_div_pow, Nat.mul_comm c]
  have hdiv : 2 ^ shift * c / 2 ^ 64 = c / 2 ^ (64 - shift) := by
    rw [hpow, Nat.mul_div_mul_left _ _ (Nat.two_pow_pos shift)]
  rw [← hdiv, Nat.mod_add_div]

theorem or_shiftLeft {t : Limb} {shift : Nat} (hs : shift < 64) (ht : t.toNat < 2 ^ shift) (c : Limb) :
    (t ||| c <<< shift).toNat = t.toNat + (c <<< shift).toNat := by
  have hpow : 2 ^ 64 = 2 ^ shift * 2 ^ (64 - shift) := by rw [← pow_add, Nat.add_sub_cancel' hs.le]
  rw [BitVec.toNat_or, BitVec.toNat_shiftLeft, Nat.shiftLeft_eq, Nat.mul_comm, hpow, Nat.mul_mod_mul_left,
    Nat.or_comm, ← Nat.two_pow_add_eq_or_of_lt ht, Nat.add_comm]

theorem binLoop_spec {l bits : Nat} (hl : 0 < l) (hl' : l ≤ 64) {ds : List UInt8}
    (hds : ∀ d ∈ ds, toDigit d < 2 ^ l) {i : Nat} (hi : (i + ds.length) * l ≤ bits) {tab : List Limb}
    (hsize : bits / 64 < tab.length) (htab : value tab < 2 ^ (i * l)) :
    ∃ tab', binLoop (2 ^ l) l ds i tab = .ok tab' ∧ tab'.length = tab.length ∧
      value tab' = value tab + 2 ^ (i * l) * number (2 ^ l) ds.reverse := by
  induction ds generalizing i tab with
  | nil => exact ⟨tab, rfl, rfl, by simp⟩
  | cons d ds ih =>
    have hd := hds d (by simp)
    have hd64 : toDigit d < 2 ^ 64 := hd.trans_le (Nat.pow_le_pow_right (by omega) hl')
    generalize hshift : i * l % 64 = shift
    generalize hpos : i * l / 64 = pos
    have hs : shift < 64 := by omega
    have hbit : i * l = 64 * pos + shift := by omega
    have hnext : (i + 1) * l = i * l + l := Nat.succ_mul i l
    have hend : (i + 1) * l ≤ bits := by
      refine le_trans (Nat.mul_le_mul_right l ?_) hi
      rw [List.length_cons]
      omega
    have hin : pos < tab.length := by omega
    -- the bits from `i * l` on are free
    have hfree : (tab.getD pos 0).toNat < 2 ^ shift := by
      rw [hbit, pow_add, pow_mul] at htab
      have hone : 2 ^ shift ≤ 2 ^ 64 := Nat.pow_le_pow_right (by omega) hs.le
      rw [getD_of_lt (htab.trans_le (by rw [pow_succ]; exact Nat.mul_le_mul_left _ hone))]
      exact Nat.div_lt_of_lt_mul htab
    have hlimbs := digit_limbs hs hd64
    have hweight : 2 ^ (i * l) = (2 ^ 64) ^ pos * 2 ^ shift := by rw [hbit, pow_add, pow_mul]
    -- the rest of the loop, once the digit is in the limbs
    have hgo : ∀ tab₁ : List Limb, tab₁.length = tab.length →
        value tab₁ = value tab + 2 ^ (i * l) * toDigit d →
        ∃ tab', binLoop (2 ^ l) l ds (i + 1) tab₁ = .ok tab' ∧ tab'.length = tab.length ∧
          value tab' = value tab + 2 ^ (i * l) * number (2 ^ l) (d :: ds).reverse := by
      intro tab₁ hlen hval
      have hlt : value tab₁ < 2 ^ ((i + 1) * l) := by
        rw [hval, hnext, pow_add]
        nlinarith [Nat.two_pow_pos (i * l)]
      obtain ⟨tab', hrun, hlen', hval'⟩ := ih (fun e he => hds e (by simp [he])) (i := i + 1)
        (by rw [List.length_cons] at hi; rwa [Nat.add_right_comm, Nat.add_assoc]) (hlen ▸ hsize) hlt
      refine ⟨tab', hrun, hlen'.trans hlen, ?_⟩
      rw [hval', hval, List.reverse_cons, number_append, number_singleton, List.length_singleton, pow_one,
        hnext, pow_add]
      ring
    obtain ⟨tab₁, hor, hlen₁, habove, hval₁⟩ := orAt_spec hin (or_shiftLeft hs hfree (BitVec.ofNat 64 (toDigit d)))
    rw [binLoop]
    simp only [if_neg (not_le.mpr hd), hshift, hpos]
    rw [hor]
    show ∃ tab', (if 64 < shift + l then _ else _) = _ ∧ _
    by_cases hcross : 64 < shift + l
    · rw [if_pos hcross]
      have hzero : tab₁.getD (pos + 1) 0 = 0 := by
        have hlt : value tab < (2 ^ 64) ^ (pos + 1) := by
          rw [← pow_mul]
          exact htab.trans_le (Nat.pow_le_pow_right (by omega) (by omega))
        rw [habove]
        apply BitVec.eq_of_toNat_eq
        rw [getD_of_lt (hlt.trans_le (Nat.pow_le_pow_right (by omega) (Nat.le_succ _))),
          Nat.div_eq_of_lt hlt]
        rfl
      obtain ⟨tab₂, hor₂, hlen₂, -, hval₂⟩ := orAt_spec (show pos + 1 < tab₁.length by omega)
        (x := BitVec.ofNat 64 (toDigit d) >>> (64 - shift)) (by rw [hzero]; simp)
      rw [hor₂]
      refine hgo tab₂ (hlen₂.trans hlen₁) ?_
      rw [hval₂, hval₁, hweight, Nat.mul_assoc _ (2 ^ shift), ← hlimbs, pow_succ (2 ^ 64) pos]
      ring
    · rw [if_neg hcross]
      refine hgo tab₁ hlen₁ ?_
      have hnone : (BitVec.ofNat 64 (toDigit d) >>> (64 - shift) : Limb).toNat = 0 := by
        rw [BitVec.toNat_ushiftRight, BitVec.toNat_ofNat, Nat.mod_eq_of_lt hd64, Nat.shiftRight_eq_div_pow]
        exact Nat.div_eq_of_lt (hd.trans_le (Nat.pow_le_pow_right (by omega) (by omega)))
      rw [hnone, Nat.mul_zero, Nat.add_zero] at hlimbs
      rw [hval₁, hweight, Nat.mul_assoc, hlimbs]

/-! ## `js_bigint_from_string` -/

/-- The digits need a block over the limit, by the estimate of `js_bigint_from_string`. -/
def Large (radix : Nat) (ds : List UInt8) : Prop :=
  jsBigintMaxSize * 64 ≤ digitBits radix (ds.dropWhile (· = 48)).length

/-- The radixes of `js_bigint_from_string`. -/
def IsRadix (radix : Nat) : Prop := radix = 10 ∨ radix = 2 ∨ radix = 8 ∨ radix = 16

variable {ok : Prop}

theorem IsRadix.log2 {radix : Nat} (hr : IsRadix radix) (h10 : radix ≠ 10) :
    ∃ l, 0 < l ∧ l ≤ 64 ∧ radix = 2 ^ l ∧ 32 - clz32 (radix - 1) = l := by
  obtain rfl | rfl | rfl | rfl := hr
  · exact absurd rfl h10
  · exact ⟨1, by omega, by omega, rfl, rfl⟩
  · exact ⟨3, by omega, by omega, rfl, rfl⟩
  · exact ⟨4, by omega, by omega, rfl, rfl⟩

theorem sign_of_lt {tab : List Limb} (hne : tab ≠ []) (h : 2 * value tab < (2 ^ 64) ^ tab.length) :
    Limbs.sign tab = false := by
  have hfits := (int_fits (by decide) hne).1
  have hint := value_eq_int tab
  cases hs : Limbs.sign tab with
  | false => rfl
  | true =>
    rw [hs, if_pos rfl] at hint
    generalize (2 ^ 64) ^ tab.length = size at h hint hfits
    omega

/-- The digits in the limbs of the block. -/
theorem digits_spec {radix : Nat} (hr : IsRadix radix) {p : List UInt8} (hp : ∀ d ∈ p, toDigit d < radix) :
    ∃ tab, (if radix = 10 then fromDecimal (digitBits radix p.length / 64 + 1) p
        else binLoop radix (32 - clz32 (radix - 1)) p.reverse 0
          (List.replicate (digitBits radix p.length / 64 + 1) 0)) = .ok tab ∧
      tab ≠ [] ∧ int tab = number radix p := by
  by_cases h10 : radix = 10
  · subst h10
    rw [if_pos rfl]
    exact fromDecimal_spec (Nat.lt_succ_self _) hp (ten_pow_le _)
  · obtain ⟨l, hl, hl', rfl, hlog⟩ := hr.log2 h10
    rw [if_neg h10, digitBits, if_neg h10, hlog]
    generalize hbits : p.length * l = bits
    have hsize : (List.replicate (bits / 64 + 1) (0 : Limb)).length = bits / 64 + 1 := List.length_replicate
    obtain ⟨tab, hrun, hlen, hval⟩ := binLoop_spec hl hl' (show ∀ d ∈ p.reverse, _ by simpa using hp)
      (show (0 + _) * l ≤ bits by simp [hbits]) (show _ < (List.replicate (bits / 64 + 1) (0 : Limb)).length by omega)
      (by simp)
    rw [hsize] at hlen
    have hne : tab ≠ [] := List.ne_nil_of_length_pos (by omega)
    have hval' : value tab = number (2 ^ l) p := by simpa using hval
    have hlt := number_lt hp
    rw [← hval', ← pow_mul, Nat.mul_comm l, hbits] at hlt
    refine ⟨tab, hrun, hne, ?_⟩
    rw [int_of_nonneg, hval']
    apply sign_of_lt hne
    rw [hlen, ← pow_mul]
    calc 2 * value tab < 2 ^ (bits + 1) := by
          rw [pow_succ]
          omega
      _ ≤ 2 ^ (64 * (bits / 64 + 1)) := Nat.pow_le_pow_right (by omega) (by omega)

theorem le_digitBits {radix : Nat} (hr : IsRadix radix) (n : Nat) : n ≤ digitBits radix n := by
  rw [digitBits]
  by_cases h10 : radix = 10
  · rw [if_pos h10]
    omega
  · obtain ⟨l, hl, -, -, hlog⟩ := hr.log2 h10
    rw [if_neg h10, hlog]
    exact Nat.le_mul_of_pos_right _ hl

theorem number_lt_bits {radix : Nat} (hr : IsRadix radix) {p : List UInt8} (hp : ∀ d ∈ p, toDigit d < radix) :
    number radix p < 2 ^ digitBits radix p.length := by
  refine (number_lt hp).trans_le ?_
  rw [digitBits]
  by_cases h10 : radix = 10
  · rw [if_pos h10, h10]
    exact ten_pow_le _
  · obtain ⟨l, -, -, hrad, hlog⟩ := hr.log2 h10
    rw [if_neg h10, hlog, hrad, ← pow_mul, Nat.mul_comm]

/-- A number of `bits` bits fits in the block with its sign. -/
theorem fits_of_lt {v bits : Nat} (h : v < 2 ^ bits) : Fits 64 (bits / 64 + 1) v := by
  have hpow : 2 ^ (bits + 1) ≤ (2 ^ 64) ^ (bits / 64 + 1) := by
    rw [← pow_mul]
    exact Nat.pow_le_pow_right (by omega) (by omega)
  rw [pow_succ] at hpow
  rw [Fits]
  generalize (2 ^ 64) ^ (bits / 64 + 1) = size at hpow ⊢
  omega

theorem fromString_spec {radix : Nat} (hr : IsRadix radix) (isNeg : Bool) {ds : List UInt8}
    (hds : ∀ d ∈ ds, toDigit d < radix) :
    Ends (Answers ok) (fromString ((if isNeg then [45] else []) ++ ds) radix) (Refused ok (Large radix ds))
      fun r => ¬ Large radix ds ∧ Normal r ∧
        int r = if isNeg then - (number radix ds : Int) else number radix ds := by
  have hminus : toDigit 45 = 36 := rfl
  have hradix : radix ≤ 16 := by
    obtain rfl | rfl | rfl | rfl := hr <;> omega
  have hhead : (((if isNeg then [45] else []) ++ ds).headD 0 = 45) ↔ isNeg = true := by
    cases isNeg with
    | true => simp
    | false =>
      cases ds with
      | nil => simp
      | cons d ds =>
        have hd := hds d (by simp)
        simp only [Bool.false_eq_true, if_false, List.nil_append, List.headD_cons, iff_false]
        rintro rfl
        omega
  have htail : (if isNeg then ((if isNeg then [45] else []) ++ ds).tail else (if isNeg then [45] else []) ++ ds)
      = ds := by
    cases isNeg <;> simp
  unfold fromString
  simp only [hhead, htail]
  generalize hp : ds.dropWhile (· = 48) = p
  have hpd : ∀ d ∈ p, toDigit d < radix := by
    rw [← hp]
    exact fun d hd => hds d (List.dropWhile_sublist _ |>.subset hd)
  have hnum : number radix p = number radix ds := by rw [← hp, number_dropWhile]
  have hLarge : Large radix ds ↔ jsBigintMaxSize * 64 ≤ digitBits radix p.length := by rw [Large, hp]
  have hbits := le_digitBits hr p.length
  by_cases hlong : jsBigintMaxSize * 64 < p.length
  · rw [if_pos hlong]
    exact Ends.throw (.inr ⟨rfl, hLarge.mpr (by omega)⟩)
  rw [if_neg hlong, max_eq_right (by omega)]
  obtain ⟨tab, hrun, hne, hint⟩ := digits_spec hr hpd
  refine Ends.bind ((new_spec _).post (fun e he => he.mono fun h => hLarge.mpr (by omega)) fun _ h => h)
    fun _ hsize => ?_
  refine Ends.bind (Ends.ofOk (Q := fun r => r = tab) hrun rfl) fun r hr' => ?_
  subst hr'
  refine Ends.bind (normalize_spec hne) fun r' hr' => ?_
  obtain ⟨hnormal, hint', -⟩ := hr'
  have hvalue : int r' = number radix ds := by rw [hint', hint, hnum]
  have hfits : Fits 64 (digitBits radix p.length / 64 + 1) (int r') := by
    rw [hvalue, ← hnum]
    exact fits_of_lt (number_lt_bits hr hpd)
  have hlen := hnormal.length_le (by decide) (by omega) hfits
  have hsmall : ¬ Large radix ds := fun h => by
    have := hLarge.mp h
    omega
  cases isNeg with
  | true =>
    refine (neg_spec hnormal.1).post (fun e he => he.mono fun h => by omega) fun r'' hr'' => ?_
    exact ⟨hsmall, hr''.2.1, by rw [hr''.2.2, hvalue, if_pos rfl]⟩
  | false => exact Ends.ret ⟨hsmall, hnormal, by rw [hvalue]; rfl⟩

end BigInt

end InteropJs.QuickJS
