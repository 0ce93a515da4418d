import InteropJs.Lib.Limbs
import InteropJs.Engine.StringBuffer

/-!
# BigInts (`quickjs.c`)

A `JSBigInt` is a list of 64-bit limbs in two's complement, "always normalized so that `len` is the minimum
possible length". The functions here are those that the conversions from and to text need.

* A function ends with a `Fault` when the engine throws, when it has no memory, and also where the C code
  would leave a block (`bounds`) or fail an assertion; the results say that the last two never happen.
  Memory is asked for, as for the string buffers.
* `add_spec`: the sum or the difference is exact and normalized; `neg_spec` is the case that the
  conversions use. `add_then_sub`: a difference undoes a sum, limb for limb.
-/

namespace InteropJs.QuickJS

open Hoare Limbs

/-- `js_limb_t`. -/
abbrev Limb := BitVec 64

/-- `js_dlimb_t`. -/
abbrev DLimb := BitVec 128

inductive ErrorClass where
  | rangeError
  | syntaxError
  deriving DecidableEq

/-- How a function ends early. -/
inductive Fault where
  /-- A request of memory failed. -/
  | memory
  | thrown (cls : ErrorClass) (message : String)
  /-- A write outside of its block. -/
  | bounds
  | assertion
  deriving DecidableEq

/-- The fault of a BigInt over the size limit. -/
def tooLarge : Fault := .thrown .rangeError "BigInt is too large to allocate"

/-! ## Limbs -/

/-- `ADDC`: the sum and the carry out. -/
def addc (op1 op2 carry : Limb) : Limb × Limb :=
  let a := op1 + op2
  let k1 := a < op1
  let a1 := a + carry
  (a1, if a1 < carry ∨ k1 then 1 else 0)

/-- `ADDC` for limb after limb. -/
def addcAll : List Limb → List Limb → Limb → List Limb × Limb
  | x :: xs, y :: ys, carry =>
    let (z, carry) := addc x y carry
    let (zs, carry) := addcAll xs ys carry
    (z :: zs, carry)
  | _, _, carry => ([], carry)

/-- `mp_mul1`: `taba * b + l` and the high carry. -/
def mpMul1 : List Limb → Limb → Limb → List Limb × Limb
  | [], _, l => ([], l)
  | a :: taba, b, l =>
    let t : DLimb := a.setWidth 128 * b.setWidth 128 + l.setWidth 128
    let (tabr, h) := mpMul1 taba b ((t >>> 64).setWidth 64)
    (t.setWidth 64 :: tabr, h)

/-- `mp_div1`, from the high limb down: the quotient and the remainder. -/
def mpDiv1 : List Limb → Limb → Limb → List Limb × Limb
  | [], _, r => ([], r)
  | a :: taba, b, r =>
    let (tabr, r) := mpDiv1 taba b r
    let a1 : DLimb := (r.setWidth 128 <<< 64) ||| a.setWidth 128
    ((a1 / b.setWidth 128).setWidth 64 :: tabr, (a1 % b.setWidth 128).setWidth 64)

theorem addc_spec (x y k : Limb) (hk : k.toNat ≤ 1) :
    (addc x y k).1.toNat + 2 ^ 64 * (addc x y k).2.toNat = x.toNat + y.toNat + k.toNat ∧
      (addc x y k).2.toNat ≤ 1 := by
  have hx := x.isLt
  have hy := y.isLt
  simp only [addc, BitVec.lt_def, BitVec.toNat_add]
  by_cases h : ((x.toNat + y.toNat) % 2 ^ 64 + k.toNat) % 2 ^ 64 < k.toNat ∨
      (x.toNat + y.toNat) % 2 ^ 64 < x.toNat
  · rw [if_pos h, show (1 : Limb).toNat = 1 from rfl]
    omega
  · rw [if_neg h, show (0 : Limb).toNat = 0 from rfl]
    omega

theorem addcAll_length {xs ys : List Limb} (h : xs.length = ys.length) (k : Limb) :
    (addcAll xs ys k).1.length = xs.length := by
  induction xs generalizing ys k with
  | nil => rfl
  | cons x xs ih =>
    cases ys with
    | nil => simp at h
    | cons y ys => simp [addcAll, ih (by simpa using h)]

theorem addcAll_append {xs ys : List Limb} (h : xs.length = ys.length) (us vs : List Limb) (k : Limb) :
    addcAll (xs ++ us) (ys ++ vs) k =
      ((addcAll xs ys k).1 ++ (addcAll us vs (addcAll xs ys k).2).1,
        (addcAll us vs (addcAll xs ys k).2).2) := by
  induction xs generalizing ys k with
  | nil =>
    obtain rfl := List.length_eq_zero_iff.mp h.symm
    simp [addcAll]
  | cons x xs ih =>
    cases ys with
    | nil => simp at h
    | cons y ys => simp [addcAll, ih (by simpa using h)]

theorem addcAll_spec {xs ys : List Limb} (h : xs.length = ys.length) (k : Limb) (hk : k.toNat ≤ 1) :
    value (addcAll xs ys k).1 + (2 ^ 64) ^ xs.length * (addcAll xs ys k).2.toNat =
        value xs + value ys + k.toNat ∧
      (addcAll xs ys k).2.toNat ≤ 1 := by
  induction xs generalizing ys k with
  | nil =>
    obtain rfl := List.length_eq_zero_iff.mp h.symm
    simp [addcAll, hk]
  | cons x xs ih =>
    cases ys with
    | nil => simp at h
    | cons y ys =>
      obtain ⟨hsum, hcarry⟩ := addc_spec x y k hk
      obtain ⟨ihsum, ihcarry⟩ := ih (show xs.length = ys.length by simpa using h) (addc x y k).2 hcarry
      refine ⟨?_, ihcarry⟩
      simp only [addcAll, value_cons, List.length_cons]
      rw [pow_succ' (2 ^ 64) xs.length]
      linear_combination hsum + 2 ^ 64 * ihsum

/-- The double limb of a step of `mp_mul1` does not wrap around. -/
theorem mul_add_lt (a b l : Limb) : a.toNat * b.toNat + l.toNat < 2 ^ 128 := by
  have ha := a.isLt
  have hb := b.isLt
  have hl := l.isLt
  have hmul : a.toNat * b.toNat ≤ (2 ^ 64 - 1) * (2 ^ 64 - 1) := Nat.mul_le_mul (by omega) (by omega)
  omega

theorem mpMul1_length (tab : List Limb) (b l : Limb) : (mpMul1 tab b l).1.length = tab.length := by
  induction tab generalizing l with
  | nil => rfl
  | cons a tab ih => simp [mpMul1, ih]

/-- The limbs of a product. -/
theorem mul_add_limbs (a b l : Limb) :
    ((a.setWidth 128 * b.setWidth 128 + l.setWidth 128 : DLimb).setWidth 64 : Limb).toNat +
      2 ^ 64 * (((a.setWidth 128 * b.setWidth 128 + l.setWidth 128 : DLimb) >>> 64).setWidth 64 : Limb).toNat =
      a.toNat * b.toNat + l.toNat := by
  have hlt := mul_add_lt a b l
  have hmul : a.toNat * b.toNat < 2 ^ 128 := by omega
  have ha := a.isLt
  have hb := b.isLt
  have hl := l.isLt
  have ht : (a.setWidth 128 * b.setWidth 128 + l.setWidth 128 : DLimb).toNat =
      a.toNat * b.toNat + l.toNat := by
    rw [BitVec.toNat_add, BitVec.toNat_mul, BitVec.toNat_setWidth, BitVec.toNat_setWidth,
      BitVec.toNat_setWidth, Nat.mod_eq_of_lt (by omega : a.toNat < 2 ^ 128),
      Nat.mod_eq_of_lt (by omega : b.toNat < 2 ^ 128), Nat.mod_eq_of_lt (by omega : l.toNat < 2 ^ 128),
      Nat.mod_eq_of_lt hmul, Nat.mod_eq_of_lt hlt]
  rw [BitVec.toNat_setWidth, BitVec.toNat_setWidth, BitVec.toNat_ushiftRight, ht,
    Nat.shiftRight_eq_div_pow]
  omega

theorem mpMul1_spec (tab : List Limb) (b l : Limb) :
    value (mpMul1 tab b l).1 + (2 ^ 64) ^ tab.length * (mpMul1 tab b l).2.toNat =
      value tab * b.toNat + l.toNat := by
  induction tab generalizing l with
  | nil => simp [mpMul1]
  | cons a tab ih =>
    have hstep := mul_add_limbs a b l
    have hrest := ih (((a.setWidth 128 * b.setWidth 128 + l.setWidth 128 : DLimb) >>> 64).setWidth 64)
    simp only [mpMul1, value_cons, List.length_cons]
    rw [pow_succ' (2 ^ 64) tab.length]
    linear_combination hstep + 2 ^ 64 * hrest

theorem mpDiv1_length (tab : List Limb) (b r : Limb) : (mpDiv1 tab b r).1.length = tab.length := by
  induction tab with
  | nil => rfl
  | cons a tab ih => simp [mpDiv1, ih]

/-- A double limb of a step of `mp_div1`: the quotient fits in a limb. -/
theorem div_limbs {a b r : Limb} (hr : r.toNat < b.toNat) :
    (((r.setWidth 128 <<< 64 ||| a.setWidth 128 : DLimb) / b.setWidth 128).setWidth 64 : Limb).toNat * b.toNat +
        (((r.setWidth 128 <<< 64 ||| a.setWidth 128 : DLimb) % b.setWidth 128).setWidth 64 : Limb).toNat =
      2 ^ 64 * r.toNat + a.toNat ∧
    (((r.setWidth 128 <<< 64 ||| a.setWidth 128 : DLimb) % b.setWidth 128).setWidth 64 : Limb).toNat < b.toNat := by
  have ha := a.isLt
  have hb := b.isLt
  have hpos : 0 < b.toNat := by omega
  have ht : (r.setWidth 128 <<< 64 ||| a.setWidth 128 : DLimb).toNat = 2 ^ 64 * r.toNat + a.toNat := by
    rw [BitVec.toNat_or, BitVec.toNat_shiftLeft, BitVec.toNat_setWidth, BitVec.toNat_setWidth,
      Nat.mod_eq_of_lt (by omega : a.toNat < 2 ^ 128), Nat.mod_eq_of_lt (by omega : r.toNat < 2 ^ 128),
      Nat.shiftLeft_eq, Nat.mod_eq_of_lt (by omega), Nat.mul_comm, ← Nat.two_pow_add_eq_or_of_lt ha]
  have hq : (2 ^ 64 * r.toNat + a.toNat) / b.toNat < 2 ^ 64 := by
    rw [Nat.div_lt_iff_lt_mul hpos]
    nlinarith
  have hm := Nat.mod_lt (2 ^ 64 * r.toNat + a.toNat) hpos
  rw [BitVec.toNat_setWidth, BitVec.toNat_setWidth, BitVec.toNat_udiv, BitVec.toNat_umod, ht,
    BitVec.toNat_setWidth, Nat.mod_eq_of_lt (by omega : b.toNat < 2 ^ 128), Nat.mod_eq_of_lt hq,
    Nat.mod_eq_of_lt (by omega : (2 ^ 64 * r.toNat + a.toNat) % b.toNat < 2 ^ 64)]
  exact ⟨Nat.div_add_mod' _ _, hm⟩

theorem mpDiv1_spec (tab : List Limb) {b r : Limb} (hr : r.toNat < b.toNat) :
    value (mpDiv1 tab b r).1 * b.toNat + (mpDiv1 tab b r).2.toNat =
        (2 ^ 64) ^ tab.length * r.toNat + value tab ∧
      (mpDiv1 tab b r).2.toNat < b.toNat := by
  induction tab with
  | nil => simp [mpDiv1, hr]
  | cons a tab ih =>
    obtain ⟨hrest, hlt⟩ := ih
    obtain ⟨hstep, hstep'⟩ := div_limbs (a := a) hlt
    refine ⟨?_, hstep'⟩
    simp only [mpDiv1, value_cons, List.length_cons]
    rw [pow_succ' (2 ^ 64) tab.length]
    linear_combination hstep + 2 ^ 64 * hrest

/-- Dividing by a limb: the quotient and the remainder of the number. -/
theorem mpDiv1_eq (tab : List Limb) {b : Limb} (hb : 0 < b.toNat) :
    value (mpDiv1 tab b 0).1 = value tab / b.toNat ∧ (mpDiv1 tab b 0).2.toNat = value tab % b.toNat := by
  obtain ⟨hsum, hlt⟩ := mpDiv1_spec tab (r := 0) (by simpa using hb)
  rw [show (0 : Limb).toNat = 0 from rfl, Nat.mul_zero, Nat.zero_add] at hsum
  rw [← hsum, Nat.mul_add_mod_self_right, Nat.mod_eq_of_lt hlt, Nat.add_comm,
    Nat.add_mul_div_right _ _ hb, Nat.div_eq_of_lt hlt, Nat.zero_add]
  exact ⟨rfl, rfl⟩

/-! ## The functions -/

/-- `JS_BIGINT_MAX_SIZE`, in limbs. -/
def jsBigintMaxSize : Nat := 1024 * 1024 / 64

namespace BigInt

/-- `js_malloc`. -/
def malloc (bytes : Nat) : ExceptT Fault Alloc Unit := do
  match ← (ExceptT.lift (realloc bytes)) with
  | none => throw .memory
  | some _ => return ()

/-- The bytes of a `JSBigInt` with `len` limbs. -/
def bytes (len : Nat) : Nat := 8 + len * 8

/-- `js_bigint_new`: the block for `len` limbs. -/
def new (len : Nat) : ExceptT Fault Alloc Unit :=
  if jsBigintMaxSize < len then throw tooLarge else malloc (bytes len)

/-- The condition of `js_bigint_normalize1` and `js_bigint_extend`: the limb `v` says more than the sign of
the limb `u` below. -/
def needed (u v : Limb) : Bool := (v ≠ 0 && v ≠ -1) || v &&& 1 ≠ u >>> 63

/-- The length that the loop of `js_bigint_normalize1` leaves. -/
def normalizeLen (tab : List Limb) : Nat → Nat
  | l + 2 => if needed (tab.getD l 0) (tab.getD (l + 1) 0) then l + 2 else normalizeLen tab (l + 1)
  | l => l

/-- `js_bigint_normalize`; a block that cannot be made smaller is kept. -/
def normalize (a : List Limb) : ExceptT Fault Alloc (List Limb) := do
  let l := normalizeLen a a.length
  if l ≠ a.length then
    let _ ← (ExceptT.lift (realloc (bytes l)))
  return a.take l

/-- The top limb. -/
def top (a : List Limb) : Limb := a.getD (a.length - 1) 0

/-- `js_bigint_sign`, as a limb. -/
def sign (a : List Limb) : Limb := top a >>> 63

/-- `js_bigint_extend`. -/
def extend (r : List Limb) (op1 : Limb) : ExceptT Fault Alloc (List Limb) := do
  if needed (top r) op1 then
    malloc (bytes (r.length + 1))
    return r ++ [op1]
  else
    normalize r

/-- `js_bigint_add`: `a + b`, or `a - b` with `bNeg`. -/
def add (a b : List Limb) (bNeg : Bool) : ExceptT Fault Alloc (List Limb) := do
  let n2 := max a.length b.length
  let n1 := min a.length b.length
  new n2
  let flip : Limb := if bNeg then -1 else 0
  let op2 := b.map (· ^^^ flip)
  -- the common part, then the part with the sign of the shorter operand
  let lo := addcAll (a.take n1) (op2.take n1) (if bNeg then 1 else 0)
  let aSign := -sign a
  let bSign := -sign b ^^^ flip
  let hi :=
    if b.length < a.length then addcAll (a.drop n1) (List.replicate (n2 - n1) bSign) lo.2
    else if a.length < b.length then addcAll (List.replicate (n2 - n1) aSign) (op2.drop n1) lo.2
    else ([], lo.2)
  extend (lo.1 ++ hi.1) (aSign + bSign + hi.2)

/-- `js_bigint_neg`. -/
def neg (a : List Limb) : ExceptT Fault Alloc (List Limb) := add [0] a true

/-! ## What they compute -/

variable {ok : Prop}

/-- The exceptions of a function: a request that was refused, or a number that is too large. -/
def Refused (ok large : Prop) (e : Fault) : Prop :=
  e = .memory ∧ ¬ ok ∨ e = tooLarge ∧ large

theorem Refused.mono {p q : Prop} (h : p → q) {e : Fault} (he : Refused ok p e) : Refused ok q e :=
  he.imp id fun h' => ⟨h'.1, h h'.2⟩

theorem malloc_spec (n : Nat) (large : Prop) :
    Ends (Answers ok) (malloc n) (Refused ok large) fun _ => True := by
  refine Ends.bind (Ends.lift (realloc_spec n)) fun o ho => ?_
  cases o with
  | none => exact Ends.throw (.inl ⟨rfl, ho rfl⟩)
  | some slack => exact Ends.ret trivial

theorem new_spec (len : Nat) :
    Ends (Answers ok) (new len) (Refused ok (jsBigintMaxSize < len)) fun _ => len ≤ jsBigintMaxSize := by
  unfold new
  by_cases h : jsBigintMaxSize < len
  · rw [if_pos h]
    exact Ends.throw (.inr ⟨rfl, h⟩)
  · rw [if_neg h]
    exact (malloc_spec _ _).post (fun _ => id) fun _ _ => by omega

theorem ushiftRight_63 (u : Limb) : u >>> 63 = if u.msb then 1 else 0 := by
  apply BitVec.eq_of_toNat_eq
  have hu := u.isLt
  rw [BitVec.toNat_ushiftRight, Nat.shiftRight_eq_div_pow, BitVec.msb_eq_decide]
  by_cases h : 2 ^ 63 ≤ u.toNat
  · rw [if_pos (by simpa using h), show (1 : Limb).toNat = 1 from rfl]
    omega
  · rw [if_neg (by simpa using h), show (0 : Limb).toNat = 0 from rfl]
    omega

theorem needed_iff (u v : Limb) : needed u v = true ↔ v ≠ fill u := by
  rw [needed, fill, ushiftRight_63, Bool.or_eq_true, Bool.and_eq_true]
  simp only [decide_eq_true_eq]
  have hones : BitVec.allOnes 64 = (-1 : Limb) := rfl
  rw [hones]
  by_cases h0 : v = 0
  · subst h0
    cases u.msb <;> decide
  by_cases h1 : v = -1
  · subst h1
    cases u.msb <;> decide
  · cases u.msb
    · simp only [ne_eq, h0, h1, not_false_eq_true, and_self, true_or, Bool.false_eq_true, if_false]
    · simp only [ne_eq, h0, h1, not_false_eq_true, and_self, true_or, if_true]

theorem take_succ_getD {tab : List Limb} {l : Nat} (hl : l < tab.length) :
    tab.take (l + 1) = tab.take l ++ [tab.getD l 0] := by
  rw [List.take_add_one, List.getD_eq_getElem?_getD, List.getElem?_eq_getElem hl]
  rfl

/-- The loop of `js_bigint_normalize1` from any length on. -/
theorem normalizeLen_spec (tab : List Limb) (l : Nat) (hl : l + 1 ≤ tab.length) :
    Normal (tab.take (normalizeLen tab (l + 1))) ∧
      int (tab.take (normalizeLen tab (l + 1))) = int (tab.take (l + 1)) := by
  induction l with
  | zero =>
    rw [normalizeLen, take_succ_getD (by omega), List.take_zero, List.nil_append]
    · exact ⟨Normal.singleton _, rfl⟩
    · omega
  | succ l ih =>
    have htake : tab.take (l + 2) = tab.take l ++ [tab.getD l 0] ++ [tab.getD (l + 1) 0] := by
      rw [take_succ_getD (by omega), take_succ_getD (by omega)]
    rw [normalizeLen]
    by_cases h : needed (tab.getD l 0) (tab.getD (l + 1) 0) = true
    · rw [if_pos h, htake]
      exact ⟨Normal.concat ((needed_iff _ _).mp h), rfl⟩
    · rw [if_neg h]
      obtain ⟨hn, hi⟩ := ih (by omega)
      refine ⟨hn, hi.trans ?_⟩
      have hfill : tab.getD (l + 1) 0 = fill (tab.getD l 0) :=
        not_not.mp fun h' => h ((needed_iff _ _).mpr h')
      rw [htake, hfill, int_fill (by decide), take_succ_getD (by omega)]

theorem normalize_spec {a : List Limb} (ha : a ≠ []) {E : Fault → Prop} :
    Ends (Answers ok) (normalize a) E fun r => Normal r ∧ int r = int a ∧ r.length ≤ a.length := by
  have hlen := List.length_pos_iff.mpr ha
  have hres : Normal (a.take (normalizeLen a a.length)) ∧
      int (a.take (normalizeLen a a.length)) = int a ∧
      (a.take (normalizeLen a a.length)).length ≤ a.length := by
    obtain ⟨l, hl⟩ : ∃ l, a.length = l + 1 := ⟨a.length - 1, by omega⟩
    have h := normalizeLen_spec a l (by omega)
    rw [← hl, List.take_length] at h
    exact ⟨h.1, h.2, by simp⟩
  unfold normalize
  by_cases h : normalizeLen a a.length ≠ a.length
  · dsimp only
    rw [if_pos h]
    exact Ends.bind (Ends.lift (realloc_spec _)) fun _ _ => Ends.ret hres
  · dsimp only
    rw [if_neg h]
    exact Ends.ret hres

theorem top_concat (s : List Limb) (v : Limb) : top (s ++ [v]) = v := by
  simp [top, List.getD_eq_getElem?_getD]

theorem sign_eq {a : List Limb} (ha : a ≠ []) : sign a = if Limbs.sign a then 1 else 0 := by
  obtain ⟨s, v, rfl⟩ := exists_concat ha
  rw [sign, top_concat, ushiftRight_63, sign_concat]

/-- The limb `op1` goes on top, or its sign does not need it. -/
theorem extend_spec {r : List Limb} (hr : r ≠ []) (op1 : Limb) (large : Prop) :
    Ends (Answers ok) (extend r op1) (Refused ok large) fun r' =>
      Normal r' ∧ int r' = int (r ++ [op1]) ∧ r'.length ≤ r.length + 1 := by
  obtain ⟨s, u, rfl⟩ := exists_concat hr
  unfold extend
  rw [top_concat]
  by_cases h : needed u op1 = true
  · rw [if_pos h]
    refine Ends.bind (malloc_spec _ _) fun _ _ => Ends.ret ?_
    exact ⟨Normal.concat ((needed_iff _ _).mp h), rfl, by simp⟩
  · rw [if_neg h]
    have hfill : op1 = fill u := not_not.mp fun h' => h ((needed_iff _ _).mpr h')
    refine (normalize_spec (by simp)).post (fun _ => id) fun r' hr' => ?_
    rw [hfill, int_fill (by decide)]
    exact ⟨hr'.1, hr'.2.1, by omega⟩

/-! ### Sums -/

/-- The operand `b` of `js_bigint_add`, with all bits flipped for a difference. -/
def flipped (b : List Limb) (bNeg : Bool) : List Limb := b.map (· ^^^ if bNeg then -1 else 0)

theorem flipped_eq (b : List Limb) (bNeg : Bool) : flipped b bNeg = if bNeg then b.map (~~~ ·) else b := by
  cases bNeg
  · simp [flipped]
  · simp only [flipped, if_true]
    refine List.map_congr_left fun x _ => ?_
    rw [show (-1 : Limb) = BitVec.allOnes 64 from rfl, BitVec.xor_allOnes]

theorem int_flipped {b : List Limb} (hb : b ≠ []) (bNeg : Bool) :
    int (flipped b bNeg) + (if bNeg then 1 else 0) = if bNeg then - int b else int b := by
  rw [flipped_eq]
  cases bNeg
  · simp
  · simp only [if_true]
    rw [int_map_not (by decide) hb]
    ring

/-- The sign of an operand, repeated. -/
theorem signLimb {a : List Limb} (ha : a ≠ []) :
    -sign a = if Limbs.sign a then BitVec.allOnes 64 else 0 := by
  rw [sign_eq ha]
  cases Limbs.sign a <;> rfl

theorem signLimb_flipped {b : List Limb} (hb : b ≠ []) (bNeg : Bool) :
    -sign b ^^^ (if bNeg then -1 else 0) = if Limbs.sign (flipped b bNeg) then BitVec.allOnes 64 else 0 := by
  rw [signLimb hb, flipped_eq]
  cases bNeg
  · simp
  · simp only [if_true]
    rw [sign_map_not (by decide) hb]
    cases Limbs.sign b <;> decide

/-- The loops of `js_bigint_add` are one sum of the two operands with their signs repeated. -/
theorem add_loops (a op2 : List Limb) (x y k : Limb) :
    let n2 := max a.length op2.length
    let n1 := min a.length op2.length
    let lo := addcAll (a.take n1) (op2.take n1) k
    let hi :=
      if op2.length < a.length then addcAll (a.drop n1) (List.replicate (n2 - n1) y) lo.2
      else if a.length < op2.length then addcAll (List.replicate (n2 - n1) x) (op2.drop n1) lo.2
      else ([], lo.2)
    (lo.1 ++ hi.1, hi.2) =
      addcAll (a ++ List.replicate (n2 - a.length) x) (op2 ++ List.replicate (n2 - op2.length) y) k := by
  intro n2 n1 lo hi
  have hlen : (a.take n1).length = (op2.take n1).length := by simp [n1]
  obtain h | h | h := lt_trichotomy a.length op2.length
  · have hx : a ++ List.replicate (n2 - a.length) x = a.take n1 ++ List.replicate (n2 - n1) x := by
      simp [n1, n2, h.le]
    have hy : op2 ++ List.replicate (n2 - op2.length) y = op2.take n1 ++ op2.drop n1 := by
      simp [n2, h.le]
    rw [hx, hy, addcAll_append hlen]
    simp only [hi, if_neg (not_lt.mpr h.le), if_pos h, lo]
  · have hx : a ++ List.replicate (n2 - a.length) x = a.take n1 := by simp [n1, n2, h]
    have hy : op2 ++ List.replicate (n2 - op2.length) y = op2.take n1 := by simp [n1, n2, h]
    rw [hx, hy]
    simp only [hi, h, lt_irrefl, if_false, List.append_nil, lo]
  · have hx : a ++ List.replicate (n2 - a.length) x = a.take n1 ++ a.drop n1 := by
      simp [n2, h.le]
    have hy : op2 ++ List.replicate (n2 - op2.length) y = op2.take n1 ++ List.replicate (n2 - n1) y := by
      simp [n1, n2, h.le]
    rw [hx, hy, addcAll_append hlen]
    simp only [hi, if_pos h, lo]

/-- The limb above the sum: the two signs and the carry. -/
theorem toInt_signs (s t : Bool) {c : Limb} (hc : c.toNat ≤ 1) :
    ((if s then BitVec.allOnes 64 else 0) + (if t then BitVec.allOnes 64 else 0) + c : Limb).toInt =
      c.toNat - (if s then 1 else 0) - if t then 1 else 0 := by
  have hcases : c = 0 ∨ c = 1 := by
    by_cases h : c.toNat = 0
    · exact .inl (BitVec.eq_of_toNat_eq h)
    · exact .inr (BitVec.eq_of_toNat_eq (show c.toNat = 1 by omega))
  obtain rfl | rfl := hcases <;> cases s <;> cases t <;> decide

/-- The sum of two operands with their signs repeated up to `n` limbs. -/
theorem int_sum {a b : List Limb} {n : Nat} (ha : a.length ≤ n) (hb : b.length ≤ n) {k : Limb}
    (hk : k.toNat ≤ 1) {x y : Limb} (hx : x = if Limbs.sign a then BitVec.allOnes 64 else 0)
    (hy : y = if Limbs.sign b then BitVec.allOnes 64 else 0) {p : List Limb × Limb}
    (hp : p = addcAll (a ++ List.replicate (n - a.length) x) (b ++ List.replicate (n - b.length) y) k) :
    p.1.length = n ∧ int (p.1 ++ [x + y + p.2]) = int a + int b + k.toNat := by
  have hva := value_extend a (n - a.length)
  have hvb := value_extend b (n - b.length)
  rw [← hx, Nat.add_sub_cancel' ha] at hva
  rw [← hy, Nat.add_sub_cancel' hb] at hvb
  have hla : (a ++ List.replicate (n - a.length) x).length = n := by
    rw [List.length_append, List.length_replicate]
    omega
  have hlb : (b ++ List.replicate (n - b.length) y).length = n := by
    rw [List.length_append, List.length_replicate]
    omega
  have hlen := addcAll_length (hla.trans hlb.symm) k
  obtain ⟨hsum, hcarry⟩ := addcAll_spec (hla.trans hlb.symm) k hk
  rw [hla, ← hp] at hlen hsum
  rw [← hp] at hcarry
  have hsum' : (value p.1 : Int) + ((2 ^ 64) ^ n : Nat) * p.2.toNat =
      value (a ++ List.replicate (n - a.length) x) + value (b ++ List.replicate (n - b.length) y) +
        k.toNat := by
    exact_mod_cast hsum
  rw [hva, hvb] at hsum'
  refine ⟨hlen, ?_⟩
  rw [int_concat, hlen, hx, hy, toInt_signs _ _ hcarry]
  generalize (((2 ^ 64) ^ n : Nat) : Int) = q at hsum' ⊢
  have hscale : ∀ s : Bool, (if s then q else 0) = q * if s then 1 else 0 := by
    intro s
    cases s <;> simp
  rw [hscale, hscale] at hsum'
  linear_combination hsum'

theorem add_spec {a b : List Limb} (ha : a ≠ []) (hb : b ≠ []) (bNeg : Bool) :
    Ends (Answers ok) (add a b bNeg) (Refused ok (jsBigintMaxSize < max a.length b.length)) fun r =>
      max a.length b.length ≤ jsBigintMaxSize ∧ r.length ≤ max a.length b.length + 1 ∧ Normal r ∧
        int r = int a + if bNeg then - int b else int b := by
  have hlen : (flipped b bNeg).length = b.length := List.length_map _
  have hk : (if bNeg then 1 else 0 : Limb).toNat = if bNeg then 1 else 0 := by cases bNeg <;> rfl
  have hle : (if bNeg then 1 else 0 : Limb).toNat ≤ 1 := by cases bNeg <;> decide
  have hloops := add_loops a (flipped b bNeg) (-sign a) (-sign b ^^^ if bNeg then -1 else 0)
    (if bNeg then 1 else 0)
  dsimp only at hloops
  rw [hlen] at hloops
  obtain ⟨hsize, hint⟩ := int_sum (le_max_left _ _) (hlen.trans_le (le_max_right _ _)) hle
    (signLimb ha) (signLimb_flipped hb bNeg) (hloops.trans (by rw [hlen]))
  dsimp only at hsize hint
  refine Ends.bind (new_spec _) fun _ hmax => ?_
  refine (extend_spec (List.ne_nil_of_length_pos ?_) _ _).post (fun _ => id) fun r hr => ?_
  · exact hsize.symm ▸ lt_max_of_lt_left (List.length_pos_iff.mpr ha)
  · refine ⟨hmax, hsize ▸ hr.2.2, hr.1, hr.2.1.trans (hint.trans ?_)⟩
    have hflip := int_flipped hb bNeg
    rw [hk, ← hflip]
    cases bNeg
    · simp
    · simp only [if_true]
      push_cast
      ring

theorem neg_spec {a : List Limb} (ha : a ≠ []) :
    Ends (Answers ok) (neg a) (Refused ok (jsBigintMaxSize < a.length)) fun r =>
      a.length ≤ jsBigintMaxSize ∧ Normal r ∧ int r = - int a := by
  have hlen := List.length_pos_iff.mpr ha
  refine (add_spec (by simp) ha true).post (fun e he => ?_) fun r hr => ?_
  · rw [List.length_singleton, max_eq_right hlen] at he
    exact he
  · have h0 : int [(0 : Limb)] = 0 := by decide
    rw [h0, if_pos rfl, Int.zero_add, List.length_singleton, max_eq_right hlen] at hr
    exact ⟨hr.1, hr.2.2⟩

/-- What is added can be subtracted again, and the limbs are those of before. A sum can have a limb more than
`js_bigint_new` allows, and then it is no operand any more. -/
theorem add_then_sub {a b : List Limb} (ha : Normal a) (hb : Normal b) :
    EveryEnd (do
      let r ← add a b false
      add r b true)
      (fun ok => Refused ok (jsBigintMaxSize ≤ max a.length b.length)) (· = a) := by
  refine EveryEnd.of fun ok => ?_
  refine Ends.bind ((add_spec ha.1 hb.1 false).post (fun e he => he.mono le_of_lt) fun _ h => h)
    fun r hr => ?_
  obtain ⟨hmax, hlen, hnormal, hint⟩ := hr
  refine (add_spec hnormal.1 hb.1 true).post (fun e he => he.mono fun h => ?_) fun r' hr' => ?_
  · omega
  · apply Normal.unique (by decide) hr'.2.2.1 ha
    rw [hr'.2.2.2, hint, if_pos rfl, if_neg Bool.false_ne_true]
    ring

/-- The carry goes into a new limb, and back. -/
theorem add_then_sub_carry : ∃ r, (Asking.run plenty (ExceptT.run do
    let r ← add [0x7fffffffffffffff] [1] false
    add r [1] true) ()).1 = .ok r ∧ r = [0x7fffffffffffffff] := by
  refine EveryEnd.plenty (add_then_sub (Normal.singleton _) (Normal.singleton _)) fun e he => ?_
  obtain ⟨-, hno⟩ | ⟨-, hlarge⟩ := he
  · exact hno trivial
  · exact absurd hlarge (by decide)

end BigInt

end InteropJs.QuickJS
