import Mathlib.Data.Nat.Digits.Lemmas
import Mathlib.Tactic.LinearCombination

/-!
# Numbers in limbs

A number is a list of words of `w` bits, the lowest first.

* `value` reads the list as a natural number, `int` in two's complement, with the sign in the top bit of
  the last limb.
* `Normal`: the last limb does not only repeat the sign of the limb below. Two normal lists of one number
  are the same list (`Normal.unique`), and `ofInt` gives the limbs of a number.
* `value_set` and `value_bits` are what a loop over the bits of a number writes and reads; `low` are the
  digits that a loop of divisions writes.
-/

namespace Limbs

variable {w : Nat}

/-! ## Natural numbers -/

/-- The number of a list of limbs. -/
def value (tab : List (BitVec w)) : Nat := Nat.ofDigits (2 ^ w) (tab.map BitVec.toNat)

@[simp] theorem value_nil : value ([] : List (BitVec w)) = 0 := rfl

@[simp] theorem value_cons (x : BitVec w) (tab : List (BitVec w)) :
    value (x :: tab) = x.toNat + 2 ^ w * value tab := Nat.ofDigits_cons

theorem value_append (s t : List (BitVec w)) : value (s ++ t) = value s + (2 ^ w) ^ s.length * value t := by
  rw [value, List.map_append, Nat.ofDigits_append, List.length_map]
  rfl

theorem value_concat (s : List (BitVec w)) (v : BitVec w) :
    value (s ++ [v]) = value s + (2 ^ w) ^ s.length * v.toNat := by
  rw [value_append]
  simp

theorem value_lt (tab : List (BitVec w)) : value tab < (2 ^ w) ^ tab.length := by
  induction tab with
  | nil => simp
  | cons x tab ih =>
    have hx := x.isLt
    rw [value_cons, List.length_cons, pow_succ']
    calc x.toNat + 2 ^ w * value tab < 2 ^ w + 2 ^ w * value tab := by omega
      _ = 2 ^ w * (value tab + 1) := by ring
      _ ≤ 2 ^ w * (2 ^ w) ^ tab.length := Nat.mul_le_mul_left _ ih

theorem value_injective {s t : List (BitVec w)} (hlen : s.length = t.length) (h : value s = value t) :
    s = t := by
  induction s generalizing t with
  | nil =>
    exact (List.length_eq_zero_iff.mp hlen.symm).symm
  | cons x s ih =>
    cases t with
    | nil => simp at hlen
    | cons y t =>
      rw [value_cons, value_cons] at h
      have hx := x.isLt
      have hy := y.isLt
      have hmod := congrArg (· % 2 ^ w) h
      have hdiv := congrArg (· / 2 ^ w) h
      simp only [Nat.add_mul_mod_self_left, Nat.mod_eq_of_lt hx, Nat.mod_eq_of_lt hy] at hmod
      simp only [Nat.add_mul_div_left _ _ (Nat.two_pow_pos w), Nat.div_eq_of_lt hx,
        Nat.div_eq_of_lt hy, Nat.zero_add] at hdiv
      rw [BitVec.eq_of_toNat_eq hmod, ih (by simpa using hlen) hdiv]

@[simp] theorem value_replicate_zero (n : Nat) : value (List.replicate n 0#w) = 0 := by
  induction n with
  | zero => rfl
  | succ n ih => simp [List.replicate_succ, ih]

theorem value_replicate_allOnes (n : Nat) :
    value (List.replicate n (BitVec.allOnes w)) + 1 = (2 ^ w) ^ n := by
  induction n with
  | zero => rfl
  | succ n ih =>
    have hpos := Nat.two_pow_pos w
    rw [List.replicate_succ, value_cons, BitVec.toNat_allOnes, pow_succ', ← ih, Nat.mul_add]
    omega

/-- A limb and its complement have all bits. -/
theorem value_map_not (tab : List (BitVec w)) :
    value (tab.map (~~~ ·)) + value tab + 1 = (2 ^ w) ^ tab.length := by
  induction tab with
  | nil => rfl
  | cons x tab ih =>
    have hx := x.isLt
    rw [List.map_cons, value_cons, value_cons, List.length_cons, pow_succ', ← ih, BitVec.toNat_not]
    simp only [Nat.mul_add, Nat.mul_one]
    omega

/-! ## One limb of a number -/

theorem value_set {tab : List (BitVec w)} {i : Nat} (hi : i < tab.length) (x : BitVec w) :
    value (tab.set i x) + (2 ^ w) ^ i * (tab.getD i 0).toNat = value tab + (2 ^ w) ^ i * x.toNat := by
  induction tab generalizing i with
  | nil => simp at hi
  | cons y tab ih =>
    cases i with
    | zero => simp; omega
    | succ i =>
      have h := ih (i := i) (by simpa using hi)
      rw [List.set_cons_succ, value_cons, value_cons, List.getD_cons_succ, pow_succ', Nat.mul_assoc,
        Nat.mul_assoc, Nat.add_assoc, Nat.add_assoc, ← Nat.mul_add, ← Nat.mul_add, h]

theorem value_drop (tab : List (BitVec w)) (i : Nat) : value tab / (2 ^ w) ^ i = value (tab.drop i) := by
  induction tab generalizing i with
  | nil => simp
  | cons x tab ih =>
    cases i with
    | zero => simp
    | succ i =>
      have hx := x.isLt
      rw [value_cons, List.drop_succ_cons, ← ih, pow_succ', ← Nat.div_div_eq_div_mul,
        Nat.add_mul_div_left _ _ (Nat.two_pow_pos w), Nat.div_eq_of_lt hx, Nat.zero_add]

theorem value_eq_getD (tab : List (BitVec w)) :
    value tab = (tab.getD 0 0).toNat + 2 ^ w * value (tab.drop 1) := by
  cases tab <;> simp

/-- The limb at `i` and those above. -/
theorem value_from (tab : List (BitVec w)) (i : Nat) :
    value tab / (2 ^ w) ^ i = (tab.getD i 0).toNat + 2 ^ w * (value tab / (2 ^ w) ^ (i + 1)) := by
  rw [value_drop, value_drop, value_eq_getD, List.drop_drop, List.getD_eq_getElem?_getD,
    List.getElem?_drop, ← List.getD_eq_getElem?_getD, Nat.add_zero]

/-- The limb at `i`, in a number that does not go beyond it. -/
theorem getD_of_lt {tab : List (BitVec w)} {i : Nat} (h : value tab < (2 ^ w) ^ (i + 1)) :
    (tab.getD i 0).toNat = value tab / (2 ^ w) ^ i := by
  rw [value_from, Nat.div_eq_of_lt h, Nat.mul_zero, Nat.add_zero]

/-! ## Integers -/

/-- The top bit of the last limb. -/
def sign (tab : List (BitVec w)) : Bool := (tab.getLast?.getD 0).msb

/-- The number of a list of limbs in two's complement. -/
def int (tab : List (BitVec w)) : Int :=
  value tab - if sign tab then (((2 ^ w) ^ tab.length : Nat) : Int) else 0

@[simp] theorem sign_concat (s : List (BitVec w)) (v : BitVec w) : sign (s ++ [v]) = v.msb := by
  simp [sign]

theorem int_concat (s : List (BitVec w)) (v : BitVec w) :
    int (s ++ [v]) = value s + ((2 ^ w) ^ s.length : Nat) * v.toInt := by
  rw [int, sign_concat, value_concat, BitVec.toInt_eq_msb_cond, List.length_append, List.length_singleton,
    pow_succ]
  by_cases hv : v.msb = true
  · simp only [hv, if_true]
    push_cast
    ring
  · simp only [hv]
    push_cast
    ring

theorem value_eq_int (tab : List (BitVec w)) :
    (value tab : Int) = int tab + if sign tab then (((2 ^ w) ^ tab.length : Nat) : Int) else 0 := by
  rw [int]
  ring

theorem int_nonneg_iff (tab : List (BitVec w)) : 0 ≤ int tab ↔ sign tab = false := by
  have hlt := value_lt tab
  rw [int]
  cases sign tab
  · simp
  · simp only [if_true]
    constructor
    · intro h
      omega
    · intro h
      cases h

theorem int_of_nonneg {tab : List (BitVec w)} (h : sign tab = false) : int tab = value tab := by
  rw [int, h]
  simp

/-- What fits in `n` limbs. -/
def Fits (w n : Nat) (i : Int) : Prop := -((2 ^ w) ^ n : Nat) ≤ 2 * i ∧ 2 * i < ((2 ^ w) ^ n : Nat)

theorem Fits.mono {n m : Nat} {i : Int} (h : Fits w n i) (hm : n ≤ m) : Fits w m i := by
  have hle : (2 ^ w) ^ n ≤ (2 ^ w) ^ m := Nat.pow_le_pow_right (Nat.two_pow_pos w) hm
  have h1 := h.1
  have h2 := h.2
  exact ⟨by omega, by omega⟩

theorem exists_concat {tab : List (BitVec w)} (h : tab ≠ []) : ∃ s v, tab = s ++ [v] :=
  ⟨_, _, (List.dropLast_append_getLast h).symm⟩

/-- A signed limb takes half of the range to each side. -/
theorem two_mul_toInt (hw : 0 < w) (v : BitVec w) : -(2 ^ w : Int) ≤ 2 * v.toInt ∧ 2 * v.toInt + 2 ≤ 2 ^ w := by
  obtain ⟨k, rfl⟩ := Nat.exists_eq_add_of_le' hw
  have h1 := BitVec.le_two_mul_toInt (x := v)
  have h2 := BitVec.two_mul_toInt_lt (x := v)
  rw [pow_succ] at h1 h2 ⊢
  omega

theorem int_fits (hw : 0 < w) {tab : List (BitVec w)} (hne : tab ≠ []) : Fits w tab.length (int tab) := by
  obtain ⟨s, v, rfl⟩ := exists_concat hne
  obtain ⟨h1, h2⟩ := two_mul_toInt hw v
  have hs : (value s : Int) + 1 ≤ ((2 ^ w) ^ s.length : Nat) := by exact_mod_cast value_lt s
  rw [Fits, int_concat, List.length_append, List.length_singleton, pow_succ]
  generalize (2 ^ w) ^ s.length = p at hs ⊢
  have hp : (0 : Int) ≤ p := Int.natCast_nonneg p
  have hlo := mul_le_mul_of_nonneg_left h1 hp
  have hhi := mul_le_mul_of_nonneg_left h2 hp
  push_cast
  constructor
  · linarith [Int.natCast_nonneg (value s)]
  · linarith

/-- The sign repeated in `k` more limbs. -/
theorem value_extend (tab : List (BitVec w)) (k : Nat) :
    (value (tab ++ List.replicate k (if sign tab then BitVec.allOnes w else 0)) : Int) =
      int tab + if sign tab then (((2 ^ w) ^ (tab.length + k) : Nat) : Int) else 0 := by
  rw [value_append, int, pow_add]
  cases sign tab
  · simp
  · have h : (value (List.replicate k (BitVec.allOnes w)) : Int) + 1 = ((2 ^ w) ^ k : Nat) := by
      exact_mod_cast value_replicate_allOnes (w := w) k
    simp only [if_true]
    rw [Nat.cast_mul ((2 ^ w) ^ tab.length) ((2 ^ w) ^ k), ← h]
    push_cast
    ring

theorem sign_map_not (hw : 0 < w) {tab : List (BitVec w)} (hne : tab ≠ []) :
    sign (tab.map (~~~ ·)) = !sign tab := by
  obtain ⟨s, v, rfl⟩ := exists_concat hne
  rw [List.map_append, List.map_singleton, sign_concat, sign_concat, BitVec.msb_not]
  simp [hw]

theorem int_map_not (hw : 0 < w) {tab : List (BitVec w)} (hne : tab ≠ []) :
    int (tab.map (~~~ ·)) = - int tab - 1 := by
  have hval : (value (tab.map (~~~ ·)) : Int) + value tab + 1 = ((2 ^ w) ^ tab.length : Nat) := by
    exact_mod_cast value_map_not tab
  rw [int, sign_map_not hw hne, List.length_map, int]
  cases sign tab
  · simp only [Bool.not_false, if_true, Bool.false_eq_true, if_false]
    linarith
  · simp only [Bool.not_true, if_true, Bool.false_eq_true, if_false]
    linarith

theorem Fits.unique {n : Nat} {i j : Int} (hi : Fits w n i) (hj : Fits w n j)
    (h : (((2 ^ w) ^ n : Nat) : Int) ∣ i - j) : i = j := by
  obtain ⟨k, hk⟩ := h
  obtain ⟨hi1, hi2⟩ := hi
  obtain ⟨hj1, hj2⟩ := hj
  generalize (((2 ^ w) ^ n : Nat) : Int) = p at *
  have hk0 : k = 0 := by
    by_contra hne
    obtain hneg | hpos := lt_or_gt_of_ne hne
    · nlinarith
    · nlinarith
  rw [hk0] at hk
  linarith

/-- The lowest `n` limbs of an integer. -/
def ofInt (w : Nat) : Nat → Int → List (BitVec w)
  | 0, _ => []
  | n + 1, i => BitVec.ofInt w i :: ofInt w n (i / 2 ^ w)

@[simp] theorem ofInt_length (n : Nat) (i : Int) : (ofInt w n i).length = n := by
  induction n generalizing i with
  | zero => rfl
  | succ n ih => simp [ofInt, ih]

/-- The limbs differ from the integer by a multiple of their range. -/
theorem value_ofInt (n : Nat) (i : Int) : (((2 ^ w) ^ n : Nat) : Int) ∣ (value (ofInt w n i) : Int) - i := by
  induction n generalizing i with
  | zero => simp
  | succ n ih =>
    obtain ⟨k, hk⟩ := ih (i / 2 ^ w)
    refine ⟨k, ?_⟩
    have hlow : ((BitVec.ofInt w i).toNat : Int) = i % 2 ^ w := by
      rw [BitVec.toNat_ofInt, Int.toNat_of_nonneg (Int.emod_nonneg _ (by positivity))]
      push_cast
      rfl
    have hdiv := Int.emod_add_mul_ediv i (2 ^ w)
    rw [ofInt, value_cons]
    push_cast at hk ⊢
    rw [hlow]
    linear_combination (2 ^ w : Int) * hk + hdiv

theorem int_ofInt (hw : 0 < w) {n : Nat} (hn : 0 < n) {i : Int} (h : Fits w n i) : int (ofInt w n i) = i := by
  have hne : ofInt w n i ≠ [] := List.ne_nil_of_length_pos (by rwa [ofInt_length])
  have hfits := int_fits hw hne
  rw [ofInt_length] at hfits
  apply hfits.unique h
  have hval := value_eq_int (ofInt w n i)
  rw [ofInt_length] at hval
  obtain ⟨k, hk⟩ := value_ofInt (w := w) n i
  rw [hval] at hk
  refine ⟨k - if sign (ofInt w n i) then 1 else 0, ?_⟩
  cases hs : sign (ofInt w n i) with
  | false =>
    rw [hs] at hk
    simp only [Bool.false_eq_true, if_false] at hk ⊢
    linarith
  | true =>
    rw [hs] at hk
    simp only [if_true] at hk ⊢
    linarith

/-! ## Normal form -/

/-- The limb that repeats the sign of `u`. -/
def fill (u : BitVec w) : BitVec w := if u.msb then BitVec.allOnes w else 0

theorem toInt_fill (hw : 0 < w) (u : BitVec w) : (fill u).toInt = if u.msb then -1 else 0 := by
  rw [fill]
  cases u.msb
  · simp
  · simp [BitVec.toInt_allOnes, hw]

/-- The limb only repeats the sign. -/
theorem int_fill (hw : 0 < w) (s : List (BitVec w)) (u : BitVec w) :
    int (s ++ [u] ++ [fill u]) = int (s ++ [u]) := by
  rw [int_concat, toInt_fill hw, int, sign_concat]
  cases u.msb
  · simp
  · simp only [if_true]
    ring

/-- Every other limb goes out of the range of the limbs below. -/
theorem not_fits_of_ne_fill (hw : 0 < w) (s : List (BitVec w)) {u v : BitVec w} (h : v ≠ fill u) :
    ¬ Fits w (s ++ [u]).length (int (s ++ [u] ++ [v])) := by
  have hlt : (value (s ++ [u]) : Int) + 1 ≤ ((2 ^ w) ^ (s ++ [u]).length : Nat) := by
    exact_mod_cast value_lt (s ++ [u])
  have hu := int_fits hw (List.concat_ne_nil u s)
  have hval := value_eq_int (s ++ [u])
  rw [sign_concat] at hval
  have hv : v.toInt ≠ if u.msb then -1 else 0 := by
    rw [← toInt_fill hw]
    exact fun h' => h (BitVec.eq_of_toInt_eq h')
  rw [int_concat]
  rintro ⟨hlo, hhi⟩
  obtain ⟨ulo, uhi⟩ := hu
  generalize (((2 ^ w) ^ (s ++ [u]).length : Nat) : Int) = p at *
  have hp : 0 < p := by linarith [Int.natCast_nonneg (value (s ++ [u]))]
  by_cases hneg : v.toInt ≤ -2
  · have := mul_le_mul_of_nonneg_left hneg hp.le
    linarith
  by_cases hpos : 1 ≤ v.toInt
  · have := mul_le_mul_of_nonneg_left hpos hp.le
    linarith [Int.natCast_nonneg (value (s ++ [u]))]
  cases hm : u.msb with
  | false =>
    rw [hm] at hv hval
    have : v.toInt = -1 := by simp at hv; omega
    rw [this] at hlo hhi
    simp at hval
    linarith
  | true =>
    rw [hm] at hv hval
    have : v.toInt = 0 := by simp at hv; omega
    rw [this] at hlo hhi
    simp at hval
    linarith

/-- No limb is there only for the sign. -/
def Normal (tab : List (BitVec w)) : Prop := tab ≠ [] ∧ ∀ s u v, tab = s ++ [u] ++ [v] → v ≠ fill u

theorem Normal.singleton (v : BitVec w) : Normal [v] := by
  refine ⟨by simp, fun s u v' h => ?_⟩
  have := congrArg List.length h
  simp at this

theorem Normal.concat {s : List (BitVec w)} {u v : BitVec w} (h : v ≠ fill u) : Normal (s ++ [u] ++ [v]) := by
  refine ⟨by simp, fun s' u' v' h' => ?_⟩
  obtain ⟨h1, h2⟩ := List.append_inj' h' rfl
  obtain ⟨-, h3⟩ := List.append_inj' h1 rfl
  cases h2
  cases h3
  exact h

/-- A normal list is not longer than the number needs. -/
theorem Normal.length_le (hw : 0 < w) {tab : List (BitVec w)} (h : Normal tab) {n : Nat} (hn : 0 < n)
    (hfit : Fits w n (int tab)) : tab.length ≤ n := by
  by_contra hlt
  obtain ⟨t, v, rfl⟩ := exists_concat h.1
  rw [List.length_append, List.length_singleton] at hlt
  obtain ⟨s, u, rfl⟩ := exists_concat (show t ≠ [] by rintro rfl; simp at hlt; omega)
  exact not_fits_of_ne_fill hw s (h.2 s u v rfl) (hfit.mono (by omega))

/-- The normal form of a number. -/
theorem Normal.unique (hw : 0 < w) {s t : List (BitVec w)} (hs : Normal s) (ht : Normal t)
    (h : int s = int t) : s = t := by
  have hlen : s.length = t.length := by
    have h1 := hs.length_le hw (List.length_pos_iff.mpr ht.1) (h ▸ int_fits hw ht.1)
    have h2 := ht.length_le hw (List.length_pos_iff.mpr hs.1) (h ▸ int_fits hw hs.1)
    omega
  have hsign : sign s = sign t := by
    have h1 := int_nonneg_iff s
    have h2 := int_nonneg_iff t
    rw [h, h2] at h1
    cases hs' : sign s <;> cases ht' : sign t <;> simp_all
  apply value_injective hlen
  have := value_eq_int s
  rw [h, hsign, hlen, ← value_eq_int t] at this
  exact_mod_cast this

/-! ## Digits -/

/-- The bits of a number from bit `w * i + shift` on lie in two limbs. -/
theorem value_bits (tab : List (BitVec w)) (i : Nat) {shift l : Nat} (hs : shift ≤ w) (hl : l ≤ w) :
    value tab / 2 ^ (w * i + shift) % 2 ^ l =
      ((tab.getD i 0).toNat / 2 ^ shift + 2 ^ (w - shift) * (tab.getD (i + 1) 0).toNat) % 2 ^ l := by
  have hw : 2 ^ w = 2 ^ shift * 2 ^ (w - shift) := by rw [← pow_add, Nat.add_sub_cancel' hs]
  have hl' : 2 ^ w = 2 ^ l * 2 ^ (w - l) := by rw [← pow_add, Nat.add_sub_cancel' hl]
  rw [pow_add, pow_mul, ← Nat.div_div_eq_div_mul, value_from, value_from tab (i + 1)]
  generalize value tab / (2 ^ w) ^ (i + 1 + 1) = rest
  generalize (tab.getD i 0).toNat = x
  generalize (tab.getD (i + 1) 0).toNat = y
  have hdiv : (x + 2 ^ w * (y + 2 ^ w * rest)) / 2 ^ shift
      = x / 2 ^ shift + 2 ^ (w - shift) * y + 2 ^ l * (2 ^ (w - l) * (2 ^ (w - shift) * rest)) := by
    calc (x + 2 ^ w * (y + 2 ^ w * rest)) / 2 ^ shift
        = (x + 2 ^ shift * (2 ^ (w - shift) * (y + 2 ^ w * rest))) / 2 ^ shift := by
          nth_rewrite 1 [hw]
          rw [Nat.mul_assoc]
      _ = x / 2 ^ shift + 2 ^ (w - shift) * (y + 2 ^ w * rest) :=
          Nat.add_mul_div_left _ _ (Nat.two_pow_pos shift)
      _ = _ := by
          rw [hl']
          ring
  rw [hdiv, Nat.add_mul_mod_self_left]

/-- The lowest `k` digits, the lowest first. -/
def low (b : Nat) : Nat → Nat → List Nat
  | 0, _ => []
  | k + 1, n => n % b :: low b k (n / b)

@[simp] theorem low_length (b k n : Nat) : (low b k n).length = k := by
  induction k generalizing n with
  | zero => rfl
  | succ k ih => simp [low, ih]

theorem low_lt {b : Nat} (hb : 0 < b) (k n : Nat) : ∀ d ∈ low b k n, d < b := by
  induction k generalizing n with
  | zero => simp [low]
  | succ k ih =>
    intro d hd
    rw [low, List.mem_cons] at hd
    obtain rfl | hd := hd
    · exact Nat.mod_lt _ hb
    · exact ih _ d hd

theorem low_mod {b : Nat} (k n : Nat) : low b k (n % b ^ k) = low b k n := by
  induction k generalizing n with
  | zero => rfl
  | succ k ih =>
    rw [low, low, pow_succ', Nat.mod_mul_right_mod, Nat.mod_mul_right_div_self, ih]

/-- The digits of a number are the lowest `k` of them and the digits of the rest. -/
theorem digits_low {b : Nat} (hb : 1 < b) {k n : Nat} (hn : n / b ^ k ≠ 0) :
    Nat.digits b n = low b k n ++ Nat.digits b (n / b ^ k) := by
  induction k generalizing n with
  | zero => simp [low]
  | succ k ih =>
    rw [pow_succ', ← Nat.div_div_eq_div_mul] at hn ⊢
    have hpos : n ≠ 0 := by
      rintro rfl
      simp at hn
    rw [Nat.digits_eq_cons_digits_div hb hpos, low, List.cons_append, ih hn]

theorem low_eq_digits {b : Nat} (hb : 1 < b) {k n : Nat} (hk : (Nat.digits b n).length = k) :
    low b k n = Nat.digits b n := by
  induction k generalizing n with
  | zero => rw [List.length_eq_zero_iff.mp hk, low]
  | succ k ih =>
    have hpos : n ≠ 0 := by
      rintro rfl
      simp at hk
    rw [Nat.digits_eq_cons_digits_div hb hpos] at hk ⊢
    rw [low, ih (by simpa using hk)]

end Limbs
