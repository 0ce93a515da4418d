import InteropJs.Engine.ToDigits

/-!
# `BigInt` of a string (`quickjs.c`, `libunicode.c`)

The function `BigInt` of a string goes through `JS_StringToBigInt`: the string becomes UTF-8, white space is
skipped on both sides, and `js_atof` reads a sign, a prefix and digits.

* `Literal` is the grammar that this implements, on code points. A text has at most one integer
  (`Literal.unique`).
* `string_to_bigint`: the outcome for every string, the `SyntaxError` and the `RangeError` included.
* `bigint_text_bigint`: a BigInt is its text in radix 10 read back, limb for limb.
-/

namespace InteropJs.QuickJS

open Hoare Limbs

/-! ## The functions -/

/-- The bytes with `UNICODE_C_SPACE` in `lre_ctype_bits`. -/
def lreIsSpaceByte (c : Nat) : Bool := (0x09 ≤ c && c ≤ 0x0D) || c = 0x20 || c = 0xA0

/-- `char_range_s` from its index 5 on: the first code point of a range, and the one after it. -/
def charRangeS : List (Nat × Nat) :=
  [(0x00A0, 0x00A0 + 1), (0x1680, 0x1680 + 1), (0x2000, 0x200A + 1), (0x2028, 0x2029 + 1),
    (0x202F, 0x202F + 1), (0x205F, 0x205F + 1), (0x3000, 0x3000 + 1), (0xFEFF, 0xFEFF + 1)]

/-- `lre_is_space_non_ascii`. -/
def lreIsSpaceNonAscii (c : Nat) : List (Nat × Nat) → Bool
  | [] => false
  | (low, high) :: ranges =>
    if c < low then false else if c < high then true else lreIsSpaceNonAscii c ranges

/-- `lre_is_space`. -/
def lreIsSpace (c : Nat) : Bool := if c < 256 then lreIsSpaceByte c else lreIsSpaceNonAscii c charRangeS

/-- `skip_spaces`: the text behind the white space, with at least as much fuel as bytes. -/
def skipSpacesFuel : Nat → List UInt8 → List UInt8
  | _, [] => []
  | 0, p => p
  | n + 1, b :: p =>
    if b.toNat < 128 then
      if (0x09 ≤ b.toNat ∧ b.toNat ≤ 0x0d) ∨ b.toNat = 0x20 then skipSpacesFuel n p else b :: p
    else
      match unicodeFromUtf8 (b :: p) with
      | some (c, next) => if lreIsSpace c then skipSpacesFuel n next else b :: p
      | none => b :: p

def skipSpaces (p : List UInt8) : List UInt8 := skipSpacesFuel p.length p

/-- The radix of the letter of a prefix. -/
def prefixRadix (b : UInt8) : Option Nat :=
  if b = 120 ∨ b = 88 then some 16
  else if b = 111 ∨ b = 79 then some 8
  else if b = 98 ∨ b = 66 then some 2
  else none

/-- What `js_atof` reads in front of the digits, with the flags of `JS_StringToBigInt`: whether there is a
minus sign, the radix and the rest of the text. A prefix does not follow a sign. -/
def atofHead (p : List UInt8) : Bool × Nat × List UInt8 :=
  if p.headD 0 = 43 then (false, 10, p.tail)
  else if p.headD 0 = 45 then (true, 10, p.tail)
  else if p.headD 0 = 48 then
    match prefixRadix (p.tail.headD 0) with
    | some radix => (false, radix, p.tail.tail)
    | none => (false, 10, p)
  else (false, 10, p)

/-- `JS_CompactBigInt`. -/
def compactBigInt (p : List Limb) : BigIntVal := if p.length = 1 then .short (p.getD 0 0) else .long p

/-- `js_atof` with radix 0 and the flags `ATOD_INT_ONLY | ATOD_ACCEPT_BIN_OCT | ATOD_TYPE_BIG_INT`: the
value, nothing for `JS_NAN`, and the rest of the text. Up to 62 bytes are copied to a buffer of the stack. -/
def atof (str : List UInt8) : ExceptT Fault Alloc (Option BigIntVal × List UInt8) := do
  let (isNeg, radix, p) := atofHead str
  let ds := p.takeWhile (toDigit · < radix)
  let rest := p.dropWhile (toDigit · < radix)
  if ds.length = 0 then
    return (none, rest)
  if 64 < ds.length + 2 then
    BigInt.malloc (ds.length + 2)
  let r ← BigInt.fromString ((if isNeg then [45] else []) ++ ds.filter (· ≠ 95)) radix
  return (some (compactBigInt r), rest)

/-- `JS_StringToBigInt`; nothing is `JS_NAN`. -/
def stringToBigInt (val : JSString) : ExceptT Fault Alloc (Option BigIntVal) := do
  match ← (ExceptT.lift (toCStringLen2 val false)) with
  | none => throw .memory
  | some str =>
    let p := skipSpaces str.bytes
    if p.length = 0 then
      return some (.short 0)
    let (res, p) ← atof p
    if (skipSpaces p).length ≠ 0 then return none else return res

/-- The fault of a text that is no literal. -/
def invalidLiteral : Fault := .thrown .syntaxError "invalid bigint literal"

/-- `JS_StringToBigIntErr`, which is `BigInt` of a string. -/
def stringToBigIntErr (val : JSString) : ExceptT Fault Alloc BigIntVal := do
  match ← stringToBigInt val with
  | none => throw invalidLiteral
  | some v => return v

/-! ## The grammar -/

/-- A white space or a line terminator. -/
def IsSpace (c : Nat) : Prop :=
  (0x09 ≤ c ∧ c ≤ 0x0D) ∨ c = 0x20 ∨ c = 0xA0 ∨ c = 0x1680 ∨ (0x2000 ≤ c ∧ c ≤ 0x200A) ∨ c = 0x2028 ∨
    c = 0x2029 ∨ c = 0x202F ∨ c = 0x205F ∨ c = 0x3000 ∨ c = 0xFEFF

instance (c : Nat) : Decidable (IsSpace c) := inferInstanceAs (Decidable (_ ∨ _))

/-- The digits `ds` of the radix, as they stand in the text. -/
def Digits (radix : Nat) (ds : List UInt8) : Prop := ds ≠ [] ∧ ∀ d ∈ ds, toDigit d < radix

/-- The text in front of digits: nothing or a sign, or a prefix. -/
inductive Head : List UInt8 → Bool → Nat → Prop where
  | none : Head [] false 10
  | plus : Head [43] false 10
  | minus : Head [45] true 10
  | letter {b : UInt8} {radix : Nat} (h : prefixRadix b = some radix) : Head [48, b] false radix

/-- The integer of a sign and digits. -/
def signed (isNeg : Bool) (n : Nat) : Int := if isNeg then -n else n

/-- The code points `cs` denote an integer: white space, or digits with white space around them. -/
inductive Literal : List Nat → Int → Prop where
  | blank {ws : List Nat} (h : ∀ c ∈ ws, IsSpace c) : Literal ws 0
  | digits {ws ws' : List Nat} {head ds : List UInt8} {isNeg : Bool} {radix : Nat}
      (before : ∀ c ∈ ws, IsSpace c) (hhead : Head head isNeg radix) (hds : Digits radix ds)
      (after : ∀ c ∈ ws', IsSpace c) :
      Literal (ws ++ (head ++ ds).map UInt8.toNat ++ ws') (signed isNeg (BigInt.number radix ds))

/-- The text starts with digits for which the code estimates more limbs than a BigInt can have, whatever follows
them. -/
def Overlong (cs : List Nat) : Prop :=
  ∃ (ws rest : List Nat) (head ds : List UInt8) (isNeg : Bool) (radix : Nat),
    cs = ws ++ (head ++ ds).map UInt8.toNat ++ rest ∧ (∀ c ∈ ws, IsSpace c) ∧ Head head isNeg radix ∧
      Digits radix ds ∧ BigInt.Large radix ds

/-! ## White space -/

theorem lreIsSpaceNonAscii_cons (c low high : Nat) (ranges : List (Nat × Nat)) :
    lreIsSpaceNonAscii c ((low, high) :: ranges) = true ↔
      low ≤ c ∧ (c < high ∨ lreIsSpaceNonAscii c ranges = true) := by
  rw [lreIsSpaceNonAscii]
  by_cases h1 : c < low
  · simp [h1]
  · by_cases h2 : c < high
    · simp [h1, h2, Nat.not_lt.mp h1]
    · simp [h1, h2, Nat.not_lt.mp h1]

theorem lreIsSpace_iff (c : Nat) : lreIsSpace c = true ↔ IsSpace c := by
  rw [lreIsSpace, IsSpace]
  by_cases h : c < 256
  · rw [if_pos h, lreIsSpaceByte]
    simp only [Bool.or_eq_true, Bool.and_eq_true, decide_eq_true_eq]
    omega
  · rw [if_neg h]
    have hnil : lreIsSpaceNonAscii c [] = false := rfl
    simp only [charRangeS, lreIsSpaceNonAscii_cons, hnil, Bool.false_eq_true, or_false]
    omega

/-- A code point is its byte, or it starts with a byte that is not ASCII. -/
theorem encodePoint_cases {c : Nat} (hc : c < 0x110000) :
    (c < 128 ∧ Utf.encodePoint c = [Utf.byte c]) ∨
      (128 ≤ c ∧ ∃ b bs, Utf.encodePoint c = b :: bs ∧ 128 ≤ b.toNat) := by
  rw [Utf.encodePoint]
  by_cases h1 : c < 0x80
  · exact .inl ⟨h1, if_pos h1⟩
  refine .inr ⟨by omega, ?_⟩
  rw [if_neg h1]
  by_cases h2 : c < 0x800
  · rw [if_pos h2]
    exact ⟨_, _, rfl, by rw [Utf.byte_toNat] <;> omega⟩
  rw [if_neg h2]
  by_cases h3 : c < 0x10000
  · rw [if_pos h3]
    exact ⟨_, _, rfl, by rw [Utf.byte_toNat] <;> omega⟩
  · rw [if_neg h3]
    exact ⟨_, _, rfl, by rw [Utf.byte_toNat] <;> omega⟩

theorem unicodeFromUtf8_encodePoint {c : Nat} (hc : c < 0x110000) (rest : List UInt8) :
    unicodeFromUtf8 (Utf.encodePoint c ++ rest) = some (c, rest) := by
  have h := unicodeFromUtf8_filter (Utf.encodePoint c ++ rest)
  rw [Utf.decodePoint_encodePoint hc] at h
  exact (Option.filter_eq_some_iff.mp h).1

theorem skipSpacesFuel_encode8 {cs : List Nat} (hcs : ∀ c ∈ cs, c < 0x110000) {n : Nat}
    (hn : cs.length ≤ n) :
    skipSpacesFuel n (Utf.encode8 cs) = Utf.encode8 (cs.dropWhile (IsSpace ·)) := by
  induction cs generalizing n with
  | nil => cases n <;> rfl
  | cons c cs ih =>
    have hc := hcs c (by simp)
    have ih' := fun m (hm : cs.length ≤ m) => ih (n := m) (fun d hd => hcs d (by simp [hd])) hm
    cases n with
    | zero => simp at hn
    | succ n =>
      rw [List.length_cons] at hn
      -- the step of the loop is a test for white space
      have hstep : skipSpacesFuel (n + 1) (Utf.encode8 (c :: cs)) =
          if IsSpace c then skipSpacesFuel n (Utf.encode8 cs) else Utf.encode8 (c :: cs) := by
        rw [Utf.encode8_cons]
        obtain ⟨hlt, henc⟩ | ⟨hge, b, bs, henc, hb⟩ := encodePoint_cases hc
        · have hbyte := Utf.byte_toNat (n := c) (by omega)
          rw [henc, List.singleton_append, skipSpacesFuel, hbyte, if_pos hlt]
          by_cases hs : IsSpace c
          · rw [if_pos hs, if_pos]
            unfold IsSpace at hs
            omega
          · rw [if_neg hs, if_neg]
            unfold IsSpace at hs
            omega
        · have huni := unicodeFromUtf8_encodePoint hc (Utf.encode8 cs)
          rw [henc, List.cons_append] at huni ⊢
          rw [skipSpacesFuel, if_neg (by omega), huni]
          dsimp only
          by_cases hs : IsSpace c
          · rw [if_pos hs, if_pos ((lreIsSpace_iff c).mpr hs)]
          · rw [if_neg hs, if_neg fun h => hs ((lreIsSpace_iff c).mp h)]
      rw [hstep]
      by_cases hs : IsSpace c
      · rw [if_pos hs, List.dropWhile_cons_of_pos (by simpa using hs), ih' n (by omega)]
      · rw [if_neg hs, List.dropWhile_cons_of_neg (by simpa using hs)]

theorem skipSpaces_encode8 {cs : List Nat} (hcs : ∀ c ∈ cs, c < 0x110000) :
    skipSpaces (Utf.encode8 cs) = Utf.encode8 (cs.dropWhile (IsSpace ·)) :=
  skipSpacesFuel_encode8 hcs (Utf.length_le_encode8 cs)

theorem encode8_eq_nil {cs : List Nat} : Utf.encode8 cs = [] ↔ cs = [] := by
  cases cs with
  | nil => simp
  | cons c cs => simp [Utf.encodePoint_ne_nil]

theorem encode8_append (cs ds : List Nat) : Utf.encode8 (cs ++ ds) = Utf.encode8 cs ++ Utf.encode8 ds := by
  simp [Utf.encode8]

theorem encode8_ascii {bs : List UInt8} (h : ∀ b ∈ bs, b.toNat < 128) : Utf.encode8 (bs.map UInt8.toNat) = bs := by
  induction bs with
  | nil => rfl
  | cons b bs ih =>
    have hb := h b (by simp)
    rw [List.map_cons, Utf.encode8_cons, Utf.encodePoint, if_pos hb, Utf.byte_of_toNat,
      ih fun d hd => h d (by simp [hd]), List.singleton_append]

/-- ASCII bytes at the start of a text are its first code points. -/
theorem encode8_split {cs : List Nat} (hcs : ∀ c ∈ cs, c < 0x110000) {bs rest : List UInt8}
    (hbs : ∀ b ∈ bs, b.toNat < 128) (h : Utf.encode8 cs = bs ++ rest) :
    ∃ cs', cs = bs.map UInt8.toNat ++ cs' ∧ rest = Utf.encode8 cs' := by
  induction bs generalizing cs with
  | nil => exact ⟨cs, rfl, h.symm⟩
  | cons b bs ih =>
    cases cs with
    | nil => simp at h
    | cons c cs =>
      have hb := hbs b (by simp)
      rw [Utf.encode8_cons] at h
      obtain ⟨hlt, henc⟩ | ⟨-, b', bs', henc, hb'⟩ := encodePoint_cases (hcs c (by simp))
      · rw [henc, List.singleton_append, List.cons_append] at h
        obtain ⟨hbyte, htail⟩ := List.cons.inj h
        have hc : c = b.toNat := by rw [← hbyte, Utf.byte_toNat (by omega)]
        obtain ⟨cs', hcs', hrest⟩ := ih (fun d hd => hcs d (by simp [hd])) (fun d hd => hbs d (by simp [hd]))
          htail
        exact ⟨cs', by rw [List.map_cons, List.cons_append, ← hcs', hc], hrest⟩
      · rw [henc, List.cons_append, List.cons_append] at h
        obtain ⟨rfl, -⟩ := List.cons.inj h
        omega

/-! ## Digits in a text -/

theorem toDigit_lt_cases {b : UInt8} {radix : Nat} (h : radix ≤ 36) (hd : toDigit b < radix) :
    (48 ≤ b.toNat ∧ b.toNat ≤ 57) ∨ (65 ≤ b.toNat ∧ b.toNat ≤ 90) ∨ (97 ≤ b.toNat ∧ b.toNat ≤ 122) := by
  rw [toDigit] at hd
  repeat' split at hd
  all_goals omega

theorem prefixRadix_cases {b : UInt8} {radix : Nat} (h : prefixRadix b = some radix) :
    BigInt.IsRadix radix ∧ b.toNat < 128 ∧ 10 ≤ toDigit b := by
  rw [prefixRadix] at h
  repeat' split at h
  · next hb =>
    cases h
    obtain rfl | rfl := hb <;> exact ⟨.inr (.inr (.inr rfl)), by decide, by decide⟩
  · next hb =>
    cases h
    obtain rfl | rfl := hb <;> exact ⟨.inr (.inr (.inl rfl)), by decide, by decide⟩
  · next hb =>
    cases h
    obtain rfl | rfl := hb <;> exact ⟨.inr (.inl rfl), by decide, by decide⟩
  · cases h

theorem IsRadix.le {radix : Nat} (h : BigInt.IsRadix radix) : radix ≤ 16 := by
  obtain rfl | rfl | rfl | rfl := h <;> omega

theorem Head.isRadix {head : List UInt8} {isNeg : Bool} {radix : Nat} (h : Head head isNeg radix) :
    BigInt.IsRadix radix := by
  cases h with
  | letter hb => exact (prefixRadix_cases hb).1
  | _ => exact .inl rfl

theorem Head.ascii {head : List UInt8} {isNeg : Bool} {radix : Nat} (h : Head head isNeg radix) :
    ∀ b ∈ head, b.toNat < 128 := by
  cases h with
  | none => simp
  | plus | minus =>
    intro b hb
    rw [List.mem_singleton.mp hb]
    decide
  | letter hb =>
    have := (prefixRadix_cases hb).2.1
    intro b' hb'
    obtain rfl | rfl : b' = 48 ∨ b' = _ := by simpa using hb'
    · decide
    · exact this

theorem atofHead_cons (b : UInt8) (p : List UInt8) :
    atofHead (b :: p) =
      if b = 43 then (false, 10, p)
      else if b = 45 then (true, 10, p)
      else if b = 48 then
        match prefixRadix (p.headD 0) with
        | some radix => (false, radix, p.tail)
        | none => (false, 10, b :: p)
      else (false, 10, b :: p) := rfl

theorem atofHead_letter (b : UInt8) (p : List UInt8) :
    atofHead (48 :: b :: p) =
      match prefixRadix b with
      | some radix => (false, radix, p)
      | none => (false, 10, 48 :: b :: p) := rfl

/-- What stands in front of the digits is a head of the grammar. -/
theorem atofHead_spec (p : List UInt8) :
    ∃ head, p = head ++ (atofHead p).2.2 ∧ Head head (atofHead p).1 (atofHead p).2.1 := by
  cases p with
  | nil => exact ⟨[], rfl, .none⟩
  | cons b p =>
    by_cases h1 : b = 43
    · rw [atofHead_cons, if_pos h1, h1]
      exact ⟨[43], rfl, .plus⟩
    by_cases h2 : b = 45
    · rw [atofHead_cons, if_neg h1, if_pos h2, h2]
      exact ⟨[45], rfl, .minus⟩
    by_cases h3 : b = 48
    · subst h3
      cases p with
      | nil => exact ⟨[], rfl, .none⟩
      | cons b' p =>
        rw [atofHead_letter]
        cases hr : prefixRadix b' with
        | none => exact ⟨[], rfl, .none⟩
        | some radix => exact ⟨[48, b'], rfl, .letter hr⟩
    · rw [atofHead_cons, if_neg h1, if_neg h2, if_neg h3]
      exact ⟨[], rfl, .none⟩

/-- The byte at the start of `rest` continues neither digits nor a prefix. -/
def Stops (rest : List UInt8) : Prop := toDigit (rest.headD 0) = 36

theorem prefixRadix_of_stops {b : UInt8} (h : toDigit b < 10 ∨ toDigit b = 36) : prefixRadix b = none := by
  rw [prefixRadix]
  have hne : ∀ c : UInt8, 10 ≤ toDigit c → toDigit c < 36 → b ≠ c := by
    rintro c h1 h2 rfl
    omega
  rw [if_neg, if_neg, if_neg]
  all_goals
    rintro (hb | hb)
    all_goals exact hne _ (by decide) (by decide) hb

/-- A head of the grammar in front of digits is what `js_atof` reads. -/
theorem atofHead_eq {head ds rest : List UInt8} {isNeg : Bool} {radix : Nat} (hh : Head head isNeg radix)
    (hds : Digits radix ds) (hrest : Stops rest) :
    atofHead (head ++ ds ++ rest) = (isNeg, radix, ds ++ rest) := by
  cases hh with
  | plus => rfl
  | minus => rfl
  | letter hb =>
    rw [List.append_assoc, List.cons_append, List.singleton_append, atofHead_letter, hb]
  | none =>
    obtain ⟨d, ds, rfl⟩ := List.exists_cons_of_ne_nil hds.1
    have hd := toDigit_lt_cases (by omega) (hds.2 d (by simp))
    have hne : ∀ c : UInt8, ¬ toDigit c < 10 → d ≠ c := by
      rintro c hc rfl
      exact hc (hds.2 d (by simp))
    rw [List.nil_append, List.cons_append, atofHead_cons, if_neg (hne 43 (by decide)), if_neg (hne 45 (by decide))]
    by_cases h0 : d = 48
    · rw [if_pos h0, prefixRadix_of_stops]
      cases ds with
      | nil => exact .inr hrest
      | cons e ds => exact .inl (hds.2 e (by simp))
    · rw [if_neg h0]

theorem takeWhile_digits {ds rest : List UInt8} {radix : Nat} (hr : radix ≤ 36) (hds : ∀ d ∈ ds, toDigit d < radix)
    (hrest : Stops rest) :
    (ds ++ rest).takeWhile (toDigit · < radix) = ds ∧ (ds ++ rest).dropWhile (toDigit · < radix) = rest := by
  induction ds with
  | nil =>
    cases rest with
    | nil => exact ⟨rfl, rfl⟩
    | cons b rest =>
      have hb : ¬ toDigit b < radix := by
        have : toDigit b = 36 := hrest
        omega
      simp [hb]
  | cons d ds ih =>
    have hd := hds d (by simp)
    obtain ⟨ih1, ih2⟩ := ih fun e he => hds e (by simp [he])
    simp [hd, ih1, ih2]

/-- White space stops digits. -/
theorem stops_spaces {ws : List Nat} (h : ∀ c ∈ ws, IsSpace c) : Stops (Utf.encode8 ws) := by
  cases ws with
  | nil => rfl
  | cons c ws =>
    have hc := h c (by simp)
    have hlt : c < 0x110000 := by
      unfold IsSpace at hc
      omega
    have hbyte : ∀ b : UInt8, 128 ≤ b.toNat ∨ b.toNat < 48 → toDigit b = 36 := by
      intro b hb
      rw [toDigit, if_neg (by omega), if_neg (by omega), if_neg (by omega)]
    rw [Stops, Utf.encode8_cons]
    obtain ⟨h128, henc⟩ | ⟨-, b, bs, henc, hb⟩ := encodePoint_cases hlt
    · rw [henc, List.singleton_append, List.headD_cons]
      apply hbyte
      rw [Utf.byte_toNat (by omega)]
      unfold IsSpace at hc
      omega
    · rw [henc, List.cons_append, List.headD_cons]
      exact hbyte b (.inl hb)

/-! ## What a text denotes -/

theorem Head.not_space {head ds : List UInt8} {isNeg : Bool} {radix : Nat} (hh : Head head isNeg radix)
    (hds : Digits radix ds) : ∃ b bs, head ++ ds = b :: bs ∧ ¬ IsSpace b.toNat := by
  cases hh with
  | none =>
    obtain ⟨d, ds, rfl⟩ := List.exists_cons_of_ne_nil hds.1
    have hd := toDigit_lt_cases (by omega) (hds.2 d (by simp))
    refine ⟨d, ds, rfl, ?_⟩
    unfold IsSpace
    omega
  | plus => exact ⟨43, _, rfl, by decide⟩
  | minus => exact ⟨45, _, rfl, by decide⟩
  | letter hb => exact ⟨48, _, rfl, by decide⟩

theorem Digits.ascii {radix : Nat} {ds : List UInt8} (hr : radix ≤ 36) (h : ∀ d ∈ ds, toDigit d < radix) :
    ∀ d ∈ ds, d.toNat < 128 := by
  intro d hd
  have := toDigit_lt_cases hr (h d hd)
  omega

/-- The run of the functions over a text that denotes an integer. -/
theorem Literal.run {cs : List Nat} {i : Int} (h : Literal cs i) :
    (cs.dropWhile (IsSpace ·) = [] ∧ i = 0) ∨
      ∃ (isNeg : Bool) (radix : Nat) (ds : List UInt8) (ws : List Nat),
        cs.dropWhile (IsSpace ·) ≠ [] ∧
        atofHead (Utf.encode8 (cs.dropWhile (IsSpace ·))) = (isNeg, radix, ds ++ Utf.encode8 ws) ∧
        BigInt.IsRadix radix ∧ Digits radix ds ∧ (∀ c ∈ ws, IsSpace c) ∧
        i = signed isNeg (BigInt.number radix ds) := by
  cases h with
  | blank h =>
    left
    refine ⟨?_, rfl⟩
    rw [List.dropWhile_eq_nil_iff]
    simpa using h
  | @digits ws ws' head ds isNeg radix before hhead hds after =>
    right
    obtain ⟨b, bs, hbs, hb⟩ := hhead.not_space hds
    have hdrop : (ws ++ (head ++ ds).map UInt8.toNat ++ ws').dropWhile (IsSpace ·) =
        (head ++ ds).map UInt8.toNat ++ ws' := by
      rw [List.append_assoc, List.dropWhile_append_of_pos (by simpa using before), hbs, List.map_cons,
        List.cons_append, List.dropWhile_cons_of_neg (by simpa using hb)]
    have hascii : ∀ b ∈ head ++ ds, b.toNat < 128 := by
      intro b hb
      obtain hb | hb := List.mem_append.mp hb
      · exact hhead.ascii b hb
      · exact Digits.ascii ((IsRadix.le hhead.isRadix).trans (by omega)) hds.2 b hb
    refine ⟨isNeg, radix, ds, ws', ?_, ?_, hhead.isRadix, hds, after, rfl⟩
    · rw [hdrop, hbs]
      simp
    · rw [hdrop, encode8_append, encode8_ascii hascii, atofHead_eq hhead hds (stops_spaces after)]

/-- A text denotes at most one integer. -/
theorem Literal.unique {cs : List Nat} {i j : Int} (hi : Literal cs i) (hj : Literal cs j) : i = j := by
  obtain ⟨h0, rfl⟩ | ⟨n, r, ds, ws, hne, hhead, hr, hds, hws, rfl⟩ := hi.run
  · obtain ⟨-, rfl⟩ | ⟨n', r', ds', ws', hne', -⟩ := hj.run
    · rfl
    · exact absurd h0 hne'
  · obtain ⟨h0', -⟩ | ⟨n', r', ds', ws', -, hhead', hr', hds', hws', rfl⟩ := hj.run
    · exact absurd h0' hne
    · rw [hhead] at hhead'
      simp only [Prod.mk.injEq] at hhead'
      obtain ⟨rfl, rfl, htext⟩ := hhead'
      have h1 := (takeWhile_digits ((IsRadix.le hr).trans (by omega)) hds.2 (stops_spaces hws)).1
      have h2 := (takeWhile_digits ((IsRadix.le hr).trans (by omega)) hds'.2 (stops_spaces hws')).1
      rw [htext, h2] at h1
      rw [h1]

/-! ## Canonical values -/

/-- What `JS_CompactBigInt` makes of normalized limbs: one limb is a short BigInt. -/
def BigIntVal.Canonical : BigIntVal → Prop
  | .short _ => True
  | .long tab => Limbs.Normal tab ∧ 1 < tab.length

theorem int_singleton (v : Limb) : Limbs.int [v] = v.toInt := by
  have := int_concat [] v
  simpa using this

theorem fits_toInt (v : Limb) : Fits 64 1 v.toInt := by
  have := int_fits (w := 64) (by decide) (List.cons_ne_nil v [])
  rwa [int_singleton] at this

theorem compactBigInt_spec {r : List Limb} (hr : Limbs.Normal r) :
    (compactBigInt r).Canonical ∧ (compactBigInt r).int = Limbs.int r := by
  unfold compactBigInt
  by_cases h : r.length = 1
  · obtain ⟨v, rfl⟩ := List.length_eq_one_iff.mp h
    rw [if_pos h]
    exact ⟨trivial, (int_singleton v).symm⟩
  · rw [if_neg h]
    have := List.length_pos_iff.mpr hr.1
    exact ⟨⟨hr, by omega⟩, rfl⟩

/-- A number has one canonical value. -/
theorem BigIntVal.Canonical.unique {u v : BigIntVal} (hu : u.Canonical) (hv : v.Canonical)
    (h : u.int = v.int) : u = v := by
  have hlong : ∀ {tab : List Limb} {n : Limb}, Limbs.Normal tab ∧ 1 < tab.length →
      Limbs.int tab ≠ n.toInt := by
    intro tab n htab hint
    have := htab.1.length_le (by decide) (by omega) (hint ▸ fits_toInt n)
    have := htab.2
    omega
  cases u with
  | short m =>
    cases v with
    | short n => rw [BitVec.eq_of_toInt_eq h]
    | long t => exact absurd h.symm (hlong hv)
  | long s =>
    cases v with
    | short n => exact absurd h (hlong hu)
    | long t => rw [hu.1.unique (by decide) hv.1 h]

theorem BigIntVal.Canonical.normal {v : BigIntVal} (h : v.Canonical) : v.Normal := by
  cases v with
  | short n => trivial
  | long tab => exact h.1

/-- The limbs of an integer, and one limb more. -/
def intLimbs (i : Int) : List Limb := Limbs.ofInt 64 (i.natAbs.log2 / 64 + 2) i

/-- The canonical value of an integer. -/
def BigIntVal.ofInt (i : Int) : BigIntVal :=
  compactBigInt ((intLimbs i).take (BigInt.normalizeLen (intLimbs i) (intLimbs i).length))

theorem BigIntVal.ofInt_spec (i : Int) : (BigIntVal.ofInt i).Canonical ∧ (BigIntVal.ofInt i).int = i := by
  have hfits : Fits 64 (i.natAbs.log2 / 64 + 2) i := by
    have hlt : i.natAbs < 2 ^ (i.natAbs.log2 + 1) := Nat.lt_log2_self
    have hpow : 2 ^ (i.natAbs.log2 + 2) ≤ (2 ^ 64) ^ (i.natAbs.log2 / 64 + 2) := by
      rw [← pow_mul]
      exact Nat.pow_le_pow_right (by omega) (by omega)
    rw [pow_succ] at hpow
    rw [Fits]
    generalize (2 ^ 64) ^ (i.natAbs.log2 / 64 + 2) = p at hpow ⊢
    generalize 2 ^ (i.natAbs.log2 + 1) = q at hlt hpow
    omega
  have hint : Limbs.int (intLimbs i) = i := int_ofInt (by decide) (by omega) hfits
  have hlen : (intLimbs i).length = (i.natAbs.log2 / 64 + 1) + 1 := ofInt_length _ _
  obtain ⟨hnormal, hvalue⟩ := BigInt.normalizeLen_spec (intLimbs i) (i.natAbs.log2 / 64 + 1) hlen.ge
  rw [← hlen] at hnormal hvalue
  rw [List.take_length] at hvalue
  obtain ⟨hcanonical, hcompact⟩ := compactBigInt_spec hnormal
  exact ⟨hcanonical, hcompact.trans (hvalue.trans hint)⟩

/-! ## From a string -/

variable {ok : Prop}

/-- `js_atof` at the start of a text: nothing without digits, else their number. -/
theorem atof_spec (ok : Prop) (p : List UInt8) {large : Prop}
    (hlarge : BigInt.Large (atofHead p).2.1 ((atofHead p).2.2.takeWhile (toDigit · < (atofHead p).2.1)) → large) :
    Ends (Answers ok) (atof p) (BigInt.Refused ok large) fun res =>
      res.2 = (atofHead p).2.2.dropWhile (toDigit · < (atofHead p).2.1) ∧
      match res.1 with
      | none => (atofHead p).2.2.takeWhile (toDigit · < (atofHead p).2.1) = []
      | some v => (atofHead p).2.2.takeWhile (toDigit · < (atofHead p).2.1) ≠ [] ∧ v.Canonical ∧
          v.int = signed (atofHead p).1
            (BigInt.number (atofHead p).2.1 ((atofHead p).2.2.takeWhile (toDigit · < (atofHead p).2.1))) := by
  obtain ⟨head, -, hhead⟩ := atofHead_spec p
  have hradix := hhead.isRadix
  unfold atof
  generalize atofHead p = h at hradix hlarge ⊢
  obtain ⟨isNeg, radix, q⟩ := h
  dsimp only at hradix hlarge ⊢
  generalize hds : q.takeWhile (toDigit · < radix) = ds at hlarge ⊢
  have hdigits : ∀ d ∈ ds, toDigit d < radix := by
    intro d hd
    rw [← hds] at hd
    simpa using List.mem_takeWhile_imp hd
  by_cases hempty : ds.length = 0
  · rw [if_pos hempty]
    exact Ends.ret ⟨rfl, List.length_eq_zero_iff.mp hempty⟩
  rw [if_neg hempty]
  have hfilter : ds.filter (· ≠ 95) = ds := by
    rw [List.filter_eq_self]
    intro d hd
    have := hdigits d hd
    have hle := IsRadix.le hradix
    simp only [ne_eq, decide_not, Bool.not_eq_eq_eq_not, Bool.not_true, decide_eq_false_iff_not]
    rintro rfl
    rw [show toDigit 95 = 36 from rfl] at this
    omega
  rw [hfilter]
  have hread : Ends (Answers ok) (do
      let r ← BigInt.fromString ((if isNeg then [45] else []) ++ ds) radix
      return (some (compactBigInt r), q.dropWhile (toDigit · < radix)))
      (BigInt.Refused ok large) fun res =>
        res.2 = q.dropWhile (toDigit · < radix) ∧
        match res.1 with
        | none => ds = []
        | some v => ds ≠ [] ∧ v.Canonical ∧ v.int = signed isNeg (BigInt.number radix ds) := by
    refine Ends.bind ((BigInt.fromString_spec hradix isNeg hdigits).post (fun e he => he.mono hlarge)
      fun r hr => hr) fun r hr => Ends.ret ?_
    obtain ⟨hcanonical, hint⟩ := compactBigInt_spec hr.2.1
    refine ⟨rfl, fun h => hempty (by rw [h]; rfl), hcanonical, ?_⟩
    rw [hint, hr.2.2, signed]
  by_cases hstack : 64 < ds.length + 2
  · rw [if_pos hstack]
    exact Ends.bind (BigInt.malloc_spec _ _) fun _ _ => hread
  · rw [if_neg hstack]
    exact hread

theorem not_large_nil {radix : Nat} (hr : BigInt.IsRadix radix) : ¬ BigInt.Large radix [] := by
  unfold BigInt.Large
  obtain rfl | rfl | rfl | rfl := hr <;> decide

theorem mem_takeWhile_space {cs : List Nat} : ∀ c ∈ cs.takeWhile (IsSpace ·), IsSpace c := by
  intro c hc
  simpa using List.mem_takeWhile_imp hc

theorem dropWhile_space_eq_nil {cs : List Nat} : cs.dropWhile (IsSpace ·) = [] ↔ ∀ c ∈ cs, IsSpace c := by
  rw [List.dropWhile_eq_nil_iff]
  simp

/-- The code points behind white space, as `js_atof` takes them apart. -/
theorem atof_parts {cs : List Nat} (hcs : ∀ c ∈ cs, c < 0x110000) :
    ∃ (head ds : List UInt8) (isNeg : Bool) (radix : Nat) (q : List UInt8) (cs' : List Nat),
      atofHead (Utf.encode8 cs) = (isNeg, radix, q) ∧ Head head isNeg radix ∧
      q.takeWhile (toDigit · < radix) = ds ∧ q.dropWhile (toDigit · < radix) = Utf.encode8 cs' ∧
      (∀ d ∈ ds, toDigit d < radix) ∧ cs = (head ++ ds).map UInt8.toNat ++ cs' ∧
      (∀ c ∈ cs', c < 0x110000) := by
  obtain ⟨head, hp, hhead⟩ := atofHead_spec (Utf.encode8 cs)
  generalize hres : atofHead (Utf.encode8 cs) = res at hp hhead
  obtain ⟨isNeg, radix, q⟩ := res
  dsimp only at hp hhead
  have hdigits : ∀ d ∈ q.takeWhile (toDigit · < radix), toDigit d < radix := by
    intro d hd
    simpa using List.mem_takeWhile_imp hd
  have hascii : ∀ b ∈ head ++ q.takeWhile (toDigit · < radix), b.toNat < 128 := by
    intro b hb
    obtain hb | hb := List.mem_append.mp hb
    · exact hhead.ascii b hb
    · exact Digits.ascii ((IsRadix.le hhead.isRadix).trans (by omega)) hdigits b hb
  obtain ⟨cs', hcs', hrest⟩ := encode8_split hcs hascii
    (show _ = _ ++ q.dropWhile (toDigit · < radix) by
      rw [List.append_assoc, List.takeWhile_append_dropWhile]; exact hp)
  refine ⟨head, _, isNeg, radix, q, cs', rfl, hhead, rfl, hrest, hdigits, hcs', fun c hc => hcs c ?_⟩
  rw [hcs']
  exact List.mem_append_right _ hc

theorem stringToBigInt_spec {str : JSString} (hlen : str.len ≤ jsStringLenMax) :
    Ends (Answers ok) (stringToBigInt str) (BigInt.Refused ok (Overlong (Utf.decode16 str.units))) fun
      | none => ¬ ∃ i, Literal (Utf.decode16 str.units) i
      | some v => v.Canonical ∧ Literal (Utf.decode16 str.units) v.int := by
  refine Ends.bind (Ends.lift (toCStringLen2_written hlen)) fun o ho => ?_
  cases o with
  | none => exact Ends.throw (.inl ⟨rfl, ho⟩)
  | some text =>
    have hbytes : text.bytes = Utf.encode8 (Utf.decode16 str.units) := ho.2
    have hcs := Utf.decode16_lt str.units
    dsimp only
    rw [hbytes, skipSpaces_encode8 hcs]
    generalize Utf.decode16 str.units = cs at hcs ⊢
    have hsplit := List.takeWhile_append_dropWhile (p := fun c => decide (IsSpace c)) (l := cs)
    by_cases hempty : (Utf.encode8 (cs.dropWhile (IsSpace ·))).length = 0
    · rw [if_pos hempty]
      refine Ends.ret ⟨trivial, .blank ?_⟩
      rw [List.length_eq_zero_iff, encode8_eq_nil] at hempty
      exact dropWhile_space_eq_nil.mp hempty
    rw [if_neg hempty]
    have hne : cs.dropWhile (IsSpace ·) ≠ [] := fun h => hempty (by rw [h]; rfl)
    have hrun := fun i (hi : Literal cs i) => hi.run.resolve_left fun h => hne h.1
    generalize hcs₁ : cs.dropWhile (IsSpace ·) = cs₁ at hsplit hne hrun ⊢
    have hlt : ∀ c ∈ cs₁, c < 0x110000 := fun c hc => hcs c (by
      rw [← hsplit]
      exact List.mem_append_right _ hc)
    obtain ⟨head, ds, isNeg, radix, q, cs', hatof, hhead, htake, hdrop, hds, hparts, hlt'⟩ := atof_parts hlt
    have hwhole : cs = cs.takeWhile (IsSpace ·) ++ (head ++ ds).map UInt8.toNat ++ cs' := by
      rw [List.append_assoc, ← hparts, hsplit]
    -- a literal has digits here, and white space behind them
    have hliteral : ∀ i, Literal cs i → ds ≠ [] ∧ ∀ c ∈ cs', IsSpace c := by
      intro i hi
      obtain ⟨n, r, ds', ws, -, hatof', hr, hds', hws, -⟩ := hrun i hi
      rw [hatof] at hatof'
      simp only [Prod.mk.injEq] at hatof'
      obtain ⟨rfl, rfl, rfl⟩ := hatof'
      obtain ⟨h1, h2⟩ := takeWhile_digits ((IsRadix.le hr).trans (by omega)) hds'.2 (stops_spaces hws)
      rw [htake] at h1
      rw [hdrop] at h2
      refine ⟨h1 ▸ hds'.1, dropWhile_space_eq_nil.mp (encode8_eq_nil.mp ?_)⟩
      have hws' : ∀ c ∈ ws, c < 0x110000 := by
        intro c hc
        have := hws c hc
        unfold IsSpace at this
        omega
      rw [← skipSpaces_encode8 hlt', h2, skipSpaces_encode8 hws', dropWhile_space_eq_nil.mpr hws]
      rfl
    have hspec := atof_spec ok (Utf.encode8 cs₁) (show _ → Overlong cs by
      rw [hatof]
      dsimp only
      rw [htake]
      intro hlarge
      have hds0 : ds ≠ [] := by
        rintro rfl
        exact not_large_nil hhead.isRadix hlarge
      exact ⟨_, cs', head, ds, isNeg, radix, hwhole, mem_takeWhile_space, hhead, ⟨hds0, hds⟩, hlarge⟩)
    rw [hatof] at hspec
    dsimp only at hspec
    rw [htake, hdrop] at hspec
    refine Ends.bind hspec fun res hres => ?_
    obtain ⟨o, rest⟩ := res
    obtain ⟨rfl, hres⟩ := hres
    dsimp only
    rw [skipSpaces_encode8 hlt']
    by_cases hafter : (Utf.encode8 (cs'.dropWhile (IsSpace ·))).length ≠ 0
    · rw [if_pos hafter]
      refine Ends.ret fun ⟨i, hi⟩ => hafter ?_
      rw [dropWhile_space_eq_nil.mpr (hliteral i hi).2]
      rfl
    · rw [if_neg hafter]
      rw [not_not, List.length_eq_zero_iff, encode8_eq_nil, dropWhile_space_eq_nil] at hafter
      cases o with
      | none => exact Ends.ret fun ⟨i, hi⟩ => (hliteral i hi).1 hres
      | some v =>
        refine Ends.ret ⟨hres.2.1, ?_⟩
        rw [hwhole, hres.2.2]
        exact .digits mem_takeWhile_space hhead ⟨hres.1, hds⟩ hafter

/-- The outcome of `BigInt` for every string: the integer that the text denotes, or a `SyntaxError` when it
denotes none, a `RangeError` when the estimate for its digits is over the limit, or an exception when a request
was refused. -/
theorem string_to_bigint {str : JSString} (hlen : str.len ≤ jsStringLenMax) :
    EveryEnd (stringToBigIntErr str)
      (fun ok e => (e = .memory ∧ ¬ ok) ∨
        (e = tooLarge ∧ Overlong (Utf.decode16 str.units)) ∨
        (e = invalidLiteral ∧ ¬ ∃ i, Literal (Utf.decode16 str.units) i))
      fun v => v.Canonical ∧ ∀ i, Literal (Utf.decode16 str.units) i ↔ i = v.int := by
  refine EveryEnd.of fun ok => ?_
  unfold stringToBigIntErr
  refine Ends.bind ((stringToBigInt_spec hlen).post (fun e he => ?_) fun o ho => ho) fun o ho => ?_
  · exact he.imp id fun h => .inl h
  cases o with
  | none => exact Ends.throw (.inr (.inr ⟨rfl, ho⟩))
  | some v =>
    refine Ends.ret ⟨ho.1, fun i => ⟨fun hi => hi.unique ho.2, ?_⟩⟩
    rintro rfl
    exact ho.2

/-- White space, a sign and digits. -/
theorem string_to_bigint_spaced :
    EveryEnd (stringToBigIntErr (.str8 [32, 45, 49, 50, 0xA0]))
      (fun ok e => (e = .memory ∧ ¬ ok) ∨ (e = tooLarge ∧ Overlong [32, 45, 49, 50, 0xA0])) fun v => v.int = -12 := by
  have hlen : (JSString.str8 [32, 45, 49, 50, 0xA0]).len ≤ jsStringLenMax := by decide
  have hbefore : ∀ c ∈ [32], IsSpace c := List.forall_mem_singleton.mpr (by decide)
  have hafter : ∀ c ∈ [0xA0], IsSpace c := List.forall_mem_singleton.mpr (by decide)
  have hds : Digits 10 [49, 50] := ⟨List.cons_ne_nil _ _, by simp [toDigit]⟩
  have hnumber : signed true (BigInt.number 10 [49, 50]) = -12 := by
    simp [signed, BigInt.number, toDigit, Nat.ofDigits_cons]
  have hliteral : Literal [32, 45, 49, 50, 0xA0] (-12) := by
    rw [← hnumber]
    exact Literal.digits hbefore .minus hds hafter
  refine (string_to_bigint hlen).post (fun ok e he => ?_) fun v hv => ?_
  · obtain hmem | hlarge | ⟨-, hno⟩ := he
    · exact .inl hmem
    · exact .inr hlarge
    · exact absurd ⟨_, hliteral⟩ hno
  · exact ((hv.2 (-12)).mp hliteral).symm

/-! ## To a string and back -/

theorem number_radixText {radix : Nat} (h2 : 2 ≤ radix) (h36 : radix ≤ 36) (n : Nat) :
    BigInt.number radix (radixText radix n) = n := by
  have hmap : (radixText radix n).map toDigit = (radixDigits radix n).reverse := by
    rw [radixText, List.map_map]
    refine (List.map_congr_left fun d hd => ?_).trans (List.map_id _)
    exact toDigit_digitByte36 ((radixDigits_lt (by omega) d (List.mem_reverse.mp hd)).trans_le h36)
  rw [BigInt.number, hmap, List.reverse_reverse, radixDigits]
  by_cases h0 : n = 0
  · rw [if_pos h0, h0]
    simp
  · rw [if_neg h0, Nat.ofDigits_digits]

theorem radixText_digits {radix : Nat} (h2 : 2 ≤ radix) (h36 : radix ≤ 36) (n : Nat) :
    Digits radix (radixText radix n) := by
  constructor
  · rw [radixText, radixDigits]
    by_cases h0 : n = 0
    · simp [h0]
    · simpa [h0] using Nat.digits_ne_nil_iff_ne_zero.mpr h0
  · intro b hb
    obtain ⟨d, hd, rfl⟩ := List.mem_map.mp hb
    have hlt := radixDigits_lt (by omega) d (List.mem_reverse.mp hd)
    rwa [toDigit_digitByte36 (hlt.trans_le h36)]

/-- In every radix the text of a BigInt is its sign and its digits, without a zero in front. The copy of
the limbs is over the limit before the digits are. -/
theorem bigint_radix_text {v : BigIntVal} (hv : v.Normal) {radix : Nat} (h2 : 2 ≤ radix) (h36 : radix ≤ 36) :
    EveryEnd (BigInt.toString1 v radix) (fun ok => BigInt.Refused ok (v.Refuses radix)) fun str =>
      ¬ v.Refuses radix ∧ ∃ ds, str = .str8 ((if v.int < 0 then [45] else []) ++ ds) ∧ Digits radix ds ∧
        BigInt.number radix ds = v.int.natAbs ∧ (ds.headD 0 = 48 → ds = [48]) := by
  refine EveryEnd.of fun ok => ?_
  refine (BigInt.toString1_spec hv h2 h36).post (fun _ => id) fun str hstr => ⟨hstr.1, _, hstr.2,
    radixText_digits h2 h36 _, number_radixText h2 h36 _, fun hzero => ?_⟩
  rw [radixText, radixDigits] at hzero ⊢
  by_cases h0 : v.int.natAbs = 0
  · rw [if_pos h0]
    rfl
  rw [if_neg h0] at hzero ⊢
  -- the last of the digits is the first of the text
  have hne := Nat.digits_ne_nil_iff_ne_zero (b := radix).mpr h0
  have hlast := Nat.getLast_digit_ne_zero radix h0
  have hlt := Nat.digits_lt_base (by omega : 1 < radix) (List.getLast_mem hne)
  rw [← List.dropLast_append_getLast hne, List.reverse_append, List.reverse_singleton, List.map_append,
    List.map_singleton, List.singleton_append, List.headD_cons] at hzero
  have := toDigit_digitByte36 (hlt.trans_le h36)
  rw [hzero] at this
  exact absurd this.symm hlast

/-- Two limbs, in radix 36. -/
theorem bigint_radix_text_long : ∃ str, ((BigInt.toString1 (.long [0, 1]) 36).run.run plenty ()).1 = .ok str ∧
    ∃ ds, str = .str8 ds ∧ BigInt.number 36 ds = 2 ^ 64 := by
  have h : (BigIntVal.long [0, 1]).Normal := Normal.concat (s := []) (by decide)
  obtain ⟨str, hrun, -, ds, hstr, -, hnumber, -⟩ :=
    EveryEnd.plenty (bigint_radix_text h (show 2 ≤ 36 by omega) (by omega)) fun e he => by
      obtain ⟨-, hno⟩ | ⟨-, hlarge⟩ := he
      · exact hno trivial
      · exact absurd hlarge.1 (by decide)
  refine ⟨str, hrun, ds, ?_, hnumber.trans (by decide)⟩
  rw [hstr, if_neg (by decide), List.nil_append]

/-- The text in radix 10 denotes the number. -/
theorem literal_signedText (i : Int) : Literal ((signedText 10 i).map UInt8.toNat) i := by
  have hds := radixText_digits (show 2 ≤ 10 by omega) (by omega) i.natAbs
  have hnum := number_radixText (show 2 ≤ 10 by omega) (by omega) i.natAbs
  rw [signedText]
  by_cases h : i < 0
  · have := Literal.digits (List.forall_mem_nil _) .minus hds (List.forall_mem_nil _)
    rw [hnum, signed, if_pos rfl, List.nil_append, List.append_nil] at this
    rw [if_pos h]
    rwa [show i = -((i.natAbs : Nat) : Int) by omega, Int.natAbs_neg, Int.natAbs_natCast]
  · have := Literal.digits (List.forall_mem_nil _) .none hds (List.forall_mem_nil _)
    rw [hnum, signed, if_neg (by simp), List.nil_append, List.append_nil] at this
    rw [if_neg h]
    rwa [show i = ((i.natAbs : Nat) : Int) by omega, Int.natAbs_natCast]

/-- The number of decimal digits up to which the estimate of the code stays below the limit. -/
def decimalLimit : Nat := 310688

theorem digitBits_ten {n : Nat} (h : jsBigintMaxSize * 64 ≤ BigInt.digitBits 10 n) : decimalLimit < n := by
  rw [BigInt.digitBits, if_pos rfl, show jsBigintMaxSize * 64 = 1048576 from rfl] at h
  rw [decimalLimit]
  omega

theorem signedText_byte {i : Int} {b : UInt8} (h : b ∈ signedText 10 i) : b = 45 ∨ toDigit b < 10 := by
  rw [signedText, List.mem_append] at h
  obtain h | h := h
  · by_cases hi : i < 0
    · rw [if_pos hi, List.mem_singleton] at h
      exact .inl h
    · rw [if_neg hi] at h
      simp at h
  · exact .inr ((radixText_digits (by omega) (by omega) _).2 b h)

/-- The digits of a number below the limit are not too many. -/
theorem not_overlong {i : Int} (hi : i.natAbs < 10 ^ decimalLimit) :
    ¬ Overlong ((signedText 10 i).map UInt8.toNat) := by
  rintro ⟨ws, rest, head, ds, isNeg, radix, heq, hws, hhead, hds, hlarge⟩
  have hlimit : 0 < decimalLimit := by decide
  have hlen := radixDigits_length (show 1 < 10 by omega) hlimit hi
  have hmem : ∀ b ∈ head ++ ds, b = 45 ∨ toDigit b < 10 := by
    intro b hb
    have : b.toNat ∈ (signedText 10 i).map UInt8.toNat := by
      rw [heq]
      exact List.mem_append_left _ (List.mem_append_right _ (List.mem_map_of_mem hb))
    obtain ⟨b', hb', hnat⟩ := List.mem_map.mp this
    rw [← UInt8.toNat_inj.mp hnat]
    exact signedText_byte hb'
  have hws' : ws = [] := by
    cases ws with
    | nil => rfl
    | cons c ws =>
      have : c ∈ (signedText 10 i).map UInt8.toNat := by
        rw [heq]
        simp
      obtain ⟨b, hb, rfl⟩ := List.mem_map.mp this
      have hspace := hws _ (List.mem_cons_self ..)
      unfold IsSpace at hspace
      obtain rfl | hb := signedText_byte hb
      · exact absurd hspace (by decide)
      · have := toDigit_lt_cases (by omega) hb
        omega
  subst hws'
  have hcount : (head ++ ds).length ≤ (signedText 10 i).length := by
    have := congrArg List.length heq
    simp only [List.nil_append, List.length_append, List.length_map] at this ⊢
    omega
  have htext : (signedText 10 i).length = (if i < 0 then 1 else 0) + (radixDigits 10 i.natAbs).length := by
    rw [signedText, List.length_append, radixText, List.length_map, List.length_reverse]
    by_cases h : i < 0
    · rw [if_pos h, if_pos h, List.length_singleton]
    · rw [if_neg h, if_neg h, List.length_nil]
  -- a minus sign of the text is in the head
  have hfit : radix = 10 ∧ ds.length ≤ decimalLimit := by
    rw [List.length_append, htext] at hcount
    cases hhead with
    | letter hb =>
      obtain ⟨-, -, hdigit⟩ := prefixRadix_cases hb
      obtain rfl | hb' := hmem _ (List.mem_append_left _ (List.mem_cons_of_mem _ (List.mem_singleton_self _)))
      · rw [show prefixRadix 45 = none from rfl] at hb
        cases hb
      · omega
    | none =>
      refine ⟨rfl, ?_⟩
      by_cases h : i < 0
      · obtain ⟨d, ds, rfl⟩ := List.exists_cons_of_ne_nil hds.1
        rw [signedText, if_pos h] at heq
        simp only [List.nil_append, List.cons_append, List.map_cons, List.cons.injEq] at heq
        have hd := hds.2 d (by simp)
        rw [← UInt8.toNat_inj.mp heq.1] at hd
        exact absurd hd (by decide)
      · rw [if_neg h] at hcount
        rw [List.length_nil] at hcount
        omega
    | plus =>
      exact absurd (hmem 43 (by simp)) (by decide)
    | minus =>
      refine ⟨rfl, ?_⟩
      rw [List.length_singleton] at hcount
      split at hcount <;> omega
  obtain ⟨rfl, hds'⟩ := hfit
  have hmany := digitBits_ten hlarge
  have := List.length_dropWhile_le (fun b : UInt8 => decide (b = 48)) ds
  omega

/-- A BigInt that is too large to be written has more digits than the limit. -/
theorem limit_le_of_refuses {v : BigIntVal} (hv : v.Canonical) (h : v.Refuses 10) :
    10 ^ decimalLimit ≤ v.int.natAbs := by
  cases v with
  | short n => exact h.elim
  | long tab =>
    have hfits : ¬ Fits 64 jsBigintMaxSize (Limbs.int tab) := fun hf => by
      have := hv.1.length_le (by decide) (by decide) hf
      have := h.1
      omega
    obtain ⟨e, he⟩ : ∃ e, 64 * jsBigintMaxSize = e + 1 := ⟨64 * jsBigintMaxSize - 1, by decide⟩
    have hpow : 10 ^ decimalLimit ≤ 2 ^ e := by
      refine (BigInt.ten_pow_le _).trans (Nat.pow_le_pow_right (by omega) ?_)
      have : 64 * jsBigintMaxSize = 1048576 := rfl
      rw [show (decimalLimit * 27 + 7) / 8 = 1048572 from rfl]
      omega
    rw [Fits, ← pow_mul, he, pow_succ] at hfits
    show 10 ^ decimalLimit ≤ (Limbs.int tab).natAbs
    generalize 10 ^ decimalLimit = p at hpow ⊢
    generalize 2 ^ e = q at hpow hfits
    omega

theorem signedText_length {v : BigIntVal} (hv : v.Canonical) (h : ¬ v.Refuses 10) :
    (JSString.str8 (signedText 10 v.int)).len ≤ jsStringLenMax := by
  have hlen : (JSString.str8 (signedText 10 v.int)).len = (signedText 10 v.int).length := by
    simp [JSString.len, JSString.units]
  have hmax : jsStringLenMax = 1073741823 := rfl
  rw [hlen, hmax]
  cases v with
  | short n => exact (signedText_short_length n (by omega)).trans (by omega)
  | long tab =>
    have htab : tab.length ≤ jsBigintMaxSize := by
      by_contra hlt
      exact h ⟨by omega, fun h' => absurd h'.1 (by decide)⟩
    have hsize : 64 * tab.length + 1 ≤ 1048577 := by
      have : jsBigintMaxSize = 16384 := rfl
      omega
    have hfits := int_fits (w := 64) (by decide) hv.1.1
    rw [Fits, ← pow_mul] at hfits
    have habs : (Limbs.int tab).natAbs < 10 ^ (64 * tab.length + 1) := by
      have h1 : (Limbs.int tab).natAbs < 2 ^ (64 * tab.length + 1) := by
        rw [pow_succ]
        have := Nat.two_pow_pos (64 * tab.length)
        generalize 2 ^ (64 * tab.length) = p at hfits this ⊢
        omega
      exact h1.trans_le (Nat.pow_le_pow_left (by omega) _)
    have hdigits := radixDigits_length (show 1 < 10 by omega) (by omega) habs
    show (signedText 10 (Limbs.int tab)).length ≤ _
    rw [signedText, List.length_append, radixText, List.length_map, List.length_reverse]
    split
    · rw [List.length_singleton]
      omega
    · rw [List.length_nil]
      omega

/-- A BigInt of at most `decimalLimit` digits is its text read back, limb for limb. -/
theorem bigint_text_bigint {v : BigIntVal} (hv : v.Canonical) :
    EveryEnd (do
      let str ← BigInt.toString1 v 10
      stringToBigIntErr str)
      (fun ok e => (e = .memory ∧ ¬ ok) ∨ (e = tooLarge ∧ 10 ^ decimalLimit ≤ v.int.natAbs)) (· = v) := by
  refine EveryEnd.of fun ok => ?_
  refine Ends.bind ((BigInt.toString1_spec hv.normal (by omega) (by omega)).post
    (fun e he => he.mono (limit_le_of_refuses hv)) fun _ h => h) fun str hstr => ?_
  obtain ⟨hsize, rfl⟩ := hstr
  have hcs : Utf.decode16 (JSString.str8 (signedText 10 v.int)).units = (signedText 10 v.int).map UInt8.toNat :=
    decode16_narrow _
  have hliteral := literal_signedText v.int
  refine Ends.bind ((stringToBigInt_spec (signedText_length hv hsize)).post (fun e he => he.mono fun h => ?_)
    fun _ h => h) fun o ho => ?_
  · rw [hcs] at h
    exact not_lt.mp fun hlt => not_overlong hlt h
  rw [hcs] at ho
  cases o with
  | none => exact absurd ⟨_, hliteral⟩ ho
  | some u => exact Ends.ret (ho.1.unique hv (ho.2.unique hliteral))

/-- Two limbs. -/
theorem bigint_text_bigint_long : ∃ v, (Asking.run plenty (ExceptT.run do
    let str ← BigInt.toString1 (.long [0, 1]) 10
    stringToBigIntErr str) ()).1 = .ok v ∧ v = .long [0, 1] := by
  have h : (BigIntVal.long [0, 1]).Canonical := ⟨Normal.concat (s := []) (by decide), by decide⟩
  refine EveryEnd.plenty (bigint_text_bigint h) fun e he => ?_
  obtain ⟨-, hno⟩ | ⟨-, hlarge⟩ := he
  · exact hno trivial
  · have hpow : 10 ^ 20 ≤ 10 ^ decimalLimit := Nat.pow_le_pow_right (by omega) (by decide)
    have hsmall : (BigIntVal.long [0, 1]).int.natAbs < 10 ^ 20 := by decide
    omega

end InteropJs.QuickJS
