import InteropJs.Engine.StringBuffer

/-!
# Text of the engine (`quickjs.c`)

`JS_NewStringLen` makes a string of a UTF-8 buffer, `JS_ToCStringLen2` a UTF-8 buffer of a string.

* `newStringLen_made`: the string has the units `newStringUnits` of the buffer, valid UTF-8 or not.
* `toCStringLen2_written`: the text is `cStringBytes` of the units, for a string of either width, and fits
  in its block.
* `string_text_string` and `text_string_text`: what the two do one after the other.
-/

namespace InteropJs.QuickJS

open Hoare

/-! ## From UTF-8 (`JS_NewStringLen`) -/

section NewString

open StringBuffer


/-- `count_ascii`. -/
def countAscii (buf : List UInt8) : Nat := (buf.takeWhile (· < 128)).length

/-- `js_new_string8_len`; nothing is `JS_EXCEPTION`. -/
def newString8Len (buf : List UInt8) : Alloc (Option JSString) := do
  if buf.length = 0 then
    return some (.str8 [])
  match ← realloc (stringBytes buf.length false) with
  | none => return none
  | some _ => return some (.str8 buf)

/-- The loop over the buffer `p`, with at least as much fuel as bytes. -/
def newStringLoop : Nat → List UInt8 → StringBuffer → Alloc StringBuffer
  | _, [], s => return s
  | 0, _ :: _, s => return s
  | n + 1, b :: p, s => do
    if b < 128 then
      newStringLoop n p (← putc8 s b)
    else
      -- `0xFFFFFFFF` for an error
      let (c, next) := (unicodeFromUtf8 (b :: p)).getD (0xFFFFFFFF, b :: p)
      if c < 0x10000 then
        newStringLoop n next (← putc16 s (.ofNat c))
      else if c ≤ 0x10FFFF then
        let s ← putc16 s (.ofNat (getHiSurrogate c))
        newStringLoop n next (← putc16 s (.ofNat (getLoSurrogate c)))
      else
        newStringLoop n (skipInvalid (b :: p)) (← putc16 s 0xfffd)

/-- `JS_NewStringLen`. -/
def newStringLen (buf : List UInt8) : Alloc (Option JSString) := do
  let len1 := countAscii buf
  if jsStringLenMax < len1 then
    return none
  if len1 = buf.length then
    newString8Len buf
  else
    let b ← init (intSize buf.length)
    if b.error then
      return none
    let b ← write8 b (buf.take len1)
    let b ← newStringLoop buf.length (buf.drop len1) b
    finish b

variable {ok w : Prop}

theorem newStringLoop_failed (n : Nat) (p : List UInt8) :
    Yields (Answers ok) (newStringLoop n p failed) (· = failed) := by
  induction n generalizing p with
  | zero => cases p <;> exact Yields.ret rfl
  | succ n ih =>
    cases p with
    | nil => exact Yields.ret rfl
    | cons b p =>
      unfold newStringLoop
      by_cases hb : b < 128
      · rw [if_pos hb]
        exact ih p
      rw [if_neg hb]
      generalize (unicodeFromUtf8 (b :: p)).getD (0xFFFFFFFF, b :: p) = x
      obtain ⟨c, next⟩ := x
      dsimp only
      by_cases h1 : c < 0x10000
      · rw [if_pos h1]
        exact ih next
      rw [if_neg h1]
      by_cases h2 : c ≤ 0x10FFFF
      · rw [if_pos h2]
        exact ih next
      · rw [if_neg h2]
        exact ih _

/-! ### The units without fuel -/

theorem decodePoint_shorter {bs rest : List UInt8} {c : Nat} (h : Utf.decodePoint bs = some (c, rest)) :
    rest.length < bs.length := by
  obtain ⟨rfl, -⟩ := Utf.encodePoint_of_decodePoint h
  have := List.length_pos_iff.mpr (Utf.encodePoint_ne_nil c)
  rw [List.length_append]
  omega

theorem skipInvalid_shorter (b : UInt8) (bs : List UInt8) :
    (skipInvalid (b :: bs)).length < (b :: bs).length := by
  have hdrop := List.length_dropWhile_le (fun b : UInt8 => 0x80 ≤ b && b < 0xc0) (b :: bs)
  unfold skipInvalid
  split
  · simp
  · next x rest hrest =>
    rw [hrest, List.length_cons] at hdrop
    have := List.length_dropWhile_le (fun b : UInt8 => 0x80 ≤ b && b < 0xc0) rest
    omega

theorem newStringFuel_congr {n m : Nat} {bs : List UInt8} (hn : bs.length ≤ n) (hm : bs.length ≤ m) :
    newStringFuel n bs = newStringFuel m bs := by
  induction n generalizing m bs with
  | zero =>
    obtain rfl := List.length_eq_zero_iff.mp (Nat.le_zero.mp hn)
    cases m <;> rfl
  | succ n ih =>
    cases bs with
    | nil => cases m <;> rfl
    | cons b bs =>
      cases m with
      | zero => simp at hm
      | succ m =>
        unfold newStringFuel
        cases h : Utf.decodePoint (b :: bs) with
        | none =>
          have := skipInvalid_shorter b bs
          exact congrArg _ (ih (by omega) (by omega))
        | some x =>
          have := decodePoint_shorter h
          exact congrArg _ (ih (by omega) (by omega))

theorem newStringUnits_some {bs rest : List UInt8} {c : Nat} (h : Utf.decodePoint bs = some (c, rest)) :
    newStringUnits bs = Utf.units c ++ newStringUnits rest := by
  have hlt := decodePoint_shorter h
  cases bs with
  | nil => cases h
  | cons b bs =>
    rw [List.length_cons] at hlt
    rw [newStringUnits, List.length_cons, newStringFuel, h]
    exact congrArg _ (newStringFuel_congr (by omega) le_rfl)

theorem newStringUnits_none {b : UInt8} {bs : List UInt8} (h : Utf.decodePoint (b :: bs) = none) :
    newStringUnits (b :: bs) = 0xfffd :: newStringUnits (skipInvalid (b :: bs)) := by
  have hlt := skipInvalid_shorter b bs
  rw [List.length_cons] at hlt
  rw [newStringUnits, List.length_cons, newStringFuel, h]
  exact congrArg _ (newStringFuel_congr (by omega) le_rfl)

/-- ASCII stands for itself. -/
theorem newStringUnits_ascii {b : UInt8} (h : b < 128) (bs : List UInt8) :
    newStringUnits (b :: bs) = b.toUInt16 :: newStringUnits bs := by
  have hb : b.toNat < 0x80 := h
  have hdecode : Utf.decodePoint (b :: bs) = some (b.toNat, bs) := if_pos hb
  rw [newStringUnits_some hdecode, Utf.units, if_pos (by omega), List.singleton_append]
  congr 1
  apply UInt16.toNat_inj.mp
  rw [Utf.unit_toNat (by omega), UInt8.toNat_toUInt16]

theorem newStringUnits_append_ascii {p : List UInt8} (h : ∀ b ∈ p, b < 128) (bs : List UInt8) :
    newStringUnits (p ++ bs) = p.map UInt8.toUInt16 ++ newStringUnits bs := by
  induction p with
  | nil => rfl
  | cons b p ih =>
    rw [List.cons_append, newStringUnits_ascii (h b (by simp)), ih fun c hc => h c (by simp [hc])]
    rfl

/-- A code point has at most as many units as bytes. -/
theorem units_length_le (c : Nat) : (Utf.units c).length ≤ (Utf.encodePoint c).length := by
  unfold Utf.units
  by_cases hc : c < 0x10000
  · rw [if_pos hc]
    exact List.length_pos_iff.mpr (Utf.encodePoint_ne_nil c)
  · rw [if_neg hc, Utf.encodePoint, if_neg (by omega), if_neg (by omega), if_neg hc]
    simp

theorem newStringFuel_length (n : Nat) (bs : List UInt8) : (newStringFuel n bs).length ≤ bs.length := by
  induction n generalizing bs with
  | zero => cases bs <;> simp [newStringFuel]
  | succ n ih =>
    cases bs with
    | nil => simp [newStringFuel]
    | cons b bs =>
      unfold newStringFuel
      cases h : Utf.decodePoint (b :: bs) with
      | none =>
        have hskip := skipInvalid_shorter b bs
        have hrest := ih (skipInvalid (b :: bs))
        simp only [List.length_cons] at hskip ⊢
        omega
      | some x =>
        obtain ⟨c, rest⟩ := x
        have hsplit := congrArg List.length (Utf.encodePoint_of_decodePoint h).1
        have hunits := units_length_le c
        have hrest := ih rest
        rw [List.length_append] at hsplit
        simp only [List.length_append]
        omega

theorem newStringUnits_length (bs : List UInt8) : (newStringUnits bs).length ≤ bs.length :=
  newStringFuel_length bs.length bs

theorem newStringLoop_spec {n : Nat} {p : List UInt8} (hn : p.length ≤ n) {s : StringBuffer} (hs : s.Fine w)
    (hw : (newStringUnits p).any isWide = true → w) (hlen : s.str.len + (newStringUnits p).length < 2 ^ 31) :
    Yields (Answers ok) (newStringLoop n p s) (Appended ok w s (newStringUnits p)) := by
  induction n generalizing p s with
  | zero =>
    obtain rfl := List.length_eq_zero_iff.mp (Nat.le_zero.mp hn)
    exact Yields.ret (.nil hs)
  | succ n ih =>
    cases p with
    | nil => exact Yields.ret (.nil hs)
    | cons b p =>
      rw [List.length_cons] at hn
      unfold newStringLoop
      by_cases hb : b < 128
      · rw [newStringUnits_ascii hb] at hw hlen ⊢
        rw [if_pos hb]
        rw [List.any_cons, Bool.or_eq_true] at hw
        rw [List.length_cons] at hlen
        refine Yields.appendNext (u := [b.toUInt16]) (putc8_spec hs b (by omega)) (fun s' hs' hlen' => ?_)
          (newStringLoop_failed n p)
        rw [List.length_singleton] at hlen'
        exact ih (by omega) hs' (fun h => hw (.inr h)) (by omega)
      rw [if_neg hb]
      have hfilter := unicodeFromUtf8_filter (b :: p)
      cases hdecode : Utf.decodePoint (b :: p) with
      | none =>
        have hlt := skipInvalid_shorter b p
        rw [List.length_cons] at hlt
        -- an error, or a code above the code points
        have hcode : 0x110000 ≤ ((unicodeFromUtf8 (b :: p)).getD (0xFFFFFFFF, b :: p)).1 := by
          rw [hdecode] at hfilter
          cases hcode : unicodeFromUtf8 (b :: p) with
          | none => simp
          | some x =>
            rw [hcode] at hfilter
            simpa using hfilter
        rw [newStringUnits_none hdecode] at hw hlen ⊢
        rw [List.any_cons, Bool.or_eq_true] at hw
        rw [List.length_cons] at hlen
        generalize (unicodeFromUtf8 (b :: p)).getD (0xFFFFFFFF, b :: p) = x at hcode
        obtain ⟨c, next⟩ := x
        dsimp only at hcode ⊢
        rw [if_neg (by omega), if_neg (by omega)]
        refine Yields.appendNext (u := [0xfffd]) (putc16_spec hs (fun h => hw (.inl h)) (by omega))
          (fun s' hs' hlen' => ?_) (newStringLoop_failed n _)
        rw [List.length_singleton] at hlen'
        exact ih (by omega) hs' (fun h => hw (.inr h)) (by omega)
      | some x =>
        obtain ⟨c, rest⟩ := x
        have hlt := decodePoint_shorter hdecode
        rw [List.length_cons] at hlt
        have hcode : unicodeFromUtf8 (b :: p) = some (c, rest) ∧ c < 0x110000 := by
          rw [hdecode] at hfilter
          simpa using Option.filter_eq_some_iff.mp hfilter
        rw [newStringUnits_some hdecode, units_ofNat] at hw hlen ⊢
        rw [List.any_append, Bool.or_eq_true] at hw
        rw [List.length_append] at hlen
        rw [hcode.1]
        dsimp only [Option.getD_some]
        by_cases h1 : c < 0x10000
        · have hsmall : ¬ 0x10000 ≤ c := by omega
          rw [if_neg hsmall] at hw hlen ⊢
          rw [if_pos h1]
          rw [List.length_singleton] at hlen
          refine Yields.appendNext (putc16_spec hs (fun h => hw (.inl (by simp [h]))) (by omega))
            (fun s' hs' hlen' => ?_) (newStringLoop_failed n rest)
          rw [List.length_singleton] at hlen'
          exact ih (by omega) hs' (fun h => hw (.inr h)) (by omega)
        · have hlarge : 0x10000 ≤ c := by omega
          rw [if_pos hlarge] at hw hlen ⊢
          rw [if_neg h1, if_pos (show c ≤ 0x10FFFF by omega)]
          simp only [List.length_cons, List.length_nil] at hlen
          refine Yields.appendNext (u := [.ofNat (getHiSurrogate c)])
            (putc16_spec hs (fun h => hw (.inl (by simp [h]))) (by omega)) (fun s' hs' hlen' => ?_)
            (newStringLoop_failed n rest)
          rw [List.length_singleton] at hlen'
          refine Yields.appendNext (u := [.ofNat (getLoSurrogate c)])
            (putc16_spec hs' (fun h => hw (.inl (by simp [h]))) (by omega)) (fun s₂ hs₂ hlen₂ => ?_)
            (newStringLoop_failed n rest)
          rw [List.length_singleton] at hlen₂
          exact ih (by omega) hs₂ (fun h => hw (.inr h)) (by omega)

theorem take_countAscii (buf : List UInt8) : buf.take (countAscii buf) = buf.takeWhile (· < 128) :=
  (List.prefix_iff_eq_take.mp (List.takeWhile_prefix _)).symm

theorem countAscii_ascii (buf : List UInt8) : ∀ b ∈ buf.take (countAscii buf), b < 128 := by
  intro b hb
  rw [take_countAscii] at hb
  simpa using List.mem_takeWhile_imp hb

/-- The ASCII bytes at the start, and the rest. -/
theorem newStringUnits_split (buf : List UInt8) :
    newStringUnits buf = (buf.take (countAscii buf)).map UInt8.toUInt16 ++
      newStringUnits (buf.drop (countAscii buf)) := by
  rw [← newStringUnits_append_ascii (countAscii_ascii buf), List.take_append_drop]

theorem newString8Len_spec (buf : List UInt8) :
    Yields (Answers ok) (newString8Len buf)
      (Made ok (buf.map UInt8.toUInt16) ((buf.map UInt8.toUInt16).any isWide)) := by
  have hnarrow : (buf.map UInt8.toUInt16).any isWide = false := by
    simp [isWide_toUInt16]
  unfold newString8Len
  by_cases hempty : buf.length = 0
  · rw [if_pos hempty]
    obtain rfl := List.length_eq_zero_iff.mp hempty
    exact Yields.ret ⟨rfl, rfl⟩
  rw [if_neg hempty]
  refine Yields.bind (realloc_spec _) fun o ho => ?_
  cases o with
  | none => exact Yields.ret fun hg => ho rfl hg.1
  | some slack => exact Yields.ret ⟨rfl, hnarrow.symm⟩

/-- `JS_NewStringLen` makes the string of the buffer, valid UTF-8 or not, in 16 bits exactly when one of
its units needs 16 bits; or a request was refused or the length ran out. A buffer that is longer than a string
is not widened. -/
theorem newStringLen_made {buf : List UInt8} (hbuf : buf.length < 2 ^ 31)
    (hwide : (newStringUnits buf).any isWide = true → buf.length ≤ jsStringLenMax) :
    Yields (Answers ok) (newStringLen buf) (Made ok (newStringUnits buf) ((newStringUnits buf).any isWide)) := by
  have hsplit := newStringUnits_split buf
  have hunits := newStringUnits_length buf
  have hle : countAscii buf ≤ buf.length := (List.takeWhile_prefix _).length_le
  unfold newStringLen
  dsimp only
  by_cases hmax : jsStringLenMax < countAscii buf
  · rw [if_pos hmax]
    refine Yields.ret fun hg => ?_
    have hlong := hg.2
    rw [hsplit, List.length_append, List.length_map, List.length_take] at hlong
    omega
  rw [if_neg hmax]
  by_cases hascii : countAscii buf = buf.length
  · rw [if_pos hascii, hsplit, hascii, List.take_length, List.drop_length, show newStringUnits [] = [] from rfl,
      List.append_nil]
    exact newString8Len_spec buf
  rw [if_neg hascii]
  rw [intSize_of_lt hbuf]
  refine Yields.bind (init2_spec (w := (newStringUnits buf).any isWide = true) fun hw _ => hwide hw) fun s hs => ?_
  obtain ⟨hfine, hempty, hnarrow⟩ | ⟨rfl, hreason⟩ := hs
  · simp only [hfine.error, Bool.false_eq_true, if_false]
    have hzero : s.str.len = 0 := congrArg List.length hempty
    have htake : (buf.take (countAscii buf)).length = countAscii buf := by
      rw [List.length_take, Nat.min_eq_left hle]
    have hloop {w : Prop} (hfine : s.Fine w) (hw : (newStringUnits buf).any isWide = true → w) :
        Yields (Answers ok) (do
          let b ← write8 s (buf.take (countAscii buf))
          newStringLoop buf.length (buf.drop (countAscii buf)) b)
          (Appended ok w s (newStringUnits buf)) := by
      rw [hsplit, List.any_append, Bool.or_eq_true] at hw
      have hlength := congrArg List.length hsplit
      rw [List.length_append, List.length_map, htake] at hlength
      rw [hsplit]
      refine Yields.appendNext (write8_spec hfine _ (by omega)) (fun s' hs' hlen' => ?_) (newStringLoop_failed _ _)
      rw [List.length_map, htake] at hlen'
      refine newStringLoop_spec ?_ hs' (fun h => hw (.inr h)) (by omega)
      rw [List.length_drop]
      omega
    have hend := Yields.bind (hloop hfine id) fun s' hs' => finish_spec hempty hs'
    have hsame : (!(newStringUnits buf).isEmpty && (s.str.isWideChar || (newStringUnits buf).any isWide)) =
        (newStringUnits buf).any isWide := by
      rw [hnarrow]
      cases newStringUnits buf <;> simp
    rwa [bind_assoc, hsame] at hend
  · exact Yields.ret fun hg => hreason hg.1

end NewString

/-! ## To UTF-8 (`JS_ToCStringLen2`) -/

section ToCString

/-- The bytes that a request of `max_len` units asks for, as a `size_t`. -/
def requestBytes (maxLen : Int) : Nat := ((16 + maxLen + 1) % 0x10000000000000000).toNat

/-- The bytes of an 8-bit unit. -/
def latin1Bytes (c : UInt8) : List UInt8 :=
  if c.toNat < 0x80 then [c]
  else [.ofNat (c.toNat >>> 6 ||| 0xc0), .ofNat (c.toNat &&& 0x3f ||| 0x80)]

/-- The bytes of 16-bit units; with `cesu8` a pair is written as two units. -/
def wideBytes (cesu8 : Bool) : List UInt16 → List UInt8
  | [] => []
  | [c] => if c.toNat < 0x80 then [c.toUInt8] else unicodeToUtf8 c.toNat
  | c :: c1 :: src =>
    if c.toNat < 0x80 then c.toUInt8 :: wideBytes cesu8 (c1 :: src)
    else if isHiSurrogate c.toNat && !cesu8 && isLoSurrogate c1.toNat then
      unicodeToUtf8 (fromSurrogate c.toNat c1.toNat) ++ wideBytes cesu8 src
    else
      unicodeToUtf8 c.toNat ++ wideBytes cesu8 (c1 :: src)

/-- The text of a string, and the size of the block that holds it behind the header. -/
structure CText where
  bytes : List UInt8
  room : Nat


/-- `JS_ToCStringLen2` of a string; nothing is `NULL`. -/
def toCStringLen2 (str : JSString) (cesu8 : Bool) : Alloc (Option CText) :=
  match str with
  | .str8 src => do
    let count := (src.map fun c => c.toNat >>> 7).sum
    if count = 0 then
      -- the string itself, with its terminator
      return some ⟨src, src.length + 1⟩
    let request := requestBytes (Int.bmod (src.length + count) 0x100000000)
    match ← realloc request with
    | none => return none
    | some _ => return some ⟨src.flatMap latin1Bytes, request - 16⟩
  | .str16 src => do
    let request := requestBytes (Int.bmod (src.length * 3) 0x100000000)
    match ← realloc request with
    | none => return none
    | some _ => return some ⟨wideBytes cesu8 src, request - 16⟩

/-! ### What is written -/

theorem isHiSurrogate_eq (c : UInt16) : isHiSurrogate c.toNat = Utf.isHigh c := by
  unfold isHiSurrogate Utf.isHigh
  rw [Nat.shiftRight_eq_div_pow, decide_eq_decide]
  omega

theorem isLoSurrogate_eq (c : UInt16) : isLoSurrogate c.toNat = Utf.isLow c := by
  unfold isLoSurrogate Utf.isLow
  rw [Nat.shiftRight_eq_div_pow, decide_eq_decide]
  omega

/-- The bytes of a unit of its own. -/
theorem unitBytes_eq (c : UInt16) :
    (if c.toNat < 0x80 then [c.toUInt8] else unicodeToUtf8 c.toNat) = Utf.encodePoint c.toNat := by
  have hlt := c.toNat_lt
  by_cases hc : c.toNat < 0x80
  · rw [if_pos hc, Utf.encodePoint, if_pos hc]
    rfl
  · rw [if_neg hc, unicodeToUtf8_eq (by omega)]

theorem unitBytes_append (c : UInt16) (bs : List UInt8) :
    (if c.toNat < 0x80 then c.toUInt8 :: bs else unicodeToUtf8 c.toNat ++ bs) =
      Utf.encodePoint c.toNat ++ bs := by
  rw [← unitBytes_eq]
  by_cases hc : c.toNat < 0x80
  · rw [if_pos hc, if_pos hc, List.singleton_append]
  · rw [if_neg hc, if_neg hc]

/-- Without pairs, every unit is written on its own. -/
theorem wideBytes_cesu8 (us : List UInt16) : wideBytes true us = Utf.encode8 (us.map UInt16.toNat) := by
  induction us with
  | nil => rfl
  | cons c us ih =>
    cases us with
    | nil => rw [wideBytes, unitBytes_eq, List.map_singleton, Utf.encode8_cons, Utf.encode8_nil, List.append_nil]
    | cons c1 us =>
      rw [wideBytes, Bool.not_true, Bool.and_false, Bool.false_and, if_neg Bool.false_ne_true, ih,
        unitBytes_append]
      rfl

theorem wideBytes_utf8 (us : List UInt16) : wideBytes false us = cStringBytes us := by
  unfold cStringBytes
  induction us using Utf.decode16.induct with
  | case1 => rfl
  | case2 c => rw [wideBytes, unitBytes_eq, Utf.decode16, Utf.encode8_cons, Utf.encode8_nil, List.append_nil]
  | case3 c c1 src hpair ih =>
    obtain ⟨hhi, hlo⟩ := Bool.and_eq_true_iff.mp hpair
    have hbig : ¬ c.toNat < 0x80 := by
      simp only [Utf.isHigh, decide_eq_true_eq] at hhi
      omega
    obtain ⟨p, hp, -, hlt, -⟩ := Utf.fromSurrogates_split hpair
    have hfrom : fromSurrogate c.toNat c1.toNat = p := hp
    rw [wideBytes, if_neg hbig, isHiSurrogate_eq, isLoSurrogate_eq, hhi, hlo, if_pos (by rfl), ih, hfrom,
      unicodeToUtf8_eq (by omega), Utf.decode16, if_pos hpair, Utf.encode8_cons, hp]
  | case4 c c1 src hpair ih =>
    have hno : (isHiSurrogate c.toNat && !false && isLoSurrogate c1.toNat) = false := by
      rw [isHiSurrogate_eq, isLoSurrogate_eq, Bool.not_false, Bool.and_true]
      simpa using hpair
    rw [wideBytes, hno, if_neg Bool.false_ne_true, ih, unitBytes_append, Utf.decode16, if_neg hpair,
      Utf.encode8_cons]

theorem latin1Bytes_eq (c : UInt8) : latin1Bytes c = Utf.encodePoint c.toNat := by
  have hlt := c.toNat_lt
  unfold latin1Bytes Utf.encodePoint
  by_cases hc : c.toNat < 0x80
  · rw [if_pos hc, if_pos hc, Utf.byte_of_toNat]
  · have hlead : c.toNat / 64 ||| 0xc0 = c.toNat / 64 + 0xc0 := or_mark 3 6 (by omega)
    have hnext : c.toNat % 64 ||| 0x80 = c.toNat % 64 + 0x80 := or_mark 2 6 (Nat.mod_lt _ (by omega))
    rw [if_neg hc, if_neg hc, if_pos (by omega), Nat.shiftRight_eq_div_pow, and_63, hlead, hnext]
    rfl

/-- 8-bit units have no surrogates. -/
theorem decode16_narrow (us : List UInt8) : Utf.decode16 (us.map UInt8.toUInt16) = us.map UInt8.toNat := by
  induction us with
  | nil => rfl
  | cons c us ih =>
    have hlow : Utf.isHigh c.toUInt16 = false := by
      have := c.toNat_lt
      rw [Utf.isHigh, UInt8.toNat_toUInt16, decide_eq_false_iff_not]
      omega
    rw [List.map_cons, Utf.decode16_cons_of_not_high hlow, ih, UInt8.toNat_toUInt16, List.map_cons]

theorem narrowBytes_eq (us : List UInt8) : us.flatMap latin1Bytes = Utf.encode8 (us.map UInt8.toNat) := by
  induction us with
  | nil => rfl
  | cons c us ih => rw [List.flatMap_cons, ih, latin1Bytes_eq, List.map_cons, Utf.encode8_cons]

/-! ### Room for it -/

theorem encodePoint_length_le (c : Nat) : (Utf.encodePoint c).length ≤ if c < 0x10000 then 3 else 4 := by
  unfold Utf.encodePoint
  by_cases h1 : c < 0x80
  · simp [h1, show c < 0x10000 by omega]
  by_cases h2 : c < 0x800
  · simp [h1, h2, show c < 0x10000 by omega]
  by_cases h3 : c < 0x10000 <;> simp [h1, h2, h3]

theorem encode8_units_length (us : List UInt16) :
    (Utf.encode8 (us.map UInt16.toNat)).length ≤ us.length * 3 := by
  induction us with
  | nil => rfl
  | cons c us ih =>
    have hc := encodePoint_length_le c.toNat
    rw [if_pos c.toNat_lt] at hc
    rw [List.map_cons, Utf.encode8_cons, List.length_append, List.length_cons]
    omega

/-- A pair takes four bytes, but it is two units. -/
theorem cStringBytes_length (us : List UInt16) : (cStringBytes us).length ≤ us.length * 3 := by
  unfold cStringBytes
  induction us using Utf.decode16.induct with
  | case1 => rfl
  | case2 c =>
    have hc := encodePoint_length_le c.toNat
    rw [if_pos c.toNat_lt] at hc
    simpa [Utf.decode16] using hc
  | case3 c c1 src hpair ih =>
    have hp := encodePoint_length_le (Utf.fromSurrogates c c1)
    rw [Utf.decode16, if_pos hpair, Utf.encode8_cons, List.length_append, List.length_cons, List.length_cons]
    split at hp <;> omega
  | case4 c c1 src hpair ih =>
    have hc := encodePoint_length_le c.toNat
    rw [if_pos c.toNat_lt] at hc
    rw [Utf.decode16, if_neg hpair, Utf.encode8_cons, List.length_append, List.length_cons]
    omega

theorem narrowBytes_length (us : List UInt8) :
    (us.flatMap latin1Bytes).length = us.length + (us.map fun c => c.toNat >>> 7).sum := by
  induction us with
  | nil => rfl
  | cons c us ih =>
    have hlt := c.toNat_lt
    have hbytes : (latin1Bytes c).length = 1 + c.toNat >>> 7 := by
      unfold latin1Bytes
      rw [Nat.shiftRight_eq_div_pow]
      by_cases hc : c.toNat < 0x80
      · rw [if_pos hc, List.length_singleton]
        omega
      · rw [if_neg hc, List.length_cons, List.length_singleton]
        omega
    rw [List.flatMap_cons, List.length_append, ih, hbytes, List.map_cons, List.sum_cons, List.length_cons]
    omega

theorem shift_sum_le (us : List UInt8) : (us.map fun c => c.toNat >>> 7).sum ≤ us.length := by
  induction us with
  | nil => rfl
  | cons c us ih =>
    have hlt := c.toNat_lt
    rw [List.map_cons, List.sum_cons, List.length_cons, Nat.shiftRight_eq_div_pow]
    omega

/-- A request of `n` bytes has room for them and a terminator, also where `n` is no `int`: then it asks
for almost all of the address space. -/
theorem requestBytes_room {n : Nat} (h : n ≤ jsStringLenMax * 3) :
    n + 1 ≤ requestBytes (Int.bmod n 0x100000000) - 16 := by
  unfold jsStringLenMax at h
  unfold requestBytes
  rw [Int.bmod_def]
  split <;> omega

/-- The text of the units, or nothing when memory ran out. -/
def Written (ok : Prop) (cesu8 : Bool) (us : List UInt16) : Option CText → Prop
  | some text => text.bytes.length + 1 ≤ text.room ∧
      text.bytes = if cesu8 then Utf.encode8 (us.map UInt16.toNat) else cStringBytes us
  | none => ¬ ok

theorem narrow_written (us : List UInt8) (cesu8 : Bool) :
    us.flatMap latin1Bytes =
      if cesu8 then Utf.encode8 ((us.map UInt8.toUInt16).map UInt16.toNat)
      else cStringBytes (us.map UInt8.toUInt16) := by
  rw [narrowBytes_eq]
  cases cesu8 with
  | false => rw [if_neg Bool.false_ne_true, cStringBytes, decode16_narrow]
  | true =>
    rw [if_pos rfl, List.map_map]
    exact congrArg _ (List.map_congr_left fun c _ => (UInt8.toNat_toUInt16 c).symm)

/-- A unit of 8 bits has at most two bytes. -/
theorem cStringBytes_narrow_length (us : List UInt8) :
    (cStringBytes (us.map UInt8.toUInt16)).length ≤ us.length * 2 := by
  have hbytes := narrow_written us false
  rw [if_neg Bool.false_ne_true] at hbytes
  have hsum := shift_sum_le us
  rw [← hbytes, narrowBytes_length]
  omega

/-- Bytes without a high bit are their own text. -/
theorem narrowBytes_ascii {us : List UInt8} (h : (us.map fun c => c.toNat >>> 7).sum = 0) :
    us.flatMap latin1Bytes = us := by
  induction us with
  | nil => rfl
  | cons c us ih =>
    rw [List.map_cons, List.sum_cons, Nat.shiftRight_eq_div_pow] at h
    have hc : c.toNat < 0x80 := by omega
    rw [List.flatMap_cons, ih (by omega), latin1Bytes, if_pos hc, List.singleton_append]

/-- `JS_ToCStringLen2` of a string of either width: its text in UTF-8, unmatched surrogates included, and
nothing is written behind the block. -/
theorem toCStringLen2_written {ok : Prop} {str : JSString} {cesu8 : Bool}
    (hlen : str.len ≤ jsStringLenMax) :
    Yields (Answers ok) (toCStringLen2 str cesu8) (Written ok cesu8 str.units) := by
  unfold toCStringLen2
  cases str with
  | str8 src =>
    have hsrc : src.length ≤ jsStringLenMax := by simpa [JSString.len, JSString.units] using hlen
    have hbytes := narrow_written src cesu8
    dsimp only
    by_cases hcount : (src.map fun c => c.toNat >>> 7).sum = 0
    · rw [if_pos hcount]
      rw [narrowBytes_ascii hcount] at hbytes
      exact Yields.ret ⟨le_rfl, hbytes⟩
    rw [if_neg hcount]
    refine Yields.bind (realloc_spec _) fun o ho => ?_
    cases o with
    | none => exact Yields.ret (ho rfl)
    | some slack =>
      refine Yields.ret ⟨?_, hbytes⟩
      have hsum := shift_sum_le src
      have hroom := requestBytes_room (n := src.length + (src.map fun c => c.toNat >>> 7).sum) (by omega)
      rw [narrowBytes_length]
      exact hroom
  | str16 src =>
    have hsrc : src.length ≤ jsStringLenMax := hlen
    have hbytes : wideBytes cesu8 src =
        if cesu8 then Utf.encode8 (src.map UInt16.toNat) else cStringBytes src := by
      cases cesu8 with
      | false => exact wideBytes_utf8 src
      | true => exact wideBytes_cesu8 src
    refine Yields.bind (realloc_spec _) fun o ho => ?_
    cases o with
    | none => exact Yields.ret (ho rfl)
    | some slack =>
      refine Yields.ret ⟨?_, hbytes⟩
      have hlength : (wideBytes cesu8 src).length ≤ src.length * 3 := by
        rw [hbytes]
        cases cesu8 with
        | false => exact cStringBytes_length src
        | true => exact encode8_units_length src
      have hroom := requestBytes_room (n := src.length * 3) (by omega)
      exact (Nat.succ_le_succ hlength).trans hroom

end ToCString

/-! ## There and back -/

section RoundTrip

variable {ok : Prop}

/-- A string goes to UTF-8 and back unchanged, unmatched surrogates included, whatever width it was stored
in; it comes back in the smaller width that holds it. A text of a 16-bit string must itself be no longer than
a string. -/
theorem string_text_string {str : JSString} (hlen : str.len ≤ jsStringLenMax)
    (hwide : str.isWideChar = true → (cStringBytes str.units).length ≤ jsStringLenMax) :
    EveryRun (do
      match ← toCStringLen2 str false with
      | none => return none
      | some text => newStringLen text.bytes) fun ok =>
      StringBuffer.Made ok str.units (str.units.any isWide) := by
  refine EveryRun.of fun ok => Yields.bind (toCStringLen2_written hlen) fun o ho => ?_
  cases o with
  | none => exact Yields.ret fun hg => ho hg.1
  | some text =>
    have hbytes : text.bytes = cStringBytes str.units := ho.2
    have hunits : newStringUnits text.bytes = str.units := by
      rw [hbytes, cStringBytes, newStringUnits_encode8 (Utf.decode16_lt _), Utf.encode16_decode16]
    have hlimit : jsStringLenMax < 2 ^ 30 := by decide
    have hmade : Yields (Answers ok) (newStringLen text.bytes)
        (StringBuffer.Made ok (newStringUnits text.bytes) ((newStringUnits text.bytes).any isWide)) := by
      cases str with
      | str8 src =>
        -- at most two bytes for a unit, and no unit is wide
        have hlength : text.bytes.length ≤ src.length * 2 := by
          rw [hbytes, JSString.units]
          exact cStringBytes_narrow_length src
        have hsrc : src.length ≤ jsStringLenMax := by simpa [JSString.len, JSString.units] using hlen
        refine newStringLen_made (by omega) fun h => ?_
        rw [hunits] at h
        simp [JSString.units, isWide_toUInt16] at h
      | str16 src =>
        have hlength := hwide rfl
        rw [← hbytes] at hlength
        exact newStringLen_made (by omega) fun _ => hlength
    rwa [hunits] at hmade

/-- A surrogate without its partner, and a unit that needs 8 bits only. -/
theorem string_text_string_lone : EveryRun (do
    match ← toCStringLen2 (.str16 [0xD800, 0xE9]) false with
    | none => return none
    | some text => newStringLen text.bytes) fun ok => StringBuffer.Made ok [0xD800, 0xE9] true := by
  have hlen : (JSString.str16 [0xD800, 0xE9]).len ≤ jsStringLenMax := by decide
  exact string_text_string hlen (by decide)

/-- A buffer goes to a string and back: every invalid sequence comes back as U+FFFD, and a buffer that is
UTF-8 comes back unchanged; unless a request is refused. -/
theorem text_string_text {buf : List UInt8} (hbuf : buf.length ≤ jsStringLenMax) :
    EveryRun (do
      match ← newStringLen buf with
      | none => return none
      | some str => toCStringLen2 str false) fun ok o =>
    match o with
    | some text => text.bytes = cStringBytes (newStringUnits buf) ∧ text.bytes.length + 1 ≤ text.room ∧
        ∀ cs, Utf.decode8 buf = some cs → (∀ c ∈ cs, Utf.IsScalar c) → text.bytes = buf
    | none => ¬ ok := by
  have hunits := newStringUnits_length buf
  have hint : buf.length < 2 ^ 31 := by
    unfold jsStringLenMax at hbuf
    omega
  refine EveryRun.of fun ok => Yields.bind (newStringLen_made hint fun _ => hbuf) fun o ho => ?_
  cases o with
  | none => exact Yields.ret fun hg => ho ⟨hg, by omega⟩
  | some str =>
    obtain ⟨hstr, -⟩ := ho
    have hlen : str.len ≤ jsStringLenMax := by
      rw [JSString.len, hstr]
      omega
    refine (toCStringLen2_written hlen).post fun o ho => ?_
    cases o with
    | none => exact ho
    | some text =>
      obtain ⟨hroom, hbytes⟩ := ho
      have hbytes' : text.bytes = cStringBytes (newStringUnits buf) := hstr ▸ hbytes
      refine ⟨hbytes', hroom, fun cs hcs hscalar => ?_⟩
      have hbuf' := Utf.encode8_of_decode8 hcs
      rw [hbytes', hbuf', newStringUnits_encode8 fun c hc => (hscalar c hc).1, cStringBytes,
        Utf.decode16_encode16 hscalar]

/-- The second byte starts no code point. -/
theorem text_string_text_invalid : ∃ text,
    (Asking.run plenty (do
      match ← newStringLen [0x61, 0xFF] with
      | none => return none
      | some str => toCStringLen2 str false) ()).1 = some text ∧ text.bytes = [0x61, 0xEF, 0xBF, 0xBD] := by
  have hrun := text_string_text (show [0x61, 0xFF].length ≤ jsStringLenMax by decide) Unit plenty ()
  revert hrun
  generalize (Asking.run plenty _ ()).1 = o
  intro hrun
  cases o with
  | none => exact absurd (unrefused_plenty _) hrun
  | some text => exact ⟨text, rfl, hrun.1.trans (by decide)⟩

end RoundTrip

end InteropJs.QuickJS
