import Mathlib
import InteropJs.Cangjie.Strings

/-!
# Integers

`toExtern` makes a number of the narrow types and a BigInt of `Int64`, `UInt32`, `UInt64` and `BigInt`,
the latter with a call of the global `BigInt` on the decimal text. `fromExtern` truncates a number, and
parses the text of a BigInt.

* `Platform.ExactBigInt` is what is asked of the engine: the intrinsic `BigInt` and the string
  conversion of a BigInt are exact decimal conversions, up to the size limit and as far as the memory
  goes.
* `converted_bigint` says what the engine makes of a wide value when the global `BigInt` is the
  intrinsic one; `fromExtern_number_spec` and `fromExtern_bigint_spec` say what is read.
* `integers_exact` takes the two ways together, for all pairs of types.
-/

namespace InteropJs

open Hoare

variable {P : Platform} {r : Nat} {b : World P} {l : Loc P} {L : Multiset Resource} {st : Store P}

/-! ## Decimal texts -/

/-- The units of the decimal text of `i`. -/
def decimal (i : Int) : List UInt16 := Utf.encode16 (Utf.points (toString i))

theorem zero_notMem_toString (i : Int) : 0 ∉ Utf.points (toString i) := by
  have digits : ∀ n : Nat, ∀ c ∈ n.repr.toList, c.toNat ≠ 0 := by
    intro n c hc h0
    rw [Nat.toList_repr] at hc
    have hdigit := Nat.isDigit_of_mem_toDigits (by decide) (by decide) hc
    have hzero : c = Char.ofNat 0 := by rw [← Char.ofNat_toNat c, h0]
    rw [hzero] at hdigit
    exact absurd hdigit (by decide)
  intro hz
  obtain ⟨c, hc, h0⟩ := List.mem_map.mp hz
  rw [Int.toString_eq_repr, Int.repr_eq_if] at hc
  by_cases hi : 0 ≤ i
  · rw [if_pos hi] at hc
    exact digits _ c hc h0
  · rw [if_neg hi, String.toList_append, List.mem_append] at hc
    obtain hc | hc := hc
    · obtain rfl : c = '-' := by simpa using hc
      exact absurd h0 (by decide)
    · exact digits _ c hc h0

theorem sentUnits_toString (i : Int) : sentUnits (toString i) = decimal i :=
  sentUnits_eq_iff.mpr (zero_notMem_toString i)

/-- The bytes of a decimal text are read as that text. -/
theorem string?_decimal (i : Int) : CStr.string? (cStringBytes (decimal i)) = some (toString i) := by
  have hpoints : Utf.decode16 (decimal i) = Utf.points (toString i) :=
    Utf.decode16_encode16 (Utf.points_isScalar _)
  have h := string?_cStringBytes (decimal i)
  rw [hpoints, untilZero_eq_iff.mpr (zero_notMem_toString i), Utf.ofPoints_points] at h
  rwa [CStr.string?, CStr.text_text] at h

theorem parseBigInt_toString (i : Int) : parseBigInt (toString i) = .ret i := by
  rw [parseBigInt, Int.toString_eq_repr, Int.toInt?_repr]

theorem parseBigInt_empty : parseBigInt "" = .raise .illegalArgument := by
  have h : "".toInt? = none := by
    rw [String.toInt?_eq_none_iff, ← Bool.not_eq_true, String.isInt_iff]
    simp [String.isNat_iff]
  rw [parseBigInt, h]

/-! ## The engine's BigInts -/

/-- The conversions of a BigInt are exact (module doc). `intrinsic` is the function `BigInt`, `limit` the
number of digits that the size limit of the engine leaves, and `starved i h` says that the engine has not
the memory for the call with the text of `i` in the heap `h`. -/
structure Platform.ExactBigInt (P : Platform) (intrinsic : JSVal) (limit : Nat)
    (starved : Int → P.Heap → Prop) : Prop where
  /-- The 64-bit types have 20 digits. -/
  limit_ge : 20 ≤ limit
  parse : ∀ i h x, (P.call intrinsic .undefined [.string (decimal i)] h).1 = .ok x → x = .bigint i
  parses : ∀ i h, ¬ starved i h → i.natAbs < 10 ^ limit →
    (P.call intrinsic .undefined [.string (decimal i)] h).1 = .ok (.bigint i)
  print : ∀ i h us, (P.toString (.bigint i) h).1 = .ok us → us = decimal i

/-- The lookup of the global `BigInt`. -/
def Loc.lookupBigInt (l : Loc P) : Except JSVal JSVal × P.Heap :=
  P.getProperty (P.globalObject l.heap) (.ofCString (utf8 "BigInt")) l.heap

/-- The integer of a value that goes through the global `BigInt`. -/
def Any.wide? : Any → Option Int
  | .int .int64 i | .int .uint32 i | .int .uint64 i => some i.val
  | .bigInt i => some i
  | _ => none

theorem newJSString_decimal (i : Int) (h : P.Heap) :
    P.newJSString (mallocCString (toString i)) h =
      EngineM.andThen (P.newString (decimal i)) (fun _ h => (.ok (.string (decimal i)), h)) h := by
  rw [Platform.newJSString, newStringUnits_mallocCString, sentUnits_toString]

theorem converted_wide {v : Any} {i : Int} (hv : v.wide? = some i) :
    l.converted v = l.clearError.newBigint (mallocCString (toString i)) := by
  cases v with
  | int t x => cases t <;> cases hv <;> rfl
  | bigInt x =>
    cases hv
    rfl
  | _ => cases hv

/-- What the engine makes of a wide value with the function `f` that the lookup gave. -/
theorem converted_bigint {v : Any} {i : Int} {f : JSVal} {h₁ : P.Heap} (hv : v.wide? = some i)
    (hf : l.lookupBigInt = (.ok f, h₁)) :
    l.converted v = match P.newString (decimal i) h₁ with
      | (.error x, h) => (none, { l.clearError with heap := h, exception := some x })
      | (.ok _, h) => ((P.call f .undefined [.string (decimal i)] h).1.toOption,
          ({ l.clearError with heap := h }.started f f.callRuns).after
            (P.call f .undefined [.string (decimal i)] h)) := by
  have hlook : P.getProperty (P.globalObject l.clearError.heap) (.ofCString (utf8 "BigInt"))
      l.clearError.heap = (.ok f, h₁) := hf
  rw [converted_wide hv, Loc.newBigint]
  simp only [hlook]
  show Loc.callBigint { l.clearError with heap := h₁ } f _ = _
  rw [Loc.callBigint, newJSString_decimal, EngineM.andThen]
  rcases P.newString (decimal i) h₁ with ⟨x | u, h⟩ <;> rfl

/-- A conversion takes the heap along the lookup of `BigInt`, a new string, and a call of what was found. -/
theorem converted_follows {R : P.Heap → P.Heap → Prop} (hrefl : ∀ h, R h h)
    (htrans : ∀ {h₁ h₂ h₃}, R h₁ h₂ → R h₂ h₃ → R h₁ h₃) (hlook : R l.heap l.lookupBigInt.2)
    (hstring : ∀ us h, R h (P.newString us h).2)
    (hcall : ∀ us h, R h (P.call (l.lookupBigInt.1.toOption.getD .undefined) .undefined [.string us] h).2)
    (v : Any) : R l.heap (l.converted v).2.heap := by
  have hjs (s : CStr) (h : P.Heap) : R h (P.newJSString s h).2 := by
    have hnew := hstring (newStringUnits s.text) h
    unfold Platform.newJSString EngineM.andThen
    rcases hout : P.newString (newStringUnits s.text) h with ⟨e | u, h'⟩ <;> rwa [hout] at hnew
  cases hw : v.wide? with
  | none =>
    cases v with
    | int t i => cases t <;> first | exact hrefl _ | cases hw
    | bigInt i => cases hw
    | string str =>
      show R l.heap (l.clearError.after _).heap
      rw [Loc.after_heap]
      exact hjs _ _
    | _ => exact hrefl _
  | some i =>
    have hfound : (l.clearError.after l.lookupBigInt).heap = l.lookupBigInt.2 := Loc.after_heap _ _
    rw [converted_wide hw]
    show R l.heap (Loc.callBigint (l.clearError.after l.lookupBigInt)
      (l.lookupBigInt.1.toOption.getD .undefined) (mallocCString (toString i))).2.heap
    unfold Loc.callBigint
    rw [hfound, newJSString_decimal, EngineM.andThen]
    have hnew := htrans hlook (hstring (decimal i) l.lookupBigInt.2)
    rcases hout : P.newString (decimal i) l.lookupBigInt.2 with ⟨e | u, h⟩ <;> rw [hout] at hnew
    · exact hnew
    · dsimp only
      rw [Loc.after_heap]
      exact htrans hnew (hcall _ h)

/-! ## What is read -/

/-- The integer of a value of an integer type. -/
def Any.integer? : Any → Option Int
  | .int _ i => some i.val
  | .bigInt i => some i
  | _ => none

/-- A target among the integer types. -/
def Target.isInteger : Target → Bool
  | .int _ | .bigInt => true
  | _ => false

/-- The value `i` of the target type, or `OverflowException` if it has none. -/
def Target.exactly (U : Target) (i : Int) : Except Exn Any :=
  match U with
  | .int t => if h : t.min ≤ i ∧ i ≤ t.max then .ok (.int t ⟨i, h.1, h.2⟩) else .error .overflow
  | .bigInt => .ok (.bigInt i)
  | _ => .error .overflow

/-- The end of a conversion to a fixed-width type. -/
theorem ofInt_spec {I : Store P → Prop} (t : IntType) (i : Int) :
    Runs I (do return Any.int t (← t.ofInt i)) (fun a _ => (Target.int t).exactly i = .ok a)
      (fun x _ => (Target.int t).exactly i = .error x) := by
  unfold IntType.ofInt Target.exactly
  by_cases h : t.min ≤ i ∧ i ≤ t.max
  · rw [dif_pos h]
    simp only [h, and_self, dite_true]
    exact (Runs.ret _).pre fun _ _ => rfl
  · rw [dif_neg h]
    simp only [h, dite_false]
    exact (Runs.raise _).pre fun _ _ => rfl

theorem fromExtern_number_spec {e : Payload} {i : Int} {U : Target} (hU : U.isInteger = true)
    (he : e.Denotes b r (.number (.finite i))) :
    Runs (On r b l L) (JSRuntime.fromExtern U e) (fun a _ => U.exactly i = .ok a)
      (fun x _ => U.exactly i = .error x) := by
  refine Runs.bind (externContentToValue_spec he) fun p => Runs.lift fun hp => ?_
  obtain ⟨q, rfl, hq⟩ := hp
  have htrunc : (i : Rat).num.tdiv (i : Rat).den = i := by simp
  cases U with
  | int t =>
    refine numeric2Cangjie_number hq ?_
    show Runs _ ((t.ofInt _).bind _) _ _
    rw [htrunc]
    exact ofInt_spec t i
  | bigInt =>
    refine numeric2Cangjie_number hq ?_
    show Runs _ (Prog.ret (Any.bigInt _)) _ _
    rw [htrunc]
    exact (Runs.ret _).pre fun _ _ => rfl
  | _ => cases hU

section Exact

variable {intrinsic : JSVal} {limit : Nat} {starved : Int → P.Heap → Prop}

theorem readText_bigint (hP : P.ExactBigInt intrinsic limit starved) {i : Int}
    (h : l.Copies (.bigint i)) : readText (l.toText (.bigint i)).1 = some (toString i) := by
  obtain ⟨hc, hm⟩ := h
  have hbytes : (P.toCString (.bigint i) l.heap).1 = .ok (cStringBytes (decimal i)) := by
    unfold Platform.toCString EngineM.andThen at hc ⊢
    rcases hs : P.toString (.bigint i) l.heap with ⟨x | us, h₁⟩
    · simp only [hs] at hc
      cases hc
    · obtain rfl := hP.print i l.heap us (by rw [hs])
      simp only [hs] at hc ⊢
      rcases hu : P.cString (decimal i) h₁ with ⟨x | u, h₂⟩
      · rw [hu] at hc
        cases hc
      · rfl
  rw [readText_copied hbytes hm, string?_decimal]

theorem fromExtern_bigint_spec (hP : P.ExactBigInt intrinsic limit starved) {e : Payload} {i : Int}
    {U : Target} (hU : U.isInteger = true) (he : e.Denotes b r (.bigint i)) :
    Runs (On r b l L) (JSRuntime.fromExtern U e) (fun a _ => U.exactly i = .ok a)
      (fun x _ => l.Copies (.bigint i) → U.exactly i = .error x) := by
  refine Runs.bind (externContentToValue_spec he) fun p => Runs.lift fun hp => ?_
  obtain ⟨q, rfl, hq⟩ := hp
  -- the text is the decimal one, or empty when there is no memory for it
  have htext : readText (l.toText (.bigint i)).1 = some (toString i) ∨
      ¬ l.Copies (.bigint i) ∧ readText (l.toText (.bigint i)).1 = some "" := by
    by_cases hc : l.Copies (.bigint i)
    · exact .inl (readText_bigint hP hc)
    · exact .inr ⟨hc, readText_lost hc⟩
  have read : ∀ {ofNumber : Float64 → Prog Any} {ofBigInt : Int → Prog Any},
      (∀ {I : Store P → Prop}, Runs I (ofBigInt i) (fun a _ => U.exactly i = .ok a)
        (fun x _ => U.exactly i = .error x)) →
      Runs (On r b l L) (numeric2Cangjie (some q) ofNumber ofBigInt) (fun a _ => U.exactly i = .ok a)
        (fun x _ => l.Copies (.bigint i) → U.exactly i = .error x) := by
    intro ofNumber ofBigInt hof
    refine numeric2Cangjie_bigint hq (fun m hm => ?_) fun hnone => ?_
    · obtain ht | ⟨hc, ht⟩ := htext
      · rw [ht] at hm
        cases hm
        rw [parseBigInt_toString]
        exact Runs.post hof (fun _ _ h => h) fun _ _ h _ => h
      · rw [ht] at hm
        cases hm
        rw [parseBigInt_empty]
        exact (Runs.raise _).pre fun _ _ h => absurd h hc
    · obtain ht | ⟨-, ht⟩ := htext <;>
      · rw [ht] at hnone
        cases hnone
  cases U with
  | int t => exact read (ofInt_spec t i)
  | bigInt => exact read ((Runs.ret _).pre fun _ _ => rfl)
  | _ => cases hU

/-! ## Both ways -/

/-- The conversion of `v` lacks memory: for its handle, or in the engine for the decimal text or the
BigInt. -/
def Loc.Lacks (starved : Int → P.Heap → Prop) (l : Loc P) (v : Any) : Prop :=
  (P.malloc l.host).1 = false ∨ ∃ i, v.wide? = some i ∧
    ((P.newString (decimal i) l.lookupBigInt.2).1.toOption = none ∨
      starved i (P.newString (decimal i) l.lookupBigInt.2).2)

theorem converted_narrow {v : Any} {i : Int} (hv : v.integer? = some i) (hw : v.wide? = none) :
    l.converted v = (some (.number (.finite i)), l.clearError) := by
  cases v with
  | int t x => cases t <;> cases hv <;> first | rfl | cases hw
  | bigInt x => cases hw
  | _ => cases hv

theorem wide?_of_integer? {v : Any} {i j : Int} (hv : v.integer? = some i) (hw : v.wide? = some j) :
    j = i := by
  cases v with
  | int t x => cases t <;> cases hv <;> first | exact (Option.some.inj hw).symm | cases hw
  | bigInt x =>
    cases hv
    exact (Option.some.inj hw).symm
  | _ => cases hv

/-- A wide value of a fixed-width type is within the size limit. -/
theorem natAbs_lt_limit (hP : P.ExactBigInt intrinsic limit starved) {v : Any} {i : Int}
    (hv : v.wide? = some i) (hsize : v = .bigInt i → i.natAbs < 10 ^ limit) : i.natAbs < 10 ^ limit := by
  have hpow : 10 ^ 20 ≤ 10 ^ limit := Nat.pow_le_pow_right (by decide) hP.limit_ge
  cases v with
  | int t x =>
    obtain ⟨y, hge, hle⟩ := x
    cases t <;> cases hv <;> simp only [IntType.min, IntType.max] at hge hle ⊢ <;> omega
  | bigInt x =>
    cases hv
    exact hsize rfl
  | _ => cases hv

/-- The engine makes a wide value the BigInt, or nothing. -/
theorem converted_value (hP : P.ExactBigInt intrinsic limit starved)
    (hB : l.lookupBigInt.1 = .ok intrinsic) {v : Any} {i : Int} (hv : v.wide? = some i) {x : JSVal}
    (hx : (l.converted v).1 = some x) : x = .bigint i := by
  have hlook : l.lookupBigInt = (.ok intrinsic, l.lookupBigInt.2) := Prod.ext hB rfl
  rw [converted_bigint hv hlook] at hx
  rcases hs : P.newString (decimal i) l.lookupBigInt.2 with ⟨y | u, h⟩
  · rw [hs] at hx
    cases hx
  · rw [hs] at hx
    simp only at hx
    rcases hc : (P.call intrinsic .undefined [.string (decimal i)] h).1 with y | y
    · rw [hc] at hx
      cases hx
    · rw [hc] at hx
      cases hx
      exact hP.parse i h x hc

theorem converts_integer (hP : P.ExactBigInt intrinsic limit starved)
    (hB : l.lookupBigInt.1 = .ok intrinsic) {v : Any} {i : Int} (hv : v.integer? = some i)
    (hroom : ¬ l.Lacks starved v) (hsize : v = .bigInt i → i.natAbs < 10 ^ limit) : l.Converts v := by
  obtain ⟨hmalloc, hengine⟩ := not_or.mp hroom
  have hm : (P.malloc l.host).1 = true := by simpa using hmalloc
  unfold Loc.Converts
  cases hw : v.wide? with
  | none =>
    rw [converted_narrow hv hw]
    exact hm
  | some j =>
    obtain rfl := wide?_of_integer? hv hw
    have hlook : l.lookupBigInt = (.ok intrinsic, l.lookupBigInt.2) := Prod.ext hB rfl
    obtain ⟨hstring, hcall⟩ := not_or.mp fun h => hengine ⟨j, hw, h⟩
    rw [converted_bigint hw hlook]
    rcases hs : P.newString (decimal j) l.lookupBigInt.2 with ⟨y | u, h⟩
    · rw [hs] at hstring
      exact absurd rfl hstring
    · rw [hs] at hcall
      have hparse := hP.parses j h hcall (natAbs_lt_limit hP hw hsize)
      simp only
      rcases hc : P.call intrinsic .undefined [.string (decimal j)] h with ⟨y | y, h'⟩
      · rw [hc] at hparse
        cases hparse
      · -- the call and the start of its body leave the C library alone
        unfold Loc.started
        cases intrinsic.callRuns <;> exact hm

/-- Integer marshalling is exact for all pairs of integer types, when the global `BigInt` is the
intrinsic one: with enough memory `toExtern` succeeds within the size limit, and `fromExtern` gives
the integer back, or `OverflowException` where the type does not have it. It never gives another
one. -/
theorem integers_exact (hP : P.ExactBigInt intrinsic limit starved) (hst : On r b l L st)
    (hB : l.lookupBigInt.1 = .ok intrinsic) {v : Any} {i : Int} (hv : v.integer? = some i) :
    ∃ res st', (JSRuntime.toExtern (some r) v).exec.run st = .ok (res, st') ∧
      (¬ l.Lacks starved v → (v = .bigInt i → i.natAbs < 10 ^ limit) → ∃ e, res = .ok e) ∧
      ∀ e, res = .ok e → ∀ U : Target, U.isInteger = true →
        ∃ res' st'', (JSRuntime.fromExtern U e).exec.run st' = .ok (res', st'') ∧
          (∀ a, res' = .ok a → U.exactly i = .ok a) ∧
          ((v.wide? ≠ none → ∀ l', st'.world.loc? r = some l' → l'.Copies (.bigint i)) →
            res' = U.exactly i) := by
  have hprim : v.isPrimitive = true := by cases v <;> first | rfl | cases hv
  obtain ⟨res, st', hrun, h⟩ := toExtern_run hprim hst
  refine ⟨res, st', hrun, fun hroom hsize => ?_, fun e he U hU => ?_⟩
  · have hconv := converts_integer hP hB hv hroom hsize
    obtain ⟨ref, x, rfl, -⟩ | ⟨-, hn, -⟩ := h
    · exact ⟨_, rfl⟩
    · exact absurd hconv hn
  · obtain ⟨ref, x, rfl, hx, -, href, hw⟩ | ⟨⟨y, rfl⟩, -⟩ := h
    · cases he
      obtain ⟨⟨b', L', hst', hdenotes⟩, -⟩ := hw.denotes href
      cases hwide : v.wide? with
      | none =>
        rw [converted_narrow hv hwide] at hx
        cases hx
        obtain ⟨res', st'', hread, ⟨a, rfl, ha⟩ | ⟨y, rfl, hy⟩⟩ :=
          (fromExtern_number_spec hU hdenotes).run hst'
        · refine ⟨_, st'', hread, fun a' ha' => ?_, fun _ => ha.symm⟩
          cases ha'
          exact ha
        · refine ⟨_, st'', hread, fun a' ha' => ?_, fun _ => hy.symm⟩
          cases ha'
      | some j =>
        obtain rfl := wide?_of_integer? hv hwide
        obtain rfl := converted_value hP hB hwide hx
        have hloc : st'.world.loc? r = some (l.converted v).2.kept := hst'.loc?
        obtain ⟨res', st'', hread, ⟨a, rfl, ha⟩ | ⟨y, rfl, hy⟩⟩ :=
          (fromExtern_bigint_spec hP hU hdenotes).run hst'
        · refine ⟨_, st'', hread, fun a' ha' => ?_, fun _ => ha.symm⟩
          cases ha'
          exact ha
        · refine ⟨_, st'', hread, fun a' ha' => ?_, fun hcopies => ?_⟩
          · cases ha'
          · exact (hy (hcopies (by simp) _ hloc)).symm
    · cases he

end Exact

/-! ### An engine that has only BigInts -/

def bigIntFunction : JSVal := .function 1 ⟨true, false⟩

/-- The integer of a string of decimal digits. -/
def parseUnits (us : List UInt16) : Option Int := (Utf.ofPoints (Utf.decode16 us)).bind String.toInt?

/-- The intrinsic `BigInt` on its arguments. -/
def callBigIntFunction (argv : List JSVal) : Except JSVal JSVal :=
  match argv with
  | [.string us] => (parseUnits us).elim (.error .undefined) fun i => .ok (.bigint i)
  | _ => .error .undefined

/-- The engine has the global `BigInt` and its string conversion; `malloc` succeeds if `memory`. -/
def bigIntPlatform (memory : Bool) : Platform :=
  { Platform.idle Unit () with
    malloc := fun host => (memory, host)
    getProperty := fun _ key h =>
      (if key = .ofCString (utf8 "BigInt") then .ok bigIntFunction else .ok .undefined, h)
    call := fun _ _ argv h => (callBigIntFunction argv, h)
    toString := fun x h =>
      match x with
      | .bigint i => (.ok (decimal i), h)
      | _ => (.error .undefined, h) }

theorem parseUnits_decimal (i : Int) : parseUnits (decimal i) = some i := by
  rw [parseUnits, decimal, Utf.decode16_encode16 (Utf.points_isScalar _), Utf.ofPoints_points,
    Option.bind_some, Int.toString_eq_repr, Int.toInt?_repr]

theorem callBigIntFunction_decimal (i : Int) : callBigIntFunction [.string (decimal i)] = .ok (.bigint i) := by
  rw [callBigIntFunction, parseUnits_decimal]
  rfl

theorem bigIntPlatform_exact (memory : Bool) :
    (bigIntPlatform memory).ExactBigInt bigIntFunction 20 fun _ _ => False where
  limit_ge := le_rfl
  parse i h x hx := by
    have hcall : callBigIntFunction [.string (decimal i)] = .ok x := hx
    rw [callBigIntFunction_decimal] at hcall
    exact (Except.ok.inj hcall).symm
  parses i h _ _ := callBigIntFunction_decimal i
  print i h us hus := (Except.ok.inj hus).symm

theorem bigIntPlatform_lookup (memory : Bool) :
    (Loc.sample (P := bigIntPlatform memory) () ()).lookupBigInt.1 = .ok bigIntFunction := by
  show (if PropKey.ofCString (utf8 "BigInt") = PropKey.ofCString (utf8 "BigInt") then
    Except.ok bigIntFunction else .ok .undefined) = _
  exact if_pos rfl

/-- The largest `UInt64` is no `Int64`. -/
theorem integers_exact_uint64 : ∃ e st' st'',
    (JSRuntime.toExtern (some 0) (.int .uint64 ⟨2 ^ 64 - 1, by decide, by decide⟩)).exec.run
      (Store.sample (bigIntPlatform true) () () .undefined) = .ok (.ok e, st') ∧
    (JSRuntime.fromExtern (.int .int64) e).exec.run st' = .ok (.error .overflow, st'') := by
  obtain ⟨res, st', hrun, hok, hread⟩ := integers_exact (bigIntPlatform_exact true)
    (sample_on _ () () .undefined) (bigIntPlatform_lookup true)
    (v := .int .uint64 ⟨2 ^ 64 - 1, by decide, by decide⟩) rfl
  have hroom : ¬ Loc.Lacks (fun _ _ => False) (Loc.sample (P := bigIntPlatform true) () ())
      (.int .uint64 ⟨2 ^ 64 - 1, by decide, by decide⟩) := by
    rintro (hm | ⟨i, -, hs | hf⟩)
    · cases hm
    · cases hs
    · exact hf
  obtain ⟨e, rfl⟩ := hok hroom fun h => by cases h
  obtain ⟨res', st'', hrun', -, hexact⟩ := hread e rfl (.int .int64) rfl
  rw [hexact fun _ l' _ => ⟨rfl, rfl⟩] at hrun'
  exact ⟨e, st', st'', hrun, hrun'⟩

/-- Without memory for the handle `toExtern` throws, also on an `Int8`. -/
theorem integers_not_total :
    (∃ limit starved, (bigIntPlatform false).ExactBigInt bigIntFunction limit starved) ∧
      (Loc.sample (P := bigIntPlatform false) () ()).lookupBigInt.1 = .ok bigIntFunction ∧
      ∃ x st', (JSRuntime.toExtern (some 0) (.int .int8 ⟨42, by decide, by decide⟩)).exec.run
        (Store.sample (bigIntPlatform false) () () .undefined) = .ok (.error x, st') := by
  refine ⟨⟨20, fun _ _ => False, bigIntPlatform_exact false⟩, bigIntPlatform_lookup false, ?_⟩
  obtain ⟨res, st', hrun, h⟩ := toExtern_run (v := .int .int8 ⟨42, by decide, by decide⟩) rfl
    (sample_on (bigIntPlatform false) () () .undefined)
  obtain ⟨ref, x, -, -, hconv, -⟩ | ⟨⟨x, rfl⟩, -⟩ := h
  · exact absurd hconv (by simp [Loc.Converts, Loc.converted, Loc.delivers, bigIntPlatform])
  · exact ⟨x, st', hrun⟩

end InteropJs
