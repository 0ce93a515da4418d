import InteropJs.Cangjie.Integers
import InteropJs.Engine.BigIntLiteral

/-!
# The integers in the engine's own BigInts

`Platform.ExactBigInt` asks the engine for exact decimal conversions. The conversions of `quickjs.c` have
them: `Platform.withBigInt` is a platform whose function `BigInt` and whose text of a BigInt are those of
`InteropJs/Engine/BigIntLiteral.lean`, on the limbs and with the memory of a C library, and
`quickjs_exactBigInt` is what `integers_exact` needs of it.
-/

namespace InteropJs

open Hoare QuickJS

/-! ## Decimal texts -/

theorem points_toString (i : Int) : Utf.points (toString i) = (signedText 10 i).map UInt8.toNat := by
  rw [Utf.points, Int.toString_eq_repr, Int.repr_eq_if, signedText, List.map_append]
  by_cases hi : 0 ≤ i
  · rw [if_pos hi, if_neg (by omega), Nat.toList_repr, toDigits_radixText]
    rw [show i.toNat = i.natAbs by omega]
    rfl
  · rw [if_neg hi, if_pos (by omega), String.toList_append, List.map_append, Nat.toList_repr,
      toDigits_radixText, show (-i).toNat = i.natAbs by omega]
    rfl

/-- The decimal text, as the engine writes it. -/
theorem units_signedText (i : Int) : (JSString.str8 (signedText 10 i)).units = decimal i := by
  have h : Utf.decode16 (JSString.str8 (signedText 10 i)).units = Utf.decode16 (decimal i) := by
    rw [decimal, Utf.decode16_encode16 (Utf.points_isScalar _), points_toString]
    exact decode16_narrow _
  rw [← Utf.encode16_decode16 (JSString.units _), h, Utf.encode16_decode16]

/-! ## The platform -/

/-- A call that leaves the memory of the BigInts alone. -/
def EngineM.beside {Heap M α : Type} (f : EngineM Heap α) : EngineM (Heap × M) α := fun h =>
  ((f h.1).1, (f h.1).2, h.2)

/-- A call of a function of the BigInts; `thrown` is the error object of a fault. -/
def EngineM.bigInt {Heap M α β : Type} (lib : Allocator M) (thrown : QuickJS.Fault → JSVal)
    (f : ExceptT QuickJS.Fault Alloc α) (out : α → β) : EngineM (Heap × M) β := fun h =>
  match f.run.run lib h.2 with
  | (.ok a, m) => (.ok (out a), h.1, m)
  | (.error e, m) => (.error (thrown e), h.1, m)

/-- The string of some units, with 8 bits each if that is enough. -/
def QuickJS.JSString.ofUnits (us : List UInt16) : JSString :=
  if us.any isWide then .str16 us else .str8 (us.map UInt16.toUInt8)

theorem QuickJS.JSString.units_ofUnits (us : List UInt16) : (JSString.ofUnits us).units = us := by
  unfold JSString.ofUnits
  by_cases h : us.any isWide = true
  · rw [if_pos h]
    rfl
  · rw [if_neg h, JSString.units, List.map_map]
    refine (List.map_congr_left fun u hu => ?_).trans (List.map_id _)
    exact toUInt8_toUInt16 (by simpa using fun hw => h (List.any_eq_true.mpr ⟨u, hu, hw⟩))

section

variable (P : Platform) {M : Type} (lib : Allocator M) (start : M) (intrinsic : JSVal)
  (thrown : QuickJS.Fault → JSVal)

/-- `P`, with the function `intrinsic` for `BigInt` of a string and with the text of a BigInt from
`quickjs.c`. A string is never longer than `JS_STRING_LEN_MAX`. -/
def Platform.withBigInt : Platform where
  Heap := P.Heap × M
  Host := P.Host
  malloc := P.malloc
  fopen := P.fopen
  fseek := P.fseek
  ftell := P.ftell
  fread := P.fread
  newRuntime := P.newRuntime
  newContext host := ((P.newContext host).1.map (·, start), (P.newContext host).2)
  eval source := (P.eval source).beside
  compileModule source name loader := (P.compileModule source name loader).beside
  resolveModule m loader := (P.resolveModule m loader).beside
  evalFunction m := (P.evalFunction m).beside
  moduleNamespace m := (P.moduleNamespace m).beside
  globalObject h := P.globalObject h.1
  getProperty x key := (P.getProperty x key).beside
  setProperty x key y := (P.setProperty x key y).beside
  defineProperty x key y := (P.defineProperty x key y).beside
  ownPropertyNames x := (P.ownPropertyNames x).beside
  newObject := P.newObject.beside
  newString us := (P.newString us).beside
  call f this argv :=
    match argv with
    | [.string us] =>
      if f = intrinsic then
        if us.length ≤ jsStringLenMax then
          .bigInt lib thrown (stringToBigIntErr (.ofUnits us)) fun v => .bigint v.int
        else fun h => (.error (thrown .memory), h)
      else (P.call f this argv).beside
    | _ => (P.call f this argv).beside
  callConstructor f argv := (P.callConstructor f argv).beside
  toString x :=
    match x with
    | .bigint i => .bigInt lib thrown (BigInt.toString1 (.ofInt i) 10) JSString.units
    | x => (P.toString x).beside
  cString us := (P.cString us).beside
  toFloat64 x := (P.toFloat64 x).beside
  isArray x := (P.isArray x).beside
  initModuleStd := P.initModuleStd.beside
  castOverflow := P.castOverflow
  argvRoom := P.argvRoom

end

variable {P : Platform} {M : Type} {lib : Allocator M} {start : M} {intrinsic : JSVal}
  {thrown : QuickJS.Fault → JSVal}

theorem EngineM.bigInt_ok {Heap α β : Type} {f : ExceptT QuickJS.Fault Alloc α} {out : α → β}
    {E : Prop → QuickJS.Fault → Prop} {Q : α → Prop} (hf : EveryEnd f E Q) {h : Heap × M} {y : β}
    (hy : (EngineM.bigInt lib thrown f out h).1 = .ok y) : ∃ a, Q a ∧ out a = y := by
  have hs := hf M lib h.2
  unfold EngineM.bigInt at hy
  revert hs hy
  rcases f.run.run lib h.2 with ⟨e | a, m⟩
  · intro hy _
    cases hy
  · intro hy hs
    exact ⟨a, hs, Except.ok.inj hy⟩

theorem EngineM.bigInt_total {Heap α β : Type} (thrown : QuickJS.Fault → JSVal)
    {f : ExceptT QuickJS.Fault Alloc α} (out : α → β) {E : Prop → QuickJS.Fault → Prop} {Q : α → Prop}
    (hf : EveryEnd f E Q) {h : Heap × M} (hno : ∀ e, ¬ E (Unrefused lib h.2 f.run) e) :
    ∃ a, Q a ∧ (EngineM.bigInt lib thrown f out h).1 = .ok (out a) := by
  have hs := hf M lib h.2
  unfold EngineM.bigInt
  revert hs
  rcases f.run.run lib h.2 with ⟨e | a, m⟩
  · intro hs
    exact absurd hs (hno e)
  · intro hs
    exact ⟨a, hs, rfl⟩

theorem withBigInt_call (this : JSVal) (us : List UInt16) (h : P.Heap × M) :
    (P.withBigInt lib start intrinsic thrown).call intrinsic this [.string us] h =
      if us.length ≤ jsStringLenMax then
        EngineM.bigInt lib thrown (stringToBigIntErr (.ofUnits us)) (fun v => JSVal.bigint v.int) h
      else (.error (thrown .memory), h) := by
  unfold Platform.withBigInt
  dsimp only
  rw [if_pos rfl]
  by_cases hlen : us.length ≤ jsStringLenMax
  · rw [if_pos hlen, if_pos hlen]
  · rw [if_neg hlen, if_neg hlen]

theorem decode16_decimal (i : Int) :
    Utf.decode16 (JSString.ofUnits (decimal i)).units = (signedText 10 i).map UInt8.toNat := by
  rw [JSString.units_ofUnits, decimal, Utf.decode16_encode16 (Utf.points_isScalar _), points_toString]

/-- `BigInt` of a decimal text. -/
theorem stringToBigIntErr_decimal {i : Int} (hlen : (decimal i).length ≤ jsStringLenMax) :
    EveryEnd (stringToBigIntErr (.ofUnits (decimal i)))
      (fun ok e => e = .memory ∧ ¬ ok ∨ e = tooLarge ∧ 10 ^ decimalLimit ≤ i.natAbs) fun v => v.int = i := by
  have hlen' : (JSString.ofUnits (decimal i)).len ≤ jsStringLenMax := by
    rwa [JSString.len, JSString.units_ofUnits]
  have hliteral := literal_signedText i
  rw [← decode16_decimal] at hliteral
  refine EveryEnd.of fun ok => Ends.bind ((stringToBigInt_spec hlen').post (fun e he => ?_) fun _ h => h)
    fun o ho => ?_
  · obtain hm | ⟨rfl, hover⟩ := he
    · exact .inl hm
    · rw [decode16_decimal] at hover
      exact .inr ⟨rfl, not_lt.mp fun hlt => not_overlong hlt hover⟩
  cases o with
  | none => exact absurd ⟨_, hliteral⟩ ho
  | some v => exact Ends.ret (ho.2.unique hliteral)

theorem length_decimal {i : Int} (hi : i.natAbs < 10 ^ decimalLimit) : (decimal i).length ≤ jsStringLenMax := by
  have hdigits := radixDigits_length (show 1 < 10 by omega) (by decide) hi
  have hlimit : decimalLimit = 310688 := rfl
  have hmax : jsStringLenMax = 1073741823 := rfl
  rw [← units_signedText, JSString.units, List.length_map, signedText, List.length_append, radixText,
    List.length_map, List.length_reverse]
  split
  · rw [List.length_singleton]
    omega
  · rw [List.length_nil]
    omega

/-- The conversions of `quickjs.c` are exact, with any C library behind them: up to `decimalLimit` digits the
call of `BigInt` fails only when a request that it made itself is refused. -/
theorem quickjs_exactBigInt (P : Platform) (lib : Allocator M) (start : M) (intrinsic : JSVal)
    (thrown : QuickJS.Fault → JSVal) :
    (P.withBigInt lib start intrinsic thrown).ExactBigInt intrinsic decimalLimit fun i h =>
      ¬ Unrefused lib h.2 (stringToBigIntErr (.ofUnits (decimal i))).run where
  limit_ge := by decide
  parse i h x hx := by
    replace hx := (congrArg Prod.fst (withBigInt_call _ _ _)).symm.trans hx
    by_cases hlen : (decimal i).length ≤ jsStringLenMax
    · rw [if_pos hlen] at hx
      obtain ⟨v, hv, rfl⟩ := EngineM.bigInt_ok (stringToBigIntErr_decimal hlen) hx
      rw [hv]
    · rw [if_neg hlen] at hx
      cases hx
  parses i h hgranted hi := by
    have hlen := length_decimal hi
    refine (congrArg Prod.fst (withBigInt_call _ _ _)).trans ?_
    rw [if_pos hlen]
    obtain ⟨v, hv, hok⟩ := EngineM.bigInt_total (h := h) thrown (fun v => JSVal.bigint v.int)
      (stringToBigIntErr_decimal hlen) fun e he => he.elim (fun hm => hgranted hm.2) fun h => by omega
    rw [hok, hv]
  print i h us hus := by
    obtain ⟨hcanonical, hint⟩ := BigIntVal.ofInt_spec i
    obtain ⟨str, hstr, rfl⟩ := EngineM.bigInt_ok (EveryEnd.of fun _ => BigInt.toString1_spec hcanonical.normal
      (show 2 ≤ 10 by omega) (by omega)) hus
    rw [hstr.2, hint, units_signedText]

/-- With a C library that refuses nothing, `2 ^ 64` there and back. -/
theorem quickjs_exactBigInt_plenty :
    ((Platform.idle Unit ()).withBigInt plenty () .undefined fun _ => .undefined).ExactBigInt .undefined decimalLimit
        (fun i h => ¬ Unrefused plenty h.2 (stringToBigIntErr (.ofUnits (decimal i))).run) ∧
      (((Platform.idle Unit ()).withBigInt plenty () .undefined fun _ => .undefined).call .undefined .undefined
        [.string (decimal (2 ^ 64))] ((), ())).1 = .ok (.bigint (2 ^ 64)) := by
  have hexact := quickjs_exactBigInt (Platform.idle Unit ()) plenty () .undefined fun _ => .undefined
  refine ⟨hexact, hexact.parses (2 ^ 64) _ (fun hno => hno (unrefused_plenty _)) ?_⟩
  exact Nat.lt_of_lt_of_le (by decide : (2 ^ 64 : Int).natAbs < 10 ^ 20) (Nat.pow_le_pow_right (by omega) (by decide))

end InteropJs
