import Mathlib.Data.List.TakeWhile
import InteropJs.Lib.Utf

/-!
# JavaScript values and C strings

The values that cross the bridge, as the engine's C interface (`quickjs.h`) shows them. A
`JSValue` of the engine is reference counted; `JSVal` is what it denotes, and the reference itself
is in `InteropJs/Engine/World.lean`.

* A string is its UTF-16 units and a BigInt its integer: the engine shares and compacts them, but
  no function of the interface shows that.
* Facts that an object keeps for life are part of its reference: whether it is a function
  (`JS_IsFunction`), whether its `[[Call]]` runs its body (a class constructor's does not) and
  whether it is a constructor (the `is_constructor` bit of the object).
* A C string (`CStr`) is the buffer in front of its last terminator. It may hold a zero byte, and
  then the functions that use `strlen` see only the bytes before it (`CStr.text`).
-/

namespace InteropJs

/-- A double: a finite value is the rational it represents. -/
inductive Float64 where
  | nan
  | inf (neg : Bool)
  | negZero
  | finite (q : Rat)
  deriving DecidableEq

/-- What a function object does when it is called or constructed. -/
structure FunctionKind where
  /-- `[[Call]]` runs the body: not a class constructor, nor a native one that requires `new`. -/
  callRuns : Bool
  /-- The `is_constructor` bit: without it `JS_CallConstructor` throws before it runs anything. -/
  isConstructor : Bool
  deriving DecidableEq

/-- What a `JSValue` other than `JS_EXCEPTION` denotes. -/
inductive JSVal where
  | undefined
  | null
  | uninitialized
  | bool (b : Bool)
  | number (x : Float64)
  | string (units : List UInt16)
  | bigint (n : Int)
  | symbol (id : Nat)
  | object (id : Nat)
  | function (id : Nat) (kind : FunctionKind)
  | module (id : Nat)
  deriving DecidableEq

/-- `JS_TAG_OBJECT` with a `[[Call]]`: `JS_IsFunction`. -/
def JSVal.isFunction : JSVal → Bool
  | .function _ _ => true
  | _ => false

/-- `JS_TAG_OBJECT`: a function is an object too. -/
def JSVal.isObject : JSVal → Bool
  | .object _ | .function _ _ => true
  | _ => false

def JSVal.callRuns : JSVal → Bool
  | .function _ k => k.callRuns
  | _ => false

def JSVal.isConstructor : JSVal → Bool
  | .function _ k => k.isConstructor
  | _ => false

/-- `JS_ToBool`: it runs no code and fails only on `JS_EXCEPTION`. -/
def JSVal.toBool : JSVal → Bool
  | .undefined | .null | .uninitialized => false
  | .bool b => b
  | .number x => x ≠ .nan && x ≠ .negZero && x ≠ .finite 0
  | .string us => us ≠ []
  | .bigint n => n ≠ 0
  | .symbol _ | .object _ | .function _ _ | .module _ => true

/-! ## C strings -/

/-- The bytes of a C buffer in front of its last terminator. -/
abbrev CStr := List UInt8

/-- The bytes that `strlen` counts. -/
def CStr.text (s : CStr) : CStr := s.takeWhile (· ≠ 0)

/-- A string literal of the source, or the UTF-8 bytes of a Cangjie string. -/
def utf8 (s : String) : CStr := Utf.encode8 (Utf.points s)

@[simp] theorem CStr.text_text (s : CStr) : CStr.text (CStr.text s) = CStr.text s := by
  rw [CStr.text, CStr.text, List.takeWhile_idem]

/-- A property key is the string of its atom. -/
abbrev PropKey := List UInt16

/-! ## UTF-8 in the engine -/

/-- The bytes that `JS_NewStringLen` skips at an invalid sequence. -/
def skipInvalid (bs : List UInt8) : List UInt8 :=
  match bs.dropWhile (fun b => 0x80 ≤ b && b < 0xc0) with
  | [] => []
  | _ :: rest => rest.dropWhile (fun b => 0x80 ≤ b && b < 0xc0)

def newStringFuel : Nat → List UInt8 → List UInt16
  | _, [] => []
  | 0, _ :: _ => []
  | n + 1, b :: bs =>
    match Utf.decodePoint (b :: bs) with
    | some (c, rest) => Utf.units c ++ newStringFuel n rest
    -- an invalid sequence becomes U+FFFD
    | none => 0xfffd :: newStringFuel n (skipInvalid (b :: bs))

/-- The units that `JS_NewStringLen` makes of a UTF-8 buffer. -/
def newStringUnits (bs : List UInt8) : List UInt16 := newStringFuel bs.length bs

/-- The bytes that `JS_ToCStringLen2` makes of a string: surrogate pairs take four bytes, unmatched
surrogates are kept. -/
def cStringBytes (us : List UInt16) : CStr := Utf.encode8 (Utf.decode16 us)

theorem newStringFuel_encode8 {cs : List Nat} (h : ∀ c ∈ cs, c < 0x110000) {n : Nat}
    (hn : cs.length ≤ n) : newStringFuel n (Utf.encode8 cs) = Utf.encode16 cs := by
  induction cs generalizing n with
  | nil => cases n <;> rfl
  | cons c cs ih =>
    cases n with
    | zero => simp at hn
    | succ n =>
      have hc := Utf.decodePoint_encodePoint (h c (by simp)) (Utf.encode8 cs)
      obtain ⟨b, bs, hb⟩ : ∃ b bs, Utf.encode8 (c :: cs) = b :: bs :=
        List.exists_cons_of_ne_nil (by simp [Utf.encodePoint_ne_nil])
      rw [Utf.encode8_cons] at hb
      rw [Utf.encode8_cons, hb, newStringFuel, ← hb, hc]
      simp only
      rw [ih (fun d hd => h d (by simp [hd])) (by simpa using hn), Utf.encode16_cons]

/-- Well-formed UTF-8 becomes the UTF-16 form of its code points. -/
theorem newStringUnits_encode8 {cs : List Nat} (h : ∀ c ∈ cs, c < 0x110000) :
    newStringUnits (Utf.encode8 cs) = Utf.encode16 cs :=
  newStringFuel_encode8 h (Utf.length_le_encode8 cs)

/-- The key that `JS_NewAtom` makes of a C string. -/
def PropKey.ofCString (s : CStr) : PropKey := newStringUnits s.text

/-- The key of an array index: its decimal digits. -/
def PropKey.ofIndex (i : Nat) : PropKey := (Nat.toDigits 10 i).map fun c => UInt16.ofNat c.toNat

end InteropJs
