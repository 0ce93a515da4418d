import InteropJs.Cangjie.Prog

/-!
# Cangjie values

The values that the Cangjie layer takes and gives: the types that `toJSValue` and `quickJS2Cangjie`
match on, and the payloads of an `Extern<JSRuntime>`.

The conversions of the standard library follow its documentation: an integer conversion gives the
exact value or throws `OverflowException`, a conversion from a floating-point number truncates, a
conversion to one rounds to nearest, ties to even.
-/

namespace InteropJs

/-! ## Integers -/

inductive IntType where
  | int8 | int16 | int32 | int64 | uint8 | uint16 | uint32 | uint64
  deriving DecidableEq

def IntType.min : IntType → Int
  | .int8 => -2 ^ 7
  | .int16 => -2 ^ 15
  | .int32 => -2 ^ 31
  | .int64 => -2 ^ 63
  | .uint8 | .uint16 | .uint32 | .uint64 => 0

def IntType.max : IntType → Int
  | .int8 => 2 ^ 7 - 1
  | .int16 => 2 ^ 15 - 1
  | .int32 => 2 ^ 31 - 1
  | .int64 => 2 ^ 63 - 1
  | .uint8 => 2 ^ 8 - 1
  | .uint16 => 2 ^ 16 - 1
  | .uint32 => 2 ^ 32 - 1
  | .uint64 => 2 ^ 64 - 1

/-- A value of a fixed-width type. -/
structure IntType.Val (t : IntType) where
  val : Int
  ge : t.min ≤ val
  le : val ≤ t.max
  deriving DecidableEq

/-- `T(i)` of an integer. -/
def IntType.ofInt (t : IntType) (i : Int) : Prog t.Val :=
  if h : t.min ≤ i ∧ i ≤ t.max then .ret ⟨i, h.1, h.2⟩ else .raise .overflow

/-! ## Floating-point numbers -/

inductive FloatType where
  | float16 | float32 | float64
  deriving DecidableEq

/-- The bits of a significand. -/
def FloatType.precision : FloatType → Nat
  | .float16 => 11
  | .float32 => 24
  | .float64 => 53

/-- The largest exponent. -/
def FloatType.maxExponent : FloatType → Int
  | .float16 => 15
  | .float32 => 127
  | .float64 => 1023

def pow2 (e : Int) : Rat :=
  if 0 ≤ e then (2 ^ e.toNat : Nat) else mkRat 1 (2 ^ (-e).toNat)

/-- The nearest integer, ties to even. -/
def roundEven (q : Rat) : Int :=
  let d := q - q.floor
  if d < 1 / 2 then q.floor
  else if 1 / 2 < d then q.floor + 1
  else if q.floor % 2 = 0 then q.floor else q.floor + 1

/-- The number of type `t` nearest to `q`. -/
def FloatType.ofRat (t : FloatType) (q : Rat) : Float64 :=
  if q = 0 then .finite 0 else
  let a := if q < 0 then -q else q
  let k : Int := a.num.natAbs.log2 - a.den.log2
  let e := if a < pow2 k then k - 1 else k
  let ulp := pow2 (Max.max e (1 - t.maxExponent) - (t.precision - 1))
  let r := roundEven (a / ulp) * ulp
  if pow2 (t.maxExponent + 1) ≤ r then .inf (q < 0)
  else if q < 0 then (if r = 0 then .negZero else .finite (-r)) else .finite r

/-- `Float16(x)`, `Float32(x)`; a `Float64` is taken as it is. -/
def FloatType.ofFloat64 : FloatType → Float64 → Float64
  | .float64, x => x
  | t, .finite q => t.ofRat q
  | _, x => x

/-- `T(x)` of a floating-point number. -/
def IntType.ofFloat64 (t : IntType) (x : Float64) : Prog t.Val :=
  match x with
  | .negZero => t.ofInt 0
  | .finite q => t.ofInt (q.num.tdiv q.den)
  | _ => .raise .overflow

/-- `BigInt(x)`: a NaN or an infinity has no integer. -/
def bigIntOfFloat64 (x : Float64) : Prog Int :=
  match x with
  | .negZero => .ret 0
  | .finite q => .ret (q.num.tdiv q.den)
  | _ => .raise .illegalArgument

/-- `BigInt.parse`. -/
def parseBigInt (s : String) : Prog Int :=
  match s.toInt? with
  | some i => .ret i
  | none => .raise .illegalArgument

/-! ## Strings -/

/-- `LibC.mallocCString`. -/
def mallocCString (s : String) : CStr := utf8 s

/-- The string of the bytes before the first zero byte, if they are UTF-8. -/
def CStr.string? (s : CStr) : Option String := (Utf.decode8 s.text).bind Utf.ofPoints

/-- The accepted bytes are the UTF-8 form of the string, and no others. -/
theorem CStr.string?_eq_some_iff {s : CStr} {str : String} : s.string? = some str ↔ s.text = utf8 str := by
  constructor
  · intro h
    obtain ⟨cs, hcs, hstr⟩ := Option.bind_eq_some_iff.mp h
    rw [Utf.encode8_of_decode8 hcs, ← Utf.points_ofPoints hstr]
    rfl
  · intro h
    have hlt : ∀ c ∈ Utf.points str, c < 0x110000 := fun c hc => (Utf.points_isScalar str c hc).1
    rw [CStr.string?, h, utf8, Utf.decode8_encode8 hlt, Option.bind_some, Utf.ofPoints_points]

/-- `CString.toString`. A `String` is a sequence of scalar values, so bytes that are not their UTF-8
form are refused. -/
def cStringToString (s : CStr) : Prog String :=
  match s.string? with
  | some s => .ret s
  | none => .raise .illegalArgument

/-! ## Values of any type -/

/-- What an `Extern<JSRuntime>` holds. -/
inductive Payload where
  | value (ref : JSValueRef)
  | method (function receiver : JSValueRef)
  | pointer (handle : Ptr)
  | other
  deriving DecidableEq

/-- A value of type `Any`, as the layer tells it apart. -/
inductive Any where
  | externValue (payload : Payload)
  | pointer (handle : Ptr)
  | int (t : IntType) (v : t.Val)
  | bigInt (v : Int)
  | float (t : FloatType) (x : Float64)
  | bool (b : Bool)
  | string (s : String)
  | other
  deriving DecidableEq

/-- The type argument of `fromExtern`. -/
inductive Target where
  | bool
  | string
  | int (t : IntType)
  | bigInt
  | float (t : FloatType)
  | other
  deriving DecidableEq

end InteropJs
