import InteropJs.Cangjie.Value

/-!
# The Cangjie layer (`src/quickJSRuntime.cj`)

Every function of the file, in its order and under its name. `runtime` is the static variable of
`JSRuntime`, the pointer that `createRuntime` returned. An `Extern<JSRuntime>` is its payload.

`acquireArrayRawData` pins the argument array during a call, and `callValue` and `constructValue`
release it on both ways out; it has no other effect.
-/

namespace InteropJs

def jsValueBoolKind : Int := 2
def jsValueNumberKind : Int := 3
def jsValueStringKind : Int := 4
def jsValueBigIntKind : Int := 5
def jsValueObjectKind : Int := 6
def jsValueFunctionKind : Int := 7

def createRuntime : Prog Ptr := do
  let handle ← Call.runtimeCreate.prog
  if handle.isNone then
    .raise (.dynamic "failed to create QuickJS runtime")
  else
    return handle

def boolAsInt64 (value : Bool) : Int := if value then 1 else 0

def ownedCStringToString (value : Option OwnedString) : Prog String := do
  match value with
  | none => return ""
  | some s =>
    let result ← cStringToString s.bytes
    (Call.bridgeFreeString value).prog
    return result

def runtimeError (runtime : Ptr) : Prog String := do
  cStringToString (← (Call.runtimeLastError runtime).prog)

def valueFromRuntimeHandle (runtime value : Ptr) : Prog Ptr := do
  if value.isNone then
    .raise (.dynamic (← runtimeError runtime))
  else
    return value

def valueFromCallHandle (runtime value : Ptr) : Prog Ptr := do
  if value.isNone then
    let message ← runtimeError runtime
    if message.isEmpty then
      .raise (.dynamic "JavaScript function call failed")
    else
      .raise (.dynamic message)
  else
    return value

/-- `jsExtern` of a handle. -/
def jsExtern (handle : Ptr) : Prog Payload := do
  return .value (← newRef handle)

def externContentToRef (content : Payload) : Prog JSValueRef :=
  match content with
  | .value ref => .ret ref
  | .pointer handle => newRef handle
  | _ => .raise (.conversion "Extern value does not contain a JavaScript value")

def valueKind (value : Ptr) : Prog Int :=
  if value.isNone then
    .raise (.dynamic "JavaScript value handle must not be null")
  else
    (Call.valueKind value).prog

/-- `valueIsBool` and the like: the kind of the value is `kind`. -/
def valueIs (kind : Int) (value : Ptr) : Prog Bool := do
  return (← valueKind value) = kind

def valueIsBool (value : Ptr) : Prog Bool := valueIs jsValueBoolKind value
def valueIsNumber (value : Ptr) : Prog Bool := valueIs jsValueNumberKind value
def valueIsString (value : Ptr) : Prog Bool := valueIs jsValueStringKind value
def valueIsBigInt (value : Ptr) : Prog Bool := valueIs jsValueBigIntKind value
def valueIsObject (value : Ptr) : Prog Bool := valueIs jsValueObjectKind value
def valueIsFunction (value : Ptr) : Prog Bool := valueIs jsValueFunctionKind value

def valueIsArray (value : Ptr) : Prog Bool := do
  return (← (Call.valueIsArray value).prog) ≠ 0

def valueAsBool (value : Ptr) : Prog Bool := do
  if !(← valueIsBool value) then
    .raise (.conversion "JavaScript value is not a boolean")
  else
    return (← (Call.valueToBool value).prog) ≠ 0

def valueAsFloat64 (value : Ptr) : Prog Float64 := do
  if !(← valueIsNumber value) then
    .raise (.conversion "JavaScript value is not a number")
  else
    (Call.valueToNumber value).prog

/-- `valueIsString(value) || valueIsBigInt(value)`, which asks for the kind once or twice. -/
def valueIsText (value : Ptr) : Prog Bool := do
  if ← valueIsString value then
    return true
  else
    valueIsBigInt value

def valueAsString (value : Ptr) : Prog String := do
  if !(← valueIsText value) then
    .raise (.conversion "JavaScript value is not a string")
  else
    ownedCStringToString (← (Call.valueToString value).prog)

/-- `valueIsObject(value) || valueIsFunction(value)`. -/
def valueHasProperties (value : Ptr) : Prog Bool := do
  if ← valueIsObject value then
    return true
  else
    valueIsFunction value

def getProperty (value : Ptr) (name : String) : Prog Ptr := do
  if !(← valueHasProperties value) then
    .raise (.dynamic "JavaScript value is not an object")
  else
    let result ← (Call.valueGetProperty value (mallocCString name)).prog
    if result.isNone then
      .raise (.dynamic "failed to read JavaScript property")
    else
      return result

def setProperty (target : Ptr) (name : String) (value : Ptr) : Prog Unit := do
  if !(← valueHasProperties target) then
    .raise (.dynamic "JavaScript value is not an object")
  else
    let status ← (Call.valueSetProperty target (mallocCString name) value).prog
    if status ≠ 0 then
      .raise (.dynamic "failed to write JavaScript property")
    else
      return ()

def getIndex (value : Ptr) (index : Int) : Prog Ptr := do
  if !(← valueIsArray value) then
    .raise (.dynamic "Expected JavaScript array")
  else
    let length ← (Call.valueArrayLength value).prog
    if index < 0 ∨ length ≤ index then
      .raise (.dynamic "JavaScript array index is out of range")
    else
      let result ← (Call.valueGetIndex value index).prog
      if result.isNone then
        .raise (.dynamic "failed to read JavaScript array index")
      else
        return result

def setIndex (target : Ptr) (index : Int) (value : Ptr) : Prog Unit := do
  if !(← valueIsArray target) then
    .raise (.dynamic "Expected JavaScript array")
  else
    let length ← (Call.valueArrayLength target).prog
    if index < 0 ∨ length ≤ index then
      .raise (.dynamic "JavaScript array index is out of range")
    else
      let status ← (Call.valueSetIndex target index value).prog
      if status ≠ 0 then
        .raise (.dynamic "failed to write JavaScript array index")
      else
        return ()

def jsIndex (arg : Any) : Prog Int :=
  match arg with
  | .int .uint64 _ => .raise (.conversion "JavaScript array index must be an integer")
  | .int _ i => .ret i.val
  | _ => .raise (.conversion "JavaScript array index must be an integer")

def externContentToValue (content : Payload) : Prog Ptr := do
  (← externContentToRef content).pointer

/-- The end of `quickJS2Cangjie`, after a `match` that did not return. -/
def unsupportedConversion : Prog Any :=
  .raise (.conversion "Unsupported type conversion by JSRuntime")

/-- A branch of `quickJS2Cangjie` for a numeric type: of a number, else of a BigInt. -/
def numeric2Cangjie (value : Ptr) (ofNumber : Float64 → Prog Any) (ofBigInt : Int → Prog Any) :
    Prog Any := do
  if ← valueIsNumber value then
    ofNumber (← valueAsFloat64 value)
  else if ← valueIsBigInt value then
    ofBigInt (← parseBigInt (← valueAsString value))
  else
    unsupportedConversion

def quickJS2Cangjie (value : Ptr) (cjType : Target) : Prog Any :=
  match cjType with
  | .bool => do
    if ← valueIsBool value then
      return .bool (← valueAsBool value)
    else
      unsupportedConversion
  | .string => do
    if ← valueIsText value then
      return .string (← valueAsString value)
    else
      unsupportedConversion
  | .int t =>
    numeric2Cangjie value (fun x => do return .int t (← t.ofFloat64 x))
      fun i => do return .int t (← t.ofInt i)
  | .bigInt =>
    numeric2Cangjie value (fun x => do return .bigInt (← bigIntOfFloat64 x)) fun i => .ret (.bigInt i)
  | .float t =>
    numeric2Cangjie value (fun x => .ret (.float t (t.ofFloat64 x))) fun i => .ret (.float t (t.ofRat i))
  | .other => unsupportedConversion

namespace JSRuntime

variable (runtime : Ptr)

def toJSBigInt (value : String) : Prog JSValueRef := do
  let handle ← (Call.runtimeNewBigint runtime (mallocCString value)).prog
  newRef (← valueFromRuntimeHandle runtime handle)

/-- The cases of `toJSValue` that pass a `Float64`. -/
def toJSNumber (value : Float64) : Prog JSValueRef := do
  let handle ← (Call.runtimeNewNumber runtime value).prog
  newRef (← valueFromRuntimeHandle runtime handle)

def toJSValue (value : Any) : Prog JSValueRef :=
  match value with
  | .externValue e => externContentToRef e
  | .pointer handle => newRef handle
  | .int .int8 i | .int .int16 i | .int .int32 i | .int .uint8 i | .int .uint16 i =>
    toJSNumber runtime (.finite i.val)
  | .int .int64 i | .int .uint32 i | .int .uint64 i => toJSBigInt runtime (toString i.val)
  | .bigInt i => toJSBigInt runtime (toString i)
  | .float _ f => toJSNumber runtime f
  | .bool b => do
    let handle ← (Call.runtimeNewBool runtime (boolAsInt64 b)).prog
    newRef (← valueFromRuntimeHandle runtime handle)
  | .string s => do
    let handle ← (Call.runtimeNewString runtime (mallocCString s)).prog
    newRef (← valueFromRuntimeHandle runtime handle)
  | .other => .raise (.conversion "Unsupported type by JSRuntime")

def toJSValues : List Any → Prog (List JSValueRef)
  | [] => .ret []
  | arg :: args => do
    let ref ← toJSValue runtime arg
    return ref :: (← toJSValues args)

/-- `args.map(refPointer)`. -/
def refPointers (args : List JSValueRef) : Prog (List Ptr) := .touch args (.ret (args.map (·.handle)))

def callValue (function thisValue : JSValueRef) (args : List JSValueRef) : Prog Ptr := do
  let nativeArgs ← refPointers args
  let numArgs ← IntType.int32.ofInt args.length
  let result ← Prog.native [function, thisValue]
    (.valueCall function.handle thisValue.handle nativeArgs numArgs.val) .ret
  valueFromCallHandle runtime result

def constructValue (constructor : JSValueRef) (args : List JSValueRef) : Prog Ptr := do
  let nativeArgs ← refPointers args
  let numArgs ← IntType.int32.ofInt args.length
  let result ← Prog.native [constructor]
    (.valueConstruct constructor.handle nativeArgs numArgs.val) .ret
  valueFromCallHandle runtime result

def evalScript (source : String) : Prog Payload := do
  let value ← (Call.runtimeEvalValue runtime (mallocCString source)).prog
  if value.isNone then
    .raise (.dynamic (← runtimeError runtime))
  else
    jsExtern value

def enableStdModule : Prog Unit := do
  let status ← (Call.runtimeEnableStdModule runtime).prog
  if status ≠ 0 then
    .raise (.dynamic (← runtimeError runtime))
  else
    return ()

def globalAccess (name : String) : Prog Payload := do
  let value ← (Call.runtimeGetGlobalProperty runtime (mallocCString name)).prog
  if value.isNone then
    .raise (.dynamic (← runtimeError runtime))
  else
    jsExtern value

def getModule (moduleName : String) : Prog Payload := do
  let value ← (Call.runtimeImportModule runtime (mallocCString moduleName)).prog
  if value.isNone then
    .raise (.dynamic (← runtimeError runtime))
  else
    jsExtern value

def memberAccess (e : Payload) (field : String) : Prog Payload :=
  match e with
  | .value value => do
    let fieldValue ← getProperty (← value.pointer) field
    if ← valueIsFunction fieldValue then
      let function ← newRef fieldValue
      .touch [value] (.ret (.method function value))
    else
      jsExtern fieldValue
  | _ => .raise (.dynamic "Unsupported member access")

/-- `functionCall` on a function and the receiver that it makes. -/
def callOrConstruct (function : JSValueRef) (receiver : Prog JSValueRef) (args : List Any) :
    Prog Payload := do
  let jsArgs ← toJSValues runtime args
  Prog.tryCatch (do jsExtern (← callValue runtime function (← receiver) jsArgs))
    fun _ => do jsExtern (← constructValue runtime function jsArgs)

def functionCall (e : Payload) (args : List Any) : Prog Payload :=
  match e with
  | .method function receiver => callOrConstruct runtime function (.ret receiver) args
  | .value value => callOrConstruct runtime value (newRef none) args
  | _ => .raise (.dynamic "Expected function or class")

def memberUpdate (e : Payload) (field : String) (value : Any) : Prog Unit :=
  match e with
  | .value target => do
    let jsValue ← toJSValue runtime value
    setProperty (← target.pointer) field (← jsValue.pointer)
  | _ => .raise (.dynamic "Unsupported assignment")

def indexAccess (e : Payload) (arg : Any) : Prog Payload :=
  match e with
  | .value value =>
    match arg with
    | .string key => do jsExtern (← getProperty (← value.pointer) key)
    | _ => do
      let p ← value.pointer
      jsExtern (← getIndex p (← jsIndex arg))
  | _ => .raise (.dynamic "Expected JavaScript array or object")

def indexUpdate (e : Payload) (arg value : Any) : Prog Unit :=
  match e with
  | .value target =>
    match arg with
    | .string key => do
      let jsValue ← toJSValue runtime value
      setProperty (← target.pointer) key (← jsValue.pointer)
    | _ => do
      let jsValue ← toJSValue runtime value
      let p ← target.pointer
      let index ← jsIndex arg
      setIndex p index (← jsValue.pointer)
  | _ => .raise (.dynamic "Expected JavaScript array or object")

def fromExtern (t : Target) (e : Payload) : Prog Any := do
  quickJS2Cangjie (← externContentToValue e) t

def toExtern (value : Any) : Prog Payload := do
  return .value (← toJSValue runtime value)

end JSRuntime

/-! ## The public operations -/

/-- A public operation, with what the client supplies. -/
inductive Op where
  | evalScript (source : String)
  | enableStdModule
  | globalAccess (name : String)
  | getModule (moduleName : String)
  | memberAccess (e : Payload) (field : String)
  | functionCall (e : Payload) (args : List Any)
  | memberUpdate (e : Payload) (field : String) (value : Any)
  | indexAccess (e : Payload) (arg : Any)
  | indexUpdate (e : Payload) (arg value : Any)
  | fromExtern (t : Target) (e : Payload)
  | toExtern (value : Any)

/-- The type of its result. -/
def Op.Out : Op → Type
  | .enableStdModule | .memberUpdate _ _ _ | .indexUpdate _ _ _ => Unit
  | .fromExtern _ _ => Any
  | _ => Payload

def Op.prog (runtime : Ptr) : (op : Op) → Prog op.Out
  | .evalScript source => JSRuntime.evalScript runtime source
  | .enableStdModule => JSRuntime.enableStdModule runtime
  | .globalAccess name => JSRuntime.globalAccess runtime name
  | .getModule moduleName => JSRuntime.getModule runtime moduleName
  | .memberAccess e field => JSRuntime.memberAccess e field
  | .functionCall e args => JSRuntime.functionCall runtime e args
  | .memberUpdate e field value => JSRuntime.memberUpdate runtime e field value
  | .indexAccess e arg => JSRuntime.indexAccess e arg
  | .indexUpdate e arg value => JSRuntime.indexUpdate runtime e arg value
  | .fromExtern t e => JSRuntime.fromExtern t e
  | .toExtern value => JSRuntime.toExtern runtime value

/-- The objects of a payload. -/
def Payload.refs : Payload → List JSValueRef
  | .value ref => [ref]
  | .method function receiver => [function, receiver]
  | _ => []

def Any.refs : Any → List JSValueRef
  | .externValue e => e.refs
  | _ => []

/-- The raw handle of a payload. -/
def Payload.raw : Payload → Ptr
  | .pointer h => h
  | _ => none

def Any.raw : Any → Ptr
  | .externValue e => e.raw
  | .pointer h => h
  | _ => none

/-- The objects that the caller supplies. -/
def Op.refs : Op → List JSValueRef
  | .memberAccess e _ | .fromExtern _ e => e.refs
  | .memberUpdate e _ v => e.refs ++ v.refs
  | .indexAccess e arg => e.refs ++ arg.refs
  | .indexUpdate e arg v => e.refs ++ arg.refs ++ v.refs
  | .functionCall e args => e.refs ++ args.flatMap Any.refs
  | .toExtern v => v.refs
  | _ => []

end InteropJs
