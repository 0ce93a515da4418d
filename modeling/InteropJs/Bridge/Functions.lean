import InteropJs.Engine.World

/-!
# The bridge (`native/bridge/quickjs_bridge.c`)

Every function of the C file, in its order and under its name. A `js_runtime_handle *`, a
`js_value_handle *` and a `const char *` may be `NULL` (`none`). The engine and the C library are
those of `InteropJs/Engine/World.lean`.
-/

namespace InteropJs

variable {P : Platform}

/-- The kinds that `js_value_kind` reports. -/
inductive ValueKind where
  | undefined | null | bool | number | string | bigint | object | function
  deriving DecidableEq

/-- The value of the C enumeration. -/
def ValueKind.code : ValueKind → Int
  | .undefined => 0
  | .null => 1
  | .bool => 2
  | .number => 3
  | .string => 4
  | .bigint => 5
  | .object => 6
  | .function => 7

/-! ## Errors -/

def copyString (value : Option CStr) : BridgeM P (Option OwnedString) := do
  let value := value.getD (utf8 "unknown QuickJS error")
  if ← malloc then
    return some ⟨← acquire .string, value.text⟩
  else
    return none

def setError (runtime : Ptr) (message : Option CStr) : BridgeM P Unit := do
  if runtime.isNone then
    return ()
  freeString (← readRuntime runtime).lastError
  let copy ← copyString message
  writeRuntime runtime { ← readRuntime runtime with lastError := copy }

def clearError (runtime : Ptr) : BridgeM P Unit := do
  if runtime.isNone then
    return ()
  let cell ← readRuntime runtime
  freeString cell.lastError
  writeRuntime runtime { cell with lastError := none }

def captureException (runtime : Ptr) : BridgeM P Unit := do
  if runtime.isNone then
    return ()
  if (← readRuntime runtime).context.isNone then
    return ()
  let pending ← JS.getException runtime
  let message ← JS.toCString runtime pending
  setError runtime (message.map (·.bytes))
  JS.freeCString runtime message
  JS.freeValue runtime pending

/-! ## Handles -/

def validRuntime (runtime : Ptr) : BridgeM P Bool := do
  if runtime.isNone then
    return false
  let cell ← readRuntime runtime
  return cell.runtime.isSome && cell.context.isSome

def validValue (value : Ptr) : BridgeM P Bool := do
  if value.isNone then
    return false
  validRuntime (← readValue value).runtime

/-- `JS_FreeContext`, `JS_FreeRuntime` and the two `free`s: the block goes. -/
def freeRuntime (runtime : Ptr) : BridgeM P Unit := do
  let some r := runtime | return ()
  freeString (← readRuntime runtime).lastError
  modify fun w =>
    { w with runtimes := Function.update w.runtimes r none, frees := r :: w.frees }

def freeRuntimeIfReady (runtime : Ptr) : BridgeM P Unit := do
  if runtime.isNone then
    return ()
  let cell ← readRuntime runtime
  if cell.destroying ∧ cell.valueCount = 0 then
    freeRuntime runtime

/-- The block of a `calloc`ed value handle. -/
def allocValue (h : ValueHandle) : BridgeM P Nat := fun w =>
  .ok (w.nextValue,
    { w with nextValue := w.nextValue + 1, values := Function.update w.values w.nextValue (some h) })

def newValueHandle (runtime : Ptr) (value : JSValue) : BridgeM P Ptr := do
  if !(← validRuntime runtime) then
    return none
  if !(← malloc) then
    JS.freeValue runtime value
    setError runtime (utf8 "failed to allocate JavaScript value handle")
    return none
  let handle ← allocValue { runtime, value }
  let cell ← readRuntime runtime
  writeRuntime runtime { cell with valueCount := cell.valueCount + 1 }
  return some handle

/-! ## Modules -/

/-- The loop of `new_mutable_namespace_object` over the atoms left. -/
def copyProperties (handle : Ptr) (namespaceValue object : JSValue) (properties : JS.PropertyTable) :
    List PropKey → BridgeM P JSValue
  | [] => do
    JS.freePropertyEnum handle properties
    return object
  | atom :: atoms => do
    let value ← JS.getProperty handle namespaceValue atom
    if value.isException then
      JS.freePropertyEnum handle properties
      JS.freeValue handle object
      return .exception
    let status ← JS.definePropertyValue handle object atom value
    if status < 0 then
      JS.freePropertyEnum handle properties
      JS.freeValue handle object
      return .exception
    copyProperties handle namespaceValue object properties atoms

def newMutableNamespaceObject (handle : Ptr) (namespaceValue : JSValue) : BridgeM P JSValue := do
  let object ← JS.newObject handle
  if object.isException then
    return .exception
  let some properties ← JS.getOwnPropertyNames handle namespaceValue | do
    JS.freeValue handle object
    return .exception
  copyProperties handle namespaceValue object properties properties.atoms

/-- The buffer that `read_file` returns. -/
structure FileBuffer where
  token : Nat
  bytes : List UInt8

def readFile (path : CStr) : BridgeM P (Option FileBuffer) := do
  let some file ← fopen path | return none
  if (← onHost P.fseek) ≠ 0 then
    fclose file
    return none
  let size ← onHost P.ftell
  -- `size < 0 || fseek(file, 0, SEEK_SET) != 0`
  if ← (if size < 0 then pure true else do return decide ((← onHost P.fseek) ≠ 0)) then
    fclose file
    return none
  if !(← malloc) then
    fclose file
    return none
  let buffer ← acquire .buffer
  let bytes ← onHost (P.fread size.toNat)
  fclose file
  if bytes.length ≠ size.toNat then
    release (.buffer buffer)
    return none
  return some ⟨buffer, bytes⟩

/-! ## Runtimes -/

/-- The block of a `calloc`ed runtime handle. -/
def allocRuntime : BridgeM P Nat := fun w =>
  .ok (w.nextRuntime,
    { w with
      nextRuntime := w.nextRuntime + 1
      runtimes := Function.update w.runtimes w.nextRuntime (some {
        runtime := none
        context := none
        lastError := none
        valueCount := 0
        destroying := false
        stdModuleEnabled := false }) })

def jsRuntimeCreate : BridgeM P Ptr := do
  if !(← malloc) then
    return none
  let handle ← allocRuntime
  let runtime ← onHost P.newRuntime
  let context ← (if runtime then onHost P.newContext else pure none)
  match context with
  | none =>
    -- `JS_FreeRuntime` if there is one, then `free(handle)`
    modify fun w => { w with runtimes := Function.update w.runtimes handle none }
    return none
  | some heap =>
    writeRuntime (some handle)
      { ← readRuntime (some handle) with runtime := some ⟨none, false⟩, context := some heap }
    return some handle

def jsRuntimeDestroy (handle : Ptr) : BridgeM P Unit := do
  if handle.isNone then
    return ()
  writeRuntime handle { ← readRuntime handle with destroying := true }
  freeRuntimeIfReady handle

/-- The string that the returned pointer shows. -/
def jsRuntimeLastError (handle : Ptr) : BridgeM P CStr := do
  if handle.isNone then
    return []
  match (← readRuntime handle).lastError with
  | none => return []
  | some s => return s.bytes

def jsRuntimeEnableStdModule (handle : Ptr) : BridgeM P Int := do
  if !(← validRuntime handle) then
    return 1
  if (← readRuntime handle).stdModuleEnabled then
    return 0
  clearError handle
  JS.setModuleLoader handle
  if !(← JS.initModuleStd handle) then
    captureException handle
    return 1
  writeRuntime handle { ← readRuntime handle with stdModuleEnabled := true }
  return 0

def jsRuntimeEvalValue (handle : Ptr) (source : Option CStr) : BridgeM P Ptr := do
  if !(← validRuntime handle) then
    return none
  let some source := source | do
    setError handle (utf8 "source must not be null")
    return none
  clearError handle
  let value ← JS.eval handle source
  if value.isException then
    captureException handle
    return none
  newValueHandle handle value

def jsRuntimeGetGlobalProperty (handle : Ptr) (name : Option CStr) : BridgeM P Ptr := do
  if !(← validRuntime handle) then
    return none
  let some name := name | do
    setError handle (utf8 "global property name must not be null")
    return none
  clearError handle
  let global ← JS.getGlobalObject handle
  let value ← JS.getPropertyStr handle global name
  JS.freeValue handle global
  if value.isException then
    captureException handle
    return none
  newValueHandle handle value

def jsRuntimeNewBool (handle : Ptr) (value : Int) : BridgeM P Ptr := do
  if !(← validRuntime handle) then
    return none
  clearError handle
  newValueHandle handle (← JS.newBool handle (value ≠ 0))

def jsRuntimeNewNumber (handle : Ptr) (value : Float64) : BridgeM P Ptr := do
  if !(← validRuntime handle) then
    return none
  clearError handle
  newValueHandle handle (← JS.newFloat64 handle value)

def jsRuntimeNewString (handle : Ptr) (value : Option CStr) : BridgeM P Ptr := do
  if !(← validRuntime handle) then
    return none
  let some value := value | do
    setError handle (utf8 "string value must not be null")
    return none
  clearError handle
  let jsValue ← JS.newString handle value
  if jsValue.isException then
    captureException handle
    return none
  newValueHandle handle jsValue

def jsRuntimeNewBigint (handle : Ptr) (value : Option CStr) : BridgeM P Ptr := do
  if !(← validRuntime handle) then
    return none
  let some value := value | do
    setError handle (utf8 "BigInt value must not be null")
    return none
  clearError handle
  let global ← JS.getGlobalObject handle
  let constructor ← JS.getPropertyStr handle global (utf8 "BigInt")
  JS.freeValue handle global
  let arg ← JS.newString handle value
  if arg.isException then
    JS.freeValue handle constructor
    captureException handle
    return none
  let jsValue ← JS.call handle constructor.val .undefined [arg.val]
  JS.freeValue handle arg
  JS.freeValue handle constructor
  if jsValue.isException then
    captureException handle
    return none
  newValueHandle handle jsValue

def jsRuntimeImportModule (handle : Ptr) (path : Option CStr) : BridgeM P Ptr := do
  if !(← validRuntime handle) then
    return none
  let some path := path | do
    setError handle (utf8 "module path must not be null")
    return none
  clearError handle
  let some source ← readFile path | do
    setError handle (utf8 "failed to read JavaScript module file")
    return none
  let compiled ← JS.evalModule handle source.bytes path
  release (.buffer source.token)
  if compiled.isException then
    captureException handle
    return none
  if (← JS.resolveModule handle compiled) < 0 then
    JS.freeValue handle compiled
    captureException handle
    return none
  let module := JS.modulePtr compiled
  let evalResult ← JS.evalFunction handle compiled
  if evalResult.isException then
    captureException handle
    return none
  JS.freeValue handle evalResult
  let namespaceValue ← JS.getModuleNamespace handle module
  if namespaceValue.isException then
    captureException handle
    return none
  let mutableNamespace ← newMutableNamespaceObject handle namespaceValue
  JS.freeValue handle namespaceValue
  if mutableNamespace.isException then
    captureException handle
    return none
  newValueHandle handle mutableNamespace

/-! ## Values -/

def jsValueDestroy (handle : Ptr) : BridgeM P Unit := do
  let some p := handle | return ()
  let h ← readValue handle
  if ← validRuntime h.runtime then
    JS.freeValue h.runtime h.value
  -- `free(handle)`
  modify fun w => { w with values := Function.update w.values p none }
  if h.runtime.isNone then
    return ()
  let cell ← readRuntime h.runtime
  if 0 < cell.valueCount then
    writeRuntime h.runtime { cell with valueCount := cell.valueCount - 1 }
    freeRuntimeIfReady h.runtime

/-- The chain of tag tests in `js_value_kind`. -/
def JSVal.kind (v : JSVal) : ValueKind :=
  match v with
  | .undefined => .undefined
  | .null => .null
  | .bool _ => .bool
  | .number _ => .number
  | .string _ => .string
  | .bigint _ => .bigint
  | v => if v.isFunction then .function else if v.isObject then .object else .undefined

def jsValueKind (handle : Ptr) : BridgeM P Int := do
  if !(← validValue handle) then
    return ValueKind.undefined.code
  return (← readValue handle).value.val.kind.code

def jsValueToBool (handle : Ptr) : BridgeM P Int := do
  if !(← validValue handle) then
    return 0
  let h ← readValue handle
  let value ← JS.toBool h.runtime h.value
  if value < 0 then
    setError h.runtime (utf8 "failed to convert JavaScript value to boolean")
    return 0
  return if value ≠ 0 then 1 else 0

def jsValueToNumber (handle : Ptr) : BridgeM P Float64 := do
  if !(← validValue handle) then
    return .finite 0
  let h ← readValue handle
  let some value ← JS.toFloat64 h.runtime h.value | do
    setError h.runtime (utf8 "failed to convert JavaScript value to number")
    return .finite 0
  return value

def jsValueToString (handle : Ptr) : BridgeM P (Option OwnedString) := do
  if !(← validValue handle) then
    return none
  let h ← readValue handle
  let some value ← JS.toCString h.runtime h.value | do
    setError h.runtime (utf8 "failed to convert JavaScript value to string")
    return none
  let copy ← copyString (some value.bytes)
  JS.freeCString h.runtime (some value)
  if copy.isNone then
    setError h.runtime (utf8 "failed to allocate JavaScript string result")
  return copy

def jsBridgeFreeString (value : Option OwnedString) : BridgeM P Unit := freeString value

/-- `JS_IsArray` is also true in C when it is `-1`. -/
def jsValueIsArray (handle : Ptr) : BridgeM P Int := do
  if !(← validValue handle) then
    return 0
  let h ← readValue handle
  return if (← JS.isArray h.runtime h.value) ≠ 0 then 1 else 0

def jsValueArrayLength (handle : Ptr) : BridgeM P Int := do
  if !(← validValue handle) then
    return -1
  let h ← readValue handle
  let length ← JS.getPropertyStr h.runtime h.value (utf8 "length")
  if length.isException then
    captureException h.runtime
    return -1
  let number ← JS.toFloat64 h.runtime length
  JS.freeValue h.runtime length
  match number with
  | none =>
    setError h.runtime (utf8 "failed to convert JavaScript array length")
    return -1
  | some number => return P.castInt64 number

def jsValueGetProperty (handle : Ptr) (name : Option CStr) : BridgeM P Ptr := do
  if !(← validValue handle) then
    return none
  let h ← readValue handle
  let some name := name | do
    setError h.runtime (utf8 "property name must not be null")
    return none
  clearError h.runtime
  let value ← JS.getPropertyStr h.runtime h.value name
  if value.isException then
    captureException h.runtime
    return none
  newValueHandle h.runtime value

/-- `value == NULL || value->runtime != runtime`. -/
def isForeign (value runtime : Ptr) : BridgeM P Bool := do
  if value.isNone then
    return true
  return (← readValue value).runtime ≠ runtime

def jsValueSetProperty (handle : Ptr) (name : Option CStr) (value : Ptr) : BridgeM P Int := do
  if !(← validValue handle) then
    return 1
  let h ← readValue handle
  let some name := name | do
    setError h.runtime (utf8 "property name must not be null")
    return 1
  if ← isForeign value h.runtime then
    setError h.runtime (utf8 "property value does not belong to this runtime")
    return 1
  clearError h.runtime
  let dup ← JS.dupValue h.runtime (← readValue value).value
  let status ← JS.setPropertyStr h.runtime h.value name dup
  if status < 0 then
    captureException h.runtime
    return 1
  return 0

/-- `(uint32_t)index`. -/
def uint32 (index : Int) : UInt32 := UInt32.ofNat (index % 2 ^ 32).toNat

def jsValueGetIndex (handle : Ptr) (index : Int) : BridgeM P Ptr := do
  if !(← validValue handle) then
    return none
  let h ← readValue handle
  if index < 0 then
    setError h.runtime (utf8 "array index must not be negative")
    return none
  clearError h.runtime
  let value ← JS.getPropertyUint32 h.runtime h.value (uint32 index)
  if value.isException then
    captureException h.runtime
    return none
  newValueHandle h.runtime value

def jsValueSetIndex (handle : Ptr) (index : Int) (value : Ptr) : BridgeM P Int := do
  if !(← validValue handle) then
    return 1
  let h ← readValue handle
  if index < 0 then
    setError h.runtime (utf8 "array index must not be negative")
    return 1
  if ← isForeign value h.runtime then
    setError h.runtime (utf8 "array value does not belong to this runtime")
    return 1
  clearError h.runtime
  let dup ← JS.dupValue h.runtime (← readValue value).value
  let status ← JS.setPropertyUint32 h.runtime h.value (uint32 index) dup
  if status < 0 then
    captureException h.runtime
    return 1
  return 0

/-! ## Calls -/

/-- The loop of `fill_argv` over the `n` arguments left; `none` for a status other than 0. -/
def fillArgvLoop (runtime : Ptr) : List Ptr → Nat → BridgeM P (Option (List JSVal))
  | _, 0 => return some []
  | [], _ + 1 => throw .outOfBounds
  | arg :: args, n + 1 => do
    if ← isForeign arg runtime then
      setError runtime (utf8 "argument does not belong to this runtime")
      return none
    let value := (← readValue arg).value.val
    let some argv ← fillArgvLoop runtime args n | return none
    return some (value :: argv)

def fillArgv (owner : Ptr) (args : Option (List Ptr)) (numArgs : Int) :
    BridgeM P (Option (List JSVal)) := do
  if !(← validValue owner) then
    return none
  let runtime := (← readValue owner).runtime
  if numArgs < 0 then
    setError runtime (utf8 "argument count must not be negative")
    return none
  if 0 < numArgs ∧ args.isNone then
    setError runtime (utf8 "argument array must not be null")
    return none
  fillArgvLoop runtime (args.getD []) numArgs.toNat

/-- `JSValueConst argv[num_args > 0 ? num_args : 1]`. -/
def stackArgv (numArgs : Int) : BridgeM P Unit :=
  if P.FitsArgv numArgs then pure () else throw .stackOverflow

def jsValueCall (function thisValue : Ptr) (args : Option (List Ptr)) (numArgs : Int) :
    BridgeM P Ptr := do
  if !(← validValue function) then
    return none
  let f ← readValue function
  -- `this_value != NULL && this_value->runtime != function->runtime`
  if ← (if thisValue.isNone then pure false else isForeign thisValue f.runtime) then
    setError f.runtime (utf8 "this value does not belong to this runtime")
    return none
  if numArgs < 0 then
    setError f.runtime (utf8 "argument count must not be negative")
    return none
  stackArgv numArgs
  let some argv ← fillArgv function args numArgs | return none
  clearError f.runtime
  let this ← (if thisValue.isNone then pure .undefined else do return (← readValue thisValue).value.val)
  let result ← JS.call f.runtime f.value.val this argv
  if result.isException then
    captureException f.runtime
    return none
  newValueHandle f.runtime result

def jsValueConstruct (constructor : Ptr) (args : Option (List Ptr)) (numArgs : Int) :
    BridgeM P Ptr := do
  if !(← validValue constructor) then
    return none
  let f ← readValue constructor
  if numArgs < 0 then
    setError f.runtime (utf8 "argument count must not be negative")
    return none
  stackArgv numArgs
  let some argv ← fillArgv constructor args numArgs | return none
  clearError f.runtime
  let result ← JS.callConstructor f.runtime f.value.val argv
  if result.isException then
    captureException f.runtime
    return none
  newValueHandle f.runtime result

end InteropJs
