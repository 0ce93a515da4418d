import Mathlib.Algebra.Order.Group.Multiset
import InteropJs.Engine.Value

/-!
# The world of the bridge

What the bridge (`native/bridge/quickjs_bridge.c`) acts on: its two kinds of `struct`, the
JavaScript engine of each runtime, and the C library.

* **The platform** (`Platform`) is a parameter: the vendored engine and the C library. An engine
  function takes the JavaScript heap of its context and returns a value or the exception it throws,
  with the heap after it. `Host` is the state of the C library: it decides which allocation and
  which file operation fails. A statement about every platform is one about every outcome of every
  call.
* **Memory**: the `struct`s are blocks with an identity that is not used twice. Access to a freed
  block, or through `NULL`, is a `Fault`, and so is the release of a resource that is not held. The
  array that a call builds is on the C stack, which has room for `argvRoom` elements: a larger one is
  a `Fault` too.
* **The ledger** holds what the bridge owns: JavaScript references, C strings of the engine,
  property tables, `malloc`ed strings, open files and file buffers, each under a new number. A
  reference is a `JSValue.ref v t`: the value `v` and its entry `t`.
* **Releases**: `JS_FreeValue` gives a reference back, which is its entry of the ledger. What the engine
  frees of its heap when the last reference goes, and what scripts and allocators can tell of that (a
  `WeakRef` loses its target), is a step of the engine (`World.reclaimed`), which can leave any heap.
* `value_count` is a `size_t`. Every live handle is an allocated block, so the count cannot reach
  the bound of the type; it is a `Nat` here.
* `entries` records the functions whose body `JS_Call` or `JS_CallConstructor` starts, and `frees`
  the runtimes that `free_runtime` released.
-/

namespace InteropJs

/-- An engine function: the value or the exception it throws, and the heap after it. -/
abbrev EngineM (Heap α : Type) := Heap → Except JSVal α × Heap

/-- One engine function after another; an exception ends the sequence. -/
def EngineM.andThen {Heap α β : Type} (f : EngineM Heap α) (g : α → EngineM Heap β) :
    EngineM Heap β := fun h =>
  match f h with
  | (.ok a, h) => g a h
  | (.error e, h) => (.error e, h)

/-- The engine and the C library (module doc). -/
structure Platform where
  /-- The JavaScript heap of a context. -/
  Heap : Type
  /-- The state of the C library. -/
  Host : Type
  /-- Whether the next `malloc` or `calloc` succeeds. -/
  malloc : Host → Bool × Host
  /-- `fopen(path, "rb")`. -/
  fopen : CStr → Host → Bool × Host
  /-- `fseek` to the end or to the start: its status. -/
  fseek : Host → Int × Host
  ftell : Host → Int × Host
  /-- The bytes that `fread` delivers of the `size` asked for. -/
  fread : Nat → Host → List UInt8 × Host
  /-- `JS_NewRuntime`. -/
  newRuntime : Host → Bool × Host
  /-- `JS_NewContext`. -/
  newContext : Host → Option Heap × Host
  /-- `JS_Eval` with `JS_EVAL_TYPE_GLOBAL`. -/
  eval : CStr → EngineM Heap JSVal
  /-- `JS_Eval` of a module source with `JS_EVAL_FLAG_COMPILE_ONLY`, under a file name, with or
  without a module loader: a new module record. -/
  compileModule : List UInt8 → CStr → Bool → EngineM Heap Nat
  /-- `JS_ResolveModule`. -/
  resolveModule : Nat → Bool → EngineM Heap Unit
  /-- `JS_EvalFunction` of a module: a promise. -/
  evalFunction : Nat → EngineM Heap JSVal
  /-- `JS_GetModuleNamespace`. -/
  moduleNamespace : Nat → EngineM Heap JSVal
  /-- `JS_GetGlobalObject`: it cannot fail. -/
  globalObject : Heap → JSVal
  /-- `JS_GetProperty` and its variants for C strings and indices. -/
  getProperty : JSVal → PropKey → EngineM Heap JSVal
  /-- `JS_SetPropertyStr`, `JS_SetPropertyUint32`. -/
  setProperty : JSVal → PropKey → JSVal → EngineM Heap Bool
  /-- `JS_DefinePropertyValue` with `JS_PROP_C_W_E`. -/
  defineProperty : JSVal → PropKey → JSVal → EngineM Heap Bool
  /-- `JS_GetOwnPropertyNames` of the enumerable string keys. -/
  ownPropertyNames : JSVal → EngineM Heap (List PropKey)
  newObject : EngineM Heap JSVal
  /-- Whether `JS_NewString` has the memory and accepts the length. -/
  newString : List UInt16 → EngineM Heap Unit
  call : JSVal → JSVal → List JSVal → EngineM Heap JSVal
  callConstructor : JSVal → List JSVal → EngineM Heap JSVal
  /-- `JS_ToString` of a value that is not a string. -/
  toString : JSVal → EngineM Heap (List UInt16)
  /-- Whether `JS_ToCString` has the memory for the UTF-8 form. -/
  cString : List UInt16 → EngineM Heap Unit
  /-- `JS_ToFloat64` of a value that is not a number. -/
  toFloat64 : JSVal → EngineM Heap Float64
  isArray : JSVal → EngineM Heap Bool
  /-- `js_init_module_std`. -/
  initModuleStd : EngineM Heap Unit
  /-- What `(int64_t)x` gives for a double outside the range of the type, where C leaves it
  undefined. -/
  castOverflow : Float64 → Int64
  /-- The number of `JSValueConst` elements that the C stack has room for when a function of the
  bridge is called. -/
  argvRoom : Nat

namespace Platform

variable (P : Platform)

/-- `JS_ToCString`: the string conversion, then its UTF-8 form. -/
def toCString (v : JSVal) : EngineM P.Heap CStr :=
  EngineM.andThen (fun h => match v with | .string us => (.ok us, h) | v => P.toString v h) fun us =>
    EngineM.andThen (P.cString us) fun _ h => (.ok (cStringBytes us), h)

/-- `JS_ToFloat64`. -/
def toNumber (v : JSVal) : EngineM P.Heap Float64 := fun h =>
  match v with
  | .number x => (.ok x, h)
  | v => P.toFloat64 v h

/-- `JS_NewString`: it measures its argument with `strlen`. -/
def newJSString (s : CStr) : EngineM P.Heap JSVal :=
  EngineM.andThen (P.newString (newStringUnits s.text)) fun _ h =>
    (.ok (.string (newStringUnits s.text)), h)

/-- `(int64_t)x`: truncation. -/
def castInt64 (x : Float64) : Int :=
  match x with
  | .negZero => 0
  | .finite q =>
    let i := q.num.tdiv q.den
    if -2 ^ 63 ≤ i ∧ i < 2 ^ 63 then i else (P.castOverflow x).toInt
  | x => (P.castOverflow x).toInt

/-- The C stack has room for the array of a call with `numArgs` arguments, which has one element if
there are none. -/
def FitsArgv (numArgs : Int) : Prop := max numArgs 1 ≤ P.argvRoom

instance (numArgs : Int) : Decidable (P.FitsArgv numArgs) := inferInstanceAs (Decidable (_ ≤ _))

end Platform

/-- A platform to build small ones from: the C library never fails but finds no file, and an engine
function that may throw throws `undefined`. A context starts with the heap `start`. -/
def Platform.idle (Heap : Type) (start : Heap) : Platform where
  Heap := Heap
  Host := Unit
  malloc h := (true, h)
  fopen _ h := (false, h)
  fseek h := (0, h)
  ftell h := (0, h)
  fread _ h := ([], h)
  newRuntime h := (true, h)
  newContext h := (some start, h)
  eval _ h := (.error .undefined, h)
  compileModule _ _ _ h := (.error .undefined, h)
  resolveModule _ _ h := (.error .undefined, h)
  evalFunction _ h := (.error .undefined, h)
  moduleNamespace _ h := (.error .undefined, h)
  globalObject _ := .object 0
  getProperty _ _ h := (.error .undefined, h)
  setProperty _ _ _ h := (.error .undefined, h)
  defineProperty _ _ _ h := (.error .undefined, h)
  ownPropertyNames _ h := (.error .undefined, h)
  newObject h := (.error .undefined, h)
  newString _ h := (.ok (), h)
  call _ _ _ h := (.error .undefined, h)
  callConstructor _ _ h := (.error .undefined, h)
  toString _ h := (.error .undefined, h)
  cString _ h := (.ok (), h)
  toFloat64 _ h := (.error .undefined, h)
  isArray _ h := (.ok false, h)
  initModuleStd h := (.error .undefined, h)
  castOverflow _ := 0
  argvRoom := 2 ^ 19

/-- What the bridge owns, by its entry in the ledger. -/
inductive Resource where
  | jsValue (t : Nat)
  | cString (t : Nat)
  | propertyTable (t : Nat)
  | string (t : Nat)
  | file (t : Nat)
  | buffer (t : Nat)
  deriving DecidableEq

/-- The entry of a resource. -/
def Resource.token : Resource → Nat
  | .jsValue t | .cString t | .propertyTable t | .string t | .file t | .buffer t => t

/-- A `JSValue` in a variable of the bridge: `JS_EXCEPTION`, or a value with the ledger entry of its
reference. -/
inductive JSValue where
  | exception
  | ref (v : JSVal) (t : Nat)
  deriving DecidableEq

/-- `JS_IsException`. -/
def JSValue.isException : JSValue → Bool
  | .exception => true
  | .ref _ _ => false

@[simp] theorem JSValue.isException_exception : JSValue.exception.isException = true := rfl

@[simp] theorem JSValue.isException_ref (v : JSVal) (t : Nat) :
    (JSValue.ref v t).isException = false := rfl

/-- The value that an engine function sees. `JS_EXCEPTION` as the function of a `JS_Call` is, like
`undefined`, no object. -/
def JSValue.val : JSValue → JSVal
  | .exception => .undefined
  | .ref v _ => v

/-- The reference that a `JSValue` holds. -/
def JSValue.res : JSValue → Multiset Resource
  | .exception => 0
  | .ref _ t => {.jsValue t}

@[simp] theorem JSValue.res_exception : JSValue.exception.res = 0 := rfl

@[simp] theorem JSValue.res_ref (v : JSVal) (t : Nat) : (JSValue.ref v t).res = {.jsValue t} := rfl

/-- A `malloc`ed string. -/
structure OwnedString where
  token : Nat
  bytes : CStr
  deriving DecidableEq

/-- The entry of a string that may be `NULL`. -/
def stringRes : Option OwnedString → Multiset Resource
  | none => 0
  | some s => {.string s.token}

@[simp] theorem stringRes_none : stringRes none = 0 := rfl

@[simp] theorem stringRes_some (s : OwnedString) : stringRes (some s) = {.string s.token} := rfl

/-- A pointer to a `struct` of the bridge. -/
abbrev Ptr := Option Nat

/-- The parts of a `JSRuntime *` that the bridge can tell apart: the pending exception
(`current_exception`) and whether a module loader is installed. -/
structure JSRuntime where
  exception : Option JSVal
  moduleLoader : Bool

/-- `struct js_runtime_handle`. A context is its heap. -/
structure RuntimeHandle (P : Platform) where
  runtime : Option JSRuntime
  context : Option P.Heap
  lastError : Option OwnedString
  valueCount : Nat
  destroying : Bool
  stdModuleEnabled : Bool

/-- `struct js_value_handle`. -/
structure ValueHandle where
  runtime : Ptr
  value : JSValue
  deriving DecidableEq

/-- The state that a bridge function runs in (module doc). -/
structure World (P : Platform) where
  runtimes : Nat → Option (RuntimeHandle P)
  values : Nat → Option ValueHandle
  nextRuntime : Nat
  nextValue : Nat
  nextToken : Nat
  ledger : Multiset Resource
  host : P.Host
  entries : List JSVal
  frees : List Nat

inductive Fault where
  /-- Access to a freed block. -/
  | useAfterFree
  | nullDereference
  /-- An array read past its end. -/
  | outOfBounds
  /-- The release of a resource that is not held. -/
  | doubleRelease
  /-- A variable-length array that the C stack has no room for. -/
  | stackOverflow
  deriving DecidableEq

abbrev BridgeM (P : Platform) := StateT (World P) (Except Fault)

variable {P : Platform}

/-- The engine of the runtime `r` has freed what nothing refers to any more (module doc). -/
def World.reclaimed (w : World P) (r : Nat) (heap : P.Heap) (host : P.Host) : World P :=
  { w with
    runtimes := Function.update w.runtimes r ((w.runtimes r).map fun cell => { cell with context := some heap })
    host }

/-! ## Memory and ledger -/

/-- `*runtime`. -/
def readRuntime (runtime : Ptr) : BridgeM P (RuntimeHandle P) := fun w =>
  match runtime with
  | none => .error .nullDereference
  | some r =>
    match w.runtimes r with
    | none => .error .useAfterFree
    | some cell => .ok (cell, w)

def writeRuntime (runtime : Ptr) (cell : RuntimeHandle P) : BridgeM P Unit := fun w =>
  match runtime with
  | none => .error .nullDereference
  | some r => .ok ((), { w with runtimes := Function.update w.runtimes r (some cell) })

/-- `*value`. -/
def readValue (value : Ptr) : BridgeM P ValueHandle := fun w =>
  match value with
  | none => .error .nullDereference
  | some p =>
    match w.values p with
    | none => .error .useAfterFree
    | some h => .ok (h, w)

/-- `malloc` or `calloc`: whether it returned a block. -/
def malloc : BridgeM P Bool := fun w =>
  let (ok, host) := P.malloc w.host
  .ok (ok, { w with host })

/-- A new entry of the ledger. -/
def acquire (res : Nat → Resource) : BridgeM P Nat := fun w =>
  .ok (w.nextToken,
    { w with nextToken := w.nextToken + 1, ledger := w.ledger + {res w.nextToken} })

def release (res : Resource) : BridgeM P Unit := fun w =>
  if res ∈ w.ledger then .ok ((), { w with ledger := w.ledger.erase res })
  else .error .doubleRelease

/-- `free` of a string that may be `NULL`. -/
def freeString (s : Option OwnedString) : BridgeM P Unit :=
  match s with
  | none => pure ()
  | some s => release (.string s.token)

/-! ## The C library -/

def onHost {α : Type} (f : P.Host → α × P.Host) : BridgeM P α := fun w =>
  let (a, host) := f w.host
  .ok (a, { w with host })

/-- `fopen(path, "rb")`: the entry of the open file. -/
def fopen (path : CStr) : BridgeM P (Option Nat) := do
  if ← onHost (P.fopen path.text) then
    return some (← acquire .file)
  else
    return none

def fclose (file : Nat) : BridgeM P Unit := release (.file file)

/-! ## Engine calls

Each takes the runtime handle whose `context` the C code passes. -/

/-- `runtime->context`, which the engine dereferences. -/
def readContext (runtime : Ptr) : BridgeM P (RuntimeHandle P × JSRuntime × P.Heap) := do
  let cell ← readRuntime runtime
  match cell.runtime, cell.context with
  | some rt, some heap => return (cell, rt, heap)
  | _, _ => throw .nullDereference

/-- An engine function on `runtime->context`: `none` if it threw, and then the exception is pending
(`JS_Throw`). -/
def onContext {α : Type} (runtime : Ptr) (f : EngineM P.Heap α) : BridgeM P (Option α) := do
  let (cell, rt, heap) ← readContext runtime
  match f heap with
  | (.ok a, heap) =>
    writeRuntime runtime { cell with context := some heap }
    return some a
  | (.error e, heap) =>
    writeRuntime runtime
      { cell with runtime := some { rt with exception := some e }, context := some heap }
    return none

namespace JS

/-- An engine function that returns an owned reference, or `JS_EXCEPTION`. -/
def produce (runtime : Ptr) (f : EngineM P.Heap JSVal) : BridgeM P JSValue := do
  match ← onContext runtime f with
  | none => return .exception
  | some v => return .ref v (← acquire .jsValue)

/-- An engine function that returns a status: negative if it threw. -/
def status {α : Type} (runtime : Ptr) (f : EngineM P.Heap α) : BridgeM P Int := do
  match ← onContext runtime f with
  | none => return -1
  | some _ => return 0

/-- The reference is given back. What the engine frees after it is `World.reclaimed`. -/
def freeValue (runtime : Ptr) (v : JSValue) : BridgeM P Unit := do
  let _ ← readContext runtime
  match v with
  | .exception => return ()
  | .ref _ t => release (.jsValue t)

def dupValue (runtime : Ptr) (v : JSValue) : BridgeM P JSValue := do
  let _ ← readContext runtime
  match v with
  | .exception => return .exception
  | .ref v _ => return .ref v (← acquire .jsValue)

/-- The engine takes over the reference of `v`, on success and on failure. -/
def consume (v : JSValue) : BridgeM P Unit :=
  match v with
  | .exception => pure ()
  | .ref _ t => release (.jsValue t)

def eval (runtime : Ptr) (source : CStr) : BridgeM P JSValue := produce runtime (P.eval source.text)

/-- `JS_Eval` of a module with `JS_EVAL_FLAG_COMPILE_ONLY`; its length is passed, not measured. -/
def evalModule (runtime : Ptr) (source : List UInt8) (path : CStr) : BridgeM P JSValue := do
  let (_, rt, _) ← readContext runtime
  produce runtime (EngineM.andThen (P.compileModule source path.text rt.moduleLoader) fun m h =>
    (.ok (.module m), h))

/-- `JS_VALUE_GET_PTR` of a compiled module. -/
def modulePtr : JSValue → Nat
  | .ref (.module m) _ => m
  | _ => 0

def resolveModule (runtime : Ptr) (compiled : JSValue) : BridgeM P Int := do
  let (_, rt, _) ← readContext runtime
  status runtime (P.resolveModule (modulePtr compiled) rt.moduleLoader)

def evalFunction (runtime : Ptr) (compiled : JSValue) : BridgeM P JSValue := do
  consume compiled
  produce runtime (P.evalFunction (modulePtr compiled))

def getModuleNamespace (runtime : Ptr) (module : Nat) : BridgeM P JSValue :=
  produce runtime (P.moduleNamespace module)

def getGlobalObject (runtime : Ptr) : BridgeM P JSValue :=
  produce runtime fun h => (.ok (P.globalObject h), h)

def getProperty (runtime : Ptr) (obj : JSValue) (atom : PropKey) : BridgeM P JSValue :=
  produce runtime (P.getProperty obj.val atom)

def getPropertyStr (runtime : Ptr) (obj : JSValue) (name : CStr) : BridgeM P JSValue :=
  produce runtime (P.getProperty obj.val (.ofCString name))

def getPropertyUint32 (runtime : Ptr) (obj : JSValue) (idx : UInt32) : BridgeM P JSValue :=
  produce runtime (P.getProperty obj.val (.ofIndex idx.toNat))

def setPropertyStr (runtime : Ptr) (obj : JSValue) (name : CStr) (v : JSValue) : BridgeM P Int := do
  consume v
  status runtime (P.setProperty obj.val (.ofCString name) v.val)

def setPropertyUint32 (runtime : Ptr) (obj : JSValue) (idx : UInt32) (v : JSValue) :
    BridgeM P Int := do
  consume v
  status runtime (P.setProperty obj.val (.ofIndex idx.toNat) v.val)

def definePropertyValue (runtime : Ptr) (obj : JSValue) (atom : PropKey) (v : JSValue) :
    BridgeM P Int := do
  consume v
  status runtime (P.defineProperty obj.val atom v.val)

def newBool (runtime : Ptr) (b : Bool) : BridgeM P JSValue :=
  produce runtime fun h => (.ok (.bool b), h)

def newFloat64 (runtime : Ptr) (x : Float64) : BridgeM P JSValue :=
  produce runtime fun h => (.ok (.number x), h)

def newString (runtime : Ptr) (s : CStr) : BridgeM P JSValue := produce runtime (P.newJSString s)

def newObject (runtime : Ptr) : BridgeM P JSValue := produce runtime P.newObject

/-- The body of `f` starts. -/
def enter (f : JSVal) : BridgeM P Unit := fun w => .ok ((), { w with entries := f :: w.entries })

def call (runtime : Ptr) (f this : JSVal) (argv : List JSVal) : BridgeM P JSValue := do
  if f.callRuns then
    enter f
  produce runtime (P.call f this argv)

def callConstructor (runtime : Ptr) (f : JSVal) (argv : List JSVal) : BridgeM P JSValue := do
  if f.isConstructor then
    enter f
  produce runtime (P.callConstructor f argv)

/-- The pending exception, which the caller then owns; `JS_UNINITIALIZED` if there is none. -/
def getException (runtime : Ptr) : BridgeM P JSValue := do
  let (cell, rt, _) ← readContext runtime
  writeRuntime runtime { cell with runtime := some { rt with exception := none } }
  return .ref (rt.exception.getD .uninitialized) (← acquire .jsValue)

/-- A C string that the engine owns until `JS_FreeCString`. -/
structure CString where
  token : Nat
  bytes : CStr

/-- `JS_ToCString`: `NULL` if it threw. -/
def toCString (runtime : Ptr) (v : JSValue) : BridgeM P (Option CString) := do
  match ← onContext runtime (P.toCString v.val) with
  | none => return none
  | some bytes => return some ⟨← acquire .cString, bytes⟩

def freeCString (runtime : Ptr) (s : Option CString) : BridgeM P Unit := do
  let _ ← readContext runtime
  match s with
  | none => return ()
  | some s => release (.cString s.token)

/-- `JS_ToFloat64`: `none` for a status other than 0. -/
def toFloat64 (runtime : Ptr) (v : JSValue) : BridgeM P (Option Float64) :=
  onContext runtime (P.toNumber v.val)

/-- `JS_ToBool`: `-1` only on `JS_EXCEPTION`. -/
def toBool (runtime : Ptr) (v : JSValue) : BridgeM P Int := do
  let _ ← readContext runtime
  match v with
  | .exception => return -1
  | .ref v _ => return if v.toBool then 1 else 0

/-- `JS_IsArray`: `-1` if it threw (a revoked Proxy). -/
def isArray (runtime : Ptr) (v : JSValue) : BridgeM P Int := do
  match ← onContext runtime (P.isArray v.val) with
  | none => return -1
  | some b => return if b then 1 else 0

/-- A `JSPropertyEnum` table. -/
structure PropertyTable where
  token : Nat
  atoms : List PropKey

/-- `JS_GetOwnPropertyNames`: the table, or `none` for a negative status. -/
def getOwnPropertyNames (runtime : Ptr) (obj : JSValue) : BridgeM P (Option PropertyTable) := do
  match ← onContext runtime (P.ownPropertyNames obj.val) with
  | none => return none
  | some atoms => return some ⟨← acquire .propertyTable, atoms⟩

def freePropertyEnum (runtime : Ptr) (table : PropertyTable) : BridgeM P Unit := do
  let _ ← readContext runtime
  release (.propertyTable table.token)

/-- `JS_SetModuleLoaderFunc2`. -/
def setModuleLoader (runtime : Ptr) : BridgeM P Unit := do
  let (cell, rt, _) ← readContext runtime
  writeRuntime runtime { cell with runtime := some { rt with moduleLoader := true } }

/-- `js_init_module_std`: `false` for `NULL`. -/
def initModuleStd (runtime : Ptr) : BridgeM P Bool := do
  return (← onContext runtime P.initModuleStd).isSome

end JS

end InteropJs
