import InteropJs.Cangjie.Rejections

/-!
# The operations without handles

What the Cangjie layer is for: a client that works with JavaScript values. Here an `Extern` is a
JavaScript value, or a method with its receiver (`Item`), and the public operations are functions on
the local state of the runtime. There are no handles, no `JSValueRef` objects, no blocks, no finalisers
and no calls of a bridge. An operation that needs memory for a handle still may fail for the lack of it:
the C library is part of the state. The count of handles is too, but no operation reads it.

`InteropJs/Cangjie/Refinement.lean` shows that the layer behaves as these functions say, and
`InteropJs/Cangjie/Programs.lean` that a client program does, whatever the finalisers do.
-/

namespace InteropJs

variable {P : Platform} {α β : Type}

/-- An operation on the local state; it returns or throws. -/
def Direct (P : Platform) (α : Type) : Type := Loc P → Except Exn α × Loc P

namespace Direct

def ret (a : α) : Direct P α := fun l => (.ok a, l)

def throw (e : Exn) : Direct P α := fun l => (.error e, l)

def bind (m : Direct P α) (f : α → Direct P β) : Direct P β := fun l =>
  match m l with
  | (.ok a, l) => f a l
  | (.error e, l) => (.error e, l)

instance : Monad (Direct P) where
  pure := ret
  bind := bind

/-- A step that does not throw. -/
def step (f : Loc P → α × Loc P) : Direct P α := fun l => (.ok (f l).1, (f l).2)

/-- A `throw` of what the error string says. -/
def raiseError (exn : Loc P → Exn) : Direct P α := fun l => (.error (exn l), l)

/-- The outcome `f` of the engine for the client: its value, if there is memory for a handle. -/
def give (f : Loc P → Option JSVal × Loc P) : Direct P (Option JSVal) := fun l =>
  let (o, l) := f l
  if l.delivers o then (.ok o, l.kept) else (.ok none, l.lost o)

/-- An engine function after `clear_error`. -/
def ask (f : EngineM P.Heap JSVal) : Direct P (Option JSVal) :=
  give fun l => ((f l.heap).1.toOption, l.clearError.after (f l.heap))

end Direct

/-- What an `Extern` is for the client. -/
inductive Item where
  | value (x : JSVal)
  | method (function receiver : JSVal)
  /-- Not an `Extern` of this layer. -/
  | other
  deriving DecidableEq

/-- Neither an `Extern` nor a raw handle. -/
def Any.isPlain : Any → Bool
  | .externValue _ | .pointer _ => false
  | _ => true

/-- A value that the client passes. -/
inductive Operand where
  | item (e : Item)
  | plain (v : Any) (isPlain : v.isPlain = true)
  deriving DecidableEq

namespace Direct

/-! ## Conversions -/

def toJSValue : Operand → Direct P JSVal
  | .item (.value x) => .ret x
  | .item _ => .throw (.conversion "Extern value does not contain a JavaScript value")
  | .plain .other _ => .throw (.conversion "Unsupported type by JSRuntime")
  | .plain v _ => do
    match ← give (·.converted v) with
    | some x => return x
    | none => raiseError Loc.runtimeExn

def toJSValues : List Operand → Direct P (List JSVal)
  | [] => .ret []
  | v :: vs => do
    let x ← toJSValue v
    return x :: (← toJSValues vs)

def jsIndex : Operand → Direct P Int
  | .plain (.int .uint64 _) _ => .throw (.conversion "JavaScript array index must be an integer")
  | .plain (.int _ i) _ => .ret i.val
  | _ => .throw (.conversion "JavaScript array index must be an integer")

def unsupported : Direct P Any := .throw (.conversion "Unsupported type conversion by JSRuntime")

/-- The text of a string or of a BigInt. -/
def text (x : JSVal) : Direct P String := fun l =>
  match readText (l.toText x).1 with
  | some m => (.ok m, (l.toText x).2)
  | none => (.error .illegalArgument, (l.toText x).2)

def integer (t : IntType) (i : Int) : Direct P Any := fun l => ((Target.int t).exactly i, l)

/-- A number as a value of the type. -/
def ofNumber : Target → Float64 → Direct P Any
  | .int t, .negZero => integer t 0
  | .int t, .finite q => integer t (q.num.tdiv q.den)
  | .int _, _ => .throw .overflow
  | .bigInt, .negZero => .ret (.bigInt 0)
  | .bigInt, .finite q => .ret (.bigInt (q.num.tdiv q.den))
  | .bigInt, _ => .throw .illegalArgument
  | .float t, x => .ret (.float t (t.ofFloat64 x))
  | _, _ => unsupported

/-- The integer of a text as a value of the type. -/
def ofText (t : Target) (m : String) : Direct P Any :=
  match m.toInt? with
  | none => .throw .illegalArgument
  | some i =>
    match t with
    | .int t => integer t i
    | .bigInt => .ret (.bigInt i)
    | .float t => .ret (.float t (t.ofRat i))
    | _ => unsupported

def quickJS2Cangjie (x : JSVal) : Target → Direct P Any
  | .bool =>
    match x with
    | .bool b => .ret (.bool b)
    | _ => unsupported
  | .string =>
    match x with
    | .string _ | .bigint _ => do return .string (← text x)
    | _ => unsupported
  | .other => unsupported
  | t =>
    match x with
    | .number y => ofNumber t y
    | .bigint _ => do ofText t (← text x)
    | _ => unsupported

/-! ## The operations -/

/-- The functions that wrap the handle of one bridge call. -/
def wrap (m : Direct P (Option JSVal)) : Direct P Item := do
  match ← m with
  | some x => return .value x
  | none => raiseError Loc.runtimeExn

def evalScript (source : String) : Direct P Item := wrap (ask (P.eval (mallocCString source).text))

def enableStdModule : Direct P Unit := do
  if (← step Loc.enableStd) ≠ 0 then
    raiseError Loc.runtimeExn

def globalAccess (name : String) : Direct P Item :=
  wrap (ask fun h => P.getProperty (P.globalObject h) (.ofName name) h)

/-- `js_runtime_import_module`: the file is read, then the module is run. -/
def importModule (path : CStr) : Direct P (Option JSVal) := fun l =>
  match P.readFile path l.host with
  | (none, host) =>
    (.ok none, { l.clearError with host }.setError (utf8 "failed to read JavaScript module file"))
  | (some source, host) => ask (P.importModule source path l.moduleLoader) { l with host }

def getModule (moduleName : String) : Direct P Item := wrap (importModule (mallocCString moduleName))

/-- A property of an object. -/
def getProperty (x : JSVal) (name : String) : Direct P JSVal :=
  if x.isObject then do
    match ← ask (P.getProperty x (.ofName name)) with
    | some y => return y
    | none => .throw (.dynamic "failed to read JavaScript property")
  else
    .throw (.dynamic "JavaScript value is not an object")

/-- A write that ended with `status`. -/
def setting (message : String) (x : JSVal) (key : PropKey) (y : JSVal) : Direct P Unit := fun l =>
  match P.setProperty x key y l.heap with
  | (.ok _, _) => (.ok (), l.afterSet x key y)
  | (.error _, _) => (.error (.dynamic message), l.afterSet x key y)

def setProperty (x : JSVal) (name : String) (y : JSVal) : Direct P Unit :=
  if x.isObject then
    setting "failed to write JavaScript property" x (.ofName name) y
  else
    .throw (.dynamic "JavaScript value is not an object")

/-- The checks of an index: a revoked Proxy counts as an array too. -/
def checkIndex (x : JSVal) (index : Int) : Direct P Unit := do
  let isArray ← step fun l =>
    (decide ((P.isArray x l.heap).1.toOption ≠ some false), l.after (P.isArray x l.heap))
  if !isArray then
    .throw (.dynamic "Expected JavaScript array")
  else
    let length ← step fun l => l.arrayLength x
    if index < 0 ∨ length ≤ index then
      .throw (.dynamic "JavaScript array index is out of range")

def getIndex (x : JSVal) (index : Int) : Direct P JSVal := do
  checkIndex x index
  match ← ask (P.getProperty x (.ofElement index)) with
  | some y => return y
  | none => .throw (.dynamic "failed to read JavaScript array index")

def setIndex (x : JSVal) (index : Int) (y : JSVal) : Direct P Unit := do
  checkIndex x index
  setting "failed to write JavaScript array index" x (.ofElement index) y

def memberAccess : Item → String → Direct P Item
  | .value x, field => do
    let y ← getProperty x field
    return if y.isFunction then .method y x else .value y
  | _, _ => .throw (.dynamic "Unsupported member access")

def callValue (f this : JSVal) (argv : List JSVal) : Direct P (Option JSVal) :=
  give fun l => (l.callResult f this argv, l.afterCall f this argv)

def constructValue (f : JSVal) (argv : List JSVal) : Direct P (Option JSVal) :=
  give fun l => (l.constructResult f argv, l.afterConstruct f argv)

/-- After any failure of the call the function is constructed with the same arguments. -/
def dispatch (f this : JSVal) (argv : List JSVal) : Direct P Item :=
  if maxArgs < argv.length then
    .throw .overflow
  else do
    match ← callValue f this argv with
    | some x => return .value x
    | none =>
      match ← constructValue f argv with
      | some x => return .value x
      | none => raiseError Loc.callExn

def callOrConstruct (f this : JSVal) (args : List Operand) : Direct P Item := do
  dispatch f this (← toJSValues args)

def functionCall : Item → List Operand → Direct P Item
  | .value f, args => callOrConstruct f .undefined args
  | .method f this, args => callOrConstruct f this args
  | .other, _ => .throw (.dynamic "Expected function or class")

def memberUpdate : Item → String → Operand → Direct P Unit
  | .value x, field, v => do setProperty x field (← toJSValue v)
  | _, _, _ => .throw (.dynamic "Unsupported assignment")

def indexAccess : Item → Operand → Direct P Item
  | .value x, .plain (.string key) _ => do return .value (← getProperty x key)
  | .value x, arg => do return .value (← getIndex x (← jsIndex arg))
  | _, _ => .throw (.dynamic "Expected JavaScript array or object")

def indexUpdate : Item → Operand → Operand → Direct P Unit
  | .value x, .plain (.string key) _, v => do setProperty x key (← toJSValue v)
  | .value x, arg, v => do
    let y ← toJSValue v
    setIndex x (← jsIndex arg) y
  | _, _, _ => .throw (.dynamic "Expected JavaScript array or object")

def fromExtern (t : Target) : Item → Direct P Any
  | .value x => quickJS2Cangjie x t
  | _ => .throw (.conversion "Extern value does not contain a JavaScript value")

def toExtern (v : Operand) : Direct P Item := do return .value (← toJSValue v)

end Direct

end InteropJs
