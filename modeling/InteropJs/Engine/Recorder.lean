import InteropJs.Engine.World

/-!
# A record of the engine calls

`Platform.recorded` is a platform with a log: the heap of a context also holds, in their order, the calls
of the engine that can run JavaScript code, each with its arguments. Nothing else changes, so a statement
about the log in the states of `P.recorded`, for every `P`, is one about which engine calls the code makes.

Compiling, linking and listing the names of a module, `JS_IsArray` and new values run no JavaScript code and
are left out.
-/

namespace InteropJs

/-- A call of the engine that can run JavaScript code. -/
inductive EngineCall where
  | eval (source : CStr)
  /-- `JS_EvalFunction` of a module. -/
  | evalModule (m : Nat)
  | get (x : JSVal) (key : PropKey)
  | set (x : JSVal) (key : PropKey) (y : JSVal)
  | define (x : JSVal) (key : PropKey) (y : JSVal)
  | call (f this : JSVal) (argv : List JSVal)
  | construct (f : JSVal) (argv : List JSVal)
  | toString (x : JSVal)
  | toNumber (x : JSVal)

/-- A call that is not logged. -/
def EngineM.unlogged {Heap α : Type} (f : EngineM Heap α) : EngineM (Heap × List EngineCall) α := fun h =>
  ((f h.1).1, (f h.1).2, h.2)

def EngineM.logged {Heap α : Type} (e : EngineCall) (f : EngineM Heap α) :
    EngineM (Heap × List EngineCall) α := fun h =>
  ((f h.1).1, (f h.1).2, h.2 ++ [e])

/-- The platform with a log (module doc). -/
def Platform.recorded (P : Platform) : Platform where
  Heap := P.Heap × List EngineCall
  Host := P.Host
  malloc := P.malloc
  fopen := P.fopen
  fseek := P.fseek
  ftell := P.ftell
  fread := P.fread
  newRuntime := P.newRuntime
  newContext host := ((P.newContext host).1.map (·, []), (P.newContext host).2)
  eval source := (P.eval source).logged (.eval source)
  compileModule source name loader := (P.compileModule source name loader).unlogged
  resolveModule m loader := (P.resolveModule m loader).unlogged
  evalFunction m := (P.evalFunction m).logged (.evalModule m)
  moduleNamespace m := (P.moduleNamespace m).unlogged
  globalObject h := P.globalObject h.1
  getProperty x key := (P.getProperty x key).logged (.get x key)
  setProperty x key y := (P.setProperty x key y).logged (.set x key y)
  defineProperty x key y := (P.defineProperty x key y).logged (.define x key y)
  ownPropertyNames x := (P.ownPropertyNames x).unlogged
  newObject := P.newObject.unlogged
  newString us := (P.newString us).unlogged
  call f this argv := (P.call f this argv).logged (.call f this argv)
  callConstructor f argv := (P.callConstructor f argv).logged (.construct f argv)
  toString x := (P.toString x).logged (.toString x)
  cString us := (P.cString us).unlogged
  toFloat64 x := (P.toFloat64 x).logged (.toNumber x)
  isArray x := (P.isArray x).unlogged
  initModuleStd := P.initModuleStd.unlogged
  castOverflow := P.castOverflow
  argvRoom := P.argvRoom

variable {P : Platform} {α β : Type}

/-- The log grows only. -/
def EngineM.Logs (f : EngineM P.recorded.Heap α) : Prop := ∀ h, ∃ rest, (f h).2.2 = h.2 ++ rest

theorem EngineM.unlogged_logs (f : EngineM P.Heap α) : EngineM.Logs (P := P) f.unlogged :=
  fun _ => ⟨[], (List.append_nil _).symm⟩

theorem EngineM.logged_logs (e : EngineCall) (f : EngineM P.Heap α) : EngineM.Logs (P := P) (f.logged e) :=
  fun _ => ⟨[e], rfl⟩

theorem EngineM.ok_logs (a : α) : EngineM.Logs (P := P) fun h => (.ok a, h) :=
  fun _ => ⟨[], (List.append_nil _).symm⟩

theorem EngineM.Logs.andThen {f : EngineM P.recorded.Heap α} {g : α → EngineM P.recorded.Heap β}
    (hf : EngineM.Logs f) (hg : ∀ a, EngineM.Logs (g a)) : EngineM.Logs (EngineM.andThen f g) := by
  intro h
  obtain ⟨rest, hrest⟩ := hf h
  unfold EngineM.andThen
  rcases hout : f h with ⟨e | a, h'⟩ <;> rw [hout] at hrest
  · exact ⟨rest, hrest⟩
  · obtain ⟨rest', hrest'⟩ := hg a h'
    have hlog : h'.2 = h.2 ++ rest := hrest
    exact ⟨rest ++ rest', by rw [hrest', hlog, List.append_assoc]⟩

theorem Platform.recorded_toCString (x : JSVal) : EngineM.Logs (P.recorded.toCString x) := by
  refine EngineM.Logs.andThen ?_ fun us =>
    EngineM.Logs.andThen (EngineM.unlogged_logs _) fun _ => EngineM.ok_logs _
  cases x with
  | string us => exact EngineM.ok_logs us
  | _ => exact EngineM.logged_logs _ _

/-- The log makes no difference to the text of a value. -/
theorem Platform.recorded_toCString_eq (x : JSVal) (h : P.recorded.Heap) :
    (P.recorded.toCString x h).1 = (P.toCString x h.1).1 ∧
      (P.recorded.toCString x h).2.1 = (P.toCString x h.1).2 := by
  have hbytes : ∀ (us : List UInt16) (h : P.recorded.Heap),
      (EngineM.andThen (P.recorded.cString us) (fun _ h => (.ok (cStringBytes us), h)) h).1 =
        (EngineM.andThen (P.cString us) (fun _ h => (.ok (cStringBytes us), h)) h.1).1 ∧
      (EngineM.andThen (P.recorded.cString us) (fun _ h => (.ok (cStringBytes us), h)) h).2.1 =
        (EngineM.andThen (P.cString us) (fun _ h => (.ok (cStringBytes us), h)) h.1).2 := by
    intro us h
    have hrec : P.recorded.cString us h = ((P.cString us h.1).1, (P.cString us h.1).2, h.2) := rfl
    unfold EngineM.andThen
    rw [hrec]
    rcases P.cString us h.1 with ⟨e | _, h'⟩ <;> exact ⟨rfl, rfl⟩
  have hany : ∀ x, (∀ us, x ≠ .string us) →
      (P.recorded.toCString x h).1 = (P.toCString x h.1).1 ∧
        (P.recorded.toCString x h).2.1 = (P.toCString x h.1).2 := by
    intro x hx
    have hrec : P.recorded.toString x h = ((P.toString x h.1).1, (P.toString x h.1).2, h.2 ++ [.toString x]) :=
      rfl
    have hl : P.recorded.toCString x h = EngineM.andThen (P.recorded.toString x) (fun us =>
        EngineM.andThen (P.recorded.cString us) fun _ h => (.ok (cStringBytes us), h)) h := by
      cases x <;> first | rfl | exact absurd rfl (hx _)
    have hr : P.toCString x h.1 = EngineM.andThen (P.toString x) (fun us =>
        EngineM.andThen (P.cString us) fun _ h => (.ok (cStringBytes us), h)) h.1 := by
      cases x <;> first | rfl | exact absurd rfl (hx _)
    rw [hl, hr, EngineM.andThen, hrec, EngineM.andThen]
    rcases P.toString x h.1 with ⟨e | us, h'⟩
    · exact ⟨rfl, rfl⟩
    · exact hbytes us (h', _)
  cases x with
  | string us => exact hbytes us h
  | _ => exact hany _ fun _ heq => by cases heq

end InteropJs
