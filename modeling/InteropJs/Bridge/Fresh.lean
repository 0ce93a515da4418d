import InteropJs.Bridge.Call

/-!
# Handles are new

Every handle that a function of the bridge returns is the next block of the world, whatever the
arguments and whatever the world: only `allocValue` moves `nextValue`, and only `newValueHandle` runs
it, as the last thing that its callers do. So every function either keeps `nextValue` (`Hoare.Keeps`)
or `Issues` a handle.
-/

namespace InteropJs

open Hoare

variable {P : Platform}

/-- No run of `c` makes a handle. -/
abbrev Steady {α : Type} (c : BridgeM P α) : Prop := Keeps World.nextValue c

/-- From the next block `m` to the next block `m'`, with the handle `p`. -/
def Issued (m : Nat) (p : Ptr) (m' : Nat) : Prop :=
  match p with
  | none => m' = m
  | some q => q = m ∧ m' = m + 1

/-- Every run of `c` returns `NULL` or the next block. -/
def Issues (c : BridgeM P Ptr) : Prop :=
  ∀ w p w', c.run w = .ok (p, w') → Issued w.nextValue p w'.nextValue

namespace Issues

variable {α : Type} {c d : BridgeM P Ptr}

theorem none : Issues (pure none : BridgeM P Ptr) := by
  intro w p w' h
  cases h
  rfl

theorem bind {c : BridgeM P α} {g : α → BridgeM P Ptr} (hc : Steady c) (hg : ∀ x, Issues (g x)) :
    Issues (c >>= g) := by
  intro w p w' h
  obtain ⟨x, w₁, hx, hp⟩ := Keeps.run_bind_ok h
  rw [← hc w x w₁ hx]
  exact hg x w₁ p w' hp

theorem ite {φ : Prop} [Decidable φ] (hc : Issues c) (hd : Issues d) :
    Issues (if φ then c else d) := by
  by_cases hφ : φ
  · rwa [if_pos hφ]
  · rwa [if_neg hφ]

/-- A way out with `NULL`. -/
theorem reject {c : BridgeM P α} (hc : Steady c) : Issues (do let _ ← c; pure .none) :=
  bind hc fun _ => none

end Issues

/-! ## Primitives -/

theorem steady_readRuntime (p : Ptr) : Steady (readRuntime p : BridgeM P _) := by
  intro w x w' h
  unfold readRuntime at h
  cases p with
  | none => cases h
  | some r =>
    cases hr : w.runtimes r <;> simp [StateT.run, hr] at h
    rw [h.2]

theorem steady_writeRuntime (p : Ptr) (cell : RuntimeHandle P) : Steady (writeRuntime p cell) := by
  intro w x w' h
  cases p with
  | none => cases h
  | some r =>
    cases h
    rfl

theorem steady_readValue (p : Ptr) : Steady (readValue p : BridgeM P _) := by
  intro w x w' h
  unfold readValue at h
  cases p with
  | none => cases h
  | some q =>
    cases hq : w.values q <;> simp [StateT.run, hq] at h
    rw [h.2]

theorem steady_onHost {α : Type} (f : P.Host → α × P.Host) : Steady (onHost f) := by
  intro w x w' h
  cases h
  rfl

theorem steady_malloc : Steady (malloc : BridgeM P Bool) := steady_onHost P.malloc

theorem steady_acquire (res : Nat → Resource) : Steady (acquire res : BridgeM P Nat) := by
  intro w x w' h
  cases h
  rfl

theorem steady_release (res : Resource) : Steady (release res : BridgeM P Unit) := by
  intro w x w' h
  unfold release at h
  by_cases hr : res ∈ w.ledger <;> simp [StateT.run, hr] at h
  rw [← h]

theorem steady_modify {f : World P → World P} (hf : ∀ w, (f w).nextValue = w.nextValue) :
    Steady (modify f : BridgeM P Unit) := by
  intro w x w' h
  cases h
  exact hf w

theorem steady_freeString (s : Option OwnedString) : Steady (freeString s : BridgeM P Unit) := by
  cases s with
  | none => exact .pure _
  | some s => exact steady_release _

theorem steady_readContext (p : Ptr) : Steady (readContext p : BridgeM P _) := by
  refine .bind (steady_readRuntime p) fun cell => ?_
  cases cell.runtime <;> cases cell.context
  all_goals first | exact .pure _ | exact .throw _

theorem steady_onContext {α : Type} (p : Ptr) (f : EngineM P.Heap α) : Steady (onContext p f) := by
  refine .bind (steady_readContext p) fun (cell, rt, heap) => ?_
  dsimp only
  rcases f heap with ⟨_ | _, _⟩ <;> exact .bind (steady_writeRuntime _ _) fun _ => .pure _

/-! ## Engine calls -/

namespace JS

theorem steady_produce (p : Ptr) (f : EngineM P.Heap JSVal) : Steady (produce p f) := by
  refine .bind (steady_onContext p f) fun o => ?_
  cases o with
  | none => exact .pure _
  | some v => exact .bind (steady_acquire _) fun _ => .pure _

theorem steady_status {α : Type} (p : Ptr) (f : EngineM P.Heap α) : Steady (status p f) := by
  refine .bind (steady_onContext p f) fun o => ?_
  cases o <;> exact .pure _

theorem steady_freeValue (p : Ptr) (v : JSValue) : Steady (freeValue p v : BridgeM P Unit) := by
  refine .bind (steady_readContext p) fun _ => ?_
  cases v with
  | exception => exact .pure _
  | ref v t => exact steady_release _

theorem steady_dupValue (p : Ptr) (v : JSValue) : Steady (dupValue p v : BridgeM P JSValue) := by
  refine .bind (steady_readContext p) fun _ => ?_
  cases v with
  | exception => exact .pure _
  | ref v t => exact .bind (steady_acquire _) fun _ => .pure _

theorem steady_consume (v : JSValue) : Steady (consume v : BridgeM P Unit) := by
  cases v with
  | exception => exact .pure _
  | ref v t => exact steady_release _

/-- A status of an engine function that takes over a reference. -/
theorem steady_consume_status {α : Type} (p : Ptr) (v : JSValue) (f : EngineM P.Heap α) :
    Steady (do consume v; status p f) :=
  .bind (steady_consume v) fun _ => steady_status p f

theorem steady_enter (f : JSVal) : Steady (enter f : BridgeM P Unit) := by
  intro w x w' h
  cases h
  rfl

theorem steady_call (p : Ptr) (f this : JSVal) (argv : List JSVal) :
    Steady (call p f this argv : BridgeM P JSValue) :=
  .ite (.bind (steady_enter f) fun _ => steady_produce p _) (steady_produce p _)

theorem steady_callConstructor (p : Ptr) (f : JSVal) (argv : List JSVal) :
    Steady (callConstructor p f argv : BridgeM P JSValue) :=
  .ite (.bind (steady_enter f) fun _ => steady_produce p _) (steady_produce p _)

theorem steady_getException (p : Ptr) : Steady (getException p : BridgeM P JSValue) :=
  .bind (steady_readContext p) fun _ => .bind (steady_writeRuntime p _) fun _ =>
    .bind (steady_acquire _) fun _ => .pure _

theorem steady_toCString (p : Ptr) (v : JSValue) : Steady (toCString p v : BridgeM P _) := by
  refine .bind (steady_onContext p _) fun o => ?_
  cases o with
  | none => exact .pure _
  | some s => exact .bind (steady_acquire _) fun _ => .pure _

theorem steady_freeCString (p : Ptr) (s : Option CString) : Steady (freeCString p s : BridgeM P Unit) := by
  refine .bind (steady_readContext p) fun _ => ?_
  cases s with
  | none => exact .pure _
  | some s => exact steady_release _

theorem steady_toBool (p : Ptr) (v : JSValue) : Steady (toBool p v : BridgeM P Int) := by
  refine .bind (steady_readContext p) fun _ => ?_
  cases v <;> exact .pure _

theorem steady_isArray (p : Ptr) (v : JSValue) : Steady (isArray p v : BridgeM P Int) := by
  refine .bind (steady_onContext p _) fun o => ?_
  cases o <;> exact .pure _

theorem steady_getOwnPropertyNames (p : Ptr) (v : JSValue) :
    Steady (getOwnPropertyNames p v : BridgeM P _) := by
  refine .bind (steady_onContext p _) fun o => ?_
  cases o with
  | none => exact .pure _
  | some s => exact .bind (steady_acquire _) fun _ => .pure _

theorem steady_freePropertyEnum (p : Ptr) (t : PropertyTable) :
    Steady (freePropertyEnum p t : BridgeM P Unit) :=
  .bind (steady_readContext p) fun _ => steady_release _

theorem steady_evalModule (p : Ptr) (source : List UInt8) (path : CStr) :
    Steady (evalModule p source path : BridgeM P JSValue) :=
  .bind (steady_readContext p) fun _ => steady_produce p _

theorem steady_resolveModule (p : Ptr) (v : JSValue) : Steady (resolveModule p v : BridgeM P Int) :=
  .bind (steady_readContext p) fun _ => steady_status p _

theorem steady_evalFunction (p : Ptr) (v : JSValue) : Steady (evalFunction p v : BridgeM P JSValue) :=
  .bind (steady_consume v) fun _ => steady_produce p _

theorem steady_setModuleLoader (p : Ptr) : Steady (setModuleLoader p : BridgeM P Unit) :=
  .bind (steady_readContext p) fun _ => steady_writeRuntime p _

end JS

/-! ## The helpers of the bridge -/

theorem steady_copyString (s : Option CStr) : Steady (copyString s : BridgeM P _) :=
  .bind steady_malloc fun _ => .ite (.bind (steady_acquire _) fun _ => .pure _) (.pure _)

theorem steady_setError (p : Ptr) (message : Option CStr) : Steady (setError p message : BridgeM P Unit) :=
  .ite (.pure _) <| .bind (steady_readRuntime p) fun _ => .bind (steady_freeString _) fun _ =>
    .bind (steady_copyString _) fun _ => .bind (steady_readRuntime p) fun _ => steady_writeRuntime p _

theorem steady_clearError (p : Ptr) : Steady (clearError p : BridgeM P Unit) :=
  .ite (.pure _) <| .bind (steady_readRuntime p) fun _ => .bind (steady_freeString _) fun _ =>
    steady_writeRuntime p _

theorem steady_captureException (p : Ptr) : Steady (captureException p : BridgeM P Unit) :=
  .ite (.pure _) <| .bind (steady_readRuntime p) fun _ => .ite (.pure _) <|
    .bind (JS.steady_getException p) fun _ => .bind (JS.steady_toCString p _) fun _ =>
      .bind (steady_setError p _) fun _ => .bind (JS.steady_freeCString p _) fun _ =>
        JS.steady_freeValue p _

theorem steady_validRuntime (p : Ptr) : Steady (validRuntime p : BridgeM P Bool) :=
  .ite (.pure _) <| .bind (steady_readRuntime p) fun _ => .pure _

theorem steady_validValue (p : Ptr) : Steady (validValue p : BridgeM P Bool) :=
  .ite (.pure _) <| .bind (steady_readValue p) fun _ => steady_validRuntime _

theorem steady_freeRuntimeIfReady (p : Ptr) : Steady (freeRuntimeIfReady p : BridgeM P Unit) := by
  refine .ite (.pure _) <| .bind (steady_readRuntime p) fun _ => .ite ?_ (.pure _)
  cases p with
  | none => exact .pure _
  | some r =>
    exact .bind (steady_readRuntime _) fun _ => .bind (steady_freeString _) fun _ =>
      steady_modify fun _ => rfl

/-- The one function that makes a handle. -/
theorem newValueHandle_issues (p : Ptr) (v : JSValue) : Issues (newValueHandle p v : BridgeM P Ptr) := by
  refine .bind (steady_validRuntime p) fun _ => .ite .none <| .bind steady_malloc fun _ => .ite
    (.bind (JS.steady_freeValue p v) fun _ => .reject (steady_setError p _)) ?_
  intro w q w' h
  obtain ⟨n, w₁, halloc, h⟩ := Keeps.run_bind_ok h
  cases halloc
  obtain ⟨cell, w₂, hread, h⟩ := Keeps.run_bind_ok h
  obtain ⟨_, w₃, hwrite, h⟩ := Keeps.run_bind_ok h
  cases h
  exact ⟨rfl, (steady_writeRuntime _ _ _ _ _ hwrite).trans (steady_readRuntime _ _ _ _ hread)⟩

/-- The last lines of a function that returns a value of the engine. -/
theorem answer_issues (p : Ptr) (v : JSValue) :
    Issues (if v.isException = true then do captureException p; pure none
      else newValueHandle p v : BridgeM P Ptr) :=
  .ite (.reject (steady_captureException p)) (newValueHandle_issues p v)

theorem steady_copyProperties (p : Ptr) (ns object : JSValue) (t : JS.PropertyTable)
    (atoms : List PropKey) : Steady (copyProperties p ns object t atoms : BridgeM P JSValue) := by
  induction atoms with
  | nil => exact .bind (JS.steady_freePropertyEnum p t) fun _ => .pure _
  | cons atom atoms ih =>
    have exit : Steady (do JS.freePropertyEnum p t; JS.freeValue p object; pure JSValue.exception :
        BridgeM P JSValue) :=
      .bind (JS.steady_freePropertyEnum p t) fun _ => .bind (JS.steady_freeValue p _) fun _ => .pure _
    exact .bind (JS.steady_produce p _) fun _ => .ite exit <|
      .bind (JS.steady_consume_status p _ _) fun _ => .ite exit ih

theorem steady_newMutableNamespaceObject (p : Ptr) (ns : JSValue) :
    Steady (newMutableNamespaceObject p ns : BridgeM P JSValue) := by
  refine .bind (JS.steady_produce p _) fun _ => .ite (.pure _) <|
    .bind (JS.steady_getOwnPropertyNames p ns) fun t => ?_
  cases t with
  | none => exact .bind (JS.steady_freeValue p _) fun _ => .pure _
  | some t => exact steady_copyProperties p ns _ t _

theorem steady_fopen (path : CStr) : Steady (fopen path : BridgeM P _) :=
  .bind (steady_onHost _) fun _ => .ite (.bind (steady_acquire _) fun _ => .pure _) (.pure _)

theorem steady_readFile (path : CStr) : Steady (readFile path : BridgeM P _) := by
  refine .bind (steady_fopen path) fun file => ?_
  cases file with
  | none => exact .pure _
  | some file =>
    have exit : Steady (do fclose file; pure none : BridgeM P (Option FileBuffer)) :=
      .bind (steady_release _) fun _ => .pure _
    refine .bind (steady_onHost _) fun _ => .ite exit <| .bind (steady_onHost _) fun size => ?_
    refine .bind (.ite (.pure _) <| .bind (steady_onHost _) fun _ => .pure _) fun _ => .ite exit ?_
    refine .bind steady_malloc fun _ => .ite exit <| .bind (steady_acquire _) fun _ => ?_
    refine .bind (steady_onHost _) fun _ => .bind (steady_release _) fun _ => ?_
    exact .ite (.bind (steady_release _) fun _ => .pure _) (.pure _)

theorem steady_isForeign (value runtime : Ptr) : Steady (isForeign value runtime : BridgeM P Bool) :=
  .ite (.pure _) <| .bind (steady_readValue _) fun _ => .pure _

theorem steady_fillArgvLoop (runtime : Ptr) (args : List Ptr) (n : Nat) :
    Steady (fillArgvLoop runtime args n : BridgeM P _) := by
  induction n generalizing args with
  | zero => cases args <;> exact .pure _
  | succ n ih =>
    cases args with
    | nil => exact .throw _
    | cons arg args =>
      refine .bind (steady_isForeign _ _) fun _ => .ite
        (.bind (steady_setError _ _) fun _ => .pure _) <| .bind (steady_readValue _) fun _ => ?_
      refine .bind (ih args) fun argv => ?_
      cases argv <;> exact .pure _

theorem steady_fillArgv (owner : Ptr) (args : Option (List Ptr)) (n : Int) :
    Steady (fillArgv owner args n : BridgeM P _) :=
  have exit : ∀ p message, Steady (do setError p message; pure none : BridgeM P (Option (List JSVal))) :=
    fun p message => .bind (steady_setError p message) fun _ => .pure _
  .bind (steady_validValue owner) fun _ => .ite (.pure _) <| .bind (steady_readValue owner) fun _ =>
    .ite (exit _ _) <| .ite (exit _ _) (steady_fillArgvLoop _ _ _)

theorem steady_stackArgv (n : Int) : Steady (stackArgv n : BridgeM P Unit) := .ite (.pure _) (.throw _)

/-! ## The exported functions -/

theorem jsRuntimeEvalValue_issues (p : Ptr) (source : Option CStr) :
    Issues (jsRuntimeEvalValue p source : BridgeM P Ptr) := by
  refine .bind (steady_validRuntime p) fun _ => .ite .none ?_
  cases source with
  | none => exact .reject (steady_setError p _)
  | some s =>
    exact .bind (steady_clearError p) fun _ => .bind (JS.steady_produce p _) fun v => answer_issues p v

theorem jsRuntimeGetGlobalProperty_issues (p : Ptr) (name : Option CStr) :
    Issues (jsRuntimeGetGlobalProperty p name : BridgeM P Ptr) := by
  refine .bind (steady_validRuntime p) fun _ => .ite .none ?_
  cases name with
  | none => exact .reject (steady_setError p _)
  | some s =>
    exact .bind (steady_clearError p) fun _ => .bind (JS.steady_produce p _) fun _ =>
      .bind (JS.steady_produce p _) fun v => .bind (JS.steady_freeValue p _) fun _ => answer_issues p v

/-- `js_runtime_new_bool` and `js_runtime_new_number`. -/
theorem newPrimitive_issues (p : Ptr) (f : EngineM P.Heap JSVal) :
    Issues (do
      if !(← validRuntime p) then return none
      clearError p
      newValueHandle p (← JS.produce p f) : BridgeM P Ptr) :=
  .bind (steady_validRuntime p) fun _ => .ite .none <| .bind (steady_clearError p) fun _ =>
    .bind (JS.steady_produce p _) fun v => newValueHandle_issues p v

theorem jsRuntimeNewString_issues (p : Ptr) (value : Option CStr) :
    Issues (jsRuntimeNewString p value : BridgeM P Ptr) := by
  refine .bind (steady_validRuntime p) fun _ => .ite .none ?_
  cases value with
  | none => exact .reject (steady_setError p _)
  | some s =>
    exact .bind (steady_clearError p) fun _ => .bind (JS.steady_produce p _) fun v => answer_issues p v

theorem jsRuntimeNewBigint_issues (p : Ptr) (value : Option CStr) :
    Issues (jsRuntimeNewBigint p value : BridgeM P Ptr) := by
  refine .bind (steady_validRuntime p) fun _ => .ite .none ?_
  cases value with
  | none => exact .reject (steady_setError p _)
  | some s =>
    refine .bind (steady_clearError p) fun _ => .bind (JS.steady_produce p _) fun _ => ?_
    refine .bind (JS.steady_produce p _) fun _ => .bind (JS.steady_freeValue p _) fun _ => ?_
    refine .bind (JS.steady_produce p _) fun _ => .ite
      (.bind (JS.steady_freeValue p _) fun _ => .reject (steady_captureException p)) ?_
    exact .bind (JS.steady_call p _ _ _) fun v => .bind (JS.steady_freeValue p _) fun _ =>
      .bind (JS.steady_freeValue p _) fun _ => answer_issues p v

theorem jsRuntimeImportModule_issues (p : Ptr) (path : Option CStr) :
    Issues (jsRuntimeImportModule p path : BridgeM P Ptr) := by
  refine .bind (steady_validRuntime p) fun _ => .ite .none ?_
  cases path with
  | none => exact .reject (steady_setError p _)
  | some path =>
    have exit : Issues (do captureException p; pure none : BridgeM P Ptr) :=
      .reject (steady_captureException p)
    refine .bind (steady_clearError p) fun _ => .bind (steady_readFile path) fun source => ?_
    cases source with
    | none => exact .reject (steady_setError p _)
    | some source =>
      refine .bind (JS.steady_evalModule p _ _) fun _ => .bind (steady_release _) fun _ => .ite exit ?_
      refine .bind (JS.steady_resolveModule p _) fun _ => .ite
        (.bind (JS.steady_freeValue p _) fun _ => exit) ?_
      refine .bind (JS.steady_evalFunction p _) fun _ => .ite exit ?_
      refine .bind (JS.steady_freeValue p _) fun _ => .bind (JS.steady_produce p _) fun ns => .ite exit ?_
      exact .bind (steady_newMutableNamespaceObject p ns) fun v =>
        .bind (JS.steady_freeValue p _) fun _ => answer_issues p v

theorem jsValueGetProperty_issues (p : Ptr) (name : Option CStr) :
    Issues (jsValueGetProperty p name : BridgeM P Ptr) := by
  refine .bind (steady_validValue p) fun _ => .ite .none <| .bind (steady_readValue p) fun _ => ?_
  cases name with
  | none => exact .reject (steady_setError _ _)
  | some s =>
    exact .bind (steady_clearError _) fun _ => .bind (JS.steady_produce _ _) fun v => answer_issues _ v

theorem jsValueGetIndex_issues (p : Ptr) (index : Int) :
    Issues (jsValueGetIndex p index : BridgeM P Ptr) :=
  .bind (steady_validValue p) fun _ => .ite .none <| .bind (steady_readValue p) fun _ =>
    .ite (.reject (steady_setError _ _)) <| .bind (steady_clearError _) fun _ =>
      .bind (JS.steady_produce _ _) fun v => answer_issues _ v

theorem jsValueCall_issues (p q : Ptr) (args : Option (List Ptr)) (n : Int) :
    Issues (jsValueCall p q args n : BridgeM P Ptr) := by
  refine .bind (steady_validValue p) fun _ => .ite .none <| .bind (steady_readValue p) fun f => ?_
  refine .bind (.ite (.pure _) (steady_isForeign _ _)) fun _ => .ite (.reject (steady_setError _ _)) ?_
  refine .ite (.reject (steady_setError _ _)) <| .bind (steady_stackArgv _) fun _ =>
    .bind (steady_fillArgv _ _ _) fun argv => ?_
  cases argv with
  | none => exact .none
  | some argv =>
    refine .bind (steady_clearError _) fun _ => .bind
      (.ite (.pure _) <| .bind (steady_readValue _) fun _ => .pure _) fun _ => ?_
    exact .bind (JS.steady_call _ _ _ _) fun v => answer_issues _ v

theorem jsValueConstruct_issues (p : Ptr) (args : Option (List Ptr)) (n : Int) :
    Issues (jsValueConstruct p args n : BridgeM P Ptr) := by
  refine .bind (steady_validValue p) fun _ => .ite .none <| .bind (steady_readValue p) fun f => ?_
  refine .ite (.reject (steady_setError _ _)) <| .bind (steady_stackArgv _) fun _ =>
    .bind (steady_fillArgv _ _ _) fun argv => ?_
  cases argv with
  | none => exact .none
  | some argv =>
    exact .bind (steady_clearError _) fun _ => .bind (JS.steady_callConstructor _ _ _) fun v =>
      answer_issues _ v

theorem steady_jsRuntimeCreate : Steady (jsRuntimeCreate : BridgeM P Ptr) := by
  refine .bind steady_malloc fun _ => .ite (.pure _) <| .bind ?_ fun _ => ?_
  · intro w x w' h
    cases h
    rfl
  · refine .bind (steady_onHost _) fun _ => .bind (.ite (steady_onHost _) (.pure _)) fun context => ?_
    cases context with
    | none => exact .bind (steady_modify fun _ => rfl) fun _ => .pure _
    | some heap =>
      exact .bind (steady_readRuntime _) fun _ => .bind (steady_writeRuntime _ _) fun _ => .pure _

theorem steady_jsRuntimeDestroy (p : Ptr) : Steady (jsRuntimeDestroy p : BridgeM P Unit) :=
  .ite (.pure _) <| .bind (steady_readRuntime p) fun _ => .bind (steady_writeRuntime p _) fun _ =>
    steady_freeRuntimeIfReady p

theorem steady_jsRuntimeLastError (p : Ptr) : Steady (jsRuntimeLastError p : BridgeM P CStr) := by
  refine .ite (.pure _) <| .bind (steady_readRuntime p) fun cell => ?_
  cases cell.lastError <;> exact .pure _

theorem steady_jsRuntimeEnableStdModule (p : Ptr) :
    Steady (jsRuntimeEnableStdModule p : BridgeM P Int) :=
  .bind (steady_validRuntime p) fun _ => .ite (.pure _) <| .bind (steady_readRuntime p) fun _ =>
    .ite (.pure _) <| .bind (steady_clearError p) fun _ => .bind (JS.steady_setModuleLoader p) fun _ =>
      .bind (.bind (steady_onContext p _) fun _ => .pure _) fun _ => .ite
        (.bind (steady_captureException p) fun _ => .pure _) <|
        .bind (steady_readRuntime p) fun _ => .bind (steady_writeRuntime p _) fun _ => .pure _

theorem steady_jsValueDestroy (p : Ptr) : Steady (jsValueDestroy p : BridgeM P Unit) := by
  cases p with
  | none => exact .pure _
  | some p =>
    have rest : ∀ r : Ptr, Steady (do
        modify fun w => { w with values := Function.update w.values p none }
        if r.isNone then return ()
        let cell ← readRuntime r
        if 0 < cell.valueCount then
          writeRuntime r { cell with valueCount := cell.valueCount - 1 }
          freeRuntimeIfReady r : BridgeM P Unit) := fun r =>
      .bind (steady_modify fun _ => rfl) fun _ => .ite (.pure _) <| .bind (steady_readRuntime r) fun _ =>
        .ite (.bind (steady_writeRuntime r _) fun _ => steady_freeRuntimeIfReady r) (.pure _)
    exact .bind (steady_readValue _) fun h => .bind (steady_validRuntime _) fun _ =>
      .ite (.bind (JS.steady_freeValue _ _) fun _ => rest _) (rest _)

theorem steady_jsValueKind (p : Ptr) : Steady (jsValueKind p : BridgeM P Int) :=
  .bind (steady_validValue p) fun _ => .ite (.pure _) <| .bind (steady_readValue p) fun _ => .pure _

theorem steady_jsValueToBool (p : Ptr) : Steady (jsValueToBool p : BridgeM P Int) :=
  .bind (steady_validValue p) fun _ => .ite (.pure _) <| .bind (steady_readValue p) fun _ =>
    .bind (JS.steady_toBool _ _) fun _ => .ite (.bind (steady_setError _ _) fun _ => .pure _) (.pure _)

theorem steady_jsValueToNumber (p : Ptr) : Steady (jsValueToNumber p : BridgeM P Float64) := by
  refine .bind (steady_validValue p) fun _ => .ite (.pure _) <| .bind (steady_readValue p) fun _ => ?_
  refine .bind (steady_onContext _ _) fun x => ?_
  cases x with
  | none => exact .bind (steady_setError _ _) fun _ => .pure _
  | some x => exact .pure _

theorem steady_jsValueToString (p : Ptr) : Steady (jsValueToString p : BridgeM P _) := by
  refine .bind (steady_validValue p) fun _ => .ite (.pure _) <| .bind (steady_readValue p) fun _ => ?_
  refine .bind (JS.steady_toCString _ _) fun s => ?_
  cases s with
  | none => exact .bind (steady_setError _ _) fun _ => .pure _
  | some s =>
    exact .bind (steady_copyString _) fun _ => .bind (JS.steady_freeCString _ _) fun _ =>
      .ite (.bind (steady_setError _ _) fun _ => .pure _) (.pure _)

theorem steady_jsValueIsArray (p : Ptr) : Steady (jsValueIsArray p : BridgeM P Int) :=
  .bind (steady_validValue p) fun _ => .ite (.pure _) <| .bind (steady_readValue p) fun _ =>
    .bind (JS.steady_isArray _ _) fun _ => .pure _

theorem steady_jsValueArrayLength (p : Ptr) : Steady (jsValueArrayLength p : BridgeM P Int) := by
  refine .bind (steady_validValue p) fun _ => .ite (.pure _) <| .bind (steady_readValue p) fun _ => ?_
  refine .bind (JS.steady_produce _ _) fun _ => .ite
    (.bind (steady_captureException _) fun _ => .pure _) <| .bind (steady_onContext _ _) fun x => ?_
  refine .bind (JS.steady_freeValue _ _) fun _ => ?_
  cases x with
  | none => exact .bind (steady_setError _ _) fun _ => .pure _
  | some x => exact .pure _

/-- The end of `js_value_set_property` and `js_value_set_index`, for the engine function `f`. -/
theorem steady_setEnd (p : Ptr) (value : Ptr) (f : JSValue → EngineM P.Heap Bool) :
    Steady (do
      clearError p
      let dup ← JS.dupValue p (← readValue value).value
      let status ← (do JS.consume dup; JS.status p (f dup))
      if status < 0 then
        captureException p
        return 1
      return 0 : BridgeM P Int) :=
  .bind (steady_clearError p) fun _ => .bind (steady_readValue _) fun _ =>
    .bind (JS.steady_dupValue p _) fun _ => .bind (JS.steady_consume_status p _ _) fun _ =>
      .ite (.bind (steady_captureException p) fun _ => .pure _) (.pure _)

theorem steady_jsValueSetProperty (p : Ptr) (name : Option CStr) (value : Ptr) :
    Steady (jsValueSetProperty p name value : BridgeM P Int) := by
  refine .bind (steady_validValue p) fun _ => .ite (.pure _) <| .bind (steady_readValue p) fun h => ?_
  cases name with
  | none => exact .bind (steady_setError _ _) fun _ => .pure _
  | some s =>
    exact .bind (steady_isForeign _ _) fun _ => .ite (.bind (steady_setError _ _) fun _ => .pure _)
      (steady_setEnd h.runtime value fun v => P.setProperty h.value.val (.ofCString s) v.val)

theorem steady_jsValueSetIndex (p : Ptr) (index : Int) (value : Ptr) :
    Steady (jsValueSetIndex p index value : BridgeM P Int) :=
  .bind (steady_validValue p) fun _ => .ite (.pure _) <| .bind (steady_readValue p) fun h =>
    .ite (.bind (steady_setError _ _) fun _ => .pure _) <|
      .bind (steady_isForeign _ _) fun _ => .ite (.bind (steady_setError _ _) fun _ => .pure _)
        (steady_setEnd h.runtime value fun v =>
          P.setProperty h.value.val (.ofIndex (uint32 index).toNat) v.val)

/-! ## Results -/

/-- Every value that `c` returns satisfies `φ`. -/
def Returns {α : Type} (φ : α → Prop) (c : BridgeM P α) : Prop :=
  ∀ w x w', c.run w = .ok (x, w') → φ x

namespace Returns

variable {α β : Type} {φ : α → Prop} {c d : BridgeM P α}

theorem pure {x : α} (h : φ x) : Returns φ (Pure.pure x : BridgeM P α) := by
  intro w y w' hy
  cases hy
  exact h

theorem bind {c : BridgeM P β} {g : β → BridgeM P α} (hg : ∀ x, Returns φ (g x)) :
    Returns φ (c >>= g) := by
  intro w y w' hy
  obtain ⟨x, w₁, -, hy⟩ := Keeps.run_bind_ok hy
  exact hg x w₁ y w' hy

theorem ite {ψ : Prop} [Decidable ψ] (hc : Returns φ c) (hd : Returns φ d) :
    Returns φ (if ψ then c else d) := by
  by_cases hψ : ψ
  · rwa [if_pos hψ]
  · rwa [if_neg hψ]

end Returns

theorem castInt64_lt (x : Float64) : P.castInt64 x < 2 ^ 63 := by
  unfold Platform.castInt64
  cases x with
  | negZero => exact show (0 : Int) < 2 ^ 63 by decide
  | nan => exact Int64.toInt_lt _
  | inf neg => exact Int64.toInt_lt _
  | finite q =>
    dsimp only
    by_cases hq : -2 ^ 63 ≤ q.num.tdiv q.den ∧ q.num.tdiv q.den < 2 ^ 63
    · rw [if_pos hq]
      exact hq.2
    · rw [if_neg hq]
      exact Int64.toInt_lt _

theorem jsValueArrayLength_returns (p : Ptr) :
    Returns (· < 2 ^ 63) (jsValueArrayLength p : BridgeM P Int) := by
  have err : (-1 : Int) < 2 ^ 63 := by decide
  refine .bind fun _ => .ite (.pure err) <| .bind fun _ => .bind fun _ => .ite
    (.bind fun _ => .pure err) <| .bind fun x => .bind fun _ => ?_
  cases x with
  | none => exact .bind fun _ => .pure err
  | some x => exact .pure (castInt64_lt x)

/-! ## All calls -/

/-- The handle that a call gives with its result. -/
def Call.given : {β : Type} → Call β → β → Ptr
  | _, .runtimeEvalValue _ _, p | _, .runtimeGetGlobalProperty _ _, p | _, .runtimeNewBool _ _, p
  | _, .runtimeNewNumber _ _, p | _, .runtimeNewString _ _, p | _, .runtimeNewBigint _ _, p
  | _, .runtimeImportModule _ _, p | _, .valueGetProperty _ _, p | _, .valueGetIndex _ _, p
  | _, .valueCall _ _ _ _, p | _, .valueConstruct _ _ _, p => p
  | _, _, _ => none

/-- Every handle that a call gives is the next block. -/
theorem Call.issued {β : Type} (call : Call β) {w w' : World P} {x : β}
    (h : call.run.run w = .ok (x, w')) : Issued w.nextValue (call.given x) w'.nextValue := by
  cases call with
  | runtimeCreate => exact steady_jsRuntimeCreate w x w' h
  | runtimeDestroy p => exact steady_jsRuntimeDestroy p w x w' h
  | runtimeLastError p => exact steady_jsRuntimeLastError p w x w' h
  | runtimeEnableStdModule p => exact steady_jsRuntimeEnableStdModule p w x w' h
  | runtimeEvalValue p source => exact jsRuntimeEvalValue_issues p source w x w' h
  | runtimeGetGlobalProperty p name => exact jsRuntimeGetGlobalProperty_issues p name w x w' h
  | runtimeNewBool p value => exact newPrimitive_issues p _ w x w' h
  | runtimeNewNumber p value => exact newPrimitive_issues p _ w x w' h
  | runtimeNewString p value => exact jsRuntimeNewString_issues p value w x w' h
  | runtimeNewBigint p value => exact jsRuntimeNewBigint_issues p value w x w' h
  | runtimeImportModule p path => exact jsRuntimeImportModule_issues p path w x w' h
  | valueDestroy p => exact steady_jsValueDestroy p w x w' h
  | valueKind p => exact steady_jsValueKind p w x w' h
  | valueToBool p => exact steady_jsValueToBool p w x w' h
  | valueToNumber p => exact steady_jsValueToNumber p w x w' h
  | valueToString p => exact steady_jsValueToString p w x w' h
  | bridgeFreeString s => exact steady_freeString s w x w' h
  | valueIsArray p => exact steady_jsValueIsArray p w x w' h
  | valueArrayLength p => exact steady_jsValueArrayLength p w x w' h
  | valueGetProperty p name => exact jsValueGetProperty_issues p name w x w' h
  | valueSetProperty p name value => exact steady_jsValueSetProperty p name value w x w' h
  | valueGetIndex p index => exact jsValueGetIndex_issues p index w x w' h
  | valueSetIndex p index value => exact steady_jsValueSetIndex p index value w x w' h
  | valueCall p q args n => exact jsValueCall_issues p q args n w x w' h
  | valueConstruct p args n => exact jsValueConstruct_issues p args n w x w' h

/-- What the types of the results leave open: `NULL` is no array, and a length is an `int64_t`. -/
def Call.Sane : {β : Type} → Call β → β → Prop
  | _, .valueIsArray none, x => x = 0
  | _, .valueArrayLength _, x => x < 2 ^ 63
  | _, _, _ => True

theorem Call.sane {β : Type} (call : Call β) {w w' : World P} {x : β}
    (h : call.run.run w = .ok (x, w')) : call.Sane x := by
  cases call with
  | valueIsArray p =>
    cases p with
    | none =>
      cases h
      rfl
    | some p => trivial
  | valueArrayLength p => exact jsValueArrayLength_returns p w x w' h
  | _ => trivial

end InteropJs
