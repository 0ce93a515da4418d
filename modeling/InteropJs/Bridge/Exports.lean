import InteropJs.Bridge.Spec

/-!
# Specs of the functions of a runtime

For each `js_runtime_` function: its result and the local state after it. `guardRuntime` and
`guardValue` step over the checks of a live runtime or value handle, and `reject_spec` is how a
failed check ends.
-/

namespace InteropJs

open Hoare

variable {P : Platform} {r : Nat} {b w : World P} {l : Loc P} {L : Multiset Resource}

/-- A live runtime passes `valid_runtime`. -/
theorem guardRuntime {α : Type} {c d : BridgeM P α} {Q : α → World P → Prop}
    (h : Triple (Run r b l L) c Q) :
    Triple (Run r b l L) (do let v ← validRuntime (some r); if (!v) = true then d else c) Q := by
  refine Triple.bind validRuntime_spec fun v => Triple.lift fun hv => ?_
  subst hv
  rw [if_neg (by simp)]
  exact h

/-- A live value handle passes `valid_value`; then its fields are read. -/
theorem guardValueOr {α : Type} {p : Nat} {h : ValueHandle} {c : ValueHandle → BridgeM P α}
    {d : BridgeM P α} {F : Fault → Prop} {Q : α → World P → Prop} (hp : b.values p = some h)
    (hr : h.runtime = some r) (hc : TripleOr (Run r b l L) (c h) F Q) :
    TripleOr (Run r b l L)
      (do let v ← validValue (some p)
          if (!v) = true then d else do let h ← readValue (some p); c h) F Q := by
  obtain ⟨rt, v⟩ := h
  subst hr
  refine (validValue_spec hp).bindOr fun v => TripleOr.lift fun hv => ?_
  subst hv
  rw [if_neg (by simp)]
  refine (readValue_spec hp).bindOr fun x => TripleOr.lift fun hx => ?_
  subst hx
  exact hc

theorem guardValue {α : Type} {p : Nat} {h : ValueHandle} {c : ValueHandle → BridgeM P α}
    {d : BridgeM P α} {Q : α → World P → Prop} (hp : b.values p = some h) (hr : h.runtime = some r)
    (hc : Triple (Run r b l L) (c h) Q) :
    Triple (Run r b l L)
      (do let v ← validValue (some p)
          if (!v) = true then d else do let h ← readValue (some p); c h) Q :=
  (guardValueOr hp hr (F := fun _ => False) hc.allow).total fun _ h => h

/-- A failed check: an error, and a result that says so. -/
theorem reject_spec {α : Type} (x : α) (message : Option CStr) :
    Triple (Run r b l L) (do setError (some r) message; pure x)
      (fun y w => y = x ∧ Run r b (l.setError message) L w) :=
  Triple.bind (setError_spec message) fun _ => (Triple.ret _).pre fun _ hw => ⟨rfl, hw⟩

/-! ## Functions of a runtime -/

theorem jsRuntimeEvalValue_spec (source : CStr) :
    Triple (Run r b l L) (jsRuntimeEvalValue (some r) (some source))
      (Answer r b L (P.eval source.text l.heap).1.toOption
        (l.clearError.after (P.eval source.text l.heap))) :=
  guardRuntime <| Triple.bind clearError_spec fun _ =>
    Triple.bind (JS.produce_spec _) fun v => answer_spec v

theorem JS.getGlobalObject_spec :
    Triple (Run r b l L) (JS.getGlobalObject (some r))
      (fun g w => ∃ t, g = .ref (P.globalObject l.heap) t ∧ Run r b l (L + {.jsValue t}) w) := by
  refine Triple.post (JS.produce_spec _) fun g w ⟨hg, hw⟩ => ?_
  cases g with
  | exception => cases hg
  | ref v t =>
    cases hg
    exact ⟨t, rfl, hw⟩

theorem jsRuntimeGetGlobalProperty_spec (name : CStr) :
    Triple (Run r b l L) (jsRuntimeGetGlobalProperty (some r) (some name))
      (Answer r b L (P.getProperty (P.globalObject l.heap) (.ofCString name) l.heap).1.toOption
        (l.clearError.after (P.getProperty (P.globalObject l.heap) (.ofCString name) l.heap))) := by
  refine guardRuntime <| Triple.bind clearError_spec fun _ => ?_
  refine Triple.bind JS.getGlobalObject_spec fun g => Triple.ex fun t => Triple.lift fun hg => ?_
  subst hg
  refine Triple.bind (JS.produce_spec _) fun v => Triple.lift fun hv => ?_
  refine Triple.bind (Triple.pre (JS.freeValue_spec (L := L + v.res) (.ref _ t)) fun w hw => by
    rwa [add_right_comm] at hw) fun _ => ?_
  exact Triple.pre (answer_spec v) fun w hw => ⟨hv, hw⟩

/-- A new value that the engine always gives. -/
theorem newPrimitive_spec (x : JSVal) :
    Triple (Run r b l L)
      (do if !(← validRuntime (some r)) then return none
          clearError (some r)
          newValueHandle (some r) (← JS.produce (some r) fun h => (.ok x, h)))
      (Answer r b L (some x) l.clearError) := by
  refine guardRuntime <| Triple.bind clearError_spec fun _ => ?_
  refine Triple.bind (JS.produce_spec _) fun v => Triple.lift fun hv => ?_
  cases v with
  | exception => cases hv
  | ref x t =>
    cases hv
    exact Triple.post (newValueHandle_spec _) fun p w hw => ⟨t, hw⟩

theorem jsRuntimeNewBool_spec (value : Int) :
    Triple (Run r b l L) (jsRuntimeNewBool (some r) value)
      (Answer r b L (some (.bool (value ≠ 0))) l.clearError) :=
  newPrimitive_spec _

theorem jsRuntimeNewNumber_spec (value : Float64) :
    Triple (Run r b l L) (jsRuntimeNewNumber (some r) value)
      (Answer r b L (some (.number value)) l.clearError) :=
  newPrimitive_spec _

theorem jsRuntimeNewString_spec (value : CStr) :
    Triple (Run r b l L) (jsRuntimeNewString (some r) (some value))
      (Answer r b L (P.newJSString value l.heap).1.toOption
        (l.clearError.after (P.newJSString value l.heap))) :=
  guardRuntime <| Triple.bind clearError_spec fun _ =>
    Triple.bind (JS.produce_spec _) fun v => answer_spec v

/-- `js_runtime_new_bigint` after the lookup of the constructor `f`. -/
def Loc.callBigint (l : Loc P) (f : JSVal) (value : CStr) : Option JSVal × Loc P :=
  match P.newJSString value l.heap with
  | (.error x, h) => (none, { l with heap := h, exception := some x })
  | (.ok s, h) =>
    ((P.call f .undefined [s] h).1.toOption,
      ({ l with heap := h }.started f f.callRuns).after (P.call f .undefined [s] h))

/-- The engine calls of `js_runtime_new_bigint`: the result and the local state. An exception of the
lookup of `BigInt` is not tested for: it stays pending unless a later call throws too. -/
def Loc.newBigint (l : Loc P) (value : CStr) : Option JSVal × Loc P :=
  let look := P.getProperty (P.globalObject l.heap) (.ofCString (utf8 "BigInt")) l.heap
  (l.after look).callBigint (look.1.toOption.getD .undefined) value

theorem JSValue.val_of_opt {v : JSValue} {o : Option JSVal} (h : v.opt = o) :
    v.val = o.getD .undefined := by
  subst h
  cases v <;> rfl

theorem jsRuntimeNewBigint_spec (value : CStr) :
    Triple (Run r b l L) (jsRuntimeNewBigint (some r) (some value))
      (Answer r b L (l.clearError.newBigint value).1 (l.clearError.newBigint value).2) := by
  refine guardRuntime <| Triple.bind clearError_spec fun _ => ?_
  refine Triple.bind JS.getGlobalObject_spec fun g => Triple.ex fun t => Triple.lift fun hg => ?_
  subst hg
  refine Triple.bind (JS.produce_spec _) fun c => Triple.lift fun hc => ?_
  refine Triple.bind (Triple.pre (JS.freeValue_spec (L := L + c.res) (.ref _ t)) fun w hw => by
    rwa [add_right_comm] at hw) fun _ => ?_
  have hf := JSValue.val_of_opt hc
  simp only [JSValue.val] at hf ⊢
  simp only [Loc.newBigint, ← hf]
  generalize Loc.after l.clearError _ = l₁
  unfold Loc.callBigint
  refine produce_branch (fun x h hs => ?_) (fun s h t hs => ?_) <;> rw [hs]
  · refine Triple.bind (JS.freeValue_spec c) fun _ => ?_
    refine Triple.bind captureException_spec fun _ => ?_
    exact (Triple.ret _).pre fun w hw => ⟨rfl, hw⟩
  · refine Triple.bind (JS.call_spec _ _ _) fun v => Triple.lift fun hv => ?_
    refine Triple.bind (Triple.pre (JS.freeValue_spec (L := L + c.res + v.res) (.ref s t)) fun w hw => by
      rwa [add_right_comm] at hw) fun _ => ?_
    refine Triple.bind (Triple.pre (JS.freeValue_spec (L := L + v.res) c) fun w hw => by
      rwa [add_right_comm] at hw) fun _ => ?_
    exact Triple.pre (answer_spec v) fun w hw => ⟨hv, hw⟩

theorem JS.evalModule_spec (source : List UInt8) (path : CStr) :
    Triple (Run r b l L) (JS.evalModule (some r) source path)
      (JS.Produced r b L
        ((P.compileModule source path.text l.moduleLoader l.heap).1.toOption.map .module)
        (l.after (P.compileModule source path.text l.moduleLoader l.heap))) := by
  unfold JS.evalModule
  refine Triple.bind readContext_spec fun x => Triple.lift fun hx => ?_
  obtain ⟨c, x⟩ := x
  subst hx
  refine Triple.post (JS.produce_spec _) fun v w hw => ?_
  simp only [EngineM.andThen] at hw
  rcases hc : P.compileModule source path.text l.moduleLoader l.heap with ⟨x | m, h⟩ <;>
    simp only [hc] at hw <;> exact hw

theorem JS.resolveModule_spec (m t : Nat) :
    Triple (Run r b l L) (JS.resolveModule (some r) (.ref (.module m) t))
      (fun s w => (s < 0 ↔ (P.resolveModule m l.moduleLoader l.heap).1.toOption = none) ∧
        Run r b (l.after (P.resolveModule m l.moduleLoader l.heap)) L w) := by
  unfold JS.resolveModule
  refine Triple.bind readContext_spec fun x => Triple.lift fun hx => ?_
  obtain ⟨c, x⟩ := x
  subst hx
  exact JS.status_spec _

/-- The exit of a failed engine call: nothing is left but its exception. -/
theorem capture_none_spec :
    Triple (Run r b l L) (do captureException (some r); pure (none : Ptr)) (Answer r b L none l) :=
  Triple.bind captureException_spec fun _ => (Triple.ret _).pre fun _ hw => ⟨rfl, hw⟩

theorem jsRuntimeImportModule_spec (path : CStr) :
    Triple (Run r b l L) (jsRuntimeImportModule (some r) (some path))
      (match P.readFile path l.host with
        | (none, host) => fun p w => p = none ∧
          Run r b ({ l.clearError with host }.setError (utf8 "failed to read JavaScript module file")) L w
        | (some source, host) =>
          Answer r b L (P.importModule source path l.moduleLoader l.heap).1.toOption
            ({ l.clearError with host }.after (P.importModule source path l.moduleLoader l.heap))) := by
  refine guardRuntime <| Triple.bind clearError_spec fun _ => ?_
  refine Triple.bind (readFile_spec path) fun f => Triple.lift fun hf => ?_
  have : l.clearError.host = l.host := rfl
  rw [this] at hf ⊢
  rcases hfile : P.readFile path l.host with ⟨_ | source, host⟩ <;> rw [hfile] at hf
  · obtain rfl : f = none := by simpa using hf
    exact Triple.pre (reject_spec _ _) fun w hw => by simpa [bufferRes] using hw
  obtain ⟨f, rfl, rfl⟩ : ∃ g, f = some g ∧ g.bytes = source := by simpa using hf
  obtain ⟨l₁, hl₁⟩ : ∃ l₁, l₁ = { l.clearError with host } := ⟨_, rfl⟩
  rw [show l.moduleLoader = l₁.moduleLoader by rw [hl₁]; rfl, show l.heap = l₁.heap by rw [hl₁]; rfl]
  simp only [← hl₁, Platform.importModule, EngineM.andThen]
  refine Triple.bind (JS.evalModule_spec _ _) fun v => Triple.lift fun hv => ?_
  refine Triple.bind (Triple.pre (release_spec (L := L + v.res) _) fun w hw => by
    rwa [add_right_comm] at hw) fun _ => ?_
  rcases hc : P.compileModule f.bytes path.text l₁.moduleLoader l₁.heap with ⟨x | m, h⟩ <;>
    simp only [hc] at hv ⊢
  · cases v with
    | ref _ _ => cases hv
    | exception => exact Triple.pre capture_none_spec fun w hw => by simpa using hw
  cases v with
  | exception => cases hv
  | ref y t =>
  cases hv
  rw [if_neg (by simp)]
  refine Triple.bind (JS.resolveModule_spec m t) fun s => Triple.lift fun hs => ?_
  simp only [Loc.after_ok] at hs ⊢
  rcases hr : P.resolveModule m l₁.moduleLoader h with ⟨x | _, h⟩ <;> simp only [hr] at hs ⊢
  · rw [if_pos (hs.mpr rfl)]
    exact Triple.bind (JS.freeValue_spec _) fun _ => capture_none_spec
  rw [if_neg (by simp [hs, Except.toOption])]
  -- `JS_EvalFunction` takes over the compiled module
  unfold JS.evalFunction
  rw [bind_assoc]
  refine Triple.bind (JS.consume_spec _) fun _ => ?_
  refine produce_branch (fun x h hx => ?_) (fun a h s hx => ?_) <;>
    simp only [JS.modulePtr, Loc.after_ok] at hx ⊢ <;> simp only [hx]
  · exact capture_none_spec
  refine Triple.bind (JS.freeValue_spec (.ref a s)) fun _ => ?_
  refine produce_branch (fun x h hx => ?_) (fun ns h s hx => ?_) <;> simp only [hx]
  · exact capture_none_spec
  refine Triple.bind (newMutableNamespaceObject_spec _) fun o => Triple.lift fun ho => ?_
  refine Triple.bind (Triple.pre (JS.freeValue_spec (L := L + o.res) (.ref ns s)) fun w hw => by
    rwa [add_right_comm] at hw) fun _ => ?_
  exact Triple.pre (answer_spec o) fun w hw => ⟨ho, hw⟩

theorem jsRuntimeLastError_spec :
    Triple (Run r b l L) (jsRuntimeLastError (some r))
      (fun s w => s = l.error.getD [] ∧ Run r b l L w) := by
  unfold jsRuntimeLastError
  rw [if_neg (by simp)]
  refine Triple.bind readRuntime_spec fun c => Triple.lift fun ⟨e, hc, he⟩ => ?_
  subst hc
  rw [← he]
  cases e <;> exact (Triple.ret _).pre fun w hw => ⟨rfl, hw⟩

/-- `js_runtime_enable_std_module` on a valid runtime: the status and the local state. The module
loader stays installed when `js_init_module_std` fails. -/
def Loc.enableStd (l : Loc P) : Int × Loc P :=
  if l.stdEnabled then (0, l)
  else
    match P.initModuleStd l.heap with
    | (.ok _, h) => (0, { l.clearError with heap := h, moduleLoader := true, stdEnabled := true })
    | (.error x, h) =>
      (1, { l.clearError with heap := h, moduleLoader := true, exception := some x }.capture)

theorem jsRuntimeEnableStdModule_spec :
    Triple (Run r b l L) (jsRuntimeEnableStdModule (some r))
      (fun s w => s = l.enableStd.1 ∧ Run r b l.enableStd.2 L w) := by
  refine guardRuntime <| Triple.bind readRuntime_spec fun c => Triple.lift fun ⟨e, hc, he⟩ => ?_
  subst hc
  unfold Loc.enableStd
  cases hstd : l.stdEnabled with
  | true =>
    rw [if_pos (by simpa [Loc.cell] using hstd)]
    exact (Triple.ret _).pre fun w hw => ⟨rfl, hw⟩
  | false =>
  rw [if_neg (by simp [Loc.cell, hstd])]
  refine Triple.bind clearError_spec fun _ => ?_
  refine Triple.bind JS.setModuleLoader_spec fun _ => ?_
  unfold JS.initModuleStd
  rw [bind_assoc]
  refine Triple.bind (onContext_spec _) fun o => Triple.lift fun ho => ?_
  simp only [Loc.clearError] at ho ⊢
  rcases hi : P.initModuleStd l.heap with ⟨x | _, h⟩ <;>
    rw [hi] at ho <;> subst ho <;> simp only [pure_bind]
  · rw [if_pos (by simp [Except.toOption])]
    exact Triple.bind captureException_spec fun _ => (Triple.ret _).pre fun w hw => ⟨rfl, hw⟩
  · rw [if_neg (by simp [Except.toOption]), ← bind_assoc]
    refine Triple.bind (modifyRuntime_spec (fun c => { c with stdModuleEnabled := true })
      { l.clearError with heap := h, moduleLoader := true, stdEnabled := true }
      (fun _ => rfl) rfl rfl rfl) fun _ => ?_
    exact (Triple.ret _).pre fun w hw => ⟨rfl, hw⟩

end InteropJs
