import InteropJs.Bridge.Values

/-!
# The calls of a client, and what one call does to the bookkeeping

`Call β` is a call of a function of the bridge's header, with its arguments; `Call.run` runs it. For
the lifetime of handles only the bookkeeping of a call matters: a function that takes a live runtime
or a live handle is `Quiet` (no count, mark or resource changes) or it `Gives` a new handle with one
reference and one more count. This file reads that off the specs, for every argument.
-/

namespace InteropJs

open Hoare

variable {P : Platform}

/-- The calls of `quickjs_bridge.h`, by the type of the result. -/
inductive Call : Type → Type where
  | runtimeCreate : Call Ptr
  | runtimeDestroy (handle : Ptr) : Call Unit
  | runtimeLastError (handle : Ptr) : Call CStr
  | runtimeEnableStdModule (handle : Ptr) : Call Int
  | runtimeEvalValue (handle : Ptr) (source : Option CStr) : Call Ptr
  | runtimeGetGlobalProperty (handle : Ptr) (name : Option CStr) : Call Ptr
  | runtimeNewBool (handle : Ptr) (value : Int) : Call Ptr
  | runtimeNewNumber (handle : Ptr) (value : Float64) : Call Ptr
  | runtimeNewString (handle : Ptr) (value : Option CStr) : Call Ptr
  | runtimeNewBigint (handle : Ptr) (value : Option CStr) : Call Ptr
  | runtimeImportModule (handle : Ptr) (path : Option CStr) : Call Ptr
  | valueDestroy (handle : Ptr) : Call Unit
  | valueKind (handle : Ptr) : Call Int
  | valueToBool (handle : Ptr) : Call Int
  | valueToNumber (handle : Ptr) : Call Float64
  | valueToString (handle : Ptr) : Call (Option OwnedString)
  | bridgeFreeString (value : Option OwnedString) : Call Unit
  | valueIsArray (handle : Ptr) : Call Int
  | valueArrayLength (handle : Ptr) : Call Int
  | valueGetProperty (handle : Ptr) (name : Option CStr) : Call Ptr
  | valueSetProperty (handle : Ptr) (name : Option CStr) (value : Ptr) : Call Int
  | valueGetIndex (handle : Ptr) (index : Int) : Call Ptr
  | valueSetIndex (handle : Ptr) (index : Int) (value : Ptr) : Call Int
  | valueCall (function thisValue : Ptr) (args : Option (List Ptr)) (numArgs : Int) : Call Ptr
  | valueConstruct (function : Ptr) (args : Option (List Ptr)) (numArgs : Int) : Call Ptr

def Call.run : {β : Type} → Call β → BridgeM P β
  | _, .runtimeCreate => jsRuntimeCreate
  | _, .runtimeDestroy handle => jsRuntimeDestroy handle
  | _, .runtimeLastError handle => jsRuntimeLastError handle
  | _, .runtimeEnableStdModule handle => jsRuntimeEnableStdModule handle
  | _, .runtimeEvalValue handle source => jsRuntimeEvalValue handle source
  | _, .runtimeGetGlobalProperty handle name => jsRuntimeGetGlobalProperty handle name
  | _, .runtimeNewBool handle value => jsRuntimeNewBool handle value
  | _, .runtimeNewNumber handle value => jsRuntimeNewNumber handle value
  | _, .runtimeNewString handle value => jsRuntimeNewString handle value
  | _, .runtimeNewBigint handle value => jsRuntimeNewBigint handle value
  | _, .runtimeImportModule handle path => jsRuntimeImportModule handle path
  | _, .valueDestroy handle => jsValueDestroy handle
  | _, .valueKind handle => jsValueKind handle
  | _, .valueToBool handle => jsValueToBool handle
  | _, .valueToNumber handle => jsValueToNumber handle
  | _, .valueToString handle => jsValueToString handle
  | _, .bridgeFreeString value => jsBridgeFreeString value
  | _, .valueIsArray handle => jsValueIsArray handle
  | _, .valueArrayLength handle => jsValueArrayLength handle
  | _, .valueGetProperty handle name => jsValueGetProperty handle name
  | _, .valueSetProperty handle name value => jsValueSetProperty handle name value
  | _, .valueGetIndex handle index => jsValueGetIndex handle index
  | _, .valueSetIndex handle index value => jsValueSetIndex handle index value
  | _, .valueCall function thisValue args numArgs => jsValueCall function thisValue args numArgs
  | _, .valueConstruct function args numArgs => jsValueConstruct function args numArgs

/-- The C stack has room for the argument array of the call. -/
def Call.Fits (P : Platform) : {β : Type} → Call β → Prop
  | _, .valueCall _ _ _ n | _, .valueConstruct _ _ n => P.FitsArgv n
  | _, _ => True

/-- The only fault that ends a call: the stack has no room for its argument array. -/
def Call.Stops (P : Platform) {β : Type} (call : Call β) (fault : Fault) : Prop :=
  fault = .stackOverflow ∧ ¬ call.Fits P

/-! ## The bookkeeping of a local state -/

/-- The same count of handles and the same mark. -/
def Loc.Same (l l' : Loc P) : Prop := l'.count = l.count ∧ l'.destroying = l.destroying

namespace Loc

variable {l l' l'' : Loc P}

theorem Same.refl (l : Loc P) : l.Same l := ⟨rfl, rfl⟩

theorem Same.trans (h : l.Same l') (h' : l'.Same l'') : l.Same l'' :=
  ⟨h'.1.trans h.1, h'.2.trans h.2⟩

theorem same_after {α : Type} (l : Loc P) (out : Except JSVal α × P.Heap) : l.Same (l.after out) := by
  rcases out with ⟨_ | _, _⟩ <;> exact ⟨rfl, rfl⟩

theorem same_setError (l : Loc P) (message : Option CStr) : l.Same (l.setError message) := ⟨rfl, rfl⟩

theorem same_clearError (l : Loc P) : l.Same l.clearError := ⟨rfl, rfl⟩

theorem same_capture (l : Loc P) : l.Same l.capture :=
  (same_after { l with exception := none } _).trans (same_setError _ _)

theorem same_started (l : Loc P) (f : JSVal) (runs : Bool) : l.Same (l.started f runs) := by
  cases runs <;> exact ⟨rfl, rfl⟩

theorem same_callBigint (l : Loc P) (f : JSVal) (value : CStr) : l.Same (l.callBigint f value).2 := by
  unfold callBigint
  rcases P.newJSString value l.heap with ⟨_ | s, h⟩
  · exact ⟨rfl, rfl⟩
  · exact (same_started { l with heap := h } f f.callRuns).trans (same_after _ (P.call f .undefined [s] h))

theorem same_newBigint (l : Loc P) (value : CStr) : l.Same (l.newBigint value).2 :=
  (same_after _ _).trans (same_callBigint _ _ _)

theorem same_enableStd (l : Loc P) : l.Same l.enableStd.2 := by
  unfold enableStd
  split
  · exact Same.refl l
  rcases P.initModuleStd l.heap with ⟨_ | _, _⟩
  · exact (same_capture { l.clearError with heap := _, moduleLoader := true, exception := some _ })
  · exact ⟨rfl, rfl⟩

theorem same_toText (l : Loc P) (x : JSVal) : l.Same (l.toText x).2 := by
  unfold toText
  rcases P.toCString x l.heap with ⟨_ | _, _⟩
  · exact ⟨rfl, rfl⟩
  · dsimp only
    split <;> exact ⟨rfl, rfl⟩

theorem same_arrayLength (l : Loc P) (x : JSVal) : l.Same (l.arrayLength x).2 := by
  unfold arrayLength
  rcases P.getProperty x (.ofCString (utf8 "length")) l.heap with ⟨_ | v, h⟩
  · exact same_capture { l with heap := _, exception := some _ }
  · dsimp only
    rcases P.toNumber v h with ⟨_ | _, _⟩ <;> exact ⟨rfl, rfl⟩

end Loc

variable {r : Nat} {b w : World P} {l l' : Loc P} {L : Multiset Resource}

/-- Only the engine, the C library and the error of `r` may have changed. -/
def Quiet (r : Nat) (b : World P) (l : Loc P) (L : Multiset Resource) (w : World P) : Prop :=
  ∃ l', l.Same l' ∧ Run r b l' L w

/-- The result `p` of a function that returns a handle: `NULL`, or a new handle that owns one new
reference. -/
def Gives (r : Nat) (b : World P) (l : Loc P) (L : Multiset Resource) (p : Ptr) (w : World P) : Prop :=
  match p with
  | none => Quiet r b l L w
  | some q => q = b.nextValue ∧ ∃ x t l', l'.count = l.count + 1 ∧ l'.destroying = l.destroying ∧
      Run r (b.addValue ⟨some r, .ref x t⟩) l' (L + {.jsValue t}) w

theorem Answer.gives {o : Option JSVal} {p : Ptr} (h : Answer r b L o l' p w) (hl : l.Same l') :
    Gives r b l L p w := by
  cases o with
  | none =>
    obtain ⟨rfl, hw⟩ := h
    exact ⟨_, hl.trans (Loc.same_capture l'), hw⟩
  | some x =>
    obtain ⟨t, ht⟩ := h
    unfold Delivered at ht
    split at ht
    · obtain ⟨rfl, hw⟩ := ht
      refine ⟨rfl, x, t, _, ?_, ?_, hw⟩
      · simp [hl.1]
      · exact hl.2
    · obtain ⟨rfl, hw⟩ := ht
      refine ⟨_, ?_, hw⟩
      exact hl.trans ⟨rfl, rfl⟩

theorem Checked.gives {α : Type} {check : Except CStr α} {Q : α → Ptr → World P → Prop} {p : Ptr}
    (hQ : ∀ a p w, Q a p w → Gives r b l L p w) (h : Checked r b L l none check Q p w) :
    Gives r b l L p w := by
  cases check with
  | error m =>
    obtain ⟨rfl, hw⟩ := h
    exact ⟨_, Loc.same_setError l _, hw⟩
  | ok a => exact hQ a p w h

theorem Checked.quiet {α β : Type} {check : Except CStr α} {Q : α → β → World P → Prop} {x y : β}
    (hQ : ∀ a y w, Q a y w → Quiet r b l L w) (h : Checked r b L l x check Q y w) :
    Quiet r b l L w := by
  cases check with
  | error m => exact ⟨_, Loc.same_setError l _, h.2⟩
  | ok a => exact hQ a y w h

theorem Status.quiet {α : Type} {out : Except JSVal α × P.Heap} {s : Int}
    (h : Status r b L out l' s w) (hl : l.Same l') : Quiet r b l L w := by
  rcases out with ⟨e | a, heap⟩
  · exact ⟨_, hl.trans (Loc.same_capture { l' with heap := heap, exception := some e }), h.2⟩
  · refine ⟨_, ?_, h.2⟩
    exact hl.trans ⟨rfl, rfl⟩

/-- A failed check returns no handle. -/
theorem reject_gives (message : Option CStr) :
    Triple (Run r b l L) (do setError (some r) message; pure none) (Gives r b l L) :=
  Triple.post (reject_spec none message) fun _ _ ⟨hp, hw⟩ => by
    subst hp
    exact ⟨_, Loc.same_setError l _, hw⟩

theorem reject_quiet {α : Type} (x : α) (message : Option CStr) :
    Triple (Run r b l L) (do setError (some r) message; pure x) (fun _ => Quiet r b l L) :=
  Triple.post (reject_spec x message) fun _ _ ⟨_, hw⟩ => ⟨_, Loc.same_setError l _, hw⟩

/-! ## Functions of a runtime -/

theorem jsRuntimeEvalValue_gives (source : Option CStr) :
    Triple (Run r b l L) (jsRuntimeEvalValue (some r) source) (Gives r b l L) := by
  cases source with
  | none => exact guardRuntime (reject_gives _)
  | some s => exact Triple.post (jsRuntimeEvalValue_spec s) fun _ _ h => h.gives (Loc.same_after _ _)

theorem jsRuntimeGetGlobalProperty_gives (name : Option CStr) :
    Triple (Run r b l L) (jsRuntimeGetGlobalProperty (some r) name) (Gives r b l L) := by
  cases name with
  | none => exact guardRuntime (reject_gives _)
  | some s =>
    exact Triple.post (jsRuntimeGetGlobalProperty_spec s) fun _ _ h => h.gives (Loc.same_after _ _)

theorem jsRuntimeNewBool_gives (value : Int) :
    Triple (Run r b l L) (jsRuntimeNewBool (some r) value) (Gives r b l L) :=
  Triple.post (jsRuntimeNewBool_spec value) fun _ _ h => h.gives (Loc.same_clearError l)

theorem jsRuntimeNewNumber_gives (value : Float64) :
    Triple (Run r b l L) (jsRuntimeNewNumber (some r) value) (Gives r b l L) :=
  Triple.post (jsRuntimeNewNumber_spec value) fun _ _ h => h.gives (Loc.same_clearError l)

theorem jsRuntimeNewString_gives (value : Option CStr) :
    Triple (Run r b l L) (jsRuntimeNewString (some r) value) (Gives r b l L) := by
  cases value with
  | none => exact guardRuntime (reject_gives _)
  | some s => exact Triple.post (jsRuntimeNewString_spec s) fun _ _ h => h.gives (Loc.same_after _ _)

theorem jsRuntimeNewBigint_gives (value : Option CStr) :
    Triple (Run r b l L) (jsRuntimeNewBigint (some r) value) (Gives r b l L) := by
  cases value with
  | none => exact guardRuntime (reject_gives _)
  | some s => exact Triple.post (jsRuntimeNewBigint_spec s) fun _ _ h => h.gives (Loc.same_newBigint _ s)

theorem jsRuntimeImportModule_gives (path : Option CStr) :
    Triple (Run r b l L) (jsRuntimeImportModule (some r) path) (Gives r b l L) := by
  cases path with
  | none => exact guardRuntime (reject_gives _)
  | some path =>
    refine Triple.post (jsRuntimeImportModule_spec path) fun p w h => ?_
    rcases hfile : P.readFile path l.host with ⟨_ | source, host⟩ <;> rw [hfile] at h
    · obtain ⟨rfl, hw⟩ := h
      refine ⟨_, ?_, hw⟩
      exact ⟨rfl, rfl⟩
    · exact h.gives (Loc.same_after { l.clearError with host } _)

theorem jsRuntimeEnableStdModule_quiet :
    Triple (Run r b l L) (jsRuntimeEnableStdModule (some r)) (fun _ => Quiet r b l L) :=
  Triple.post jsRuntimeEnableStdModule_spec fun _ _ h => ⟨_, Loc.same_enableStd l, h.2⟩

theorem jsRuntimeLastError_quiet :
    Triple (Run r b l L) (jsRuntimeLastError (some r)) (fun _ => Quiet r b l L) :=
  Triple.post jsRuntimeLastError_spec fun _ _ h => ⟨_, Loc.Same.refl l, h.2⟩

/-! ## Functions of a value -/

section Value

variable {p : Nat} {x : JSVal}

theorem jsValueGetProperty_gives (hp : b.Holds p r x) (name : Option CStr) :
    Triple (Run r b l L) (jsValueGetProperty (some p) name) (Gives r b l L) := by
  cases name with
  | none =>
    obtain ⟨t, ht⟩ := hp
    exact guardValue ht rfl (reject_gives _)
  | some s => exact Triple.post (jsValueGetProperty_spec hp s) fun _ _ h => h.gives (Loc.same_after _ _)

theorem jsValueGetIndex_gives (hp : b.Holds p r x) (index : Int) :
    Triple (Run r b l L) (jsValueGetIndex (some p) index) (Gives r b l L) := by
  by_cases hi : index < 0
  · obtain ⟨t, ht⟩ := hp
    refine guardValue ht rfl ?_
    rw [if_pos hi]
    exact reject_gives _
  · exact Triple.post (jsValueGetIndex_spec hp (by omega)) fun _ _ h => h.gives (Loc.same_after _ _)

theorem jsValueSetProperty_quiet {q : Ptr} (hp : b.Holds p r x) (hq : b.NullOrLive q)
    (name : Option CStr) :
    Triple (Run r b l L) (jsValueSetProperty (some p) name q) (fun _ => Quiet r b l L) := by
  cases name with
  | none =>
    obtain ⟨t, ht⟩ := hp
    exact guardValue ht rfl (reject_quiet _ _)
  | some s =>
    exact Triple.post (jsValueSetProperty_spec hp hq s) fun _ _ h =>
      h.quiet fun _ _ _ h => h.quiet (Loc.same_clearError l)

theorem jsValueSetIndex_quiet {q : Ptr} (hp : b.Holds p r x) (hq : b.NullOrLive q) (index : Int) :
    Triple (Run r b l L) (jsValueSetIndex (some p) index q) (fun _ => Quiet r b l L) := by
  by_cases hi : index < 0
  · obtain ⟨t, ht⟩ := hp
    refine guardValue ht rfl ?_
    rw [if_pos hi]
    exact reject_quiet _ _
  · exact Triple.post (jsValueSetIndex_spec hp (by omega) hq) fun _ _ h =>
      h.quiet fun _ _ _ h => h.quiet (Loc.same_clearError l)

theorem jsValueCall_gives {q : Ptr} {args : Option (List Ptr)} {n : Int} (hp : b.Holds p r x)
    (hq : b.NullOrLive q) (hn : CountsArgs args n) (hargs : ∀ q ∈ args.getD [], b.NullOrLive q) :
    TripleOr (Run r b l L) (jsValueCall (some p) q args n) (Call.Stops P (.valueCall p q args n))
      (Gives r b l L) :=
  (jsValueCall_spec hp hq hn hargs).conseq (fun _ hw => hw) (fun _ h => ⟨h.1, h.2.2.2⟩) fun _ _ h =>
    h.gives fun _ _ _ h => h.gives fun _ _ _ h =>
      h.gives ((Loc.same_started l.clearError x x.callRuns).trans (Loc.same_after _ _))

theorem jsValueConstruct_gives {args : Option (List Ptr)} {n : Int} (hp : b.Holds p r x)
    (hn : CountsArgs args n) (hargs : ∀ q ∈ args.getD [], b.NullOrLive q) :
    TripleOr (Run r b l L) (jsValueConstruct (some p) args n) (Call.Stops P (.valueConstruct p args n))
      (Gives r b l L) :=
  (jsValueConstruct_spec hp hn hargs).conseq (fun _ hw => hw) (fun _ h => ⟨h.1, h.2.2.2⟩) fun _ _ h =>
    h.gives fun _ _ _ h =>
      h.gives ((Loc.same_started l.clearError x x.isConstructor).trans (Loc.same_after _ _))

theorem jsValueKind_quiet (hp : b.Holds p r x) :
    Triple (Run r b l L) (jsValueKind (some p)) (fun _ => Quiet r b l L) :=
  Triple.post (jsValueKind_spec hp) fun _ _ h => ⟨_, Loc.Same.refl l, h.2⟩

theorem jsValueToBool_quiet (hp : b.Holds p r x) :
    Triple (Run r b l L) (jsValueToBool (some p)) (fun _ => Quiet r b l L) :=
  Triple.post (jsValueToBool_spec hp) fun _ _ h => ⟨_, Loc.Same.refl l, h.2⟩

theorem jsValueToNumber_quiet (hp : b.Holds p r x) :
    Triple (Run r b l L) (jsValueToNumber (some p)) (fun _ => Quiet r b l L) := by
  refine Triple.post (jsValueToNumber_spec hp) fun v w h => ?_
  rcases hx : P.toNumber x l.heap with ⟨_ | _, _⟩ <;> rw [hx] at h <;> refine ⟨_, ?_, h.2⟩ <;>
    exact ⟨rfl, rfl⟩

theorem jsValueToString_quiet (hp : b.Holds p r x) :
    Triple (Run r b l L) (jsValueToString (some p)) (fun s => Quiet r b l (L + stringRes s)) :=
  Triple.post (jsValueToString_spec hp) fun _ _ h => ⟨_, Loc.same_toText l x, h.2⟩

theorem jsValueIsArray_quiet (hp : b.Holds p r x) :
    Triple (Run r b l L) (jsValueIsArray (some p)) (fun _ => Quiet r b l L) :=
  Triple.post (jsValueIsArray_spec hp) fun _ _ h => ⟨_, Loc.same_after l _, h.2⟩

theorem jsValueArrayLength_quiet (hp : b.Holds p r x) :
    Triple (Run r b l L) (jsValueArrayLength (some p)) (fun _ => Quiet r b l L) :=
  Triple.post (jsValueArrayLength_spec hp) fun _ _ h => ⟨_, Loc.same_arrayLength l x, h.2⟩

end Value

end InteropJs
