import InteropJs.Bridge.Fresh
import InteropJs.Bridge.Runs

/-!
# The effect of one call

`Call.effect` says, in one table, what a call on a live runtime or a live handle shows its client and
which local state it leaves. It reads the values of the handles through `own`, which knows only those
of the runtime that the call works on.

* `Outcome` is the exit that a call takes: a failed check (`set_error`), an exception of the engine
  (`capture_exception`), a value for a new handle (`new_value_handle`), or a result.
* `Call.outcome` is the exit and the local state there, and `Loc.finish` goes through the exit.
* `Call.effect_spec` connects the table to the code, and `Reach.effect` to the runs of a client.
-/

namespace InteropJs

open Hoare

variable {P : Platform}

/-- What a client sees of a result; of a handle it is the value. -/
inductive Seen where
  | nothing
  | handle (x : Option JSVal)
  | int (i : Int)
  | float (x : Float64)
  | text (s : Option CStr)

/-- The exit that a call takes (module doc). -/
inductive Outcome where
  | reject (message : CStr)
  | raise
  | value (x : JSVal)
  | done (s : Seen)

/-- The exit after the last engine call of a function that returns a handle. -/
def Outcome.answer : Option JSVal → Outcome
  | none => .raise
  | some x => .value x

/-- The exit after the engine call of a function that returns a status. -/
def Outcome.status {α : Type} : Except JSVal α → Outcome
  | .error _ => .raise
  | .ok _ => .done (.int 0)

/-! ## The checks -/

/-- A string argument must not be `NULL`. -/
def named (s : Option CStr) (message : String) : Except CStr CStr :=
  match s with
  | none => .error (utf8 message)
  | some s => .ok s

def indexed (index : Int) : Except CStr UInt32 :=
  if index < 0 then .error (utf8 "array index must not be negative") else .ok (uint32 index)

section Own

variable (own : Ptr → Option JSVal)

/-- `World.newValueOf`, from the handles of the runtime. -/
def valueFrom (value : Ptr) (message : String) : Except CStr JSVal :=
  match own value with
  | none => .error (utf8 message)
  | some y => .ok y

/-- `World.thisOf`, from the handles of the runtime. -/
def thisFrom (thisValue : Ptr) : Except CStr JSVal :=
  if thisValue.isNone then .ok .undefined
  else valueFrom own thisValue "this value does not belong to this runtime"

/-- `World.argvOf`, from the handles of the runtime. -/
def argvFrom (args : Option (List Ptr)) (numArgs : Int) : Except CStr (List JSVal) :=
  if numArgs < 0 then .error (utf8 "argument count must not be negative")
  else if 0 < numArgs ∧ args.isNone then .error (utf8 "argument array must not be null")
  else
    match ((args.getD []).take numArgs.toNat).mapM own with
    | none => .error (utf8 "argument does not belong to this runtime")
    | some argv => .ok argv

end Own

/-! ## The table -/

namespace Loc

variable (l : Loc P)

/-- A failed check ends the call. -/
def check {α : Type} (c : Except CStr α) (k : α → Outcome × Loc P) : Outcome × Loc P :=
  match c with
  | .error message => (.reject message, l)
  | .ok a => k a

/-- The value of the target goes on; a call on no target is left out. -/
def target (x : Option JSVal) (k : JSVal → Outcome × Loc P) : Outcome × Loc P :=
  match x with
  | none => (.done .nothing, l)
  | some x => k x

/-- `clear_error`, then the engine call `out`, whose value goes to a new handle. -/
def answers (out : Except JSVal JSVal × P.Heap) : Outcome × Loc P :=
  (.answer out.1.toOption, l.clearError.after out)

/-- `clear_error`, then the engine call `out`, whose status is returned. -/
def reports {α : Type} (out : Except JSVal α × P.Heap) : Outcome × Loc P :=
  (.status out.1, l.clearError.after out)

def enabling : Outcome × Loc P :=
  if l.stdEnabled then (.done (.int 0), l)
  else
    match P.initModuleStd l.heap with
    | (.ok _, h) =>
      (.done (.int 0), { l.clearError with heap := h, moduleLoader := true, stdEnabled := true })
    | (.error x, h) =>
      (.raise, { l.clearError with heap := h, moduleLoader := true, exception := some x })

def importing (path : CStr) : Outcome × Loc P :=
  match P.readFile path l.host with
  | (none, host) => (.reject (utf8 "failed to read JavaScript module file"), { l.clearError with host })
  | (some source, host) =>
    { l with host }.answers (P.importModule source path l.moduleLoader l.heap)

def numbered (x : JSVal) : Outcome × Loc P :=
  match P.toNumber x l.heap with
  | (.ok y, h) => (.done (.float y), { l with heap := h })
  | (.error e, h) =>
    (.done (.float (.finite 0)), { l with heap := h, exception := some e }.setError
      (utf8 "failed to convert JavaScript value to number"))

/-- The end of a call: the exit is taken. `fail` is the result that says so. -/
def finish (fail : Seen) (out : Outcome × Loc P) : Seen × Loc P :=
  match out with
  | (.reject message, l) => (fail, l.setError message)
  | (.raise, l) => (fail, l.capture)
  | (.value x, l) =>
    if (P.malloc l.host).1 then
      (.handle (some x), { l with host := (P.malloc l.host).2, count := l.count + 1 })
    else
      (fail, { l with host := (P.malloc l.host).2 }.setError
        (utf8 "failed to allocate JavaScript value handle"))
  | (.done s, l) => (s, l)

end Loc

namespace Call

/-- The exit of a call and the local state there (module doc). -/
def outcome (own : Ptr → Option JSVal) (l : Loc P) : {β : Type} → Call β → Outcome × Loc P
  | _, .runtimeCreate | _, .runtimeDestroy _ | _, .valueDestroy _ | _, .bridgeFreeString _ =>
    (.done .nothing, l)
  | _, .runtimeLastError _ => (.done (.text (l.error.getD [])), l)
  | _, .runtimeEnableStdModule _ => l.enabling
  | _, .runtimeEvalValue _ source =>
    l.check (named source "source must not be null") fun s => l.answers (P.eval s.text l.heap)
  | _, .runtimeGetGlobalProperty _ name =>
    l.check (named name "global property name must not be null") fun s =>
      l.answers (P.getProperty (P.globalObject l.heap) (.ofCString s) l.heap)
  | _, .runtimeNewBool _ value => (.value (.bool (value ≠ 0)), l.clearError)
  | _, .runtimeNewNumber _ value => (.value (.number value), l.clearError)
  | _, .runtimeNewString _ value =>
    l.check (named value "string value must not be null") fun s => l.answers (P.newJSString s l.heap)
  | _, .runtimeNewBigint _ value =>
    l.check (named value "BigInt value must not be null") fun s =>
      (.answer (l.clearError.newBigint s).1, (l.clearError.newBigint s).2)
  | _, .runtimeImportModule _ path => l.check (named path "module path must not be null") l.importing
  | _, .valueKind p => l.target (own p) fun x => (.done (.int x.kind.code), l)
  | _, .valueToBool p => l.target (own p) fun x => (.done (.int (if x.toBool then 1 else 0)), l)
  | _, .valueToNumber p => l.target (own p) l.numbered
  | _, .valueToString p => l.target (own p) fun x => (.done (.text (l.toText x).1), (l.toText x).2)
  | _, .valueIsArray p => l.target (own p) fun x =>
    (.done (.int (if (P.isArray x l.heap).1.toOption = some false then 0 else 1)),
      l.after (P.isArray x l.heap))
  | _, .valueArrayLength p => l.target (own p) fun x =>
    (.done (.int (l.arrayLength x).1), (l.arrayLength x).2)
  | _, .valueGetProperty p name => l.target (own p) fun x =>
    l.check (named name "property name must not be null") fun s =>
      l.answers (P.getProperty x (.ofCString s) l.heap)
  | _, .valueSetProperty p name q => l.target (own p) fun x =>
    l.check (named name "property name must not be null") fun s =>
      l.check (valueFrom own q "property value does not belong to this runtime") fun y =>
        l.reports (P.setProperty x (.ofCString s) y l.heap)
  | _, .valueGetIndex p index => l.target (own p) fun x =>
    l.check (indexed index) fun i => l.answers (P.getProperty x (.ofIndex i.toNat) l.heap)
  | _, .valueSetIndex p index q => l.target (own p) fun x =>
    l.check (indexed index) fun i =>
      l.check (valueFrom own q "array value does not belong to this runtime") fun y =>
        l.reports (P.setProperty x (.ofIndex i.toNat) y l.heap)
  | _, .valueCall p q args n => l.target (own p) fun f =>
    l.check (thisFrom own q) fun this => l.check (argvFrom own args n) fun argv =>
      (.answer (P.call f this argv l.heap).1.toOption, l.afterCall f this argv)
  | _, .valueConstruct p args n => l.target (own p) fun f =>
    l.check (argvFrom own args n) fun argv =>
      (.answer (P.callConstructor f argv l.heap).1.toOption, l.afterConstruct f argv)

/-- The result that reports a failure. -/
def fail : {β : Type} → Call β → Seen
  | _, .runtimeEnableStdModule _ | _, .valueSetProperty _ _ _ | _, .valueSetIndex _ _ _ => .int 1
  | _, _ => .handle none

/-- What the client sees, and the local state after the call. -/
def effect (own : Ptr → Option JSVal) (l : Loc P) {β : Type} (call : Call β) : Seen × Loc P :=
  Loc.finish call.fail (call.outcome own l)

/-- What the client sees of the result of a call on `r`. -/
def seen (r : Nat) (w : World P) : {β : Type} → Call β → β → Seen
  | _, .runtimeCreate, _ | _, .runtimeDestroy _, _ | _, .valueDestroy _, _
  | _, .bridgeFreeString _, _ => .nothing
  | _, .runtimeLastError _, s => .text s
  | _, .valueToNumber _, x => .float x
  | _, .valueToString _, s => .text (s.map (·.bytes))
  | _, .runtimeEnableStdModule _, i | _, .valueKind _, i | _, .valueToBool _, i
  | _, .valueIsArray _, i | _, .valueArrayLength _, i | _, .valueSetProperty _ _ _, i
  | _, .valueSetIndex _ _ _, i => .int i
  | _, .runtimeEvalValue _ _, p | _, .runtimeGetGlobalProperty _ _, p | _, .runtimeNewBool _ _, p
  | _, .runtimeNewNumber _ _, p | _, .runtimeNewString _ _, p | _, .runtimeNewBigint _ _, p
  | _, .runtimeImportModule _ _, p | _, .valueGetProperty _ _, p | _, .valueGetIndex _ _, p
  | _, .valueCall _ _ _ _, p | _, .valueConstruct _ _ _, p => .handle (w.valueOf r p)

/-- The call works on the live runtime `r`, or on a live handle of it; its other handles are live
ones of any runtime, or `NULL`. -/
def On (b : World P) (r : Nat) : {β : Type} → Call β → Prop
  | _, .runtimeCreate | _, .runtimeDestroy _ | _, .valueDestroy _ | _, .bridgeFreeString _ => False
  | _, .runtimeLastError p | _, .runtimeEnableStdModule p | _, .runtimeEvalValue p _
  | _, .runtimeGetGlobalProperty p _ | _, .runtimeNewBool p _ | _, .runtimeNewNumber p _
  | _, .runtimeNewString p _ | _, .runtimeNewBigint p _ | _, .runtimeImportModule p _ => p = some r
  | _, .valueKind p | _, .valueToBool p | _, .valueToNumber p | _, .valueToString p
  | _, .valueIsArray p | _, .valueArrayLength p | _, .valueGetProperty p _
  | _, .valueGetIndex p _ => ∃ q x, p = some q ∧ b.Holds q r x
  | _, .valueSetProperty p _ q | _, .valueSetIndex p _ q =>
    (∃ q x, p = some q ∧ b.Holds q r x) ∧ b.NullOrLive q
  | _, .valueCall p q args n =>
    (∃ q x, p = some q ∧ b.Holds q r x) ∧ b.NullOrLive q ∧ CountsArgs args n ∧
      ∀ q ∈ args.getD [], b.NullOrLive q
  | _, .valueConstruct p args n =>
    (∃ q x, p = some q ∧ b.Holds q r x) ∧ CountsArgs args n ∧
      ∀ q ∈ args.getD [], b.NullOrLive q

end Call

/-! ## The code follows the table -/

variable {r : Nat} {b w : World P} {l : Loc P} {L : Multiset Resource}

/-- The world after a call on `r` from the world `b`: the client sees `s`, the local state of `r` is
the one of the table, and nothing else changed but for the new handle `p`. -/
def Shows (r : Nat) (b : World P) (out : Seen × Loc P) (s : Seen) (p : Ptr) (w : World P) : Prop :=
  s = out.1 ∧ ∃ b' L, Run r b' out.2 L w ∧
    (p = none ∧ b' = b ∨ ∃ x t, p = some b.nextValue ∧ b' = b.addValue ⟨some r, .ref x t⟩)

/-- A call that gives no handle. -/
theorem Run.shows {s : Seen} (h : Run r b l L w) : Shows r b (s, l) s none w :=
  ⟨rfl, b, L, h, .inl ⟨rfl, rfl⟩⟩

theorem Run.valueOf_nextValue {x : JSVal} {t : Nat}
    (h : Run r (b.addValue ⟨some r, .ref x t⟩) l L w) : w.valueOf r (some b.nextValue) = some x := by
  obtain ⟨e, -, hw⟩ := h
  simp [World.valueOf, hw.values, World.addValue]

theorem Answer.shows {o : Option JSVal} {p : Ptr} (h : Answer r b L o l p w) :
    Shows r b (Loc.finish (.handle none) (.answer o, l)) (.handle (w.valueOf r p)) p w := by
  cases o with
  | none =>
    obtain ⟨rfl, hw⟩ := h
    exact hw.shows
  | some x =>
    obtain ⟨t, ht⟩ := h
    unfold Delivered at ht
    simp only [Loc.finish, Outcome.answer]
    by_cases hm : (P.malloc l.host).1 = true
    · rw [if_pos hm] at ht ⊢
      obtain ⟨rfl, hw⟩ := ht
      exact ⟨by rw [hw.valueOf_nextValue], _, _, hw, .inr ⟨x, t, rfl, rfl⟩⟩
    · rw [if_neg hm] at ht ⊢
      obtain ⟨rfl, hw⟩ := ht
      exact hw.shows

theorem Status.shows {α : Type} {out : Except JSVal α × P.Heap} {i : Int}
    (h : Status r b L out l i w) :
    Shows r b (Loc.finish (.int 1) (.status out.1, l.after out)) (.int i) none w := by
  rcases out with ⟨e | a, heap⟩ <;> obtain ⟨rfl, hw⟩ := h <;> exact hw.shows

theorem Checked.shows {α β : Type} {check : Except CStr α} {Q : α → β → World P → Prop} {x y : β}
    {fail : Seen} {s : β → Seen} {g : β → Ptr} {k : α → Outcome × Loc P}
    (hQ : ∀ a, Q a y w → Shows r b (Loc.finish fail (k a)) (s y) (g y) w) (hs : s x = fail)
    (hg : g x = none) (h : Checked r b L l x check Q y w) :
    Shows r b (Loc.finish fail (l.check check k)) (s y) (g y) w := by
  cases check with
  | error m =>
    obtain ⟨rfl, hw⟩ := h
    rw [hs, hg]
    exact hw.shows
  | ok a => exact hQ a h

/-- The end of the two functions that write a property. -/
theorem assign_shows {α : Type} {q : Ptr} {message : String} {out : JSVal → Except JSVal α × P.Heap}
    {i : Int} (h : Checked r b L l 1 (b.newValueOf r q message)
      (fun y => Status r b L (out y) l.clearError) i w) :
    Shows r b (Loc.finish (.int 1)
      (l.check (valueFrom (b.valueOf r) q message) fun y => l.reports (out y))) (.int i) none w :=
  h.shows (s := .int) (g := fun _ => none) (fun _ h => Status.shows h) rfl rfl

/-- A function on `r` that checks its string first. -/
theorem named_spec {f : Option CStr → BridgeM P Ptr} {k : CStr → Outcome × Loc P} {message : String}
    (s : Option CStr)
    (hnull : Triple (Run r b l L) (f none)
      (fun p w => p = none ∧ Run r b (l.setError (utf8 message)) L w))
    (hf : ∀ s, Triple (Run r b l L) (f (some s)) fun p w =>
      Shows r b (Loc.finish (.handle none) (k s)) (.handle (w.valueOf r p)) p w) :
    Triple (Run r b l L) (f s) fun p w =>
      Shows r b (Loc.finish (.handle none) (l.check (named s message) k)) (.handle (w.valueOf r p)) p w := by
  cases s with
  | none =>
    refine Triple.post hnull fun p w ⟨hp, hw⟩ => ?_
    subst hp
    exact hw.shows
  | some s => exact hf s

theorem enabling_finish (l : Loc P) :
    Loc.finish (.int 1) l.enabling = (.int l.enableStd.1, l.enableStd.2) := by
  unfold Loc.enabling Loc.enableStd
  by_cases hstd : l.stdEnabled = true
  · rw [if_pos hstd, if_pos hstd]
    rfl
  · rw [if_neg hstd, if_neg hstd]
    rcases P.initModuleStd l.heap with ⟨_ | _, _⟩ <;> rfl

theorem jsRuntimeImportModule_shows (path : CStr) :
    Triple (Run r b l L) (jsRuntimeImportModule (some r) (some path)) fun p w =>
      Shows r b (Loc.finish (.handle none) (l.importing path)) (.handle (w.valueOf r p)) p w := by
  refine Triple.post (jsRuntimeImportModule_spec path) fun p w h => ?_
  unfold Loc.importing
  rcases hfile : P.readFile path l.host with ⟨_ | source, host⟩ <;> rw [hfile] at h
  · obtain ⟨rfl, hw⟩ := h
    exact hw.shows
  · exact h.shows

namespace Call

/-- The checks of a call before its argument array pass, and the stack has no room for the array. -/
def Overruns (P : Platform) (own : Ptr → Option JSVal) : {β : Type} → Call β → Prop
  | _, .valueCall _ q _ n => (∃ this, thisFrom own q = .ok this) ∧ 0 ≤ n ∧ ¬ P.FitsArgv n
  | _, .valueConstruct _ _ n => 0 ≤ n ∧ ¬ P.FitsArgv n
  | _, _ => False

theorem Overruns.not_fits {own : Ptr → Option JSVal} {β : Type} {call : Call β}
    (h : call.Overruns P own) : ¬ call.Fits P := by
  cases call with
  | valueCall p q args n => exact h.2.2
  | valueConstruct p args n => exact h.2
  | _ => exact h.elim

theorem effect_valueCall {p q : Ptr} {args : Option (List Ptr)} {n : Int}
    (h : (valueCall p q args n).On b r) :
    TripleOr (Run r b l L) (jsValueCall p q args n)
      (fun e => e = .stackOverflow ∧ (valueCall p q args n).Overruns P (b.valueOf r)) fun x w =>
      Shows r b ((valueCall p q args n).effect (b.valueOf r) l) (.handle (w.valueOf r x)) x w := by
  obtain ⟨⟨q', x, rfl, hx⟩, hq, hn, hargs⟩ := h
  simp only [effect, outcome, hx.valueOf]
  refine TripleOr.post (jsValueCall_spec hx hq hn hargs) fun p w h => ?_
  exact h.shows (s := fun p => .handle (w.valueOf r p)) (g := id)
    (fun this h => h.shows (s := fun p => .handle (w.valueOf r p)) (g := id)
      (fun argv h => h.shows) rfl rfl) rfl rfl

theorem effect_valueConstruct {p : Ptr} {args : Option (List Ptr)} {n : Int}
    (h : (valueConstruct p args n).On b r) :
    TripleOr (Run r b l L) (jsValueConstruct p args n)
      (fun e => e = .stackOverflow ∧ (valueConstruct p args n).Overruns P (b.valueOf r)) fun x w =>
      Shows r b ((valueConstruct p args n).effect (b.valueOf r) l) (.handle (w.valueOf r x)) x w := by
  obtain ⟨⟨q', x, rfl, hx⟩, hn, hargs⟩ := h
  simp only [effect, outcome, hx.valueOf]
  refine (jsValueConstruct_spec hx hn hargs).conseq (fun _ hw => hw) (fun _ h => ⟨h.1, h.2.2⟩)
    fun p w h => ?_
  exact h.shows (s := fun p => .handle (w.valueOf r p)) (g := id) (fun argv h => h.shows) rfl rfl

/-- A call whose arguments fit the stack does what the table says. -/
theorem effect_spec_of_fits {β : Type} (call : Call β) (h : call.On b r) (hfit : call.Fits P) :
    Triple (Run r b l L) call.run fun x w =>
      Shows r b (call.effect (b.valueOf r) l) (call.seen r w x) (call.given x) w := by
  cases call with
  | runtimeCreate => cases h
  | runtimeDestroy p => cases h
  | valueDestroy p => cases h
  | bridgeFreeString s => cases h
  | runtimeLastError p =>
    obtain rfl : p = some r := h
    exact Triple.post jsRuntimeLastError_spec fun s w ⟨hs, hw⟩ => by subst hs; exact hw.shows
  | runtimeEnableStdModule p =>
    obtain rfl : p = some r := h
    refine Triple.post jsRuntimeEnableStdModule_spec fun i w ⟨hi, hw⟩ => ?_
    subst hi
    simp only [effect, fail, outcome, enabling_finish]
    exact hw.shows
  | runtimeEvalValue p source =>
    obtain rfl : p = some r := h
    exact named_spec source (guardRuntime (reject_spec _ _)) fun s =>
      Triple.post (jsRuntimeEvalValue_spec s) fun _ _ h => h.shows
  | runtimeGetGlobalProperty p name =>
    obtain rfl : p = some r := h
    exact named_spec name (guardRuntime (reject_spec _ _)) fun s =>
      Triple.post (jsRuntimeGetGlobalProperty_spec s) fun _ _ h => h.shows
  | runtimeNewBool p value =>
    obtain rfl : p = some r := h
    exact Triple.post (jsRuntimeNewBool_spec value) fun _ _ h => h.shows
  | runtimeNewNumber p value =>
    obtain rfl : p = some r := h
    exact Triple.post (jsRuntimeNewNumber_spec value) fun _ _ h => h.shows
  | runtimeNewString p value =>
    obtain rfl : p = some r := h
    exact named_spec value (guardRuntime (reject_spec _ _)) fun s =>
      Triple.post (jsRuntimeNewString_spec s) fun _ _ h => h.shows
  | runtimeNewBigint p value =>
    obtain rfl : p = some r := h
    exact named_spec value (guardRuntime (reject_spec _ _)) fun s =>
      Triple.post (jsRuntimeNewBigint_spec s) fun _ _ h => h.shows
  | runtimeImportModule p path =>
    obtain rfl : p = some r := h
    exact named_spec path (guardRuntime (reject_spec _ _)) jsRuntimeImportModule_shows
  | valueKind p =>
    obtain ⟨q, x, rfl, hx⟩ := h
    refine Triple.post (jsValueKind_spec hx) fun k w ⟨hk, hw⟩ => ?_
    subst hk
    simp only [effect, outcome, hx.valueOf]
    exact hw.shows
  | valueToBool p =>
    obtain ⟨q, x, rfl, hx⟩ := h
    refine Triple.post (jsValueToBool_spec hx) fun k w ⟨hk, hw⟩ => ?_
    subst hk
    simp only [effect, outcome, hx.valueOf]
    exact hw.shows
  | valueToNumber p =>
    obtain ⟨q, x, rfl, hx⟩ := h
    refine Triple.post (jsValueToNumber_spec hx) fun y w hy => ?_
    simp only [effect, outcome, hx.valueOf, Loc.target, Loc.numbered]
    rcases hn : P.toNumber x l.heap with ⟨_ | _, _⟩ <;> rw [hn] at hy <;> obtain ⟨rfl, hw⟩ := hy <;>
      exact hw.shows
  | valueToString p =>
    obtain ⟨q, x, rfl, hx⟩ := h
    refine Triple.post (jsValueToString_spec hx) fun s w ⟨hs, hw⟩ => ?_
    simp only [effect, outcome, hx.valueOf, Loc.target, Loc.finish, seen, hs]
    exact hw.shows
  | valueIsArray p =>
    obtain ⟨q, x, rfl, hx⟩ := h
    refine Triple.post (jsValueIsArray_spec hx) fun i w ⟨hi, hw⟩ => ?_
    subst hi
    simp only [effect, outcome, hx.valueOf]
    exact hw.shows
  | valueArrayLength p =>
    obtain ⟨q, x, rfl, hx⟩ := h
    refine Triple.post (jsValueArrayLength_spec hx) fun i w ⟨hi, hw⟩ => ?_
    subst hi
    simp only [effect, outcome, hx.valueOf]
    exact hw.shows
  | valueGetProperty p name =>
    obtain ⟨q, x, rfl, t, ht⟩ := h
    simp only [effect, outcome, World.Holds.valueOf ⟨t, ht⟩]
    exact named_spec (f := jsValueGetProperty (some q)) name (guardValue ht rfl (reject_spec _ _)) fun s =>
      Triple.post (jsValueGetProperty_spec ⟨t, ht⟩ s) fun _ _ h => h.shows
  | valueGetIndex p index =>
    obtain ⟨q, x, rfl, t, ht⟩ := h
    simp only [effect, outcome, World.Holds.valueOf ⟨t, ht⟩, Loc.target, indexed]
    by_cases hi : index < 0
    · rw [if_pos hi]
      refine guardValue ht rfl ?_
      rw [if_pos hi]
      exact Triple.post (reject_spec _ _) fun p w ⟨hp, hw⟩ => by subst hp; exact hw.shows
    · rw [if_neg hi]
      exact Triple.post (jsValueGetIndex_spec ⟨t, ht⟩ (by omega)) fun _ _ h => h.shows
  | valueSetProperty p name q =>
    obtain ⟨⟨q', x, rfl, t, ht⟩, hq⟩ := h
    simp only [effect, outcome, World.Holds.valueOf ⟨t, ht⟩, Loc.target]
    cases name with
    | none =>
      refine guardValue ht rfl (Triple.post (reject_spec _ _) fun i w ⟨hi, hw⟩ => ?_)
      subst hi
      exact hw.shows
    | some s =>
      exact Triple.post (jsValueSetProperty_spec ⟨t, ht⟩ hq s) fun i w h =>
        assign_shows h
  | valueSetIndex p index q =>
    obtain ⟨⟨q', x, rfl, t, ht⟩, hq⟩ := h
    simp only [effect, outcome, World.Holds.valueOf ⟨t, ht⟩, Loc.target, indexed]
    by_cases hi : index < 0
    · rw [if_pos hi]
      refine guardValue ht rfl ?_
      rw [if_pos hi]
      exact Triple.post (reject_spec _ _) fun i w ⟨hi, hw⟩ => by subst hi; exact hw.shows
    · rw [if_neg hi]
      exact Triple.post (jsValueSetIndex_spec ⟨t, ht⟩ (by omega) hq) fun i w h =>
        assign_shows h
  | valueCall p q args n => exact (effect_valueCall h).total fun _ h => h.2.not_fits hfit
  | valueConstruct p args n => exact (effect_valueConstruct h).total fun _ h => h.2.not_fits hfit

theorem effect_spec {β : Type} (call : Call β) (h : call.On b r) :
    TripleOr (Run r b l L) call.run (fun e => e = .stackOverflow ∧ call.Overruns P (b.valueOf r))
      fun x w => Shows r b (call.effect (b.valueOf r) l) (call.seen r w x) (call.given x) w := by
  by_cases hfit : call.Fits P
  · exact (effect_spec_of_fits call h hfit).allow
  · cases call with
    | valueCall p q args n => exact effect_valueCall h
    | valueConstruct p args n => exact effect_valueConstruct h
    | _ => exact absurd trivial hfit

/-- Where the stack has no room for the arguments, the call does not return. -/
theorem effect_stops {β : Type} {call : Call β} (h : call.On b r) (hover : call.Overruns P (b.valueOf r)) :
    TripleOr (Run r b l L) call.run (· = .stackOverflow) fun _ _ => False := by
  cases call with
  | valueCall p q args n =>
    obtain ⟨⟨q', x, rfl, hx⟩, hq, -⟩ := h
    obtain ⟨⟨this, hthis⟩, hn, hfit⟩ := hover
    exact jsValueCall_stops hx hq hthis hn hfit
  | valueConstruct p args n =>
    obtain ⟨⟨q', x, rfl, hx⟩, -⟩ := h
    exact jsValueConstruct_stops hx hover.1 hover.2
  | _ => exact hover.elim

end Call

/-! ## What a call did -/

/-- The runtime or the handle that the call works on is `NULL`. -/
def Call.Null : {β : Type} → Call β → Prop
  | _, .runtimeCreate => False
  | _, .bridgeFreeString s => s = none
  | _, .runtimeDestroy p | _, .runtimeLastError p | _, .runtimeEnableStdModule p
  | _, .runtimeEvalValue p _ | _, .runtimeGetGlobalProperty p _ | _, .runtimeNewBool p _
  | _, .runtimeNewNumber p _ | _, .runtimeNewString p _ | _, .runtimeNewBigint p _
  | _, .runtimeImportModule p _ | _, .valueDestroy p | _, .valueKind p | _, .valueToBool p
  | _, .valueToNumber p | _, .valueToString p | _, .valueIsArray p | _, .valueArrayLength p
  | _, .valueGetProperty p _ | _, .valueGetIndex p _ | _, .valueSetProperty p _ _
  | _, .valueSetIndex p _ _ | _, .valueCall p _ _ _ | _, .valueConstruct p _ _ => p = none

/-- Everything that an allowed call on `r` can do to the world `w`. -/
inductive Did (r : Nat) (w : World P) : {β : Type} → Call β → β → World P → Prop where
  | null {β : Type} {call : Call β} {x : β} (hn : call.Null) : Did r w call x w
  | on {β : Type} {call : Call β} {x : β} {w' : World P} {l : Loc P} (hl : w.loc? r = some l)
      (hon : call.On w r)
      (hs : Shows r w (call.effect (w.valueOf r) l) (call.seen r w' x) (call.given x) w') :
      Did r w call x w'
  | notCreated (host : P.Host) (n : Nat) : Did r w .runtimeCreate none (w.moved host n)
  | created (heap : P.Heap) (host : P.Host) (hr : w.runtimes w.nextRuntime = none) :
      Did r w .runtimeCreate (some w.nextRuntime) (w.addRuntime heap host)
  | destroyed {l : Loc P} {L : Multiset Resource} {w' : World P} (hl : w.loc? r = some l)
      (hs : Settled r w { l with destroying := true } L w') :
      Did r w (.runtimeDestroy (some r)) () w'
  | dropped {p : Nat} {x : JSVal} {l : Loc P} {L : Multiset Resource} {w' : World P}
      (hp : w.Holds p r x) (hl : w.loc? r = some l)
      (hs : Settled r (w.dropValue p) { l with count := l.count - 1 } L w') :
      Did r w (.valueDestroy (some p)) () w'
  | freed (s : OwnedString) (L : Multiset Resource) :
      Did r w (.bridgeFreeString (some s)) () { w with ledger := L }

variable {c : Client} {w' : World P}

/-- A call on a live target, as the table says. -/
theorem Inv.shows {β : Type} {call : Call β} {x : β} (h : Inv c w) (hl : w.loc? r = some l)
    (hon : call.On w r) (hrun : call.run.run w = .ok (x, w')) :
    Shows r w (call.effect (w.valueOf r) l) (call.seen r w' x) (call.given x) w' :=
  (call.effect_spec hon).run_ok (h.run_of_loc hl) hrun

/-- A call on `NULL` returns at once. -/
theorem Call.run_null {β : Type} {call : Call β} (hn : call.Null) :
    ∃ y, ∀ w : World P, call.run.run w = .ok (y, w) := by
  cases call <;> cases hn <;> exact ⟨_, fun _ => rfl⟩

/-- A call on no target, or one that `Call.effect_spec` speaks of. -/
theorem Inv.did_on {β : Type} {call : Call β} {x : β} (h : Inv c w)
    (hc : call.Null ∨ c.Open r ∧ call.On w r) (hrun : call.run.run w = .ok (x, w')) :
    Did r w call x w' := by
  obtain hn | ⟨ho, hon⟩ := hc
  · obtain ⟨y, hy⟩ := Call.run_null (P := P) hn
    rw [hy w] at hrun
    cases hrun
    exact .null hn
  · obtain ⟨l, -, -, hl⟩ := h.run ho
    exact .on hl.loc? hon (h.shows hl.loc? hon hrun)

theorem Client.TakesRuntime.open {p : Ptr} (hp : c.TakesRuntime r p) :
    p = none ∨ c.Open r ∧ p = some r := by
  obtain rfl | ⟨rfl, hr, hd⟩ := hp
  · exact .inl rfl
  · exact .inr ⟨Client.open_of_runtime hr hd, rfl⟩

theorem Inv.takesValue {p : Ptr} (h : Inv c w) (hp : c.TakesValue r p) :
    p = none ∨ c.Open r ∧ ∃ q x, p = some q ∧ w.Holds q r x := by
  obtain rfl | ⟨q, rfl, hmem⟩ := hp
  · exact .inl rfl
  · obtain ⟨x, hx⟩ := h.handles.holds q r hmem
    exact .inr ⟨h.open_of_value hmem, q, x, rfl, hx⟩

theorem Inv.did {β : Type} {call : Call β} {x : β} (h : Inv c w) (hc : c.Allows r call)
    (hrun : call.run.run w = .ok (x, w')) : Did r w call x w' := by
  cases call with
  | runtimeCreate =>
    have hw : w.runtimes w.nextRuntime = none := (h.runtime _).freed fun ho =>
      Nat.lt_irrefl _ ((h.runtime _).bound ho.1)
    obtain ⟨host, n, hr⟩ | ⟨heap, host, -, hr⟩ := jsRuntimeCreate_spec hw <;>
      rw [show Call.run .runtimeCreate = jsRuntimeCreate from rfl, hr] at hrun <;> cases hrun
    · exact .notCreated host n
    · exact .created heap host hw
  | runtimeDestroy p =>
    obtain rfl | ⟨rfl, hr, hd⟩ := hc
    · cases hrun
      exact .null rfl
    · obtain ⟨l, -, -, hl⟩ := h.run (Client.open_of_runtime hr hd)
      obtain ⟨y, w₁, hy, hs⟩ := jsRuntimeDestroy_spec w hl
      rw [show Call.run (.runtimeDestroy (some r)) = jsRuntimeDestroy (some r) from rfl, hy] at hrun
      cases hrun
      exact .destroyed hl.loc? hs
  | valueDestroy p =>
    obtain rfl | ⟨q, rfl, hmem⟩ := hc
    · cases hrun
      exact .null rfl
    · obtain ⟨l, w₁, -, -, hl, hy, hs⟩ := h.destroy hmem
      obtain ⟨v, hv⟩ := h.handles.holds q r hmem
      rw [show Call.run (.valueDestroy (some q)) = jsValueDestroy (some q) from rfl, hy] at hrun
      cases hrun
      exact .dropped hv hl.loc? hs
  | bridgeFreeString s =>
    cases s with
    | none =>
      cases hrun
      exact .null rfl
    | some s =>
      have hw : (freeString (some s)).run w = .ok (x, w') := hrun
      unfold freeString release at hw
      by_cases hm : Resource.string s.token ∈ w.ledger <;> simp [StateT.run, hm] at hw
      subst hw
      exact .freed s _
  | runtimeLastError p => exact h.did_on hc.open hrun
  | runtimeEnableStdModule p => exact h.did_on hc.open hrun
  | runtimeEvalValue p _ => exact h.did_on hc.open hrun
  | runtimeGetGlobalProperty p _ => exact h.did_on hc.open hrun
  | runtimeNewBool p _ => exact h.did_on hc.open hrun
  | runtimeNewNumber p _ => exact h.did_on hc.open hrun
  | runtimeNewString p _ => exact h.did_on hc.open hrun
  | runtimeNewBigint p _ => exact h.did_on hc.open hrun
  | runtimeImportModule p _ => exact h.did_on hc.open hrun
  | valueKind p => exact h.did_on (h.takesValue hc) hrun
  | valueToBool p => exact h.did_on (h.takesValue hc) hrun
  | valueToNumber p => exact h.did_on (h.takesValue hc) hrun
  | valueToString p => exact h.did_on (h.takesValue hc) hrun
  | valueIsArray p => exact h.did_on (h.takesValue hc) hrun
  | valueArrayLength p => exact h.did_on (h.takesValue hc) hrun
  | valueGetProperty p _ => exact h.did_on (h.takesValue hc) hrun
  | valueGetIndex p _ => exact h.did_on (h.takesValue hc) hrun
  | valueSetProperty p _ q =>
    exact h.did_on ((h.takesValue hc.1).imp_right <| And.imp_right fun hp =>
      ⟨hp, h.nullOrLive hc.2⟩) hrun
  | valueSetIndex p _ q =>
    exact h.did_on ((h.takesValue hc.1).imp_right <| And.imp_right fun hp =>
      ⟨hp, h.nullOrLive hc.2⟩) hrun
  | valueCall p q args n =>
    exact h.did_on ((h.takesValue hc.1).imp_right <| And.imp_right fun hp =>
      ⟨hp, h.nullOrLive hc.2.1, hc.2.2.1, fun q hq => h.nullOrLive (hc.2.2.2 q hq)⟩) hrun
  | valueConstruct p args n =>
    exact h.did_on ((h.takesValue hc.1).imp_right <| And.imp_right fun hp =>
      ⟨hp, hc.2.1, fun q hq => h.nullOrLive (hc.2.2 q hq)⟩) hrun

/-! ## What is left of each runtime -/

/-- The state of a runtime without its count and its mark: only a call on it changes that. -/
structure Core (P : Platform) where
  heap : P.Heap
  exception : Option JSVal
  moduleLoader : Bool
  error : Option CStr
  stdEnabled : Bool

def Loc.core (l : Loc P) : Core P := ⟨l.heap, l.exception, l.moduleLoader, l.error, l.stdEnabled⟩

/-- The core of the runtime `r`, if it is open. -/
def World.core? (w : World P) (r : Nat) : Option (Core P) := (w.loc? r).map Loc.core

theorem World.core?_congr (h : w'.runtimes r = w.runtimes r) : w'.core? r = w.core? r := by
  simp only [World.core?, World.loc?, h]
  cases w.runtimes r with
  | none => rfl
  | some cell =>
    obtain ⟨runtime, context, _, _, _, _⟩ := cell
    cases runtime <;> cases context <;> rfl

theorem World.core?_of_loc (h : w.loc? r = some l) : w.core? r = some l.core := by
  rw [World.core?, h]
  rfl

theorem Run.core? (h : Run r b l L w) : w.core? r = some l.core := World.core?_of_loc h.loc?

theorem Run.core?_of_ne {r' : Nat} (h : Run r b l L w) (hr : r' ≠ r) : w.core? r' = b.core? r' := by
  obtain ⟨e, -, hw⟩ := h
  exact World.core?_congr (hw.others r' hr)

theorem Shows.core?_of_ne {out : Seen × Loc P} {s : Seen} {p : Ptr} {r' : Nat} (h : Shows r b out s p w)
    (hr : r' ≠ r) : w.core? r' = b.core? r' := by
  obtain ⟨-, b', L, hw, ⟨-, rfl⟩ | ⟨x, t, -, rfl⟩⟩ := h
  · exact hw.core?_of_ne hr
  · exact hw.core?_of_ne hr

theorem Shows.loc? {out : Seen × Loc P} {s : Seen} {p : Ptr} (h : Shows r b out s p w) :
    w.loc? r = some out.2 := by
  obtain ⟨-, b', L, hw, -⟩ := h
  exact hw.loc?

theorem Shows.core? {out : Seen × Loc P} {s : Seen} {p : Ptr} (h : Shows r b out s p w) :
    w.core? r = some out.2.core := World.core?_of_loc h.loc?

/-- A destructor frees the runtime, or keeps its core. -/
theorem Settled.core? {r' : Nat} (h : Settled r b l L w) (hb : b.core? r = some l.core) : w.core? r' = b.core? r' ∨ w.core? r' = none := by
  unfold Settled at h
  by_cases hr : r' = r
  · subst hr
    split at h
    · right
      simp only [World.core?, World.loc?, h.cell, Option.map_none]
    · left
      rw [h.core?, hb]
  · left
    split at h
    · exact World.core?_congr (h.others r' hr)
    · exact h.core?_of_ne hr

/-- The core of a runtime after a call is that of a new runtime, the one before the call, or the one
that the table gives. -/
theorem Did.core? {β : Type} {call : Call β} {x : β} {r' : Nat} {k : Core P} (h : Did r w call x w')
    (hk : w'.core? r' = some k) :
    (w.runtimes r' = none ∧ ∃ heap, k = ⟨heap, none, false, none, false⟩) ∨ w.core? r' = some k ∨
      r' = r ∧ call.On w r ∧ ∃ l, w.loc? r = some l ∧ k = (call.effect (w.valueOf r) l).2.core := by
  cases h with
  | null hn => exact .inr (.inl hk)
  | @on _ _ _ _ l hl hon hs =>
    by_cases hr : r' = r
    · subst hr
      rw [hs.core?] at hk
      cases hk
      exact .inr (.inr ⟨rfl, hon, l, hl, rfl⟩)
    · rw [hs.core?_of_ne hr] at hk
      exact .inr (.inl hk)
  | notCreated host n =>
    have hmoved : (w.moved host n).core? r' = w.core? r' := World.core?_congr rfl
    exact .inr (.inl (hmoved ▸ hk))
  | created heap host hr =>
    by_cases hnew : r' = w.nextRuntime
    · subst hnew
      simp only [World.core?, World.loc?, World.addRuntime, Loc.cell, Function.update_self,
        Option.map_some] at hk
      cases hk
      exact .inl ⟨hr, heap, rfl⟩
    · rw [World.core?_congr (w := w) (Function.update_of_ne hnew _ _)] at hk
      exact .inr (.inl hk)
  | destroyed hl hs =>
    have hcore := World.core?_of_loc hl
    rcases hs.core? hcore with h | h <;> rw [h] at hk
    · exact .inr (.inl hk)
    · cases hk
  | @dropped p _ _ _ _ hp hl hs =>
    have hdrop : ∀ r, (w.dropValue p).core? r = w.core? r := fun _ => World.core?_congr rfl
    have hcore := (hdrop r).trans (World.core?_of_loc hl)
    rcases hs.core? hcore with h | h <;> rw [h] at hk
    · exact .inr (.inl (by rwa [hdrop] at hk))
    · cases hk
  | freed s L => exact .inr (.inl ((World.core?_congr (w := { w with ledger := L }) rfl).trans hk))

/-! ## Runs under a condition -/

/-- A step of a client whose calls all satisfy `good`, or of an engine. -/
inductive StepIf (good : World P → {β : Type} → Call β → Prop) :
    Client × World P → Client × World P → Prop where
  | call {c : Client} {w w' : World P} {β : Type} {r : Nat} (call : Call β) {x : β}
      (allowed : c.Allows r call) (holds : good w call) (ran : call.run.run w = .ok (x, w')) :
      StepIf good (c, w) (c.after r call x, w')
  | reclaim {c : Client} {w : World P} {r : Nat} {l : Loc P} (open_ : w.loc? r = some l) (heap : P.Heap)
      (host : P.Host) : StepIf good (c, w) (c, w.reclaimed r heap host)

/-- The states that a run of such steps reaches. -/
def ReachIf (good : World P → {β : Type} → Call β → Prop) (c : Client) (w : World P) : Prop :=
  ∃ host, Relation.ReflTransGen (StepIf good) (Client.start, World.start host) (c, w)

variable {good : World P → {β : Type} → Call β → Prop}

theorem ReachIf.start (host : P.Host) : ReachIf good Client.start (World.start host) := ⟨host, .refl⟩

theorem ReachIf.call {β : Type} {x : β} (h : ReachIf good c w) (call : Call β)
    (allowed : c.Allows r call) (holds : good w call) (ran : call.run.run w = .ok (x, w')) :
    ReachIf good (c.after r call x) w' := by
  obtain ⟨host, hr⟩ := h
  exact ⟨host, hr.tail (.call call allowed holds ran)⟩

theorem ReachIf.reach (h : ReachIf good c w) : Reach c w := by
  obtain ⟨host, hr⟩ := h
  refine ⟨host, Relation.ReflTransGen.mono (fun s s' hs => ?_) _ _ hr⟩
  cases hs with
  | call call allowed _ ran => exact .call call allowed ran
  | reclaim open_ heap host => exact .reclaim open_ heap host

theorem World.reclaimed_loc? {r' : Nat} (hl : w.loc? r = some l) (heap : P.Heap) (host : P.Host) :
    (w.reclaimed r heap host).loc? r' =
      if r' = r then some { l with heap, host } else (w.loc? r').map ({ · with host }) := by
  by_cases hr : r' = r
  · subst hr
    rw [if_pos rfl]
    unfold World.loc? at hl ⊢
    simp only [World.reclaimed, Function.update_self]
    cases hcell : w.runtimes r' with
    | none =>
      rw [hcell] at hl
      cases hl
    | some cell =>
      rw [hcell] at hl
      obtain ⟨runtime, context, _, _, _, _⟩ := cell
      cases runtime <;> cases context <;> cases hl
      rfl
  · rw [if_neg hr]
    unfold World.loc? World.reclaimed
    simp only [Function.update_of_ne hr]
    cases w.runtimes r' with
    | none => rfl
    | some cell =>
      obtain ⟨runtime, context, _, _, _, _⟩ := cell
      cases runtime <;> cases context <;> rfl

/-- Only the heap of one core changes. -/
theorem World.reclaimed_self (hl : w.loc? r = some l) (heap : P.Heap) (host : P.Host) :
    (w.reclaimed r heap host).loc? r = some { l with heap, host } := by
  rw [World.reclaimed_loc? hl, if_pos rfl]

theorem World.reclaimed_core? {r' : Nat} {k : Core P} (hl : w.loc? r = some l) (heap : P.Heap) (host : P.Host)
    (hk : (w.reclaimed r heap host).core? r' = some k) :
    ∃ k', w.core? r' = some k' ∧ ∃ heap, k = { k' with heap } := by
  unfold World.core? at hk ⊢
  rw [World.reclaimed_loc? hl] at hk
  by_cases hr : r' = r
  · subst hr
    rw [if_pos rfl] at hk
    cases hk
    exact ⟨l.core, by rw [hl]; rfl, heap, rfl⟩
  · rw [if_neg hr, Option.map_map] at hk
    exact ⟨k, hk, k.heap, rfl⟩

/-- A property of cores, but for their heaps, that new runtimes have and good calls keep holds in every
state reached. -/
theorem ReachIf.core {φ : Core P → Prop} (h : ReachIf good c w)
    (hnew : ∀ heap, φ ⟨heap, none, false, none, false⟩)
    (hon : ∀ (w : World P) (r : Nat) (l : Loc P) {β : Type} (call : Call β), good w call →
      call.On w r → w.loc? r = some l → φ l.core → φ (call.effect (w.valueOf r) l).2.core)
    (hheap : ∀ (k : Core P) (heap : P.Heap), φ k → φ { k with heap }) :
    ∀ r k, w.core? r = some k → φ k := by
  obtain ⟨host, hr⟩ := h
  refine (reach_invariant (I := fun s : Client × World P =>
    Reach s.1 s.2 ∧ ∀ r k, s.2.core? r = some k → φ k) (fun s s' hs hstep => ?_)
    ⟨Reach.start host, fun r k hk => by cases hk⟩ hr).2
  obtain ⟨hreach, hφ⟩ := hs
  cases hstep with
  | call call allowed holds ran =>
    refine ⟨hreach.call call allowed ran, fun r' k hk => ?_⟩
    obtain ⟨-, heap, rfl⟩ | hk | ⟨rfl, honr, l, hl, rfl⟩ := (hreach.inv.did allowed ran).core? hk
    · exact hnew heap
    · exact hφ r' k hk
    · exact hon _ _ l call holds honr hl (hφ _ _ (World.core?_of_loc hl))
  | reclaim open_ heap host =>
    refine ⟨hreach.reclaim open_ heap host, fun r' k hk => ?_⟩
    obtain ⟨k', hk', heap', rfl⟩ := World.reclaimed_core? open_ heap host hk
    exact hheap k' heap' (hφ r' k' hk')

end InteropJs
