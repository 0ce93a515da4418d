import InteropJs.Bridge.Modules

/-!
# Calls on a runtime with a module

The calls of a client that evaluates no script, reads no global, imports no file but that of the module and
reads only own data properties (`ModuleEngine.Visits`).

* `assigned` and `running` are a table: the properties that a call assigns, and the records whose code it can
  run. `outcome_goes` says that a visit goes by the table.
* `Kept` says of a runtime that its heap is sound and that its handles denote tame values. `Kept.call`: a
  visit keeps it, and its trace in the heap is a `ModuleView.Step` of the table.
-/

namespace InteropJs

open Hoare

variable {P : Platform}

namespace ModuleEngine

open ModuleView

variable {source : List UInt8} {path : CStr} {E : ModuleEngine P source path} {h : P.Heap}

/-! ## One call -/

/-- A local state with a sound heap; a pending exception is tame. -/
structure Fine (E : ModuleEngine P source path) (l : Loc P) : Prop where
  sound : E.Sound l.heap
  exception : ∀ x, l.exception = some x → E.Tame l.heap x

/-- What a call does up to its exit. -/
structure Goes (E : ModuleEngine P source path) (writes : Set (JSVal × PropKey)) (runs : Set Nat) (l : Loc P)
    (out : Outcome × Loc P) : Prop where
  step : E.Step writes runs l.heap out.2.heap
  exception : ∀ x, out.2.exception = some x → E.Tame out.2.heap x
  value : ∀ x, out.1 = .value x → E.Tame out.2.heap x
  done : ∀ x, out.1 ≠ .done (.handle (some x))
  worded : out.1 = .raise → E.Worded runs out.2.heap (out.2.exception.getD .uninitialized)

section Exits

variable {l : Loc P} {writes : Set (JSVal × PropKey)} {runs : Set Nat}

theorem Goes.mono {writes' : Set (JSVal × PropKey)} {runs' : Set Nat} {out : Outcome × Loc P}
    (h : E.Goes writes runs l out) (hw : writes ⊆ writes') (hr : runs ⊆ runs') :
    E.Goes writes' runs' l out :=
  ⟨h.step.mono hw hr, h.exception, h.value, h.done, fun hraise => (h.worded hraise).mono hr⟩

/-- An exit before any engine call. -/
theorem goes_still {l' : Loc P} {out : Outcome} (hl : E.Fine l) (hheap : l'.heap = l.heap)
    (hexc : l'.exception = l.exception) (hraise : out ≠ .raise)
    (hvalue : ∀ x, out = .value x → x.isPrimitive = true) (hdone : ∀ x, out ≠ .done (.handle (some x))) :
    E.Goes writes runs l (out, l') := by
  refine ⟨?_, fun x hx => ?_, fun x hx => E.primitive_tame (hvalue x hx), hdone, fun h => absurd h hraise⟩
  · rw [hheap]
    exact .refl hl.sound
  · rw [hexc] at hx
    rw [hheap]
    exact hl.exception x hx

theorem goes_check {α : Type} {check : Except CStr α} {k : α → Outcome × Loc P} (hl : E.Fine l)
    (hk : ∀ a, check = .ok a → E.Goes writes runs l (k a)) : E.Goes writes runs l (l.check check k) := by
  cases check with
  | error m => exact goes_still hl rfl rfl (by simp) (by simp) (by simp)
  | ok a => exact hk a rfl

theorem goes_target {x : Option JSVal} {k : JSVal → Outcome × Loc P} (hl : E.Fine l)
    (hk : ∀ y, x = some y → E.Goes writes runs l (k y)) : E.Goes writes runs l (l.target x k) := by
  cases x with
  | none => exact goes_still hl rfl rfl (by simp) (by simp) (by simp)
  | some y => exact hk y rfl

/-- The local state after an engine call, from one with the exception of `l`. -/
theorem after_exception {α : Type} {l' : Loc P} {out : Except JSVal α × P.Heap} {ok : α → P.Heap → Prop}
    (hl : E.Fine l) (hexc : l'.exception = l.exception) (hdoes : E.Does writes runs l.heap out ok) :
    ∀ x, (l'.after out).exception = some x → E.Tame (l'.after out).heap x := by
  rcases out with ⟨e | a, h⟩ <;> intro x hx
  · cases hx
    exact (hdoes.error _ rfl).1
  · rw [Loc.after_ok, hexc] at hx
    exact hdoes.step.tame x (hl.exception x hx)

/-- The exit after the engine call of a function that returns a handle. -/
theorem goes_answer {l' : Loc P} {out : Except JSVal JSVal × P.Heap} (hl : E.Fine l)
    (hexc : l'.exception = l.exception)
    (hdoes : E.Does writes runs l.heap out fun y h' => E.Tame h' y) :
    E.Goes writes runs l (.answer out.1.toOption, l'.after out) := by
  refine ⟨by rw [Loc.after_heap]; exact hdoes.step, after_exception hl hexc hdoes, fun x hx => ?_,
    fun x hx => ?_, fun hraise => ?_⟩
  · rcases out with ⟨e | y, h⟩ <;> cases hx
    exact hdoes.value _ rfl
  · rcases out with ⟨e | y, h⟩ <;> cases hx
  · rcases out with ⟨e | y, h⟩
    · exact (hdoes.error e rfl).2
    · cases hraise

/-- The exit after the engine call of a function that returns a status. -/
theorem goes_status {α : Type} {l' : Loc P} {out : Except JSVal α × P.Heap} {ok : α → P.Heap → Prop}
    (hl : E.Fine l) (hexc : l'.exception = l.exception) (hdoes : E.Does writes runs l.heap out ok) :
    E.Goes writes runs l (.status out.1, l'.after out) := by
  refine ⟨by rw [Loc.after_heap]; exact hdoes.step, after_exception hl hexc hdoes, fun x hx => ?_,
    fun x hx => ?_, fun hraise => ?_⟩
  · rcases out with ⟨e | y, h⟩ <;> cases hx
  · rcases out with ⟨e | y, h⟩ <;> cases hx
  · rcases out with ⟨e | y, h⟩
    · exact (hdoes.error e rfl).2
    · cases hraise

/-- The end of a call keeps what it did; an error is put into words. -/
theorem Goes.finish {out : Outcome × Loc P} (h : E.Goes writes runs l out) (fail : Seen)
    (hfail : ∀ x, fail ≠ .handle (some x)) :
    E.Step writes runs l.heap (Loc.finish fail out).2.heap ∧ E.Fine (Loc.finish fail out).2 ∧
      ∀ x, (Loc.finish fail out).1 = .handle (some x) → E.Tame (Loc.finish fail out).2.heap x := by
  obtain ⟨o, l'⟩ := out
  have hfine : E.Fine l' := ⟨h.step.sound, h.exception⟩
  cases o with
  | reject m => exact ⟨h.step, ⟨hfine.1, hfine.2⟩, fun x hx => absurd hx (hfail x)⟩
  | raise =>
    have hworded := h.worded rfl
    have hheap : l'.capture.heap = (P.toCString (l'.exception.getD .uninitialized) l'.heap).2 := by
      rw [Loc.capture]
      exact Loc.after_heap _ _
    have hstep : E.Step writes runs l.heap l'.capture.heap := by
      rw [hheap]
      exact h.step.trans (hworded.1.mono (Set.empty_subset _) (Set.Subset.refl _))
    refine ⟨hstep, ⟨hstep.sound, fun x hx => ?_⟩, fun x hx => absurd hx (hfail x)⟩
    show E.Tame l'.capture.heap x
    rw [hheap]
    refine hworded.2 x ?_
    have hexc : l'.capture.exception = some x := hx
    unfold Loc.capture at hexc
    rcases hout : P.toCString (l'.exception.getD .uninitialized) l'.heap with ⟨e | b, h'⟩ <;>
      rw [hout] at hexc <;> cases hexc
    rfl
  | value y =>
    simp only [Loc.finish]
    by_cases hm : (P.malloc l'.host).1 = true
    · rw [if_pos hm]
      refine ⟨h.step, ⟨hfine.1, hfine.2⟩, fun x hx => ?_⟩
      cases hx
      exact h.value y rfl
    · rw [if_neg hm]
      exact ⟨h.step, ⟨hfine.1, hfine.2⟩, fun x hx => absurd hx (hfail x)⟩
  | done s =>
    refine ⟨h.step, hfine, fun x hx => ?_⟩
    have hs : s = .handle (some x) := hx
    exact absurd (congrArg Outcome.done hs) (h.done x)

theorem goes_done {l' : Loc P} {s : Seen} (hstep : E.Step writes runs l.heap l'.heap)
    (hexc : ∀ x, l'.exception = some x → E.Tame l'.heap x) (hs : ∀ x, s ≠ .handle (some x)) :
    E.Goes writes runs l (.done s, l') :=
  ⟨hstep, hexc, by simp, fun x hx => hs x (Outcome.done.inj hx), by simp⟩

theorem goes_enabling (hl : E.Fine l) : E.Goes ∅ ∅ l l.enabling := by
  unfold Loc.enabling
  by_cases hstd : l.stdEnabled = true
  · rw [if_pos hstd]
    exact goes_still hl rfl rfl (by simp) (by simp) (by simp)
  · rw [if_neg hstd]
    have hdoes := E.initStd hl.sound
    rcases hout : P.initModuleStd l.heap with ⟨e | a, h⟩ <;> rw [hout] at hdoes
    · refine ⟨hdoes.step, fun x hx => ?_, by simp, by simp, fun _ => (hdoes.error e rfl).2⟩
      cases hx
      exact (hdoes.error _ rfl).1
    · exact goes_done hdoes.step (fun x hx => hdoes.step.tame x (hl.exception x hx)) (by simp)

theorem goes_numbered {x : JSVal} (hl : E.Fine l) (hx : E.Tame l.heap x) :
    E.Goes ∅ Set.univ l (l.numbered x) := by
  unfold Loc.numbered
  have hdoes := E.toNumber hl.sound hx
  rcases hout : P.toNumber x l.heap with ⟨e | y, h⟩ <;> rw [hout] at hdoes
  · refine goes_done hdoes.step (fun x hx => ?_) (by simp)
    cases hx
    exact (hdoes.error _ rfl).1
  · exact goes_done hdoes.step (fun x hx => hdoes.step.tame x (hl.exception x hx)) (by simp)

theorem goes_toText {x : JSVal} (hl : E.Fine l) (hx : E.Tame l.heap x) :
    E.Goes ∅ Set.univ l (.done (.text (l.toText x).1), (l.toText x).2) := by
  unfold Loc.toText
  obtain ⟨hstep, herror⟩ := E.text hl.sound hx
  rcases hout : P.toCString x l.heap with ⟨e | bytes, h⟩ <;> rw [hout] at hstep herror
  · refine goes_done hstep (fun x hx => ?_) (by simp)
    cases hx
    exact herror _ rfl
  · have hexc : ∀ x, l.exception = some x → E.Tame h x := fun x hx => hstep.tame x (hl.exception x hx)
    dsimp only
    by_cases hm : (P.malloc l.host).1 = true
    · rw [if_pos hm]
      exact goes_done hstep hexc (by simp)
    · rw [if_neg hm]
      exact goes_done hstep hexc (by simp)

theorem goes_arrayLength {x : JSVal} (hl : E.Fine l) (hx : E.Tame l.heap x) :
    E.Goes ∅ Set.univ l (.done (.int (l.arrayLength x).1), (l.arrayLength x).2) := by
  unfold Loc.arrayLength
  have hlength := E.length hl.sound hx
  rcases hout : P.getProperty x (.ofCString (utf8 "length")) l.heap with ⟨e | n, h⟩ <;> rw [hout] at hlength
  · have hgoes : E.Goes ∅ Set.univ l (.raise, { l with heap := h, exception := some e }) := by
      refine ⟨hlength.step, fun x hx => ?_, by simp, by simp, fun _ => (hlength.error e rfl).2⟩
      cases hx
      exact (hlength.error _ rfl).1
    obtain ⟨hstep, hfine, -⟩ := hgoes.finish (.int (-1)) (by simp)
    exact goes_done hstep hfine.exception (by simp)
  · have htame := hlength.value n rfl
    have hdoes := E.toNumber hlength.step.sound htame
    dsimp only
    rcases hnum : P.toNumber n h with ⟨e | y, h'⟩ <;> rw [hnum] at hdoes
    · refine goes_done (hlength.step.trans hdoes.step) (fun x hx => ?_) (by simp)
      cases hx
      exact (hdoes.error _ rfl).1
    · exact goes_done (hlength.step.trans hdoes.step)
        (fun x hx => hdoes.step.tame x (hlength.step.tame x (hl.exception x hx))) (by simp)

theorem newJSString_does {h : P.Heap} (hs : E.Sound h) (s : CStr) :
    E.Does ∅ ∅ h (P.newJSString s h) fun y _ => y = .string (newStringUnits s.text) := by
  refine Does.andThen (E.newString _ hs) fun _ h' hstep _ => ?_
  refine ⟨.refl hstep.sound, fun y hy => ?_, fun x hx => ?_⟩
  · cases hy
    rfl
  · cases hx

theorem goes_newBigint (hl : E.Fine l) (s : CStr) :
    E.Goes ∅ ∅ l (.answer (l.clearError.newBigint s).1, (l.clearError.newBigint s).2) := by
  have hlook : P.getProperty (P.globalObject l.clearError.heap) (.ofCString (utf8 "BigInt"))
      l.clearError.heap = (.ok E.bigInt, l.heap) := E.lookupBigInt hl.sound
  have hrun : l.clearError.newBigint s = l.clearError.callBigint E.bigInt s := by
    unfold Loc.newBigint
    simp only [hlook]
    rfl
  rw [hrun]
  unfold Loc.callBigint
  have hstring := newJSString_does hl.sound s
  have hheap : l.clearError.heap = l.heap := rfl
  rw [hheap]
  rcases hout : P.newJSString s l.heap with ⟨e | y, h⟩ <;> rw [hout] at hstring
  · refine ⟨hstring.step, fun x hx => ?_, by simp [Outcome.answer], by simp [Outcome.answer],
      fun _ => (hstring.error e rfl).2⟩
    cases hx
    exact (hstring.error _ rfl).1
  · have hy : y = .string (newStringUnits s.text) := hstring.value y rfl
    subst hy
    have hcall := E.callBigInt (newStringUnits s.text) hstring.step.sound
    have hdoes : E.Does ∅ ∅ l.heap (P.call E.bigInt .undefined [.string (newStringUnits s.text)] h)
        fun y h' => E.Tame h' y := ⟨hstring.step.trans hcall.step, hcall.value, hcall.error⟩
    refine goes_answer hl ?_ hdoes
    unfold Loc.started
    split <;> rfl

/-- The file is read, and its module imported. -/
theorem goes_importing (hl : E.Fine l) : E.Goes ∅ {m | E.record l.heap m = none} l (l.importing path) := by
  obtain ⟨m, hnew, hdoes, -⟩ := E.importModule_does l.moduleLoader hl.sound
  unfold Loc.importing
  have hfile := E.file l.host
  rcases hread : P.readFile path l.host with ⟨_ | text, host⟩ <;> rw [hread] at hfile <;> cases hfile
  have hgoes : E.Goes ∅ {m} l ({ l with host }.answers (P.importModule source path l.moduleLoader l.heap)) :=
    goes_answer hl rfl (hdoes.mono (Set.Subset.refl _) (Set.Subset.refl _) fun _ _ hx => hx.2.2.1)
  exact hgoes.mono (Set.Subset.refl _) (Set.singleton_subset_iff.mpr hnew)

end Exits

/-! ## The table -/

section Table

variable (E) (own : Ptr → Option JSVal) (h : P.Heap)

/-- The properties that a call assigns. -/
def assigned : {β : Type} → Call β → Set (JSVal × PropKey)
  | _, .valueSetProperty p (some name) _ => {q | own p = some q.1 ∧ q.2 = .ofCString name}
  | _, .valueSetIndex p index _ => {q | own p = some q.1 ∧ q.2 = .ofIndex (uint32 index).toNat}
  | _, _ => ∅

/-- The records whose code a call can run. -/
def running : {β : Type} → Call β → Set Nat
  | _, .runtimeImportModule _ _ => {m | E.record h m = none}
  | _, .valueSetProperty p (some name) _ =>
    {_m | ∀ x, own p = some x → E.Made h x → E.Intercepts h x (.ofCString name)}
  | _, .valueToNumber _ | _, .valueToString _ | _, .valueIsArray _ | _, .valueArrayLength _
  | _, .valueSetIndex _ _ _ | _, .valueCall _ _ _ _ | _, .valueConstruct _ _ _ => Set.univ
  | _, _ => ∅

/-- No script, no global, no other file, reads of own data properties only, and the runtime is kept. -/
def Visits : {β : Type} → Call β → Prop
  | _, .runtimeDestroy _ | _, .runtimeEvalValue _ _ | _, .runtimeGetGlobalProperty _ _ => False
  | _, .runtimeImportModule _ file => ∀ f, file = some f → f = path
  | _, .valueGetProperty p name => ∀ x s, own p = some x → name = some s →
    (E.data h x (.ofCString s)).isSome = true
  | _, .valueGetIndex p index => ∀ x, own p = some x → 0 ≤ index →
    (E.data h x (.ofIndex (uint32 index).toNat)).isSome = true
  | _, _ => True

end Table

section Calls

variable {own : Ptr → Option JSVal} {l : Loc P}

theorem named_ok {name : Option CStr} {message : String} {s : CStr} (h : named name message = .ok s) :
    name = some s := by
  cases name with
  | none => cases h
  | some s' =>
    cases h
    rfl

theorem indexed_ok {index : Int} {i : UInt32} (h : indexed index = .ok i) : 0 ≤ index ∧ i = uint32 index := by
  unfold indexed at h
  by_cases hneg : index < 0
  · rw [if_pos hneg] at h
    cases h
  · rw [if_neg hneg] at h
    cases h
    exact ⟨by omega, rfl⟩

theorem valueFrom_tame {q : Ptr} {message : String} {y : JSVal}
    (htame : ∀ p x, own p = some x → E.Tame l.heap x) (hy : valueFrom own q message = .ok y) :
    E.Tame l.heap y := by
  unfold valueFrom at hy
  cases hq : own q with
  | none =>
    rw [hq] at hy
    cases hy
  | some z =>
    rw [hq] at hy
    cases hy
    exact htame q _ hq

theorem thisFrom_tame {q : Ptr} {this : JSVal} (htame : ∀ p x, own p = some x → E.Tame l.heap x)
    (hthis : thisFrom own q = .ok this) : E.Tame l.heap this := by
  unfold thisFrom at hthis
  by_cases hq : q.isNone = true
  · rw [if_pos hq] at hthis
    cases hthis
    exact E.primitive_tame rfl
  · rw [if_neg hq] at hthis
    exact valueFrom_tame htame hthis

theorem mapM_tame {xs : List Ptr} {argv : List JSVal}
    (htame : ∀ p x, own p = some x → E.Tame l.heap x) (h : xs.mapM own = some argv) :
    ∀ a ∈ argv, E.Tame l.heap a := by
  induction xs generalizing argv with
  | nil =>
    cases h
    simp
  | cons p xs ih =>
    rw [List.mapM_cons] at h
    obtain ⟨x, hx, h⟩ := Option.bind_eq_some_iff.mp h
    obtain ⟨rest, hrest, h⟩ := Option.bind_eq_some_iff.mp h
    cases h
    intro a ha
    rcases List.mem_cons.mp ha with rfl | ha
    · exact htame p _ hx
    · exact ih hrest a ha

theorem argvFrom_tame {args : Option (List Ptr)} {n : Int} {argv : List JSVal}
    (htame : ∀ p x, own p = some x → E.Tame l.heap x) (h : argvFrom own args n = .ok argv) :
    ∀ a ∈ argv, E.Tame l.heap a := by
  unfold argvFrom at h
  split at h
  · cases h
  split at h
  · cases h
  split at h
  · cases h
  · rename_i hmap
    cases h
    exact mapM_tame htame hmap

/-- The read of an own data property. -/
theorem get_does {x : JSVal} {k : PropKey} (hl : E.Fine l) (hx : E.Tame l.heap x)
    (hdata : (E.data l.heap x k).isSome = true) :
    E.Does ∅ ∅ l.heap (P.getProperty x k l.heap) fun y h' => E.Tame h' y := by
  obtain ⟨y, hy⟩ := Option.isSome_iff_exists.mp hdata
  refine (E.get hl.sound hx hy).mono (Set.Subset.refl _) (Set.Subset.refl _) fun z h' ⟨hz, htame⟩ => ?_
  rwa [hz]

/-- An assignment to a property of the value `x` of the handle `p`. -/
theorem assign_does {p : Ptr} {x y : JSVal} (s : CStr) (hl : E.Fine l) (hp : own p = some x)
    (hx : E.Tame l.heap x) (hy : E.Tame l.heap y) :
    E.Does {q | own p = some q.1 ∧ q.2 = .ofCString s}
      {_m | ∀ x, own p = some x → E.Made l.heap x → E.Intercepts l.heap x (.ofCString s)} l.heap
      (P.setProperty x (.ofCString s) y l.heap) fun _ _ => True := by
  have hwrites : {(x, PropKey.ofCString s)} ⊆ {q : JSVal × PropKey | own p = some q.1 ∧ q.2 = .ofCString s} :=
    Set.singleton_subset_iff.mpr ⟨hp, rfl⟩
  by_cases hfree : E.Made l.heap x ∧ ¬ E.Intercepts l.heap x (.ofCString s)
  · exact (E.set_made hl.sound hfree.1 hy hfree.2).mono hwrites (Set.empty_subset _) fun _ _ h => h
  · refine (E.set (.ofCString s) hl.sound hx hy).mono hwrites (fun m _ => ?_) fun _ _ h => h
    intro z hz hmade
    rw [hp] at hz
    cases hz
    exact not_not.mp fun hno => hfree ⟨hmade, hno⟩

/-- Every call that visits own data only goes by the table. -/
theorem outcome_goes {β : Type} {call : Call β} (hl : E.Fine l)
    (htame : ∀ p x, own p = some x → E.Tame l.heap x) (hv : E.Visits own l.heap call) :
    E.Goes (assigned own call) (E.running own l.heap call) l (call.outcome own l) := by
  cases call with
  | runtimeDestroy _ => cases hv
  | runtimeCreate | valueDestroy _ | bridgeFreeString _ | runtimeLastError _ =>
    exact goes_still hl rfl rfl (by simp) (by simp) (by simp)
  | runtimeEnableStdModule _ => exact goes_enabling hl
  | runtimeEvalValue _ _ => cases hv
  | runtimeGetGlobalProperty _ _ => cases hv
  | runtimeNewBool _ _ | runtimeNewNumber _ _ =>
    refine goes_still hl rfl rfl (by simp) (fun x hx => ?_) (by simp)
    cases hx
    rfl
  | runtimeNewString _ value =>
    refine goes_check hl fun s _ => goes_answer hl rfl ?_
    refine (newJSString_does hl.sound s).mono (Set.Subset.refl _) (Set.Subset.refl _) fun y h hy => ?_
    rw [hy]
    exact E.primitive_tame rfl
  | runtimeNewBigint _ value => exact goes_check hl fun s _ => goes_newBigint hl s
  | runtimeImportModule _ file =>
    refine goes_check hl fun s hs => ?_
    obtain rfl := hv s (named_ok hs)
    exact goes_importing hl
  | valueKind p | valueToBool p =>
    exact goes_target hl fun x _ => goes_still hl rfl rfl (by simp) (by simp) (by simp)
  | valueToNumber p => exact goes_target hl fun x hx => goes_numbered hl (htame p x hx)
  | valueToString p => exact goes_target hl fun x hx => goes_toText hl (htame p x hx)
  | valueIsArray p =>
    refine goes_target hl fun x hx => ?_
    have hdoes := E.isArray hl.sound (htame p x hx)
    refine goes_done ?_ (after_exception hl rfl hdoes) (by simp)
    rw [Loc.after_heap]
    exact hdoes.step
  | valueArrayLength p => exact goes_target hl fun x hx => goes_arrayLength hl (htame p x hx)
  | valueGetProperty p name =>
    refine goes_target hl fun x hx => goes_check hl fun s hs => ?_
    exact goes_answer hl rfl (get_does hl (htame p x hx) (hv x s hx (named_ok hs)))
  | valueSetProperty p name q =>
    refine goes_target hl fun x hx => goes_check hl fun s hs => goes_check hl fun y hy => ?_
    obtain rfl := named_ok hs
    exact goes_status hl rfl (assign_does s hl hx (htame p x hx) (valueFrom_tame htame hy))
  | valueGetIndex p index =>
    refine goes_target hl fun x hx => goes_check hl fun i hi => ?_
    obtain ⟨hindex, rfl⟩ := indexed_ok hi
    exact goes_answer hl rfl (get_does hl (htame p x hx) (hv x hx hindex))
  | valueSetIndex p index q =>
    refine goes_target hl fun x hx => goes_check hl fun i hi => goes_check hl fun y hy => ?_
    obtain ⟨-, rfl⟩ := indexed_ok hi
    have hset := E.set (.ofIndex (uint32 index).toNat) hl.sound (htame p x hx) (valueFrom_tame htame hy)
    exact goes_status hl rfl (hset.mono (Set.singleton_subset_iff.mpr ⟨hx, rfl⟩) (Set.Subset.refl _)
      fun _ _ h => h)
  | valueCall p q args n =>
    refine goes_target hl fun f hf => goes_check hl fun this hthis => goes_check hl fun argv hargv => ?_
    refine goes_answer hl ?_ (E.call hl.sound (htame p f hf) (thisFrom_tame htame hthis)
      (argvFrom_tame htame hargv))
    unfold Loc.started
    split <;> rfl
  | valueConstruct p args n =>
    refine goes_target hl fun f hf => goes_check hl fun argv hargv => ?_
    refine goes_answer hl ?_ (E.construct hl.sound (htame p f hf) (argvFrom_tame htame hargv))
    unfold Loc.started
    split <;> rfl

end Calls

end ModuleEngine

/-! ## Handles before and after a call -/

section Handles

variable {c : Client} {r r' q : Nat} {w w' : World P} {y : JSVal}

/-- A handle that a call gives is seen as its value. -/
theorem Call.On.seen_given {β : Type} {call : Call β} {x : β} {p : Nat} (hon : call.On w r)
    (hp : call.given x = some p) (w' : World P) : call.seen r w' x = .handle (w'.valueOf r (some p)) := by
  cases call <;> first | exact hon.elim | (cases hp; rfl) | cases hp

/-- A handle after a call is one before it, or the one that the call gave. -/
theorem Did.holds {β : Type} {call : Call β} {x : β} (h : Did r' w call x w') (hq : w'.Holds q r y) :
    w.Holds q r y ∨ r = r' ∧ call.On w r' ∧ call.seen r' w' x = .handle (some y) := by
  cases h with
  | null hn => exact .inl hq
  | on hl hon hs =>
    have hrest := hs.2
    obtain ⟨b', L, ⟨e, -, hw⟩, ⟨-, rfl⟩ | ⟨z, t, hp, rfl⟩⟩ := hrest
    · exact .inl (by rwa [World.Holds, hw.values] at hq)
    · by_cases hnew : q = w.nextValue
      · subst hnew
        obtain ⟨u, hu⟩ := hq
        have hz : w'.values w.nextValue = some ⟨some r', .ref z t⟩ := by
          rw [hw.values]
          simp [World.addValue]
        rw [hz] at hu
        cases hu
        exact .inr ⟨rfl, hon, by rw [hon.seen_given hp, World.Holds.valueOf ⟨t, hz⟩]⟩
      · exact .inl (by rwa [World.Holds, hs.values_of_ne hnew] at hq)
  | notCreated host n => exact .inl hq
  | created heap host hr => exact .inl hq
  | destroyed hl hs => exact .inl (by rwa [World.Holds, hs.values] at hq)
  | @dropped p z l L _ hp hl hs =>
    rw [World.Holds, hs.values] at hq
    by_cases hqp : q = p
    · subst hqp
      obtain ⟨u, hu⟩ := hq
      simp [World.dropValue] at hu
    · exact .inl (by rwa [dropValue_values_of_ne hqp] at hq)
  | freed s L => exact .inl hq

/-- The call gives the handle `q` back. -/
def Call.Drops (q : Nat) : {β : Type} → Call β → Prop
  | _, .valueDestroy p => p = some q
  | _, _ => False

/-- A handle stays until it is given back. -/
theorem Inv.holds_after {β : Type} {call : Call β} {x : β} (hinv : Inv c w) (h : Did r' w call x w')
    (hq : w.Holds q r y) (hd : ¬ call.Drops q) : w'.Holds q r y := by
  have hne : q ≠ w.nextValue := by
    obtain ⟨t, ht⟩ := hq
    exact hinv.ne_nextValue ht
  cases h with
  | null hn => exact hq
  | on hl hon hs => rwa [World.Holds, hs.values_of_ne hne]
  | notCreated host n => exact hq
  | created heap host hr => exact hq
  | destroyed hl hs => rwa [World.Holds, hs.values]
  | dropped hp hl hs =>
    rw [World.Holds, hs.values, dropValue_values_of_ne]
    · exact hq
    · rintro rfl
      exact hd rfl
  | freed s L => exact hq

end Handles

namespace ModuleEngine

open ModuleView

variable {source : List UInt8} {path : CStr} {E : ModuleEngine P source path}
variable {c : Client} {r r' : Nat} {w w' : World P} {l : Loc P}

/-! ## One runtime -/

/-- The runtime `r` is in use, its heap is sound, and its handles denote tame values. -/
structure Kept (E : ModuleEngine P source path) (r : Nat) (c : Client) (w : World P) : Prop where
  inv : Inv c w
  runtime : r ∈ c.runtimes
  inUse : r ∉ c.destroyed
  fine : ∀ l, w.loc? r = some l → E.Fine l
  tame : ∀ l p x, w.loc? r = some l → w.Holds p r x → E.Tame l.heap x

/-- The condition on a call in the world `w`. -/
def VisitsIn (E : ModuleEngine P source path) (r : Nat) (w : World P) {β : Type} (call : Call β) : Prop :=
  ∀ l, w.loc? r = some l → E.Visits (w.valueOf r) l.heap call

theorem Kept.loc (h : E.Kept r c w) : ∃ l, w.loc? r = some l := by
  obtain ⟨l, -, -, hl⟩ := h.inv.run (Client.open_of_runtime h.runtime h.inUse)
  exact ⟨l, hl.loc?⟩

theorem Kept.own_tame (h : E.Kept r c w) (hl : w.loc? r = some l) {p : Ptr} {x : JSVal}
    (hp : w.valueOf r p = some x) : E.Tame l.heap x := by
  obtain ⟨q, t, ht⟩ : ∃ q t, w.values q = some ⟨some r, .ref x t⟩ := by
    unfold World.valueOf at hp
    split at hp
    · rename_i r' y t hb
      obtain ⟨q, -, hq⟩ := Option.bind_eq_some_iff.mp hb
      split at hp
      · rename_i heq
        cases hp
        subst heq
        exact ⟨q, t, hq⟩
      · cases hp
    · cases hp
  exact h.tame l q x hl ⟨t, ht⟩

/-- A visit keeps the runtime. -/
theorem Visits.client {own : Ptr → Option JSVal} {h : P.Heap} {β : Type} {call : Call β} {x : β}
    (hv : E.Visits own h call) (hr : r ∈ c.runtimes) (hd : r ∉ c.destroyed) :
    r ∈ (c.after r' call x).runtimes ∧ r ∉ (c.after r' call x).destroyed := by
  have hgive (p : Ptr) : r ∈ (c.give r' p).runtimes ∧ r ∉ (c.give r' p).destroyed := by
    cases p <;> exact ⟨hr, hd⟩
  cases call with
  | runtimeDestroy _ => cases hv
  | runtimeCreate =>
    cases x with
    | none => exact ⟨hr, hd⟩
    | some p => exact ⟨Finset.mem_insert_of_mem hr, hd⟩
  | valueDestroy p => cases p <;> exact ⟨hr, hd⟩
  | bridgeFreeString s => cases s <;> exact ⟨hr, hd⟩
  | valueToString p => cases x <;> exact ⟨hr, hd⟩
  | _ => first | exact hgive x | exact ⟨hr, hd⟩

/-- One call of a visit, by the table. -/
theorem Kept.call {β : Type} {call : Call β} {x : β} (h : E.Kept r c w) (allowed : c.Allows r' call)
    (ran : call.run.run w = .ok (x, w')) (hl : w.loc? r = some l) (hv : E.Visits (w.valueOf r) l.heap call) :
    ∃ l', w'.loc? r = some l' ∧ E.Kept r (c.after r' call x) w' ∧
      E.Step (assigned (w.valueOf r) call) (E.running (w.valueOf r) l.heap call) l.heap l'.heap := by
  have hdid := h.inv.did allowed ran
  have hinv : Inv (c.after r' call x) w' := (Step.inv h.inv (Step.call call allowed ran)).1
  have hclient : r ∈ (c.after r' call x).runtimes ∧ r ∉ (c.after r' call x).destroyed :=
    Visits.client hv h.runtime h.inUse
  obtain ⟨hr, hd⟩ := hclient
  obtain ⟨l', -, -, hl'⟩ := hinv.run (Client.open_of_runtime hr hd)
  have hloc := hl'.loc?
  have hfine := h.fine l hl
  refine ⟨l', hloc, ?_⟩
  by_cases hon : r' = r ∧ call.On w r
  · -- a call on the runtime goes by the table
    obtain ⟨rfl, hon⟩ := hon
    have hs := h.inv.shows hl hon ran
    have hgoes := outcome_goes hfine (fun p x hp => h.own_tame hl hp) hv
    obtain ⟨hstep, hfine', hvalue⟩ := hgoes.finish call.fail (by cases call <;> simp [Call.fail])
    have heq : l' = (call.effect (w.valueOf r') l).2 := Option.some.inj (hloc.symm.trans hs.loc?)
    subst heq
    refine ⟨⟨hinv, hr, hd, fun l₁ hl₁ => ?_, fun l₁ p y hl₁ hp => ?_⟩, hstep⟩
    · cases hloc.symm.trans hl₁
      exact hfine'
    · cases hloc.symm.trans hl₁
      obtain hold | ⟨-, -, hseen⟩ := hdid.holds hp
      · exact hstep.tame y (h.tame l p y hl hold)
      · exact hvalue y (hs.1.symm.trans hseen)
  · -- any other call leaves the runtime
    have hcore : l'.core = l.core := by
      obtain ⟨hnone, -⟩ | hsame | ⟨hrr, hon', -⟩ := hdid.core? (World.core?_of_loc hloc)
      · simp [World.loc?, hnone] at hl
      · exact Option.some.inj (hsame.symm.trans (World.core?_of_loc hl))
      · subst hrr
        exact absurd ⟨rfl, hon'⟩ hon
    have hheap : l'.heap = l.heap := congrArg Core.heap hcore
    have hexc : l'.exception = l.exception := congrArg Core.exception hcore
    refine ⟨⟨hinv, hr, hd, fun l₁ hl₁ => ?_, fun l₁ p y hl₁ hp => ?_⟩, ?_⟩
    · cases hloc.symm.trans hl₁
      exact ⟨hheap ▸ hfine.sound, fun y hy => by rw [hheap]; exact hfine.exception y (hexc ▸ hy)⟩
    · cases hloc.symm.trans hl₁
      rw [hheap]
      obtain hold | ⟨hrr, hon', -⟩ := hdid.holds hp
      · exact h.tame l p y hl hold
      · subst hrr
        exact absurd ⟨rfl, hon'⟩ hon
    · rw [hheap]
      exact .refl hfine.sound

end ModuleEngine

end InteropJs
