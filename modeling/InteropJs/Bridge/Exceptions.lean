import InteropJs.Bridge.Effect

/-!
# Pending exceptions

An engine call that fails leaves its exception in the slot of the runtime, and `JS_GetException` takes
it out.

* `capture_exception` takes the exception of the call that failed, and formats it: the string
  conversion may throw again (`Loc.Formats`).
* `js_value_to_number`, `js_value_to_string`, `js_value_array_length` and `js_value_is_array` report a
  failed conversion and leave its exception where it is.
* `js_runtime_new_bigint` does not test the lookup of `BigInt`.

`Call.Drains` says which calls do none of this, and `exceptions_drained` that it is exact.
-/

namespace InteropJs

open Hoare

variable {P : Platform}

/-- An engine call that threw no exception. -/
def Completes {α : Type} (out : Except JSVal α × P.Heap) : Prop := out.1.toOption.isSome = true

instance {α : Type} (out : Except JSVal α × P.Heap) : Decidable (Completes out) :=
  inferInstanceAs (Decidable (_ = true))

/-- The pending exception can be formatted. -/
def Loc.Formats (l : Loc P) : Prop :=
  Completes (P.toCString (l.exception.getD .uninitialized) l.heap)

/-- No exception of the call stays in the slot (module doc). -/
def Call.Drains (own : Ptr → Option JSVal) (l : Loc P) : {β : Type} → Call β → Prop
  | _, .valueToNumber p => ∀ x, own p = some x → Completes (P.toNumber x l.heap)
  | _, .valueToString p => ∀ x, own p = some x → Completes (P.toCString x l.heap)
  | _, .valueIsArray p => ∀ x, own p = some x → Completes (P.isArray x l.heap)
  | _, .valueArrayLength p => ∀ x, own p = some x →
    match P.getProperty x (.ofCString (utf8 "length")) l.heap with
    | (.ok n, h) => Completes (P.toNumber n h)
    | (.error e, h) => Completes (P.toCString e h)
  | _, .runtimeNewBigint p (some s) =>
    match Call.outcome own l (.runtimeNewBigint p (some s)) with
    | (.raise, l') => l'.Formats
    | _ => Completes (P.getProperty (P.globalObject l.heap) (.ofCString (utf8 "BigInt")) l.heap)
  | _, call => (call.outcome own l).1 = .raise → (call.outcome own l).2.Formats

/-! ## The exits -/

/-- The slot is empty after the exit `out`. -/
def Drained (out : Outcome × Loc P) : Prop :=
  match out with
  | (.raise, l) => l.Formats
  | (_, l) => l.exception = none

theorem capture_exception_eq_none (l : Loc P) : l.capture.exception = none ↔ l.Formats := by
  unfold Loc.capture Loc.Formats Completes
  rcases P.toCString (l.exception.getD .uninitialized) l.heap with ⟨_ | _, _⟩ <;>
    simp [Loc.setError, Except.toOption]

theorem finish_exception_eq_none (fail : Seen) (out : Outcome × Loc P) :
    (Loc.finish fail out).2.exception = none ↔ Drained out := by
  obtain ⟨_ | _ | x | _, l⟩ := out
  · exact Iff.rfl
  · exact capture_exception_eq_none l
  · simp only [Loc.finish, Drained]
    split <;> exact Iff.rfl
  · exact Iff.rfl

/-- Only an exit with an exception leaves one pending. -/
def Clean (out : Outcome × Loc P) : Prop := out.1 ≠ .raise → out.2.exception = none

theorem Clean.drained_iff {out : Outcome × Loc P} (h : Clean out) :
    Drained out ↔ (out.1 = .raise → out.2.Formats) := by
  obtain ⟨_ | _ | x | _, l⟩ := out
  · simpa [Drained, Clean] using h
  · exact ⟨fun hf _ => hf, fun hf => hf rfl⟩
  · simpa [Drained, Clean] using h
  · simpa [Drained, Clean] using h

section Clean

variable {l : Loc P}

theorem clean_check {α : Type} {check : Except CStr α} {k : α → Outcome × Loc P}
    (hl : l.exception = none) (hk : ∀ a, Clean (k a)) : Clean (l.check check k) := by
  cases check with
  | error m => exact fun _ => hl
  | ok a => exact hk a

theorem clean_target {x : Option JSVal} {k : JSVal → Outcome × Loc P} (hl : l.exception = none)
    (hk : ∀ x, Clean (k x)) : Clean (l.target x k) := by
  cases x with
  | none => exact fun _ => hl
  | some x => exact hk x

theorem clean_answer {out : Except JSVal JSVal × P.Heap} (hl : l.exception = none) :
    Clean (.answer out.1.toOption, l.after out) := by
  rcases out with ⟨_ | _, _⟩
  · exact fun h => absurd rfl h
  · exact fun _ => hl

theorem clean_answers {out : Except JSVal JSVal × P.Heap} (hl : l.exception = none) :
    Clean (l.answers out) :=
  clean_answer (l := l.clearError) hl

theorem clean_reports {α : Type} {out : Except JSVal α × P.Heap} (hl : l.exception = none) :
    Clean (l.reports out) := by
  rcases out with ⟨_ | _, _⟩
  · exact fun h => absurd rfl h
  · exact fun _ => hl

theorem clean_started {f : JSVal} {runs : Bool} {out : Except JSVal JSVal × P.Heap}
    (hl : l.exception = none) : Clean (.answer out.1.toOption, (l.started f runs).after out) := by
  refine clean_answer ?_
  cases runs <;> exact hl

theorem clean_enabling (hl : l.exception = none) : Clean l.enabling := by
  unfold Loc.enabling
  split
  · exact fun _ => hl
  · rcases P.initModuleStd l.heap with ⟨_ | _, _⟩
    · exact fun h => absurd rfl h
    · exact fun _ => hl

theorem clean_importing (hl : l.exception = none) (path : CStr) : Clean (l.importing path) := by
  unfold Loc.importing
  rcases P.readFile path l.host with ⟨_ | source, host⟩
  · exact fun _ => hl
  · exact clean_answers (l := { l with host }) hl

end Clean

/-! ## The calls -/

section Calls

variable {l : Loc P} {own : Ptr → Option JSVal}

/-- A conversion of the target that goes through the slot. -/
theorem drained_target {p : Ptr} {k : JSVal → Outcome × Loc P} {φ : JSVal → Prop}
    (hl : l.exception = none) (hk : ∀ x, Drained (k x) ↔ φ x) :
    Drained (l.target (own p) k) ↔ ∀ x, own p = some x → φ x := by
  cases hp : own p with
  | none => exact ⟨fun _ x hx => (by cases hx), fun _ => hl⟩
  | some y =>
    refine (hk y).trans ⟨fun hy x hx => ?_, fun h => h y rfl⟩
    cases hx
    exact hy

theorem drained_numbered (hl : l.exception = none) (x : JSVal) :
    Drained (l.numbered x) ↔ Completes (P.toNumber x l.heap) := by
  unfold Loc.numbered
  rcases P.toNumber x l.heap with ⟨_ | _, _⟩ <;> simp [Drained, Completes, Loc.setError, Except.toOption, hl]

theorem drained_toText (hl : l.exception = none) (x : JSVal) :
    (l.toText x).2.exception = none ↔ Completes (P.toCString x l.heap) := by
  unfold Loc.toText
  rcases P.toCString x l.heap with ⟨_ | _, _⟩
  · simp [Completes, Loc.setError, Except.toOption]
  · dsimp only
    split <;> simp [Completes, Loc.setError, Except.toOption, hl]

theorem drained_isArray (hl : l.exception = none) (x : JSVal) :
    (l.after (P.isArray x l.heap)).exception = none ↔ Completes (P.isArray x l.heap) := by
  rcases P.isArray x l.heap with ⟨_ | _, _⟩ <;> simp [Completes, Except.toOption, hl]

theorem drained_arrayLength (hl : l.exception = none) (x : JSVal) :
    (l.arrayLength x).2.exception = none ↔
      match P.getProperty x (.ofCString (utf8 "length")) l.heap with
      | (.ok n, h) => Completes (P.toNumber n h)
      | (.error e, h) => Completes (P.toCString e h) := by
  unfold Loc.arrayLength
  rcases P.getProperty x (.ofCString (utf8 "length")) l.heap with ⟨e | n, h⟩
  · exact capture_exception_eq_none { l with heap := h, exception := some e }
  · dsimp only
    rcases P.toNumber n h with ⟨_ | _, _⟩ <;> simp [Completes, Loc.setError, Except.toOption, hl]

/-- A call of `BigInt` that returned says nothing about the slot: it is the one after the lookup. -/
theorem callBigint_exception {f x : JSVal} {s : CStr} (h : (l.callBigint f s).1 = some x) :
    (l.callBigint f s).2.exception = l.exception := by
  unfold Loc.callBigint at h ⊢
  rcases hs : P.newJSString s l.heap with ⟨_ | a, h₁⟩ <;> rw [hs] at h
  · cases h
  · dsimp only at h ⊢
    rcases hc : P.call f .undefined [a] h₁ with ⟨_ | _, _⟩ <;> rw [hc] at h
    · cases h
    · cases f.callRuns <;> rfl

theorem drained_newBigint (hl : l.exception = none) (p : Ptr) (s : CStr) :
    Drained (Call.outcome own l (.runtimeNewBigint p (some s))) ↔
      Call.Drains own l (.runtimeNewBigint p (some s)) := by
  simp only [Call.Drains, Call.outcome, named, Loc.check]
  cases hx : (l.clearError.newBigint s).1 with
  | none => exact Iff.rfl
  | some x =>
    simp only [Outcome.answer, Drained]
    rw [show (l.clearError.newBigint s).2.exception = _ from callBigint_exception hx]
    unfold Completes
    rcases hlook : P.getProperty (P.globalObject l.heap) (.ofCString (utf8 "BigInt")) l.heap with
      ⟨_ | _, _⟩ <;> simp [Loc.after, Loc.clearError, Except.toOption, hl, hlook]

/-- From an empty slot, a call leaves an empty slot exactly when it drains. -/
theorem Call.effect_exception {β : Type} (call : Call β) (hl : l.exception = none) :
    (call.effect own l).2.exception = none ↔ call.Drains own l := by
  refine (finish_exception_eq_none _ _).trans ?_
  cases call with
  | runtimeCreate => exact Clean.drained_iff fun _ => hl
  | runtimeDestroy _ => exact Clean.drained_iff fun _ => hl
  | valueDestroy _ => exact Clean.drained_iff fun _ => hl
  | bridgeFreeString _ => exact Clean.drained_iff fun _ => hl
  | runtimeLastError _ => exact Clean.drained_iff fun _ => hl
  | runtimeEnableStdModule _ => exact (clean_enabling hl).drained_iff
  | runtimeEvalValue _ _ => exact (clean_check hl fun _ => clean_answers hl).drained_iff
  | runtimeGetGlobalProperty _ _ => exact (clean_check hl fun _ => clean_answers hl).drained_iff
  | runtimeNewBool _ _ => exact Clean.drained_iff fun _ => hl
  | runtimeNewNumber _ _ => exact Clean.drained_iff fun _ => hl
  | runtimeNewString _ _ => exact (clean_check hl fun _ => clean_answers hl).drained_iff
  | runtimeNewBigint p value =>
    cases value with
    | none => exact Clean.drained_iff fun _ => hl
    | some s => exact drained_newBigint hl p s
  | runtimeImportModule _ _ => exact (clean_check hl fun path => clean_importing hl path).drained_iff
  | valueKind _ => exact (clean_target hl fun _ _ => hl).drained_iff
  | valueToBool _ => exact (clean_target hl fun _ _ => hl).drained_iff
  | valueToNumber _ => exact drained_target hl (drained_numbered hl)
  | valueToString _ => exact drained_target hl (drained_toText hl)
  | valueIsArray _ => exact drained_target hl (drained_isArray hl)
  | valueArrayLength _ => exact drained_target hl (drained_arrayLength hl)
  | valueGetProperty _ _ =>
    exact (clean_target hl fun _ => clean_check hl fun _ => clean_answers hl).drained_iff
  | valueSetProperty _ _ _ =>
    exact (clean_target hl fun _ => clean_check hl fun _ => clean_check hl fun _ =>
      clean_reports hl).drained_iff
  | valueGetIndex _ _ =>
    exact (clean_target hl fun _ => clean_check hl fun _ => clean_answers hl).drained_iff
  | valueSetIndex _ _ _ =>
    exact (clean_target hl fun _ => clean_check hl fun _ => clean_check hl fun _ =>
      clean_reports hl).drained_iff
  | valueCall _ _ _ _ =>
    exact (clean_target hl fun _ => clean_check hl fun _ => clean_check hl fun _ =>
      clean_started (l := l.clearError) hl).drained_iff
  | valueConstruct _ _ _ =>
    exact (clean_target hl fun _ => clean_check hl fun _ =>
      clean_started (l := l.clearError) hl).drained_iff

end Calls

/-! ## All runs -/

/-- The call drains in the world in which it is made. -/
def Call.DrainsIn (w : World P) {β : Type} (call : Call β) : Prop :=
  ∀ r l, call.On w r → w.loc? r = some l → call.Drains (w.valueOf r) l

/-- In every state of every run whose calls all drain, the slot of every runtime is empty. The
condition is exact: a call on an empty slot leaves it empty if and only if it drains. -/
theorem exceptions_drained :
    (∀ (c : Client) (w : World P), ReachIf (fun w _ call => call.DrainsIn w) c w →
      ∀ r l, w.loc? r = some l → l.exception = none) ∧
    ∀ (c : Client) (w w' : World P) (r : Nat) (l : Loc P) (β : Type) (call : Call β) (x : β),
      Reach c w → call.On w r → w.loc? r = some l → l.exception = none →
      call.run.run w = .ok (x, w') →
      ∃ l', w'.loc? r = some l' ∧ (l'.exception = none ↔ call.Drains (w.valueOf r) l) := by
  refine ⟨fun c w h r l hl => ?_, fun c w w' r l β call x h hon hl hnone hrun => ?_⟩
  · refine h.core (φ := fun k => k.exception = none) (fun _ => rfl) ?_ (fun _ _ h => h) r l.core
      (World.core?_of_loc hl)
    exact fun w r l _ call hgood hon hl hnone => (call.effect_exception hnone).mpr (hgood r l hon hl)
  · exact ⟨_, (h.inv.shows hl hon hrun).loc?, call.effect_exception hnone⟩

/-- An engine in which every script evaluates to one object, whose `valueOf` throws `undefined`. -/
def valueOfPlatform : Platform :=
  { Platform.idle Nat 0 with eval := fun _ h => (.ok (.object 1), h) }

/-- A run that evaluates a script. -/
theorem valueOf_reach : ∃ w : World valueOfPlatform,
    ReachIf (fun w _ call => call.DrainsIn w)
      { runtimes := {0}, destroyed := ∅, live := {(0, 0)}, strings := 0 } w ∧
    ∃ l, w.loc? 0 = some l ∧ ∃ w' l', (jsValueToNumber (some 0)).run w = .ok (.finite 0, w') ∧
      w'.loc? 0 = some l' ∧ l'.exception = some .undefined := by
  have h₀ : ReachIf (fun (w : World valueOfPlatform) _ call => call.DrainsIn w) _ _ := ReachIf.start ()
  have h₁ := h₀.call (r := 0) .runtimeCreate trivial (fun _ _ hon _ => by cases hon) rfl
  have h₂ := h₁.call (r := 0) (.runtimeEvalValue (some 0) (some [])) (.inr ⟨rfl, by decide, by decide⟩)
    (fun r l _ _ h => by cases h) rfl
  exact ⟨_, h₂, _, rfl, _, _, rfl, rfl, rfl⟩

theorem exceptions_drained_valueOf : ∃ (c : Client) (w : World valueOfPlatform) (l : Loc valueOfPlatform),
    ReachIf (fun w _ call => call.DrainsIn w) c w ∧ c.live = {(0, 0)} ∧ w.loc? 0 = some l ∧
      l.exception = none := by
  obtain ⟨w, h, l, hl, -⟩ := valueOf_reach
  exact ⟨_, w, l, h, rfl, hl, exceptions_drained.1 _ w h 0 l hl⟩

/-- A failed conversion leaves its exception in the slot. -/
theorem conversion_leaves_exception : ¬ ∀ (c : Client) (w : World valueOfPlatform), Reach c w →
    ∀ r l, w.loc? r = some l → l.exception = none := by
  intro hall
  obtain ⟨w, h, -, -, w', l', hrun, hl', hpending⟩ := valueOf_reach
  have h' := h.reach.call (r := 0) (.valueToNumber (some 0)) (.inr ⟨0, rfl, by decide⟩) hrun
  rw [hall _ w' h' 0 l' hl'] at hpending
  cases hpending

end InteropJs
