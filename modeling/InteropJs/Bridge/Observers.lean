import InteropJs.Bridge.Exceptions

/-!
# The observers of a value

Five functions read a value and have no result of their own for a failure: what they return is also a
legal answer, so a client has to ask `js_runtime_last_error`. None of them clears the error first.

* `Observer.Fails` says when the engine call of an observer fails.
* `Observer.Told` is what a client can tell after the call: there is an error exactly if the engine call
  failed, and then the result is the sentinel.
* `Observer.Tells` is a condition on the state before the call, and `observers_told_iff` says that it is
  exact. `js_value_is_array` never reports: `JS_IsArray` is -1 for a revoked Proxy, and -1 counts as true.
-/

namespace InteropJs

open Hoare

variable {P : Platform}

inductive Observer where
  | toBool
  | toNumber
  | toString
  | isArray
  | arrayLength

namespace Observer

/-- The type of its result. -/
def Out : Observer → Type
  | .toNumber => Float64
  | .toString => Option OwnedString
  | _ => Int

def call (p : Ptr) : (o : Observer) → Call o.Out
  | .toBool => .valueToBool p
  | .toNumber => .valueToNumber p
  | .toString => .valueToString p
  | .isArray => .valueIsArray p
  | .arrayLength => .valueArrayLength p

/-- The result that stands for a failure. -/
def Sentinel : (o : Observer) → o.Out → Prop
  | .toBool, i | .isArray, i => i = (0 : Int)
  | .toNumber, x => x = Float64.finite 0
  | .toString, s => s = (none : Option OwnedString)
  | .arrayLength, i => i = (-1 : Int)

/-- The engine call fails on the value `x` in the heap `h`. -/
def Fails (x : JSVal) (h : P.Heap) : Observer → Prop
  | .toBool => False
  | .toNumber => ¬ Completes (P.toNumber x h)
  | .toString => ¬ Completes (P.toCString x h)
  | .isArray => ¬ Completes (P.isArray x h)
  | .arrayLength =>
    match P.getProperty x (.ofCString (utf8 "length")) h with
    | (.ok n, h) => ¬ Completes (P.toNumber n h)
    | (.error _, _) => True

end Observer

/-- `js_runtime_last_error` shows no text. -/
def Loc.Silent (l : Loc P) : Prop := l.error.getD [] = []

/-- The next `malloc` gives memory. -/
def Loc.Room (l : Loc P) : Prop := (P.malloc l.host).1 = true

/-- What is kept of the exception `e` in the heap `h`, if it can be copied. -/
def Platform.errorText (P : Platform) (e : JSVal) (h : P.Heap) : CStr :=
  ((P.toCString e h).1.toOption.getD (utf8 "unknown QuickJS error")).text

/-- The state before the call lets the client tell (module doc). -/
def Observer.Tells (l : Loc P) (x : JSVal) : Observer → Prop
  | .toBool => l.Silent
  | .toNumber => if Completes (P.toNumber x l.heap) then l.Silent else l.Room
  | .toString =>
    if Completes (P.toCString x l.heap) then
      -- the copy of the text is made, or even the message that it is not has no memory
      if (P.malloc l.host).1 then l.Silent else (P.malloc (P.malloc l.host).2).1 = false
    else l.Room
  | .isArray => Completes (P.isArray x l.heap) ∧ l.Silent
  | .arrayLength =>
    match P.getProperty x (.ofCString (utf8 "length")) l.heap with
    | (.ok n, h) => if Completes (P.toNumber n h) then l.Silent else l.Room
    | (.error e, h) => l.Room ∧ P.errorText e h ≠ []

/-- After the call: `error` is not empty exactly if the engine call failed, and then the result is the
sentinel. -/
def Observer.Told (x : JSVal) (h : P.Heap) (o : Observer) (res : o.Out) (error : CStr) : Prop :=
  (error ≠ [] ↔ o.Fails x h) ∧ (o.Fails x h → o.Sentinel res)

/-! ## The error slot -/

theorem completes_ok {α : Type} (a : α) (h : P.Heap) : Completes ((.ok a, h) : Except JSVal α × P.Heap) :=
  rfl

theorem not_completes_error {α : Type} (e : JSVal) (h : P.Heap) :
    ¬ Completes ((.error e, h) : Except JSVal α × P.Heap) := by
  simp [Completes, Except.toOption]

section Slot

variable {l : Loc P}

/-- A message is shown exactly if it can be copied. -/
theorem setError_shows {message : CStr} (hm : message.text ≠ []) :
    (l.setError (some message)).error.getD [] ≠ [] ↔ l.Room := by
  unfold Loc.setError Loc.Room
  by_cases hroom : (P.malloc l.host).1 = true
  · simpa [hroom] using hm
  · simp [hroom]

theorem capture_shows {e : JSVal} {h : P.Heap} :
    ({ l with heap := h, exception := some e }.capture).error.getD [] ≠ [] ↔
      l.Room ∧ P.errorText e h ≠ [] := by
  unfold Loc.capture Loc.Room Platform.errorText
  rcases hout : P.toCString e h with ⟨x | text, h'⟩ <;> by_cases hroom : (P.malloc l.host).1 = true <;>
    simp [Loc.setError, Except.toOption, hout, hroom]

end Slot

/-! ## The five functions -/

section Observe

variable {l : Loc P} {x : JSVal} {own : Ptr → Option JSVal} {q : Nat}

/-- The state after an observer, and what its result is seen as. -/
def Observer.observed (l : Loc P) (x : JSVal) : Observer → Seen × Loc P
  | .toBool => (.int (if x.toBool then 1 else 0), l)
  | .toNumber => Loc.finish (.handle none) (l.numbered x)
  | .toString => (.text (l.toText x).1, (l.toText x).2)
  | .isArray => (.int (if (P.isArray x l.heap).1.toOption = some false then 0 else 1),
      l.after (P.isArray x l.heap))
  | .arrayLength => (.int (l.arrayLength x).1, (l.arrayLength x).2)

theorem Observer.effect_call (o : Observer) (hx : own (some q) = some x) :
    (o.call (some q)).effect own l = o.observed l x := by
  cases o <;> simp only [Call.effect, Observer.call, Call.outcome, hx, Loc.target] <;> rfl

/-- The sentinel as it is seen. -/
def Observer.sentinel : Observer → Seen
  | .toBool | .isArray => .int 0
  | .toNumber => .float (.finite 0)
  | .toString => .text none
  | .arrayLength => .int (-1)

theorem Observer.sentinel_iff (o : Observer) (res : o.Out) (r : Nat) (w : World P) :
    o.Sentinel res ↔ (o.call (some q)).seen r w res = o.sentinel := by
  cases o with
  | toBool | isArray | arrayLength => exact ⟨fun h => congrArg Seen.int h, Seen.int.inj⟩
  | toNumber => exact ⟨fun h => congrArg Seen.float h, Seen.float.inj⟩
  | toString =>
    have hmap : ∀ s : Option OwnedString, s = none ↔ s.map (·.bytes) = none := by simp
    exact (hmap res).trans ⟨fun h => congrArg Seen.text h, Seen.text.inj⟩

/-- A failure with the sentinel is told by a message. -/
theorem told_failed {error : CStr} {fails sentinel : Prop} (hf : fails) (hs : sentinel) :
    ((error ≠ [] ↔ fails) ∧ (fails → sentinel)) ↔ error ≠ [] := by
  simp [hf, hs]

/-- A success is told by no message. -/
theorem told_ok {error : CStr} {fails sentinel : Prop} (hf : ¬ fails) :
    ((error ≠ [] ↔ fails) ∧ (fails → sentinel)) ↔ error = [] := by
  simp [hf]

theorem told_toNumber (x : JSVal) :
    (((Observer.toNumber.observed l x).2.error.getD [] ≠ [] ↔ Observer.toNumber.Fails x l.heap) ∧
      (Observer.toNumber.Fails x l.heap → (Observer.toNumber.observed l x).1 = Observer.toNumber.sentinel)) ↔
    Observer.toNumber.Tells l x := by
  simp only [Observer.observed, Observer.Fails, Observer.Tells, Loc.numbered]
  rcases hout : P.toNumber x l.heap with ⟨e | y, h⟩
  · have hno := not_completes_error (α := Float64) e h
    rw [if_neg hno]
    refine (told_failed hno rfl).trans ?_
    exact setError_shows (l := { l with heap := h, exception := some e }) (by decide)
  · have hyes := completes_ok (P := P) y h
    rw [if_pos hyes]
    refine (told_ok (not_not.mpr hyes)).trans ?_
    rfl

theorem told_toString (x : JSVal) :
    (((Observer.toString.observed l x).2.error.getD [] ≠ [] ↔ Observer.toString.Fails x l.heap) ∧
      (Observer.toString.Fails x l.heap → (Observer.toString.observed l x).1 = Observer.toString.sentinel)) ↔
    Observer.toString.Tells l x := by
  simp only [Observer.observed, Observer.Fails, Observer.Tells, Loc.toText]
  rcases hout : P.toCString x l.heap with ⟨e | bytes, h⟩
  · have hno := not_completes_error (α := CStr) e h
    rw [if_neg hno]
    refine (told_failed hno rfl).trans ?_
    exact setError_shows (l := { l with heap := h, exception := some e }) (by decide)
  · have hyes := completes_ok (P := P) bytes h
    rw [if_pos hyes]
    refine (told_ok (not_not.mpr hyes)).trans ?_
    dsimp only
    by_cases hm : (P.malloc l.host).1 = true
    · rw [if_pos hm, if_pos hm]
      rfl
    · rw [if_neg hm, if_neg hm]
      have hmessage : CStr.text (utf8 "failed to allocate JavaScript string result") ≠ [] := by decide
      have hshows := setError_shows (l := { l with heap := h, host := (P.malloc l.host).2 }) hmessage
      rw [← not_iff_not]
      refine hshows.trans ?_
      simp [Loc.Room]

theorem told_isArray (x : JSVal) :
    (((Observer.isArray.observed l x).2.error.getD [] ≠ [] ↔ Observer.isArray.Fails x l.heap) ∧
      (Observer.isArray.Fails x l.heap → (Observer.isArray.observed l x).1 = Observer.isArray.sentinel)) ↔
    Observer.isArray.Tells l x := by
  simp only [Observer.observed, Observer.Fails, Observer.Tells]
  rcases hout : P.isArray x l.heap with ⟨e | y, h⟩
  · -- the result is 1
    have hno := not_completes_error (α := Bool) e h
    refine ⟨fun hb => ?_, fun hc => absurd hc.1 hno⟩
    have hone := hb.2 hno
    simp [Except.toOption, Observer.sentinel] at hone
  · have hyes := completes_ok (P := P) y h
    refine (told_ok (not_not.mpr hyes)).trans ?_
    exact ⟨fun he => ⟨hyes, he⟩, fun hc => hc.2⟩

theorem told_arrayLength (x : JSVal) :
    (((Observer.arrayLength.observed l x).2.error.getD [] ≠ [] ↔ Observer.arrayLength.Fails x l.heap) ∧
      (Observer.arrayLength.Fails x l.heap →
        (Observer.arrayLength.observed l x).1 = Observer.arrayLength.sentinel)) ↔
    Observer.arrayLength.Tells l x := by
  simp only [Observer.observed, Observer.Fails, Observer.Tells, Loc.arrayLength]
  rcases P.getProperty x (.ofCString (utf8 "length")) l.heap with ⟨e | n, h⟩
  · dsimp only
    refine (told_failed trivial rfl).trans ?_
    exact capture_shows
  · dsimp only
    rcases hnum : P.toNumber n h with ⟨e | y, h'⟩
    · have hno := not_completes_error (α := Float64) e h'
      rw [if_neg hno]
      refine (told_failed hno rfl).trans ?_
      exact setError_shows (l := { l with heap := h', exception := some e }) (by decide)
    · have hyes := completes_ok (P := P) y h'
      rw [if_pos hyes]
      refine (told_ok (not_not.mpr hyes)).trans ?_
      rfl

/-- In the table: the client can tell exactly when the state before the call lets it. -/
theorem Observer.told_iff (o : Observer) (x : JSVal) :
    (((o.observed l x).2.error.getD [] ≠ [] ↔ o.Fails x l.heap) ∧
      (o.Fails x l.heap → (o.observed l x).1 = o.sentinel)) ↔ o.Tells l x := by
  cases o with
  | toBool => exact told_ok not_false
  | toNumber => exact told_toNumber x
  | toString => exact told_toString x
  | isArray => exact told_isArray x
  | arrayLength => exact told_arrayLength x

end Observe

/-! ## All runs -/

section Runs

variable {c : Client} {r q : Nat} {w : World P} {l : Loc P} {x : JSVal}

theorem Observer.on (o : Observer) (hx : w.Holds q r x) : (o.call (some q)).On w r := by
  cases o <;> exact ⟨q, x, rfl, hx⟩

theorem Observer.allows (o : Observer) (hq : (q, r) ∈ c.live) : c.Allows r (o.call (some q)) := by
  cases o <;> exact .inr ⟨q, rfl, hq⟩

theorem Observer.fits (o : Observer) (p : Ptr) : (o.call p).Fits P := by
  cases o <;> trivial

/-- In every state of every run, for every observer and every live handle: after the call there is an
error exactly if the engine call failed, and then the result is the sentinel, if and only if the state
before the call lets the client tell. -/
theorem observers_told_iff (h : Reach c w) (hq : (q, r) ∈ c.live) (hx : w.Holds q r x)
    (hl : w.loc? r = some l) (o : Observer) :
    ∃ res w' error, (o.call (some q)).run.run w = .ok (res, w') ∧
      (∃ w'', (jsRuntimeLastError (some r)).run w' = .ok (error, w'')) ∧
      (o.Told x l.heap res error ↔ o.Tells l x) := by
  obtain ⟨res, w', hrun, hinv, -⟩ := call_inv_of_fits (o.call (some q)) (o.allows hq) (o.fits _) w h.inv
  have hs := h.inv.shows hl (o.on hx) hrun
  rw [o.effect_call hx.valueOf] at hs
  obtain ⟨hseen, b', L, hw, -⟩ := hs
  obtain ⟨error, w'', hlast, rfl, -⟩ := jsRuntimeLastError_spec w' hw
  refine ⟨res, w', _, hrun, ⟨w'', hlast⟩, ?_⟩
  unfold Observer.Told
  rw [o.sentinel_iff (q := q) res r w', hseen]
  exact o.told_iff x

end Runs

/-- The client with the object whose `valueOf` throws. -/
def valueOfClient : Client := { runtimes := {0}, destroyed := ∅, live := {(0, 0)}, strings := 0 }

theorem valueOf_object : ∃ (w : World valueOfPlatform) (l : Loc valueOfPlatform), Reach valueOfClient w ∧
    w.Holds 0 0 (.object 1) ∧ w.loc? 0 = some l ∧ l.heap = (0 : Nat) ∧
    ∃ w' l', (jsValueToNumber (some 0)).run w = .ok (.finite 0, w') ∧ w'.Holds 0 0 (.object 1) ∧
      w'.loc? 0 = some l' ∧ (jsValueToBool (some 0)).run w' = .ok (1, w') ∧
      (jsRuntimeLastError (some 0)).run w' =
        .ok (utf8 "failed to convert JavaScript value to number", w') := by
  have h₁ := (Reach.start (P := valueOfPlatform) ()).call (r := 0) .runtimeCreate trivial rfl
  have h₂ := h₁.call (r := 0) (.runtimeEvalValue (some 0) (some [])) (.inr ⟨rfl, by decide, by decide⟩) rfl
  exact ⟨_, _, h₂, ⟨0, rfl⟩, rfl, rfl, _, _, rfl, ⟨0, rfl⟩, rfl, rfl, rfl⟩

/-- The conversion of the object fails, and the client can tell. -/
theorem observers_told_valueOf : ∃ (w : World valueOfPlatform) (res : Float64)
    (w' : World valueOfPlatform) (error : CStr), Reach valueOfClient w ∧
    (jsValueToNumber (some 0)).run w = .ok (res, w') ∧
    Observer.toNumber.Told (P := valueOfPlatform) (.object 1) (0 : Nat) res error := by
  obtain ⟨w, l, h, hx, hl, hheap, -⟩ := valueOf_object
  obtain ⟨res, w', error, hrun, -, hiff⟩ := observers_told_iff h (by decide) hx hl .toNumber
  rw [hheap] at hiff
  refine ⟨w, res, w', error, h, hrun, hiff.mpr ?_⟩
  have hno : ¬ Completes (valueOfPlatform.toNumber (.object 1) l.heap) := not_completes_error _ _
  simp only [Observer.Tells, if_neg hno]
  rfl

/-- The message of a failed conversion is still there after a read that cannot fail. -/
theorem stale_error_told : ¬ ∀ (P : Platform) (c : Client) (w w' w'' : World P) (r q : Nat) (x : JSVal)
    (l : Loc P) (o : Observer) (res : o.Out) (error : CStr), Reach c w → (q, r) ∈ c.live →
    w.Holds q r x → w.loc? r = some l → (o.call (some q)).run.run w = .ok (res, w') →
    (jsRuntimeLastError (some r)).run w' = .ok (error, w'') → o.Told x l.heap res error := by
  intro hall
  obtain ⟨w, -, h, -, -, -, w₁, l₁, hrun, hx, hl, hbool, hlast⟩ := valueOf_object
  have h₁ := h.call (r := 0) (.valueToNumber (some 0)) (.inr ⟨0, rfl, by decide⟩) hrun
  have htold := hall _ _ w₁ w₁ w₁ 0 0 (.object 1) l₁ .toBool (1 : Int) _ h₁ (by decide) hx hl hbool hlast
  exact htold.1.mp (by decide)

end InteropJs
