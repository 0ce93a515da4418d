import InteropJs.Bridge.Isolation
import InteropJs.Cangjie.Elements
import InteropJs.Cangjie.Methods

/-!
# Call dispatch

What `functionCall` asks of the engine, in the log of `Platform.recorded`, after it converted its arguments.

* `CalleeOf` is a callee as a program gets it: a plain value, or a method that a `memberAccess` gave
  earlier in the run. `CalleeOf.callee`: whatever happened since, the method has the function that was
  read and the object that it was read from.
* `Ended.calls`: the first engine call is `JS_Call` with that function, that receiver and the converted
  arguments.
* `Ended.callAnswered_iff`: a value of the call is the result, and nothing follows, exactly when there is
  memory for its handle. Without it the function is constructed too.
* `Ended.constructs`: a class constructor, whose call is refused, ends as one `JS_CallConstructor`, but from the
  heap that the text of the refusal left: a script may have put its own `toString` there.
-/

namespace InteropJs

open Hoare

variable {P : Platform} {r : Nat}

/-! ## Callees -/

/-- The payload `e` is, for the client `c` in the state `s`, the function `f` with the receiver `this`
(module doc). -/
inductive CalleeOf (r : Nat) (c : Client) (s : Store P) : Payload → JSVal → JSVal → Prop where
  | value {ref : JSValueRef} {f : JSVal} (denotes : ref.Denotes s.world r f) :
      CalleeOf r c s (.value ref) f .undefined
  | method {s₀ s₁ : Store P} {l₀ : Loc P} {c₁ : Client} {o function receiver : JSValueRef} {x f : JSVal}
      {field : String} {p q : Nat} (ready : Ready r l₀ s₀) (object : o.Denotes s₀.world r x)
      (read : l₀.got x (.ofName field) = some f)
      (access : (JSRuntime.memberAccess (.value o) field).exec.run s₀ = .ok (.ok (.method function receiver), s₁))
      (inv : Inv c₁ s₁.world) (later : Relation.ReflTransGen Step (c₁, s₁.world) (c, s.world))
      (owned : function.handle = some p ∧ receiver.handle = some q)
      (live : (p, r) ∈ c.live ∧ (q, r) ∈ c.live) : CalleeOf r c s (.method function receiver) f x

theorem CalleeOf.callee {c : Client} {s : Store P} {e : Payload} {f this : JSVal}
    (h : CalleeOf r c s e f this) : Callee s.world r e f this := by
  cases h with
  | value denotes => exact ⟨denotes, rfl⟩
  | @method s₀ s₁ l₀ c₁ o function receiver _ _ field p q ready object read access inv later owned live =>
    obtain ⟨res, s', hrun, hext, hfetched⟩ := memberAccess_run ready object field
    rw [access] at hrun
    cases hrun
    obtain ⟨g, y, -, hy, -, hres, hg, -⟩ | ⟨-, -, hres, -⟩ | ⟨-, hres, -⟩ := hfetched
    · rw [read] at hy
      cases hy
      unfold member at hres
      split at hres
      · cases hres
        obtain ⟨p', hp', hf⟩ := hg
        obtain ⟨q', hq', hx⟩ := object.mono hext
        have hpp : p' = p := Option.some.inj (hp'.symm.trans owned.1)
        have hqq : q' = q := Option.some.inj (hq'.symm.trans owned.2)
        subst hpp
        subst hqq
        exact ⟨⟨p', hp', inv.holds_later hf later live.1⟩, q', hq', inv.holds_later hx later live.2⟩
      · cases hres
    · cases hres
    · cases hres

/-! ## The log of the two attempts -/

section Log

variable {log log' rest : List EngineCall} {e : EngineCall} {f this : JSVal} {argv : List JSVal}

theorem NextCall.append (h : NextCall log log' e) (rest : List EngineCall) : NextCall log (log' ++ rest) e := by
  obtain ⟨more, rfl⟩ := h
  exact ⟨more ++ rest, by simp⟩

theorem log_afterCall (l : Loc P.recorded) (f this : JSVal) (argv : List JSVal) :
    (l.afterCall f this argv).log = l.log ++ [.call f this argv] := by
  unfold Loc.afterCall Loc.log
  rw [Loc.after_heap]
  rfl

theorem log_tried (l : Loc P.recorded) (f this : JSVal) (argv : List JSVal) :
    NextCall l.log (l.tried f this argv).log (.call f this argv) := by
  unfold Loc.tried
  cases l.callResult f this argv with
  | none => exact log_capture _ (log_afterCall l f this argv)
  | some y => exact ⟨[], log_afterCall l f this argv⟩

theorem log_afterConstruct (l : Loc P.recorded) (f : JSVal) (argv : List JSVal) :
    (l.afterConstruct f argv).log = l.log ++ [.construct f argv] := by
  unfold Loc.afterConstruct Loc.log
  rw [Loc.after_heap]
  rfl

theorem log_constructTried (l : Loc P.recorded) (f : JSVal) (argv : List JSVal) :
    NextCall l.log (l.constructTried f argv).log (.construct f argv) := by
  unfold Loc.constructTried
  cases l.constructResult f argv with
  | none => exact log_capture _ (log_afterConstruct l f argv)
  | some y => exact ⟨[], log_afterConstruct l f argv⟩

end Log

/-! ## How a call ends -/

section Ended

variable {b : World P.recorded} {l : Loc P.recorded} {L : Multiset Resource} {s s' : Store P.recorded}
  {f this x : JSVal} {argv : List JSVal} {res : Except Exn Payload}

theorem log_of_heap (h : s.heap r = some l.heap) : s.log r = l.log := by
  unfold Store.log
  rw [h]
  rfl

/-- The first engine call is `JS_Call`. -/
theorem Ended.calls (h : Ended r b l L f this argv res s'.world) :
    NextCall l.log (s'.log r) (.call f this argv) := by
  obtain ⟨_, -, _, _, -, -, ⟨-, -, hw⟩ | ⟨-, -, -, hw⟩⟩ | ⟨_, -, -, -, -, hw⟩ := h
  · rw [log_of_heap (l := (l.afterCall f this argv).kept) hw.heap]
    exact ⟨[], log_afterCall l f this argv⟩
  · rw [log_of_heap (l := ((l.tried f this argv).afterConstruct f argv).kept) hw.heap]
    have hlog : ((l.tried f this argv).afterConstruct f argv).kept.log =
        (l.tried f this argv).log ++ [.construct f argv] := log_afterConstruct _ f argv
    rw [hlog]
    exact (log_tried l f this argv).append _
  · rw [log_of_heap hw.heap]
    obtain ⟨rest, hrest⟩ := log_constructTried (l.tried f this argv) f argv
    rw [hrest]
    exact (log_tried l f this argv).append _

/-- The result is the value `x`, and no engine call follows the first one after `log`. -/
def CallAnswered (r : Nat) (s' : Store P.recorded) (log : List EngineCall) (first : EngineCall) (x : JSVal)
    (res : Except Exn Payload) : Prop :=
  (∃ ref, res = .ok (.value ref) ∧ ref.Denotes s'.world r x) ∧ s'.log r = log ++ [first]

theorem callGives_iff {l : Loc P} (hx : (P.call f this argv l.heap).1 = .ok x) :
    l.CallGives f this argv ↔ (P.malloc l.host).1 = true := by
  unfold Loc.CallGives Loc.delivers Loc.callResult
  rw [hx, Loc.afterCall_host]
  rfl

/-- A value of the call is the result, and nothing follows, exactly when there is memory for its
handle. -/
theorem Ended.callAnswered_iff (h : Ended r b l L f this argv res s'.world)
    (hx : (P.recorded.call f this argv l.heap).1 = .ok x) :
    CallAnswered r s' l.log (.call f this argv) x res ↔ (P.malloc l.host).1 = true := by
  have hgives : l.CallGives f this argv ↔ (P.malloc l.host).1 = true := callGives_iff hx
  rw [← hgives]
  have hlost : (l.tried f this argv).log = l.log ++ [.call f this argv] := by
    unfold Loc.tried Loc.callResult
    rw [hx]
    exact log_afterCall l f this argv
  have hmore : ∀ log', NextCall (l.tried f this argv).log log' (.construct f argv) →
      log' ≠ l.log ++ [.call f this argv] := by
    rintro log' ⟨rest, rfl⟩ heq
    have hlen := congrArg List.length heq
    rw [hlost] at hlen
    simp only [List.length_append, List.length_cons, List.length_nil] at hlen
    omega
  obtain ⟨_, rfl, ref, y, rfl, href, ⟨hcall, hy, hw⟩ | ⟨hcall, -, -, hw⟩⟩ | ⟨_, -, hcall, -, -, hw⟩ := h
  · refine iff_of_true ⟨⟨ref, rfl, _, href, ?_⟩, ?_⟩ hcall
    · unfold Loc.callResult at hy
      rw [hx] at hy
      cases hy
      obtain ⟨t, e, -, hw⟩ := hw
      exact ⟨t, by rw [hw.values]; simp [World.addValue]⟩
    · rw [log_of_heap (l := (l.afterCall f this argv).kept) hw.heap]
      exact log_afterCall l f this argv
  · refine iff_of_false (fun hans => hmore _ ?_ hans.2) hcall
    rw [log_of_heap (l := ((l.tried f this argv).afterConstruct f argv).kept) hw.heap]
    exact ⟨[], log_afterConstruct _ f argv⟩
  · refine iff_of_false (fun hans => hmore _ ?_ hans.2) hcall
    rw [log_of_heap hw.heap]
    exact log_constructTried _ f argv

end Ended

/-! ## Class constructors -/

/-- A class constructor: only `new` runs its body. -/
def JSVal.IsClass (f : JSVal) : Prop := f.callRuns = false ∧ f.isConstructor = true

/-- `JS_Call` of a class constructor throws before it runs or changes anything. -/
def RefusesClassCall (P : Platform) : Prop :=
  ∀ f this argv h, f.IsClass → ∃ x, P.call f this argv h = (.error x, h)

/-- The exception for an error of the engine with this text. -/
def callFailure (text : Option CStr) : Exn :=
  failureExn (failureText (text.getD (utf8 "unknown QuickJS error")))

/-- The outcome of one `JS_CallConstructor`, a value or an exception with the text of the error, and the heap
after it. -/
def Platform.constructs (P : Platform) (f : JSVal) (argv : List JSVal) (h : P.Heap) :
    Except Exn (Option JSVal) × P.Heap :=
  match P.callConstructor f argv h with
  | (.ok x, h) => (.ok (some x), h)
  | (.error y, h) => (.error (callFailure (P.toCString y h).1.toOption), P.textHeap y h)

section Class

variable {l : Loc P.recorded} {f this x : JSVal} {argv : List JSVal}

theorem capture_heap {l : Loc P} {y : JSVal} (hy : l.exception = some y) :
    l.capture.heap = (P.toCString y l.heap).2 := by
  simp only [Loc.capture, Loc.setError, hy, Option.getD_some, Loc.after_heap]

/-- The exception after `capture_exception`, with memory for the text. -/
theorem capture_callExn {l : Loc P} {y : JSVal} (hroom : (P.malloc l.host).1 = true)
    (hy : l.exception = some y) : l.capture.callExn = callFailure (P.toCString y l.heap).1.toOption := by
  have herror : l.capture.error =
      some (((P.toCString y l.heap).1.toOption.getD (utf8 "unknown QuickJS error")).text) := by
    simp only [Loc.capture, Loc.setError, hy, Option.getD_some]
    rcases P.toCString y l.heap with ⟨e | t, h⟩ <;> simp [hroom]
  have hmessage : l.capture.message? =
      CStr.string? ((P.toCString y l.heap).1.toOption.getD (utf8 "unknown QuickJS error")) := by
    unfold Loc.message?
    rw [herror, Option.getD_some, string?_text]
  unfold Loc.callExn callFailure failureText
  rw [hmessage]
  cases CStr.string? ((P.toCString y l.heap).1.toOption.getD (utf8 "unknown QuickJS error")) <;> rfl

/-- What `JS_CallConstructor` and its error text give to the client, with memory for the handle and for the
text. -/
theorem constructed_eq (f : JSVal) (argv : List JSVal) (hroom : (P.malloc l.host).1 = true) :
    (if (l.afterConstruct f argv).delivers (l.constructResult f argv) then
        (Except.ok (l.constructResult f argv), (l.afterConstruct f argv).heap.1)
      else (.error (l.constructTried f argv).callExn, (l.constructTried f argv).heap.1)) =
      P.constructs f argv l.heap.1 := by
  have hrec : P.recorded.callConstructor f argv l.heap =
      ((P.callConstructor f argv l.heap.1).1, (P.callConstructor f argv l.heap.1).2,
        l.log ++ [.construct f argv]) := rfl
  have hroom' : (P.recorded.malloc (l.afterConstruct f argv).host).1 = true := by
    rw [Loc.afterConstruct_host]
    exact hroom
  unfold Platform.constructs Loc.constructTried Loc.constructResult
  rcases hc : P.callConstructor f argv l.heap.1 with ⟨y | v, h⟩ <;> rw [hc] at hrec
  · have hstate : l.afterConstruct f argv =
        { (l.clearError.started f f.isConstructor) with
          heap := (h, l.log ++ [.construct f argv]), exception := some y } := by
      unfold Loc.afterConstruct
      rw [hrec]
      rfl
    have hy : (l.afterConstruct f argv).exception = some y := by rw [hstate]
    have hheap : (l.afterConstruct f argv).heap = (h, l.log ++ [.construct f argv]) := by rw [hstate]
    obtain ⟨htext, hafter⟩ := Platform.recorded_toCString_eq y (l.afterConstruct f argv).heap
    rw [hrec, if_neg (by simp [Loc.delivers, Except.toOption])]
    simp only [Except.toOption, Loc.lost]
    rw [capture_callExn hroom' hy, capture_heap hy, hafter, htext, hheap]
    rfl
  · rw [hrec, if_pos (by simpa [Loc.delivers, Except.toOption] using hroom')]
    unfold Loc.afterConstruct
    rw [Loc.after_heap, hrec]
    rfl

/-- The local state after a refused call: its text was made. -/
theorem tried_refused (hx : P.call f this argv l.heap.1 = (.error x, l.heap.1)) :
    l.callResult f this argv = none ∧ (l.tried f this argv).heap.1 = P.textHeap x l.heap.1 ∧
      (l.tried f this argv).host = (P.malloc l.host).2 := by
  have hrec : P.recorded.call f this argv l.heap =
      (.error x, l.heap.1, l.log ++ [.call f this argv]) := by
    have hlog : P.recorded.call f this argv l.heap = ((P.call f this argv l.heap.1).1,
      (P.call f this argv l.heap.1).2, l.log ++ [.call f this argv]) := rfl
    rw [hlog, hx]
  have hnone : l.callResult f this argv = none := by
    unfold Loc.callResult
    rw [hrec]
    rfl
  have hexn : (l.afterCall f this argv).exception = some x := by
    unfold Loc.afterCall
    rw [hrec]
    rfl
  have hheap : (l.afterCall f this argv).heap = (l.heap.1, l.log ++ [.call f this argv]) := by
    unfold Loc.afterCall
    rw [Loc.after_heap, hrec]
  have htried : l.tried f this argv = (l.afterCall f this argv).capture := by
    unfold Loc.tried
    rw [hnone]
    rfl
  refine ⟨hnone, ?_, ?_⟩
  · rw [htried, capture_heap hexn, (Platform.recorded_toCString_eq x _).2, hheap]
    rfl
  · rw [htried]
    simp only [Loc.capture, Loc.setError]
    rcases P.recorded.toCString ((l.afterCall f this argv).exception.getD .uninitialized)
      (l.afterCall f this argv).heap with ⟨e | t, h⟩ <;>
      exact congrArg (fun host => (P.malloc host).2) (l.afterCall_host f this argv)

/-- After a refused call, with memory for the handle: the outcome and the heap are those of one
`JS_CallConstructor`, but from the heap that the text of the refusal left. -/
theorem Ended.constructs {b : World P.recorded} {L : Multiset Resource} {s' : Store P.recorded}
    {res : Except Exn Payload} (h : Ended r b l L f this argv res s'.world)
    (hx : P.call f this argv l.heap.1 = (.error x, l.heap.1))
    (hroom : (P.malloc (P.malloc l.host).2).1 = true) :
    res.map (payloadShown r s'.world) = (P.constructs f argv (P.textHeap x l.heap.1)).1 ∧
      (s'.heap r).map Prod.fst = some (P.constructs f argv (P.textHeap x l.heap.1)).2 := by
  obtain ⟨hres, hheap⟩ := h.dispatched
  obtain ⟨hnone, htext, hhost⟩ := tried_refused hx
  have hout := constructed_eq (l := l.tried f this argv) f argv (by rw [hhost]; exact hroom)
  rw [htext] at hout
  have hcall : ¬ (l.afterCall f this argv).delivers (l.callResult f this argv) = true := by
    simp [hnone, Loc.delivers]
  unfold Loc.dispatched at hres hheap
  rw [if_neg hcall] at hres hheap
  dsimp only at hres hheap
  rw [← hout]
  unfold Store.heap
  rw [hheap]
  by_cases hd : ((l.tried f this argv).afterConstruct f argv).delivers
      ((l.tried f this argv).constructResult f argv) = true
  · rw [if_pos hd] at hres ⊢
    exact ⟨hres, by rw [if_pos hd]; rfl⟩
  · rw [if_neg hd] at hres ⊢
    exact ⟨hres, by rw [if_neg hd]; rfl⟩

end Class

/-! ## The law -/

/-- How a call should end whose arguments were converted in the local state `l`. -/
structure Dispatched (r : Nat) (s' : Store P.recorded) (l : Loc P.recorded) (f this : JSVal)
    (argv : List JSVal) (res : Except Exn Payload) : Prop where
  /-- The first engine call is `JS_Call`. -/
  first : NextCall l.log (s'.log r) (.call f this argv)
  /-- Its value is the result, and nothing follows. -/
  answer : ∀ x, (P.call f this argv l.heap.1).1 = .ok x → CallAnswered r s' l.log (.call f this argv) x res
  /-- A class is constructed once, and that is all. -/
  construct : f.IsClass → res.map (payloadShown r s'.world) = (P.constructs f argv l.heap.1).1 ∧
    (s'.heap r).map Prod.fst = some (P.constructs f argv l.heap.1).2

/-- The state before the call lets it end so: the C stack has room for the arguments; there is memory for the
handle of a value; and for a class there is memory for the handle after the text of the refusal, and the text
makes no difference to the construct, as when it leaves the heap as it is. -/
structure Loc.Dispatches (l : Loc P.recorded) (f this : JSVal) (argv : List JSVal) : Prop where
  fits : P.FitsArgv argv.length
  room : ∀ x, (P.call f this argv l.heap.1).1 = .ok x → (P.malloc l.host).1 = true
  classRoom : f.IsClass → (P.malloc (P.malloc l.host).2).1 = true
  quiet : f.IsClass → ∀ x, (P.call f this argv l.heap.1).1 = .error x →
    P.constructs f argv (P.textHeap x l.heap.1) = P.constructs f argv l.heap.1

section Law

variable {b : World P.recorded} {l l₁ : Loc P.recorded} {L : Multiset Resource} {s s' : Store P.recorded}
  {c : Client} {e : Payload} {f this : JSVal} {args : List Any} {argv : List JSVal} {res : Except Exn Payload}

theorem Ended.dispatched_of (h : Ended r b l L f this argv res s'.world) (hP : RefusesClassCall P)
    (hl : l.Dispatches f this argv) : Dispatched r s' l f this argv res where
  first := h.calls
  answer x hx := (h.callAnswered_iff hx).mpr (hl.room x hx)
  construct hf := by
    obtain ⟨x, hx⟩ := hP f this argv l.heap.1 hf
    rw [← hl.quiet hf x (by rw [hx])]
    exact h.constructs hx (hl.classRoom hf)

theorem Ended.dispatches (h : Ended r b l L f this argv res s'.world) (hP : RefusesClassCall P)
    (hfit : P.FitsArgv argv.length) (hroom : f.IsClass → (P.malloc (P.malloc l.host).2).1 = true)
    (hd : Dispatched r s' l f this argv res) : l.Dispatches f this argv where
  fits := hfit
  room x hx := (h.callAnswered_iff hx).mp (hd.answer x hx)
  classRoom := hroom
  quiet hf x hx := by
    obtain ⟨y, hy⟩ := hP f this argv l.heap.1 hf
    obtain rfl : y = x := by
      rw [hy] at hx
      exact Except.error.inj hx
    obtain ⟨hres, hheap⟩ := h.constructs hy (hroom hf)
    obtain ⟨hres', hheap'⟩ := hd.construct hf
    exact Prod.ext (hres.symm.trans hres') (Option.some.inj (hheap.symm.trans hheap'))

end Law

/-! ## A class on a patched engine -/

/-- An engine with a class whose construct gives an object. The script has counted the string conversions of
errors since it set `Error.prototype.toString`. -/
def patchedPlatform : Platform :=
  { Platform.idle Nat 0 with
    call := fun _ _ _ h => (.error (.object 9), h)
    callConstructor := fun _ _ h => (.ok (.object 1), h)
    toString := fun _ (n : Nat) => (.ok [0x78], n + 1) }

/-- `class C {}`. -/
def plainClass : JSVal := .function 1 ⟨false, true⟩

theorem patchedPlatform_refuses : RefusesClassCall patchedPlatform := fun _ _ _ _ _ => ⟨.object 9, rfl⟩

theorem newOnly_refuses : RefusesClassCall Platform.newOnly := fun _ _ _ _ _ => ⟨.string [0x78], rfl⟩

theorem newOnly_dispatches :
    (Loc.sample () ((), []) : Loc Platform.newOnly.recorded).Dispatches plainClass .undefined [] where
  fits := by decide
  room _ _ := rfl
  classRoom _ := rfl
  quiet _ _ _ := rfl

end InteropJs
