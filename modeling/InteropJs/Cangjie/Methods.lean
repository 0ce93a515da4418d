import InteropJs.Bridge.Isolation
import InteropJs.Cangjie.Property

/-!
# Methods

A function that `memberAccess` reads is a `JSMethodRef`: the function and the object that it was read
from. A function that is read in any other way is a `JSValueRef`.

* `Use` are the uses of a value other than a call of it. `externContentToRef` and the operations on a
  target know only the `JSValueRef`, so that each use refuses a method (`Use.refusal`):
  `methods_never_interchangeable`.
* Only `functionCall` knows both, and calls a method with its receiver. `member_index_agree` compares
  `memberAccess` with string indexing: reads and writes agree, and calls agree when the receiver makes no
  difference to what the engine answers (`Loc.IgnoresReceiver`).
-/

namespace InteropJs

open Hoare

variable {P : Platform} {r : Nat} {l l' : Loc P} {s s' : Store P}

/-! ## Outcomes -/

/-- The JavaScript value of a payload. -/
def Payload.shown (w : World P) (r : Nat) : Payload → Option JSVal
  | .value ref => w.valueOf r ref.handle
  | .method function _ => w.valueOf r function.handle
  | .pointer handle => w.valueOf r handle
  | .other => none

/-- Two runs ended alike: with the same exception or the same value, which `shown` shows, and with the
same JavaScript heap. -/
def Alike {α β : Type} (r : Nat) (shown : World P → α → β) (out₁ out₂ : Except Exn α × Store P) : Prop :=
  out₁.1.map (shown out₁.2.world) = out₂.1.map (shown out₂.2.world) ∧ out₁.2.heap r = out₂.2.heap r

/-- Both programs return from `s`, and end alike, or both end the process. -/
def SameOutcome {α β : Type} (r : Nat) (shown : World P → α → β) (s : Store P) (p q : Prog α) : Prop :=
  (∃ out₁ out₂, p.exec.run s = .ok out₁ ∧ q.exec.run s = .ok out₂ ∧ Alike r shown out₁ out₂) ∨
    (p.exec.run s = .error .stackOverflow ∧ q.exec.run s = .error .stackOverflow)

/-- The first program returns from `s`, and the second does not end alike: it returns something else, or it
ends the process. -/
def OtherOutcome {α β : Type} (r : Nat) (shown : World P → α → β) (s : Store P) (p q : Prog α) : Prop :=
  ∃ out₁, p.exec.run s = .ok out₁ ∧
    ((∃ out₂, q.exec.run s = .ok out₂ ∧ ¬ Alike r shown out₁ out₂) ∨ q.exec.run s = .error .stackOverflow)

/-! ## Uses of a value -/

/-- What a client can do with a value, other than call it (module doc). -/
inductive Use where
  /-- An argument of `functionCall`. -/
  | argument (callee : Payload) (before after : List Any)
  | memberValue (target : Payload) (field : String)
  | indexValue (target : Payload) (arg : Any)
  /-- The operand of `toExtern`. -/
  | operand
  | memberTarget (field : String)
  | memberUpdateTarget (field : String) (value : Any)
  | keyTarget (key : String)
  | keyUpdateTarget (key : String) (value : Any)

/-- The use of `e`; an update has no result. -/
def Use.prog (runtime : Ptr) (e : Payload) : Use → Prog (Option Payload)
  | .argument callee before after => do
    return some (← JSRuntime.functionCall runtime callee (before ++ .externValue e :: after))
  | .memberValue target field => do
    JSRuntime.memberUpdate runtime target field (.externValue e)
    return none
  | .indexValue target arg => do
    JSRuntime.indexUpdate runtime target arg (.externValue e)
    return none
  | .operand => do return some (← JSRuntime.toExtern runtime (.externValue e))
  | .memberTarget field => do return some (← JSRuntime.memberAccess e field)
  | .memberUpdateTarget field value => do
    JSRuntime.memberUpdate runtime e field value
    return none
  | .keyTarget key => do return some (← JSRuntime.indexAccess e (.string key))
  | .keyUpdateTarget key value => do
    JSRuntime.indexUpdate runtime e (.string key) value
    return none

/-- The exception of the use of a method. -/
def Use.refusal : Use → Exn
  | .argument _ _ _ | .memberValue _ _ | .indexValue _ _ | .operand =>
    .conversion "Extern value does not contain a JavaScript value"
  | .memberTarget _ => .dynamic "Unsupported member access"
  | .memberUpdateTarget _ _ => .dynamic "Unsupported assignment"
  | .keyTarget _ | .keyUpdateTarget _ _ => .dynamic "Expected JavaScript array or object"

/-- The use is a call with more arguments than the stack has room for. -/
def Use.Overruns (P : Platform) : Use → Prop
  | .argument _ before after => ¬ P.FitsArgv (before.length + (after.length + 1) : Nat)
  | _ => False

/-- The object as an argument. -/
def JSValueRef.any (ref : JSValueRef) : Any := .externValue (.value ref)

theorem JSValueRef.Denotes.passes {ref : JSValueRef} {w : World P} {x : JSVal} (h : ref.Denotes w r x)
    (l : Loc P) : ref.any.Passes w r l x l :=
  ⟨h.nullOrLive, by simp [JSValueRef.any, Loc.pass, h.valueOf]⟩

/-- The other values of the use are JavaScript values of the runtime. -/
def Use.Plain (w : World P) (r : Nat) : Use → Prop
  | .argument callee before after => (∃ f this, Callee w r callee f this) ∧
    (∃ refs argv, before = refs.map JSValueRef.any ∧ Denote w r refs argv) ∧
    ∃ refs argv, after = refs.map JSValueRef.any ∧ Denote w r refs argv
  | .memberValue target _ | .indexValue target _ =>
    ∃ (ref : JSValueRef) (x : JSVal), target = .value ref ∧ ref.Denotes w r x
  | .memberUpdateTarget _ value | .keyUpdateTarget _ value =>
    ∃ (ref : JSValueRef) (x : JSVal), value = ref.any ∧ ref.Denotes w r x
  | .operand | .memberTarget _ | .keyTarget _ => True

/-- The conversion of arguments stops at the first method. -/
theorem toJSValues_method (runtime : Ptr) (refs : List JSValueRef) (f g : JSValueRef) (after : List Any) :
    JSRuntime.toJSValues runtime (refs.map JSValueRef.any ++ .externValue (.method f g) :: after) =
      .raise (.conversion "Extern value does not contain a JavaScript value") := by
  induction refs with
  | nil => rfl
  | cons ref refs ih =>
    simp only [List.map_cons, List.cons_append, JSRuntime.toJSValues]
    rw [ih]
    rfl

theorem toJSValues_plain (runtime : Ptr) (refs : List JSValueRef) :
    JSRuntime.toJSValues runtime (refs.map JSValueRef.any) = .ret refs := by
  induction refs with
  | nil => rfl
  | cons ref refs ih =>
    simp only [List.map_cons, JSRuntime.toJSValues]
    rw [ih]
    rfl

/-- Every use refuses a method, and does nothing else. -/
theorem Use.method_run {u : Use} (hu : u.Plain s.world r) (f g : JSValueRef) :
    (u.prog (some r) (.method f g)).exec.run s = .ok (.error u.refusal, s) := by
  cases u with
  | argument callee before after =>
    obtain ⟨⟨h, this, hcallee⟩, ⟨refs, argv, rfl, -⟩, -⟩ := hu
    have hconv := toJSValues_method (some r) refs f g after
    cases callee with
    | value ref =>
      simp only [Use.prog, JSRuntime.functionCall, JSRuntime.callOrConstruct]
      rw [hconv]
      rfl
    | method function receiver =>
      simp only [Use.prog, JSRuntime.functionCall, JSRuntime.callOrConstruct]
      rw [hconv]
      rfl
    | pointer handle => exact hcallee.elim
    | other => exact hcallee.elim
  | memberValue target field =>
    obtain ⟨ref, x, rfl, -⟩ := hu
    rfl
  | indexValue target arg =>
    obtain ⟨ref, x, rfl, -⟩ := hu
    cases arg <;> rfl
  | operand => rfl
  | memberTarget field => rfl
  | memberUpdateTarget field value => rfl
  | keyTarget key => rfl
  | keyUpdateTarget key value => rfl

/-- A run with a pure step after it. -/
theorem Prog.exec_map {α β : Type} {p : Prog α} {res : Except Exn α} (g : α → β)
    (h : p.exec.run s = .ok (res, s')) :
    (p.bind fun a => .ret (g a)).exec.run s = .ok (res.map g, s') := by
  rw [Prog.exec_bind, StateT.run_bind, h]
  cases res <;> rfl

/-- A failed call has no conversion error. -/
theorem Loc.callExn_ne (l : Loc P) (m : String) : l.callExn ≠ .conversion m := by
  unfold Loc.callExn
  cases l.message? <;> simp

theorem functionCall_plain {callee : Payload} {f this : JSVal} {refs : List JSValueRef} {argv : List JSVal}
    (h : Ready r l s) (hcallee : Callee s.world r callee f this) (hargs : Denote s.world r refs argv) :
    (∃ res s', (JSRuntime.functionCall (some r) callee (refs.map JSValueRef.any)).exec.run s =
        .ok (res, s') ∧ ∀ m, res ≠ .error (.conversion m)) ∨
      (JSRuntime.functionCall (some r) callee (refs.map JSValueRef.any)).exec.run s =
        .error .stackOverflow ∧ ¬ P.FitsArgv refs.length := by
  obtain ⟨L, hs⟩ := h.on
  have hconv : (JSRuntime.toJSValues (some r) (refs.map JSValueRef.any)).exec.run s = .ok (.ok refs, s) := by
    rw [toJSValues_plain]
    rfl
  by_cases hlen : refs.length ≤ maxArgs
  · by_cases hfit : P.FitsArgv refs.length
    · obtain ⟨res, s', hrun, hend⟩ := functionCall_spec hconv hs hcallee hargs ⟨hlen, hfit⟩
      refine .inl ⟨res, s', hrun, fun m hm => ?_⟩
      obtain ⟨payload, rfl, -⟩ | ⟨e, rfl, -, -, rfl, -⟩ := hend
      · cases hm
      · exact Loc.callExn_ne _ m (Except.error.inj hm)
    · exact .inr ⟨functionCall_stops hconv hs hcallee hlen hfit, hfit⟩
  · obtain ⟨res, s', hrun, rfl, -⟩ := functionCall_overflow hconv hs hcallee (not_le.mp hlen)
    exact .inl ⟨_, s', hrun, fun m hm => by cases hm⟩

/-- No write of a property of `x` ends with the exception `e`. -/
theorem Stored.error_ne {x y : JSVal} {key : PropKey} {res : Except Exn Unit} {e : Exn}
    (h : Stored r l x key y s' res) (h₁ : e ≠ .dynamic "failed to write JavaScript property")
    (h₂ : e ≠ .dynamic "JavaScript value is not an object") : res ≠ .error e := by
  rintro rfl
  obtain ⟨-, -, h, -⟩ | ⟨-, -, h, -⟩ | ⟨-, h, -⟩ := h
  · cases h
  · exact h₁ (Except.error.inj h)
  · exact h₂ (Except.error.inj h)

theorem Fetched.error_ne {x : JSVal} {key : PropKey} {wrap : JSVal → JSValueRef → Payload}
    {res : Except Exn Payload} {e : Exn} (h : Fetched r l x key wrap s' res)
    (h₁ : e ≠ .dynamic "failed to read JavaScript property")
    (h₂ : e ≠ .dynamic "JavaScript value is not an object") : res ≠ .error e := by
  rintro rfl
  obtain ⟨_, _, -, -, -, h, -⟩ | ⟨-, -, h, -⟩ | ⟨-, h, -⟩ := h
  · cases h
  · exact h₁ (Except.error.inj h)
  · exact h₂ (Except.error.inj h)

/-- A write by index of a plain value. -/
theorem indexUpdate_plain {target value : JSValueRef} {x y : JSVal} (arg : Any) (h : Ready r l s)
    (ht : target.Denotes s.world r x) (hv : value.Denotes s.world r y) :
    ∃ res s', (JSRuntime.indexUpdate (some r) (.value target) arg value.any).exec.run s = .ok (res, s') ∧
      res ≠ .error (.conversion "Extern value does not contain a JavaScript value") := by
  have hpasses := hv.passes l
  obtain ⟨p, hp, hx⟩ := ht
  obtain ⟨q, hq, hy⟩ := hv
  obtain ⟨L, hs⟩ := h.on
  have hindex (i : Int) (harg : jsIndex arg = .ret i)
      (hprog : JSRuntime.indexUpdate (some r) (.value target) arg value.any =
        .touch [target] ((jsIndex arg).bind fun i => .touch [value] (setIndex target.handle i value.handle))) :
      ∃ res s', (JSRuntime.indexUpdate (some r) (.value target) arg value.any).exec.run s = .ok (res, s') ∧
        res ≠ .error (.conversion "Extern value does not contain a JavaScript value") := by
    obtain ⟨res, s', hrun, hpost⟩ := (setIndex_spec hx hy i).run hs
    rw [hprog, harg, hp, hq]
    refine ⟨res, s', hrun, ?_⟩
    rintro rfl
    obtain ⟨_, hres, -⟩ | ⟨e, hres, (⟨-, rfl, -⟩ | ⟨-, -, rfl, -⟩) | ⟨-, -, -, rfl, -⟩⟩ := hpost
    all_goals cases hres
  have hrefused (hprog : JSRuntime.indexUpdate (some r) (.value target) arg value.any =
      .touch [target] (.raise (.conversion "JavaScript array index must be an integer"))) :
      ∃ res s', (JSRuntime.indexUpdate (some r) (.value target) arg value.any).exec.run s = .ok (res, s') ∧
        res ≠ .error (.conversion "Extern value does not contain a JavaScript value") := by
    rw [hprog]
    exact ⟨.error (.conversion "JavaScript array index must be an integer"), s, rfl, by simp⟩
  cases arg with
  | string key =>
    obtain ⟨res, s', hrun, -, hstored⟩ := memberUpdate_run h ⟨p, hp, hx⟩ key hpasses
    exact ⟨res, s', hrun, hstored.error_ne (by simp) (by simp)⟩
  | int t i =>
    cases t
    case uint64 => exact hrefused rfl
    all_goals exact hindex i.val rfl rfl
  | externValue e => exact hrefused rfl
  | pointer handle => exact hrefused rfl
  | bigInt i => exact hrefused rfl
  | float t f => exact hrefused rfl
  | bool b => exact hrefused rfl
  | other => exact hrefused rfl

/-- No use refuses a plain function. -/
theorem Use.plain_run {u : Use} {plain : JSValueRef} {f : JSVal} (h : Ready r l s)
    (hp : plain.Denotes s.world r f) (hf : f.isFunction = true) (hu : u.Plain s.world r) :
    (∃ res s', (u.prog (some r) (.value plain)).exec.run s = .ok (res, s') ∧ res ≠ .error u.refusal) ∨
      (u.prog (some r) (.value plain)).exec.run s = .error .stackOverflow ∧ u.Overruns P := by
  have hobj : f.isObject = true := by cases f <;> simp_all [JSVal.isFunction, JSVal.isObject]
  have wrap {α : Type} {p : Prog α} {res : Except Exn α} {s' : Store P} (g : α → Option Payload)
      (hprog : u.prog (some r) (.value plain) = p.bind fun a => .ret (g a))
      (hrun : p.exec.run s = .ok (res, s')) (hne : res ≠ .error u.refusal) :
      ∃ res s', (u.prog (some r) (.value plain)).exec.run s = .ok (res, s') ∧ res ≠ .error u.refusal := by
    refine ⟨res.map g, s', by rw [hprog, Prog.exec_map g hrun], ?_⟩
    cases res with
    | ok a => simp [Except.map]
    | error e => simpa [Except.map] using hne
  cases u with
  | argument callee before after =>
    obtain ⟨⟨g, this, hcallee⟩, ⟨refs, argv, rfl, hrefs⟩, refs', argv', rfl, hrefs'⟩ := hu
    have hargs : Denote s.world r (refs ++ plain :: refs') (argv ++ f :: argv') :=
      List.rel_append hrefs (.cons hp hrefs')
    obtain ⟨res, s', hrun, hne⟩ | ⟨hrun, hfit⟩ := functionCall_plain h hcallee hargs
    · rw [List.map_append, List.map_cons] at hrun
      exact .inl (wrap some rfl hrun (hne _))
    · rw [List.map_append, List.map_cons] at hrun
      refine .inr ⟨?_, by simpa [Overruns] using hfit⟩
      simp only [Use.prog]
      exact Prog.exec_bind_fault hrun
  | memberValue target field =>
    obtain ⟨ref, x, rfl, hx⟩ := hu
    obtain ⟨res, s', hrun, -, hstored⟩ := memberUpdate_run h hx field (hp.passes l)
    exact .inl <| wrap (fun _ => none) rfl hrun (hstored.error_ne (by simp [refusal]) (by simp [refusal]))
  | indexValue target arg =>
    obtain ⟨ref, x, rfl, hx⟩ := hu
    obtain ⟨res, s', hrun, hne⟩ := indexUpdate_plain arg h hx hp
    exact .inl <| wrap (fun _ => none) rfl hrun hne
  | operand =>
    exact .inl ⟨.ok (some (.value plain)), s, rfl, by simp⟩
  | memberTarget field =>
    obtain ⟨res, s', hrun, -, hfetched⟩ := memberAccess_run h hp field
    exact .inl <| wrap some rfl hrun (hfetched.error_ne (by simp [refusal]) (by simp [refusal]))
  | memberUpdateTarget field value =>
    obtain ⟨ref, x, rfl, hx⟩ := hu
    obtain ⟨res, s', hrun, -, hstored⟩ := memberUpdate_run h hp field (hx.passes l)
    exact .inl <| wrap (fun _ => none) rfl hrun (hstored.error_ne (by simp [refusal]) (by simp [refusal]))
  | keyTarget key =>
    obtain ⟨res, s', hrun, -, hfetched⟩ := keyAccess_run h hp key
    exact .inl <| wrap some rfl hrun (hfetched.error_ne (by simp [refusal]) (by simp [refusal]))
  | keyUpdateTarget key value =>
    obtain ⟨ref, x, rfl, hx⟩ := hu
    obtain ⟨res, s', hrun, -, hstored⟩ := memberUpdate_run h hp key (hx.passes l)
    exact .inl <| wrap (fun _ => none) rfl hrun (hstored.error_ne (by simp [refusal]) (by simp [refusal]))

/-- The value that a use shows. -/
def Use.shown (r : Nat) (w : World P) (o : Option Payload) : Option (Option JSVal) := o.map (·.shown w r)

/-- A method and the plain function are used with other outcomes. -/
theorem Use.differs {u : Use} {plain : JSValueRef} {f : JSVal} (h : Ready r l s)
    (hplain : plain.Denotes s.world r f) (hf : f.isFunction = true) (hu : u.Plain s.world r)
    (g o : JSValueRef) :
    OtherOutcome r (Use.shown r) s (u.prog (some r) (.method g o)) (u.prog (some r) (.value plain)) := by
  obtain ⟨res, s', hrun, hne⟩ | ⟨hrun, -⟩ := Use.plain_run h hplain hf hu
  · refine ⟨_, Use.method_run hu g o, .inl ⟨_, hrun, fun halike => hne ?_⟩⟩
    have hres := halike.1
    cases res with
    | ok a => cases hres
    | error e =>
      cases hres
      rfl
  · exact ⟨_, Use.method_run hu g o, .inr hrun⟩

theorem OtherOutcome.not_same {α β : Type} {shown : World P → α → β} {p q : Prog α}
    (h : OtherOutcome r shown s p q) : ¬ SameOutcome r shown s p q := by
  obtain ⟨out₁, h₁, hother⟩ := h
  rintro (⟨out₁', out₂', h₁', h₂', hsame⟩ | ⟨h₁', h₂'⟩)
  · obtain ⟨out₂, h₂, hn⟩ | h₂ := hother
    · rw [h₁] at h₁'
      rw [h₂] at h₂'
      cases h₁'
      cases h₂'
      exact hn hsame
    · rw [h₂] at h₂'
      cases h₂'
  · rw [h₁] at h₁'
    cases h₁'

/-- `memberAccess` returns a function as a method. -/
theorem memberAccess_function {s₀ s₁ : Store P} {l₀ : Loc P} {o : JSValueRef} {x f : JSVal} {k : String}
    {m : Payload} (h₀ : Ready r l₀ s₀) (ho : o.Denotes s₀.world r x) (hf : l₀.got x (.ofName k) = some f)
    (hfun : f.isFunction = true)
    (hm : (JSRuntime.memberAccess (.value o) k).exec.run s₀ = .ok (.ok m, s₁)) : ∃ g, m = .method g o := by
  obtain ⟨res, s', hrun, -, hfetched⟩ := memberAccess_run h₀ ho k
  rw [hm] at hrun
  cases hrun
  obtain ⟨g, y, -, hy, -, hres, -⟩ | ⟨-, -, hres, -⟩ | ⟨-, hres, -⟩ := hfetched
  · rw [hf] at hy
    cases hy
    rw [member, if_pos hfun] at hres
    exact ⟨g, Except.ok.inj hres⟩
  · cases hres
  · cases hres

/-- In every state, every use of a function that `memberAccess` returned ends in another way than the use
of the same function as a plain value. Only a call with too many arguments for the stack does not return. -/
theorem methods_never_interchangeable {s₀ s₁ : Store P} {l₀ : Loc P} {o plain : JSValueRef} {x f : JSVal}
    {k : String} {m : Payload} (h₀ : Ready r l₀ s₀) (ho : o.Denotes s₀.world r x)
    (hf : l₀.got x (.ofName k) = some f) (hfun : f.isFunction = true)
    (hm : (JSRuntime.memberAccess (.value o) k).exec.run s₀ = .ok (.ok m, s₁)) (h : Ready r l s)
    (hplain : plain.Denotes s.world r f) (u : Use) (hu : u.Plain s.world r) :
    OtherOutcome r (Use.shown r) s (u.prog (some r) m) (u.prog (some r) (.value plain)) ∧
      (¬ u.Overruns P → ∃ out, (u.prog (some r) (.value plain)).exec.run s = .ok out) := by
  obtain ⟨g, rfl⟩ := memberAccess_function h₀ ho hf hfun hm
  refine ⟨Use.differs h hplain hfun hu g o, fun hn => ?_⟩
  obtain ⟨res, s', hrun, -⟩ | ⟨-, hoverruns⟩ := Use.plain_run h hplain hfun hu
  · exact ⟨_, hrun⟩
  · exact absurd hoverruns hn

/-- An engine with one object, `{ f() { return this } }`. -/
def methodPlatform : Platform :=
  { Platform.idle Unit () with
    getProperty := fun _ key h =>
      (.ok (if key = PropKey.ofName "f" then .function 1 ⟨true, true⟩ else .undefined), h)
    call := fun _ this _ h => (.ok this, h) }

/-- The state in which its handle is there. -/
def methodState : Store methodPlatform := Store.sample _ () () (.object 0)

theorem methodState_ready : Ready 0 (Loc.sample () ()) methodState := sample_ready _ _ _ _

theorem methodState_denotes :
    JSValueRef.Denotes (P := methodPlatform) ⟨0, some 0⟩ methodState.world 0 (.object 0) :=
  ⟨0, rfl, sample_holds _ _ _ _⟩

theorem methodState_got :
    (Loc.sample () () : Loc methodPlatform).got (.object 0) (.ofName "f") = some (.function 1 ⟨true, true⟩) := by
  simp [Loc.got, methodPlatform, Except.toOption]

/-- `o.f` is read as a member, and then with the string index `"f"`. -/
theorem method_reads : ∃ (m : Payload) (plain : JSValueRef) (s₁ s₂ : Store methodPlatform)
    (l : Loc methodPlatform),
    (JSRuntime.memberAccess (.value ⟨0, some 0⟩) "f").exec.run methodState = .ok (.ok m, s₁) ∧
    Ready 0 l s₂ ∧ plain.Denotes s₂.world 0 (.function 1 ⟨true, true⟩) := by
  obtain ⟨res, s₁, hrun, hext, hfetched⟩ := memberAccess_run methodState_ready methodState_denotes "f"
  obtain ⟨g, y, -, -, -, rfl, -, h₁⟩ | ⟨-, hn, -⟩ | ⟨hn, -⟩ := hfetched
  · obtain ⟨res', s₂, -, -, hfetched'⟩ := keyAccess_run h₁ (methodState_denotes.mono hext) "f"
    obtain ⟨plain, z, -, hz, -, -, hplain, h₂⟩ | ⟨-, hn, -⟩ | ⟨hn, -⟩ := hfetched'
    · refine ⟨_, plain, s₁, s₂, _, hrun, h₂, ?_⟩
      have hz' : some (JSVal.function 1 ⟨true, true⟩) = some z := by
        rw [← hz]
        simp [Loc.got, methodPlatform, Except.toOption]
      cases hz'
      exact hplain
    · exact absurd rfl hn
    · cases hn
  · exact absurd rfl hn
  · cases hn

theorem methods_never_interchangeable_operand : ∃ (m : Payload) (plain : JSValueRef)
    (s₁ s₂ : Store methodPlatform),
    (JSRuntime.memberAccess (.value ⟨0, some 0⟩) "f").exec.run methodState = .ok (.ok m, s₁) ∧
    OtherOutcome 0 (Use.shown 0) s₂ (Use.operand.prog (some 0) m)
      (Use.operand.prog (some 0) (.value plain)) := by
  obtain ⟨m, plain, s₁, s₂, l, hm, h₂, hplain⟩ := method_reads
  exact ⟨m, plain, s₁, s₂, hm, (methods_never_interchangeable methodState_ready methodState_denotes
    methodState_got rfl hm h₂ hplain .operand trivial).1⟩

/-- A function that was read as a member cannot stand for the function. -/
theorem methods_not_first_class : ¬ ∀ (P : Platform) (r : Nat) (l₀ l : Loc P) (s₀ s₁ s : Store P)
    (o plain : JSValueRef) (x f : JSVal) (k : String) (m : Payload), Ready r l₀ s₀ → o.Denotes s₀.world r x →
    l₀.got x (.ofName k) = some f → f.isFunction = true →
    (JSRuntime.memberAccess (.value o) k).exec.run s₀ = .ok (.ok m, s₁) → Ready r l s →
    plain.Denotes s.world r f → ∀ u : Use, u.Plain s.world r →
      SameOutcome r (Use.shown r) s (u.prog (some r) m) (u.prog (some r) (.value plain)) := by
  intro hall
  obtain ⟨m, plain, s₁, s₂, l, hm, h₂, hplain⟩ := method_reads
  have hsame := hall _ _ _ _ _ _ _ _ _ _ _ _ _ methodState_ready methodState_denotes methodState_got rfl hm
    h₂ hplain .operand trivial
  obtain ⟨g, rfl⟩ := memberAccess_function methodState_ready methodState_denotes methodState_got rfl hm
  have hother := Use.differs (u := .operand) h₂ hplain rfl trivial g ⟨0, some 0⟩
  exact hother.not_same hsame

/-! ## Member access and string indexing -/

/-- The kind of a value is read without a trace. -/
theorem valueKind_run {p : Nat} {y : JSVal} (h : Ready r l s) (hp : s.world.Holds p r y) :
    (Call.valueKind (some p)).run.run s.world = .ok (y.kind.code, s.world) := by
  obtain ⟨L, e, -, hw⟩ := h.on
  obtain ⟨t, ht⟩ := hp
  have hvalid : (validValue (some p)).run s.world = .ok (true, s.world) := by
    refine (run_bind_of (readValue_run ht)).trans ?_
    exact (run_bind_of (readRuntime_run hw.cell)).trans rfl
  refine (run_bind_of hvalid).trans ?_
  exact (run_bind_of (readValue_run ht)).trans rfl

theorem valueIs_run {p : Nat} {y : JSVal} (h : Ready r l s) (hp : s.world.Holds p r y) (kind : Int) :
    (valueIs kind (some p)).exec.run s = .ok (.ok (decide (y.kind.code = kind)), s) := by
  have hkind := valueKind_run h hp
  have hcall : (onWorld (Call.valueKind (some p)).run : StateT (Store P) (Except Fault) _).run s =
      .ok (y.kind.code, s) := by
    simp only [onWorld, StateT.run] at hkind ⊢
    rw [hkind]
  exact (run_bind_of hcall).trans rfl

/-- The two reads end in one state, with one object. -/
theorem access_run {o : JSValueRef} {x : JSVal} (h : Ready r l s) (ho : o.Denotes s.world r x) (k : String) :
    ∃ s', s.Extends s' ∧
      ((∃ g y, (JSRuntime.memberAccess (.value o) k).exec.run s = .ok (.ok (member o y g), s') ∧
          (JSRuntime.indexAccess (.value o) (.string k)).exec.run s = .ok (.ok (.value g), s') ∧
          x.isObject = true ∧ l.got x (.ofName k) = some y ∧ l.Gets x (.ofName k) ∧
          g.Denotes s'.world r y ∧ Ready r (l.afterGet x (.ofName k)).kept s') ∨
        ∃ e, (JSRuntime.memberAccess (.value o) k).exec.run s = .ok (.error e, s') ∧
          (JSRuntime.indexAccess (.value o) (.string k)).exec.run s = .ok (.error e, s') ∧
          ¬ (x.isObject = true ∧ l.Gets x (.ofName k))) := by
  obtain ⟨p, hp, hx⟩ := ho
  obtain ⟨L, hs⟩ := h.on
  obtain ⟨res, s', hrun, hpost⟩ := (getProperty_spec hx k).run hs
  rw [← hp] at hrun
  obtain ⟨q, rfl, hobj, y, hy, hgets, rfl, hw⟩ | ⟨e, rfl, herr⟩ := hpost
  · -- the handle is there, and both wrap it in the next object
    obtain ⟨hready, hext, hholds⟩ := h.granted hw
    let g : JSValueRef := ⟨s'.nextRef, some s.world.nextValue⟩
    let s'' : Store P := { s' with nextRef := s'.nextRef + 1 }
    have hg : g.Denotes s''.world r y := ⟨_, rfl, hholds⟩
    have hworld : s''.world = s'.world := rfl
    obtain ⟨hready', -⟩ := hready.congr hworld
    refine ⟨s'', hext, .inl ⟨g, y, ?_, ?_, hobj, hy, hgets, hg, hready'⟩⟩
    · refine (Prog.exec_bind_of hrun).trans ?_
      refine (Prog.exec_bind_of (valueIs_run hready hholds jsValueFunctionKind)).trans ?_
      have hkind := kind_function y
      by_cases hf : y.kind.code = jsValueFunctionKind
      · rw [member, if_pos (hkind.mp hf)]
        simp only [hf, decide_true, if_true]
        rfl
      · rw [member, if_neg fun hfun => hf (hkind.mpr hfun)]
        simp only [hf, decide_false, Bool.false_eq_true, if_false]
        rfl
    · exact (Prog.exec_bind_of hrun).trans rfl
  · have hn : ¬ (x.isObject = true ∧ l.Gets x (.ofName k)) := by
      rintro ⟨hobj, hgets⟩
      obtain ⟨hobj', -⟩ | ⟨-, hgets', -⟩ := herr
      · rw [hobj] at hobj'
        cases hobj'
      · exact hgets' hgets
    obtain ⟨-, hext⟩ : (∃ l', Ready r l' s') ∧ s.Extends s' := by
      obtain ⟨-, -, hw⟩ | ⟨-, -, -, hw⟩ := herr
      · exact ⟨⟨_, (h.run hw).1⟩, (h.run hw).2⟩
      · exact ⟨⟨_, (h.run hw).1⟩, (h.run hw).2⟩
    have hfail (wrapping : Ptr → Prog Payload) :
        ((getProperty o.handle k).bind wrapping).exec.run s = .ok (.error e, s') := Prog.exec_bind_error hrun
    exact ⟨s', hext, .inr ⟨e, hfail _, hfail _, hn⟩⟩

/-! ### Calls -/

section Dispatch

variable {b w : World P} {L : Multiset Resource} {function receiver : JSValueRef} {f this : JSVal}
  {refs : List JSValueRef} {argv : List JSVal}

/-- What the two attempts of `functionCall` give, and the heap after them. -/
def Loc.dispatched (l : Loc P) (f this : JSVal) (argv : List JSVal) : Except Exn (Option JSVal) × P.Heap :=
  if (l.afterCall f this argv).delivers (l.callResult f this argv) then
    (.ok (l.callResult f this argv), (l.afterCall f this argv).heap)
  else
    let l := l.tried f this argv
    if (l.afterConstruct f argv).delivers (l.constructResult f argv) then
      (.ok (l.constructResult f argv), (l.afterConstruct f argv).heap)
    else
      (.error (l.constructTried f argv).callExn, (l.constructTried f argv).heap)

theorem Granted.valueOf {x : JSVal} (h : Granted r b l L x w) : w.valueOf r (some b.nextValue) = some x := by
  obtain ⟨t, hw⟩ := h
  exact hw.valueOf_nextValue

theorem Granted.heap {x : JSVal} (h : Granted r b l L x w) : (w.runtimes r).bind (·.context) = some l.heap := by
  obtain ⟨t, hw⟩ := h
  exact hw.heap

theorem Ended.dispatched {res : Except Exn Payload} (h : Ended r b l L f this argv res w) :
    res.map (·.shown w r) = (l.dispatched f this argv).1 ∧
      (w.runtimes r).bind (·.context) = some (l.dispatched f this argv).2 := by
  unfold Loc.dispatched
  obtain ⟨payload, rfl, ref, x, rfl, href, ⟨hcall, hx, hw⟩ | ⟨hcall, hcons, hx, hw⟩⟩ |
    ⟨e, rfl, hcall, hcons, rfl, hw⟩ := h
  · unfold Loc.CallGives at hcall
    rw [if_pos hcall, hx]
    refine ⟨?_, hw.heap⟩
    simp only [Except.map, Payload.shown]
    rw [href, hw.valueOf]
  · unfold Loc.CallGives at hcall
    unfold Loc.ConstructGives at hcons
    simp only [hcall, hcons, Bool.false_eq_true, if_false, if_true]
    refine ⟨?_, hw.heap⟩
    rw [hx]
    simp only [Except.map, Payload.shown]
    rw [href, hw.valueOf]
  · unfold Loc.CallGives at hcall
    unfold Loc.ConstructGives at hcons
    simp only [hcall, hcons, Bool.false_eq_true, if_false]
    exact ⟨rfl, hw.heap⟩

/-- The message of `fill_argv`. -/
def foreignArgument : CStr := utf8 "argument does not belong to this runtime"

theorem argvOf_foreign {ref : JSValueRef} (hmem : ref ∈ refs) (hval : b.valueOf r ref.handle = none) :
    b.argvOf r (some (refs.map (·.handle))) refs.length = .error foreignArgument := by
  have hpos : ¬ ((refs.length : Int) < 0) := by omega
  have htake : (refs.map (·.handle)).take (Int.toNat refs.length) = refs.map (·.handle) :=
    List.take_of_length_le (by simp)
  have hnone : (refs.map (·.handle)).mapM (b.valueOf r) = none :=
    mapM_eq_none ⟨ref.handle, List.mem_map_of_mem hmem, hval⟩
  simp only [World.argvOf, hpos, if_false, Option.isNone_some, Bool.false_eq_true, and_false,
    Option.getD_some, htake, hnone]
  rfl

theorem callValue_refused {m : CStr} (hf : function.Denotes b r f) (hthis : receiver.Receives b r this)
    (hlive : ∀ ref ∈ refs, b.NullOrLive ref.handle)
    (hm : b.argvOf r (some (refs.map (·.handle))) refs.length = .error m) (hlen : P.TakesArgs refs.length) :
    Runs (On r b l L) (JSRuntime.callValue (some r) function receiver refs) (fun _ _ => False)
      (fun e s => e = (l.setError m).callExn ∧ On r b (l.setError m) L s) := by
  obtain ⟨⟨_, _, _⟩, rfl, hofInt⟩ := int32_ofInt_length hlen.1
  obtain ⟨p, hp, hx⟩ := hf
  have hcall := (jsValueCall_spec (r := r) (l := l) (L := L) hx hthis.nullOrLive (countsArgs_handles refs)
    (by simpa using hlive)).total fun _ h => h.2.2.2 hlen.2
  rw [hthis.thisOf, hm] at hcall
  unfold JSRuntime.callValue
  rw [hofInt, hp]
  refine Runs.touch ?_
  refine Runs.call hcall fun q => Runs.lift fun hq => ?_
  subst hq
  exact valueFromCallHandle_none

theorem constructValue_refused {m : CStr} (hf : function.Denotes b r f)
    (hlive : ∀ ref ∈ refs, b.NullOrLive ref.handle)
    (hm : b.argvOf r (some (refs.map (·.handle))) refs.length = .error m) (hlen : P.TakesArgs refs.length) :
    Runs (On r b l L) (JSRuntime.constructValue (some r) function refs) (fun _ _ => False)
      (fun e s => e = (l.setError m).callExn ∧ On r b (l.setError m) L s) := by
  obtain ⟨⟨_, _, _⟩, rfl, hofInt⟩ := int32_ofInt_length hlen.1
  obtain ⟨p, hp, hx⟩ := hf
  have hcall := (jsValueConstruct_spec (r := r) (l := l) (L := L) hx (countsArgs_handles refs)
    (by simpa using hlive)).total fun _ h => h.2.2.2 hlen.2
  rw [hm] at hcall
  unfold JSRuntime.constructValue
  rw [hofInt, hp]
  refine Runs.touch ?_
  refine Runs.call hcall fun q => Runs.lift fun hq => ?_
  subst hq
  exact valueFromCallHandle_none

/-- With a refused argument both attempts fail alike, whatever the receiver is. -/
theorem dispatch_refused {receiver : Prog JSValueRef} {m : CStr} (hf : function.Denotes b r f)
    (hrec : Runs (On r b l L) receiver (fun ref s => ref.Receives b r this ∧ On r b l L s) fun _ _ => False)
    (hlive : ∀ ref ∈ refs, b.NullOrLive ref.handle)
    (hm : b.argvOf r (some (refs.map (·.handle))) refs.length = .error m) (hlen : P.TakesArgs refs.length) :
    Runs (On r b l L)
      (Prog.tryCatch (do jsExtern (← JSRuntime.callValue (some r) function (← receiver) refs))
        fun _ => do jsExtern (← JSRuntime.constructValue (some r) function refs))
      (fun _ _ => False)
      (fun e s => e = ((l.setError m).setError m).callExn ∧ On r b ((l.setError m).setError m) L s) := by
  refine Runs.tryCatch (Q := fun _ s => On r b (l.setError m) L s) ?_ fun e => ?_
  · refine Runs.bind (hrec.post (fun _ _ h => h) fun _ _ h => h.elim) fun ref => Runs.lift fun hthis => ?_
    refine Runs.bind (Runs.post (callValue_refused hf hthis hlive hm hlen) (fun _ _ h => h) fun e s h => h.2)
      fun q => ?_
    exact fun _ hfalse => hfalse.elim
  · refine Runs.bind (constructValue_refused hf hlive hm hlen) fun q => ?_
    exact fun _ hfalse => hfalse.elim

end Dispatch

/-- What a client sees of a payload. -/
def payloadShown (r : Nat) (w : World P) (e : Payload) : Option JSVal := e.shown w r

theorem denote_of_values {w : World P} {refs : List JSValueRef} {argv : List JSVal}
    (hlive : ∀ ref ∈ refs, w.NullOrLive ref.handle)
    (hvals : refs.map (fun ref => w.valueOf r ref.handle) = argv.map some) : Denote w r refs argv := by
  induction refs generalizing argv with
  | nil =>
    cases argv with
    | nil => exact .nil
    | cons x argv => cases hvals
  | cons ref refs ih =>
    cases argv with
    | nil => cases hvals
    | cons x argv =>
      simp only [List.map_cons, List.cons.injEq] at hvals
      refine .cons ((hlive ref (by simp)).holds hvals.1) (ih (fun u hu => hlive u (by simp [hu])) hvals.2)

/-- The values are all there, or one is missing. -/
theorem exists_argv_or_none (os : List (Option JSVal)) : (∃ argv : List JSVal, os = argv.map some) ∨ none ∈ os := by
  induction os with
  | nil => exact .inl ⟨[], rfl⟩
  | cons o os ih =>
    cases o with
    | none => exact .inr (by simp)
    | some x =>
      obtain ⟨argv, rfl⟩ | hnone := ih
      · exact .inl ⟨x :: argv, rfl⟩
      · exact .inr (by simp [hnone])

theorem Callee.mono {s s' : Store P} {e : Payload} {f this : JSVal}
    (h : Callee s.world r e f this) (he : s.Extends s') : Callee s'.world r e f this := by
  cases e with
  | value ref => exact ⟨h.1.mono he, h.2⟩
  | method function receiver => exact ⟨h.1.mono he, h.2.mono he⟩
  | pointer p => exact h
  | other => exact h

theorem functionCall_refused {s₁ s₂ : Store P} {L : Multiset Resource} {e : Payload} {f this : JSVal}
    {args : List Any} {refs : List JSValueRef} {m : CStr}
    (hconv : (JSRuntime.toJSValues (some r) args).exec.run s₁ = .ok (.ok refs, s₂))
    (hs : On r s₂.world l L s₂) (hcallee : Callee s₂.world r e f this)
    (hlive : ∀ ref ∈ refs, s₂.world.NullOrLive ref.handle)
    (hm : s₂.world.argvOf r (some (refs.map (·.handle))) refs.length = .error m)
    (hlen : P.TakesArgs refs.length) :
    ∃ s₃, (JSRuntime.functionCall (some r) e args).exec.run s₁ =
      .ok (.error ((l.setError m).setError m).callExn, s₃) ∧
      s₃.heap r = some ((l.setError m).setError m).heap := by
  have hend {p : Prog Payload} (hp : Runs (On r s₂.world l L) p (fun _ _ => False)
      (fun e s => e = ((l.setError m).setError m).callExn ∧
        On r s₂.world ((l.setError m).setError m) L s)) :
      ∃ s₃, p.exec.run s₂ = .ok (.error ((l.setError m).setError m).callExn, s₃) ∧
        s₃.heap r = some ((l.setError m).setError m).heap := by
    obtain ⟨res, s₃, hrun, ⟨a, -, hfalse⟩ | ⟨e, rfl, rfl, hw⟩⟩ := hp.run hs
    · exact hfalse.elim
    · exact ⟨s₃, hrun, hw.heap⟩
  cases e with
  | value ref =>
    obtain ⟨hf, rfl⟩ := hcallee
    obtain ⟨s₃, hrun, hheap⟩ := hend (dispatch_refused hf (newRef_none_spec fun ref s hr h =>
      ⟨.inl ⟨hr, rfl⟩, h⟩) hlive hm hlen)
    exact ⟨s₃, (Prog.exec_bind_of hconv).trans hrun, hheap⟩
  | method function receiver =>
    obtain ⟨hf, hr⟩ := hcallee
    obtain ⟨s₃, hrun, hheap⟩ := hend (dispatch_refused hf ((Runs.ret receiver).pre fun s h =>
      ⟨.inr hr, h⟩) hlive hm hlen)
    exact ⟨s₃, (Prog.exec_bind_of hconv).trans hrun, hheap⟩
  | pointer handle => exact hcallee.elim
  | other => exact hcallee.elim

/-- A call ends alike with itself, whatever its arguments are. -/
theorem functionCall_refl {s₁ s₂ : Store P} {g : JSValueRef} {f : JSVal} {args : List Any}
    {refs : List JSValueRef} (h : Ready r l s₂)
    (hconv : (JSRuntime.toJSValues (some r) args).exec.run s₁ = .ok (.ok refs, s₂))
    (hlive : ∀ ref ∈ refs, s₂.world.NullOrLive ref.handle) (hg : g.Denotes s₂.world r f) :
    SameOutcome r (payloadShown r) s₁ (JSRuntime.functionCall (some r) (.value g) args)
      (JSRuntime.functionCall (some r) (.value g) args) := by
  obtain ⟨L, hs⟩ := h.on
  have hvalue : Callee s₂.world r (.value g) f .undefined := ⟨hg, rfl⟩
  by_cases hlen : refs.length ≤ maxArgs
  · by_cases hfit : P.FitsArgv refs.length
    · obtain ⟨argv, hargv⟩ | hnone := exists_argv_or_none (refs.map fun ref => s₂.world.valueOf r ref.handle)
      · obtain ⟨res, t, hrun, -⟩ :=
          functionCall_spec hconv hs hvalue (denote_of_values hlive hargv) ⟨hlen, hfit⟩
        exact .inl ⟨_, _, hrun, hrun, rfl, rfl⟩
      · obtain ⟨ref, hmem, hval⟩ := List.mem_map.mp hnone
        obtain ⟨t, hrun, -⟩ :=
          functionCall_refused hconv hs hvalue hlive (argvOf_foreign hmem hval) ⟨hlen, hfit⟩
        exact .inl ⟨_, _, hrun, hrun, rfl, rfl⟩
    · have hstop := functionCall_stops hconv hs hvalue hlen hfit
      exact .inr ⟨hstop, hstop⟩
  · obtain ⟨res, t, hrun, -⟩ := functionCall_overflow hconv hs hvalue (not_le.mp hlen)
    exact .inl ⟨_, _, hrun, hrun, rfl, rfl⟩

/-- What the answer `out` of `JS_Call` gives to the client, with the C library in `host`: a value and the
heap, or the heap and the C library that the construct starts from. -/
def Platform.answered (P : Platform) (host : P.Host) :
    Except JSVal JSVal × P.Heap → (JSVal × P.Heap) ⊕ (P.Heap × P.Host)
  | (.ok x, h) => if (P.malloc host).1 then .inl (x, h) else .inr (h, (P.malloc (P.malloc host).2).2)
  | (.error e, h) => .inr (P.textHeap e h, (P.malloc host).2)

/-- Two calls of `f` come to the same: they give the same value and heap, or the construct after a failed one
gives what the other gave, or the constructs after both end alike. -/
def Platform.SameAnswer (P : Platform) (f : JSVal) (argv : List JSVal) :
    (JSVal × P.Heap) ⊕ (P.Heap × P.Host) → (JSVal × P.Heap) ⊕ (P.Heap × P.Host) → Prop
  | .inl gave₁, .inl gave₂ => gave₁ = gave₂
  | .inl gave, .inr start => P.constructed f argv start.1 start.2 = (.ok gave.1, gave.2)
  | .inr start, .inl gave => P.constructed f argv start.1 start.2 = (.ok gave.1, gave.2)
  | .inr start₁, .inr start₂ =>
    P.constructed f argv start₁.1 start₁.2 = P.constructed f argv start₂.1 start₂.2

/-- Where a call of the client goes on after `JS_Call`. -/
theorem Loc.answered_eq (l : Loc P) (f this : JSVal) (argv : List JSVal) :
    (∃ x, l.CallGives f this argv ∧ l.callResult f this argv = some x ∧
      P.answered l.host (P.call f this argv l.heap) = .inl (x, (l.afterCall f this argv).heap)) ∨
    (¬ l.CallGives f this argv ∧ P.answered l.host (P.call f this argv l.heap) =
      .inr ((l.tried f this argv).heap, (l.tried f this argv).host)) := by
  have hhost := l.afterCall_host f this argv
  unfold Loc.CallGives Loc.tried Loc.callResult Loc.delivers Platform.answered
  rcases hc : P.call f this argv l.heap with ⟨e | x, h⟩
  · have hexn : (l.afterCall f this argv).exception = some e := by simp [Loc.afterCall, hc]
    have hheap : (l.afterCall f this argv).heap = h := by simp [Loc.afterCall, hc]
    refine .inr ⟨by simp [Except.toOption], ?_⟩
    simp only [Except.toOption, hexn, hheap, Option.getD_some, Loc.lost, Loc.capture, Loc.setError,
      Loc.after_host, Loc.after_heap, hhost]
    rfl
  · have hheap : (l.afterCall f this argv).heap = h := by simp [Loc.afterCall, hc]
    by_cases hroom : (P.malloc l.host).1 = true
    · exact .inl ⟨x, by simp [Except.toOption, hhost, hroom], rfl, by simp [hroom, hheap]⟩
    · refine .inr ⟨by simp [Except.toOption, hhost, hroom], ?_⟩
      simp only [hroom, Bool.false_eq_true, if_false, Except.toOption, hheap, Loc.lost, Loc.setError, hhost]

/-- The two attempts, by the answers of the engine. -/
theorem Loc.dispatched_eq (l : Loc P) (f this : JSVal) (argv : List JSVal) :
    l.dispatched f this argv =
      match P.answered l.host (P.call f this argv l.heap) with
      | .inl (x, h) => (.ok (some x), h)
      | .inr (h, host) => (((P.constructed f argv h host).1.map some).mapError failureExn,
          (P.constructed f argv h host).2) := by
  unfold Loc.dispatched
  obtain ⟨x, hgives, hx, hans⟩ | ⟨hgives, hans⟩ := l.answered_eq f this argv <;> unfold CallGives at hgives <;>
    rw [hans]
  · rw [if_pos hgives, hx]
  · rw [if_neg hgives]
    obtain ⟨x, hgives, hx, hcons⟩ | ⟨m, hgives, hexn, hcons⟩ := (l.tried f this argv).constructed_eq f argv <;>
      unfold ConstructGives at hgives <;> simp only [hcons]
    · rw [if_pos hgives, hx]
      rfl
    · rw [if_neg hgives, hexn]
      rfl

theorem Loc.dispatched_eq_iff (l : Loc P) (f this this' : JSVal) (argv : List JSVal) :
    l.dispatched f this argv = l.dispatched f this' argv ↔
      P.SameAnswer f argv (P.answered l.host (P.call f this argv l.heap))
        (P.answered l.host (P.call f this' argv l.heap)) := by
  have hinj : ∀ res res' : Except (Option String) JSVal,
      (res.map some).mapError failureExn = (res'.map some).mapError failureExn ↔ res = res' := by
    rintro (m | x) (m' | x') <;> simp [Except.map, Except.mapError, failureExn_injective.eq_iff]
  have hok : ∀ (x : JSVal) (res : Except (Option String) JSVal),
      (res.map some).mapError failureExn = .ok (some x) ↔ res = .ok x := fun x res => hinj res (.ok x)
  rw [l.dispatched_eq f this, l.dispatched_eq f this']
  rcases P.answered l.host (P.call f this argv l.heap) with ⟨x, h⟩ | ⟨h, host⟩ <;>
    rcases P.answered l.host (P.call f this' argv l.heap) with ⟨x', h'⟩ | ⟨h', host'⟩ <;>
    simp only [Platform.SameAnswer, Prod.ext_iff, Except.ok.injEq, Option.some.injEq, hinj]
  · rw [eq_comm, hok, eq_comm (a := h)]
  · rw [hok]

/-- A call of the method and a call of the function, after the conversion of the arguments. -/
theorem functionCall_same_iff {s₁ s₂ : Store P} {g o : JSValueRef} {f x : JSVal} {args : List Any}
    {refs : List JSValueRef} (h : Ready r l s₂)
    (hconv : (JSRuntime.toJSValues (some r) args).exec.run s₁ = .ok (.ok refs, s₂))
    (hlive : ∀ ref ∈ refs, s₂.world.NullOrLive ref.handle) (hg : g.Denotes s₂.world r f)
    (ho : o.Denotes s₂.world r x) :
    SameOutcome r (payloadShown r) s₁ (JSRuntime.functionCall (some r) (.method g o) args)
      (JSRuntime.functionCall (some r) (.value g) args) ↔
    ∀ argv : List JSVal, refs.map (fun ref => s₂.world.valueOf r ref.handle) = argv.map some →
      P.TakesArgs refs.length →
      l.dispatched f x argv = l.dispatched f .undefined argv := by
  obtain ⟨L, hs⟩ := h.on
  have hmethod : Callee s₂.world r (.method g o) f x := ⟨hg, ho⟩
  have hvalue : Callee s₂.world r (.value g) f .undefined := ⟨hg, rfl⟩
  by_cases hlen : refs.length ≤ maxArgs
  case neg =>
    obtain ⟨_, t₁, hrun₁, rfl, hs₁⟩ := functionCall_overflow hconv hs hmethod (not_le.mp hlen)
    obtain ⟨_, t₂, hrun₂, rfl, hs₂⟩ := functionCall_overflow hconv hs hvalue (not_le.mp hlen)
    refine iff_of_true (.inl ⟨_, _, hrun₁, hrun₂, rfl, hs₁.heap.trans hs₂.heap.symm⟩) fun _ _ hle => ?_
    exact absurd hle.1 hlen
  by_cases hfit : P.FitsArgv refs.length
  case neg =>
    refine iff_of_true (.inr ⟨functionCall_stops hconv hs hmethod hlen hfit,
      functionCall_stops hconv hs hvalue hlen hfit⟩) fun _ _ hle => absurd hle.2 hfit
  have htakes : P.TakesArgs refs.length := ⟨hlen, hfit⟩
  obtain ⟨argv, hargv⟩ | hnone := exists_argv_or_none (refs.map fun ref => s₂.world.valueOf r ref.handle)
  · have hargs := denote_of_values hlive hargv
    obtain ⟨res₁, t₁, hrun₁, hend₁⟩ := functionCall_spec hconv hs hmethod hargs htakes
    obtain ⟨res₂, t₂, hrun₂, hend₂⟩ := functionCall_spec hconv hs hvalue hargs htakes
    obtain ⟨hres₁, hheap₁⟩ := hend₁.dispatched
    obtain ⟨hres₂, hheap₂⟩ := hend₂.dispatched
    constructor
    · rintro (⟨out₁, out₂, h₁, h₂, hsame, hheap⟩ | ⟨h₁, -⟩) argv' hargv' -
      · rw [hrun₁] at h₁
        rw [hrun₂] at h₂
        cases h₁
        cases h₂
        rw [hargv] at hargv'
        obtain rfl := (List.map_injective_iff.mpr (Option.some_injective _)) hargv'
        refine Prod.ext ?_ ?_
        · rw [← hres₁, ← hres₂]
          exact hsame
        · apply Option.some_injective
          rw [← hheap₁, ← hheap₂]
          exact hheap
      · rw [hrun₁] at h₁
        cases h₁
    · intro hsame
      have heq := hsame argv hargv htakes
      refine .inl ⟨_, _, hrun₁, hrun₂, ?_, ?_⟩
      · exact (hres₁.trans (congrArg Prod.fst heq)).trans hres₂.symm
      · exact (hheap₁.trans (congrArg (fun out => some out.2) heq)).trans hheap₂.symm
  · -- an argument is refused before the receiver matters
    obtain ⟨ref, hmem, hval⟩ := List.mem_map.mp hnone
    have hm := argvOf_foreign hmem hval
    obtain ⟨t₁, hrun₁, hheap₁⟩ := functionCall_refused hconv hs hmethod hlive hm htakes
    obtain ⟨t₂, hrun₂, hheap₂⟩ := functionCall_refused hconv hs hvalue hlive hm htakes
    refine iff_of_true (.inl ⟨_, _, hrun₁, hrun₂, rfl, hheap₁.trans hheap₂.symm⟩) fun argv hargv _ => ?_
    rw [hargv] at hnone
    simp at hnone

/-- The receiver `x` makes no difference to a call of its property `key`: if the property is a function, the
arguments convert and the call can take them, then what the engine answers in the heap that they left comes to
the same with `this` as `x` and with `undefined`. -/
def Loc.IgnoresReceiver (own : Ptr → Option JSVal) (l : Loc P) (x : JSVal) (key : PropKey)
    (args : List Any) : Prop :=
  ∀ f (argv : List JSVal) l', x.isObject = true → l.got x key = some f → l.Gets x key →
    f.isFunction = true → (l.afterGet x key).kept.passAll own args = some (argv.map some, l') →
    P.TakesArgs args.length →
    P.SameAnswer f argv (P.answered l'.host (P.call f x argv l'.heap))
      (P.answered l'.host (P.call f .undefined argv l'.heap))

theorem callAgrees_iff {o : JSValueRef} {x : JSVal} {args : List Any} (h : Ready r l s)
    (ho : o.Denotes s.world r x) (k : String) (hargs : ∀ a ∈ args, a.Sound s.world) :
    SameOutcome r (payloadShown r) s
      (do JSRuntime.functionCall (some r) (← JSRuntime.memberAccess (.value o) k) args)
      (do JSRuntime.functionCall (some r) (← JSRuntime.indexAccess (.value o) (.string k)) args) ↔
    l.IgnoresReceiver (s.world.valueOf r) x (.ofName k) args := by
  obtain ⟨s₁, hext, ⟨g, y, hmember, hindex, hobj, hy, hgets, hg, h₁⟩ | ⟨e, hmember, hindex, hn⟩⟩ :=
    access_run h ho k
  · obtain ⟨res, s₂, hconv, hext', hpassed⟩ := toJSValues_passed h₁ hext hargs
    have hbind (p : Prog Payload) (e : Payload) (hrun : p.exec.run s = .ok (.ok e, s₁)) :
        (do JSRuntime.functionCall (some r) (← p) args).exec.run s =
          (JSRuntime.functionCall (some r) e args).exec.run s₁ := Prog.exec_bind_of hrun
    unfold SameOutcome
    rw [hbind _ _ hmember, hbind _ _ hindex]
    rcases hall : (l.afterGet x (.ofName k)).kept.passAll (s.world.valueOf r) args with _ | ⟨os, l₂⟩ <;>
      rw [hall] at hpassed
    · -- an argument does not convert, before the callee matters
      obtain ⟨e, rfl⟩ := hpassed
      refine iff_of_true ?_ fun f argv l' _ _ _ _ hall' => ?_
      · have hfail (f : JSValueRef) (receiver : Prog JSValueRef) :
            (JSRuntime.callOrConstruct (some r) f receiver args).exec.run s₁ = .ok (.error e, s₂) :=
          Prog.exec_bind_error hconv
        refine .inl ⟨_, _, ?_, hfail _ _, rfl, rfl⟩
        unfold member
        split
        · exact hfail _ _
        · exact hfail _ _
      · rw [hall] at hall'
        cases hall'
    · obtain ⟨refs, rfl, h₂, hlive, hvals⟩ := hpassed
      by_cases hf : y.isFunction = true
      · have hsame := functionCall_same_iff h₂ hconv hlive (hg.mono hext') (ho.mono (hext.trans hext'))
        unfold SameOutcome at hsame
        rw [member, if_pos hf, hsame, toJSValues_length hconv, hvals]
        constructor
        · intro hcond f argv l' _ hf' _ _ hall' hlen
          rw [hy] at hf'
          cases hf'
          rw [hall] at hall'
          cases hall'
          exact (l₂.dispatched_eq_iff _ _ _ _).mp (hcond argv rfl hlen)
        · intro hcond argv hargv hlen
          exact (l₂.dispatched_eq_iff _ _ _ _).mpr (hcond y argv l₂ hobj hy hgets hf (by rw [hall, hargv]) hlen)
      · -- no function, so no method
        rw [member, if_neg hf]
        refine iff_of_true ?_ fun f argv l' _ hf' _ hfun => ?_
        · exact functionCall_refl h₂ hconv hlive (hg.mono hext')
        · rw [hy] at hf'
          cases hf'
          exact absurd hfun hf
  · -- the read fails
    refine iff_of_true (.inl ⟨_, _, Prog.exec_bind_error hmember, Prog.exec_bind_error hindex, rfl, rfl⟩) ?_
    intro f argv l' hobj _ hgets
    exact absurd ⟨hobj, hgets⟩ hn

/-- A property that is no function. -/
theorem methodState_ignoresReceiver (args : List Any) :
    (Loc.sample () () : Loc methodPlatform).IgnoresReceiver (methodState.world.valueOf 0) (.object 0)
      (.ofName "g") args := by
  intro f argv l' _ hf _ hfun
  have hne : PropKey.ofName "g" ≠ PropKey.ofName "f" := by decide
  have hundefined : f = .undefined := by simpa [Loc.got, methodPlatform, Except.toOption, hne] using hf.symm
  rw [hundefined] at hfun
  cases hfun

end InteropJs
