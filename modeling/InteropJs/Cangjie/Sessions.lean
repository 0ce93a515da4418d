import InteropJs.Bridge.Visits
import InteropJs.Cangjie.History

/-!
# Sessions with a module

A program that imports one module any number of times, with the file that `ModuleEngine` speaks of.

* `Prog.Only` says of a program text which calls it makes. The imports of the file, the updates and the calls
  make only visits, whatever their arguments are (`Op.Visiting.only`); an access does if it reads an own data
  property.
* `Session` are the states that such a program reaches. `Session.kept`: in every one of them the heap is sound
  and the handles denote tame values.
-/

namespace InteropJs

variable {P : Platform} {r : Nat} {c : Client} {s : Store P}

/-! ## The calls of a program text -/

/-- Every call of the program satisfies `φ`. -/
def Prog.Only {α : Type} (φ : {β : Type} → Call β → Prop) : Prog α → Prop
  | .ret _ | .raise _ => True
  | .alloc _ k => ∀ ref, (k ref).Only φ
  | .touch _ k => k.Only φ
  | .native _ c k => φ c ∧ ∀ x, (k x).Only φ

/-- Its calls satisfy `φ`, and there is at most one more, of `ψ`, at the end. -/
def Prog.Ends {α : Type} (φ ψ : {β : Type} → Call β → Prop) : Prog α → Prop
  | .ret _ | .raise _ => True
  | .alloc _ k => ∀ ref, (k ref).Ends φ ψ
  | .touch _ k => k.Ends φ ψ
  | .native _ c k => φ c ∧ (∀ x, (k x).Ends φ ψ) ∨ ψ c ∧ ∀ x, (k x).Only fun _ => False

section Only

variable {α β : Type} {φ ψ χ : {β : Type} → Call β → Prop} {p : Prog α} {f : α → Prog β}

theorem Prog.Only.bind (hp : p.Only φ) (hf : ∀ a, (f a).Only φ) : (p.bind f).Only φ := by
  induction p with
  | ret a => exact hf a
  | raise e => trivial
  | alloc h k ih => exact fun ref => ih ref (hp ref)
  | touch rs k ih => exact ih hp
  | native rs c k ih => exact ⟨hp.1, fun x => ih x (hp.2 x)⟩

theorem Prog.Only.tryCatch {handler : Exn → Prog α} (hp : p.Only φ) (hh : ∀ e, (handler e).Only φ) :
    (p.tryCatch handler).Only φ := by
  induction p with
  | ret a => trivial
  | raise e => exact hh e
  | alloc h k ih => exact fun ref => ih ref (hp ref)
  | touch rs k ih => exact ih hp
  | native rs c k ih => exact ⟨hp.1, fun x => ih x (hp.2 x)⟩

theorem Prog.Only.ite {b : Prop} [Decidable b] {q : Prog α} (hp : p.Only φ) (hq : q.Only φ) :
    (if b then p else q).Only φ := by
  split
  · exact hp
  · exact hq

theorem Prog.Only.mono (hp : p.Only φ) (h : ∀ {β : Type} (c : Call β), φ c → χ c) : p.Only χ := by
  induction p with
  | ret a => trivial
  | raise e => trivial
  | alloc handle k ih => exact fun ref => ih ref (hp ref)
  | touch rs k ih => exact ih hp
  | native rs c k ih => exact ⟨h c hp.1, fun x => ih x (hp.2 x)⟩

theorem Prog.Ends.bind (hp : p.Only φ) (hf : ∀ a, (f a).Ends φ ψ) : (p.bind f).Ends φ ψ := by
  induction p with
  | ret a => exact hf a
  | raise e => trivial
  | alloc h k ih => exact fun ref => ih ref (hp ref)
  | touch rs k ih => exact ih hp
  | native rs c k ih => exact .inl ⟨hp.1, fun x => ih x (hp.2 x)⟩

theorem Prog.Ends.only (hp : p.Ends φ ψ) (hφ : ∀ {β : Type} (c : Call β), φ c → χ c)
    (hψ : ∀ {β : Type} (c : Call β), ψ c → χ c) : p.Only χ := by
  induction p with
  | ret a => trivial
  | raise e => trivial
  | alloc handle k ih => exact fun ref => ih ref (hp ref)
  | touch rs k ih => exact ih hp
  | native rs c k ih =>
    obtain ⟨hc, hk⟩ | ⟨hc, hk⟩ := hp
    · exact ⟨hφ c hc, fun x => ih x (hk x)⟩
    · exact ⟨hψ c hc, fun x => (hk x).mono fun _ h => h.elim⟩

theorem Call.prog_only {c : Call α} (h : φ c) : c.prog.Only φ := ⟨h, fun _ => trivial⟩

end Only

/-! ## The calls of the operations -/

/-- A call that makes a primitive, or looks at a kind or at the error string. -/
def Call.Mild : {β : Type} → Call β → Prop
  | _, .runtimeLastError _ | _, .runtimeNewBool _ _ | _, .runtimeNewNumber _ _ | _, .runtimeNewString _ _
  | _, .runtimeNewBigint _ _ | _, .valueKind _ => True
  | _, _ => False

/-- The write of one property. -/
def Call.Writes (p : Ptr) (name : CStr) : {β : Type} → Call β → Prop
  | _, .valueSetProperty q name' _ => q = p ∧ name' = some name
  | _, _ => False

/-- A call that is a visit whatever the state is. -/
def Call.Visiting (path : CStr) : {β : Type} → Call β → Prop
  | _, .runtimeDestroy _ | _, .runtimeEvalValue _ _ | _, .runtimeGetGlobalProperty _ _
  | _, .valueGetProperty _ _ | _, .valueGetIndex _ _ => False
  | _, .runtimeImportModule _ file => file = some path
  | _, _ => True

section Texts

variable {runtime : Ptr} {path : CStr}

theorem Call.Mild.visiting {β : Type} {call : Call β} (h : call.Mild) : call.Visiting path := by
  cases call <;> first | exact h.elim | trivial

theorem Call.Writes.visiting {β : Type} {call : Call β} {p : Ptr} {name : CStr} (h : call.Writes p name) :
    call.Visiting path := by
  cases call <;> first | exact h.elim | trivial

theorem cStringToString_only (str : CStr) {φ : {β : Type} → Call β → Prop} : (cStringToString str).Only φ := by
  unfold cStringToString
  split <;> trivial

theorem runtimeError_only : (runtimeError runtime).Only Call.Mild :=
  (Call.prog_only trivial).bind fun str => cStringToString_only str

theorem valueFromRuntimeHandle_only (p : Ptr) : (valueFromRuntimeHandle runtime p).Only Call.Mild :=
  .ite (runtimeError_only.bind fun _ => trivial) trivial

theorem valueFromCallHandle_only (p : Ptr) : (valueFromCallHandle runtime p).Only Call.Mild :=
  .ite (runtimeError_only.bind fun _ => .ite trivial trivial) trivial

/-- A conversion asks for one new primitive, and for the error string if there is none. -/
theorem newValue_only {call : Call Ptr} (h : call.Mild) :
    (do let handle ← call.prog
        newRef (← valueFromRuntimeHandle runtime handle) : Prog JSValueRef).Only Call.Mild :=
  (Call.prog_only h).bind fun p => (valueFromRuntimeHandle_only p).bind fun _ _ => trivial

theorem toJSValue_only (v : Any) : (JSRuntime.toJSValue runtime v).Only Call.Mild := by
  cases v with
  | externValue e => cases e <;> first | trivial | exact fun _ => trivial
  | pointer p => exact fun _ => trivial
  | int t i => cases t <;> exact newValue_only trivial
  | bigInt i => exact newValue_only trivial
  | float t f => exact newValue_only trivial
  | bool b => exact newValue_only trivial
  | string str => exact newValue_only trivial
  | other => trivial

theorem toJSValues_only (vs : List Any) : (JSRuntime.toJSValues runtime vs).Only Call.Mild := by
  induction vs with
  | nil => trivial
  | cons v vs ih => exact (toJSValue_only v).bind fun ref => ih.bind fun _ => trivial

theorem valueIs_only (kind : Int) (p : Ptr) : (valueIs kind p).Only Call.Mild :=
  .bind (.ite trivial (Call.prog_only trivial)) fun _ => trivial

theorem valueHasProperties_only (p : Ptr) : (valueHasProperties p).Only Call.Mild :=
  (valueIs_only _ p).bind fun _ => .ite trivial (valueIs_only _ p)

theorem setProperty_ends (p q : Ptr) (name : String) :
    (setProperty p name q).Ends Call.Mild (Call.Writes p (mallocCString name)) := by
  refine Prog.Ends.bind (valueHasProperties_only p) fun ok => ?_
  cases ok with
  | false => trivial
  | true => exact .inr ⟨⟨rfl, rfl⟩, fun _ => .ite trivial trivial⟩

/-- `memberUpdate` writes one property, at the end. -/
theorem memberUpdate_ends (o : JSValueRef) (field : String) (v : Any) :
    (JSRuntime.memberUpdate runtime (.value o) field v).Ends Call.Mild
      (Call.Writes o.handle (mallocCString field)) :=
  Prog.Ends.bind (toJSValue_only v) fun ref => setProperty_ends o.handle ref.handle field

theorem memberUpdate_only (e : Payload) (field : String) (v : Any) :
    (JSRuntime.memberUpdate runtime e field v).Only (Call.Visiting path) := by
  cases e with
  | value o => exact (memberUpdate_ends o field v).only (fun _ h => h.visiting) fun _ h => h.visiting
  | _ => trivial

theorem setIndex_only (p q : Ptr) (index : Int) : (setIndex p index q).Only (Call.Visiting path) := by
  refine .bind (.bind (Call.prog_only trivial) fun _ => trivial) fun ok => .ite trivial ?_
  refine .bind (Call.prog_only trivial) fun length => .ite trivial ?_
  exact .bind (Call.prog_only trivial) fun status => .ite trivial trivial

theorem jsIndex_only (arg : Any) {φ : {β : Type} → Call β → Prop} : (jsIndex arg).Only φ := by
  unfold jsIndex
  split <;> trivial

theorem indexUpdate_only (e : Payload) (arg v : Any) :
    (JSRuntime.indexUpdate runtime e arg v).Only (Call.Visiting path) := by
  have hindex (o : JSValueRef) : (do
      let jsValue ← JSRuntime.toJSValue runtime v
      let p ← o.pointer
      let index ← jsIndex arg
      setIndex p index (← jsValue.pointer) : Prog Unit).Only (Call.Visiting path) := by
    refine .bind ((toJSValue_only v).mono fun _ h => h.visiting) fun ref => ?_
    exact (jsIndex_only arg).bind fun i => setIndex_only o.handle ref.handle i
  cases e with
  | value o =>
    cases arg with
    | string key => exact memberUpdate_only (.value o) key v
    | _ => exact hindex o
  | _ => trivial

theorem ofInt_only (t : IntType) (n : Int) {φ : {β : Type} → Call β → Prop} : (t.ofInt n).Only φ := by
  unfold IntType.ofInt
  split <;> trivial

theorem callHandle_only (rs : List JSValueRef) {call : Call Ptr} (h : call.Visiting path) :
    (do let result ← Prog.native rs call .ret
        valueFromCallHandle runtime result : Prog Ptr).Only (Call.Visiting path) :=
  ⟨h, fun p => (valueFromCallHandle_only p).mono fun _ h => h.visiting⟩

theorem callValue_only (function receiver : JSValueRef) (refs : List JSValueRef) :
    (JSRuntime.callValue runtime function receiver refs).Only (Call.Visiting path) :=
  (ofInt_only _ _).bind fun _ => callHandle_only _ trivial

theorem constructValue_only (function : JSValueRef) (refs : List JSValueRef) :
    (JSRuntime.constructValue runtime function refs).Only (Call.Visiting path) :=
  (ofInt_only _ _).bind fun _ => callHandle_only _ trivial

theorem callOrConstruct_only (function : JSValueRef) {receiver : Prog JSValueRef} (args : List Any)
    (hrec : receiver.Only (Call.Visiting path)) :
    (JSRuntime.callOrConstruct runtime function receiver args).Only (Call.Visiting path) := by
  refine .bind ((toJSValues_only args).mono fun _ h => h.visiting) fun refs => .tryCatch ?_ fun e => ?_
  · exact hrec.bind fun ref => (callValue_only function ref refs).bind fun p _ => trivial
  · exact (constructValue_only function refs).bind fun p _ => trivial

theorem functionCall_only (e : Payload) (args : List Any) :
    (JSRuntime.functionCall runtime e args).Only (Call.Visiting path) := by
  cases e with
  | value f => exact callOrConstruct_only f args fun _ => trivial
  | method f receiver => exact callOrConstruct_only f args trivial
  | pointer p => trivial
  | other => trivial

theorem getModule_only {name : String} (h : mallocCString name = path) :
    (JSRuntime.getModule runtime name).Only (Call.Visiting path) := by
  subst h
  refine .bind (Call.prog_only rfl) fun p => .ite ?_ fun _ => trivial
  exact (runtimeError_only.mono fun _ h => h.visiting).bind fun _ => trivial

/-- An import of the file, an update or a call. -/
def Op.Visiting (path : CStr) : Op → Prop
  | .getModule name => mallocCString name = path
  | .memberUpdate _ _ _ | .indexUpdate _ _ _ | .functionCall _ _ => True
  | _ => False

theorem Op.Visiting.only {op : Op} (h : op.Visiting path) : (op.prog runtime).Only (Call.Visiting path) := by
  cases op with
  | getModule name => exact getModule_only h
  | memberUpdate e field v => exact memberUpdate_only e field v
  | indexUpdate e arg v => exact indexUpdate_only e arg v
  | functionCall e args => exact functionCall_only e args
  | _ => exact h.elim

end Texts

/-! ## Sessions -/

/-- A run of a function in which every call of the bridge satisfies `good` in its world. -/
inductive RanIf (good : World P → {β : Type} → Call β → Prop) {α : Type} :
    Prog α → Client × Store P → Except Exn α → Client × Store P → Prop where
  | ret {a : α} {x : Client × Store P} : RanIf good (.ret a) x (.ok a) x
  | raise {e : Exn} {x : Client × Store P} : RanIf good (.raise e) x (.error e) x
  | alloc {h : Ptr} {k : JSValueRef → Prog α} {c : Client} {s : Store P} {res : Except Exn α}
      {y : Client × Store P}
      (rest : RanIf good (k ⟨s.nextRef, h⟩) (c, { s with nextRef := s.nextRef + 1 }) res y) :
      RanIf good (.alloc h k) (c, s) res y
  | touch {rs : List JSValueRef} {k : Prog α} {x y : Client × Store P} {res : Except Exn α}
      (rest : RanIf good k x res y) : RanIf good (.touch rs k) x res y
  | native {β : Type} {rs : List JSValueRef} {call : Call β} {k : β → Prog α} {c : Client} {s : Store P}
      {r : Nat} {x : β} {w : World P} {res : Except Exn α} {y : Client × Store P}
      (allowed : c.Allows r call) (holds : good s.world call) (ran : call.run.run s.world = .ok (x, w))
      (rest : RanIf good (k x) (c.after r call x, { s with world := w }) res y) :
      RanIf good (.native rs call k) (c, s) res y

theorem Ran.ranIf {good : World P → {β : Type} → Call β → Prop} {φ : {β : Type} → Call β → Prop} {α : Type}
    {p : Prog α} {x y : Client × Store P} {res : Except Exn α} (h : Ran p x res y) (hp : p.Only φ)
    (hgood : ∀ (w : World P) {β : Type} (call : Call β), φ call → good w call) : RanIf good p x res y := by
  induction h with
  | ret => exact .ret
  | raise => exact .raise
  | alloc _ ih => exact .alloc (ih (hp _))
  | touch _ ih => exact .touch (ih hp)
  | native allowed ran _ ih => exact .native allowed (hgood _ _ hp.1) ran (ih (hp.2 _))

namespace ModuleEngine

open ModuleView

variable {source : List UInt8} {path : CStr} {E : ModuleEngine P source path} {l : Loc P}

theorem Visiting.visits {own : Ptr → Option JSVal} {h : P.Heap} {β : Type} {call : Call β}
    (hc : call.Visiting path) : E.Visits own h call := by
  cases call with
  | runtimeImportModule p file =>
    intro f hf
    cases hf.symm.trans hc
    rfl
  | _ => first | exact hc.elim | trivial

/-- The states that a program reaches with the runtime `r` and the module: by imports, updates and calls, by any
other operation whose calls are visits, by finalisers, and by what the engine frees. -/
inductive Session (E : ModuleEngine P source path) (r : Nat) : Client × Store P → Prop where
  | create {host : P.Host} {n : Nat} {y : Client × Store P}
      (ran : Ran createRuntime (Client.start, ⟨World.start host, n⟩) (.ok (some r)) y) : Session E r y
  | visit {x y : Client × Store P} {op : Op} {res : Except Exn op.Out} (before : Session E r x)
      (visiting : op.Visiting path) (ran : Ran (op.prog (some r)) x res y) : Session E r y
  | other {x y : Client × Store P} {op : Op} {res : Except Exn op.Out} (before : Session E r x)
      (ran : RanIf (E.VisitsIn r) (op.prog (some r)) x res y) : Session E r y
  | finalise {c : Client} {s : Store P} {p r' : Nat} {w : World P} (before : Session E r (c, s))
      (live : (p, r') ∈ c.live) (ran : (Call.valueDestroy (some p)).run.run s.world = .ok ((), w)) :
      Session E r (c.after r' (.valueDestroy (some p)) (), { s with world := w })
  | reclaim {c : Client} {s : Store P} {l : Loc P} {heap : P.Heap} (before : Session E r (c, s))
      (host : P.Host) (open_ : s.world.loc? r = some l) (step : E.Step ∅ ∅ l.heap heap) :
      Session E r (c, { s with world := s.world.reclaimed r heap host })

/-- The runtime after `createRuntime`. -/
theorem kept_create {host : P.Host} {n : Nat} {y : Client × Store P}
    (ran : Ran createRuntime (Client.start, ⟨World.start host, n⟩) (.ok (some r)) y) :
    E.Kept r y.1 y.2.world := by
  cases ran with
  | @native _ _ _ _ _ _ r' x w _ _ allowed hrun rest =>
    have hinv := ((Reach.start host).call _ allowed hrun).inv
    obtain ⟨host', n', hnone⟩ | ⟨heap, host', ⟨host₀, hnew⟩, hsome⟩ := jsRuntimeCreate_spec (w := World.start host) rfl
    · cases hrun.symm.trans hnone
      cases rest
    · cases hrun.symm.trans hsome
      cases rest
      refine ⟨hinv, Finset.mem_insert_self _ _, Finset.notMem_empty _, fun l hl => ?_, fun l p x hl hp => ?_⟩
      · simp only [World.loc?, World.addRuntime, Loc.cell, Function.update_self] at hl
        cases hl
        refine ⟨E.newContext hnew, fun x hx => ?_⟩
        cases hx
      · obtain ⟨t, ht⟩ := hp
        cases ht

/-- What the engine frees is not seen. -/
theorem Kept.reclaimed {c : Client} {w : World P} {heap : P.Heap} (h : E.Kept r c w)
    (hl : w.loc? r = some l) (host : P.Host) (hstep : E.Step ∅ ∅ l.heap heap) :
    E.Kept r c (w.reclaimed r heap host) := by
  have hself := World.reclaimed_self hl heap host
  refine ⟨h.inv.reclaimed hl heap host, h.runtime, h.inUse, fun l' hl' => ?_, fun l' p x hl' hp => ?_⟩
  · cases hself.symm.trans hl'
    exact ⟨hstep.sound, fun x hx => hstep.tame x ((h.fine l hl).exception x hx)⟩
  · cases hself.symm.trans hl'
    exact hstep.tame x (h.tame l p x hl hp)

/-- A run of visits keeps the runtime. -/
theorem Kept.ran {α : Type} {p : Prog α} {x y : Client × Store P} {res : Except Exn α}
    (ran : RanIf (E.VisitsIn r) p x res y) (h : E.Kept r x.1 x.2.world) : E.Kept r y.1 y.2.world := by
  induction ran with
  | ret => exact h
  | raise => exact h
  | alloc _ ih => exact ih h
  | touch _ ih => exact ih h
  | native allowed holds ran _ ih =>
    obtain ⟨l, hl⟩ := h.loc
    obtain ⟨l', -, hkept, -⟩ := h.call allowed ran hl (holds l hl)
    exact ih hkept

theorem Session.kept {x : Client × Store P} (h : E.Session r x) : E.Kept r x.1 x.2.world := by
  induction h with
  | create ran => exact kept_create ran
  | visit _ visiting ran ih => exact ih.ran (ran.ranIf visiting.only fun _ _ _ hc _ _ => Visiting.visits hc)
  | other _ ran ih => exact ih.ran ran
  | @finalise c s p r' w _ live ran ih =>
    obtain ⟨l, hl⟩ := ih.loc
    have allowed : c.Allows r' (.valueDestroy (some p)) := .inr ⟨p, rfl, live⟩
    obtain ⟨l', -, hkept, -⟩ := ih.call allowed ran hl trivial
    exact hkept
  | reclaim _ host hl step ih => exact ih.reclaimed hl host step

end ModuleEngine

end InteropJs
