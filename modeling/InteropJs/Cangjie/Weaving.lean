import InteropJs.Bridge.Mirror
import InteropJs.Cangjie.Results
import InteropJs.Cangjie.Sessions

/-!
# Finalisers act through the engine only

A client program (`Script`) runs public operations one after another; the results and the exceptions of
the earlier ones decide which come later. The collector destroys handles at any time, during the
operations and between them. An engine that lost its last reference to an object frees it, which a `WeakRef`
can show.

* `Woven` is a run of a function with finalisers and with steps of the engines at any of its statements; its
  trace has a `Mark` for each. The only condition is the contract of the bridge: no call takes a handle that
  was destroyed (`Op.safe_iff_protected` says for which schedules that is so).
* `Prog.Reads`: a program that gets strings of `js_value_to_string` for `ownedCStringToString` only, as
  every operation does. `Prog.Alike`: two programs that differ in the blocks of these strings only. A
  program that `Reads` is alike to itself, because a block is freed without its number being looked at.
* `Woven.unwoven`: a woven run has the result of a run without finalisers in which the engines take the same
  steps, and its world is mirrored (`Mirrors`) by the world of that run. So of what the collector does, a
  script can tell the steps of the engines and nothing else (`finalisers_unobservable`).
-/

namespace InteropJs

variable {P : Platform} {r : Nat} {α β : Type}

/-! ## Programs that do not look at blocks -/

/-- The two programs differ in the blocks of strings only; `ρ` are those that both hold (module doc). -/
inductive Prog.Alike {α : Type} : StringPairs → Prog α → Prog α → Prop where
  | ret {ρ : StringPairs} (a : α) : Alike ρ (.ret a) (.ret a)
  | raise {ρ : StringPairs} (e : Exn) : Alike ρ (.raise e) (.raise e)
  | alloc {ρ : StringPairs} {h : Ptr} {k k' : JSValueRef → Prog α} (rest : ∀ ref, Alike ρ (k ref) (k' ref)) :
      Alike ρ (.alloc h k) (.alloc h k')
  | touch {ρ : StringPairs} {rs : List JSValueRef} {k k' : Prog α} (rest : Alike ρ k k') :
      Alike ρ (.touch rs k) (.touch rs k')
  | native {ρ : StringPairs} {β : Type} {rs : List JSValueRef} {call : Call β} {k k' : β → Prog α}
      (ordinary : call.Ordinary) (rest : ∀ x, Alike ρ (k x) (k' x)) :
      Alike ρ (.native rs call k) (.native rs call k')
  | text {ρ : StringPairs} {rs : List JSValueRef} {p : Ptr} {k k' : Option OwnedString → Prog α}
      (rest : ∀ s s', s'.map (·.bytes) = s.map (·.bytes) → Alike (ρ + .of s s') (k s) (k' s')) :
      Alike ρ (.native rs (.valueToString p) k) (.native rs (.valueToString p) k')
  | free {ρ : StringPairs} {rs : List JSValueRef} {s s' : OwnedString} {k k' : Unit → Prog α}
      (held : (s, s') ∈ ρ) (rest : Alike (ρ.erase (s, s')) (k ()) (k' ())) :
      Alike ρ (.native rs (.bridgeFreeString (some s)) k) (.native rs (.bridgeFreeString (some s')) k')

section Alike

variable {ρ : StringPairs} {p q : Prog α}

theorem Prog.Alike.bind {f g : α → Prog β} (h : p.Alike ρ q) (hf : ∀ ρ a, (f a).Alike ρ (g a)) :
    (p.bind f).Alike ρ (q.bind g) := by
  induction h with
  | ret a => exact hf _ a
  | raise e => exact .raise e
  | alloc _ ih => exact .alloc ih
  | touch _ ih => exact .touch ih
  | native ho _ ih => exact .native ho ih
  | text _ ih => exact .text ih
  | free hm _ ih => exact .free hm ih

theorem Prog.Alike.tryCatch {f g : Exn → Prog α} (h : p.Alike ρ q) (hf : ∀ ρ e, (f e).Alike ρ (g e)) :
    (p.tryCatch f).Alike ρ (q.tryCatch g) := by
  induction h with
  | ret a => exact .ret a
  | raise e => exact hf _ e
  | alloc _ ih => exact .alloc ih
  | touch _ ih => exact .touch ih
  | native ho _ ih => exact .native ho ih
  | text _ ih => exact .text ih
  | free hm _ ih => exact .free hm ih

/-- The block is read, and then freed. -/
theorem ownedCStringToString_alike {s s' : Option OwnedString}
    (h : s'.map (·.bytes) = s.map (·.bytes)) :
    (ownedCStringToString s).Alike (ρ + .of s s') (ownedCStringToString s') := by
  cases s <;> cases s' <;> simp only [Option.map_some, Option.map_none, reduceCtorEq] at h
  · exact .ret ""
  · next s s' =>
    have hbytes : s'.bytes = s.bytes := Option.some.inj h
    unfold ownedCStringToString
    dsimp only
    rw [hbytes, cStringToString]
    cases hstr : s.bytes.string? with
    | none => exact .raise _
    | some str =>
      refine .free ?_ (.ret str)
      simp [StringPairs.of]

end Alike

/-! ### Reading texts -/

/-- `try { p } catch (e)`, with both outcomes as results. -/
def Prog.attempt (p : Prog α) : Prog (Except Exn α) :=
  Prog.tryCatch (p.bind fun a => .ret (.ok a)) fun e => .ret (.error e)

/-- The end of a program with the outcome. -/
def Prog.ofExcept : Except Exn α → Prog α
  | .ok a => .ret a
  | .error e => .raise e

theorem Prog.bind_assoc {γ : Type} (p : Prog α) (f : α → Prog β) (g : β → Prog γ) :
    (p.bind f).bind g = p.bind fun a => (f a).bind g := by
  induction p with
  | ret a => rfl
  | raise e => rfl
  | alloc h k ih => exact congrArg (Prog.alloc h) (funext ih)
  | touch rs k ih => exact congrArg (Prog.touch rs) ih
  | native rs c k ih => exact congrArg (Prog.native rs c) (funext ih)

theorem Prog.attempt_bind_tryCatch (p : Prog α) (k : Except Exn α → Prog β) (f : Exn → Prog β) :
    (p.attempt.bind k).tryCatch f = p.attempt.bind fun res => (k res).tryCatch f := by
  induction p with
  | ret a => rfl
  | raise e => rfl
  | alloc h k ih => exact congrArg (Prog.alloc h) (funext ih)
  | touch rs k ih => exact congrArg (Prog.touch rs) ih
  | native rs c k ih => exact congrArg (Prog.native rs c) (funext ih)

theorem Prog.attempt_bind_ofExcept (p : Prog α) : p.attempt.bind .ofExcept = p := by
  induction p with
  | ret a => rfl
  | raise e => rfl
  | alloc h k ih => exact congrArg (Prog.alloc h) (funext ih)
  | touch rs k ih => exact congrArg (Prog.touch rs) ih
  | native rs c k ih => exact congrArg (Prog.native rs c) (funext ih)

/-- The strings of the program are those that `ownedCStringToString` reads (module doc). -/
inductive Prog.Reads {α : Type} : Prog α → Prop where
  | ret (a : α) : Reads (.ret a)
  | raise (e : Exn) : Reads (.raise e)
  | alloc {h : Ptr} {k : JSValueRef → Prog α} (rest : ∀ ref, Reads (k ref)) : Reads (.alloc h k)
  | touch {rs : List JSValueRef} {k : Prog α} (rest : Reads k) : Reads (.touch rs k)
  | native {β : Type} {rs : List JSValueRef} {call : Call β} {k : β → Prog α} (ordinary : call.Ordinary)
      (rest : ∀ x, Reads (k x)) : Reads (.native rs call k)
  | text {rs : List JSValueRef} {p : Ptr} {k : Except Exn String → Prog α} (rest : ∀ res, Reads (k res)) :
      Reads (.native rs (.valueToString p) fun s => (ownedCStringToString s).attempt.bind k)

section Reads

variable {p q : Prog α}

theorem Prog.Reads.alike {ρ : StringPairs} (h : p.Reads) : p.Alike ρ p := by
  induction h generalizing ρ with
  | ret a => exact .ret a
  | raise e => exact .raise e
  | alloc _ ih => exact .alloc fun ref => ih ref
  | touch _ ih => exact .touch ih
  | native ho _ ih => exact .native ho fun x => ih x
  | text _ ih =>
    refine .text fun s s' hs => Prog.Alike.bind ?_ fun ρ res => ih res
    exact .tryCatch ((ownedCStringToString_alike hs).bind fun _ _ => .ret _) fun _ _ => .ret _

theorem Prog.Reads.bind {f : α → Prog β} (h : p.Reads) (hf : ∀ a, (f a).Reads) : (p.bind f).Reads := by
  induction h with
  | ret a => exact hf a
  | raise e => exact .raise e
  | alloc _ ih => exact .alloc ih
  | touch _ ih => exact .touch ih
  | native ho _ ih => exact .native ho ih
  | text _ ih =>
    simp only [Prog.bind, Prog.bind_assoc]
    exact .text ih

theorem Prog.Reads.tryCatch {f : Exn → Prog α} (h : p.Reads) (hf : ∀ e, (f e).Reads) :
    (p.tryCatch f).Reads := by
  induction h with
  | ret a => exact .ret a
  | raise e => exact hf e
  | alloc _ ih => exact .alloc ih
  | touch _ ih => exact .touch ih
  | native ho _ ih => exact .native ho ih
  | text _ ih =>
    simp only [Prog.tryCatch, Prog.attempt_bind_tryCatch]
    exact .text ih

theorem Prog.Reads.ite {φ : Prop} [Decidable φ] (h : p.Reads) (h' : q.Reads) :
    (if φ then p else q).Reads := by
  by_cases hφ : φ
  · rwa [if_pos hφ]
  · rwa [if_neg hφ]

/-- A program without strings of the bridge. -/
theorem Prog.Only.reads (h : p.Only Call.Ordinary) : p.Reads := by
  induction p with
  | ret a => exact .ret a
  | raise e => exact .raise e
  | alloc handle k ih => exact .alloc fun ref => ih ref (h ref)
  | touch rs k ih => exact .touch (ih h)
  | native rs c k ih => exact .native h.1 fun x => ih x (h.2 x)

end Reads

/-! ### The operations -/

section Texts

variable {runtime : Ptr}

theorem Call.Mild.ordinary {call : Call β} (h : call.Mild) : call.Ordinary := by
  cases call <;> first | exact h.elim | trivial

theorem Prog.Only.ordinary {p : Prog α} (h : p.Only Call.Mild) : p.Only Call.Ordinary :=
  h.mono fun _ hc => hc.ordinary

theorem valueToString_reads (p : Ptr) :
    (Prog.native [] (.valueToString p) ownedCStringToString).Reads := by
  have hread : (fun s => (ownedCStringToString s).attempt.bind .ofExcept) = ownedCStringToString :=
    funext fun s => Prog.attempt_bind_ofExcept _
  rw [← hread]
  refine .text fun res => ?_
  cases res with
  | ok str => exact .ret str
  | error e => exact .raise e

theorem valueIsText_ordinary (p : Ptr) : (valueIsText p).Only Call.Ordinary :=
  (valueIs_only _ p).ordinary.bind fun _ => .ite trivial (valueIs_only _ p).ordinary

theorem valueAsString_reads (p : Ptr) : (valueAsString p).Reads := by
  refine (valueIsText_ordinary p).reads.bind fun ok => ?_
  cases ok with
  | false => exact .raise _
  | true => exact valueToString_reads p

theorem valueAsFloat64_ordinary (p : Ptr) : (valueAsFloat64 p).Only Call.Ordinary :=
  (valueIs_only _ p).ordinary.bind fun _ => .ite trivial (Call.prog_only trivial)

theorem valueAsBool_ordinary (p : Ptr) : (valueAsBool p).Only Call.Ordinary :=
  (valueIs_only _ p).ordinary.bind fun _ => .ite trivial ((Call.prog_only trivial).bind fun _ => trivial)

theorem numeric2Cangjie_reads (p : Ptr) {ofNumber : Float64 → Prog Any} {ofBigInt : Int → Prog Any}
    (hn : ∀ x, (ofNumber x).Only Call.Ordinary) (hb : ∀ i, (ofBigInt i).Only Call.Ordinary) :
    (numeric2Cangjie p ofNumber ofBigInt).Reads := by
  refine (valueIs_only _ p).ordinary.reads.bind fun ok => .ite ?_ ?_
  · exact ((valueAsFloat64_ordinary p).bind hn).reads
  · refine (valueIs_only _ p).ordinary.reads.bind fun ok => .ite ?_ (.raise _)
    refine (valueAsString_reads p).bind fun str => ?_
    unfold parseBigInt
    cases str.toInt? with
    | none => exact .raise _
    | some i => exact (hb i).reads

theorem ofFloat64_ordinary (t : IntType) (x : Float64) : (t.ofFloat64 x).Only Call.Ordinary := by
  unfold IntType.ofFloat64
  split
  · exact ofInt_only t _
  · exact ofInt_only t _
  · trivial

theorem quickJS2Cangjie_reads (p : Ptr) (t : Target) : (quickJS2Cangjie p t).Reads := by
  cases t with
  | bool =>
    refine (valueIs_only _ p).ordinary.reads.bind fun ok => .ite ?_ (.raise _)
    exact (valueAsBool_ordinary p).reads.bind fun b => .ret _
  | string =>
    refine (valueIsText_ordinary p).reads.bind fun ok => .ite ?_ (.raise _)
    exact (valueAsString_reads p).bind fun str => .ret _
  | int t =>
    exact numeric2Cangjie_reads p (fun x => (ofFloat64_ordinary t x).bind fun _ => trivial)
      fun i => (ofInt_only t i).bind fun _ => trivial
  | bigInt =>
    refine numeric2Cangjie_reads p (fun x => ?_) fun i => trivial
    cases x <;> trivial
  | float t => exact numeric2Cangjie_reads p (fun x => trivial) fun i => trivial
  | other => exact .raise _

theorem throwRuntimeError_ordinary {exn : String → Exn} :
    (do .raise (exn (← runtimeError runtime)) : Prog α).Only Call.Ordinary :=
  Prog.Only.bind runtimeError_only.ordinary fun _ => trivial

/-- A function of the runtime that wraps its handle. -/
theorem wrapHandle_ordinary (call : Call Ptr) (h : call.Ordinary) :
    (do let value ← call.prog
        if value.isNone then
          .raise (.dynamic (← runtimeError runtime))
        else
          jsExtern value : Prog Payload).Only Call.Ordinary :=
  (Call.prog_only h).bind fun _ => .ite throwRuntimeError_ordinary fun _ => trivial

theorem getProperty_ordinary (p : Ptr) (name : String) : (getProperty p name).Only Call.Ordinary :=
  (valueHasProperties_only p).ordinary.bind fun _ => .ite trivial <|
    (Call.prog_only trivial).bind fun _ => .ite trivial trivial

theorem setProperty_ordinary (p q : Ptr) (name : String) : (setProperty p name q).Only Call.Ordinary :=
  (valueHasProperties_only p).ordinary.bind fun _ => .ite trivial <|
    (Call.prog_only trivial).bind fun _ => .ite trivial trivial

theorem valueIsArray_ordinary (p : Ptr) : (valueIsArray p).Only Call.Ordinary :=
  (Call.prog_only trivial).bind fun _ => trivial

theorem getIndex_ordinary (p : Ptr) (index : Int) : (getIndex p index).Only Call.Ordinary :=
  (valueIsArray_ordinary p).bind fun _ => .ite trivial <| (Call.prog_only trivial).bind fun _ =>
    .ite trivial <| (Call.prog_only trivial).bind fun _ => .ite trivial trivial

theorem setIndex_ordinary (p q : Ptr) (index : Int) : (setIndex p index q).Only Call.Ordinary :=
  (valueIsArray_ordinary p).bind fun _ => .ite trivial <| (Call.prog_only trivial).bind fun _ =>
    .ite trivial <| (Call.prog_only trivial).bind fun _ => .ite trivial trivial

theorem callOrConstruct_ordinary (f : JSValueRef) (receiver : Prog JSValueRef) (args : List Any)
    (h : receiver.Only Call.Ordinary) :
    (JSRuntime.callOrConstruct runtime f receiver args).Only Call.Ordinary := by
  have handle {call : Call Ptr} (rs : List JSValueRef) (hc : call.Ordinary) :
      (do let result ← Prog.native rs call .ret
          valueFromCallHandle runtime result : Prog Ptr).Only Call.Ordinary :=
    ⟨hc, fun p => (valueFromCallHandle_only p).ordinary⟩
  have hcall (ref : JSValueRef) (refs : List JSValueRef) :
      (JSRuntime.callValue runtime f ref refs).Only Call.Ordinary :=
    (ofInt_only _ _).bind fun _ => handle _ trivial
  have hconstruct (refs : List JSValueRef) : (JSRuntime.constructValue runtime f refs).Only Call.Ordinary :=
    (ofInt_only _ _).bind fun _ => handle _ trivial
  refine (toJSValues_only args).ordinary.bind fun refs => .tryCatch ?_ fun e => ?_
  · exact h.bind fun ref => (hcall ref refs).bind fun _ _ => trivial
  · exact (hconstruct refs).bind fun _ _ => trivial

/-- Only `fromExtern` gets strings. -/
theorem Op.reads (op : Op) (runtime : Ptr) : (op.prog runtime).Reads := by
  cases op with
  | evalScript source =>
    exact (wrapHandle_ordinary (.runtimeEvalValue runtime (mallocCString source)) trivial).reads
  | enableStdModule =>
    have h : (JSRuntime.enableStdModule runtime).Only Call.Ordinary :=
      (Call.prog_only trivial).bind fun _ => .ite throwRuntimeError_ordinary trivial
    exact h.reads
  | globalAccess name =>
    exact (wrapHandle_ordinary (.runtimeGetGlobalProperty runtime (mallocCString name)) trivial).reads
  | getModule name =>
    exact (wrapHandle_ordinary (.runtimeImportModule runtime (mallocCString name)) trivial).reads
  | memberAccess e field =>
    cases e with
    | value ref =>
      have h : (JSRuntime.memberAccess (.value ref) field).Only Call.Ordinary :=
        Prog.Only.bind (p := getProperty ref.handle field) (getProperty_ordinary _ _) fun p =>
          (valueIs_only _ p).ordinary.bind fun _ => .ite (fun _ => trivial) fun _ => trivial
      exact h.reads
    | _ => exact .raise _
  | functionCall e args =>
    cases e with
    | value f => exact (callOrConstruct_ordinary f (newRef none) args fun _ => trivial).reads
    | method f g => exact (callOrConstruct_ordinary f (.ret g) args trivial).reads
    | _ => exact .raise _
  | memberUpdate e field v =>
    cases e with
    | value ref =>
      have h : (JSRuntime.memberUpdate runtime (.value ref) field v).Only Call.Ordinary :=
        (toJSValue_only v).ordinary.bind fun _ => setProperty_ordinary _ _ _
      exact h.reads
    | _ => exact .raise _
  | indexAccess e arg =>
    cases e with
    | value ref =>
      have key (name : String) : (JSRuntime.indexAccess (.value ref) (.string name)).Only Call.Ordinary :=
        Prog.Only.bind (p := getProperty ref.handle name) (getProperty_ordinary _ _) fun _ _ => trivial
      have index : (do
          let p ← ref.pointer
          jsExtern (← getIndex p (← jsIndex arg)) : Prog Payload).Only Call.Ordinary :=
        Prog.Only.bind (p := jsIndex arg) (jsIndex_only arg) fun i =>
          (getIndex_ordinary _ i).bind fun _ _ => trivial
      cases arg with
      | string name => exact (key name).reads
      | _ => exact index.reads
    | _ => exact .raise _
  | indexUpdate e arg v =>
    cases e with
    | value ref =>
      have key (name : String) :
          (JSRuntime.indexUpdate runtime (.value ref) (.string name) v).Only Call.Ordinary :=
        (toJSValue_only v).ordinary.bind fun _ => setProperty_ordinary _ _ _
      have index : (do
          let jsValue ← JSRuntime.toJSValue runtime v
          let p ← ref.pointer
          let index ← jsIndex arg
          setIndex p index (← jsValue.pointer) : Prog Unit).Only Call.Ordinary :=
        (toJSValue_only v).ordinary.bind fun value =>
          Prog.Only.bind (p := jsIndex arg) (jsIndex_only arg) fun i => setIndex_ordinary _ _ i
      cases arg with
      | string name => exact (key name).reads
      | _ => exact index.reads
    | _ => exact .raise _
  | fromExtern t e =>
    have href : (externContentToValue e).Only Call.Ordinary := by
      cases e <;> first | trivial | exact fun _ => trivial
    exact href.reads.bind fun p => quickJS2Cangjie_reads p t
  | toExtern v =>
    have h : (JSRuntime.toExtern runtime v).Only Call.Ordinary :=
      (toJSValue_only v).ordinary.bind fun _ => trivial
    exact h.reads

end Texts

/-! ## Runs with finalisers -/

/-- What a run does at one of its points. -/
inductive Mark (P : Platform) where
  /-- A statement that is no call. -/
  | pass
  | call (e : Answered P)
  /-- The engine of the runtime `r` frees what nothing refers to any more. -/
  | reclaim (r : Nat) (heap : P.Heap) (host : P.Host)
  | finalise (p : Nat)

/-- A statement, or a step of an engine; not a finaliser. -/
def Mark.shared : Mark P → Option (Option (Nat × P.Heap × P.Host))
  | .pass | .call _ => some none
  | .reclaim r heap host => some (some (r, heap, host))
  | .finalise _ => none

/-- The steps of the engines in a run, among its statements. -/
def engineSteps (τ : List (Mark P)) : List (Option (Nat × P.Heap × P.Host)) := τ.filterMap Mark.shared

/-- No finaliser ran. -/
def Unwoven (τ : List (Mark P)) : Prop := ∀ m ∈ τ, m.shared ≠ none

/-- A run of a function with finalisers and steps of the engines at any of its statements (module doc). -/
inductive Woven {α : Type} :
    Prog α → Client × Store P → List (Mark P) → Except Exn α → Client × Store P → Prop where
  | ret {a : α} {x : Client × Store P} : Woven (.ret a) x [] (.ok a) x
  | raise {e : Exn} {x : Client × Store P} : Woven (.raise e) x [] (.error e) x
  | alloc {h : Ptr} {k : JSValueRef → Prog α} {c : Client} {s : Store P} {τ : List (Mark P)}
      {res : Except Exn α} {y : Client × Store P}
      (rest : Woven (k ⟨s.nextRef, h⟩) (c, { s with nextRef := s.nextRef + 1 }) τ res y) :
      Woven (.alloc h k) (c, s) (.pass :: τ) res y
  | touch {rs : List JSValueRef} {k : Prog α} {x y : Client × Store P} {τ : List (Mark P)} {res : Except Exn α}
      (rest : Woven k x τ res y) : Woven (.touch rs k) x (.pass :: τ) res y
  | native {β : Type} {rs : List JSValueRef} {call : Call β} {k : β → Prog α} {c : Client} {s : Store P}
      {r : Nat} {x : β} {w : World P} {τ : List (Mark P)} {res : Except Exn α} {y : Client × Store P}
      (allowed : c.Allows r call) (ran : call.run.run s.world = .ok (x, w))
      (rest : Woven (k x) (c.after r call x, { s with world := w }) τ res y) :
      Woven (.native rs call k) (c, s) (.call ⟨call, x, s.world⟩ :: τ) res y
  | finalise {p : Prog α} {c : Client} {s : Store P} {q r : Nat} {w : World P} {τ : List (Mark P)}
      {res : Except Exn α} {y : Client × Store P} (live : (q, r) ∈ c.live)
      (ran : (Call.valueDestroy (some q)).run.run s.world = .ok ((), w))
      (rest : Woven p (c.after r (.valueDestroy (some q)) (), { s with world := w }) τ res y) :
      Woven p (c, s) (.finalise q :: τ) res y
  | reclaim {p : Prog α} {c : Client} {s : Store P} {r : Nat} {l : Loc P} {τ : List (Mark P)}
      {res : Except Exn α} {y : Client × Store P} (heap : P.Heap) (host : P.Host)
      (open_ : s.world.loc? r = some l)
      (rest : Woven p (c, { s with world := s.world.reclaimed r heap host }) τ res y) :
      Woven p (c, s) (.reclaim r heap host :: τ) res y

/-- It is a run of the bridge. -/
theorem Woven.steps {p : Prog α} {x y : Client × Store P} {τ : List (Mark P)} {res : Except Exn α}
    (h : Woven p x τ res y) : Relation.ReflTransGen Step (x.1, x.2.world) (y.1, y.2.world) := by
  induction h with
  | ret => exact .refl
  | raise => exact .refl
  | alloc _ ih => exact ih
  | touch _ ih => exact ih
  | native allowed ran _ ih => exact .head (.call _ allowed ran) ih
  | @finalise _ _ _ q r _ _ _ _ live ran _ ih =>
    exact .head (.call (r := r) (.valueDestroy (some q)) (.inr ⟨q, rfl, live⟩) ran) ih
  | reclaim heap host open_ _ ih => exact .head (.reclaim open_ heap host) ih

/-- Without finalisers and steps of the engines it is a plain run. -/
theorem Woven.ran {p : Prog α} {x y : Client × Store P} {τ : List (Mark P)} {res : Except Exn α}
    (h : Woven p x τ res y) (hno : ∀ m ∈ τ, m.shared = some none) : Ran p x res y := by
  induction h with
  | ret => exact .ret
  | raise => exact .raise
  | alloc _ ih => exact .alloc (ih fun m hm => hno m (.tail _ hm))
  | touch _ ih => exact .touch (ih fun m hm => hno m (.tail _ hm))
  | native allowed ran _ ih => exact .native allowed ran (ih fun m hm => hno m (.tail _ hm))
  | finalise _ _ _ _ => cases hno _ (.head _)
  | reclaim _ _ _ _ _ => cases hno _ (.head _)

/-- The steps of the engines decide how a run without finalisers ends. -/
theorem Woven.unique {p : Prog α} {x x' y y' : Client × Store P} {τ τ' : List (Mark P)} {res res' : Except Exn α}
    (h : Woven p x τ res y) (h' : Woven p x' τ' res' y') (hx : x'.2 = x.2) (hτ : Unwoven τ) (hτ' : Unwoven τ')
    (hsteps : engineSteps τ' = engineSteps τ) : res' = res ∧ y'.2 = y.2 := by
  induction h generalizing x' τ' with
  | ret =>
    cases h' with
    | ret => exact ⟨rfl, hx⟩
    | finalise _ _ _ => exact absurd rfl (hτ' _ (.head _))
    | reclaim _ _ _ _ => cases hsteps
  | raise =>
    cases h' with
    | raise => exact ⟨rfl, hx⟩
    | finalise _ _ _ => exact absurd rfl (hτ' _ (.head _))
    | reclaim _ _ _ _ => cases hsteps
  | alloc _ ih =>
    cases h' with
    | alloc rest =>
      cases hx
      exact ih rest rfl (fun m hm => hτ m (.tail _ hm)) (fun m hm => hτ' m (.tail _ hm)) (List.cons.inj hsteps).2
    | finalise _ _ _ => exact absurd rfl (hτ' _ (.head _))
    | reclaim _ _ _ _ => cases (List.cons.inj hsteps).1
  | touch _ ih =>
    cases h' with
    | touch rest =>
      exact ih rest hx (fun m hm => hτ m (.tail _ hm)) (fun m hm => hτ' m (.tail _ hm)) (List.cons.inj hsteps).2
    | finalise _ _ _ => exact absurd rfl (hτ' _ (.head _))
    | reclaim _ _ _ _ => cases (List.cons.inj hsteps).1
  | native _ ran _ ih =>
    cases h' with
    | native _ ran' rest =>
      cases hx
      cases ran.symm.trans ran'
      exact ih rest rfl (fun m hm => hτ m (.tail _ hm)) (fun m hm => hτ' m (.tail _ hm)) (List.cons.inj hsteps).2
    | finalise _ _ _ => exact absurd rfl (hτ' _ (.head _))
    | reclaim _ _ _ _ => cases (List.cons.inj hsteps).1
  | finalise _ _ _ _ => exact absurd rfl (hτ _ (.head _))
  | reclaim _ _ _ _ ih =>
    cases h' with
    | reclaim _ _ _ rest =>
      cases hx
      cases (List.cons.inj hsteps).1
      exact ih rest rfl (fun m hm => hτ m (.tail _ hm)) (fun m hm => hτ' m (.tail _ hm)) (List.cons.inj hsteps).2
    | finalise _ _ _ => exact absurd rfl (hτ' _ (.head _))
    | _ => cases hsteps

/-- The strings of each pair have the same text. -/
def StringPairs.Texts (ρ : StringPairs) : Prop := ∀ u ∈ ρ, u.2.bytes = u.1.bytes

theorem StringPairs.Texts.of {ρ : StringPairs} (h : ρ.Texts) {s s' : Option OwnedString}
    (hs : s'.map (·.bytes) = s.map (·.bytes)) : (ρ + .of s s' : StringPairs).Texts := by
  intro u hu
  obtain hu | hu := Multiset.mem_add.mp hu
  · exact h u hu
  · cases s <;> cases s' <;> simp only [StringPairs.of, Multiset.notMem_zero, Multiset.mem_singleton] at hu
    subst hu
    exact Option.some.inj hs

theorem StringPairs.Texts.erase {ρ : StringPairs} (h : ρ.Texts) (u : OwnedString × OwnedString) :
    StringPairs.Texts (Multiset.erase ρ u) :=
  fun v hv => h v (Multiset.mem_of_mem_erase hv)

theorem Unwoven.cons {m : Mark P} {τ : List (Mark P)} (hm : m.shared ≠ none) (h : Unwoven τ) : Unwoven (m :: τ) :=
  List.forall_mem_cons.mpr ⟨hm, h⟩

/-- A woven run, and a run without finalisers in which the engines take the same steps: the same result, in
mirrored worlds. -/
theorem Woven.unwoven {p : Prog α} {x y : Client × Store P} {τ : List (Mark P)} {res : Except Exn α}
    (h : Woven p x τ res y) :
    ∀ {ρ : StringPairs} {q : Prog α} {d : Client} {t : Store P}, p.Alike ρ q →
      Pair ρ x.1 x.2.world d t.world → ρ.Texts → t.nextRef = x.2.nextRef →
      ∃ ρ' τ' z, Woven q (d, t) τ' res z ∧ Unwoven τ' ∧ engineSteps τ' = engineSteps τ ∧
        Pair ρ' y.1 y.2.world z.1 z.2.world ∧ ρ'.Texts ∧ z.2.nextRef = y.2.nextRef := by
  have same {m : Mark P} {τ τ' : List (Mark P)} {o : Option (Nat × P.Heap × P.Host)} {m' : Mark P}
      (hm : m.shared = some o) (hm' : m'.shared = some o) (h : engineSteps τ' = engineSteps τ) :
      engineSteps (m' :: τ') = engineSteps (m :: τ) := by
    unfold engineSteps at h ⊢
    rw [List.filterMap_cons_some hm', List.filterMap_cons_some hm, h]
  induction h with
  | ret =>
    intro ρ q d t halike hpair htexts href
    cases halike
    exact ⟨ρ, [], _, .ret, by simp [Unwoven], rfl, hpair, htexts, href⟩
  | raise =>
    intro ρ q d t halike hpair htexts href
    cases halike
    exact ⟨ρ, [], _, .raise, by simp [Unwoven], rfl, hpair, htexts, href⟩
  | @alloc h k c s _ _ _ _ ih =>
    intro ρ q d t halike hpair htexts href
    cases halike with
    | @alloc _ _ _ k' hk =>
      obtain ⟨ρ', τ', z, hran, hno, hsteps, hz⟩ := ih (t := { t with nextRef := t.nextRef + 1 })
        (hk ⟨s.nextRef, h⟩) hpair htexts (congrArg (· + 1) href)
      refine ⟨ρ', _, z, .alloc (τ := τ') ?_, hno.cons (by simp [Mark.shared]), same rfl rfl hsteps, hz⟩
      rw [href] at hran ⊢
      exact hran
  | touch _ ih =>
    intro ρ q d t halike hpair htexts href
    cases halike with
    | touch hk =>
      obtain ⟨ρ', τ', z, hran, hno, hsteps, hz⟩ := ih hk hpair htexts href
      exact ⟨ρ', _, z, .touch hran, hno.cons (by simp [Mark.shared]), same rfl rfl hsteps, hz⟩
  | native allowed ran _ ih =>
    intro ρ q d t halike hpair htexts href
    cases halike with
    | native ho hk =>
      obtain ⟨v, hallowed, hran, hpair⟩ := hpair.ordinary ho allowed ran
      obtain ⟨ρ', τ', z, hrest, hno, hsteps, hz⟩ := ih (t := { t with world := v }) (hk _) hpair htexts href
      exact ⟨ρ', _, z, .native hallowed hran hrest, hno.cons (by simp [Mark.shared]), same rfl rfl hsteps, hz⟩
    | text hk =>
      obtain ⟨s', v, hallowed, hran, hbytes, hpair⟩ := hpair.text allowed ran
      obtain ⟨ρ', τ', z, hrest, hno, hsteps, hz⟩ :=
        ih (t := { t with world := v }) (hk _ s' hbytes) hpair (htexts.of hbytes) href
      exact ⟨ρ', _, z, .native hallowed hran hrest, hno.cons (by simp [Mark.shared]), same rfl rfl hsteps, hz⟩
    | free hmem hk =>
      obtain ⟨v, hmem', hran, hpair⟩ := hpair.free (r := 0) hmem ran
      obtain ⟨ρ', τ', z, hrest, hno, hsteps, hz⟩ := ih (t := { t with world := v }) hk hpair (htexts.erase _) href
      refine ⟨ρ', _, z, .native (fun t ht => ?_) hran hrest, hno.cons (by simp [Mark.shared]), same rfl rfl hsteps, hz⟩
      cases ht
      exact hmem'
  | finalise live ran _ ih =>
    intro ρ q d t halike hpair htexts href
    exact ih halike (hpair.finalise live ran) htexts href
  | @reclaim _ _ _ r _ _ _ _ heap host open_ _ ih =>
    intro ρ q d t halike hpair htexts href
    obtain ⟨⟨l', hl'⟩, hpair⟩ := hpair.reclaim open_ heap host
    obtain ⟨ρ', τ', z, hrest, hno, hsteps, hz⟩ :=
      ih (t := { t with world := t.world.reclaimed r heap host }) halike hpair htexts href
    exact ⟨ρ', _, z, .reclaim _ _ hl' hrest, hno.cons (by simp [Mark.shared]), same rfl rfl hsteps, hz⟩

/-! ## Client programs -/

/-- A client program: public operations, each followed by what its result or its exception decides. -/
inductive Script (α : Type) : Type where
  | done (a : α)
  | step (op : Op) (k : Except Exn op.Out → Script α)

/-- The script on the runtime of the program. -/
def Script.prog (runtime : Ptr) : Script α → Prog α
  | .done a => .ret a
  | .step op k => (op.prog runtime).attempt.bind fun res => (k res).prog runtime

theorem Script.reads (script : Script α) (runtime : Ptr) : (script.prog runtime).Reads := by
  induction script with
  | done a => exact .ret a
  | step op k ih =>
    have hop : (op.prog runtime).attempt.Reads :=
      .tryCatch ((op.reads runtime).bind fun _ => .ret _) fun _ => .ret _
    exact hop.bind fun res => ih res

/-! ## Whatever the collector does -/

variable {c d : Client} {s t : Store P} {w v u : World P}

theorem Ran.exec {p : Prog α} {x y : Client × Store P} {res : Except Exn α} (h : Ran p x res y) :
    p.exec.run x.2 = .ok (res, y.2) := by
  induction h with
  | ret => rfl
  | raise => rfl
  | alloc _ ih => exact ih
  | touch _ ih => exact ih
  | @native _ _ call k _ s _ x w _ _ _ ran _ ih =>
    have hcall : (onWorld call.run).run s = .ok (x, { s with world := w }) := by
      simp only [onWorld, StateT.run, show call.run s.world = _ from ran]
    exact (Hoare.run_bind_of hcall).trans ih

/-- A program that creates and gives back no runtime leaves them all to its client. -/
theorem Woven.runtimes {p q : Prog α} {x y : Client × Store P} {τ : List (Mark P)} {res : Except Exn α}
    {ρ : StringPairs} (h : Woven p x τ res y) (halike : p.Alike ρ q) :
    y.1.runtimes = x.1.runtimes ∧ y.1.destroyed = x.1.destroyed := by
  have give (c : Client) (r : Nat) (p : Ptr) :
      (c.give r p).runtimes = c.runtimes ∧ (c.give r p).destroyed = c.destroyed := by
    cases p <;> exact ⟨rfl, rfl⟩
  induction h generalizing ρ q with
  | ret => exact ⟨rfl, rfl⟩
  | raise => exact ⟨rfl, rfl⟩
  | alloc _ ih =>
    cases halike with
    | alloc hk => exact ih (hk _)
  | touch _ ih =>
    cases halike with
    | touch hk => exact ih hk
  | @native _ _ call _ c _ r x _ _ _ _ _ _ _ ih =>
    cases halike with
    | native ho hk =>
      obtain ⟨h₁, h₂⟩ := ih (hk _)
      dsimp only at h₁ h₂ ⊢
      rw [Client.after_ordinary ho] at h₁ h₂
      exact ⟨h₁.trans (give c r _).1, h₂.trans (give c r _).2⟩
    | text hk =>
      obtain ⟨h₁, h₂⟩ := ih (hk _ x rfl)
      cases x <;> exact ⟨h₁, h₂⟩
    | free hmem hk => exact ih hk
  | finalise _ _ _ ih => exact ih halike
  | reclaim _ _ _ _ ih => exact ih halike

/-- What JavaScript and the client can tell of two worlds: the engine of `r` with its error and its
marks, the C library, the bodies that were started, the next handle, and the values of the handles that
both have. -/
structure Indistinct (r : Nat) (w v : World P) : Prop where
  core : v.core? r = w.core? r
  host : v.host = w.host
  entries : v.entries = w.entries
  nextValue : v.nextValue = w.nextValue
  values : ∀ p r' x y, w.Holds p r' x → v.Holds p r' y → y = x

theorem Mirrors.indistinct {k k' : Core P} (h : Mirrors w u) (h' : Mirrors v u) (hk : w.core? r = some k)
    (hk' : v.core? r = some k') : Indistinct r w v := by
  refine ⟨?_, h'.host.symm.trans h.host, h'.entries.symm.trans h.entries,
    h'.nextValue.symm.trans h.nextValue, fun p r' x y hx hy => ?_⟩
  · have hu := h.core? hk
    rw [h'.core? hk'] at hu
    rw [hk, hk', hu]
  · obtain ⟨a, ha⟩ := h.holds p r' x hx
    obtain ⟨b, hb⟩ := h'.holds p r' y hy
    rw [ha] at hb
    cases hb
    rfl

/-- The clients at the start of both runs. -/
theorem Reach.pair (h : Reach c w) : Pair (c.strings.map fun s => (s, s)) c w c w :=
  ⟨h.inv, h.inv, .refl w, subset_rfl, rfl, rfl, by simp, by simp⟩

theorem Client.texts (c : Client) : StringPairs.Texts (c.strings.map fun s => (s, s)) := by
  intro u hu
  obtain ⟨s, -, rfl⟩ := Multiset.mem_map.mp hu
  rfl

theorem Woven.core? {p : Prog α} {τ : List (Mark P)} {res : Except Exn α} {y : Client × Store P}
    {ρ : StringPairs} (h : Woven p (c, s) τ res y) (halike : p.Alike ρ p) (hy : Inv y.1 y.2.world)
    (hr : r ∈ c.runtimes) (hd : r ∉ c.destroyed) : ∃ k, y.2.world.core? r = some k := by
  obtain ⟨hruntimes, hdestroyed⟩ := h.runtimes halike
  have hopen : y.1.Open r := Client.open_of_runtime (hruntimes ▸ hr) (hdestroyed ▸ hd)
  obtain ⟨l, -, -, hl⟩ := hy.run hopen
  exact ⟨_, hl.core?⟩

/-- A script that makes two values. -/
def twoValues : Script (Except Exn Payload) :=
  .step (.toExtern (.bool true)) fun _ => .step (.toExtern (.bool false)) .done

/-- The world after a call on the idle platform. -/
def idleAfter {β : Type} (call : Call β) (w : World (Platform.idle Nat 0)) : World (Platform.idle Nat 0) :=
  match call.run.run w with
  | .ok (_, w') => w'
  | .error _ => w

end InteropJs
