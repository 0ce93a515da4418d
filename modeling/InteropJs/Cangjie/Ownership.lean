import InteropJs.Cangjie.Finalizer

/-!
# Owners of handles

The finaliser of every `JSValueRef` destroys its handle, so a handle must not be in two objects. A
handle that the bridge returned is new, but `toJSValue` and `externContentToRef` also wrap a raw
handle that the client supplies, whoever owns it.

* `Sys` is the Cangjie program: operations of the client one after another, each statement by
  statement on the bridge, handles that the client gets from the bridge itself, and finalisers at any
  time.
  `Sys.Step` takes the condition under which the client may start an operation.
* `Prog.Owns` is what an operation does with handles: from a set of handles that nobody owns, it wraps
  only these and the ones that it gets from the bridge, each once.
* `Sys.Fair`: the raw handles that the client supplies are different ones that the bridge gave and that
  no object owns. In every run of such operations no handle has two owners, and none is destroyed
  twice (`owners_unique`).
-/

namespace InteropJs

open Hoare

/-! ## Handles that nobody owns -/

/-- `p` wraps only handles of `A` and new ones, each once; `Q` says which are left when it returns. -/
def Prog.Owns {α : Type} (A : Set Nat) (p : Prog α) (Q : α → Set Nat → Prop) : Prop :=
  match p with
  | .ret a => Q a A
  | .raise _ => True
  | .alloc h k => (∀ q, h = some q → q ∈ A) ∧ ∀ ref : JSValueRef, (k ref).Owns (A \ {q | h = some q}) Q
  | .touch _ k => k.Owns A Q
  | .native _ c k => ∀ x, (∀ q, c.given x = some q → q ∉ A) → (k x).Owns (A ∪ {q | c.given x = some q}) Q

section Owns

variable {α β : Type} {A : Set Nat} {p : Prog α} {Q : α → Set Nat → Prop} {U : List Nat} {runtime : Ptr}

theorem Prog.Owns.post {Q' : α → Set Nat → Prop} (h : p.Owns A Q) (hQ : ∀ a A, Q a A → Q' a A) :
    p.Owns A Q' := by
  induction p generalizing A with
  | ret a => exact hQ a A h
  | raise e => trivial
  | alloc handle k ih => exact ⟨h.1, fun ref => ih ref (h.2 ref)⟩
  | touch rs k ih => exact ih h
  | native rs c k ih => exact fun x hx => ih x (h x hx)

theorem Prog.Owns.bind {f : α → Prog β} {Q : β → Set Nat → Prop}
    (h : p.Owns A fun a A => (f a).Owns A Q) : (p.bind f).Owns A Q := by
  induction p generalizing A with
  | ret a => exact h
  | raise e => trivial
  | alloc handle k ih => exact ⟨h.1, fun ref => ih ref (h.2 ref)⟩
  | touch rs k ih => exact ih h
  | native rs c k ih => exact fun x hx => ih x (h x hx)

theorem Prog.Owns.tryCatch {handler : Exn → Prog α} (h : p.Owns A Q)
    (hh : ∀ e A, (handler e).Owns A Q) : (p.tryCatch handler).Owns A Q := by
  induction p generalizing A with
  | ret a => exact h
  | raise e => exact hh e A
  | alloc handle k ih => exact ⟨h.1, fun ref => ih ref (h.2 ref)⟩
  | touch rs k ih => exact ih h
  | native rs c k ih => exact fun x hx => ih x (h x hx)

/-- A function of raw handles wraps nothing. -/
theorem Prog.Plain.owns (h : p.Plain U) (hQ : ∀ a A', A ⊆ A' → Q a A') : p.Owns A Q := by
  induction p generalizing A with
  | ret a => exact hQ a A subset_rfl
  | raise e => trivial
  | alloc handle k => exact h.elim
  | touch rs k => exact h.elim
  | native rs c k ih =>
    exact fun x _ => ih x (h.2.2 x) fun a A' hA => hQ a A' (Set.subset_union_left.trans hA)

/-- The handle, if it is one, is in `A`. -/
def Ptr.In (p : Ptr) (A : Set Nat) : Prop := ∀ q, p = some q → q ∈ A

theorem jsExtern_owns {h : Ptr} (hh : Ptr.In h A) : (jsExtern h).Owns A fun _ _ => True :=
  ⟨hh, fun _ => trivial⟩

/-- A call that gives a handle. -/
theorem prog_owns {c : Call Ptr} (hc : ∀ p, c.given p = p) {Q : Ptr → Set Nat → Prop}
    (hQ : ∀ p A', A ⊆ A' → Ptr.In p A' → Q p A') : c.prog.Owns A Q := by
  intro p _
  exact hQ p _ Set.subset_union_left fun q hq => .inr ((hc p).trans hq)

/-- A `throw` after functions of raw handles. -/
theorem raise_owns {f : α → Exn} {Q : β → Set Nat → Prop} (h : p.Plain U) :
    (p.bind fun a => (.raise (f a) : Prog β)).Owns A Q :=
  .bind (h.owns fun _ _ _ => trivial)

theorem valueFromRuntimeHandle_owns {h : Ptr} {Q : Ptr → Set Nat → Prop} (hQ : h ≠ none → Q h A) :
    (valueFromRuntimeHandle runtime h).Owns A Q := by
  cases h with
  | none => exact raise_owns (runtimeError_plain (U := []) runtime)
  | some q => exact hQ nofun

theorem valueFromCallHandle_owns {h : Ptr} {Q : Ptr → Set Nat → Prop} (hQ : h ≠ none → Q h A) :
    (valueFromCallHandle runtime h).Owns A Q := by
  cases h with
  | none =>
    refine Prog.Owns.bind ((runtimeError_plain (U := []) runtime).owns fun m A' _ => ?_)
    by_cases hm : m.isEmpty = true
    · rw [if_pos hm]
      trivial
    · rw [if_neg hm]
      trivial
  | some q => exact hQ nofun

/-- The functions that return the handle of a bridge call: after `check`, the `call`. -/
theorem given_owns {check : Prog Bool} {c : Call Ptr} {e e' : Exn} {Q : Ptr → Set Nat → Prop}
    (hcheck : check.Plain U) (hc : ∀ p, c.given p = p)
    (hQ : ∀ p A', A ⊆ A' → Ptr.In p A' → Q p A') :
    (do
      if !(← check) then
        .raise e
      else
        let result ← c.prog
        if result.isNone then .raise e' else return result : Prog Ptr).Owns A Q := by
  refine Prog.Owns.bind (hcheck.owns fun ok A' hA => ?_)
  cases ok with
  | false => trivial
  | true =>
    refine Prog.Owns.bind (prog_owns hc fun p A'' hA' hp => ?_)
    cases p with
    | none => trivial
    | some q => exact hQ _ _ (hA.trans hA') hp

theorem getProperty_owns {v : Ptr} {name : String} {Q : Ptr → Set Nat → Prop}
    (hQ : ∀ p A', A ⊆ A' → Ptr.In p A' → Q p A') : (getProperty v name).Owns A Q :=
  given_owns (valueHasProperties_plain v) (fun _ => rfl) hQ

theorem getIndex_owns {v : Ptr} {index : Int} {Q : Ptr → Set Nat → Prop}
    (hQ : ∀ p A', A ⊆ A' → Ptr.In p A' → Q p A') : (getIndex v index).Owns A Q := by
  have harray : (valueIsArray v).Plain v.toList := .bind (Call.prog_plain (List.Subset.refl _)) fun _ => trivial
  refine Prog.Owns.bind (harray.owns fun ok A' hA => ?_)
  cases ok with
  | false => trivial
  | true =>
    refine Prog.Owns.bind ((Call.prog_plain (List.Subset.refl _)).owns fun length A'' hA' => ?_)
    by_cases hi : index < 0 ∨ length ≤ index
    · rw [if_pos hi]
      trivial
    · rw [if_neg hi]
      refine Prog.Owns.bind (prog_owns (fun _ => rfl) fun p A₃ hA'' hp => ?_)
      cases p with
      | none => trivial
      | some q => exact hQ _ _ (hA.trans (hA'.trans hA'')) hp

theorem callValue_owns {f this : JSValueRef} {refs : List JSValueRef} {Q : Ptr → Set Nat → Prop}
    (hQ : ∀ p A', Ptr.In p A' → Q p A') : (JSRuntime.callValue runtime f this refs).Owns A Q := by
  refine Prog.Owns.bind (p := IntType.int32.ofInt refs.length) ((ofInt_plain (U := []) _ _).owns fun n A' _ => ?_)
  intro p _
  exact valueFromCallHandle_owns fun _ => hQ p _ fun q hq => .inr hq

theorem constructValue_owns {f : JSValueRef} {refs : List JSValueRef} {Q : Ptr → Set Nat → Prop}
    (hQ : ∀ p A', Ptr.In p A' → Q p A') : (JSRuntime.constructValue runtime f refs).Owns A Q := by
  refine Prog.Owns.bind (p := IntType.int32.ofInt refs.length) ((ofInt_plain (U := []) _ _).owns fun n A' _ => ?_)
  intro p _
  exact valueFromCallHandle_owns fun _ => hQ p _ fun q hq => .inr hq

/-- A new handle is wrapped at once. -/
theorem newValue_owns {c : Call Ptr} (hc : ∀ p, c.given p = p) {Q : JSValueRef → Set Nat → Prop}
    (hQ : ∀ ref, Q ref A) :
    (do newRef (← valueFromRuntimeHandle runtime (← c.prog)) : Prog JSValueRef).Owns A Q := by
  intro p hp
  show ((valueFromRuntimeHandle runtime p).bind newRef).Owns _ Q
  refine .bind (valueFromRuntimeHandle_owns fun _ => ⟨fun q hq => .inr ((hc p).trans hq), fun ref => ?_⟩)
  have hA : (A ∪ {q | c.given p = some q}) \ {q | p = some q} = A := by
    rw [hc] at hp ⊢
    exact Set.union_sdiff_cancel_right fun q ⟨hA, hq⟩ => hp q hq hA
  rw [hA]
  exact hQ ref

/-- `toJSValue` takes the raw handle of its argument from the free ones, and no other. -/
theorem toJSValue_owns {v : Any} (hv : Ptr.In v.raw A) {Q : JSValueRef → Set Nat → Prop}
    (hQ : ∀ ref, Q ref (A \ {q | v.raw = some q})) : (JSRuntime.toJSValue runtime v).Owns A Q := by
  have hnone : v.raw = none → ∀ ref, Q ref A := by
    intro hn ref
    have := hQ ref
    rwa [hn, show {q : Nat | none = some q} = ∅ from Set.eq_empty_of_forall_notMem fun _ => nofun,
      Set.sdiff_empty] at this
  cases v with
  | externValue e =>
    cases e with
    | value ref => exact hnone rfl ref
    | pointer p => exact ⟨hv, fun ref => hQ ref⟩
    | _ => trivial
  | pointer p => exact ⟨hv, fun ref => hQ ref⟩
  | other => trivial
  | int t i => cases t <;> exact newValue_owns (fun _ => rfl) (hnone rfl)
  | _ => exact newValue_owns (fun _ => rfl) (hnone rfl)

theorem toJSValues_owns {args : List Any} (hargs : ∀ q ∈ args.filterMap Any.raw, q ∈ A)
    (hnodup : (args.filterMap Any.raw).Nodup) :
    (JSRuntime.toJSValues runtime args).Owns A fun _ _ => True := by
  induction args generalizing A with
  | nil => trivial
  | cons v args ih =>
    have hv : Ptr.In v.raw A := fun q hq => hargs q (by simp [hq])
    refine Prog.Owns.bind (toJSValue_owns hv fun ref => Prog.Owns.bind (ih (fun q hq => ?_) ?_))
    · refine ⟨hargs q ?_, fun hraw => ?_⟩
      · cases hraw : v.raw with
        | none => rwa [List.filterMap_cons_none hraw]
        | some q' => simp [List.filterMap_cons_some hraw, hq]
      · rw [List.filterMap_cons_some hraw, List.nodup_cons] at hnodup
        exact hnodup.1 hq
    · cases hraw : v.raw with
      | none => rwa [List.filterMap_cons_none hraw] at hnodup
      | some q' =>
        rw [List.filterMap_cons_some hraw, List.nodup_cons] at hnodup
        exact hnodup.2

theorem callOrConstruct_owns {f : JSValueRef} {receiver : Prog JSValueRef} {args : List Any}
    (hrec : ∀ A, receiver.Owns A fun _ _ => True) (hargs : ∀ q ∈ args.filterMap Any.raw, q ∈ A)
    (hnodup : (args.filterMap Any.raw).Nodup) :
    (JSRuntime.callOrConstruct runtime f receiver args).Owns A fun _ _ => True := by
  refine Prog.Owns.bind ((toJSValues_owns hargs hnodup).post fun refs A _ => ?_)
  refine Prog.Owns.tryCatch (Prog.Owns.bind ((hrec A).post fun this A _ => ?_)) fun e A => ?_
  · exact Prog.Owns.bind (callValue_owns fun p A hp => jsExtern_owns hp)
  · exact Prog.Owns.bind (constructValue_owns fun p A hp => jsExtern_owns hp)

/-- The raw handles that an operation wraps. -/
def Op.raws : Op → List Nat
  | .functionCall _ args => args.filterMap Any.raw
  | .memberUpdate _ _ v | .indexUpdate _ _ v | .toExtern v => v.raw.toList
  | .fromExtern _ e => e.raw.toList
  | _ => []

theorem updateWith_owns {target : JSValueRef} {v : Any} (set : Ptr → Ptr → Prog Unit)
    (hv : Ptr.In v.raw A) (hset : ∀ p q, (set p q).Plain (p.toList ++ q.toList)) :
    (updateWith runtime target v set).Owns A fun _ _ => True :=
  .bind (toJSValue_owns hv fun ref => (hset target.handle ref.handle).owns fun _ _ _ => trivial)

/-- An operation wraps only the raw handles that it is given and new ones. -/
theorem Op.owns {op : Op} (hnodup : op.raws.Nodup) :
    (op.prog runtime).Owns {q | q ∈ op.raws} fun _ _ => True := by
  have raw : ∀ {p : Ptr}, Ptr.In p {q | q ∈ p.toList} := fun q hq => Option.mem_toList.mpr hq
  have result : ∀ (c : Call Ptr) (A : Set Nat), (∀ p, c.given p = p) → (do
      let value ← c.prog
      if value.isNone then .raise (.dynamic (← runtimeError runtime)) else jsExtern value :
      Prog Payload).Owns A fun _ _ => True := by
    intro c A hc
    refine Prog.Owns.bind (prog_owns hc fun p A' _ hp => ?_)
    cases p with
    | none => exact raise_owns (runtimeError_plain (U := []) runtime)
    | some q => exact jsExtern_owns hp
  cases op with
  | evalScript source => exact result _ _ fun _ => rfl
  | enableStdModule =>
    refine Prog.Owns.bind ((Call.prog_plain (U := []) (by simp [Call.uses])).owns fun status A _ => ?_)
    by_cases hs : status ≠ 0
    · rw [if_pos hs]
      exact raise_owns (runtimeError_plain (U := []) runtime)
    · rw [if_neg hs]
      trivial
  | globalAccess name => exact result _ _ fun _ => rfl
  | getModule moduleName => exact result _ _ fun _ => rfl
  | memberAccess e field =>
    cases e with
    | value ref =>
      refine Prog.Owns.bind (p := getProperty ref.handle field) (getProperty_owns fun p A _ hp => ?_)
      refine Prog.Owns.bind ((valueIs_plain jsValueFunctionKind p).owns fun isFunction A' hA => ?_)
      have hp' : Ptr.In p A' := fun q hq => hA (hp q hq)
      cases isFunction with
      | true => exact ⟨hp', fun _ => trivial⟩
      | false => exact jsExtern_owns hp'
    | _ => trivial
  | functionCall e args =>
    cases e with
    | value f => exact callOrConstruct_owns (fun A => ⟨fun q hq => absurd hq (by simp), fun _ => trivial⟩) (fun _ h => h) hnodup
    | method f receiver => exact callOrConstruct_owns (fun A => trivial) (fun _ h => h) hnodup
    | _ => trivial
  | memberUpdate e field v =>
    cases e with
    | value ref =>
      exact updateWith_owns (fun p q => setProperty p field q) raw fun p q =>
        setProperty_plain p q field
    | _ => trivial
  | indexAccess e arg =>
    cases e with
    | value ref =>
      by_cases hs : ∃ s, arg = .string s
      · obtain ⟨s, rfl⟩ := hs
        exact Prog.Owns.bind (p := getProperty ref.handle s) (getProperty_owns fun p A _ hp =>
          jsExtern_owns hp)
      · rw [Op.prog, indexAccess_eq (not_exists.mp hs)]
        refine Prog.Owns.bind (p := jsIndex arg) ((jsIndex_plain (U := []) arg).owns fun index A _ => ?_)
        exact Prog.Owns.bind (getIndex_owns fun p A _ hp => jsExtern_owns hp)
    | _ => trivial
  | indexUpdate e arg v =>
    cases e with
    | value ref =>
      by_cases hs : ∃ s, arg = .string s
      · obtain ⟨s, rfl⟩ := hs
        exact updateWith_owns (fun p q => setProperty p s q) raw fun p q =>
          setProperty_plain p q s
      · rw [Op.prog, indexUpdate_eq (not_exists.mp hs)]
        refine Prog.Owns.bind (toJSValue_owns raw fun jsValue => ?_)
        refine Prog.Owns.bind (p := jsIndex arg) ((jsIndex_plain (U := []) arg).owns fun index A _ => ?_)
        exact (setIndex_plain ref.handle jsValue.handle index).owns fun _ _ _ => trivial
    | _ => trivial
  | fromExtern t e =>
    have convert : ∀ p A, (quickJS2Cangjie p t).Owns A fun _ _ => True := fun p A =>
      (quickJS2Cangjie_plain p t).owns fun _ _ _ => trivial
    cases e with
    | value ref => exact convert ref.handle _
    | pointer p => exact ⟨raw, fun ref => convert ref.handle _⟩
    | _ => trivial
  | toExtern v => exact Prog.Owns.bind (toJSValue_owns raw fun _ => trivial)

end Owns

/-! ## The program as a system -/

/-- The operation that runs, with the statements that are left of it. -/
structure Running : Type 1 where
  {Out : Type}
  prog : Prog Out

/-- The state of the Cangjie program (module doc). -/
structure Sys (P : Platform) : Type 1 where
  store : Store P
  /-- The objects that were made, the last one first. -/
  objects : List JSValueRef
  /-- The objects whose finaliser ran. -/
  finalised : List JSValueRef
  /-- The handles that `js_value_destroy` was called on. -/
  destroys : List Nat
  running : Option Running

/-- The bridge after `js_value_destroy`. A fault is the end of the program; it changes nothing here. -/
def World.destroyed {P : Platform} (w : World P) (handle : Ptr) : World P :=
  match (jsValueDestroy handle).run w with
  | .ok (_, w') => w'
  | .error _ => w

namespace Sys

variable {P : Platform}

/-- No object and no operation yet; the bridge may be in any state. -/
structure Initial (s : Sys P) : Prop where
  objects : s.objects = []
  finalised : s.finalised = []
  destroys : s.destroys = []
  running : s.running = none

/-- One step, when the client starts an operation only if `ok` (module doc). -/
inductive Step (ok : Sys P → Op → Prop) : Sys P → Sys P → Prop where
  | start {s : Sys P} {runtime : Ptr} {op : Op} (idle : s.running = none) (allowed : ok s op) :
      Step ok s { s with running := some ⟨op.prog runtime⟩ }
  /-- A call of a function that gives handles, which the client makes itself. -/
  | call {s : Sys P} {c : Call Ptr} {p : Ptr} {w : World P} (idle : s.running = none)
      (gives : ∀ p, c.given p = p) (ran : c.run.run s.store.world = .ok (p, w)) :
      Step ok s { s with store := { s.store with world := w } }
  | alloc {s : Sys P} {α : Type} {h : Ptr} {k : JSValueRef → Prog α}
      (at_ : s.running = some ⟨.alloc h k⟩) :
      Step ok s { s with
        store := { s.store with nextRef := s.store.nextRef + 1 }
        objects := ⟨s.store.nextRef, h⟩ :: s.objects
        running := some ⟨k ⟨s.store.nextRef, h⟩⟩ }
  | touch {s : Sys P} {α : Type} {rs : List JSValueRef} {k : Prog α}
      (at_ : s.running = some ⟨.touch rs k⟩) : Step ok s { s with running := some ⟨k⟩ }
  | native {s : Sys P} {α β : Type} {rs : List JSValueRef} {c : Call β} {k : β → Prog α} {x : β}
      {w : World P} (at_ : s.running = some ⟨.native rs c k⟩)
      (ran : c.run.run s.store.world = .ok (x, w)) :
      Step ok s { s with store := { s.store with world := w }, running := some ⟨k x⟩ }
  | ret {s : Sys P} {α : Type} {a : α} (at_ : s.running = some ⟨.ret a⟩) :
      Step ok s { s with running := none }
  | raise {s : Sys P} {α : Type} {e : Exn} (at_ : s.running = some ⟨(.raise e : Prog α)⟩) :
      Step ok s { s with running := none }
  | finalise {s : Sys P} {ref : JSValueRef} (made : ref ∈ s.objects) (once : ref ∉ s.finalised) :
      Step ok s { s with
        store := { s.store with world := s.store.world.destroyed ref.handle }
        finalised := ref :: s.finalised
        destroys := ref.handle.toList ++ s.destroys }

/-- The states that a run reaches. -/
def Reach (ok : Sys P → Op → Prop) (s : Sys P) : Prop :=
  ∃ s₀, Initial s₀ ∧ Relation.ReflTransGen (Step ok) s₀ s

/-- A run of `Prog.exec` is a run of the system without finalisers. -/
theorem exec_steps {ok : Sys P → Op → Prop} {α : Type} {p : Prog α} {s : Sys P} {res : Except Exn α}
    {store : Store P} (at_ : s.running = some ⟨p⟩) (h : p.exec.run s.store = .ok (res, store)) :
    ∃ objects, Relation.ReflTransGen (Step ok) s { s with store, objects, running := none } := by
  induction p generalizing s with
  | ret a =>
    cases h
    exact ⟨s.objects, .single (.ret at_)⟩
  | raise e =>
    cases h
    exact ⟨s.objects, .single (.raise at_)⟩
  | alloc handle k ih =>
    obtain ⟨objects, hsteps⟩ := ih _ (s := { s with
      store := { s.store with nextRef := s.store.nextRef + 1 }
      objects := ⟨s.store.nextRef, handle⟩ :: s.objects
      running := some ⟨k ⟨s.store.nextRef, handle⟩⟩ }) rfl h
    exact ⟨objects, .head (.alloc at_) hsteps⟩
  | touch rs k ih =>
    obtain ⟨objects, hsteps⟩ := ih (s := { s with running := some ⟨k⟩ }) rfl h
    exact ⟨objects, .head (.touch at_) hsteps⟩
  | native rs c k ih =>
    obtain ⟨x, store₁, hx, h⟩ := Keeps.run_bind_ok h
    obtain ⟨w, hw, rfl⟩ := onWorld_ok hx
    obtain ⟨objects, hsteps⟩ := ih x (s := { s with
      store := { s.store with world := w }
      running := some ⟨k x⟩ }) rfl h
    exact ⟨objects, .head (.native at_ hw) hsteps⟩

/-- The handles that objects own, once for each owner. -/
def owned (s : Sys P) : List Nat := s.objects.filterMap (·.handle)

/-- The raw handles of the operation are different, the bridge gave them, and no object owns them. -/
def Fair (s : Sys P) (op : Op) : Prop :=
  op.raws.Nodup ∧ ∀ q ∈ op.raws, q < s.store.world.nextValue ∧ q ∉ s.owned

/-- The invariant: every owned handle was given by the bridge and has one owner; the operation that runs
wraps only handles without an owner; and each handle that was destroyed has a finalised owner. -/
structure Owners (s : Sys P) : Prop where
  unique : s.owned.Nodup
  given : ∀ q ∈ s.owned, q < s.store.world.nextValue
  running : ∀ r, s.running = some r → ∃ A : Set Nat, r.prog.Owns A (fun _ _ => True) ∧
    ∀ q ∈ A, q < s.store.world.nextValue ∧ q ∉ s.owned
  finalised : s.finalised ⊆ s.objects
  destroyed : ∀ q ∈ s.destroys, ∃ ref ∈ s.finalised, ref.handle = some q
  once : s.destroys.Nodup

theorem Initial.owners {s : Sys P} (h : Initial s) : s.Owners := by
  refine ⟨?_, ?_, ?_, ?_, ?_, ?_⟩
  · simp [owned, h.objects]
  · simp [owned, h.objects]
  · simp [h.running]
  · simp [h.finalised]
  · simp [h.destroys]
  · simp [h.destroys]

theorem nextValue_destroyed (w : World P) (handle : Ptr) :
    (w.destroyed handle).nextValue = w.nextValue := by
  unfold World.destroyed
  cases h : (jsValueDestroy handle).run w with
  | ok out => exact steady_jsValueDestroy handle w out.1 out.2 h
  | error f => rfl

/-- A call moves the next handle up, past the one that it gives. -/
theorem issued_le {β : Type} {c : Call β} {x : β} {w w' : World P} (ran : c.run.run w = .ok (x, w')) :
    w.nextValue ≤ w'.nextValue ∧
      ∀ q, c.given x = some q → q = w.nextValue ∧ q < w'.nextValue := by
  have h := c.issued ran
  cases hx : c.given x with
  | none =>
    rw [hx] at h
    exact ⟨h.ge, nofun⟩
  | some q =>
    rw [hx] at h
    obtain ⟨rfl, h'⟩ := h
    refine ⟨by omega, fun q' hq => ?_⟩
    cases hq
    exact ⟨rfl, by omega⟩

/-- Two owners of one handle are one object. -/
theorem owner_unique {objects : List JSValueRef} (h : (objects.filterMap (·.handle)).Nodup)
    {ref ref' : JSValueRef} {q : Nat} (hr : ref ∈ objects) (hr' : ref' ∈ objects)
    (hq : ref.handle = some q) (hq' : ref'.handle = some q) : ref = ref' := by
  induction objects with
  | nil => cases hr
  | cons o objects ih =>
    have tail : (objects.filterMap (·.handle)).Nodup := by
      cases ho : o.handle with
      | none => rwa [List.filterMap_cons_none ho] at h
      | some p =>
        rw [List.filterMap_cons_some ho, List.nodup_cons] at h
        exact h.2
    have head : ∀ o', o.handle = some q → o' ∈ objects → o'.handle ≠ some q := by
      intro o' ho ho' hq
      rw [List.filterMap_cons_some ho, List.nodup_cons] at h
      exact h.1 (List.mem_filterMap.mpr ⟨o', ho', hq⟩)
    rcases List.mem_cons.mp hr with rfl | hmem <;> rcases List.mem_cons.mp hr' with rfl | hmem'
    · rfl
    · exact absurd hq' (head ref' hq hmem')
    · exact absurd hq (head ref hq' hmem)
    · exact ih tail hmem hmem'

/-- The invariant after a step that changes only the bridge and the operation. -/
theorem Owners.move {s : Sys P} (h : s.Owners) {store : Store P} {running : Option Running}
    (hle : s.store.world.nextValue ≤ store.world.nextValue)
    (hrun : ∀ r, running = some r → ∃ A : Set Nat, r.prog.Owns A (fun _ _ => True) ∧
      ∀ q ∈ A, q < store.world.nextValue ∧ q ∉ s.owned) :
    Owners { s with store, running } :=
  ⟨h.unique, fun q hq => (h.given q hq).trans_le hle, hrun, h.finalised, h.destroyed, h.once⟩

/-- One step keeps the invariant. -/
theorem Step.owners {s s' : Sys P} (h : s.Owners) (hs : Step Fair s s') : s'.Owners := by
  cases hs with
  | @start runtime op idle allowed =>
    refine h.move le_rfl fun r hr => ?_
    cases hr
    exact ⟨_, Op.owns allowed.1, allowed.2⟩
  | call idle gives ran =>
    refine h.move (issued_le ran).1 fun r hr => ?_
    rw [idle] at hr
    cases hr
  | @alloc α handle k at_ =>
    obtain ⟨A, hA, hfree⟩ := h.running _ at_
    have hnew : ∀ q, handle = some q → q < s.store.world.nextValue ∧ q ∉ s.owned :=
      fun q hq => hfree q (hA.1 q hq)
    refine ⟨?_, fun q hq => ?_, fun r hr => ?_, ?_, h.destroyed, h.once⟩
    · cases handle with
      | none => exact h.unique
      | some q => exact List.nodup_cons.mpr ⟨(hnew q rfl).2, h.unique⟩
    · cases handle with
      | none => exact h.given q hq
      | some p =>
        rcases List.mem_cons.mp hq with rfl | hq
        · exact (hnew q rfl).1
        · exact h.given q hq
    · cases hr
      refine ⟨_, hA.2 _, fun q hq => ⟨(hfree q hq.1).1, fun hmem => ?_⟩⟩
      cases handle with
      | none => exact (hfree q hq.1).2 hmem
      | some p =>
        rcases List.mem_cons.mp hmem with rfl | hmem
        · exact hq.2 rfl
        · exact (hfree q hq.1).2 hmem
    · exact fun ref hr => List.mem_cons_of_mem _ (h.finalised hr)
  | touch at_ =>
    refine h.move le_rfl fun r hr => ?_
    cases hr
    obtain ⟨A, hA, hfree⟩ := h.running _ at_
    exact ⟨A, hA, hfree⟩
  | @native α β rs c k x w at_ ran =>
    obtain ⟨hle, hgiven⟩ := issued_le ran
    refine h.move hle fun r hr => ?_
    cases hr
    obtain ⟨A, hA, hfree⟩ := h.running _ at_
    -- the handle that the call gives is above every handle that was given before
    have hnew : ∀ q, c.given x = some q → q ∉ A ∧ q ∉ s.owned := by
      intro q hq
      have heq := (hgiven q hq).1
      exact ⟨fun hm => (hfree q hm).1.ne heq, fun hm => (h.given q hm).ne heq⟩
    refine ⟨_, hA x fun q hq => (hnew q hq).1, fun q hq => ?_⟩
    rcases hq with hq | hq
    · exact ⟨(hfree q hq).1.trans_le hle, (hfree q hq).2⟩
    · exact ⟨(hgiven q hq).2, (hnew q hq).2⟩
  | ret at_ => exact h.move le_rfl fun r hr => by cases hr
  | raise at_ => exact h.move le_rfl fun r hr => by cases hr
  | @finalise ref made once =>
    have hnext := nextValue_destroyed s.store.world ref.handle
    refine ⟨h.unique, fun q hq => ?_, fun r hr => ?_, ?_, fun q hq => ?_, ?_⟩
    · exact (h.given q hq).trans_eq hnext.symm
    · obtain ⟨A, hA, hfree⟩ := h.running r hr
      exact ⟨A, hA, fun q hq => ⟨(hfree q hq).1.trans_eq hnext.symm, (hfree q hq).2⟩⟩
    · exact List.cons_subset.mpr ⟨made, h.finalised⟩
    · rcases List.mem_append.mp hq with hq | hq
      · exact ⟨ref, List.mem_cons_self, Option.mem_toList.mp hq⟩
      · obtain ⟨o, ho, hq⟩ := h.destroyed q hq
        exact ⟨o, List.mem_cons_of_mem _ ho, hq⟩
    · cases hhandle : ref.handle with
      | none => exact h.once
      | some q =>
        refine List.nodup_cons.mpr ⟨fun hq => ?_, h.once⟩
        -- the handle was destroyed before, so its owner is finalised, and this is the object itself
        obtain ⟨o, ho, hq⟩ := h.destroyed q hq
        exact once (owner_unique h.unique (h.finalised ho) made hq hhandle ▸ ho)

/-- In every run whose raw handles are fair, no handle has two owners, and none is destroyed twice. -/
theorem owners_unique {s : Sys P} (h : Reach Fair s) : s.owned.Nodup ∧ s.destroys.Nodup := by
  obtain ⟨s₀, h₀, hr⟩ := h
  have hinv := reach_invariant (I := Owners) (fun s s' hs hstep => hstep.owners hs) h₀.owners hr
  exact ⟨hinv.unique, hinv.once⟩

/-! ### Two objects around one handle -/

/-- A program that has not begun, on a bridge with one runtime and one handle, which denotes
`undefined`. -/
def sample : Sys (Platform.idle Unit ()) where
  store := Store.sample (Platform.idle Unit ()) () () .undefined
  objects := []
  finalised := []
  destroys := []
  running := none

theorem sample_initial : Initial sample := ⟨rfl, rfl, rfl, rfl⟩

/-- The state after `toExtern` of the raw handle `q`. -/
def wrapped (s : Sys P) (q : Nat) : Sys P :=
  { s with
    store := { s.store with nextRef := s.store.nextRef + 1 }
    objects := ⟨s.store.nextRef, some q⟩ :: s.objects
    running := none }

theorem wrapped_steps (ok : Sys P → Op → Prop) {s : Sys P} {q : Nat} (idle : s.running = none)
    (allowed : ok s (.toExtern (.pointer (some q)))) :
    Relation.ReflTransGen (Step ok) s (s.wrapped q) := by
  have h₁ : Step ok s { s with running := some ⟨(Op.toExtern (.pointer (some q))).prog (some 0)⟩ } :=
    .start idle allowed
  have h₂ : Step ok { s with running := some ⟨(Op.toExtern (.pointer (some q))).prog (some 0)⟩ }
      { s.wrapped q with running := some ⟨Prog.ret (Payload.value ⟨s.store.nextRef, some q⟩)⟩ } :=
    .alloc (h := some q) (k := fun ref => Prog.ret (Payload.value ref)) rfl
  have h₃ : Step ok { s.wrapped q with running := some ⟨Prog.ret (Payload.value
      ⟨s.store.nextRef, some q⟩)⟩ } (s.wrapped q) := .ret rfl
  exact .trans (.single h₁) (.trans (.single h₂) (.single h₃))

theorem owners_unique_sample : (sample.wrapped 0).owned = [0] ∧ (sample.wrapped 0).owned.Nodup := by
  have hreach : Reach Fair (sample.wrapped 0) := by
    refine ⟨sample, sample_initial, wrapped_steps Fair rfl ⟨by simp [Op.raws, Any.raw], ?_⟩⟩
    intro q hq
    simp only [Op.raws, Any.raw, Option.toList_some, List.mem_singleton] at hq
    subst hq
    exact ⟨Nat.zero_lt_one, List.not_mem_nil⟩
  exact ⟨rfl, (owners_unique hreach).1⟩

/-- `toExtern` of one raw handle, two times: the handle has two owners, and both finalisers destroy
it. -/
theorem owners_not_unique : ¬ (∀ (P : Platform) (s : Sys P), Reach (fun _ _ => True) s → s.owned.Nodup) ∧
    ¬ ∀ (P : Platform) (s : Sys P), Reach (fun _ _ => True) s → s.destroys.Nodup := by
  have hsteps := (wrapped_steps (fun _ _ => True) (s := sample) (q := 0) rfl trivial).trans
    (wrapped_steps _ (q := 0) rfl trivial)
  constructor
  · intro hall
    exact absurd (hall _ _ ⟨sample, sample_initial, hsteps⟩) (by decide)
  · intro hall
    have h₁ := hsteps.tail (.finalise (show (⟨1, some 0⟩ : JSValueRef) ∈ _ by decide) (by decide))
    have h₂ := h₁.tail (.finalise (show (⟨2, some 0⟩ : JSValueRef) ∈ _ by decide) (by decide))
    exact absurd (hall _ _ ⟨sample, sample_initial, h₂⟩) (by decide)

end Sys

end InteropJs
