import InteropJs.Bridge.Call

/-!
# Cangjie code over the bridge

A function of `quickJSRuntime.cj` is a tree of its statements (`Prog`): it creates a `JSValueRef`, reads
such objects, calls the bridge and goes on with the result, and returns or throws. The tree keeps
which statement reads which object, so it can be run in two ways:

* `Prog.exec` runs it on a world of the bridge. A `Fault` of the bridge ends the run; a Cangjie
  exception is a result. `Runs` is its total triple, with a postcondition for a return and one for a
  throw, and one rule for each kind of statement. `Stops` says that the run ends in a call whose
  arguments do not fit the stack.
* `InteropJs/Cangjie/Finalizer.lean` follows its paths with the finalisers of the objects.

`LibC.mallocCString` copies the UTF-8 bytes of a string and appends a zero byte; the copy is freed
after the call that it was made for, so it is a value here.
-/

namespace InteropJs

open Hoare

/-- An object of the class `JSValueRef`: its identity and its field `handle`. -/
structure JSValueRef where
  id : Nat
  handle : Ptr
  deriving DecidableEq

/-- The exceptions of the Cangjie layer. -/
inductive Exn where
  | dynamic (message : String)
  | conversion (message : String)
  | overflow
  /-- Bytes that are not UTF-8, or a text that is not a number. -/
  | illegalArgument
  deriving DecidableEq

/-- The statements of a function (module doc). -/
inductive Prog (α : Type) : Type 1 where
  | ret (a : α)
  | raise (e : Exn)
  /-- `JSValueRef(handle)`. -/
  | alloc (handle : Ptr) (k : JSValueRef → Prog α)
  /-- A statement that reads objects. -/
  | touch (refs : List JSValueRef) (k : Prog α)
  /-- A statement that reads objects and calls the bridge. -/
  | native {β : Type} (refs : List JSValueRef) (call : Call β) (k : β → Prog α)

namespace Prog

variable {α β : Type}

def bind : Prog α → (α → Prog β) → Prog β
  | .ret a, f => f a
  | .raise e, _ => .raise e
  | .alloc h k, f => .alloc h fun r => (k r).bind f
  | .touch rs k, f => .touch rs (k.bind f)
  | .native rs c k, f => .native rs c fun x => (k x).bind f

instance : Monad Prog where
  pure := .ret
  bind := bind

/-- `try { p } catch (e) { handler e }`. -/
def tryCatch : Prog α → (Exn → Prog α) → Prog α
  | .ret a, _ => .ret a
  | .raise e, handler => handler e
  | .alloc h k, handler => .alloc h fun r => (k r).tryCatch handler
  | .touch rs k, handler => .touch rs (k.tryCatch handler)
  | .native rs c k, handler => .native rs c fun x => (k x).tryCatch handler

end Prog

/-- A call of the bridge whose arguments are at hand. -/
def Call.prog {β : Type} (c : Call β) : Prog β := .native [] c .ret

/-- `ref.pointer()`. -/
def JSValueRef.pointer (ref : JSValueRef) : Prog Ptr := .touch [ref] (.ret ref.handle)

/-- `JSValueRef(handle)`. -/
def newRef (handle : Ptr) : Prog JSValueRef := .alloc handle .ret

/-! ## Runs -/

/-- The state of the Cangjie program: the world of the bridge and the next identity of an object. -/
structure Store (P : Platform) where
  world : World P
  nextRef : Nat

variable {P : Platform} {α β : Type}

/-- A bridge function on the world of the state. -/
def onWorld (c : BridgeM P β) : StateT (Store P) (Except Fault) β := fun s =>
  match c.run s.world with
  | .error f => .error f
  | .ok (x, world) => .ok (x, { s with world })

/-- A new identity. -/
def freshRef (handle : Ptr) : StateT (Store P) (Except Fault) JSValueRef := fun s =>
  .ok (⟨s.nextRef, handle⟩, { s with nextRef := s.nextRef + 1 })

namespace Prog

/-- A run on the bridge (module doc). -/
def exec : Prog α → StateT (Store P) (Except Fault) (Except Exn α)
  | .ret a => pure (.ok a)
  | .raise e => pure (.error e)
  | .alloc h k => freshRef h >>= fun ref => (k ref).exec
  | .touch _ k => k.exec
  | .native _ c k => onWorld c.run >>= fun x => (k x).exec

theorem exec_bind (p : Prog α) (f : α → Prog β) :
    (p.bind f).exec = (p.exec >>= fun
      | .ok a => (f a).exec
      | .error e => pure (.error e) : StateT (Store P) (Except Fault) (Except Exn β)) := by
  induction p with
  | ret a => simp [bind, exec]
  | raise e => simp [bind, exec]
  | alloc h k ih => simp [bind, exec, ih]
  | touch rs k ih => simp [bind, exec, ih]
  | native rs c k ih => simp [bind, exec, ih]

theorem exec_tryCatch (p : Prog α) (handler : Exn → Prog α) :
    (p.tryCatch handler).exec = (p.exec >>= fun
      | .ok a => pure (.ok a)
      | .error e => (handler e).exec : StateT (Store P) (Except Fault) (Except Exn α)) := by
  induction p with
  | ret a => simp [tryCatch, exec]
  | raise e => simp [tryCatch, exec]
  | alloc h k ih => simp [tryCatch, exec, ih]
  | touch rs k ih => simp [tryCatch, exec, ih]
  | native rs c k ih => simp [tryCatch, exec, ih]

end Prog

/-- From every state of `pre`, `p` runs without a fault; it returns in `ok` or throws in `err`. -/
def Runs (pre : Store P → Prop) (p : Prog α) (ok : α → Store P → Prop)
    (err : Exn → Store P → Prop) : Prop :=
  Triple pre (p.exec : StateT (Store P) (Except Fault) _) fun
    | .ok a => ok a
    | .error e => err e

namespace Runs

variable {I J : Store P → Prop} {ok : α → Store P → Prop} {err : Exn → Store P → Prop}

theorem ret (a : α) : Runs (ok a) (Prog.ret a) ok err :=
  fun s h => ⟨.ok a, s, rfl, h⟩

theorem raise (e : Exn) : Runs (err e) (Prog.raise e : Prog α) ok err :=
  fun s h => ⟨.error e, s, rfl, h⟩

theorem pre {p : Prog α} (h : Runs I p ok err) (hp : ∀ s, J s → I s) : Runs J p ok err :=
  Triple.pre h hp

theorem post {p : Prog α} {ok' : α → Store P → Prop} {err' : Exn → Store P → Prop}
    (h : Runs I p ok err) (hok : ∀ a s, ok a s → ok' a s) (herr : ∀ e s, err e s → err' e s) :
    Runs I p ok' err' :=
  Triple.post h fun
    | .ok a, s, hs => hok a s hs
    | .error e, s, hs => herr e s hs

theorem lift {φ : Prop} {p : Prog α} (h : φ → Runs I p ok err) : Runs (fun s => φ ∧ I s) p ok err :=
  Triple.lift h

theorem ex {γ : Type} {I : γ → Store P → Prop} {p : Prog α} (h : ∀ x, Runs (I x) p ok err) :
    Runs (fun s => ∃ x, I x s) p ok err :=
  Triple.ex h

theorem touch {rs : List JSValueRef} {p : Prog α} (h : Runs I p ok err) :
    Runs I (Prog.touch rs p) ok err := h

/-- A new object has an identity that no object had before. -/
theorem alloc {handle : Ptr} {k : JSValueRef → Prog α} {Q : JSValueRef → Store P → Prop}
    (hI : ∀ s, I s → Q ⟨s.nextRef, handle⟩ { s with nextRef := s.nextRef + 1 })
    (h : ∀ ref, Runs (Q ref) (k ref) ok err) : Runs I (Prog.alloc handle k) ok err :=
  Triple.bind (fun s hs => ⟨_, _, rfl, hI s hs⟩) h

/-- A call of the bridge, from its triple. -/
theorem native {rs : List JSValueRef} {c : Call β} {k : β → Prog α} {I : World P → Prop}
    {Q : β → World P → Prop} (hc : Triple I c.run Q)
    (h : ∀ x, Runs (fun s => Q x s.world) (k x) ok err) :
    Runs (fun s => I s.world) (Prog.native rs c k) ok err := by
  refine Triple.bind (Q := fun x (s : Store P) => Q x s.world) (fun s hs => ?_) h
  obtain ⟨x, w, hrun, hw⟩ := hc s.world hs
  exact ⟨x, { s with world := w }, by simp [onWorld, StateT.run, show c.run s.world = _ from hrun], hw⟩

theorem bind {p : Prog α} {f : α → Prog β} {Q : α → Store P → Prop} {ok : β → Store P → Prop}
    (hp : Runs I p Q err) (hf : ∀ a, Runs (Q a) (f a) ok err) : Runs I (p.bind f) ok err := by
  unfold Runs
  rw [Prog.exec_bind]
  refine Triple.bind hp fun x => ?_
  cases x with
  | ok a => exact hf a
  | error e => exact fun s h => ⟨.error e, s, rfl, h⟩

/-- A handler takes over where its body throws. -/
theorem tryCatch {p : Prog α} {handler : Exn → Prog α} {Q : Exn → Store P → Prop}
    (hp : Runs I p ok Q) (hh : ∀ e, Runs (Q e) (handler e) ok err) :
    Runs I (p.tryCatch handler) ok err := by
  unfold Runs
  rw [Prog.exec_tryCatch]
  refine Triple.bind hp fun x => ?_
  cases x with
  | ok a => exact fun s h => ⟨.ok a, s, rfl, h⟩
  | error e => exact hh e

end Runs

/-- From every state of `pre`, the process ends in `p`: the stack has no room for a call's arguments. -/
def Stops (pre : Store P → Prop) (p : Prog α) : Prop :=
  ∀ s, pre s → p.exec.run s = .error .stackOverflow

namespace Stops

variable {I : Store P → Prop}

theorem bind {p : Prog α} {f : α → Prog β} (hp : Stops I p) : Stops I (p.bind f) := by
  intro s hs
  rw [Prog.exec_bind, StateT.run_bind, hp s hs]
  rfl

theorem tryCatch {p : Prog α} {handler : Exn → Prog α} (hp : Stops I p) :
    Stops I (p.tryCatch handler) := by
  intro s hs
  rw [Prog.exec_tryCatch, StateT.run_bind, hp s hs]
  rfl

/-- The process ends after `p`, which cannot throw. -/
theorem after {p : Prog α} {f : α → Prog β} {Q : α → Store P → Prop}
    (hp : Runs I p Q fun _ _ => False) (hf : ∀ a, Stops (Q a) (f a)) : Stops I (p.bind f) := by
  intro s hs
  obtain ⟨res, s', hrun, hq⟩ := hp s hs
  rw [Prog.exec_bind, StateT.run_bind, hrun]
  cases res with
  | ok a => exact hf a s' hq
  | error e => exact hq.elim

theorem touch {rs : List JSValueRef} {p : Prog α} (h : Stops I p) : Stops I (Prog.touch rs p) := h

theorem native {rs : List JSValueRef} {c : Call β} {k : β → Prog α} {I : World P → Prop}
    (hc : TripleOr I c.run (· = .stackOverflow) fun _ _ => False) :
    Stops (fun s => I s.world) (Prog.native rs c k) := by
  intro s hs
  obtain ⟨_, _, -, h⟩ | ⟨_, hrun, rfl⟩ := hc s.world hs
  · exact h.elim
  · have hworld : (onWorld c.run : StateT (Store P) (Except Fault) β).run s = .error .stackOverflow := by
      simp [onWorld, StateT.run, show c.run s.world = _ from hrun]
    rw [Prog.exec, StateT.run_bind, hworld]
    rfl

end Stops

end InteropJs
