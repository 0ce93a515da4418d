import InteropJs.Lib.Requests

/-!
# Memory of the engine

The functions of `quickjs.c` ask the C library for blocks: the answer to a request of a number of bytes is the
slack of the block, or nothing.

* `Answers ok` are all answers, but if `ok` then none is a refusal. The specs of the functions hold for them.
* `EveryRun` and `EveryEnd` are what the results say: whatever the C library does, and `ok` is that the run was
  granted all that it asked for.
-/

namespace InteropJs.QuickJS

open Hoare

/-- What `malloc_usable_size` says of a block, less what was asked for. -/
abbrev Slack := Fin 0x40000000

/-- A program that asks the C library for blocks of some numbers of bytes. -/
abbrev Alloc := Asking Nat (Option Slack)

/-- The C library, with a state of its own. -/
abbrev Allocator (M : Type) := Asking.Answerer Nat (Option Slack) M

def realloc (bytes : Nat) : Alloc (Option Slack) := .ask bytes .ret

/-- Every answer is allowed, a refusal unless `ok` (module doc). -/
def Answers (ok : Prop) (_ : Nat) (o : Option Slack) : Prop := o = none → ¬ ok

theorem realloc_spec {ok : Prop} (n : Nat) : Yields (Answers ok) (realloc n) fun o => o = none → ¬ ok :=
  Yields.ask n fun _ ho => ho

/-- No request of the run is refused. -/
def Unrefused {M α : Type} (lib : Allocator M) (m : M) (c : Alloc α) : Prop := ∀ p ∈ c.log lib m, p.2 ≠ none

/-- Every run of `c` gives a value with `Q`, which speaks of whether the run was granted its requests. -/
def EveryRun {α : Type} (c : Alloc α) (Q : Prop → α → Prop) : Prop :=
  ∀ (M : Type) (lib : Allocator M) (m : M), Q (Unrefused lib m c) (c.run lib m).1

theorem EveryRun.of {α : Type} {c : Alloc α} {Q : Prop → α → Prop}
    (h : ∀ ok, Yields (Answers ok) c (Q ok)) : EveryRun c Q :=
  fun _ _ _ => (h _).run fun p hp hno hgranted => hgranted p hp hno

/-- The same for a function that can throw: it gives a value with `Q`, or an exception with `E`. -/
def EveryEnd {ε α : Type} (c : ExceptT ε Alloc α) (E : Prop → ε → Prop) (Q : α → Prop) : Prop :=
  EveryRun c.run fun ok res =>
    match res with
    | .ok v => Q v
    | .error e => E ok e

theorem EveryEnd.of {ε α : Type} {c : ExceptT ε Alloc α} {E : Prop → ε → Prop} {Q : α → Prop}
    (h : ∀ ok, Ends (Answers ok) c (E ok) Q) : EveryEnd c E Q :=
  EveryRun.of fun ok => Yields.post (h ok) fun
    | .ok _ => id
    | .error _ => id

theorem EveryEnd.post {ε α : Type} {c : ExceptT ε Alloc α} {E F : Prop → ε → Prop} {Q R : α → Prop}
    (h : EveryEnd c E Q) (he : ∀ ok e, E ok e → F ok e) (hq : ∀ v, Q v → R v) : EveryEnd c F R := by
  intro M lib m
  have hrun := h M lib m
  revert hrun
  generalize (c.run.run lib m).1 = res
  cases res with
  | error e => exact he _ e
  | ok v => exact hq v

/-- A C library that refuses nothing. -/
def plenty : Allocator Unit := fun _ _ => (some ⟨0, by decide⟩, ())

theorem unrefused_plenty {α : Type} (c : Alloc α) : Unrefused plenty () c := by
  induction c with
  | ret a => exact fun p hp => by cases hp
  | ask n next ih =>
    intro p hp
    obtain rfl | hp := List.mem_cons.mp hp
    · exact Option.some_ne_none _
    · exact ih _ p hp

/-- With enough memory only the other exceptions are left. -/
theorem EveryEnd.plenty {ε α : Type} {c : ExceptT ε Alloc α} {E : Prop → ε → Prop} {Q : α → Prop}
    (h : EveryEnd c E Q) (hno : ∀ e, ¬ E True e) : ∃ v, (c.run.run plenty ()).1 = .ok v ∧ Q v := by
  have hrun := h Unit QuickJS.plenty ()
  rw [eq_true (unrefused_plenty _)] at hrun
  revert hrun
  generalize (c.run.run QuickJS.plenty ()).1 = res
  intro hrun
  cases res with
  | error e => exact absurd hrun (hno e)
  | ok v => exact ⟨v, rfl, hrun⟩

end InteropJs.QuickJS
