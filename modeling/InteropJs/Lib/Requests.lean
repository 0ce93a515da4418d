import Mathlib.Data.List.Basic

/-!
# Programs that send requests

An `Asking ι ω α` sends requests of type `ι` to an environment, goes on with each answer of type `ω`, and
returns a value. `run` is the run against an environment with a state, `log` its requests with their answers.

* `Yields A c Q` is about all answers that `A` allows: with them, `c` returns a value with `Q`. Its rules
  follow the program text.
* `Yields.run`: it holds of a run whose log has only such answers.
* `Ends A c E Q` is the same for programs that also throw.
-/

namespace Hoare

inductive Asking (ι ω α : Type) where
  | ret (a : α)
  | ask (i : ι) (next : ω → Asking ι ω α)

namespace Asking

variable {ι ω σ α β : Type}

def bind : Asking ι ω α → (α → Asking ι ω β) → Asking ι ω β
  | .ret a, f => f a
  | .ask i next, f => .ask i fun o => (next o).bind f

instance : Monad (Asking ι ω) where
  pure := .ret
  bind := bind

theorem bind_ret (c : Asking ι ω α) : c.bind .ret = c := by
  induction c with
  | ret a => rfl
  | ask i next ih => exact congrArg (Asking.ask i) (funext ih)

theorem bind_assoc {γ : Type} (c : Asking ι ω α) (f : α → Asking ι ω β) (g : β → Asking ι ω γ) :
    (c.bind f).bind g = c.bind fun a => (f a).bind g := by
  induction c with
  | ret a => rfl
  | ask i next ih => exact congrArg (Asking.ask i) (funext ih)

instance : LawfulMonad (Asking ι ω) := LawfulMonad.mk' _ bind_ret (fun _ _ => rfl) bind_assoc

/-- An environment: its answer to a request, and its next state. -/
abbrev Answerer (ι ω σ : Type) := ι → σ → ω × σ

def run (answer : Answerer ι ω σ) : Asking ι ω α → σ → α × σ
  | .ret a, s => (a, s)
  | .ask i next, s => (next (answer i s).1).run answer (answer i s).2

/-- The requests of the run, with their answers. -/
def log (answer : Answerer ι ω σ) : Asking ι ω α → σ → List (ι × ω)
  | .ret _, _ => []
  | .ask i next, s => (i, (answer i s).1) :: (next (answer i s).1).log answer (answer i s).2

end Asking

/-- With all answers that `A` allows, `c` returns a value with `Q`. -/
def Yields {ι ω α : Type} (A : ι → ω → Prop) : Asking ι ω α → (α → Prop) → Prop
  | .ret a, Q => Q a
  | .ask i next, Q => ∀ o, A i o → Yields A (next o) Q

namespace Yields

variable {ι ω σ α β : Type} {A : ι → ω → Prop} {c : Asking ι ω α} {Q R : α → Prop}

theorem ret {a : α} (h : Q a) : Yields A (pure a : Asking ι ω α) Q := h

theorem ask (i : ι) {Q : ω → Prop} (h : ∀ o, A i o → Q o) : Yields A (.ask i .ret) Q := h

theorem post (h : Yields A c Q) (hq : ∀ a, Q a → R a) : Yields A c R := by
  induction c with
  | ret a => exact hq a h
  | ask i next ih => exact fun o ho => ih o (h o ho)

theorem bind {f : α → Asking ι ω β} {R : β → Prop} (hc : Yields A c Q) (hf : ∀ a, Q a → Yields A (f a) R) :
    Yields A (c >>= f) R := by
  induction c with
  | ret a => exact hf a hc
  | ask i next ih => exact fun o ho => ih o (hc o ho)

/-- A run with such answers. -/
theorem run {answer : Asking.Answerer ι ω σ} {s : σ} (h : Yields A c Q)
    (hlog : ∀ p ∈ c.log answer s, A p.1 p.2) : Q (c.run answer s).1 := by
  induction c generalizing s with
  | ret a => exact h
  | ask i next ih =>
    have hfirst : A i (answer i s).1 := hlog _ (List.mem_cons_self ..)
    exact ih _ (h _ hfirst) fun p hp => hlog p (List.mem_cons_of_mem _ hp)

end Yields

/-- With all answers that `A` allows, `c` returns a value with `Q` or ends in an exception with `E`. -/
def Ends {ι ω ε α : Type} (A : ι → ω → Prop) (c : ExceptT ε (Asking ι ω) α) (E : ε → Prop) (Q : α → Prop) :
    Prop :=
  Yields A c.run fun
    | .ok v => Q v
    | .error e => E e

namespace Ends

variable {ι ω ε α β : Type} {A : ι → ω → Prop} {c : ExceptT ε (Asking ι ω) α} {E F : ε → Prop} {Q R : α → Prop}

theorem ret {v : α} (h : Q v) : Ends A (pure v : ExceptT ε (Asking ι ω) α) E Q := h

theorem throw {e : ε} (h : E e) : Ends A (MonadExcept.throw e : ExceptT ε (Asking ι ω) α) E Q := h

theorem post (h : Ends A c E Q) (he : ∀ e, E e → F e) (hq : ∀ v, Q v → R v) : Ends A c F R :=
  Yields.post h fun
    | .ok v => hq v
    | .error e => he e

theorem bind {f : α → ExceptT ε (Asking ι ω) β} {R : β → Prop} (hc : Ends A c E Q)
    (hf : ∀ v, Q v → Ends A (f v) E R) : Ends A (c >>= f) E R :=
  Yields.bind hc fun
    | .ok v => hf v
    | .error _ => fun he => he

theorem lift {d : Asking ι ω α} (h : Yields A d Q) : Ends A (ExceptT.lift d : ExceptT ε (Asking ι ω) α) E Q :=
  Yields.bind h fun _ hv => hv

theorem ofOk {r : Except ε α} {v : α} (hr : r = .ok v) (h : Q v) :
    Ends A (ExceptT.mk (pure r) : ExceptT ε (Asking ι ω) α) E Q := by
  subst hr
  exact h

end Ends

attribute [irreducible] Yields

end Hoare
