import Mathlib.Logic.Relation

/-!
# Total triples over fallible state

A program is a `StateT σ (Except ε)` computation: it returns a value and a new state, or it stops
with a fault of type `ε`. `Triple P c Q` is total correctness without a fault: from every state
that satisfies `P`, `c` returns, and `Q` holds of the value and of the state after it.

* The rules follow the program text: `ret`, `bind`, `ite`, and `lift`/`ex` for pure facts and
  existentials of a precondition.
* `TripleOr P c F Q` also lets `c` stop with an error in `F`, for the runs that end their process. A
  triple is one for every `F` (`Triple.allow`), and one with nothing in `F` is a triple.
* `Keeps f c` is a frame fact, with no precondition and no promise to return: no run of `c` changes
  the observable `f` of the state.
* `reach_invariant` is the rule for systems of such programs: a property that holds at the start
  and that every step keeps holds of every state a run reaches (`Relation.ReflTransGen`).
-/

namespace Hoare

/-- Total correctness without a fault (module doc). -/
def Triple {σ ε α : Type} (P : σ → Prop) (c : StateT σ (Except ε) α) (Q : α → σ → Prop) : Prop :=
  ∀ s, P s → ∃ v s', c.run s = .ok (v, s') ∧ Q v s'

namespace Triple

variable {σ ε α β : Type} {P P' : σ → Prop} {Q Q' : α → σ → Prop} {c : StateT σ (Except ε) α}

theorem conseq (h : Triple P c Q) (hp : ∀ s, P' s → P s) (hq : ∀ v s, Q v s → Q' v s) :
    Triple P' c Q' := by
  intro s hs
  obtain ⟨v, s', hr, hv⟩ := h s (hp s hs)
  exact ⟨v, s', hr, hq v s' hv⟩

theorem pre (h : Triple P c Q) (hp : ∀ s, P' s → P s) : Triple P' c Q :=
  h.conseq hp fun _ _ hq => hq

theorem post (h : Triple P c Q) (hq : ∀ v s, Q v s → Q' v s) : Triple P c Q' :=
  h.conseq (fun _ hp => hp) hq

theorem ret (v : α) : Triple (Q v) (pure v : StateT σ (Except ε) α) Q :=
  fun s hs => ⟨v, s, rfl, hs⟩

theorem bind {R : β → σ → Prop} {f : α → StateT σ (Except ε) β} (hc : Triple P c Q)
    (hf : ∀ v, Triple (Q v) (f v) R) : Triple P (c >>= f) R := by
  intro s hs
  obtain ⟨v, s', hr, hv⟩ := hc s hs
  obtain ⟨u, s'', hr', hu⟩ := hf v s' hv
  refine ⟨u, s'', ?_, hu⟩
  rw [StateT.run_bind, hr]
  exact hr'

/-- Use a pure fact of the precondition. -/
theorem lift {φ : Prop} (h : φ → Triple P c Q) : Triple (fun s => φ ∧ P s) c Q :=
  fun s ⟨hφ, hs⟩ => h hφ s hs

theorem ex {γ : Type} {P : γ → σ → Prop} (h : ∀ x, Triple (P x) c Q) :
    Triple (fun s => ∃ x, P x s) c Q :=
  fun s ⟨x, hs⟩ => h x s hs

theorem ite {d : StateT σ (Except ε) α} {φ : Prop} [Decidable φ] (ht : φ → Triple P c Q)
    (he : ¬ φ → Triple P d Q) : Triple P (if φ then c else d) Q := by
  by_cases hφ : φ
  · rw [if_pos hφ]; exact ht hφ
  · rw [if_neg hφ]; exact he hφ

end Triple

/-- Total correctness up to the errors in `F` (module doc). -/
def TripleOr {σ ε α : Type} (P : σ → Prop) (c : StateT σ (Except ε) α) (F : ε → Prop)
    (Q : α → σ → Prop) : Prop :=
  ∀ s, P s → (∃ v s', c.run s = .ok (v, s') ∧ Q v s') ∨ ∃ e, c.run s = .error e ∧ F e

namespace TripleOr

variable {σ ε α β : Type} {P P' : σ → Prop} {Q Q' : α → σ → Prop} {F F' : ε → Prop}
  {c : StateT σ (Except ε) α}

theorem conseq (h : TripleOr P c F Q) (hp : ∀ s, P' s → P s) (hf : ∀ e, F e → F' e)
    (hq : ∀ v s, Q v s → Q' v s) : TripleOr P' c F' Q' := by
  intro s hs
  obtain ⟨v, s', hr, hv⟩ | ⟨e, hr, he⟩ := h s (hp s hs)
  · exact .inl ⟨v, s', hr, hq v s' hv⟩
  · exact .inr ⟨e, hr, hf e he⟩

theorem pre (h : TripleOr P c F Q) (hp : ∀ s, P' s → P s) : TripleOr P' c F Q :=
  h.conseq hp (fun _ hf => hf) fun _ _ hq => hq

theorem post (h : TripleOr P c F Q) (hq : ∀ v s, Q v s → Q' v s) : TripleOr P c F Q' :=
  h.conseq (fun _ hp => hp) (fun _ hf => hf) hq

theorem throw {e : ε} (h : F e) : TripleOr P (MonadExcept.throw e : StateT σ (Except ε) α) F Q :=
  fun _ _ => .inr ⟨e, rfl, h⟩

theorem bind {R : β → σ → Prop} {f : α → StateT σ (Except ε) β} (hc : TripleOr P c F Q)
    (hf : ∀ v, TripleOr (Q v) (f v) F R) : TripleOr P (c >>= f) F R := by
  intro s hs
  obtain ⟨v, s', hr, hv⟩ | ⟨e, hr, he⟩ := hc s hs
  · rw [StateT.run_bind, hr]
    exact hf v s' hv
  · refine .inr ⟨e, ?_, he⟩
    rw [StateT.run_bind, hr]
    rfl

theorem lift {φ : Prop} (h : φ → TripleOr P c F Q) : TripleOr (fun s => φ ∧ P s) c F Q :=
  fun s ⟨hφ, hs⟩ => h hφ s hs

/-- With nothing in `F` it is a triple. -/
theorem total (h : TripleOr P c F Q) (hF : ∀ e, ¬ F e) : Triple P c Q := by
  intro s hs
  obtain hr | ⟨e, -, he⟩ := h s hs
  · exact hr
  · exact absurd he (hF e)

/-- A run that returned satisfies the postcondition. -/
theorem run_ok (h : TripleOr P c F Q) {s s' : σ} {v : α} (hs : P s) (hr : c.run s = .ok (v, s')) :
    Q v s' := by
  obtain ⟨u, t, ht, hu⟩ | ⟨e, he, -⟩ := h s hs
  · rw [hr] at ht
    cases ht
    exact hu
  · rw [hr] at he
    cases he

end TripleOr

theorem Triple.allow {σ ε α : Type} {P : σ → Prop} {F : ε → Prop} {Q : α → σ → Prop}
    {c : StateT σ (Except ε) α} (h : Triple P c Q) : TripleOr P c F Q := fun s hs => .inl (h s hs)

/-- The first part of a program cannot stop, the second can. -/
theorem Triple.bindOr {σ ε α β : Type} {P : σ → Prop} {F : ε → Prop} {Q : α → σ → Prop}
    {R : β → σ → Prop} {c : StateT σ (Except ε) α} {f : α → StateT σ (Except ε) β} (hc : Triple P c Q)
    (hf : ∀ v, TripleOr (Q v) (f v) F R) : TripleOr P (c >>= f) F R := hc.allow.bind hf

/-- A run of `c >>= g` goes on where the run of `c` ended. -/
theorem run_bind_of {σ ε α β : Type} {c : StateT σ (Except ε) α} {g : α → StateT σ (Except ε) β}
    {s s' : σ} {x : α} (h : c.run s = .ok (x, s')) : (c >>= g).run s = (g x).run s' := by
  rw [StateT.run_bind, h]
  rfl

/-- No run of `c` changes the observable `f` (module doc). -/
def Keeps {σ τ ε α : Type} (f : σ → τ) (c : StateT σ (Except ε) α) : Prop :=
  ∀ s x s', c.run s = .ok (x, s') → f s' = f s

namespace Keeps

variable {σ τ ε α β : Type} {f : σ → τ} {c : StateT σ (Except ε) α}

/-- A run of `c >>= g` is a run of `c` and a run of `g`. -/
theorem run_bind_ok {g : α → StateT σ (Except ε) β} {s s' : σ} {y : β}
    (h : (c >>= g).run s = .ok (y, s')) :
    ∃ x s₁, c.run s = .ok (x, s₁) ∧ (g x).run s₁ = .ok (y, s') := by
  rw [StateT.run_bind] at h
  cases hc : c.run s with
  | error e =>
    rw [hc] at h
    cases h
  | ok out =>
    rw [hc] at h
    exact ⟨out.1, out.2, rfl, h⟩

@[simp] theorem pure (x : α) : Keeps f (Pure.pure x : StateT σ (Except ε) α) := by
  intro s y s' h
  cases h
  rfl

@[simp] theorem throw (e : ε) : Keeps f (MonadExcept.throw e : StateT σ (Except ε) α) := by
  intro s y s' h
  cases h

theorem bind {g : α → StateT σ (Except ε) β} (hc : Keeps f c) (hg : ∀ x, Keeps f (g x)) :
    Keeps f (c >>= g) := by
  intro s y s' h
  obtain ⟨x, s₁, hx, hy⟩ := run_bind_ok h
  exact (hg x s₁ y s' hy).trans (hc s x s₁ hx)

theorem ite {d : StateT σ (Except ε) α} {φ : Prop} [Decidable φ] (hc : Keeps f c) (hd : Keeps f d) :
    Keeps f (if φ then c else d) := by
  by_cases hφ : φ
  · rwa [if_pos hφ]
  · rwa [if_neg hφ]

end Keeps

/-- A step-invariant property holds at the end of every run that starts in it. -/
theorem reach_invariant {σ : Type*} {step : σ → σ → Prop} {I : σ → Prop}
    (hstep : ∀ s s', I s → step s s' → I s') {s s' : σ} (hs : I s)
    (hr : Relation.ReflTransGen step s s') : I s' := by
  induction hr with
  | refl => exact hs
  | tail _ h ih => exact hstep _ _ ih h

end Hoare
