import InteropJs.Bridge.Failure
import InteropJs.Cangjie.Paths
import InteropJs.Cangjie.Integers
import InteropJs.Cangjie.Methods

/-!
# Failures and results

A public operation must not turn a failure of the bridge into a normal result.

* `Traced` is a run of a function with the bridge calls that it makes, their results and the worlds
  they were made in; it is what `Prog.exec` does (`Prog.exec_traced`).
* `lastCall` is the last call that a result rests on: kind checks, reads of the error text and the
  release of a string carry nothing.
* `Prog.Returns` says what holds of that call, the result and the state wherever a function returns,
  whatever the bridge answers. It has one rule for each kind of statement.
* `Op.Honest` is the contract of an operation, and `Op.LosesText` and `Op.Unbacked` are the two ways
  in which one breaks it.
-/

namespace InteropJs

open Hoare

variable {P : Platform} {α β : Type}

/-! ## Calls of a run -/

/-- A call of the bridge in a run: its result, and the world that it was made in. -/
structure Answered (P : Platform) where
  {β : Type}
  call : Call β
  result : β
  world : World P

/-- `p` is a live handle, and the engine function `f` does not throw on its value. -/
def World.Converts (w : World P) (p : Ptr) (f : JSVal → EngineM P.Heap α) : Prop :=
  ∃ r l x, w.loc? r = some l ∧ w.valueOf r p = some x ∧ (f x l.heap).1.toOption.isSome = true

/-- The calls that have no result of their own for a failure: the conversion succeeds. -/
def Call.Converted (w : World P) : {β : Type} → Call β → Prop
  | _, .valueKind p | _, .valueToBool p => w.Converts p fun x h => (.ok x, h)
  | _, .valueToNumber p => w.Converts p P.toNumber
  | _, .valueIsArray p => w.Converts p P.isArray
  | _, _ => False

/-- A `NULL` handle, a status other than zero, a negative length, a `NULL` string, or a conversion
that failed. -/
def Answered.Failed (e : Answered P) : Prop := e.call.Failed e.result ∧ ¬ e.call.Converted e.world

/-- A result can rest on the call (module doc). -/
def Call.carries : {β : Type} → Call β → Bool
  | _, .valueKind _ | _, .runtimeLastError _ | _, .bridgeFreeString _ => false
  | _, _ => true

/-- The last call that a result rests on. -/
def lastCall (τ : List (Answered P)) : Option (Answered P) := τ.reverse.find? (·.call.carries)

theorem lastCall_append (τ τ' : List (Answered P)) :
    lastCall (τ ++ τ') = (lastCall τ').or (lastCall τ) := by
  rw [lastCall, List.reverse_append, List.find?_append]
  rfl

theorem lastCall_cons (e : Answered P) (τ : List (Answered P)) :
    lastCall (e :: τ) = (lastCall τ).or (if e.call.carries then some e else none) := by
  rw [show e :: τ = [e] ++ τ from rfl, lastCall_append]
  cases h : e.call.carries <;> simp [lastCall, h]

/-- A run of a function with its calls (module doc). -/
inductive Traced {α : Type} :
    Prog α → Store P → List (Answered P) → Except Exn α → Store P → Prop where
  | ret {a : α} {s : Store P} : Traced (.ret a) s [] (.ok a) s
  | raise {e : Exn} {s : Store P} : Traced (.raise e) s [] (.error e) s
  | alloc {h : Ptr} {k : JSValueRef → Prog α} {s s' : Store P} {τ : List (Answered P)} {res : Except Exn α}
      (rest : Traced (k ⟨s.nextRef, h⟩) { s with nextRef := s.nextRef + 1 } τ res s') :
      Traced (.alloc h k) s τ res s'
  | touch {rs : List JSValueRef} {k : Prog α} {s s' : Store P} {τ : List (Answered P)} {res : Except Exn α}
      (rest : Traced k s τ res s') : Traced (.touch rs k) s τ res s'
  | native {β : Type} {rs : List JSValueRef} {call : Call β} {k : β → Prog α} {s s' : Store P} {x : β}
      {w : World P} {τ : List (Answered P)} {res : Except Exn α}
      (ran : call.run.run s.world = .ok (x, w)) (rest : Traced (k x) { s with world := w } τ res s') :
      Traced (.native rs call k) s (⟨call, x, s.world⟩ :: τ) res s'

theorem Traced.exec {p : Prog α} {s s' : Store P} {τ : List (Answered P)} {res : Except Exn α}
    (h : Traced p s τ res s') : p.exec.run s = .ok (res, s') := by
  induction h with
  | ret => rfl
  | raise => rfl
  | alloc _ ih => exact ih
  | touch _ ih => exact ih
  | @native β rs call k s s' x w τ res ran _ ih =>
    have hcall : (onWorld call.run : StateT (Store P) (Except Fault) β).run s =
        .ok (x, { s with world := w }) := by
      simp only [onWorld, StateT.run] at ran ⊢
      rw [ran]
    exact (run_bind_of hcall).trans ih

/-- The runs with their calls are the runs on the bridge. -/
theorem Prog.exec_traced (p : Prog α) {s s' : Store P} {res : Except Exn α} :
    p.exec.run s = .ok (res, s') ↔ ∃ τ, Traced p s τ res s' := by
  refine ⟨fun h => ?_, fun ⟨τ, h⟩ => h.exec⟩
  induction p generalizing s with
  | ret a =>
    cases h
    exact ⟨[], .ret⟩
  | raise e =>
    cases h
    exact ⟨[], .raise⟩
  | alloc handle k ih =>
    obtain ⟨τ, hτ⟩ := ih _ h
    exact ⟨τ, .alloc hτ⟩
  | touch rs k ih =>
    obtain ⟨τ, hτ⟩ := ih h
    exact ⟨τ, .touch hτ⟩
  | native rs c k ih =>
    obtain ⟨x, s₁, hx, h⟩ := Hoare.Keeps.run_bind_ok h
    obtain ⟨τ, hτ⟩ := ih x h
    obtain ⟨w, hw, rfl⟩ := onWorld_ok hx
    exact ⟨_, .native hw hτ⟩

theorem Traced.bind_inv {p : Prog α} {f : α → Prog β} {s s' : Store P} {τ : List (Answered P)}
    {res : Except Exn β} (h : Traced (p.bind f) s τ res s') :
    (∃ e, res = .error e ∧ Traced p s τ (.error e) s') ∨
      ∃ a τ₁ τ₂ s₁, τ = τ₁ ++ τ₂ ∧ Traced p s τ₁ (.ok a) s₁ ∧ Traced (f a) s₁ τ₂ res s' := by
  induction p generalizing s τ with
  | ret a => exact .inr ⟨a, [], τ, s, rfl, .ret, h⟩
  | raise e =>
    cases h
    exact .inl ⟨e, rfl, .raise⟩
  | alloc handle k ih =>
    cases h with
    | alloc rest =>
    obtain ⟨e, he, h⟩ | ⟨a, τ₁, τ₂, s₁, hτ, h₁, h₂⟩ := ih _ rest
    · exact .inl ⟨e, he, .alloc h⟩
    · exact .inr ⟨a, τ₁, τ₂, s₁, hτ, .alloc h₁, h₂⟩
  | touch rs k ih =>
    cases h with
    | touch rest =>
    obtain ⟨e, he, h⟩ | ⟨a, τ₁, τ₂, s₁, hτ, h₁, h₂⟩ := ih rest
    · exact .inl ⟨e, he, .touch h⟩
    · exact .inr ⟨a, τ₁, τ₂, s₁, hτ, .touch h₁, h₂⟩
  | native rs c k ih =>
    cases h with
    | native ran rest =>
    obtain ⟨e, he, h⟩ | ⟨a, τ₁, τ₂, s₁, rfl, h₁, h₂⟩ := ih _ rest
    · exact .inl ⟨e, he, .native ran h⟩
    · exact .inr ⟨a, _, τ₂, s₁, rfl, .native ran h₁, h₂⟩

theorem Traced.tryCatch_inv {p : Prog α} {handler : Exn → Prog α} {s s' : Store P}
    {τ : List (Answered P)} {a : α} (h : Traced (p.tryCatch handler) s τ (.ok a) s') :
    Traced p s τ (.ok a) s' ∨
      ∃ e τ₁ τ₂ s₁, τ = τ₁ ++ τ₂ ∧ Traced p s τ₁ (.error e) s₁ ∧ Traced (handler e) s₁ τ₂ (.ok a) s' := by
  induction p generalizing s τ with
  | ret b => exact .inl h
  | raise e => exact .inr ⟨e, [], τ, s, rfl, .raise, h⟩
  | alloc handle k ih =>
    cases h with
    | alloc rest =>
    obtain h | ⟨e, τ₁, τ₂, s₁, hτ, h₁, h₂⟩ := ih _ rest
    · exact .inl (.alloc h)
    · exact .inr ⟨e, τ₁, τ₂, s₁, hτ, .alloc h₁, h₂⟩
  | touch rs k ih =>
    cases h with
    | touch rest =>
    obtain h | ⟨e, τ₁, τ₂, s₁, hτ, h₁, h₂⟩ := ih rest
    · exact .inl (.touch h)
    · exact .inr ⟨e, τ₁, τ₂, s₁, hτ, .touch h₁, h₂⟩
  | native rs c k ih =>
    cases h with
    | native ran rest =>
    obtain h | ⟨e, τ₁, τ₂, s₁, rfl, h₁, h₂⟩ := ih _ rest
    · exact .inl (.native ran h)
    · exact .inr ⟨e, _, τ₂, s₁, rfl, .native ran h₁, h₂⟩

/-! ## Where a function returns -/

/-- Wherever `p` returns from `s`, `Q` holds of the last call, the result and the state. -/
def Prog.Returns (p : Prog α) (s : Store P) (Q : Option (Answered P) → α → Store P → Prop) : Prop :=
  ∀ τ a s', Traced p s τ (.ok a) s' → Q (lastCall τ) a s'

namespace Prog.Returns

variable {p : Prog α} {s : Store P} {Q R : Option (Answered P) → α → Store P → Prop}

theorem ret {a : α} (h : Q none a s) : (Prog.ret a).Returns s Q := by
  intro τ b s' hτ
  cases hτ
  exact h

theorem raise {e : Exn} : (Prog.raise e).Returns s Q := by
  intro τ b s' hτ
  cases hτ

theorem mono (h : p.Returns s Q) (hQ : ∀ o a s', Q o a s' → R o a s') : p.Returns s R :=
  fun τ a s' hτ => hQ _ a s' (h τ a s' hτ)

theorem alloc {handle : Ptr} {k : JSValueRef → Prog α}
    (h : (k ⟨s.nextRef, handle⟩).Returns { s with nextRef := s.nextRef + 1 } Q) :
    (Prog.alloc handle k).Returns s Q := by
  intro τ a s' hτ
  cases hτ with
  | alloc rest => exact h τ a s' rest

theorem touch {rs : List JSValueRef} (h : p.Returns s Q) : (Prog.touch rs p).Returns s Q := by
  intro τ a s' hτ
  cases hτ with
  | touch rest => exact h τ a s' rest

/-- A call that carries nothing. -/
theorem asks {rs : List JSValueRef} {c : Call β} {k : β → Prog α} (hc : c.carries = false)
    (h : ∀ x w, c.run.run s.world = .ok (x, w) → (k x).Returns { s with world := w } Q) :
    (Prog.native rs c k).Returns s Q := by
  intro τ a s' hτ
  cases hτ with
  | native ran rest =>
  rw [lastCall_cons, hc]
  simpa using h _ _ ran _ a s' rest

/-- A call that the result may rest on. -/
theorem rests {rs : List JSValueRef} {c : Call β} {k : β → Prog α} (hc : c.carries = true)
    (h : ∀ x w, c.run.run s.world = .ok (x, w) →
      (k x).Returns { s with world := w } fun o => Q (o.or (some ⟨c, x, s.world⟩))) :
    (Prog.native rs c k).Returns s Q := by
  intro τ a s' hτ
  cases hτ with
  | native ran rest =>
  rw [lastCall_cons, hc]
  exact h _ _ ran _ a s' rest

theorem bind {f : α → Prog β} {Q : Option (Answered P) → β → Store P → Prop} (hp : p.Returns s R)
    (hf : ∀ o a s₁, R o a s₁ → (f a).Returns s₁ fun o' => Q (o'.or o)) : (p.bind f).Returns s Q := by
  intro τ b s' hτ
  obtain ⟨e, he, -⟩ | ⟨a, τ₁, τ₂, s₁, rfl, h₁, h₂⟩ := hτ.bind_inv
  · cases he
  · rw [lastCall_append]
    exact hf _ a s₁ (hp τ₁ a s₁ h₁) τ₂ b s' h₂

/-- A body before the calls that matter. -/
theorem after {f : α → Prog β} {Q : Option (Answered P) → β → Store P → Prop}
    (hf : ∀ o a s₁, (f a).Returns s₁ fun o' => Q (o'.or o)) : (p.bind f).Returns s Q :=
  bind (R := fun _ _ _ => True) (fun _ _ _ _ => trivial) fun o a s₁ _ => hf o a s₁

theorem tryCatch {handler : Exn → Prog α} (hp : p.Returns s Q)
    (hh : ∀ e o s₁, (handler e).Returns s₁ fun o' => Q (o'.or o)) :
    (p.tryCatch handler).Returns s Q := by
  intro τ a s' hτ
  obtain h | ⟨e, τ₁, τ₂, s₁, rfl, -, h₂⟩ := hτ.tryCatch_inv
  · exact hp τ a s' h
  · rw [lastCall_append]
    exact hh e _ s₁ τ₂ a s' h₂

end Prog.Returns

/-! ## Handles and statuses -/

/-- The last call succeeded and gave the handle `p`. -/
def Gave (o : Option (Answered P)) (p : Ptr) : Prop :=
  ∃ e q, o = some e ∧ e.call.given e.result = some q ∧ p = some q

/-- The last call succeeded. -/
def Succeeded (o : Option (Answered P)) : Prop := ∃ e, o = some e ∧ ¬ e.Failed

theorem Gave.succeeded {o : Option (Answered P)} {p : Ptr} (h : Gave o p) : Succeeded o := by
  obtain ⟨e, q, rfl, hq, -⟩ := h
  refine ⟨e, rfl, fun hf => ?_⟩
  rw [hf.1.given] at hq
  cases hq

/-- What comes before the last call does not matter. -/
theorem Gave.or {o o' : Option (Answered P)} {p : Ptr} (h : Gave o p) : Gave (o.or o') p := by
  obtain ⟨e, q, rfl, hq⟩ := h
  exact ⟨e, q, rfl, hq⟩

theorem Succeeded.or {o o' : Option (Answered P)} (h : Succeeded o) : Succeeded (o.or o') := by
  obtain ⟨e, rfl, he⟩ := h
  exact ⟨e, rfl, he⟩

section Pieces

variable {s : Store P} {Q : Option (Answered P) → α → Store P → Prop}

/-- A call that returns a handle: the code throws on `NULL`. -/
theorem Prog.Returns.handle {rs : List JSValueRef} {c : Call Ptr} {k : Ptr → Prog α}
    (hc : c.carries = true) (hg : ∀ p, c.given p = p)
    (hnone : ∀ s₁ : Store P, (k none).Returns s₁ fun _ _ _ => False)
    (hsome : ∀ q o (s₁ : Store P), Gave o (some q) → (k (some q)).Returns s₁ fun o' => Q (o'.or o)) :
    (Prog.native rs c k).Returns s Q := by
  refine .rests hc fun x w _ => ?_
  cases x with
  | none => exact (hnone _).mono fun _ _ _ h => h.elim
  | some q => exact hsome q _ _ ⟨_, q, rfl, hg _, rfl⟩

/-- A call that returns a status: the code throws unless it is zero. -/
theorem Prog.Returns.status {c : Call Int} {bad : Prog Unit} (hc : c.carries = true)
    (hf : ∀ i, c.Failed i ↔ i ≠ 0) (hbad : ∀ s₁ : Store P, bad.Returns s₁ fun _ _ _ => False) :
    (c.prog.bind fun i => if i ≠ 0 then bad else .ret ()).Returns s fun o _ _ => Succeeded o := by
  refine .rests hc fun i w _ => ?_
  show (if i ≠ 0 then bad else .ret ()).Returns _ _
  by_cases hi : i ≠ 0
  · rw [if_pos hi]
    exact (hbad _).mono fun _ _ _ h => h.elim
  · rw [if_neg hi]
    exact .ret ⟨_, rfl, fun h => hi ((hf i).mp h.1)⟩

theorem throws_runtimeError (runtime : Ptr) (s : Store P) (f : String → Exn) :
    ((runtimeError runtime).bind fun m => (.raise (f m) : Prog α)).Returns s fun _ _ _ => False :=
  .after fun _ _ _ => .raise

theorem valueFromRuntimeHandle_throws (runtime : Ptr) (s : Store P) :
    (valueFromRuntimeHandle runtime none).Returns s fun _ _ _ => False :=
  throws_runtimeError runtime s _

theorem valueFromCallHandle_throws (runtime : Ptr) (s : Store P) :
    (valueFromCallHandle runtime none).Returns s fun _ _ _ => False := by
  refine Prog.Returns.after (p := runtimeError runtime) fun o m s₁ => ?_
  by_cases hm : m.isEmpty = true
  · rw [if_pos hm]
    exact .raise
  · rw [if_neg hm]
    exact .raise

/-- A new object around the handle that the last call gave. -/
theorem newRef_gave {o : Option (Answered P)} {q : Nat} (h : Gave o (some q)) :
    (newRef (some q)).Returns s fun o' ref _ => Gave (o'.or o) ref.handle :=
  .alloc (.ret h)

theorem jsExtern_gave {o : Option (Answered P)} {q : Nat} (h : Gave o (some q)) :
    (jsExtern (some q)).Returns s fun o' e _ => ∃ ref, e = .value ref ∧ Gave (o'.or o) ref.handle :=
  .alloc (.ret ⟨_, rfl, h⟩)

/-! ## The functions below the operations -/

/-- The handle that a value brings along. -/
def Any.brought? : Any → Option Ptr
  | .externValue (.value ref) => some ref.handle
  | .externValue (.pointer h) | .pointer h => some h
  | _ => none

/-- A new JavaScript value. -/
theorem newValue_gave {c : Call Ptr} (runtime : Ptr) (hc : c.carries = true) (hg : ∀ p, c.given p = p) :
    (c.prog.bind fun h => (valueFromRuntimeHandle runtime h).bind newRef).Returns s
      fun o ref _ => Gave o ref.handle := by
  refine .handle hc hg (fun s₁ => ?_) fun _ _ _ h => newRef_gave h
  exact Prog.Returns.bind (p := valueFromRuntimeHandle runtime none) (f := newRef)
    (valueFromRuntimeHandle_throws runtime s₁) fun _ _ _ h => False.elim h

theorem toJSValue_gave (runtime : Ptr) (v : Any) :
    (JSRuntime.toJSValue runtime v).Returns s fun o ref _ =>
      match v.brought? with
      | some q => o = none ∧ ref.handle = q
      | none => Gave o ref.handle := by
  cases v with
  | externValue e =>
    cases e with
    | value ref => exact .ret ⟨rfl, rfl⟩
    | method f g => exact .raise
    | pointer h => exact .alloc (.ret ⟨rfl, rfl⟩)
    | other => exact .raise
  | pointer h => exact .alloc (.ret ⟨rfl, rfl⟩)
  | int t i => cases t <;> exact newValue_gave runtime rfl fun _ => rfl
  | bigInt i => exact newValue_gave runtime rfl fun _ => rfl
  | float t x => exact newValue_gave runtime rfl fun _ => rfl
  | bool b => exact newValue_gave runtime rfl fun _ => rfl
  | string m => exact newValue_gave runtime rfl fun _ => rfl
  | other => exact .raise

theorem getProperty_gave (value : Ptr) (name : String) :
    (getProperty value name).Returns s fun o p _ => Gave o p := by
  refine Prog.Returns.after fun o ok s₁ => ?_
  cases ok with
  | false => exact .raise
  | true =>
    exact .handle rfl (fun _ => rfl) (fun _ => .raise) fun q o s₁ h => .ret (Gave.or h)

theorem getIndex_gave (value : Ptr) (index : Int) :
    (getIndex value index).Returns s fun o p _ => Gave o p := by
  refine Prog.Returns.after fun o ok s₁ => ?_
  cases ok with
  | false => exact .raise
  | true =>
    refine Prog.Returns.after fun o length s₁ => ?_
    by_cases hr : index < 0 ∨ length ≤ index
    · rw [if_pos hr]
      exact .raise
    · rw [if_neg hr]
      exact .handle rfl (fun _ => rfl) (fun _ => .raise) fun q o s₁ h => .ret (Gave.or h).or

theorem setProperty_succeeded (target : Ptr) (name : String) (value : Ptr) :
    (setProperty target name value).Returns s fun o _ _ => Succeeded o := by
  refine Prog.Returns.after fun o ok s₁ => ?_
  cases ok with
  | false => exact .raise
  | true =>
    exact (Prog.Returns.status rfl (fun _ => Iff.rfl) fun _ => .raise).mono fun _ _ _ h => h.or

theorem setIndex_succeeded (target : Ptr) (index : Int) (value : Ptr) :
    (setIndex target index value).Returns s fun o _ _ => Succeeded o := by
  refine Prog.Returns.after fun o ok s₁ => ?_
  cases ok with
  | false => exact .raise
  | true =>
    refine Prog.Returns.after fun o length s₁ => ?_
    by_cases hr : index < 0 ∨ length ≤ index
    · rw [if_pos hr]
      exact .raise
    · rw [if_neg hr]
      exact (Prog.Returns.status rfl (fun _ => Iff.rfl) fun _ => .raise).mono fun _ _ _ h => h.or.or

theorem callValue_gave (runtime : Ptr) (function thisValue : JSValueRef) (args : List JSValueRef) :
    (JSRuntime.callValue runtime function thisValue args).Returns s fun o p _ => Gave o p := by
  refine Prog.Returns.after fun _ nativeArgs _ => Prog.Returns.after fun _ n _ => ?_
  exact .handle rfl (fun _ => rfl) (fun s₁ => valueFromCallHandle_throws runtime s₁)
    fun q o s₁ h => .ret (Gave.or h).or

theorem constructValue_gave (runtime : Ptr) (constructor : JSValueRef) (args : List JSValueRef) :
    (JSRuntime.constructValue runtime constructor args).Returns s fun o p _ => Gave o p := by
  refine Prog.Returns.after fun _ nativeArgs _ => Prog.Returns.after fun _ n _ => ?_
  exact .handle rfl (fun _ => rfl) (fun s₁ => valueFromCallHandle_throws runtime s₁)
    fun q o s₁ h => .ret (Gave.or h).or

end Pieces

/-! ## Conversions to Cangjie -/

/-- What the type `t` makes of a number. -/
def Target.ofNumber : Target → Float64 → Prog Any
  | .int t, x => do return .int t (← t.ofFloat64 x)
  | .bigInt, x => do return .bigInt (← bigIntOfFloat64 x)
  | .float t, x => .ret (.float t (t.ofFloat64 x))
  | _, _ => unsupportedConversion

def Target.ofBigInt : Target → Int → Prog Any
  | .int t, i => do return .int t (← t.ofInt i)
  | .bigInt, i => .ret (.bigInt i)
  | .float t, i => .ret (.float t (t.ofRat i))
  | _, _ => unsupportedConversion

def Target.ofText : Target → String → Prog Any
  | .string, m => .ret (.string m)
  | t, m => do t.ofBigInt (← parseBigInt m)

/-- `v` is what the result of the call is as a value of the type `t`. -/
def Call.Reads (t : Target) (v : Any) : {β : Type} → Call β → β → Prop
  | _, .valueToBool _, i => t = .bool ∧ v = .bool (i ≠ 0)
  | _, .valueToNumber _, x => t.ofNumber x = .ret v
  | _, .valueToString _, s => ∃ s' m, s = some s' ∧ s'.bytes.string? = some m ∧ t.ofText m = .ret v
  | _, _, _ => False

/-- The last call succeeded, and its result is `v` as a value of the type `t`. -/
def Read (o : Option (Answered P)) (t : Target) (v : Any) : Prop :=
  ∃ e, o = some e ∧ ¬ e.Failed ∧ e.call.Reads t v e.result

/-- A computation without statements: it returns or throws. -/
def Prog.Pure (p : Prog α) : Prop := (∃ a, p = .ret a) ∨ ∃ e, p = .raise e

theorem Prog.Pure.bind {p : Prog α} {f : α → Prog β} (hp : p.Pure) (hf : ∀ a, (f a).Pure) :
    (p.bind f).Pure := by
  obtain ⟨a, rfl⟩ | ⟨e, rfl⟩ := hp
  · exact hf a
  · exact .inr ⟨e, rfl⟩

theorem Prog.Pure.returns {p : Prog α} {s : Store P} (h : p.Pure) :
    p.Returns s fun o a _ => o = none ∧ p = .ret a := by
  obtain ⟨a, rfl⟩ | ⟨e, rfl⟩ := h
  · exact .ret ⟨rfl, rfl⟩
  · exact .raise

theorem ofInt_pure (t : IntType) (i : Int) : (t.ofInt i).Pure := by
  unfold IntType.ofInt
  by_cases h : t.min ≤ i ∧ i ≤ t.max
  · rw [dif_pos h]
    exact .inl ⟨_, rfl⟩
  · rw [dif_neg h]
    exact .inr ⟨_, rfl⟩

theorem parseBigInt_pure (m : String) : (parseBigInt m).Pure := by
  unfold parseBigInt
  cases m.toInt? with
  | none => exact .inr ⟨_, rfl⟩
  | some i => exact .inl ⟨i, rfl⟩

theorem Target.ofNumber_pure (t : Target) (x : Float64) : (t.ofNumber x).Pure := by
  cases t with
  | int t =>
    refine Prog.Pure.bind (p := t.ofFloat64 x) ?_ fun i => .inl ⟨_, rfl⟩
    cases x with
    | negZero => exact ofInt_pure t 0
    | finite q => exact ofInt_pure t _
    | _ => exact .inr ⟨_, rfl⟩
  | bigInt => cases x <;> first | exact .inl ⟨_, rfl⟩ | exact .inr ⟨_, rfl⟩
  | float t => exact .inl ⟨_, rfl⟩
  | _ => exact .inr ⟨_, rfl⟩

theorem Target.ofBigInt_pure (t : Target) (i : Int) : (t.ofBigInt i).Pure := by
  cases t with
  | int t => exact Prog.Pure.bind (ofInt_pure t i) fun i => .inl ⟨_, rfl⟩
  | bigInt => exact .inl ⟨_, rfl⟩
  | float t => exact .inl ⟨_, rfl⟩
  | _ => exact .inr ⟨_, rfl⟩

section Convert

variable {r p : Nat} {l : Loc P} {s : Store P} {x : JSVal}

theorem Ready.converts {f : JSVal → EngineM P.Heap α} (h : Ready r l s) (hp : s.world.Holds p r x)
    (hf : (f x l.heap).1.toOption.isSome = true) : s.world.Converts (some p) f := by
  obtain ⟨L, hrun⟩ := h.on
  refine ⟨r, l, x, Run.loc? hrun, ?_, hf⟩
  obtain ⟨t, ht⟩ := hp
  simp [World.valueOf, ht]

theorem valueIs_returns (h : Ready r l s) (hp : s.world.Holds p r x) (kind : Int) :
    (valueIs kind (some p)).Returns s fun o ok s' =>
      o = none ∧ ok = decide (x.kind.code = kind) ∧ s' = s := by
  refine .asks rfl fun k w ran => ?_
  rw [valueKind_run h hp] at ran
  cases ran
  exact .ret ⟨rfl, rfl, rfl⟩

/-- `valueIsString(value) || valueIsBigInt(value)` for this value. -/
def JSVal.isText (x : JSVal) : Prop :=
  x.kind.code = jsValueStringKind ∨ x.kind.code = jsValueBigIntKind

instance (x : JSVal) : Decidable x.isText := inferInstanceAs (Decidable (_ ∨ _))

theorem valueIsText_returns (h : Ready r l s) (hp : s.world.Holds p r x) :
    (valueIsText (some p)).Returns s fun o ok s' => o = none ∧ ok = decide x.isText ∧ s' = s := by
  refine .bind (valueIs_returns h hp jsValueStringKind) ?_
  rintro o ok s₁ ⟨rfl, rfl, rfl⟩
  by_cases hs : x.kind.code = jsValueStringKind
  · simp only [hs, decide_true, if_true]
    exact .ret ⟨rfl, by simp [JSVal.isText, hs], rfl⟩
  · simp only [hs, decide_false, Bool.false_eq_true, if_false]
    refine (valueIs_returns h hp jsValueBigIntKind).mono fun o ok s' hk => ?_
    simpa [JSVal.isText, hs] using hk

theorem valueAsBool_read (h : Ready r l s) (hp : s.world.Holds p r x) :
    (valueAsBool (some p)).Returns s fun o v _ => Read o .bool (.bool v) := by
  refine .bind (valueIs_returns h hp jsValueBoolKind) ?_
  rintro o ok s₁ ⟨rfl, rfl, rfl⟩
  by_cases hk : x.kind.code = jsValueBoolKind
  · simp only [hk, decide_true, Bool.not_true, Bool.false_eq_true, if_false]
    refine .rests rfl fun i w _ => .ret ⟨_, rfl, fun hf => hf.2 ?_, rfl, rfl⟩
    exact h.converts hp rfl
  · simp only [hk, decide_false, Bool.not_false, if_true]
    exact .raise

theorem valueAsFloat64_read (h : Ready r l s) (hp : s.world.Holds p r x) :
    (valueAsFloat64 (some p)).Returns s fun o y _ =>
      ∃ e, o = some e ∧ ¬ e.Failed ∧ ∀ (t : Target) v, t.ofNumber y = .ret v → e.call.Reads t v e.result := by
  refine .bind (valueIs_returns h hp jsValueNumberKind) ?_
  rintro o ok s₁ ⟨rfl, rfl, rfl⟩
  by_cases hk : x.kind.code = jsValueNumberKind
  · simp only [hk, decide_true, Bool.not_true, Bool.false_eq_true, if_false]
    refine .rests rfl fun i w _ => .ret ⟨_, rfl, fun hf => hf.2 ?_, fun t v hv => hv⟩
    -- the number of a number is read, not computed
    refine h.converts hp ?_
    cases x with
    | number y => rfl
    | _ => cases hk
  · simp only [hk, decide_false, Bool.not_false, if_true]
    exact .raise

/-- The text of a value, with the call that gave it: of `NULL` it is the empty string. -/
theorem valueAsString_read (h : Ready r l s) (hp : s.world.Holds p r x) :
    (valueAsString (some p)).Returns s fun o m _ => x.isText ∧
      ∃ text, o = some ⟨.valueToString (some p), text, s.world⟩ ∧
        text.map (·.bytes) = (l.toText x).1 ∧
        (text = none ∧ m = "" ∨ ∃ t, text = some t ∧ t.bytes.string? = some m) := by
  refine .bind (valueIsText_returns h hp) ?_
  rintro o ok s₁ ⟨rfl, rfl, rfl⟩
  by_cases hk : x.isText
  · simp only [hk, decide_true, Bool.not_true, Bool.false_eq_true, if_false]
    refine .rests rfl fun text w ran => ?_
    obtain ⟨L, hrun⟩ := h.on
    have htext : text.map (·.bytes) = (l.toText x).1 := by
      obtain ⟨text', w', ran', ht, -⟩ := jsValueToString_spec hp s₁.world hrun
      have heq := ran.symm.trans ran'
      cases heq
      exact ht
    cases text with
    | none => exact .ret ⟨trivial, none, rfl, htext, .inl ⟨rfl, rfl⟩⟩
    | some t =>
      refine Prog.Returns.bind (p := cStringToString t.bytes)
        (R := fun o m _ => o = none ∧ t.bytes.string? = some m) ?_ ?_
      · unfold cStringToString
        cases hm : t.bytes.string? with
        | none => exact .raise
        | some m => exact .ret ⟨rfl, rfl⟩
      · rintro o m s₂ ⟨rfl, hm⟩
        exact .asks rfl fun _ _ _ => .ret ⟨trivial, some t, rfl, htext, .inr ⟨t, rfl, hm⟩⟩
  · simp only [hk, decide_false, Bool.not_false, if_true]
    exact .raise

theorem numeric2Cangjie_read (h : Ready r l s) (hp : s.world.Holds p r x) {t : Target}
    (ht : ∀ m, t.ofText m = (parseBigInt m).bind t.ofBigInt) :
    (numeric2Cangjie (some p) t.ofNumber t.ofBigInt).Returns s fun o v _ => Read o t v := by
  refine .bind (valueIs_returns h hp jsValueNumberKind) ?_
  rintro o ok s₁ ⟨rfl, rfl, rfl⟩
  by_cases hn : x.kind.code = jsValueNumberKind
  · simp only [hn, decide_true, if_true]
    refine .bind (valueAsFloat64_read h hp) ?_
    rintro o y s₂ ⟨e, rfl, hok, hreads⟩
    refine (t.ofNumber_pure y).returns.mono ?_
    rintro o v s₃ ⟨rfl, hv⟩
    exact ⟨e, rfl, hok, hreads t v hv⟩
  · simp only [hn, decide_false, Bool.false_eq_true, if_false]
    refine .bind (valueIs_returns h hp jsValueBigIntKind) ?_
    rintro o ok s₁ ⟨rfl, rfl, rfl⟩
    by_cases hb : x.kind.code = jsValueBigIntKind
    · simp only [hb, decide_true, if_true]
      refine .bind (valueAsString_read h hp) ?_
      rintro o m s₂ ⟨-, text, rfl, -, htext⟩
      refine ((parseBigInt_pure m).bind t.ofBigInt_pure).returns.mono ?_
      rintro o v s₃ ⟨rfl, hv⟩
      obtain ⟨rfl, rfl⟩ | ⟨st, rfl, hst⟩ := htext
      · -- no number is parsed from the text of a lost string
        rw [parseBigInt_empty] at hv
        cases hv
      · refine ⟨_, rfl, ?_, st, m, rfl, hst, (ht m).trans hv⟩
        rintro ⟨hf, -⟩
        cases hf
    · simp only [hb, decide_false, Bool.false_eq_true, if_false]
      exact .raise

/-- The text of `x` is lost on the way to the client. -/
theorem toText_eq_none_iff : (l.toText x).1 = none ↔ ¬ l.Copies x := by
  unfold Loc.toText Loc.Copies
  rcases P.toCString x l.heap with ⟨e | bytes, heap⟩
  · simp [Except.toOption]
  · by_cases hm : (P.malloc l.host).1 = true <;> simp [hm, Except.toOption]

theorem quickJS2Cangjie_read (h : Ready r l s) (hp : s.world.Holds p r x) (t : Target)
    (hkept : t = .string → x.isText → l.Copies x) :
    (quickJS2Cangjie (some p) t).Returns s fun o v _ => Read o t v := by
  cases t with
  | bool =>
    refine .bind (valueIs_returns h hp jsValueBoolKind) ?_
    rintro o ok s₁ ⟨rfl, rfl, rfl⟩
    by_cases hk : x.kind.code = jsValueBoolKind
    · simp only [hk, decide_true, if_true]
      exact .bind (valueAsBool_read h hp) fun o b s₁ ⟨e, he, hread⟩ =>
        .ret ⟨e, by simp [he], hread⟩
    · simp only [hk, decide_false, Bool.false_eq_true, if_false]
      exact .raise
  | string =>
    refine .bind (valueIsText_returns h hp) ?_
    rintro o ok s₁ ⟨rfl, rfl, rfl⟩
    by_cases hk : x.isText
    · simp only [hk, decide_true, if_true]
      refine .bind (valueAsString_read h hp) ?_
      rintro o m s₂ ⟨-, text, rfl, hbytes, ⟨rfl, -⟩ | ⟨st, rfl, hst⟩⟩
      · exact absurd (hkept rfl hk) (toText_eq_none_iff.mp hbytes.symm)
      · refine .ret ⟨_, rfl, ?_, st, m, rfl, hst, rfl⟩
        rintro ⟨hf, -⟩
        cases hf
    · simp only [hk, decide_false, Bool.false_eq_true, if_false]
      exact .raise
  | int t => exact numeric2Cangjie_read h hp (t := .int t) fun _ => rfl
  | bigInt => exact numeric2Cangjie_read h hp (t := .bigInt) fun _ => rfl
  | float t => exact numeric2Cangjie_read h hp (t := .float t) fun _ => rfl
  | other => exact .raise

/-- The kind of no value cannot be asked for. -/
theorem valueIs_dead {h : Ptr} (hdead : ∀ p, h = some p → s.world.values p = none) (kind : Int) :
    (valueIs kind h).Returns s fun _ _ _ => False := by
  cases h with
  | none => exact .raise
  | some p =>
    refine .asks rfl fun k w ran => ?_
    obtain ⟨v, w₁, hvalid, -⟩ := Keeps.run_bind_ok ran
    obtain ⟨v, w₂, hread, -⟩ := Keeps.run_bind_ok hvalid
    rw [StateT.run, readValue] at hread
    simp only [hdead p rfl] at hread
    cases hread

theorem quickJS2Cangjie_dead {h : Ptr} (hdead : ∀ p, h = some p → s.world.values p = none)
    (t : Target) : (quickJS2Cangjie h t).Returns s fun _ _ _ => False := by
  cases t with
  | string =>
    refine .bind (R := fun _ _ _ => False) (p := valueIsText h) ?_ fun _ _ _ h => h.elim
    exact .bind (valueIs_dead hdead jsValueStringKind) fun _ _ _ h => h.elim
  | bool => exact .bind (valueIs_dead hdead jsValueBoolKind) fun _ _ _ h => h.elim
  | int t => exact .bind (valueIs_dead hdead jsValueNumberKind) fun _ _ _ h => h.elim
  | bigInt => exact .bind (valueIs_dead hdead jsValueNumberKind) fun _ _ _ h => h.elim
  | float t => exact .bind (valueIs_dead hdead jsValueNumberKind) fun _ _ _ h => h.elim
  | other => exact .raise

end Convert

/-! ## The contract of an operation -/

/-- The handle that a payload stands for. -/
def Payload.handle : Payload → Ptr
  | .value ref => ref.handle
  | .method function _ => function.handle
  | .pointer h => h
  | .other => none

/-- A bridge call gave the handle, and the client still has it. -/
def Client.Has (c : Client) (p : Ptr) : Prop := ∃ q r, p = some q ∧ (q, r) ∈ c.live

/-- The result was delivered by a successful call: by the last one of the operation, or, of a handle
that `toExtern` wraps, by the earlier one that gave it. -/
def Op.Delivered (c : Client) (o : Option (Answered P)) : (op : Op) → op.Out → Prop
  | .enableStdModule, _ | .memberUpdate _ _ _, _ | .indexUpdate _ _ _, _ => Succeeded o
  | .fromExtern t _, v => Read o t v
  | .toExtern v, out =>
    match v.brought? with
    | some p => o = none ∧ Payload.handle out = p ∧ c.Has p
    | none => Gave o (Payload.handle out)
  | .evalScript _, out | .globalAccess _, out | .getModule _, out | .memberAccess _ _, out
  | .functionCall _ _, out | .indexAccess _ _, out => Gave o (Payload.handle out)

/-- Wherever the last call failed the operation throws, and it returns only what was delivered. -/
def Op.Honest (r : Nat) (c : Client) (s : Store P) (op : Op) : Prop :=
  ∀ τ res s', Traced (op.prog (some r)) s τ res s' →
    ((∃ e, lastCall τ = some e ∧ e.Failed) → ∃ x, res = .error x) ∧
    ∀ out, res = .ok out → op.Delivered c (lastCall τ) out

/-- `fromExtern<String>` of a value whose text the engine or `malloc` cannot give. -/
def Op.LosesText (w : World P) : Op → Prop
  | .fromExtern .string e => ∃ r l x, e.Denotes w r x ∧ w.loc? r = some l ∧ x.isText ∧ ¬ l.Copies x
  | _ => False

/-- `toExtern` of a handle that the client does not have, such as `NULL`. -/
def Op.Unbacked (c : Client) : Op → Prop
  | .toExtern v => ∃ p, v.brought? = some p ∧ ¬ c.Has p
  | _ => False

section Contract

variable {r : Nat} {c : Client} {s : Store P} {l : Loc P}

theorem Succeeded.not_failed {o : Option (Answered P)} {e : Answered P} (h : Succeeded o)
    (he : o = some e) : ¬ e.Failed := by
  obtain ⟨e', rfl, hok⟩ := h
  cases he
  exact hok

theorem Op.Delivered.not_failed {o : Option (Answered P)} {op : Op} {out : op.Out} {e : Answered P}
    (h : op.Delivered c o out) (he : o = some e) : ¬ e.Failed := by
  cases op with
  | enableStdModule => exact Succeeded.not_failed h he
  | memberUpdate _ _ _ => exact Succeeded.not_failed h he
  | indexUpdate _ _ _ => exact Succeeded.not_failed h he
  | fromExtern t _ =>
    obtain ⟨e', rfl, hok, -⟩ := h
    cases he
    exact hok
  | toExtern v =>
    unfold Op.Delivered at h
    cases hv : v.brought? with
    | some p =>
      simp only [hv] at h
      rw [h.1] at he
      cases he
    | none =>
      simp only [hv] at h
      exact h.succeeded.not_failed he
  | evalScript _ => exact (Gave.succeeded h).not_failed he
  | globalAccess _ => exact (Gave.succeeded h).not_failed he
  | getModule _ => exact (Gave.succeeded h).not_failed he
  | memberAccess _ _ => exact (Gave.succeeded h).not_failed he
  | functionCall _ _ => exact (Gave.succeeded h).not_failed he
  | indexAccess _ _ => exact (Gave.succeeded h).not_failed he

theorem Op.honest_of_returns {op : Op}
    (h : (op.prog (some r)).Returns s fun o out _ => op.Delivered c o out) : op.Honest r c s := by
  intro τ res s' hτ
  cases res with
  | error x => exact ⟨fun _ => ⟨x, rfl⟩, fun out hout => by cases hout⟩
  | ok out =>
    have hd := h τ out s' hτ
    refine ⟨fun ⟨e, he, hf⟩ => absurd hf (hd.not_failed he), fun out' hout => ?_⟩
    cases hout
    exact hd

/-- `evalScript`, `globalAccess` and `getModule`. -/
theorem runtimeHandle_gave {call : Call Ptr} (runtime : Ptr) (hc : call.carries = true)
    (hg : ∀ p, call.given p = p) :
    (call.prog.bind fun value =>
      if value.isNone then (runtimeError runtime).bind fun m => .raise (.dynamic m)
      else jsExtern value).Returns s fun o out _ => Gave o out.handle := by
  refine .handle hc hg (fun s₁ => throws_runtimeError runtime s₁ _) fun q o s₁ h => ?_
  refine (jsExtern_gave h).mono ?_
  rintro o' e s₂ ⟨ref, rfl, hgave⟩
  exact hgave

/-- A handle that becomes a value. -/
theorem jsExtern_bind {p : Prog Ptr} (h : p.Returns s fun o q _ => Gave o q) :
    (p.bind jsExtern).Returns s fun o out _ => Gave o out.handle := by
  refine .bind h ?_
  rintro o q s₁ ⟨e, q', rfl, hq, rfl⟩
  refine (jsExtern_gave ⟨e, q', rfl, hq, rfl⟩).mono ?_
  rintro o' e s₂ ⟨ref, rfl, hgave⟩
  exact hgave

theorem pointer_returns (ref : JSValueRef) :
    ref.pointer.Returns s fun o p _ => o = none ∧ p = ref.handle :=
  .touch (.ret ⟨rfl, rfl⟩)

theorem memberAccess_gave (e : Payload) (field : String) :
    (JSRuntime.memberAccess e field).Returns s fun o out _ => Gave o out.handle := by
  cases e with
  | value value =>
    refine .bind (pointer_returns value) ?_
    rintro o p s₁ ⟨rfl, rfl⟩
    refine .bind (getProperty_gave value.handle field) ?_
    rintro o p s₁ ⟨e, q, rfl, hq, rfl⟩
    have hgave : Gave (some e) (some q) := ⟨e, q, rfl, hq, rfl⟩
    refine .asks rfl fun k w _ => ?_
    show (if decide (k = jsValueFunctionKind) = true then _ else _ : Prog Payload).Returns _ _
    by_cases hk : decide (k = jsValueFunctionKind) = true
    · rw [if_pos hk]
      exact .alloc (.touch (.ret hgave))
    · rw [if_neg hk]
      exact .alloc (.ret hgave)
  | method f g => exact .raise
  | pointer h => exact .raise
  | other => exact .raise

theorem functionCall_gave (runtime : Ptr) (e : Payload) (args : List Any) :
    (JSRuntime.functionCall runtime e args).Returns s fun o out _ => Gave o out.handle := by
  have hboth : ∀ (function : JSValueRef) (receiver : Prog JSValueRef),
      (JSRuntime.callOrConstruct runtime function receiver args).Returns s
        fun o out _ => Gave o out.handle := by
    intro function receiver
    refine Prog.Returns.after fun o jsArgs s₁ => .tryCatch (Prog.Returns.after fun o' this s₂ => ?_)
      fun _ o' s₂ => ?_
    · exact (jsExtern_bind (callValue_gave runtime function this jsArgs)).mono fun _ _ _ h => h.or.or
    · exact (jsExtern_bind (constructValue_gave runtime function jsArgs)).mono fun _ _ _ h => h.or.or
  cases e with
  | value value => exact hboth value (newRef none)
  | method f g => exact hboth f (.ret g)
  | pointer h => exact .raise
  | other => exact .raise

theorem memberUpdate_succeeded (runtime : Ptr) (e : Payload) (field : String) (v : Any) :
    (JSRuntime.memberUpdate runtime e field v).Returns s fun o _ _ => Succeeded o := by
  cases e with
  | value target =>
    refine Prog.Returns.after fun o jsValue s₁ => .touch (.touch ?_)
    exact (setProperty_succeeded target.handle field jsValue.handle).mono fun _ _ _ h => h.or
  | method f g => exact .raise
  | pointer h => exact .raise
  | other => exact .raise

theorem indexAccess_gave (e : Payload) (arg : Any) :
    (JSRuntime.indexAccess e arg).Returns s fun o out _ => Gave o out.handle := by
  cases e with
  | value value =>
    have hindex : ∀ arg, (do
        let p ← value.pointer
        jsExtern (← getIndex p (← jsIndex arg)) : Prog Payload).Returns s
          fun o out _ => Gave o out.handle := by
      intro arg
      refine Prog.Returns.after fun o p s₁ => Prog.Returns.after fun o' i s₂ => ?_
      exact (jsExtern_bind (getIndex_gave p i)).mono fun _ _ _ h => h.or.or
    cases arg with
    | string key =>
      refine Prog.Returns.after fun o p s₁ => ?_
      exact (jsExtern_bind (getProperty_gave p key)).mono fun _ _ _ h => h.or
    | _ => exact hindex _
  | method f g => exact .raise
  | pointer h => exact .raise
  | other => exact .raise

theorem indexUpdate_succeeded (runtime : Ptr) (e : Payload) (arg v : Any) :
    (JSRuntime.indexUpdate runtime e arg v).Returns s fun o _ _ => Succeeded o := by
  cases e with
  | value target =>
    have hindex : ∀ arg, (do
        let jsValue ← JSRuntime.toJSValue runtime v
        let p ← target.pointer
        let index ← jsIndex arg
        setIndex p index (← jsValue.pointer) : Prog Unit).Returns s fun o _ _ => Succeeded o := by
      intro arg
      refine Prog.Returns.after fun o jsValue s₁ => Prog.Returns.after fun o' p s₂ => ?_
      refine Prog.Returns.after fun o'' i s₃ => Prog.Returns.after fun o₃ q s₄ => ?_
      exact (setIndex_succeeded p i q).mono fun _ _ _ h => h.or.or.or.or
    cases arg with
    | string key => exact memberUpdate_succeeded runtime (.value target) key v
    | _ => exact hindex _
  | method f g => exact .raise
  | pointer h => exact .raise
  | other => exact .raise

theorem toExtern_delivered (v : Any) (hv : ¬ (Op.toExtern v).Unbacked c) :
    (JSRuntime.toExtern (some r) v).Returns s fun o out _ => (Op.toExtern v).Delivered c o out := by
  refine .bind (toJSValue_gave (some r) v) fun o ref s₁ h => .ret ?_
  show match v.brought? with
    | some p => o = none ∧ ref.handle = p ∧ c.Has p
    | none => Gave o ref.handle
  cases hp : v.brought? with
  | none =>
    rw [hp] at h
    exact h
  | some p =>
    rw [hp] at h
    exact ⟨h.1, h.2, by_contra fun hn => hv ⟨p, hp, hn⟩⟩

/-- A handle of a reached state is live, or its block is free. -/
theorem Inv.ready_or_free (h : Inv c s.world) (p : Nat) :
    (∃ r l x, s.world.loc? r = some l ∧ Ready r l s ∧ s.world.Holds p r x) ∨ s.world.values p = none := by
  by_cases hp : ∃ r, (p, r) ∈ c.live
  · obtain ⟨r, hmem⟩ := hp
    obtain ⟨l, -, -, hrun⟩ := h.run (h.open_of_value hmem)
    obtain ⟨x, hx⟩ := h.handles.holds p r hmem
    exact .inl ⟨r, l, x, hrun.loc?, h.ready hrun.loc?, hx⟩
  · exact .inr (h.handles.unused p fun r hmem => hp ⟨r, hmem⟩)

theorem quickJS2Cangjie_delivered (h : Inv c s.world) (q : Ptr) (t : Target)
    (hkept : t = .string → ∀ p r l x, q = some p → s.world.Holds p r x → s.world.loc? r = some l →
      x.isText → l.Copies x) :
    (quickJS2Cangjie q t).Returns s fun o v _ => Read o t v := by
  by_cases hq : ∃ p r l x, q = some p ∧ s.world.loc? r = some l ∧ Ready r l s ∧ s.world.Holds p r x
  · obtain ⟨p, r, l, x, rfl, hl, hready, hx⟩ := hq
    exact quickJS2Cangjie_read hready hx t fun ht => hkept ht p r l x rfl hx hl
  · refine (quickJS2Cangjie_dead (fun p hp => ?_) t).mono fun _ _ _ h => h.elim
    obtain ⟨r, l, x, hl, hready, hx⟩ | hnone := h.ready_or_free p
    · exact absurd ⟨p, r, l, x, hp, hl, hready, hx⟩ hq
    · exact hnone

/-- The handle of a payload, in the same world. -/
theorem externContentToValue_returns (e : Payload) :
    (externContentToValue e).Returns s fun o q s' => o = none ∧ s'.world = s.world ∧
      ∀ r x, e.Denotes s.world r x ↔ ∃ p, q = some p ∧ s.world.Holds p r x := by
  cases e with
  | value ref => exact .touch (.ret ⟨rfl, rfl, fun r x => Iff.rfl⟩)
  | pointer q => exact .alloc (.touch (.ret ⟨rfl, rfl, fun r x => Iff.rfl⟩))
  | method f g => exact .raise
  | other => exact .raise

theorem fromExtern_delivered (h : Inv c s.world) (t : Target) (e : Payload)
    (hkept : ¬ (Op.fromExtern t e).LosesText s.world) :
    (JSRuntime.fromExtern t e).Returns s fun o v _ => Read o t v := by
  refine .bind (externContentToValue_returns e) ?_
  rintro o q s₁ ⟨rfl, hworld, hdenotes⟩
  refine (quickJS2Cangjie_delivered (s := s₁) (hworld ▸ h) q t ?_).mono fun o' v _ hread => by simpa using hread
  rintro rfl p r l x rfl hx hl htext
  rw [hworld] at hx hl
  exact by_contra fun hc => hkept ⟨r, l, x, (hdenotes r x).mpr ⟨p, rfl, hx⟩, hl, htext, hc⟩

/-- Of a lost text `fromExtern<String>` makes the empty string, and its last call failed. -/
theorem fromExtern_lost (h : Inv c s.world) {e : Payload} {x : JSVal} (he : e.Denotes s.world r x)
    (hl : s.world.loc? r = some l) (htext : x.isText) (hlost : ¬ l.Copies x) :
    ∃ τ s' f, Traced (JSRuntime.fromExtern .string e) s τ (.ok (.string "")) s' ∧
      lastCall τ = some f ∧ f.Failed := by
  have hfails : (JSRuntime.fromExtern .string e).Returns s fun o _ _ => ∃ f, o = some f ∧ f.Failed := by
    refine .bind (externContentToValue_returns e) ?_
    rintro o q s₁ ⟨rfl, hworld, hdenotes⟩
    obtain ⟨p, rfl, hx⟩ := (hdenotes r x).mp he
    rw [← hworld] at h hl hx
    refine .bind (valueIsText_returns (h.ready hl) hx) ?_
    rintro o ok s₂ ⟨rfl, rfl, rfl⟩
    simp only [htext, decide_true, if_true]
    refine .bind (valueAsString_read (h.ready hl) hx) ?_
    rintro o m s₃ ⟨-, text, rfl, hbytes, -⟩
    rw [toText_eq_none_iff.mpr hlost] at hbytes
    obtain rfl : text = none := by simpa using hbytes
    exact .ret ⟨_, rfl, rfl, id⟩
  obtain ⟨res, s', hrun, hres⟩ := (fromExtern_text_spec he htext).run (h.run_of_loc hl)
  rw [readText_lost hlost] at hres
  obtain ⟨a, rfl, m, rfl, hm⟩ | ⟨-, -, hm⟩ := hres
  · cases hm
    obtain ⟨τ, hτ⟩ := (Prog.exec_traced _).mp hrun
    obtain ⟨f, hf, hfailed⟩ := hfails τ _ s' hτ
    exact ⟨τ, s', f, hτ, hf, hfailed⟩
  · cases hm

/-- `toExtern` of a handle asks the bridge nothing. -/
theorem toExtern_wraps {v : Any} {p : Ptr} (hv : v.brought? = some p) :
    ∃ ref s', Traced (JSRuntime.toExtern (some r) v) s [] (.ok (.value ref)) s' ∧ ref.handle = p := by
  cases v with
  | externValue e =>
    cases e with
    | value ref =>
      cases hv
      exact ⟨ref, s, .ret, rfl⟩
    | pointer q =>
      cases hv
      exact ⟨_, _, .alloc .ret, rfl⟩
    | method f g => cases hv
    | other => cases hv
  | pointer q =>
    cases hv
    exact ⟨_, _, .alloc .ret, rfl⟩
  | _ => cases hv

theorem Op.Honest.not_losesText {op : Op} (h : op.Honest r c s) (hinv : Inv c s.world) :
    ¬ op.LosesText s.world := by
  intro hlost
  cases op with
  | fromExtern t e =>
    cases t with
    | string =>
      obtain ⟨r', l, x, he, hl, htext, hc⟩ := hlost
      obtain ⟨τ, s', f, hτ, hf, hfailed⟩ := fromExtern_lost hinv he hl htext hc
      obtain ⟨x, hx⟩ := (h τ _ s' hτ).1 ⟨f, hf, hfailed⟩
      cases hx
    | _ => exact hlost
  | _ => exact hlost

theorem Op.Honest.not_unbacked {op : Op} (h : op.Honest r c s) : ¬ op.Unbacked c := by
  intro hun
  cases op with
  | toExtern v =>
    obtain ⟨p, hp, hn⟩ := hun
    obtain ⟨ref, s', hτ, -⟩ := toExtern_wraps (r := r) (s := s) hp
    have hd := (h [] _ s' hτ).2 _ rfl
    unfold Op.Delivered at hd
    simp only [hp] at hd
    exact hn hd.2.2
  | _ => exact hun

/-- In every state that a program reaches, and whatever the bridge calls of a public operation answer:
the operation throws where its last call failed and returns only what a successful call delivered, if and
only if it is neither a `fromExtern<String>` of a value whose text cannot be given, nor a `toExtern` of a
handle that the client was not given. -/
theorem results_honest_iff (h : History r (c, s)) (op : Op) :
    op.Honest r c s ↔ ¬ op.LosesText s.world ∧ ¬ op.Unbacked c := by
  have hinv := h.reach.inv
  refine ⟨fun hop => ⟨hop.not_losesText hinv, hop.not_unbacked⟩, fun ⟨hkept, hbacked⟩ => ?_⟩
  apply Op.honest_of_returns
  cases op with
  | evalScript source => exact runtimeHandle_gave (some r) rfl fun _ => rfl
  | enableStdModule => exact .status rfl (fun _ => Iff.rfl) fun s₁ => throws_runtimeError (some r) s₁ _
  | globalAccess name => exact runtimeHandle_gave (some r) rfl fun _ => rfl
  | getModule moduleName => exact runtimeHandle_gave (some r) rfl fun _ => rfl
  | memberAccess e field => exact memberAccess_gave e field
  | functionCall e args => exact functionCall_gave (some r) e args
  | memberUpdate e field value => exact memberUpdate_succeeded (some r) e field value
  | indexAccess e arg => exact indexAccess_gave e arg
  | indexUpdate e arg value => exact indexUpdate_succeeded (some r) e arg value
  | fromExtern t e => exact fromExtern_delivered hinv t e hkept
  | toExtern value => exact toExtern_delivered value hbacked

end Contract

/-- In the engine that evaluates nothing: a script, which ends with an exception, and the text of a string that
was sent. -/
theorem results_honest_script : ∃ (c c' : Client) (s s' : Store (Platform.idle Nat 0)),
    History 0 (c, s) ∧ (Op.evalScript "1").Honest 0 c s ∧
    History 0 (c', s') ∧ (Op.fromExtern .string (.value ⟨0, some 0⟩)).Honest 0 c' s' := by
  have hcreate := History.created (P := Platform.idle Nat 0) (r := 0) () rfl
  have hsent : History (P := Platform.idle Nat 0) 0 _ :=
    .op (.toExtern (.string "a")) hcreate
      (.native (r := 0) (.inr ⟨rfl, by decide, by decide⟩) rfl (.alloc .ret))
  refine ⟨_, _, _, _, hcreate, (results_honest_iff hcreate _).mpr ⟨id, id⟩, hsent,
    (results_honest_iff hsent _).mpr ⟨?_, id⟩⟩
  rintro ⟨r', l, x, ⟨p, hp, t, hx⟩, -, -, hlost⟩
  cases hp
  cases hx
  exact hlost ⟨rfl, rfl⟩

/-- An engine behind a C library that counts its blocks. -/
def countedPlatform : Platform :=
  { Platform.idle Unit () with
    Host := Nat
    malloc := fun blocks => (decide (0 < blocks), blocks - 1)
    fopen := fun _ blocks => (false, blocks)
    fseek := fun blocks => (0, blocks)
    ftell := fun blocks => (0, blocks)
    fread := fun _ blocks => ([], blocks)
    newRuntime := fun blocks => (true, blocks)
    newContext := fun blocks => (some (), blocks) }

/-- Two blocks, for the runtime and the handle of `toExtern("a")`: there is none for the copy of the text, and
`fromExtern<String>` returns the empty string. -/
theorem lost_text_returned : ¬ ∀ (P : Platform) (r : Nat) (c : Client) (s : Store P) (op : Op),
    History r (c, s) → op.Honest r c s := by
  intro h
  have hcreate := History.created (P := countedPlatform) (r := 0) (2 : Nat) rfl
  have hsent : History (P := countedPlatform) 0 _ :=
    .op (.toExtern (.string "a")) hcreate
      (.native (r := 0) (.inr ⟨rfl, by decide, by decide⟩) rfl (.alloc .ret))
  refine (h countedPlatform 0 _ _ (.fromExtern .string (.value ⟨0, some 0⟩)) hsent).not_losesText hsent.reach.inv ?_
  refine ⟨0, _, .string (newStringUnits (mallocCString "a").text), ⟨0, rfl, 0, rfl⟩, rfl, .inl rfl, ?_⟩
  rintro ⟨-, hm⟩
  cases hm

end InteropJs
