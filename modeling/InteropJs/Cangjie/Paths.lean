import InteropJs.Lib.Finalizer
import InteropJs.Bridge.Fresh
import InteropJs.Cangjie.Runtime

/-!
# The paths of a function

A `Path` of a program is one way through its statements, for any results of the bridge calls: a
handle that a call gives is a new one (`Issued`), and the results are as `Call.Sane` says. Its trace
tells for each statement which `JSValueRef` objects it reads or creates, and which value handles it
passes to the bridge. Every run on the bridge follows a path (`Prog.exec_path`).

`Prog.Clear` is a weakest precondition on the tree: whatever the results, no handle is passed on
while an object that owns it and is not kept has been read (`Finalizer.Guarded`). The exposed
objects are those read so far that are not `pinned` and own a handle.
-/

namespace InteropJs

open Finalizer

/-- A statement of the Cangjie layer. -/
abbrev Statement := Event JSValueRef Nat

/-- The value handles that a call passes. -/
def Call.uses : {β : Type} → Call β → List Nat
  | _, .valueDestroy p | _, .valueKind p | _, .valueToBool p | _, .valueToNumber p
  | _, .valueToString p | _, .valueIsArray p | _, .valueArrayLength p | _, .valueGetProperty p _
  | _, .valueGetIndex p _ => p.toList
  | _, .valueSetProperty p _ q | _, .valueSetIndex p _ q => p.toList ++ q.toList
  | _, .valueCall p q args _ => p.toList ++ q.toList ++ (args.getD []).flatMap Option.toList
  | _, .valueConstruct p args _ => p.toList ++ (args.getD []).flatMap Option.toList
  | _, _ => []

/-- The next object and the next handle. -/
structure Counters where
  ref : Nat
  value : Nat

/-- One way through a program, with its trace and its result (module doc). -/
inductive Path {α : Type} : Counters → Prog α → List Statement → Except Exn α → Counters → Prop where
  | ret {i : Counters} {a : α} : Path i (.ret a) [] (.ok a) i
  | raise {i : Counters} {e : Exn} : Path i (.raise e) [] (.error e) i
  | alloc {n m : Nat} {h : Ptr} {k : JSValueRef → Prog α} {τ : List Statement} {res : Except Exn α}
      {j : Counters} (rest : Path ⟨n + 1, m⟩ (k ⟨n, h⟩) τ res j) :
      Path ⟨n, m⟩ (.alloc h k) (⟨[⟨n, h⟩], []⟩ :: τ) res j
  | touch {i : Counters} {rs : List JSValueRef} {k : Prog α} {τ : List Statement} {res : Except Exn α}
      {j : Counters} (rest : Path i k τ res j) : Path i (.touch rs k) (⟨rs, []⟩ :: τ) res j
  | native {n m m' : Nat} {β : Type} {rs : List JSValueRef} {c : Call β} {k : β → Prog α} {x : β}
      {τ : List Statement} {res : Except Exn α} {j : Counters} (issued : Issued m (c.given x) m')
      (sane : c.Sane x) (rest : Path ⟨n, m'⟩ (k x) τ res j) :
      Path ⟨n, m⟩ (.native rs c k) (⟨rs, c.uses⟩ :: τ) res j

namespace Path

variable {α β : Type} {i j j' : Counters} {p : Prog α} {f : α → Prog β} {τ τ' : List Statement}

theorem bind {a : α} {res : Except Exn β} (hp : Path i p τ (.ok a) j) (hf : Path j (f a) τ' res j') :
    Path i (p.bind f) (τ ++ τ') res j' := by
  generalize hres : Except.ok (ε := Exn) a = r at hp
  induction hp with
  | ret =>
    cases hres
    exact hf
  | raise => cases hres
  | alloc _ ih => exact .alloc (ih hf hres)
  | touch _ ih => exact .touch (ih hf hres)
  | native issued sane _ ih => exact .native issued sane (ih hf hres)

theorem bind_error {e : Exn} (hp : Path i p τ (.error e) j) : Path i (p.bind f) τ (.error e) j := by
  generalize hres : Except.error (α := α) e = r at hp
  induction hp with
  | ret => cases hres
  | raise =>
    cases hres
    exact .raise
  | alloc _ ih => exact .alloc (ih hres)
  | touch _ ih => exact .touch (ih hres)
  | native issued sane _ ih => exact .native issued sane (ih hres)

/-- A body that throws, and its handler. -/
theorem tryCatch {handler : Exn → Prog α} {e : Exn} {res : Except Exn α}
    (hp : Path i p τ (.error e) j) (hh : Path j (handler e) τ' res j') :
    Path i (p.tryCatch handler) (τ ++ τ') res j' := by
  generalize hres : Except.error (α := α) e = r at hp
  induction hp with
  | ret => cases hres
  | raise =>
    cases hres
    exact hh
  | alloc _ ih => exact .alloc (ih hh hres)
  | touch _ ih => exact .touch (ih hh hres)
  | native issued sane _ ih => exact .native issued sane (ih hh hres)

/-- A call that gives no handle. -/
theorem prog {n m : Nat} {c : Call α} {x : α} (hx : c.given x = none) (hs : c.Sane x) :
    Path ⟨n, m⟩ c.prog [⟨[], c.uses⟩] (.ok x) ⟨n, m⟩ :=
  .native (by rw [hx]; rfl) hs .ret

end Path

/-- The next object and the next handle of a state. -/
def Store.counters {P : Platform} (s : Store P) : Counters := ⟨s.nextRef, s.world.nextValue⟩

/-- A bridge call of a run, in the world. -/
theorem onWorld_ok {P : Platform} {β : Type} {c : BridgeM P β} {s s' : Store P} {x : β}
    (h : (onWorld c).run s = .ok (x, s')) :
    ∃ w, c.run s.world = .ok (x, w) ∧ { s with world := w } = s' := by
  rw [StateT.run, onWorld] at h
  cases hrun : c.run s.world with
  | error fault =>
    rw [hrun] at h
    cases h
  | ok out =>
    rw [hrun] at h
    cases h
    exact ⟨out.2, rfl, rfl⟩

/-- Every run on the bridge follows a path. -/
theorem Prog.exec_path {P : Platform} {α : Type} (p : Prog α) {s s' : Store P} {res : Except Exn α}
    (h : p.exec.run s = .ok (res, s')) : ∃ τ, Path s.counters p τ res s'.counters := by
  induction p generalizing s with
  | ret a =>
    cases h
    exact ⟨[], .ret⟩
  | raise e =>
    cases h
    exact ⟨[], .raise⟩
  | alloc handle k ih =>
    obtain ⟨τ, hτ⟩ := ih _ h
    exact ⟨_, .alloc hτ⟩
  | touch rs k ih =>
    obtain ⟨τ, hτ⟩ := ih h
    exact ⟨_, .touch hτ⟩
  | native rs c k ih =>
    obtain ⟨x, s₁, hx, h⟩ := Hoare.Keeps.run_bind_ok h
    obtain ⟨τ, hτ⟩ := ih x h
    obtain ⟨w, hw, rfl⟩ := onWorld_ok hx
    exact ⟨_, .native (c.issued hw) (c.sane hw) hτ⟩

/-! ## Exposed objects -/

section Clear

variable (pinned : JSValueRef → Prop)

/-- The object is kept: the caller reads it later, or it owns no handle. -/
def Held (ref : JSValueRef) : Prop := pinned ref ∨ ref.handle = none

/-- The exposed objects after `refs` were read. -/
def expose (X : Set JSValueRef) (refs : List JSValueRef) : Set JSValueRef :=
  X ∪ {ref | ref ∈ refs ∧ ¬ Held pinned ref}

/-- `p` passes on no handle of an exposed object, from the exposed objects `X`; it returns in `Q` or
throws in `E`. The handles below `old` were given before (module doc). -/
def Prog.Clear (old : Nat) {α : Type} (X : Set JSValueRef) (p : Prog α)
    (Q : α → Set JSValueRef → Prop) (E : Set JSValueRef → Prop) : Prop :=
  match p with
  | .ret a => Q a X
  | .raise _ => E X
  | .alloc h k => ∀ ref : JSValueRef, ref.handle = h → ¬ pinned ref →
      (k ref).Clear old (expose pinned X [ref]) Q E
  | .touch rs k => k.Clear old (expose pinned X rs) Q E
  | .native rs c k =>
    (∀ ref ∈ X, ∀ q ∈ c.uses, ref.handle = some q → ref ∈ rs) ∧
      ∀ x, c.Sane x → (∀ q, c.given x = some q → old ≤ q) →
        (k x).Clear old (expose pinned X rs) Q E

end Clear

section Rules

variable {pinned : JSValueRef → Prop} {old : Nat} {α β : Type} {X : Set JSValueRef} {p : Prog α}
  {Q Q' : α → Set JSValueRef → Prop} {E E' : Set JSValueRef → Prop}

theorem mem_expose {X : Set JSValueRef} {refs : List JSValueRef} {ref : JSValueRef} :
    ref ∈ expose pinned X refs ↔ ref ∈ X ∨ ref ∈ refs ∧ ¬ Held pinned ref := Iff.rfl

/-- Objects that are kept are not exposed. -/
theorem expose_held {refs : List JSValueRef} (h : ∀ ref ∈ refs, Held pinned ref) :
    expose pinned X refs = X := by
  ext ref
  rw [mem_expose]
  constructor
  · rintro (hX | ⟨hr, hn⟩)
    · exact hX
    · exact absurd (h ref hr) hn
  · exact .inl

@[simp] theorem expose_nil : expose pinned X [] = X := expose_held (by simp)

theorem Prog.Clear.post (h : p.Clear pinned old X Q E) (hQ : ∀ a X, Q a X → Q' a X)
    (hE : ∀ X, E X → E' X) : p.Clear pinned old X Q' E' := by
  induction p generalizing X with
  | ret a => exact hQ a X h
  | raise e => exact hE X h
  | alloc handle k ih => exact fun ref hr hp => ih ref (h ref hr hp)
  | touch rs k ih => exact ih h
  | native rs c k ih => exact ⟨h.1, fun x hx hq => ih x (h.2 x hx hq)⟩

theorem Prog.Clear.bind {f : α → Prog β} {Q : β → Set JSValueRef → Prop}
    (h : p.Clear pinned old X (fun a X => (f a).Clear pinned old X Q E) E) :
    (p.bind f).Clear pinned old X Q E := by
  induction p generalizing X with
  | ret a => exact h
  | raise e => exact h
  | alloc handle k ih => exact fun ref hr hp => ih ref (h ref hr hp)
  | touch rs k ih => exact ih h
  | native rs c k ih => exact ⟨h.1, fun x hx hq => ih x (h.2 x hx hq)⟩

theorem Prog.Clear.tryCatch {handler : Exn → Prog α}
    (h : p.Clear pinned old X Q fun X => ∀ e, (handler e).Clear pinned old X Q E) :
    (p.tryCatch handler).Clear pinned old X Q E := by
  induction p generalizing X with
  | ret a => exact h
  | raise e => exact h e
  | alloc handle k ih => exact fun ref hr hp => ih ref (h ref hr hp)
  | touch rs k ih => exact ih h
  | native rs c k ih => exact ⟨h.1, fun x hx hq => ih x (h.2 x hx hq)⟩

/-- The paths of a clear program are guarded. The new objects are none that the caller knows. -/
theorem Prog.Clear.guarded {i j : Counters} {τ : List Statement} {res : Except Exn α}
    {R : List JSValueRef} (h : p.Clear pinned old X Q E) (hp : Path i p τ res j)
    (hpin : ∀ ref, pinned ref → ref.id < i.ref) (hold : old ≤ i.value)
    (hR : ∀ ref ∈ R, ref ∈ X ∨ Held pinned ref) :
    Guarded pinned JSValueRef.handle R τ := by
  have hexpose : ∀ {X : Set JSValueRef} {R : List JSValueRef} (rs : List JSValueRef),
      (∀ ref ∈ R, ref ∈ X ∨ Held pinned ref) →
      ∀ ref ∈ rs ++ R, ref ∈ expose pinned X rs ∨ Held pinned ref := by
    intro X R rs hR ref href
    by_cases hheld : Held pinned ref
    · exact .inr hheld
    · rcases List.mem_append.mp href with href | href
      · exact .inl (.inr ⟨href, hheld⟩)
      · exact .inl (.inl ((hR ref href).resolve_right hheld))
  induction hp generalizing X R with
  | ret => trivial
  | raise => trivial
  | @alloc n m handle k τ res j rest ih =>
    refine ⟨fun _ _ _ hq => absurd hq List.not_mem_nil, ?_⟩
    have hnew : ¬ pinned ⟨n, handle⟩ := fun hp => (hpin _ hp).ne rfl
    exact ih (h ⟨n, handle⟩ rfl hnew) (fun ref hp => Nat.lt_succ_of_lt (hpin ref hp)) hold
      (hexpose _ hR)
  | touch rest ih =>
    exact ⟨fun _ _ _ hq => absurd hq List.not_mem_nil, ih h hpin hold (hexpose _ hR)⟩
  | @native n m m' β rs c k x τ res j issued sane rest ih =>
    have hgiven : (∀ q, c.given x = some q → old ≤ q) ∧ old ≤ m' := by
      cases hx : c.given x with
      | none =>
        rw [hx] at issued
        exact ⟨nofun, issued ▸ hold⟩
      | some q =>
        rw [hx] at issued
        obtain ⟨rfl, rfl⟩ := issued
        exact ⟨fun _ hq => Option.some.inj hq ▸ hold, Nat.le_succ_of_le hold⟩
    refine ⟨fun ref href q hq hown => ?_, ih (h.2 x sane hgiven.1) hpin hgiven.2 (hexpose _ hR)⟩
    obtain hX | hpinned | hnull := hR ref href
    · exact .inr (h.1 ref hX q hq hown)
    · exact .inl hpinned
    · rw [hnull] at hown
      cases hown

end Rules

/-! ## Safety under every schedule -/

/-- Whatever the bridge answers and whenever finalisers run, no call of `p` gets the handle of an
object that was finalised. -/
def Prog.SafeUnder (pinned : JSValueRef → Prop) (i : Counters) {α : Type} (p : Prog α) : Prop :=
  ∀ τ res j, Path i p τ res j → ∀ items, events items = τ → Schedule pinned [] items →
    Safe JSValueRef.handle [] items

section Safe

variable {pinned : JSValueRef → Prop} {i j : Counters} {α : Type} {p : Prog α}

theorem Prog.Clear.safeUnder {Q : α → Set JSValueRef → Prop} {E : Set JSValueRef → Prop}
    (h : p.Clear pinned i.value ∅ Q E) (hpin : ∀ ref, pinned ref → ref.id < i.ref) :
    p.SafeUnder pinned i := by
  intro τ res j hp
  rw [schedules_safe_iff]
  exact (h.guarded hp hpin le_rfl fun _ hr => absurd hr List.not_mem_nil).covered

/-- A path that passes on the handle of an object that nobody reads any more. -/
theorem Path.not_safeUnder {τ τ' : List Statement} {e : Statement} {res : Except Exn α}
    {ref : JSValueRef} {q : Nat} (hp : Path i p (τ ++ e :: τ') res j) (href : ref ∈ readsOf τ)
    (hq : q ∈ e.uses) (hown : ref.handle = some q) (hpin : ¬ pinned ref) (hread : ref ∉ e.reads)
    (hlater : ref ∉ readsOf τ') : ¬ p.SafeUnder pinned i := by
  intro hsafe
  have hcover := (schedules_safe_iff _).mp (hsafe _ _ _ hp)
  obtain h | h | h := hcover.use href hq hown
  · exact hpin h
  · exact hread h
  · exact hlater h

end Safe

end InteropJs
