import InteropJs.Cangjie.Arrays
import InteropJs.Cangjie.Finalizer
import InteropJs.Cangjie.Neighbours

/-!
# Rejected operations

`memberUpdate`, `indexUpdate` and `functionCall` with an unsuitable target, key, value or argument. The target is
of any runtime.

* `ScriptView` are two observers of a heap: how often functions of a script were started so far, and how often a
  property was changed of an object that the program could reach then. `Quiet` says that neither happened, and
  `QuietRun` that neither happened in any runtime.
* `ScriptEngine` are the laws of the engine, one for each of its steps. On the way of a rejected operation two
  things can reach a script: the string conversion of an error, whose `toString` a script can replace, and the
  call of a Proxy that is no function, which looks up the trap `apply` before it throws.
* `Rejected` lists the reasons, on the state before the operation. The checks come in different orders in the
  three operations; the value is always converted first.
* `rejections_quiet_iff`: a rejected operation throws, and it is quiet exactly when those two are
  (`RejectsQuietly`).
-/

namespace InteropJs

open Hoare

variable {P : Platform} {r t : Nat} {l l' : Loc P} {s s' s'' : Store P}

/-! ## What a script can see -/

/-- Two observers of a heap (module doc). -/
structure ScriptView (P : Platform) where
  /-- How often functions of a script were started so far. -/
  runs : P.Heap → Nat
  /-- How often a property was changed, added or removed so far, of an object that the program could reach then. -/
  changes : P.Heap → Nat
  /-- The intrinsic function `BigInt`. -/
  bigInt : JSVal
  /-- The global `BigInt` is the intrinsic one, and no accessor. -/
  Genuine : P.Heap → Prop
  /-- A genuine array of this length, and no Proxy. -/
  Array : P.Heap → JSVal → Nat → Prop

namespace ScriptView

variable (V : ScriptView P)

/-- No function of a script was started, and no property changed. -/
def Quiet (h h' : P.Heap) : Prop := V.runs h' = V.runs h ∧ V.changes h' = V.changes h

/-- The heap `h'` comes after `h`. -/
def After (h h' : P.Heap) : Prop := V.runs h ≤ V.runs h' ∧ V.changes h ≤ V.changes h'

/-- A quiet step that keeps the global `BigInt` and the genuine arrays. -/
structure Silent (h h' : P.Heap) : Prop where
  quiet : V.Quiet h h'
  genuine : V.Genuine h → V.Genuine h'
  array : ∀ x n, V.Array h x n → V.Array h' x n

/-- The text of `x` is made quietly. -/
def Worded (x : JSVal) (h : P.Heap) : Prop := V.Quiet h (P.textHeap x h)

/-- Between two states no function of a script was started and no property changed, in any runtime. -/
def QuietRun (s s' : Store P) : Prop := ∀ t, Option.Rel V.Quiet (s.heap t) (s'.heap t)

variable {V} {h h' h'' : P.Heap}

theorem Quiet.refl (h : P.Heap) : V.Quiet h h := ⟨rfl, rfl⟩

theorem Quiet.trans (h₁ : V.Quiet h h') (h₂ : V.Quiet h' h'') : V.Quiet h h'' :=
  ⟨h₂.1.trans h₁.1, h₂.2.trans h₁.2⟩

theorem Quiet.symm (h₁ : V.Quiet h h') : V.Quiet h' h := ⟨h₁.1.symm, h₁.2.symm⟩

theorem Quiet.after (h₁ : V.Quiet h h') : V.After h h' := ⟨h₁.1.ge, h₁.2.ge⟩

theorem After.trans (h₁ : V.After h h') (h₂ : V.After h' h'') : V.After h h'' :=
  ⟨h₁.1.trans h₂.1, h₁.2.trans h₂.2⟩

/-- A quiet step before another one makes no difference. -/
theorem Quiet.congr_left (h₁ : V.Quiet h h') : V.Quiet h h'' ↔ V.Quiet h' h'' :=
  ⟨fun h₂ => h₁.symm.trans h₂, fun h₂ => h₁.trans h₂⟩

/-- Two steps are quiet when each is. -/
theorem After.quiet_iff (h₁ : V.After h h') (h₂ : V.After h' h'') :
    V.Quiet h h'' ↔ V.Quiet h h' ∧ V.Quiet h' h'' := by
  obtain ⟨hr₁, hc₁⟩ := h₁
  obtain ⟨hr₂, hc₂⟩ := h₂
  unfold Quiet
  omega

theorem Silent.refl (h : P.Heap) : V.Silent h h := ⟨.refl h, id, fun _ _ => id⟩

theorem Silent.trans (h₁ : V.Silent h h') (h₂ : V.Silent h' h'') : V.Silent h h'' :=
  ⟨h₁.quiet.trans h₂.quiet, fun hg => h₂.genuine (h₁.genuine hg), fun x n hx => h₂.array x n (h₁.array x n hx)⟩

theorem QuietRun.trans (h₁ : V.QuietRun s s') (h₂ : V.QuietRun s' s'') : V.QuietRun s s'' := by
  intro t
  have hfirst := h₁ t
  have hthen := h₂ t
  revert hfirst hthen
  generalize s.heap t = a
  generalize s'.heap t = b
  generalize s''.heap t = c
  rintro (hab | _) (hbc | _)
  · exact .some (hab.trans hbc)
  · exact .none

theorem QuietRun.symm (h : V.QuietRun s s') : V.QuietRun s' s := by
  intro t
  have hrel := h t
  revert hrel
  generalize s.heap t = a
  generalize s'.heap t = b
  rintro (hab | _)
  · exact .some hab.symm
  · exact .none

/-- A quiet part before another one makes no difference. -/
theorem QuietRun.congr_left (h : V.QuietRun s s') : V.QuietRun s s'' ↔ V.QuietRun s' s'' :=
  ⟨fun h' => h.symm.trans h', fun h' => h.trans h'⟩

/-- Where only one heap can have changed, only this one counts. -/
theorem quietRun_iff (others : ∀ t, t ≠ r → s'.heap t = s.heap t) (hs : s.heap r = some h)
    (hs' : s'.heap r = some h') : V.QuietRun s s' ↔ V.Quiet h h' := by
  constructor
  · intro hq
    have hrel := hq r
    rw [hs, hs'] at hrel
    cases hrel with
    | some hquiet => exact hquiet
  · intro hquiet t
    by_cases ht : t = r
    · rw [ht, hs, hs']
      exact .some hquiet
    · rw [others t ht]
      cases s.heap t with
      | none => exact .none
      | some h => exact .some (.refl h)

end ScriptView

/-- What is asked of the engine (module doc). -/
structure ScriptEngine (P : Platform) extends ScriptView P where
  lookup {h : P.Heap} (genuine : Genuine h) :
    (P.getProperty (P.globalObject h) (.ofCString (utf8 "BigInt")) h).1 = .ok bigInt ∧
      toScriptView.Silent h (P.getProperty (P.globalObject h) (.ofCString (utf8 "BigInt")) h).2
  newString (us : List UInt16) (h : P.Heap) : toScriptView.Silent h (P.newString us h).2
  callBigInt (us : List UInt16) (h : P.Heap) :
    toScriptView.Silent h (P.call bigInt .undefined [.string us] h).2
  isArray (x : JSVal) (h : P.Heap) : toScriptView.Silent h (P.isArray x h).2
  array_isArray {h : P.Heap} {x : JSVal} {n : Nat} (array : Array h x n) : (P.isArray x h).1 = .ok true
  array_length_le {h : P.Heap} {x : JSVal} {n : Nat} (array : Array h x n) : n ≤ 2 ^ 32 - 1
  array_length {h : P.Heap} {x : JSVal} {n : Nat} (array : Array h x n) : ∃ h',
    P.getProperty x (.ofCString (utf8 "length")) h = (.ok (.number (.finite n)), h') ∧ toScriptView.Quiet h h'
  /-- What is no function is not called; a Proxy looks up a trap first. -/
  call {h : P.Heap} {f : JSVal} (this : JSVal) (argv : List JSVal) (no : f.isFunction = false) :
    ∃ x h', P.call f this argv h = (.error x, h') ∧ toScriptView.After h h'
  /-- It is not constructed either: the bit `is_constructor` is checked first. -/
  construct {h : P.Heap} {f : JSVal} (argv : List JSVal) (no : f.isFunction = false) :
    ∃ x h', P.callConstructor f argv h = (.error x, h') ∧ toScriptView.Quiet h h'
  text (x : JSVal) (h : P.Heap) : toScriptView.After h (P.textHeap x h)

/-! ## Conversions -/

section Convert

variable {E : ScriptEngine P} {v : Any}

/-- A conversion is silent, but for the text of its error. -/
theorem converted_silent (hB : E.Genuine l.heap) (v : Any) : E.Silent l.heap (l.converted v).2.heap := by
  obtain ⟨hfound, hlook⟩ := E.lookup hB
  refine converted_follows .refl (fun h₁ h₂ => h₁.trans h₂) hlook E.newString (fun us h => ?_) v
  have hbigInt : l.lookupBigInt.1 = .ok E.bigInt := hfound
  rw [hbigInt]
  exact E.callBigInt us h

/-- The local state after a conversion that failed. -/
def Loc.failed (l : Loc P) (v : Any) : Loc P :=
  if v.isPrimitive then (l.converted v).2.lost (l.converted v).1 else l

/-- If the engine throws on the way of `v`, its error is worded quietly. -/
def Loc.WordedFailure (V : ScriptView P) (l : Loc P) (v : Any) : Prop :=
  v.isPrimitive = true → (l.converted v).1 = none →
    V.Worded ((l.converted v).2.exception.getD .uninitialized) (l.converted v).2.heap

theorem failed_quiet_iff (hB : E.Genuine l.heap) :
    E.Quiet l.heap (l.failed v).heap ↔ l.WordedFailure E.toScriptView v := by
  unfold Loc.failed Loc.WordedFailure
  cases hv : v.isPrimitive with
  | false => simp [ScriptView.Quiet]
  | true =>
    rw [if_pos rfl, lost_heap, (converted_silent hB v).quiet.congr_left]
    by_cases hnone : (l.converted v).1 = none
    · simp [hnone, ScriptView.Worded]
    · simp [hnone, ScriptView.Quiet]

end Convert

section Convert

variable {E : ScriptEngine P} {v : Any} {own : Ptr → Option JSVal}

/-- A value that is passed leaves no trace. -/
theorem pass_silent {o : Option JSVal} (hB : E.Genuine l.heap) (hpass : l.pass own v = some (o, l')) :
    E.Silent l.heap l'.heap :=
  pass_follows .refl (converted_silent hB v) hpass
/-- A value that is not passed: `toJSValue` throws. -/
theorem toJSValue_failed {s₀ : Store P} (h : Ready r l s) (hpass : l.pass (s₀.world.valueOf r) v = none) :
    ∃ e s', (JSRuntime.toJSValue (some r) v).exec.run s = .ok (.error e, s') ∧ Ready r (l.failed v) s' := by
  have primitive (hv : v.isPrimitive = true) (hp : l.pass (s₀.world.valueOf r) v =
      if (l.converted v).2.delivers (l.converted v).1 then
        some ((l.converted v).1, (l.converted v).2.kept) else none) :
      ∃ e s', (JSRuntime.toJSValue (some r) v).exec.run s = .ok (.error e, s') ∧ Ready r (l.failed v) s' := by
    obtain ⟨L, hs⟩ := h.on
    obtain ⟨res, s', hrun, hpost⟩ := (toJSValue_spec hv).run hs
    obtain ⟨ref, -, x, -, hconv, -⟩ | ⟨e, rfl, -, hw⟩ := hpost
    · unfold Loc.Converts at hconv
      rw [hp, if_pos hconv] at hpass
      cases hpass
    · refine ⟨e, s', hrun, ?_⟩
      unfold Loc.failed
      rw [if_pos hv]
      exact (h.run hw).1
  cases v with
  | externValue e =>
    cases e with
    | value ref => cases hpass
    | pointer p => cases hpass
    | method f g => exact ⟨_, s, rfl, h⟩
    | other => exact ⟨_, s, rfl, h⟩
  | pointer p => cases hpass
  | other => exact ⟨_, s, rfl, h⟩
  | int t i => cases t <;> exact primitive rfl rfl
  | bigInt i => exact primitive rfl rfl
  | float t x => exact primitive rfl rfl
  | bool b => exact primitive rfl rfl
  | string str => exact primitive rfl rfl

/-- The local state after a list of values that was not passed: up to the value that failed. -/
def Loc.failedAll (own : Ptr → Option JSVal) (l : Loc P) : List Any → Loc P
  | [] => l
  | v :: vs =>
    match l.pass own v with
    | none => l.failed v
    | some (_, l) => l.failedAll own vs

/-- The error of the value that fails is worded quietly, at whatever place of the list it is. -/
def Loc.WordedFailures (V : ScriptView P) (own : Ptr → Option JSVal) (l : Loc P) : List Any → Prop
  | [] => True
  | v :: vs =>
    match l.pass own v with
    | none => l.WordedFailure V v
    | some (_, l) => l.WordedFailures V own vs

variable {vs : List Any}

theorem passAll_silent {os : List (Option JSVal)} (hB : E.Genuine l.heap)
    (hpass : l.passAll own vs = some (os, l')) : E.Silent l.heap l'.heap := by
  induction vs generalizing l os with
  | nil =>
    cases hpass
    exact .refl _
  | cons v vs ih =>
    simp only [Loc.passAll] at hpass
    rcases hv : l.pass own v with _ | ⟨o, l₁⟩ <;> simp only [hv] at hpass
    · cases hpass
    · rcases hvs : l₁.passAll own vs with _ | ⟨os', l₂⟩ <;> simp only [hvs] at hpass
      · cases hpass
      · cases hpass
        have hfirst := pass_silent hB hv
        exact hfirst.trans (ih (hfirst.genuine hB) hvs)

theorem failedAll_quiet_iff (hB : E.Genuine l.heap) :
    E.Quiet l.heap (l.failedAll own vs).heap ↔ l.WordedFailures E.toScriptView own vs := by
  induction vs generalizing l with
  | nil => exact iff_of_true (.refl _) trivial
  | cons v vs ih =>
    simp only [Loc.failedAll, Loc.WordedFailures]
    rcases hv : l.pass own v with _ | ⟨o, l₁⟩
    · exact failed_quiet_iff hB
    · have hfirst := pass_silent hB hv
      rw [hfirst.quiet.congr_left]
      exact ih (hfirst.genuine hB)

theorem toJSValues_failed {s₀ : Store P} (h : Ready r l s) (he : s₀.Extends s)
    (hvs : ∀ v ∈ vs, v.Sound s₀.world) (hpass : l.passAll (s₀.world.valueOf r) vs = none) :
    ∃ e s', (JSRuntime.toJSValues (some r) vs).exec.run s = .ok (.error e, s') ∧
      Ready r (l.failedAll (s₀.world.valueOf r) vs) s' := by
  induction vs generalizing l s with
  | nil => cases hpass
  | cons v vs ih =>
    simp only [Loc.passAll, Loc.failedAll] at hpass ⊢
    rcases hv : l.pass (s₀.world.valueOf r) v with _ | ⟨o, l₁⟩ <;> simp only [hv] at hpass
    · obtain ⟨e, s', hrun, hready⟩ := toJSValue_failed h hv
      exact ⟨e, s', Prog.exec_bind_error hrun, hready⟩
    · obtain ⟨res, s₁, hrun, hext, hpassed⟩ := toJSValue_passed h he (hvs v (by simp))
      rw [hv] at hpassed
      obtain ⟨ref, rfl, hready, -⟩ := hpassed
      rcases hall : l₁.passAll (s₀.world.valueOf r) vs with _ | ⟨os, l₂⟩ <;> simp only [hall] at hpass
      · obtain ⟨e, s₂, hrun', hready'⟩ := ih hready (he.trans hext) (fun u hu => hvs u (by simp [hu])) hall
        refine ⟨e, s₂, ?_, hready'⟩
        refine (Prog.exec_bind_of hrun).trans ?_
        exact Prog.exec_bind_error hrun'
      · cases hpass

end Convert

/-! ## Targets -/

/-- `p` throws, and in no runtime a script notices exactly when `φ` holds. -/
def Rejects {α : Type} (V : ScriptView P) (s : Store P) (p : Prog α) (φ : Prop) : Prop :=
  ∃ e s', p.exec.run s = .ok (.error e, s') ∧ (V.QuietRun s s' ↔ φ)

section Rejects

variable {α β : Type} {V : ScriptView P} {p : Prog α} {f : α → Prog β} {φ ψ : Prop}

theorem Runs.rejects {L : Multiset Resource} (l' : Loc P)
    (hp : Runs (On r s.world l L) p (fun _ _ => False) fun _ s' => On r s.world l' L s')
    (hs : On r s.world l L s) : Rejects V s p (V.Quiet l.heap l'.heap) := by
  obtain ⟨res, s', hrun, ⟨_, -, hfalse⟩ | ⟨e, rfl, hw⟩⟩ := hp.run hs
  · exact hfalse.elim
  · exact ⟨e, s', hrun, ScriptView.quietRun_iff (fun t ht => Run.heap_of_ne rfl hw ht) (Run.heap hs) (Run.heap hw)⟩

theorem Rejects.congr (h : Rejects V s p φ) (hφ : φ ↔ ψ) : Rejects V s p ψ := by
  obtain ⟨e, s', hrun, hquiet⟩ := h
  exact ⟨e, s', hrun, hquiet.trans hφ⟩

/-- An exception of the first part. -/
theorem Rejects.bind (h : Rejects V s p φ) : Rejects V s (p.bind f) φ := by
  obtain ⟨e, s', hrun, hquiet⟩ := h
  exact ⟨e, s', Prog.exec_bind_error hrun, hquiet⟩

/-- An exception after a first part that is quiet. -/
theorem Rejects.after {a : α} (hp : p.exec.run s = .ok (.ok a, s')) (hquiet : V.QuietRun s s')
    (hf : Rejects V s' (f a) φ) : Rejects V s (p.bind f) φ := by
  obtain ⟨e, s'', hrun, hiff⟩ := hf
  exact ⟨e, s'', (Prog.exec_bind_of hp).trans hrun, hquiet.congr_left.trans hiff⟩

/-- A state in which nothing changed. -/
theorem Rejects.of_world {e : Exn} (hrun : p.exec.run s = .ok (.error e, s')) (hw : s'.world = s.world) :
    Rejects V s p True := by
  refine ⟨e, s', hrun, iff_of_true (fun t => ?_) trivial⟩
  rw [Store.heap, Store.heap, hw]
  cases (s.world.runtimes t).bind (·.context) with
  | none => exact .none
  | some h => exact .some (.refl h)

end Rejects

/-- The object `ref` has no value, or one that `bad` holds of. -/
def JSValueRef.Unsuitable (ref : JSValueRef) (w : World P) (bad : Nat → JSVal → Prop) : Prop :=
  ref.handle = none ∨ ∃ t x, ref.Denotes w t x ∧ bad t x

theorem JSValueRef.Unsuitable.mono {ref : JSValueRef} {bad : Nat → JSVal → Prop}
    (h : ref.Unsuitable s.world bad) (he : s.Extends s') : ref.Unsuitable s'.world bad := by
  obtain hnull | ⟨t, x, hx, hbad⟩ := h
  · exact .inl hnull
  · exact .inr ⟨t, x, hx.mono he, hbad⟩

theorem JSValueRef.Receives.mono {ref : JSValueRef} {this : JSVal} (h : ref.Receives s.world t this)
    (he : s.Extends s') : ref.Receives s'.world t this :=
  h.imp_right fun hx => hx.mono he

/-- The runtime of a handle can be worked on. -/
theorem Tidy.ready_of_denotes {ref : JSValueRef} {x : JSVal} (h : Tidy s) (hx : ref.Denotes s.world t x) :
    ∃ l : Loc P, Ready t l s := by
  obtain ⟨p, -, hp⟩ := hx
  obtain ⟨l, hl⟩ := h.live p t x hp
  exact ⟨l, h.ready hl⟩

section Target

variable {E : ScriptEngine P} {ref : JSValueRef} {x : JSVal} {q : Ptr} {n : Nat} {index : Int} {h₀ : P.Heap}

/-- What has no properties is not written. -/
theorem setProperty_unsuitable (h : Tidy s) (ho : ref.Unsuitable s.world fun _ x => x.isObject = false)
    (name : String) (q : Ptr) : Rejects E.toScriptView s (setProperty ref.handle name q) True := by
  obtain hnull | ⟨t, x, hx, hno⟩ := ho
  · rw [hnull]
    have hrun : (setProperty none name q).exec.run s = .ok (.error _, s) := rfl
    exact .of_world hrun rfl
  · obtain ⟨l, hready⟩ := h.ready_of_denotes hx
    obtain ⟨L, hs⟩ := hready.on
    obtain ⟨p, hp, hx⟩ := hx
    rw [hp]
    refine Rejects.congr (Runs.rejects l ?_ hs) (iff_true_intro (.refl _))
    refine Runs.bind (valueHasProperties_spec hx) fun ok => Runs.lift fun hok => ?_
    rw [hok, hno]
    exact (Runs.raise _).pre fun s hs => hs

/-- A write of what is no value of the runtime. -/
theorem writeStatus_refused {b : World P} {L : Multiset Resource} {c : Call Int} {m : CStr}
    {Q : JSVal → Int → World P → Prop} (message : String)
    (hc : Triple (Run r b l L) c.run (Checked r b L l 1 (.error m) Q)) :
    Runs (On r b l L)
      (do let status ← c.prog
          if status ≠ 0 then .raise (.dynamic message) else return () : Prog Unit)
      (fun _ _ => False) fun _ s => On r b (l.setError m) L s := by
  refine Runs.call hc fun status s hs => ?_
  obtain ⟨rfl, hw⟩ := hs
  exact ⟨.error (.dynamic message), s, rfl, hw⟩

theorem World.newValueOf_none {w : World P} (hq : w.valueOf r q = none) (message : String) :
    w.newValueOf r q message = .error (utf8 message) := by
  unfold World.newValueOf
  rw [hq]

theorem setProperty_refused (h : Tidy s) (ho : ref.Denotes s.world t x) (hlive : s.world.NullOrLive q)
    (hq : s.world.valueOf t q = none) (name : String) :
    Rejects E.toScriptView s (setProperty ref.handle name q) True := by
  cases hobj : x.isObject with
  | false => exact setProperty_unsuitable h (.inr ⟨t, x, ho, hobj⟩) name q
  | true =>
    obtain ⟨l, hready⟩ := h.ready_of_denotes ho
    obtain ⟨L, hs⟩ := hready.on
    obtain ⟨p, hp, hx⟩ := ho
    rw [hp]
    refine Rejects.congr (Runs.rejects (l.setError (utf8 "property value does not belong to this runtime")) ?_ hs)
      (iff_true_intro (.refl _))
    refine Runs.bind (valueHasProperties_spec hx) fun ok => Runs.lift fun hok => ?_
    rw [hok, hobj]
    have hcall := jsValueSetProperty_spec (l := l) (L := L) hx hlive (mallocCString name)
    rw [World.newValueOf_none hq] at hcall
    exact writeStatus_refused _ hcall

/-- What is no array is not written by an index. -/
theorem setIndex_unsuitable (h : Tidy s)
    (ho : ref.Unsuitable s.world fun t x => ∃ h, s.heap t = some h ∧ (P.isArray x h).1 = .ok false)
    (index : Int) (q : Ptr) : Rejects E.toScriptView s (setIndex ref.handle index q) True := by
  obtain hnull | ⟨t, x, hx, h₀, hheap, hno⟩ := ho
  · rw [hnull]
    have hrun : (setIndex none index q).exec.run s = .ok (.error _, s) := rfl
    exact .of_world hrun rfl
  · obtain ⟨l, hready⟩ := h.ready_of_denotes hx
    obtain rfl : l.heap = h₀ := Option.some.inj (hready.heap.symm.trans hheap)
    obtain ⟨L, hs⟩ := hready.on
    obtain ⟨p, hp, hx⟩ := hx
    rw [hp]
    refine Rejects.congr (Runs.rejects (l.after (P.isArray x l.heap)) ?_ hs) (iff_true_intro ?_)
    · refine Runs.bind (valueIsArray_spec hx) fun ok => Runs.lift fun hok => ?_
      have hfalse : ok = false := by
        rw [Bool.eq_false_iff, ne_eq, hok]
        simp [Loc.CountsAsArray, hno, Except.toOption]
      rw [hfalse]
      exact (Runs.raise _).pre fun s hs => hs
    · rw [Loc.after_heap]
      exact (E.isArray x l.heap).quiet

/-- The checks of `setIndex` see a genuine array and its length, quietly. -/
theorem measured_array (hx : E.Array l.heap x n) :
    l.CountsAsArray x ∧ (l.measured x).1 = n ∧ E.Quiet l.heap (l.measured x).2.heap := by
  have hsilent := E.isArray x l.heap
  obtain ⟨h', hlength, hquiet'⟩ := E.array_length (hsilent.array x n hx)
  have hheap : (l.after (P.isArray x l.heap)).heap = (P.isArray x l.heap).2 := Loc.after_heap _ _
  have hmeasured : l.measured x = ((n : Int), { l.after (P.isArray x l.heap) with heap := h' }) := by
    unfold Loc.measured Loc.arrayLength
    rw [hheap, hlength]
    simp only [Platform.toNumber, castInt64_length P (E.array_length_le hx)]
  refine ⟨?_, ?_, ?_⟩
  · unfold Loc.CountsAsArray
    rw [E.array_isArray hx]
    simp [Except.toOption]
  · rw [hmeasured]
  · rw [hmeasured]
    exact hsilent.quiet.trans hquiet'

/-- An index that is out of range, or a value that is none of the runtime. -/
theorem setIndex_array (h : Tidy s) (ho : ref.Denotes s.world t x) (hheap : s.heap t = some h₀)
    (hx : E.Array h₀ x n) (hlive : s.world.NullOrLive q)
    (hno : ¬ (0 ≤ index ∧ index < n) ∨ s.world.valueOf t q = none) :
    Rejects E.toScriptView s (setIndex ref.handle index q) True := by
  obtain ⟨l, hready⟩ := h.ready_of_denotes ho
  obtain rfl : l.heap = h₀ := Option.some.inj (hready.heap.symm.trans hheap)
  obtain ⟨L, hs⟩ := hready.on
  obtain ⟨p, hp, hholds⟩ := ho
  obtain ⟨hcounts, hlength, hquiet⟩ := measured_array hx
  have hrange : l.InRange x index ↔ 0 ≤ index ∧ index < n := by
    unfold Loc.InRange
    rw [hlength]
  rw [hp]
  by_cases hin : l.InRange x index
  · have hq := hno.resolve_left fun hout => hout (hrange.mp hin)
    let m := utf8 "array value does not belong to this runtime"
    refine Rejects.congr (Runs.rejects ((l.measured x).2.setError m) ?_ hs) (iff_true_intro hquiet)
    refine checkIndex_spec hholds (fun e s hun => ?_) fun _ _ => ?_
    · obtain ⟨hn, -⟩ | ⟨-, hout, -⟩ := hun
      · exact absurd hcounts hn
      · exact absurd hin hout
    · have hcall := jsValueSetIndex_spec (l := (l.measured x).2) (L := L) hholds hin.1 hlive
      rw [World.newValueOf_none hq] at hcall
      exact writeStatus_refused _ hcall
  · refine Rejects.congr (Runs.rejects (l.measured x).2 ?_ hs) (iff_true_intro hquiet)
    refine checkIndex_spec hholds (fun e s hun => ?_) fun _ hin' => absurd hin' hin
    obtain ⟨hn, -⟩ | ⟨-, -, -, hw⟩ := hun
    · exact absurd hcounts hn
    · exact hw

end Target

/-! ## Calls -/

/-- `JS_Call` and `JS_CallConstructor` of `f` and the texts of their errors are quiet. -/
structure ScriptView.RefusesQuietly (V : ScriptView P) (h : P.Heap) (f this : JSVal) (argv : List JSVal) :
    Prop where
  call : V.Quiet h (P.call f this argv h).2
  callText : ∀ x, (P.call f this argv h).1 = .error x → V.Worded x (P.call f this argv h).2
  constructText : ∀ x h', P.callConstructor f argv (P.failedHeap (P.call f this argv h)) = (.error x, h') →
    V.Worded x h'

/-- An attempt gives no value, and leaves the heap `h'` of `h`: an argument is none of the runtime, which sees
`os`, or the engine throws and its error is turned into text. -/
def Platform.Lost (P : Platform) (os : List (Option JSVal)) (attempt : List JSVal → EngineM P.Heap JSVal)
    (h h' : P.Heap) : Prop :=
  none ∈ os ∧ h' = h ∨
  ∃ argv x h₁, os = argv.map some ∧ attempt argv h = (.error x, h₁) ∧ h' = P.textHeap x h₁

/-- `p` throws, after work on the runtime `t` that leaves the heap `h`. -/
def Loses {α : Type} (t : Nat) (s : Store P) (p : Prog α) (h : P.Heap) : Prop :=
  ∃ e s', p.exec.run s = .ok (.error e, s') ∧ Follows t s s' ∧ s'.heap t = some h

theorem Loses.bind {α β : Type} {p : Prog α} {f : α → Prog β} {h : P.Heap} (hp : Loses t s p h) :
    Loses t s (p.bind f) h := by
  obtain ⟨e, s', hrun, hend⟩ := hp
  exact ⟨e, s', Prog.exec_bind_error hrun, hend⟩

theorem Prog.exec_catch {α : Type} {p : Prog α} {handler : Exn → Prog α} {e : Exn}
    (h : p.exec.run s = .ok (.error e, s')) : (p.tryCatch handler).exec.run s = (handler e).exec.run s' := by
  rw [Prog.exec_tryCatch, StateT.run_bind, h]
  rfl

section Calls

variable {E : ScriptEngine P} {L : Multiset Resource} {function receiver : JSValueRef} {refs : List JSValueRef}
  {f this : JSVal} {os : List (Option JSVal)} {h₀ h₁ h₂ : P.Heap}

/-- The heap after both attempts on what is no function. -/
theorem lost_quiet_iff (E : ScriptEngine P) (h₀ : P.Heap) (this : JSVal) (argv : List JSVal)
    (hf : f.isFunction = false) : ∃ h₁ h₂,
    P.Lost (argv.map some) (P.call f this) h₀ h₁ ∧ P.Lost (argv.map some) (P.callConstructor f) h₁ h₂ ∧
      (E.Quiet h₀ h₂ ↔ E.RefusesQuietly h₀ f this argv) := by
  have hrefused : ∃ x h₁, P.call f this argv h₀ = (.error x, h₁) ∧ E.After h₀ h₁ := E.call this argv hf
  obtain ⟨x, h₁, hcall, hafter⟩ := hrefused
  have hunbuilt : ∃ y h₂, P.callConstructor f argv (P.textHeap x h₁) = (.error y, h₂) ∧
      E.Quiet (P.textHeap x h₁) h₂ := E.construct argv hf
  obtain ⟨y, h₂, hconstruct, hquiet⟩ := hunbuilt
  refine ⟨P.textHeap x h₁, P.textHeap y h₂, .inr ⟨argv, x, h₁, rfl, hcall, rfl⟩,
    .inr ⟨argv, y, h₂, rfl, hconstruct, rfl⟩, ?_⟩
  have htext := E.text x h₁
  have htext' := hquiet.after.trans (E.text y h₂)
  rw [ScriptView.After.quiet_iff (hafter.trans htext) htext', hafter.quiet_iff htext, hquiet.congr_left]
  constructor
  · rintro ⟨⟨hc, hx⟩, hy⟩
    refine ⟨by rwa [hcall], fun z hz => ?_, fun z h hz => ?_⟩
    · rw [hcall] at hz ⊢
      cases hz
      exact hx
    · rw [hcall] at hz
      have hsame := hconstruct.symm.trans hz
      cases hsame
      exact hy
  · rintro ⟨hc, hx, hy⟩
    rw [hcall] at hc hx hy
    exact ⟨⟨hc, hx x rfl⟩, hy y h₂ hconstruct⟩

/-- An attempt on the runtime `t` that gives `NULL`: the message of the exception is the last error of `r`. -/
theorem attempt_lost {c : Call Ptr} (rs : List JSValueRef) (h : Tidy s) (hr : ∃ l, s.world.loc? r = some l)
    (hs : On t s.world l L s)
    (hc : Triple (Run t s.world l L) c.run fun q w => q = none ∧ Run t s.world l' L w) :
    Loses t s (Prog.native rs c fun result => valueFromCallHandle (some r) result) l'.heap := by
  obtain ⟨q, w, hrun, rfl, hw⟩ := hc s.world hs
  have hcall : Follows t s { s with world := w } := h.run hs hw
  obtain ⟨lr, hlr⟩ := hcall.opened r hr
  have hready := hcall.tidy.ready hlr
  obtain ⟨L', hon⟩ := hready.on
  have hmessage : Runs (On r w lr L') (valueFromCallHandle (some r) none) (fun _ _ => False)
      fun e s => e = lr.callExn ∧ On r w lr L' s := valueFromCallHandle_none
  obtain ⟨res, s', hrun', ⟨a, -, hfalse⟩ | ⟨e, rfl, -, hw'⟩⟩ := hmessage.run hon
  · exact hfalse.elim
  · have hread := hcall.tidy.run hon hw'
    have hsteady : Follows t { s with world := w } s' := hread.steady ((Run.heap hw').trans hready.heap.symm)
    refine ⟨e, s', ?_, hcall.trans hsteady, ?_⟩
    · have hworld : (onWorld c.run : StateT (Store P) (Except Fault) Ptr).run s =
          .ok (none, { s with world := w }) := by
        simp [onWorld, StateT.run, show c.run s.world = _ from hrun]
      rw [Prog.exec, StateT.run_bind, hworld]
      exact hrun'
    · have hsame : s'.heap t = ({ s with world := w } : Store P).heap t := by
        by_cases ht : t = r
        · rw [ht]
          exact (Run.heap hw').trans hready.heap.symm
        · exact hread.others t ht
      exact hsame.trans (Run.heap hw)

theorem callValue_lost (h : Tidy s) (hr : ∃ l, s.world.loc? r = some l) (hheap : s.heap t = some h₀)
    (hf : function.Denotes s.world t f) (hthis : receiver.Receives s.world t this)
    (hlive : ∀ ref ∈ refs, s.world.NullOrLive ref.handle) (hlen : P.TakesArgs refs.length)
    (hlost : P.Lost (refs.map fun ref => s.world.valueOf t ref.handle) (P.call f this) h₀ h₁) :
    Loses t s (JSRuntime.callValue (some r) function receiver refs) h₁ := by
  obtain ⟨l, hready⟩ := h.ready_of_denotes hf
  obtain rfl : l.heap = h₀ := Option.some.inj (hready.heap.symm.trans hheap)
  obtain ⟨L, hs⟩ := hready.on
  obtain ⟨⟨_, _, _⟩, rfl, hofInt⟩ := int32_ofInt_length hlen.1
  obtain ⟨p, hp, hx⟩ := hf
  have hcall := (jsValueCall_spec (r := t) (l := l) (L := L) hx hthis.nullOrLive (countsArgs_handles refs)
    (by simpa using hlive)).total fun _ h => h.2.2.2 hlen.2
  rw [hthis.thisOf] at hcall
  unfold JSRuntime.callValue
  rw [hofInt, hp]
  obtain ⟨hnone, rfl⟩ | ⟨argv, x, h₂, hargv, hthrow, rfl⟩ := hlost
  · obtain ⟨ref, hmem, hval⟩ := List.mem_map.mp hnone
    rw [argvOf_foreign hmem hval] at hcall
    have hnull : Triple (Run t s.world l L)
        (Call.valueCall (some p) receiver.handle (some (refs.map (·.handle))) refs.length).run
        fun q w => q = none ∧ Run t s.world (l.setError foreignArgument) L w := hcall
    have hend := attempt_lost [function, receiver] h hr hs hnull
    exact hend
  · rw [(denote_of_values hlive hargv).argvOf] at hcall
    have hnull : Triple (Run t s.world l L)
        (Call.valueCall (some p) receiver.handle (some (refs.map (·.handle))) refs.length).run
        fun q w => q = none ∧ Run t s.world (l.tried f this argv) L w := hcall.post fun q w hq => by
      obtain ⟨y, hy, -⟩ | ⟨-, hq, hw⟩ := hq.cases
      · rw [hthrow] at hy
        cases hy
      · exact ⟨hq, hw⟩
    have hend := attempt_lost [function, receiver] h hr hs hnull
    rw [Loc.tried_heap, hthrow] at hend
    exact hend

theorem constructValue_lost (h : Tidy s) (hr : ∃ l, s.world.loc? r = some l) (hheap : s.heap t = some h₀)
    (hf : function.Denotes s.world t f) (hlive : ∀ ref ∈ refs, s.world.NullOrLive ref.handle)
    (hlen : P.TakesArgs refs.length)
    (hlost : P.Lost (refs.map fun ref => s.world.valueOf t ref.handle) (P.callConstructor f) h₀ h₁) :
    Loses t s (JSRuntime.constructValue (some r) function refs) h₁ := by
  obtain ⟨l, hready⟩ := h.ready_of_denotes hf
  obtain rfl : l.heap = h₀ := Option.some.inj (hready.heap.symm.trans hheap)
  obtain ⟨L, hs⟩ := hready.on
  obtain ⟨⟨_, _, _⟩, rfl, hofInt⟩ := int32_ofInt_length hlen.1
  obtain ⟨p, hp, hx⟩ := hf
  have hcall := (jsValueConstruct_spec (r := t) (l := l) (L := L) hx (countsArgs_handles refs)
    (by simpa using hlive)).total fun _ h => h.2.2.2 hlen.2
  unfold JSRuntime.constructValue
  rw [hofInt, hp]
  obtain ⟨hnone, rfl⟩ | ⟨argv, x, h₂, hargv, hthrow, rfl⟩ := hlost
  · obtain ⟨ref, hmem, hval⟩ := List.mem_map.mp hnone
    rw [argvOf_foreign hmem hval] at hcall
    have hnull : Triple (Run t s.world l L)
        (Call.valueConstruct (some p) (some (refs.map (·.handle))) refs.length).run
        fun q w => q = none ∧ Run t s.world (l.setError foreignArgument) L w := hcall
    have hend := attempt_lost [function] h hr hs hnull
    exact hend
  · rw [(denote_of_values hlive hargv).argvOf] at hcall
    have hnull : Triple (Run t s.world l L)
        (Call.valueConstruct (some p) (some (refs.map (·.handle))) refs.length).run
        fun q w => q = none ∧ Run t s.world (l.constructTried f argv) L w := hcall.post fun q w hq => by
      obtain ⟨y, hy, -⟩ | ⟨-, hq, hw⟩ := hq.cases
      · rw [hthrow] at hy
        cases hy
      · exact ⟨hq, hw⟩
    have hend := attempt_lost [function] h hr hs hnull
    rw [Loc.constructTried_heap hthrow] at hend
    exact hend

/-- A call on `NULL` finds nothing to call. -/
theorem null_lost {c : Call Ptr} (rs : List JSValueRef) (h : Tidy s) (hr : ∃ l, s.world.loc? r = some l)
    (hheap : s.heap r = some h₀) (hc : ∀ w : World P, c.run.run w = .ok (none, w)) :
    Loses r s (Prog.native rs c fun result => valueFromCallHandle (some r) result) h₀ := by
  obtain ⟨l, hl⟩ := hr
  have hready := h.ready hl
  obtain rfl : l.heap = h₀ := Option.some.inj (hready.heap.symm.trans hheap)
  obtain ⟨L, hs⟩ := hready.on
  exact attempt_lost rs h ⟨l, hl⟩ hs fun w hw => ⟨none, w, hc w, rfl, hw⟩

/-- Without a function, or with more arguments than `Int32` counts, the attempts do not reach the engine. -/
theorem callValue_unreached (h : Tidy s) (hr : ∃ l, s.world.loc? r = some l) (hheap : s.heap r = some h₀)
    (hno : function.handle = none ∨ maxArgs < refs.length) :
    Loses r s (JSRuntime.callValue (some r) function receiver refs) h₀ := by
  unfold JSRuntime.callValue
  by_cases hlen : refs.length ≤ maxArgs
  · obtain ⟨v, -, hofInt⟩ := int32_ofInt_length hlen
    rw [hofInt, hno.resolve_right (not_lt.mpr hlen)]
    exact null_lost [function, receiver] h hr hheap fun w => rfl
  · rw [int32_ofInt_overflow (not_le.mp hlen)]
    exact ⟨.overflow, s, rfl, .refl h, hheap⟩

theorem constructValue_unreached (h : Tidy s) (hr : ∃ l, s.world.loc? r = some l) (hheap : s.heap r = some h₀)
    (hno : function.handle = none ∨ maxArgs < refs.length) :
    Loses r s (JSRuntime.constructValue (some r) function refs) h₀ := by
  unfold JSRuntime.constructValue
  by_cases hlen : refs.length ≤ maxArgs
  · obtain ⟨v, -, hofInt⟩ := int32_ofInt_length hlen
    rw [hofInt, hno.resolve_right (not_lt.mpr hlen)]
    exact null_lost [function] h hr hheap fun w => rfl
  · rw [int32_ofInt_overflow (not_le.mp hlen)]
    exact ⟨.overflow, s, rfl, .refl h, hheap⟩

/-- Both attempts give no value. -/
theorem dispatch_lost {getReceiver : Prog JSValueRef} {ref : JSValueRef} (h : Tidy s) (hheap : s.heap t = some h₀)
    (hget : getReceiver.exec.run s = .ok (.ok ref, s')) (hw : s'.world = s.world)
    (hcall : ∀ s₁, Follows t s s₁ → s₁.heap t = some h₀ →
      Loses t s₁ (JSRuntime.callValue (some r) function ref refs) h₁)
    (hconstruct : ∀ s₂, Follows t s s₂ → s₂.heap t = some h₁ →
      Loses t s₂ (JSRuntime.constructValue (some r) function refs) h₂) :
    Loses t s
      (Prog.tryCatch (do jsExtern (← JSRuntime.callValue (some r) function (← getReceiver) refs))
        fun _ => do jsExtern (← JSRuntime.constructValue (some r) function refs)) h₂ := by
  have hstart : Follows t s s' := .of_world h hw
  have hheap' : s'.heap t = some h₀ := by
    rw [← hheap, Store.heap, Store.heap, hw]
  obtain ⟨e, s₂, hrun, hfollows, hheap₂⟩ := hcall s' hstart hheap'
  have hboth := hstart.trans hfollows
  obtain ⟨e', s₃, hrun', hfollows', hheap₃⟩ := hconstruct s₂ hboth hheap₂
  refine ⟨e', s₃, ?_, hboth.trans hfollows', hheap₃⟩
  have hfirst : (do jsExtern (← JSRuntime.callValue (some r) function (← getReceiver) refs) : Prog Payload).exec.run
      s = .ok (.error e, s₂) := by
    refine (Prog.exec_bind_of hget).trans ?_
    exact Prog.exec_bind_error hrun
  rw [Prog.exec_catch hfirst]
  exact Prog.exec_bind_error hrun'

end Calls

/-- The function of a callee. -/
def Payload.function? : Payload → Option JSValueRef
  | .value ref => some ref
  | .method function _ => some function
  | _ => none

theorem Callee.function? {w : World P} {e : Payload} {f this : JSVal} (h : Callee w t e f this) :
    ∃ function, e.function? = some function ∧ function.Denotes w t f := by
  cases e with
  | value ref => exact ⟨ref, rfl, h.1⟩
  | method fn receiver => exact ⟨fn, rfl, h.1⟩
  | pointer p => exact h.elim
  | other => exact h.elim

section Calls

variable {E : ScriptEngine P} {e : Payload} {args : List Any} {function : JSValueRef} {refs : List JSValueRef}
  {h₀ h₂ : P.Heap}

/-- `functionCall` converts its arguments first. -/
theorem functionCall_failed {φ : Prop} (he : e.function? = some function)
    (hconv : Rejects E.toScriptView s (JSRuntime.toJSValues (some r) args) φ) :
    Rejects E.toScriptView s (JSRuntime.functionCall (some r) e args) φ := by
  cases e with
  | value ref => exact hconv.bind
  | method fn receiver => exact hconv.bind
  | pointer p => cases he
  | other => cases he

/-- After a quiet conversion both attempts are made. -/
theorem functionCall_lost (h₁ : P.Heap) (he : e.function? = some function) (h : Tidy s')
    (hconv : (JSRuntime.toJSValues (some r) args).exec.run s = .ok (.ok refs, s'))
    (hquiet : E.QuietRun s s') (hheap : s'.heap t = some h₀)
    (hcall : ∀ ref s₁, (∀ f this, Callee s'.world t e f this → ref.Receives s'.world t this) → Follows t s' s₁ →
      s₁.heap t = some h₀ → Loses t s₁ (JSRuntime.callValue (some r) function ref refs) h₁)
    (hconstruct : ∀ s₂, Follows t s' s₂ → s₂.heap t = some h₁ →
      Loses t s₂ (JSRuntime.constructValue (some r) function refs) h₂) :
    Rejects E.toScriptView s (JSRuntime.functionCall (some r) e args) (E.Quiet h₀ h₂) := by
  have rejects {p : Prog Payload} (hp : Loses t s' p h₂) : Rejects E.toScriptView s' p (E.Quiet h₀ h₂) := by
    obtain ⟨e, s₁, hrun, hfollows, hend⟩ := hp
    exact ⟨e, s₁, hrun, ScriptView.quietRun_iff hfollows.others hheap hend⟩
  cases e with
  | value ref =>
    cases he
    refine Rejects.after hconv hquiet (rejects ?_)
    have hget : (newRef none).exec.run s' =
        .ok (.ok ⟨s'.nextRef, none⟩, { s' with nextRef := s'.nextRef + 1 }) := rfl
    exact dispatch_lost h hheap hget rfl (fun s₁ => hcall _ s₁ fun f this hc => .inl ⟨rfl, hc.2⟩) hconstruct
  | method fn receiver =>
    cases he
    refine Rejects.after hconv hquiet (rejects ?_)
    have hget : (Prog.ret receiver).exec.run s' = .ok (.ok receiver, s') := rfl
    exact dispatch_lost h hheap hget rfl (fun s₁ => hcall _ s₁ fun f this hc => .inr hc.2) hconstruct
  | pointer p => cases he
  | other => cases he

end Calls

/-! ## The law -/

/-- The payload is none that the operation takes. -/
def Op.BadPayload : Op → Prop
  | .memberUpdate (.value _) _ _ | .indexUpdate (.value _) _ _ => False
  | .memberUpdate _ _ _ | .indexUpdate _ _ _ => True
  | .functionCall e _ => e.function? = none
  | _ => False

/-- The values that the operation converts. -/
def Op.values : Op → List Any
  | .memberUpdate (.value _) _ v | .indexUpdate (.value _) _ v => [v]
  | .functionCall (.value _) args | .functionCall (.method _ _) args => args
  | _ => []

/-- The heap of the runtime `t` after conversions for `r` that leave `r` the local state `l`. -/
def Store.heapAfter (s : Store P) (r : Nat) (l : Loc P) (t : Nat) : Option P.Heap :=
  if t = r then some l.heap else s.heap t

/-- Why an operation is rejected. The values are converted first, which leaves the local state `l'`; the target is
a value of the runtime `t`, which sees nothing of a value that was made for another one. -/
inductive Rejected (E : ScriptEngine P) (s : Store P) (r : Nat) (l : Loc P) : Op → Prop where
  | payload {op : Op} (bad : op.BadPayload) : Rejected E s r l op
  | value {op : Op} (fails : l.passAll (s.world.valueOf r) op.values = none) : Rejected E s r l op
  | member {o : JSValueRef} {field : String} {v : Any} {y : Option JSVal} {l' : Loc P}
      (converts : l.pass (s.world.valueOf r) v = some (y, l'))
      (unsuitable : o.Unsuitable s.world fun _ x => x.isObject = false) :
      Rejected E s r l (.memberUpdate (.value o) field v)
  | memberValue {o : JSValueRef} {field : String} {v : Any} {y : Option JSVal} {t : Nat} {x : JSVal} {l' : Loc P}
      (converts : l.pass (s.world.valueOf r) v = some (y, l')) (target : o.Denotes s.world t x)
      (refused : s.world.sees r t v y = none) : Rejected E s r l (.memberUpdate (.value o) field v)
  | named {o : JSValueRef} {key : String} {v : Any} {y : Option JSVal} {l' : Loc P}
      (converts : l.pass (s.world.valueOf r) v = some (y, l'))
      (unsuitable : o.Unsuitable s.world fun _ x => x.isObject = false) :
      Rejected E s r l (.indexUpdate (.value o) (.string key) v)
  | namedValue {o : JSValueRef} {key : String} {v : Any} {y : Option JSVal} {t : Nat} {x : JSVal} {l' : Loc P}
      (converts : l.pass (s.world.valueOf r) v = some (y, l')) (target : o.Denotes s.world t x)
      (refused : s.world.sees r t v y = none) : Rejected E s r l (.indexUpdate (.value o) (.string key) v)
  | key {o : JSValueRef} {arg v : Any} {y : Option JSVal} {l' : Loc P}
      (converts : l.pass (s.world.valueOf r) v = some (y, l')) (bad : arg.BadKey) :
      Rejected E s r l (.indexUpdate (.value o) arg v)
  | element {o : JSValueRef} {arg v : Any} {i : Int} {y : Option JSVal} {l' : Loc P}
      (converts : l.pass (s.world.valueOf r) v = some (y, l')) (index : arg.index? = some i)
      (unsuitable : o.Unsuitable s.world fun t x =>
        ∃ h, s.heapAfter r l' t = some h ∧ (P.isArray x h).1 = .ok false) :
      Rejected E s r l (.indexUpdate (.value o) arg v)
  | range {o : JSValueRef} {arg v : Any} {i : Int} {y : Option JSVal} {l' : Loc P} {t : Nat} {x : JSVal} {n : Nat}
      {h : P.Heap} (converts : l.pass (s.world.valueOf r) v = some (y, l')) (index : arg.index? = some i)
      (target : o.Denotes s.world t x) (heap : s.heap t = some h) (array : E.Array h x n)
      (out : ¬ (0 ≤ i ∧ i < n)) : Rejected E s r l (.indexUpdate (.value o) arg v)
  | elementValue {o : JSValueRef} {arg v : Any} {i : Int} {y : Option JSVal} {l' : Loc P} {t : Nat} {x : JSVal}
      {n : Nat} {h : P.Heap} (converts : l.pass (s.world.valueOf r) v = some (y, l')) (index : arg.index? = some i)
      (target : o.Denotes s.world t x) (heap : s.heap t = some h) (array : E.Array h x n)
      (refused : s.world.sees r t v y = none) : Rejected E s r l (.indexUpdate (.value o) arg v)
  | call {e : Payload} {args : List Any} {os : List (Option JSVal)} {l' : Loc P} {function : JSValueRef}
      (converts : l.passAll (s.world.valueOf r) args = some (os, l')) (callee : e.function? = some function)
      (unsuitable : function.handle = none ∨ ∃ t f this, Callee s.world t e f this ∧ f.isFunction = false ∧
        (args.length ≤ maxArgs → P.FitsArgv args.length)) :
      Rejected E s r l (.functionCall e args)
  | argument {e : Payload} {args : List Any} {os : List (Option JSVal)} {l' : Loc P} {t : Nat} {f this : JSVal}
      (converts : l.passAll (s.world.valueOf r) args = some (os, l')) (callee : Callee s.world t e f this)
      (refused : none ∈ s.world.seesAll r t args os) (room : args.length ≤ maxArgs → P.FitsArgv args.length) :
      Rejected E s r l (.functionCall e args)

/-- The error of a conversion that fails is worded quietly, and so are the refusals of a target that cannot be
called. -/
structure Op.RejectsQuietly (V : ScriptView P) (s : Store P) (r : Nat) (l : Loc P) (op : Op) : Prop where
  conversion : l.WordedFailures V (s.world.valueOf r) op.values
  call : ∀ e args t f this os argv l' h, op = .functionCall e args → Callee s.world t e f this →
    l.passAll (s.world.valueOf r) args = some (os, l') → s.world.seesAll r t args os = argv.map some →
    args.length ≤ maxArgs → s.heapAfter r l' t = some h → V.RefusesQuietly h f this argv

section Law

variable {E : ScriptEngine P} {V : ScriptView P} {op : Op} {o : JSValueRef} {v : Any} {own : Ptr → Option JSVal}
  {y : Option JSVal} {os : List (Option JSVal)}

theorem wordedFailures_passAll {vs : List Any} (h : l.passAll own vs = some (os, l')) :
    l.WordedFailures V own vs := by
  induction vs generalizing l os with
  | nil => trivial
  | cons v vs ih =>
    simp only [Loc.passAll, Loc.WordedFailures] at h ⊢
    rcases hv : l.pass own v with _ | ⟨y, l₁⟩ <;> simp only [hv] at h ⊢
    · cases h
    · rcases hvs : l₁.passAll own vs with _ | ⟨ys, l₂⟩ <;> simp only [hvs] at h
      · cases h
      · cases h
        exact ih hvs

/-- After the conversions an update has nothing to word. -/
theorem rejectsQuietly_update (hop : op.values = [v]) (hcall : ∀ e args, op ≠ .functionCall e args)
    (hpass : l.pass (s.world.valueOf r) v = some (y, l')) : op.RejectsQuietly V s r l where
  conversion := by
    rw [hop]
    have hall : l.passAll (s.world.valueOf r) [v] = some ([y], l') := by simp [Loc.passAll, hpass]
    exact wordedFailures_passAll hall
  call e args t f this os argv l' h heq := absurd heq (hcall e args)

/-- The state after the conversions: the runtime of the target has its heap. -/
theorem Follows.heapAfter (h : Follows r s s') (hr : Ready r l' s') (t : Nat) :
    s'.heap t = s.heapAfter r l' t := by
  unfold Store.heapAfter
  by_cases ht : t = r
  · rw [if_pos ht, ht]
    exact hr.heap
  · rw [if_neg ht]
    exact h.others t ht

/-- Quiet conversions leave the arrays of every runtime. -/
theorem array_after {x : JSVal} {n : Nat} {h₀ : P.Heap} (hl : s.world.loc? r = some l) (h : Tidy s)
    (hsilent : E.Silent l.heap l'.heap) (hheap : s.heap t = some h₀) (hx : E.Array h₀ x n) :
    ∃ h₁, s.heapAfter r l' t = some h₁ ∧ E.Array h₁ x n := by
  unfold Store.heapAfter
  by_cases ht : t = r
  · rw [ht, (h.ready hl).heap] at hheap
    cases hheap
    exact ⟨l'.heap, if_pos ht, hsilent.array x n hx⟩
  · exact ⟨h₀, by rw [if_neg ht, hheap], hx⟩

/-- An update whose value is converted, and then rejected quietly. -/
theorem update_rejected (h : Tidy s) (hl : s.world.loc? r = some l) (hB : E.Genuine l.heap)
    (hv : v.Sound s.world) (hpass : l.pass (s.world.valueOf r) v = some (y, l')) {rest : JSValueRef → Prog Unit}
    (hrest : ∀ ref s₁, Follows r s s₁ → Ready r l' s₁ → s₁.world.NullOrLive ref.handle →
      (∀ t, s₁.world.valueOf t ref.handle = s.world.sees r t v y) → Rejects E.toScriptView s₁ (rest ref) True) :
    Rejects E.toScriptView s ((JSRuntime.toJSValue (some r) v).bind rest) True := by
  have hready := h.ready hl
  obtain ⟨res, s₁, hrun, -, hpassed⟩ := toJSValue_passed hready (.refl s) hv
  rw [hpass] at hpassed
  obtain ⟨ref, rfl, hready', hlive, -⟩ := hpassed
  have hfollows := toJSValue_follows h hl hrun
  have hquiet : E.QuietRun s s₁ := (ScriptView.quietRun_iff hfollows.others hready.heap hready'.heap).mpr
    (pass_silent hB hpass).quiet
  exact Rejects.after hrun hquiet
    (hrest ref s₁ hfollows hready' hlive (toJSValue_sees hready (.refl s) hv hpass hrun))

/-- An update by a name. -/
theorem memberUpdate_rejected (h : Tidy s) (hl : s.world.loc? r = some l) (hB : E.Genuine l.heap)
    (hv : v.Sound s.world) (hpass : l.pass (s.world.valueOf r) v = some (y, l'))
    (hno : (o.Unsuitable s.world fun _ x => x.isObject = false) ∨
      ∃ t x, o.Denotes s.world t x ∧ s.world.sees r t v y = none)
    (field : String) :
    Rejects E.toScriptView s (JSRuntime.memberUpdate (some r) (.value o) field v) True := by
  refine update_rejected h hl hB hv hpass fun ref s₁ hfollows _ hlive hsees => ?_
  obtain ho | ⟨t, x, hx, hnone⟩ := hno
  · exact setProperty_unsuitable hfollows.tidy (ho.mono hfollows.extend) field ref.handle
  · exact setProperty_refused hfollows.tidy (hx.mono hfollows.extend) hlive ((hsees t).trans hnone) field

/-- An update by an index. -/
theorem elementUpdate_rejected {arg : Any} {i : Int} (h : Tidy s) (hl : s.world.loc? r = some l)
    (hB : E.Genuine l.heap) (hv : v.Sound s.world) (hpass : l.pass (s.world.valueOf r) v = some (y, l'))
    (hi : arg.index? = some i)
    (hno : (o.Unsuitable s.world fun t x => ∃ h, s.heapAfter r l' t = some h ∧ (P.isArray x h).1 = .ok false) ∨
      ∃ t x n h₀, o.Denotes s.world t x ∧ s.heap t = some h₀ ∧ E.Array h₀ x n ∧
        (¬ (0 ≤ i ∧ i < n) ∨ s.world.sees r t v y = none)) :
    Rejects E.toScriptView s (JSRuntime.indexUpdate (some r) (.value o) arg v) True := by
  rw [indexUpdate_eq fun key heq => by rw [heq] at hi; cases hi]
  refine update_rejected h hl hB hv hpass fun ref s₁ hfollows hready hlive hsees => ?_
  have hprog : (do
      let p ← o.pointer
      let index ← jsIndex arg
      setIndex p index (← ref.pointer) : Prog Unit) = .touch [o] (.touch [ref] (setIndex o.handle i ref.handle)) := by
    rw [jsIndex_eq hi]
    rfl
  rw [hprog]
  obtain ho | ⟨t, x, n, h₀, hx, hheap, harray, hno⟩ := hno
  · refine setIndex_unsuitable hfollows.tidy ?_ i ref.handle
    obtain hnull | ⟨t, x, hx, h₀, hheap, hfalse⟩ := ho
    · exact .inl hnull
    · exact .inr ⟨t, x, hx.mono hfollows.extend, h₀, (hfollows.heapAfter hready t).trans hheap, hfalse⟩
  · obtain ⟨h₁, hheap₁, harray₁⟩ := array_after hl h (pass_silent hB hpass) hheap harray
    refine setIndex_array hfollows.tidy (hx.mono hfollows.extend) ((hfollows.heapAfter hready t).trans hheap₁)
      harray₁ hlive ?_
    rwa [hsees t]

/-- An update by what is neither. -/
theorem keyUpdate_rejected {arg : Any} (h : Tidy s) (hl : s.world.loc? r = some l) (hB : E.Genuine l.heap)
    (hv : v.Sound s.world) (hpass : l.pass (s.world.valueOf r) v = some (y, l')) (hbad : arg.BadKey) :
    Rejects E.toScriptView s (JSRuntime.indexUpdate (some r) (.value o) arg v) True := by
  rw [indexUpdate_eq hbad.1]
  refine update_rejected h hl hB hv hpass fun ref s₁ _ _ _ _ => ?_
  obtain ⟨e, he⟩ := jsIndex_none hbad.2
  have hrun : (do
      let p ← o.pointer
      let index ← jsIndex arg
      setIndex p index (← ref.pointer) : Prog Unit).exec.run s₁ = .ok (.error e, s₁) := by
    rw [he]
    rfl
  exact .of_world hrun rfl

/-- A call whose arguments are converted, of what is no function or with an argument that is refused. -/
theorem functionCall_rejected {e : Payload} {args : List Any} {f this : JSVal} (h : Tidy s)
    (hl : s.world.loc? r = some l) (hB : E.Genuine l.heap) (hargs : ∀ v ∈ args, v.Sound s.world)
    (hpass : l.passAll (s.world.valueOf r) args = some (os, l')) (hc : Callee s.world t e f this)
    (hno : f.isFunction = false ∨ none ∈ s.world.seesAll r t args os)
    (hroom : args.length ≤ maxArgs → P.FitsArgv args.length) :
    Rejects E.toScriptView s (JSRuntime.functionCall (some r) e args)
      (∀ argv h, s.world.seesAll r t args os = argv.map some → args.length ≤ maxArgs →
        s.heapAfter r l' t = some h → E.RefusesQuietly h f this argv) := by
  have hready := h.ready hl
  obtain ⟨res, s₁, hrun, hext, hpassed⟩ := toJSValues_passed hready (.refl s) hargs
  rw [hpass] at hpassed
  obtain ⟨refs, rfl, hready', hlive, -⟩ := hpassed
  have hfollows := toJSValues_follows h hl hargs hrun
  have hsees := toJSValues_sees hready (.refl s) hargs hpass hrun t
  have hquiet : E.QuietRun s s₁ := (ScriptView.quietRun_iff hfollows.others hready.heap hready'.heap).mpr
    (passAll_silent hB hpass).quiet
  have hr : ∃ l, s₁.world.loc? r = some l := ⟨l', hready'.loc?⟩
  have hcallee := hc.mono hext
  obtain ⟨function, he, hf⟩ := hcallee.function?
  obtain ⟨lt, hlt⟩ := hfollows.tidy.ready_of_denotes hf
  have hheap : s.heapAfter r l' t = some lt.heap := (hfollows.heapAfter hready' t).symm.trans hlt.heap
  have hlength := toJSValues_length hrun
  by_cases hlen : refs.length ≤ maxArgs
  · have htakes : P.TakesArgs refs.length := ⟨hlen, by rw [hlength]; exact hroom (by omega)⟩
    -- both attempts are made on the runtime of the function
    have attempts {h₁ h₂ : P.Heap}
        (hcall : P.Lost (s.world.seesAll r t args os) (P.call f this) lt.heap h₁)
        (hconstruct : P.Lost (s.world.seesAll r t args os) (P.callConstructor f) h₁ h₂) :
        Rejects E.toScriptView s (JSRuntime.functionCall (some r) e args) (E.Quiet lt.heap h₂) := by
      have values {s₂ : Store P} (hs : Follows t s₁ s₂) :
          refs.map (fun ref => s₂.world.valueOf t ref.handle) = s.world.seesAll r t args os :=
        (List.map_congr_left fun u hu => (hlive u hu).valueOf_eq hs.extend).trans hsees
      refine functionCall_lost h₁ he hfollows.tidy hrun hquiet hlt.heap (fun ref s₂ hreceives hs hheap₂ => ?_)
        fun s₂ hs hheap₂ => ?_
      · exact callValue_lost hs.tidy (hs.opened r hr) hheap₂ (hf.mono hs.extend)
          ((hreceives f this hcallee).mono hs.extend) (fun u hu => (hlive u hu).mono hs.extend) htakes
          (by rwa [values hs])
      · exact constructValue_lost hs.tidy (hs.opened r hr) hheap₂ (hf.mono hs.extend)
          (fun u hu => (hlive u hu).mono hs.extend) htakes (by rwa [values hs])
    obtain ⟨argv, hargv⟩ | hnone := exists_argv_or_none (s.world.seesAll r t args os)
    · have hfalse : f.isFunction = false := hno.resolve_right (by rw [hargv]; simp)
      obtain ⟨h₁, h₂, hcall, hconstruct, hiff⟩ := lost_quiet_iff E lt.heap this argv hfalse
      refine (attempts (by rwa [hargv]) (by rwa [hargv])).congr (hiff.trans ?_)
      constructor
      · intro hq argv' h₀ heq _ hheap₀
        obtain rfl := (List.map_injective_iff.mpr (Option.some_injective _)) (hargv.symm.trans heq)
        cases hheap.symm.trans hheap₀
        exact hq
      · intro hq
        exact hq argv lt.heap hargv (by omega) hheap
    · refine (attempts (.inl ⟨hnone, rfl⟩) (.inl ⟨hnone, rfl⟩)).congr (iff_of_true (.refl _) ?_)
      intro argv _ heq
      rw [heq] at hnone
      simp at hnone
  · have hno' : function.handle = none ∨ maxArgs < refs.length := .inr (not_le.mp hlen)
    refine (functionCall_lost l'.heap he hfollows.tidy hrun hquiet hready'.heap (fun ref s₂ _ hs hheap₂ => ?_)
      fun s₂ hs hheap₂ => ?_).congr (iff_of_true (.refl _) ?_)
    · exact callValue_unreached hs.tidy (hs.opened r hr) hheap₂ hno'
    · exact constructValue_unreached hs.tidy (hs.opened r hr) hheap₂ hno'
    · intro argv _ _ hle
      omega

/-- A call of `NULL`. -/
theorem functionCall_null {e : Payload} {args : List Any} {function : JSValueRef} (h : Tidy s)
    (hl : s.world.loc? r = some l) (hB : E.Genuine l.heap) (hargs : ∀ v ∈ args, v.Sound s.world)
    (hpass : l.passAll (s.world.valueOf r) args = some (os, l')) (he : e.function? = some function)
    (hnull : function.handle = none) :
    Rejects E.toScriptView s (JSRuntime.functionCall (some r) e args) True := by
  have hready := h.ready hl
  obtain ⟨res, s₁, hrun, -, hpassed⟩ := toJSValues_passed hready (.refl s) hargs
  rw [hpass] at hpassed
  obtain ⟨refs, rfl, hready', -, -⟩ := hpassed
  have hfollows := toJSValues_follows h hl hargs hrun
  have hquiet : E.QuietRun s s₁ := (ScriptView.quietRun_iff hfollows.others hready.heap hready'.heap).mpr
    (passAll_silent hB hpass).quiet
  have hr : ∃ l, s₁.world.loc? r = some l := ⟨l', hready'.loc?⟩
  refine (functionCall_lost l'.heap he hfollows.tidy hrun hquiet hready'.heap (fun ref s₂ _ hs hheap₂ => ?_)
    fun s₂ hs hheap₂ => ?_).congr (iff_true_intro (.refl _))
  · exact callValue_unreached hs.tidy (hs.opened r hr) hheap₂ (.inl hnull)
  · exact constructValue_unreached hs.tidy (hs.opened r hr) hheap₂ (.inl hnull)

/-- An update whose value is not converted. -/
theorem update_failed {rest : JSValueRef → Prog Unit} (h : Tidy s) (hl : s.world.loc? r = some l)
    (hB : E.Genuine l.heap) (hpass : l.passAll (s.world.valueOf r) [v] = none) :
    Rejects E.toScriptView s ((JSRuntime.toJSValue (some r) v).bind rest)
      (l.WordedFailures E.toScriptView (s.world.valueOf r) [v]) := by
  have hready := h.ready hl
  have hv : l.pass (s.world.valueOf r) v = none := by
    rcases hv : l.pass (s.world.valueOf r) v with _ | ⟨y, l₁⟩
    · rfl
    · simp [Loc.passAll, hv] at hpass
  obtain ⟨e, s', hrun, hready'⟩ := toJSValue_failed hready hv
  have hfollows := toJSValue_follows h hl hrun
  refine Rejects.bind ⟨e, s', hrun, ?_⟩
  rw [ScriptView.quietRun_iff hfollows.others hready.heap hready'.heap, failed_quiet_iff hB]
  simp only [Loc.WordedFailures, hv]

/-- A call with an argument that is not converted. -/
theorem functionCall_unconverted {e : Payload} {args : List Any} {function : JSValueRef} (h : Tidy s)
    (hl : s.world.loc? r = some l) (hB : E.Genuine l.heap) (he : e.function? = some function)
    (hargs : ∀ v ∈ args, v.Sound s.world) (hfails : l.passAll (s.world.valueOf r) args = none) :
    Rejects E.toScriptView s (JSRuntime.functionCall (some r) e args)
      (l.WordedFailures E.toScriptView (s.world.valueOf r) args) := by
  have hready := h.ready hl
  obtain ⟨exn, s', hrun, hready'⟩ := toJSValues_failed hready (.refl s) hargs hfails
  have hfollows := toJSValues_follows h hl hargs hrun
  refine functionCall_failed he ⟨exn, s', hrun, ?_⟩
  rw [ScriptView.quietRun_iff hfollows.others hready.heap hready'.heap, failedAll_quiet_iff hB]

/-- A conversion that fails. -/
theorem conversion_rejected (h : Tidy s) (hl : s.world.loc? r = some l) (hB : E.Genuine l.heap)
    (hvals : ∀ v ∈ op.values, v.Sound s.world) (hfails : l.passAll (s.world.valueOf r) op.values = none) :
    Rejects E.toScriptView s (op.prog (some r))
      (l.WordedFailures E.toScriptView (s.world.valueOf r) op.values) := by
  cases op with
  | memberUpdate e field v =>
    cases e with
    | value o => exact update_failed h hl hB hfails
    | _ => cases hfails
  | indexUpdate e arg v =>
    cases e with
    | value o => cases arg <;> exact update_failed h hl hB hfails
    | _ => cases hfails
  | functionCall e args =>
    cases e with
    | value o =>
      have he : Payload.function? (.value o) = some o := rfl
      exact functionCall_unconverted h hl hB he hvals hfails
    | method fn receiver =>
      have he : Payload.function? (.method fn receiver) = some fn := rfl
      exact functionCall_unconverted h hl hB he hvals hfails
    | _ => cases hfails
  | _ => cases hfails

/-- A payload that the operation does not take: it throws at once. -/
theorem payload_rejected (hbad : op.BadPayload) :
    Rejects E.toScriptView s (op.prog (some r)) True ∧ op.values = [] := by
  have atOnce {α : Type} {p : Prog α} {e : Exn} (hrun : p.exec.run s = .ok (.error e, s)) :
      Rejects E.toScriptView s p True := .of_world hrun rfl
  cases op with
  | memberUpdate e field v =>
    cases e with
    | value o => exact hbad.elim
    | _ => exact ⟨atOnce rfl, rfl⟩
  | indexUpdate e arg v =>
    cases e with
    | value o => exact hbad.elim
    | _ => exact ⟨atOnce rfl, rfl⟩
  | functionCall e args =>
    cases e with
    | value o => cases hbad
    | method fn receiver => cases hbad
    | _ => exact ⟨atOnce rfl, rfl⟩
  | _ => exact hbad.elim

theorem values_functionCall {e : Payload} {function : JSValueRef} (he : e.function? = some function)
    (args : List Any) : (Op.functionCall e args).values = args := by
  cases e with
  | value ref => rfl
  | method fn receiver => rfl
  | pointer p => cases he
  | other => cases he

/-- A handle is of one runtime. -/
theorem JSValueRef.Denotes.unique_runtime {w : World P} {ref : JSValueRef} {u : Nat} {x y : JSVal}
    (hx : ref.Denotes w t x) (hy : ref.Denotes w u y) : u = t ∧ y = x := by
  obtain ⟨p, hp, i, hi⟩ := hx
  obtain ⟨q, hq, j, hj⟩ := hy
  rw [hp] at hq
  cases hq
  rw [hi] at hj
  cases hj
  exact ⟨rfl, rfl⟩

theorem Callee.unique {w : World P} {e : Payload} {u : Nat} {f f' this this' : JSVal} (h : Callee w t e f this)
    (h' : Callee w u e f' this') : u = t ∧ f' = f ∧ this' = this := by
  cases e with
  | value ref =>
    obtain ⟨ht, hf⟩ := h.1.unique_runtime h'.1
    exact ⟨ht, hf, h'.2.trans h.2.symm⟩
  | method fn receiver =>
    obtain ⟨ht, hf⟩ := h.1.unique_runtime h'.1
    exact ⟨ht, hf, (h.2.unique_runtime h'.2).2⟩
  | pointer p => exact h.elim
  | other => exact h.elim

/-- After the conversions a call has only its refusals to word. -/
theorem rejectsQuietly_call_iff {e : Payload} {args : List Any} {f this : JSVal}
    (hc : Callee s.world t e f this) (hpass : l.passAll (s.world.valueOf r) args = some (os, l')) :
    (Op.functionCall e args).RejectsQuietly V s r l ↔ ∀ argv h, s.world.seesAll r t args os = argv.map some →
      args.length ≤ maxArgs → s.heapAfter r l' t = some h → V.RefusesQuietly h f this argv := by
  obtain ⟨function, he, -⟩ := hc.function?
  constructor
  · intro hq argv h hsees hlen hheap
    exact hq.call e args t f this os argv l' h rfl hc hpass hsees hlen hheap
  · intro hq
    refine ⟨?_, ?_⟩
    · rw [values_functionCall he]
      exact wordedFailures_passAll hpass
    · rintro e' args' t' f' this' os' argv l₁ h heq hc' hpass' hsees hlen hheap
      cases heq
      obtain ⟨rfl, rfl, rfl⟩ := hc.unique hc'
      cases hpass.symm.trans hpass'
      exact hq argv h hsees hlen hheap

end Law

/-! ## A script that replaces the string conversion of errors -/

/-- A heap is whether a script has set `Error.prototype.toString`, and how often that function was started. The
function counts itself in a property. -/
def wordingPlatform : Platform :=
  { Platform.idle (Bool × Nat) (false, 0) with
    getProperty := fun _ key h => (if key = .ofCString (utf8 "BigInt") then .ok bigIntFunction else .ok .undefined, h)
    call := fun f _ argv h => (if f = bigIntFunction then callBigIntFunction argv else .error (.object 9), h)
    callConstructor := fun _ _ h => (.error (.object 9), h)
    toString := fun _ h => (.ok [0x78], if h.1 then (true, h.2 + 1) else h) }

/-- The text of a value is made by the engine, or by the script. -/
theorem wordingPlatform_textHeap (x : JSVal) (h : Bool × Nat) :
    wordingPlatform.textHeap x h = h ∨ h.1 = true ∧ wordingPlatform.textHeap x h = (true, h.2 + 1) := by
  obtain ⟨patched, n⟩ := h
  cases patched with
  | false => cases x <;> exact .inl rfl
  | true => cases x <;> first | exact .inr ⟨rfl, rfl⟩ | exact .inl rfl

/-- Its observers: both are the count. No script of it replaces the global `BigInt`. -/
def wordingView : ScriptView wordingPlatform where
  runs := Prod.snd
  changes := Prod.snd
  bigInt := bigIntFunction
  Genuine _ := True
  Array _ _ _ := False

theorem wordingPlatform_lookup (h : Bool × Nat) : wordingPlatform.getProperty
    (wordingPlatform.globalObject h) (.ofCString (utf8 "BigInt")) h = (.ok bigIntFunction, h) := by
  show (if PropKey.ofCString (utf8 "BigInt") = PropKey.ofCString (utf8 "BigInt") then
    Except.ok bigIntFunction else .ok .undefined, h) = _
  rw [if_pos rfl]

theorem wordingPlatform_call {f : JSVal} (hf : f.isFunction = false) (this : JSVal) (argv : List JSVal)
    (h : Bool × Nat) : wordingPlatform.call f this argv h = (.error (.object 9), h) := by
  have hne : f ≠ bigIntFunction := by
    rintro rfl
    cases hf
  show (if f = bigIntFunction then callBigIntFunction argv else .error (JSVal.object 9), h) = _
  rw [if_neg hne]

theorem wordingView_text (x : JSVal) (h : Bool × Nat) :
    wordingView.After h (wordingPlatform.textHeap x h) := by
  have hle : h.2 ≤ (wordingPlatform.textHeap x h).2 := by
    obtain heq | ⟨-, heq⟩ := wordingPlatform_textHeap x h <;> rw [heq]
    exact Nat.le_succ _
  exact ⟨hle, hle⟩

def wordingEngine : ScriptEngine wordingPlatform where
  toScriptView := wordingView
  lookup {h} _ := by
    have hfound := wordingPlatform_lookup h
    exact ⟨congrArg Prod.fst hfound, by rw [congrArg Prod.snd hfound]; exact .refl h⟩
  newString _ h := .refl h
  callBigInt _ h := .refl h
  isArray _ h := .refl h
  array_isArray no := no.elim
  array_length_le no := no.elim
  array_length no := no.elim
  call this argv no := ⟨_, _, wordingPlatform_call no this argv _, ScriptView.Quiet.after (.refl _)⟩
  construct _ _ := ⟨_, _, rfl, .refl _⟩
  text := wordingView_text

/-- Without the script every text is quiet. -/
theorem wordingView_worded (x : JSVal) (n : Nat) : wordingView.Worded x (false, n) := by
  obtain heq | ⟨hno, -⟩ := wordingPlatform_textHeap x (false, n)
  · unfold ScriptView.Worded
    rw [heq]
    exact .refl _
  · cases hno

/-- A state with a number, before or after the script. -/
def wordingStore (patched : Bool) : Store wordingPlatform :=
  Store.sample wordingPlatform () (patched, 0) (.number (.finite 1))

def wordingLoc (patched : Bool) : Loc wordingPlatform := Loc.sample () (patched, 0)

theorem wordingStore_callee (patched : Bool) :
    Callee (wordingStore patched).world 0 (.value ⟨0, some 0⟩) (.number (.finite 1)) .undefined :=
  ⟨⟨0, rfl, sample_holds _ _ _ _⟩, rfl⟩

theorem wordingStore_rejected (patched : Bool) : Rejected wordingEngine (wordingStore patched) 0 (wordingLoc patched)
    (.functionCall (.value ⟨0, some 0⟩) []) :=
  .call rfl rfl (.inr ⟨0, _, _, wordingStore_callee patched, rfl, fun _ => by decide⟩)

end InteropJs
