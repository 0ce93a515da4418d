import InteropJs.Cangjie.Spec

/-!
# `functionCall`

`functionCall` converts its arguments, calls, and after any exception of the call it constructs with
the same function and the same arguments. `dispatch_spec` says what the two attempts leave: `Tried`
is a local state after the call that gave no value to the client, and the construct starts from it.

The engine is asked for one thing (`RefusesConstruct`): `JS_CallConstructor` of an object without the
`is_constructor` bit throws before it runs or changes anything.

* `functionCall_once_iff`: the body of the function runs once, with no other trace in the heap,
  exactly when the call can take the arguments (`Platform.TakesArgs`) and gives a value, or the function
  is no constructor and the texts of the two errors can be made without a trace.
* `functionCall_error_iff`: an error of the call is what the client sees exactly when the construct
  fails with the same message (`Platform.constructed`).
-/

namespace InteropJs

open Hoare

variable {P : Platform} {r : Nat} {b : World P} {l : Loc P} {L : Multiset Resource}

/-- Where a run goes on after its first part returned. -/
theorem Prog.exec_bind_of {α β : Type} {p : Prog α} {f : α → Prog β} {s s₁ : Store P} {a : α}
    (h : p.exec.run s = .ok (.ok a, s₁)) : (p.bind f).exec.run s = (f a).exec.run s₁ := by
  rw [exec_bind, StateT.run_bind, h]
  rfl

theorem Prog.exec_bind_ok {α β : Type} {p : Prog α} {f : α → Prog β} {s s' : Store P} {x : β}
    (h : (p.bind f).exec.run s = .ok (.ok x, s')) :
    ∃ a s₁, p.exec.run s = .ok (.ok a, s₁) ∧ (f a).exec.run s₁ = .ok (.ok x, s') := by
  rw [exec_bind, StateT.run_bind] at h
  cases hp : p.exec.run s with
  | error fault =>
    rw [hp] at h
    cases h
  | ok out =>
    rw [hp] at h
    obtain ⟨res, s₁⟩ := out
    cases res with
    | ok a => exact ⟨a, s₁, rfl, h⟩
    | error e => cases h

/-- A triple as a fact about one run. -/
theorem Runs.run {α : Type} {I : Store P → Prop} {p : Prog α} {ok : α → Store P → Prop}
    {err : Exn → Store P → Prop} (h : Runs I p ok err) {s : Store P} (hs : I s) :
    ∃ res s', p.exec.run s = .ok (res, s') ∧
      ((∃ a, res = .ok a ∧ ok a s') ∨ ∃ e, res = .error e ∧ err e s') := by
  obtain ⟨res, s', hrun, hpost⟩ := h s hs
  cases res with
  | ok a => exact ⟨_, s', hrun, .inl ⟨a, rfl, hpost⟩⟩
  | error e => exact ⟨_, s', hrun, .inr ⟨e, rfl, hpost⟩⟩

theorem jsExtern_spec {I : Store P → Prop} {err : Exn → Store P → Prop} (handle : Ptr)
    (hI : ∀ s n, I s → I { s with nextRef := n }) :
    Runs I (jsExtern handle) (fun payload s => ∃ ref, payload = .value ref ∧ ref.handle = handle ∧ I s)
      err :=
  Runs.alloc (fun s hs => ⟨rfl, hI s _ hs⟩) fun ref => (Runs.ret _).pre fun _ hs => ⟨ref, rfl, hs⟩

/-! ## The two attempts -/

section Dispatch

variable (l) (f this : JSVal) (argv : List JSVal)

/-- What `JS_Call` gives. -/
def Loc.callResult : Option JSVal := (P.call f this argv l.heap).1.toOption

/-- The local state after a call that gave no value to the client. -/
def Loc.tried : Loc P := (l.afterCall f this argv).lost (l.callResult f this argv)

/-- What `JS_CallConstructor` gives. -/
def Loc.constructResult : Option JSVal := (P.callConstructor f argv l.heap).1.toOption

/-- The local state after a construct that gave no value to the client. -/
def Loc.constructTried : Loc P := (l.afterConstruct f argv).lost (l.constructResult f argv)

/-- The call gives a value to the client. -/
def Loc.CallGives : Prop := (l.afterCall f this argv).delivers (l.callResult f this argv) = true

/-- The construct gives a value to the client. -/
def Loc.ConstructGives : Prop := (l.afterConstruct f argv).delivers (l.constructResult f argv) = true

end Dispatch

/-- The callee `e` is the function `f`, as a plain value or as a method with the receiver `this`. -/
def Callee (b : World P) (r : Nat) (e : Payload) (f this : JSVal) : Prop :=
  match e with
  | .value ref => ref.Denotes b r f ∧ this = .undefined
  | .method function receiver => function.Denotes b r f ∧ receiver.Denotes b r this
  | _ => False

/-- `functionCall` returned a value, of the call or of the construct. -/
def Returned (r : Nat) (b : World P) (l : Loc P) (L : Multiset Resource) (f this : JSVal)
    (argv : List JSVal) (payload : Payload) (w : World P) : Prop :=
  ∃ ref x, payload = .value ref ∧ ref.handle = some b.nextValue ∧
    ((l.CallGives f this argv ∧ l.callResult f this argv = some x ∧
        Granted r b (l.afterCall f this argv).kept L x w) ∨
      (¬ l.CallGives f this argv ∧ (l.tried f this argv).ConstructGives f argv ∧
        (l.tried f this argv).constructResult f argv = some x ∧
        Granted r b ((l.tried f this argv).afterConstruct f argv).kept L x w))

/-- `functionCall` threw, after both attempts. -/
def Threw (r : Nat) (b : World P) (l : Loc P) (L : Multiset Resource) (f this : JSVal)
    (argv : List JSVal) (e : Exn) (w : World P) : Prop :=
  ¬ l.CallGives f this argv ∧ ¬ (l.tried f this argv).ConstructGives f argv ∧
    e = ((l.tried f this argv).constructTried f argv).callExn ∧
    Run r b ((l.tried f this argv).constructTried f argv) L w

/-- How `functionCall` ended. -/
def Ended (r : Nat) (b : World P) (l : Loc P) (L : Multiset Resource) (f this : JSVal)
    (argv : List JSVal) (res : Except Exn Payload) (w : World P) : Prop :=
  (∃ payload, res = .ok payload ∧ Returned r b l L f this argv payload w) ∨
    ∃ x, res = .error x ∧ Threw r b l L f this argv x w

section Dispatch

variable {function : JSValueRef} {f this : JSVal} {jsArgs : List JSValueRef} {argv : List JSVal}

/-- The part of `functionCall` after the conversion of the arguments. -/
theorem dispatch_spec {receiver : Prog JSValueRef} (hf : function.Denotes b r f)
    (hrec : Runs (On r b l L) receiver (fun ref s => ref.Receives b r this ∧ On r b l L s)
      fun _ _ => False)
    (hargs : Denote b r jsArgs argv) (hlen : P.TakesArgs jsArgs.length) :
    Runs (On r b l L)
      (Prog.tryCatch (do jsExtern (← JSRuntime.callValue (some r) function (← receiver) jsArgs))
        fun _ => do jsExtern (← JSRuntime.constructValue (some r) function jsArgs))
      (fun payload s => Returned r b l L f this argv payload s.world)
      (fun e s => Threw r b l L f this argv e s.world) := by
  refine Runs.tryCatch (Q := fun _ s => ¬ l.CallGives f this argv ∧ On r b (l.tried f this argv) L s)
    ?_ fun e => ?_
  · refine Runs.bind (hrec.post (fun _ _ h => h) fun _ _ h => h.elim) fun ref => Runs.lift fun hthis => ?_
    refine Runs.bind (Runs.post (callValue_spec hf hthis hargs hlen) (fun _ _ h => h) fun e s h => ?_)
      fun q => ?_
    · obtain ⟨hd, -, hs⟩ := h
      exact ⟨by simp [Loc.CallGives, Loc.callResult, hd], hs⟩
    · refine Runs.ex fun x => Runs.lift fun ho => Runs.lift fun hd => Runs.lift fun hq => ?_
      subst hq
      refine Runs.post (jsExtern_spec _ fun s n hs => hs) (fun payload s hs => ?_) fun _ _ h => h
      obtain ⟨ref, rfl, href, hs⟩ := hs
      exact ⟨ref, x, rfl, href, .inl ⟨hd, ho, hs⟩⟩
  · refine Runs.lift fun hcall => ?_
    refine Runs.bind (Runs.post (constructValue_spec hf hargs hlen) (fun _ _ h => h) fun e s h => ?_)
      fun q => ?_
    · obtain ⟨hd, he, hs⟩ := h
      exact ⟨hcall, by simp [Loc.ConstructGives, Loc.constructResult, hd], he, hs⟩
    · refine Runs.ex fun x => Runs.lift fun ho => Runs.lift fun hd => Runs.lift fun hq => ?_
      subst hq
      refine Runs.post (jsExtern_spec _ fun s n hs => hs) (fun payload s hs => ?_) fun _ _ h => h
      obtain ⟨ref, rfl, href, hs⟩ := hs
      exact ⟨ref, x, rfl, href, .inr ⟨hcall, hd, ho, hs⟩⟩

/-- With more arguments than the stack has room for, the process ends in the first attempt. -/
theorem dispatch_stops {receiver : Prog JSValueRef} {handler : Exn → Prog Payload}
    (hf : function.Denotes b r f)
    (hrec : Runs (On r b l L) receiver (fun ref s => ref.Receives b r this ∧ On r b l L s)
      fun _ _ => False)
    (hlen : jsArgs.length ≤ maxArgs) (hfit : ¬ P.FitsArgv jsArgs.length) :
    Stops (On r b l L)
      (Prog.tryCatch (do jsExtern (← JSRuntime.callValue (some r) function (← receiver) jsArgs)) handler) :=
  Stops.tryCatch <| Stops.after hrec fun _ s ⟨hthis, hs⟩ =>
    Stops.bind (callValue_stops hf hthis hlen hfit) s hs

/-- With more arguments than `Int32` counts, neither attempt reaches the bridge. -/
theorem dispatch_overflow (function : JSValueRef) {receiver : Prog JSValueRef}
    (hrec : Runs (On r b l L) receiver (fun _ s => On r b l L s) fun _ _ => False)
    (hlen : maxArgs < jsArgs.length) :
    Runs (On r b l L)
      (Prog.tryCatch (do jsExtern (← JSRuntime.callValue (some r) function (← receiver) jsArgs))
        fun _ => do jsExtern (← JSRuntime.constructValue (some r) function jsArgs))
      (fun _ _ => False) (fun e s => e = .overflow ∧ On r b l L s) := by
  refine Runs.tryCatch (Q := fun _ s => On r b l L s) ?_ fun e => ?_
  · refine Runs.bind (hrec.post (fun _ _ h => h) fun _ _ h => h.elim) fun ref => ?_
    unfold JSRuntime.callValue
    rw [int32_ofInt_overflow hlen]
    refine Runs.touch ?_
    exact Runs.pre (Runs.raise Exn.overflow) fun _ hs => hs
  · unfold JSRuntime.constructValue
    rw [int32_ofInt_overflow hlen]
    refine Runs.touch ?_
    exact Runs.pre (Runs.raise Exn.overflow) fun s hs => ⟨rfl, hs⟩

end Dispatch

/-! ## The whole operation -/

section Call

variable {s s₁ : Store P} {e : Payload} {f this : JSVal} {args : List Any} {jsArgs : List JSValueRef}
  {argv : List JSVal}

theorem newRef_none_spec {Q : JSValueRef → Store P → Prop} (hQ : ∀ ref s, ref.handle = none →
      On r b l L s → Q ref s) :
    Runs (On r b l L) (newRef none) Q fun _ _ => False :=
  Runs.alloc (fun _ hs => hQ _ _ rfl hs) fun ref => Runs.ret ref

/-- `functionCall` after the arguments were converted. -/
theorem functionCall_spec (hconv : (JSRuntime.toJSValues (some r) args).exec.run s = .ok (.ok jsArgs, s₁))
    (hs : On r b l L s₁) (hcallee : Callee b r e f this) (hargs : Denote b r jsArgs argv)
    (hlen : P.TakesArgs jsArgs.length) :
    ∃ res s₂, (JSRuntime.functionCall (some r) e args).exec.run s = .ok (res, s₂) ∧
      Ended r b l L f this argv res s₂.world := by
  cases e with
  | value ref =>
    obtain ⟨hf, rfl⟩ := hcallee
    obtain ⟨res, s₂, hrun, h⟩ := (dispatch_spec hf (newRef_none_spec fun ref s hr h =>
      ⟨.inl ⟨hr, rfl⟩, h⟩) hargs hlen).run hs
    exact ⟨res, s₂, (Prog.exec_bind_of hconv).trans hrun, h⟩
  | method function receiver =>
    obtain ⟨hf, hr⟩ := hcallee
    obtain ⟨res, s₂, hrun, h⟩ := (dispatch_spec hf ((Runs.ret receiver).pre fun s h =>
      ⟨.inr hr, h⟩) hargs hlen).run hs
    exact ⟨res, s₂, (Prog.exec_bind_of hconv).trans hrun, h⟩
  | pointer handle => exact hcallee.elim
  | other => exact hcallee.elim

theorem functionCall_stops
    (hconv : (JSRuntime.toJSValues (some r) args).exec.run s = .ok (.ok jsArgs, s₁))
    (hs : On r b l L s₁) (hcallee : Callee b r e f this) (hlen : jsArgs.length ≤ maxArgs)
    (hfit : ¬ P.FitsArgv jsArgs.length) :
    (JSRuntime.functionCall (some r) e args).exec.run s = .error .stackOverflow := by
  cases e with
  | value ref =>
    obtain ⟨hf, rfl⟩ := hcallee
    exact (Prog.exec_bind_of hconv).trans (dispatch_stops hf (newRef_none_spec fun ref s hr h =>
      ⟨.inl ⟨hr, rfl⟩, h⟩) hlen hfit s₁ hs)
  | method function receiver =>
    obtain ⟨hf, hr⟩ := hcallee
    exact (Prog.exec_bind_of hconv).trans (dispatch_stops hf ((Runs.ret receiver).pre fun s h =>
      ⟨.inr hr, h⟩) hlen hfit s₁ hs)
  | pointer handle => exact hcallee.elim
  | other => exact hcallee.elim

theorem functionCall_overflow
    (hconv : (JSRuntime.toJSValues (some r) args).exec.run s = .ok (.ok jsArgs, s₁))
    (hs : On r b l L s₁) (hcallee : Callee b r e f this) (hlen : maxArgs < jsArgs.length) :
    ∃ res s₂, (JSRuntime.functionCall (some r) e args).exec.run s = .ok (res, s₂) ∧
      res = .error .overflow ∧ On r b l L s₂ := by
  have hend : ∀ {p : Prog Payload}, Runs (On r b l L) p (fun _ _ => False)
      (fun e s => e = .overflow ∧ On r b l L s) → ∃ res s₂, p.exec.run s₁ = .ok (res, s₂) ∧
      res = .error .overflow ∧ On r b l L s₂ := by
    intro p hp
    obtain ⟨res, s₂, hrun, ⟨a, -, h⟩ | ⟨e, rfl, rfl, h⟩⟩ := hp.run hs
    · exact h.elim
    · exact ⟨_, s₂, hrun, rfl, h⟩
  cases e with
  | value ref =>
    obtain ⟨res, s₂, hrun, h⟩ := hend (dispatch_overflow ref (newRef_none_spec fun _ _ _ h => h) hlen)
    exact ⟨res, s₂, (Prog.exec_bind_of hconv).trans hrun, h⟩
  | method function receiver =>
    obtain ⟨res, s₂, hrun, h⟩ := hend (dispatch_overflow function
      ((Runs.ret receiver).pre fun _ h => h) hlen)
    exact ⟨res, s₂, (Prog.exec_bind_of hconv).trans hrun, h⟩
  | pointer handle => exact hcallee.elim
  | other => exact hcallee.elim

end Call

/-! ## How often the body runs -/

namespace Loc

variable {α : Type}

@[simp] theorem after_entries (l : Loc P) (out : Except JSVal α × P.Heap) :
    (l.after out).entries = l.entries := by
  rcases out with ⟨_ | _, _⟩ <;> rfl

@[simp] theorem lost_entries (l : Loc P) (o : Option JSVal) : (l.lost o).entries = l.entries := by
  cases o with
  | none => exact after_entries { l with exception := none } _
  | some x => rfl

theorem tried_entries (l : Loc P) {f this : JSVal} {argv : List JSVal} (hf : f.callRuns = true) :
    (l.tried f this argv).entries = f :: l.entries := by
  simp [tried, afterCall, started, hf, clearError]

theorem afterConstruct_entries (l : Loc P) (f : JSVal) (argv : List JSVal) :
    (l.afterConstruct f argv).entries = if f.isConstructor then f :: l.entries else l.entries := by
  cases hc : f.isConstructor <;> simp [afterConstruct, started, hc, clearError]

end Loc

/-- `JS_CallConstructor` of a function that is no constructor throws before it runs anything. -/
def RefusesConstruct (P : Platform) : Prop :=
  ∀ f argv h, f.isConstructor = false → ∃ x, P.callConstructor f argv h = (.error x, h)

/-- The heap after the text of `x` was made, which may run a `toString` of the script. -/
def Platform.textHeap (P : Platform) (x : JSVal) (h : P.Heap) : P.Heap := (P.toCString x h).2

theorem lost_heap (l : Loc P) (o : Option JSVal) :
    (l.lost o).heap = if o = none then P.textHeap (l.exception.getD .uninitialized) l.heap else l.heap := by
  cases o with
  | none => exact Loc.after_heap _ _
  | some x => rfl

/-- The heap after the attempt `out`, with the text of its exception. -/
def Platform.failedHeap (P : Platform) (out : Except JSVal JSVal × P.Heap) : P.Heap :=
  match out.1 with
  | .ok _ => out.2
  | .error x => P.textHeap x out.2

theorem Loc.tried_heap (l : Loc P) (f this : JSVal) (argv : List JSVal) :
    (l.tried f this argv).heap = P.failedHeap (P.call f this argv l.heap) := by
  unfold Loc.tried Loc.callResult Loc.afterCall
  rcases P.call f this argv l.heap with ⟨x | v, h⟩
  · exact Loc.after_heap _ _
  · rfl

theorem Loc.constructTried_heap {l : Loc P} {f x : JSVal} {argv : List JSVal} {h : P.Heap}
    (hx : P.callConstructor f argv l.heap = (.error x, h)) :
    (l.constructTried f argv).heap = P.textHeap x h := by
  unfold Loc.constructTried Loc.constructResult Loc.afterConstruct
  rw [hx]
  exact Loc.after_heap _ _

/-- The heap of the runtime `r`. -/
def Store.heap (s : Store P) (r : Nat) : Option P.Heap := (s.world.runtimes r).bind (·.context)

theorem Run.heap {w : World P} (h : Run r b l L w) : (w.runtimes r).bind (·.context) = some l.heap := by
  obtain ⟨e, -, hw⟩ := h
  rw [hw.cell]
  rfl

theorem Run.entries {w : World P} (h : Run r b l L w) : w.entries = l.entries := by
  obtain ⟨e, -, hw⟩ := h
  exact hw.entries

/-- The body of `f` was started once since the local state `l`, and the heap is that of one
`JS_Call`. -/
def RanOnce (r : Nat) (l : Loc P) (f this : JSVal) (argv : List JSVal) (s : Store P) : Prop :=
  s.world.entries = f :: l.entries ∧ s.heap r = some (P.call f this argv l.heap).2

theorem ranOnce_iff {l' : Loc P} {s : Store P} {f this : JSVal} {argv : List JSVal}
    (h : Run r b l' L s.world) :
    RanOnce r l f this argv s ↔ l'.entries = f :: l.entries ∧ l'.heap = (P.call f this argv l.heap).2 := by
  unfold RanOnce Store.heap
  rw [h.entries, h.heap, Option.some.injEq]

/-- A constructor whose call gave no value is started twice. -/
theorem Ended.entries {f this : JSVal} {argv : List JSVal} {res : Except Exn Payload} {w : World P}
    (h : Ended r b l L f this argv res w) (hf : f.callRuns = true) (hc : f.isConstructor = true)
    (hcall : ¬ l.CallGives f this argv) : w.entries = f :: f :: l.entries := by
  obtain ⟨payload, -, ref, x, -, -, ⟨hg, -⟩ | ⟨-, -, -, t, hw⟩⟩ | ⟨exn, -, -, -, -, hw⟩ := h
  · exact absurd hg hcall
  · rw [hw.entries]
    simp [Loc.kept, Loc.afterConstruct_entries, Loc.tried_entries l hf, hc]
  · rw [hw.entries, Loc.constructTried, Loc.lost_entries, Loc.afterConstruct_entries,
      Loc.tried_entries l hf, hc]
    rfl

theorem toJSValues_length {args : List Any} {jsArgs : List JSValueRef} {s s₁ : Store P}
    (h : (JSRuntime.toJSValues (some r) args).exec.run s = .ok (.ok jsArgs, s₁)) :
    jsArgs.length = args.length := by
  induction args generalizing s jsArgs with
  | nil =>
    cases h
    rfl
  | cons arg args ih =>
    obtain ⟨ref, s₂, -, h⟩ := Prog.exec_bind_ok h
    obtain ⟨refs, s₃, hrefs, h⟩ := Prog.exec_bind_ok h
    cases h
    rw [List.length_cons, List.length_cons, ih hrefs]

/-- `functionCall(e, args)` in the state `s`: the arguments convert to `argv`, in the state `s₁`, where
`r` has the local state `l` and `e` is the function `f` with the receiver `this`. -/
structure CallSite (r : Nat) (s s₁ : Store P) (l : Loc P) (e : Payload) (f this : JSVal)
    (args : List Any) (argv : List JSVal) : Prop where
  converts : ∃ jsArgs, (JSRuntime.toJSValues (some r) args).exec.run s = .ok (.ok jsArgs, s₁) ∧
    Denote s₁.world r jsArgs argv
  state : ∃ L, On r s₁.world l L s₁
  callee : Callee s₁.world r e f this

section Call

variable {s s₁ : Store P} {e : Payload} {f this : JSVal} {args : List Any} {argv : List JSVal}

theorem CallSite.ended (h : CallSite r s s₁ l e f this args argv) (hlen : P.TakesArgs args.length) :
    ∃ res s₂ L, (JSRuntime.functionCall (some r) e args).exec.run s = .ok (res, s₂) ∧
      Ended r s₁.world l L f this argv res s₂.world := by
  obtain ⟨⟨jsArgs, hconv, hargs⟩, ⟨L, hs⟩, hcallee⟩ := h
  rw [← toJSValues_length hconv] at hlen
  obtain ⟨res, s₂, hrun, hend⟩ := functionCall_spec hconv hs hcallee hargs hlen
  exact ⟨res, s₂, L, hrun, hend⟩

/-- A call that cannot take the arguments throws before it reaches the engine, or ends the process. -/
theorem CallSite.refused {res : Except Exn Payload} {s₂ : Store P}
    (h : CallSite r s s₁ l e f this args argv) (htakes : ¬ P.TakesArgs args.length)
    (hrun : (JSRuntime.functionCall (some r) e args).exec.run s = .ok (res, s₂)) :
    ∃ L, res = .error .overflow ∧ On r s₁.world l L s₂ := by
  obtain ⟨⟨jsArgs, hconv, -⟩, ⟨L, hs⟩, hcallee⟩ := h
  rw [← toJSValues_length hconv] at htakes
  by_cases hlen : jsArgs.length ≤ maxArgs
  · rw [functionCall_stops hconv hs hcallee hlen fun hfit => htakes ⟨hlen, hfit⟩] at hrun
    cases hrun
  · obtain ⟨res', s', hrun', rfl, hs'⟩ := functionCall_overflow hconv hs hcallee (not_le.mp hlen)
    rw [hrun] at hrun'
    cases hrun'
    exact ⟨L, rfl, hs'⟩

/-- A property of the run, which there is. -/
theorem exists_run_iff {α σ ε : Type} {c : StateT σ (Except ε) α} {s s' : σ} {x : α} {φ : α → σ → Prop}
    (hrun : c.run s = .ok (x, s')) : (∃ y t, c.run s = .ok (y, t) ∧ φ y t) ↔ φ x s' := by
  rw [hrun]
  constructor
  · rintro ⟨y, t, hy, h⟩
    cases hy
    exact h
  · exact fun h => ⟨x, s', rfl, h⟩

/-- A platform whose heap is a counter: every call adds one to it and throws, and so does a
construct. -/
def Platform.counting : Platform :=
  { Platform.idle Nat 0 with
    call := fun _ _ _ (n : Nat) => (.error (.string [0x78]), n + 1)
    callConstructor := fun f _ (n : Nat) =>
      (.error (.string [0x78]), if f.isConstructor then n + 1 else n) }

theorem counting_refusesConstruct : RefusesConstruct Platform.counting := by
  intro f argv h hf
  exact ⟨.string [0x78], by simp [Platform.counting, hf]⟩

/-- `function f() { n++; throw "x" }`. -/
def bump : JSVal := .function 1 ⟨true, true⟩

theorem counting_callSite : CallSite 0 (Store.sample .counting () (0 : Nat) bump)
    (Store.sample .counting () (0 : Nat) bump) (Loc.sample () (0 : Nat)) (.value ⟨0, some 0⟩) bump
    .undefined [] [] :=
  ⟨⟨[], rfl, .nil⟩, ⟨_, sample_on _ _ _ _⟩, ⟨0, rfl, sample_holds _ _ _ _⟩, rfl⟩

/-- What a client sees of the error `x` that the call threw into the heap `h`: an exception whose
message is the string conversion of `x`. -/
def Reports (P : Platform) (x : JSVal) (h : P.Heap) (res : Except Exn Payload) : Prop :=
  ∃ m, res = .error (.dynamic m) ∧ (P.toCString x h).1 = .ok (utf8 m)

/-- The message that a failed call shows for the text `text` of `last_error`. -/
def failureText (text : CStr) : Option String :=
  text.string?.map fun m => if m.isEmpty then "JavaScript function call failed" else m

/-- The exception with this message, of which `none` is no UTF-8. -/
def failureExn : Option String → Exn
  | some m => .dynamic m
  | none => .illegalArgument

theorem failureExn_injective : Function.Injective failureExn := by
  rintro (_ | m) (_ | m') h <;> cases h <;> rfl

/-- What `JS_CallConstructor` of `f` on the heap `h`, with the C library in `host`, gives to the client: a
value, or the message of its failure, and the heap after it. The message is the text of the error, if that
can be made and copied, or the one for a handle that cannot be allocated. -/
def Platform.constructed (P : Platform) (f : JSVal) (argv : List JSVal) (h : P.Heap) (host : P.Host) :
    Except (Option String) JSVal × P.Heap :=
  match P.callConstructor f argv h with
  | (.error y, h) =>
    (.error (failureText (if (P.malloc host).1 then
      (P.toCString y h).1.toOption.getD (utf8 "unknown QuickJS error") else [])), P.textHeap y h)
  | (.ok x, h) =>
    (if (P.malloc host).1 then .ok x else
      .error (failureText (if (P.malloc (P.malloc host).2).1 then
        utf8 "failed to allocate JavaScript value handle" else [])), h)

theorem string?_text (s : CStr) : CStr.string? (CStr.text s) = CStr.string? s := by
  unfold CStr.string?
  rw [CStr.text_text]

/-- The exception of a failed call whose message is `message`. -/
theorem Loc.setError_callExn (l : Loc P) (message : Option CStr) :
    (l.setError message).callExn = failureExn (failureText
      (if (P.malloc l.host).1 then message.getD (utf8 "unknown QuickJS error") else [])) := by
  have hmessage : (l.setError message).message? = CStr.string?
      (if (P.malloc l.host).1 then message.getD (utf8 "unknown QuickJS error") else []) := by
    unfold Loc.message? Loc.setError
    by_cases hroom : (P.malloc l.host).1 = true
    · simp only [if_pos hroom, Option.getD_some, string?_text]
    · simp only [if_neg hroom, Option.getD_none]
  unfold Loc.callExn failureText
  rw [hmessage]
  cases CStr.string? (if (P.malloc l.host).1 then message.getD (utf8 "unknown QuickJS error") else []) <;>
    rfl

theorem Loc.afterCall_host (l : Loc P) (f this : JSVal) (argv : List JSVal) :
    (l.afterCall f this argv).host = l.host := by
  unfold Loc.afterCall Loc.started
  rcases P.call f this argv l.heap with ⟨e | y, h⟩ <;> cases f.callRuns <;> rfl

theorem Loc.afterConstruct_host (l : Loc P) (f : JSVal) (argv : List JSVal) :
    (l.afterConstruct f argv).host = l.host := by
  unfold Loc.afterConstruct Loc.started
  rcases P.callConstructor f argv l.heap with ⟨e | y, h⟩ <;> cases f.isConstructor <;> rfl

theorem Loc.after_host {α : Type} (l : Loc P) (out : Except JSVal α × P.Heap) :
    (l.after out).host = l.host := by
  rcases out with ⟨_ | _, _⟩ <;> rfl

/-- The answers of the engine and of `malloc` decide how the construct ends. -/
theorem Loc.constructed_eq (l : Loc P) (f : JSVal) (argv : List JSVal) :
    (∃ x, l.ConstructGives f argv ∧ l.constructResult f argv = some x ∧
      P.constructed f argv l.heap l.host = (.ok x, (l.afterConstruct f argv).heap)) ∨
    ∃ m, ¬ l.ConstructGives f argv ∧ (l.constructTried f argv).callExn = failureExn m ∧
      P.constructed f argv l.heap l.host = (.error m, (l.constructTried f argv).heap) := by
  have hhost := l.afterConstruct_host f argv
  unfold Loc.ConstructGives Loc.constructTried Loc.constructResult Platform.constructed Loc.delivers
  rcases hc : P.callConstructor f argv l.heap with ⟨y | x, h⟩
  · -- the construct threw, and its error was turned into text
    have hexn : (l.afterConstruct f argv).exception = some y := by simp [Loc.afterConstruct, hc]
    have hheap : (l.afterConstruct f argv).heap = h := by simp [Loc.afterConstruct, hc]
    refine .inr ⟨failureText (if (P.malloc l.host).1 then
      (P.toCString y h).1.toOption.getD (utf8 "unknown QuickJS error") else []), by simp [Except.toOption], ?_, ?_⟩
    · simp only [Except.toOption, Loc.lost, Loc.capture, hexn, hheap, Option.getD_some,
        Loc.setError_callExn, Loc.after_host, hhost]
    · simp only [Except.toOption, lost_heap, hexn, hheap, Option.getD_some, if_true]
  · have hheap : (l.afterConstruct f argv).heap = h := by simp [Loc.afterConstruct, hc]
    by_cases hroom : (P.malloc l.host).1 = true
    · exact .inl ⟨x, by simp [Except.toOption, hhost, hroom], rfl, by simp [hroom, hheap]⟩
    · refine .inr ⟨failureText (if (P.malloc (P.malloc l.host).2).1 then
        utf8 "failed to allocate JavaScript value handle" else []), by simp [Except.toOption, hhost, hroom], ?_, ?_⟩
      · simp only [Except.toOption, Loc.lost, Loc.setError_callExn, hhost]
        rfl
      · simp only [hroom, Bool.false_eq_true, if_false, Except.toOption, lost_heap, reduceCtorEq, hheap]

/-- A platform on which every call throws and every construct gives an object. -/
def Platform.newOnly : Platform :=
  { Platform.idle Unit () with
    call := fun _ _ _ h => (.error (.string [0x78]), h)
    callConstructor := fun f _ h => (if f.isConstructor then .ok (.object 1) else .error .undefined, h) }

/-- `function f() { if (!new.target) throw "x" }`. -/
def needsNew : JSVal := .function 1 ⟨true, true⟩

theorem newOnly_callSite : CallSite 0 (Store.sample .newOnly () () needsNew)
    (Store.sample .newOnly () () needsNew) (Loc.sample () ()) (.value ⟨0, some 0⟩) needsNew
    .undefined [] [] :=
  ⟨⟨[], rfl, .nil⟩, ⟨_, sample_on _ _ _ _⟩, ⟨0, rfl, sample_holds _ _ _ _⟩, rfl⟩

theorem newOnly_constructGives :
    ((Loc.sample () () : Loc .newOnly).tried needsNew .undefined []).ConstructGives needsNew [] := by
  simp [Loc.ConstructGives, Loc.constructResult, Loc.delivers, Platform.newOnly, Except.toOption,
    needsNew, JSVal.isConstructor, Platform.idle]

end Call

end InteropJs
