import InteropJs.Cangjie.Runtime

/-!
# Specs of the Cangjie functions

The functions of `quickJSRuntime.cj` on an open runtime `r`, as `Runs` triples over its local state
(`On`). A function that wraps a handle of the bridge ends in one of two ways (`Answer.cases`): with a
new handle, in the local state `Loc.kept`, or with `NULL`, in `Loc.lost`.
-/

namespace InteropJs

open Hoare

variable {P : Platform} {r : Nat} {b : World P} {l : Loc P} {L : Multiset Resource}

/-- The runtime `r` has the local state `l` (`Run`). -/
def On (r : Nat) (b : World P) (l : Loc P) (L : Multiset Resource) (s : Store P) : Prop :=
  Run r b l L s.world

/-- A bridge call, from its spec. -/
theorem Runs.call {α β : Type} {rs : List JSValueRef} {c : Call β} {k : β → Prog α}
    {Q : β → World P → Prop} {ok : α → Store P → Prop} {err : Exn → Store P → Prop}
    (hc : Triple (Run r b l L) c.run Q) (h : ∀ x, Runs (fun s => Q x s.world) (k x) ok err) :
    Runs (On r b l L) (Prog.native rs c k) ok err := Runs.native hc h

/-! ## How a function that returns a handle ends -/

/-- Whether a result of the engine reaches the client in a handle. -/
def Loc.delivers (l : Loc P) (o : Option JSVal) : Bool := o.isSome && (P.malloc l.host).1

/-- The local state with one more handle. -/
def Loc.kept (l : Loc P) : Loc P := { l with host := (P.malloc l.host).2, count := l.count + 1 }

/-- The local state after `NULL` was returned: the engine threw, or the handle has no memory. -/
def Loc.lost (l : Loc P) (o : Option JSVal) : Loc P :=
  match o with
  | none => l.capture
  | some _ => { l with host := (P.malloc l.host).2 }.setError
      (utf8 "failed to allocate JavaScript value handle")

/-- The world `b` with a new handle of `r` that denotes `x`. -/
def Granted (r : Nat) (b : World P) (l : Loc P) (L : Multiset Resource) (x : JSVal) (w : World P) : Prop :=
  ∃ t, Run r (b.addValue ⟨some r, .ref x t⟩) l (L + {.jsValue t}) w

theorem Answer.cases {o : Option JSVal} {p : Ptr} {w : World P} (h : Answer r b L o l p w) :
    (∃ x, o = some x ∧ l.delivers o = true ∧ p = some b.nextValue ∧ Granted r b l.kept L x w) ∨
      l.delivers o = false ∧ p = none ∧ Run r b (l.lost o) L w := by
  cases o with
  | none => exact .inr ⟨rfl, h⟩
  | some x =>
    obtain ⟨t, ht⟩ := h
    unfold Delivered at ht
    by_cases hm : (P.malloc l.host).1 = true
    · rw [if_pos hm] at ht
      exact .inl ⟨x, rfl, hm, ht.1, t, ht.2⟩
    · rw [if_neg hm] at ht
      exact .inr ⟨by simpa [Loc.delivers] using hm, ht⟩

/-! ## Errors -/

theorem cStringToString_spec {I : Store P → Prop} (s : CStr) :
    Runs I (cStringToString s) (fun m st => s.string? = some m ∧ I st)
      (fun e st => s.string? = none ∧ e = .illegalArgument ∧ I st) := by
  unfold cStringToString
  cases h : s.string? with
  | some m => exact (Runs.ret m).pre fun st hst => ⟨rfl, hst⟩
  | none => exact (Runs.raise _).pre fun st hst => ⟨rfl, rfl, hst⟩

/-- The text of `last_error`, if it is one. -/
def Loc.message? (l : Loc P) : Option String := CStr.string? (l.error.getD [])

theorem runtimeError_spec :
    Runs (On r b l L) (runtimeError (some r)) (fun m s => l.message? = some m ∧ On r b l L s)
      (fun e s => l.message? = none ∧ e = .illegalArgument ∧ On r b l L s) := by
  refine Runs.call jsRuntimeLastError_spec fun bytes => Runs.lift fun hb => ?_
  subst hb
  exact cStringToString_spec _

/-- The exception that a failed `evalScript`, `getModule` or `toJSValue` throws. -/
def Loc.runtimeExn (l : Loc P) : Exn :=
  match l.message? with
  | some m => .dynamic m
  | none => .illegalArgument

/-- The exception that a failed call throws. -/
def Loc.callExn (l : Loc P) : Exn :=
  match l.message? with
  | some m => .dynamic (if m.isEmpty then "JavaScript function call failed" else m)
  | none => .illegalArgument

theorem throwRuntimeError_spec {α : Type} {ok : α → Store P → Prop} :
    Runs (On r b l L) (do Prog.raise (.dynamic (← runtimeError (some r))) : Prog α) ok
      (fun e s => e = l.runtimeExn ∧ On r b l L s) := by
  refine Runs.bind (Runs.post runtimeError_spec (fun _ _ h => h) fun e s h => ?_) fun m => ?_
  · obtain ⟨hm, he, hs⟩ := h
    exact ⟨by rw [he, Loc.runtimeExn, hm], hs⟩
  · refine Runs.lift fun hm => (Runs.raise _).pre fun s hs => ⟨?_, hs⟩
    rw [Loc.runtimeExn, hm]

theorem valueFromRuntimeHandle_some {I : Store P → Prop} {err : Exn → Store P → Prop}
    (runtime : Ptr) (p : Nat) :
    Runs I (valueFromRuntimeHandle runtime (some p)) (fun q s => q = some p ∧ I s) err :=
  (Runs.ret _).pre fun _ hs => ⟨rfl, hs⟩

theorem valueFromRuntimeHandle_none {ok : Ptr → Store P → Prop} :
    Runs (On r b l L) (valueFromRuntimeHandle (some r) none) ok
      (fun e s => e = l.runtimeExn ∧ On r b l L s) :=
  throwRuntimeError_spec

theorem valueFromCallHandle_none {ok : Ptr → Store P → Prop} :
    Runs (On r b l L) (valueFromCallHandle (some r) none) ok
      (fun e s => e = l.callExn ∧ On r b l L s) := by
  refine Runs.bind (Runs.post runtimeError_spec (fun _ _ h => h) fun e s h => ?_) fun m => ?_
  · obtain ⟨hm, he, hs⟩ := h
    exact ⟨by rw [he, Loc.callExn, hm], hs⟩
  · refine Runs.lift fun hm => ?_
    by_cases hempty : m.isEmpty = true
    · rw [if_pos hempty]
      refine (Runs.raise _).pre fun s hs => ⟨?_, hs⟩
      rw [Loc.callExn, hm]
      simp only [hempty, if_true]
    · rw [if_neg hempty]
      refine (Runs.raise _).pre fun s hs => ⟨?_, hs⟩
      rw [Loc.callExn, hm]
      simp only [hempty, if_false, Bool.false_eq_true]

/-! ## Calls -/

/-- The object `ref` owns a live handle of `r` that denotes `x`. -/
def JSValueRef.Denotes (ref : JSValueRef) (b : World P) (r : Nat) (x : JSVal) : Prop :=
  ∃ p, ref.handle = some p ∧ b.Holds p r x

theorem JSValueRef.Denotes.valueOf {ref : JSValueRef} {x : JSVal} (h : ref.Denotes b r x) :
    b.valueOf r ref.handle = some x := by
  obtain ⟨p, hp, hx⟩ := h
  rw [hp, hx.valueOf]

theorem JSValueRef.Denotes.nullOrLive {ref : JSValueRef} {x : JSVal} (h : ref.Denotes b r x) :
    b.NullOrLive ref.handle := by
  intro q hq
  obtain ⟨p, hp, hx⟩ := h
  rw [hp] at hq
  cases hq
  exact ⟨r, x, hx⟩

/-- The receiver `ref` stands for `this`: `NULL` for `undefined`. -/
def JSValueRef.Receives (ref : JSValueRef) (b : World P) (r : Nat) (this : JSVal) : Prop :=
  ref.handle = none ∧ this = .undefined ∨ ref.Denotes b r this

theorem JSValueRef.Receives.thisOf {ref : JSValueRef} {this : JSVal} (h : ref.Receives b r this) :
    b.thisOf r ref.handle = .ok this := by
  obtain ⟨hn, rfl⟩ | h := h
  · simp [World.thisOf, hn]
  · obtain ⟨p, hp, hx⟩ := h
    simp [World.thisOf, hp, hx.valueOf]

theorem JSValueRef.Receives.nullOrLive {ref : JSValueRef} {this : JSVal}
    (h : ref.Receives b r this) : b.NullOrLive ref.handle := by
  obtain ⟨hn, -⟩ | h := h
  · intro q hq
    rw [hn] at hq
    cases hq
  · exact h.nullOrLive

/-- The arguments denote the argument vector. -/
def Denote (b : World P) (r : Nat) (args : List JSValueRef) (argv : List JSVal) : Prop :=
  List.Forall₂ (fun ref x => ref.Denotes b r x) args argv

section Args

variable {args : List JSValueRef} {argv : List JSVal}

theorem Denote.mapM (h : Denote b r args argv) :
    (args.map (·.handle)).mapM (b.valueOf r) = some argv := by
  induction h with
  | nil => rfl
  | cons hx _ ih => simp [List.mapM_cons, hx.valueOf, ih]

theorem Denote.argvOf (h : Denote b r args argv) :
    b.argvOf r (some (args.map (·.handle))) args.length = .ok argv := by
  have hpos : ¬ ((args.length : Int) < 0) := by omega
  have htake : (args.map (·.handle)).take (Int.toNat args.length) = args.map (·.handle) :=
    List.take_of_length_le (by simp)
  simp only [World.argvOf, hpos, if_false, Option.isNone_some, Bool.false_eq_true, and_false,
    Option.getD_some, htake, h.mapM]

theorem Denote.nullOrLive (h : Denote b r args argv) : ∀ q ∈ args.map (·.handle), b.NullOrLive q := by
  induction h with
  | nil => simp
  | cons hx _ ih =>
    intro q hq
    rcases List.mem_cons.mp hq with rfl | hq
    · exact hx.nullOrLive
    · exact ih q hq

/-- `Int32.Max`. -/
def maxArgs : Nat := 2 ^ 31 - 1

theorem int32_ofInt_length {n : Nat} (h : n ≤ maxArgs) :
    ∃ v : IntType.int32.Val, v.val = n ∧ IntType.int32.ofInt n = .ret v := by
  have hr : IntType.int32.min ≤ (n : Int) ∧ (n : Int) ≤ IntType.int32.max := by
    unfold maxArgs at h
    simp only [IntType.min, IntType.max]
    omega
  exact ⟨⟨n, hr.1, hr.2⟩, rfl, dif_pos hr⟩

theorem int32_ofInt_overflow {n : Nat} (h : maxArgs < n) : IntType.int32.ofInt n = .raise .overflow := by
  refine dif_neg fun hr => ?_
  unfold maxArgs at h
  simp only [IntType.max] at hr
  omega

/-- A call can take `n` arguments: an `Int32` counts them, and the C stack has room for them. -/
def Platform.TakesArgs (P : Platform) (n : Nat) : Prop := n ≤ maxArgs ∧ P.FitsArgv n

instance (P : Platform) (n : Nat) : Decidable (P.TakesArgs n) := inferInstanceAs (Decidable (_ ∧ _))

/-- How `callValue` and `constructValue` end, for the outcome `o` of the engine in the local state
`l`. -/
theorem valueFromCallHandle_spec {o : Option JSVal} (p : Ptr) :
    Runs (fun s => Answer r b L o l p s.world) (valueFromCallHandle (some r) p)
      (fun q s => ∃ x, o = some x ∧ l.delivers o = true ∧ q = some b.nextValue ∧
        Granted r b l.kept L x s.world)
      (fun e s => l.delivers o = false ∧ e = (l.lost o).callExn ∧ On r b (l.lost o) L s) := by
  intro s hs
  obtain ⟨x, ho, hd, rfl, hw⟩ | ⟨hd, rfl, hw⟩ := hs.cases
  · exact ⟨_, s, rfl, x, ho, hd, rfl, hw⟩
  · exact Runs.post valueFromCallHandle_none (fun _ _ h => h) (fun _ _ h => ⟨hd, h⟩) s hw

theorem countsArgs_handles (args : List JSValueRef) :
    CountsArgs (some (args.map (·.handle))) args.length := .inr (by simp)

/-- `js_value_call` on objects of the layer. -/
theorem jsValueCall_denotes {p : Nat} {receiver : JSValueRef} {f this : JSVal} (hf : b.Holds p r f)
    (hthis : receiver.Receives b r this) (hargs : Denote b r args argv) (hfit : P.FitsArgv args.length) :
    Triple (Run r b l L) (jsValueCall (some p) receiver.handle (some (args.map (·.handle))) args.length)
      (Answer r b L (P.call f this argv l.heap).1.toOption (l.afterCall f this argv)) := by
  have hcall := jsValueCall_spec (r := r) (l := l) (L := L) hf hthis.nullOrLive
    (countsArgs_handles args) (by simpa using hargs.nullOrLive)
  rw [hthis.thisOf, hargs.argvOf] at hcall
  exact hcall.total fun _ h => h.2.2.2 hfit

theorem jsValueConstruct_denotes {p : Nat} {f : JSVal} (hf : b.Holds p r f)
    (hargs : Denote b r args argv) (hfit : P.FitsArgv args.length) :
    Triple (Run r b l L) (jsValueConstruct (some p) (some (args.map (·.handle))) args.length)
      (Answer r b L (P.callConstructor f argv l.heap).1.toOption (l.afterConstruct f argv)) := by
  have hcall := jsValueConstruct_spec (r := r) (l := l) (L := L) hf (countsArgs_handles args)
    (by simpa using hargs.nullOrLive)
  rw [hargs.argvOf] at hcall
  exact hcall.total fun _ h => h.2.2.2 hfit

theorem callValue_spec {function receiver : JSValueRef} {f this : JSVal} (hf : function.Denotes b r f)
    (hthis : receiver.Receives b r this) (hargs : Denote b r args argv) (hlen : P.TakesArgs args.length) :
    Runs (On r b l L) (JSRuntime.callValue (some r) function receiver args)
      (fun q s => ∃ x, (P.call f this argv l.heap).1.toOption = some x ∧
        (l.afterCall f this argv).delivers (P.call f this argv l.heap).1.toOption = true ∧
        q = some b.nextValue ∧ Granted r b (l.afterCall f this argv).kept L x s.world)
      (fun e s =>
        let o := (P.call f this argv l.heap).1.toOption
        (l.afterCall f this argv).delivers o = false ∧ e = ((l.afterCall f this argv).lost o).callExn ∧
          On r b ((l.afterCall f this argv).lost o) L s) := by
  obtain ⟨⟨_, _, _⟩, rfl, hofInt⟩ := int32_ofInt_length hlen.1
  obtain ⟨p, hp, hx⟩ := hf
  unfold JSRuntime.callValue
  rw [hofInt, hp]
  refine Runs.touch ?_
  exact Runs.call (jsValueCall_denotes hx hthis hargs hlen.2) fun q => valueFromCallHandle_spec q

/-- More arguments than the stack has room for end the process before `JS_Call`. -/
theorem callValue_stops {function receiver : JSValueRef} {f this : JSVal} (hf : function.Denotes b r f)
    (hthis : receiver.Receives b r this) (hlen : args.length ≤ maxArgs)
    (hfit : ¬ P.FitsArgv args.length) :
    Stops (On r b l L) (JSRuntime.callValue (some r) function receiver args) := by
  obtain ⟨⟨_, _, _⟩, rfl, hofInt⟩ := int32_ofInt_length hlen
  obtain ⟨p, hp, hx⟩ := hf
  unfold JSRuntime.callValue
  rw [hofInt, hp]
  refine Stops.touch ?_
  exact Stops.native (jsValueCall_stops hx hthis.nullOrLive hthis.thisOf (Int.natCast_nonneg _) hfit)

theorem constructValue_spec {constructor : JSValueRef} {f : JSVal} (hf : constructor.Denotes b r f)
    (hargs : Denote b r args argv) (hlen : P.TakesArgs args.length) :
    Runs (On r b l L) (JSRuntime.constructValue (some r) constructor args)
      (fun q s => ∃ x, (P.callConstructor f argv l.heap).1.toOption = some x ∧
        (l.afterConstruct f argv).delivers (P.callConstructor f argv l.heap).1.toOption = true ∧
        q = some b.nextValue ∧ Granted r b (l.afterConstruct f argv).kept L x s.world)
      (fun e s =>
        let o := (P.callConstructor f argv l.heap).1.toOption
        (l.afterConstruct f argv).delivers o = false ∧
          e = ((l.afterConstruct f argv).lost o).callExn ∧
          On r b ((l.afterConstruct f argv).lost o) L s) := by
  obtain ⟨⟨_, _, _⟩, rfl, hofInt⟩ := int32_ofInt_length hlen.1
  obtain ⟨p, hp, hx⟩ := hf
  unfold JSRuntime.constructValue
  rw [hofInt, hp]
  refine Runs.touch ?_
  exact Runs.call (jsValueConstruct_denotes hx hargs hlen.2) fun q => valueFromCallHandle_spec q

end Args

/-! ## A small state -/

/-- The local state of a runtime with one handle. -/
def Loc.sample (host : P.Host) (heap : P.Heap) : Loc P where
  heap := heap
  exception := none
  moduleLoader := false
  error := none
  count := 1
  destroying := false
  stdEnabled := false
  host := host
  entries := []

/-- A state with one runtime and one handle, which denotes `x`. -/
def Store.sample (P : Platform) (host : P.Host) (heap : P.Heap) (x : JSVal) : Store P where
  nextRef := 1
  world := {
    runtimes := Function.update (fun _ => none) 0 (some ((Loc.sample host heap).cell none))
    values := Function.update (fun _ => none) 0 (some ⟨some 0, .ref x 0⟩)
    nextRuntime := 1
    nextValue := 1
    nextToken := 1
    ledger := {.jsValue 0}
    host := host
    entries := []
    frees := [] }

theorem sample_on (P : Platform) (host : P.Host) (heap : P.Heap) (x : JSVal) :
    On 0 (Store.sample P host heap x).world (Loc.sample host heap) {.jsValue 0}
      (Store.sample P host heap x) :=
  ⟨none, rfl, by simp [Store.sample], by simp [Store.sample], fun _ _ => rfl, rfl, rfl, rfl, rfl, rfl,
    rfl, by simp [World.Fresh, Store.sample, Resource.token]⟩

theorem sample_holds (P : Platform) (host : P.Host) (heap : P.Heap) (x : JSVal) :
    (Store.sample P host heap x).world.Holds 0 0 x := ⟨0, by simp [Store.sample]⟩

end InteropJs
