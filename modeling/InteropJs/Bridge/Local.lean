import InteropJs.Lib.Triple
import InteropJs.Bridge.Functions

/-!
# What one bridge function sees of the world

A bridge function works on one runtime `r`. `Loc` is what it can read and change there: the fields
of the runtime handle, the heap and the pending exception of its engine, and the C library. `Run r b
l L w` says that the world `w` is the world `b` everywhere else, that `r` has the local state `l`,
and that the bridge owns the resources `L` besides the string in `last_error`. `RunAt` also names the
block of that string.

The specs of this file are total triples over `Run`. They say what each engine call and each helper
of the bridge does to the local state and to the resources, so that the specs of the exported
functions (`InteropJs/Bridge/Spec.lean`) never open a world again.
-/

namespace InteropJs

open Hoare

variable {P : Platform}

/-- The local state of a runtime (module doc). -/
structure Loc (P : Platform) where
  heap : P.Heap
  exception : Option JSVal
  moduleLoader : Bool
  error : Option CStr
  count : Nat
  destroying : Bool
  stdEnabled : Bool
  host : P.Host
  entries : List JSVal

/-- The runtime handle of a local state, with the block of its error string. -/
def Loc.cell (l : Loc P) (e : Option OwnedString) : RuntimeHandle P where
  runtime := some ⟨l.exception, l.moduleLoader⟩
  context := some l.heap
  lastError := e
  valueCount := l.count
  destroying := l.destroying
  stdModuleEnabled := l.stdEnabled

/-- No two resources of the ledger have one entry, and the next entry is a new one. -/
def World.Fresh (w : World P) : Prop :=
  (w.ledger.map Resource.token).Nodup ∧ ∀ x ∈ w.ledger, x.token < w.nextToken

/-- `w` is `b` with the local state `l` at runtime `r`, the error string in the block `e`, and the
resources `L`. -/
structure RunAt (r : Nat) (b : World P) (l : Loc P) (e : Option OwnedString) (L : Multiset Resource)
    (w : World P) : Prop where
  cell : w.runtimes r = some (l.cell e)
  ledger : w.ledger = L
  others : ∀ r', r' ≠ r → w.runtimes r' = b.runtimes r'
  values : w.values = b.values
  nextValue : w.nextValue = b.nextValue
  nextRuntime : w.nextRuntime = b.nextRuntime
  frees : w.frees = b.frees
  host : w.host = l.host
  entries : w.entries = l.entries
  fresh : w.Fresh

/-- `w` is `b` with the local state `l` at runtime `r`; the bridge owns `L` and the error string
(module doc). -/
def Run (r : Nat) (b : World P) (l : Loc P) (L : Multiset Resource) (w : World P) : Prop :=
  ∃ e : Option OwnedString, e.map (·.bytes) = l.error ∧ RunAt r b l e (L + stringRes e) w

variable {r : Nat} {b w : World P} {l : Loc P} {L : Multiset Resource}

/-- The local state of the runtime `r`, if it is open. -/
def World.loc? (w : World P) (r : Nat) : Option (Loc P) :=
  match w.runtimes r with
  | none => none
  | some cell =>
    match cell.runtime, cell.context with
    | some rt, some heap => some {
        heap, exception := rt.exception, moduleLoader := rt.moduleLoader
        error := cell.lastError.map (·.bytes), count := cell.valueCount, destroying := cell.destroying
        stdEnabled := cell.stdModuleEnabled, host := w.host, entries := w.entries }
    | _, _ => none

theorem Run.loc? (h : Run r b l L w) : w.loc? r = some l := by
  obtain ⟨e, he, hw⟩ := h
  simp only [World.loc?, hw.cell, Loc.cell, hw.host, hw.entries, he]

/-- A step of the engine changes the heap and the C library. -/
theorem Run.reclaimed (h : Run r b l L w) (heap : P.Heap) (host : P.Host) :
    Run r b { l with heap, host } L (w.reclaimed r heap host) := by
  obtain ⟨e, he, hw⟩ := h
  refine ⟨e, he, ?_, hw.ledger, fun r' hr => ?_, hw.values, hw.nextValue, hw.nextRuntime, hw.frees, rfl,
    hw.entries, hw.fresh⟩
  · simp only [World.reclaimed, Function.update_self, hw.cell, Option.map_some]
    rfl
  · simp only [World.reclaimed, Function.update_of_ne hr, hw.others r' hr]

/-- Open the block of the error string. -/
theorem Run.triple {α : Type} {c : BridgeM P α} {Q : α → World P → Prop}
    (h : ∀ e : Option OwnedString, e.map (·.bytes) = l.error →
      Triple (RunAt r b l e (L + stringRes e)) c Q) : Triple (Run r b l L) c Q :=
  Triple.ex fun e => Triple.lift fun he => h e he

/-! ## Memory and ledger -/

section RunAt

variable {e : Option OwnedString}

theorem readRuntime_at :
    Triple (RunAt r b l e L) (readRuntime (some r)) (fun c w => c = l.cell e ∧ RunAt r b l e L w) :=
  fun w h => ⟨l.cell e, w, by simp [readRuntime, StateT.run, h.cell], rfl, h⟩

/-- A write of the runtime handle: any other local state with the same C library. -/
theorem writeRuntime_at (l' : Loc P) (e' : Option OwnedString) (hh : l'.host = l.host)
    (hn : l'.entries = l.entries) :
    Triple (RunAt r b l e L) (writeRuntime (some r) (l'.cell e')) (fun _ => RunAt r b l' e' L) := by
  intro w h
  refine ⟨(), { w with runtimes := Function.update w.runtimes r (some (l'.cell e')) }, rfl,
    by simp, h.ledger, fun r' hr => ?_, h.values, h.nextValue, h.nextRuntime, h.frees,
    h.host.trans hh.symm, h.entries.trans hn.symm, h.fresh⟩
  simp [Function.update_of_ne hr, h.others r' hr]

theorem World.Fresh.acquire {w : World P} (h : w.Fresh) {x : Resource} (hx : x.token = w.nextToken) :
    World.Fresh { w with nextToken := w.nextToken + 1, ledger := w.ledger + {x} } := by
  obtain ⟨hd, hlt⟩ := h
  refine ⟨?_, fun y hy => ?_⟩
  · simp only [Multiset.map_add, Multiset.map_singleton]
    refine Multiset.nodup_add.mpr ⟨hd, Multiset.nodup_singleton _, ?_⟩
    rw [Multiset.disjoint_singleton, Multiset.mem_map]
    rintro ⟨y, hy, hyx⟩
    have := hlt y hy
    omega
  · rcases Multiset.mem_add.mp hy with hy | hy
    · exact Nat.lt_succ_of_lt (hlt y hy)
    · rw [Multiset.mem_singleton.mp hy, hx]
      exact Nat.lt_succ_self _

theorem World.Fresh.release {w : World P} (h : w.Fresh) (x : Resource) :
    World.Fresh { w with ledger := w.ledger.erase x } :=
  ⟨Multiset.nodup_of_le (Multiset.map_le_map (Multiset.erase_le x _)) h.1,
    fun y hy => h.2 y (Multiset.mem_of_mem_erase hy)⟩

theorem acquire_at {res : Nat → Resource} (hres : ∀ t, (res t).token = t) :
    Triple (RunAt r b l e L) (acquire res) (fun t => RunAt r b l e (L + {res t})) :=
  fun w h => ⟨w.nextToken, { w with nextToken := w.nextToken + 1, ledger := w.ledger + {res w.nextToken} },
    rfl, h.cell, by rw [h.ledger], h.others, h.values, h.nextValue, h.nextRuntime, h.frees, h.host,
    h.entries, h.fresh.acquire (hres _)⟩

theorem release_at (res : Resource) :
    Triple (RunAt r b l e (L + {res})) (release res) (fun _ => RunAt r b l e L) := by
  intro w h
  refine ⟨(), { w with ledger := w.ledger.erase res }, ?_, h.cell, ?_, h.others, h.values,
    h.nextValue, h.nextRuntime, h.frees, h.host, h.entries, h.fresh.release res⟩
  · simp [release, StateT.run, h.ledger]
  · show w.ledger.erase res = L
    rw [h.ledger, add_comm, Multiset.singleton_add, Multiset.erase_cons_head]

theorem freeString_at {s : Option OwnedString} :
    Triple (RunAt r b l e (L + stringRes s)) (freeString s) (fun _ => RunAt r b l e L) := by
  cases s with
  | none => exact (Triple.ret ()).pre fun w h => by simpa using h
  | some s => exact release_at _

/-- The C library moves on; nothing else does. -/
theorem onHost_at {α : Type} (f : P.Host → α × P.Host) :
    Triple (RunAt r b l e L) (onHost f)
      (fun a w => a = (f l.host).1 ∧ RunAt r b { l with host := (f l.host).2 } e L w) := by
  intro w h
  refine ⟨(f w.host).1, { w with host := (f w.host).2 }, rfl, by rw [h.host], ?_⟩
  exact ⟨h.cell, h.ledger, h.others, h.values, h.nextValue, h.nextRuntime, h.frees,
    by rw [h.host], h.entries, h.fresh⟩

theorem readContext_at :
    Triple (RunAt r b l e L) (readContext (some r))
      (fun x w => x = (l.cell e, ⟨l.exception, l.moduleLoader⟩, l.heap) ∧ RunAt r b l e L w) := by
  unfold readContext
  refine Triple.bind readRuntime_at fun c => Triple.lift fun hc => ?_
  subst hc
  exact (Triple.ret _).pre fun w h => ⟨rfl, h⟩

end RunAt

/-- The local state after an engine function: its heap, and the exception it threw. -/
def Loc.after {α : Type} (l : Loc P) (out : Except JSVal α × P.Heap) : Loc P :=
  match out with
  | (.ok _, h) => { l with heap := h }
  | (.error x, h) => { l with heap := h, exception := some x }

@[simp] theorem Loc.after_ok {α : Type} (l : Loc P) (a : α) (h : P.Heap) :
    l.after (.ok a, h) = { l with heap := h } := rfl

@[simp] theorem Loc.after_error {α : Type} (l : Loc P) (x : JSVal) (h : P.Heap) :
    l.after ((.error x : Except JSVal α), h) = { l with heap := h, exception := some x } := rfl

@[simp] theorem Loc.after_heap {α : Type} (l : Loc P) (out : Except JSVal α × P.Heap) :
    (l.after out).heap = out.2 := by
  rcases out with ⟨_ | _, _⟩ <;> rfl

theorem onContext_at {α : Type} {e : Option OwnedString} (f : EngineM P.Heap α) :
    Triple (RunAt r b l e L) (onContext (some r) f)
      (fun a w => a = (f l.heap).1.toOption ∧ RunAt r b (l.after (f l.heap)) e L w) := by
  unfold onContext
  refine Triple.bind readContext_at fun x => Triple.lift fun hx => ?_
  subst hx
  simp only
  rcases f l.heap with ⟨x | a, h⟩
  · refine Triple.bind (writeRuntime_at { l with heap := h, exception := some x } _ rfl rfl)
      fun _ => ?_
    exact (Triple.ret _).pre fun w hw => ⟨rfl, hw⟩
  · refine Triple.bind (writeRuntime_at { l with heap := h } _ rfl rfl) fun _ => ?_
    exact (Triple.ret _).pre fun w hw => ⟨rfl, hw⟩

/-! ## Specs of the engine calls -/

theorem onContext_spec {α : Type} (f : EngineM P.Heap α) :
    Triple (Run r b l L) (onContext (some r) f)
      (fun a w => a = (f l.heap).1.toOption ∧ Run r b (l.after (f l.heap)) L w) := by
  refine Run.triple fun e he => (onContext_at f).post fun a w h => ⟨h.1, e, ?_, h.2⟩
  rw [he]
  rcases f l.heap with ⟨_ | _, _⟩ <;> rfl

theorem readContext_spec :
    Triple (Run r b l L) (readContext (some r))
      (fun x w => (x.2 = (⟨l.exception, l.moduleLoader⟩, l.heap)) ∧ Run r b l L w) :=
  Run.triple fun e he => readContext_at.post fun x w h => ⟨by rw [h.1], e, he, h.2⟩

theorem acquire_spec {res : Nat → Resource} (hres : ∀ t, (res t).token = t) :
    Triple (Run r b l L) (acquire res) (fun t => Run r b l (L + {res t})) :=
  Run.triple fun e he => (acquire_at hres).post fun t w h => ⟨e, he, by rwa [add_right_comm]⟩

theorem release_spec (res : Resource) :
    Triple (Run r b l (L + {res})) (release res) (fun _ => Run r b l L) :=
  Run.triple fun e he =>
    ((release_at res).pre fun w h => by rwa [add_right_comm] at h).post fun _ w h => ⟨e, he, h⟩

theorem onHost_spec {α : Type} (f : P.Host → α × P.Host) :
    Triple (Run r b l L) (onHost f)
      (fun a w => a = (f l.host).1 ∧ Run r b { l with host := (f l.host).2 } L w) :=
  Run.triple fun e he => (onHost_at f).post fun _ _ h => ⟨h.1, e, he, h.2⟩

theorem malloc_spec :
    Triple (Run r b l L) malloc
      (fun ok w => ok = (P.malloc l.host).1 ∧ Run r b { l with host := (P.malloc l.host).2 } L w) :=
  onHost_spec P.malloc

/-- The value of an engine call, if it returned one. -/
def JSValue.opt : JSValue → Option JSVal
  | .exception => none
  | .ref v _ => some v

/-- The local state in which the body of `f` has started, if it `runs`. -/
def Loc.started (l : Loc P) (f : JSVal) (runs : Bool) : Loc P :=
  if runs then { l with entries := f :: l.entries } else l

namespace JS

/-- The variable `v` holds the result `o` of an engine call, an owned reference or `JS_EXCEPTION`, in
the local state `l`. -/
def Produced (r : Nat) (b : World P) (L : Multiset Resource) (o : Option JSVal) (l : Loc P)
    (v : JSValue) (w : World P) : Prop :=
  v.opt = o ∧ Run r b l (L + v.res) w

theorem produce_spec (f : EngineM P.Heap JSVal) :
    Triple (Run r b l L) (produce (some r) f)
      (Produced r b L (f l.heap).1.toOption (l.after (f l.heap))) := by
  unfold produce
  refine Triple.bind (onContext_spec f) fun a => Triple.lift fun ha => ?_
  subst ha
  unfold Produced
  rcases f l.heap with ⟨x | v, h⟩
  · exact (Triple.ret _).pre fun w hw => ⟨rfl, by simpa using hw⟩
  · exact Triple.bind (acquire_spec fun _ => rfl) fun t => (Triple.ret _).pre fun w hw => ⟨rfl, hw⟩

theorem status_spec {α : Type} (f : EngineM P.Heap α) :
    Triple (Run r b l L) (status (some r) f)
      (fun s w => (s < 0 ↔ (f l.heap).1.toOption = none) ∧ Run r b (l.after (f l.heap)) L w) := by
  unfold status
  refine Triple.bind (onContext_spec f) fun a => Triple.lift fun ha => ?_
  subst ha
  rcases f l.heap with ⟨x | v, h⟩
  · exact (Triple.ret _).pre fun w hw => ⟨by simp [Except.toOption], hw⟩
  · exact (Triple.ret _).pre fun w hw => ⟨by simp [Except.toOption], hw⟩

theorem consume_spec (v : JSValue) :
    Triple (Run r b l (L + v.res)) (consume v) (fun _ => Run r b l L) := by
  cases v with
  | exception => exact (Triple.ret ()).pre fun w h => by simpa using h
  | ref v t => exact release_spec _

theorem freeValue_spec (v : JSValue) :
    Triple (Run r b l (L + v.res)) (freeValue (some r) v) (fun _ => Run r b l L) := by
  unfold freeValue
  refine Triple.bind readContext_spec fun _ => Triple.lift fun _ => ?_
  exact consume_spec v

theorem dupValue_spec (v : JSVal) (t : Nat) :
    Triple (Run r b l L) (dupValue (some r) (.ref v t))
      (Produced r b L (some v) l) := by
  unfold dupValue
  refine Triple.bind readContext_spec fun _ => Triple.lift fun _ => ?_
  exact Triple.bind (acquire_spec fun _ => rfl) fun t => (Triple.ret _).pre fun w hw => ⟨rfl, hw⟩

/-- A reference that the engine takes over before it runs `f`. -/
theorem consume_status_spec {α : Type} (v : JSValue) (f : EngineM P.Heap α) :
    Triple (Run r b l (L + v.res)) (do consume v; status (some r) f)
      (fun s w => (s < 0 ↔ (f l.heap).1.toOption = none) ∧ Run r b (l.after (f l.heap)) L w) :=
  Triple.bind (consume_spec v) fun _ => status_spec f

theorem getException_spec :
    Triple (Run r b l L) (getException (some r))
      (Produced r b L (some (l.exception.getD .uninitialized)) { l with exception := none }) := by
  unfold getException
  refine Run.triple fun e he => ?_
  refine Triple.bind readContext_at fun x => Triple.lift fun hx => ?_
  subst hx
  refine Triple.bind (writeRuntime_at { l with exception := none } _ rfl rfl) fun _ => ?_
  refine Triple.bind (acquire_at fun _ => rfl) fun t => (Triple.ret _).pre fun w hw => ⟨rfl, e, he, ?_⟩
  rw [add_right_comm]
  exact hw

/-- The entry of a C string that may be `NULL`. -/
def cStringRes : Option CString → Multiset Resource
  | none => 0
  | some s => {.cString s.token}

theorem toCString_spec (v : JSValue) :
    Triple (Run r b l L) (toCString (some r) v)
      (fun s w => s.map (·.bytes) = (P.toCString v.val l.heap).1.toOption ∧
        Run r b (l.after (P.toCString v.val l.heap)) (L + cStringRes s) w) := by
  unfold toCString
  refine Triple.bind (onContext_spec _) fun a => Triple.lift fun ha => ?_
  subst ha
  rcases P.toCString v.val l.heap with ⟨x | s, h⟩
  · exact (Triple.ret _).pre fun w hw => ⟨rfl, by simpa [cStringRes] using hw⟩
  · exact Triple.bind (acquire_spec fun _ => rfl) fun t => (Triple.ret _).pre fun w hw => ⟨rfl, hw⟩

theorem freeCString_spec (s : Option CString) :
    Triple (Run r b l (L + cStringRes s)) (freeCString (some r) s) (fun _ => Run r b l L) := by
  unfold freeCString
  refine Triple.bind readContext_spec fun _ => Triple.lift fun _ => ?_
  cases s with
  | none => exact (Triple.ret ()).pre fun w h => by simpa [cStringRes] using h
  | some s => exact release_spec _

theorem getOwnPropertyNames_spec (v : JSValue) :
    Triple (Run r b l L) (getOwnPropertyNames (some r) v)
      (fun t w => t.map (·.atoms) = (P.ownPropertyNames v.val l.heap).1.toOption ∧
        Run r b (l.after (P.ownPropertyNames v.val l.heap))
          (L + match t with | none => 0 | some t => {.propertyTable t.token}) w) := by
  unfold getOwnPropertyNames
  refine Triple.bind (onContext_spec _) fun a => Triple.lift fun ha => ?_
  subst ha
  rcases P.ownPropertyNames v.val l.heap with ⟨x | s, h⟩
  · exact (Triple.ret _).pre fun w hw => ⟨rfl, by simpa using hw⟩
  · exact Triple.bind (acquire_spec fun _ => rfl) fun t => (Triple.ret _).pre fun w hw => ⟨rfl, hw⟩

theorem freePropertyEnum_spec (t : PropertyTable) :
    Triple (Run r b l (L + {.propertyTable t.token})) (freePropertyEnum (some r) t)
      (fun _ => Run r b l L) := by
  unfold freePropertyEnum
  exact Triple.bind readContext_spec fun _ => Triple.lift fun _ => release_spec _

theorem enter_spec (f : JSVal) :
    Triple (Run r b l L) (enter f) (fun _ => Run r b { l with entries := f :: l.entries } L) :=
  fun w ⟨e, he, h⟩ => ⟨(), { w with entries := f :: w.entries }, rfl, e, he, h.cell, h.ledger, h.others,
    h.values, h.nextValue, h.nextRuntime, h.frees, h.host, by rw [h.entries], h.fresh⟩

theorem call_spec (f this : JSVal) (argv : List JSVal) :
    Triple (Run r b l L) (call (some r) f this argv)
      (Produced r b L (P.call f this argv l.heap).1.toOption
        ((l.started f f.callRuns).after (P.call f this argv l.heap))) := by
  unfold call Loc.started
  refine Triple.ite (fun h => ?_) (fun h => ?_)
  · rw [if_pos h]
    exact Triple.bind (enter_spec f) fun _ => produce_spec _
  · rw [if_neg h]
    exact produce_spec _

theorem callConstructor_spec (f : JSVal) (argv : List JSVal) :
    Triple (Run r b l L) (callConstructor (some r) f argv)
      (Produced r b L (P.callConstructor f argv l.heap).1.toOption
        ((l.started f f.isConstructor).after (P.callConstructor f argv l.heap))) := by
  unfold callConstructor Loc.started
  refine Triple.ite (fun h => ?_) (fun h => ?_)
  · rw [if_pos h]
    exact Triple.bind (enter_spec f) fun _ => produce_spec _
  · rw [if_neg h]
    exact produce_spec _

theorem setModuleLoader_spec :
    Triple (Run r b l L) (setModuleLoader (some r))
      (fun _ => Run r b { l with moduleLoader := true } L) := by
  unfold setModuleLoader
  refine Run.triple fun e he => ?_
  refine Triple.bind readContext_at fun x => Triple.lift fun hx => ?_
  subst hx
  exact Triple.post (writeRuntime_at { l with moduleLoader := true } _ rfl rfl)
    fun _ w hw => ⟨e, he, hw⟩

end JS

end InteropJs
