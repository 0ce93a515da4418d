import InteropJs.Bridge.Local

/-!
# Specs of the bridge functions

One total triple for each function of `InteropJs/Bridge/Functions.lean` that takes a live runtime or
a live value handle. The local state after it is a function of the local state before it:
`Loc.setError`, `Loc.capture` and `Loc.newHandle` are `set_error`, `capture_exception` and
`new_value_handle` without their resources, and `Answer` is how a function that returns a handle
ends. The resources after it are those before it, and one reference more if it returns a handle.
-/

namespace InteropJs

open Hoare

variable {P : Platform} {r : Nat} {b w : World P} {l : Loc P} {L : Multiset Resource}

/-! ## Errors -/

/-- `set_error`: the message up to its first zero byte, or none if it cannot be copied. -/
def Loc.setError (l : Loc P) (message : Option CStr) : Loc P :=
  { l with
    host := (P.malloc l.host).2
    error :=
      if (P.malloc l.host).1 then some (message.getD (utf8 "unknown QuickJS error")).text else none }

def Loc.clearError (l : Loc P) : Loc P := { l with error := none }

/-- `capture_exception`: the string conversion of the pending exception becomes the error. -/
def Loc.capture (l : Loc P) : Loc P :=
  let out := P.toCString (l.exception.getD .uninitialized) l.heap
  ({ l with exception := none }.after out).setError out.1.toOption

theorem copyString_spec (value : Option CStr) :
    Triple (Run r b l L) (copyString value)
      (fun s w => s.map (·.bytes) =
          (if (P.malloc l.host).1 then some (value.getD (utf8 "unknown QuickJS error")).text else none) ∧
        Run r b { l with host := (P.malloc l.host).2 } (L + stringRes s) w) := by
  unfold copyString
  refine Triple.bind malloc_spec fun ok => Triple.lift fun hok => ?_
  subst hok
  refine Triple.ite (fun h => ?_) (fun h => ?_)
  · rw [if_pos h]
    exact Triple.bind (acquire_spec fun _ => rfl) fun t => (Triple.ret _).pre fun w hw => ⟨rfl, hw⟩
  · rw [if_neg h]
    exact (Triple.ret _).pre fun w hw => ⟨rfl, by simpa using hw⟩

theorem copyString_at {e : Option OwnedString} (value : Option CStr) :
    Triple (RunAt r b l e L) (copyString value)
      (fun s w => s.map (·.bytes) = (l.setError value).error ∧
        RunAt r b { l with host := (P.malloc l.host).2 } e (L + stringRes s) w) := by
  unfold copyString
  refine Triple.bind (onHost_at P.malloc) fun ok => Triple.lift fun hok => ?_
  subst hok
  refine Triple.ite (fun h => ?_) (fun h => ?_)
  · exact Triple.bind (acquire_at fun _ => rfl) fun t => (Triple.ret _).pre fun w hw =>
      ⟨by simp only [Loc.setError, h, ↓reduceIte, Option.map_some], hw⟩
  · exact (Triple.ret _).pre fun w hw =>
      ⟨by simp only [Loc.setError, h, Bool.false_eq_true, ↓reduceIte, Option.map_none],
        by simpa using hw⟩

theorem setError_spec (message : Option CStr) :
    Triple (Run r b l L) (setError (some r) message) (fun _ => Run r b (l.setError message) L) := by
  unfold setError
  rw [if_neg (by simp)]
  refine Run.triple fun e he => ?_
  refine Triple.bind readRuntime_at fun c => Triple.lift fun hc => ?_
  subst hc
  refine Triple.bind freeString_at fun _ => ?_
  refine Triple.bind (copyString_at message) fun s => Triple.lift fun hs => ?_
  refine Triple.bind readRuntime_at fun c => Triple.lift fun hc => ?_
  subst hc
  exact Triple.post (writeRuntime_at (l.setError message) s rfl rfl) fun _ w hw =>
    ⟨s, hs, hw⟩

theorem clearError_spec :
    Triple (Run r b l L) (clearError (some r)) (fun _ => Run r b l.clearError L) := by
  unfold clearError
  rw [if_neg (by simp)]
  refine Run.triple fun e he => ?_
  refine Triple.bind readRuntime_at fun c => Triple.lift fun hc => ?_
  subst hc
  refine Triple.bind freeString_at fun _ => ?_
  exact Triple.post (writeRuntime_at l.clearError none rfl rfl) fun _ w hw =>
    ⟨none, rfl, by simpa using hw⟩

/-- A read of the runtime handle. -/
theorem readRuntime_spec :
    Triple (Run r b l L) (readRuntime (some r))
      (fun c w => (∃ e : Option OwnedString, c = l.cell e ∧ e.map (·.bytes) = l.error) ∧
        Run r b l L w) :=
  Run.triple fun e he => readRuntime_at.post fun _ _ h => ⟨⟨e, h.1, he⟩, e, he, h.2⟩

/-- A write of the runtime handle that keeps its error string. -/
theorem modifyRuntime_spec (f : RuntimeHandle P → RuntimeHandle P) (l' : Loc P)
    (hf : ∀ e, f (l.cell e) = l'.cell e) (hh : l'.host = l.host) (hn : l'.entries = l.entries)
    (he : l'.error = l.error) :
    Triple (Run r b l L) (do let c ← readRuntime (some r); writeRuntime (some r) (f c))
      (fun _ => Run r b l' L) := by
  refine Run.triple fun e hb => ?_
  refine Triple.bind readRuntime_at fun c => Triple.lift fun hc => ?_
  subst hc
  rw [hf e]
  exact (writeRuntime_at l' e hh hn).post fun _ w hw => ⟨e, hb.trans he.symm, hw⟩

theorem captureException_spec :
    Triple (Run r b l L) (captureException (some r)) (fun _ => Run r b l.capture L) := by
  unfold captureException
  rw [if_neg (by simp)]
  refine Triple.bind readRuntime_spec fun c => Triple.lift fun ⟨e, hc, _⟩ => ?_
  rw [if_neg (by simp [hc, Loc.cell])]
  refine Triple.bind JS.getException_spec fun v => Triple.lift fun hv => ?_
  refine Triple.bind (JS.toCString_spec v) fun s => Triple.lift fun hs => ?_
  refine Triple.bind (setError_spec _) fun _ => ?_
  refine Triple.bind (JS.freeCString_spec s) fun _ => ?_
  refine (JS.freeValue_spec v).post fun _ w hw => ?_
  have hval : v.val = l.exception.getD .uninitialized := by
    cases v <;> simp_all [JSValue.opt, JSValue.val]
  rwa [hs, hval] at hw

/-! ## Handles -/

theorem validRuntime_spec :
    Triple (Run r b l L) (validRuntime (some r)) (fun v w => v = true ∧ Run r b l L w) := by
  unfold validRuntime
  rw [if_neg (by simp)]
  refine Triple.bind readRuntime_spec fun c => Triple.lift fun ⟨e, hc, _⟩ => ?_
  exact (Triple.ret _).pre fun w hw => ⟨by simp [hc, Loc.cell], hw⟩

theorem readValue_spec {p : Nat} {h : ValueHandle} (hp : b.values p = some h) :
    Triple (Run r b l L) (readValue (some p)) (fun x w => x = h ∧ Run r b l L w) := by
  intro w hw
  refine ⟨h, w, ?_, rfl, hw⟩
  obtain ⟨e, -, hr⟩ := hw
  simp [readValue, StateT.run, hr.values, hp]

theorem validValue_spec {p : Nat} {v : JSValue} (hp : b.values p = some ⟨some r, v⟩) :
    Triple (Run r b l L) (validValue (some p)) (fun v w => v = true ∧ Run r b l L w) := by
  unfold validValue
  rw [if_neg (by simp)]
  refine Triple.bind (readValue_spec hp) fun x => Triple.lift fun hx => ?_
  subst hx
  exact validRuntime_spec

/-- `b` with a new value handle. -/
def World.addValue (b : World P) (h : ValueHandle) : World P :=
  { b with nextValue := b.nextValue + 1, values := Function.update b.values b.nextValue (some h) }

/-- How `new_value_handle` ends: with a new handle that owns `v`, or with an error and without
the reference. -/
def Delivered (r : Nat) (b : World P) (l : Loc P) (L : Multiset Resource) (v : JSValue) (p : Ptr)
    (w : World P) : Prop :=
  if (P.malloc l.host).1 then
    p = some b.nextValue ∧
      Run r (b.addValue ⟨some r, v⟩) { l with host := (P.malloc l.host).2, count := l.count + 1 }
        (L + v.res) w
  else
    p = none ∧
      Run r b ({ l with host := (P.malloc l.host).2 }.setError
        (utf8 "failed to allocate JavaScript value handle")) L w

theorem allocValue_spec (h : ValueHandle) :
    Triple (Run r b l L) (allocValue h)
      (fun p w => p = b.nextValue ∧ Run r (b.addValue h) l L w) := by
  intro w ⟨e, he, hr⟩
  refine ⟨w.nextValue, { w with
      nextValue := w.nextValue + 1, values := Function.update w.values w.nextValue (some h) }, rfl,
    hr.nextValue, e, he, hr.cell, hr.ledger, hr.others, ?_, ?_, hr.nextRuntime, hr.frees, hr.host,
    hr.entries, hr.fresh⟩
  · simp [World.addValue, hr.values, hr.nextValue]
  · simp [World.addValue, hr.nextValue]

theorem newValueHandle_spec (v : JSValue) :
    Triple (Run r b l (L + v.res)) (newValueHandle (some r) v) (Delivered r b l L v) := by
  unfold newValueHandle Delivered
  refine Triple.bind validRuntime_spec fun ok => Triple.lift fun hok => ?_
  subst hok
  rw [if_neg (by simp)]
  refine Triple.bind malloc_spec fun ok => Triple.lift fun hok => ?_
  subst hok
  by_cases hm : (P.malloc l.host).1 = true
  · simp only [hm, Bool.not_true, Bool.false_eq_true, ↓reduceIte]
    refine Triple.bind (allocValue_spec _) fun p => Triple.lift fun hp => ?_
    subst hp
    rw [← bind_assoc]
    refine Triple.bind (modifyRuntime_spec (fun c => { c with valueCount := c.valueCount + 1 })
      { l with host := (P.malloc l.host).2, count := l.count + 1 }
      (fun _ => rfl) rfl rfl rfl) fun _ => ?_
    exact (Triple.ret _).pre fun w hw => ⟨rfl, hw⟩
  · simp only [hm, Bool.not_false, Bool.false_eq_true, ↓reduceIte]
    refine Triple.bind (JS.freeValue_spec v) fun _ => ?_
    refine Triple.bind (setError_spec _) fun _ => ?_
    exact (Triple.ret _).pre fun w hw => ⟨rfl, hw⟩

/-- How a function that returns the value `o` of an engine call ends. -/
def Answer (r : Nat) (b : World P) (L : Multiset Resource) (o : Option JSVal) (l : Loc P) (p : Ptr)
    (w : World P) : Prop :=
  match o with
  | some x => ∃ t, Delivered r b l L (.ref x t) p w
  | none => p = none ∧ Run r b l.capture L w

/-- The last lines of every such function. -/
theorem answer_spec {o : Option JSVal} (v : JSValue) :
    Triple (JS.Produced r b L o l v)
      (if v.isException = true then do captureException (some r); pure none
        else newValueHandle (some r) v) (Answer r b L o l) := by
  refine Triple.lift fun hv => ?_
  cases v with
  | exception =>
    subst hv
    rw [if_pos JSValue.isException_exception]
    refine Triple.bind (captureException_spec.pre fun w hw => by simpa using hw) fun _ => ?_
    exact (Triple.ret _).pre fun w hw => ⟨rfl, hw⟩
  | ref x t =>
    subst hv
    rw [if_neg (by simp)]
    exact (newValueHandle_spec _).post fun p w hw => ⟨t, hw⟩

/-! ## Modules -/

namespace Platform

/-- The engine calls of `copyProperties`. -/
def copyProperties (P : Platform) (ns object : JSVal) : List PropKey → EngineM P.Heap JSVal
  | [] => fun h => (.ok object, h)
  | atom :: atoms =>
    EngineM.andThen (P.getProperty ns atom) fun v =>
      EngineM.andThen (P.defineProperty object atom v) fun _ => P.copyProperties ns object atoms

/-- The engine calls of `new_mutable_namespace_object`. -/
def snapshot (P : Platform) (ns : JSVal) : EngineM P.Heap JSVal :=
  EngineM.andThen P.newObject fun object =>
    EngineM.andThen (P.ownPropertyNames ns) fun atoms => P.copyProperties ns object atoms

/-- The engine calls of `js_runtime_import_module`, for a source that was read. -/
def importModule (P : Platform) (source : List UInt8) (path : CStr) (loader : Bool) :
    EngineM P.Heap JSVal :=
  EngineM.andThen (P.compileModule source path.text loader) fun m =>
    EngineM.andThen (P.resolveModule m loader) fun _ =>
      EngineM.andThen (P.evalFunction m) fun _ =>
        EngineM.andThen (P.moduleNamespace m) P.snapshot

/-- The C library calls of `read_file`. -/
def readFile (P : Platform) (path : CStr) (host : P.Host) : Option (List UInt8) × P.Host :=
  match P.fopen path.text host with
  | (false, host) => (none, host)
  | (true, host) =>
    match P.fseek host with
    | (seekEnd, host) =>
      if seekEnd ≠ 0 then (none, host) else
      match P.ftell host with
      | (size, host) =>
        if size < 0 then (none, host) else
        match P.fseek host with
        | (seekSet, host) =>
          if seekSet ≠ 0 then (none, host) else
          match P.malloc host with
          | (false, host) => (none, host)
          | (true, host) =>
            match P.fread size.toNat host with
            | (bytes, host) =>
              if bytes.length ≠ size.toNat then (none, host) else (some bytes, host)

end Platform

/-- An engine call whose exception leaves the function through `c`. -/
theorem produce_branch {α : Type} {f : EngineM P.Heap JSVal} {c : BridgeM P α}
    {d : JSValue → BridgeM P α} {Q : α → World P → Prop}
    (herr : ∀ x h, f l.heap = (.error x, h) →
      Triple (Run r b { l with heap := h, exception := some x } L) c Q)
    (hok : ∀ a h t, f l.heap = (.ok a, h) →
      Triple (Run r b { l with heap := h } (L + {.jsValue t})) (d (.ref a t)) Q) :
    Triple (Run r b l L)
      (do let v ← JS.produce (some r) f; if v.isException = true then c else d v) Q := by
  refine Triple.bind (JS.produce_spec f) fun v => Triple.lift fun hv => ?_
  rcases hf : f l.heap with ⟨x | a, h⟩ <;> rw [hf] at hv
  · cases v with
    | exception =>
      rw [if_pos JSValue.isException_exception]
      exact Triple.pre (herr x h hf) fun w hw => by simpa using hw
    | ref u t => cases hv
  · cases v with
    | exception => cases hv
    | ref u t =>
      cases hv
      rw [if_neg (by simp)]
      exact hok _ h t hf

theorem copyProperties_spec {ns : JSValue} {t : JS.PropertyTable} {x : JSVal} {u : Nat}
    (atoms : List PropKey) :
    Triple (Run r b l (L + {.jsValue u} + {.propertyTable t.token}))
      (copyProperties (some r) ns (.ref x u) t atoms)
      (JS.Produced r b L (P.copyProperties ns.val x atoms l.heap).1.toOption
        (l.after (P.copyProperties ns.val x atoms l.heap))) := by
  induction atoms generalizing l with
  | nil =>
    unfold copyProperties
    refine Triple.bind (JS.freePropertyEnum_spec t) fun _ => ?_
    exact (Triple.ret _).pre fun w hw => ⟨rfl, hw⟩
  | cons atom atoms ih =>
    -- both exits release the table and the object
    have exit : ∀ {l' : Loc P}, Triple (Run r b l' (L + {.jsValue u} + {.propertyTable t.token}))
        (do JS.freePropertyEnum (some r) t; JS.freeValue (some r) (.ref x u); pure .exception)
        (JS.Produced r b L none l') := fun {l'} =>
      Triple.bind (JS.freePropertyEnum_spec t) fun _ =>
        Triple.bind (JS.freeValue_spec (.ref x u)) fun _ =>
          (Triple.ret _).pre fun w hw => ⟨rfl, by simpa using hw⟩
    unfold copyProperties
    simp only [Platform.copyProperties, EngineM.andThen]
    refine produce_branch (fun y h hg => ?_) (fun a h s hg => ?_) <;> rw [hg]
    · exact exit
    refine Triple.bind (JS.consume_status_spec (.ref a s) _) fun st => Triple.lift fun hst => ?_
    simp only [JSValue.val] at hst ⊢
    rcases hd : P.defineProperty x atom a h with ⟨y | d, h'⟩ <;> rw [hd] at hst
    · rw [if_pos (hst.mpr rfl)]
      exact exit
    · rw [if_neg (by simp [hst, Except.toOption])]
      exact ih

theorem newMutableNamespaceObject_spec (ns : JSValue) :
    Triple (Run r b l L) (newMutableNamespaceObject (some r) ns)
      (JS.Produced r b L (P.snapshot ns.val l.heap).1.toOption (l.after (P.snapshot ns.val l.heap))) := by
  unfold newMutableNamespaceObject
  simp only [Platform.snapshot, EngineM.andThen]
  refine produce_branch (fun y h hg => ?_) (fun a h s hg => ?_) <;> rw [hg]
  · exact (Triple.ret _).pre fun w hw => ⟨rfl, by simpa using hw⟩
  refine Triple.bind (JS.getOwnPropertyNames_spec ns) fun t => Triple.lift fun ht => ?_
  simp only at ht ⊢
  rcases hn : P.ownPropertyNames ns.val h with ⟨y | atoms, h'⟩ <;> rw [hn] at ht
  · obtain rfl : t = none := by simpa [Except.toOption] using ht
    refine Triple.bind (Triple.pre (JS.freeValue_spec (.ref a s)) fun w hw => by
      simpa using hw) fun _ => ?_
    exact (Triple.ret _).pre fun w hw => ⟨rfl, by simpa using hw⟩
  · obtain ⟨t, rfl, rfl⟩ : ∃ u, t = some u ∧ u.atoms = atoms := by
      simpa [Except.toOption] using ht
    exact copyProperties_spec t.atoms

/-- The entry of a file buffer that may be `NULL`. -/
def bufferRes : Option FileBuffer → Multiset Resource
  | none => 0
  | some f => {.buffer f.token}

theorem fclose_none_spec {l' : Loc P} (file : Nat) :
    Triple (Run r b l' (L + {.file file})) (do fclose file; pure (none : Option FileBuffer))
      (fun f w => f.map (·.bytes) = none ∧ Run r b l' (L + bufferRes f) w) :=
  Triple.bind (release_spec _) fun _ => (Triple.ret _).pre fun w hw => ⟨rfl, by simpa [bufferRes]⟩

theorem readFile_spec (path : CStr) :
    Triple (Run r b l L) (readFile path)
      (fun f w => f.map (·.bytes) = (P.readFile path l.host).1 ∧
        Run r b { l with host := (P.readFile path l.host).2 } (L + bufferRes f) w) := by
  unfold readFile fopen Platform.readFile
  rw [bind_assoc]
  refine Triple.bind (onHost_spec _) fun ok => Triple.lift fun hok => ?_
  subst hok
  rcases P.fopen path.text l.host with ⟨_ | _, h₁⟩
  · exact (Triple.ret _).pre fun w hw => ⟨rfl, by simpa [bufferRes] using hw⟩
  simp only [↓reduceIte, bind_assoc, pure_bind]
  refine Triple.bind (acquire_spec fun _ => rfl) fun file => ?_
  refine Triple.bind (onHost_spec _) fun st => Triple.lift fun hst => ?_
  subst hst
  rcases hs : P.fseek h₁ with ⟨st, h₂⟩
  simp only [hs]
  split
  · exact fclose_none_spec file
  refine Triple.bind (onHost_spec _) fun size => Triple.lift fun hsize => ?_
  subst hsize
  rcases ht : P.ftell h₂ with ⟨size, h₃⟩
  simp only [ht]
  split
  · simp only [pure_bind, ↓reduceIte]
    exact fclose_none_spec file
  simp only [bind_assoc, pure_bind]
  refine Triple.bind (onHost_spec _) fun st => Triple.lift fun hst => ?_
  subst hst
  rcases hs' : P.fseek h₃ with ⟨st', h₄⟩
  simp only [hs', decide_eq_true_eq]
  split
  · exact fclose_none_spec file
  refine Triple.bind malloc_spec fun ok => Triple.lift fun hok => ?_
  subst hok
  rcases P.malloc h₄ with ⟨_ | _, h₅⟩ <;>
    simp only [Bool.not_false, Bool.not_true, Bool.false_eq_true, ↓reduceIte]
  · exact fclose_none_spec file
  refine Triple.bind (acquire_spec fun _ => rfl) fun buffer => ?_
  refine Triple.bind (onHost_spec _) fun bytes => Triple.lift fun hbytes => ?_
  subst hbytes
  refine Triple.bind (Triple.pre (release_spec (L := L + {.buffer buffer}) _) fun w hw => by
    rwa [add_right_comm]) fun _ => ?_
  rcases hr : P.fread size.toNat h₅ with ⟨bytes, h₆⟩
  simp only [hr]
  split
  · refine Triple.bind (release_spec _) fun _ => ?_
    exact (Triple.ret _).pre fun w hw => ⟨rfl, by simpa [bufferRes] using hw⟩
  · exact (Triple.ret _).pre fun w hw => ⟨rfl, hw⟩

end InteropJs
