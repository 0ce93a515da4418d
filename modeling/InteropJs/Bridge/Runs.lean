import InteropJs.Bridge.Lifetime

/-!
# Runs of the bridge

`call_inv` is the step: a call that the client may make keeps `Inv`, and it runs without a fault unless
its arguments do not fit the C stack (`Call.Fits`). `Reach` are the states of all runs of a client that
keeps to the contract, and `Reach.inv` is the invariant of them. `handle_lifetime` and
`references_balanced` read off what it says about the counter, the release of a runtime, and the
resources.
-/

namespace InteropJs

open Hoare

variable {P : Platform} {c c' : Client} {r : Nat} {w w' : World P}

/-! ## One call -/

theorem Inv.nullOrLive {p : Ptr} (h : Inv c w) (hp : c.TakesOther p) : w.NullOrLive p := by
  rintro q rfl
  obtain ⟨r, hp | ⟨q', hq, hmem⟩⟩ := hp
  · cases hp
  · cases hq
    exact ⟨r, h.handles.holds q r hmem⟩

/-- A call with `NULL` for its runtime or its handle returns at once. -/
theorem null_inv {β : Type} {cmd : BridgeM P β} {x : β} (h : ∀ w, cmd.run w = .ok (x, w)) :
    Triple (Inv c) cmd fun y w => y = x ∧ Next c c w :=
  fun w hw => ⟨x, w, h w, rfl, Next.refl hw⟩

/-- A function on the runtime `p` that returns a handle. -/
theorem runtime_gives {f : Ptr → BridgeM P Ptr} {p : Ptr} (hp : c.TakesRuntime r p)
    (hnull : ∀ w, (f none).run w = .ok (none, w))
    (hf : ∀ w l L, Triple (Run r w l L) (f (some r)) (Gives r w l L)) :
    Triple (Inv c) (f p) fun x => Next c (c.give r x) := by
  obtain rfl | ⟨rfl, hr, hd⟩ := hp
  · exact Triple.post (null_inv hnull) fun x w ⟨hx, hw⟩ => by subst hx; exact hw
  · exact (Inv.gives_triple (F := fun _ => False) (Client.open_of_runtime hr hd) fun w l L _ =>
      (hf w l L).allow).total fun _ h => h

/-- A function on the handle `p` that returns a handle, or stops with an error in `F`. -/
theorem value_gives_or {f : Ptr → BridgeM P Ptr} {p : Ptr} {F : Fault → Prop} (hp : c.TakesValue r p)
    (hnull : ∀ w, (f none).run w = .ok (none, w))
    (hf : ∀ q x w l L, Inv c w → w.Holds q r x →
      TripleOr (Run r w l L) (f (some q)) F (Gives r w l L)) :
    TripleOr (Inv c) (f p) F fun x => Next c (c.give r x) := by
  obtain rfl | ⟨q, rfl, hmem⟩ := hp
  · exact (Triple.post (null_inv hnull) fun x w ⟨hx, hw⟩ => by subst hx; exact hw).allow
  · intro w h
    obtain ⟨x, hx⟩ := h.handles.holds q r hmem
    exact Inv.gives_triple (h.open_of_value hmem) (fun w l L h => by
      obtain ⟨x, hx⟩ := h.handles.holds q r hmem
      exact hf q x w l L h hx) w h

/-- A function on the handle `p` that returns a handle. -/
theorem value_gives {f : Ptr → BridgeM P Ptr} {p : Ptr} (hp : c.TakesValue r p)
    (hnull : ∀ w, (f none).run w = .ok (none, w))
    (hf : ∀ q x w l L, Inv c w → w.Holds q r x → Triple (Run r w l L) (f (some q)) (Gives r w l L)) :
    Triple (Inv c) (f p) fun x => Next c (c.give r x) :=
  (value_gives_or (F := fun _ => False) hp hnull fun q x w l L h hx => (hf q x w l L h hx).allow).total
    fun _ h => h

/-- A function on the handle `p` that neither gives nor takes. -/
theorem value_keeps {β : Type} {f : Ptr → BridgeM P β} {p : Ptr} {y : β} (hp : c.TakesValue r p)
    (hnull : ∀ w, (f none).run w = .ok (y, w))
    (hf : ∀ q x w l L, Inv c w → w.Holds q r x →
      Triple (Run r w l L) (f (some q)) fun _ => Quiet r w l L) :
    Triple (Inv c) (f p) fun _ => Next c c := by
  obtain rfl | ⟨q, rfl, hmem⟩ := hp
  · exact Triple.post (null_inv hnull) fun x w ⟨_, hw⟩ => hw
  · intro w h
    exact Inv.keep_triple (h.open_of_value hmem) (fun w l L h => by
      obtain ⟨x, hx⟩ := h.handles.holds q r hmem
      exact hf q x w l L h hx) w h

theorem jsValueToString_inv {p : Ptr} (hp : c.TakesValue r p) :
    Triple (Inv (P := P) c) (jsValueToString p) fun s => Next c (c.after r (.valueToString p) s) := by
  obtain rfl | ⟨q, rfl, hmem⟩ := hp
  · exact Triple.post (null_inv fun w => rfl) fun x w ⟨hx, hw⟩ => by subst hx; exact hw
  · intro w h
    refine Triple.post (Inv.quiet_triple (s := fun s => s.elim 0 fun s => {s}) (h.open_of_value hmem)
      fun w l L h => ?_) (fun s w hw => ?_) w h
    · obtain ⟨x, hx⟩ := h.handles.holds q r hmem
      refine Triple.post (jsValueToString_quiet hx) fun s w hw => ?_
      cases s <;> simpa using hw
    · cases s <;> simpa [Client.after] using hw

theorem valueCall_inv {p q : Ptr} {args : Option (List Ptr)} {n : Int}
    (hc : c.Allows r (.valueCall p q args n)) :
    TripleOr (Inv (P := P) c) (jsValueCall p q args n) (Call.Stops P (.valueCall p q args n)) fun x =>
      Next c (c.give r x) :=
  value_gives_or (f := (jsValueCall · q args n)) hc.1 (fun _ => rfl) fun _ _ _ _ _ h hx =>
    jsValueCall_gives hx (h.nullOrLive hc.2.1) hc.2.2.1 fun q hq => h.nullOrLive (hc.2.2.2 q hq)

theorem valueConstruct_inv {p : Ptr} {args : Option (List Ptr)} {n : Int}
    (hc : c.Allows r (.valueConstruct p args n)) :
    TripleOr (Inv (P := P) c) (jsValueConstruct p args n) (Call.Stops P (.valueConstruct p args n))
      fun x => Next c (c.give r x) :=
  value_gives_or (f := (jsValueConstruct · args n)) hc.1 (fun _ => rfl) fun _ _ _ _ _ h hx =>
    jsValueConstruct_gives hx hc.2.1 fun q hq => h.nullOrLive (hc.2.2 q hq)

/-- A call that the client may make, and whose arguments fit, runs without a fault and keeps the
invariant. -/
theorem call_inv_of_fits {β : Type} (call : Call β) (hc : c.Allows r call) (hfit : call.Fits P) :
    Triple (Inv (P := P) c) call.run fun x => Next c (c.after r call x) := by
  cases call with
  | runtimeCreate => exact jsRuntimeCreate_inv
  | runtimeDestroy p =>
    obtain rfl | ⟨rfl, hr, hd⟩ := hc
    · exact Triple.post (null_inv fun w => rfl) fun _ _ hw => hw.2
    · exact jsRuntimeDestroy_inv hr hd
  | runtimeLastError p =>
    obtain rfl | ⟨rfl, hr, hd⟩ := hc
    · exact Triple.post (null_inv fun w => rfl) fun _ _ hw => hw.2
    · exact Inv.keep_triple (Client.open_of_runtime hr hd) fun w l L _ => jsRuntimeLastError_quiet
  | runtimeEnableStdModule p =>
    obtain rfl | ⟨rfl, hr, hd⟩ := hc
    · exact Triple.post (null_inv fun w => rfl) fun _ _ hw => hw.2
    · exact Inv.keep_triple (Client.open_of_runtime hr hd) fun w l L _ => jsRuntimeEnableStdModule_quiet
  | runtimeEvalValue p source =>
    exact runtime_gives (f := (jsRuntimeEvalValue · source)) hc (fun _ => rfl) fun _ _ _ =>
      jsRuntimeEvalValue_gives source
  | runtimeGetGlobalProperty p name =>
    exact runtime_gives (f := (jsRuntimeGetGlobalProperty · name)) hc (fun _ => rfl) fun _ _ _ =>
      jsRuntimeGetGlobalProperty_gives name
  | runtimeNewBool p value =>
    exact runtime_gives (f := (jsRuntimeNewBool · value)) hc (fun _ => rfl) fun _ _ _ =>
      jsRuntimeNewBool_gives value
  | runtimeNewNumber p value =>
    exact runtime_gives (f := (jsRuntimeNewNumber · value)) hc (fun _ => rfl) fun _ _ _ =>
      jsRuntimeNewNumber_gives value
  | runtimeNewString p value =>
    exact runtime_gives (f := (jsRuntimeNewString · value)) hc (fun _ => rfl) fun _ _ _ =>
      jsRuntimeNewString_gives value
  | runtimeNewBigint p value =>
    exact runtime_gives (f := (jsRuntimeNewBigint · value)) hc (fun _ => rfl) fun _ _ _ =>
      jsRuntimeNewBigint_gives value
  | runtimeImportModule p path =>
    exact runtime_gives (f := (jsRuntimeImportModule · path)) hc (fun _ => rfl) fun _ _ _ =>
      jsRuntimeImportModule_gives path
  | valueDestroy p =>
    obtain rfl | ⟨q, rfl, hmem⟩ := hc
    · exact Triple.post (null_inv fun w => rfl) fun _ _ hw => hw.2
    · exact jsValueDestroy_inv hmem
  | valueKind p =>
    exact value_keeps hc (fun _ => rfl) fun _ _ _ _ _ _ hx => jsValueKind_quiet hx
  | valueToBool p =>
    exact value_keeps hc (fun _ => rfl) fun _ _ _ _ _ _ hx => jsValueToBool_quiet hx
  | valueToNumber p =>
    exact value_keeps hc (fun _ => rfl) fun _ _ _ _ _ _ hx => jsValueToNumber_quiet hx
  | valueToString p => exact jsValueToString_inv hc
  | bridgeFreeString s =>
    cases s with
    | none => exact Triple.post (null_inv fun w => rfl) fun _ _ hw => hw.2
    | some s => exact jsBridgeFreeString_inv (hc s rfl)
  | valueIsArray p =>
    exact value_keeps hc (fun _ => rfl) fun _ _ _ _ _ _ hx => jsValueIsArray_quiet hx
  | valueArrayLength p =>
    exact value_keeps hc (fun _ => rfl) fun _ _ _ _ _ _ hx => jsValueArrayLength_quiet hx
  | valueGetProperty p name =>
    exact value_gives (f := (jsValueGetProperty · name)) hc (fun _ => rfl) fun _ _ _ _ _ _ hx =>
      jsValueGetProperty_gives hx name
  | valueSetProperty p name q =>
    exact value_keeps (f := (jsValueSetProperty · name q)) hc.1 (fun _ => rfl) fun _ _ _ _ _ h hx =>
      jsValueSetProperty_quiet hx (h.nullOrLive hc.2) name
  | valueGetIndex p index =>
    exact value_gives (f := (jsValueGetIndex · index)) hc (fun _ => rfl) fun _ _ _ _ _ _ hx =>
      jsValueGetIndex_gives hx index
  | valueSetIndex p index q =>
    exact value_keeps (f := (jsValueSetIndex · index q)) hc.1 (fun _ => rfl) fun _ _ _ _ _ h hx =>
      jsValueSetIndex_quiet hx (h.nullOrLive hc.2) index
  | valueCall p q args n => exact (valueCall_inv hc).total fun _ h => h.2 hfit
  | valueConstruct p args n => exact (valueConstruct_inv hc).total fun _ h => h.2 hfit

/-- A call that the client may make keeps the invariant, unless its arguments do not fit. -/
theorem call_inv {β : Type} (call : Call β) (hc : c.Allows r call) :
    TripleOr (Inv (P := P) c) call.run (call.Stops P) fun x => Next c (c.after r call x) := by
  by_cases hfit : call.Fits P
  · exact (call_inv_of_fits call hc hfit).allow
  · cases call with
    | valueCall p q args n => exact valueCall_inv hc
    | valueConstruct p args n => exact valueConstruct_inv hc
    | _ => exact absurd trivial hfit

/-! ## All runs -/

/-- The world before the first call. -/
def World.start (host : P.Host) : World P where
  runtimes _ := none
  values _ := none
  nextRuntime := 0
  nextValue := 0
  nextToken := 0
  ledger := 0
  host := host
  entries := []
  frees := []

/-- A call that the client may make, with its result, or a step of an engine. -/
inductive Step : Client × World P → Client × World P → Prop where
  | call {c : Client} {w w' : World P} {β : Type} {r : Nat} (call : Call β) {x : β}
      (allowed : c.Allows r call) (ran : call.run.run w = .ok (x, w')) :
      Step (c, w) (c.after r call x, w')
  | reclaim {c : Client} {w : World P} {r : Nat} {l : Loc P} (open_ : w.loc? r = some l) (heap : P.Heap)
      (host : P.Host) : Step (c, w) (c, w.reclaimed r heap host)

/-- The states that a run reaches. -/
def Reach (c : Client) (w : World P) : Prop :=
  ∃ host, Relation.ReflTransGen Step (Client.start, World.start host) (c, w)

theorem Reach.start (host : P.Host) : Reach Client.start (World.start host) := ⟨host, .refl⟩

theorem Inv.start (host : P.Host) : Inv Client.start (World.start host) := by
  refine ⟨⟨fun _ _ h => ?_, fun _ _ => rfl, fun _ _ h => ?_⟩, fun r => ⟨fun h => ?_, fun _ => rfl,
    fun h => ?_, ?_⟩, fun _ _ h => ?_, fun _ h => ?_, ?_, ?_⟩
  · cases h
  · cases h
  · cases h.1
  · cases h
  · rw [if_neg fun hd => Finset.notMem_empty _ hd.1]
    rfl
  · cases h
  · cases h
  · simp [Client.owned, Client.start, World.start]
  · exact ⟨by simp [World.start], by simp [World.start]⟩

/-- A step keeps the invariant: the call has the result that `call_inv` speaks of. -/
theorem Step.inv {s s' : Client × World P} (h : Inv s.1 s.2) (hs : Step s s') : Next s.1 s'.1 s'.2 := by
  cases hs with
  | call call allowed ran => exact (call_inv call allowed).run_ok h ran
  | reclaim open_ heap host => exact .refl (h.reclaimed open_ heap host)

theorem Reach.inv (h : Reach c w) : Inv c w := by
  obtain ⟨host, hr⟩ := h
  exact reach_invariant (I := fun s : Client × World P => Inv s.1 s.2) (fun s s' hs h => (h.inv hs).1)
    (Inv.start host) hr

theorem Reach.call {β : Type} {x : β} (h : Reach c w) (call : Call β) (allowed : c.Allows r call)
    (ran : call.run.run w = .ok (x, w')) : Reach (c.after r call x) w' := by
  obtain ⟨host, hr⟩ := h
  exact ⟨host, hr.tail (.call call allowed ran)⟩

theorem Reach.reclaim {l : Loc P} (h : Reach c w) (open_ : w.loc? r = some l) (heap : P.Heap) (host : P.Host) :
    Reach c (w.reclaimed r heap host) := by
  obtain ⟨start, hr⟩ := h
  exact ⟨start, hr.tail (.reclaim open_ heap host)⟩

/-- A run that creates a runtime and a handle, and then gives the runtime back. -/
theorem idle_reach : ∃ w : World (Platform.idle Nat 0),
    Reach { runtimes := {0}, destroyed := {0}, live := {(0, 0)}, strings := 0 } w := by
  have h₁ := (Reach.start (P := Platform.idle Nat 0) ()).call (r := 0) .runtimeCreate trivial rfl
  have h₂ := h₁.call (r := 0) (.runtimeNewBool (some 0) 1) (.inr ⟨rfl, by decide, by decide⟩) rfl
  have h₃ := h₂.call (r := 0) (.runtimeDestroy (some 0)) (.inr ⟨rfl, by decide, by decide⟩) rfl
  exact ⟨_, h₃⟩

/-- In every state of every run: the counter of a runtime is the number of its live handles, so the
guard of `js_value_destroy` lets every decrement through; `free_runtime` ran once for each runtime
that was given back and has no live handle, and for no other; such a runtime stays freed; and
every call that the contract allows runs, without access to freed memory, or ends the process because
its arguments do not fit the stack. -/
theorem handle_lifetime (h : Reach c w) :
    (∀ r, c.Open r → ∃ cell, w.runtimes r = some cell ∧ cell.valueCount = (c.handles r).card ∧
      (cell.destroying = true ↔ r ∈ c.destroyed)) ∧
    (∀ p r, (p, r) ∈ c.live → ∃ cell, w.runtimes r = some cell ∧ 0 < cell.valueCount) ∧
    (∀ r, w.frees.count r = if c.Done r then 1 else 0) ∧
    (∀ r, c.Done r → w.runtimes r = none) ∧
    ∀ (r : Nat) (β : Type) (call : Call β), c.Allows r call →
      (∃ x w', call.run.run w = .ok (x, w') ∧ Reach (c.after r call x) w' ∧
        ∀ r', c.Done r' → (c.after r call x).Done r') ∨
      (call.run.run w = .error .stackOverflow ∧ ¬ call.Fits P) := by
  have hinv := h.inv
  refine ⟨fun r hr => ?_, fun p r hp => ?_, fun r => (hinv.runtime r).frees,
    fun r hd => (hinv.runtime r).freed fun ho => ho.2 hd, fun r β call allowed => ?_⟩
  · obtain ⟨l, e, hcell, hcount, hmark⟩ := (hinv.runtime r).cell hr
    exact ⟨_, hcell, hcount, hmark⟩
  · obtain ⟨l, e, hcell, hcount, -⟩ := (hinv.runtime r).cell (hinv.open_of_value hp)
    refine ⟨_, hcell, ?_⟩
    rw [show (l.cell e).valueCount = l.count from rfl, hcount]
    exact Finset.card_pos.mpr ⟨(p, r), Client.mem_handles.mpr ⟨hp, rfl⟩⟩
  · obtain ⟨x, w', hx, hw⟩ | ⟨_, hx, rfl, hfit⟩ := call_inv call allowed w hinv
    · exact .inl ⟨x, w', hx, h.call call allowed hx, hw.2⟩
    · exact .inr ⟨hx, hfit⟩

/-- The runtime of `idle_reach` waits for its handle. -/
theorem handle_lifetime_idle : ∃ (c : Client) (w : World (Platform.idle Nat 0)), Reach c w ∧
    c.destroyed = {0} ∧ (∃ cell, w.runtimes 0 = some cell ∧ cell.valueCount = 1) ∧
    w.frees.count 0 = 0 := by
  obtain ⟨w, hw⟩ := idle_reach
  obtain ⟨hcount, -, hfrees, -⟩ := handle_lifetime hw
  obtain ⟨cell, hcell, hc, -⟩ := hcount 0 ⟨by decide, by decide⟩
  exact ⟨_, w, hw, rfl, ⟨cell, hcell, hc.trans (by decide)⟩, (hfrees 0).trans (by decide)⟩

/-- In every state of every run: the ledger is one reference for each live handle, the error string
of each runtime and the strings that the client has to free; no resource is held twice; and every
call that the contract allows runs, without the release of a resource that is not held, and leaves
such a ledger, or ends the process because its arguments do not fit the stack. -/
theorem references_balanced (h : Reach c w) :
    w.ledger = c.owned w ∧ (∀ q ∈ c.live, ∃ t, w.handleRes q.1 = {.jsValue t}) ∧
    (w.ledger.map Resource.token).Nodup ∧
    ∀ (r : Nat) (β : Type) (call : Call β), c.Allows r call →
      (∃ x w', call.run.run w = .ok (x, w') ∧ w'.ledger = (c.after r call x).owned w' ∧
        (∀ q ∈ (c.after r call x).live, ∃ t, w'.handleRes q.1 = {.jsValue t}) ∧
        (w'.ledger.map Resource.token).Nodup) ∨
      (call.run.run w = .error .stackOverflow ∧ ¬ call.Fits P) := by
  have hone : ∀ {c : Client} {w : World P}, Inv c w → ∀ q ∈ c.live, ∃ t, w.handleRes q.1 = {.jsValue t} :=
    fun hinv q hq => by
      obtain ⟨x, t, ht⟩ := hinv.handles.holds q.1 q.2 hq
      exact ⟨t, by simp [World.handleRes, ht]⟩
  have hinv := h.inv
  refine ⟨hinv.ledger, hone hinv, hinv.fresh.1, fun r β call allowed => ?_⟩
  obtain ⟨x, w', hx, hw, -⟩ | ⟨_, hx, rfl, hfit⟩ := call_inv call allowed w hinv
  · exact .inl ⟨x, w', hx, hw.ledger, hone hw, hw.fresh.1⟩
  · exact .inr ⟨hx, hfit⟩

theorem references_balanced_idle : ∃ (c : Client) (w : World (Platform.idle Nat 0)), Reach c w ∧
    c.live = {(0, 0)} ∧ ∃ t, w.ledger = {.jsValue t} + w.errorRes 0 := by
  obtain ⟨w, hw⟩ := idle_reach
  obtain ⟨hledger, hone, -⟩ := references_balanced hw
  obtain ⟨t, ht⟩ := hone (0, 0) (by decide)
  refine ⟨_, w, hw, rfl, t, hledger.trans ?_⟩
  simp only [Client.owned, Finset.sum_singleton, ht, Multiset.map_zero, add_zero]

end InteropJs
