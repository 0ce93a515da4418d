import InteropJs.Bridge.Failure

/-!
# The error of a call is its own

A call that reports a failure leaves a message in `last_error`, and the message is not an older one.

* `World.forget` is the world in which `last_error` is `NULL`. A call that reports does the same there,
  to the last block (`Call.run_forget`): all it does before it writes the slot is to read (`Reads`).
* `Wiped` is what the table says: an exit other than a failed check is reached with an empty slot.
* A finaliser (`js_value_destroy`) keeps the error of every runtime that it does not free.
-/

namespace InteropJs

open Hoare

variable {P : Platform}

/-- The calls whose result reports a failure. -/
def Call.Reports : {β : Type} → Call β → Prop
  | _, .runtimeEnableStdModule _ | _, .runtimeEvalValue _ _ | _, .runtimeGetGlobalProperty _ _
  | _, .runtimeNewBool _ _ | _, .runtimeNewNumber _ _ | _, .runtimeNewString _ _
  | _, .runtimeNewBigint _ _ | _, .runtimeImportModule _ _ | _, .valueGetProperty _ _
  | _, .valueSetProperty _ _ _ | _, .valueGetIndex _ _ | _, .valueSetIndex _ _ _
  | _, .valueCall _ _ _ _ | _, .valueConstruct _ _ _ => True
  | _, _ => False

/-! ## The world without the error -/

/-- `w` with no error in `r`. -/
def World.forget (w : World P) (r : Nat) : World P :=
  match w.runtimes r with
  | none => w
  | some cell => { w with
      runtimes := Function.update w.runtimes r (some { cell with lastError := none })
      ledger := w.ledger - stringRes cell.lastError }

/-- `r` is open, and the bridge owns its error string. -/
structure World.Held (w : World P) (r : Nat) (cell : RuntimeHandle P) : Prop where
  block : w.runtimes r = some cell
  runtime : cell.runtime.isSome
  context : cell.context.isSome
  owned : stringRes cell.lastError ≤ w.ledger

section Forget

variable {r : Nat} {w : World P} {cell : RuntimeHandle P}

theorem World.Held.forget_eq (h : w.Held r cell) : w.forget r = { w with
      runtimes := Function.update w.runtimes r (some { cell with lastError := none })
      ledger := w.ledger - stringRes cell.lastError } := by
  simp only [World.forget, h.block]

theorem World.Held.forget (h : w.Held r cell) :
    (w.forget r).Held r { cell with lastError := none } := by
  rw [h.forget_eq]
  exact ⟨by simp, h.runtime, h.context, Multiset.zero_le _⟩

@[simp] theorem World.forget_values (w : World P) (r : Nat) : (w.forget r).values = w.values := by
  unfold World.forget
  split <;> rfl

theorem freeString_run (s : Option OwnedString) (hs : stringRes s ≤ w.ledger) :
    (freeString s).run w = .ok ((), { w with ledger := w.ledger - stringRes s }) := by
  cases s with
  | none =>
    rw [stringRes_none, Multiset.sub_zero]
    rfl
  | some s =>
    have hmem : Resource.string s.token ∈ w.ledger := by simpa using hs
    simp [freeString, release, StateT.run, hmem, Multiset.sub_singleton]

theorem clearError_run (h : w.Held r cell) : (clearError (some r)).run w = .ok ((), w.forget r) := by
  unfold clearError
  rw [if_neg (by simp), run_bind_of (readRuntime_run h.block), run_bind_of (freeString_run _ h.owned),
    h.forget_eq]
  rfl

theorem clearError_forget (h : w.Held r cell) :
    (clearError (some r)).run (w.forget r) = .ok ((), w.forget r) := by
  rw [clearError_run h.forget, h.forget.forget_eq, h.forget_eq]
  simp

/-- The last two lines of `set_error`. -/
theorem writeError_run (cell : RuntimeHandle P) (copy : Option OwnedString)
    (h : w.runtimes r = some cell) :
    (do let c ← readRuntime (some r); writeRuntime (some r) { c with lastError := copy }).run w =
      .ok ((), { w with runtimes := Function.update w.runtimes r (some { cell with lastError := copy }) }) := by
  rw [run_bind_of (readRuntime_run h)]
  rfl

/-- `set_error` writes over the slot. -/
theorem setError_forget (h : w.Held r cell) (message : Option CStr) :
    (setError (some r) message).run w = (setError (some r) message).run (w.forget r) := by
  unfold setError
  rw [if_neg (by simp), run_bind_of (readRuntime_run h.block), run_bind_of (freeString_run _ h.owned),
    run_bind_of (readRuntime_run h.forget.block), run_bind_of (freeString_run _ h.forget.owned),
    h.forget_eq]
  simp only [stringRes_none, Multiset.sub_zero]
  unfold copyString
  rw [bind_assoc, run_bind_of (c := malloc) (onHost_run P.malloc _),
    run_bind_of (c := malloc) (onHost_run P.malloc _)]
  simp only
  cases (P.malloc w.host).1 with
  | false =>
    simp only [Bool.false_eq_true, if_false, pure_bind]
    rw [writeError_run cell none (by exact h.block),
      writeError_run { cell with lastError := none } none (by simp)]
    simp
  | true =>
    simp only [if_true, bind_assoc, pure_bind]
    rw [run_bind_of (x := w.nextToken) rfl, run_bind_of (x := w.nextToken) rfl,
      writeError_run cell _ (by exact h.block),
      writeError_run { cell with lastError := none } _ (by simp)]
    simp

/-! ### Calls that write the slot first -/

/-- `c` does the same in the world without the error. -/
def Blind {α : Type} (r : Nat) (w : World P) (c : BridgeM P α) : Prop := c.run w = c.run (w.forget r)

/-- `c` only reads, and not the error. -/
def Reads {α : Type} (r : Nat) (w : World P) (c : BridgeM P α) : Prop :=
  ∃ x, c.run w = .ok (x, w) ∧ c.run (w.forget r) = .ok (x, w.forget r)

section Blind

variable {α β : Type} {c d : BridgeM P α} {g : α → BridgeM P β}

theorem Blind.bind (hc : Blind r w c) : Blind r w (c >>= g) := by
  unfold Blind
  rw [StateT.run_bind, StateT.run_bind, hc]

theorem Reads.bind (hc : Reads r w c) (hg : ∀ x, Blind r w (g x)) : Blind r w (c >>= g) := by
  obtain ⟨x, hw, hf⟩ := hc
  unfold Blind
  rw [run_bind_of hw, run_bind_of hf]
  exact hg x

theorem Reads.bind_reads (hc : Reads r w c) (hg : ∀ x, Reads r w (g x)) : Reads r w (c >>= g) := by
  obtain ⟨x, hw, hf⟩ := hc
  obtain ⟨y, hw', hf'⟩ := hg x
  exact ⟨y, by rw [run_bind_of hw, hw'], by rw [run_bind_of hf, hf']⟩

theorem Reads.pure (x : α) : Reads r w (Pure.pure x : BridgeM P α) := ⟨x, rfl, rfl⟩

theorem Reads.ite {φ : Prop} [Decidable φ] (hc : Reads r w c) (hd : Reads r w d) :
    Reads r w (if φ then c else d) := by
  by_cases hφ : φ
  · rwa [if_pos hφ]
  · rwa [if_neg hφ]

theorem Blind.ite {φ : Prop} [Decidable φ] (hc : Blind r w c) (hd : Blind r w d) :
    Blind r w (if φ then c else d) := by
  by_cases hφ : φ
  · rwa [if_pos hφ]
  · rwa [if_neg hφ]

theorem blind_clearError (h : w.Held r cell) {g : Unit → BridgeM P β} :
    Blind r w (clearError (some r) >>= g) := by
  unfold Blind
  rw [run_bind_of (clearError_run h), run_bind_of (clearError_forget h)]

theorem blind_setError (h : w.Held r cell) (message : Option CStr) {g : Unit → BridgeM P β} :
    Blind r w (setError (some r) message >>= g) :=
  Blind.bind (setError_forget h message)

theorem validRuntime_run (h : w.Held r cell) : (validRuntime (some r)).run w = .ok (true, w) := by
  unfold validRuntime
  rw [if_neg (by simp), run_bind_of (readRuntime_run h.block)]
  simp only [h.runtime, h.context]
  rfl

/-- A live runtime passes its check in both worlds. -/
theorem blind_guard (h : w.Held r cell) (hc : Blind r w c) :
    Blind r w (do let v ← validRuntime (some r); if (!v) = true then d else c) := by
  unfold Blind
  rw [run_bind_of (validRuntime_run h), run_bind_of (validRuntime_run h.forget)]
  simp only [Bool.not_true, Bool.false_eq_true, if_false]
  exact hc

theorem reads_readValue {p : Nat} {x : ValueHandle} (hp : w.values p = some x) :
    Reads r w (readValue (some p)) :=
  ⟨x, readValue_run hp, readValue_run (by rwa [World.forget_values])⟩

/-- A live handle passes its check; then its fields are read. -/
theorem guardValue_run {p : Nat} {v : JSValue} {c : ValueHandle → BridgeM P α} (h : w.Held r cell)
    (hp : w.values p = some ⟨some r, v⟩) :
    (do let v ← validValue (some p)
        if (!v) = true then d else do let h ← readValue (some p); c h).run w =
      (c ⟨some r, v⟩).run w := by
  have hvalid : (validValue (some p)).run w = .ok (true, w) := by
    unfold validValue
    rw [if_neg (by simp), run_bind_of (readValue_run hp)]
    exact validRuntime_run h
  rw [run_bind_of hvalid]
  simp only [Bool.not_true, Bool.false_eq_true, if_false]
  rw [run_bind_of (readValue_run hp)]

theorem blind_guardValue {p : Nat} {v : JSValue} {c : ValueHandle → BridgeM P α} (h : w.Held r cell)
    (hp : w.values p = some ⟨some r, v⟩) (hc : Blind r w (c ⟨some r, v⟩)) :
    Blind r w (do
      let v ← validValue (some p)
      if (!v) = true then d else do let h ← readValue (some p); c h) := by
  unfold Blind
  rw [guardValue_run h hp, guardValue_run h.forget (by rwa [World.forget_values])]
  exact hc

theorem reads_isForeign {q : Ptr} (hq : w.NullOrLive q) (rt : Ptr) : Reads r w (isForeign q rt) := by
  unfold isForeign
  cases q with
  | none => exact .pure _
  | some q =>
    obtain ⟨r', x, t, ht⟩ := hq q rfl
    rw [if_neg (by simp)]
    exact (reads_readValue ht).bind_reads fun _ => .pure _

/-- `c` only reads and returns something, or it writes the slot. -/
def ReadsOr {α : Type} (r : Nat) (w : World P) (c : BridgeM P (Option α)) : Prop :=
  (∃ x, c.run w = .ok (some x, w) ∧ c.run (w.forget r) = .ok (some x, w.forget r)) ∨ Blind r w c

theorem ReadsOr.bind {c : BridgeM P (Option α)} {g : Option α → BridgeM P β} (hc : ReadsOr r w c)
    (hg : ∀ x, Blind r w (g (some x))) : Blind r w (c >>= g) := by
  obtain ⟨x, hw, hf⟩ | hb := hc
  · unfold Blind
    rw [run_bind_of hw, run_bind_of hf]
    exact hg x
  · exact hb.bind

theorem fillArgvLoop_blind (h : w.Held r cell) {args : List Ptr} {n : Nat} (hn : n ≤ args.length)
    (hargs : ∀ q ∈ args, w.NullOrLive q) : ReadsOr r w (fillArgvLoop (some r) args n) := by
  induction args generalizing n with
  | nil =>
    obtain rfl : n = 0 := by simpa using hn
    exact .inl ⟨[], rfl, rfl⟩
  | cons q args ih =>
    cases n with
    | zero => exact .inl ⟨[], rfl, rfl⟩
    | succ n =>
      have hq := hargs q (by simp)
      obtain ⟨foreign, hw, hf⟩ := reads_isForeign (r := r) hq (some r)
      unfold fillArgvLoop ReadsOr Blind
      rw [run_bind_of hw, run_bind_of hf]
      cases foreign with
      | true => exact .inr (blind_setError h _)
      | false =>
        rw [if_neg (by simp)]
        -- the check let a live handle through
        obtain ⟨v, hv, hv'⟩ : Reads r w (readValue q) := by
          cases q with
          | none => cases hw
          | some q =>
            obtain ⟨r', x, t, ht⟩ := hq q rfl
            exact reads_readValue ht
        rw [run_bind_of hv, run_bind_of hv']
        obtain ⟨argv, hr, hr'⟩ | hb := ih (n := n) (by simpa using hn) fun q hq => hargs q (by simp [hq])
        · rw [run_bind_of hr, run_bind_of hr']
          exact .inl ⟨_, rfl, rfl⟩
        · exact .inr hb.bind

theorem fillArgv_blind {p : Nat} {v : JSValue} {args : Option (List Ptr)} {n : Int} (h : w.Held r cell)
    (hp : w.values p = some ⟨some r, v⟩) (hn : CountsArgs args n)
    (hargs : ∀ q ∈ args.getD [], w.NullOrLive q) : ReadsOr r w (fillArgv (some p) args n) := by
  by_cases hneg : n < 0
  · refine .inr (blind_guardValue h hp ?_)
    simp only [if_pos hneg]
    exact blind_setError h _
  by_cases hnull : 0 < n ∧ args.isNone = true
  · refine .inr (blind_guardValue h hp ?_)
    simp only [if_neg hneg, if_pos hnull]
    exact blind_setError h _
  have hloop := fillArgvLoop_blind h (n := n.toNat) (hn.toNat_le hnull) hargs
  unfold ReadsOr Blind fillArgv at *
  rw [guardValue_run h hp, guardValue_run h.forget (by rwa [World.forget_values])]
  simp only [if_neg hneg, if_neg hnull]
  exact hloop

/-- The array is made without a look at the world, or the process ends. -/
theorem blind_stackArgv {n : Int} {g : Unit → BridgeM P β} (hg : Blind r w (g ())) :
    Blind r w (stackArgv n >>= g) := by
  unfold stackArgv
  by_cases hfit : P.FitsArgv n
  · rw [if_pos hfit]
    exact (Reads.pure ()).bind fun _ => hg
  · rw [if_neg hfit]
    exact Blind.bind rfl

theorem blind_enable (h : w.Held r cell) (hstd : cell.stdModuleEnabled = false) :
    Blind r w (jsRuntimeEnableStdModule (some r)) := by
  refine blind_guard h ?_
  unfold Blind
  rw [run_bind_of (readRuntime_run h.block), run_bind_of (readRuntime_run h.forget.block)]
  simp only [hstd, Bool.false_eq_true, if_false]
  exact blind_clearError h

/-- A function of a runtime that checks its string first. -/
theorem blind_named {f : Option CStr → BridgeM P Ptr} {k : CStr → Unit → BridgeM P Ptr}
    {d : Unit → BridgeM P Ptr} {message : Option CStr} (h : w.Held r cell) (s : Option CStr)
    (hnull : f none = do
      let v ← validRuntime (some r)
      if (!v) = true then pure none else setError (some r) message >>= d)
    (hsome : ∀ s, f (some s) = do
      let v ← validRuntime (some r)
      if (!v) = true then pure none else clearError (some r) >>= k s) : Blind r w (f s) := by
  cases s with
  | none =>
    rw [hnull]
    exact blind_guard h (blind_setError h _)
  | some s =>
    rw [hsome]
    exact blind_guard h (blind_clearError h)

end Blind

end Forget

variable {r : Nat} {w : World P} {l : Loc P} {c : Client}

theorem Inv.held (h : Inv c w) (hl : w.loc? r = some l) :
    ∃ cell, w.Held r cell ∧ cell.stdModuleEnabled = l.stdEnabled := by
  obtain ⟨e, -, hw⟩ := h.run_of_loc hl
  refine ⟨l.cell e, ⟨hw.cell, rfl, rfl, ?_⟩, rfl⟩
  rw [hw.ledger]
  exact Multiset.le_add_left _ _

/-- A call that reports does not depend on the error before it, but for the call that finds the
standard modules enabled. -/
theorem Call.run_forget {β : Type} {call : Call β} (h : Inv c w) (hl : w.loc? r = some l)
    (hon : call.On w r) (hr : call.Reports) (hstd : ¬ (call.Enables ∧ l.stdEnabled = true)) :
    call.run.run w = call.run.run (w.forget r) := by
  obtain ⟨cell, hheld, hcell⟩ := h.held hl
  change Blind r w call.run
  cases call with
  | runtimeEnableStdModule p =>
    obtain rfl : p = some r := hon
    exact blind_enable hheld (hcell.trans (by simpa [Call.Enables] using hstd))
  | runtimeEvalValue p source =>
    obtain rfl : p = some r := hon
    exact blind_named (f := jsRuntimeEvalValue (some r)) hheld source rfl fun _ => rfl
  | runtimeGetGlobalProperty p name =>
    obtain rfl : p = some r := hon
    exact blind_named (f := jsRuntimeGetGlobalProperty (some r)) hheld name rfl fun _ => rfl
  | runtimeNewBool p value =>
    obtain rfl : p = some r := hon
    exact blind_guard hheld (blind_clearError hheld)
  | runtimeNewNumber p value =>
    obtain rfl : p = some r := hon
    exact blind_guard hheld (blind_clearError hheld)
  | runtimeNewString p value =>
    obtain rfl : p = some r := hon
    exact blind_named (f := jsRuntimeNewString (some r)) hheld value rfl fun _ => rfl
  | runtimeNewBigint p value =>
    obtain rfl : p = some r := hon
    exact blind_named (f := jsRuntimeNewBigint (some r)) hheld value rfl fun _ => rfl
  | runtimeImportModule p path =>
    obtain rfl : p = some r := hon
    exact blind_named (f := jsRuntimeImportModule (some r)) hheld path rfl fun _ => rfl
  | valueGetProperty p name =>
    obtain ⟨q, x, rfl, t, ht⟩ := hon
    refine blind_guardValue hheld ht ?_
    cases name with
    | none => exact blind_setError hheld _
    | some s => exact blind_clearError hheld
  | valueSetProperty p name q =>
    obtain ⟨⟨q', x, rfl, t, ht⟩, hq⟩ := hon
    refine blind_guardValue hheld ht ?_
    cases name with
    | none => exact blind_setError hheld _
    | some s =>
      exact (reads_isForeign hq _).bind fun _ => .ite (blind_setError hheld _) (blind_clearError hheld)
  | valueGetIndex p index =>
    obtain ⟨q, x, rfl, t, ht⟩ := hon
    exact blind_guardValue hheld ht (.ite (blind_setError hheld _) (blind_clearError hheld))
  | valueSetIndex p index q =>
    obtain ⟨⟨q', x, rfl, t, ht⟩, hq⟩ := hon
    exact blind_guardValue hheld ht <| .ite (blind_setError hheld _) <|
      (reads_isForeign hq _).bind fun _ => .ite (blind_setError hheld _) (blind_clearError hheld)
  | valueCall p q args n =>
    obtain ⟨⟨q', x, rfl, t, ht⟩, hq, hn, hargs⟩ := hon
    refine blind_guardValue hheld ht <| (Reads.ite (.pure _) (reads_isForeign hq _)).bind fun _ =>
      .ite (blind_setError hheld _) <| .ite (blind_setError hheld _) <| blind_stackArgv ?_
    exact (fillArgv_blind hheld ht hn hargs).bind fun _ => blind_clearError hheld
  | valueConstruct p args n =>
    obtain ⟨⟨q', x, rfl, t, ht⟩, hn, hargs⟩ := hon
    refine blind_guardValue hheld ht <| .ite (blind_setError hheld _) <| blind_stackArgv ?_
    exact (fillArgv_blind hheld ht hn hargs).bind fun _ => blind_clearError hheld
  | _ => cases hr

/-! ## What the table says -/

/-- The state of the C library in which the exit `out` copies its message. -/
def copyHost (out : Outcome × Loc P) : P.Host :=
  match out with
  | (.value _, l) => (P.malloc l.host).2
  | (_, l) => l.host

/-- The exits of a call that reports: `0` is the only result besides a handle, and the slot is empty
unless a check failed. -/
def Wiped (out : Outcome × Loc P) : Prop :=
  match out with
  | (.reject _, _) => True
  | (.raise, l) | (.value _, l) => l.error = none
  | (.done s, l) => s = .int 0 ∧ l.error = none

/-- An exit with a failure leaves its message, an exit with a result leaves none. -/
theorem finish_error {out : Outcome × Loc P} (h : Wiped out) (fail : Seen) :
    ((P.malloc (copyHost out)).1 = true → (Loc.finish fail out).2.error.isSome = true) ∧
        (Loc.finish fail out).1 = fail ∨
      (Loc.finish fail out).2.error = none ∧
        ((Loc.finish fail out).1 = .int 0 ∨ ∃ v, (Loc.finish fail out).1 = .handle (some v)) := by
  obtain ⟨_ | _ | x | _, l⟩ := out
  · exact .inl ⟨fun hm => by simpa [Loc.finish, Loc.setError, copyHost] using hm, rfl⟩
  · refine .inl ⟨fun hm => ?_, rfl⟩
    simp only [copyHost] at hm
    simp only [Loc.finish, Loc.capture]
    rcases P.toCString (l.exception.getD .uninitialized) l.heap with ⟨_ | _, _⟩ <;>
      simp [Loc.setError, hm]
  · simp only [Loc.finish, copyHost]
    by_cases hm : (P.malloc l.host).1 = true
    · rw [if_pos hm]
      exact .inr ⟨h, .inr ⟨x, rfl⟩⟩
    · rw [if_neg hm]
      exact .inl ⟨fun hm' => by simpa [Loc.setError] using hm', rfl⟩
  · exact .inr ⟨h.2, .inl h.1⟩

section Wiped

theorem wiped_check {α : Type} {check : Except CStr α} {k : α → Outcome × Loc P}
    (hk : ∀ a, Wiped (k a)) : Wiped (l.check check k) := by
  cases check with
  | error m => trivial
  | ok a => exact hk a

theorem wiped_answer {o : Option JSVal} (hl : l.error = none) : Wiped (.answer o, l) := by
  cases o <;> exact hl

theorem error_after {α : Type} (l : Loc P) (out : Except JSVal α × P.Heap) :
    (l.after out).error = l.error := by
  rcases out with ⟨_ | _, _⟩ <;> rfl

theorem error_started (l : Loc P) (f : JSVal) (runs : Bool) : (l.started f runs).error = l.error := by
  cases runs <;> rfl

theorem wiped_answers (out : Except JSVal JSVal × P.Heap) : Wiped (l.answers out) :=
  wiped_answer (error_after l.clearError out)

theorem wiped_reports {α : Type} (out : Except JSVal α × P.Heap) : Wiped (l.reports out) := by
  rcases out with ⟨_ | _, _⟩
  · rfl
  · exact ⟨rfl, rfl⟩

theorem wiped_importing (path : CStr) : Wiped (l.importing path) := by
  unfold Loc.importing
  rcases P.readFile path l.host with ⟨_ | source, host⟩
  · trivial
  · exact wiped_answers (l := { l with host }) _

theorem wiped_enabling (hstd : l.stdEnabled ≠ true) : Wiped l.enabling := by
  unfold Loc.enabling
  rw [if_neg hstd]
  rcases P.initModuleStd l.heap with ⟨_ | _, _⟩
  · rfl
  · exact ⟨rfl, rfl⟩

theorem error_callBigint (l : Loc P) (f : JSVal) (s : CStr) :
    (l.callBigint f s).2.error = l.error := by
  unfold Loc.callBigint
  rcases P.newJSString s l.heap with ⟨_ | a, h⟩
  · rfl
  · simp only [error_after, error_started]

theorem Call.outcome_wiped {β : Type} {call : Call β} (hon : call.On w r) (hr : call.Reports)
    (hstd : ¬ (call.Enables ∧ l.stdEnabled = true)) : Wiped (call.outcome (w.valueOf r) l) := by
  cases call with
  | runtimeEnableStdModule p => exact wiped_enabling (by simpa [Call.Enables] using hstd)
  | runtimeEvalValue p source => exact wiped_check fun _ => wiped_answers _
  | runtimeGetGlobalProperty p name => exact wiped_check fun _ => wiped_answers _
  | runtimeNewBool p value => rfl
  | runtimeNewNumber p value => rfl
  | runtimeNewString p value => exact wiped_check fun _ => wiped_answers _
  | runtimeNewBigint p value =>
    refine wiped_check fun s => wiped_answer ?_
    rw [Loc.newBigint, error_callBigint, error_after]
    rfl
  | runtimeImportModule p path => exact wiped_check fun path => wiped_importing path
  | valueGetProperty p name =>
    obtain ⟨q, x, rfl, hx⟩ := hon
    rw [Call.outcome, hx.valueOf]
    exact wiped_check fun _ => wiped_answers _
  | valueSetProperty p name q =>
    obtain ⟨⟨q', x, rfl, hx⟩, -⟩ := hon
    rw [Call.outcome, hx.valueOf]
    exact wiped_check fun _ => wiped_check fun _ => wiped_reports _
  | valueGetIndex p index =>
    obtain ⟨q, x, rfl, hx⟩ := hon
    rw [Call.outcome, hx.valueOf]
    exact wiped_check fun _ => wiped_answers _
  | valueSetIndex p index q =>
    obtain ⟨⟨q', x, rfl, hx⟩, -⟩ := hon
    rw [Call.outcome, hx.valueOf]
    exact wiped_check fun _ => wiped_check fun _ => wiped_reports _
  | valueCall p q args n =>
    obtain ⟨⟨q', x, rfl, hx⟩, -⟩ := hon
    rw [Call.outcome, hx.valueOf]
    refine wiped_check fun _ => wiped_check fun _ => wiped_answer ?_
    rw [Loc.afterCall, error_after, error_started]
    rfl
  | valueConstruct p args n =>
    obtain ⟨⟨q', x, rfl, hx⟩, -⟩ := hon
    rw [Call.outcome, hx.valueOf]
    refine wiped_check fun _ => wiped_answer ?_
    rw [Loc.afterConstruct, error_after, error_started]
    rfl
  | _ => cases hr

end Wiped

/-! ## Which results report a failure -/

variable {w' : World P}

theorem Shows.valueOf_eq_none {out : Seen × Loc P} {s : Seen} {p : Ptr} (h : Shows r w out s p w') :
    w'.valueOf r p = none ↔ p = none := by
  obtain ⟨-, b', L, hw, ⟨rfl, -⟩ | ⟨x, t, rfl, rfl⟩⟩ := h
  · exact iff_of_true rfl rfl
  · rw [hw.valueOf_nextValue]
    simp

theorem int_failed (i : Int) :
    i ≠ 0 ↔ ¬ (Seen.int i = .int 0 ∨ ∃ v, Seen.int i = .handle (some v)) := by
  simp

theorem handle_failed {o : Option JSVal} {p : Ptr} (h : o = none ↔ p = none) :
    p = none ↔ ¬ (Seen.handle o = .int 0 ∨ ∃ v, Seen.handle o = .handle (some v)) := by
  rw [← h]
  cases o <;> simp

theorem failed_iff {β : Type} {call : Call β} {x : β} {out : Seen × Loc P} (hr : call.Reports)
    (hs : Shows r w out (call.seen r w' x) (call.given x) w') :
    call.Failed x ↔ ¬ (out.1 = .int 0 ∨ ∃ v, out.1 = .handle (some v)) := by
  have hnone := hs.valueOf_eq_none
  rw [← hs.1]
  cases call <;> first | exact False.elim hr | exact int_failed x | exact handle_failed hnone

/-! ## Finalisers -/

/-- The call is a finaliser's. -/
def Call.Finalises : {β : Type} → Call β → Prop
  | _, .valueDestroy _ => True
  | _, _ => False

/-- Any number of `js_value_destroy` calls, and of steps of the engines. -/
abbrev Finalised (s s' : Client × World P) : Prop :=
  Relation.ReflTransGen (StepIf fun _ _ call => call.Finalises) s s'

theorem finalise_core? {β : Type} {call : Call β} {x : β} (h : Did r w call x w') (hf : call.Finalises)
    (r' : Nat) : w'.core? r' = w.core? r' ∨ w'.core? r' = none := by
  cases h with
  | null hn => exact .inl rfl
  | on hl hon hs => cases call <;> first | exact False.elim hf | exact False.elim hon
  | @dropped p _ _ _ _ hp hl hs =>
    have hdrop : ∀ r, (w.dropValue p).core? r = w.core? r := fun _ => World.core?_congr rfl
    rw [← hdrop r']
    have hcore := (hdrop r).trans (World.core?_of_loc hl)
    exact hs.core? hcore
  | notCreated host n => cases hf
  | created heap host hr => cases hf
  | destroyed hl hs => cases hf
  | freed s L => cases hf

theorem finalise_runtimes {β : Type} {call : Call β} {x : β} (hf : call.Finalises) :
    (c.after r call x).runtimes = c.runtimes := by
  cases call with
  | valueDestroy p => cases p <;> rfl
  | _ => cases hf

/-- A runtime that is still open after finalisers has kept its error, and all else but its count and its
heap. -/
theorem Finalised.core? {s s' : Client × World P} (h : Finalised s s') (hs : Reach s.1 s.2)
    {k : Core P} (hk : s.2.core? r = some k) :
    Reach s'.1 s'.2 ∧ (s'.1.Open r → ∃ heap, s'.2.core? r = some { k with heap }) := by
  refine reach_invariant (I := fun s : Client × World P =>
    Reach s.1 s.2 ∧ (s.1.Open r → ∃ heap, s.2.core? r = some { k with heap })) (fun s s' hI hstep => ?_)
    ⟨hs, fun _ => ⟨k.heap, hk⟩⟩ h
  obtain ⟨hreach, hcore⟩ := hI
  cases hstep with
  | call call allowed hf ran =>
    have hreach' := hreach.call call allowed ran
    have hdone := (Step.inv hreach.inv (.call call allowed ran)).2 r
    refine ⟨hreach', fun ho => ?_⟩
    have hruntimes := ho.1
    rw [finalise_runtimes hf] at hruntimes
    obtain heq | hnone := finalise_core? (hreach.inv.did allowed ran) hf r
    · rw [heq]
      exact hcore ⟨hruntimes, fun hd => ho.2 (hdone hd)⟩
    · obtain ⟨l, -, -, hl⟩ := hreach'.inv.run ho
      rw [hl.core?] at hnone
      cases hnone
  | reclaim open_ heap host =>
    have hreach' := hreach.reclaim open_ heap host
    refine ⟨hreach', fun ho => ?_⟩
    obtain ⟨l, -, -, hl⟩ := hreach'.inv.run ho
    obtain ⟨k', hk', heap', heq⟩ := World.reclaimed_core? open_ heap host hl.core?
    obtain ⟨heap₀, hk₀⟩ := hcore ho
    rw [hk'] at hk₀
    cases hk₀
    exact ⟨heap', hl.core?.trans (congrArg some heq)⟩

/-! ## All runs -/

theorem World.forget_loc? (hl : w.loc? r = some l) : (w.forget r).loc? r = some l.clearError := by
  unfold World.loc? at hl
  cases hr : w.runtimes r with
  | none => simp [hr] at hl
  | some cell =>
    obtain ⟨runtime, context, _, _, _, _⟩ := cell
    cases runtime <;> cases context <;> simp [hr] at hl
    subst hl
    simp only [World.forget, hr, World.loc?, Function.update_self, Loc.clearError, Option.map_none]

/-- A call that reports, on a live target. -/
theorem Did.reports {β : Type} {call : Call β} {x : β} (h : Did r w call x w') (hr : call.Reports)
    (hn : ¬ call.Null) : ∃ l, w.loc? r = some l ∧ call.On w r := by
  cases h with
  | null hnull => exact absurd hnull hn
  | on hl hon hs => exact ⟨_, hl, hon⟩
  | notCreated host n => cases hr
  | created heap host hfree => cases hr
  | destroyed hl hs => cases hr
  | dropped hp hl hs => cases hr
  | freed s L => cases hr

/-- In every state of every run, for every call that reports, on a live runtime or handle:

* if it fails and its message can be copied, there is a message, the call does exactly what it does
  when there is no error before it, and `js_runtime_last_error` shows the message as long as only
  finalisers run and the runtime is open;
* if it succeeds there is no error, unless it found the standard modules enabled. -/
theorem errors_are_fresh {β : Type} {call : Call β} {x : β} (h : Reach c w) (hc : c.Allows r call)
    (hr : call.Reports) (hn : ¬ call.Null) (hrun : call.run.run w = .ok (x, w')) :
    ∃ l l', w.loc? r = some l ∧ w'.loc? r = some l' ∧
      (call.Failed x → (P.malloc (copyHost (call.outcome (w.valueOf r) l))).1 = true →
        ∃ m, l'.error = some m ∧
          call.run.run (w.forget r) = .ok (x, w') ∧ (w.forget r).loc? r = some l.clearError ∧
          ∀ c'' w'', Finalised (c.after r call x, w') (c'', w'') → c''.Open r →
            ∃ v, (jsRuntimeLastError (some r)).run w'' = .ok (m, v)) ∧
      (¬ call.Failed x → ¬ (call.Enables ∧ l.stdEnabled = true) → l'.error = none) := by
  obtain ⟨l, hl, hon⟩ := (h.inv.did hc hrun).reports hr hn
  have hs := h.inv.shows hl hon hrun
  refine ⟨l, _, hl, hs.loc?, fun hf hcopy => ?_, fun hf hstd => ?_⟩
  · -- a call that finds the standard modules enabled does not fail
    have hstd : ¬ (call.Enables ∧ l.stdEnabled = true) := by
      rintro ⟨he, hstd⟩
      cases call with
      | runtimeEnableStdModule p =>
        refine (failed_iff hr hs).mp hf (.inl ?_)
        rw [Call.effect, Call.fail, Call.outcome, enabling_finish, Loc.enableStd, if_pos hstd]
      | _ => cases he
    obtain ⟨herr, -⟩ | ⟨-, hok⟩ := finish_error (Call.outcome_wiped (l := l) hon hr hstd) call.fail
    · obtain ⟨m, hm⟩ := Option.isSome_iff_exists.mp (herr hcopy)
      refine ⟨m, hm, (Call.run_forget h.inv hl hon hr hstd).symm.trans hrun, World.forget_loc? hl,
        fun c'' w'' hfin ho => ?_⟩
      obtain ⟨hreach, hcore⟩ := hfin.core? (h.call call hc hrun) hs.core?
      obtain ⟨l'', -, -, hl''⟩ := hreach.inv.run ho
      obtain ⟨y, v, hy, rfl, -⟩ := jsRuntimeLastError_spec w'' hl''
      have herror : l''.error = some m := by
        obtain ⟨heap, hk⟩ := hcore ho
        rw [hl''.core?] at hk
        exact (congrArg Core.error (Option.some.inj hk)).trans hm
      exact ⟨v, by rw [hy, herror]; rfl⟩
    · exact absurd hok ((failed_iff hr hs).mp hf)
  · obtain ⟨-, hfail⟩ | ⟨herr, -⟩ := finish_error (Call.outcome_wiped (l := l) hon hr hstd) call.fail
    · refine absurd ((failed_iff hr hs).mpr ?_) hf
      rw [show (call.effect (w.valueOf r) l).1 = call.fail from hfail]
      cases call <;> simp [Call.fail]
    · exact herr

/-- A script that throws: the message is there, and it is the one of this call. -/
theorem errors_are_fresh_idle : ∃ (c : Client) (w w' : World (Platform.idle Nat 0)) (m : CStr),
    Reach c w ∧ (jsRuntimeEvalValue (some 0) (some [])).run w = .ok (none, w') ∧
    ∃ v, (jsRuntimeLastError (some 0)).run w' = .ok (m, v) := by
  have h₁ := (Reach.start (P := Platform.idle Nat 0) ()).call (r := 0) .runtimeCreate trivial rfl
  have hc : Client.Allows (Client.after Client.start 0 .runtimeCreate (some 0)) 0
      (.runtimeEvalValue (some 0) (some [])) := .inr ⟨rfl, by decide, by decide⟩
  obtain ⟨l, l', hl, -, hfail, -⟩ := errors_are_fresh h₁ hc trivial (by simp [Call.Null]) rfl
  obtain ⟨m, -, -, -, hread⟩ := hfail rfl rfl
  exact ⟨_, _, _, m, h₁, rfl, hread _ _ .refl ⟨by decide, by decide⟩⟩

end InteropJs
