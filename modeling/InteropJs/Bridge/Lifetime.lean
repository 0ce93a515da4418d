import Mathlib.Algebra.BigOperators.Group.Finset.Basic
import InteropJs.Bridge.Call

/-!
# Lifetime of handles and runtimes

The bridge as a system that a client drives with calls, in any order and on any number of runtimes.

* `Client` is the abstract model, in the client's terms: the runtimes it created and gave back, the
  handles it holds, each with its runtime, and the strings it has to free. `Client.Allows` is the
  contract of the header: a handle is not used after its destruction, a runtime pointer is not used
  after `js_runtime_destroy`. `Client.after` is what a call changes.
* `Inv` connects a world to the client: `value_count` is the number of the handles that the client
  holds, a runtime is freed when it is given back and no handle is left (`Client.Done`), and the
  ledger is one reference for each held handle, the error strings and the client's strings.
* The destructors, the creation of a runtime and the two kinds of other functions (`Inv.quiet_triple`,
  `Inv.gives_triple`) keep `Inv`. `InteropJs/Bridge/Runs.lean` takes the steps together.
-/

namespace InteropJs

open Hoare

variable {P : Platform}

/-! ## The client -/

structure Client where
  runtimes : Finset Nat
  /-- The runtimes that `js_runtime_destroy` was called for. -/
  destroyed : Finset Nat
  /-- The handles returned and not yet destroyed, each with its runtime. -/
  live : Finset (Nat × Nat)
  /-- The strings of `js_value_to_string` that are not yet freed. -/
  strings : Multiset OwnedString

namespace Client

def start : Client := ⟨∅, ∅, ∅, 0⟩

variable (c : Client)

/-- The live handles of `r`. -/
def handles (r : Nat) : Finset (Nat × Nat) := c.live.filter (·.2 = r)

/-- `r` was given back and none of its handles is left. -/
def Done (r : Nat) : Prop := r ∈ c.destroyed ∧ c.handles r = ∅

instance (r : Nat) : Decidable (c.Done r) := inferInstanceAs (Decidable (_ ∧ _))

/-- `r` is a runtime that is not freed. -/
def Open (r : Nat) : Prop := r ∈ c.runtimes ∧ ¬ c.Done r

/-- A runtime argument: `NULL`, or `r` before its destruction. -/
def TakesRuntime (r : Nat) (p : Ptr) : Prop :=
  p = none ∨ p = some r ∧ r ∈ c.runtimes ∧ r ∉ c.destroyed

/-- A handle argument: `NULL`, or a live handle of `r`. -/
def TakesValue (r : Nat) (p : Ptr) : Prop := p = none ∨ ∃ q, p = some q ∧ (q, r) ∈ c.live

/-- A further handle argument: `NULL`, or a live handle of any runtime. -/
def TakesOther (p : Ptr) : Prop := ∃ r, c.TakesValue r p

/-- The argument array and its length. -/
def TakesArgs (args : Option (List Ptr)) (numArgs : Int) : Prop :=
  CountsArgs args numArgs ∧ ∀ p ∈ args.getD [], c.TakesOther p

/-- The contract of a call on runtime `r` (module doc). -/
def Allows (r : Nat) : {β : Type} → Call β → Prop
  | _, .runtimeCreate => True
  | _, .runtimeDestroy p | _, .runtimeLastError p | _, .runtimeEnableStdModule p
  | _, .runtimeEvalValue p _ | _, .runtimeGetGlobalProperty p _ | _, .runtimeNewBool p _
  | _, .runtimeNewNumber p _ | _, .runtimeNewString p _ | _, .runtimeNewBigint p _
  | _, .runtimeImportModule p _ => c.TakesRuntime r p
  | _, .valueDestroy p | _, .valueKind p | _, .valueToBool p | _, .valueToNumber p
  | _, .valueToString p | _, .valueIsArray p | _, .valueArrayLength p | _, .valueGetProperty p _
  | _, .valueGetIndex p _ => c.TakesValue r p
  | _, .valueSetProperty p _ q | _, .valueSetIndex p _ q => c.TakesValue r p ∧ c.TakesOther q
  | _, .valueCall p q args n => c.TakesValue r p ∧ c.TakesOther q ∧ c.TakesArgs args n
  | _, .valueConstruct p args n => c.TakesValue r p ∧ c.TakesArgs args n
  | _, .bridgeFreeString s => ∀ t, s = some t → t ∈ c.strings

/-- A handle that a function on `r` returned. -/
def give (r : Nat) (p : Ptr) : Client :=
  match p with
  | none => c
  | some q => { c with live := insert (q, r) c.live }

/-- What a call on `r` with its result changes for the client. -/
def after (r : Nat) : {β : Type} → Call β → β → Client
  | _, .runtimeCreate, some p => { c with runtimes := insert p c.runtimes }
  | _, .runtimeDestroy (some p), _ => { c with destroyed := insert p c.destroyed }
  | _, .valueDestroy (some p), _ => { c with live := c.live.erase (p, r) }
  | _, .bridgeFreeString (some s), _ => { c with strings := c.strings.erase s }
  | _, .valueToString _, some s => { c with strings := c.strings + {s} }
  | _, .runtimeEvalValue _ _, p | _, .runtimeGetGlobalProperty _ _, p | _, .runtimeNewBool _ _, p
  | _, .runtimeNewNumber _ _, p | _, .runtimeNewString _ _, p | _, .runtimeNewBigint _ _, p
  | _, .runtimeImportModule _ _, p | _, .valueGetProperty _ _, p | _, .valueGetIndex _ _, p
  | _, .valueCall _ _ _ _, p | _, .valueConstruct _ _ _, p => c.give r p
  | _, _, _ => c

end Client

/-! ## The invariant -/

/-- The reference that a handle block holds. -/
def World.handleRes (w : World P) (p : Nat) : Multiset Resource :=
  match w.values p with
  | none => 0
  | some h => h.value.res

/-- The error string of a runtime. -/
def World.errorRes (w : World P) (r : Nat) : Multiset Resource :=
  match w.runtimes r with
  | none => 0
  | some cell => stringRes cell.lastError

namespace Client

variable (c : Client)

/-- What the bridge owns, besides the error string of `r`. -/
def ownedBut (r : Nat) (w : World P) : Multiset Resource :=
  ∑ q ∈ c.live, w.handleRes q.1 + ∑ r' ∈ c.runtimes.erase r, w.errorRes r' +
    c.strings.map fun s => .string s.token

/-- What the bridge owns: a reference for each live handle, the error strings, and the strings that
the client has to free. -/
def owned (w : World P) : Multiset Resource :=
  ∑ q ∈ c.live, w.handleRes q.1 + ∑ r ∈ c.runtimes, w.errorRes r +
    c.strings.map fun s => .string s.token

/-- The handle blocks are those of the client. -/
structure HandlesOf (w : World P) : Prop where
  holds : ∀ p r, (p, r) ∈ c.live → ∃ x, w.Holds p r x
  unused : ∀ p, (∀ r, (p, r) ∉ c.live) → w.values p = none
  bound : ∀ p r, (p, r) ∈ c.live → p < w.nextValue

/-- The block of the runtime `r`: its count and its mark are those of the client, and it is freed
once, when it is `Done`. -/
structure RuntimeOf (w : World P) (r : Nat) : Prop where
  cell : c.Open r → ∃ (l : Loc P) (e : Option OwnedString), w.runtimes r = some (l.cell e) ∧
    l.count = (c.handles r).card ∧ (l.destroying = true ↔ r ∈ c.destroyed)
  freed : ¬ c.Open r → w.runtimes r = none
  bound : r ∈ c.runtimes → r < w.nextRuntime
  frees : w.frees.count r = if c.Done r then 1 else 0

end Client

/-- The world `w` is the one that the client sees (module doc). -/
structure Inv (c : Client) (w : World P) : Prop where
  handles : c.HandlesOf w
  runtime : ∀ r, c.RuntimeOf w r
  owner : ∀ p r, (p, r) ∈ c.live → r ∈ c.runtimes
  destroyed : c.destroyed ⊆ c.runtimes
  ledger : w.ledger = c.owned w
  fresh : w.Fresh

variable {c c' : Client} {r r' : Nat} {b w w' : World P} {l l' : Loc P} {L : Multiset Resource}

/-! ### Its parts, after a change of one runtime -/

/-- Nothing of `r` changes from `c` to `c'`. -/
def Client.Agrees (c c' : Client) (r : Nat) : Prop :=
  (r ∈ c'.runtimes ↔ r ∈ c.runtimes) ∧ (r ∈ c'.destroyed ↔ r ∈ c.destroyed) ∧
    c'.handles r = c.handles r

theorem Client.RuntimeOf.congr (h : c.RuntimeOf w r) (hc : c.Agrees c' r)
    (hw : w'.runtimes r = w.runtimes r) (hf : w'.frees.count r = w.frees.count r)
    (hn : w.nextRuntime ≤ w'.nextRuntime) : c'.RuntimeOf w' r := by
  obtain ⟨h₁, h₂, h₃⟩ := hc
  have hdone : c'.Done r ↔ c.Done r := by simp only [Client.Done, h₂, h₃]
  have hopen : c'.Open r ↔ c.Open r := by simp only [Client.Open, h₁, hdone]
  refine ⟨fun ho => ?_, fun ho => ?_, fun hr => ?_, ?_⟩
  · rw [hw, h₃, h₂]
    exact h.cell (hopen.mp ho)
  · rw [hw]
    exact h.freed fun h' => ho (hopen.mpr h')
  · exact lt_of_lt_of_le (h.bound (h₁.mp hr)) hn
  · rw [hf, h.frees]
    simp only [hdone]

theorem Client.Agrees.refl (c : Client) (r : Nat) : c.Agrees c r := ⟨Iff.rfl, Iff.rfl, rfl⟩

theorem handleRes_congr (h : w'.values = w.values) : w'.handleRes = w.handleRes := by
  funext p
  simp only [World.handleRes, h]

/-- The ledger splits off the error string of a runtime. -/
theorem Client.owned_eq (hr : r ∈ c.runtimes) (w : World P) :
    c.owned w = c.ownedBut r w + w.errorRes r := by
  unfold Client.owned Client.ownedBut
  rw [← Finset.add_sum_erase _ _ hr, add_comm (w.errorRes r), ← add_assoc, add_right_comm]

/-- The ledger of a world that is `b` but for runtime `r`. -/
theorem Client.ownedBut_congr (hv : w.values = b.values)
    (ho : ∀ r', r' ≠ r → w.runtimes r' = b.runtimes r') : c.ownedBut r w = c.ownedBut r b := by
  unfold Client.ownedBut
  rw [handleRes_congr hv]
  congr 2
  refine Finset.sum_congr rfl fun r' hr' => ?_
  simp only [World.errorRes, ho r' (Finset.ne_of_mem_erase hr')]

theorem Client.HandlesOf.congr (h : c.HandlesOf b) (hv : w.values = b.values)
    (hn : w.nextValue = b.nextValue) : c.HandlesOf w := by
  refine ⟨fun p r hp => ?_, fun p hp => ?_, fun p r hp => ?_⟩
  · simpa only [World.Holds, hv] using h.holds p r hp
  · rw [hv]
    exact h.unused p hp
  · rw [hn]
    exact h.bound p r hp

/-- From `c` to `c'` only handles of `r`, its mark and the strings change. -/
structure Client.Moves (c c' : Client) (r : Nat) : Prop where
  mem : r ∈ c.runtimes
  runtimes : c'.runtimes = c.runtimes
  others : ∀ r', r' ≠ r → c.Agrees c' r'
  owner : ∀ p r', (p, r') ∈ c'.live → r' ∈ c'.runtimes
  destroyed : c'.destroyed ⊆ c'.runtimes

/-- The runtimes are the same. -/
def World.SameRuntimes (b b' : World P) : Prop :=
  b'.runtimes = b.runtimes ∧ b'.frees = b.frees ∧ b'.nextRuntime = b.nextRuntime

/-- `w` is `b` after `free_runtime` of `r`; the bridge owns `L`. -/
structure Released (r : Nat) (b : World P) (L : Multiset Resource) (w : World P) : Prop where
  cell : w.runtimes r = none
  ledger : w.ledger = L
  others : ∀ r', r' ≠ r → w.runtimes r' = b.runtimes r'
  values : w.values = b.values
  nextValue : w.nextValue = b.nextValue
  nextRuntime : w.nextRuntime = b.nextRuntime
  frees : w.frees = r :: b.frees
  fresh : w.Fresh

/-- The invariant after a function on `r` that left its block in place. -/
theorem Inv.of_run (h : Inv c b) (hm : c.Moves c' r) (hb : b.SameRuntimes w) (hh : c'.HandlesOf w)
    (hopen : ¬ c.Done r) (hopen' : ¬ c'.Done r) (hcount : l.count = (c'.handles r).card)
    (hmark : l.destroying = true ↔ r ∈ c'.destroyed) (hrun : Run r w l (c'.ownedBut r w) w') :
    Inv c' w' := by
  obtain ⟨e, -, hw⟩ := hrun
  obtain ⟨hb₁, hb₂, hb₃⟩ := hb
  have hr : r ∈ c'.runtimes := hm.runtimes ▸ hm.mem
  refine ⟨hh.congr hw.values hw.nextValue, fun r' => ?_, hm.owner, hm.destroyed, ?_, hw.fresh⟩
  · by_cases hrr : r' = r
    · subst hrr
      refine ⟨fun _ => ⟨l, e, hw.cell, hcount, hmark⟩, fun hn => absurd ⟨hr, hopen'⟩ hn, fun _ => ?_, ?_⟩
      · rw [hw.nextRuntime, hb₃]
        exact (h.runtime r').bound hm.mem
      · rw [hw.frees, hb₂, (h.runtime r').frees, if_neg hopen, if_neg hopen']
    · refine (h.runtime r').congr (hm.others r' hrr) ?_ ?_ ?_
      · rw [hw.others r' hrr, hb₁]
      · rw [hw.frees, hb₂]
      · rw [hw.nextRuntime, hb₃]
  · rw [hw.ledger, Client.owned_eq hr, Client.ownedBut_congr hw.values hw.others]
    simp only [World.errorRes, hw.cell, Loc.cell]

/-- The invariant after a function on `r` that freed its block. -/
theorem Inv.of_released (h : Inv c b) (hm : c.Moves c' r) (hb : b.SameRuntimes w)
    (hh : c'.HandlesOf w) (hopen : ¬ c.Done r) (hdone : c'.Done r)
    (hw : Released r w (c'.ownedBut r w) w') : Inv c' w' := by
  obtain ⟨hb₁, hb₂, hb₃⟩ := hb
  have hr : r ∈ c'.runtimes := hm.runtimes ▸ hm.mem
  refine ⟨hh.congr hw.values hw.nextValue, fun r' => ?_, hm.owner, hm.destroyed, ?_, hw.fresh⟩
  · by_cases hrr : r' = r
    · subst hrr
      refine ⟨fun ho => absurd hdone ho.2, fun _ => hw.cell, fun _ => ?_, ?_⟩
      · rw [hw.nextRuntime, hb₃]
        exact (h.runtime r').bound hm.mem
      · rw [hw.frees, hb₂, List.count_cons_self, (h.runtime r').frees, if_neg hopen, if_pos hdone]
    · refine (h.runtime r').congr (hm.others r' hrr) ?_ ?_ ?_
      · rw [hw.others r' hrr, hb₁]
      · rw [hw.frees, hb₂, List.count_cons_of_ne (Ne.symm hrr)]
      · rw [hw.nextRuntime, hb₃]
  · rw [hw.ledger, Client.owned_eq hr, Client.ownedBut_congr hw.values hw.others]
    simp only [World.errorRes, hw.cell, add_zero]

/-! ## The destructors -/

/-- How `free_runtime_if_ready` ends. -/
def Settled (r : Nat) (b : World P) (l : Loc P) (L : Multiset Resource) (w : World P) : Prop :=
  if l.destroying = true ∧ l.count = 0 then Released r b L w else Run r b l L w

theorem freeRuntimeIfReady_spec :
    Triple (Run r b l L) (freeRuntimeIfReady (some r)) (fun _ => Settled r b l L) := by
  unfold freeRuntimeIfReady Settled
  rw [if_neg (by simp)]
  refine Run.triple fun e he => ?_
  refine Triple.bind readRuntime_at fun cell => Triple.lift fun hcell => ?_
  subst hcell
  refine Triple.ite (fun hd => ?_) (fun hd => ?_)
  · rw [show (l.cell e).destroying = l.destroying from rfl] at hd
    rw [show (l.cell e).valueCount = l.count from rfl] at hd
    simp only [if_pos hd]
    unfold freeRuntime
    refine Triple.bind readRuntime_at fun cell => Triple.lift fun hcell => ?_
    subst hcell
    refine Triple.bind (freeString_at (s := e)) fun _ => ?_
    intro w hw
    refine ⟨(), _, rfl, ?_, hw.ledger, fun r' hr => ?_, hw.values, hw.nextValue, hw.nextRuntime,
      congrArg _ hw.frees, hw.fresh⟩
    · simp
    · simp only [Function.update_of_ne hr, hw.others r' hr]
  · simp only [show ¬ (l.destroying = true ∧ l.count = 0) from hd, if_false]
    exact (Triple.ret _).pre fun w hw => ⟨e, he, hw⟩

/-- The invariant after `free_runtime_if_ready`, which ends both destructors. -/
theorem Inv.settle (h : Inv c b) (hm : c.Moves c' r) (hb : b.SameRuntimes w) (hh : c'.HandlesOf w)
    (hopen : ¬ c.Done r) (hcount : l.count = (c'.handles r).card)
    (hmark : l.destroying = true ↔ r ∈ c'.destroyed)
    (hw : Settled r w l (c'.ownedBut r w) w') : Inv c' w' := by
  have hdone : l.destroying = true ∧ l.count = 0 ↔ c'.Done r := by
    rw [hmark, hcount, Finset.card_eq_zero, Client.Done]
  unfold Settled at hw
  split at hw
  · next hd => exact h.of_released hm hb hh hopen (hdone.mp hd) hw
  · next hd => exact h.of_run hm hb hh hopen (fun h' => hd (hdone.mpr h')) hcount hmark hw

/-- The invariant after a step of the client from `c` to `c'`; a runtime that is freed stays so. -/
def Next (c c' : Client) (w : World P) : Prop := Inv c' w ∧ ∀ r, c.Done r → c'.Done r

theorem Next.refl (h : Inv c w) : Next c c w := ⟨h, fun _ hd => hd⟩

/-- The local state of a runtime that is not freed. -/
theorem Inv.run (h : Inv c w) (hr : c.Open r) :
    ∃ l : Loc P, l.count = (c.handles r).card ∧ (l.destroying = true ↔ r ∈ c.destroyed) ∧
      Run r w l (c.ownedBut r w) w := by
  obtain ⟨l, e, hcell, hcount, hmark⟩ := (h.runtime r).cell hr
  refine ⟨{ l with host := w.host, entries := w.entries, error := e.map (·.bytes) }, hcount, hmark, e, rfl,
    hcell, ?_, fun _ _ => rfl, rfl, rfl, rfl, rfl, rfl, rfl, h.fresh⟩
  rw [h.ledger, Client.owned_eq hr.1]
  simp only [World.errorRes, hcell, Loc.cell]

/-- A runtime with a local state is open. -/
theorem Inv.open_of_loc {l : Loc P} (h : Inv c w) (hl : w.loc? r = some l) : c.Open r := by
  by_contra ho
  simp [World.loc?, (h.runtime r).freed ho] at hl

theorem Inv.run_of_loc {l : Loc P} (h : Inv c w) (hl : w.loc? r = some l) :
    Run r w l (c.ownedBut r w) w := by
  obtain ⟨l₀, -, -, hl₀⟩ := h.run (h.open_of_loc hl)
  rw [hl₀.loc?] at hl
  cases hl
  exact hl₀

theorem Inv.open_of_value {p : Nat} (h : Inv c w) (hp : (p, r) ∈ c.live) : c.Open r := by
  refine ⟨h.owner p r hp, fun hd => ?_⟩
  have : (p, r) ∈ c.handles r := Finset.mem_filter.mpr ⟨hp, rfl⟩
  rw [hd.2] at this
  cases this

theorem Client.open_of_runtime (hr : r ∈ c.runtimes) (hd : r ∉ c.destroyed) : c.Open r :=
  ⟨hr, fun h => hd h.1⟩

theorem Client.Moves.refl (h : Inv c w) (hr : r ∈ c.runtimes) (s : Multiset OwnedString) :
    c.Moves { c with strings := s } r :=
  ⟨hr, rfl, fun _ _ => ⟨Iff.rfl, Iff.rfl, rfl⟩, h.owner, h.destroyed⟩

/-- A step of the engine is none of the client's. -/
theorem Inv.reclaimed (h : Inv c w) (hl : w.loc? r = some l) (heap : P.Heap) (host : P.Host) :
    Inv c (w.reclaimed r heap host) := by
  have hopen := h.open_of_loc hl
  obtain ⟨l, hcount, hmark, hrun⟩ := h.run hopen
  exact h.of_run (l := { l with heap, host }) (Client.Moves.refl h hopen.1 c.strings) ⟨rfl, rfl, rfl⟩ h.handles
    hopen.2 hopen.2 hcount hmark (hrun.reclaimed heap host)

/-- A function that gives the strings `s` to the client, or none. -/
theorem Inv.quiet_triple {β : Type} {cmd : BridgeM P β} {s : β → Multiset OwnedString} (hr : c.Open r)
    (hcmd : ∀ w l L, Inv c w → Triple (Run r w l L) cmd fun x =>
      Quiet r w l (L + (s x).map fun s => .string s.token)) :
    Triple (Inv c) cmd fun x => Next c { c with strings := c.strings + s x } := by
  intro w h
  obtain ⟨l, hcount, hmark, hrun⟩ := h.run hr
  obtain ⟨x, w', hx, l', hl, hw⟩ := hcmd w l _ h w hrun
  refine ⟨x, w', hx, h.of_run (Client.Moves.refl h hr.1 _) ⟨rfl, rfl, rfl⟩
    ⟨h.handles.holds, h.handles.unused, h.handles.bound⟩ hr.2 hr.2 (hl.1.trans hcount) (hl.2 ▸ hmark) ?_,
    fun _ hd => hd⟩
  convert hw using 1
  simp only [Client.ownedBut, Multiset.map_add, ← add_assoc]

/-- A function that neither gives nor takes. -/
theorem Inv.keep_triple {β : Type} {cmd : BridgeM P β} (hr : c.Open r)
    (hcmd : ∀ w l L, Inv c w → Triple (Run r w l L) cmd fun _ => Quiet r w l L) :
    Triple (Inv c) cmd fun _ => Next c c :=
  Triple.post (Inv.quiet_triple (s := fun _ => 0) hr fun w l L h =>
    Triple.post (hcmd w l L h) fun x w hw => by simpa using hw) fun x w hw => by simpa using hw

theorem Client.mem_handles {q : Nat × Nat} : q ∈ c.handles r ↔ q ∈ c.live ∧ q.2 = r :=
  Finset.mem_filter

/-- The client's handles after one more. -/
theorem Client.handles_give {p : Nat} (r r' : Nat) :
    (c.give r (some p)).handles r' = if r = r' then insert (p, r) (c.handles r') else c.handles r' := by
  simp only [Client.handles, Client.give, Finset.filter_insert]

theorem Client.Done.give {p : Ptr} (hr : ¬ c.Done r) (hd : c.Done r') : (c.give r p).Done r' := by
  cases p with
  | none => exact hd
  | some q =>
    refine ⟨hd.1, ?_⟩
    rw [Client.handles_give, if_neg (by rintro rfl; exact hr hd)]
    exact hd.2

theorem Client.moves_give {p : Nat} (h : Inv c w) (hr : r ∈ c.runtimes) :
    c.Moves (c.give r (some p)) r := by
  refine ⟨hr, rfl, fun r' hr' => ⟨Iff.rfl, Iff.rfl, ?_⟩, fun q r' hq => ?_, h.destroyed⟩
  · rw [Client.handles_give, if_neg (Ne.symm hr')]
  · rcases Finset.mem_insert.mp hq with hq | hq
    · cases hq
      exact hr
    · exact h.owner q r' hq

theorem addValue_values_of_ne {p : Nat} {h : ValueHandle} (hp : p ≠ w.nextValue) :
    (w.addValue h).values p = w.values p :=
  Function.update_of_ne hp _ _

theorem Client.HandlesOf.give (h : c.HandlesOf w) (x : JSVal) (t : Nat) :
    (c.give r (some w.nextValue)).HandlesOf (w.addValue ⟨some r, .ref x t⟩) := by
  refine ⟨fun p r' hp => ?_, fun p hp => ?_, fun p r' hp => ?_⟩
  · rcases Finset.mem_insert.mp hp with hp | hp
    · cases hp
      exact ⟨x, t, by simp [World.addValue]⟩
    · obtain ⟨y, u, hu⟩ := h.holds p r' hp
      exact ⟨y, u, by rw [addValue_values_of_ne (Nat.ne_of_lt (h.bound p r' hp)), hu]⟩
  · have hne : p ≠ w.nextValue := fun hpn => hp r (by rw [hpn]; exact Finset.mem_insert_self _ _)
    rw [addValue_values_of_ne hne]
    exact h.unused p fun r' hr' => hp r' (Finset.mem_insert_of_mem hr')
  · rcases Finset.mem_insert.mp hp with hp | hp
    · cases hp
      exact Nat.lt_succ_self _
    · exact Nat.lt_succ_of_lt (h.bound p r' hp)

theorem Client.nextValue_notMem (h : c.HandlesOf w) (r : Nat) : (w.nextValue, r) ∉ c.live :=
  fun hp => Nat.lt_irrefl _ (h.bound _ _ hp)

theorem Client.ownedBut_give (h : c.HandlesOf w) (x : JSVal) (t : Nat) :
    (c.give r (some w.nextValue)).ownedBut r (w.addValue ⟨some r, .ref x t⟩) =
      c.ownedBut r w + {.jsValue t} := by
  have hnew : (w.addValue ⟨some r, .ref x t⟩).handleRes w.nextValue = {.jsValue t} := by
    simp [World.handleRes, World.addValue]
  have hold : ∑ q ∈ c.live, (w.addValue ⟨some r, .ref x t⟩).handleRes q.1 =
      ∑ q ∈ c.live, w.handleRes q.1 :=
    Finset.sum_congr rfl fun q hq => by
      simp only [World.handleRes, addValue_values_of_ne (Nat.ne_of_lt (h.bound q.1 q.2 hq))]
  simp only [Client.ownedBut, Client.give]
  rw [Finset.sum_insert (Client.nextValue_notMem h r), hnew, hold]
  simp only [World.errorRes, World.addValue]
  ac_rfl

/-- A function that returns a handle. -/
theorem Inv.gives_triple {cmd : BridgeM P Ptr} {F : Fault → Prop} (hr : c.Open r)
    (hcmd : ∀ w l L, Inv c w → TripleOr (Run r w l L) cmd F (Gives r w l L)) :
    TripleOr (Inv c) cmd F fun p => Next c (c.give r p) := by
  intro w h
  obtain ⟨l, hcount, hmark, hrun⟩ := h.run hr
  obtain ⟨p, w', hp, hw⟩ | hstop := hcmd w l _ h w hrun
  swap
  · exact .inr hstop
  refine .inl ⟨p, w', hp, ?_, fun r' => Client.Done.give hr.2⟩
  cases p with
  | none =>
    obtain ⟨l', hl, hw⟩ := hw
    exact h.of_run (Client.Moves.refl h hr.1 _) ⟨rfl, rfl, rfl⟩ h.handles hr.2 hr.2
      (hl.1.trans hcount) (hl.2 ▸ hmark) hw
  | some q =>
    obtain ⟨rfl, x, t, l', hc', hd', hw⟩ := hw
    have hcard : ((c.give r (some w.nextValue)).handles r).card = (c.handles r).card + 1 := by
      rw [Client.handles_give, if_pos rfl, Finset.card_insert_of_notMem fun hmem =>
        Client.nextValue_notMem h.handles r (Client.mem_handles.mp hmem).1]
    rw [← Client.ownedBut_give h.handles x t] at hw
    refine h.of_run (w := w.addValue ⟨some r, .ref x t⟩) (Client.moves_give h hr.1) ⟨rfl, rfl, rfl⟩
      (h.handles.give x t) hr.2 (fun hd => ?_) ?_ (hd' ▸ hmark) hw
    · rw [hd.2] at hcard
      simp at hcard
    · rw [hc', hcount, hcard]

theorem jsRuntimeDestroy_spec :
    Triple (Run r b l L) (jsRuntimeDestroy (some r)) fun _ =>
      Settled r b { l with destroying := true } L := by
  unfold jsRuntimeDestroy
  rw [if_neg (by simp), ← bind_assoc]
  exact Triple.bind (modifyRuntime_spec (fun c => { c with destroying := true })
    { l with destroying := true } (fun _ => rfl) rfl rfl rfl) fun _ => freeRuntimeIfReady_spec

theorem jsRuntimeDestroy_inv (hr : r ∈ c.runtimes) (hd : r ∉ c.destroyed) :
    Triple (Inv (P := P) c) (jsRuntimeDestroy (some r)) fun _ =>
      Next c { c with destroyed := insert r c.destroyed } := by
  intro w h
  have ho := Client.open_of_runtime hr hd
  obtain ⟨l, hcount, -, hrun⟩ := h.run ho
  obtain ⟨x, w', hx, hw⟩ := jsRuntimeDestroy_spec w hrun
  refine ⟨x, w', hx, h.settle (w := w) (l := { l with destroying := true })
    ⟨hr, rfl, fun r' hr' => ?_, h.owner, ?_⟩ ⟨rfl, rfl, rfl⟩
    ⟨h.handles.holds, h.handles.unused, h.handles.bound⟩ ho.2 hcount (by simp) hw,
    fun r' hd => ⟨Finset.mem_insert_of_mem hd.1, hd.2⟩⟩
  · exact ⟨Iff.rfl, by simp [hr'], rfl⟩
  · exact Finset.insert_subset_iff.mpr ⟨hr, h.destroyed⟩

/-- `w` after `free` of the handle `p`. -/
def World.dropValue (w : World P) (p : Nat) : World P :=
  { w with values := Function.update w.values p none }

theorem dropValue_spec (p : Nat) :
    Triple (Run r b l L)
      (modify fun w => { w with values := Function.update w.values p none } : BridgeM P Unit)
      (fun _ => Run r (b.dropValue p) l L) := by
  rintro w ⟨e, he, hw⟩
  refine ⟨(), w.dropValue p, rfl, e, he, hw.cell, hw.ledger, hw.others, ?_, hw.nextValue,
    hw.nextRuntime, hw.frees, hw.host, hw.entries, hw.fresh⟩
  simp only [World.dropValue, hw.values]

/-- The client without the handle `p` of `r`. -/
def Client.drop (c : Client) (r p : Nat) : Client := { c with live := c.live.erase (p, r) }

theorem dropValue_values_of_ne {p q : Nat} (hq : q ≠ p) : (w.dropValue p).values q = w.values q :=
  Function.update_of_ne hq _ _

section Drop

variable {p : Nat} {x : JSVal} {t : Nat}

/-- A handle belongs to one runtime. -/
theorem Client.HandlesOf.ne_of_mem_drop {q : Nat} (h : c.HandlesOf w)
    (hp : w.values p = some ⟨some r, .ref x t⟩) (hq : (q, r') ∈ (c.drop r p).live) : q ≠ p := by
  rintro rfl
  obtain ⟨hne, hmem⟩ := Finset.mem_erase.mp hq
  obtain ⟨y, u, hu⟩ := h.holds q r' hmem
  rw [hp] at hu
  cases hu
  exact hne rfl

theorem Client.HandlesOf.drop (h : c.HandlesOf w) (hp : w.values p = some ⟨some r, .ref x t⟩) :
    (c.drop r p).HandlesOf (w.dropValue p) := by
  refine ⟨fun q r' hq => ?_, fun q hq => ?_, fun q r' hq => ?_⟩
  · obtain ⟨y, u, hu⟩ := h.holds q r' (Finset.mem_of_mem_erase hq)
    exact ⟨y, u, by rw [dropValue_values_of_ne (h.ne_of_mem_drop hp hq), hu]⟩
  · by_cases hqp : q = p
    · subst hqp
      simp [World.dropValue]
    · rw [dropValue_values_of_ne hqp]
      exact h.unused q fun r' hr' => hq r' (Finset.mem_erase.mpr ⟨fun he => hqp (congrArg Prod.fst he), hr'⟩)
  · exact h.bound q r' (Finset.mem_of_mem_erase hq)

theorem Client.ownedBut_drop (h : c.HandlesOf w) (hp : w.values p = some ⟨some r, .ref x t⟩)
    (hmem : (p, r) ∈ c.live) :
    c.ownedBut r w = (c.drop r p).ownedBut r (w.dropValue p) + {.jsValue t} := by
  have hrest : ∑ q ∈ c.live.erase (p, r), (w.dropValue p).handleRes q.1 =
      ∑ q ∈ c.live.erase (p, r), w.handleRes q.1 :=
    Finset.sum_congr rfl fun q hq => by
      simp only [World.handleRes, dropValue_values_of_ne (h.ne_of_mem_drop hp hq)]
  have hsum := Finset.add_sum_erase c.live (fun q => w.handleRes q.1) hmem
  have hres : w.handleRes p = {.jsValue t} := by simp [World.handleRes, hp]
  simp only [Client.ownedBut, Client.drop, hrest]
  rw [← hsum, hres]
  simp only [World.errorRes, World.dropValue]
  ac_rfl

theorem Client.handles_drop (r' : Nat) :
    (c.drop r p).handles r' = (c.handles r').erase (p, r) := Finset.filter_erase ..

theorem Client.moves_drop (h : Inv c w) (hmem : (p, r) ∈ c.live) : c.Moves (c.drop r p) r := by
  refine ⟨h.owner p r hmem, rfl, fun r' hr' => ⟨Iff.rfl, Iff.rfl, ?_⟩, fun q r' hq => ?_, h.destroyed⟩
  · rw [Client.handles_drop, Finset.erase_eq_of_notMem]
    exact fun hm => hr' (Client.mem_handles.mp hm).2.symm
  · exact h.owner q r' (Finset.mem_of_mem_erase hq)

/-- The guard of the decrement lets it through: the handle is one of those that are counted. -/
theorem jsValueDestroy_spec (hp : b.values p = some ⟨some r, .ref x t⟩) (hpos : 0 < l.count) :
    Triple (Run r b l (L + {.jsValue t})) (jsValueDestroy (some p)) fun _ =>
      Settled r (b.dropValue p) { l with count := l.count - 1 } L := by
  unfold jsValueDestroy
  refine Triple.bind (readValue_spec hp) fun v => Triple.lift fun hv => ?_
  subst hv
  refine Triple.bind validRuntime_spec fun v => Triple.lift fun hv => ?_
  subst hv
  refine Triple.bind (JS.freeValue_spec (.ref x t)) fun _ => ?_
  refine Triple.bind (dropValue_spec p) fun _ => ?_
  rw [if_neg (by simp)]
  refine Run.triple fun e he => ?_
  refine Triple.bind readRuntime_at fun cell => Triple.lift fun hcell => ?_
  subst hcell
  rw [if_pos (show 0 < (l.cell e).valueCount from hpos)]
  refine Triple.bind (Q := fun _ => Run r (b.dropValue p) { l with count := l.count - 1 } L) ?_
    fun _ => freeRuntimeIfReady_spec
  exact Triple.post (writeRuntime_at { l with count := l.count - 1 } _ rfl rfl)
    fun _ w hw => ⟨e, he, hw⟩

/-- A live handle is destroyed. -/
theorem Inv.destroy (h : Inv c w) (hmem : (p, r) ∈ c.live) :
    ∃ l w', l.count = (c.handles r).card ∧ (l.destroying = true ↔ r ∈ c.destroyed) ∧
      Run r w l (c.ownedBut r w) w ∧ (jsValueDestroy (some p)).run w = .ok ((), w') ∧
      Settled r (w.dropValue p) { l with count := l.count - 1 }
        ((c.drop r p).ownedBut r (w.dropValue p)) w' := by
  obtain ⟨l, hcount, hmark, hrun⟩ := h.run (h.open_of_value hmem)
  obtain ⟨x, t, hp⟩ := h.handles.holds p r hmem
  have hpos : 0 < l.count := by
    rw [hcount]
    exact Finset.card_pos.mpr ⟨(p, r), Client.mem_handles.mpr ⟨hmem, rfl⟩⟩
  obtain ⟨y, w', hy, hw⟩ := jsValueDestroy_spec hp hpos w
    (by rwa [Client.ownedBut_drop h.handles hp hmem] at hrun)
  exact ⟨l, w', hcount, hmark, hrun, hy, hw⟩

theorem jsValueDestroy_inv (hmem : (p, r) ∈ c.live) :
    Triple (Inv (P := P) c) (jsValueDestroy (some p)) fun _ => Next c (c.drop r p) := by
  intro w h
  obtain ⟨l, w', hcount, hmark, -, hy, hw⟩ := h.destroy hmem
  obtain ⟨x, t, hp⟩ := h.handles.holds p r hmem
  have hcard : ((c.drop r p).handles r).card = l.count - 1 := by
    rw [Client.handles_drop, Finset.card_erase_of_mem (Client.mem_handles.mpr ⟨hmem, rfl⟩), hcount]
  exact ⟨(), w', hy, h.settle (w := w.dropValue p) (l := { l with count := l.count - 1 })
    (Client.moves_drop h hmem) ⟨rfl, rfl, rfl⟩ (h.handles.drop hp) (h.open_of_value hmem).2 hcard.symm
    hmark hw, fun r' hd => ⟨hd.1, by rw [Client.handles_drop, hd.2, Finset.erase_empty]⟩⟩

end Drop

/-! ## Creation and strings -/

/-- `w` with another state of the C library, and blocks that were allocated and freed again. -/
def World.moved (w : World P) (host : P.Host) (n : Nat) : World P :=
  { w with host, nextRuntime := w.nextRuntime + n }

/-- `w` with a new runtime. -/
def World.addRuntime (w : World P) (heap : P.Heap) (host : P.Host) : World P :=
  { w with
    host
    nextRuntime := w.nextRuntime + 1
    runtimes := Function.update w.runtimes w.nextRuntime
      (some ((Loc.mk heap none false none 0 false false host []).cell none)) }

theorem onHost_run {α : Type} (f : P.Host → α × P.Host) (w : World P) :
    (onHost f).run w = .ok ((f w.host).1, { w with host := (f w.host).2 }) := rfl

theorem readRuntime_run {r : Nat} {cell : RuntimeHandle P} (h : w.runtimes r = some cell) :
    (readRuntime (some r)).run w = .ok (cell, w) := by
  simp [readRuntime, StateT.run, h]

theorem readValue_run {p : Nat} {x : ValueHandle} (hp : w.values p = some x) :
    (readValue (some p)).run w = .ok (x, w) := by
  simp [readValue, StateT.run, hp]

theorem jsRuntimeCreate_spec (hw : w.runtimes w.nextRuntime = none) :
    (∃ host n, (jsRuntimeCreate : BridgeM P Ptr).run w = .ok (none, w.moved host n)) ∨
      ∃ heap host, (∃ host₀, P.newContext host₀ = (some heap, host)) ∧
        (jsRuntimeCreate : BridgeM P Ptr).run w = .ok (some w.nextRuntime, w.addRuntime heap host) := by
  -- a block that is freed again leaves the map as it was
  have hback : ∀ cell, Function.update (Function.update w.runtimes w.nextRuntime cell) w.nextRuntime
      none = w.runtimes := fun cell => by
    rw [Function.update_idem, ← hw, Function.update_eq_self]
  have hmalloc : malloc.run w = .ok ((P.malloc w.host).1, { w with host := (P.malloc w.host).2 }) := rfl
  unfold jsRuntimeCreate
  rw [run_bind_of hmalloc]
  rcases hm : P.malloc w.host with ⟨_ | _, h₁⟩
  · exact .inl ⟨h₁, 0, rfl⟩
  simp only [Bool.not_true, Bool.false_eq_true, if_false]
  rw [run_bind_of (x := w.nextRuntime) rfl, run_bind_of (onHost_run P.newRuntime _)]
  simp only
  rcases hr : P.newRuntime h₁ with ⟨_ | _, h₂⟩
  · refine .inl ⟨h₂, 1, ?_⟩
    simp only [Bool.false_eq_true, if_false]
    exact congrArg (fun m => Except.ok (none, { w.moved h₂ 1 with runtimes := m })) (hback _)
  simp only [if_true]
  rw [run_bind_of (onHost_run P.newContext _)]
  simp only
  rcases hc : P.newContext h₂ with ⟨_ | heap, h₃⟩
  · refine .inl ⟨h₃, 1, ?_⟩
    exact congrArg (fun m => Except.ok (none, { w.moved h₃ 1 with runtimes := m })) (hback _)
  · refine .inr ⟨heap, h₃, ⟨h₂, hc⟩, ?_⟩
    rw [run_bind_of (readRuntime_run (Function.update_self _ _ _))]
    exact congrArg (fun m => Except.ok (some w.nextRuntime, { w.addRuntime heap h₃ with runtimes := m }))
      (Function.update_idem _ _ _)

theorem Inv.moved (h : Inv c w) (host : P.Host) (n : Nat) : Inv c (w.moved host n) :=
  ⟨⟨h.handles.holds, h.handles.unused, h.handles.bound⟩,
    fun r => (h.runtime r).congr (Client.Agrees.refl c r) rfl rfl (Nat.le_add_right _ _), h.owner,
    h.destroyed, h.ledger, h.fresh⟩

theorem Inv.addRuntime (h : Inv c w) (heap : P.Heap) (host : P.Host) :
    Inv { c with runtimes := insert w.nextRuntime c.runtimes } (w.addRuntime heap host) := by
  have hnew : w.nextRuntime ∉ c.runtimes := fun hm => Nat.lt_irrefl _ ((h.runtime _).bound hm)
  have hempty : c.handles w.nextRuntime = ∅ :=
    Finset.eq_empty_of_forall_notMem fun q hq => by
      obtain ⟨hq, hr⟩ := Client.mem_handles.mp hq
      exact hnew (hr ▸ h.owner q.1 q.2 hq)
  have hmark : w.nextRuntime ∉ c.destroyed := fun hm => hnew (h.destroyed hm)
  refine ⟨⟨h.handles.holds, h.handles.unused, h.handles.bound⟩, fun r => ?_,
    fun p r hp => Finset.mem_insert_of_mem (h.owner p r hp),
    fun r hr => Finset.mem_insert_of_mem (h.destroyed hr), ?_, h.fresh⟩
  · by_cases hr : r = w.nextRuntime
    · subst hr
      refine ⟨fun _ => ⟨Loc.mk heap none false none 0 false false host [], none,
        by simp [World.addRuntime], ?_, ?_⟩, fun ho => ?_, fun _ => ?_, ?_⟩
      · exact (Finset.card_eq_zero.mpr hempty).symm
      · simp [hmark]
      · exact absurd ⟨Finset.mem_insert_self _ _, fun hd => hmark hd.1⟩ ho
      · exact Nat.lt_succ_self _
      · exact (h.runtime _).frees
    · refine (h.runtime r).congr ⟨by simp [hr], Iff.rfl, rfl⟩ ?_ rfl (Nat.le_succ _)
      simp [World.addRuntime, hr]
  · have hold : ∀ r ∈ c.runtimes, (w.addRuntime heap host).errorRes r = w.errorRes r := fun r hr => by
      have hne : r ≠ w.nextRuntime := fun he => hnew (he ▸ hr)
      simp [World.errorRes, World.addRuntime, hne]
    have hzero : (w.addRuntime heap host).errorRes w.nextRuntime = 0 := by
      simp [World.errorRes, World.addRuntime, Loc.cell]
    have hledger : (w.addRuntime heap host).ledger = w.ledger := rfl
    rw [hledger, h.ledger]
    simp only [Client.owned]
    rw [Finset.sum_insert hnew, hzero, zero_add, Finset.sum_congr rfl hold]
    rfl

theorem jsRuntimeCreate_inv :
    Triple (Inv (P := P) c) jsRuntimeCreate fun p => Next c (c.after r .runtimeCreate p) := by
  intro w h
  have hw : w.runtimes w.nextRuntime = none := (h.runtime _).freed fun ho =>
    Nat.lt_irrefl _ ((h.runtime _).bound ho.1)
  obtain ⟨host, n, hrun⟩ | ⟨heap, host, -, hrun⟩ := jsRuntimeCreate_spec hw
  · exact ⟨_, _, hrun, h.moved host n, fun _ hd => hd⟩
  · exact ⟨_, _, hrun, h.addRuntime heap host, fun _ hd => hd⟩

theorem jsBridgeFreeString_inv {s : OwnedString} (hs : s ∈ c.strings) :
    Triple (Inv (P := P) c) (jsBridgeFreeString (some s)) fun _ =>
      Next c { c with strings := c.strings.erase s } := by
  intro w h
  have hsplit : c.owned w = Client.owned { c with strings := c.strings.erase s } w + {.string s.token} := by
    conv_lhs => rw [Client.owned, ← Multiset.cons_erase hs]
    rw [Multiset.map_cons, ← Multiset.singleton_add, add_comm {_}, ← add_assoc]
    rfl
  have hledger := h.ledger.trans hsplit
  refine ⟨(), { w with ledger := w.ledger.erase (.string s.token) }, ?_,
    ⟨⟨h.handles.holds, h.handles.unused, h.handles.bound⟩,
      fun r => (h.runtime r).congr ⟨Iff.rfl, Iff.rfl, rfl⟩ rfl rfl le_rfl, h.owner, h.destroyed, ?_,
      h.fresh.release _⟩, fun _ hd => hd⟩
  · simp [jsBridgeFreeString, freeString, release, StateT.run, hledger]
  · show w.ledger.erase _ = _
    rw [hledger, add_comm, Multiset.singleton_add, Multiset.erase_cons_head]
    rfl

end InteropJs
