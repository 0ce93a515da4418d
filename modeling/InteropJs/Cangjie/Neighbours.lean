import Mathlib.Algebra.Order.BigOperators.Group.Finset
import InteropJs.Cangjie.Methods

/-!
# Several runtimes

An operation on the runtime `r` converts its values there, and can then work on a target of another one.

* `Tidy s`: every runtime of `s` that is open can be worked on, because the error strings of the runtimes are
  different blocks (`Tidy.ready`). Every reached state is (`Inv.tidy`).
* `Follows r s s'`: from `s` to `s'` only `r` was worked on. Its rules come from the specs of the functions, and
  `toJSValues_follows` is the one of the conversions.
* `World.sees` is what another runtime sees of a converted value: nothing, if it was made for `r`.
-/

namespace InteropJs

open Hoare

variable {P : Platform} {r t : Nat} {b w : World P} {l l' : Loc P} {L : Multiset Resource} {s s' s'' : Store P}

/-! ## States -/

/-- A state of which every open runtime can be worked on (module doc). -/
structure Tidy (s : Store P) : Prop where
  unused : ∀ p, s.world.nextValue ≤ p → s.world.values p = none
  live : ∀ p t x, s.world.Holds p t x → ∃ l, s.world.loc? t = some l
  covers : ∀ T : Finset Nat, ∑ t ∈ T, s.world.errorRes t ≤ s.world.ledger
  fresh : s.world.Fresh

theorem World.exists_loc_iff : (∃ l, w.loc? t = some l) ↔
    ∃ cell, w.runtimes t = some cell ∧ cell.runtime.isSome = true ∧ cell.context.isSome = true := by
  unfold World.loc?
  rcases w.runtimes t with _ | cell
  · simp
  · rcases hrt : cell.runtime with _ | rt <;> rcases hctx : cell.context with _ | h <;> simp [hrt, hctx]

theorem Inv.tidy {c : Client} (h : Inv c s.world) : Tidy s where
  unused p hp := h.handles.unused p fun r' hmem => absurd (h.handles.bound p r' hmem) (not_lt.mpr hp)
  live p t x hx := by
    by_cases hmem : ∃ r', (p, r') ∈ c.live
    · obtain ⟨r', hmem⟩ := hmem
      obtain ⟨y, u, hy⟩ := h.handles.holds p r' hmem
      obtain ⟨v, hv⟩ := hx
      rw [hv] at hy
      cases hy
      obtain ⟨l, -, -, hl⟩ := h.run (h.open_of_value hmem)
      exact ⟨l, hl.loc?⟩
    · obtain ⟨v, hv⟩ := hx
      rw [h.handles.unused p fun r' hr' => hmem ⟨r', hr'⟩] at hv
      cases hv
  covers T := by
    have hnone (t : Nat) (ht : t ∉ c.runtimes) : s.world.errorRes t = 0 := by
      have hcell := (h.runtime t).freed fun ho => ht ho.1
      rw [World.errorRes, hcell]
    calc ∑ t ∈ T, s.world.errorRes t ≤ ∑ t ∈ c.runtimes, s.world.errorRes t :=
          Finset.sum_le_sum_of_ne_zero fun t _ ht => by_contra fun hno => ht (hnone t hno)
      _ ≤ c.owned s.world := by
          unfold Client.owned
          exact (Multiset.le_add_left _ _).trans (Multiset.le_add_right _ _)
      _ = s.world.ledger := h.ledger.symm
  fresh := h.fresh

/-- An open runtime of a tidy state can be worked on. -/
theorem Tidy.ready (h : Tidy s) (hl : s.world.loc? t = some l) : Ready t l s := by
  refine ⟨?_, h.unused⟩
  unfold World.loc? at hl
  rcases hcell : s.world.runtimes t with _ | cell
  · simp [hcell] at hl
  rcases hrt : cell.runtime with _ | rt
  · simp [hcell, hrt] at hl
  rcases hctx : cell.context with _ | heap
  · simp [hcell, hrt, hctx] at hl
  simp only [hcell, hrt, hctx, Option.some.injEq] at hl
  subst hl
  have hle : stringRes cell.lastError ≤ s.world.ledger := by
    have hsum := h.covers {t}
    rwa [Finset.sum_singleton, World.errorRes, hcell] at hsum
  refine ⟨s.world.ledger - stringRes cell.lastError, cell.lastError, rfl, ?_, ?_, fun _ _ => rfl, rfl, rfl, rfl,
    rfl, rfl, rfl, h.fresh⟩
  · rw [hcell]
    obtain ⟨_, _, _, _, _, _⟩ := cell
    cases hrt
    cases hctx
    rfl
  · exact (tsub_add_cancel_of_le hle).symm

theorem sample_tidy (P : Platform) (host : P.Host) (heap : P.Heap) (x : JSVal) :
    Tidy (Store.sample P host heap x) where
  unused := (sample_ready P host heap x).unused
  live p t y hy := by
    obtain ⟨u, hu⟩ := hy
    by_cases hp : p = 0
    · rw [hp] at hu
      cases hu
      exact ⟨_, (sample_ready P host heap x).on.choose_spec.loc?⟩
    · simp [Store.sample, hp] at hu
  covers T := by
    have hzero : ∀ t ∈ T, (Store.sample P host heap x).world.errorRes t = 0 := by
      intro t _
      by_cases ht : t = 0
      · rw [ht]
        rfl
      · simp [World.errorRes, Store.sample, ht]
    rw [Finset.sum_eq_zero hzero]
    exact Multiset.zero_le _
  fresh := by
    obtain ⟨L, e, -, hat⟩ := (sample_ready P host heap x).on
    exact hat.fresh

theorem Ready.loc? (h : Ready r l s) : s.world.loc? r = some l := by
  obtain ⟨L, hs⟩ := h.on
  exact Run.loc? hs

/-! ## Steps -/

/-- From `s` to `s'` only the runtime `r` was worked on. -/
structure Follows (r : Nat) (s s' : Store P) : Prop where
  tidy : Tidy s'
  extend : s.Extends s'
  opened : ∀ t, (∃ l, s.world.loc? t = some l) → ∃ l, s'.world.loc? t = some l
  others : ∀ t, t ≠ r → s'.heap t = s.heap t

theorem Follows.refl (h : Tidy s) : Follows r s s := ⟨h, .refl s, fun _ hl => hl, fun _ _ => rfl⟩

theorem Follows.trans (h : Follows r s s') (h' : Follows r s' s'') : Follows r s s'' where
  tidy := h'.tidy
  extend := h.extend.trans h'.extend
  opened t hl := h'.opened t (h.opened t hl)
  others t ht := (h'.others t ht).trans (h.others t ht)

/-- A step on `t` that leaves the heap of `t` is one on any runtime. -/
theorem Follows.steady (h : Follows t s s') (hheap : s'.heap t = s.heap t) : Follows r s s' := by
  refine ⟨h.tidy, h.extend, h.opened, fun u _ => ?_⟩
  by_cases hu : u = t
  · rw [hu, hheap]
  · exact h.others u hu

/-- A step that leaves the world. -/
theorem Follows.of_world (h : Tidy s) (hw : s'.world = s.world) : Follows r s s' := by
  obtain ⟨w, n⟩ := s'
  cases hw
  exact ⟨⟨h.unused, h.live, h.covers, h.fresh⟩, fun _ _ hv => hv, fun _ hl => hl, fun _ _ => rfl⟩

/-- The error strings stay different blocks. -/
theorem covers_of_run {b' w' : World P} {L' : Multiset Resource}
    (h : ∀ T : Finset Nat, ∑ t ∈ T, b.errorRes t ≤ b.ledger) (hs : Run r b l L b) (hL : L ≤ L')
    (hb : b'.runtimes = b.runtimes) (hw : Run r b' l' L' w') (T : Finset Nat) :
    ∑ t ∈ T, w'.errorRes t ≤ w'.ledger := by
  obtain ⟨e, -, hs⟩ := hs
  obtain ⟨e', -, hw⟩ := hw
  have herr : b.errorRes r = stringRes e := by
    rw [World.errorRes, hs.cell]
    rfl
  have herr' : w'.errorRes r = stringRes e' := by
    rw [World.errorRes, hw.cell]
    rfl
  have hrest : ∑ t ∈ T.erase r, b.errorRes t ≤ L := by
    have hsum := h (insert r (T.erase r))
    rw [Finset.sum_insert (Finset.notMem_erase r T), herr, hs.ledger, add_comm L] at hsum
    exact le_of_add_le_add_left hsum
  have hsame : ∑ t ∈ T.erase r, w'.errorRes t = ∑ t ∈ T.erase r, b.errorRes t := by
    refine Finset.sum_congr rfl fun t ht => ?_
    rw [World.errorRes, World.errorRes, hw.others t (Finset.ne_of_mem_erase ht), hb]
  calc ∑ t ∈ T, w'.errorRes t ≤ ∑ t ∈ insert r (T.erase r), w'.errorRes t :=
        Finset.sum_le_sum_of_subset (Finset.insert_erase_subset r T)
    _ = stringRes e' + ∑ t ∈ T.erase r, b.errorRes t := by
        rw [Finset.sum_insert (Finset.notMem_erase r T), herr', hsame]
    _ ≤ stringRes e' + L' := by
        gcongr
        exact hrest.trans hL
    _ = w'.ledger := by rw [hw.ledger, add_comm]

/-- An open runtime stays open while another one is worked on. -/
theorem Run.exists_loc {b' w' : World P} (hb : b'.runtimes = b.runtimes) (hw : Run r b' l' L w')
    (h : ∃ l, b.loc? t = some l) : ∃ l, w'.loc? t = some l := by
  by_cases ht : t = r
  · exact ⟨l', ht ▸ hw.loc?⟩
  · obtain ⟨e, -, hw⟩ := hw
    rw [World.exists_loc_iff] at h ⊢
    rwa [hw.others t ht, hb]

theorem Run.heap_of_ne {b' w' : World P} (hb : b'.runtimes = b.runtimes) (hw : Run r b' l' L w') (ht : t ≠ r) :
    (w'.runtimes t).bind (·.context) = (b.runtimes t).bind (·.context) := by
  obtain ⟨e, -, hw⟩ := hw
  rw [hw.others t ht, hb]

/-- A run that gives no handle. -/
theorem Tidy.run (h : Tidy s) (hs : On r s.world l L s) (hw : Run r s.world l' L s'.world) : Follows r s s' := by
  obtain ⟨hready, hext⟩ := (h.ready (Run.loc? hs)).run hw
  have hvalues : s'.world.values = s.world.values := by
    obtain ⟨e, -, hat⟩ := hw
    exact hat.values
  refine ⟨⟨hready.unused, fun p t x hx => ?_, covers_of_run h.covers hs le_rfl rfl hw, ?_⟩, hext,
    fun _ hl => hw.exists_loc rfl hl, fun t ht => hw.heap_of_ne rfl ht⟩
  · refine hw.exists_loc rfl (h.live p t x ?_)
    rwa [World.Holds, hvalues] at hx
  · obtain ⟨e, -, hat⟩ := hw
    exact hat.fresh

/-- A run that gives one. -/
theorem Tidy.granted {x : JSVal} (h : Tidy s) (hs : On r s.world l L s) (hw : Granted r s.world l' L x s'.world) :
    Follows r s s' := by
  obtain ⟨hready, hext, -⟩ := (h.ready (Run.loc? hs)).granted hw
  obtain ⟨u, hw⟩ := hw
  have hb : (s.world.addValue ⟨some r, .ref x u⟩).runtimes = s.world.runtimes := rfl
  refine ⟨⟨hready.unused, fun p t y hy => ?_, covers_of_run h.covers hs (Multiset.le_add_right _ _) hb hw, ?_⟩, hext,
    fun _ hl => hw.exists_loc hb hl, fun t ht => hw.heap_of_ne hb ht⟩
  · by_cases hp : p = s.world.nextValue
    · have hloc := hw.loc?
      obtain ⟨e, -, hat⟩ := hw
      obtain ⟨v, hv⟩ := hy
      rw [hat.values, hp] at hv
      simp only [World.addValue, Function.update_self, Option.some.injEq, ValueHandle.mk.injEq] at hv
      obtain ⟨rfl, -⟩ := hv
      exact ⟨_, hloc⟩
    · refine hw.exists_loc hb (h.live p t y ?_)
      obtain ⟨e, -, hat⟩ := hw
      obtain ⟨v, hv⟩ := hy
      rw [hat.values, addValue_values_of_ne hp] at hv
      exact ⟨v, hv⟩
  · obtain ⟨e, -, hat⟩ := hw
    exact hat.fresh

/-! ## Conversions -/

/-- What the runtime `t` sees of a value that was converted for another one. -/
def Any.foreignIn (w : World P) (t : Nat) : Any → Option JSVal
  | .externValue (.value ref) => w.valueOf t ref.handle
  | .externValue (.pointer handle) | .pointer handle => w.valueOf t handle
  | _ => none

/-- What the runtime `t` sees of the value `v` that `toJSValue` made `y` of for `r`. -/
def World.sees (w : World P) (r t : Nat) (v : Any) (y : Option JSVal) : Option JSVal :=
  if t = r then y else v.foreignIn w t

theorem World.Holds.valueOf_of_ne {p : Nat} {x : JSVal} (h : w.Holds p r x) (ht : t ≠ r) :
    w.valueOf t (some p) = none := by
  obtain ⟨u, hu⟩ := h
  simp [World.valueOf, hu, ht.symm]

section Convert

variable {v : Any} {y : Option JSVal} {res : Except Exn JSValueRef} {ref : JSValueRef}

theorem toJSValue_follows (h : Tidy s) (hl : s.world.loc? r = some l)
    (hrun : (JSRuntime.toJSValue (some r) v).exec.run s = .ok (res, s')) : Follows r s s' := by
  have primitive (hv : v.isPrimitive = true) : Follows r s s' := by
    obtain ⟨L, hs⟩ := (h.ready hl).on
    obtain ⟨res', s₁, hrun', hpost⟩ := (toJSValue_spec hv).run hs
    cases hrun.symm.trans hrun'
    obtain ⟨ref, -, x, -, -, -, hw⟩ | ⟨e, -, -, hw⟩ := hpost
    · exact h.granted hs hw
    · exact h.run hs hw
  cases v with
  | externValue e =>
    cases e <;> cases hrun <;> exact .of_world h rfl
  | pointer p =>
    cases hrun
    exact .of_world h rfl
  | other =>
    cases hrun
    exact .of_world h rfl
  | int t i => cases t <;> exact primitive rfl
  | bigInt i => exact primitive rfl
  | float t x => exact primitive rfl
  | bool b => exact primitive rfl
  | string str => exact primitive rfl

theorem toJSValue_sees {s₀ : Store P} (h : Ready r l s) (he : s₀.Extends s) (hv : v.Sound s₀.world)
    (hpass : l.pass (s₀.world.valueOf r) v = some (y, l'))
    (hrun : (JSRuntime.toJSValue (some r) v).exec.run s = .ok (.ok ref, s')) (t : Nat) :
    s'.world.valueOf t ref.handle = s₀.world.sees r t v y := by
  obtain ⟨res, s₁, hrun', hext, hpassed⟩ := toJSValue_passed h he hv
  cases hrun.symm.trans hrun'
  rw [hpass] at hpassed
  obtain ⟨ref', heq, -, hlive, hval⟩ := hpassed
  cases heq
  unfold World.sees
  split
  · next ht =>
    rw [ht]
    exact hval
  · next ht =>
    have primitive (hprim : v.isPrimitive = true) (hn : v.foreignIn s₀.world t = none) :
        s'.world.valueOf t ref.handle = v.foreignIn s₀.world t := by
      obtain ⟨L, hs⟩ := h.on
      obtain ⟨res', s₂, hrun'', hpost⟩ := (toJSValue_spec hprim).run hs
      cases hrun.symm.trans hrun''
      obtain ⟨ref', heq, x, -, -, href, hw⟩ | ⟨e, heq, -⟩ := hpost
      · cases heq
        obtain ⟨-, -, hholds⟩ := h.granted hw
        rw [hn, href, hholds.valueOf_of_ne ht]
      · cases heq
    cases v with
    | externValue e =>
      cases e with
      | value ref' =>
        cases hrun
        exact World.NullOrLive.valueOf_eq hv (he.trans hext)
      | pointer p =>
        cases hrun
        exact World.NullOrLive.valueOf_eq hv (he.trans hext)
      | method f g => cases hrun
      | other => cases hrun
    | pointer p =>
      cases hrun
      exact World.NullOrLive.valueOf_eq hv (he.trans hext)
    | other => cases hrun
    | int t i => cases t <;> exact primitive rfl rfl
    | bigInt i => exact primitive rfl rfl
    | float t x => exact primitive rfl rfl
    | bool b => exact primitive rfl rfl
    | string str => exact primitive rfl rfl

end Convert

section Convert

variable {vs : List Any} {os : List (Option JSVal)} {res : Except Exn (List JSValueRef)} {refs : List JSValueRef}

theorem toJSValues_follows (h : Tidy s) (hl : s.world.loc? r = some l) (hvs : ∀ v ∈ vs, v.Sound s.world)
    (hrun : (JSRuntime.toJSValues (some r) vs).exec.run s = .ok (res, s')) : Follows r s s' := by
  induction vs generalizing l s res s' with
  | nil =>
    cases hrun
    exact .refl h
  | cons v vs ih =>
    obtain ⟨out, s₁, hfirst, hext, hpassed⟩ := toJSValue_passed (h.ready hl) (.refl s) (hvs v (by simp))
    have hfollows := toJSValue_follows h hl hfirst
    cases hpass : l.pass (s.world.valueOf r) v with
    | none =>
      rw [hpass] at hpassed
      obtain ⟨e, rfl⟩ := hpassed
      cases hrun.symm.trans (Prog.exec_bind_error hfirst)
      exact hfollows
    | some o =>
      obtain ⟨y, l₁⟩ := o
      rw [hpass] at hpassed
      obtain ⟨ref, rfl, hready, -⟩ := hpassed
      have hvs' : ∀ v ∈ vs, v.Sound s₁.world := fun u hu => (hvs u (by simp [hu])).mono hext
      obtain ⟨rest, s₂, hrest, -, -⟩ := toJSValues_passed hready (.refl s₁) hvs'
      have htail := hfollows.trans (ih hfollows.tidy hready.loc? hvs' hrest)
      have hall := (Prog.exec_bind_of hfirst).symm.trans hrun
      cases rest with
      | error e =>
        cases hall.symm.trans (Prog.exec_bind_error hrest)
        exact htail
      | ok refs =>
        cases hall.symm.trans (Prog.exec_bind_of hrest)
        exact htail

/-- What the runtime `t` sees of the values. -/
def World.seesAll (w : World P) (r t : Nat) (vs : List Any) (os : List (Option JSVal)) : List (Option JSVal) :=
  List.zipWith (w.sees r t) vs os

theorem toJSValues_sees {s₀ : Store P} (h : Ready r l s) (he : s₀.Extends s) (hvs : ∀ v ∈ vs, v.Sound s₀.world)
    (hpass : l.passAll (s₀.world.valueOf r) vs = some (os, l'))
    (hrun : (JSRuntime.toJSValues (some r) vs).exec.run s = .ok (.ok refs, s')) (t : Nat) :
    refs.map (fun ref => s'.world.valueOf t ref.handle) = s₀.world.seesAll r t vs os := by
  induction vs generalizing l s refs os with
  | nil =>
    cases hrun
    rfl
  | cons v vs ih =>
    obtain ⟨ref, s₁, hfirst, hrun⟩ := Prog.exec_bind_ok hrun
    obtain ⟨refs', s₂, hrest, hrun⟩ := Prog.exec_bind_ok hrun
    cases hrun
    simp only [Loc.passAll] at hpass
    obtain ⟨out, s₃, hfirst', hext, hpassed⟩ := toJSValue_passed h he (hvs v (by simp))
    cases hfirst.symm.trans hfirst'
    rcases hv : l.pass (s₀.world.valueOf r) v with _ | ⟨y, l₁⟩ <;> simp only [hv] at hpass
    · cases hpass
    rcases hall : l₁.passAll (s₀.world.valueOf r) vs with _ | ⟨ys, l₂⟩ <;> simp only [hall] at hpass
    · cases hpass
    cases hpass
    rw [hv] at hpassed
    obtain ⟨ref', heq, hready, hlive, -⟩ := hpassed
    cases heq
    have hvs' : ∀ u ∈ vs, u.Sound s₀.world := fun u hu => hvs u (by simp [hu])
    obtain ⟨out, s₃, hrest', hext', -⟩ := toJSValues_passed hready (he.trans hext) hvs'
    cases hrest.symm.trans hrest'
    rw [List.map_cons, ih hready (he.trans hext) hvs' hall hrest, hlive.valueOf_eq hext',
      toJSValue_sees h he (hvs v (by simp)) hv hfirst t]
    rfl

end Convert

end InteropJs
