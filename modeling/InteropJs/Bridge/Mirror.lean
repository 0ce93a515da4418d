import InteropJs.Bridge.Isolation

/-!
# Two worlds that differ in destroyed handles

`Mirrors w v` says that `v` has all that `w` has: every runtime of `w` with the same engine, error and
marks, and every handle of `w` with the same value. `v` may have more: handles that were destroyed in
`w`, and so another count and runtimes that `w` has freed.

* `Call.effect_count` and `Call.effect_congr`: what a call shows depends neither on the count nor on
  the handles that it does not take.
* `Pair.call`: a call that the client of `w` may make can be made in `v`; it has the same result, up to
  the block of a string, and the two worlds mirror each other again.
* `Pair.finalise`: the destruction of a handle in `w` has no counterpart in `v`. `Pair.reclaim`: a step of an
  engine has one.
-/

namespace InteropJs

open Hoare

variable {P : Platform} {r : Nat} {w w' v v' : World P} {l : Loc P} {c d : Client}

/-! ## The count shows nowhere -/

/-- The local state with another count of handles. -/
def Loc.counting (l : Loc P) (n : Nat) : Loc P := { l with count := n }

section Count

variable (l : Loc P) (n : Nat)

theorem Loc.counting_clearError : (l.counting n).clearError = l.clearError.counting n := rfl

theorem Loc.counting_after {α : Type} (out : Except JSVal α × P.Heap) :
    (l.counting n).after out = (l.after out).counting n := by
  rcases out with ⟨_ | _, _⟩ <;> rfl

theorem Loc.counting_started (f : JSVal) (runs : Bool) :
    (l.counting n).started f runs = (l.started f runs).counting n := by
  cases runs <;> rfl

theorem Loc.counting_capture : (l.counting n).capture = l.capture.counting n := by
  unfold Loc.capture
  rw [show (l.counting n).heap = l.heap from rfl, show (l.counting n).exception = l.exception from rfl]
  rcases P.toCString (l.exception.getD .uninitialized) l.heap with ⟨_ | _, _⟩ <;> rfl

theorem Loc.counting_callBigint (f : JSVal) (s : CStr) :
    (l.counting n).callBigint f s = ((l.callBigint f s).1, (l.callBigint f s).2.counting n) := by
  unfold Loc.callBigint
  rw [show (l.counting n).heap = l.heap from rfl]
  rcases P.newJSString s l.heap with ⟨_ | y, h⟩
  · rfl
  · have hstart := Loc.counting_started { l with heap := h } n f f.callRuns
    have hafter := Loc.counting_after ({ l with heap := h }.started f f.callRuns) n
      (P.call f .undefined [y] h)
    rw [← hstart] at hafter
    exact congrArg (Prod.mk _) hafter

theorem Loc.counting_newBigint (s : CStr) :
    (l.counting n).newBigint s = ((l.newBigint s).1, (l.newBigint s).2.counting n) := by
  simp only [Loc.newBigint, show (l.counting n).heap = l.heap from rfl, Loc.counting_after,
    Loc.counting_callBigint]

theorem Loc.counting_toText (x : JSVal) :
    (l.counting n).toText x = ((l.toText x).1, (l.toText x).2.counting n) := by
  unfold Loc.toText
  rw [show (l.counting n).heap = l.heap from rfl, show (l.counting n).host = l.host from rfl]
  rcases P.toCString x l.heap with ⟨_ | _, h⟩
  · rfl
  · dsimp only
    split <;> rfl

theorem Loc.counting_arrayLength (x : JSVal) :
    (l.counting n).arrayLength x = ((l.arrayLength x).1, (l.arrayLength x).2.counting n) := by
  unfold Loc.arrayLength
  rw [show (l.counting n).heap = l.heap from rfl]
  rcases P.getProperty x (.ofCString (utf8 "length")) l.heap with ⟨e | y, h⟩
  · exact congrArg (Prod.mk _) (Loc.counting_capture { l with heap := h, exception := some e } n)
  · dsimp only
    rcases P.toNumber y h with ⟨_ | _, _⟩ <;> rfl

/-- An exit in the state with another count. -/
def Outcome.counting (out : Outcome × Loc P) (n : Nat) : Outcome × Loc P := (out.1, out.2.counting n)

theorem Loc.counting_check {α : Type} (check : Except CStr α) {k k' : α → Outcome × Loc P}
    (hk : ∀ a, k' a = Outcome.counting (k a) n) :
    (l.counting n).check check k' = Outcome.counting (l.check check k) n := by
  cases check with
  | error m => rfl
  | ok a => exact hk a

theorem Loc.counting_target (x : Option JSVal) {k k' : JSVal → Outcome × Loc P}
    (hk : ∀ x, k' x = Outcome.counting (k x) n) :
    (l.counting n).target x k' = Outcome.counting (l.target x k) n := by
  cases x with
  | none => rfl
  | some x => exact hk x

theorem Loc.counting_answers (out : Except JSVal JSVal × P.Heap) :
    (l.counting n).answers out = Outcome.counting (l.answers out) n :=
  congrArg (Prod.mk _) (Loc.counting_after l.clearError n out)

theorem Loc.counting_reports {α : Type} (out : Except JSVal α × P.Heap) :
    (l.counting n).reports out = Outcome.counting (l.reports out) n :=
  congrArg (Prod.mk _) (Loc.counting_after l.clearError n out)

theorem Loc.counting_enabling : (l.counting n).enabling = Outcome.counting l.enabling n := by
  unfold Loc.enabling
  rw [show (l.counting n).heap = l.heap from rfl, show (l.counting n).stdEnabled = l.stdEnabled from rfl]
  split
  · rfl
  · rcases P.initModuleStd l.heap with ⟨_ | _, _⟩ <;> rfl

theorem Loc.counting_importing (path : CStr) :
    (l.counting n).importing path = Outcome.counting (l.importing path) n := by
  unfold Loc.importing
  rw [show (l.counting n).heap = l.heap from rfl, show (l.counting n).host = l.host from rfl]
  rcases P.readFile path l.host with ⟨_ | source, host⟩
  · rfl
  · exact Loc.counting_answers { l with host } n _

theorem Loc.counting_numbered (x : JSVal) :
    (l.counting n).numbered x = Outcome.counting (l.numbered x) n := by
  unfold Loc.numbered
  rw [show (l.counting n).heap = l.heap from rfl]
  rcases P.toNumber x l.heap with ⟨_ | _, _⟩ <;> rfl

theorem Loc.counting_afterCall (f this : JSVal) (argv : List JSVal) :
    (l.counting n).afterCall f this argv = (l.afterCall f this argv).counting n := by
  unfold Loc.afterCall
  rw [Loc.counting_clearError, Loc.counting_started, Loc.counting_after]
  rfl

theorem Loc.counting_afterConstruct (f : JSVal) (argv : List JSVal) :
    (l.counting n).afterConstruct f argv = (l.afterConstruct f argv).counting n := by
  unfold Loc.afterConstruct
  rw [Loc.counting_clearError, Loc.counting_started, Loc.counting_after]
  rfl

theorem Call.outcome_count (own : Ptr → Option JSVal) {β : Type} (call : Call β) :
    call.outcome own (l.counting n) = Outcome.counting (call.outcome own l) n := by
  cases call with
  | runtimeCreate | runtimeDestroy _ | valueDestroy _ | bridgeFreeString _ | runtimeLastError _
  | runtimeNewBool _ _ | runtimeNewNumber _ _ => rfl
  | runtimeEnableStdModule _ => exact Loc.counting_enabling l n
  | runtimeEvalValue _ _ => exact Loc.counting_check l n _ fun _ => Loc.counting_answers l n _
  | runtimeGetGlobalProperty _ _ => exact Loc.counting_check l n _ fun _ => Loc.counting_answers l n _
  | runtimeNewString _ _ => exact Loc.counting_check l n _ fun _ => Loc.counting_answers l n _
  | runtimeNewBigint _ _ =>
    refine Loc.counting_check l n _ fun s => ?_
    simp only [Loc.counting_clearError, Loc.counting_newBigint]
    rfl
  | runtimeImportModule _ _ => exact Loc.counting_check l n _ fun _ => Loc.counting_importing l n _
  | valueKind _ => exact Loc.counting_target l n _ fun _ => rfl
  | valueToBool _ => exact Loc.counting_target l n _ fun _ => rfl
  | valueToNumber _ => exact Loc.counting_target l n _ fun _ => Loc.counting_numbered l n _
  | valueToString _ =>
    refine Loc.counting_target l n _ fun x => ?_
    simp only [Loc.counting_toText]
    rfl
  | valueIsArray _ =>
    exact Loc.counting_target l n _ fun x => congrArg (Prod.mk _) (Loc.counting_after l n _)
  | valueArrayLength _ =>
    refine Loc.counting_target l n _ fun x => ?_
    simp only [Loc.counting_arrayLength]
    rfl
  | valueGetProperty _ _ =>
    exact Loc.counting_target l n _ fun _ => Loc.counting_check l n _ fun _ => Loc.counting_answers l n _
  | valueSetProperty _ _ _ =>
    exact Loc.counting_target l n _ fun _ => Loc.counting_check l n _ fun _ =>
      Loc.counting_check l n _ fun _ => Loc.counting_reports l n _
  | valueGetIndex _ _ =>
    exact Loc.counting_target l n _ fun _ => Loc.counting_check l n _ fun _ => Loc.counting_answers l n _
  | valueSetIndex _ _ _ =>
    exact Loc.counting_target l n _ fun _ => Loc.counting_check l n _ fun _ =>
      Loc.counting_check l n _ fun _ => Loc.counting_reports l n _
  | valueCall _ _ _ _ =>
    exact Loc.counting_target l n _ fun f => Loc.counting_check l n _ fun this =>
      Loc.counting_check l n _ fun argv => congrArg (Prod.mk _) (Loc.counting_afterCall l n f this argv)
  | valueConstruct _ _ _ =>
    exact Loc.counting_target l n _ fun f => Loc.counting_check l n _ fun argv =>
      congrArg (Prod.mk _) (Loc.counting_afterConstruct l n f argv)

theorem Loc.finish_count (fail : Seen) (out : Outcome × Loc P) :
    ∃ m, Loc.finish fail (Outcome.counting out n) =
      ((Loc.finish fail out).1, (Loc.finish fail out).2.counting m) := by
  obtain ⟨o, l⟩ := out
  cases o with
  | reject m => exact ⟨n, rfl⟩
  | raise => exact ⟨n, congrArg (Prod.mk _) (Loc.counting_capture l n)⟩
  | done s => exact ⟨n, rfl⟩
  | value x =>
    by_cases hm : (P.malloc l.host).1 = true
    · refine ⟨n + 1, ?_⟩
      simp only [Loc.finish, Outcome.counting, Loc.counting, hm, if_true]
    · refine ⟨n, ?_⟩
      simp only [Loc.finish, Outcome.counting, Loc.counting, hm, if_false, Bool.false_eq_true]
      rfl

/-- A call shows the same and leaves the same, whatever the count. -/
theorem Call.effect_count (own : Ptr → Option JSVal) {β : Type} (call : Call β) :
    ∃ m, call.effect own (l.counting n) = ((call.effect own l).1, (call.effect own l).2.counting m) := by
  unfold Call.effect
  rw [Call.outcome_count]
  exact Loc.finish_count n _ _

end Count

/-! ## Only the handles that are taken show -/

section Own

variable {own own' : Ptr → Option JSVal}

theorem mapM_own_congr {xs : List Ptr} (h : ∀ p ∈ xs, own' p = own p) : xs.mapM own' = xs.mapM own := by
  induction xs with
  | nil => rfl
  | cons p xs ih =>
    rw [List.mapM_cons, List.mapM_cons, h p List.mem_cons_self,
      ih fun q hq => h q (List.mem_cons_of_mem p hq)]

theorem argvFrom_congr {args : Option (List Ptr)} (n : Int) (h : ∀ p ∈ args.getD [], own' p = own p) :
    argvFrom own' args n = argvFrom own args n := by
  unfold argvFrom
  rw [mapM_own_congr fun p hp => h p (List.mem_of_mem_take hp)]

theorem thisFrom_congr {p : Ptr} (h : own' p = own p) : thisFrom own' p = thisFrom own p := by
  unfold thisFrom valueFrom
  rw [h]

theorem valueFrom_congr {p : Ptr} (h : own' p = own p) (m : String) :
    valueFrom own' p m = valueFrom own p m := by
  unfold valueFrom
  rw [h]

end Own

/-- The handles of `w` show the same in `own`. -/
theorem Call.effect_congr {own : Ptr → Option JSVal} {β : Type} {call : Call β} (hon : call.On w r)
    (h : ∀ p, w.NullOrLive p → own p = w.valueOf r p) :
    call.effect own l = call.effect (w.valueOf r) l := by
  have held {p : Ptr} (hp : ∃ q x, p = some q ∧ w.Holds q r x) : own p = w.valueOf r p := by
    obtain ⟨q, x, rfl, hx⟩ := hp
    exact h _ fun q' hq => ⟨r, x, by cases hq; exact hx⟩
  unfold Call.effect
  congr 1
  cases call with
  | runtimeCreate | runtimeDestroy _ | valueDestroy _ | bridgeFreeString _ => exact hon.elim
  | runtimeLastError _ | runtimeEnableStdModule _ | runtimeEvalValue _ _ | runtimeGetGlobalProperty _ _
  | runtimeNewBool _ _ | runtimeNewNumber _ _ | runtimeNewString _ _ | runtimeNewBigint _ _
  | runtimeImportModule _ _ => rfl
  | valueKind _ | valueToBool _ | valueToNumber _ | valueToString _ | valueIsArray _
  | valueArrayLength _ | valueGetProperty _ _ | valueGetIndex _ _ =>
    simp only [Call.outcome, held hon]
  | valueSetProperty p _ q | valueSetIndex p _ q =>
    simp only [Call.outcome, held hon.1, valueFrom_congr (h q hon.2)]
  | valueCall p q args n =>
    obtain ⟨hp, hq, -, hargs⟩ := hon
    simp only [Call.outcome, held hp, thisFrom_congr (h q hq),
      argvFrom_congr n fun p hp => h p (hargs p hp)]
  | valueConstruct p args n =>
    obtain ⟨hp, -, hargs⟩ := hon
    simp only [Call.outcome, held hp, argvFrom_congr n fun p hp => h p (hargs p hp)]

/-! ## Mirrored worlds -/

/-- The same engine, error and marks; the counts and the block of the error may differ. -/
structure RuntimeHandle.Like (a b : RuntimeHandle P) : Prop where
  runtime : b.runtime = a.runtime
  context : b.context = a.context
  lastError : b.lastError.map (·.bytes) = a.lastError.map (·.bytes)
  destroying : b.destroying = a.destroying
  stdModuleEnabled : b.stdModuleEnabled = a.stdModuleEnabled

theorem RuntimeHandle.Like.refl (a : RuntimeHandle P) : a.Like a := ⟨rfl, rfl, rfl, rfl, rfl⟩

/-- `v` has all that `w` has (module doc). -/
structure Mirrors (w v : World P) : Prop where
  runtime : ∀ r a, w.runtimes r = some a → ∃ b, v.runtimes r = some b ∧ a.Like b
  holds : ∀ p r x, w.Holds p r x → v.Holds p r x
  nextRuntime : v.nextRuntime = w.nextRuntime
  nextValue : v.nextValue = w.nextValue
  host : v.host = w.host
  entries : v.entries = w.entries

namespace Mirrors

theorem refl (w : World P) : Mirrors w w :=
  ⟨fun _ a h => ⟨a, h, .refl a⟩, fun _ _ _ h => h, rfl, rfl, rfl, rfl⟩

/-- The local states differ in their counts. -/
theorem loc? (h : Mirrors w v) (hl : w.loc? r = some l) : ∃ n, v.loc? r = some (l.counting n) := by
  unfold World.loc? at hl
  cases hr : w.runtimes r with
  | none => simp [hr] at hl
  | some a =>
    obtain ⟨b, hb, hlike⟩ := h.runtime r a hr
    obtain ⟨runtime, context, error, count, destroying, std⟩ := a
    cases runtime <;> cases context <;> simp [hr] at hl
    subst hl
    refine ⟨b.valueCount, ?_⟩
    simp only [World.loc?, hb, hlike.runtime, hlike.context, hlike.lastError, hlike.destroying,
      hlike.stdModuleEnabled, h.host, h.entries, Loc.counting]

theorem core? (h : Mirrors w v) {k : Core P} (hk : w.core? r = some k) : v.core? r = some k := by
  obtain ⟨l, hl, rfl⟩ := Option.map_eq_some_iff.mp hk
  obtain ⟨n, hn⟩ := h.loc? hl
  rw [World.core?_of_loc hn]
  rfl

theorem nullOrLive {p : Ptr} (h : Mirrors w v) (hp : w.NullOrLive p) : v.NullOrLive p := by
  intro q hq
  obtain ⟨r, x, hx⟩ := hp q hq
  exact ⟨r, x, h.holds q r x hx⟩

theorem valueOf {p : Ptr} (h : Mirrors w v) (hp : w.NullOrLive p) : v.valueOf r p = w.valueOf r p := by
  cases p with
  | none => rfl
  | some q =>
    obtain ⟨r', x, hx⟩ := hp q rfl
    obtain ⟨t, ht⟩ := hx
    obtain ⟨t', ht'⟩ := h.holds q r' x ⟨t, ht⟩
    simp only [World.valueOf, Option.bind_some, ht, ht']

theorem on {β : Type} {call : Call β} (h : Mirrors w v) (hon : call.On w r) : call.On v r := by
  have held {p : Ptr} (hp : ∃ q x, p = some q ∧ w.Holds q r x) : ∃ q x, p = some q ∧ v.Holds q r x := by
    obtain ⟨q, x, hq, hx⟩ := hp
    exact ⟨q, x, hq, h.holds q r x hx⟩
  cases call with
  | runtimeCreate | runtimeDestroy _ | valueDestroy _ | bridgeFreeString _ => exact hon
  | runtimeLastError _ | runtimeEnableStdModule _ | runtimeEvalValue _ _ | runtimeGetGlobalProperty _ _
  | runtimeNewBool _ _ | runtimeNewNumber _ _ | runtimeNewString _ _ | runtimeNewBigint _ _
  | runtimeImportModule _ _ => exact hon
  | valueKind _ | valueToBool _ | valueToNumber _ | valueToString _ | valueIsArray _
  | valueArrayLength _ | valueGetProperty _ _ | valueGetIndex _ _ => exact held hon
  | valueSetProperty _ _ _ | valueSetIndex _ _ _ => exact ⟨held hon.1, h.nullOrLive hon.2⟩
  | valueCall _ _ _ _ =>
    exact ⟨held hon.1, h.nullOrLive hon.2.1, hon.2.2.1, fun q hq => h.nullOrLive (hon.2.2.2 q hq)⟩
  | valueConstruct _ _ _ => exact ⟨held hon.1, hon.2.1, fun q hq => h.nullOrLive (hon.2.2 q hq)⟩

/-- The room of the stack is the same for both worlds. -/
theorem overruns {β : Type} {call : Call β} (h : Mirrors w v) (hon : call.On w r)
    (hover : call.Overruns P (v.valueOf r)) : call.Overruns P (w.valueOf r) := by
  cases call with
  | valueCall p q args n =>
    obtain ⟨⟨this, hthis⟩, hn⟩ := hover
    exact ⟨⟨this, (thisFrom_congr (h.valueOf hon.2.1)).symm.trans hthis⟩, hn⟩
  | valueConstruct p args n => exact hover
  | _ => exact hover.elim

/-- The call shows the same in both worlds. -/
theorem effect {β : Type} {call : Call β} {l' : Loc P} (h : Mirrors w v) (hl : w.loc? r = some l)
    (hl' : v.loc? r = some l') (hon : call.On w r) :
    ∃ m, call.effect (v.valueOf r) l' =
      ((call.effect (w.valueOf r) l).1, (call.effect (w.valueOf r) l).2.counting m) := by
  obtain ⟨n, hn⟩ := h.loc? hl
  rw [hn] at hl'
  cases hl'
  rw [Call.effect_congr hon fun p hp => h.valueOf hp]
  exact Call.effect_count l n _ call

/-- A function on `r` in both worlds. -/
theorem run {b b' : World P} {L L' : Multiset Resource} {m : Nat} (h : Mirrors b b')
    (hw : Run r b l L w) (hv : Run r b' (l.counting m) L' v) : Mirrors w v := by
  obtain ⟨e, he, hw⟩ := hw
  obtain ⟨e', he', hv⟩ := hv
  refine ⟨fun r' a ha => ?_, fun p r' x hx => ?_, ?_, ?_, hv.host.trans hw.host.symm,
    hv.entries.trans hw.entries.symm⟩
  · by_cases hr : r' = r
    · subst hr
      rw [hw.cell] at ha
      cases ha
      exact ⟨_, hv.cell, rfl, rfl, he'.trans he.symm, rfl, rfl⟩
    · rw [hw.others r' hr] at ha
      rw [hv.others r' hr]
      exact h.runtime r' a ha
  · simp only [World.Holds, hw.values] at hx
    simpa only [World.Holds, hv.values] using h.holds p r' x hx
  · rw [hv.nextRuntime, hw.nextRuntime, h.nextRuntime]
  · rw [hv.nextValue, hw.nextValue, h.nextValue]

/-- A new handle with the same value in both worlds. -/
theorem addValue (h : Mirrors w v) (x : JSVal) (t t' : Nat) :
    Mirrors (w.addValue ⟨some r, .ref x t⟩) (v.addValue ⟨some r, .ref x t'⟩) := by
  refine ⟨h.runtime, fun p r' y hy => ?_, h.nextRuntime, congrArg (· + 1) h.nextValue, h.host, h.entries⟩
  obtain ⟨u, hu⟩ := hy
  by_cases hp : p = w.nextValue
  · subst hp
    simp only [World.addValue, Function.update_self] at hu
    cases hu
    exact ⟨t', by simp [World.addValue, h.nextValue]⟩
  · rw [addValue_values_of_ne hp] at hu
    obtain ⟨u', hu'⟩ := h.holds p r' y ⟨u, hu⟩
    exact ⟨u', by rw [addValue_values_of_ne (h.nextValue.symm ▸ hp), hu']⟩

end Mirrors

/-- A call gives no handle, or the client sees the value of the handle that it gives. -/
theorem Call.seen_handle {β : Type} (call : Call β) (r : Nat) :
    (∀ x, call.given x = none) ∨
      ∀ (w : World P) x, call.seen r w x = .handle (w.valueOf r (call.given x)) := by
  cases call <;> first | exact .inl fun _ => rfl | exact .inr fun _ _ => rfl

/-- What the client sees of a new handle. -/
theorem Shows.seen_given {β : Type} {call : Call β} {x : β} {y : JSVal} {t : Nat} {L : Multiset Resource}
    {out : Loc P} (hrun : Run r (w.addValue ⟨some r, .ref y t⟩) out L w')
    (hg : call.given x = some w.nextValue) : call.seen r w' x = .handle (some y) := by
  obtain hnone | hseen := call.seen_handle (P := P) r
  · rw [hnone] at hg
    cases hg
  · rw [hseen, hg, hrun.valueOf_nextValue]

/-- A call that gives nothing shows no handle. -/
theorem Shows.seen_none {β : Type} {call : Call β} {x z : β} {y : JSVal}
    (hg : call.given x = none) (hz : call.given z ≠ none) : call.seen r w x ≠ .handle (some y) := by
  obtain hnone | hseen := call.seen_handle (P := P) r
  · exact absurd (hnone z) hz
  · rw [hseen, hg]
    intro h
    cases h

/-- One call in both worlds. -/
theorem Mirrors.shows {β : Type} {call : Call β} {x y : β} {l' : Loc P} (h : Mirrors w v)
    (hl : w.loc? r = some l) (hl' : v.loc? r = some l') (hon : call.On w r)
    (hx : Shows r w (call.effect (w.valueOf r) l) (call.seen r w' x) (call.given x) w')
    (hy : Shows r v (call.effect (v.valueOf r) l') (call.seen r v' y) (call.given y) v') :
    call.given y = call.given x ∧ call.seen r v' y = call.seen r w' x ∧ Mirrors w' v' := by
  obtain ⟨m, heffect⟩ := h.effect hl hl' hon
  rw [heffect] at hy
  obtain ⟨hsx, b, L, hw, hb⟩ := hx
  obtain ⟨hsy, b', L', hv, hb'⟩ := hy
  have hseen : call.seen r v' y = call.seen r w' x := hsy.trans hsx.symm
  obtain ⟨hgx, rfl⟩ | ⟨z, t, hgx, rfl⟩ := hb <;> obtain ⟨hgy, rfl⟩ | ⟨z', t', hgy, rfl⟩ := hb'
  · exact ⟨hgy.trans hgx.symm, hseen, h.run hw hv⟩
  · have hne := Shows.seen_none (w := w') (r := r) (y := z') hgx (by rw [hgy]; nofun : call.given y ≠ none)
    exact absurd (hseen.symm.trans (Shows.seen_given hv hgy)) hne
  · have hne := Shows.seen_none (w := v') (r := r) (y := z) hgy (by rw [hgx]; nofun : call.given x ≠ none)
    exact absurd (hseen.trans (Shows.seen_given hw hgx)) hne
  · have hval : z' = z := by
      have := (Shows.seen_given hv hgy).symm.trans (hseen.trans (Shows.seen_given hw hgx))
      cases this
      rfl
    subst hval
    exact ⟨by rw [hgx, hgy, h.nextValue], hseen, (h.addValue z' t t').run hw hv⟩

/-! ## Clients side by side -/

/-- The strings that the two clients have to free, in pairs. -/
abbrev StringPairs := Multiset (OwnedString × OwnedString)

/-- The pair of two results of `js_value_to_string`. -/
def StringPairs.of : Option OwnedString → Option OwnedString → StringPairs
  | some s, some s' => {(s, s')}
  | _, _ => 0

/-- The client `c` of `w` and the client `d` of `v`, which destroys nothing (module doc). -/
structure Pair (ρ : StringPairs) (c : Client) (w : World P) (d : Client) (v : World P) : Prop where
  inv : Inv c w
  inv' : Inv d v
  mirrors : Mirrors w v
  live : c.live ⊆ d.live
  runtimes : d.runtimes = c.runtimes
  destroyed : d.destroyed = c.destroyed
  strings : c.strings = ρ.map Prod.fst
  strings' : d.strings = ρ.map Prod.snd

/-- A call on a runtime or a value whose result has no block of its own. -/
def Call.Ordinary : {β : Type} → Call β → Prop
  | _, .runtimeCreate | _, .runtimeDestroy _ | _, .valueDestroy _ | _, .valueToString _
  | _, .bridgeFreeString _ => False
  | _, _ => True

section Pair

variable {ρ : StringPairs} {β : Type} {call : Call β}

theorem Client.after_ordinary (h : call.Ordinary) (c : Client) (r : Nat) (x : β) :
    c.after r call x = c.give r (call.given x) := by
  cases call <;> first | exact h.elim | rfl

theorem Call.result_eq {x y : β} (h : call.Ordinary) (hg : call.given y = call.given x)
    (hs : call.seen r v y = call.seen r w x) : y = x := by
  cases call with
  | runtimeCreate | runtimeDestroy _ | valueDestroy _ | valueToString _ | bridgeFreeString _ =>
    exact h.elim
  | runtimeLastError _ => exact Option.some.inj (Seen.text.inj hs)
  | valueToNumber _ => exact Seen.float.inj hs
  | runtimeEnableStdModule _ | valueKind _ | valueToBool _ | valueIsArray _ | valueArrayLength _
  | valueSetProperty _ _ _ | valueSetIndex _ _ _ => exact Seen.int.inj hs
  | runtimeEvalValue _ _ | runtimeGetGlobalProperty _ _ | runtimeNewBool _ _ | runtimeNewNumber _ _
  | runtimeNewString _ _ | runtimeNewBigint _ _ | runtimeImportModule _ _ | valueGetProperty _ _
  | valueGetIndex _ _ | valueCall _ _ _ _ | valueConstruct _ _ _ => exact hg

/-- A call on `NULL` gives no handle. -/
theorem Call.given_of_null {x : β} (h : call.run.run w = .ok (x, w)) : call.given x = none := by
  have hissued := call.issued h
  cases hg : call.given x with
  | none => rfl
  | some q =>
    rw [hg] at hissued
    exact absurd hissued.2 (by omega)

namespace Pair

theorem takesRuntime {p : Ptr} (h : Pair ρ c w d v) (hp : c.TakesRuntime r p) : d.TakesRuntime r p := by
  unfold Client.TakesRuntime
  rw [h.runtimes, h.destroyed]
  exact hp

theorem takesValue {p : Ptr} (h : Pair ρ c w d v) (hp : c.TakesValue r p) : d.TakesValue r p := by
  obtain hp | ⟨q, hq, hmem⟩ := hp
  · exact .inl hp
  · exact .inr ⟨q, hq, h.live hmem⟩

theorem takesOther {p : Ptr} (h : Pair ρ c w d v) (hp : c.TakesOther p) : d.TakesOther p := by
  obtain ⟨r, hr⟩ := hp
  exact ⟨r, h.takesValue hr⟩

theorem takesArgs {args : Option (List Ptr)} {n : Int} (h : Pair ρ c w d v) (ha : c.TakesArgs args n) :
    d.TakesArgs args n :=
  ⟨ha.1, fun p hp => h.takesOther (ha.2 p hp)⟩

/-- What the client of `w` may call, the client of `v` may call. -/
theorem allows (h : Pair ρ c w d v) (ho : call.Ordinary) (hc : c.Allows r call) : d.Allows r call := by
  cases call with
  | runtimeCreate | runtimeDestroy _ | valueDestroy _ | valueToString _ | bridgeFreeString _ =>
    exact ho.elim
  | runtimeLastError _ | runtimeEnableStdModule _ | runtimeEvalValue _ _ | runtimeGetGlobalProperty _ _
  | runtimeNewBool _ _ | runtimeNewNumber _ _ | runtimeNewString _ _ | runtimeNewBigint _ _
  | runtimeImportModule _ _ => exact h.takesRuntime hc
  | valueKind _ | valueToBool _ | valueToNumber _ | valueIsArray _ | valueArrayLength _
  | valueGetProperty _ _ | valueGetIndex _ _ => exact h.takesValue hc
  | valueSetProperty _ _ _ | valueSetIndex _ _ _ => exact ⟨h.takesValue hc.1, h.takesOther hc.2⟩
  | valueCall _ _ _ _ => exact ⟨h.takesValue hc.1, h.takesOther hc.2.1, h.takesArgs hc.2.2⟩
  | valueConstruct _ _ _ => exact ⟨h.takesValue hc.1, h.takesArgs hc.2⟩

/-- Both clients got the handle `p`. -/
theorem give {p : Ptr} (h : Pair ρ c w d v) (hw : Inv (c.give r p) w') (hv : Inv (d.give r p) v')
    (hm : Mirrors w' v') : Pair ρ (c.give r p) w' (d.give r p) v' := by
  cases p with
  | none => exact ⟨hw, hv, hm, h.live, h.runtimes, h.destroyed, h.strings, h.strings'⟩
  | some q =>
    exact ⟨hw, hv, hm, Finset.insert_subset_insert _ h.live, h.runtimes, h.destroyed, h.strings,
      h.strings'⟩

/-- A call on a live target that the client of `w` made can be made in `v`, with results that show the
same. -/
theorem shows {x : β} (h : Pair ρ c w d v) (hl : w.loc? r = some l) (hon : call.On w r)
    (hd : d.Allows r call) (hx : call.run.run w = .ok (x, w')) :
    ∃ y v', call.run.run v = .ok (y, v') ∧ call.given y = call.given x ∧
      call.seen r v' y = call.seen r w' x ∧ Mirrors w' v' ∧ Inv (d.after r call y) v' := by
  obtain ⟨n, hl'⟩ := h.mirrors.loc? hl
  obtain ⟨y, v', hy, hshows⟩ | ⟨_, -, -, hover⟩ :=
    call.effect_spec (h.mirrors.on hon) v (h.inv'.run_of_loc hl')
  · obtain ⟨hg, hs, hm⟩ := h.mirrors.shows hl hl' hon (h.inv.shows hl hon hx) hshows
    exact ⟨y, v', hy, hg, hs, hm, ((call_inv call hd).run_ok h.inv' hy).1⟩
  · -- then the process would have ended in `w` as well
    exact ((Call.effect_stops hon (h.mirrors.overruns hon hover)).run_ok (h.inv.run_of_loc hl) hx).elim

/-- An ordinary call. -/
theorem ordinary {x : β} (h : Pair ρ c w d v) (ho : call.Ordinary) (hc : c.Allows r call)
    (hx : call.run.run w = .ok (x, w')) :
    ∃ v', d.Allows r call ∧ call.run.run v = .ok (x, v') ∧
      Pair ρ (c.after r call x) w' (d.after r call x) v' := by
  have hd := h.allows ho hc
  have hinv := (Step.inv h.inv (.call call hc hx)).1
  have hdid := h.inv.did hc hx
  rw [Client.after_ordinary ho] at hinv
  rw [Client.after_ordinary ho, Client.after_ordinary ho]
  cases hdid with
  | null hn =>
    obtain ⟨y, hy⟩ := Call.run_null (P := P) hn
    have hxy := hy w
    rw [hx] at hxy
    cases hxy
    refine ⟨v, hd, hy v, ?_⟩
    rw [Call.given_of_null hx]
    exact h
  | on hl hon hs =>
    obtain ⟨y, v', hy, hg, hs, hm, hinv'⟩ := h.shows hl hon hd hx
    obtain rfl := Call.result_eq ho hg hs
    rw [Client.after_ordinary ho] at hinv'
    exact ⟨v', hd, hy, h.give hinv hinv' hm⟩
  | notCreated host n | created heap host hr | destroyed hl hs | dropped hp hl hs | freed s L =>
    exact ho.elim

/-- `js_value_to_string`: the same bytes, each in a block of its own. -/
theorem text {p : Ptr} {s : Option OwnedString} (h : Pair ρ c w d v) (hc : c.TakesValue r p)
    (hs : (Call.valueToString p).run.run w = .ok (s, w')) :
    ∃ s' v', d.TakesValue r p ∧ (Call.valueToString p).run.run v = .ok (s', v') ∧
      s'.map (·.bytes) = s.map (·.bytes) ∧
      Pair (ρ + StringPairs.of s s') (c.after r (.valueToString p) s) w'
        (d.after r (.valueToString p) s') v' := by
  have hd := h.takesValue hc
  have hinv := (Step.inv h.inv (.call (.valueToString p) hc hs)).1
  obtain rfl | ⟨hopen, hon⟩ := h.inv.takesValue hc
  · cases hs
    exact ⟨none, v, hd, rfl, rfl, by simpa [StringPairs.of, Client.after] using h⟩
  · obtain ⟨l, -, -, hl⟩ := h.inv.run hopen
    obtain ⟨s', v', hy, -, hseen, hm, hinv'⟩ := h.shows hl.loc?
      (show (Call.valueToString p).On w r from hon) hd hs
    have hbytes : s'.map (·.bytes) = s.map (·.bytes) := Seen.text.inj hseen
    refine ⟨s', v', hd, hy, hbytes, ?_⟩
    cases s <;> cases s' <;> simp only [Option.map_some, Option.map_none, reduceCtorEq] at hbytes
    · exact ⟨hinv, hinv', hm, h.live, h.runtimes, h.destroyed,
        by simp [StringPairs.of, Client.after, h.strings],
        by simp [StringPairs.of, Client.after, h.strings']⟩
    · exact ⟨hinv, hinv', hm, h.live, h.runtimes, h.destroyed,
        by simp [StringPairs.of, Client.after, h.strings],
        by simp [StringPairs.of, Client.after, h.strings']⟩

/-- `js_bridge_free_string` of the two blocks of a pair. -/
theorem free {s s' : OwnedString} (h : Pair ρ c w d v) (hmem : (s, s') ∈ ρ)
    (hs : (Call.bridgeFreeString (some s)).run.run w = .ok ((), w')) :
    ∃ v', s' ∈ d.strings ∧ (Call.bridgeFreeString (some s')).run.run v = .ok ((), v') ∧
      Pair (ρ.erase (s, s')) (c.after r (.bridgeFreeString (some s)) ()) w'
        (d.after r (.bridgeFreeString (some s')) ()) v' := by
  have hcs : s ∈ c.strings := h.strings ▸ Multiset.mem_map_of_mem Prod.fst hmem
  have hds : s' ∈ d.strings := h.strings' ▸ Multiset.mem_map_of_mem Prod.snd hmem
  obtain ⟨_, w₁, hw, hnext⟩ := jsBridgeFreeString_inv hcs w h.inv
  obtain ⟨_, v', hv, hnext'⟩ := jsBridgeFreeString_inv hds v h.inv'
  have hframe : ∀ {t : OwnedString} {b b' : World P},
      (Call.bridgeFreeString (some t)).run.run b = .ok ((), b') →
      ∃ L, b' = { b with ledger := L } := fun {t b b'} hb => by
    have hfree : (freeString (some t)).run b = .ok ((), b') := hb
    unfold freeString release at hfree
    by_cases ht : Resource.string t.token ∈ b.ledger <;> simp [StateT.run, ht] at hfree
    exact ⟨_, hfree.symm⟩
  have hw' : w' = w₁ := by
    have hrun : (Call.bridgeFreeString (some s)).run.run w = .ok ((), w₁) := hw
    rw [hs] at hrun
    cases hrun
    rfl
  subst hw'
  obtain ⟨L, rfl⟩ := hframe hs
  obtain ⟨L', rfl⟩ := hframe (t := s') hv
  refine ⟨_, hds, hv, hnext.1, hnext'.1, ⟨h.mirrors.runtime, h.mirrors.holds, h.mirrors.nextRuntime,
    h.mirrors.nextValue, h.mirrors.host, h.mirrors.entries⟩, h.live, h.runtimes, h.destroyed, ?_, ?_⟩
  · show c.strings.erase s = _
    rw [h.strings]
    conv_lhs => rw [← Multiset.cons_erase hmem]
    simp
  · show d.strings.erase s' = _
    rw [h.strings']
    conv_lhs => rw [← Multiset.cons_erase hmem]
    simp

end Pair

end Pair

/-! ## Destruction -/

/-- What the destructors leave alone: the C library and the record of started bodies. -/
def World.outside (w : World P) : P.Host × List JSVal := (w.host, w.entries)

theorem release_outside (res : Resource) : Keeps World.outside (release res : BridgeM P Unit) := by
  intro w x w' h
  unfold release at h
  by_cases hr : res ∈ w.ledger <;> simp [StateT.run, hr] at h
  rw [← h]
  rfl

theorem readRuntime_outside (p : Ptr) : Keeps World.outside (readRuntime p : BridgeM P _) := by
  intro w x w' h
  unfold readRuntime at h
  cases p with
  | none => cases h
  | some r =>
    cases hr : w.runtimes r <;> simp [StateT.run, hr] at h
    rw [h.2]

theorem writeRuntime_outside (p : Ptr) (cell : RuntimeHandle P) :
    Keeps World.outside (writeRuntime p cell) := by
  intro w x w' h
  cases p with
  | none => cases h
  | some r =>
    cases h
    rfl

theorem readValue_outside (p : Ptr) : Keeps World.outside (readValue p : BridgeM P _) := by
  intro w x w' h
  unfold readValue at h
  cases p with
  | none => cases h
  | some q =>
    cases hq : w.values q <;> simp [StateT.run, hq] at h
    rw [h.2]

theorem modify_outside {f : World P → World P} (hf : ∀ w, (f w).outside = w.outside) :
    Keeps World.outside (modify f : BridgeM P Unit) := by
  intro w x w' h
  cases h
  exact hf w

theorem freeValue_outside (p : Ptr) (x : JSValue) :
    Keeps World.outside (JS.freeValue p x : BridgeM P Unit) := by
  refine .bind (.bind (readRuntime_outside p) fun cell => ?_) fun _ => ?_
  · cases cell.runtime <;> cases cell.context
    all_goals first | exact .pure _ | exact .throw _
  · cases x with
    | exception => exact .pure _
    | ref x t => exact release_outside _

theorem freeRuntimeIfReady_outside (p : Ptr) :
    Keeps World.outside (freeRuntimeIfReady p : BridgeM P Unit) := by
  refine .ite (.pure _) <| .bind (readRuntime_outside p) fun _ => .ite ?_ (.pure _)
  cases p with
  | none => exact .pure _
  | some r =>
    refine .bind (readRuntime_outside _) fun cell => .bind ?_ fun _ => modify_outside fun _ => rfl
    cases cell.lastError with
    | none => exact .pure _
    | some s => exact release_outside _

theorem jsValueDestroy_outside (p : Ptr) : Keeps World.outside (jsValueDestroy p : BridgeM P Unit) := by
  cases p with
  | none => exact .pure _
  | some p =>
    have rest : ∀ r : Ptr, Keeps World.outside (do
        modify fun w => { w with values := Function.update w.values p none }
        if r.isNone then return ()
        let cell ← readRuntime r
        if 0 < cell.valueCount then
          writeRuntime r { cell with valueCount := cell.valueCount - 1 }
          freeRuntimeIfReady r : BridgeM P Unit) := fun r =>
      .bind (modify_outside fun _ => rfl) fun _ => .ite (.pure _) <| .bind (readRuntime_outside r) fun _ =>
        .ite (.bind (writeRuntime_outside r _) fun _ => freeRuntimeIfReady_outside r) (.pure _)
    have valid : ∀ r : Ptr, Keeps World.outside (validRuntime r : BridgeM P Bool) := fun r =>
      .ite (.pure _) <| .bind (readRuntime_outside r) fun _ => .pure _
    exact .bind (readValue_outside _) fun h => .bind (valid _) fun _ =>
      .ite (.bind (freeValue_outside _ _) fun _ => rest _) (rest _)

/-- The runtimes of `w` after a destruction are those before it, less one that was freed. -/
theorem Settled.runtime_like {b : World P} {L L' : Multiset Resource} {n : Nat} (hb : Run r b l L b)
    (h : Settled r b (l.counting n) L' w) {r' : Nat} {a : RuntimeHandle P} (ha : w.runtimes r' = some a) :
    ∃ a₀, b.runtimes r' = some a₀ ∧ a₀.Like a := by
  obtain ⟨e₀, he₀, hb⟩ := hb
  by_cases hr : r' = r
  · subst hr
    unfold Settled at h
    split at h
    · rw [h.cell] at ha
      cases ha
    · obtain ⟨e, he, hw⟩ := h
      rw [hw.cell] at ha
      cases ha
      exact ⟨_, hb.cell, rfl, rfl, he.trans he₀.symm, rfl, rfl⟩
  · exact ⟨a, (h.runtimes_of_ne hr).symm.trans ha, .refl a⟩

theorem RuntimeHandle.Like.of_like {a a' b : RuntimeHandle P} (h : a.Like a') (hb : a.Like b) :
    a'.Like b :=
  ⟨hb.runtime.trans h.runtime.symm, hb.context.trans h.context.symm, hb.lastError.trans h.lastError.symm,
    hb.destroying.trans h.destroying.symm, hb.stdModuleEnabled.trans h.stdModuleEnabled.symm⟩

theorem Settled.nextRuntime {b : World P} {L : Multiset Resource} (h : Settled r b l L w) :
    w.nextRuntime = b.nextRuntime := by
  unfold Settled at h
  split at h
  · exact h.nextRuntime
  · obtain ⟨e, -, hw⟩ := h
    exact hw.nextRuntime

/-- A finaliser in `w`: nothing happens in `v`. -/
theorem Pair.finalise {ρ : StringPairs} {p : Nat} (h : Pair ρ c w d v) (hmem : (p, r) ∈ c.live)
    (hw : (Call.valueDestroy (some p)).run.run w = .ok ((), w')) :
    Pair ρ (c.after r (.valueDestroy (some p)) ()) w' d v := by
  have hinv := (Step.inv h.inv (.call (r := r) (.valueDestroy (some p)) (.inr ⟨p, rfl, hmem⟩) hw)).1
  have hout : w'.outside = w.outside := jsValueDestroy_outside (some p) w () w' hw
  obtain ⟨l, w₁, -, -, hl, hrun, hs⟩ := h.inv.destroy hmem
  have hw₁ : w' = w₁ := by
    have heq : (Call.valueDestroy (some p)).run.run w = .ok ((), w₁) := hrun
    rw [hw] at heq
    cases heq
    rfl
  subst hw₁
  have hdrop : Run r (w.dropValue p) l (c.ownedBut r w) (w.dropValue p) := by
    obtain ⟨e, he, hat⟩ := hl
    exact ⟨e, he, hat.cell, hat.ledger, fun _ _ => rfl, rfl, rfl, rfl, rfl, hat.host, hat.entries, hat.fresh⟩
  refine ⟨hinv, h.inv', ⟨fun r' a ha => ?_, fun q r' x hx => ?_, ?_, ?_, ?_, ?_⟩,
    (Finset.erase_subset _ _).trans h.live, h.runtimes, h.destroyed, h.strings, h.strings'⟩
  · obtain ⟨a₀, ha₀, hlike⟩ := Settled.runtime_like hdrop hs ha
    obtain ⟨b, hb, hlike'⟩ := h.mirrors.runtime r' a₀ ha₀
    exact ⟨b, hb, hlike.of_like hlike'⟩
  · obtain ⟨t, ht⟩ := hx
    rw [hs.values] at ht
    have hq : q ≠ p := by
      rintro rfl
      simp [World.dropValue] at ht
    rw [dropValue_values_of_ne hq] at ht
    exact h.mirrors.holds q r' x ⟨t, ht⟩
  · exact h.mirrors.nextRuntime.trans hs.nextRuntime.symm
  · exact h.mirrors.nextValue.trans hs.nextValue.symm
  · exact h.mirrors.host.trans (congrArg Prod.fst hout).symm
  · exact h.mirrors.entries.trans (congrArg Prod.snd hout).symm

/-- The same step of the engine in both worlds. -/
theorem Pair.reclaim {ρ : StringPairs} (h : Pair ρ c w d v) (hl : w.loc? r = some l) (heap : P.Heap)
    (host : P.Host) :
    (∃ l', v.loc? r = some l') ∧ Pair ρ c (w.reclaimed r heap host) d (v.reclaimed r heap host) := by
  obtain ⟨n, hl'⟩ := h.mirrors.loc? hl
  refine ⟨⟨_, hl'⟩, h.inv.reclaimed hl heap host, h.inv'.reclaimed hl' heap host,
    ⟨fun r' a ha => ?_, h.mirrors.holds, h.mirrors.nextRuntime, h.mirrors.nextValue, rfl, h.mirrors.entries⟩,
    h.live, h.runtimes, h.destroyed, h.strings, h.strings'⟩
  by_cases hr : r' = r
  · subst hr
    simp only [World.reclaimed, Function.update_self, Option.map_eq_some_iff] at ha ⊢
    obtain ⟨a₀, ha₀, rfl⟩ := ha
    obtain ⟨b, hb, hlike⟩ := h.mirrors.runtime r' a₀ ha₀
    exact ⟨_, ⟨b, hb, rfl⟩, hlike.runtime, rfl, hlike.lastError, hlike.destroying, hlike.stdModuleEnabled⟩
  · simp only [World.reclaimed, Function.update_of_ne hr] at ha ⊢
    exact h.mirrors.runtime r' a ha

end InteropJs
