import InteropJs.Bridge.Errors

/-!
# Runtimes do not mix

A call works on one runtime, whatever handles it is given. `runtimes_never_mix` says so for every call
of every run, as a fact about the calls from outside:

* no other runtime and no handle of another runtime changes;
* two worlds that agree on the runtime and on its own handles, whatever the handles of the others
  denote, show the same result and leave the same state: since that holds for every engine, no engine
  function is given a value of another runtime;
* a call with a handle that is `NULL` or foreign, or with a negative index or count (`Call.Rejects`),
  leaves nothing but a message: no engine function runs.
-/

namespace InteropJs

open Hoare

variable {P : Platform}

/-- A handle that must belong to the runtime is `NULL` or foreign, or an index or a count is negative. -/
def Call.Rejects (own : Ptr → Option JSVal) : {β : Type} → Call β → Prop
  | _, .valueSetProperty _ _ q => own q = none
  | _, .valueGetIndex _ index => index < 0
  | _, .valueSetIndex _ index q => index < 0 ∨ own q = none
  | _, .valueCall _ q args n =>
    (q ≠ none ∧ own q = none) ∨ n < 0 ∨ (0 < n ∧ args = none) ∨
      ∃ a ∈ (args.getD []).take n.toNat, own a = none
  | _, .valueConstruct _ args n =>
    n < 0 ∨ (0 < n ∧ args = none) ∨ ∃ a ∈ (args.getD []).take n.toNat, own a = none
  | _, _ => False

/-! ## Rejected calls in the table -/

section Table

variable {own : Ptr → Option JSVal} {l : Loc P}

theorem mapM_eq_none {xs : List Ptr} (h : ∃ a ∈ xs, own a = none) : xs.mapM own = none := by
  induction xs with
  | nil =>
    obtain ⟨a, ha, -⟩ := h
    cases ha
  | cons x xs ih =>
    rw [List.mapM_cons]
    cases hx : own x with
    | none => rfl
    | some y =>
      obtain ⟨a, ha, hnone⟩ := h
      rcases List.mem_cons.mp ha with rfl | ha
      · rw [hx] at hnone
        cases hnone
      · rw [ih ⟨a, ha, hnone⟩]
        rfl

/-- `fill_argv` refuses an argument list that is not the runtime's own. -/
theorem argvFrom_error {args : Option (List Ptr)} {n : Int}
    (h : n < 0 ∨ (0 < n ∧ args = none) ∨ ∃ a ∈ (args.getD []).take n.toNat, own a = none) :
    ∃ m, argvFrom own args n = .error m := by
  unfold argvFrom
  by_cases hneg : n < 0
  · exact ⟨_, if_pos hneg⟩
  by_cases hnull : 0 < n ∧ args.isNone = true
  · exact ⟨_, by rw [if_neg hneg, if_pos hnull]⟩
  rw [if_neg hneg, if_neg hnull]
  obtain h | h | h := h
  · exact absurd h hneg
  · exact absurd ⟨h.1, by simp [h.2]⟩ hnull
  · rw [mapM_eq_none h]
    exact ⟨_, rfl⟩

theorem valueFrom_error {q : Ptr} (message : String) (h : own q = none) :
    valueFrom own q message = .error (utf8 message) := by
  rw [valueFrom, h]

/-- A failed check keeps the state. -/
theorem check_error {α : Type} {check : Except CStr α} {k : α → Outcome × Loc P}
    (h : (∃ m, check = .error m) ∨ ∀ a, check = .ok a → ∃ m, k a = (.reject m, l)) :
    ∃ m, l.check check k = (.reject m, l) := by
  cases check with
  | error m => exact ⟨m, rfl⟩
  | ok a =>
    obtain ⟨m, hm⟩ | h := h
    · cases hm
    · exact h a rfl

/-- A rejected call takes the exit of a failed check, before any engine function. -/
theorem Call.outcome_rejects {β : Type} {call : Call β} {w : World P} {r : Nat} (hon : call.On w r)
    (h : call.Rejects (w.valueOf r)) : ∃ m, call.outcome (w.valueOf r) l = (.reject m, l) := by
  cases call with
  | valueSetProperty p name q =>
    obtain ⟨⟨q', x, rfl, hx⟩, -⟩ := hon
    rw [Call.outcome, hx.valueOf]
    exact check_error (.inr fun _ _ => check_error (.inl ⟨_, valueFrom_error _ h⟩))
  | valueGetIndex p index =>
    obtain ⟨q, x, rfl, hx⟩ := hon
    rw [Call.outcome, hx.valueOf]
    exact check_error (.inl ⟨_, if_pos h⟩)
  | valueSetIndex p index q =>
    obtain ⟨⟨q', x, rfl, hx⟩, -⟩ := hon
    rw [Call.outcome, hx.valueOf]
    obtain h | h := h
    · exact check_error (.inl ⟨_, if_pos h⟩)
    · exact check_error (.inr fun _ _ => check_error (.inl ⟨_, valueFrom_error _ h⟩))
  | valueCall p q args n =>
    obtain ⟨⟨q', x, rfl, hx⟩, -⟩ := hon
    rw [Call.outcome, hx.valueOf]
    obtain ⟨hq, h⟩ | h := h
    · refine check_error (.inl ⟨utf8 "this value does not belong to this runtime", ?_⟩)
      rw [thisFrom, if_neg (by simpa [Option.isNone_iff_eq_none] using hq), valueFrom_error _ h]
    · exact check_error (.inr fun _ _ => check_error (.inl (argvFrom_error h)))
  | valueConstruct p args n =>
    obtain ⟨⟨q', x, rfl, hx⟩, -⟩ := hon
    rw [Call.outcome, hx.valueOf]
    exact check_error (.inl (argvFrom_error h))
  | _ => cases h

end Table

/-! ## All runs -/

variable {c : Client} {r : Nat} {w w' : World P} {l : Loc P}

theorem Shows.runtimes_of_ne {out : Seen × Loc P} {s : Seen} {p : Ptr} {r' : Nat}
    (h : Shows r w out s p w') (hr : r' ≠ r) : w'.runtimes r' = w.runtimes r' := by
  obtain ⟨-, b', L, ⟨e, -, hw⟩, ⟨-, rfl⟩ | ⟨x, t, -, rfl⟩⟩ := h
  · exact hw.others r' hr
  · exact hw.others r' hr

theorem Shows.values_of_ne {out : Seen × Loc P} {s : Seen} {p : Ptr} {q : Nat}
    (h : Shows r w out s p w') (hq : q ≠ w.nextValue) : w'.values q = w.values q := by
  obtain ⟨-, b', L, ⟨e, -, hw⟩, ⟨-, rfl⟩ | ⟨x, t, -, rfl⟩⟩ := h
  · rw [hw.values]
  · rw [hw.values]
    exact addValue_values_of_ne hq

theorem Settled.runtimes_of_ne {L : Multiset Resource} {r' : Nat} (h : Settled r w l L w')
    (hr : r' ≠ r) : w'.runtimes r' = w.runtimes r' := by
  unfold Settled at h
  split at h
  · exact h.others r' hr
  · obtain ⟨e, -, hw⟩ := h
    exact hw.others r' hr

theorem Settled.values {L : Multiset Resource} (h : Settled r w l L w') : w'.values = w.values := by
  unfold Settled at h
  split at h
  · exact h.values
  · obtain ⟨e, -, hw⟩ := h
    exact hw.values

theorem Settled.nextValue {L : Multiset Resource} (h : Settled r w l L w') : w'.nextValue = w.nextValue := by
  unfold Settled at h
  split at h
  · exact h.nextValue
  · obtain ⟨e, -, hw⟩ := h
    exact hw.nextValue

/-- No call changes another runtime. -/
theorem Did.runtimes {β : Type} {call : Call β} {x : β} {r' : Nat} (h : Did r w call x w')
    (hr : r' ≠ r) (hlive : w.runtimes r' ≠ none) : w'.runtimes r' = w.runtimes r' := by
  cases h with
  | null hn => rfl
  | on hl hon hs => exact hs.runtimes_of_ne hr
  | notCreated host n => rfl
  | created heap host hfree =>
    have hne : r' ≠ w.nextRuntime := by
      rintro rfl
      exact hlive hfree
    exact Function.update_of_ne hne _ _
  | destroyed hl hs => exact hs.runtimes_of_ne hr
  | dropped hp hl hs => exact hs.runtimes_of_ne hr
  | freed s L => rfl

/-- No call changes a handle of another runtime. -/
theorem Did.values {β : Type} {call : Call β} {x : β} {r' q : Nat} {v : JSValue} (h : Did r w call x w')
    (hr : r' ≠ r) (hq : w.values q = some ⟨some r', v⟩) (hbound : q ≠ w.nextValue) :
    w'.values q = w.values q := by
  cases h with
  | null hn => rfl
  | on hl hon hs => exact hs.values_of_ne hbound
  | notCreated host n => rfl
  | created heap host hfree => rfl
  | destroyed hl hs => rw [hs.values]
  | @dropped p _ _ _ _ hp hl hs =>
    rw [hs.values]
    refine dropValue_values_of_ne ?_
    rintro rfl
    obtain ⟨t, ht⟩ := hp
    rw [hq] at ht
    cases ht
    exact hr rfl
  | freed s L => rfl

theorem Call.On.not_null {β : Type} {call : Call β} (h : call.On w r) : ¬ call.Null := by
  intro hn
  cases call with
  | valueSetProperty p _ _ | valueSetIndex p _ _ | valueCall p _ _ _ | valueConstruct p _ _ =>
    obtain ⟨⟨q, x, hq, -⟩, -⟩ := h
    exact absurd (hn.symm.trans hq) (by simp)
  | runtimeCreate | runtimeDestroy _ | valueDestroy _ | bridgeFreeString _ => cases h
  | valueKind p | valueToBool p | valueToNumber p | valueToString p | valueIsArray p
  | valueArrayLength p | valueGetProperty p _ | valueGetIndex p _ =>
    obtain ⟨q, x, hq, -⟩ := h
    exact absurd (hn.symm.trans hq) (by simp)
  | _ => exact absurd (hn.symm.trans h) (by simp)

/-- A call that is on a live target in one world is so wherever it is allowed. -/
theorem Did.on_of {β : Type} {call : Call β} {x : β} {w₀ : World P} {r₀ : Nat} (h : Did r w call x w')
    (h₀ : call.On w₀ r₀) : call.On w r := by
  cases h with
  | null hn => exact absurd hn h₀.not_null
  | on hl hon hs => exact hon
  | _ => cases h₀

theorem Did.null_eq {β : Type} {call : Call β} {x : β} (h : Did r w call x w') (hn : call.Null) :
    w' = w := by
  cases h with
  | null _ => rfl
  | on hl hon hs => exact absurd hn hon.not_null
  | _ => cases hn

/-- A rejected call on a live target. -/
theorem Did.rejected {β : Type} {call : Call β} {x : β} (h : Did r w call x w') (hn : ¬ call.Null)
    (hr : call.Rejects (w.valueOf r)) :
    call.Failed x ∧ w'.values = w.values ∧
      ∃ l m, w.loc? r = some l ∧ w'.loc? r = some (l.setError (some m)) := by
  cases h with
  | null hnull => exact absurd hnull hn
  | @on _ _ _ _ l hl hon hs =>
    obtain ⟨m, hm⟩ := Call.outcome_rejects (l := l) hon hr
    rw [Call.effect, hm] at hs
    have hreports : call.Reports := by cases call <;> first | exact trivial | exact False.elim hr
    have hf : call.Failed x := (failed_iff hreports hs).mpr (by cases call <;> simp [Loc.finish, Call.fail])
    refine ⟨hf, ?_, l, m, hl, hs.loc?⟩
    obtain ⟨-, b', L, ⟨e, -, hw⟩, ⟨-, rfl⟩ | ⟨v, t, hp, -⟩⟩ := hs
    · exact hw.values
    · rw [hf.given] at hp
      cases hp
  | _ => cases hr

/-- A handle block in use is not the next one. -/
theorem Inv.ne_nextValue {q : Nat} {v : ValueHandle} (h : Inv c w) (hq : w.values q = some v) :
    q ≠ w.nextValue := by
  rintro rfl
  rw [h.handles.unused _ fun r' => Client.nextValue_notMem h.handles r'] at hq
  cases hq

/-- The blocks of handles are given in order. -/
theorem Did.nextValue_le {β : Type} {call : Call β} {x : β} (h : Did r w call x w') :
    w.nextValue ≤ w'.nextValue := by
  cases h with
  | on hl hon hs =>
    obtain ⟨-, b', L, ⟨e, -, hw⟩, ⟨-, rfl⟩ | ⟨y, t, -, rfl⟩⟩ := hs
    · exact hw.nextValue.ge
    · rw [hw.nextValue]
      exact Nat.le_succ _
  | destroyed hl hs => exact hs.nextValue.ge
  | dropped hp hl hs => exact hs.nextValue.ge
  | _ => exact le_refl _

/-- A handle block that was given before still has the value that it was given with. -/
theorem Did.holds_of_lt {β : Type} {call : Call β} {x : β} {q r' : Nat} {y : JSVal}
    (h : Did r w call x w') (hlt : q < w.nextValue) (hq : w'.Holds q r' y) : w.Holds q r' y := by
  cases h with
  | on hl hon hs => rwa [World.Holds, hs.values_of_ne hlt.ne] at hq
  | destroyed hl hs => rwa [World.Holds, hs.values] at hq
  | @dropped p z l L _ hp hl hs =>
    rw [World.Holds, hs.values] at hq
    by_cases hqp : q = p
    · subst hqp
      obtain ⟨t, ht⟩ := hq
      simp [World.dropValue] at ht
    · rwa [dropValue_values_of_ne hqp] at hq
  | _ => exact hq

/-- Over a whole run: while a handle is held, it denotes the value that it was given with. -/
theorem Inv.holds_later {q r' : Nat} {x : JSVal} {c' : Client} (h : Inv c w) (hq : w.Holds q r' x)
    (hrun : Relation.ReflTransGen Step (c, w) (c', w')) (hlive : (q, r') ∈ c'.live) : w'.Holds q r' x := by
  let I (s : Client × World P) : Prop :=
    Inv s.1 s.2 ∧ q < s.2.nextValue ∧ ∀ y, s.2.Holds q r' y → y = x
  have hlt : q < w.nextValue := by
    obtain ⟨t, ht⟩ := hq
    by_contra hle
    rw [h.handles.unused q fun r hmem => hle (h.handles.bound q r hmem)] at ht
    cases ht
  have hstart : I (c, w) := by
    refine ⟨h, hlt, fun y hy => ?_⟩
    obtain ⟨t, ht⟩ := hq
    obtain ⟨u, hu⟩ := hy
    rw [ht] at hu
    cases hu
    rfl
  have hstep : ∀ s s', I s → Step s s' → I s' := by
    rintro s s' ⟨hinv, hlt, hval⟩ hs
    have hnext := (Step.inv hinv hs).1
    cases hs with
    | call call allowed ran =>
      have hdid := hinv.did allowed ran
      exact ⟨hnext, hlt.trans_le hdid.nextValue_le, fun y hy => hval y (hdid.holds_of_lt hlt hy)⟩
    | reclaim open_ heap host => exact ⟨hnext, hlt, hval⟩
  obtain ⟨hinv, -, hval⟩ := reach_invariant hstep hstart hrun
  obtain ⟨y, hy⟩ := hinv.handles.holds q r' hlive
  rw [← hval y hy]
  exact hy

/-- For every call of every run, on any number of runtimes and with any handles:

* the other runtimes and their handles stay as they were;
* another world that agrees on the runtime and on its own handles shows the same result and the same
  state of the runtime after the call;
* a call on `NULL` changes nothing;
* a rejected call fails, and its message is all that it leaves: the heap, the pending exception, the
  count and the handles are those before it. -/
theorem runtimes_never_mix {β : Type} {call : Call β} {x : β} (h : Reach c w) (hc : c.Allows r call)
    (hrun : call.run.run w = .ok (x, w')) :
    (∀ r', r' ≠ r → w.runtimes r' ≠ none → w'.runtimes r' = w.runtimes r') ∧
    (∀ r' p v, r' ≠ r → w.values p = some ⟨some r', v⟩ → w'.values p = w.values p) ∧
    (∀ c₂ w₂ w₂' x₂, call.On w r → Reach c₂ w₂ → c₂.Allows r call →
      call.run.run w₂ = .ok (x₂, w₂') → w₂.loc? r = w.loc? r →
      (∀ p, w₂.valueOf r p = w.valueOf r p) →
      w₂'.loc? r = w'.loc? r ∧ call.seen r w₂' x₂ = call.seen r w' x) ∧
    (call.Null → w' = w) ∧
    (¬ call.Null → call.Rejects (w.valueOf r) → call.Failed x ∧ w'.values = w.values ∧
      ∃ l m, w.loc? r = some l ∧ w'.loc? r = some (l.setError (some m))) := by
  have hdid := h.inv.did hc hrun
  refine ⟨fun r' hr hlive => hdid.runtimes hr hlive, fun r' p v hr hp =>
    hdid.values hr hp (h.inv.ne_nextValue hp), fun c₂ w₂ w₂' x₂ hon h₂ hc₂ hrun₂ hloc hown => ?_,
    hdid.null_eq, hdid.rejected⟩
  have hon₂ := (h₂.inv.did hc₂ hrun₂).on_of hon
  obtain ⟨l, hl⟩ : ∃ l, w.loc? r = some l := by
    cases hdid with
    | on hl _ _ => exact ⟨_, hl⟩
    | null hn => exact absurd hn hon.not_null
    | _ => cases hon
  have hs := h.inv.shows hl hon hrun
  have hs₂ := h₂.inv.shows (hloc.trans hl) hon₂ hrun₂
  rw [show w₂.valueOf r = w.valueOf r from funext hown] at hs₂
  exact ⟨hs₂.loc?.trans hs.loc?.symm, hs₂.1.trans hs.1.symm⟩

/-- A run with two runtimes, each with a handle. -/
theorem twin_reach : ∃ (c : Client) (w : World (Platform.idle Nat 0)), Reach c w ∧
    (0, 0) ∈ c.live ∧ (1, 1) ∈ c.live := by
  have h₁ := (Reach.start (P := Platform.idle Nat 0) ()).call (r := 0) .runtimeCreate trivial rfl
  have h₂ := h₁.call (r := 0) (.runtimeNewBool (some 0) 1) (.inr ⟨rfl, by decide, by decide⟩) rfl
  have h₃ := h₂.call (r := 0) .runtimeCreate trivial rfl
  have h₄ := h₃.call (r := 1) (.runtimeNewBool (some 1) 0) (.inr ⟨rfl, by decide, by decide⟩) rfl
  exact ⟨_, _, h₄, by decide, by decide⟩

/-- A foreign value is refused, and the runtime it belongs to keeps its state. -/
theorem runtimes_never_mix_twin : ∃ (c : Client) (w w' : World (Platform.idle Nat 0)) (i : Int),
    Reach c w ∧ (jsValueSetProperty (some 0) (some []) (some 1)).run w = .ok (i, w') ∧ i ≠ 0 ∧
    w'.values = w.values ∧ w'.runtimes 1 = w.runtimes 1 := by
  obtain ⟨c, w, h, h₀, h₁⟩ := twin_reach
  have hc : c.Allows 0 (.valueSetProperty (some 0) (some []) (some 1)) :=
    ⟨.inr ⟨0, rfl, h₀⟩, 1, .inr ⟨1, rfl, h₁⟩⟩
  obtain ⟨i, w', hrun, -⟩ := call_inv_of_fits _ hc trivial w h.inv
  obtain ⟨hruntimes, -, -, -, hreject⟩ := runtimes_never_mix h hc hrun
  obtain ⟨y, t, hy⟩ := h.inv.handles.holds 1 1 h₁
  obtain ⟨hf, hvalues, -⟩ := hreject (by simp [Call.Null]) (by simp [Call.Rejects, World.valueOf, hy])
  obtain ⟨l, -, -, e, -, hl⟩ := h.inv.run (h.inv.open_of_value h₁)
  exact ⟨c, w, w', i, h, hrun, hf, hvalues, hruntimes 1 (by decide) (by rw [hl.cell]; simp)⟩

end InteropJs
