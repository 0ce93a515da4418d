import InteropJs.Bridge.Effect

/-!
# Failed calls

`Books` is what the bridge itself keeps about a runtime from one call to the next, besides the error.
A call that fails leaves the books of every runtime and all handles as they were, whichever step it
fails at (`failure_keeps_books`). The one exception is `js_runtime_enable_std_module`, which installs
the module loader before the step that can fail: `Call.LeavesLoader` is when that shows.
-/

namespace InteropJs

open Hoare

variable {P : Platform}

/-- What the bridge keeps about a runtime, besides the error. -/
structure Books where
  count : Nat
  destroying : Bool
  stdEnabled : Bool
  moduleLoader : Bool

def Loc.books (l : Loc P) : Books := ⟨l.count, l.destroying, l.stdEnabled, l.moduleLoader⟩

/-- The books of the runtime `r`, if it is open. -/
def World.books? (w : World P) (r : Nat) : Option Books := (w.loc? r).map Loc.books

/-- The same handles with the same values, and the same books of every runtime. -/
def World.SameBooks (w w' : World P) : Prop := w'.values = w.values ∧ ∀ r, w'.books? r = w.books? r

/-- The results of a call that failed. The four conversions that have no result of their own for a
failure are taken with every result. -/
def Call.Failed : {β : Type} → Call β → β → Prop
  | _, .runtimeDestroy _, _ | _, .valueDestroy _, _ | _, .bridgeFreeString _, _
  | _, .runtimeLastError _, _ => False
  | _, .valueKind _, _ | _, .valueToBool _, _ | _, .valueToNumber _, _ | _, .valueIsArray _, _ => True
  | _, .valueToString _, s => s = none
  | _, .valueArrayLength _, n => n < 0
  | _, .runtimeEnableStdModule _, i | _, .valueSetProperty _ _ _, i | _, .valueSetIndex _ _ _, i =>
    i ≠ 0
  | _, .runtimeCreate, p | _, .runtimeEvalValue _ _, p | _, .runtimeGetGlobalProperty _ _, p
  | _, .runtimeNewBool _ _, p | _, .runtimeNewNumber _ _, p | _, .runtimeNewString _ _, p
  | _, .runtimeNewBigint _ _, p | _, .runtimeImportModule _ _, p | _, .valueGetProperty _ _, p
  | _, .valueGetIndex _ _, p | _, .valueCall _ _ _ _, p | _, .valueConstruct _ _ _, p => p = none

/-- The call installs a module loader, and then `js_init_module_std` fails. -/
def Call.LeavesLoader (w : World P) : {β : Type} → Call β → Prop
  | _, .runtimeEnableStdModule (some r) => ∃ l, w.loc? r = some l ∧ l.stdEnabled = false ∧
    l.moduleLoader = false ∧ (P.initModuleStd l.heap).1.toOption = none
  | _, _ => False

/-- The call is `js_runtime_enable_std_module`. -/
def Call.Enables : {β : Type} → Call β → Prop
  | _, .runtimeEnableStdModule _ => True
  | _, _ => False

/-! ## The books of a local state -/

section Books

variable {l : Loc P}

@[simp] theorem books_setError (l : Loc P) (message : Option CStr) :
    (l.setError message).books = l.books := rfl

@[simp] theorem books_clearError (l : Loc P) : l.clearError.books = l.books := rfl

@[simp] theorem books_after {α : Type} (l : Loc P) (out : Except JSVal α × P.Heap) :
    (l.after out).books = l.books := by
  rcases out with ⟨_ | _, _⟩ <;> rfl

@[simp] theorem books_capture (l : Loc P) : l.capture.books = l.books := by
  unfold Loc.capture
  rw [books_setError, books_after]
  rfl

@[simp] theorem books_started (l : Loc P) (f : JSVal) (runs : Bool) :
    (l.started f runs).books = l.books := by
  cases runs <;> rfl

@[simp] theorem books_callBigint (l : Loc P) (f : JSVal) (s : CStr) :
    (l.callBigint f s).2.books = l.books := by
  unfold Loc.callBigint
  rcases P.newJSString s l.heap with ⟨_ | a, h⟩
  · rfl
  · simp only [books_after, books_started]
    rfl

@[simp] theorem books_newBigint (l : Loc P) (s : CStr) : (l.newBigint s).2.books = l.books := by
  simp only [Loc.newBigint, books_callBigint, books_after]

@[simp] theorem books_toText (l : Loc P) (x : JSVal) : (l.toText x).2.books = l.books := by
  unfold Loc.toText
  rcases P.toCString x l.heap with ⟨_ | _, _⟩
  · rfl
  · dsimp only
    split <;> rfl

@[simp] theorem books_arrayLength (l : Loc P) (x : JSVal) : (l.arrayLength x).2.books = l.books := by
  unfold Loc.arrayLength
  rcases P.getProperty x (.ofCString (utf8 "length")) l.heap with ⟨_ | n, h⟩
  · rw [books_capture]
    rfl
  · dsimp only
    rcases P.toNumber n h with ⟨_ | _, _⟩ <;> rfl

@[simp] theorem books_numbered (l : Loc P) (x : JSVal) : (l.numbered x).2.books = l.books := by
  unfold Loc.numbered
  rcases P.toNumber x l.heap with ⟨_ | _, _⟩ <;> rfl

@[simp] theorem books_importing (l : Loc P) (path : CStr) : (l.importing path).2.books = l.books := by
  unfold Loc.importing
  rcases P.readFile path l.host with ⟨_ | source, host⟩
  · rfl
  · simp only [Loc.answers, books_after]
    rfl

theorem books_check {α : Type} {check : Except CStr α} {k : α → Outcome × Loc P}
    (hk : ∀ a, (k a).2.books = l.books) : (l.check check k).2.books = l.books := by
  cases check with
  | error m => rfl
  | ok a => exact hk a

theorem books_target {x : Option JSVal} {k : JSVal → Outcome × Loc P}
    (hk : ∀ x, (k x).2.books = l.books) : (l.target x k).2.books = l.books := by
  cases x with
  | none => rfl
  | some x => exact hk x

/-- Up to its exit no call but `js_runtime_enable_std_module` changes the books. -/
theorem Call.outcome_books {β : Type} (own : Ptr → Option JSVal) (call : Call β)
    (h : ¬ call.Enables) : (call.outcome own l).2.books = l.books := by
  cases call with
  | runtimeEnableStdModule p => exact absurd trivial h
  | runtimeCreate => rfl
  | runtimeDestroy _ => rfl
  | valueDestroy _ => rfl
  | bridgeFreeString _ => rfl
  | runtimeLastError _ => rfl
  | runtimeEvalValue _ _ => exact books_check fun _ => by simp [Loc.answers]
  | runtimeGetGlobalProperty _ _ => exact books_check fun _ => by simp [Loc.answers]
  | runtimeNewBool _ _ => rfl
  | runtimeNewNumber _ _ => rfl
  | runtimeNewString _ _ => exact books_check fun _ => by simp [Loc.answers]
  | runtimeNewBigint _ _ => exact books_check fun _ => by simp
  | runtimeImportModule _ _ => exact books_check fun _ => by simp
  | valueKind _ => exact books_target fun _ => rfl
  | valueToBool _ => exact books_target fun _ => rfl
  | valueToNumber _ => exact books_target fun _ => by simp
  | valueToString _ => exact books_target fun _ => by simp
  | valueIsArray _ => exact books_target fun _ => by simp
  | valueArrayLength _ => exact books_target fun _ => by simp
  | valueGetProperty _ _ => exact books_target fun _ => books_check fun _ => by simp [Loc.answers]
  | valueSetProperty _ _ _ =>
    exact books_target fun _ => books_check fun _ => books_check fun _ => by simp [Loc.reports]
  | valueGetIndex _ _ => exact books_target fun _ => books_check fun _ => by simp [Loc.answers]
  | valueSetIndex _ _ _ =>
    exact books_target fun _ => books_check fun _ => books_check fun _ => by simp [Loc.reports]
  | valueCall _ _ _ _ =>
    exact books_target fun _ => books_check fun _ => books_check fun _ => by simp [Loc.afterCall]
  | valueConstruct _ _ _ =>
    exact books_target fun _ => books_check fun _ => by simp [Loc.afterConstruct]

/-- The exits keep the two flags, and the count unless a handle is given. -/
theorem finish_books (fail : Seen) (out : Outcome × Loc P) :
    (Loc.finish fail out).2.books = out.2.books ∨
      (∃ x, (Loc.finish fail out).1 = .handle (some x)) ∧
        (Loc.finish fail out).2.books = { out.2.books with count := out.2.count + 1 } := by
  obtain ⟨_ | _ | x | _, l⟩ := out
  · exact .inl rfl
  · exact .inl (books_capture l)
  · simp only [Loc.finish]
    split
    · exact .inr ⟨⟨x, rfl⟩, rfl⟩
    · exact .inl rfl
  · exact .inl rfl

end Books

/-! ## Failed calls -/

variable {c : Client} {r : Nat} {w w' : World P} {l : Loc P}

theorem Call.Failed.given {β : Type} {call : Call β} {x : β} (h : call.Failed x) :
    call.given x = none := by
  cases call <;> first | exact h | rfl

/-- A client that was given no handle sees none. -/
theorem Call.seen_ne_handle {β : Type} {call : Call β} {x : β} (h : call.given x = none) (v : JSVal) :
    call.seen r w x ≠ .handle (some v) := by
  cases call <;> simp_all [Call.seen, Call.given, World.valueOf]

theorem World.books?_congr (h : w'.runtimes r = w.runtimes r) : w'.books? r = w.books? r := by
  simp only [World.books?, World.loc?, h]
  cases w.runtimes r with
  | none => rfl
  | some cell =>
    obtain ⟨runtime, context, _, _, _, _⟩ := cell
    cases runtime <;> cases context <;> rfl

/-- A call on `r` that gave no handle keeps the books if it keeps those of `r`. -/
theorem Shows.sameBooks {out : Seen × Loc P} {s : Seen} (h : Shows r w out s none w')
    (hl : w.loc? r = some l) : w.SameBooks w' ↔ out.2.books = l.books := by
  have hr : w'.books? r = some out.2.books := by rw [World.books?, h.loc?]; rfl
  have hw : w.books? r = some l.books := by rw [World.books?, hl]; rfl
  obtain ⟨-, b', L, ⟨e, -, hrun⟩, ⟨-, rfl⟩ | ⟨x, t, hp, -⟩⟩ := h
  · refine ⟨fun ⟨_, hb⟩ => ?_, fun hb => ⟨hrun.values, fun r' => ?_⟩⟩
    · exact Option.some.inj (hr.symm.trans ((hb r).trans hw))
    · by_cases hrr : r' = r
      · rw [hrr, hr, hw, hb]
      · exact World.books?_congr (hrun.others r' hrr)
  · cases hp

/-- A failed `js_runtime_enable_std_module` leaves the loader and nothing else. -/
theorem enableStd_books (h : l.enableStd.1 ≠ 0) :
    l.stdEnabled = false ∧ (P.initModuleStd l.heap).1.toOption = none ∧
      l.enableStd.2.books = { l.books with moduleLoader := true } := by
  unfold Loc.enableStd at h ⊢
  by_cases hstd : l.stdEnabled = true
  · rw [if_pos hstd] at h
    exact absurd rfl h
  · rw [if_neg hstd] at h ⊢
    rcases hi : P.initModuleStd l.heap with ⟨x | _, heap⟩ <;> rw [hi] at h
    · refine ⟨by simpa using hstd, rfl, ?_⟩
      dsimp only
      rw [books_capture]
      rfl
    · exact absurd rfl h

theorem failed_enable_iff {i : Int} {p : Ptr} (hl : w.loc? r = some l)
    (hon : (Call.runtimeEnableStdModule p).On w r)
    (hs : Shows r w ((Call.runtimeEnableStdModule p).effect (w.valueOf r) l) (.int i) none w')
    (hi : i ≠ 0) : w.SameBooks w' ↔ ¬ (Call.runtimeEnableStdModule p).LeavesLoader w := by
  obtain rfl : p = some r := hon
  rw [Call.effect, Call.fail, Call.outcome, enabling_finish] at hs
  obtain rfl : i = l.enableStd.1 := by simpa using hs.1
  obtain ⟨hstd, hinit, hbooks⟩ := enableStd_books hi
  rw [hs.sameBooks hl, hbooks]
  simp [Call.LeavesLoader, hl, hstd, hinit, Loc.books]

theorem not_leavesLoader_of_null {β : Type} {call : Call β} (hn : call.Null) : ¬ call.LeavesLoader w := by
  cases call with
  | runtimeEnableStdModule p =>
    obtain rfl : p = none := hn
    exact id
  | _ => exact id

theorem not_leavesLoader {β : Type} {call : Call β} (h : ¬ call.Enables) : ¬ call.LeavesLoader w := by
  cases call with
  | runtimeEnableStdModule p => exact absurd trivial h
  | _ => exact id

/-- One failed call. -/
theorem Did.failed {β : Type} {call : Call β} {x : β} (h : Did r w call x w') (hf : call.Failed x) :
    w.SameBooks w' ↔ ¬ call.LeavesLoader w := by
  cases h with
  | null hn => exact iff_of_true ⟨rfl, fun _ => rfl⟩ (not_leavesLoader_of_null hn)
  | @on _ _ _ _ l hl hon hs =>
    rw [hf.given] at hs
    by_cases he : call.Enables
    · cases call with
      | runtimeEnableStdModule p => exact failed_enable_iff hl hon hs hf
      | _ => cases he
    · refine iff_of_true ((hs.sameBooks hl).mpr ?_) (not_leavesLoader he)
      obtain hb | ⟨⟨v, hv⟩, -⟩ := finish_books call.fail (call.outcome (w.valueOf r) l)
      · exact hb.trans (call.outcome_books _ he)
      · exact absurd (hs.1.trans hv) (Call.seen_ne_handle hf.given v)
  | notCreated host n => exact iff_of_true ⟨rfl, fun _ => World.books?_congr rfl⟩ id
  | created heap host hr => cases hf
  | destroyed hl hs => cases hf
  | dropped hp hl hs => cases hf
  | freed s L => cases hf

/-- The two flags after a call on `l`. -/
theorem Call.effect_flags {β : Type} (own : Ptr → Option JSVal) (call : Call β) (he : ¬ call.Enables) :
    (call.effect own l).2.stdEnabled = l.stdEnabled ∧
      (call.effect own l).2.moduleLoader = l.moduleLoader := by
  have hout := call.outcome_books (l := l) own he
  obtain hb | ⟨-, hb⟩ := finish_books call.fail (call.outcome own l) <;> rw [hout] at hb
  · exact ⟨congrArg Books.stdEnabled hb, congrArg Books.moduleLoader hb⟩
  · exact ⟨congrArg Books.stdEnabled hb, congrArg Books.moduleLoader hb⟩

theorem enableStd_flags (h : l.moduleLoader = l.stdEnabled)
    (hleaves : ¬ (l.stdEnabled = false ∧ l.moduleLoader = false ∧
      (P.initModuleStd l.heap).1.toOption = none)) :
    l.enableStd.2.moduleLoader = l.enableStd.2.stdEnabled := by
  unfold Loc.enableStd
  by_cases hstd : l.stdEnabled = true
  · rw [if_pos hstd]
    exact h
  · rw [if_neg hstd]
    have hoff : l.stdEnabled = false := by simpa using hstd
    rcases hi : P.initModuleStd l.heap with ⟨x | _, heap⟩
    · exact absurd ⟨hoff, h.trans hoff, by rw [hi]; rfl⟩ hleaves
    · rfl

/-- In every state that a run reaches, a call that fails leaves the handles, their values and the books
of every runtime as they were, if and only if it does not leave a module loader behind. In a run in
which no call leaves one, a runtime has a loader just when its standard modules are enabled. -/
theorem failure_keeps_books :
    (∀ (c : Client) (w w' : World P) (r : Nat) (β : Type) (call : Call β) (x : β), Reach c w →
      c.Allows r call → call.run.run w = .ok (x, w') → call.Failed x →
      (w.SameBooks w' ↔ ¬ call.LeavesLoader w)) ∧
    ∀ (c : Client) (w : World P), ReachIf (fun w _ call => ¬ call.LeavesLoader w) c w →
      ∀ r l, w.loc? r = some l → l.moduleLoader = l.stdEnabled := by
  refine ⟨fun c w w' r β call x h hc hrun hf => (h.inv.did hc hrun).failed hf, fun c w h r l hl => ?_⟩
  refine h.core (φ := fun k => k.moduleLoader = k.stdEnabled) (fun _ => rfl) ?_ (fun _ _ h => h) r l.core
    (World.core?_of_loc hl)
  intro w r l β call hgood hon hl hφ
  by_cases he : call.Enables
  · cases call with
    | runtimeEnableStdModule p =>
      obtain rfl : p = some r := hon
      rw [Call.effect, Call.fail, Call.outcome, enabling_finish]
      exact enableStd_flags hφ fun hbad => hgood ⟨l, hl, hbad⟩
    | _ => cases he
  · obtain ⟨hstd, hload⟩ := call.effect_flags (l := l) (w.valueOf r) he
    exact hload.trans (Eq.trans hφ hstd.symm)

/-- A call on the missing name fails, and the runtime of `idle_reach` keeps its books. -/
theorem failure_keeps_books_idle : ∃ (c : Client) (w w' : World (Platform.idle Nat 0)), Reach c w ∧
    (jsValueGetProperty (some 0) none).run w = .ok (none, w') ∧ w.SameBooks w' := by
  obtain ⟨w, hw⟩ := idle_reach
  have hc : Client.Allows { runtimes := {0}, destroyed := {0}, live := {(0, 0)}, strings := 0 } 0
      (.valueGetProperty (some 0) none) := .inr ⟨0, rfl, by decide⟩
  obtain ⟨l, -, -, hl⟩ := hw.inv.run (hw.inv.open_of_value (p := 0) (r := 0) (by decide))
  obtain ⟨x, t, hx⟩ := hw.inv.handles.holds 0 0 (by decide)
  obtain ⟨p, w', hrun, rfl, -⟩ := guardValue (c := fun h => do
    setError h.runtime (utf8 "property name must not be null"); pure none) hx rfl (reject_spec none _) w hl
  exact ⟨_, w, w', hw, hrun, (failure_keeps_books.1 _ w w' 0 _ _ _ hw hc hrun rfl).mpr id⟩

/-- `js_init_module_std` fails in this engine, and the loader stays. -/
theorem failed_enable_leaves_loader : ∃ (c : Client) (w w' : World (Platform.idle Nat 0)), Reach c w ∧
    (jsRuntimeEnableStdModule (some 0)).run w = .ok (1, w') ∧
    (w.books? 0).map Books.moduleLoader = some false ∧
    (w'.books? 0).map Books.moduleLoader = some true ∧ ¬ w.SameBooks w' := by
  have h₁ := (Reach.start (P := Platform.idle Nat 0) ()).call (r := 0) .runtimeCreate trivial rfl
  refine ⟨_, _, _, h₁, rfl, rfl, rfl, fun hsame => ?_⟩
  have hbool : some true = some false := congrArg (Option.map Books.moduleLoader) (hsame.2 0)
  cases hbool

end InteropJs
