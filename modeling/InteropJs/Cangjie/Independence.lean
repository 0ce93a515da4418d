import InteropJs.Cangjie.History
import InteropJs.Cangjie.Integers

/-!
# Marshalling and script state

`toExtern` of a primitive in two states that scripts have reached. `runs` is an observer of the engine's
heap: the number of times that code of a script was started.

* `Platform.QuietBigInt` is what is asked of the engine: a new string and the intrinsic `BigInt` start no
  script code, and `BigInt` is exact.
* `Loc.Genuine` says that the global `BigInt` is still the intrinsic one, and no accessor. Scripts can
  replace it: the global object is theirs.
* `toExtern_independent` is the two-run statement over all histories.
-/

namespace InteropJs

open Hoare

variable {P : Platform} {r : Nat} {b : World P} {l : Loc P} {L : Multiset Resource} {st : Store P}
  {runs : P.Heap → Nat} {intrinsic : JSVal}

/-- The engine on the way of a primitive (module doc). -/
structure Platform.QuietBigInt (P : Platform) (runs : P.Heap → Nat) (intrinsic : JSVal) : Prop where
  newString : ∀ us h, runs (P.newString us h).2 = runs h
  call : ∀ i h, runs (P.call intrinsic .undefined [.string (decimal i)] h).2 = runs h
  parse : ∀ i h x, (P.call intrinsic .undefined [.string (decimal i)] h).1 = .ok x → x = .bigint i

/-- The global `BigInt` is the intrinsic one, and its lookup starts no script code. -/
def Loc.Genuine (runs : P.Heap → Nat) (intrinsic : JSVal) (l : Loc P) : Prop :=
  l.lookupBigInt.1 = .ok intrinsic ∧ runs l.lookupBigInt.2 = runs l.heap

/-- If the engine throws, the text of its error is made without script code. -/
def Loc.QuietError (runs : P.Heap → Nat) (l : Loc P) (v : Any) : Prop :=
  (l.converted v).1 = none →
    runs (P.toCString ((l.converted v).2.exception.getD .uninitialized) (l.converted v).2.heap).2 =
      runs (l.converted v).2.heap

/-- The primitive value that `v` stands for. -/
def Any.primitive (v : Any) : JSVal :=
  match v with
  | .bool b => .bool b
  | .int .int8 i | .int .int16 i | .int .int32 i | .int .uint8 i | .int .uint16 i =>
    .number (.finite i.val)
  | .int .int64 i | .int .uint32 i | .int .uint64 i => .bigint i.val
  | .bigInt i => .bigint i
  | .float _ x => .number x
  | .string s => .string (sentUnits s)
  | _ => .undefined

/-- `toExtern(v)` gives a value `x`, or throws if there is none, and starts no script code. -/
def Sends (runs : P.Heap → Nat) (r : Nat) (v : Any) (st : Store P) (o : Option JSVal) : Prop :=
  ∃ res st', (JSRuntime.toExtern (some r) v).exec.run st = .ok (res, st') ∧
    (∀ l l', st.world.loc? r = some l → st'.world.loc? r = some l' → runs l'.heap = runs l.heap) ∧
    match o with
    | some x => ∃ e, res = .ok e ∧ e.Denotes st'.world r x
    | none => ∃ y, res = .error y

/-- `toExtern(v)` ends the same way in both states: with one primitive value, which for a wide type is
the BigInt of `v`, or with an exception. -/
def Independent (runs : P.Heap → Nat) (r : Nat) (v : Any) (st₁ st₂ : Store P) : Prop :=
  ∃ o, Sends runs r v st₁ o ∧ Sends runs r v st₂ o ∧ ∀ x i, o = some x → v.wide? = some i → x = .bigint i

/-! ## One state -/

/-- A value that is not wide does not read the heap, but for the memory of a string. -/
theorem converted_plain (hP : P.QuietBigInt runs intrinsic) {v : Any} (hv : v.isPrimitive = true)
    (hw : v.wide? = none) : runs (l.converted v).2.heap = runs l.heap ∧
      ∀ x, (l.converted v).1 = some x → x = v.primitive := by
  cases v with
  | int t i => cases t <;> first | exact ⟨rfl, fun x hx => (Option.some.inj hx).symm⟩ | cases hw
  | bigInt i => cases hw
  | float t y => exact ⟨rfl, fun x hx => (Option.some.inj hx).symm⟩
  | bool b => exact ⟨rfl, fun x hx => (Option.some.inj hx).symm⟩
  | string s =>
    rw [converted_string]
    have hruns := hP.newString (sentUnits s) l.heap
    rcases hs : P.newString (sentUnits s) l.heap with ⟨y | u, h⟩ <;> rw [hs] at hruns
    · exact ⟨hruns, fun x hx => by cases hx⟩
    · exact ⟨hruns, fun x hx => (Option.some.inj hx).symm⟩
  | _ => cases hv

theorem converted_genuine (hP : P.QuietBigInt runs intrinsic) (hB : l.Genuine runs intrinsic) {v : Any}
    {i : Int} (hv : v.wide? = some i) : runs (l.converted v).2.heap = runs l.heap ∧
      ∀ x, (l.converted v).1 = some x → x = .bigint i := by
  obtain ⟨hlook, hquiet⟩ := hB
  have hlook' : l.lookupBigInt = (.ok intrinsic, l.lookupBigInt.2) := Prod.ext hlook rfl
  rw [converted_bigint hv hlook']
  have hruns := (hP.newString (decimal i) l.lookupBigInt.2).trans hquiet
  rcases hs : P.newString (decimal i) l.lookupBigInt.2 with ⟨y | u, h⟩ <;> rw [hs] at hruns
  · exact ⟨hruns, fun x hx => by cases hx⟩
  · simp only
    have hcall := (hP.call i h).trans hruns
    have hparse := hP.parse i h
    rcases hc : P.call intrinsic .undefined [.string (decimal i)] h with ⟨y | y, h'⟩ <;>
      rw [hc] at hcall hparse
    · refine ⟨?_, fun x hx => by cases hx⟩
      rw [← hcall]
      rfl
    · refine ⟨?_, fun x hx => hparse x (congrArg _ (Option.some.inj hx))⟩
      rw [← hcall]
      rfl

theorem wide?_primitive {v : Any} {i : Int} (hv : v.wide? = some i) : v.primitive = .bigint i := by
  cases v with
  | int t x => cases t <;> cases hv <;> rfl
  | bigInt x =>
    cases hv
    rfl
  | _ => cases hv

/-- What the engine makes of `v` does not depend on the state. -/
theorem converted_quiet (hP : P.QuietBigInt runs intrinsic) {v : Any} (hv : v.isPrimitive = true)
    (hB : v.wide? ≠ none → l.Genuine runs intrinsic) : runs (l.converted v).2.heap = runs l.heap ∧
      ∀ x, (l.converted v).1 = some x → x = v.primitive := by
  cases hw : v.wide? with
  | none => exact converted_plain hP hv hw
  | some i =>
    rw [wide?_primitive hw]
    exact converted_genuine hP (hB (by simp [hw])) hw

/-- How `toExtern` ends in one state. -/
theorem sends_of_quiet (hP : P.QuietBigInt runs intrinsic) {v : Any} (hv : v.isPrimitive = true)
    (hst : On r b l L st) (hB : v.wide? ≠ none → l.Genuine runs intrinsic)
    (hE : l.QuietError runs v) :
    (l.Converts v → Sends runs r v st (some v.primitive)) ∧ (¬ l.Converts v → Sends runs r v st none) := by
  obtain ⟨hruns, hval⟩ := converted_quiet hP hv hB
  have hl : st.world.loc? r = some l := Run.loc? hst
  obtain ⟨res, st', hrun, ⟨ref, x, rfl, hx, hconv, href, hw⟩ | ⟨⟨y, rfl⟩, hconv, hw⟩⟩ := toExtern_run hv hst
  · refine ⟨fun _ => ⟨_, st', hrun, ?_, _, rfl, ?_⟩, fun hn => absurd hconv hn⟩
    · obtain ⟨⟨b', L', hst', -⟩, -⟩ := hw.denotes href
      intro l₁ l₂ h₁ h₂
      rw [hl] at h₁
      rw [hst'.loc?] at h₂
      cases h₁
      cases h₂
      exact hruns
    · obtain rfl := hval x hx
      obtain ⟨⟨b', L', ⟨e, -, hat⟩, p, hp, t, ht⟩, -⟩ := hw.denotes href
      exact ⟨p, hp, t, by rw [hat.values, ht]⟩
  · refine ⟨fun h => absurd h hconv, fun _ => ⟨_, st', hrun, ?_, y, rfl⟩⟩
    intro l₁ l₂ h₁ h₂
    rw [hl] at h₁
    rw [Run.loc? hw] at h₂
    cases h₁
    cases h₂
    rw [← hruns]
    -- the error is the engine's, in text, or the bridge's own
    cases ho : (l.converted v).1 with
    | none =>
      rw [← hE ho]
      show runs (Loc.after _ _).heap = _
      rcases P.toCString ((l.converted v).2.exception.getD .uninitialized) (l.converted v).2.heap with
        ⟨y | bytes, h⟩ <;> rfl
    | some x => rfl

/-! ## Two states -/

/-- In any two states that a program reaches, `toExtern` of a primitive ends the same way and starts no
script code, if the global `BigInt` is the intrinsic one in both (where the type goes through it), the
engine's errors are turned into text without script code, and there is memory for the value in both
or in neither. -/
theorem toExtern_independent (hP : P.QuietBigInt runs intrinsic) {c₁ c₂ : Client} {s₁ s₂ : Store P}
    {l₁ l₂ : Loc P} (h₁ : History r (c₁, s₁)) (h₂ : History r (c₂, s₂))
    (hl₁ : s₁.world.loc? r = some l₁) (hl₂ : s₂.world.loc? r = some l₂) {v : Any}
    (hv : v.isPrimitive = true)
    (genuine : v.wide? ≠ none → l₁.Genuine runs intrinsic ∧ l₂.Genuine runs intrinsic)
    (quiet : l₁.QuietError runs v ∧ l₂.QuietError runs v) (room : l₁.Converts v ↔ l₂.Converts v) :
    Independent runs r v s₁ s₂ := by
  obtain ⟨L₁, hon₁⟩ := h₁.on hl₁
  obtain ⟨L₂, hon₂⟩ := h₂.on hl₂
  have hs₁ := sends_of_quiet hP hv hon₁ (fun h => (genuine h).1) quiet.1
  have hs₂ := sends_of_quiet hP hv hon₂ (fun h => (genuine h).2) quiet.2
  by_cases hconv : l₁.Converts v
  · refine ⟨some v.primitive, hs₁.1 hconv, hs₂.1 (room.mp hconv), fun x i hx hw => ?_⟩
    cases hx
    exact wide?_primitive hw
  · refine ⟨none, hs₁.2 hconv, hs₂.2 (fun h => hconv (room.mpr h)), fun x i hx hw => ?_⟩
    cases hx

/-! ### A script that replaces `BigInt` -/

def scriptFunction : JSVal := .function 2 ⟨true, true⟩

/-- A heap is whether a script has replaced the global `BigInt`, and the number of scripts and functions
that were started. Every script replaces it, with a function that returns 42. -/
def scriptPlatform : Platform :=
  { Platform.idle (Bool × Nat) (false, 0) with
    eval := fun _ h => (.ok .undefined, (true, h.2 + 1))
    getProperty := fun _ key h =>
      (if key = .ofCString (utf8 "BigInt") then
        .ok (if h.1 then scriptFunction else bigIntFunction) else .ok .undefined, h)
    call := fun f _ argv h =>
      if f = bigIntFunction then (callBigIntFunction argv, h)
      else (.ok (.number (.finite 42)), (h.1, h.2 + 1)) }

theorem scriptPlatform_quiet : scriptPlatform.QuietBigInt Prod.snd bigIntFunction where
  newString us h := rfl
  call i h := rfl
  parse i h x hx := by
    have hcall : callBigIntFunction [.string (decimal i)] = .ok x := hx
    rw [callBigIntFunction_decimal] at hcall
    exact (Except.ok.inj hcall).symm

/-- The local state of `scriptPlatform` with `count` handles. -/
def scriptLoc (heap : Bool × Nat) (count : Nat) : Loc scriptPlatform where
  heap := heap
  exception := none
  moduleLoader := false
  error := none
  count := count
  destroying := false
  stdEnabled := false
  host := ()
  entries := []

theorem scriptLoc_lookup (heap : Bool × Nat) (count : Nat) : (scriptLoc heap count).lookupBigInt =
    (.ok (if heap.1 then scriptFunction else bigIntFunction), heap) := by
  show (if PropKey.ofCString (utf8 "BigInt") = PropKey.ofCString (utf8 "BigInt") then
    Except.ok (if heap.1 then scriptFunction else bigIntFunction) else .ok .undefined, heap) = _
  rw [if_pos rfl]

/-- A client with the runtime 0. -/
def scriptClient : Client := Client.start.after 0 .runtimeCreate (some 0)

theorem script_start : ∃ s, History (P := scriptPlatform) 0 (scriptClient, s) ∧
    s.world.loc? 0 = some (scriptLoc (false, 0) 0) := by
  obtain ⟨w, hrun, hcell, hentries⟩ : ∃ w, Call.runtimeCreate.run.run (World.start (P := scriptPlatform) ()) =
      .ok (some 0, w) ∧ w.runtimes 0 = some ((scriptLoc (false, 0) 0).cell none) ∧ w.entries = [] :=
    ⟨_, rfl, rfl, rfl⟩
  have hs := History.created (P := scriptPlatform) () hrun
  refine ⟨⟨w, 0⟩, hs, ?_⟩
  simp only [World.loc?, hcell, Loc.cell, hentries]
  rfl

/-- After a script the global `BigInt` is the function of the script. -/
theorem script_replaced : ∃ c s, History (P := scriptPlatform) 0 (c, s) ∧
    s.world.loc? 0 = some (scriptLoc (true, 1) 1) := by
  obtain ⟨s, hs, hl⟩ := script_start
  obtain ⟨L, hon⟩ := hs.on hl
  obtain ⟨p, w, hrun, hw⟩ := jsRuntimeEvalValue_spec (mallocCString "") s.world hon
  obtain ⟨x, -, -, rfl, t, ht⟩ | ⟨hd, -⟩ := hw.cases
  · have allowed : scriptClient.Allows 0 (.runtimeEvalValue (some 0) (some (mallocCString ""))) :=
      .inr ⟨rfl, by decide, by decide⟩
    refine ⟨_, _, .op (.evalScript "") hs (.native allowed hrun (.alloc .ret)), ht.loc?⟩
  · cases hd

theorem toExtern_independent_int64 : ∃ c s, History (P := scriptPlatform) 0 (c, s) ∧
    s.world.loc? 0 = some (scriptLoc (true, 1) 1) ∧ ∃ s', History (P := scriptPlatform) 0 (scriptClient, s') ∧
      Independent (P := scriptPlatform) Prod.snd 0 (.bool true) s s' ∧
      Independent (P := scriptPlatform) Prod.snd 0 (.int .int64 ⟨1, by decide, by decide⟩) s' s' := by
  obtain ⟨c, s, hs, hl⟩ := script_replaced
  obtain ⟨s', hs', hl'⟩ := script_start
  refine ⟨c, s, hs, hl, s', hs', ?_, ?_⟩
  · have quiet : ∀ heap count, (scriptLoc heap count).QuietError Prod.snd (.bool true) :=
      fun _ _ h => by cases h
    have room : ∀ heap count, (scriptLoc heap count).Converts (.bool true) := fun _ _ => rfl
    exact toExtern_independent scriptPlatform_quiet hs hs' hl hl' rfl (fun h => absurd rfl h)
      ⟨quiet _ _, quiet _ _⟩ (iff_of_true (room _ _) (room _ _))
  · have genuine : (scriptLoc (false, 0) 0).Genuine Prod.snd bigIntFunction := by
      unfold Loc.Genuine
      rw [scriptLoc_lookup]
      exact ⟨rfl, rfl⟩
    have hval : ((scriptLoc (false, 0) 0).converted (.int .int64 ⟨1, by decide, by decide⟩)).1 =
        some (.bigint 1) := by
      rw [converted_bigint rfl (scriptLoc_lookup _ _)]
      exact congrArg Except.toOption (callBigIntFunction_decimal 1)
    have quiet : (scriptLoc (false, 0) 0).QuietError Prod.snd (.int .int64 ⟨1, by decide, by decide⟩) := by
      intro h
      rw [hval] at h
      cases h
    exact toExtern_independent scriptPlatform_quiet hs' hs' hl' hl' rfl (fun _ => ⟨genuine, genuine⟩)
      ⟨quiet, quiet⟩ Iff.rfl

/-- After the script an `Int64` becomes the number 42. -/
theorem toExtern_not_independent : ∃ c s c' s', History (P := scriptPlatform) 0 (c, s) ∧
    History (P := scriptPlatform) 0 (c', s') ∧
    ¬ Independent (P := scriptPlatform) Prod.snd 0 (.int .int64 ⟨1, by decide, by decide⟩) s s' := by
  obtain ⟨s, hs, -⟩ := script_start
  obtain ⟨c', s', hs', hl'⟩ := script_replaced
  obtain ⟨L, hon⟩ := hs'.on hl'
  refine ⟨_, s, c', s', hs, hs', ?_⟩
  have hval : ((scriptLoc (true, 1) 1).converted (.int .int64 ⟨1, by decide, by decide⟩)).1 =
      some (.number (.finite 42)) := by
    rw [converted_bigint rfl (scriptLoc_lookup _ _)]
    rfl
  obtain ⟨res, st', hrun, h⟩ := toExtern_run (v := .int .int64 ⟨1, by decide, by decide⟩) rfl hon
  rintro ⟨o, -, ⟨res', st'', hrun', -, hres⟩, hwide⟩
  rw [hrun] at hrun'
  cases hrun'
  obtain ⟨ref, x, rfl, hx, -, href, hw⟩ | ⟨⟨y, rfl⟩, hconv, -⟩ := h
  · cases o with
    | none =>
      obtain ⟨y, hy⟩ := hres
      cases hy
    | some z =>
      obtain ⟨e, he, hz⟩ := hres
      cases he
      obtain rfl := hwide z 1 rfl rfl
      have heq := (hw.denotes href).2 _ hz
      rw [hval] at hx
      cases hx
      cases heq
  · refine hconv ?_
    unfold Loc.Converts
    rw [hval]
    rfl

end InteropJs
