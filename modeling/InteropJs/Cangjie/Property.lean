import InteropJs.Cangjie.Marshal
import InteropJs.Cangjie.History

/-!
# Properties

`memberAccess`, `memberUpdate`, `indexAccess` and `indexUpdate` on an open runtime `r`, as runs from one
state to the next.

* `Ready r l s`: in the state `s` of a program the runtime `r` has the local state `l`. An operation ends
  in such a state again and keeps the handles of before (`Store.Extends`), so that runs compose.
* `Loc.pass` says what `toJSValue` makes of a value, and `Any.Passes` that it makes one.
* `Fetched` and `Stored` say how a read and a write end: with the property of the engine, or with one of
  the exceptions of `getProperty`, `getIndex`, `setProperty` and `setIndex`.
-/

namespace InteropJs

open Hoare

variable {P : Platform} {r : Nat} {b w : World P} {l l' : Loc P} {L : Multiset Resource}
  {s s' s'' : Store P}

/-! ## States -/

/-- The runtime `r` is open with the local state `l`, and no handle has a block that is still to be
given. -/
structure Ready (r : Nat) (l : Loc P) (s : Store P) : Prop where
  on : ∃ L, On r s.world l L s
  unused : ∀ p, s.world.nextValue ≤ p → s.world.values p = none

theorem Inv.ready {c : Client} (h : Inv c s.world) (hl : s.world.loc? r = some l) : Ready r l s := by
  refine ⟨⟨_, h.run_of_loc hl⟩, fun p hp => ?_⟩
  apply h.handles.unused
  intro r' hmem
  exact absurd (h.handles.bound p r' hmem) (not_lt.mpr hp)

theorem History.ready {c : Client} (h : History r (c, s)) (hl : s.world.loc? r = some l) :
    Ready r l s :=
  h.reach.inv.ready hl

/-- The small state has no handle but its one. -/
theorem sample_ready (P : Platform) (host : P.Host) (heap : P.Heap) (x : JSVal) :
    Ready 0 (Loc.sample host heap) (Store.sample P host heap x) := by
  refine ⟨⟨_, sample_on _ _ _ _⟩, fun p hp => ?_⟩
  have hne : p ≠ 0 := by
    have h1 : 1 ≤ p := hp
    omega
  simp [Store.sample, hne]

/-- Every handle of `s` is one of `s'`, with the same value. -/
def Store.Extends (s s' : Store P) : Prop :=
  ∀ p h, s.world.values p = some h → s'.world.values p = some h

theorem Store.Extends.refl (s : Store P) : s.Extends s := fun _ _ h => h

theorem Store.Extends.trans (h : s.Extends s') (h' : s'.Extends s'') : s.Extends s'' :=
  fun p v hp => h' p v (h p v hp)

theorem World.Holds.mono {p : Nat} {x : JSVal} (h : s.world.Holds p r x) (he : s.Extends s') :
    s'.world.Holds p r x := by
  obtain ⟨t, ht⟩ := h
  exact ⟨t, he _ _ ht⟩

theorem JSValueRef.Denotes.mono {ref : JSValueRef} {x : JSVal} (h : ref.Denotes s.world r x)
    (he : s.Extends s') : ref.Denotes s'.world r x := by
  obtain ⟨p, hp, hx⟩ := h
  exact ⟨p, hp, hx.mono he⟩

theorem Denote.mono {args : List JSValueRef} {argv : List JSVal} (h : Denote s.world r args argv)
    (he : s.Extends s') : Denote s'.world r args argv := by
  induction h with
  | nil => exact .nil
  | cons hx _ ih => exact .cons (hx.mono he) ih

/-- A handle denotes one value. -/
theorem World.Holds.unique {p : Nat} {x y : JSVal} (hx : w.Holds p r x) (hy : w.Holds p r y) : x = y := by
  obtain ⟨t, ht⟩ := hx
  obtain ⟨u, hu⟩ := hy
  rw [ht] at hu
  cases hu
  rfl

theorem JSValueRef.Denotes.unique {ref : JSValueRef} {x y : JSVal} (hx : ref.Denotes w r x)
    (hy : ref.Denotes w r y) : x = y := by
  obtain ⟨p, hp, hx⟩ := hx
  obtain ⟨q, hq, hy⟩ := hy
  rw [hp] at hq
  cases hq
  exact hx.unique hy

theorem Run.self (h : Run r b l L w) : Run r w l L w := by
  obtain ⟨e, he, hw⟩ := h
  exact ⟨e, he, hw.cell, hw.ledger, fun _ _ => rfl, rfl, rfl, rfl, rfl, hw.host, hw.entries, hw.fresh⟩

/-- A run that gives no handle. -/
theorem Ready.run (h : Ready r l s) (hw : Run r s.world l' L s'.world) : Ready r l' s' ∧ s.Extends s' := by
  have hself := hw.self
  obtain ⟨e, -, hat⟩ := hw
  refine ⟨⟨⟨L, hself⟩, fun p hp => ?_⟩, fun p v hv => by rw [hat.values, hv]⟩
  rw [hat.nextValue] at hp
  rw [hat.values]
  exact h.unused p hp

/-- A run that gives one. -/
theorem Ready.granted {x : JSVal} (h : Ready r l s) (hw : Granted r s.world l' L x s'.world) :
    Ready r l' s' ∧ s.Extends s' ∧ s'.world.Holds s.world.nextValue r x := by
  obtain ⟨t, hw⟩ := hw
  have hself := hw.self
  obtain ⟨e, -, hat⟩ := hw
  refine ⟨⟨⟨_, hself⟩, fun p hp => ?_⟩, fun p v hv => ?_, t, ?_⟩
  · rw [hat.nextValue] at hp
    have hlt : s.world.nextValue + 1 ≤ p := hp
    rw [hat.values, addValue_values_of_ne (by omega)]
    exact h.unused p (by omega)
  · have hne : p ≠ s.world.nextValue := by
      rintro rfl
      rw [h.unused _ le_rfl] at hv
      cases hv
    rw [hat.values, addValue_values_of_ne hne, hv]
  · rw [hat.values]
    simp [World.addValue]

theorem Ready.heap (h : Ready r l s) : s.heap r = some l.heap := by
  obtain ⟨L, hs⟩ := h.on
  exact hs.heap

/-! ## Reads -/

section Read

variable (l) (x : JSVal) (key : PropKey)

/-- What `JS_GetProperty` gives. -/
def Loc.got : Option JSVal := (P.getProperty x key l.heap).1.toOption

/-- The local state after `JS_GetProperty`. -/
def Loc.afterGet : Loc P := l.clearError.after (P.getProperty x key l.heap)

/-- The property reaches the client in a handle. -/
def Loc.Gets : Prop := (l.afterGet x key).delivers (l.got x key) = true

/-- The local state after a read that gave no handle. -/
def Loc.getTried : Loc P := (l.afterGet x key).lost (l.got x key)

end Read

/-- The key that `mallocCString` and `JS_NewAtom` make of a name. -/
def PropKey.ofName (name : String) : PropKey := .ofCString (mallocCString name)

theorem kind_hasProperties (x : JSVal) :
    (x.kind.code = jsValueObjectKind ∨ x.kind.code = jsValueFunctionKind) ↔ x.isObject = true := by
  cases x <;> simp [JSVal.kind, ValueKind.code, JSVal.isObject, JSVal.isFunction, jsValueObjectKind,
    jsValueFunctionKind]

theorem kind_function (x : JSVal) : x.kind.code = jsValueFunctionKind ↔ x.isFunction = true := by
  cases x <;> simp [JSVal.kind, ValueKind.code, JSVal.isObject, JSVal.isFunction, jsValueFunctionKind]

section Read

variable {p : Nat} {x : JSVal} {key : PropKey}

theorem valueHasProperties_spec {err : Exn → Store P → Prop} (hp : b.Holds p r x) :
    Runs (On r b l L) (valueHasProperties (some p)) (fun ok s => ok = x.isObject ∧ On r b l L s) err := by
  refine Runs.bind (valueIs_spec hp jsValueObjectKind) fun ok => Runs.lift fun hok => ?_
  subst hok
  have hkind := kind_hasProperties x
  by_cases hobj : x.kind.code = jsValueObjectKind
  · simp only [hobj, decide_true, if_true]
    exact (Runs.ret _).pre fun s hs => ⟨(hkind.mp (.inl hobj)).symm, hs⟩
  · simp only [hobj, decide_false, Bool.false_eq_true, if_false]
    refine Runs.post (valueIs_spec hp jsValueFunctionKind) (fun ok s h => ⟨?_, h.2⟩) fun _ _ h => h
    rw [h.1, Bool.eq_iff_iff, decide_eq_true_iff, ← hkind]
    simp [hobj]

/-- How a read ends that reached the bridge. -/
def Loc.Reading (r : Nat) (b : World P) (L : Multiset Resource) (l : Loc P) (x : JSVal) (key : PropKey)
    (q : Ptr) (w : World P) : Prop :=
  ∃ y, l.got x key = some y ∧ l.Gets x key ∧ q = some b.nextValue ∧ Granted r b (l.afterGet x key).kept L y w

/-- The handle of a read, or the exception `message`. -/
theorem readHandle_spec {c : Call Ptr} (message : String)
    (hc : Triple (Run r b l L) c.run (Answer r b L (l.got x key) (l.afterGet x key))) :
    Runs (On r b l L)
      (do let result ← c.prog
          if result.isNone then .raise (.dynamic message) else return result : Prog Ptr)
      (fun q s => Loc.Reading r b L l x key q s.world)
      (fun e s => ¬ l.Gets x key ∧ e = .dynamic message ∧ On r b (l.getTried x key) L s) := by
  refine Runs.call hc fun q s hs => ?_
  obtain ⟨y, hy, hd, rfl, hw⟩ | ⟨hd, rfl, hw⟩ := hs.cases
  · exact ⟨.ok (some b.nextValue), s, rfl, y, hy, hd, rfl, hw⟩
  · exact ⟨.error (.dynamic message), s, rfl, by simp [Loc.Gets, hd], rfl, hw⟩

/-- The exceptions of `getProperty`. -/
def Loc.Unread (r : Nat) (b : World P) (L : Multiset Resource) (l : Loc P) (x : JSVal) (key : PropKey)
    (e : Exn) (w : World P) : Prop :=
  (x.isObject = false ∧ e = .dynamic "JavaScript value is not an object" ∧ Run r b l L w) ∨
    x.isObject = true ∧ ¬ l.Gets x key ∧ e = .dynamic "failed to read JavaScript property" ∧
      Run r b (l.getTried x key) L w

theorem getProperty_spec (hp : b.Holds p r x) (name : String) :
    Runs (On r b l L) (getProperty (some p) name)
      (fun q s => x.isObject = true ∧ Loc.Reading r b L l x (.ofName name) q s.world)
      (fun e s => Loc.Unread r b L l x (.ofName name) e s.world) := by
  refine Runs.bind (valueHasProperties_spec hp) fun ok => Runs.lift fun hok => ?_
  subst hok
  cases hobj : x.isObject with
  | false => exact (Runs.raise _).pre fun s hs => .inl ⟨hobj, rfl, hs⟩
  | true =>
    exact Runs.post (readHandle_spec _ (jsValueGetProperty_spec hp (mallocCString name)))
      (fun q s h => ⟨rfl, h⟩) fun e s h => .inr ⟨hobj, h⟩

end Read

/-- How a read ended in the state `s'`: with the property in a new object, wrapped as `wrap` says, or
with an exception. -/
def Fetched (r : Nat) (l : Loc P) (x : JSVal) (key : PropKey) (wrap : JSVal → JSValueRef → Payload)
    (s' : Store P) (res : Except Exn Payload) : Prop :=
  (∃ ref y, x.isObject = true ∧ l.got x key = some y ∧ l.Gets x key ∧ res = .ok (wrap y ref) ∧
    ref.Denotes s'.world r y ∧ Ready r (l.afterGet x key).kept s') ∨
  (x.isObject = true ∧ ¬ l.Gets x key ∧ res = .error (.dynamic "failed to read JavaScript property") ∧
    Ready r (l.getTried x key) s') ∨
  x.isObject = false ∧ res = .error (.dynamic "JavaScript value is not an object") ∧ Ready r l s'

/-- What `memberAccess` makes of a property of the object `receiver`. -/
def member (receiver : JSValueRef) (y : JSVal) (ref : JSValueRef) : Payload :=
  if y.isFunction then .method ref receiver else .value ref

/-- What string indexing makes of a property. -/
def element (_ : JSVal) (ref : JSValueRef) : Payload := .value ref

section Read

variable {ref : JSValueRef} {x : JSVal}

/-- A read of the property `name`, with `wrapping` after it. -/
theorem fetch_run {wrapping : Ptr → Prog Payload} {wrap : JSVal → JSValueRef → Payload}
    (hwrap : ∀ (b : World P) l L p y, b.Holds p r y → Runs (On r b l L) (wrapping (some p))
      (fun payload s => (∃ ref, payload = wrap y ref ∧ ref.handle = some p) ∧ On r b l L s) fun _ _ => False)
    (h : Ready r l s) (ho : ref.Denotes s.world r x) (name : String) :
    ∃ res s', Prog.exec ((getProperty ref.handle name).bind wrapping) s = .ok (res, s') ∧
      s.Extends s' ∧ Fetched r l x (.ofName name) wrap s' res := by
  obtain ⟨p, hp, hx⟩ := ho
  obtain ⟨L, hs⟩ := h.on
  rw [hp]
  have hspec : Runs (On r s.world l L) ((getProperty (some p) name).bind wrapping)
      (fun payload s' => ∃ ref y, x.isObject = true ∧ l.got x (.ofName name) = some y ∧
        l.Gets x (.ofName name) ∧ payload = wrap y ref ∧ ref.handle = some s.world.nextValue ∧
        Granted r s.world (l.afterGet x (.ofName name)).kept L y s'.world)
      (fun e s' => Loc.Unread r s.world L l x (.ofName name) e s'.world) := by
    refine Runs.bind (getProperty_spec hx name) fun q => Runs.lift fun hobj => ?_
    refine Runs.ex fun y => Runs.lift fun hy => Runs.lift fun hgets => Runs.lift fun hq => ?_
    subst hq
    refine Runs.ex fun t => ?_
    have hholds : (s.world.addValue ⟨some r, .ref y t⟩).Holds s.world.nextValue r y :=
      ⟨t, by simp [World.addValue]⟩
    refine Runs.post (hwrap _ _ _ _ y hholds) (fun payload s' hpost => ?_) fun _ _ hfalse => hfalse.elim
    obtain ⟨⟨ref, hpayload, href⟩, hs'⟩ := hpost
    exact ⟨ref, y, hobj, hy, hgets, hpayload, href, t, hs'⟩
  obtain ⟨res, s', hrun, hpost⟩ := hspec.run hs
  refine ⟨res, s', hrun, ?_⟩
  obtain ⟨payload, rfl, ref, y, hobj, hy, hgets, rfl, href, hw⟩ | ⟨e, rfl, herr⟩ := hpost
  · obtain ⟨hready, hext, hholds⟩ := h.granted hw
    exact ⟨hext, .inl ⟨ref, y, hobj, hy, hgets, rfl, ⟨_, href, hholds⟩, hready⟩⟩
  · obtain ⟨hobj, rfl, hw⟩ | ⟨hobj, hgets, rfl, hw⟩ := herr
    · obtain ⟨hready, hext⟩ := h.run hw
      exact ⟨hext, .inr (.inr ⟨hobj, rfl, hready⟩)⟩
    · obtain ⟨hready, hext⟩ := h.run hw
      exact ⟨hext, .inr (.inl ⟨hobj, hgets, rfl, hready⟩)⟩

theorem memberAccess_run (h : Ready r l s) (ho : ref.Denotes s.world r x) (name : String) :
    ∃ res s', (JSRuntime.memberAccess (.value ref) name).exec.run s = .ok (res, s') ∧
      s.Extends s' ∧ Fetched r l x (.ofName name) (member ref) s' res := by
  refine fetch_run (fun b l L p y hy => ?_) h ho name
  refine Runs.bind (valueIs_spec hy jsValueFunctionKind) fun ok => Runs.lift fun hok => ?_
  subst hok
  have hkind := kind_function y
  by_cases hf : y.kind.code = jsValueFunctionKind
  · simp only [hf, decide_true, if_true]
    refine Runs.alloc (Q := fun ref s => ref.handle = some p ∧ On r b l L s) (fun s hs => ⟨rfl, hs⟩)
      fun f => Runs.lift fun hf' => ?_
    refine Runs.touch ((Runs.ret _).pre fun s hs => ⟨⟨f, ?_, hf'⟩, hs⟩)
    rw [member, if_pos (hkind.mp hf)]
  · simp only [hf, decide_false, Bool.false_eq_true, if_false]
    refine Runs.post (jsExtern_spec _ fun s n hs => hs) (fun payload s hs => ?_) fun _ _ hfalse => hfalse
    obtain ⟨f, rfl, hf', hs⟩ := hs
    refine ⟨⟨f, ?_, hf'⟩, hs⟩
    rw [member, if_neg fun hfun => hf (hkind.mpr hfun)]

theorem keyAccess_run (h : Ready r l s) (ho : ref.Denotes s.world r x) (key : String) :
    ∃ res s', (JSRuntime.indexAccess (.value ref) (.string key)).exec.run s = .ok (res, s') ∧
      s.Extends s' ∧ Fetched r l x (.ofName key) element s' res := by
  refine fetch_run (fun b l L p y hy => ?_) h ho key
  refine Runs.post (jsExtern_spec _ fun s n hs => hs) (fun payload s hs => ?_) fun _ _ hfalse => hfalse
  obtain ⟨f, rfl, hf, hs⟩ := hs
  exact ⟨⟨f, rfl, hf⟩, hs⟩

end Read

/-! ## Arguments -/

theorem Prog.exec_bind_error {α β : Type} {p : Prog α} {f : α → Prog β} {e : Exn}
    (h : p.exec.run s = .ok (.error e, s')) : (p.bind f).exec.run s = .ok (.error e, s') := by
  rw [Prog.exec_bind, StateT.run_bind, h]
  rfl

theorem Prog.exec_bind_fault {α β : Type} {p : Prog α} {f : α → Prog β} {fault : Fault}
    (h : p.exec.run s = .error fault) : (p.bind f).exec.run s = .error fault := by
  rw [Prog.exec_bind, StateT.run_bind, h]
  rfl

theorem Ready.congr (h : Ready r l s) (hw : s'.world = s.world) : Ready r l s' ∧ s.Extends s' := by
  obtain ⟨L, hs⟩ := h.on
  have hrun : Run r s.world l L s'.world := by rwa [hw]
  exact h.run hrun

theorem World.Holds.nullOrLive {p : Nat} {x : JSVal} (h : b.Holds p r x) : b.NullOrLive (some p) := by
  intro q hq
  cases hq
  exact ⟨r, x, h⟩

/-- The value as a client may pass it: its handle is `NULL` or live. -/
def Any.Sound (w : World P) : Any → Prop
  | .externValue (.value ref) => w.NullOrLive ref.handle
  | .externValue (.pointer handle) | .pointer handle => w.NullOrLive handle
  | _ => True

/-- What `toJSValue` makes of a value, and the local state after it; nothing if it throws. A handle
denotes what `own` says. -/
def Loc.pass (own : Ptr → Option JSVal) (l : Loc P) (v : Any) : Option (Option JSVal × Loc P) :=
  match v with
  | .externValue (.value ref) => some (own ref.handle, l)
  | .externValue (.pointer handle) | .pointer handle => some (own handle, l)
  | .externValue _ | .other => none
  | v =>
    if (l.converted v).2.delivers (l.converted v).1 then
      some ((l.converted v).1, (l.converted v).2.kept)
    else
      none

/-- The same of a list of values. -/
def Loc.passAll (own : Ptr → Option JSVal) (l : Loc P) : List Any → Option (List (Option JSVal) × Loc P)
  | [] => some ([], l)
  | v :: vs =>
    match l.pass own v with
    | none => none
    | some (o, l) =>
      match l.passAll own vs with
      | none => none
      | some (os, l) => some (o :: os, l)

theorem World.NullOrLive.mono {p : Ptr} (h : s.world.NullOrLive p) (he : s.Extends s') :
    s'.world.NullOrLive p := by
  intro q hq
  obtain ⟨r, x, hx⟩ := h q hq
  exact ⟨r, x, hx.mono he⟩

theorem World.NullOrLive.valueOf_eq {p : Ptr} (h : s.world.NullOrLive p) (he : s.Extends s') :
    s'.world.valueOf r p = s.world.valueOf r p := by
  cases p with
  | none => rfl
  | some q =>
    obtain ⟨r', x, t, ht⟩ := h q rfl
    simp [World.valueOf, ht, he _ _ ht]

theorem Any.Sound.mono {v : Any} (h : v.Sound s.world) (he : s.Extends s') : v.Sound s'.world := by
  cases v with
  | externValue e =>
    cases e with
    | value ref => exact World.NullOrLive.mono h he
    | pointer handle => exact World.NullOrLive.mono h he
    | method f g => trivial
    | other => trivial
  | pointer handle => exact World.NullOrLive.mono h he
  | _ => trivial

/-- How `toJSValue` ends, for what `Loc.pass` says. -/
def Passed (r : Nat) (s' : Store P) (out : Option (Option JSVal × Loc P)) (res : Except Exn JSValueRef) :
    Prop :=
  match out with
  | none => ∃ e, res = .error e
  | some (o, l') => ∃ ref, res = .ok ref ∧ Ready r l' s' ∧ s'.world.NullOrLive ref.handle ∧
      s'.world.valueOf r ref.handle = o

theorem toJSValue_passed {s₀ : Store P} {v : Any} (h : Ready r l s) (he : s₀.Extends s)
    (hv : v.Sound s₀.world) :
    ∃ res s', (JSRuntime.toJSValue (some r) v).exec.run s = .ok (res, s') ∧ s.Extends s' ∧
      Passed r s' (l.pass (s₀.world.valueOf r) v) res := by
  have handle {p : Ptr} (hp : s₀.world.NullOrLive p) (ref : JSValueRef) (href : ref.handle = p)
      {s' : Store P} (hw : s'.world = s.world) :
      s.Extends s' ∧ Passed r s' (some (s₀.world.valueOf r p, l)) (.ok ref) := by
    obtain ⟨hready, hext⟩ := h.congr hw
    subst href
    exact ⟨hext, ref, rfl, hready, hp.mono (he.trans hext), hp.valueOf_eq (he.trans hext)⟩
  have primitive (hprim : v.isPrimitive = true) (hpass : l.pass (s₀.world.valueOf r) v =
      if (l.converted v).2.delivers (l.converted v).1 then
        some ((l.converted v).1, (l.converted v).2.kept) else none) :
      ∃ res s', (JSRuntime.toJSValue (some r) v).exec.run s = .ok (res, s') ∧ s.Extends s' ∧
        Passed r s' (l.pass (s₀.world.valueOf r) v) res := by
    obtain ⟨L, hs⟩ := h.on
    obtain ⟨res, s', hrun, hpost⟩ := (toJSValue_spec hprim).run hs
    refine ⟨res, s', hrun, ?_⟩
    rw [hpass]
    obtain ⟨ref, rfl, x, hx, hconv, href, hw⟩ | ⟨e, rfl, hn, hw⟩ := hpost
    · obtain ⟨hready, hext, hholds⟩ := h.granted hw
      unfold Loc.Converts at hconv
      rw [if_pos hconv]
      refine ⟨hext, ref, rfl, hready, ?_, ?_⟩
      · rw [href]
        exact hholds.nullOrLive
      · rw [href, hholds.valueOf, hx]
    · unfold Loc.Converts at hn
      rw [if_neg hn]
      exact ⟨(h.run hw).2, e, rfl⟩
  cases v with
  | externValue e =>
    cases e with
    | value ref => exact ⟨.ok ref, s, rfl, handle hv ref rfl rfl⟩
    | pointer p => exact ⟨_, { s with nextRef := s.nextRef + 1 }, rfl, handle hv ⟨s.nextRef, p⟩ rfl rfl⟩
    | method f g => exact ⟨_, s, rfl, .refl s, _, rfl⟩
    | other => exact ⟨_, s, rfl, .refl s, _, rfl⟩
  | pointer p => exact ⟨_, { s with nextRef := s.nextRef + 1 }, rfl, handle hv ⟨s.nextRef, p⟩ rfl rfl⟩
  | other => exact ⟨_, s, rfl, .refl s, _, rfl⟩
  | int t i => cases t <;> exact primitive rfl rfl
  | bigInt i => exact primitive rfl rfl
  | float t f => exact primitive rfl rfl
  | bool b => exact primitive rfl rfl
  | string t => exact primitive rfl rfl

/-- `toJSValue` makes `y` of `v`, and leaves the local state `l'`. -/
def Any.Passes (w : World P) (r : Nat) (l : Loc P) (v : Any) (y : JSVal) (l' : Loc P) : Prop :=
  v.Sound w ∧ l.pass (w.valueOf r) v = some (some y, l')

theorem toJSValue_run {v : Any} {y : JSVal} (h : Ready r l s) (hv : v.Passes s.world r l y l') :
    ∃ ref s', (JSRuntime.toJSValue (some r) v).exec.run s = .ok (.ok ref, s') ∧ Ready r l' s' ∧
      s.Extends s' ∧ ref.Denotes s'.world r y := by
  obtain ⟨res, s', hrun, hext, hpassed⟩ := toJSValue_passed h (.refl s) hv.1
  rw [hv.2] at hpassed
  obtain ⟨ref, rfl, hready, hlive, hval⟩ := hpassed
  exact ⟨ref, s', hrun, hready, hext, hlive.holds hval⟩

/-- The same of `toJSValues`. -/
def PassedAll (r : Nat) (s' : Store P) (out : Option (List (Option JSVal) × Loc P))
    (res : Except Exn (List JSValueRef)) : Prop :=
  match out with
  | none => ∃ e, res = .error e
  | some (os, l') => ∃ refs, res = .ok refs ∧ Ready r l' s' ∧
      (∀ ref ∈ refs, s'.world.NullOrLive ref.handle) ∧ refs.map (fun ref => s'.world.valueOf r ref.handle) = os

theorem toJSValues_passed {s₀ : Store P} {vs : List Any} (h : Ready r l s) (he : s₀.Extends s)
    (hvs : ∀ v ∈ vs, v.Sound s₀.world) :
    ∃ res s', (JSRuntime.toJSValues (some r) vs).exec.run s = .ok (res, s') ∧ s.Extends s' ∧
      PassedAll r s' (l.passAll (s₀.world.valueOf r) vs) res := by
  induction vs generalizing l s with
  | nil => exact ⟨.ok [], s, rfl, .refl s, [], rfl, h, by simp, rfl⟩
  | cons v vs ih =>
    obtain ⟨res, s₁, hrun, hext, hpassed⟩ := toJSValue_passed h he (hvs v (by simp))
    simp only [Loc.passAll]
    rcases hpass : l.pass (s₀.world.valueOf r) v with _ | ⟨o, l₁⟩ <;> rw [hpass] at hpassed
    · obtain ⟨e, rfl⟩ := hpassed
      exact ⟨.error e, s₁, Prog.exec_bind_error hrun, hext, e, rfl⟩
    · obtain ⟨ref, rfl, hready, hlive, hval⟩ := hpassed
      obtain ⟨res', s₂, hrun', hext', hrest⟩ := ih hready (he.trans hext) fun u hu => hvs u (by simp [hu])
      simp only
      rcases hall : l₁.passAll (s₀.world.valueOf r) vs with _ | ⟨os, l₂⟩ <;> rw [hall] at hrest
      · obtain ⟨e, rfl⟩ := hrest
        refine ⟨.error e, s₂, ?_, hext.trans hext', e, rfl⟩
        refine (Prog.exec_bind_of hrun).trans ?_
        exact Prog.exec_bind_error hrun'
      · obtain ⟨refs, rfl, hready', hlives, hvals⟩ := hrest
        refine ⟨.ok (ref :: refs), s₂, ?_, hext.trans hext', ref :: refs, rfl, hready', ?_, ?_⟩
        · refine (Prog.exec_bind_of hrun).trans ?_
          exact (Prog.exec_bind_of hrun').trans rfl
        · intro u hu
          rcases List.mem_cons.mp hu with rfl | hu
          · exact hlive.mono hext'
          · exact hlives u hu
        · rw [List.map_cons, hvals, hlive.valueOf_eq hext', hval]

/-! ## Writes -/

section Write

variable (l) (x : JSVal) (key : PropKey) (y : JSVal)

/-- `JS_SetProperty` throws nothing. -/
def Loc.Sets : Prop := (P.setProperty x key y l.heap).1.toOption.isSome = true

/-- The local state after a write. -/
def Loc.afterSet : Loc P :=
  match P.setProperty x key y l.heap with
  | (.ok _, h) => { l.clearError with heap := h }
  | (.error e, h) => { l.clearError with heap := h, exception := some e }.capture

end Write

section Write

variable {p q : Nat} {x y : JSVal} {key : PropKey}

/-- The status of a write, or the exception `message`. -/
theorem writeStatus_spec {c : Call Int} (message : String)
    (hc : Triple (Run r b l L) c.run (Status r b L (P.setProperty x key y l.heap) l.clearError)) :
    Runs (On r b l L)
      (do let status ← c.prog
          if status ≠ 0 then .raise (.dynamic message) else return () : Prog Unit)
      (fun _ s => l.Sets x key y ∧ On r b (l.afterSet x key y) L s)
      (fun e s => ¬ l.Sets x key y ∧ e = .dynamic message ∧ On r b (l.afterSet x key y) L s) := by
  refine Runs.call hc fun status s hs => ?_
  unfold Loc.Sets Loc.afterSet
  unfold Status at hs
  rcases hset : P.setProperty x key y l.heap with ⟨e | ok, h⟩ <;> rw [hset] at hs
  · obtain ⟨rfl, hw⟩ := hs
    exact ⟨.error (.dynamic message), s, rfl, by simp [Except.toOption], rfl, hw⟩
  · obtain ⟨rfl, hw⟩ := hs
    exact ⟨.ok (), s, rfl, rfl, hw⟩

theorem World.Holds.newValueOf {message : String} (h : b.Holds q r y) :
    b.newValueOf r (some q) message = .ok y := by
  rw [World.newValueOf, h.valueOf]

theorem setProperty_spec (hp : b.Holds p r x) (hq : b.Holds q r y) (name : String) :
    Runs (On r b l L) (setProperty (some p) name (some q))
      (fun _ s => x.isObject = true ∧ l.Sets x (.ofName name) y ∧ On r b (l.afterSet x (.ofName name) y) L s)
      (fun e s => (x.isObject = false ∧ e = .dynamic "JavaScript value is not an object" ∧ On r b l L s) ∨
        x.isObject = true ∧ ¬ l.Sets x (.ofName name) y ∧
          e = .dynamic "failed to write JavaScript property" ∧ On r b (l.afterSet x (.ofName name) y) L s) := by
  refine Runs.bind (valueHasProperties_spec hp) fun ok => Runs.lift fun hok => ?_
  subst hok
  have hcall := jsValueSetProperty_spec (l := l) (L := L) hp hq.nullOrLive (mallocCString name)
  rw [hq.newValueOf] at hcall
  cases hobj : x.isObject with
  | false => exact (Runs.raise _).pre fun s hs => .inl ⟨rfl, rfl, hs⟩
  | true =>
    exact Runs.post (writeStatus_spec _ hcall) (fun _ s h => ⟨rfl, h⟩) fun e s h => .inr ⟨rfl, h⟩

end Write

/-- How a write ended in the state `s'`. -/
def Stored (r : Nat) (l : Loc P) (x : JSVal) (key : PropKey) (y : JSVal) (s' : Store P)
    (res : Except Exn Unit) : Prop :=
  (x.isObject = true ∧ l.Sets x key y ∧ res = .ok () ∧ Ready r (l.afterSet x key y) s') ∨
  (x.isObject = true ∧ ¬ l.Sets x key y ∧ res = .error (.dynamic "failed to write JavaScript property") ∧
    Ready r (l.afterSet x key y) s') ∨
  x.isObject = false ∧ res = .error (.dynamic "JavaScript value is not an object") ∧ Ready r l s'

section Write

variable {ref : JSValueRef} {x y : JSVal} {v : Any}

theorem memberUpdate_run (h : Ready r l s) (ho : ref.Denotes s.world r x) (name : String)
    (hv : v.Passes s.world r l y l') :
    ∃ res s', (JSRuntime.memberUpdate (some r) (.value ref) name v).exec.run s = .ok (res, s') ∧
      s.Extends s' ∧ Stored r l' x (.ofName name) y s' res := by
  obtain ⟨value, s₁, hconv, hready, hext, hy⟩ := toJSValue_run h hv
  obtain ⟨p, hp, hx⟩ := ho
  obtain ⟨q, hq, hy⟩ := hy
  obtain ⟨L, hs₁⟩ := hready.on
  obtain ⟨res, s₂, hset, hpost⟩ := (setProperty_spec (hx.mono hext) hy name).run hs₁
  have hrun : (JSRuntime.memberUpdate (some r) (.value ref) name v).exec.run s = .ok (res, s₂) := by
    refine (Prog.exec_bind_of hconv).trans ?_
    rw [← hp, ← hq] at hset
    exact hset
  refine ⟨res, s₂, hrun, ?_⟩
  obtain ⟨_, rfl, hobj, hsets, hw⟩ | ⟨e, rfl, ⟨hobj, rfl, hw⟩ | ⟨hobj, hsets, rfl, hw⟩⟩ := hpost
  · obtain ⟨hready', hext'⟩ := hready.run hw
    exact ⟨hext.trans hext', .inl ⟨hobj, hsets, rfl, hready'⟩⟩
  · obtain ⟨hready', hext'⟩ := hready.run hw
    exact ⟨hext.trans hext', .inr (.inr ⟨hobj, rfl, hready'⟩)⟩
  · obtain ⟨hready', hext'⟩ := hready.run hw
    exact ⟨hext.trans hext', .inr (.inl ⟨hobj, hsets, rfl, hready'⟩)⟩

end Write

/-! ## Array elements -/

section Index

variable (l) (x : JSVal)

/-- `js_value_is_array` says that `x` is one: it also does when `JS_IsArray` throws. -/
def Loc.CountsAsArray : Prop := (P.isArray x l.heap).1.toOption ≠ some false

/-- The length that `js_value_array_length` gives after it, and the local state then. -/
def Loc.measured : Int × Loc P := (l.after (P.isArray x l.heap)).arrayLength x

/-- The bound check of `getIndex` and `setIndex`. -/
def Loc.InRange (index : Int) : Prop := 0 ≤ index ∧ index < (l.measured x).1

end Index

/-- The key of an element: `(uint32_t)index`. -/
def PropKey.ofElement (index : Int) : PropKey := .ofIndex (uint32 index).toNat

section Index

variable {p q : Nat} {x y : JSVal} {index : Int}

theorem valueIsArray_spec {err : Exn → Store P → Prop} (hp : b.Holds p r x) :
    Runs (On r b l L) (valueIsArray (some p))
      (fun ok s => (ok = true ↔ l.CountsAsArray x) ∧ On r b (l.after (P.isArray x l.heap)) L s) err := by
  refine Runs.call (jsValueIsArray_spec hp) fun n => Runs.lift fun hn => ?_
  refine (Runs.ret _).pre fun s hs => ⟨?_, hs⟩
  subst hn
  unfold Loc.CountsAsArray
  by_cases hfalse : (P.isArray x l.heap).1.toOption = some false <;> simp [hfalse]

/-- The exceptions of the checks of `getIndex` and `setIndex`. -/
def Loc.Unchecked (r : Nat) (b : World P) (L : Multiset Resource) (l : Loc P) (x : JSVal) (index : Int)
    (e : Exn) (w : World P) : Prop :=
  (¬ l.CountsAsArray x ∧ e = .dynamic "Expected JavaScript array" ∧
    Run r b (l.after (P.isArray x l.heap)) L w) ∨
  l.CountsAsArray x ∧ ¬ l.InRange x index ∧ e = .dynamic "JavaScript array index is out of range" ∧
    Run r b (l.measured x).2 L w

/-- The checks, with `access` after them. -/
theorem checkIndex_spec {α : Type} {access : Prog α} {ok : α → Store P → Prop} {err : Exn → Store P → Prop}
    (hp : b.Holds p r x) (herr : ∀ e s, Loc.Unchecked r b L l x index e s.world → err e s)
    (haccess : l.CountsAsArray x → l.InRange x index → Runs (On r b (l.measured x).2 L) access ok err) :
    Runs (On r b l L)
      (do if !(← valueIsArray (some p)) then
            .raise (.dynamic "Expected JavaScript array")
          else
            let length ← (Call.valueArrayLength (some p)).prog
            if index < 0 ∨ length ≤ index then
              .raise (.dynamic "JavaScript array index is out of range")
            else
              access) ok err := by
  refine Runs.bind (valueIsArray_spec hp) fun isArray => Runs.lift fun harray => ?_
  cases isArray with
  | false =>
    have hn : ¬ l.CountsAsArray x := fun h => by cases harray.mpr h
    exact (Runs.raise _).pre fun s hs => herr _ _ (.inl ⟨hn, rfl, hs⟩)
  | true =>
    have hcounts := harray.mp rfl
    refine Runs.call (jsValueArrayLength_spec hp) fun length => Runs.lift fun hlength => ?_
    subst hlength
    by_cases hrange : index < 0 ∨ (l.measured x).1 ≤ index
    · have hn : ¬ l.InRange x index := by
        unfold Loc.InRange
        omega
      show Runs _ (if index < 0 ∨ (l.measured x).1 ≤ index then _ else _) _ _
      rw [if_pos hrange]
      exact (Runs.raise _).pre fun s hs => herr _ _ (.inr ⟨hcounts, hn, rfl, hs⟩)
    · have hin : l.InRange x index := by
        unfold Loc.InRange
        omega
      show Runs _ (if index < 0 ∨ (l.measured x).1 ≤ index then _ else _) _ _
      rw [if_neg hrange]
      exact haccess hcounts hin

theorem getIndex_spec (hp : b.Holds p r x) (index : Int) :
    Runs (On r b l L) (getIndex (some p) index)
      (fun q s => l.CountsAsArray x ∧ l.InRange x index ∧
        Loc.Reading r b L (l.measured x).2 x (.ofElement index) q s.world)
      (fun e s => Loc.Unchecked r b L l x index e s.world ∨ l.CountsAsArray x ∧ l.InRange x index ∧
        ¬ (l.measured x).2.Gets x (.ofElement index) ∧ e = .dynamic "failed to read JavaScript array index" ∧
          On r b ((l.measured x).2.getTried x (.ofElement index)) L s) := by
  refine checkIndex_spec hp (fun e s h => .inl h) fun hcounts hin => ?_
  exact Runs.post (readHandle_spec _ (jsValueGetIndex_spec hp hin.1)) (fun q s h => ⟨hcounts, hin, h⟩)
    fun e s h => .inr ⟨hcounts, hin, h⟩

theorem setIndex_spec (hp : b.Holds p r x) (hq : b.Holds q r y) (index : Int) :
    Runs (On r b l L) (setIndex (some p) index (some q))
      (fun _ s => l.CountsAsArray x ∧ l.InRange x index ∧ (l.measured x).2.Sets x (.ofElement index) y ∧
        On r b ((l.measured x).2.afterSet x (.ofElement index) y) L s)
      (fun e s => Loc.Unchecked r b L l x index e s.world ∨ l.CountsAsArray x ∧ l.InRange x index ∧
        ¬ (l.measured x).2.Sets x (.ofElement index) y ∧
          e = .dynamic "failed to write JavaScript array index" ∧
          On r b ((l.measured x).2.afterSet x (.ofElement index) y) L s) := by
  refine checkIndex_spec hp (fun e s h => .inl h) fun hcounts hin => ?_
  have hcall := jsValueSetIndex_spec (l := (l.measured x).2) (L := L) hp hin.1 hq.nullOrLive
  rw [hq.newValueOf] at hcall
  exact Runs.post (writeStatus_spec _ hcall) (fun _ s h => ⟨hcounts, hin, h⟩)
    fun e s h => .inr ⟨hcounts, hin, h⟩

end Index

/-- A string index is a member: the two updates are one program. -/
theorem keyUpdate_eq (runtime : Ptr) (e : JSValueRef) (key : String) (v : Any) :
    JSRuntime.indexUpdate runtime (.value e) (.string key) v = JSRuntime.memberUpdate runtime (.value e) key v :=
  rfl

end InteropJs
