import InteropJs.Cangjie.Strings
import InteropJs.Cangjie.Methods

/-!
# Named properties as a store

`memberUpdate`, then `memberAccess` and string indexing, on an ordinary object.

* `OrdinaryObjects` is what is asked of the engine: a read of a data property gives the first own
  property along the prototype chain, if it returns, and a write that returns makes an own property of the
  object. `lookup` is the value of a read.
* A name reaches the engine as a C string, so that two names are one key when they are the same up to the
  first U+0000 (`ofName_eq_iff`).
* `StoreLaw` says that the written property is read back and that another one keeps its value.
  `storeLaw_iff` says when: the value is converted before it is written, and a `BigInt` of a script can
  change the object then.
-/

namespace InteropJs

open Hoare

variable {P : Platform} {r : Nat} {l l' : Loc P} {s s' s₁ : Store P}

/-! ## Keys -/

theorem ofName_eq_sentUnits (k : String) : PropKey.ofName k = sentUnits k := newStringUnits_mallocCString k

/-- Two names are one key when nothing differs before the first U+0000. -/
theorem ofName_eq_iff {k k' : String} :
    PropKey.ofName k = PropKey.ofName k' ↔ untilZero (Utf.points k) = untilZero (Utf.points k') := by
  rw [ofName_eq_sentUnits, ofName_eq_sentUnits]
  constructor
  · intro h
    have hdec := congrArg Utf.decode16 h
    rwa [sentUnits, sentUnits,
      Utf.decode16_encode16 fun c hc => Utf.points_isScalar k c (mem_of_mem_untilZero hc),
      Utf.decode16_encode16 fun c hc => Utf.points_isScalar k' c (mem_of_mem_untilZero hc)] at hdec
  · intro h
    rw [sentUnits, sentUnits, h]

/-! ## Ordinary objects -/

/-- The first own property along a chain of objects. -/
def firstOwn (own : JSVal → PropKey → Option JSVal) (chain : List JSVal) (key : PropKey) : JSVal :=
  (chain.findSome? fun z => own z key).getD .undefined

/-- The ordinary objects of an engine (module doc). -/
structure OrdinaryObjects (P : Platform) where
  /-- The own data properties. -/
  own : P.Heap → JSVal → PropKey → Option JSVal
  /-- The prototype of an object, its prototype, and so on. -/
  prototypes : P.Heap → JSVal → List JSVal
  /-- The object and its prototypes treat this key as ordinary objects do, and none of them has an accessor
  of this key. -/
  Plain : P.Heap → JSVal → PropKey → Prop
  get {h : P.Heap} {x v : JSVal} {key : PropKey} (plain : Plain h x key)
    (read : (P.getProperty x key h).1 = .ok v) : v = firstOwn (own h) (x :: prototypes h x) key
  set_own {h h' : P.Heap} {x y : JSVal} {key : PropKey} {done : Bool} (plain : Plain h x key)
    (set : P.setProperty x key y h = (.ok done, h')) : own h' x key = some y
  set_other {h h' : P.Heap} {x y z : JSVal} {key key' : PropKey} {done : Bool} (plain : Plain h x key)
    (set : P.setProperty x key y h = (.ok done, h')) (other : key' ≠ key) : own h' z key' = own h z key'
  set_prototypes {h h' : P.Heap} {x y z : JSVal} {key : PropKey} {done : Bool} (plain : Plain h x key)
    (set : P.setProperty x key y h = (.ok done, h')) : prototypes h' z = prototypes h z
  set_plain {h h' : P.Heap} {x y z : JSVal} {key key' : PropKey} {done : Bool} (plain : Plain h x key)
    (set : P.setProperty x key y h = (.ok done, h')) (before : Plain h z key') : Plain h' z key'

namespace OrdinaryObjects

variable (E : OrdinaryObjects P)

/-- The value of a read. -/
def lookup (h : P.Heap) (x : JSVal) (key : PropKey) : JSVal := firstOwn (E.own h) (x :: E.prototypes h x) key

variable {E} {h h' : P.Heap} {x y : JSVal} {key key' : PropKey} {done : Bool}

theorem lookup_set_self (hplain : E.Plain h x key) (hset : P.setProperty x key y h = (.ok done, h')) :
    E.lookup h' x key = y := by
  unfold lookup firstOwn
  rw [List.findSome?_cons, E.set_own hplain hset]
  rfl

theorem lookup_set_other (hplain : E.Plain h x key) (hset : P.setProperty x key y h = (.ok done, h'))
    (hne : key' ≠ key) : E.lookup h' x key' = E.lookup h x key' := by
  have hown : (fun z => E.own h' z key') = fun z => E.own h z key' := by
    funext z
    exact E.set_other hplain hset hne
  unfold lookup firstOwn
  rw [hown, E.set_prototypes hplain hset]

end OrdinaryObjects

/-! ## Reads -/

/-- The read `p` returns a value that denotes `z`. -/
def Yields (r : Nat) (s : Store P) (p : Prog Payload) (z : JSVal) : Prop :=
  ∃ e s', p.exec.run s = .ok (.ok e, s') ∧ e.shown s'.world r = some z

section Read

variable {o : JSValueRef} {x z : JSVal}

/-- A read has the value that the engine gives, and needs memory for the handle. -/
theorem Fetched.value {key : PropKey} {wrap : JSVal → JSValueRef → Payload} {res : Except Exn Payload}
    (h : Fetched r l x key wrap s' res) (hobj : x.isObject = true)
    (hwrap : ∀ y ref, Payload.shown s'.world r (wrap y ref) = s'.world.valueOf r ref.handle) :
    (∃ value, ((P.malloc l.host).1 = true ∧ (P.getProperty x key l.heap).1 = .ok value) ∧
      ∃ e, res = .ok e ∧ e.shown s'.world r = some value) ∨
    (∀ value, ¬ ((P.malloc l.host).1 = true ∧ (P.getProperty x key l.heap).1 = .ok value)) ∧
      ∃ e, res = .error e := by
  have hgets : l.Gets x key ↔ ∃ value, (P.malloc l.host).1 = true ∧ (P.getProperty x key l.heap).1 = .ok value := by
    unfold Loc.Gets Loc.delivers Loc.got Loc.afterGet
    rcases P.getProperty x key l.heap with ⟨e | v, h'⟩ <;> simp [Loc.clearError, Except.toOption]
  obtain ⟨ref, y, -, hy, hg, rfl, href, -⟩ | ⟨-, hg, rfl, -⟩ | ⟨hn, -⟩ := h
  · obtain ⟨value, hmem, hget⟩ := hgets.mp hg
    rw [Loc.got, hget] at hy
    cases hy
    refine .inl ⟨y, ⟨hmem, hget⟩, _, rfl, ?_⟩
    rw [hwrap, href.valueOf]
  · exact .inr ⟨fun value hvalue => hg (hgets.mpr ⟨value, hvalue⟩), _, rfl⟩
  · rw [hobj] at hn
    cases hn

/-- What a read yields that returns a value exactly when `φ` holds of it. -/
theorem yields_iff {p : Prog Payload} {res : Except Exn Payload} {φ : JSVal → Prop}
    (hφ : ∀ u v, φ u → φ v → u = v) (hrun : p.exec.run s = .ok (res, s'))
    (h : (∃ value, φ value ∧ ∃ e, res = .ok e ∧ e.shown s'.world r = some value) ∨
      (∀ value, ¬ φ value) ∧ ∃ e, res = .error e) :
    Yields r s p z ↔ φ z := by
  obtain ⟨value, hvalue, e, rfl, he⟩ | ⟨hno, e, rfl⟩ := h
  · constructor
    · rintro ⟨e', s'', hrun', he'⟩
      rw [hrun] at hrun'
      cases hrun'
      rw [he] at he'
      cases he'
      exact hvalue
    · intro hz
      obtain rfl := hφ _ _ hz hvalue
      exact ⟨e, s', hrun, he⟩
  · constructor
    · rintro ⟨e', s'', hrun', -⟩
      rw [hrun] at hrun'
      cases hrun'
    · exact fun hz => absurd hz (hno z)

theorem read_unique {key : PropKey} (u v : JSVal)
    (hu : (P.malloc l.host).1 = true ∧ (P.getProperty x key l.heap).1 = .ok u)
    (hv : (P.malloc l.host).1 = true ∧ (P.getProperty x key l.heap).1 = .ok v) : u = v :=
  Except.ok.inj (hu.2.symm.trans hv.2)

theorem memberAccess_yields (h : Ready r l s) (ho : o.Denotes s.world r x) (hobj : x.isObject = true)
    (k : String) : Yields r s (JSRuntime.memberAccess (.value o) k) z ↔
      (P.malloc l.host).1 = true ∧ (P.getProperty x (.ofName k) l.heap).1 = .ok z := by
  obtain ⟨res, s', hrun, -, hfetched⟩ := memberAccess_run h ho k
  refine yields_iff read_unique hrun (hfetched.value hobj fun y ref => ?_)
  unfold member
  split <;> rfl

theorem keyAccess_yields (h : Ready r l s) (ho : o.Denotes s.world r x) (hobj : x.isObject = true)
    (k : String) : Yields r s (JSRuntime.indexAccess (.value o) (.string k)) z ↔
      (P.malloc l.host).1 = true ∧ (P.getProperty x (.ofName k) l.heap).1 = .ok z := by
  obtain ⟨res, s', hrun, -, hfetched⟩ := keyAccess_run h ho k
  exact yields_iff read_unique hrun (hfetched.value hobj fun y ref => rfl)

end Read

/-! ## The law -/

/-- After the property `k` was written with `y`, both ways to read it give `y`, and the property `k'` is
read as it was before. -/
def StoreLaw (r : Nat) (s s₁ : Store P) (o : JSValueRef) (k k' : String) (y : JSVal) : Prop :=
  Yields r s₁ (JSRuntime.memberAccess (.value o) k) y ∧
    Yields r s₁ (JSRuntime.indexAccess (.value o) (.string k)) y ∧
    ∃ z, Yields r s (JSRuntime.memberAccess (.value o) k') z ∧
      Yields r s₁ (JSRuntime.memberAccess (.value o) k') z

/-- The engine gives a value for the property: it throws nothing and lacks no memory. -/
def Platform.Gives (P : Platform) (x : JSVal) (k : String) (h : P.Heap) : Prop :=
  ∃ v, (P.getProperty x (.ofName k) h).1 = .ok v

/-- The heap after `JS_SetProperty`. -/
def Platform.written (P : Platform) (x : JSVal) (k : String) (y : JSVal) (h : P.Heap) : P.Heap :=
  (P.setProperty x (.ofName k) y h).2

/-- When the law holds for a write of `y`, whose conversion took the local state from `l` to `l'`. The
handles and the properties that are read have memory, and either

* the conversion left the object plain for both names; and the names differ before the first U+0000 and the
  conversion left the property `k'`, or the property was `y` before; or
* the conversion did not, and the engine gives `y` for `k` and the earlier value for `k'` all the same. -/
def OrdinaryObjects.Separates (E : OrdinaryObjects P) (l l' : Loc P) (x : JSVal) (k k' : String)
    (y : JSVal) : Prop :=
  ((P.malloc l.host).1 = true ∧ (P.malloc l'.host).1 = true) ∧ P.Gives x k' l.heap ∧
    P.Gives x k (P.written x k y l'.heap) ∧ P.Gives x k' (P.written x k y l'.heap) ∧
    ((E.Plain l'.heap x (.ofName k) ∧ E.Plain l'.heap x (.ofName k') ∧
      if untilZero (Utf.points k) = untilZero (Utf.points k') then
        y = E.lookup l.heap x (.ofName k')
      else
        E.lookup l'.heap x (.ofName k') = E.lookup l.heap x (.ofName k')) ∨
    ¬ (E.Plain l'.heap x (.ofName k) ∧ E.Plain l'.heap x (.ofName k')) ∧
      (P.getProperty x (.ofName k) (P.written x k y l'.heap)).1 = .ok y ∧
      (P.getProperty x (.ofName k') (P.written x k y l'.heap)).1 =
        .ok (E.lookup l.heap x (.ofName k')))

section Law

variable {E : OrdinaryObjects P} {o : JSValueRef} {x y : JSVal} {v : Any} {k k' : String}

/-- What a write that returned has done. -/
theorem memberUpdate_returned (h : Ready r l s) (ho : o.Denotes s.world r x)
    (hv : v.Passes s.world r l y l')
    (hrun : (JSRuntime.memberUpdate (some r) (.value o) k v).exec.run s = .ok (.ok (), s₁)) :
    x.isObject = true ∧ o.Denotes s₁.world r x ∧ ∃ done h', P.setProperty x (.ofName k) y l'.heap = (.ok done, h') ∧
      Ready r { l'.clearError with heap := h' } s₁ := by
  obtain ⟨res, s', hrun', hext, hstored⟩ := memberUpdate_run h ho k hv
  rw [hrun] at hrun'
  cases hrun'
  obtain ⟨hobj, hsets, -, hready⟩ | ⟨-, -, hres, -⟩ | ⟨-, hres, -⟩ := hstored
  · refine ⟨hobj, ho.mono hext, ?_⟩
    unfold Loc.Sets at hsets
    unfold Loc.afterSet at hready
    rcases hset : P.setProperty x (.ofName k) y l'.heap with ⟨e | done, h'⟩ <;> rw [hset] at hsets hready
    · cases hsets
    · exact ⟨done, h', rfl, hready⟩
  · cases hres
  · cases hres

/-- The law by the answers of the engine to the reads. -/
theorem storeLaw_answers (h : Ready r l s) (ho : o.Denotes s.world r x) (hv : v.Passes s.world r l y l')
    (hrun : (JSRuntime.memberUpdate (some r) (.value o) k v).exec.run s = .ok (.ok (), s₁)) :
    StoreLaw r s s₁ o k k' y ↔ ((P.malloc l.host).1 = true ∧ (P.malloc l'.host).1 = true) ∧
      (P.getProperty x (.ofName k) (P.written x k y l'.heap)).1 = .ok y ∧
      ∃ z, (P.getProperty x (.ofName k') l.heap).1 = .ok z ∧
        (P.getProperty x (.ofName k') (P.written x k y l'.heap)).1 = .ok z := by
  obtain ⟨hobj, ho₁, done, h', hset, h₁⟩ := memberUpdate_returned h ho hv hrun
  have hwritten : P.written x k y l'.heap = h' := by rw [Platform.written, hset]
  have hread (k : String) (z : JSVal) := memberAccess_yields (z := z) h₁ ho₁ hobj k
  have hindex (z : JSVal) := keyAccess_yields (z := z) h₁ ho₁ hobj k
  have hearlier (z : JSVal) := memberAccess_yields (z := z) h ho hobj k'
  rw [hwritten]
  unfold StoreLaw
  simp only [hread, hindex, hearlier]
  constructor
  · rintro ⟨⟨hm', hk⟩, -, z, ⟨hm, hz⟩, -, hz'⟩
    exact ⟨⟨hm, hm'⟩, hk, z, hz, hz'⟩
  · rintro ⟨⟨hm, hm'⟩, hk, z, hz, hz'⟩
    exact ⟨⟨hm', hk⟩, ⟨hm', hk⟩, z, ⟨hm, hz⟩, hm', hz'⟩

/-- What is read after a write to an object that is plain for both names. -/
theorem lookups_written (hk : E.Plain l'.heap x (.ofName k))
    {done : Bool} {h' : P.Heap} (hset : P.setProperty x (.ofName k) y l'.heap = (.ok done, h')) :
    E.lookup h' x (.ofName k) = y ∧ E.lookup h' x (.ofName k') =
      if untilZero (Utf.points k) = untilZero (Utf.points k') then y
      else E.lookup l'.heap x (.ofName k') := by
  have hself : E.lookup h' x (.ofName k) = y := OrdinaryObjects.lookup_set_self hk hset
  refine ⟨hself, ?_⟩
  by_cases hkey : untilZero (Utf.points k) = untilZero (Utf.points k')
  · rw [if_pos hkey, ← ofName_eq_iff.mpr hkey, hself]
  · rw [if_neg hkey]
    exact OrdinaryObjects.lookup_set_other hk hset fun heq => hkey (ofName_eq_iff.mp heq.symm)

/-- The store law of named properties, for every state, every two names and every value. -/
theorem storeLaw_iff (h : Ready r l s) (ho : o.Denotes s.world r x) (hv : v.Passes s.world r l y l')
    (hbefore : E.Plain l.heap x (.ofName k'))
    (hrun : (JSRuntime.memberUpdate (some r) (.value o) k v).exec.run s = .ok (.ok (), s₁)) :
    StoreLaw r s s₁ o k k' y ↔ E.Separates l l' x k k' y := by
  rw [storeLaw_answers h ho hv hrun]
  obtain ⟨-, -, done, h', hset, -⟩ := memberUpdate_returned h ho hv hrun
  have hwritten : P.written x k y l'.heap = h' := by rw [Platform.written, hset]
  unfold OrdinaryObjects.Separates Platform.Gives
  rw [hwritten]
  refine and_congr_right fun _ => ?_
  have hearlier (z : JSVal) (hz : (P.getProperty x (.ofName k') l.heap).1 = .ok z) :
      z = E.lookup l.heap x (.ofName k') := E.get hbefore hz
  by_cases hplain : E.Plain l'.heap x (.ofName k) ∧ E.Plain l'.heap x (.ofName k')
  · -- the object is plain when it is written
    obtain ⟨hk, hk'⟩ := hplain
    obtain ⟨hself, hother⟩ := lookups_written (E := E) hk hset
    have hread {z : JSVal} (hz : (P.getProperty x (.ofName k) h').1 = .ok z) : z = y :=
      (E.get (E.set_plain hk hset hk) hz).trans hself
    have hread' {z : JSVal} (hz : (P.getProperty x (.ofName k') h').1 = .ok z) :=
      (E.get (E.set_plain hk hset hk') hz).trans hother
    constructor
    · rintro ⟨hy, z, hz, hz'⟩
      refine ⟨⟨z, hz⟩, ⟨y, hy⟩, ⟨z, hz'⟩, .inl ⟨hk, hk', ?_⟩⟩
      have hsame := (hearlier z hz).symm.trans (hread' hz')
      split <;> rename_i hkey
      · rw [hsame, if_pos hkey]
      · rw [hsame, if_neg hkey]
    · rintro ⟨⟨z, hz⟩, ⟨u, hu⟩, ⟨z', hz'⟩, ⟨-, -, hcond⟩ | ⟨hno, -⟩⟩
      · obtain rfl := hread hu
        have heq : z' = z := by
          rw [hread' hz', hearlier z hz]
          split <;> rename_i hkey
          · rwa [if_pos hkey] at hcond
          · rwa [if_neg hkey] at hcond
        exact ⟨hu, z, hz, heq ▸ hz'⟩
      · exact absurd ⟨hk, hk'⟩ hno
  · constructor
    · rintro ⟨hy, z, hz, hz'⟩
      refine ⟨⟨z, hz⟩, ⟨y, hy⟩, ⟨z, hz'⟩, .inr ⟨hplain, hy, ?_⟩⟩
      rwa [← hearlier z hz]
    · rintro ⟨⟨z, hz⟩, -, -, ⟨hk, hk', -⟩ | ⟨-, hy, hz'⟩⟩
      · exact absurd ⟨hk, hk'⟩ hplain
      · exact ⟨hy, z, hz, by rwa [hearlier z hz]⟩

/-- The store law, for updates by name and by string index. -/
theorem named_properties_store (h : Ready r l s) (ho : o.Denotes s.world r x)
    (hv : v.Passes s.world r l y l') (hbefore : E.Plain l.heap x (.ofName k'))
    (hrun : (JSRuntime.memberUpdate (some r) (.value o) k v).exec.run s = .ok (.ok (), s₁) ∨
      (JSRuntime.indexUpdate (some r) (.value o) (.string k) v).exec.run s = .ok (.ok (), s₁)) :
    StoreLaw r s s₁ o k k' y ↔ E.Separates l l' x k k' y := by
  obtain hrun | hrun := hrun
  · exact storeLaw_iff h ho hv hbefore hrun
  · exact storeLaw_iff h ho hv hbefore hrun

end Law

/-! ## A small engine -/

/-- An engine whose heap holds the own properties of objects without prototypes. -/
def storePlatform : Platform :=
  { Platform.idle (JSVal → PropKey → Option JSVal) (fun _ _ => none) with
    getProperty := fun x key h => (.ok (firstOwn h [x] key), h)
    setProperty := fun x key y h => (.ok true, fun z key' => if z = x ∧ key' = key then some y else h z key') }

def storeObjects : OrdinaryObjects storePlatform where
  own h := h
  prototypes _ _ := []
  Plain _ _ _ := True
  get _ read := (Except.ok.inj read).symm
  set_own _ set := by
    cases set
    simp
  set_other _ set other := by
    cases set
    simp [other]
  set_prototypes _ _ := rfl
  set_plain _ _ _ := trivial

/-- A state with the empty object. -/
def storeState : Store storePlatform := Store.sample _ () (fun _ _ => none) (.object 0)

def storeLoc : Loc storePlatform := Loc.sample () fun _ _ => none

theorem storeState_ready : Ready 0 storeLoc storeState := sample_ready _ _ _ _

theorem storeState_denotes :
    JSValueRef.Denotes (P := storePlatform) ⟨0, some 0⟩ storeState.world 0 (.object 0) :=
  ⟨0, rfl, sample_holds _ _ _ _⟩

theorem storeState_passes :
    (Any.bool true).Passes storeState.world 0 storeLoc (.bool true) (storeLoc.converted (.bool true)).2.kept :=
  ⟨trivial, rfl⟩

/-- `o.a = true` returns. -/
theorem storeState_writes : ∃ s₁,
    (JSRuntime.memberUpdate (some 0) (.value ⟨0, some 0⟩) "a" (.bool true)).exec.run storeState =
      .ok (.ok (), s₁) := by
  obtain ⟨res, s₁, hrun, -, hstored⟩ := memberUpdate_run storeState_ready storeState_denotes "a" storeState_passes
  obtain ⟨-, -, rfl, -⟩ | ⟨-, hn, -⟩ | ⟨hn, -⟩ := hstored
  · exact ⟨s₁, hrun⟩
  · exact absurd rfl hn
  · cases hn

theorem named_properties_store_two : ∃ s₁,
    (JSRuntime.memberUpdate (some 0) (.value ⟨0, some 0⟩) "a" (.bool true)).exec.run storeState =
      .ok (.ok (), s₁) ∧ StoreLaw 0 storeState s₁ ⟨0, some 0⟩ "a" "b" (.bool true) := by
  obtain ⟨s₁, hrun⟩ := storeState_writes
  refine ⟨s₁, hrun, (named_properties_store (E := storeObjects) storeState_ready storeState_denotes
    storeState_passes trivial (.inl hrun)).mpr
      ⟨⟨rfl, rfl⟩, ⟨_, rfl⟩, ⟨_, rfl⟩, ⟨_, rfl⟩, .inl ⟨trivial, trivial, ?_⟩⟩⟩
  rw [if_neg (by decide)]
  rfl

/-- `o["a"] = true` also writes the property that is asked for as `"a\0b"`. -/
theorem names_are_cut : ¬ ∀ (P : Platform) (E : OrdinaryObjects P) (r : Nat) (l l' : Loc P) (s s₁ : Store P)
    (o : JSValueRef) (x y : JSVal) (v : Any) (k k' : String), Ready r l s → o.Denotes s.world r x →
    v.Passes s.world r l y l' → E.Plain l.heap x (.ofName k) → E.Plain l.heap x (.ofName k') → k ≠ k' →
    (JSRuntime.memberUpdate (some r) (.value o) k v).exec.run s = .ok (.ok (), s₁) →
    StoreLaw r s s₁ o k k' y := by
  intro hall
  obtain ⟨s₁, hrun⟩ := storeState_writes
  have hlaw := hall _ storeObjects _ _ _ _ s₁ _ _ _ _ "a" "a\x00b" storeState_ready storeState_denotes
    storeState_passes trivial trivial (by decide) hrun
  obtain ⟨-, -, -, -, ⟨-, -, hcut⟩ | ⟨hno, -⟩⟩ := (storeLaw_iff (E := storeObjects) storeState_ready
    storeState_denotes storeState_passes trivial hrun).mp hlaw
  · rw [if_pos (by decide)] at hcut
    cases hcut
  · exact hno ⟨trivial, trivial⟩

end InteropJs
