import InteropJs.Cangjie.Integers
import InteropJs.Cangjie.NamedStore

/-!
# Arrays as a bounds-checked store

`indexUpdate` and `indexAccess` with an integer index, on a genuine array.

* `ArrayObjects` is what is asked of the engine besides `OrdinaryObjects`: what `JS_IsArray` and `length`
  say of an array, that it stays one, and that a write below the length of a genuine one keeps the length. It
  throws if it comes to a hole under a read-only property of a prototype (`Blocked`).
* The index goes from its Cangjie type through `Int64` to `uint32_t`, and the length from a double to
  `int64_t`; both are exact below the length (`uint32_of_lt`, `castInt64_length`). The key of an index is
  that of its decimal text (`ofName_toString`).
* `ArrayLaw` is the law of the store, and `arrayLaw_iff` says when it holds: the value that is written is
  converted first, and for the wide integers the conversion calls the global `BigInt`, which a script may
  have replaced with a function that changes the array. `Answers` is the law in the answers of the engine.
-/

namespace InteropJs

open Hoare

variable {P : Platform} {r : Nat} {l l' : Loc P} {s s' s₁ : Store P}

/-! ## Numbers -/

/-- `(uint32_t)index` is exact below an array length. -/
theorem uint32_of_lt {i : Int} {n : Nat} (h0 : 0 ≤ i) (hi : i < n) (hn : n ≤ 2 ^ 32 - 1) :
    (uint32 i).toNat = i.toNat := by
  have hlt : i < 2 ^ 32 := by omega
  have hmod : i % 2 ^ 32 = i := Int.emod_eq_of_lt h0 hlt
  have hnat : i.toNat < 2 ^ 32 := by omega
  unfold uint32
  rw [hmod, UInt32.toNat_ofNat_of_lt' hnat]

/-- `(int64_t)length` is exact. -/
theorem castInt64_length (P : Platform) {n : Nat} (hn : n ≤ 2 ^ 32 - 1) :
    P.castInt64 (.finite n) = n := by
  have hnum : ((n : Rat).num.tdiv (n : Rat).den) = n := by simp
  have hrange : -2 ^ 63 ≤ (n : Int) ∧ (n : Int) < 2 ^ 63 := by omega
  simp only [Platform.castInt64, hnum, if_pos hrange]

/-- The UTF-16 form of digits. -/
theorem encode16_digits {cs : List Char} (h : ∀ c ∈ cs, c.isDigit = true) :
    Utf.encode16 (cs.map Char.toNat) = cs.map fun c => UInt16.ofNat c.toNat := by
  induction cs with
  | nil => rfl
  | cons c cs ih =>
    have hdigit := h c (by simp)
    have hlt : c.toNat < 0x10000 := by
      simp only [Char.isDigit, Bool.and_eq_true, decide_eq_true_eq] at hdigit
      have hle : c.val.toNat ≤ 57 := hdigit.2
      have : c.toNat = c.val.toNat := rfl
      omega
    rw [List.map_cons, List.map_cons, Utf.encode16_cons, ih fun d hd => h d (by simp [hd]), Utf.units,
      if_pos hlt]
    rfl

/-- The key of an index is that of its decimal text. -/
theorem ofName_toString (i : Nat) : PropKey.ofName (toString (i : Int)) = PropKey.ofIndex i := by
  have hlist : (toString (i : Int)).toList = Nat.toDigits 10 i := by
    rw [Int.toString_eq_repr, Int.repr_eq_if, if_pos (by omega)]
    simp [Nat.toList_repr]
  rw [ofName_eq_sentUnits, sentUnits_toString, decimal, Utf.points, hlist]
  exact encode16_digits fun c hc => Nat.isDigit_of_mem_toDigits (by decide) (by decide) hc

theorem ofIndex_injective {i j : Nat} (h : PropKey.ofIndex i = PropKey.ofIndex j) : i = j := by
  rw [← ofName_toString, ← ofName_toString, ofName_eq_iff,
    untilZero_eq_iff.mpr (zero_notMem_toString _), untilZero_eq_iff.mpr (zero_notMem_toString _)] at h
  have hparse := congrArg parseBigInt (Utf.points_injective h)
  rw [parseBigInt_toString, parseBigInt_toString] at hparse
  cases hparse
  rfl

/-! ## Genuine arrays -/

/-- The arrays of an engine (module doc). -/
structure ArrayObjects (P : Platform) extends OrdinaryObjects P where
  /-- The object is an array, and no Proxy. -/
  IsArray : P.Heap → JSVal → Prop
  size : P.Heap → JSVal → Nat
  /-- An array that is extensible, whose elements are writable data properties, and whose prototypes have no
  indexed accessor. -/
  Genuine : P.Heap → JSVal → Prop
  /-- The array has a hole at the index, and a prototype has a read-only property of it. -/
  Blocked : P.Heap → JSVal → Nat → Prop
  object {h : P.Heap} {x : JSVal} (array : IsArray h x) : x.isObject = true
  size_le {h : P.Heap} {x : JSVal} (array : IsArray h x) : size h x ≤ 2 ^ 32 - 1
  isArray {h : P.Heap} {x : JSVal} (array : IsArray h x) : P.isArray x h = (.ok true, h)
  length {h : P.Heap} {x : JSVal} (array : IsArray h x) :
    P.getProperty x (.ofName "length") h = (.ok (.number (.finite (size h x))), h)
  /-- An array stays one, whatever runs. -/
  stays_string {h : P.Heap} {x : JSVal} (us : List UInt16) (array : IsArray h x) :
    IsArray (P.newString us h).2 x
  stays_get {h : P.Heap} {x : JSVal} (y : JSVal) (key : PropKey) (array : IsArray h x) :
    IsArray (P.getProperty y key h).2 x
  stays_call {h : P.Heap} {x : JSVal} (f this : JSVal) (argv : List JSVal) (array : IsArray h x) :
    IsArray (P.call f this argv h).2 x
  stays_set {h : P.Heap} {x : JSVal} (y : JSVal) (key : PropKey) (z : JSVal) (array : IsArray h x) :
    IsArray (P.setProperty y key z h).2 x
  stays_text {h : P.Heap} {x : JSVal} (y : JSVal) (array : IsArray h x) : IsArray (P.textHeap y h) x
  array {h : P.Heap} {x : JSVal} (genuine : Genuine h x) : IsArray h x
  plain {h : P.Heap} {x : JSVal} {i : Nat} (genuine : Genuine h x) (hi : i < size h x) :
    Plain h x (.ofIndex i)
  /-- There is memory for the read. -/
  read {h : P.Heap} {x : JSVal} {i : Nat} (genuine : Genuine h x) (hi : i < size h x) :
    ∃ v, (P.getProperty x (.ofIndex i) h).1 = .ok v
  set {h : P.Heap} {x : JSVal} {i : Nat} (y : JSVal) (genuine : Genuine h x) (hi : i < size h x) :
    (∃ done h', P.setProperty x (.ofIndex i) y h = (.ok done, h')) ↔ ¬ Blocked h x i
  set_genuine {h h' : P.Heap} {x y : JSVal} {i : Nat} {done : Bool} (genuine : Genuine h x)
    (hi : i < size h x) (written : P.setProperty x (.ofIndex i) y h = (.ok done, h')) :
    Genuine h' x ∧ size h' x = size h x

/-- An index of an accepted type. -/
structure Index where
  type : IntType
  val : type.Val
  accepted : type ≠ .uint64

def Index.any (i : Index) : Any := .int i.type i.val

/-- The index as the key of an element. -/
def Index.key (i : Index) : PropKey := .ofIndex i.val.val.toNat

/-- `i` is an index of an array of length `n`. -/
def Index.Within (i : Index) (n : Nat) : Prop := 0 ≤ i.val.val ∧ i.val.val < n

instance (i : Index) (n : Nat) : Decidable (i.Within n) := inferInstanceAs (Decidable (_ ∧ _))

theorem Index.Within.lt {i : Index} {n : Nat} (h : i.Within n) : i.val.val.toNat < n := by
  obtain ⟨h0, hi⟩ := h
  omega

theorem jsIndex_any (i : Index) : jsIndex i.any = .ret i.val.val := by
  obtain ⟨t, v, ht⟩ := i
  cases t
  case uint64 => exact absurd rfl ht
  all_goals rfl

namespace ArrayObjects

variable (A : ArrayObjects P)

/-- The element at `i`. -/
def element (h : P.Heap) (x : JSVal) (i : Nat) : JSVal := A.lookup h x (.ofIndex i)

/-- What the bridge makes of a write of `y` at `i`: whether it returns, and the heap that it leaves, with
the text of an error. -/
def update (x : JSVal) (i : Index) (y : JSVal) (h : P.Heap) : Bool × P.Heap :=
  if i.Within (A.size h x) then
    match P.setProperty x i.key y h with
    | (.ok _, h) => (true, h)
    | (.error e, h) => (false, P.textHeap e h)
  else
    (false, h)

variable {A} {h h' : P.Heap} {x y : JSVal} {i : Index} {j : Nat} {done : Bool}

theorem update_array (hx : A.IsArray h x) (i : Index) (y : JSVal) : A.IsArray (A.update x i y h).2 x := by
  unfold update
  split
  · have hset := A.stays_set x i.key y hx
    rcases hout : P.setProperty x i.key y h with ⟨e | d, h'⟩ <;> rw [hout] at hset
    · exact A.stays_text e hset
    · exact hset
  · exact hx

/-- A read below the length gives the element. -/
theorem read_element (hx : A.Genuine h x) (hj : j < A.size h x) :
    (P.getProperty x (.ofIndex j) h).1 = .ok (A.element h x j) := by
  obtain ⟨v, hv⟩ := A.read hx hj
  rw [hv, A.get (A.plain hx hj) hv]
  rfl

theorem element_set_self (hx : A.Genuine h x) (hi : i.Within (A.size h x))
    (hset : P.setProperty x i.key y h = (.ok done, h')) : A.element h' x i.val.val.toNat = y :=
  OrdinaryObjects.lookup_set_self (A.plain hx hi.lt) hset

theorem element_set_other (hx : A.Genuine h x) (hi : i.Within (A.size h x))
    (hset : P.setProperty x i.key y h = (.ok done, h')) (hne : (j : Int) ≠ i.val.val) :
    A.element h' x j = A.element h x j := by
  refine OrdinaryObjects.lookup_set_other (A.plain hx hi.lt) hset fun heq => hne ?_
  have hkey : j = i.val.val.toNat := ofIndex_injective heq
  have h0 := hi.1
  omega

end ArrayObjects

/-! ## Accesses -/

section Access

variable {A : ArrayObjects P} {o : JSValueRef} {x y z : JSVal} {own : Ptr → Option JSVal} {v : Any}
  {res : Option JSVal}

/-- A value that is passed takes the heap along the steps of its conversion. -/
theorem pass_follows {R : P.Heap → P.Heap → Prop} (hrefl : ∀ h, R h h)
    (hconv : R l.heap (l.converted v).2.heap) (hpass : l.pass own v = some (res, l')) : R l.heap l'.heap := by
  have primitive (hp : l.pass own v = if (l.converted v).2.delivers (l.converted v).1 then
      some ((l.converted v).1, (l.converted v).2.kept) else none) : R l.heap l'.heap := by
    rw [hp] at hpass
    split at hpass
    · cases hpass
      exact hconv
    · cases hpass
  cases v with
  | externValue e =>
    cases e with
    | value ref =>
      cases hpass
      exact hrefl _
    | pointer p =>
      cases hpass
      exact hrefl _
    | method f g => cases hpass
    | other => cases hpass
  | pointer p =>
    cases hpass
    exact hrefl _
  | other => cases hpass
  | int t i => cases t <;> exact primitive rfl
  | bigInt i => exact primitive rfl
  | float t x => exact primitive rfl
  | bool b => exact primitive rfl
  | string str => exact primitive rfl

/-- The conversion of a value leaves an array an array. -/
theorem passes_array (hx : A.IsArray l.heap x) (hv : v.Passes s.world r l y l') : A.IsArray l'.heap x := by
  refine pass_follows (R := fun h h' => A.IsArray h x → A.IsArray h' x) (fun _ h => h) ?_ hv.2 hx
  exact converted_follows (R := fun h h' => A.IsArray h x → A.IsArray h' x) (fun _ h => h)
    (fun h₁ h₂ h => h₂ (h₁ h)) (A.stays_get _ _) (fun us _ => A.stays_string us)
    (fun us _ => A.stays_call _ _ _) v

/-- The checks of `getIndex` and `setIndex` see an array and its length. -/
theorem measured_isArray (hx : A.IsArray l.heap x) :
    l.CountsAsArray x ∧ l.measured x = ((A.size l.heap x : Int), l) := by
  constructor
  · unfold Loc.CountsAsArray
    rw [A.isArray hx]
    simp [Except.toOption]
  · unfold Loc.measured
    rw [A.isArray hx, Loc.after_ok]
    unfold Loc.arrayLength
    have hlength : P.getProperty x (.ofCString (utf8 "length")) l.heap =
        (.ok (.number (.finite (A.size l.heap x))), l.heap) := A.length hx
    rw [hlength]
    simp only [Platform.toNumber, castInt64_length P (A.size_le hx)]

/-- Below the length, an element has the key of its index. -/
theorem ofElement_eq {i : Index} (hx : A.IsArray l.heap x) (hi : i.Within (A.size l.heap x)) :
    PropKey.ofElement i.val.val = i.key := by
  rw [PropKey.ofElement, uint32_of_lt hi.1 hi.2 (A.size_le hx)]
  rfl

/-- How an integer index reads: what the engine gives below the length, or an exception. -/
theorem indexAccess_run (hmem : ∀ host, (P.malloc host).1 = true) (h : Ready r l s)
    (ho : o.Denotes s.world r x) (hx : A.IsArray l.heap x) (i : Index) :
    ∃ res s', (JSRuntime.indexAccess (.value o) i.any).exec.run s = .ok (res, s') ∧
      ((∃ z, (i.Within (A.size l.heap x) ∧ (P.getProperty x i.key l.heap).1 = .ok z) ∧
          ∃ e, res = .ok e ∧ e.shown s'.world r = some z) ∨
        (∀ z, ¬ (i.Within (A.size l.heap x) ∧ (P.getProperty x i.key l.heap).1 = .ok z)) ∧
          ∃ e, res = .error e) ∧
      (¬ i.Within (A.size l.heap x) → s'.heap r = s.heap r) := by
  obtain ⟨hcounts, hmeasured⟩ := measured_isArray hx
  obtain ⟨p, hp, hholds⟩ := ho
  obtain ⟨L, hs⟩ := h.on
  have hprog : JSRuntime.indexAccess (.value o) i.any =
      .touch [o] ((jsIndex i.any).bind fun i => (getIndex o.handle i).bind jsExtern) := rfl
  have hrange : l.InRange x i.val.val ↔ i.Within (A.size l.heap x) := by
    unfold Loc.InRange Index.Within
    rw [hmeasured]
  obtain ⟨res, s', hrun, hpost⟩ := (getIndex_spec hholds i.val.val).run hs
  rw [hmeasured] at hpost
  rw [hprog, jsIndex_any, hp]
  obtain ⟨q, rfl, -, hin, z, hz, -, rfl, hw⟩ | ⟨e, rfl, herr⟩ := hpost
  · -- the element is in a new handle
    have hwithin := hrange.mp hin
    obtain ⟨-, -, hheld⟩ := h.granted hw
    have hget : (P.getProperty x i.key l.heap).1 = .ok z := by
      rw [ofElement_eq hx hwithin, Loc.got] at hz
      rcases hout : (P.getProperty x i.key l.heap).1 with e | v <;> rw [hout] at hz <;> cases hz
      rfl
    let s'' : Store P := { s' with nextRef := s'.nextRef + 1 }
    refine ⟨.ok (.value ⟨s'.nextRef, some s.world.nextValue⟩), s'', ?_,
      .inl ⟨z, ⟨hwithin, hget⟩, _, rfl, hheld.valueOf⟩, fun hout => absurd hwithin hout⟩
    exact (Prog.exec_bind_of hrun).trans rfl
  · have hthrow : ((getIndex (some p) i.val.val).bind jsExtern).exec.run s = .ok (.error e, s') :=
      Prog.exec_bind_error hrun
    obtain (⟨hn, -⟩ | ⟨-, hout, -, hw⟩) | ⟨-, hin, hgets, -⟩ := herr
    · exact absurd hcounts hn
    · rw [hmeasured] at hw
      obtain ⟨hready, -⟩ := h.run hw
      refine ⟨_, s', hthrow, .inr ⟨fun z hz => hout (hrange.mpr hz.1), e, rfl⟩, fun _ => ?_⟩
      exact hready.heap.trans h.heap.symm
    · -- the engine throws
      have hwithin := hrange.mp hin
      refine ⟨_, s', hthrow, .inr ⟨fun z hz => hgets ?_, e, rfl⟩, fun hout => absurd hwithin hout⟩
      rw [ofElement_eq hx hwithin]
      unfold Loc.Gets Loc.delivers Loc.got
      rw [hz.2]
      simp [Except.toOption, hmem]

/-- How an integer index writes `y`, after its conversion. -/
theorem indexUpdate_run (h : Ready r l s) (ho : o.Denotes s.world r x) (hv : v.Passes s.world r l y l')
    (hx : A.IsArray l'.heap x) (i : Index) :
    ∃ res s₁ l₁, (JSRuntime.indexUpdate (some r) (.value o) i.any v).exec.run s = .ok (res, s₁) ∧
      s.Extends s₁ ∧ Ready r l₁ s₁ ∧ l₁.heap = (A.update x i y l'.heap).2 ∧
      (((A.update x i y l'.heap).1 = true ∧ res = .ok ()) ∨
        (A.update x i y l'.heap).1 = false ∧ ∃ e, res = .error e) := by
  obtain ⟨value, s₀, hconv, h₀, hext₀, hy⟩ := toJSValue_run h hv
  obtain ⟨hcounts, hmeasured⟩ := measured_isArray hx
  obtain ⟨p, hp, hholds⟩ := ho
  obtain ⟨q, hq, hyq⟩ := hy
  obtain ⟨L, hs₀⟩ := h₀.on
  have hprog : JSRuntime.indexUpdate (some r) (.value o) i.any v =
      (JSRuntime.toJSValue (some r) v).bind fun value =>
        .touch [o] ((jsIndex i.any).bind fun i => .touch [value] (setIndex o.handle i value.handle)) := rfl
  have hrange : l'.InRange x i.val.val ↔ i.Within (A.size l'.heap x) := by
    unfold Loc.InRange Index.Within
    rw [hmeasured]
  obtain ⟨res, s₁, hrun, hpost⟩ := (setIndex_spec (hholds.mono hext₀) hyq i.val.val).run hs₀
  rw [hmeasured] at hpost
  have hrun' : (JSRuntime.indexUpdate (some r) (.value o) i.any v).exec.run s = .ok (res, s₁) := by
    rw [hprog]
    refine (Prog.exec_bind_of hconv).trans ?_
    rw [jsIndex_any, hp, hq]
    exact hrun
  obtain ⟨_, rfl, -, hin, hsets, hw⟩ | ⟨e, rfl, (⟨hn, -⟩ | ⟨-, hout, -, hw⟩) | ⟨-, hin, hsets, -, hw⟩⟩ := hpost
  · have hwithin := hrange.mp hin
    obtain ⟨hready, hext⟩ := h₀.run hw
    refine ⟨_, s₁, _, hrun', hext₀.trans hext, hready, ?_⟩
    unfold ArrayObjects.update
    unfold Loc.Sets at hsets
    rw [if_pos hwithin, Loc.afterSet]
    rw [ofElement_eq hx hwithin] at hsets ⊢
    rcases hset : P.setProperty x i.key y l'.heap with ⟨e | done, h'⟩ <;> rw [hset] at hsets
    · cases hsets
    · exact ⟨rfl, .inl ⟨rfl, rfl⟩⟩
  · exact absurd hcounts hn
  · rw [hmeasured] at hw
    obtain ⟨hready, hext⟩ := h₀.run hw
    refine ⟨_, s₁, l', hrun', hext₀.trans hext, hready, ?_⟩
    unfold ArrayObjects.update
    rw [if_neg fun hwithin => hout (hrange.mpr hwithin)]
    exact ⟨rfl, .inr ⟨rfl, e, rfl⟩⟩
  · have hwithin := hrange.mp hin
    obtain ⟨hready, hext⟩ := h₀.run hw
    refine ⟨_, s₁, _, hrun', hext₀.trans hext, hready, ?_⟩
    unfold ArrayObjects.update
    unfold Loc.Sets at hsets
    rw [if_pos hwithin, Loc.afterSet]
    rw [ofElement_eq hx hwithin] at hsets ⊢
    rcases hset : P.setProperty x i.key y l'.heap with ⟨e' | done, h'⟩ <;> rw [hset] at hsets
    · exact ⟨Loc.after_heap _ _, .inr ⟨rfl, e, rfl⟩⟩
    · exact absurd rfl hsets

end Access

/-! ## The law -/

/-- The element at `j` is read alike in both states. -/
def SameElement (r : Nat) (s s₁ : Store P) (o : JSValueRef) (j : Index) : Prop :=
  ∀ z, Yields r s (JSRuntime.indexAccess (.value o) j.any) z ↔
    Yields r s₁ (JSRuntime.indexAccess (.value o) j.any) z

/-- The property `length` is read as `n`. -/
def HasLength (r : Nat) (s : Store P) (o : JSValueRef) (n : Nat) : Prop :=
  Yields r s (JSRuntime.memberAccess (.value o) "length") (.number (.finite n))

/-- `indexAccess(o, i)` returns exactly when `i` is in range, and otherwise throws and leaves the heap. -/
def ReadLaw (r : Nat) (s : Store P) (o : JSValueRef) (i : Index) (n : Nat) : Prop :=
  ∃ res s', (JSRuntime.indexAccess (.value o) i.any).exec.run s = .ok (res, s') ∧
    if i.Within n then ∃ e, res = .ok e else (∃ e, res = .error e) ∧ s'.heap r = s.heap r

/-- `indexUpdate(o, i, v)` returns exactly when `i` is in range; then the element is `y`, as an integer
index and as its decimal text read it, and the other elements and the length are as before. Otherwise it
throws, and all elements and the length are as before. -/
def WriteLaw (r : Nat) (s : Store P) (o : JSValueRef) (i : Index) (v : Any) (y : JSVal) (n : Nat) : Prop :=
  ∃ res s₁, (JSRuntime.indexUpdate (some r) (.value o) i.any v).exec.run s = .ok (res, s₁) ∧
    (if i.Within n then
      res = .ok () ∧ Yields r s₁ (JSRuntime.indexAccess (.value o) i.any) y ∧
        Yields r s₁ (JSRuntime.indexAccess (.value o) (.string (toString i.val.val))) y ∧
        ∀ j : Index, j.val.val ≠ i.val.val → SameElement r s s₁ o j
    else (∃ e, res = .error e) ∧ ∀ j : Index, SameElement r s s₁ o j) ∧
    HasLength r s₁ o n

namespace ArrayObjects

variable (A : ArrayObjects P)

/-- What the engine answers to the write of `y` at `i` in the local state `l'`, after its conversion, and then
to reads: the write returns exactly below the length of before, `y` is read at `i`, and the length and the other
elements are as in `l`. -/
structure Answers (l l' : Loc P) (x y : JSVal) (i : Index) : Prop where
  returns : (A.update x i y l'.heap).1 = true ↔ i.Within (A.size l.heap x)
  size : A.size (A.update x i y l'.heap).2 x = A.size l.heap x
  self : i.Within (A.size l.heap x) → (P.getProperty x i.key (A.update x i y l'.heap).2).1 = .ok y
  others : ∀ j : Nat, j < A.size l.heap x → (j : Int) ≠ i.val.val →
    (P.getProperty x (.ofIndex j) (A.update x i y l'.heap).2).1 = .ok (A.element l.heap x j)

/-- The array can be written at `i`, if that is below its length. -/
def Writable (h : P.Heap) (x : JSVal) (i : Index) : Prop :=
  A.Genuine h x ∧ (i.Within (A.size h x) → ¬ A.Blocked h x i.val.val.toNat)

/-- When the law of writes holds: the conversion from `l` to `l'` left an array that can be written at `i`, its
length, and the elements that are not written; or it did not leave an array that can be written so, and the
engine gives the same answers with it. -/
def Undisturbed (l l' : Loc P) (x y : JSVal) (i : Index) : Prop :=
  (A.Writable l'.heap x i ∧ A.size l'.heap x = A.size l.heap x ∧
    ∀ j : Nat, j < A.size l.heap x → (j : Int) ≠ i.val.val → A.element l'.heap x j = A.element l.heap x j) ∨
  ¬ A.Writable l'.heap x i ∧ A.Answers l l' x y i

end ArrayObjects

section Law

variable {A : ArrayObjects P} {o : JSValueRef} {x y z : JSVal} {n : Nat} {v : Any} {h h' : P.Heap}

theorem indexAccess_yields (hmem : ∀ host, (P.malloc host).1 = true) (h : Ready r l s)
    (ho : o.Denotes s.world r x) (hx : A.IsArray l.heap x) (i : Index) :
    Yields r s (JSRuntime.indexAccess (.value o) i.any) z ↔
      i.Within (A.size l.heap x) ∧ (P.getProperty x i.key l.heap).1 = .ok z := by
  obtain ⟨res, s', hrun, hres, -⟩ := indexAccess_run hmem h ho hx i
  exact yields_iff (fun u w hu hw => Except.ok.inj (hu.2.symm.trans hw.2)) hrun hres

theorem hasLength_iff (hmem : ∀ host, (P.malloc host).1 = true) (h : Ready r l s)
    (ho : o.Denotes s.world r x) (hx : A.IsArray l.heap x) : HasLength r s o n ↔ A.size l.heap x = n := by
  unfold HasLength
  rw [memberAccess_yields h ho (A.object hx) "length", A.length hx]
  simp [hmem]

/-- The decimal text of an index in range reads like the index. -/
theorem keyAccess_index (hmem : ∀ host, (P.malloc host).1 = true) (h : Ready r l s)
    (ho : o.Denotes s.world r x) (hx : A.IsArray l.heap x) {i : Index} (h0 : 0 ≤ i.val.val) :
    Yields r s (JSRuntime.indexAccess (.value o) (.string (toString i.val.val))) z ↔
      (P.getProperty x i.key l.heap).1 = .ok z := by
  have hcast : ((i.val.val.toNat : Nat) : Int) = i.val.val := Int.toNat_of_nonneg h0
  have hkey : PropKey.ofName (toString i.val.val) = i.key := by
    rw [Index.key, ← ofName_toString, hcast]
  rw [keyAccess_yields h ho (A.object hx), hkey]
  simp [hmem]

theorem readLaw (hmem : ∀ host, (P.malloc host).1 = true) (h : Ready r l s) (ho : o.Denotes s.world r x)
    (hx : A.Genuine l.heap x) (i : Index) : ReadLaw r s o i (A.size l.heap x) := by
  obtain ⟨res, s', hrun, hres, hkept⟩ := indexAccess_run hmem h ho (A.array hx) i
  refine ⟨res, s', hrun, ?_⟩
  obtain ⟨z, ⟨hin, -⟩, e, rfl, -⟩ | ⟨hno, e, rfl⟩ := hres
  · rw [if_pos hin]
    exact ⟨e, rfl⟩
  · have hout : ¬ i.Within (A.size l.heap x) := fun hin =>
      hno _ ⟨hin, ArrayObjects.read_element hx hin.lt⟩
    rw [if_neg hout]
    exact ⟨⟨e, rfl⟩, hkept hout⟩

/-- The elements of two arrays of one length, by what the engine gives. -/
theorem sameElement_iff (hmem : ∀ host, (P.malloc host).1 = true) (h : Ready r l s)
    (ho : o.Denotes s.world r x) (hx : A.Genuine l.heap x) (h' : Ready r l' s₁)
    (ho' : o.Denotes s₁.world r x) (hx' : A.IsArray l'.heap x) (hsize : A.size l'.heap x = A.size l.heap x)
    (j : Index) :
    SameElement r s s₁ o j ↔ (j.Within (A.size l.heap x) →
      (P.getProperty x j.key l'.heap).1 = .ok (A.element l.heap x j.val.val.toNat)) := by
  unfold SameElement
  simp only [indexAccess_yields hmem h ho (A.array hx), indexAccess_yields hmem h' ho' hx', hsize]
  constructor
  · intro hsame hin
    exact ((hsame _).mp ⟨hin, ArrayObjects.read_element hx hin.lt⟩).2
  · intro hsame z
    refine and_congr_right fun hin => ?_
    have hread : (P.getProperty x j.key l.heap).1 = .ok (A.element l.heap x j.val.val.toNat) :=
      ArrayObjects.read_element hx hin.lt
    rw [hread, hsame hin]

/-- An index below an array length is one of type `Int64`. -/
theorem int64_bounds {j n : Nat} (hj : j < n) (hn : n ≤ 2 ^ 32 - 1) :
    IntType.int64.min ≤ j ∧ (j : Int) ≤ IntType.int64.max := by
  simp only [IntType.min, IntType.max]
  omega

theorem int64_accepted : IntType.int64 ≠ .uint64 := by
  intro h
  cases h

/-- An index of type `Int64`. -/
def Index.ofNat {j n : Nat} (hj : j < n) (hn : n ≤ 2 ^ 32 - 1) : Index where
  type := .int64
  val := ⟨j, (int64_bounds hj hn).1, (int64_bounds hj hn).2⟩
  accepted := int64_accepted

/-- Reads by every index see every element. -/
theorem sameElements_iff (hmem : ∀ host, (P.malloc host).1 = true) (h : Ready r l s)
    (ho : o.Denotes s.world r x) (hx : A.Genuine l.heap x) (h' : Ready r l' s₁)
    (ho' : o.Denotes s₁.world r x) (hx' : A.IsArray l'.heap x) (hsize : A.size l'.heap x = A.size l.heap x)
    (skip : Int → Prop) :
    (∀ j : Index, ¬ skip j.val.val → SameElement r s s₁ o j) ↔
      ∀ j : Nat, j < A.size l.heap x → ¬ skip j →
        (P.getProperty x (.ofIndex j) l'.heap).1 = .ok (A.element l.heap x j) := by
  simp only [sameElement_iff hmem h ho hx h' ho' hx' hsize]
  constructor
  · intro hsame j hj hskip
    have hin : (Index.ofNat hj (A.size_le (A.array hx))).Within (A.size l.heap x) :=
      ⟨Int.natCast_nonneg j, Int.ofNat_lt.mpr hj⟩
    exact hsame (Index.ofNat hj (A.size_le (A.array hx))) hskip hin
  · rintro hsame j hskip ⟨h0, hj⟩
    have hcast : ((j.val.val.toNat : Nat) : Int) = j.val.val := Int.toNat_of_nonneg h0
    exact hsame j.val.val.toNat (by omega) (by rwa [hcast])

/-- The law of writes, by the answers of the engine. -/
theorem writeLaw_answers (hmem : ∀ host, (P.malloc host).1 = true) (h : Ready r l s)
    (ho : o.Denotes s.world r x) (hx : A.Genuine l.heap x) (hv : v.Passes s.world r l y l') (i : Index) :
    WriteLaw r s o i v y (A.size l.heap x) ↔ A.Answers l l' x y i := by
  have hx' := passes_array (A.array hx) hv
  obtain ⟨res, s₁, l₁, hrun, hext, h₁, hheap, hend⟩ := indexUpdate_run h ho hv hx' i
  have ho₁ := ho.mono hext
  have hx₁ : A.IsArray l₁.heap x := hheap ▸ ArrayObjects.update_array hx' i y
  have hlength := hasLength_iff (n := A.size l.heap x) hmem h₁ ho₁ hx₁
  have hself (hin : i.Within (A.size l.heap x)) := keyAccess_index (z := y) hmem h₁ ho₁ hx₁ hin.1
  constructor
  · rintro ⟨res', s', hrun', hlaw, hsize⟩
    rw [hrun] at hrun'
    cases hrun'
    have hsize := hlength.mp hsize
    by_cases hin : i.Within (A.size l.heap x)
    · rw [if_pos hin] at hlaw
      obtain ⟨rfl, -, hy, hsame⟩ := hlaw
      obtain ⟨hupdate, -⟩ | ⟨-, e, he⟩ := hend
      · have hothers := (sameElements_iff hmem h ho hx h₁ ho₁ hx₁ hsize (· = i.val.val)).mp hsame
        exact ⟨iff_of_true hupdate hin, hheap ▸ hsize, fun _ => hheap ▸ (hself hin).mp hy, hheap ▸ hothers⟩
      · cases he
    · rw [if_neg hin] at hlaw
      obtain ⟨⟨e, rfl⟩, hsame⟩ := hlaw
      obtain ⟨-, he⟩ | ⟨hupdate, -⟩ := hend
      · cases he
      · have hothers := (sameElements_iff hmem h ho hx h₁ ho₁ hx₁ hsize fun _ => False).mp fun j _ => hsame j
        exact ⟨iff_of_false (by simp [hupdate]) hin, hheap ▸ hsize, fun hin' => absurd hin' hin,
          fun j hj _ => hheap ▸ hothers j hj not_false⟩
  · intro hanswers
    have hsize : A.size l₁.heap x = A.size l.heap x := hheap ▸ hanswers.size
    refine ⟨res, s₁, hrun, ?_, hlength.mpr hsize⟩
    by_cases hin : i.Within (A.size l.heap x)
    · obtain ⟨-, rfl⟩ | ⟨hupdate, -⟩ := hend
      · rw [if_pos hin]
        have hy : (P.getProperty x i.key l₁.heap).1 = .ok y := hheap ▸ hanswers.self hin
        refine ⟨rfl, (indexAccess_yields hmem h₁ ho₁ hx₁ i).mpr ⟨hsize ▸ hin, hy⟩, (hself hin).mpr hy, ?_⟩
        exact (sameElements_iff hmem h ho hx h₁ ho₁ hx₁ hsize (· = i.val.val)).mpr
          (hheap ▸ hanswers.others)
      · cases hupdate.symm.trans (hanswers.returns.mpr hin)
    · obtain ⟨hupdate, -⟩ | ⟨-, herror⟩ := hend
      · exact absurd (hanswers.returns.mp hupdate) hin
      · rw [if_neg hin]
        refine ⟨herror, fun j => ?_⟩
        refine (sameElements_iff hmem h ho hx h₁ ho₁ hx₁ hsize fun _ => False).mpr (fun j hj _ => ?_) j not_false
        -- every other index differs from one that is out of range
        have hne : (j : Int) ≠ i.val.val := fun heq => hin ⟨by omega, by omega⟩
        exact hheap ▸ hanswers.others j hj hne

/-- With an array that can be written, the answers are those to the conversion. -/
theorem answers_writable (hx' : A.Writable l'.heap x i) :
    A.Answers l l' x y i ↔ A.size l'.heap x = A.size l.heap x ∧
      ∀ j : Nat, j < A.size l.heap x → (j : Int) ≠ i.val.val → A.element l'.heap x j = A.element l.heap x j := by
  obtain ⟨hgenuine, hfree⟩ := hx'
  by_cases hin : i.Within (A.size l'.heap x)
  · -- the element is written
    obtain ⟨done, h', hset⟩ := (A.set y hgenuine hin.lt).mpr (hfree hin)
    obtain ⟨hgenuine', hkept⟩ := A.set_genuine hgenuine hin.lt hset
    have hset' : P.setProperty x i.key y l'.heap = (.ok done, h') := hset
    have hupdate : A.update x i y l'.heap = (true, h') := by
      unfold ArrayObjects.update
      rw [if_pos hin, hset']
    constructor
    · rintro ⟨-, hsize, -, hothers⟩
      rw [hupdate] at hsize hothers
      refine ⟨hkept.symm.trans hsize, fun j hj hne => ?_⟩
      have hread := (ArrayObjects.read_element hgenuine' (hsize ▸ hj)).symm.trans (hothers j hj hne)
      rw [← ArrayObjects.element_set_other hgenuine hin hset' hne]
      exact Except.ok.inj hread
    · rintro ⟨hsize, hothers⟩
      refine ⟨?_, ?_, fun _ => ?_, fun j hj hne => ?_⟩ <;> rw [hupdate]
      · exact iff_of_true rfl (hsize ▸ hin)
      · exact hkept.trans hsize
      · have hself := ArrayObjects.element_set_self hgenuine hin hset'
        rw [← hself]
        exact ArrayObjects.read_element hgenuine' (hkept ▸ hin.lt)
      · rw [← hothers j hj hne, ← ArrayObjects.element_set_other hgenuine hin hset' hne]
        exact ArrayObjects.read_element hgenuine' (by rwa [hkept, hsize])
  · have hupdate : A.update x i y l'.heap = (false, l'.heap) := by
      unfold ArrayObjects.update
      rw [if_neg hin]
    constructor
    · rintro ⟨-, hsize, -, hothers⟩
      rw [hupdate] at hsize hothers
      refine ⟨hsize, fun j hj hne => ?_⟩
      have hread := (ArrayObjects.read_element hgenuine (hsize ▸ hj)).symm.trans (hothers j hj hne)
      exact Except.ok.inj hread
    · rintro ⟨hsize, hothers⟩
      refine ⟨?_, ?_, fun hin' => absurd (hsize ▸ hin') hin, fun j hj hne => ?_⟩ <;> rw [hupdate]
      · exact iff_of_false (by simp) fun hin' => hin (hsize ▸ hin')
      · exact hsize
      · rw [← hothers j hj hne]
        exact ArrayObjects.read_element hgenuine (hsize ▸ hj)

/-- The law of writes holds exactly when the conversion of the value leaves the array. -/
theorem writeLaw_iff (hmem : ∀ host, (P.malloc host).1 = true) (h : Ready r l s)
    (ho : o.Denotes s.world r x) (hx : A.Genuine l.heap x) (hv : v.Passes s.world r l y l') (i : Index) :
    WriteLaw r s o i v y (A.size l.heap x) ↔ A.Undisturbed l l' x y i := by
  rw [writeLaw_answers hmem h ho hx hv i]
  unfold ArrayObjects.Undisturbed
  by_cases hx' : A.Writable l'.heap x i
  · simp only [hx', true_and, not_true_eq_false, false_and, or_false]
    exact answers_writable hx'
  · simp only [hx', false_and, not_false_eq_true, true_and, false_or]

/-- The law of a bounds-checked store, with the exactness of the two conversions of the bridge. -/
structure ArrayLaw (r : Nat) (s : Store P) (o : JSValueRef) (i : Index) (v : Any) (y : JSVal) (n : Nat) :
    Prop where
  read : ReadLaw r s o i n
  write : WriteLaw r s o i v y n
  index : i.Within n → ((uint32 i.val.val).toNat : Int) = i.val.val
  length : P.castInt64 (.finite n) = n

end Law

/-! ## A small engine -/

/-- An engine with one array, `[undefined]`; the global `BigInt` empties it and gives `5n`. -/
def arrayPlatform : Platform :=
  { Platform.idle (Nat × (PropKey → Option JSVal)) (1, fun _ => none) with
    getProperty := fun x key h =>
      if x = .object 1 then
        (.ok (if key = .ofName "length" then .number (.finite h.1) else (h.2 key).getD .undefined), h)
      else
        (.ok (.function 2 ⟨true, false⟩), h)
    setProperty := fun _ key y h => (.ok true, (h.1, Function.update h.2 key (some y)))
    isArray := fun x h => (.ok (x = .object 1), h)
    call := fun _ _ _ h => (.ok (.bigint 5), (0, h.2)) }

theorem ofIndex_ne_length (i : Nat) : PropKey.ofIndex i ≠ PropKey.ofName "length" := by
  intro heq
  have hmem : (108 : UInt16) ∈ PropKey.ofIndex i := by
    rw [heq]
    decide
  obtain ⟨c, hc, hunit⟩ := List.mem_map.mp hmem
  have hdigit := Nat.isDigit_of_mem_toDigits (by decide) (by decide) hc
  simp only [Char.isDigit, Bool.and_eq_true, decide_eq_true_eq] at hdigit
  have hle : c.toNat ≤ 57 := hdigit.2
  have hnat := congrArg UInt16.toNat hunit
  have hsize : UInt16.size = 65536 := rfl
  rw [UInt16.toNat_ofNat_of_lt' (by omega)] at hnat
  have h108 : (108 : UInt16).toNat = 108 := rfl
  omega

def arrayObjects : ArrayObjects arrayPlatform where
  own h x key := if x = .object 1 then h.2 key else none
  prototypes _ _ := []
  Plain _ x key := x = .object 1 ∧ key ≠ .ofName "length"
  get {h _ _ _} plain read := by
    obtain ⟨rfl, hkey⟩ := plain
    simp only [arrayPlatform, if_pos, if_neg hkey] at read
    cases read
    simp [firstOwn]
  set_own plain set := by
    cases set
    simp [plain.1]
  set_other _ set other := by
    cases set
    simp [Function.update_of_ne other]
  set_prototypes _ _ := rfl
  set_plain _ _ before := before
  IsArray h x := x = .object 1 ∧ h.1 ≤ 2 ^ 32 - 1
  size h _ := h.1
  Genuine h x := x = .object 1 ∧ h.1 ≤ 2 ^ 32 - 1
  Blocked _ _ _ := False
  object array := by
    rw [array.1]
    rfl
  size_le array := array.2
  isArray array := by simp [arrayPlatform, array.1]
  length array := by simp [arrayPlatform, array.1]
  stays_string _ array := array
  stays_get _ _ array := by
    simp only [arrayPlatform]
    split <;> exact array
  stays_call _ _ _ array := ⟨array.1, Nat.zero_le _⟩
  stays_set _ _ _ array := array
  stays_text y array := by cases y <;> exact array
  array genuine := genuine
  plain genuine _ := ⟨genuine.1, ofIndex_ne_length _⟩
  read genuine _ := by
    rw [genuine.1]
    exact ⟨_, rfl⟩
  set _ _ _ := iff_of_true ⟨_, _, rfl⟩ not_false
  set_genuine genuine _ written := by
    cases written
    exact ⟨genuine, rfl⟩

def arrayState : Store arrayPlatform := Store.sample _ () (1, fun _ => none) (.object 1)

def arrayLoc : Loc arrayPlatform := Loc.sample () (1, fun _ => none)

theorem arrayState_ready : Ready 0 arrayLoc arrayState := sample_ready _ _ _ _

theorem arrayState_denotes :
    JSValueRef.Denotes (P := arrayPlatform) ⟨0, some 0⟩ arrayState.world 0 (.object 1) :=
  ⟨0, rfl, sample_holds _ _ _ _⟩

theorem arrayState_genuine : arrayObjects.Genuine arrayLoc.heap (.object 1) := ⟨rfl, by decide⟩

/-- The index 0, as an `Int32`. -/
def firstIndex : Index := ⟨.int32, ⟨0, by decide, by decide⟩, by decide⟩

/-- An `Int64` whose conversion empties the array. -/
def wideFive : Any := .int .int64 ⟨5, by decide, by decide⟩

/-- The local state after it. -/
def emptiedLoc : Loc arrayPlatform :=
  { arrayLoc.clearError with heap := (0, arrayLoc.heap.2), entries := [.function 2 ⟨true, false⟩] }

end InteropJs
