import InteropJs.Cangjie.Arrays
import InteropJs.Engine.Recorder

/-!
# The element that is accessed

`getIndex` and `setIndex` take an `Int64` index and check it against a length that the engine gives:
`js_value_array_length` reads `length` as a double and casts it to `int64_t`, and the functions that access
the element cast the index to `uint32_t`. The length of a genuine array keeps both casts exact. A Proxy
around an array is an array for `JS_IsArray`, and its `length` may be any number.

* `Platform.recorded` shows the key of the access (`GetsKey`, `SetsKey`): it is that of `(uint32_t)index`.
* `elements_requested_iff`: both casts are exact, for every index that passes the checks, exactly when the
  number is in the range of `int64_t` and not above 2^32.
-/

namespace InteropJs

open Hoare

/-! ## Numbers -/

/-- The integer part of a double. -/
def Float64.trunc? : Float64 → Option Int
  | .negZero => some 0
  | .finite q => some (q.num.tdiv q.den)
  | _ => none

/-- `(int64_t)x` is defined. -/
def Float64.FitsInt64 (x : Float64) : Prop := ∃ t, x.trunc? = some t ∧ -2 ^ 63 ≤ t ∧ t < 2 ^ 63

theorem castInt64_of_trunc (P : Platform) {x : Float64} {t : Int} (hx : x.trunc? = some t)
    (h0 : -2 ^ 63 ≤ t) (ht : t < 2 ^ 63) : P.castInt64 x = t := by
  cases x with
  | nan => cases hx
  | inf neg => cases hx
  | negZero =>
    cases hx
    rfl
  | finite q =>
    have hq : q.num.tdiv q.den = t := Option.some.inj hx
    simp only [Platform.castInt64, hq, if_pos (And.intro h0 ht)]

/-- `(uint32_t)index` is exact for an index below 2^32. -/
theorem ofElement_of_lt {i : Int} (h0 : 0 ≤ i) (hi : i < 2 ^ 32) : PropKey.ofElement i = .ofName (toString i) := by
  have hcast : ((i.toNat : Nat) : Int) = i := Int.toNat_of_nonneg h0
  have hmod : i % 2 ^ 32 = i := Int.emod_eq_of_lt h0 hi
  have hnat : i.toNat < 2 ^ 32 := by omega
  have huint : (uint32 i).toNat = i.toNat := by
    unfold uint32
    rw [hmod, UInt32.toNat_ofNat_of_lt' hnat]
  rw [PropKey.ofElement, huint, ← ofName_toString, hcast]

/-- The index 2^32 is taken for the index 0. -/
theorem ofElement_pow : PropKey.ofElement (2 ^ 32) ≠ .ofName (toString (2 ^ 32 : Int)) := by
  have hzero : (uint32 (2 ^ 32)).toNat = 0 := by decide
  have hname : PropKey.ofName (toString (2 ^ 32 : Int)) = .ofIndex (2 ^ 32) := ofName_toString (2 ^ 32)
  rw [PropKey.ofElement, hzero, hname]
  intro heq
  have := ofIndex_injective heq
  omega

variable {P : Platform}

/-- The number that `js_value_array_length` casts, if it comes to that. -/
def Loc.lengthNumber (l : Loc P) (x : JSVal) : Option Float64 :=
  match P.getProperty x (.ofCString (utf8 "length")) l.heap with
  | (.ok n, h) => (P.toNumber n h).1.toOption
  | (.error _, _) => none

theorem Loc.arrayLength_fst (l : Loc P) (x : JSVal) :
    (l.arrayLength x).1 = ((l.lengthNumber x).map P.castInt64).getD (-1) := by
  unfold Loc.arrayLength Loc.lengthNumber
  rcases P.getProperty x (.ofCString (utf8 "length")) l.heap with ⟨e | n, h⟩
  · rfl
  · dsimp only
    rcases P.toNumber n h with ⟨e | y, h'⟩ <;> rfl

/-- The number that the checks of `getIndex` and `setIndex` cast. -/
def Loc.checkedNumber (l : Loc P) (x : JSVal) : Option Float64 :=
  (l.after (P.isArray x l.heap)).lengthNumber x

theorem Loc.measured_fst (l : Loc P) (x : JSVal) :
    (l.measured x).1 = ((l.checkedNumber x).map P.castInt64).getD (-1) :=
  Loc.arrayLength_fst _ x

/-! ## The log -/

/-- After `log` the next engine call is `e`. -/
def NextCall (log log' : List EngineCall) (e : EngineCall) : Prop := ∃ rest, log' = log ++ e :: rest

theorem NextCall.unique {log log' : List EngineCall} {e e' : EngineCall} (h : NextCall log log' e)
    (h' : NextCall log log' e') : e = e' := by
  obtain ⟨rest, rfl⟩ := h
  obtain ⟨rest', heq⟩ := h'
  exact (List.cons.inj (List.append_cancel_left heq)).1

/-- The log of the runtime `r`. -/
def Store.log (s : Store P.recorded) (r : Nat) : List EngineCall :=
  match s.heap r with
  | some (_, log) => log
  | none => []

def Loc.log (l : Loc P.recorded) : List EngineCall := l.heap.2

variable {r p q : Nat} {s : Store P.recorded} {l : Loc P.recorded} {x y : JSVal} {i : Int} {key : PropKey}

theorem Ready.log (h : Ready r l s) : s.log r = l.log := by
  unfold Store.log
  rw [h.heap]
  rfl

/-- The text of an exception comes after the calls before it. -/
theorem log_capture {log : List EngineCall} {e : EngineCall} (l : Loc P.recorded) (h : l.log = log ++ [e]) :
    NextCall log l.capture.log e := by
  obtain ⟨rest, hrest⟩ := Platform.recorded_toCString (l.exception.getD .uninitialized) l.heap
  refine ⟨rest, ?_⟩
  have hlog : l.capture.log = l.log ++ rest := by
    refine Eq.trans ?_ hrest
    unfold Loc.capture Loc.log
    rcases P.recorded.toCString (l.exception.getD .uninitialized) l.heap with ⟨_ | _, _⟩ <;> rfl
  rw [hlog, h, List.append_assoc]
  rfl

/-! ## The accesses -/

/-- After its checks `getIndex` reads the property `key` of `x`. -/
def GetsKey (r : Nat) (s : Store P.recorded) (l : Loc P.recorded) (p : Nat) (x : JSVal) (i : Int)
    (key : PropKey) : Prop :=
  ∃ res s', (getIndex (some p) i).exec.run s = .ok (res, s') ∧
    NextCall (l.measured x).2.log (s'.log r) (.get x key)

/-- After its checks `setIndex` writes the property `key` of `x`. -/
def SetsKey (r : Nat) (s : Store P.recorded) (l : Loc P.recorded) (p : Nat) (x : JSVal) (i : Int) (q : Nat)
    (y : JSVal) (key : PropKey) : Prop :=
  ∃ res s', (setIndex (some p) i (some q)).exec.run s = .ok (res, s') ∧
    NextCall (l.measured x).2.log (s'.log r) (.set x key y)

theorem log_afterGet (l : Loc P.recorded) (x : JSVal) (key : PropKey) :
    (l.afterGet x key).log = l.log ++ [.get x key] := by
  unfold Loc.afterGet Loc.log
  rw [Loc.after_heap]
  rfl

theorem log_getTried (l : Loc P.recorded) (x : JSVal) (key : PropKey) :
    NextCall l.log (l.getTried x key).log (.get x key) := by
  unfold Loc.getTried
  cases l.got x key with
  | none => exact log_capture _ (log_afterGet l x key)
  | some y => exact ⟨[], log_afterGet l x key⟩

theorem log_afterSet (l : Loc P.recorded) (x : JSVal) (key : PropKey) (y : JSVal) :
    NextCall l.log (l.afterSet x key y).log (.set x key y) := by
  have hlog : (P.recorded.setProperty x key y l.heap).2.2 = l.log ++ [.set x key y] := rfl
  unfold Loc.afterSet
  rcases hout : P.recorded.setProperty x key y l.heap with ⟨e | done, h⟩ <;> rw [hout] at hlog
  · exact log_capture { l.clearError with heap := h, exception := some e } hlog
  · exact ⟨[], hlog⟩

/-- The key that is read is that of `(uint32_t)index`. -/
theorem getsKey_iff (h : Ready r l s) (hp : s.world.Holds p r x) (ha : l.CountsAsArray x)
    (hi : l.InRange x i) : GetsKey r s l p x i key ↔ key = .ofElement i := by
  obtain ⟨L, hs⟩ := h.on
  obtain ⟨res, s', hrun, hpost⟩ := (getIndex_spec hp i).run hs
  have hnext : NextCall (l.measured x).2.log (s'.log r) (.get x (.ofElement i)) := by
    obtain ⟨_, -, -, -, z, -, -, -, hw⟩ | ⟨e, -, (⟨hn, -⟩ | ⟨-, hn, -⟩) | ⟨-, -, -, -, hw⟩⟩ := hpost
    · rw [(h.granted hw).1.log]
      exact ⟨[], log_afterGet _ x _⟩
    · exact absurd ha hn
    · exact absurd hi hn
    · rw [(h.run hw).1.log]
      exact log_getTried _ x _
  constructor
  · rintro ⟨res', s'', hrun', hkey⟩
    rw [hrun] at hrun'
    cases hrun'
    exact (EngineCall.get.inj (hkey.unique hnext)).2
  · rintro rfl
    exact ⟨res, s', hrun, hnext⟩

/-- The key that is written is that of `(uint32_t)index`. -/
theorem setsKey_iff (h : Ready r l s) (hp : s.world.Holds p r x) (hq : s.world.Holds q r y)
    (ha : l.CountsAsArray x) (hi : l.InRange x i) : SetsKey r s l p x i q y key ↔ key = .ofElement i := by
  obtain ⟨L, hs⟩ := h.on
  obtain ⟨res, s', hrun, hpost⟩ := (setIndex_spec hp hq i).run hs
  have hnext : NextCall (l.measured x).2.log (s'.log r) (.set x (.ofElement i) y) := by
    obtain ⟨_, -, -, -, -, hw⟩ | ⟨e, -, (⟨hn, -⟩ | ⟨-, hn, -⟩) | ⟨-, -, -, -, hw⟩⟩ := hpost
    · rw [(h.run hw).1.log]
      exact log_afterSet _ x _ y
    · exact absurd ha hn
    · exact absurd hi hn
    · rw [(h.run hw).1.log]
      exact log_afterSet _ x _ y
  constructor
  · rintro ⟨res', s'', hrun', hkey⟩
    rw [hrun] at hrun'
    cases hrun'
    exact (EngineCall.set.inj (hkey.unique hnext)).2.1
  · rintro rfl
    exact ⟨res, s', hrun, hnext⟩

/-! ## The law -/

/-- The cast of the length is defined, and for every `Int64` index that passes the checks the accessed
element is the one with its decimal text. -/
def Requested (r : Nat) (s : Store P.recorded) (l : Loc P.recorded) (p : Nat) (x : JSVal) : Prop :=
  (∀ n, l.checkedNumber x = some n → n.FitsInt64) ∧
    ∀ i : IntType.int64.Val, l.InRange x i.val → GetsKey r s l p x i.val (.ofName (toString i.val)) ∧
      ∀ q y, s.world.Holds q r y → SetsKey r s l p x i.val q y (.ofName (toString i.val))

/-- What the engine gives for `length` is in the range of `int64_t`, and not above 2^32. -/
def Loc.LengthWithin (l : Loc P) (x : JSVal) : Prop :=
  ∀ n, l.checkedNumber x = some n → ∃ t, n.trunc? = some t ∧ -2 ^ 63 ≤ t ∧ t ≤ 2 ^ 32

theorem int64_two_pow_32 : IntType.int64.min ≤ 2 ^ 32 ∧ 2 ^ 32 ≤ IntType.int64.max := by decide

/-- The index 2^32, of type `Int64`. -/
def wrappingIndex : IntType.int64.Val := ⟨2 ^ 32, int64_two_pow_32.1, int64_two_pow_32.2⟩

/-- For everything that `js_value_is_array` takes for an array, in every state: the cast of the length is
defined and every access is to the requested element, if and only if the length is within 2^32. -/
theorem elements_requested_iff (h : Ready r l s) (hp : s.world.Holds p r x) (ha : l.CountsAsArray x) :
    Requested r s l p x ↔ l.LengthWithin x := by
  constructor
  · rintro ⟨hfits, haccess⟩ n hn
    obtain ⟨t, ht, hmin, hmax⟩ := hfits n hn
    refine ⟨t, ht, hmin, ?_⟩
    by_contra hlong
    -- then 2^32 passes the checks, and the element 0 is read
    have hin : l.InRange x wrappingIndex.val := by
      unfold Loc.InRange
      rw [Loc.measured_fst, hn, Option.map_some, Option.getD_some, castInt64_of_trunc _ ht hmin hmax]
      exact ⟨by decide, not_le.mp hlong⟩
    have hkey := (getsKey_iff h hp ha hin).mp (haccess _ hin).1
    exact ofElement_pow hkey.symm
  · intro hwithin
    refine ⟨fun n hn => ?_, fun i hin => ?_⟩
    · obtain ⟨t, ht, hmin, hmax⟩ := hwithin n hn
      exact ⟨t, ht, hmin, by omega⟩
    · have hlt : i.val < 2 ^ 32 := by
        obtain ⟨h0, hlen⟩ := hin
        rw [Loc.measured_fst] at hlen
        cases hn : l.checkedNumber x with
        | none =>
          rw [hn] at hlen
          simp only [Option.map_none, Option.getD_none] at hlen
          omega
        | some n =>
          obtain ⟨t, ht, hmin, hmax⟩ := hwithin n hn
          rw [hn, Option.map_some, Option.getD_some, castInt64_of_trunc _ ht hmin (by omega)] at hlen
          omega
      have hkey := (ofElement_of_lt hin.1 hlt).symm
      exact ⟨(getsKey_iff h hp ha hin).mpr hkey, fun q y hq => (setsKey_iff h hp hq ha hin).mpr hkey⟩

/-- An engine with one object, a Proxy around an array whose trap gives `n` for `length`. -/
def proxyPlatform (n : Nat) : Platform :=
  { Platform.idle Unit () with
    isArray := fun _ h => (.ok true, h)
    getProperty := fun _ key h =>
      (.ok (if key = .ofCString (utf8 "length") then .number (.finite n) else .undefined), h) }

def proxyState (n : Nat) : Store (proxyPlatform n).recorded := Store.sample _ () ((), []) (.object 0)

def proxyLoc (n : Nat) : Loc (proxyPlatform n).recorded := Loc.sample () ((), [])

theorem proxyState_ready (n : Nat) : Ready 0 (proxyLoc n) (proxyState n) := sample_ready _ _ _ _

theorem proxyLoc_countsAsArray (n : Nat) : (proxyLoc n).CountsAsArray (.object 0) := by
  intro h
  cases h

theorem proxyLoc_checkedNumber (n : Nat) : (proxyLoc n).checkedNumber (.object 0) = some (.finite n) := by
  have hread : ∀ h, ∃ h', (proxyPlatform n).recorded.getProperty (.object 0) (.ofCString (utf8 "length")) h =
      (.ok (.number (.finite n)), h') := fun h => ⟨_, Prod.ext (congrArg Except.ok (if_pos rfl)) rfl⟩
  unfold Loc.checkedNumber Loc.lengthNumber
  obtain ⟨h', hh⟩ := hread
    ((proxyLoc n).after ((proxyPlatform n).recorded.isArray (.object 0) (proxyLoc n).heap)).heap
  rw [hh]
  rfl

theorem trunc?_natCast (n : Nat) : (Float64.finite n).trunc? = some (n : Int) := by
  simp [Float64.trunc?]

/-- The largest number that the condition allows. -/
theorem elements_requested_pow : Requested 0 (proxyState (2 ^ 32)) (proxyLoc (2 ^ 32)) 0 (.object 0) := by
  refine (elements_requested_iff (proxyState_ready _) (sample_holds _ _ _ _) (proxyLoc_countsAsArray _)).mpr ?_
  intro n hn
  rw [proxyLoc_checkedNumber] at hn
  cases hn
  exact ⟨_, trunc?_natCast (2 ^ 32), by decide, by decide⟩

/-- A Proxy with the length 2^32 + 1: the index 2^32 passes the checks, and the element 0 is read. -/
theorem wrong_element_accessed : ¬ ∀ (P : Platform) (r : Nat) (s : Store P.recorded) (l : Loc P.recorded)
    (p : Nat) (x : JSVal), Ready r l s → s.world.Holds p r x → l.CountsAsArray x → Requested r s l p x := by
  intro hall
  obtain ⟨-, haccess⟩ := hall _ _ _ _ _ _ (proxyState_ready (2 ^ 32 + 1)) (sample_holds _ _ _ _)
    (proxyLoc_countsAsArray _)
  have hin : (proxyLoc (2 ^ 32 + 1)).InRange (.object 0) wrappingIndex.val := by
    unfold Loc.InRange
    rw [Loc.measured_fst, proxyLoc_checkedNumber, Option.map_some, Option.getD_some,
      castInt64_of_trunc _ (trunc?_natCast _) (by decide) (by decide)]
    decide
  have hkey := (getsKey_iff (proxyState_ready _) (sample_holds _ _ _ _) (proxyLoc_countsAsArray _) hin).mp
    (haccess _ hin).1
  exact ofElement_pow hkey.symm

end InteropJs
