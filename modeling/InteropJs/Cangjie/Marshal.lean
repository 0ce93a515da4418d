import InteropJs.Cangjie.FunctionCall

/-!
# Marshalling of primitives

`toExtern` of a value that is no object and no raw handle, and `fromExtern`, on an open runtime `r`.

* `Loc.converted` is what the engine makes of the value, and the local state after it: for `Int64`,
  `UInt32`, `UInt64` and `BigInt` the call of the global `BigInt` on the decimal text. `toExtern_run`
  says how `toExtern` ends.
* `valueAsString_spec` and the two specs of `numeric2Cangjie` say what `fromExtern` reads.
-/

namespace InteropJs

open Hoare

variable {P : Platform} {r : Nat} {b : World P} {l : Loc P} {L : Multiset Resource}

/-! ## `toExtern` -/

/-- A value that `toJSValue` makes a new JavaScript value of. -/
def Any.isPrimitive : Any → Bool
  | .externValue _ | .pointer _ | .other => false
  | _ => true

/-- `toJSValue` goes through the global `BigInt`. -/
def Any.isWide : Any → Bool
  | .int .int64 _ | .int .uint32 _ | .int .uint64 _ | .bigInt _ => true
  | _ => false

/-- What the engine makes of `v`, and the local state after it (module doc). -/
def Loc.converted (l : Loc P) (v : Any) : Option JSVal × Loc P :=
  match v with
  | .bool b => (some (.bool b), l.clearError)
  | .int .int8 i | .int .int16 i | .int .int32 i | .int .uint8 i | .int .uint16 i =>
    (some (.number (.finite i.val)), l.clearError)
  | .int .int64 i | .int .uint32 i | .int .uint64 i =>
    l.clearError.newBigint (mallocCString (toString i.val))
  | .bigInt i => l.clearError.newBigint (mallocCString (toString i))
  | .float _ x => (some (.number x), l.clearError)
  | .string s => ((P.newJSString (mallocCString s) l.heap).1.toOption,
      l.clearError.after (P.newJSString (mallocCString s) l.heap))
  | _ => (none, l)

/-- The value reaches the client: the engine made it, and there is memory for its handle. -/
def Loc.Converts (l : Loc P) (v : Any) : Prop := (l.converted v).2.delivers (l.converted v).1 = true

/-- How a new value is wrapped. -/
theorem newValue_spec {c : Call Ptr} {o : Option JSVal} {l' : Loc P}
    (hc : Triple (Run r b l L) c.run (Answer r b L o l')) :
    Runs (On r b l L) (do newRef (← valueFromRuntimeHandle (some r) (← c.prog)) : Prog JSValueRef)
      (fun ref s => ∃ x, o = some x ∧ l'.delivers o = true ∧ ref.handle = some b.nextValue ∧
        Granted r b l'.kept L x s.world)
      (fun _ s => l'.delivers o = false ∧ On r b (l'.lost o) L s) := by
  refine Runs.call hc fun p => ?_
  show Runs _ ((valueFromRuntimeHandle (some r) p).bind newRef) _ _
  intro s hs
  obtain ⟨x, ho, hd, rfl, hw⟩ | ⟨hd, rfl, hw⟩ := hs.cases
  · refine Runs.bind (valueFromRuntimeHandle_some (I := fun s => Granted r b l'.kept L x s.world) (some r)
      b.nextValue) (fun q => Runs.lift fun hq => ?_) s hw
    subst hq
    exact Runs.alloc (Q := fun ref s => ref.handle = some b.nextValue ∧ Granted r b l'.kept L x s.world)
      (fun s hs => ⟨rfl, hs⟩) fun ref => (Runs.ret ref).pre fun s ⟨hr, hs⟩ => ⟨x, ho, hd, hr, hs⟩
  · exact Runs.bind (Q := fun _ _ => False) (Runs.post valueFromRuntimeHandle_none (fun _ _ h => h)
      fun _ s h => ⟨hd, h.2⟩) (fun q => fun _ h => h.elim) s hw

theorem toJSValue_spec {v : Any} (hv : v.isPrimitive = true) :
    Runs (On r b l L) (JSRuntime.toJSValue (some r) v)
      (fun ref s => ∃ x, (l.converted v).1 = some x ∧ l.Converts v ∧ ref.handle = some b.nextValue ∧
        Granted r b (l.converted v).2.kept L x s.world)
      (fun _ s => ¬ l.Converts v ∧ On r b ((l.converted v).2.lost (l.converted v).1) L s) := by
  have wrap : ∀ {c : Call Ptr}, Triple (Run r b l L) c.run (Answer r b L (l.converted v).1 (l.converted v).2) →
      Runs (On r b l L) (do newRef (← valueFromRuntimeHandle (some r) (← c.prog)) : Prog JSValueRef)
        (fun ref s => ∃ x, (l.converted v).1 = some x ∧ l.Converts v ∧ ref.handle = some b.nextValue ∧
          Granted r b (l.converted v).2.kept L x s.world)
        (fun _ s => ¬ l.Converts v ∧ On r b ((l.converted v).2.lost (l.converted v).1) L s) := fun hc =>
    (newValue_spec hc).post (fun _ _ h => h) fun e s h => ⟨by simp [Loc.Converts, h.1], h.2⟩
  cases v with
  | externValue e => cases hv
  | pointer p => cases hv
  | other => cases hv
  | int t i =>
    cases t
    case int8 | int16 | int32 | uint8 | uint16 => exact wrap (jsRuntimeNewNumber_spec _)
    case int64 | uint32 | uint64 => exact wrap (jsRuntimeNewBigint_spec _)
  | bigInt i => exact wrap (jsRuntimeNewBigint_spec _)
  | float t x => exact wrap (jsRuntimeNewNumber_spec x)
  | bool b' =>
    refine wrap (Triple.post (jsRuntimeNewBool_spec _) fun p w h => ?_)
    cases b' <;> exact h
  | string s => exact wrap (jsRuntimeNewString_spec _)

/-- How `toExtern` of a primitive ends: with a new handle of what the engine made of it, or with an
exception. -/
theorem toExtern_run {v : Any} (hv : v.isPrimitive = true) {s : Store P} (hs : On r b l L s) :
    ∃ res s', (JSRuntime.toExtern (some r) v).exec.run s = .ok (res, s') ∧
      ((∃ ref x, res = .ok (.value ref) ∧ (l.converted v).1 = some x ∧ l.Converts v ∧
          ref.handle = some b.nextValue ∧ Granted r b (l.converted v).2.kept L x s'.world) ∨
        (∃ e, res = .error e) ∧ ¬ l.Converts v ∧
          On r b ((l.converted v).2.lost (l.converted v).1) L s') := by
  have hspec : Runs (On r b l L) (JSRuntime.toExtern (some r) v)
      (fun payload s => ∃ ref x, payload = .value ref ∧ (l.converted v).1 = some x ∧ l.Converts v ∧
        ref.handle = some b.nextValue ∧ Granted r b (l.converted v).2.kept L x s.world)
      (fun _ s => ¬ l.Converts v ∧ On r b ((l.converted v).2.lost (l.converted v).1) L s) :=
    Runs.bind (toJSValue_spec hv) fun ref => (Runs.ret _).pre fun s ⟨x, h⟩ => ⟨ref, x, rfl, h⟩
  obtain ⟨res, s', hrun, ⟨payload, rfl, ref, x, rfl, h⟩ | ⟨e, rfl, h⟩⟩ := hspec.run hs
  · exact ⟨_, s', hrun, .inl ⟨ref, x, rfl, h⟩⟩
  · exact ⟨_, s', hrun, .inr ⟨⟨e, rfl⟩, h⟩⟩

/-! ## `fromExtern` -/

/-- The handle that `toExtern` gave denotes the value. -/
theorem Granted.holds {x : JSVal} {w : World P} (h : Granted r b l L x w) :
    ∃ b' L', Run r b' l L' w ∧ b'.Holds b.nextValue r x := by
  obtain ⟨t, ht⟩ := h
  exact ⟨_, _, ht, t, by simp [World.addValue]⟩

/-- The payload holds a handle of `r` that denotes `x`. -/
def Payload.Denotes (e : Payload) (b : World P) (r : Nat) (x : JSVal) : Prop :=
  match e with
  | .value ref => ref.Denotes b r x
  | .pointer handle => ∃ p, handle = some p ∧ b.Holds p r x
  | _ => False

theorem externContentToValue_spec {e : Payload} {x : JSVal} (he : e.Denotes b r x)
    {err : Exn → Store P → Prop} :
    Runs (On r b l L) (externContentToValue e)
      (fun p s => (∃ q, p = some q ∧ b.Holds q r x) ∧ On r b l L s) err := by
  cases e with
  | value ref => exact Runs.touch ((Runs.ret _).pre fun s hs => ⟨he, hs⟩)
  | pointer handle =>
    refine Runs.alloc (Q := fun ref s => ref.handle = handle ∧ On r b l L s) (fun s hs => ⟨rfl, hs⟩)
      fun ref => Runs.lift fun href => ?_
    subst href
    exact Runs.touch ((Runs.ret _).pre fun s hs => ⟨he, hs⟩)
  | method f g => exact he.elim
  | other => exact he.elim

/-- A handle that was just granted denotes its value. -/
theorem Granted.denotes {x : JSVal} {w : World P} {ref : JSValueRef} (h : Granted r b l L x w)
    (href : ref.handle = some b.nextValue) :
    (∃ b' L', Run r b' l L' w ∧ (Payload.value ref).Denotes b' r x) ∧
      ∀ y, (Payload.value ref).Denotes w r y → y = x := by
  obtain ⟨b', L', hrun, hx⟩ := h.holds
  refine ⟨⟨b', L', hrun, b.nextValue, href, hx⟩, ?_⟩
  rintro y ⟨p, hp, t, ht⟩
  obtain ⟨e, -, hat⟩ := hrun
  obtain ⟨t', ht'⟩ := hx
  rw [href] at hp
  cases hp
  rw [hat.values, ht'] at ht
  cases ht
  rfl

section Read

variable {p : Nat} {x : JSVal}

theorem valueIs_spec {err : Exn → Store P → Prop} (hp : b.Holds p r x) (kind : Int) :
    Runs (On r b l L) (valueIs kind (some p))
      (fun ok s => ok = decide (x.kind.code = kind) ∧ On r b l L s) err := by
  refine Runs.call (jsValueKind_spec hp) fun k => Runs.lift fun hk => ?_
  subst hk
  exact (Runs.ret _).pre fun s hs => ⟨rfl, hs⟩

theorem valueIsText_spec {err : Exn → Store P → Prop} (hp : b.Holds p r x) :
    Runs (On r b l L) (valueIsText (some p))
      (fun ok s => ok = decide (x.kind.code = jsValueStringKind ∨ x.kind.code = jsValueBigIntKind) ∧
        On r b l L s) err := by
  refine Runs.bind (valueIs_spec hp jsValueStringKind) fun ok => Runs.lift fun hok => ?_
  subst hok
  by_cases hs : x.kind.code = jsValueStringKind
  · simp only [hs, decide_true, if_true, true_or]
    exact (Runs.ret _).pre fun s hs => ⟨rfl, hs⟩
  · simp only [hs, decide_false, Bool.false_eq_true, if_false, false_or]
    exact valueIs_spec hp jsValueBigIntKind

/-- What a read of the text gives, for the bytes that the bridge returned. -/
def readText (bytes : Option CStr) : Option String :=
  match bytes with
  | none => some ""
  | some bytes => bytes.string?

/-- The text of `x` is copied for the client: the engine converts `x`, and `malloc` gives the copy. -/
def Loc.Copies (l : Loc P) (x : JSVal) : Prop :=
  (P.toCString x l.heap).1.toOption.isSome = true ∧ (P.malloc l.host).1 = true

theorem readText_copied {bytes : CStr} (h : (P.toCString x l.heap).1 = .ok bytes)
    (hm : (P.malloc l.host).1 = true) : readText (l.toText x).1 = bytes.string? := by
  unfold Loc.toText
  rcases hx : P.toCString x l.heap with ⟨e | bytes', h'⟩
  · rw [hx] at h
    cases h
  · rw [hx] at h
    cases h
    simp only [hm, if_true, readText]
    rw [CStr.string?, CStr.string?, CStr.text_text]

/-- Without the copy the client reads the empty string. -/
theorem readText_lost (h : ¬ l.Copies x) : readText (l.toText x).1 = some "" := by
  unfold Loc.toText
  rcases hx : P.toCString x l.heap with ⟨e | bytes, h'⟩
  · rfl
  · have hm : ¬ (P.malloc l.host).1 = true := fun hm => h ⟨by rw [hx]; rfl, hm⟩
    simp only [hm]
    rfl

theorem valueAsString_spec (hp : b.Holds p r x)
    (hx : x.kind.code = jsValueStringKind ∨ x.kind.code = jsValueBigIntKind) :
    Runs (On r b l L) (valueAsString (some p))
      (fun m s => readText (l.toText x).1 = some m ∧ On r b (l.toText x).2 L s)
      (fun e s => readText (l.toText x).1 = none ∧ e = .illegalArgument ∧
        ∃ L', On r b (l.toText x).2 L' s) := by
  refine Runs.bind (valueIsText_spec hp) fun ok => Runs.lift fun hok => ?_
  subst hok
  simp only [hx, decide_true, Bool.not_true, Bool.false_eq_true, if_false]
  refine Runs.call (jsValueToString_spec hp) fun s => Runs.lift fun hs => ?_
  rw [← hs]
  cases s with
  | none =>
    refine (Runs.ret _).pre fun st hst => ⟨rfl, ?_⟩
    have hw : Run r b (l.toText x).2 (L + stringRes none) st.world := hst
    rwa [stringRes_none, add_zero] at hw
  | some s =>
    refine Runs.bind (Q := fun m st => s.bytes.string? = some m ∧
        Run r b (l.toText x).2 (L + {.string s.token}) st.world)
      (Runs.post (cStringToString_spec s.bytes) (fun _ _ h => h) fun e st h => ?_) fun m => ?_
    · exact ⟨h.1, h.2.1, _, h.2.2⟩
    · refine Runs.lift fun hm => ?_
      exact Runs.call (release_spec _) fun _ => (Runs.ret _).pre fun st hst => ⟨hm, hst⟩

/-- A numeric type is read from a number. -/
theorem numeric2Cangjie_number {y : Float64} (hp : b.Holds p r (.number y))
    {ofNumber : Float64 → Prog Any} {ofBigInt : Int → Prog Any} {ok : Any → Store P → Prop}
    {err : Exn → Store P → Prop} (h : Runs (On r b l L) (ofNumber y) ok err) :
    Runs (On r b l L) (numeric2Cangjie (some p) ofNumber ofBigInt) ok err := by
  have hkind : (JSVal.number y).kind.code = jsValueNumberKind := rfl
  refine Runs.bind (valueIs_spec hp jsValueNumberKind) fun isNumber => Runs.lift fun hn => ?_
  subst hn
  simp only [hkind, decide_true, if_true]
  refine Runs.bind (Q := fun z s => z = y ∧ On r b l L s) ?_ fun z => Runs.lift fun hz => by
    subst hz
    exact h
  refine Runs.bind (valueIs_spec hp jsValueNumberKind) fun isNumber => Runs.lift fun hn => ?_
  subst hn
  simp only [hkind, decide_true, Bool.not_true, Bool.false_eq_true, if_false]
  exact Runs.call (jsValueToNumber_spec hp) fun z => (Runs.ret z).pre fun s hs => hs

/-- A numeric type is read from a BigInt through its text. -/
theorem numeric2Cangjie_bigint {i : Int} (hp : b.Holds p r (.bigint i)) {ofNumber : Float64 → Prog Any}
    {ofBigInt : Int → Prog Any} {ok : Any → Store P → Prop} {err : Exn → Store P → Prop}
    (hok : ∀ m, readText (l.toText (.bigint i)).1 = some m →
      Runs (On r b (l.toText (.bigint i)).2 L) (do ofBigInt (← parseBigInt m)) ok err)
    (herr : readText (l.toText (.bigint i)).1 = none → ∀ s, err .illegalArgument s) :
    Runs (On r b l L) (numeric2Cangjie (some p) ofNumber ofBigInt) ok err := by
  have hkind : (JSVal.bigint i).kind.code = jsValueBigIntKind := rfl
  refine Runs.bind (valueIs_spec hp jsValueNumberKind) fun isNumber => Runs.lift fun hn => ?_
  subst hn
  simp only [hkind, show (jsValueBigIntKind = jsValueNumberKind) = False by decide, decide_false,
    Bool.false_eq_true, if_false]
  refine Runs.bind (valueIs_spec hp jsValueBigIntKind) fun isBigInt => Runs.lift fun hb => ?_
  subst hb
  simp only [hkind, decide_true, if_true]
  refine Runs.bind ((valueAsString_spec hp (.inr hkind)).post (fun _ _ h => h) fun e s h => ?_) fun m =>
    Runs.lift fun hm => hok m hm
  rw [h.2.1]
  exact herr h.1 s

end Read

end InteropJs
