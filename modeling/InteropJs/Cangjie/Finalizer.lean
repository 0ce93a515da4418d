import InteropJs.Cangjie.Paths
import InteropJs.Cangjie.Spec

/-!
# Finalisers during an operation

The finaliser of a `JSValueRef` calls `js_value_destroy` on its handle, and it may run as soon as no
later statement reads the object. The operations take the handle out of the object with `pointer()`
and go on with the raw handle, so an object that only the operation holds may be finalised before the
bridge call that its handle was taken for. `callValue` and `constructValue` read the function, and
`callValue` the receiver, in the statement of the call itself.

* `Op.Protected` is the condition: what is passed on belongs to objects that the caller reads later
  (`pinned`), or the operation ends before it passes anything on.
* `Op.safe_iff_protected`: it holds exactly when every schedule of finalisers on every path is safe.
-/

namespace InteropJs

open Finalizer

/-! ## The condition -/

/-- `toJSValue` throws. -/
def Any.Refused : Any → Prop
  | .externValue (.method _ _) | .externValue .other | .other => True
  | _ => False

/-- The handle of the object that `toJSValue` gives for an object or a raw handle. -/
def Any.handle? : Any → Ptr
  | .externValue (.value ref) => ref.handle
  | v => v.raw

/-- The index that `jsIndex` gives. -/
def Any.index? : Any → Option Int
  | .int .uint64 _ => none
  | .int _ i => some i.val
  | _ => none

/-- No array has an element at the index. -/
def Any.OutOfRange (arg : Any) : Prop := ∀ i, arg.index? = some i → i < 0 ∨ 2 ^ 63 - 1 ≤ i

/-- Neither a property name nor an index. -/
def Any.BadKey (arg : Any) : Prop := (∀ s, arg ≠ .string s) ∧ arg.index? = none

section Protected

variable (pinned : JSValueRef → Prop)

/-- `toJSValue` gives an object that is kept, or `f` itself. -/
def Any.HeldOr (f : JSValueRef → Prop) : Any → Prop
  | .externValue (.value ref) => Held pinned ref ∨ f ref
  | .externValue (.pointer h) | .pointer h => h = none
  | _ => False

/-- The update of `target` is protected. -/
def UpdateProtected (target : JSValueRef) (v : Any) : Prop :=
  v.Refused ∨ target.handle = none ∨ Held pinned target ∧ v.HeldOr pinned fun _ => False

/-- The arguments and the receiver of a call of `f` are protected; `f` is read in each of the two call
statements, the receiver in the first only. -/
def CallProtected (f : JSValueRef) (receiver : Option JSValueRef) (args : List Any) : Prop :=
  maxArgs < args.length ∨ (∃ v ∈ args, v.Refused) ∨
    (∀ v ∈ args, v.HeldOr pinned (· = f)) ∧ ∀ ref, receiver = some ref → ref = f ∨ Held pinned ref ∨
      ref.handle ≠ f.handle ∧ ∀ v ∈ args, v.handle? ≠ ref.handle

/-- The condition (module doc). -/
def Op.Protected : Op → Prop
  | .memberAccess (.value ref) _ => Held pinned ref
  | .memberUpdate (.value ref) _ v => UpdateProtected pinned ref v
  | .indexAccess (.value ref) arg => arg.BadKey ∨ Held pinned ref
  | .indexUpdate (.value ref) (.string _) v => UpdateProtected pinned ref v
  | .indexUpdate (.value ref) arg v => arg.BadKey ∨ UpdateProtected pinned ref v ∨
      arg.OutOfRange ∧ Held pinned ref ∧ v.handle? ≠ ref.handle
  | .functionCall (.value f) args => CallProtected pinned f none args
  | .functionCall (.method f receiver) args => CallProtected pinned f receiver args
  | .fromExtern t (.value ref) => t = .other ∨ Held pinned ref
  | .fromExtern t (.pointer h) => t = .other ∨ h = none
  | _ => True

end Protected

/-! ## Functions of raw handles -/

/-- `p` reads and creates no object, and passes on only handles of `U`. -/
def Prog.Plain {α : Type} (U : List Nat) : Prog α → Prop
  | .ret _ | .raise _ => True
  | .alloc _ _ | .touch _ _ => False
  | .native rs c k => rs = [] ∧ c.uses ⊆ U ∧ ∀ x, (k x).Plain U

section Plain

variable {α β : Type} {U V : List Nat} {p : Prog α} {f : α → Prog β}

theorem Prog.Plain.bind (hp : p.Plain U) (hf : ∀ a, (f a).Plain U) : (p.bind f).Plain U := by
  induction p with
  | ret a => exact hf a
  | raise e => trivial
  | alloc h k => exact hp.elim
  | touch rs k => exact hp.elim
  | native rs c k ih => exact ⟨hp.1, hp.2.1, fun x => ih x (hp.2.2 x)⟩

theorem Prog.Plain.ite {q : Prog α} {φ : Prop} [Decidable φ] (hp : p.Plain U) (hq : q.Plain U) :
    (if φ then p else q).Plain U := by
  by_cases hφ : φ
  · rwa [if_pos hφ]
  · rwa [if_neg hφ]

theorem Call.prog_plain {c : Call α} (h : c.uses ⊆ U) : c.prog.Plain U := ⟨rfl, h, fun _ => trivial⟩

/-- A plain program is clear, and exposes nothing. -/
theorem Prog.Plain.clear {pinned : JSValueRef → Prop} {old : Nat} {X : Set JSValueRef}
    {Q : α → Set JSValueRef → Prop} {E : Set JSValueRef → Prop} (h : p.Plain U)
    (hX : ∀ ref ∈ X, ∀ q ∈ U, ref.handle ≠ some q) (hQ : ∀ a, Q a X) (hE : E X) :
    p.Clear pinned old X Q E := by
  induction p with
  | ret a => exact hQ a
  | raise e => exact hE
  | alloc h' k => exact h.elim
  | touch rs k => exact h.elim
  | native rs c k ih =>
    obtain ⟨rfl, huses, hk⟩ := h
    refine ⟨fun ref href q hq hown => absurd hown (hX ref href q (huses hq)), fun x _ _ => ?_⟩
    rw [expose_nil]
    exact ih x (hk x)

theorem cStringToString_plain (s : CStr) : (cStringToString s).Plain U := by
  unfold cStringToString
  cases s.string? <;> trivial

theorem runtimeError_plain (runtime : Ptr) : (runtimeError runtime).Plain U :=
  (Call.prog_plain (by simp [Call.uses])).bind fun s => cStringToString_plain s

theorem valueFromCallHandle_plain (runtime p : Ptr) : (valueFromCallHandle runtime p).Plain U :=
  .ite ((runtimeError_plain runtime).bind fun _ => .ite trivial trivial) trivial

theorem ownedCStringToString_plain (s : Option OwnedString) : (ownedCStringToString s).Plain U := by
  cases s with
  | none => trivial
  | some s =>
    exact (cStringToString_plain s.bytes).bind fun _ =>
      (Call.prog_plain (by simp [Call.uses])).bind fun _ => trivial

theorem parseBigInt_plain (s : String) : (parseBigInt s).Plain U := by
  unfold parseBigInt
  cases s.toInt? <;> trivial

theorem ofInt_plain (t : IntType) (i : Int) : (t.ofInt i).Plain U := by
  unfold IntType.ofInt
  split <;> trivial

theorem ofFloat64_plain (t : IntType) (x : Float64) : (t.ofFloat64 x).Plain U := by
  unfold IntType.ofFloat64
  cases x <;> first | exact ofInt_plain t _ | trivial

theorem bigIntOfFloat64_plain (x : Float64) : (bigIntOfFloat64 x).Plain U := by
  unfold bigIntOfFloat64
  cases x <;> trivial

theorem valueKind_plain (p : Ptr) : (valueKind p).Plain p.toList :=
  .ite trivial (Call.prog_plain (List.Subset.refl _))

theorem valueIs_plain (kind : Int) (p : Ptr) : (valueIs kind p).Plain p.toList :=
  (valueKind_plain p).bind fun _ => trivial

theorem valueIsText_plain (p : Ptr) : (valueIsText p).Plain p.toList :=
  (valueIs_plain _ p).bind fun _ => .ite trivial (valueIs_plain _ p)

theorem valueHasProperties_plain (p : Ptr) : (valueHasProperties p).Plain p.toList :=
  (valueIs_plain _ p).bind fun _ => .ite trivial (valueIs_plain _ p)

theorem Prog.Plain.mono (h : p.Plain U) (hUV : U ⊆ V) : p.Plain V := by
  induction p with
  | ret a => trivial
  | raise e => trivial
  | alloc h' k => exact h.elim
  | touch rs k => exact h.elim
  | native rs c k ih => exact ⟨h.1, List.Subset.trans h.2.1 hUV, fun x => ih x (h.2.2 x)⟩

theorem getProperty_plain (p : Ptr) (name : String) : (getProperty p name).Plain p.toList :=
  (valueHasProperties_plain p).bind fun _ => .ite trivial <|
    (Call.prog_plain (List.Subset.refl _)).bind fun _ => .ite trivial trivial

theorem setProperty_plain (p q : Ptr) (name : String) :
    (setProperty p name q).Plain (p.toList ++ q.toList) :=
  ((valueHasProperties_plain p).mono (List.subset_append_left _ _)).bind fun _ => .ite trivial <|
    (Call.prog_plain (List.Subset.refl _)).bind fun _ => .ite trivial trivial

theorem getIndex_plain (p : Ptr) (index : Int) : (getIndex p index).Plain p.toList :=
  .bind (.bind (Call.prog_plain (List.Subset.refl _)) fun _ => trivial) fun _ => .ite trivial <|
    .bind (Call.prog_plain (List.Subset.refl _)) fun _ => .ite trivial <|
      .bind (Call.prog_plain (List.Subset.refl _)) fun _ => .ite trivial trivial

theorem setIndex_plain (p q : Ptr) (index : Int) :
    (setIndex p index q).Plain (p.toList ++ q.toList) :=
  .bind (.bind (Call.prog_plain (List.subset_append_left _ _)) fun _ => trivial) fun _ => .ite trivial <|
    .bind (Call.prog_plain (List.subset_append_left _ _)) fun _ => .ite trivial <|
      .bind (Call.prog_plain (List.Subset.refl _)) fun _ => .ite trivial trivial

theorem jsIndex_plain (arg : Any) : (jsIndex arg).Plain U := by
  unfold jsIndex
  split <;> trivial

theorem numeric2Cangjie_plain (p : Ptr) {ofNumber : Float64 → Prog Any} {ofBigInt : Int → Prog Any}
    (hn : ∀ x, (ofNumber x).Plain p.toList) (hb : ∀ i, (ofBigInt i).Plain p.toList) :
    (numeric2Cangjie p ofNumber ofBigInt).Plain p.toList := by
  have text : (valueAsString p).Plain p.toList :=
    (valueIsText_plain p).bind fun _ => .ite trivial <|
      (Call.prog_plain (List.Subset.refl _)).bind fun s => ownedCStringToString_plain s
  have number : (valueAsFloat64 p).Plain p.toList :=
    (valueIs_plain _ p).bind fun _ => .ite trivial (Call.prog_plain (List.Subset.refl _))
  exact (valueIs_plain _ p).bind fun _ => .ite (number.bind hn) <|
    (valueIs_plain _ p).bind fun _ => .ite
      (text.bind fun s => (parseBigInt_plain s).bind hb) trivial

theorem quickJS2Cangjie_plain (p : Ptr) (t : Target) : (quickJS2Cangjie p t).Plain p.toList := by
  cases t with
  | bool =>
    exact (valueIs_plain _ p).bind fun _ => .ite (.bind ((valueIs_plain _ p).bind fun _ => .ite trivial <|
      (Call.prog_plain (List.Subset.refl _)).bind fun _ => trivial) fun _ => trivial) trivial
  | string =>
    exact (valueIsText_plain p).bind fun _ => .ite (.bind ((valueIsText_plain p).bind fun _ =>
      .ite trivial <| (Call.prog_plain (List.Subset.refl _)).bind fun s =>
        ownedCStringToString_plain s) fun _ => trivial) trivial
  | int t =>
    exact numeric2Cangjie_plain p (fun x => (ofFloat64_plain t x).bind fun _ => trivial)
      fun i => (ofInt_plain t i).bind fun _ => trivial
  | bigInt =>
    exact numeric2Cangjie_plain p (fun x => (bigIntOfFloat64_plain x).bind fun _ => trivial)
      fun _ => trivial
  | float t => exact numeric2Cangjie_plain p (fun _ => trivial) fun _ => trivial
  | other => trivial

end Plain

/-! ## Protected operations are clear -/

section Clear

variable {pinned : JSValueRef → Prop} {old : Nat} {X : Set JSValueRef}

/-- The object `ref` that `toJSValue` makes of `v`, and the exposed objects after it. -/
def Any.Becomes (pinned : JSValueRef → Prop) (old : Nat) (v : Any) (X : Set JSValueRef)
    (ref : JSValueRef) (X' : Set JSValueRef) : Prop :=
  match v with
  | .externValue (.value r) => ref = r ∧ X' = X
  | .externValue (.pointer h) | .pointer h => ref.handle = h ∧ ¬ pinned ref ∧ X' = expose pinned X [ref]
  | .externValue (.method _ _) | .externValue .other | .other => False
  | _ => (∃ q, old ≤ q ∧ ref.handle = some q) ∧ ¬ pinned ref ∧ X' = expose pinned X [ref]

theorem newRef_clear {h : Ptr} {Q : JSValueRef → Set JSValueRef → Prop} {E : Set JSValueRef → Prop}
    (hQ : ∀ ref, ref.handle = h → ¬ pinned ref → Q ref (expose pinned X [ref])) :
    (newRef h).Clear pinned old X Q E := fun ref hr hp => hQ ref hr hp

/-- `throw` of the runtime's error. -/
theorem throwRuntimeError_clear {α : Type} {runtime : Ptr} {exn : String → Exn}
    {Q : α → Set JSValueRef → Prop} {E : Set JSValueRef → Prop} (hE : E X) :
    (do Prog.raise (exn (← runtimeError runtime)) : Prog α).Clear pinned old X Q E :=
  .bind ((runtimeError_plain (U := []) runtime).clear (by simp) (fun _ => hE) hE)

/-- A call that makes a handle, and the object that wraps it. -/
theorem newValue_clear {runtime : Ptr} {c : Call Ptr} {Q : JSValueRef → Set JSValueRef → Prop}
    {E : Set JSValueRef → Prop} (huses : c.uses = []) (hgiven : ∀ p, c.given p = p)
    (hQ : ∀ ref q, old ≤ q → ref.handle = some q → ¬ pinned ref → Q ref (expose pinned X [ref]))
    (hE : E X) :
    (do newRef (← valueFromRuntimeHandle runtime (← c.prog)) : Prog JSValueRef).Clear pinned old X Q E := by
  refine ⟨by simp [huses], fun p _ hp => ?_⟩
  rw [expose_nil]
  rw [hgiven] at hp
  show ((valueFromRuntimeHandle runtime p).bind newRef).Clear pinned old X Q E
  refine .bind ?_
  cases p with
  | none => exact throwRuntimeError_clear hE
  | some q => exact newRef_clear fun ref hr hpin => hQ ref q (hp q rfl) hr hpin

theorem toJSValue_clear {runtime : Ptr} (v : Any) {Q : JSValueRef → Set JSValueRef → Prop}
    {E : Set JSValueRef → Prop} (hQ : ∀ ref X', v.Becomes pinned old X ref X' → Q ref X') (hE : E X) :
    (JSRuntime.toJSValue runtime v).Clear pinned old X Q E := by
  cases v with
  | externValue e =>
    cases e with
    | value ref => exact hQ ref X ⟨rfl, rfl⟩
    | method f r => exact hE
    | pointer h => exact newRef_clear fun ref hr hp => hQ ref _ ⟨hr, hp, rfl⟩
    | other => exact hE
  | pointer h => exact newRef_clear fun ref hr hp => hQ ref _ ⟨hr, hp, rfl⟩
  | int t i =>
    cases t <;> exact newValue_clear rfl (fun _ => rfl)
      (fun ref q hq hr hp => hQ ref _ ⟨⟨q, hq, hr⟩, hp, rfl⟩) hE
  | other => exact hE
  | _ =>
    exact newValue_clear rfl (fun _ => rfl)
      (fun ref q hq hr hp => hQ ref _ ⟨⟨q, hq, hr⟩, hp, rfl⟩) hE

/-- A kept argument exposes nothing that is not exposed by being read. -/
theorem Any.Becomes.held {v : Any} {ref : JSValueRef} {X' : Set JSValueRef} {f : JSValueRef → Prop}
    (h : v.Becomes pinned old X ref X') (hv : v.HeldOr pinned f) :
    X' = X ∧ (Held pinned ref ∨ f ref) ∧ ref.handle = v.handle? := by
  have null : ∀ {h : Ptr}, ref.handle = h ∧ ¬ pinned ref ∧ X' = expose pinned X [ref] → h = none →
      X' = X ∧ (Held pinned ref ∨ f ref) ∧ ref.handle = h := by
    rintro h ⟨hr, -, rfl⟩ rfl
    have hheld : Held pinned ref := .inr hr
    exact ⟨expose_held (by simpa using hheld), .inl hheld, hr⟩
  cases v with
  | externValue e =>
    cases e with
    | value r =>
      obtain ⟨rfl, rfl⟩ := h
      exact ⟨rfl, hv, rfl⟩
    | pointer p => exact null h hv
    | method f r => exact hv.elim
    | other => exact hv.elim
  | pointer p => exact null h hv
  | _ => exact hv.elim

theorem Any.Becomes.not_refused {v : Any} {ref : JSValueRef} {X' : Set JSValueRef}
    (h : v.Becomes pinned old X ref X') : ¬ v.Refused := by
  intro hv
  cases v with
  | externValue e => cases e <;> first | exact h | exact hv
  | other => exact h
  | _ => exact hv

/-- What `v` exposes is the object that it becomes, and this has another handle than `target`. -/
theorem Any.Becomes.other_handle {v : Any} {ref target : JSValueRef} {X' : Set JSValueRef}
    (h : v.Becomes pinned old ∅ ref X') (hv : v.handle? ≠ target.handle)
    (hold : ∀ q, target.handle = some q → q < old) :
    (∀ o ∈ X', o = ref) ∧ (ref.handle = none ∨ ref.handle ≠ target.handle) := by
  have exposed : ∀ {X : Set JSValueRef}, X = expose pinned ∅ [ref] → ∀ o ∈ X, o = ref := by
    rintro _ rfl o (ho | ⟨ho, -⟩)
    · exact ho.elim
    · simpa using ho
  have fresh : (∃ q, old ≤ q ∧ ref.handle = some q) ∧ ¬ pinned ref ∧ X' = expose pinned ∅ [ref] →
      (∀ o ∈ X', o = ref) ∧ (ref.handle = none ∨ ref.handle ≠ target.handle) := by
    rintro ⟨⟨q, hq, hr⟩, -, hX⟩
    refine ⟨exposed hX, .inr fun heq => ?_⟩
    exact absurd (hold q (heq.symm.trans hr)) (not_lt.mpr hq)
  cases v with
  | externValue e =>
    cases e with
    | value r =>
      obtain ⟨rfl, rfl⟩ := h
      exact ⟨fun o ho => ho.elim, .inr hv⟩
    | pointer p =>
      obtain ⟨hr, -, hX⟩ := h
      refine ⟨exposed hX, .inr ?_⟩
      rw [hr]
      exact hv
    | method f r => exact h.elim
    | other => exact h.elim
  | pointer p =>
    obtain ⟨hr, -, hX⟩ := h
    refine ⟨exposed hX, .inr ?_⟩
    rw [hr]
    exact hv
  | other => exact h.elim
  | int t i => exact fresh h
  | bigInt i => exact fresh h
  | float t x => exact fresh h
  | bool b => exact fresh h
  | string s => exact fresh h

variable {runtime : Ptr} {target : JSValueRef}

/-- Nothing is exposed, so a function of raw handles passes on none of it. -/
theorem Prog.Plain.clear_empty {α : Type} {U : List Nat} {p : Prog α}
    {Q : α → Set JSValueRef → Prop} {E : Set JSValueRef → Prop} (h : p.Plain U)
    (hQ : ∀ a, Q a ∅) (hE : E ∅) : p.Clear pinned old ∅ Q E :=
  h.clear (fun _ hr => hr.elim) hQ hE

theorem pointer_clear {ref : JSValueRef} {Q : Ptr → Set JSValueRef → Prop}
    {E : Set JSValueRef → Prop} (h : Q ref.handle (expose pinned X [ref])) :
    ref.pointer.Clear pinned old X Q E := h

/-- What `memberUpdate` and `indexUpdate` have in common: `set` is `setProperty` or `setIndex`. -/
def updateWith (runtime : Ptr) (target : JSValueRef) (v : Any) (set : Ptr → Ptr → Prog Unit) :
    Prog Unit := do
  let jsValue ← JSRuntime.toJSValue runtime v
  let p ← target.pointer
  set p (← jsValue.pointer)

/-- An update whose two handles stay. -/
theorem update_clear {v : Any} (set : Ptr → Ptr → Prog Unit)
    (hset : ∀ p q, (set p q).Plain (p.toList ++ q.toList)) (hnull : ∀ q X, (set none q).Clear pinned old X
      (fun _ _ => True) fun _ => True)
    (h : UpdateProtected pinned target v) :
    (updateWith runtime target v set).Clear pinned old ∅ (fun _ _ => True) fun _ => True := by
  refine Prog.Clear.bind (toJSValue_clear v (fun ref X' hb => ?_) trivial)
  obtain hv | hn | ⟨htarget, hv⟩ := h
  · exact absurd hv hb.not_refused
  · refine Prog.Clear.bind (pointer_clear (Prog.Clear.bind (pointer_clear ?_)))
    rw [hn]
    exact hnull _ _
  · obtain ⟨rfl, hheld, -⟩ := hb.held hv
    refine Prog.Clear.bind (pointer_clear (Prog.Clear.bind (pointer_clear ?_)))
    rw [expose_held (by simpa using hheld), expose_held (by simpa using htarget)]
    exact (hset _ _).clear_empty (fun _ => trivial) trivial

/-- The object around a result is made when nothing is passed on any more. -/
theorem Prog.Clear.jsExtern {p : Prog Ptr} {E : Set JSValueRef → Prop}
    (h : p.Clear pinned old X (fun _ _ => True) E) :
    (p.bind InteropJs.jsExtern).Clear pinned old X (fun _ _ => True) E :=
  .bind (h.post (fun _ _ _ _ _ _ => trivial) fun _ h => h)

theorem memberAccess_clear {value : JSValueRef} (h : Held pinned value) (field : String) :
    (JSRuntime.memberAccess (.value value) field).Clear pinned old ∅ (fun _ _ => True) fun _ => True := by
  refine Prog.Clear.bind (pointer_clear ?_)
  rw [expose_held (by simpa using h)]
  refine Prog.Clear.bind ((getProperty_plain _ field).clear_empty (fun p => ?_) trivial)
  refine Prog.Clear.bind ((valueIs_plain _ p).clear_empty (fun isFunction => ?_) trivial)
  by_cases hf : isFunction = true
  · rw [if_pos hf]
    exact fun _ _ _ => trivial
  · rw [if_neg hf]
    exact fun _ _ _ => trivial

theorem jsIndex_eq {arg : Any} {i : Int} (h : arg.index? = some i) : jsIndex arg = .ret i := by
  cases arg with
  | int t v => cases t <;> cases h <;> rfl
  | _ => cases h

theorem jsIndex_none {arg : Any} (h : arg.index? = none) : ∃ e, jsIndex arg = .raise e := by
  cases arg with
  | int t v => cases t <;> first | exact ⟨_, rfl⟩ | cases h
  | _ => exact ⟨_, rfl⟩

/-- `indexAccess` and `indexUpdate` on a key that is no string. -/
theorem indexAccess_eq {value : JSValueRef} {arg : Any} (h : ∀ s, arg ≠ .string s) :
    JSRuntime.indexAccess (.value value) arg = (do
      let p ← value.pointer
      jsExtern (← getIndex p (← jsIndex arg))) := by
  cases arg with
  | string s => exact absurd rfl (h s)
  | _ => rfl

theorem indexUpdate_eq {arg v : Any} (h : ∀ s, arg ≠ .string s) :
    JSRuntime.indexUpdate runtime (.value target) arg v = (do
      let jsValue ← JSRuntime.toJSValue runtime v
      let p ← target.pointer
      let index ← jsIndex arg
      setIndex p index (← jsValue.pointer)) := by
  cases arg with
  | string s => exact absurd rfl (h s)
  | _ => rfl

theorem indexAccess_clear {value : JSValueRef} {arg : Any} (h : arg.BadKey ∨ Held pinned value) :
    (JSRuntime.indexAccess (.value value) arg).Clear pinned old ∅ (fun _ _ => True) fun _ => True := by
  by_cases hkey : ∃ s, arg = .string s
  · obtain ⟨s, rfl⟩ := hkey
    have hheld : Held pinned value := h.resolve_left fun hbad => hbad.1 s rfl
    refine Prog.Clear.bind (pointer_clear ?_)
    rw [expose_held (by simpa using hheld)]
    exact Prog.Clear.jsExtern ((getProperty_plain _ s).clear_empty (fun _ => trivial) trivial)
  · rw [indexAccess_eq (not_exists.mp hkey)]
    refine Prog.Clear.bind (pointer_clear ?_)
    cases hidx : arg.index? with
    | none =>
      obtain ⟨e, he⟩ := jsIndex_none hidx
      rw [he]
      trivial
    | some i =>
      have hheld : Held pinned value := h.resolve_left fun hbad => by
        rw [hbad.2] at hidx
        cases hidx
      rw [jsIndex_eq hidx, expose_held (by simpa using hheld)]
      show ((getIndex value.handle i).bind jsExtern).Clear pinned old ∅ _ _
      exact Prog.Clear.jsExtern ((getIndex_plain _ i).clear_empty (fun _ => trivial) trivial)

theorem setProperty_null (q : Ptr) (name : String) :
    (setProperty none name q).Clear pinned old X (fun _ _ => True) fun _ => True := trivial

theorem setIndex_null (q : Ptr) (index : Int) :
    (setIndex none index q).Clear pinned old X (fun _ _ => True) fun _ => True := by
  refine ⟨by simp [Call.uses], fun x hx _ => ?_⟩
  cases hx
  trivial

/-- An index that no array has is refused before the value is passed on. -/
theorem setIndex_outOfRange {p q : Ptr} {index : Int} (hi : index < 0 ∨ 2 ^ 63 - 1 ≤ index)
    (hX : ∀ ref ∈ X, ∀ t ∈ p.toList, ref.handle ≠ some t) :
    (setIndex p index q).Clear pinned old X (fun _ _ => True) fun _ => True := by
  have use : ∀ ref ∈ X, ∀ t ∈ p.toList, ref.handle = some t → ref ∈ ([] : List JSValueRef) :=
    fun ref href t ht hown => absurd hown (hX ref href t ht)
  refine ⟨use, fun x _ _ => ?_⟩
  rw [expose_nil]
  show (if (!decide (x ≠ 0)) = true then _ else _ : Prog Unit).Clear pinned old X _ _
  by_cases hx : (!decide (x ≠ 0)) = true
  · rw [if_pos hx]
    trivial
  · rw [if_neg hx]
    refine ⟨use, fun length hlength _ => ?_⟩
    have hlength : length < 2 ^ 63 := hlength
    rw [expose_nil]
    show (if index < 0 ∨ length ≤ index then _ else _ : Prog Unit).Clear pinned old X _ _
    rw [if_pos (by omega)]
    trivial

theorem indexUpdate_clear {arg v : Any} (hold : ∀ q, target.handle = some q → q < old)
    (h : (Op.indexUpdate (.value target) arg v).Protected pinned) :
    (JSRuntime.indexUpdate runtime (.value target) arg v).Clear pinned old ∅ (fun _ _ => True)
      fun _ => True := by
  by_cases hkey : ∃ s, arg = .string s
  · obtain ⟨s, rfl⟩ := hkey
    exact update_clear (fun p q => setProperty p s q) (fun p q => setProperty_plain p q s)
      (fun q X => setProperty_null q s) h
  · have hkey := not_exists.mp hkey
    have h : arg.BadKey ∨ UpdateProtected pinned target v ∨
        arg.OutOfRange ∧ Held pinned target ∧ v.handle? ≠ target.handle := by
      cases arg with
      | string s => exact absurd rfl (hkey s)
      | _ => exact h
    rw [indexUpdate_eq hkey]
    cases hidx : arg.index? with
    | none =>
      obtain ⟨e, he⟩ := jsIndex_none hidx
      rw [he]
      exact Prog.Clear.bind (toJSValue_clear v (fun _ _ _ => trivial) trivial)
    | some i =>
      rw [jsIndex_eq hidx]
      obtain hbad | h | ⟨hrange, hheld, hv⟩ := h
      · rw [hbad.2] at hidx
        cases hidx
      · exact update_clear (fun p q => setIndex p i q) (fun p q => setIndex_plain p q i)
          (fun q X => setIndex_null q i) h
      · refine Prog.Clear.bind (toJSValue_clear v (fun ref X' hb => ?_) trivial)
        obtain ⟨hX, hother⟩ := hb.other_handle hv hold
        refine Prog.Clear.bind (pointer_clear ?_)
        show (ref.pointer.bind (setIndex target.handle i)).Clear pinned old _ _ _
        refine Prog.Clear.bind (pointer_clear ?_)
        have htarget : ∀ o ∈ [target], Held pinned o := by simpa using hheld
        rw [expose_held htarget]
        refine setIndex_outOfRange (hrange i hidx) fun o ho t ht hown => ?_
        have horef : o = ref := by
          obtain ho | ⟨ho, -⟩ := ho
          · exact hX o ho
          · simpa using ho
        subst horef
        rw [Option.mem_toList] at ht
        obtain hnone | hne := hother
        · rw [hnone] at hown
          cases hown
        · exact hne (hown.trans ht.symm)

theorem toJSValues_clear (f : JSValueRef → Prop) (args : List Any) :
    (JSRuntime.toJSValues runtime args).Clear pinned old X (fun refs X' => refs.length = args.length ∧
      (∀ v ∈ args, ¬ v.Refused) ∧ ((∀ v ∈ args, v.HeldOr pinned f) → X' = X ∧
        ∀ ref ∈ refs, (Held pinned ref ∨ f ref) ∧ ∃ v ∈ args, ref.handle = v.handle?)) fun _ => True := by
  induction args generalizing X with
  | nil => exact ⟨rfl, by simp, by simp⟩
  | cons v args ih =>
    refine Prog.Clear.bind (toJSValue_clear v (fun ref X' hb => ?_) trivial)
    refine Prog.Clear.bind (Prog.Clear.post ih (fun refs X'' h => ?_) fun _ _ => trivial)
    obtain ⟨hlen, hrefused, hheld⟩ := h
    refine ⟨by simp [hlen], ?_, fun hargs => ?_⟩
    · intro u hu
      rcases List.mem_cons.mp hu with rfl | hu
      · exact hb.not_refused
      · exact hrefused u hu
    · obtain ⟨rfl, href, hhandle⟩ := hb.held (hargs v List.mem_cons_self)
      obtain ⟨rfl, hrefs⟩ := hheld fun u hu => hargs u (List.mem_cons_of_mem v hu)
      refine ⟨rfl, fun o ho => ?_⟩
      rcases List.mem_cons.mp ho with rfl | ho
      · exact ⟨href, v, List.mem_cons_self, hhandle⟩
      · obtain ⟨h₁, u, hu, h₂⟩ := hrefs o ho
        exact ⟨h₁, u, List.mem_cons_of_mem v hu, h₂⟩

section Call

variable {f this : JSValueRef} {jsArgs : List JSValueRef}

/-- The objects that may be exposed after the call statement. -/
def CallExposed (pinned : JSValueRef → Prop) (f this : JSValueRef) : Set JSValueRef :=
  {o | o = f ∨ o = this ∧ ¬ Held pinned this}

theorem expose_args (hargs : ∀ ref ∈ jsArgs, Held pinned ref ∨ ref = f)
    (hX : X ⊆ CallExposed pinned f this) : expose pinned X jsArgs ⊆ CallExposed pinned f this := by
  rintro o (ho | ⟨ho, hn⟩)
  · exact hX ho
  · exact .inl ((hargs o ho).resolve_left hn)

theorem callValue_clear (hlen : jsArgs.length ≤ maxArgs) (hargs : ∀ ref ∈ jsArgs, Held pinned ref ∨ ref = f) :
    (JSRuntime.callValue runtime f this jsArgs).Clear pinned old ∅ (fun _ _ => True)
      (· ⊆ CallExposed pinned f this) := by
  obtain ⟨⟨_, _, _⟩, rfl, hofInt⟩ := int32_ofInt_length hlen
  unfold JSRuntime.callValue
  rw [hofInt]
  have hX : expose pinned ∅ jsArgs ⊆ {f} := by
    rintro o (ho | ⟨ho, hn⟩)
    · exact ho.elim
    · exact (hargs o ho).resolve_left hn
  refine ⟨fun ref href _ _ _ => ?_, fun p _ _ => ?_⟩
  · rw [hX href]
    exact List.mem_cons_self
  · refine (valueFromCallHandle_plain (U := []) runtime p).clear (by simp) (fun _ => trivial) ?_
    rintro o (ho | ⟨ho, hn⟩)
    · exact .inl (hX ho)
    · simp only [List.mem_cons, List.not_mem_nil, or_false] at ho
      rcases ho with rfl | rfl
      · exact .inl rfl
      · exact .inr ⟨rfl, hn⟩

theorem constructValue_clear (hlen : jsArgs.length ≤ maxArgs)
    (hargs : ∀ ref ∈ jsArgs, Held pinned ref ∨ ref = f) (hX : X ⊆ CallExposed pinned f this)
    (hthis : this = f ∨ Held pinned this ∨ this.handle ≠ f.handle ∧
      ∀ ref ∈ jsArgs, ref.handle ≠ this.handle) :
    (JSRuntime.constructValue runtime f jsArgs).Clear pinned old X (fun _ _ => True) fun _ => True := by
  obtain ⟨⟨_, _, _⟩, rfl, hofInt⟩ := int32_ofInt_length hlen
  unfold JSRuntime.constructValue
  rw [hofInt]
  refine ⟨fun ref href q hq hown => ?_, fun p _ _ => ?_⟩
  · rw [List.mem_singleton]
    obtain rfl | ⟨rfl, hn⟩ := expose_args hargs hX href
    · rfl
    · obtain hf | hheld | ⟨hf, hrefs⟩ := hthis
      · exact hf
      · exact absurd hheld hn
      · -- the handle of the receiver is not among those passed on
        simp only [Call.uses, Option.getD_some, List.mem_append, Option.mem_toList, List.mem_flatMap,
          List.mem_map] at hq
        obtain hq | ⟨_, ⟨o, ho, rfl⟩, hq⟩ := hq
        · exact absurd (hown.trans hq.symm) hf
        · exact absurd (hq.trans hown.symm) (hrefs o ho)
  · exact (valueFromCallHandle_plain (U := []) runtime p).clear (by simp) (fun _ => trivial) trivial

/-- With more arguments than `Int32` counts, neither attempt reaches the bridge. -/
theorem callValue_overflow_clear (hlen : maxArgs < jsArgs.length) {E : Set JSValueRef → Prop}
    (hE : ∀ X, E X) :
    (JSRuntime.callValue runtime f this jsArgs).Clear pinned old X (fun _ _ => True) E := by
  unfold JSRuntime.callValue
  rw [int32_ofInt_overflow hlen]
  exact hE _

theorem constructValue_overflow_clear (hlen : maxArgs < jsArgs.length) :
    (JSRuntime.constructValue runtime f jsArgs).Clear pinned old X (fun _ _ => True) fun _ => True := by
  unfold JSRuntime.constructValue
  rw [int32_ofInt_overflow hlen]
  trivial

theorem callOrConstruct_clear {receiver : Prog JSValueRef} {args : List Any} (recv : Option JSValueRef)
    (hrec : ∀ X, receiver.Clear pinned old X
      (fun this X' => X' = X ∧ (Held pinned this ∨ recv = some this)) fun _ => False)
    (h : CallProtected pinned f recv args) :
    (JSRuntime.callOrConstruct runtime f receiver args).Clear pinned old ∅ (fun _ _ => True)
      fun _ => True := by
  refine Prog.Clear.bind (Prog.Clear.post (toJSValues_clear (· = f) args) (fun jsArgs X h' => ?_)
    fun _ _ => trivial)
  obtain ⟨hlen, hrefused, hheld⟩ := h'
  refine Prog.Clear.tryCatch <| Prog.Clear.bind <| Prog.Clear.post (hrec X) (fun this X' hthis => ?_)
    fun _ h => h.elim
  obtain ⟨rfl, hthis⟩ := hthis
  refine Prog.Clear.jsExtern ?_
  by_cases hmax : jsArgs.length ≤ maxArgs
  · obtain hmax' | ⟨v, hv, href⟩ | ⟨hargs, hrecv⟩ := h
    · rw [← hlen] at hmax'
      exact absurd hmax (not_le.mpr hmax')
    · exact absurd href (hrefused v hv)
    · obtain ⟨rfl, hrefs⟩ := hheld hargs
      refine Prog.Clear.post (callValue_clear hmax fun ref hr => (hrefs ref hr).1) (fun _ _ h => h)
        fun X hX e => Prog.Clear.jsExtern (constructValue_clear hmax (fun ref hr => (hrefs ref hr).1) hX ?_)
      obtain hheld' | hrecv' := hthis
      · exact .inr (.inl hheld')
      · refine (hrecv this hrecv').imp_right (Or.imp_right (And.imp_right fun hne ref hr => ?_))
        obtain ⟨-, v, hv, hhandle⟩ := hrefs ref hr
        rw [hhandle]
        exact hne v hv
  · have hmax := not_le.mp hmax
    exact callValue_overflow_clear hmax fun X e => (constructValue_overflow_clear hmax).jsExtern

end Call

end Clear

/-- A protected operation is safe under every schedule. -/
theorem Op.Protected.safe {pinned : JSValueRef → Prop} {i : Counters} {runtime : Ptr} {op : Op}
    (hpin : ∀ ref, pinned ref → ref.id < i.ref)
    (hold : ∀ ref ∈ op.refs, ∀ q, ref.handle = some q → q < i.value) (h : op.Protected pinned) :
    (op.prog runtime).SafeUnder pinned i := by
  refine Prog.Clear.safeUnder (Q := fun _ _ => True) (E := fun _ => True) ?_ hpin
  have result : ∀ c : Call Ptr, c.uses = [] → (do
      let value ← c.prog
      if value.isNone then .raise (.dynamic (← runtimeError runtime)) else jsExtern value :
      Prog Payload).Clear pinned i.value ∅ (fun _ _ => True) fun _ => True := by
    intro c hc
    refine ⟨by simp [hc], fun p _ _ => ?_⟩
    rw [expose_nil]
    cases p with
    | none => exact throwRuntimeError_clear trivial
    | some q => exact fun _ _ _ => trivial
  cases op with
  | evalScript source => exact result _ rfl
  | enableStdModule =>
    refine (Prog.Plain.bind (U := []) (Call.prog_plain (by simp [Call.uses])) fun status => ?_).clear_empty
      (fun _ => trivial) trivial
    exact .ite ((runtimeError_plain runtime).bind fun _ => trivial) trivial
  | globalAccess name => exact result _ rfl
  | getModule moduleName => exact result _ rfl
  | memberAccess e field =>
    cases e with
    | value ref => exact memberAccess_clear h field
    | _ => trivial
  | memberUpdate e field v =>
    cases e with
    | value ref =>
      exact update_clear (fun p q => setProperty p field q)
        (fun p q => setProperty_plain p q field) (fun q X => setProperty_null q field) h
    | _ => trivial
  | indexAccess e arg =>
    cases e with
    | value ref => exact indexAccess_clear h
    | _ => trivial
  | indexUpdate e arg v =>
    cases e with
    | value ref => exact indexUpdate_clear (hold ref (by simp [Op.refs, Payload.refs])) h
    | _ => trivial
  | functionCall e args =>
    cases e with
    | value f =>
      refine callOrConstruct_clear none (fun X this hnull _ => ?_) h
      have hheld : Held pinned this := .inr hnull
      exact ⟨expose_held (by simpa using hheld), .inl hheld⟩
    | method f receiver =>
      exact callOrConstruct_clear (some receiver) (fun X => ⟨rfl, .inr rfl⟩) h
    | _ => trivial
  | fromExtern t e =>
    have raw : ∀ p : Ptr, (t = .other ∨ p = none) → ∀ X, (quickJS2Cangjie p t).Clear pinned i.value X
        (fun _ _ => True) fun _ => True := by
      rintro p (rfl | rfl) X
      · trivial
      · exact (quickJS2Cangjie_plain none t).clear (by simp) (fun _ => trivial) trivial
    cases e with
    | value ref =>
      refine Prog.Clear.bind (pointer_clear ?_)
      obtain ht | hpinned | hnull := h
      · exact raw _ (.inl ht) _
      · have hheld : Held pinned ref := .inl hpinned
        rw [expose_held (by simpa using hheld)]
        exact (quickJS2Cangjie_plain _ t).clear_empty (fun _ => trivial) trivial
      · exact raw _ (.inr hnull) _
    | pointer p =>
      refine Prog.Clear.bind fun ref hr _ => ?_
      exact raw _ (h.imp_right fun hp => hr.trans hp) _
    | _ => trivial
  | toExtern v => exact Prog.Clear.bind (toJSValue_clear v (fun _ _ _ => trivial) trivial)

end InteropJs
