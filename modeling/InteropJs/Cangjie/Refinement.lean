import InteropJs.Cangjie.Direct
import InteropJs.Cangjie.Weaving

/-!
# The layer refines the operations without handles

`Refines r l s p m R`: the program `p`, run in a state `s` where the runtime `r` has the local state `l`,
ends as the direct operation `m` does in `l`. It throws what `m` throws, or returns what `R` relates to
the result of `m`; then `r` has the local state that `m` leaves, and the handles of before still denote
what they did.

There is one rule for each kind of statement, and one lemma for each function of `quickJSRuntime.cj`.
`Payload.Is` and `Any.Is` say which values of the client go with which: raw handles are left out, since
what they denote is not the layer's to say.
-/

namespace InteropJs

open Hoare

variable {P : Platform} {r : Nat} {l l' : Loc P} {s s' : Store P} {α β γ δ : Type}

/-! ## Refinement -/

/-- A result of the layer and one of the direct operation. -/
def Agree (R : α → β → Prop) : Except Exn α → Except Exn β → Prop
  | .ok a, .ok b => R a b
  | .error e, .error e' => e = e'
  | _, _ => False

/-- The program does what the direct operation does (module doc). -/
def Refines (r : Nat) (l : Loc P) (s : Store P) (p : Prog α) (m : Direct P β)
    (R : Store P → α → β → Prop) : Prop :=
  Ready r l s → ∃ res s', p.exec.run s = .ok (res, s') ∧ s.Extends s' ∧ Ready r (m l).2 s' ∧
    Agree (R s') res (m l).1

namespace Refines

variable {p : Prog α} {m : Direct P β} {R : Store P → α → β → Prop}

theorem ret {a : α} {b : β} (h : R s a b) : Refines r l s (.ret a) (.ret b) R :=
  fun hs => ⟨.ok a, s, rfl, .refl s, hs, h⟩

theorem raise (e : Exn) : Refines r l s (.raise e : Prog α) (.throw e : Direct P β) R :=
  fun hs => ⟨.error e, s, rfl, .refl s, hs, rfl⟩

theorem touch {rs : List JSValueRef} (h : Refines r l s p m R) : Refines r l s (.touch rs p) m R := h

theorem alloc {handle : Ptr} {k : JSValueRef → Prog α}
    (h : Refines r l { s with nextRef := s.nextRef + 1 } (k ⟨s.nextRef, handle⟩) m R) :
    Refines r l s (.alloc handle k) m R := by
  intro hs
  have hw : ({ s with nextRef := s.nextRef + 1 } : Store P).world = s.world := rfl
  exact h (hs.congr hw).1

theorem post {R' : Store P → α → β → Prop} (h : Refines r l s p m R)
    (hR : ∀ s' a b, R s' a b → R' s' a b) : Refines r l s p m R' := by
  intro hs
  obtain ⟨res, s', hrun, hext, hready, hagree⟩ := h hs
  refine ⟨res, s', hrun, hext, hready, ?_⟩
  revert hagree
  cases res <;> cases (m l).1 <;> first | exact id | exact hR s' _ _

theorem bind {f : α → Prog γ} {g : β → Direct P δ} {R' : Store P → γ → δ → Prop}
    (h : Refines r l s p m R)
    (hf : ∀ a b l' s', s.Extends s' → R s' a b → Refines r l' s' (f a) (g b) R') :
    Refines r l s (p.bind f) (m.bind g) R' := by
  intro hs
  obtain ⟨res, s₁, hrun, hext, hready, hagree⟩ := h hs
  unfold Direct.bind
  rcases hm : m l with ⟨_ | b, l₁⟩ <;> rw [hm] at hready hagree <;> cases res with
  | error e => ?_
  | ok a => ?_
  · cases hagree
    exact ⟨_, s₁, Prog.exec_bind_error hrun, hext, hready, rfl⟩
  · exact hagree.elim
  · exact hagree.elim
  · obtain ⟨res', s₂, hrun', hext', hend⟩ := hf a b l₁ s₁ hext hagree hready
    exact ⟨res', s₂, (Prog.exec_bind_of hrun).trans hrun', hext.trans hext', hend⟩

/-- From a triple of the program. -/
theorem of_runs {ok : Multiset Resource → α → Store P → Prop}
    {err : Multiset Resource → Exn → Store P → Prop}
    (h : ∀ L, Runs (On r s.world l L) p (ok L) (err L))
    (hok : ∀ L a s', Ready r l s → ok L a s' →
      ∃ b l', m l = (.ok b, l') ∧ Ready r l' s' ∧ s.Extends s' ∧ R s' a b)
    (herr : ∀ L e s', Ready r l s → err L e s' →
      ∃ l', m l = (.error e, l') ∧ Ready r l' s' ∧ s.Extends s') :
    Refines r l s p m R := by
  intro hs
  obtain ⟨L, hon⟩ := hs.on
  obtain ⟨res, s', hrun, ⟨a, rfl, hpost⟩ | ⟨e, rfl, hpost⟩⟩ := (h L).run hon
  · obtain ⟨b, l', hm, hready, hext, hR⟩ := hok L a s' hs hpost
    exact ⟨_, s', hrun, hext, by rwa [hm], by rwa [hm]⟩
  · obtain ⟨l', hm, hready, hext⟩ := herr L e s' hs hpost
    exact ⟨_, s', hrun, hext, by rwa [hm], by rw [hm]; rfl⟩

/-- A part of the program that the direct operation has no counterpart of. -/
theorem quiet {a : γ} {q : Prog γ} {f : γ → Prog α}
    (h : ∀ L, Runs (On r s.world l L) q (fun x s' => x = a ∧ On r s.world l L s') fun _ _ => False)
    (hf : ∀ s', s.Extends s' → Refines r l s' (f a) m R) : Refines r l s (q.bind f) m R := by
  intro hs
  obtain ⟨L, hon⟩ := hs.on
  obtain ⟨res, s', hrun, ⟨_, rfl, rfl, hw⟩ | ⟨_, -, hfalse⟩⟩ := (h L).run hon
  · obtain ⟨hready, hext⟩ := hs.run hw
    obtain ⟨res', s₂, hrun', hext', hend⟩ := hf s' hext hready
    exact ⟨res', s₂, (Prog.exec_bind_of hrun).trans hrun', hext.trans hext', hend⟩
  · exact hfalse.elim

/-- A step of the engine that gives no handle. -/
theorem step {q : Prog γ} {f : Loc P → γ × Loc P}
    (h : ∀ L, Runs (On r s.world l L) q (fun x s' => x = (f l).1 ∧ On r s.world (f l).2 L s')
      fun _ _ => False) :
    Refines r l s q (Direct.step f) fun _ a b => a = b :=
  of_runs h (fun _ _ _ hs ⟨ha, hw⟩ => ⟨_, _, rfl, (hs.run hw).1, (hs.run hw).2, ha⟩)
    fun _ _ _ _ hfalse => hfalse.elim

/-- A call of the bridge that does such a step. -/
theorem call (rs : List JSValueRef) {c : Call γ} {f : Loc P → γ × Loc P}
    (h : ∀ L, Triple (Run r s.world l L) c.run fun x w => x = (f l).1 ∧ Run r s.world (f l).2 L w) :
    Refines r l s (.native rs c .ret) (Direct.step f) fun _ a b => a = b :=
  step fun L => Runs.call (h L) fun x => (Runs.ret x).pre fun _ hx => hx

end Refines

/-- A handle and what it denotes; `NULL` is nothing. -/
def Handed (r : Nat) (s : Store P) (p : Ptr) (o : Option JSVal) : Prop :=
  (p = none ∧ o = none) ∨ ∃ q x, p = some q ∧ o = some x ∧ s.world.Holds q r x

/-- A call of the bridge that gives a handle of what the engine answered. -/
theorem Refines.answer {rs : List JSValueRef} {c : Call Ptr} {m : Direct P (Option JSVal)}
    {o : Option JSVal} (h : ∀ L, Triple (Run r s.world l L) c.run (Answer r s.world L o l'))
    (hm : m l = Direct.give (fun _ => (o, l')) l) : Refines r l s (.native rs c .ret) m (Handed r) := by
  have hruns : ∀ L, Runs (On r s.world l L) (.native rs c .ret)
      (fun p s' => Answer r s.world L o l' p s'.world) fun _ _ => False :=
    fun L => Runs.call (h L) fun p => (Runs.ret p).pre fun _ hp => hp
  refine Refines.of_runs hruns (fun L p s' hs hp => ?_) fun _ _ _ _ hfalse => hfalse.elim
  rw [hm, Direct.give]
  obtain ⟨x, rfl, hd, rfl, hw⟩ | ⟨hd, rfl, hw⟩ := hp.cases
  · obtain ⟨hready, hext, hholds⟩ := hs.granted hw
    refine ⟨some x, l'.kept, ?_, hready, hext, .inr ⟨_, x, rfl, rfl, hholds⟩⟩
    simp only [hd, if_true]
  · obtain ⟨hready, hext⟩ := hs.run hw
    refine ⟨none, l'.lost o, ?_, hready, hext, .inl ⟨rfl, rfl⟩⟩
    simp only [hd, Bool.false_eq_true, if_false]

theorem Refines.give {rs : List JSValueRef} {c : Call Ptr} {f : Loc P → Option JSVal × Loc P}
    (h : ∀ L, Triple (Run r s.world l L) c.run (Answer r s.world L (f l).1 (f l).2)) :
    Refines r l s (.native rs c .ret) (Direct.give f) (Handed r) :=
  Refines.answer h rfl

/-! ## Values of the client -/

/-- The `Extern` holds objects with the values of the item. -/
def Payload.Is (r : Nat) (s : Store P) : Payload → Item → Prop
  | .value ref, .value x => ref.Denotes s.world r x
  | .method f g, .method y x => f.Denotes s.world r y ∧ g.Denotes s.world r x
  | .other, .other => True
  | _, _ => False

def Any.Is (r : Nat) (s : Store P) (v : Any) : Operand → Prop
  | .item i => ∃ e : Payload, v = .externValue e ∧ e.Is r s i
  | .plain u _ => v = u

theorem Payload.Is.mono {e : Payload} {i : Item} (h : e.Is r s i) (he : s.Extends s') : e.Is r s' i := by
  cases e <;> cases i <;> try exact h
  · exact JSValueRef.Denotes.mono h he
  · exact ⟨h.1.mono he, h.2.mono he⟩

theorem Any.Is.mono {v : Any} {o : Operand} (h : v.Is r s o) (he : s.Extends s') : v.Is r s' o := by
  cases o with
  | item i =>
    obtain ⟨e, rfl, hi⟩ := h
    exact ⟨e, rfl, hi.mono he⟩
  | plain u hu => exact h

/-! ## The functions -/

/-- A `throw` of the error of the runtime. -/
theorem throwRuntimeError_refines {R : Store P → α → β → Prop} :
    Refines r l s (do Prog.raise (.dynamic (← runtimeError (some r))) : Prog α)
      (Direct.raiseError Loc.runtimeExn : Direct P β) R := by
  have hruns : ∀ L, Runs (On r s.world l L) (do Prog.raise (.dynamic (← runtimeError (some r))) : Prog α)
      (fun _ _ => False) fun e s' => e = l.runtimeExn ∧ On r s.world l L s' :=
    fun _ => throwRuntimeError_spec
  refine Refines.of_runs hruns (fun _ _ _ _ hfalse => hfalse.elim) fun L e s' hs h => ?_
  obtain ⟨rfl, hw⟩ := h
  obtain ⟨hready, hext⟩ := hs.run hw
  exact ⟨l, rfl, hready, hext⟩

/-- The object that `JSValueRef(handle)` makes. -/
theorem newRef_refines {q : Nat} {x : JSVal} (h : s.world.Holds q r x) :
    Refines r l s (newRef (some q)) (.ret x) fun s' ref y => ref.Denotes s'.world r y :=
  Refines.alloc (Refines.ret ⟨q, rfl, h⟩)

theorem jsExtern_refines {q : Nat} {x : JSVal} (h : s.world.Holds q r x) :
    Refines r l s (jsExtern (some q)) (.ret (.value x)) (Payload.Is r) :=
  Refines.alloc (Refines.ret ⟨q, rfl, h⟩)

section Convert

variable {v : Any} {o : Operand}

/-- How a new value is wrapped, or why not. -/
theorem newValue_refines {c : Call Ptr} {f : Loc P → Option JSVal × Loc P}
    (h : ∀ L, Triple (Run r s.world l L) c.run (Answer r s.world L (f l).1 (f l).2)) :
    Refines r l s (do newRef (← valueFromRuntimeHandle (some r) (← c.prog)) : Prog JSValueRef)
      (do match ← Direct.give f with
          | some x => return x
          | none => Direct.raiseError Loc.runtimeExn : Direct P JSVal)
      fun s' ref y => ref.Denotes s'.world r y := by
  refine Refines.bind (Refines.give h) fun p o l' s' hext hp => ?_
  obtain ⟨rfl, rfl⟩ | ⟨q, x, rfl, rfl, hx⟩ := hp
  · show Refines r l' s' ((valueFromRuntimeHandle (some r) none).bind newRef) _ _
    have hruns : ∀ L, Runs (On r s'.world l' L) ((valueFromRuntimeHandle (some r) none).bind newRef)
        (fun _ _ => False) fun e s₂ => e = l'.runtimeExn ∧ On r s'.world l' L s₂ :=
      fun L => Runs.bind (Q := fun _ _ => False) valueFromRuntimeHandle_none fun q _ h => h.elim
    refine Refines.of_runs hruns (fun _ _ _ _ hfalse => hfalse.elim) fun L e s₂ hs h => ?_
    obtain ⟨rfl, hw⟩ := h
    obtain ⟨hready, hext'⟩ := hs.run hw
    exact ⟨l', rfl, hready, hext'⟩
  · exact newRef_refines hx

theorem toJSValue_refines (h : v.Is r s o) :
    Refines r l s (JSRuntime.toJSValue (some r) v) (Direct.toJSValue o)
      fun s' ref y => ref.Denotes s'.world r y := by
  cases o with
  | item i =>
    obtain ⟨e, rfl, he⟩ := h
    cases e <;> cases i <;> first | exact he.elim | skip
    · exact Refines.ret he
    · exact Refines.raise _
    · exact Refines.raise _
  | plain u hu =>
    obtain rfl : v = u := h
    cases v with
    | externValue e => cases hu
    | pointer p => cases hu
    | other => exact Refines.raise _
    | int t i =>
      cases t
      case int8 | int16 | int32 | uint8 | uint16 =>
        exact newValue_refines (f := fun l => l.converted (.int _ i)) fun L => jsRuntimeNewNumber_spec _
      case int64 | uint32 | uint64 =>
        exact newValue_refines (f := fun l => l.converted (.int _ i)) fun L => jsRuntimeNewBigint_spec _
    | bigInt i => exact newValue_refines (f := fun l => l.converted (.bigInt i)) fun L => jsRuntimeNewBigint_spec _
    | float t x => exact newValue_refines (f := fun l => l.converted (.float t x)) fun L => jsRuntimeNewNumber_spec x
    | bool b =>
      refine newValue_refines (f := fun l => l.converted (.bool b)) fun L =>
        Triple.post (jsRuntimeNewBool_spec _) fun p w h => ?_
      cases b <;> exact h
    | string str => exact newValue_refines (f := fun l => l.converted (.string str)) fun L => jsRuntimeNewString_spec _

end Convert

/-- The values of the arguments. -/
def Operands (r : Nat) (s : Store P) : List Any → List Operand → Prop :=
  List.Forall₂ (Any.Is r s)

theorem Operands.mono {vs : List Any} {os : List Operand} (h : Operands r s vs os) (he : s.Extends s') :
    Operands r s' vs os :=
  List.Forall₂.imp (fun _ _ h => h.mono he) h

theorem toJSValues_refines {vs : List Any} {os : List Operand} (h : Operands r s vs os) :
    Refines r l s (JSRuntime.toJSValues (some r) vs) (Direct.toJSValues os)
      fun s' refs xs => Denote s'.world r refs xs ∧ xs.length = vs.length := by
  induction vs generalizing os l s with
  | nil =>
    cases h
    exact Refines.ret ⟨.nil, rfl⟩
  | cons v vs ih =>
    cases h with
    | cons hv hvs =>
      refine Refines.bind (toJSValue_refines hv) fun ref x l₁ s₁ hext hx => ?_
      refine Refines.bind (ih (Operands.mono hvs hext)) fun refs xs l₂ s₂ hext' hxs => ?_
      exact Refines.ret ⟨.cons (hx.mono hext') hxs.1, congrArg (· + 1) hxs.2⟩

theorem jsIndex_refines {v : Any} {o : Operand} (h : v.Is r s o) :
    Refines r l s (jsIndex v) (Direct.jsIndex o) fun _ i j => i = j := by
  cases o with
  | item i =>
    obtain ⟨e, rfl, -⟩ := h
    exact Refines.raise _
  | plain u hu =>
    obtain rfl : v = u := h
    cases v with
    | int t i => cases t <;> first | exact Refines.raise _ | exact Refines.ret rfl
    | externValue e => cases hu
    | pointer p => cases hu
    | _ => exact Refines.raise _

section Access

variable {p q : Nat} {x y : JSVal}

theorem getProperty_refines (hp : s.world.Holds p r x) (name : String) :
    Refines r l s (getProperty (some p) name) (Direct.getProperty x name)
      fun s' q y => ∃ n, q = some n ∧ s'.world.Holds n r y := by
  refine Refines.quiet (fun L => valueHasProperties_spec hp) fun s' hext => ?_
  unfold Direct.getProperty
  cases hobj : x.isObject with
  | false => exact Refines.raise _
  | true =>
    refine Refines.bind (Refines.give fun L => jsValueGetProperty_spec (hp.mono hext) (mallocCString name))
      fun q o l₁ s₁ hext' hq => ?_
    obtain ⟨rfl, rfl⟩ | ⟨n, y, rfl, rfl, hy⟩ := hq
    · exact Refines.raise _
    · exact Refines.ret ⟨n, rfl, hy⟩

/-- A write, with the message of its failure. -/
theorem setting_refines {c : Call Int} {key : PropKey} (message : String)
    (hc : ∀ L, Triple (Run r s.world l L) c.run
      (Status r s.world L (P.setProperty x key y l.heap) l.clearError)) :
    Refines r l s
      (do let status ← c.prog
          if status ≠ 0 then .raise (.dynamic message) else return () : Prog Unit)
      (Direct.setting message x key y) fun _ _ _ => True := by
  unfold Direct.setting
  refine Refines.of_runs (fun L => writeStatus_spec message (hc L)) (fun L _ s' hs h => ?_)
    fun L e s' hs h => ?_
  · obtain ⟨hsets, hw⟩ := h
    obtain ⟨hready, hext⟩ := hs.run hw
    refine ⟨(), _, ?_, hready, hext, trivial⟩
    unfold Loc.Sets at hsets
    rcases hset : P.setProperty x key y l.heap with ⟨e | ok, h⟩
    · rw [hset] at hsets
      cases hsets
    · rfl
  · obtain ⟨hsets, rfl, hw⟩ := h
    obtain ⟨hready, hext⟩ := hs.run hw
    refine ⟨_, ?_, hready, hext⟩
    unfold Loc.Sets at hsets
    rcases hset : P.setProperty x key y l.heap with ⟨e | ok, h⟩
    · rfl
    · rw [hset] at hsets
      exact absurd rfl hsets

theorem setProperty_refines (hp : s.world.Holds p r x) (hq : s.world.Holds q r y) (name : String) :
    Refines r l s (setProperty (some p) name (some q)) (Direct.setProperty x name y) fun _ _ _ => True := by
  refine Refines.quiet (fun L => valueHasProperties_spec hp) fun s' hext => ?_
  unfold Direct.setProperty
  cases hobj : x.isObject with
  | false => exact Refines.raise _
  | true =>
    refine setting_refines _ fun L => ?_
    have hcall := jsValueSetProperty_spec (l := l) (L := L) (hp.mono hext) (hq.mono hext).nullOrLive
      (mallocCString name)
    rwa [(hq.mono hext).newValueOf] at hcall

theorem Direct.bind_assoc (m : Direct P α) (f : α → Direct P β) (g : β → Direct P γ) :
    (m.bind f).bind g = m.bind fun a => (f a).bind g := by
  funext l
  unfold Direct.bind
  rcases m l with ⟨_ | _, _⟩ <;> rfl

theorem Direct.checkIndex_bind (x : JSVal) (index : Int) (m : Direct P α) :
    (Direct.checkIndex x index).bind (fun _ => m) =
      (Direct.step fun l =>
        (decide ((P.isArray x l.heap).1.toOption ≠ some false), l.after (P.isArray x l.heap))).bind
      fun isArray =>
        if !isArray then
          .throw (.dynamic "Expected JavaScript array")
        else
          (Direct.step fun l => l.arrayLength x).bind fun length =>
            if index < 0 ∨ length ≤ index then
              .throw (.dynamic "JavaScript array index is out of range")
            else
              m := by
  unfold Direct.checkIndex
  refine (Direct.bind_assoc _ _ _).trans (congrArg _ (funext fun isArray => ?_))
  cases isArray with
  | false => rfl
  | true =>
    simp only [Bool.not_true, Bool.false_eq_true, if_false]
    refine (Direct.bind_assoc _ _ _).trans (congrArg _ (funext fun length => ?_))
    by_cases hrange : index < 0 ∨ length ≤ index
    · simp only [hrange, if_true]
      rfl
    · simp only [hrange, if_false]
      rfl

/-- The checks of an index, with `access` after them. -/
theorem checkIndex_refines {access : Prog α} {m : Direct P β} {R : Store P → α → β → Prop} {index : Int}
    (hp : s.world.Holds p r x)
    (h : ∀ l' s', s.Extends s' → (0 ≤ index) → Refines r l' s' access m R) :
    Refines r l s
      (do if !(← valueIsArray (some p)) then
            .raise (.dynamic "Expected JavaScript array")
          else
            let length ← (Call.valueArrayLength (some p)).prog
            if index < 0 ∨ length ≤ index then
              .raise (.dynamic "JavaScript array index is out of range")
            else
              access)
      (do Direct.checkIndex x index
          m) R := by
  show Refines r l s _ ((Direct.checkIndex x index).bind fun _ => m) R
  rw [Direct.checkIndex_bind]
  refine Refines.bind (Refines.step fun L => (valueIsArray_spec hp).post (fun ok s' h => ?_) fun _ _ h => h)
    fun isArray isArray' l₁ s₁ hext heq => ?_
  · refine ⟨?_, h.2⟩
    rw [Bool.eq_iff_iff, h.1, decide_eq_true_iff]
    rfl
  subst heq
  cases isArray with
  | false => exact Refines.raise _
  | true =>
    simp only [Bool.not_true, Bool.false_eq_true, if_false]
    have hcall := Refines.call [] (l := l₁) (c := .valueArrayLength (some p))
      (f := fun l => l.arrayLength x) fun L => jsValueArrayLength_spec (hp.mono hext)
    refine Refines.bind hcall fun length length' l₂ s₂ hext' heq => ?_
    subst heq
    by_cases hrange : index < 0 ∨ length ≤ index
    · simp only [hrange, if_true]
      exact Refines.raise _
    · simp only [hrange, if_false]
      exact h l₂ s₂ (hext.trans hext') (by omega)

theorem getIndex_refines (hp : s.world.Holds p r x) (index : Int) :
    Refines r l s (getIndex (some p) index) (Direct.getIndex x index)
      fun s' q y => ∃ n, q = some n ∧ s'.world.Holds n r y := by
  refine checkIndex_refines hp fun l₁ s₁ hext hindex => ?_
  refine Refines.bind (Refines.give fun L => jsValueGetIndex_spec (hp.mono hext) hindex)
    fun q o l₂ s₂ hext' hq => ?_
  obtain ⟨rfl, rfl⟩ | ⟨n, y, rfl, rfl, hy⟩ := hq
  · exact Refines.raise _
  · exact Refines.ret ⟨n, rfl, hy⟩

theorem setIndex_refines (hp : s.world.Holds p r x) (hq : s.world.Holds q r y) (index : Int) :
    Refines r l s (setIndex (some p) index (some q)) (Direct.setIndex x index y) fun _ _ _ => True := by
  refine checkIndex_refines hp fun l₁ s₁ hext hindex => ?_
  refine setting_refines _ fun L => ?_
  have hcall := jsValueSetIndex_spec (l := l₁) (L := L) (hp.mono hext) hindex (hq.mono hext).nullOrLive
  rwa [(hq.mono hext).newValueOf] at hcall

end Access

section Read

variable {p : Nat} {x : JSVal}

theorem unsupported_refines {R : Store P → Any → Any → Prop} :
    Refines r l s unsupportedConversion Direct.unsupported R :=
  Refines.raise _

theorem integer_refines (t : IntType) (i : Int) :
    Refines r l s (do return .int t (← t.ofInt i) : Prog Any) (Direct.integer t i) fun _ a b => a = b := by
  unfold IntType.ofInt Direct.integer Target.exactly
  by_cases h : t.min ≤ i ∧ i ≤ t.max
  · rw [dif_pos h]
    simp only [h, and_self, dite_true]
    exact Refines.ret rfl
  · rw [dif_neg h]
    simp only [h, dite_false]
    exact Refines.raise _

/-- The text of a string or of a BigInt. -/
theorem valueAsString_refines (hp : s.world.Holds p r x)
    (hx : x.kind.code = jsValueStringKind ∨ x.kind.code = jsValueBigIntKind) :
    Refines r l s (valueAsString (some p)) (Direct.text x) fun _ a b => a = b := by
  unfold Direct.text
  refine Refines.of_runs (fun L => valueAsString_spec hp hx) (fun L m s' hs h => ?_) fun L e s' hs h => ?_
  · obtain ⟨htext, hw⟩ := h
    obtain ⟨hready, hext⟩ := hs.run hw
    exact ⟨m, _, by simp only [htext], hready, hext, rfl⟩
  · obtain ⟨htext, rfl, L', hw⟩ := h
    obtain ⟨hready, hext⟩ := hs.run hw
    exact ⟨_, by simp only [htext], hready, hext⟩

theorem valueAsFloat64_refines {y : Float64} (hp : s.world.Holds p r (.number y)) :
    Refines r l s (valueAsFloat64 (some p)) (.ret y) fun _ a b => a = b := by
  refine Refines.quiet (fun L => valueIs_spec hp jsValueNumberKind) fun s' hext => ?_
  have hkind : decide ((JSVal.number y).kind.code = jsValueNumberKind) = true := rfl
  simp only [hkind, Bool.not_true, Bool.false_eq_true, if_false]
  exact Refines.call [] (f := fun l => (y, l)) fun L => jsValueToNumber_spec (hp.mono hext)

/-- A numeric branch of `quickJS2Cangjie`. -/
theorem numeric2Cangjie_refines (hp : s.world.Holds p r x) {ofNumber : Float64 → Prog Any}
    {ofBigInt : Int → Prog Any} (number : Float64 → Direct P Any) (text : String → Direct P Any)
    (hnumber : ∀ y l s, Refines r l s (ofNumber y) (number y) fun _ a b => a = b)
    (htext : ∀ m l s, Refines r l s (do ofBigInt (← parseBigInt m)) (text m) fun _ a b => a = b) :
    Refines r l s (numeric2Cangjie (some p) ofNumber ofBigInt)
      (match x with
        | .number y => number y
        | .bigint _ => do text (← Direct.text x)
        | _ => Direct.unsupported) fun _ a b => a = b := by
  refine Refines.quiet (fun L => valueIs_spec hp jsValueNumberKind) fun s₁ hext => ?_
  cases x with
  | number y =>
    show Refines r l s₁ ((valueAsFloat64 (some p)).bind ofNumber) ((Direct.ret y).bind number) _
    refine Refines.bind (valueAsFloat64_refines (hp.mono hext)) fun a b l₂ s₂ _ heq => ?_
    subst heq
    exact hnumber a l₂ s₂
  | bigint i =>
    refine Refines.quiet (fun L => valueIs_spec (hp.mono hext) jsValueBigIntKind) fun s₂ hext' => ?_
    refine Refines.bind (valueAsString_refines ((hp.mono hext).mono hext') (.inr rfl))
      fun a b l₂ s₂ _ heq => ?_
    subst heq
    exact htext a l₂ s₂
  | _ =>
    refine Refines.quiet (fun L => valueIs_spec (hp.mono hext) jsValueBigIntKind) fun s₂ hext' => ?_
    exact unsupported_refines

/-- The text of a BigInt as a value of a numeric type. -/
theorem ofText_refines {t : Target} {ofBigInt : Int → Prog Any} {value : Int → Direct P Any}
    (ht : ∀ m, Direct.ofText t m = match m.toInt? with
      | none => .throw .illegalArgument
      | some i => value i)
    (h : ∀ i l s, Refines r l s (ofBigInt i) (value i) fun _ a b => a = b) (m : String) (l : Loc P)
    (s : Store P) :
    Refines r l s (do ofBigInt (← parseBigInt m)) (Direct.ofText t m) fun _ a b => a = b := by
  rw [ht]
  unfold parseBigInt
  cases m.toInt? with
  | none => exact Refines.raise _
  | some i => exact h i l s

theorem valueAsBool_refines {b : Bool} (hp : s.world.Holds p r (.bool b)) :
    Refines r l s (valueAsBool (some p)) (.ret b) fun _ a b => a = b := by
  refine Refines.quiet (fun L => valueIs_spec hp jsValueBoolKind) fun s₁ hext => ?_
  have hread := Refines.call [] (l := l) (c := .valueToBool (some p))
    (f := fun l => (if b then 1 else 0, l)) fun L => jsValueToBool_spec (hp.mono hext)
  have hret : (Direct.ret b : Direct P Bool) = (Direct.step fun l => (if b then (1 : Int) else 0, l)).bind
      fun n => .ret (decide (n ≠ 0)) := by
    cases b <;> rfl
  rw [hret]
  refine Refines.bind hread fun n k l₂ s₂ _ heq => ?_
  subst heq
  exact Refines.ret rfl

theorem quickJS2Cangjie_refines (hp : s.world.Holds p r x) (t : Target) :
    Refines r l s (quickJS2Cangjie (some p) t) (Direct.quickJS2Cangjie x t) fun _ a b => a = b := by
  cases t with
  | bool =>
    refine Refines.quiet (fun L => valueIs_spec hp jsValueBoolKind) fun s₁ hext => ?_
    cases x with
    | bool b =>
      show Refines r l s₁ ((valueAsBool (some p)).bind fun b => .ret (Any.bool b))
        ((Direct.ret b).bind fun b => .ret (Any.bool b)) _
      refine Refines.bind (valueAsBool_refines (hp.mono hext)) fun a b l₂ s₂ _ heq => ?_
      subst heq
      exact Refines.ret rfl
    | _ => exact unsupported_refines
  | string =>
    refine Refines.quiet (fun L => valueIsText_spec hp) fun s₁ hext => ?_
    have hread (hx : x.kind.code = jsValueStringKind ∨ x.kind.code = jsValueBigIntKind) :
        Refines r l s₁ (do return .string (← valueAsString (some p)))
          (do return .string (← Direct.text x)) fun _ (a b : Any) => a = b := by
      refine Refines.bind (valueAsString_refines (hp.mono hext) hx) fun a b l₂ s₂ _ heq => ?_
      subst heq
      exact Refines.ret rfl
    cases x with
    | string u => exact hread (.inl rfl)
    | bigint i => exact hread (.inr rfl)
    | _ => exact unsupported_refines
  | int t =>
    refine numeric2Cangjie_refines hp (Direct.ofNumber (.int t)) (Direct.ofText (.int t))
      (fun y l s => ?_) (ofText_refines (fun _ => rfl) fun i l s => integer_refines t i)
    cases y <;> first | exact integer_refines t _ | exact Refines.raise _
  | bigInt =>
    refine numeric2Cangjie_refines hp (Direct.ofNumber .bigInt) (Direct.ofText .bigInt)
      (fun y l s => ?_) (ofText_refines (fun _ => rfl) fun i l s => Refines.ret rfl)
    cases y <;> first | exact Refines.ret rfl | exact Refines.raise _
  | float t =>
    exact numeric2Cangjie_refines hp (Direct.ofNumber (.float t)) (Direct.ofText (.float t))
      (fun y l s => Refines.ret rfl)
      (ofText_refines (fun _ => rfl) fun i l s => Refines.ret rfl)
  | other => exact unsupported_refines

end Read

/-! ## The operations -/

/-- A function of the runtime that wraps the handle of one call. -/
theorem wrap_refines {c : Call Ptr} {m : Direct P (Option JSVal)} (h : Refines r l s c.prog m (Handed r)) :
    Refines r l s
      (do let value ← c.prog
          if value.isNone then
            .raise (.dynamic (← runtimeError (some r)))
          else
            jsExtern value : Prog Payload)
      (Direct.wrap m) (Payload.Is r) := by
  refine Refines.bind h fun p o l₁ s₁ hext hp => ?_
  obtain ⟨rfl, rfl⟩ | ⟨q, x, rfl, rfl, hx⟩ := hp
  · exact throwRuntimeError_refines
  · exact jsExtern_refines hx

theorem evalScript_refines (source : String) :
    Refines r l s (JSRuntime.evalScript (some r) source) (Direct.evalScript source) (Payload.Is r) :=
  wrap_refines (Refines.give fun _ => jsRuntimeEvalValue_spec (mallocCString source))

theorem globalAccess_refines (name : String) :
    Refines r l s (JSRuntime.globalAccess (some r) name) (Direct.globalAccess name) (Payload.Is r) :=
  wrap_refines (Refines.give fun _ => jsRuntimeGetGlobalProperty_spec (mallocCString name))

theorem enableStdModule_refines :
    Refines r l s (JSRuntime.enableStdModule (some r)) Direct.enableStdModule fun _ _ _ => True := by
  have hcall := Refines.call [] (s := s) (l := l) (c := .runtimeEnableStdModule (some r))
    (f := Loc.enableStd) fun L => jsRuntimeEnableStdModule_spec
  refine Refines.bind hcall fun status status' l₁ s₁ hext heq => ?_
  subst heq
  by_cases h : status ≠ 0
  · rw [if_pos h, if_pos h]
    exact throwRuntimeError_refines
  · rw [if_neg h, if_neg h]
    exact Refines.ret trivial

/-- The file is read first; without it nothing of the engine runs. -/
theorem importModule_refines (path : CStr) :
    Refines r l s (Call.runtimeImportModule (some r) path).prog (Direct.importModule path) (Handed r) := by
  have hspec := fun L => jsRuntimeImportModule_spec (r := r) (b := s.world) (l := l) (L := L) path
  rcases hfile : P.readFile path l.host with ⟨_ | source, host⟩ <;> rw [hfile] at hspec
  · refine Refines.of_runs (fun L => Runs.call (c := .runtimeImportModule (some r) path) (hspec L) fun p =>
      (Runs.ret p).pre fun _ hp => hp) (fun L p s' hs hp => ?_)
      fun _ _ _ _ (hfalse : False) => hfalse.elim
    obtain ⟨rfl, hw⟩ := hp
    obtain ⟨hready, hext⟩ := hs.run hw
    refine ⟨none, _, ?_, hready, hext, .inl ⟨rfl, rfl⟩⟩
    unfold Direct.importModule
    rw [hfile]
  · refine Refines.answer (c := .runtimeImportModule (some r) path) hspec ?_
    unfold Direct.importModule
    rw [hfile]
    rfl

theorem getModule_refines (moduleName : String) :
    Refines r l s (JSRuntime.getModule (some r) moduleName) (Direct.getModule moduleName) (Payload.Is r) :=
  wrap_refines (importModule_refines (mallocCString moduleName))

theorem memberAccess_refines {e : Payload} {i : Item} (h : e.Is r s i) (field : String) :
    Refines r l s (JSRuntime.memberAccess e field) (Direct.memberAccess i field) (Payload.Is r) := by
  cases e <;> cases i <;> first | exact h.elim | exact Refines.raise _ | skip
  next ref x =>
  obtain ⟨p, hp, hx⟩ := h
  show Refines r l s ((getProperty ref.handle field).bind _) _ _
  rw [hp]
  refine Refines.bind (getProperty_refines hx field) fun q y l₁ s₁ hext hq => ?_
  obtain ⟨n, rfl, hy⟩ := hq
  refine Refines.quiet (fun L => valueIs_spec hy jsValueFunctionKind) fun s₂ hext' => ?_
  have hkind := kind_function y
  by_cases hf : y.isFunction = true
  · simp only [hf, hkind.mpr hf, decide_true, if_true]
    exact Refines.alloc (Refines.touch (Refines.ret
      ⟨⟨n, rfl, hy.mono hext'⟩, ⟨p, hp, (hx.mono hext).mono hext'⟩⟩))
  · simp only [hf, mt hkind.mp hf, decide_false, if_false, Bool.false_eq_true]
    exact jsExtern_refines (hy.mono hext')

theorem Direct.bind_of {m : Direct P α} {f : α → Direct P β} {a : α} (h : m l = (.ok a, l')) :
    m.bind f l = f a l' := by
  unfold Direct.bind
  rw [h]

section Attempts

variable {f this : JSVal} {argv : List JSVal}

theorem Direct.callValue_gives (h : l.CallGives f this argv) :
    Direct.callValue f this argv l = (.ok (l.callResult f this argv), (l.afterCall f this argv).kept) :=
  if_pos h

theorem Direct.callValue_lost (h : ¬ l.CallGives f this argv) :
    Direct.callValue f this argv l = (.ok none, l.tried f this argv) :=
  if_neg h

theorem Direct.constructValue_gives (h : l.ConstructGives f argv) :
    Direct.constructValue f argv l = (.ok (l.constructResult f argv), (l.afterConstruct f argv).kept) :=
  if_pos h

theorem Direct.constructValue_lost (h : ¬ l.ConstructGives f argv) :
    Direct.constructValue f argv l = (.ok none, l.constructTried f argv) :=
  if_neg h

end Attempts

/-- The two attempts, and the direct ones. -/
theorem dispatch_refines {function : JSValueRef} {receiver : Prog JSValueRef} {f this : JSVal}
    {refs : List JSValueRef} {argv : List JSVal} (hf : function.Denotes s.world r f)
    (hrec : ∀ L, Runs (On r s.world l L) receiver
      (fun ref s' => ref.Receives s.world r this ∧ On r s.world l L s') fun _ _ => False)
    (hargs : Denote s.world r refs argv) (hfit : argv.length ≤ maxArgs → P.FitsArgv argv.length) :
    Refines r l s
      (Prog.tryCatch (do jsExtern (← JSRuntime.callValue (some r) function (← receiver) refs))
        fun _ => do jsExtern (← JSRuntime.constructValue (some r) function refs))
      (Direct.dispatch f this argv) (Payload.Is r) := by
  have hlength : refs.length = argv.length := hargs.length_eq
  unfold Direct.dispatch
  by_cases hlen : maxArgs < argv.length
  · rw [if_pos hlen]
    refine Refines.of_runs (fun L => dispatch_overflow function
      ((hrec L).post (fun _ _ h => h.2) fun _ _ h => h) (hlength ▸ hlen))
      (fun _ _ _ _ hfalse => hfalse.elim) fun L e s' hs h => ?_
    obtain ⟨rfl, hw⟩ := h
    obtain ⟨hready, hext⟩ := hs.run hw
    exact ⟨l, rfl, hready, hext⟩
  rw [if_neg hlen]
  have htakes : P.TakesArgs refs.length := hlength ▸ ⟨not_lt.mp hlen, hfit (not_lt.mp hlen)⟩
  refine Refines.of_runs (fun L => dispatch_spec hf (hrec L) hargs htakes) (fun L payload s' hs h => ?_)
    fun L e s' hs h => ?_
  · obtain ⟨ref, x, rfl, href, ⟨hcall, hx, hw⟩ | ⟨hcall, hconstruct, hx, hw⟩⟩ := h
    · obtain ⟨hready, hext, hholds⟩ := hs.granted hw
      refine ⟨.value x, _, ?_, hready, hext, ⟨_, href, hholds⟩⟩
      refine (Direct.bind_of (Direct.callValue_gives hcall)).trans ?_
      rw [hx]
      rfl
    · obtain ⟨hready, hext, hholds⟩ := hs.granted hw
      refine ⟨.value x, _, ?_, hready, hext, ⟨_, href, hholds⟩⟩
      refine (Direct.bind_of (Direct.callValue_lost hcall)).trans ?_
      refine (Direct.bind_of (Direct.constructValue_gives hconstruct)).trans ?_
      rw [hx]
      rfl
  · obtain ⟨hcall, hconstruct, rfl, hw⟩ := h
    obtain ⟨hready, hext⟩ := hs.run hw
    refine ⟨_, ?_, hready, hext⟩
    refine (Direct.bind_of (Direct.callValue_lost hcall)).trans ?_
    exact (Direct.bind_of (Direct.constructValue_lost hconstruct)).trans rfl

theorem functionCall_refines {e : Payload} {i : Item} {args : List Any} {os : List Operand}
    (h : e.Is r s i) (hargs : Operands r s args os) (hfit : args.length ≤ maxArgs → P.FitsArgv args.length) :
    Refines r l s (JSRuntime.functionCall (some r) e args) (Direct.functionCall i os) (Payload.Is r) := by
  cases e <;> cases i <;> first | exact h.elim | exact Refines.raise _ | skip
  · next ref x =>
    refine Refines.bind (toJSValues_refines hargs) fun refs argv l₁ s₁ hext hrefs => ?_
    refine dispatch_refines (JSValueRef.Denotes.mono h hext) (fun L => ?_) hrefs.1 (hrefs.2 ▸ hfit)
    exact newRef_none_spec fun ref s hr hs => ⟨.inl ⟨hr, rfl⟩, hs⟩
  · next function receiver f this =>
    refine Refines.bind (toJSValues_refines hargs) fun refs argv l₁ s₁ hext hrefs => ?_
    refine dispatch_refines (h.1.mono hext) (fun L => ?_) hrefs.1 (hrefs.2 ▸ hfit)
    exact (Runs.ret receiver).pre fun s hs => ⟨.inr (h.2.mono hext), hs⟩

section Store

variable {e : Payload} {i : Item} {arg v : Any} {k o : Operand}

/-- A write of a property of the object `ref`. -/
theorem update_refines {ref : JSValueRef} {x : JSVal} (h : ref.Denotes s.world r x) (hv : v.Is r s o)
    (field : String) :
    Refines r l s (JSRuntime.memberUpdate (some r) (.value ref) field v)
      (do Direct.setProperty x field (← Direct.toJSValue o)) fun _ _ _ => True := by
  refine Refines.bind (toJSValue_refines hv) fun value y l₁ s₁ hext hy => ?_
  obtain ⟨p, hp, hx⟩ := h.mono hext
  obtain ⟨q, hq, hy⟩ := hy
  show Refines r l₁ s₁ (setProperty ref.handle field value.handle) _ _
  rw [hp, hq]
  exact setProperty_refines hx hy field

theorem memberUpdate_refines (h : e.Is r s i) (hv : v.Is r s o) (field : String) :
    Refines r l s (JSRuntime.memberUpdate (some r) e field v) (Direct.memberUpdate i field o)
      fun _ _ _ => True := by
  cases e <;> cases i <;> first | exact h.elim | exact Refines.raise _ | skip
  exact update_refines h hv field

theorem indexAccess_refines (h : e.Is r s i) (harg : arg.Is r s k) :
    Refines r l s (JSRuntime.indexAccess e arg) (Direct.indexAccess i k) (Payload.Is r) := by
  cases e <;> cases i <;> first | exact h.elim | exact Refines.raise _ | skip
  next ref x =>
  obtain ⟨p, hp, hx⟩ := h
  have key (name : String) : Refines r l s (JSRuntime.indexAccess (.value ref) (.string name))
      (do return .value (← Direct.getProperty x name)) (Payload.Is r) := by
    show Refines r l s ((getProperty ref.handle name).bind jsExtern) _ _
    rw [hp]
    refine Refines.bind (getProperty_refines hx name) fun q y l₁ s₁ hext hq => ?_
    obtain ⟨n, rfl, hy⟩ := hq
    exact jsExtern_refines hy
  have index : Refines r l s ((jsIndex arg).bind fun index => (getIndex ref.handle index).bind jsExtern)
      (do return .value (← Direct.getIndex x (← Direct.jsIndex k))) (Payload.Is r) := by
    rw [hp]
    refine Refines.bind (jsIndex_refines harg) fun i j l₁ s₁ hext heq => ?_
    subst heq
    refine Refines.bind (getIndex_refines (hx.mono hext) i) fun q y l₂ s₂ hext' hq => ?_
    obtain ⟨n, rfl, hy⟩ := hq
    exact jsExtern_refines hy
  cases k with
  | item i =>
    obtain ⟨e, rfl, -⟩ := harg
    exact index
  | plain u hu =>
    obtain rfl : arg = u := harg
    cases arg with
    | string name => exact key name
    | _ => exact index

theorem indexUpdate_refines (h : e.Is r s i) (harg : arg.Is r s k) (hv : v.Is r s o) :
    Refines r l s (JSRuntime.indexUpdate (some r) e arg v) (Direct.indexUpdate i k o)
      fun _ _ _ => True := by
  cases e <;> cases i <;> first | exact h.elim | exact Refines.raise _ | skip
  next ref x =>
  have index : Refines r l s
      (do let jsValue ← JSRuntime.toJSValue (some r) v
          let p ← ref.pointer
          let index ← jsIndex arg
          setIndex p index (← jsValue.pointer) : Prog Unit)
      (do let y ← Direct.toJSValue o
          Direct.setIndex x (← Direct.jsIndex k) y) fun _ _ _ => True := by
    refine Refines.bind (toJSValue_refines hv) fun value y l₁ s₁ hext hy => ?_
    show Refines r l₁ s₁ ((jsIndex arg).bind fun i => value.pointer.bind (setIndex ref.handle i)) _ _
    refine Refines.bind (jsIndex_refines (harg.mono hext)) fun i j l₂ s₂ hext' heq => ?_
    subst heq
    obtain ⟨p, hp, hx⟩ := (JSValueRef.Denotes.mono h hext).mono hext'
    obtain ⟨q, hq, hy⟩ := hy.mono hext'
    show Refines r l₂ s₂ (setIndex ref.handle i value.handle) _ _
    rw [hp, hq]
    exact setIndex_refines hx hy i
  cases k with
  | item i =>
    obtain ⟨e, rfl, -⟩ := harg
    exact index
  | plain u hu =>
    obtain rfl : arg = u := harg
    cases arg with
    | string name => exact update_refines h hv name
    | _ => exact index

theorem fromExtern_refines (h : e.Is r s i) (t : Target) :
    Refines r l s (JSRuntime.fromExtern t e) (Direct.fromExtern t i) fun _ a b => a = b := by
  cases e <;> cases i <;> first | exact h.elim | exact Refines.raise _ | skip
  next ref x =>
  obtain ⟨p, hp, hx⟩ := h
  show Refines r l s (quickJS2Cangjie ref.handle t) _ _
  rw [hp]
  exact quickJS2Cangjie_refines hx t

theorem toExtern_refines (hv : v.Is r s o) :
    Refines r l s (JSRuntime.toExtern (some r) v) (Direct.toExtern o) (Payload.Is r) :=
  Refines.bind (toJSValue_refines hv) fun _ _ _ _ _ hy => Refines.ret hy

end Store

end InteropJs
