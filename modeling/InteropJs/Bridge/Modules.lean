import InteropJs.Bridge.Isolation

/-!
# Modules and the objects of their exports

What is asked of an engine about the module of one file, and what the bridge makes of it.

* `ModuleView` is how a heap is read: the module records, each with its bindings and the objects that
  its code made, and the objects that the bridge made with `JS_NewObject`. A value is tame if it is a
  primitive, an object of these two sorts, or an error of the engine.
* `ModuleView.Step writes runs` is a change of the heap in which only the properties `writes` of objects
  of the bridge are assigned, and only code of the records `runs` runs.
* `ModuleEngine` are the laws. The code of the module is isolated: it writes no object of the bridge and
  no other record, and what it makes of a new record depends on the source alone.
* `importModule_does`: an import makes a new record and a new object, and the own properties of the
  object are the exports of the record.
-/

namespace InteropJs

open Hoare

variable {P : Platform}

/-- The accessor property of `Object.prototype`. -/
def protoKey : PropKey := .ofCString (utf8 "__proto__")

/-- How a heap is read (module doc). -/
structure ModuleView (P : Platform) where
  /-- The state of a module, in its own terms. -/
  Part : Type
  /-- A value in the terms of a module: one of its own objects, by its place there, or a foreign value. -/
  Term : Type
  /-- The intrinsic objects are as the engine made them, and tame values lead only to tame ones. -/
  Sound : P.Heap → Prop
  Tame : P.Heap → JSVal → Prop
  /-- The bridge made the object. -/
  Made : P.Heap → JSVal → Prop
  /-- The own property keys of an object. -/
  keys : P.Heap → JSVal → List PropKey
  /-- The own data properties. -/
  data : P.Heap → JSVal → PropKey → Option JSVal
  /-- The module records. -/
  record : P.Heap → Nat → Option Part
  term : P.Heap → Nat → JSVal → Term
  /-- The record that a namespace object belongs to. -/
  spaceOf : P.Heap → JSVal → Option Nat
  /-- The prototype that an object of the bridge was given in place of `Object.prototype`. -/
  base : P.Heap → JSVal → Option JSVal
  /-- A setter of the module, on the prototype chain of the object, takes an assignment to the key. -/
  Intercepts : P.Heap → JSVal → PropKey → Prop

namespace ModuleView

variable (V : ModuleView P)

/-- The own properties of an object. -/
def own (h : P.Heap) (x : JSVal) : List (PropKey × Option JSVal) :=
  (V.keys h x).map fun k => (k, V.data h x k)

/-- From `h` to `h'` (module doc). -/
structure Step (writes : Set (JSVal × PropKey)) (runs : Set Nat) (h h' : P.Heap) : Prop where
  sound : V.Sound h'
  tame : ∀ x, V.Tame h x → V.Tame h' x
  made : ∀ x, V.Made h x → V.Made h' x
  own : ∀ x, V.Made h x → (∀ k, (x, k) ∉ writes) → V.own h' x = V.own h x
  base : ∀ x, V.Made h x → (x, protoKey) ∉ writes → V.base h' x = V.base h x
  record : ∀ m p, m ∉ runs → V.record h m = some p → V.record h' m = some p
  term : ∀ m p x, m ∉ runs → V.record h m = some p → V.term h' m x = V.term h m x
  spaceOf : ∀ ns m, V.spaceOf h ns = some m → V.spaceOf h' ns = some m
  free : writes = ∅ → runs = ∅ → ∀ x k, V.Made h x → ¬ V.Intercepts h x k → ¬ V.Intercepts h' x k

/-- The text of `x` is made by code of `runs`. -/
def Worded (runs : Set Nat) (h : P.Heap) (x : JSVal) : Prop :=
  V.Step ∅ runs h (P.toCString x h).2 ∧
    ∀ e, (P.toCString x h).1 = .error e → V.Tame (P.toCString x h).2 e

/-- An engine call: a step, `ok` of its result, and an error that is tame and worded. -/
structure Does {α : Type} (writes : Set (JSVal × PropKey)) (runs : Set Nat) (h : P.Heap)
    (out : Except JSVal α × P.Heap) (ok : α → P.Heap → Prop) : Prop where
  step : V.Step writes runs h out.2
  value : ∀ a, out.1 = .ok a → ok a out.2
  error : ∀ x, out.1 = .error x → V.Tame out.2 x ∧ V.Worded runs out.2 x

variable {V} {h h' h'' : P.Heap} {writes writes' : Set (JSVal × PropKey)} {runs runs' : Set Nat}

theorem Step.refl (hs : V.Sound h) : V.Step writes runs h h where
  sound := hs
  tame _ hx := hx
  made _ hx := hx
  own _ _ _ := rfl
  base _ _ _ := rfl
  record _ _ _ hp := hp
  term _ _ _ _ _ := rfl
  spaceOf _ _ hm := hm
  free _ _ _ _ _ hx := hx

theorem Step.trans (h₁ : V.Step writes runs h h') (h₂ : V.Step writes runs h' h'') :
    V.Step writes runs h h'' where
  sound := h₂.sound
  tame x hx := h₂.tame x (h₁.tame x hx)
  made x hx := h₂.made x (h₁.made x hx)
  own x hx hw := (h₂.own x (h₁.made x hx) hw).trans (h₁.own x hx hw)
  base x hx hw := (h₂.base x (h₁.made x hx) hw).trans (h₁.base x hx hw)
  record m p hm hp := h₂.record m p hm (h₁.record m p hm hp)
  term m p x hm hp := (h₂.term m p x hm (h₁.record m p hm hp)).trans (h₁.term m p x hm hp)
  spaceOf ns m hm := h₂.spaceOf ns m (h₁.spaceOf ns m hm)
  free hw hr x k hx hk := h₂.free hw hr x k (h₁.made x hx) (h₁.free hw hr x k hx hk)

theorem Step.mono (hstep : V.Step writes runs h h') (hw : writes ⊆ writes') (hr : runs ⊆ runs') :
    V.Step writes' runs' h h' where
  sound := hstep.sound
  tame := hstep.tame
  made := hstep.made
  own x hx hn := hstep.own x hx fun k hmem => hn k (hw hmem)
  base x hx hn := hstep.base x hx fun hmem => hn (hw hmem)
  record m p hn := hstep.record m p fun hmem => hn (hr hmem)
  term m p x hn := hstep.term m p x fun hmem => hn (hr hmem)
  spaceOf := hstep.spaceOf
  free hw' hr' := hstep.free (Set.subset_eq_empty hw hw') (Set.subset_eq_empty hr hr')

theorem Worded.mono {x : JSVal} (hworded : V.Worded runs h x) (hr : runs ⊆ runs') : V.Worded runs' h x :=
  ⟨hworded.1.mono (Set.Subset.refl _) hr, hworded.2⟩

theorem Does.mono {α : Type} {out : Except JSVal α × P.Heap} {ok ok' : α → P.Heap → Prop}
    (hdoes : V.Does writes runs h out ok) (hw : writes ⊆ writes') (hr : runs ⊆ runs')
    (hok : ∀ a h', ok a h' → ok' a h') : V.Does writes' runs' h out ok' where
  step := hdoes.step.mono hw hr
  value a ha := hok a _ (hdoes.value a ha)
  error x hx := ⟨(hdoes.error x hx).1, (hdoes.error x hx).2.mono hr⟩

/-- One engine call after another. -/
theorem Does.andThen {α β : Type} {f : EngineM P.Heap α} {g : α → EngineM P.Heap β}
    {ok : α → P.Heap → Prop} {ok' : β → P.Heap → Prop} (hf : V.Does writes runs h (f h) ok)
    (hg : ∀ a h', V.Step writes runs h h' → ok a h' → V.Does writes runs h' (g a h') ok') :
    V.Does writes runs h (EngineM.andThen f g h) ok' := by
  unfold EngineM.andThen
  rcases hout : f h with ⟨x | a, h'⟩ <;> rw [hout] at hf
  · refine ⟨hf.step, fun a ha => ?_, fun y hy => ?_⟩
    · cases ha
    · cases hy
      exact hf.error x rfl
  · have hnext := hg a h' hf.step (hf.value a rfl)
    exact ⟨hf.step.trans hnext.step, hnext.value, hnext.error⟩

end ModuleView

/-- The primitive values. -/
def JSVal.isPrimitive : JSVal → Bool
  | .object _ | .function _ _ | .module _ => false
  | _ => true

/-- The engine and the module of the file `path` with the text `source` (module doc). The engine
has the memory that an import needs. -/
structure ModuleEngine (P : Platform) (source : List UInt8) (path : CStr) extends ModuleView P where
  /-- The file can be read, and does not change. -/
  file (host : P.Host) : (P.readFile path host).1 = some source
  /-- The record after each phase. -/
  compiled : Part
  linked : Part
  evaluated : Part
  /-- The exported names, and the value of each after the evaluation, unless it is uninitialised. -/
  names : List PropKey
  current : PropKey → Option Term
  /-- The intrinsic function `BigInt`. -/
  bigInt : JSVal
  primitive_tame {h : P.Heap} {x : JSVal} (prim : x.isPrimitive = true) : Tame h x
  newContext {host host' : P.Host} {h : P.Heap} (new : P.newContext host = (some h, host')) : Sound h
  /-- A new record each time, in the state that the source alone determines. -/
  compile {h : P.Heap} (loader : Bool) (sound : Sound h) :
    ∃ m h', P.compileModule source path.text loader h = (.ok m, h') ∧ record h m = none ∧
      toModuleView.Step ∅ {m} h h' ∧ record h' m = some compiled
  resolve {h : P.Heap} {m : Nat} (loader : Bool) (sound : Sound h) (new : record h m = some compiled) :
    ∃ h', P.resolveModule m loader h = (.ok (), h') ∧ toModuleView.Step ∅ {m} h h' ∧
      record h' m = some linked
  /-- The top level reads and writes its own record only. -/
  evaluate {h : P.Heap} {m : Nat} (sound : Sound h) (new : record h m = some linked) :
    ∃ promise h', P.evalFunction m h = (.ok promise, h') ∧ toModuleView.Step ∅ {m} h h' ∧
      record h' m = some evaluated
  space {h : P.Heap} {m : Nat} (sound : Sound h) (rec : record h m = some evaluated) :
    ∃ ns h', P.moduleNamespace m h = (.ok ns, h') ∧ toModuleView.Step ∅ ∅ h h' ∧ spaceOf h' ns = some m
  names_nodup : names.Nodup
  /-- To list a namespace may throw while an export is uninitialised. -/
  space_names {h : P.Heap} {ns : JSVal} {m : Nat} (sound : Sound h) (space : spaceOf h ns = some m)
    (rec : record h m = some evaluated) :
    toModuleView.Does ∅ ∅ h (P.ownPropertyNames ns h) (fun ks _ => ks = names) ∧
      ((∀ k ∈ names, (current k).isSome) → (P.ownPropertyNames ns h).1.toOption.isSome = true)
  /-- A read of a namespace gives the current value of the binding. -/
  space_get {h : P.Heap} {ns : JSVal} {m : Nat} {k : PropKey} {t : Term} (sound : Sound h)
    (space : spaceOf h ns = some m) (rec : record h m = some evaluated) (mem : k ∈ names)
    (value : current k = some t) : ∃ y, P.getProperty ns k h = (.ok y, h) ∧ Tame h y ∧ term h m y = t
  space_get_none {h : P.Heap} {ns : JSVal} {m : Nat} {k : PropKey} (sound : Sound h)
    (space : spaceOf h ns = some m) (rec : record h m = some evaluated) (mem : k ∈ names)
    (value : current k = none) : (∃ e, (P.getProperty ns k h).1 = .error e) ∧
      toModuleView.Does ∅ ∅ h (P.getProperty ns k h) fun _ _ => True
  newObject {h : P.Heap} (sound : Sound h) :
    ∃ x h', P.newObject h = (.ok x, h') ∧ toModuleView.Step ∅ ∅ h h' ∧ ¬ Made h x ∧ Made h' x ∧
      Tame h' x ∧ keys h' x = [] ∧ base h' x = none
  define {h : P.Heap} {x y : JSVal} {k : PropKey} (sound : Sound h) (made : Made h x) (tame : Tame h y)
    (new : k ∉ keys h x) : ∃ done h', P.defineProperty x k y h = (.ok done, h') ∧
      toModuleView.Step {(x, k)} ∅ h h' ∧ base h' x = base h x ∧
      toModuleView.own h' x = toModuleView.own h x ++ [(k, some y)]
  initStd {h : P.Heap} (sound : Sound h) :
    toModuleView.Does ∅ ∅ h (P.initModuleStd h) fun _ _ => True
  newString {h : P.Heap} (us : List UInt16) (sound : Sound h) :
    toModuleView.Does ∅ ∅ h (P.newString us h) fun _ _ => True
  lookupBigInt {h : P.Heap} (sound : Sound h) :
    P.getProperty (P.globalObject h) (.ofCString (utf8 "BigInt")) h = (.ok bigInt, h)
  callBigInt {h : P.Heap} (us : List UInt16) (sound : Sound h) :
    toModuleView.Does ∅ ∅ h (P.call bigInt .undefined [.string us] h) fun y h' => Tame h' y
  /-- Conversions of tame values, and what they run, are tame. -/
  text {h : P.Heap} {x : JSVal} (sound : Sound h) (tame : Tame h x) : toModuleView.Worded Set.univ h x
  toNumber {h : P.Heap} {x : JSVal} (sound : Sound h) (tame : Tame h x) :
    toModuleView.Does ∅ Set.univ h (P.toNumber x h) fun _ _ => True
  isArray {h : P.Heap} {x : JSVal} (sound : Sound h) (tame : Tame h x) :
    toModuleView.Does ∅ Set.univ h (P.isArray x h) fun _ _ => True
  length {h : P.Heap} {x : JSVal} (sound : Sound h) (tame : Tame h x) :
    toModuleView.Does ∅ Set.univ h (P.getProperty x (.ofCString (utf8 "length")) h) fun y h' => Tame h' y
  get {h : P.Heap} {x y : JSVal} {k : PropKey} (sound : Sound h) (tame : Tame h x)
    (own : data h x k = some y) :
    toModuleView.Does ∅ ∅ h (P.getProperty x k h) fun z h' => z = y ∧ Tame h' y
  /-- An assignment writes its object, and runs the code of a setter at most. -/
  set {h : P.Heap} {x y : JSVal} (k : PropKey) (sound : Sound h) (target : Tame h x) (value : Tame h y) :
    toModuleView.Does {(x, k)} Set.univ h (P.setProperty x k y h) fun _ _ => True
  set_made {h : P.Heap} {x y : JSVal} {k : PropKey} (sound : Sound h) (made : Made h x)
    (value : Tame h y) (free : ¬ Intercepts h x k) :
    toModuleView.Does {(x, k)} ∅ h (P.setProperty x k y h) fun _ _ => True
  intercepts_base {h : P.Heap} {x : JSVal} {k : PropKey} (takes : Intercepts h x k) : base h x ≠ none
  /-- The functions of the module read and write its record and its objects only. -/
  call {h : P.Heap} {f this : JSVal} {args : List JSVal} (sound : Sound h) (function : Tame h f)
    (receiver : Tame h this) (tame : ∀ a ∈ args, Tame h a) :
    toModuleView.Does ∅ Set.univ h (P.call f this args h) fun y h' => Tame h' y
  construct {h : P.Heap} {f : JSVal} {args : List JSVal} (sound : Sound h) (function : Tame h f)
    (tame : ∀ a ∈ args, Tame h a) :
    toModuleView.Does ∅ Set.univ h (P.callConstructor f args h) fun y h' => Tame h' y

namespace ModuleEngine

open ModuleView

variable {source : List UInt8} {path : CStr} (E : ModuleEngine P source path)

/-! ## An import -/

/-- The own properties of an object, in the terms of the record `m`. -/
def exports (h : P.Heap) (m : Nat) (x : JSVal) : List (PropKey × Option E.Term) :=
  (E.own h x).map fun q => (q.1, q.2.map (E.term h m))

/-- The new object `x` presents the exports `ks` of the record `m`. -/
structure Presents (h : P.Heap) (m : Nat) (x : JSVal) (ks : List PropKey) : Prop where
  exports : E.exports h m x = ks.map fun k => (k, E.current k)
  base : E.base h x = none

variable {E} {h : P.Heap}

theorem keys_of_own {h' : P.Heap} {x y : JSVal} {k : PropKey}
    (hown : E.own h' x = E.own h x ++ [(k, some y)]) : E.keys h' x = E.keys h x ++ [k] := by
  have hmap := congrArg (List.map Prod.fst) hown
  simpa [ModuleView.own, Function.comp_def] using hmap

/-- The copying loop. Nothing is copied twice, so each export becomes a new property. -/
theorem copyProperties_does {ns x : JSVal} {m : Nat} {done ks : List PropKey} (hs : E.Sound h)
    (hspace : E.spaceOf h ns = some m) (hrec : E.record h m = some E.evaluated) (hx : E.Made h x)
    (hshows : E.Presents h m x done) (hks : ∀ k ∈ ks, k ∈ E.names) (hnodup : ks.Nodup)
    (hnew : ∀ k ∈ ks, k ∉ E.keys h x) :
    E.Does {q | q.1 = x} ∅ h (P.copyProperties ns x ks h)
        (fun y h' => y = x ∧ E.Presents h' m x (done ++ ks)) ∧
      ((∀ k ∈ ks, (E.current k).isSome) ↔ (P.copyProperties ns x ks h).1 = .ok x) := by
  induction ks generalizing h done with
  | nil =>
    have hrun : P.copyProperties ns x [] h = (.ok x, h) := rfl
    rw [hrun]
    refine ⟨⟨.refl hs, fun y hy => ?_, fun y hy => ?_⟩, by simp⟩
    · cases hy
      exact ⟨rfl, by simpa using hshows⟩
    · cases hy
  | cons k ks ih =>
    rw [List.nodup_cons] at hnodup
    have hmem := hks k List.mem_cons_self
    cases hk : E.current k with
    | none =>
      -- the binding is uninitialised: the read throws
      obtain ⟨⟨e, he⟩, hdoes⟩ := E.space_get_none hs hspace hrec hmem hk
      rcases hget : P.getProperty ns k h with ⟨e' | v, h'⟩ <;> rw [hget] at he hdoes
      · have hcopy : P.copyProperties ns x (k :: ks) h = (.error e', h') := by
          simp [Platform.copyProperties, EngineM.andThen, hget]
        rw [hcopy]
        refine ⟨⟨hdoes.step.mono (Set.empty_subset _) (Set.Subset.refl _), fun y hy => ?_,
          fun y hy => ?_⟩, ?_⟩
        · cases hy
        · cases hy
          exact hdoes.error e' rfl
        · simp [hk]
      · cases he
    | some t =>
      obtain ⟨v, hget, hv, hterm⟩ := E.space_get hs hspace hrec hmem hk
      obtain ⟨b, h', hdef, hstep, hbase, hown⟩ := E.define hs hx hv (hnew k List.mem_cons_self)
      have hrun : P.copyProperties ns x (k :: ks) h = P.copyProperties ns x ks h' := by
        simp [Platform.copyProperties, EngineM.andThen, hget, hdef]
      have hrec' := hstep.record m _ (Set.notMem_empty _) hrec
      have hterms : ∀ y, E.term h' m y = E.term h m y := fun y =>
        hstep.term m _ y (Set.notMem_empty _) hrec
      have hshows' : E.Presents h' m x (done ++ [k]) := by
        refine ⟨?_, hbase.trans hshows.base⟩
        have hdone := hshows.exports
        unfold exports at hdone ⊢
        rw [hown, List.map_append, List.map_append, funext hterms, hdone]
        simp [hterm, hk]
      have hkeys := keys_of_own hown
      have hrest := ih hstep.sound (hstep.spaceOf ns m hspace) hrec' (hstep.made x hx) hshows'
        (fun k hk => hks k (List.mem_cons_of_mem _ hk)) hnodup.2 fun k' hk' => by
          rw [hkeys]
          have hne : k' ≠ k := fun heq => hnodup.1 (heq ▸ hk')
          simp [hnew k' (List.mem_cons_of_mem _ hk'), hne]
      have hfirst : E.Step {q | q.1 = x} ∅ h h' :=
        hstep.mono (Set.singleton_subset_iff.mpr rfl) (Set.Subset.refl _)
      rw [hrun]
      refine ⟨⟨hfirst.trans hrest.1.step, fun y hy => ?_, hrest.1.error⟩, ?_⟩
      · obtain ⟨rfl, hlast⟩ := hrest.1.value y hy
        exact ⟨rfl, by simpa using hlast⟩
      · rw [← hrest.2]
        simp [hk]

/-- Every export is initialised after the evaluation. -/
def Complete (E : ModuleEngine P source path) : Prop :=
  ∀ k ∈ E.names, (E.current k).isSome

/-- Writes to an object that was not there before. -/
theorem step_new {x : JSVal} {m : Nat} {h' h'' : P.Heap} (h₁ : E.Step ∅ {m} h h') (hx : ¬ E.Made h x)
    (h₂ : E.Step {q | q.1 = x} {m} h' h'') : E.Step ∅ {m} h h'' where
  sound := h₂.sound
  tame z hz := h₂.tame z (h₁.tame z hz)
  made z hz := h₂.made z (h₁.made z hz)
  own z hz hw := by
    have hne : z ≠ x := by
      rintro rfl
      exact hx hz
    exact (h₂.own z (h₁.made z hz) fun _ => hne).trans (h₁.own z hz hw)
  base z hz hw := by
    have hne : z ≠ x := by
      rintro rfl
      exact hx hz
    exact (h₂.base z (h₁.made z hz) hne).trans (h₁.base z hz hw)
  record n p hn hp := h₂.record n p hn (h₁.record n p hn hp)
  term n p z hn hp := (h₂.term n p z hn (h₁.record n p hn hp)).trans (h₁.term n p z hn hp)
  spaceOf ns n hn := h₂.spaceOf ns n (h₁.spaceOf ns n hn)
  free _ hr := absurd hr (Set.singleton_ne_empty m)

/-- `JS_NewObject` and the copying loop, for the namespace of an evaluated record. -/
theorem snapshot_does {ns : JSVal} {m : Nat} (hs : E.Sound h) (hspace : E.spaceOf h ns = some m)
    (hrec : E.record h m = some E.evaluated) :
    E.Does ∅ {m} h (P.snapshot ns h) (fun x h' => ¬ E.Made h x ∧ E.Made h' x ∧ E.Tame h' x ∧
        E.record h' m = some E.evaluated ∧ E.Presents h' m x (E.names)) ∧
      (E.Complete ↔ (P.snapshot ns h).1.toOption.isSome = true) := by
  obtain ⟨x, h₁, hnew, hstep, hold, hmade, htame, hkeys, hbase⟩ := E.newObject hs
  have hspace₁ := hstep.spaceOf ns m hspace
  have hrec₁ := hstep.record m _ (Set.notMem_empty _) hrec
  obtain ⟨hlist, hlisted⟩ := E.space_names hstep.sound hspace₁ hrec₁
  have hfirst : E.Step ∅ ∅ h _ := hstep.trans hlist.step
  rcases hnames : P.ownPropertyNames ns h₁ with ⟨e | ks, h₂⟩ <;> rw [hnames] at hlist hlisted hfirst
  · -- an export is uninitialised, and the listing throws
    have hrun : P.snapshot ns h = (.error e, h₂) := by
      simp [Platform.snapshot, EngineM.andThen, hnew, hnames]
    obtain ⟨htame', hworded⟩ := hlist.error e rfl
    rw [hrun]
    refine ⟨⟨hfirst.mono (Set.Subset.refl _) (Set.empty_subset _), fun y hy => ?_, fun y hy => ?_⟩, ?_⟩
    · cases hy
    · cases hy
      exact ⟨htame', hworded.mono (Set.empty_subset _)⟩
    · exact iff_of_false (fun hcomplete => by cases hlisted hcomplete) (by simp [Except.toOption])
  obtain rfl : ks = E.names := hlist.value ks rfl
  have hspace₂ := hfirst.spaceOf ns m hspace
  have hrec₂ := hfirst.record m _ (Set.notMem_empty _) hrec
  have hmade₂ := hlist.step.made x hmade
  have hown : E.own h₂ x = [] := by
    rw [hlist.step.own x hmade fun _ => Set.notMem_empty _]
    simp [ModuleView.own, hkeys]
  have hkeys₂ : E.keys h₂ x = [] := by simpa [ModuleView.own] using hown
  have hempty : E.Presents h₂ m x [] :=
    ⟨by simp [exports, hown], (hlist.step.base x hmade (Set.notMem_empty _)).trans hbase⟩
  have hrun : P.snapshot ns h = P.copyProperties ns x E.names h₂ := by
    simp [Platform.snapshot, EngineM.andThen, hnew, hnames]
  obtain ⟨hdoes, hok⟩ := copyProperties_does hfirst.sound hspace₂ hrec₂ hmade₂ hempty (fun _ hk => hk)
    E.names_nodup fun k _ => by simp [hkeys₂]
  have hstep' : E.Step ∅ {m} h _ := step_new (hfirst.mono (Set.Subset.refl _) (Set.empty_subset _)) hold
    (hdoes.step.mono (Set.Subset.refl _) (Set.empty_subset _))
  rw [hrun]
  refine ⟨⟨hstep', fun y hy => ?_, fun e he => ?_⟩, ?_⟩
  · obtain ⟨rfl, hpresents⟩ := hdoes.value y hy
    exact ⟨hold, hdoes.step.made y hmade₂, hdoes.step.tame y (hlist.step.tame y htame),
      hdoes.step.record m _ (Set.notMem_empty _) hrec₂, by simpa using hpresents⟩
  · exact ⟨(hdoes.error e he).1, (hdoes.error e he).2.mono (Set.empty_subset _)⟩
  · rw [Complete, hok]
    rcases hout : P.copyProperties ns x E.names h₂ with ⟨e | y, h'⟩
    · simp [Except.toOption]
    · have hval := (hdoes.value y (by rw [hout])).1
      simp [Except.toOption, hval]

/-- An import makes one new record and one new object, and the object presents the exports. Whether it
succeeds is up to the module alone. -/
theorem importModule_does (loader : Bool) (hs : E.Sound h) :
    ∃ m, E.record h m = none ∧
      E.Does ∅ {m} h (P.importModule source path loader h) (fun x h' => ¬ E.Made h x ∧ E.Made h' x ∧
        E.Tame h' x ∧ E.record h' m = some E.evaluated ∧ E.Presents h' m x (E.names)) ∧
      (E.Complete ↔ (P.importModule source path loader h).1.toOption.isSome = true) := by
  obtain ⟨m, h₁, hcompile, hnew, hstep₁, hrec₁⟩ := E.compile loader hs
  obtain ⟨h₂, hresolve, hstep₂, hrec₂⟩ := E.resolve loader hstep₁.sound hrec₁
  obtain ⟨promise, h₃, heval, hstep₃, hrec₃⟩ := E.evaluate hstep₂.sound hrec₂
  obtain ⟨ns, h₄, hspace, hstep₄, hof⟩ := E.space hstep₃.sound hrec₃
  have hrec₄ := hstep₄.record m _ (Set.notMem_empty _) hrec₃
  have hstep := ((hstep₁.trans hstep₂).trans hstep₃).trans
    (hstep₄.mono (Set.Subset.refl _) (Set.empty_subset _))
  have hrun : P.importModule source path loader h = P.snapshot ns h₄ := by
    simp [Platform.importModule, EngineM.andThen, hcompile, hresolve, heval, hspace]
  obtain ⟨hdoes, hok⟩ := snapshot_does hstep₄.sound hof hrec₄
  refine ⟨m, hnew, ?_, by rw [hok, hrun]⟩
  rw [hrun]
  refine ⟨hstep.trans hdoes.step, fun x hx => ?_, hdoes.error⟩
  obtain ⟨hold, hrest⟩ := hdoes.value x hx
  exact ⟨fun hmade => hold (hstep.made x hmade), hrest⟩

end ModuleEngine

end InteropJs
