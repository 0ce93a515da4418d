import InteropJs.Bridge.Runs

/-!
# The snapshot of a module namespace

`new_mutable_namespace_object` copies the exports of a module into a new object: all of them, or it
throws the object away.

* `Objects` is how a heap is read: what an object is in itself, and which objects lead to which.
  `Reached h S x` says that the holder of the values `S` can get to `x`.
* `ObjectEngine` are the laws of the engine. Its calls are confined (`Confined`): an object that their
  arguments do not lead to stays as it is and stays out of reach, whatever code they run.
* `copyTries` are the names whose copy is tried, each with the heap in which it is read, and
  `SnapshotFails` lists the ways to fail.
* `copyProperties_complete` and `copyProperties_hidden` are the two ends of the loop.
-/

namespace InteropJs

open Hoare

variable {P : Platform}

/-! ## Objects of a heap -/

/-- The key of an own property. -/
inductive OwnKey where
  | name (k : PropKey)
  | symbol (id : Nat)
  deriving DecidableEq

/-- An own property with its attributes. -/
inductive OwnProperty where
  | data (value : JSVal) (configurable writable enumerable : Bool)
  | accessor (getter setter : JSVal) (configurable enumerable : Bool)
  deriving DecidableEq

def OwnProperty.isEnumerable : OwnProperty → Bool
  | .data _ _ _ e | .accessor _ _ _ e => e

/-- What an object is in itself. -/
structure ObjectState where
  own : OwnKey → Option OwnProperty
  /-- An ordinary object that takes new properties. -/
  extensible : Bool

/-- An object as `JS_NewObject` makes it. -/
def ObjectState.empty : ObjectState := ⟨fun _ => none, true⟩

/-- The object with the new property that `JS_PROP_C_W_E` asks for. -/
def ObjectState.define (s : ObjectState) (k : PropKey) (v : JSVal) : ObjectState :=
  { s with own := Function.update s.own (.name k) (some (.data v true true true)) }

/-- How a heap is read (module doc). -/
structure Objects (P : Platform) where
  state : P.Heap → JSVal → ObjectState
  /-- The objects that were made so far. -/
  Known : P.Heap → JSVal → Prop
  /-- One object refers to another: by a property, its prototype, a binding, a captured variable or an internal
  slot (the entries of a `Map` or `Set`, the parts of a bound function, of a promise and of a `Proxy`, the target
  of a `WeakRef`). -/
  Refers : P.Heap → JSVal → JSVal → Prop
  /-- The engine itself holds the object: the global object, the intrinsics, modules, pending jobs. -/
  Root : P.Heap → JSVal → Prop
  /-- The namespace object of a module. -/
  Space : P.Heap → JSVal → Prop

namespace Objects

variable (O : Objects P)

/-- The holder of `S` can get to `x`. -/
def Reached (h : P.Heap) (S : Set JSVal) (x : JSVal) : Prop :=
  ∃ a, (a ∈ S ∨ O.Root h a) ∧ Relation.ReflTransGen (O.Refers h) a x

/-- An object that the holder of `S` cannot get to. -/
def Hidden (h : P.Heap) (S : Set JSVal) (x : JSVal) : Prop := O.Known h x ∧ ¬ O.Reached h S x

/-- Values that can be held in `h`: primitives, and objects that were made. -/
def Held (h : P.Heap) (S : Set JSVal) : Prop := ∀ a ∈ S, a.isObject = true → O.Known h a

/-- A call by the holder of `S` that gives the values `given` and may throw (module doc). -/
def Confined {α : Type} (S : Set JSVal) (h : P.Heap) (out : Except JSVal α × P.Heap)
    (given : Set JSVal) : Prop :=
  ∀ x, O.Hidden h S x →
    O.state out.2 x = O.state h x ∧ O.Hidden out.2 (S ∪ given ∪ {e | out.1 = .error e}) x

/-- The enumerable exports of a namespace, and those of any other object. -/
def Exports (h : P.Heap) (ns : JSVal) (k : PropKey) : Prop :=
  ∃ p, (O.state h ns).own (.name k) = some p ∧ p.isEnumerable = true

variable {O} {h : P.Heap} {S T : Set JSVal} {x : JSVal}

theorem Hidden.mono (hx : O.Hidden h T x) (hsub : S ⊆ T) : O.Hidden h S x := by
  refine ⟨hx.1, fun ⟨a, ha, hpath⟩ => hx.2 ⟨a, ?_, hpath⟩⟩
  exact ha.imp_left fun hmem => hsub hmem

theorem Confined.hidden {α : Type} {out : Except JSVal α × P.Heap} {given : Set JSVal}
    (hc : O.Confined S h out given) (hx : O.Hidden h S x) : O.Hidden out.2 S x :=
  (hc x hx).2.mono fun _ ha => .inl (.inl ha)

end Objects

/-- What is asked of the engine (module doc). -/
structure ObjectEngine (P : Platform) extends Objects P where
  /-- A new object is empty, and nothing leads to it. -/
  newObject {h h' : P.Heap} {x : JSVal} (made : P.newObject h = (.ok x, h')) :
    Known h' x ∧ state h' x = .empty ∧ ∀ S, toObjects.Held h S → ¬ toObjects.Reached h' S x
  /-- It changes no namespace. -/
  newObject_space {h h' : P.Heap} {x ns : JSVal} (made : P.newObject h = (.ok x, h'))
    (space : Space h ns) : Space h' ns ∧ state h' ns = state h ns
  /-- `JS_GetOwnPropertyNames` of a namespace gives each enumerable export once. -/
  names {h h' : P.Heap} {ns : JSVal} {ks : List PropKey} (space : Space h ns)
    (listed : P.ownPropertyNames ns h = (.ok ks, h')) :
    ks.Nodup ∧ ∀ k, k ∈ ks ↔ toObjects.Exports h ns k
  names_confined {h : P.Heap} {S : Set JSVal} {ns : JSVal} (held : ns ∈ S) :
    toObjects.Confined S h (P.ownPropertyNames ns h) ∅
  get_confined {h : P.Heap} {S : Set JSVal} {ns : JSVal} (k : PropKey) (held : ns ∈ S) :
    toObjects.Confined S h (P.getProperty ns k h) {v | (P.getProperty ns k h).1 = .ok v}
  /-- A property of an object that is out of reach gives no way to the object. -/
  define_hidden {h : P.Heap} {S : Set JSVal} {x v : JSVal} (k : PropKey) (held : v ∈ S)
    (hidden : toObjects.Hidden h S x) :
    toObjects.Hidden (P.defineProperty x k v h).2 (S ∪ {e | (P.defineProperty x k v h).1 = .error e}) x
  define {h h' : P.Heap} {x v : JSVal} {k : PropKey} {done : Bool} (ext : (state h x).extensible = true)
    (new : (state h x).own (.name k) = none) (defined : P.defineProperty x k v h = (.ok done, h')) :
    state h' x = (state h x).define k v
  text_confined {h : P.Heap} {S : Set JSVal} {e : JSVal} (held : e ∈ S) :
    toObjects.Confined S h (P.toCString e h) ∅

/-! ## The copying loop -/

namespace Platform

variable (P)

/-- The names whose copy is tried, each with the heap in which it is read. -/
def copyTries (ns object : JSVal) : List PropKey → P.Heap → List (PropKey × P.Heap)
  | [], _ => []
  | atom :: atoms, h =>
    (atom, h) ::
      match P.getProperty ns atom h with
      | (.error _, _) => []
      | (.ok v, h) =>
        match P.defineProperty object atom v h with
        | (.error _, _) => []
        | (.ok _, h) => copyTries ns object atoms h

/-- The export cannot be read. -/
def ReadFails (ns : JSVal) (t : PropKey × P.Heap) : Prop := ∃ e, (P.getProperty ns t.1 t.2).1 = .error e

/-- The export is read, but the property cannot be defined. -/
def DefineFails (ns object : JSVal) (t : PropKey × P.Heap) : Prop :=
  ∃ v h e, P.getProperty ns t.1 t.2 = (.ok v, h) ∧ (P.defineProperty object t.1 v h).1 = .error e

/-- The ways in which the snapshot of `ns` fails: making the object, listing the names, and reading or
defining some export. -/
def SnapshotFails (ns : JSVal) (h : P.Heap) : Prop :=
  (∃ e, (P.newObject h).1 = .error e) ∨
  ∃ object h₁, P.newObject h = (.ok object, h₁) ∧
    ((∃ e, (P.ownPropertyNames ns h₁).1 = .error e) ∨
      ∃ atoms h₂, P.ownPropertyNames ns h₁ = (.ok atoms, h₂) ∧
        ∃ t ∈ P.copyTries ns object atoms h₂, P.ReadFails ns t ∨ P.DefineFails ns object t)

variable {P} {ns object : JSVal} {h : P.Heap}

/-- The loop ends with the exception of the one copy that throws. -/
theorem copyProperties_error_iff {e : JSVal} {h' : P.Heap} (atoms : List PropKey) :
    P.copyProperties ns object atoms h = (.error e, h') ↔
      ∃ t ∈ P.copyTries ns object atoms h, P.getProperty ns t.1 t.2 = (.error e, h') ∨
        ∃ v h₁, P.getProperty ns t.1 t.2 = (.ok v, h₁) ∧
          P.defineProperty object t.1 v h₁ = (.error e, h') := by
  induction atoms generalizing h with
  | nil => simp [copyProperties, copyTries]
  | cons atom atoms ih =>
    simp only [copyProperties, copyTries, EngineM.andThen, List.mem_cons, exists_eq_or_imp]
    rcases hget : P.getProperty ns atom h with ⟨y | v, h₁⟩
    · simp
    rcases hdef : P.defineProperty object atom v h₁ with ⟨y | d, h₂⟩
    · simp [hdef]
    · simp [hdef, ih]

theorem copyProperties_fails_iff (atoms : List PropKey) :
    (∃ e, (P.copyProperties ns object atoms h).1 = .error e) ↔
      ∃ t ∈ P.copyTries ns object atoms h, P.ReadFails ns t ∨ P.DefineFails ns object t := by
  constructor
  · rintro ⟨e, he⟩
    have hcopy : P.copyProperties ns object atoms h
        = (.error e, (P.copyProperties ns object atoms h).2) := Prod.ext he rfl
    obtain ⟨t, ht, hread | ⟨v, h₁, hread, hdef⟩⟩ := (copyProperties_error_iff atoms).mp hcopy
    · exact ⟨t, ht, .inl ⟨e, by rw [hread]⟩⟩
    · exact ⟨t, ht, .inr ⟨v, h₁, e, hread, by rw [hdef]⟩⟩
  · rintro ⟨t, ht, ⟨e, he⟩ | ⟨v, h₁, e, hread, hdef⟩⟩
    · exact ⟨e, congrArg Prod.fst
        ((copyProperties_error_iff atoms).mpr ⟨t, ht, .inl (Prod.ext he rfl)⟩)⟩
    · exact ⟨e, congrArg Prod.fst
        ((copyProperties_error_iff atoms).mpr ⟨t, ht, .inr ⟨v, h₁, hread, Prod.ext hdef rfl⟩⟩)⟩

theorem snapshot_error_iff : (∃ e, (P.snapshot ns h).1 = .error e) ↔ P.SnapshotFails ns h := by
  unfold SnapshotFails snapshot EngineM.andThen
  rcases hnew : P.newObject h with ⟨e | object, h₁⟩
  · simp
  rcases hnames : P.ownPropertyNames ns h₁ with ⟨e | atoms, h₂⟩
  · simp [hnames]
  · simp [hnames, copyProperties_fails_iff]

end Platform

namespace ObjectEngine

variable {E : ObjectEngine P} {ns object : JSVal} {h : P.Heap} {S : Set JSVal}

/-- Each name of `tries` is an own property of the object in `h'`, with the value that the namespace had
when the name was read. -/
def Copied (E : ObjectEngine P) (ns object : JSVal) (tries : List (PropKey × P.Heap)) (h' : P.Heap) :
    Prop :=
  ∀ k h, (k, h) ∈ tries → ∃ v, (P.getProperty ns k h).1 = .ok v ∧
    (E.state h' object).own (.name k) = some (.data v true true true)

/-- The end of a loop that copied every name: each becomes a new property, and the others of the object
are as before. -/
theorem copyProperties_complete {atoms : List PropKey} {y : JSVal} {h' : P.Heap} (hns : ns ∈ S)
    (hx : E.Hidden h S object) (hext : (E.state h object).extensible = true) (hnodup : atoms.Nodup)
    (hnew : ∀ k ∈ atoms, (E.state h object).own (.name k) = none)
    (hrun : P.copyProperties ns object atoms h = (.ok y, h')) :
    y = object ∧ (P.copyTries ns object atoms h).map Prod.fst = atoms ∧
      E.Copied ns object (P.copyTries ns object atoms h) h' ∧
      ∀ key, (∀ k ∈ atoms, key ≠ .name k) →
        (E.state h' object).own key = (E.state h object).own key := by
  induction atoms generalizing h with
  | nil =>
    cases hrun
    refine ⟨rfl, rfl, fun k h hk => ?_, fun _ _ => rfl⟩
    cases hk
  | cons atom atoms ih =>
    rw [List.nodup_cons] at hnodup
    simp only [Platform.copyProperties, EngineM.andThen] at hrun
    rcases hget : P.getProperty ns atom h with ⟨e | v, h₁⟩ <;> simp only [hget] at hrun
    · cases hrun
    rcases hdef : P.defineProperty object atom v h₁ with ⟨e | d, h₂⟩ <;> simp only [hdef] at hrun
    · cases hrun
    have hread := E.get_confined (h := h) atom hns
    rw [hget] at hread
    obtain ⟨hsame, hx₁⟩ := hread object hx
    -- the value that was read is held too while it is defined
    have hx₂ := E.define_hidden (k := atom) (v := v) (.inl (.inr rfl)) hx₁
    rw [hdef] at hx₂
    have hstate : E.state h₂ object = (E.state h object).define atom v := by
      rw [← hsame]
      refine E.define ?_ ?_ hdef
      · rwa [hsame]
      · rw [hsame]
        exact hnew atom List.mem_cons_self
    have hne : ∀ k ∈ atoms, k ≠ atom := fun k hk heq => hnodup.1 (heq ▸ hk)
    have hext₂ : (E.state h₂ object).extensible = true := by
      rw [hstate]
      exact hext
    have hnew₂ : ∀ k ∈ atoms, (E.state h₂ object).own (.name k) = none := by
      intro k hk
      rw [hstate]
      simp [ObjectState.define, hne k hk, hnew k (List.mem_cons_of_mem _ hk)]
    obtain ⟨rfl, hkeys, hcopied, hrest⟩ := ih (hx₂.mono fun _ ha => .inl (.inl (.inl ha))) hext₂
      hnodup.2 hnew₂ hrun
    have htries : P.copyTries ns y (atom :: atoms) h = (atom, h) :: P.copyTries ns y atoms h₂ := by
      simp only [Platform.copyTries, hget, hdef]
    rw [htries]
    refine ⟨rfl, by simp [hkeys], fun k h₀ hk => ?_, fun key hkey => ?_⟩
    · rcases List.mem_cons.mp hk with heq | hk
      · cases heq
        refine ⟨v, by rw [hget], ?_⟩
        rw [hrest (.name atom) fun k hk heq => hne k hk (OwnKey.name.inj heq).symm, hstate]
        simp [ObjectState.define]
      · exact hcopied k h₀ hk
    · have hatom : key ≠ .name atom := hkey atom List.mem_cons_self
      rw [hrest key fun k hk => hkey k (List.mem_cons_of_mem _ hk), hstate]
      simp [ObjectState.define, hatom]

/-- However the loop ends, nothing that was held before leads to the object, nor does the exception. -/
theorem copyProperties_hidden (atoms : List PropKey) (hns : ns ∈ S) (hx : E.Hidden h S object) :
    E.Hidden (P.copyProperties ns object atoms h).2
      (S ∪ {e | (P.copyProperties ns object atoms h).1 = .error e}) object := by
  induction atoms generalizing h with
  | nil => exact hx.mono fun a ha => ha.elim id fun he => by cases he
  | cons atom atoms ih =>
    simp only [Platform.copyProperties, EngineM.andThen]
    have hread := (E.get_confined (h := h) atom hns object hx).2
    rcases hget : P.getProperty ns atom h with ⟨e | v, h₁⟩ <;> rw [hget] at hread
    · refine hread.mono fun a ha => ?_
      exact ha.elim (fun hs => .inl (.inl hs)) fun he => .inr he
    have hdefine := E.define_hidden (k := atom) (v := v) (.inl (.inr rfl)) hread
    rcases hdef : P.defineProperty object atom v h₁ with ⟨e | d, h₂⟩ <;> rw [hdef] at hdefine <;>
      simp only [hdef]
    · refine hdefine.mono fun a ha => ?_
      refine ha.elim (fun hs => .inl (.inl (.inl hs))) fun he => ?_
      cases he
      exact .inr rfl
    · exact ih (hdefine.mono fun _ ha => .inl (.inl (.inl ha)))

/-! ## The snapshot -/

/-- The object `x` is the snapshot of the namespace: its own properties are the exports, and each was
copied. -/
def Complete (E : ObjectEngine P) (ns : JSVal) (h : P.Heap) (x : JSVal) (h' : P.Heap) : Prop :=
  (∀ key, (E.state h' x).own key ≠ none ↔ ∃ k, key = .name k ∧ E.Exports h ns k) ∧
  ∃ h₁ h₂ atoms, P.newObject h = (.ok x, h₁) ∧ P.ownPropertyNames ns h₁ = (.ok atoms, h₂) ∧
    (P.copyTries ns x atoms h₂).map Prod.fst = atoms ∧
    E.Copied ns x (P.copyTries ns x atoms h₂) h'

theorem snapshot_complete {x : JSVal} {h' : P.Heap} (hspace : E.Space h ns) (hns : ns ∈ S)
    (hS : E.Held h S) (hrun : P.snapshot ns h = (.ok x, h')) : E.Complete ns h x h' := by
  simp only [Platform.snapshot, EngineM.andThen] at hrun
  rcases hnew : P.newObject h with ⟨e | object, h₁⟩ <;> simp only [hnew] at hrun
  · cases hrun
  rcases hnames : P.ownPropertyNames ns h₁ with ⟨e | atoms, h₂⟩ <;> simp only [hnames] at hrun
  · cases hrun
  obtain ⟨hknown, hempty, hout⟩ := E.newObject hnew
  obtain ⟨hspace₁, hkept⟩ := E.newObject_space hnew hspace
  obtain ⟨hnodup, hmem⟩ := E.names hspace₁ hnames
  have hlist := E.names_confined (h := h₁) hns object ⟨hknown, hout S hS⟩
  rw [hnames] at hlist
  have hstate : E.state h₂ object = .empty := hlist.1.trans hempty
  obtain ⟨rfl, hkeys, hcopied, hrest⟩ := copyProperties_complete hns
    (hlist.2.mono fun _ ha => .inl (.inl ha)) (by rw [hstate]; rfl) hnodup
    (fun k _ => by rw [hstate]; rfl) hrun
  refine ⟨fun key => ⟨fun hkey => ?_, ?_⟩, h₁, h₂, atoms, hnew, hnames, hkeys, hcopied⟩
  · by_contra hno
    refine hkey ((hrest key fun k hk heq => hno ⟨k, heq, ?_⟩).trans (by rw [hstate]; rfl))
    rw [Objects.Exports, ← hkept]
    exact (hmem k).mp hk
  · rintro ⟨k, rfl, hk⟩
    rw [Objects.Exports, ← hkept] at hk
    have hlisted := (hmem k).mpr hk
    rw [← hkeys, List.mem_map] at hlisted
    obtain ⟨⟨k, h₀⟩, htry, rfl⟩ := hlisted
    obtain ⟨v, -, hv⟩ := hcopied k h₀ htry
    simp [hv]

theorem snapshot_hidden {h₁ : P.Heap} (hns : ns ∈ S) (hS : E.Held h S)
    (hnew : P.newObject h = (.ok object, h₁)) :
    E.Hidden (P.snapshot ns h).2 (S ∪ {e | (P.snapshot ns h).1 = .error e}) object := by
  obtain ⟨hknown, -, hout⟩ := E.newObject hnew
  have hlist := (E.names_confined (h := h₁) hns object ⟨hknown, hout S hS⟩).2
  simp only [Platform.snapshot, EngineM.andThen, hnew]
  rcases hnames : P.ownPropertyNames ns h₁ with ⟨e | atoms, h₂⟩ <;> rw [hnames] at hlist <;>
    simp only
  · refine hlist.mono fun a ha => ha.elim (fun hs => .inl (.inl hs)) fun he => ?_
    cases he
    exact .inr rfl
  · exact copyProperties_hidden atoms hns (hlist.mono fun _ ha => .inl (.inl ha))

end ObjectEngine

/-- The engine calls of `js_runtime_import_module` up to the namespace. -/
def Platform.loadModule (P : Platform) (source : List UInt8) (path : CStr) (loader : Bool) :
    EngineM P.Heap JSVal :=
  EngineM.andThen (P.compileModule source path.text loader) fun m =>
    EngineM.andThen (P.resolveModule m loader) fun _ =>
      EngineM.andThen (P.evalFunction m) fun _ => P.moduleNamespace m

theorem Platform.importModule_loaded {source : List UInt8} {path : CStr} {loader : Bool} {ns : JSVal}
    {h h' : P.Heap} (hload : P.loadModule source path loader h = (.ok ns, h')) :
    P.importModule source path loader h = P.snapshot ns h' := by
  simp only [Platform.loadModule, Platform.importModule, EngineM.andThen] at hload ⊢
  rcases hc : P.compileModule source path.text loader h with ⟨e | m, h₁⟩ <;> simp only [hc] at hload ⊢
  · cases hload
  rcases hr : P.resolveModule m loader h₁ with ⟨e | _, h₂⟩ <;> simp only [hr] at hload ⊢
  · cases hload
  rcases he : P.evalFunction m h₂ with ⟨e | v, h₃⟩ <;> simp only [he] at hload ⊢
  · cases hload
  simp only [hload]

namespace ObjectEngine

variable {r : Nat} {b w : World P} {l : Loc P} {L : Multiset Resource} {E : ObjectEngine P}

/-- What a failed snapshot leaves in `w`, for a caller who held the values `S` before it, in the heap `h`:
no handle and no reference more than before, and no way to the object that was being filled. -/
def Discarded (E : ObjectEngine P) (r : Nat) (b : World P) (L : Multiset Resource) (S : Set JSVal)
    (h : P.Heap) (w : World P) : Prop :=
  ∃ l, Run r b l L w ∧ ∀ x h₁, P.newObject h = (.ok x, h₁) →
    ¬ E.Reached l.heap (S ∪ {e | l.exception = some e}) x

theorem newMutableNamespaceObject_run {ns : JSValue} {S : Set JSVal} (hrun : Run r b l L w)
    (hspace : E.Space l.heap ns.val) (hns : ns.val ∈ S) (hS : E.Held l.heap S) :
    ∃ v w', (newMutableNamespaceObject (some r) ns).run w = .ok (v, w') ∧
      (v = .exception ↔ P.SnapshotFails ns.val l.heap) ∧
      (∀ x t, v = .ref x t → ∃ l', w'.loc? r = some l' ∧ E.Complete ns.val l.heap x l'.heap) ∧
      (v = .exception → E.Discarded r b L S l.heap w') := by
  obtain ⟨v, w', hcode, hv, hw'⟩ := newMutableNamespaceObject_spec ns w hrun
  refine ⟨v, w', hcode, ?_⟩
  rw [← Platform.snapshot_error_iff]
  rcases hsnap : P.snapshot ns.val l.heap with ⟨e | x, h⟩ <;> rw [hsnap] at hv hw'
  · cases v with
    | ref x t => cases hv
    | exception =>
      refine ⟨by simp, fun x t heq => ?_, fun _ => ⟨_, by simpa using hw', fun x h₁ hnew => ?_⟩⟩
      · cases heq
      · have hidden := snapshot_hidden (E := E) hns hS hnew
        rw [hsnap] at hidden
        refine (hidden.mono fun a ha => ha.imp id fun he => ?_).2
        cases he
        rfl
  · cases v with
    | exception => cases hv
    | ref y t =>
      cases hv
      refine ⟨by simp, fun z t heq => ?_, fun heq => ?_⟩
      · cases heq
        exact ⟨_, hw'.loc?, snapshot_complete hspace hns hS hsnap⟩
      · cases heq

/-- The wording of the exception `e` gives no way to an object that was out of its reach. -/
theorem captured_hidden {l : Loc P} {h : P.Heap} {S : Set JSVal} {x e : JSVal}
    (hx : E.Hidden h (S ∪ {a | (.error e : Except JSVal JSVal) = .error a}) x) :
    E.Hidden (l.after ((.error e : Except JSVal JSVal), h)).capture.heap
      (S ∪ {a | (l.after ((.error e : Except JSVal JSVal), h)).capture.exception = some a}) x := by
  have htext := (E.text_confined (h := h) (.inr rfl) x hx).2
  simp only [Loc.after_error, Loc.capture, Loc.setError, Option.getD_some]
  rcases hout : P.toCString e h with ⟨e' | s, h'⟩ <;> rw [hout] at htext
  · refine htext.mono fun a ha => ha.elim (fun hs => .inl (.inl (.inl hs))) fun he => .inr ?_
    cases he
    rfl
  · refine htext.mono fun a ha => ha.elim (fun hs => .inl (.inl (.inl hs))) fun he => ?_
    cases he

/-- A snapshot that fails ends the import with `NULL`. -/
theorem jsRuntimeImportModule_discarded {path : CStr} {source : List UInt8} {host : P.Host} {ns : JSVal}
    {h : P.Heap} {S : Set JSVal} (hrun : Run r b l L w)
    (hfile : P.readFile path l.host = (some source, host))
    (hload : P.loadModule source path l.moduleLoader l.heap = (.ok ns, h)) (hns : ns ∈ S)
    (hS : E.Held h S) (hfails : P.SnapshotFails ns h) :
    ∃ w', (jsRuntimeImportModule (some r) (some path)).run w = .ok (none, w') ∧
      E.Discarded r b L S h w' := by
  obtain ⟨p, w', hcode, hw'⟩ := jsRuntimeImportModule_spec path w hrun
  obtain ⟨e, he⟩ := Platform.snapshot_error_iff.mpr hfails
  simp only [hfile, Platform.importModule_loaded hload] at hw'
  rcases hsnap : P.snapshot ns h with ⟨e' | x, h'⟩ <;> rw [hsnap] at he hw'
  · obtain ⟨rfl, hw'⟩ := hw'
    refine ⟨w', hcode, _, hw', fun x h₁ hnew => ?_⟩
    have hidden := snapshot_hidden (E := E) hns hS hnew
    rw [hsnap] at hidden
    exact (captured_hidden hidden).2
  · cases he

end ObjectEngine

/-- For every namespace `ns`, every heap and every outcome of every engine call: the snapshot is complete,
or it is an exception and the object is gone; and an import that comes to a snapshot that fails is
`NULL`. -/
theorem namespace_snapshot {r : Nat} {b w : World P} {l : Loc P} {L : Multiset Resource} {ns : JSValue}
    {S : Set JSVal} (E : ObjectEngine P) (hrun : Run r b l L w) (hspace : E.Space l.heap ns.val)
    (hns : ns.val ∈ S) (hS : E.Held l.heap S) :
    (∃ v w', (newMutableNamespaceObject (some r) ns).run w = .ok (v, w') ∧
      (v = .exception ↔ P.SnapshotFails ns.val l.heap) ∧
      (∀ x t, v = .ref x t → ∃ l', w'.loc? r = some l' ∧ E.Complete ns.val l.heap x l'.heap) ∧
      (v = .exception → E.Discarded r b L S l.heap w')) ∧
    ∀ b₀ w₀ l₀ L₀ path source host, Run r b₀ l₀ L₀ w₀ → P.readFile path l₀.host = (some source, host) →
      P.loadModule source path l₀.moduleLoader l₀.heap = (.ok ns.val, l.heap) →
      P.SnapshotFails ns.val l.heap →
      ∃ w', (jsRuntimeImportModule (some r) (some path)).run w₀ = .ok (none, w') ∧
        E.Discarded r b₀ L₀ S l.heap w' := by
  refine ⟨E.newMutableNamespaceObject_run hrun hspace hns hS, ?_⟩
  intro b₀ w₀ l₀ L₀ path source host hrun₀ hfile hload hfails
  exact E.jsRuntimeImportModule_discarded hrun₀ hfile hload hns hS hfails

/-! ## A module of numbers -/

/-- A heap of objects with numbers as properties; the object 0 is the global one. -/
structure NumberHeap where
  last : Nat
  props : Nat → List (PropKey × Rat)

/-- The properties of a value: none but for an object. -/
def NumberHeap.propsOf (h : NumberHeap) : JSVal → List (PropKey × Rat)
  | .object i => h.props i
  | _ => []

/-- The exports of the module in object 1. -/
def numberModule : List (PropKey × Rat) :=
  [(.ofCString (utf8 "width"), 3), (.ofCString (utf8 "height"), 4)]

/-- An engine for `NumberHeap`: it stores numbers, and throws `undefined` otherwise. -/
def numberPlatform : Platform where
  __ := Platform.idle NumberHeap ⟨1, Function.update (fun _ => []) 1 numberModule⟩
  newObject h := (.ok (.object (h.last + 1)), ⟨h.last + 1, Function.update h.props (h.last + 1) []⟩)
  ownPropertyNames v h := (.ok ((h.propsOf v).map Prod.fst).dedup, h)
  getProperty v k h :=
    match (h.propsOf v).lookup k with
    | some q => (.ok (.number (.finite q)), h)
    | none => (.error .undefined, h)
  defineProperty v k x h :=
    match v, x with
    | .object i, .number (.finite q) =>
      (.ok true, { h with props := Function.update h.props i ((k, q) :: h.props i) })
    | _, _ => (.error .undefined, h)

def numberObjects : Objects numberPlatform where
  state h x :=
    ⟨fun
      | .name k => ((NumberHeap.propsOf h x).lookup k).map fun q => .data (.number (.finite q)) true true true
      | .symbol _ => none, true⟩
  Known h x := ∃ i, i ≤ NumberHeap.last h ∧ x = .object i
  Refers _ _ _ := False
  Root _ a := a = .object 0
  Space h ns := ns = .object 1 ∧ 1 ≤ NumberHeap.last h

theorem numberObjects_reached {h : NumberHeap} {S : Set JSVal} {x : JSVal} :
    numberObjects.Reached h S x ↔ x ∈ S ∨ x = .object 0 := by
  refine ⟨fun ⟨a, ha, hpath⟩ => ?_, fun hx => ⟨x, hx, .refl⟩⟩
  cases hpath with
  | refl => exact ha
  | tail _ hedge => exact hedge.elim

/-- A call that leaves the heap and gives no object is confined. -/
theorem numberObjects_confined {α : Type} {h : NumberHeap} {S given : Set JSVal}
    {out : Except JSVal α × NumberHeap} (hheap : out.2 = h) (hgiven : ∀ a ∈ given, a.isObject = false)
    (hthrown : ∀ e, out.1 = .error e → e.isObject = false) : numberObjects.Confined S h out given := by
  rintro x ⟨⟨i, hi, rfl⟩, hout⟩
  subst hheap
  refine ⟨rfl, ⟨i, hi, rfl⟩, fun hx => hout ?_⟩
  rw [numberObjects_reached] at hx ⊢
  refine hx.imp_left fun hmem => ?_
  rcases hmem with (hS | hmem) | hmem
  · exact hS
  · exact absurd (hgiven _ hmem) (by simp [JSVal.isObject])
  · exact absurd (hthrown _ hmem) (by simp [JSVal.isObject])

theorem numberObjects_new {h : NumberHeap} {S : Set JSVal} (hS : numberObjects.Held h S) {h' : NumberHeap} :
    ¬ numberObjects.Reached h' S (.object (h.last + 1)) := by
  rw [numberObjects_reached]
  rintro (hmem | hroot)
  · obtain ⟨i, hi, heq⟩ := hS _ hmem rfl
    cases heq
    have hle : h.last + 1 ≤ h.last := hi
    omega
  · cases hroot

theorem numberObjects_names {h : NumberHeap} {ns : JSVal} {k : PropKey} :
    k ∈ ((h.propsOf ns).map Prod.fst).dedup ↔ numberObjects.Exports h ns k := by
  have hsome : numberObjects.Exports h ns k ↔ ((h.propsOf ns).lookup k).isSome = true := by
    simp only [Objects.Exports, numberObjects]
    cases (h.propsOf ns).lookup k <;> simp [OwnProperty.isEnumerable]
  rw [hsome, List.lookup_isSome_iff, List.mem_dedup, List.mem_map]
  refine exists_congr fun p => and_congr_right fun _ => ?_
  rw [beq_iff_eq, eq_comm]

theorem numberObjects_define {h h' : NumberHeap} {x v : JSVal} {k : PropKey} {done : Bool}
    (hdef : numberPlatform.defineProperty x k v h = (.ok done, h')) :
    numberObjects.state h' x = (numberObjects.state h x).define k v := by
  simp only [numberPlatform] at hdef
  split at hdef
  · cases hdef
    simp only [ObjectState.define, numberObjects, ObjectState.mk.injEq, and_true]
    funext key
    rcases key with k' | id
    · by_cases hk : k' = k
      · simp [hk, NumberHeap.propsOf]
      · have hne : (k' == k) = false := by simpa using hk
        simp [hk, hne, NumberHeap.propsOf, List.lookup_cons]
    · simp
  · cases hdef

theorem numberObjects_define_hidden {h : NumberHeap} {S : Set JSVal} {x v : JSVal} (k : PropKey)
    (hx : numberObjects.Hidden h S x) : numberObjects.Hidden (numberPlatform.defineProperty x k v h).2
      (S ∪ {e | (numberPlatform.defineProperty x k v h).1 = .error e}) x := by
  obtain ⟨⟨i, hi, rfl⟩, hout⟩ := hx
  simp only [numberPlatform]
  split
  all_goals
    refine ⟨⟨i, hi, rfl⟩, fun hreached => hout (numberObjects_reached.mpr ?_)⟩
    rcases numberObjects_reached.mp hreached with (hS | he) | hroot
    · exact .inl hS
    · cases he
    · exact .inr hroot

theorem numberObjects_space {h : NumberHeap} {ns : JSVal} (hspace : numberObjects.Space h ns) :
    numberObjects.Space (numberPlatform.newObject h).2 ns ∧
      numberObjects.state (numberPlatform.newObject h).2 ns = numberObjects.state h ns := by
  obtain ⟨rfl, hlast⟩ := hspace
  have hne : 1 ≠ h.last + 1 := by
    have hle : 1 ≤ h.last := hlast
    omega
  have hprops : NumberHeap.propsOf ⟨h.last + 1, Function.update h.props (h.last + 1) []⟩ (.object 1) =
      h.propsOf (.object 1) := Function.update_of_ne hne _ _
  refine ⟨⟨rfl, Nat.le_succ_of_le hlast⟩, ?_⟩
  simp only [numberObjects, numberPlatform, hprops]

theorem numberPlatform_get {h : NumberHeap} (x : JSVal) (k : PropKey) :
    (numberPlatform.getProperty x k h).2 = h ∧
      ∀ a, (numberPlatform.getProperty x k h).1 = .ok a ∨
        (numberPlatform.getProperty x k h).1 = .error a → a.isObject = false := by
  simp only [numberPlatform]
  split
  all_goals
    refine ⟨rfl, fun a ha => ?_⟩
    rcases ha with ha | ha <;> cases ha
    rfl

theorem numberPlatform_text {h : NumberHeap} (x : JSVal) :
    (numberPlatform.toCString x h).2 = h ∧
      ∀ e, (numberPlatform.toCString x h).1 = .error e → e.isObject = false := by
  cases x <;> exact ⟨rfl, fun e he => by cases he <;> rfl⟩

theorem numberObjects_empty {h h' : NumberHeap} {x : JSVal}
    (hnew : numberPlatform.newObject h = (.ok x, h')) : numberObjects.state h' x = .empty := by
  cases hnew
  simp only [numberObjects, NumberHeap.propsOf, ObjectState.empty, Function.update_self]
  congr 1
  funext key
  cases key <;> rfl

def numberEngine : ObjectEngine numberPlatform where
  __ := numberObjects
  newObject made := by
    refine ⟨?_, numberObjects_empty made, fun S hS => ?_⟩
    · cases made
      exact ⟨_, le_refl _, rfl⟩
    · cases made
      exact numberObjects_new hS
  newObject_space made space := by
    have hkept := numberObjects_space space
    rwa [made] at hkept
  names _ listed := by
    cases listed
    exact ⟨List.nodup_dedup _, fun k => numberObjects_names⟩
  names_confined _ := numberObjects_confined rfl (fun _ ha => ha.elim) (fun _ he => by cases he)
  get_confined k _ := numberObjects_confined (numberPlatform_get _ k).1
    (fun a ha => (numberPlatform_get _ k).2 a (.inl ha)) fun a ha => (numberPlatform_get _ k).2 a (.inr ha)
  define_hidden k _ hidden := numberObjects_define_hidden k hidden
  define _ _ := numberObjects_define
  text_confined _ := numberObjects_confined (numberPlatform_text _).1 (fun _ ha => ha.elim)
    (numberPlatform_text _).2

/-- The heap that a context starts with. -/
def numberHeap : numberPlatform.Heap := NumberHeap.mk 1 (Function.update (fun _ => []) 1 numberModule)

theorem numberModule_state : ∃ (w : World numberPlatform) (l : Loc numberPlatform) (c : Client),
    Inv c w ∧ w.loc? 0 = some l ∧ l.heap = numberHeap := by
  have h := (Reach.start (P := numberPlatform) ()).call (r := 0) .runtimeCreate trivial rfl
  exact ⟨_, _, _, h.inv, rfl, rfl⟩

theorem numberModule_copied : ¬ numberPlatform.SnapshotFails (.object 1) numberHeap := by
  rw [← Platform.snapshot_error_iff]
  rintro ⟨e, he⟩
  have hok : (numberPlatform.snapshot (.object 1) numberHeap).1 = .ok (.object 2) := rfl
  rw [hok] at he
  cases he

/-- The snapshot of the module of numbers is complete. -/
theorem namespace_snapshot_numbers : ∃ (w w' : World numberPlatform) (x : JSVal) (t : Nat)
    (l' : Loc numberPlatform),
    (newMutableNamespaceObject (some 0) (.ref (.object 1) 0)).run w = .ok (.ref x t, w') ∧
    w'.loc? 0 = some l' ∧ numberEngine.Complete (.object 1) numberHeap x l'.heap := by
  obtain ⟨w, l, c, hinv, hl, hheap⟩ := numberModule_state
  have hspace : numberEngine.Space l.heap (JSValue.ref (.object 1) 0).val := hheap ▸ ⟨rfl, le_refl 1⟩
  obtain ⟨⟨v, w', hrun, hfails, hcomplete, -⟩, -⟩ := namespace_snapshot (S := {.object 1}) numberEngine
    (hinv.run_of_loc hl) hspace rfl fun a ha _ => ⟨1, hheap ▸ le_refl 1, ha⟩
  cases v with
  | exception =>
    have hno := numberModule_copied
    rw [hheap] at hfails
    exact absurd (hfails.mp rfl) hno
  | ref x t =>
    obtain ⟨l', hl', hdone⟩ := hcomplete x t rfl
    rw [hheap] at hdone
    exact ⟨w, w', x, t, l', hrun, hl', hdone⟩

end InteropJs
