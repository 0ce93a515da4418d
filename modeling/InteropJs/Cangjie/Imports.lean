import InteropJs.Cangjie.Sessions
import InteropJs.Cangjie.Property

/-!
# Imports are isolated

What an import and an update do in a session with a module.

* `imports_isolated`: from every state of every session an import gives a new object with the same exports,
  those that a first import gives. An update of such an object leaves the others as they are, and the records
  too if no setter of the module takes the assignment. That needs an object whose prototype was replaced.
* `boxEngine` is an engine for a module with a setter. There an update changes a binding of the module
  (`update_runs_setter`).
-/

namespace InteropJs

open Hoare

variable {P : Platform} {r : Nat} {c c' : Client} {s s' : Store P}

namespace ModuleEngine

open ModuleView

variable {source : List UInt8} {path : CStr} {E : ModuleEngine P source path} {l : Loc P}

/-! ## An update -/

/-- A mild call has no trace. -/
theorem Mild.quiet {own : Ptr → Option JSVal} {h : P.Heap} {β : Type} {call : Call β} (hc : call.Mild) :
    assigned own call = ∅ ∧ E.running own h call = ∅ ∧ ∀ q, ¬ call.Drops q := by
  cases call <;> first | exact hc.elim | exact ⟨rfl, rfl, fun _ hd => hd⟩

/-- A program without calls leaves the world. -/
theorem world_of_silent {α : Type} {p : Prog α} {x y : Client × Store P} {res : Except Exn α}
    (ran : Ran p x res y) (hp : p.Only fun _ => False) : y.1 = x.1 ∧ y.2.world = x.2.world := by
  induction ran with
  | ret => exact ⟨rfl, rfl⟩
  | raise => exact ⟨rfl, rfl⟩
  | alloc _ ih => exact ih (hp _)
  | touch _ ih => exact ih hp
  | native _ _ _ _ => exact hp.1.elim

/-- The write at the end of `p` is the whole trace: of the object `x` that the handle `q` denotes. -/
theorem Kept.assign {α : Type} {p : Prog α} {x y : Client × Store P} {res : Except Exn α} {q : Nat}
    {name : CStr} {z : JSVal} (ran : Ran p x res y) (hp : p.Ends Call.Mild (Call.Writes (some q) name))
    (h : E.Kept r x.1 x.2.world) (hl : x.2.world.loc? r = some l) (hq : x.2.world.Holds q r z)
    (hz : E.Made l.heap z) :
    ∃ l', y.2.world.loc? r = some l' ∧
      E.Step {(z, .ofCString name)} {_m | E.Intercepts l.heap z (.ofCString name)} l.heap l'.heap := by
  induction ran generalizing l with
  | ret => exact ⟨l, hl, .refl (h.fine l hl).sound⟩
  | raise => exact ⟨l, hl, .refl (h.fine l hl).sound⟩
  | alloc _ ih => exact ih (hp _) h hl hq hz
  | touch _ ih => exact ih hp h hl hq hz
  | @native β rs call k c s r' a w res y allowed ran rest ih =>
    obtain ⟨hmild, hk⟩ | ⟨hwrites, hk⟩ := hp
    · -- before the write: an object that no setter guards stays so
      have hquiet : assigned (s.world.valueOf r) call = ∅ ∧ E.running (s.world.valueOf r) l.heap call = ∅ ∧
          ∀ q, ¬ call.Drops q := Mild.quiet hmild
      obtain ⟨hassigned, hrunning, hdrops⟩ := hquiet
      obtain ⟨l₁, hl₁, hkept, hstep⟩ := h.call allowed ran hl (Visiting.visits hmild.visiting)
      rw [hassigned, hrunning] at hstep
      have hq₁ := h.inv.holds_after (h.inv.did allowed ran) hq (hdrops q)
      obtain ⟨l', hl', hrest⟩ := ih (hk a) hkept hl₁ hq₁ (hstep.made z hz)
      refine ⟨l', hl', (hstep.mono (Set.empty_subset _) (Set.empty_subset _)).trans
        (hrest.mono (Set.Subset.refl _) fun m hm => ?_)⟩
      exact not_not.mp fun hno => hstep.free rfl rfl z _ hz hno hm
    · obtain ⟨l₁, hl₁, -, hstep⟩ := h.call allowed ran hl (Visiting.visits hwrites.visiting)
      obtain ⟨-, hworld⟩ := world_of_silent rest (hk a)
      refine ⟨l₁, by rw [hworld]; exact hl₁, ?_⟩
      cases call with
      | valueSetProperty p' name' v =>
        obtain ⟨rfl, rfl⟩ := hwrites
        refine hstep.mono (fun t ht => ?_) fun m hm => ?_
        · have hown : some z = some t.1 := hq.valueOf.symm.trans ht.1
          cases hown
          exact Prod.ext rfl ht.2
        · exact hm z hq.valueOf hz
      | _ => exact hwrites.elim

/-! ## An import -/

/-- How `getModule` ends, for a file that can be read. -/
theorem getModule_runs {b : World P} {L : Multiset Resource} {name : String} {host : P.Host}
    (hread : P.readFile (mallocCString name) l.host = (some source, host)) :
    Runs (On r b l L) (JSRuntime.getModule (some r) name)
      (fun payload s => ∃ ref x, payload = .value ref ∧ ref.handle = some b.nextValue ∧
        (P.importModule source (mallocCString name) l.moduleLoader l.heap).1 = .ok x ∧
        Granted r b ({ l.clearError with host }.after
          (P.importModule source (mallocCString name) l.moduleLoader l.heap)).kept L x s.world)
      (fun _ s =>
        let out := P.importModule source (mallocCString name) l.moduleLoader l.heap
        let l₁ := { l.clearError with host }.after out
        l₁.delivers out.1.toOption = false ∧ On r b (l₁.lost out.1.toOption) L s) := by
  have hspec := jsRuntimeImportModule_spec (r := r) (b := b) (l := l) (L := L) (mallocCString name)
  rw [hread] at hspec
  refine Runs.call hspec fun p s hs => ?_
  obtain ⟨x, ho, -, rfl, hw⟩ | ⟨hd, rfl, hw⟩ := hs.cases
  · refine ⟨_, { s with nextRef := s.nextRef + 1 }, rfl, _, x, rfl, rfl, ?_, hw⟩
    rcases hout : P.importModule source (mallocCString name) l.moduleLoader l.heap with ⟨e | y, h⟩ <;>
      rw [hout] at ho <;> cases ho
    rfl
  · exact throwRuntimeError_spec.post (fun _ _ h => h) (fun _ _ h => ⟨hd, h.2⟩) s hw

/-- The import from a kept runtime. -/
theorem Kept.imports (h : E.Kept r c s.world) (hl : s.world.loc? r = some l) {name : String}
    (hname : mallocCString name = path) :
    ∃ res s' l' m, (JSRuntime.getModule (some r) name).exec.run s = .ok (res, s') ∧
      s'.world.loc? r = some l' ∧ E.record l.heap m = none ∧ E.Step ∅ {m} l.heap l'.heap ∧
      (E.Complete → (P.malloc (P.readFile path l.host).2).1 = true → ∃ ref x, res = .ok (.value ref) ∧
        ref.Denotes s'.world r x ∧ ¬ E.Made l.heap x ∧ E.Made l'.heap x ∧
        E.record l'.heap m = some E.evaluated ∧ E.Presents l'.heap m x (E.names)) ∧
      (¬ E.Complete → ∃ e, res = .error e) := by
  subst hname
  have hfine := h.fine l hl
  have hfile := E.file l.host
  obtain ⟨m, hnew, hdoes, hok⟩ := E.importModule_does l.moduleLoader hfine.sound
  rcases hread : P.readFile (mallocCString name) l.host with ⟨_ | text, host⟩ <;> rw [hread] at hfile <;> cases hfile
  obtain ⟨res, s', hrun, hpost⟩ := Runs.run (getModule_runs hread) (h.inv.run_of_loc hl)
  refine ⟨res, s', ?_⟩
  obtain ⟨payload, rfl, ref, x, rfl, href, hx, t, hw⟩ | ⟨e, rfl, hd, hw⟩ := hpost
  · -- a handle of the new object
    have hloc : s'.world.loc? r = some ({ l.clearError with host }.after
        (P.importModule source (mallocCString name) l.moduleLoader l.heap)).kept := hw.loc?
    have hcomplete : E.Complete := hok.mpr (by rw [hx]; rfl)
    have hheap : ({ l.clearError with host }.after
        (P.importModule source (mallocCString name) l.moduleLoader l.heap)).heap =
        (P.importModule source (mallocCString name) l.moduleLoader l.heap).2 := Loc.after_heap _ _
    refine ⟨_, m, hrun, hloc, hnew, ?_, fun _ _ => ⟨ref, x, rfl, ?_, ?_⟩, fun hno => absurd hcomplete hno⟩
    · show E.Step ∅ {m} l.heap (Loc.after _ _).heap
      rw [hheap]
      exact hdoes.step
    · obtain ⟨e, -, hat⟩ := hw
      refine ⟨s.world.nextValue, href, t, ?_⟩
      rw [hat.values]
      simp [World.addValue]
    · obtain ⟨hold, hmade, -, hrec, hpresents⟩ := hdoes.value x hx
      show ¬ E.Made l.heap x ∧ E.Made (Loc.after _ _).heap x ∧ E.record (Loc.after _ _).heap m = _ ∧
        E.Presents (Loc.after _ _).heap m x _
      rw [hheap]
      exact ⟨hold, hmade, hrec, hpresents⟩
  · -- no handle: the import threw, or there is no memory
    have hloc := Run.loc? hw
    rcases hout : P.importModule source (mallocCString name) l.moduleLoader l.heap with ⟨y | x, h'⟩ <;>
      rw [hout] at hdoes hok hd hloc
    · have hno : ¬ E.Complete := fun hcomplete => by cases hok.mp hcomplete
      refine ⟨_, m, hrun, hloc, hnew, ?_, fun hcomplete => absurd hcomplete hno, fun _ => ⟨e, rfl⟩⟩
      have hnone : (Except.error y : Except JSVal JSVal).toOption = none := rfl
      rw [lost_heap, if_pos hnone]
      exact hdoes.step.trans ((hdoes.error y rfl).2.1.mono (Set.Subset.refl _) (Set.Subset.refl _))
    · refine ⟨_, m, hrun, hloc, hnew, hdoes.step, fun _ hroom => ?_, fun _ => ⟨e, rfl⟩⟩
      have hfull : (P.malloc host).1 = false := hd
      cases hroom.symm.trans hfull

/-! ## The law -/

/-- How an import from the local state `l` ended in `s'`: with a new object and a new record, whose exports are
the own properties of the object; or with an exception, if the module has no exports to give. Without memory for
the handle there is no object. -/
def Imports (E : ModuleEngine P source path) (r : Nat) (l : Loc P) (s' : Store P) (res : Except Exn Payload) :
    Option (List (PropKey × Option E.Term)) → Prop
  | none => ∃ e, res = .error e
  | some exports => (P.malloc (P.readFile path l.host).2).1 = true → ∃ ref x m l', res = .ok (.value ref) ∧
      ref.Denotes s'.world r x ∧ s'.world.loc? r = some l' ∧ ¬ E.Made l.heap x ∧ E.Made l'.heap x ∧
      E.record l.heap m = none ∧ E.record l'.heap m = some E.evaluated ∧
      E.exports l'.heap m x = exports ∧ E.base l'.heap x = none

/-- The objects of the bridge, apart from `but`, have the properties that they had, and the records of `kept`
their bindings. -/
structure Leaves (E : ModuleEngine P source path) (but : Set JSVal) (kept : Prop) (l l' : Loc P) : Prop where
  own : ∀ z, E.Made l.heap z → z ∉ but → E.own l'.heap z = E.own l.heap z
  record : kept → ∀ m p, E.record l.heap m = some p → E.record l'.heap m = some p

/-- An operation, a finaliser or a step of the engine that does not assign the property `__proto__` of `z`. -/
inductive Spares (E : ModuleEngine P source path) (r : Nat) (z : JSVal) :
    Client × Store P → Client × Store P → Prop where
  | op {x y : Client × Store P} {op : Op} {res : Except Exn op.Out}
      (ran : RanIf (fun w _ call => E.VisitsIn r w call ∧ (z, protoKey) ∉ assigned (w.valueOf r) call)
        (op.prog (some r)) x res y) : Spares E r z x y
  | finalise {c : Client} {s : Store P} {p r' : Nat} {w : World P} (live : (p, r') ∈ c.live)
      (ran : (Call.valueDestroy (some p)).run.run s.world = .ok ((), w)) :
      Spares E r z (c, s) (c.after r' (.valueDestroy (some p)) (), { s with world := w })
  | reclaim {c : Client} {s : Store P} {l : Loc P} {heap : P.Heap} (host : P.Host)
      (open_ : s.world.loc? r = some l) (step : E.Step ∅ ∅ l.heap heap) :
      Spares E r z (c, s) (c, { s with world := s.world.reclaimed r heap host })

/-- The object `z` of the bridge has the prototype that it was made with. -/
def Original (E : ModuleEngine P source path) (r : Nat) (z : JSVal) (x : Client × Store P) : Prop :=
  E.Kept r x.1 x.2.world ∧ ∀ l, x.2.world.loc? r = some l → E.Made l.heap z ∧ E.base l.heap z = none

theorem Original.call {β : Type} {call : Call β} {a : β} {z : JSVal} {r' : Nat} {w : World P} {n : Nat}
    (h : E.Original r z (c, s)) (allowed : c.Allows r' call) (ran : call.run.run s.world = .ok (a, w))
    (holds : E.VisitsIn r s.world call ∧ (z, protoKey) ∉ assigned (s.world.valueOf r) call) :
    E.Original r z (c.after r' call a, ⟨w, n⟩) := by
  obtain ⟨hkept, horig⟩ := h
  obtain ⟨l, hl⟩ := hkept.loc
  obtain ⟨l', hl', hkept', hstep⟩ := hkept.call allowed ran hl (holds.1 l hl)
  obtain ⟨hmade, hbase⟩ := horig l hl
  refine ⟨hkept', fun l₁ hl₁ => ?_⟩
  cases hl'.symm.trans hl₁
  exact ⟨hstep.made z hmade, (hstep.base z hmade holds.2).trans hbase⟩

theorem Original.ran {α : Type} {p : Prog α} {z : JSVal} {x y : Client × Store P} {res : Except Exn α}
    (h : E.Original r z x) (ran : RanIf
      (fun w _ call => E.VisitsIn r w call ∧ (z, protoKey) ∉ assigned (w.valueOf r) call) p x res y) :
    E.Original r z y := by
  induction ran with
  | ret => exact h
  | raise => exact h
  | alloc _ ih => exact ih h
  | touch _ ih => exact ih h
  | native allowed holds ran _ ih => exact ih (h.call allowed ran holds)

/-- Steps that spare the object keep its prototype. -/
theorem Original.spares {z : JSVal} {x y : Client × Store P} (h : E.Original r z x)
    (hs : Relation.ReflTransGen (E.Spares r z) x y) : E.Original r z y := by
  refine reach_invariant (fun x y h hs => ?_) h hs
  cases hs with
  | op ran => exact h.ran ran
  | @finalise c s p r' w live ran =>
    have allowed : c.Allows r' (.valueDestroy (some p)) := .inr ⟨p, rfl, live⟩
    exact h.call allowed ran ⟨fun _ _ => trivial, Set.notMem_empty _⟩
  | @reclaim c s l heap host hl step =>
    obtain ⟨hkept, horig⟩ := h
    obtain ⟨hmade, hbase⟩ := horig l hl
    refine ⟨hkept.reclaimed hl host step, fun l' hl' => ?_⟩
    cases (World.reclaimed_self hl heap host).symm.trans hl'
    exact ⟨step.made z hmade, (step.base z hmade (Set.notMem_empty _)).trans hbase⟩

/-- An update of the object `x` of the bridge. -/
theorem Kept.updates {o : JSValueRef} {x : JSVal} {field : String} {v : Any} {res : Except Exn Unit}
    (h : E.Kept r c s.world) (hl : s.world.loc? r = some l) (ho : o.Denotes s.world r x)
    (hx : E.Made l.heap x)
    (ran : Ran (JSRuntime.memberUpdate (some r) (.value o) field v) (c, s) res (c', s')) :
    ∃ l', s'.world.loc? r = some l' ∧
      E.Leaves {x} (¬ E.Intercepts l.heap x (.ofCString (mallocCString field))) l l' := by
  obtain ⟨q, hq, hholds⟩ := ho
  have hends : (JSRuntime.memberUpdate (some r) (.value o) field v).Ends Call.Mild
      (Call.Writes o.handle (mallocCString field)) := memberUpdate_ends o field v
  rw [hq] at hends
  obtain ⟨l', hl', hstep⟩ := Kept.assign ran hends h hl hholds hx
  refine ⟨l', hl', fun z hz hne => ?_, fun hno m p hp => ?_⟩
  · refine hstep.own z hz fun k hmem => hne ?_
    cases hmem
    rfl
  · exact hstep.record m p hno hp

/-- For every session with the module, in every state that it reaches:

* an import gives a new object with the same exports as every other import, a first one in a fresh runtime among
  them, and leaves the earlier objects and records;
* an update of an object that an import gave leaves the other objects. It leaves the records too if no setter of
  the module takes the assignment, so always until an operation assigns the `__proto__` of the object. -/
theorem imports_isolated (E : ModuleEngine P source path) :
    (∃ exports : Option (List (PropKey × Option E.Term)), ∀ (r : Nat) (c : Client) (s : Store P) (l : Loc P)
      (name : String), E.Session r (c, s) → s.world.loc? r = some l → mallocCString name = path →
      ∃ res s' l', (JSRuntime.getModule (some r) name).exec.run s = .ok (res, s') ∧
        s'.world.loc? r = some l' ∧ E.Imports r l s' res exports ∧ E.Leaves ∅ True l l') ∧
    ∀ (r : Nat) (c c' : Client) (s s' : Store P) (l : Loc P) (o : JSValueRef) (x : JSVal) (field : String) (v : Any)
      (res : Except Exn Unit), E.Session r (c, s) → s.world.loc? r = some l → o.Denotes s.world r x →
      E.Made l.heap x → Ran (JSRuntime.memberUpdate (some r) (.value o) field v) (c, s) res (c', s') →
      ∃ l', s'.world.loc? r = some l' ∧
        E.Leaves {x} (¬ E.Intercepts l.heap x (.ofCString (mallocCString field))) l l' ∧
        ((∃ c₁ s₁ l₁, E.Session r (c₁, s₁) ∧ s₁.world.loc? r = some l₁ ∧ E.Made l₁.heap x ∧
          E.base l₁.heap x = none ∧ Relation.ReflTransGen (E.Spares r x) (c₁, s₁) (c, s)) →
          E.Leaves {x} True l l') := by
  classical
  constructor
  · refine ⟨if E.Complete then
      some ((E.names).map fun k => (k, E.current k)) else none, ?_⟩
    intro r c s l name hsession hl hname
    obtain ⟨res, s', l', m, hrun, hl', hnew, hstep, hgives, hfails⟩ := hsession.kept.imports hl hname
    refine ⟨res, s', l', hrun, hl', ?_, fun z hz _ => hstep.own z hz fun _ => Set.notMem_empty _,
      fun _ n p hp => hstep.record n p ?_ hp⟩
    · by_cases hcomplete : E.Complete
      · rw [if_pos hcomplete]
        intro hroom
        obtain ⟨ref, x, hres, href, hold, hmade, hrec, hpresents⟩ := hgives hcomplete hroom
        exact ⟨ref, x, m, l', hres, href, hl', hold, hmade, hnew, hrec, hpresents.exports, hpresents.base⟩
      · rw [if_neg hcomplete]
        exact hfails hcomplete
    · rintro rfl
      cases hnew.symm.trans hp
  · intro r c c' s s' l o x field v res hsession hl ho hx ran
    obtain ⟨l', hl', hleaves⟩ := hsession.kept.updates hl ho hx ran
    refine ⟨l', hl', hleaves, ?_⟩
    rintro ⟨c₁, s₁, l₁, hsession₁, hl₁, hmade, hbase, hspares⟩
    have horiginal : E.Original r x (c₁, s₁) := by
      refine ⟨hsession₁.kept, fun l₂ hl₂ => ?_⟩
      cases hl₁.symm.trans hl₂
      exact ⟨hmade, hbase⟩
    obtain ⟨-, hbase'⟩ := (horiginal.spares hspares).2 l hl
    exact ⟨hleaves.own, fun _ => hleaves.record fun htakes => E.intercepts_base htakes hbase'⟩

end ModuleEngine

/-! ## A module with a setter -/

/-- `let n = 0; export const box = { set p(v) { n = v } };` -/
def boxSource : List UInt8 := utf8 "let n = 0; export const box = { set p(v) { n = v } };"

def boxKey : PropKey := .ofCString (utf8 "box")

def setterKey : PropKey := .ofCString (utf8 "p")

/-- The function `BigInt`. -/
def boxBigInt : JSVal := .function 0 ⟨true, false⟩

/-- A record of the module: how far it is, and the binding `n`. -/
structure BoxRecord where
  phase : Nat
  n : JSVal

/-- An object of the bridge. -/
structure BoxObject where
  props : List (PropKey × JSVal)
  base : Option JSVal

/-- The own property `k` gets the value `y`, in its place or as the last one. -/
def BoxObject.write (o : BoxObject) (k : PropKey) (y : JSVal) : BoxObject :=
  if (o.props.lookup k).isSome then { o with props := o.props.map fun q => if q.1 = k then (k, y) else q }
  else { o with props := o.props ++ [(k, y)] }

theorem BoxObject.write_base (o : BoxObject) (k : PropKey) (y : JSVal) : (o.write k y).base = o.base := by
  unfold write
  split <;> rfl

structure BoxHeap where
  records : List BoxRecord
  objects : List BoxObject

namespace BoxHeap

/-- The object `box` of a record. -/
def box (m : Nat) : JSVal := .object (4 * m + 1)

/-- The namespace of a record. -/
def space (m : Nat) : JSVal := .object (4 * m + 2)

variable (h : BoxHeap)

/-- The object of the bridge that a value is. -/
def object? : JSVal → Option BoxObject
  | .object id => if id % 4 = 0 then h.objects[id / 4]? else none
  | _ => none

/-- The record whose namespace a value is. -/
def spaceOf : JSVal → Option Nat
  | .object id => if id % 4 = 2 ∧ id / 4 < h.records.length then some (id / 4) else none
  | _ => none

/-- The record whose `box` a value is. -/
def boxOf : JSVal → Option Nat
  | .object id => if id % 4 = 1 ∧ id / 4 < h.records.length then some (id / 4) else none
  | _ => none

def put : JSVal → BoxObject → BoxHeap
  | .object id, o => { h with objects := h.objects.set (id / 4) o }
  | _, _ => h

/-- The setter: `n = v`. -/
def assign (m : Nat) (v : JSVal) : BoxHeap :=
  { h with records := h.records.modify m fun record => { record with n := v } }

/-- A read: of an object of the bridge, a namespace or the global object. -/
def get (x : JSVal) (k : PropKey) : Except JSVal JSVal :=
  match h.object? x, h.spaceOf x with
  | some o, _ => .ok ((o.props.lookup k).getD .undefined)
  | none, some m =>
    if h.records[m]?.map BoxRecord.phase = some 2 ∧ k = boxKey then .ok (box m) else .error .undefined
  | none, none => .ok (if x = .object 3 ∧ k = .ofCString (utf8 "BigInt") then boxBigInt else .undefined)

/-- The names of a namespace, which are not listed while `box` is uninitialised. -/
def list (ns : JSVal) : Except JSVal (List PropKey) :=
  match h.spaceOf ns with
  | some m => if h.records[m]?.map BoxRecord.phase = some 2 then .ok [boxKey] else .error .undefined
  | none => .ok []

/-- An assignment to an object of the bridge. -/
def setOn (x : JSVal) (o : BoxObject) (k : PropKey) (y : JSVal) : BoxHeap :=
  if k = protoKey then
    if (h.boxOf y).isSome then h.put x { o with base := some y } else h
  else if k = setterKey ∧ o.props.lookup k = none then
    match o.base.bind h.boxOf with
    | some m => h.assign m y
    | none => h.put x (o.write k y)
  else h.put x (o.write k y)

/-- An assignment to any value. -/
def set (x : JSVal) (k : PropKey) (y : JSVal) : BoxHeap :=
  match h.object? x, h.boxOf x with
  | some o, _ => h.setOn x o k y
  | none, some m => if k = setterKey then h.assign m y else h
  | none, none => h

/-- A new own property of an object of the bridge. -/
def define (x : JSVal) (k : PropKey) (y : JSVal) : BoxHeap :=
  match h.object? x with
  | some o => h.put x { o with props := o.props ++ [(k, y)] }
  | none => h

end BoxHeap

/-- An engine with the file and the module. -/
def boxPlatform : Platform :=
  { Platform.idle BoxHeap ⟨[], []⟩ with
    fopen := fun _ host => (true, host)
    ftell := fun host => (boxSource.length, host)
    fread := fun _ host => (boxSource, host)
    compileModule := fun _ _ _ h => (.ok h.records.length, { h with records := h.records ++ [⟨0, .undefined⟩] })
    resolveModule := fun m _ h => (.ok (), { h with records := h.records.set m ⟨1, .undefined⟩ })
    evalFunction := fun m h => (.ok .undefined, { h with records := h.records.set m ⟨2, .number (.finite 0)⟩ })
    moduleNamespace := fun m h => (.ok (BoxHeap.space m), h)
    globalObject := fun _ => .object 3
    getProperty := fun x k h => (h.get x k, h)
    setProperty := fun x k y h => (.ok true, h.set x k y)
    defineProperty := fun x k y h => (.ok true, h.define x k y)
    ownPropertyNames := fun ns h => (h.list ns, h)
    newObject := fun h => (.ok (.object (4 * h.objects.length)), { h with objects := h.objects ++ [⟨[], none⟩] })
    initModuleStd := fun h => (.ok (), h)
    toString := fun _ h => (.ok [], h) }

/-- How its heaps are read. -/
def boxView : ModuleView boxPlatform where
  Part := BoxRecord
  Term := Option JSVal
  Sound _ := True
  Tame _ _ := True
  Made h x := (h.object? x).isSome = true
  keys h x := ((h.object? x).map fun o => o.props.map Prod.fst).getD []
  data h x k := (h.object? x).bind fun o => o.props.lookup k
  record h m := h.records[m]?
  term _ m y := if y = BoxHeap.box m then none else some y
  spaceOf := BoxHeap.spaceOf
  base h x := (h.object? x).bind BoxObject.base
  Intercepts h x k := ∃ o, h.object? x = some o ∧ o.base ≠ none ∧ k = setterKey

/-- What is left of a heap, as a step: the objects, but for what was written, and the records, but for those
that ran. -/
theorem boxStep {writes : Set (JSVal × PropKey)} {runs : Set Nat} {h h' : BoxHeap}
    (hrecord : ∀ m p, m ∉ runs → h.records[m]? = some p → h'.records[m]? = some p)
    (hlength : h.records.length ≤ h'.records.length)
    (hobject : ∀ x o, h.object? x = some o → ∃ o', h'.object? x = some o' ∧
      ((∀ k, (x, k) ∉ writes) → o'.props = o.props) ∧ ((x, protoKey) ∉ writes → o'.base = o.base)) :
    boxView.Step writes runs h h' where
  sound := trivial
  tame _ _ := trivial
  made x hx := by
    obtain ⟨o, ho⟩ := Option.isSome_iff_exists.mp hx
    obtain ⟨o', ho', -⟩ := hobject x o ho
    exact Option.isSome_iff_exists.mpr ⟨o', ho'⟩
  own x hx hw := by
    obtain ⟨o, ho⟩ := Option.isSome_iff_exists.mp hx
    obtain ⟨o', ho', hprops, -⟩ := hobject x o ho
    simp only [ModuleView.own, boxView, ho, ho', hprops hw, Option.map_some, Option.getD_some, Option.bind_some]
  base x hx hw := by
    obtain ⟨o, ho⟩ := Option.isSome_iff_exists.mp hx
    obtain ⟨o', ho', -, hbase⟩ := hobject x o ho
    simp only [boxView, ho, ho', hbase hw, Option.bind_some]
  record := hrecord
  term _ _ _ _ _ := rfl
  spaceOf ns m hns := by
    cases ns with
    | object id =>
      simp only [boxView, BoxHeap.spaceOf] at hns ⊢
      split at hns
      · rename_i hcond
        cases hns
        rw [if_pos ⟨hcond.1, hcond.2.trans_le hlength⟩]
      · cases hns
    | _ => cases hns
  free hw hr x k hx hfree := by
    rintro ⟨o', ho', hbase', hk⟩
    obtain ⟨o, ho⟩ := Option.isSome_iff_exists.mp hx
    obtain ⟨o₁, ho₁, -, hbase⟩ := hobject x o ho
    cases ho'.symm.trans ho₁
    refine hfree ⟨o, ho, ?_, hk⟩
    rw [← hbase (by rw [hw]; exact Set.notMem_empty _)]
    exact hbase'

/-- Every text is made without a trace. -/
theorem box_worded (runs : Set Nat) (h : BoxHeap) (x : JSVal) : boxView.Worded runs h x := by
  have hheap : (boxPlatform.toCString x h).2 = h := by cases x <;> rfl
  refine ⟨?_, fun _ _ => trivial⟩
  rw [hheap]
  exact .refl trivial

/-- An engine call that leaves the heap. -/
theorem box_does {α : Type} {writes : Set (JSVal × PropKey)} {runs : Set Nat} {h : BoxHeap}
    {out : Except JSVal α × BoxHeap} (hout : out.2 = h) : boxView.Does writes runs h out fun _ _ => True where
  step := by
    rw [hout]
    exact .refl trivial
  value _ _ := trivial
  error x _ := ⟨trivial, box_worded runs _ x⟩

section Laws

variable {h h' : BoxHeap} {x y z : JSVal} {o o' : BoxObject} {k : PropKey} {writes : Set (JSVal × PropKey)}
  {runs : Set Nat}

theorem BoxHeap.object?_congr (hobjects : h'.objects = h.objects) (x : JSVal) : h'.object? x = h.object? x := by
  cases x <;> simp [BoxHeap.object?, hobjects]

/-- A change of the records only. -/
theorem box_records (hobjects : h'.objects = h.objects)
    (hrecord : ∀ m p, m ∉ runs → h.records[m]? = some p → h'.records[m]? = some p)
    (hlength : h.records.length ≤ h'.records.length) : boxView.Step writes runs h h' := by
  refine boxStep hrecord hlength fun x o ho => ⟨o, ?_, fun _ => rfl, fun _ => rfl⟩
  rw [BoxHeap.object?_congr hobjects, ho]

theorem box_setRecord (m : Nat) (p : BoxRecord) :
    boxView.Step ∅ {m} h { h with records := h.records.set m p } := by
  refine box_records rfl (fun n q hn hq => ?_) (by simp)
  have hne : m ≠ n := fun heq => hn heq.symm
  simpa [List.getElem?_set_ne hne] using hq

theorem BoxHeap.object?_put (hx : h.object? x = some o) (z : JSVal) :
    (h.put x o').object? z = if z = x then some o' else h.object? z := by
  cases x with
  | object id =>
    simp only [BoxHeap.object?] at hx
    split at hx
    · rename_i hid
      have hlt : id / 4 < h.objects.length := (List.getElem?_eq_some_iff.mp hx).1
      cases z with
      | object id' =>
        simp only [BoxHeap.object?, BoxHeap.put, List.getElem?_set]
        by_cases heq : id' = id
        · subst heq
          simp [hid, hlt]
        · by_cases hid' : id' % 4 = 0
          · have hne : id / 4 ≠ id' / 4 := by omega
            simp [heq, hid', hne]
          · simp [heq, hid']
      | _ => simp [BoxHeap.object?]
    · cases hx
  | _ => cases hx

/-- A change of one object. -/
theorem box_put (hx : h.object? x = some o) (hprops : (∀ k, (x, k) ∉ writes) → o'.props = o.props)
    (hbase : (x, protoKey) ∉ writes → o'.base = o.base) : boxView.Step writes runs h (h.put x o') := by
  have hrecords : (h.put x o').records = h.records := by cases x <;> rfl
  refine boxStep (fun m p _ hp => by rwa [hrecords]) (by rw [hrecords]) fun z oz hz => ?_
  rw [BoxHeap.object?_put hx]
  by_cases heq : z = x
  · subst heq
    cases hx.symm.trans hz
    exact ⟨o', by simp, hprops, hbase⟩
  · exact ⟨oz, by simp [heq, hz], fun _ => rfl, fun _ => rfl⟩

/-- An assignment to an object of the bridge runs code of the module only if it has a new prototype. -/
theorem box_setOn (hx : h.object? x = some o) (hruns : o.base ≠ none → k = setterKey → runs = Set.univ) :
    boxView.Step {(x, k)} runs h (h.setOn x o k y) := by
  unfold BoxHeap.setOn
  by_cases hproto : k = protoKey
  · rw [if_pos hproto]
    split
    · exact box_put hx (fun _ => rfl) fun hno => absurd (by rw [hproto]; rfl) hno
    · exact .refl trivial
  · rw [if_neg hproto]
    have hput : boxView.Step {(x, k)} runs h (h.put x (o.write k y)) :=
      box_put hx (fun hno => absurd rfl (hno k)) fun _ => o.write_base k y
    by_cases hsetter : k = setterKey ∧ o.props.lookup k = none
    · rw [if_pos hsetter]
      split
      · rename_i m hm
        have hbase : o.base ≠ none := fun hnone => by simp [hnone] at hm
        rw [hruns hbase hsetter.1]
        exact box_records rfl (fun n p hn _ => absurd (Set.mem_univ n) hn) (by simp [BoxHeap.assign])
      · exact hput
    · rw [if_neg hsetter]
      exact hput

theorem box_compile (source : List UInt8) (path : CStr) (loader : Bool) (h : BoxHeap) :
    ∃ m h', boxPlatform.compileModule source path loader h = (.ok m, h') ∧ boxView.record h m = none ∧
      boxView.Step ∅ {m} h h' ∧ boxView.record h' m = some ⟨0, .undefined⟩ := by
  refine ⟨h.records.length, _, rfl, List.getElem?_eq_none (le_refl _), ?_, ?_⟩
  · refine box_records rfl (fun n p _ hp => ?_) (by simp)
    have hlt : n < h.records.length := (List.getElem?_eq_some_iff.mp hp).1
    simpa [List.getElem?_append_left hlt] using hp
  · simp [boxView]

theorem box_record_set {m : Nat} {p p' : BoxRecord} (hp : boxView.record h m = some p) :
    boxView.record { h with records := h.records.set m p' } m = some p' := by
  have hlt : m < h.records.length := (List.getElem?_eq_some_iff.mp hp).1
  simp [boxView, List.getElem?_set_self hlt]

theorem box_resolve {m : Nat} (loader : Bool) (hm : boxView.record h m = some ⟨0, .undefined⟩) :
    ∃ h', boxPlatform.resolveModule m loader h = (.ok (), h') ∧ boxView.Step ∅ {m} h h' ∧
      boxView.record h' m = some ⟨1, .undefined⟩ :=
  ⟨_, rfl, box_setRecord m _, box_record_set hm⟩

theorem box_evaluate {m : Nat} (hm : boxView.record h m = some ⟨1, .undefined⟩) :
    ∃ promise h', boxPlatform.evalFunction m h = (.ok promise, h') ∧ boxView.Step ∅ {m} h h' ∧
      boxView.record h' m = some ⟨2, .number (.finite 0)⟩ :=
  ⟨_, _, rfl, box_setRecord m _, box_record_set hm⟩

/-- The record after the evaluation. -/
def boxEvaluated : BoxRecord := ⟨2, .number (.finite 0)⟩

theorem box_space {m : Nat} {p : BoxRecord} (hp : boxView.record h m = some p) :
    ∃ ns h', boxPlatform.moduleNamespace m h = (.ok ns, h') ∧ boxView.Step ∅ ∅ h h' ∧
      boxView.spaceOf h' ns = some m := by
  refine ⟨_, _, rfl, .refl trivial, ?_⟩
  have hlt : m < h.records.length := (List.getElem?_eq_some_iff.mp hp).1
  have hmod : (4 * m + 2) % 4 = 2 := by omega
  have hdiv : (4 * m + 2) / 4 = m := by omega
  simp [boxView, BoxHeap.spaceOf, BoxHeap.space, hmod, hdiv, hlt]

/-- The value of the one export. -/
def boxCurrent (k : PropKey) : Option (Option JSVal) := if k = boxKey then some none else none

theorem box_spaceNames {ns : JSVal} {m : Nat} (hns : boxView.spaceOf h ns = some m)
    (hp : boxView.record h m = some boxEvaluated) : boxPlatform.ownPropertyNames ns h = (.ok [boxKey], h) := by
  have hspace : h.spaceOf ns = some m := hns
  have hrecord : h.records[m]? = some boxEvaluated := hp
  have hlist : h.list ns = .ok [boxKey] := by simp [BoxHeap.list, hspace, hrecord, boxEvaluated]
  exact Prod.ext hlist rfl

theorem box_names {ns : JSVal} {m : Nat} (hns : boxView.spaceOf h ns = some m)
    (hp : boxView.record h m = some boxEvaluated) :
    boxView.Does ∅ ∅ h (boxPlatform.ownPropertyNames ns h) (fun ks _ => ks = [boxKey]) ∧
      ((∀ k ∈ [boxKey], (boxCurrent k).isSome) →
        (boxPlatform.ownPropertyNames ns h).1.toOption.isSome = true) := by
  rw [box_spaceNames hns hp]
  refine ⟨⟨.refl trivial, fun ks hks => ?_, fun e he => ?_⟩, fun _ => rfl⟩
  · cases hks
    rfl
  · cases he

/-- A read of a namespace. -/
theorem box_getSpace {ns : JSVal} {m : Nat} {p : BoxRecord} (hns : boxView.spaceOf h ns = some m)
    (hp : boxView.record h m = some p) :
    h.get ns k = if p.phase = 2 ∧ k = boxKey then .ok (BoxHeap.box m) else .error .undefined := by
  have hnone : h.object? ns = none := by
    cases ns with
    | object id =>
      have hid : id % 4 = 2 := by
        simp only [boxView, BoxHeap.spaceOf] at hns
        split at hns
        · rename_i hcond
          exact hcond.1
        · cases hns
      simp [BoxHeap.object?, hid]
    | _ => rfl
  have hspace : h.spaceOf ns = some m := hns
  have hrecord : h.records[m]? = some p := hp
  simp [BoxHeap.get, hnone, hspace, hrecord]

theorem box_spaceGet {ns : JSVal} {m : Nat} {t : Option JSVal} (hns : boxView.spaceOf h ns = some m)
    (hp : boxView.record h m = some boxEvaluated) (ht : boxCurrent k = some t) :
    ∃ y, boxPlatform.getProperty ns k h = (.ok y, h) ∧ boxView.Tame h y ∧ boxView.term h m y = t := by
  unfold boxCurrent at ht
  split at ht
  · rename_i hcond
    cases ht
    have hget : h.get ns k = .ok (BoxHeap.box m) := by rw [box_getSpace hns hp, if_pos ⟨rfl, hcond⟩]
    exact ⟨BoxHeap.box m, Prod.ext hget rfl, trivial, if_pos rfl⟩
  · cases ht

theorem box_spaceGetNone {ns : JSVal} {m : Nat} (hns : boxView.spaceOf h ns = some m)
    (hp : boxView.record h m = some boxEvaluated) (ht : boxCurrent k = none) :
    (∃ e, (boxPlatform.getProperty ns k h).1 = .error e) ∧
      boxView.Does ∅ ∅ h (boxPlatform.getProperty ns k h) fun _ _ => True := by
  unfold boxCurrent at ht
  split at ht
  · cases ht
  · rename_i hcond
    have hget : h.get ns k = .error .undefined := by
      rw [box_getSpace hns hp, if_neg fun hall => hcond hall.2]
    exact ⟨⟨_, hget⟩, box_does rfl⟩

theorem box_newObject (h : BoxHeap) :
    ∃ x h', boxPlatform.newObject h = (.ok x, h') ∧ boxView.Step ∅ ∅ h h' ∧ ¬ boxView.Made h x ∧
      boxView.Made h' x ∧ boxView.Tame h' x ∧ boxView.keys h' x = [] ∧ boxView.base h' x = none := by
  have hmod : (4 * h.objects.length) % 4 = 0 := by omega
  have hdiv : (4 * h.objects.length) / 4 = h.objects.length := by omega
  have hnew : BoxHeap.object? { h with objects := h.objects ++ [⟨[], none⟩] } (.object (4 * h.objects.length)) =
      some ⟨[], none⟩ := by
    simp [BoxHeap.object?, hmod, hdiv]
  refine ⟨_, _, rfl, ?_, ?_, ?_, trivial, ?_, ?_⟩
  · refine boxStep (fun _ _ _ hp => hp) (le_refl _) fun x o ho => ⟨o, ?_, fun _ => rfl, fun _ => rfl⟩
    cases x with
    | object id =>
      simp only [BoxHeap.object?] at ho ⊢
      split at ho
      · rename_i hid
        have hlt : id / 4 < h.objects.length := (List.getElem?_eq_some_iff.mp ho).1
        rw [if_pos hid, List.getElem?_append_left hlt, ho]
      · cases ho
    | _ => cases ho
  · simp [boxView, BoxHeap.object?, hmod, hdiv]
  · simp [boxView, hnew]
  · simp [boxView, hnew]
  · simp [boxView, hnew]

theorem box_define (hx : boxView.Made h x) (hk : k ∉ boxView.keys h x) :
    ∃ done h', boxPlatform.defineProperty x k y h = (.ok done, h') ∧ boxView.Step {(x, k)} ∅ h h' ∧
      boxView.base h' x = boxView.base h x ∧ boxView.own h' x = boxView.own h x ++ [(k, some y)] := by
  obtain ⟨o, ho⟩ := Option.isSome_iff_exists.mp hx
  have hkeys : k ∉ o.props.map Prod.fst := by simpa [boxView, ho] using hk
  have hnew : o.props.lookup k = none := by
    rw [List.lookup_eq_none_iff]
    intro q hq
    have hne : k ≠ q.1 := fun heq => hkeys (heq ▸ List.mem_map_of_mem hq)
    simpa using hne
  have hafter : (h.put x { o with props := o.props ++ [(k, y)] }).object? x =
      some { o with props := o.props ++ [(k, y)] } := by
    rw [BoxHeap.object?_put ho, if_pos rfl]
  have hrun : h.define x k y = h.put x { o with props := o.props ++ [(k, y)] } := by simp [BoxHeap.define, ho]
  refine ⟨true, h.put x { o with props := o.props ++ [(k, y)] }, Prod.ext rfl hrun, ?_, ?_, ?_⟩
  · exact box_put ho (fun hno => absurd rfl (hno k)) fun _ => rfl
  · simp only [boxView, hafter, ho, Option.bind_some]
  · simp only [ModuleView.own, boxView, hafter, ho, Option.map_some, Option.getD_some, Option.bind_some,
      List.map_append, List.map_cons, List.map_nil, List.lookup_append, hnew, Option.none_or]
    congr 1
    · refine List.map_congr_left fun k' hk' => ?_
      have hne : k' ≠ k := by
        rintro rfl
        exact hkeys hk'
      have hbeq : (k' == k) = false := by simpa using hne
      simp [List.lookup_cons, hbeq]
    · simp [List.lookup_cons_self]

theorem box_set (x y : JSVal) (k : PropKey) (h : BoxHeap) :
    boxView.Does {(x, k)} Set.univ h (boxPlatform.setProperty x k y h) fun _ _ => True := by
  refine ⟨?_, fun _ _ => trivial, fun e _ => ⟨trivial, box_worded _ _ e⟩⟩
  show boxView.Step {(x, k)} Set.univ h (h.set x k y)
  unfold BoxHeap.set
  split
  · rename_i hx
    exact box_setOn hx fun _ _ => rfl
  · split
    · exact box_records rfl (fun n p hn _ => absurd (Set.mem_univ n) hn) (by simp [BoxHeap.assign])
    · exact .refl trivial
  · exact .refl trivial

theorem box_setMade (hx : boxView.Made h x) (hfree : ¬ boxView.Intercepts h x k) :
    boxView.Does {(x, k)} ∅ h (boxPlatform.setProperty x k y h) fun _ _ => True := by
  obtain ⟨o, ho⟩ := Option.isSome_iff_exists.mp hx
  have hrun : h.set x k y = h.setOn x o k y := by simp [BoxHeap.set, ho]
  refine ⟨?_, fun _ _ => trivial, fun e _ => ⟨trivial, box_worded _ _ e⟩⟩
  show boxView.Step {(x, k)} ∅ h (h.set x k y)
  rw [hrun]
  exact box_setOn ho fun hbase hk => absurd ⟨o, ho, hbase, hk⟩ hfree

theorem box_read {y : JSVal} (hy : boxView.data h x k = some y) :
    boxPlatform.getProperty x k h = (.ok y, h) := by
  obtain ⟨o, ho, hlookup⟩ := Option.bind_eq_some_iff.mp hy
  have hget : h.get x k = .ok y := by simp [BoxHeap.get, ho, hlookup]
  exact Prod.ext hget rfl

theorem box_get {y : JSVal} (hy : boxView.data h x k = some y) :
    boxView.Does ∅ ∅ h (boxPlatform.getProperty x k h) fun z h' => z = y ∧ boxView.Tame h' y := by
  rw [box_read hy]
  refine ⟨.refl trivial, fun z hz => ?_, fun e he => ?_⟩
  · cases hz
    exact ⟨rfl, trivial⟩
  · cases he

theorem box_file (host : Unit) : (boxPlatform.readFile (utf8 "m.js") host).1 = some boxSource := by
  have hsize : ¬ (boxSource.length : Int) < 0 := by omega
  simp [Platform.readFile, boxPlatform, Platform.idle, hsize]

theorem box_lookupBigInt (h : BoxHeap) : boxPlatform.getProperty (boxPlatform.globalObject h)
    (.ofCString (utf8 "BigInt")) h = (.ok boxBigInt, h) := by
  have hget : h.get (.object 3) (.ofCString (utf8 "BigInt")) = .ok boxBigInt := by
    simp [BoxHeap.get, BoxHeap.object?, BoxHeap.spaceOf]
  exact Prod.ext hget rfl

theorem box_toNumber (x : JSVal) (h : BoxHeap) : (boxPlatform.toNumber x h).2 = h := by
  cases x <;> rfl

theorem box_interceptsBase (htakes : boxView.Intercepts h x k) : boxView.base h x ≠ none := by
  obtain ⟨o, ho, hbase, -⟩ := htakes
  simpa [boxView, ho] using hbase

end Laws

def boxEngine : ModuleEngine boxPlatform boxSource (utf8 "m.js") where
  toModuleView := boxView
  file := box_file
  compiled := ⟨0, .undefined⟩
  linked := ⟨1, .undefined⟩
  evaluated := boxEvaluated
  names := [boxKey]
  current := boxCurrent
  bigInt := boxBigInt
  primitive_tame _ := trivial
  newContext _ := trivial
  compile loader _ := box_compile _ _ loader _
  resolve loader _ new := box_resolve loader new
  evaluate _ new := box_evaluate new
  space _ rec := box_space rec
  names_nodup := List.nodup_singleton _
  space_names _ space rec := box_names space rec
  space_get _ space rec _ value := box_spaceGet space rec value
  space_get_none _ space rec _ value := box_spaceGetNone space rec value
  newObject _ := box_newObject _
  define _ made _ new := box_define made new
  initStd _ := box_does rfl
  newString _ _ := box_does rfl
  lookupBigInt _ := box_lookupBigInt _
  callBigInt _ _ := box_does rfl
  text _ _ := box_worded _ _ _
  toNumber _ _ := box_does (box_toNumber _ _)
  isArray _ _ := box_does rfl
  length _ _ := box_does rfl
  get _ _ own := box_get own
  set k _ _ _ := box_set _ _ k _
  set_made _ made _ free := box_setMade made free
  intercepts_base := box_interceptsBase
  call _ _ _ _ := box_does rfl
  construct _ _ _ := box_does rfl


/-! ## A session with it -/

/-- A state of a program with the runtime 0: the heap, and the values of its handles. -/
structure BoxState (h : BoxHeap) (xs : List JSVal) (c : Client) (w : World boxPlatform) : Prop where
  kept : boxEngine.Kept 0 c w
  loc : ∃ l, w.loc? 0 = some l ∧ l.heap = h
  handle : ∀ q x, xs[q]? = some x → w.Holds q 0 x ∧ (q, 0) ∈ c.live
  next : w.nextValue = xs.length

section BoxState

variable {h h' : BoxHeap} {xs : List JSVal} {c : Client} {w : World boxPlatform} {q : Nat} {x y : JSVal}

theorem BoxState.takes (hs : BoxState h xs c w) (hq : xs[q]? = some x) : c.TakesValue 0 (some q) :=
  .inr ⟨q, rfl, (hs.handle q x hq).2⟩

/-- A call that gives no handle. -/
theorem BoxState.after {β : Type} {call : Call β} {a : β} {w' : World boxPlatform} {l l' : Loc boxPlatform}
    {L : Multiset Resource} (hs : BoxState h xs c w) (hl : w.loc? 0 = some l) (allowed : c.Allows 0 call)
    (visits : boxEngine.Visits (w.valueOf 0) l.heap call) (ran : call.run.run w = .ok (a, w'))
    (hw : Run 0 w l' L w') (hheap : l'.heap = h') (hclient : (c.after 0 call a).live = c.live) :
    BoxState h' xs (c.after 0 call a) w' := by
  obtain ⟨-, -, hkept, -⟩ := hs.kept.call allowed ran hl visits
  have hloc := hw.loc?
  obtain ⟨e, -, hat⟩ := hw
  refine ⟨hkept, ⟨l', hloc, hheap⟩, fun q x hq => ?_, hat.nextValue.trans hs.next⟩
  obtain ⟨⟨t, ht⟩, hlive⟩ := hs.handle q x hq
  exact ⟨⟨t, by rw [hat.values, ht]⟩, by rwa [hclient]⟩

/-- A call that gives a handle of `y`. -/
theorem BoxState.given {call : Call Ptr} {w' : World boxPlatform} {l l' : Loc boxPlatform}
    {L : Multiset Resource} (hs : BoxState h xs c w) (hl : w.loc? 0 = some l) (allowed : c.Allows 0 call)
    (visits : boxEngine.Visits (w.valueOf 0) l.heap call) (ran : call.run.run w = .ok (some w.nextValue, w'))
    (hw : Granted 0 w l' L y w') (hheap : l'.heap = h')
    (hclient : c.after 0 call (some w.nextValue) = c.give 0 (some w.nextValue)) :
    BoxState h' (xs ++ [y]) (c.give 0 (some w.nextValue)) w' := by
  obtain ⟨-, -, hkept, -⟩ := hs.kept.call allowed ran hl visits
  rw [hclient] at hkept
  obtain ⟨t, hw⟩ := hw
  have hloc := hw.loc?
  obtain ⟨e, -, hat⟩ := hw
  refine ⟨hkept, ⟨l', hloc, hheap⟩, fun q x hq => ?_, ?_⟩
  · by_cases hlt : q < xs.length
    · rw [List.getElem?_append_left hlt] at hq
      obtain ⟨⟨t', ht'⟩, hlive⟩ := hs.handle q x hq
      have hne : q ≠ w.nextValue := by
        rw [hs.next]
        omega
      exact ⟨⟨t', by rw [hat.values, addValue_values_of_ne hne, ht']⟩, Finset.mem_insert_of_mem hlive⟩
    · have hlast : q = xs.length := by
        have hbound := (List.getElem?_eq_some_iff.mp hq).1
        simp at hbound
        omega
      subst hlast
      have hy : y = x := by simpa using hq
      subst hy
      rw [← hs.next]
      exact ⟨⟨t, by rw [hat.values]; simp [World.addValue]⟩, Finset.mem_insert_self _ _⟩
  · rw [hat.nextValue]
    simp [World.addValue, hs.next]

theorem BoxState.kind (hs : BoxState h xs c w) (hq : xs[q]? = some x) :
    ∃ w', (Call.valueKind (some q)).run.run w = .ok (x.kind.code, w') ∧ BoxState h xs c w' := by
  obtain ⟨l, hl, hheap⟩ := hs.loc
  obtain ⟨k, w', hrun, rfl, hw⟩ := jsValueKind_spec (hs.handle q x hq).1 w (hs.kept.inv.run_of_loc hl)
  have allowed : c.Allows 0 (.valueKind (some q)) := hs.takes hq
  exact ⟨w', hrun, hs.after hl allowed trivial hrun hw hheap rfl⟩

theorem BoxState.imports (hs : BoxState h xs c w) (himport : ∀ loader,
    boxPlatform.importModule boxSource (utf8 "m.js") loader h = (.ok y, h')) :
    ∃ w', (Call.runtimeImportModule (some 0) (some (utf8 "m.js"))).run.run w = .ok (some xs.length, w') ∧
      c.Allows 0 (.runtimeImportModule (some 0) (some (utf8 "m.js"))) ∧
      BoxState h' (xs ++ [y]) (c.give 0 (some xs.length)) w' := by
  obtain ⟨l, hl, rfl⟩ := hs.loc
  obtain ⟨p, w', hrun, hw⟩ := jsRuntimeImportModule_spec (utf8 "m.js") w (hs.kept.inv.run_of_loc hl)
  have hread : boxPlatform.readFile (utf8 "m.js") l.host = (some boxSource, ()) := Prod.ext (box_file _) rfl
  rw [hread] at hw
  simp only [himport] at hw
  have allowed : c.Allows 0 (.runtimeImportModule (some 0) (some (utf8 "m.js"))) :=
    .inr ⟨rfl, hs.kept.runtime, hs.kept.inUse⟩
  obtain ⟨x, hx, -, rfl, hw⟩ | ⟨hd, -⟩ := hw.cases
  · cases hx
    have hstate := hs.given hl allowed (fun f hf => (Option.some.inj hf).symm) hrun hw rfl rfl
    rw [← hs.next]
    exact ⟨w', hrun, allowed, hstate⟩
  · cases hd

theorem BoxState.reads {name : CStr} (hs : BoxState h xs c w) (hq : xs[q]? = some x)
    (hget : boxView.data h x (.ofCString name) = some y) :
    ∃ w', (Call.valueGetProperty (some q) (some name)).run.run w = .ok (some xs.length, w') ∧
      boxEngine.VisitsIn 0 w (.valueGetProperty (some q) (some name)) ∧
      BoxState h (xs ++ [y]) (c.give 0 (some xs.length)) w' := by
  obtain ⟨l, hl, rfl⟩ := hs.loc
  have hholds := (hs.handle q x hq).1
  obtain ⟨p, w', hrun, hw⟩ := jsValueGetProperty_spec hholds name w (hs.kept.inv.run_of_loc hl)
  rw [box_read hget] at hw
  have allowed : c.Allows 0 (.valueGetProperty (some q) (some name)) := hs.takes hq
  have visits : boxEngine.Visits (w.valueOf 0) l.heap (.valueGetProperty (some q) (some name)) := by
    intro z s hz hname
    cases hholds.valueOf.symm.trans hz
    cases hname
    exact Option.isSome_iff_exists.mpr ⟨y, hget⟩
  have visitsIn : boxEngine.VisitsIn 0 w (.valueGetProperty (some q) (some name)) := by
    intro l' hl'
    cases hl.symm.trans hl'
    exact visits
  obtain ⟨z, hz, -, rfl, hw⟩ | ⟨hd, -⟩ := hw.cases
  · cases hz
    have hstate := hs.given hl allowed visits hrun hw rfl rfl
    rw [← hs.next]
    exact ⟨w', hrun, visitsIn, hstate⟩
  · cases hd

theorem BoxState.writes {p : Nat} (hs : BoxState h xs c w) (hq : xs[q]? = some x)
    (hp : xs[p]? = some y) (name : CStr) :
    ∃ w', (Call.valueSetProperty (some q) (some name) (some p)).run.run w = .ok (0, w') ∧
      BoxState (h.set x (.ofCString name) y) xs c w' := by
  obtain ⟨l, hl, rfl⟩ := hs.loc
  have hholds := (hs.handle p y hp).1
  obtain ⟨k, w', hrun, hw⟩ := jsValueSetProperty_spec (hs.handle q x hq).1 hholds.nullOrLive name w
    (hs.kept.inv.run_of_loc hl)
  rw [hholds.newValueOf] at hw
  obtain ⟨rfl, hw⟩ := hw
  have allowed : c.Allows 0 (.valueSetProperty (some q) (some name) (some p)) := ⟨hs.takes hq, 0, hs.takes hp⟩
  exact ⟨w', hrun, hs.after hl allowed trivial hrun hw rfl rfl⟩

end BoxState

/-- The state after `createRuntime`. -/
theorem box_created : ∃ c s, boxEngine.Session 0 (c, s) ∧ BoxState ⟨[], []⟩ [] c s.world := by
  obtain ⟨w, hrun, hcell, hnext⟩ : ∃ w, Call.runtimeCreate.run.run (World.start (P := boxPlatform) ()) =
      .ok (some 0, w) ∧ (w.loc? 0).map Loc.heap = some ⟨[], []⟩ ∧ w.nextValue = 0 := ⟨_, rfl, rfl, rfl⟩
  have hran := Ran.created (P := boxPlatform) () hrun
  have hsession : boxEngine.Session 0 _ := .create hran
  refine ⟨_, _, hsession, hsession.kept, ?_, fun q x hq => by simp at hq, hnext⟩
  exact Option.map_eq_some_iff.mp hcell

/-- The heap after the import: one record, and one object with its `box`. -/
def boxImported : BoxHeap := ⟨[⟨2, .number (.finite 0)⟩], [⟨[(boxKey, .object 1)], none⟩]⟩

theorem box_imported : ∃ c s, boxEngine.Session 0 (c, s) ∧ BoxState boxImported [.object 0] c s.world := by
  obtain ⟨c, s, hsession, hs⟩ := box_created
  have himport (loader : Bool) : boxPlatform.importModule boxSource (utf8 "m.js") loader ⟨[], []⟩ =
      (.ok (.object 0), boxImported) := rfl
  obtain ⟨w, hrun, allowed, hs'⟩ := hs.imports himport
  have hvisit : Op.Visiting (utf8 "m.js") (.getModule "m.js") := rfl
  exact ⟨_, _, .visit hsession hvisit (.native allowed hrun (.alloc .ret)), hs'⟩

/-- The program reads the property `box` of the object. -/
theorem box_reached : ∃ c s, boxEngine.Session 0 (c, s) ∧ BoxState boxImported [.object 0, .object 1] c s.world := by
  obtain ⟨c, s, hsession, hs⟩ := box_imported
  have hdata : boxView.data boxImported (.object 0) (.ofCString (mallocCString "box")) = some (.object 1) := rfl
  obtain ⟨w₁, hkind, hs₁⟩ := hs.kind (q := 0) rfl
  obtain ⟨w₂, hread, visits, hs₂⟩ := hs₁.reads (q := 0) (y := .object 1) rfl hdata
  obtain ⟨w₃, hkind', hs₃⟩ := hs₂.kind (q := 1) rfl
  have hran : RanIf (boxEngine.VisitsIn 0) ((Op.memberAccess (.value ⟨0, some 0⟩) "box").prog (some 0)) (c, s)
      (.ok (.value ⟨s.nextRef, some 1⟩)) (c.give 0 (some 1), ⟨w₃, s.nextRef + 1⟩) := by
    have allowed : c.Allows 0 (.valueKind (some 0)) := hs.takes rfl
    have allowed₁ : c.Allows 0 (.valueGetProperty (some 0) (some (mallocCString "box"))) := hs₁.takes rfl
    have allowed₂ : (c.give 0 (some 1)).Allows 0 (.valueKind (some 1)) := hs₂.takes (q := 1) rfl
    refine .touch ?_
    refine .native allowed (fun _ _ => trivial) hkind ?_
    refine .native allowed₁ visits hread ?_
    exact .native allowed₂ (fun _ _ => trivial) hkind' (.alloc .ret)
  exact ⟨_, _, .other hsession hran, hs₃⟩

/-- `memberUpdate` of the object with the handle 0, by the value of the handle 1. -/
theorem box_update {h : BoxHeap} {xs : List JSVal} {c : Client} {s : Store boxPlatform} {x y : JSVal}
    (hs : BoxState h xs c s.world) (hx : xs[0]? = some x) (hy : xs[1]? = some y) (hobject : x.kind = .object)
    (field : String) :
    ∃ s', Ran (JSRuntime.memberUpdate (some 0) (.value ⟨0, some 0⟩) field (.externValue (.value ⟨1, some 1⟩)))
      (c, s) (.ok ()) (c, s') ∧ BoxState (h.set x (.ofCString (mallocCString field)) y) xs c s'.world := by
  obtain ⟨w₁, hkind, hs₁⟩ := hs.kind hx
  obtain ⟨w₂, hwrite, hs₂⟩ := hs₁.writes hx hy (mallocCString field)
  rw [hobject] at hkind
  have allowed : c.Allows 0 (.valueKind (some 0)) := hs.takes hx
  have allowed₁ : c.Allows 0 (.valueSetProperty (some 0) (some (mallocCString field)) (some 1)) :=
    ⟨hs₁.takes hx, 0, hs₁.takes hy⟩
  refine ⟨⟨w₂, s.nextRef⟩, .touch (.touch ?_), hs₂⟩
  refine .native allowed hkind ?_
  exact .native allowed₁ hwrite .ret

/-- A second import gives what a first one gives, and the property `p` of the object is then written. -/
theorem imports_isolated_box : (∃ exports : Option (List (PropKey × Option boxEngine.Term)),
      ∀ h ∈ [⟨[], []⟩, boxImported], ∃ c s l res s' l', boxEngine.Session 0 (c, s) ∧
        s.world.loc? 0 = some l ∧ l.heap = h ∧ (JSRuntime.getModule (some 0) "m.js").exec.run s = .ok (res, s') ∧
        s'.world.loc? 0 = some l' ∧ boxEngine.Imports 0 l s' res exports ∧ boxEngine.Leaves ∅ True l l') ∧
    ∃ c s s' l l', boxEngine.Session 0 (c, s) ∧ s.world.loc? 0 = some l ∧ l.heap = boxImported ∧
      Ran (JSRuntime.memberUpdate (some 0) (.value ⟨0, some 0⟩) "p" (.externValue (.value ⟨1, some 1⟩)))
        (c, s) (.ok ()) (c, s') ∧
      s'.world.loc? 0 = some l' ∧ boxEngine.Leaves {.object 0} True l l' := by
  obtain ⟨⟨exports, himports⟩, hupdates⟩ := boxEngine.imports_isolated
  constructor
  · refine ⟨exports, fun h hh => ?_⟩
    obtain ⟨c, s, xs, hsession, hs⟩ : ∃ c s xs, boxEngine.Session 0 (c, s) ∧ BoxState h xs c s.world := by
      obtain rfl | rfl : h = ⟨[], []⟩ ∨ h = boxImported := by simpa using hh
      · obtain ⟨c, s, hs⟩ := box_created
        exact ⟨c, s, _, hs⟩
      · obtain ⟨c, s, hs⟩ := box_imported
        exact ⟨c, s, _, hs⟩
    obtain ⟨l, hl, hheap⟩ := hs.loc
    obtain ⟨res, s', l', hrun, hl', hresult⟩ := himports 0 c s l "m.js" hsession hl rfl
    exact ⟨c, s, l, res, s', l', hsession, hl, hheap, hrun, hl', hresult⟩
  · obtain ⟨c, s, hsession, hs⟩ := box_reached
    obtain ⟨l, hl, hheap⟩ := hs.loc
    obtain ⟨s', hran, -⟩ := box_update hs rfl rfl rfl "p"
    have hmade : boxEngine.Made l.heap (.object 0) := by
      rw [hheap]
      rfl
    have hbase : boxEngine.base l.heap (.object 0) = none := by
      rw [hheap]
      rfl
    obtain ⟨l', hl', -, hleaves⟩ := hupdates 0 c c s s' l ⟨0, some 0⟩ (.object 0) "p" _ _ hsession hl
      ⟨0, rfl, (hs.handle 0 _ rfl).1⟩ hmade hran
    exact ⟨c, s, s', l, l', hsession, hl, hheap, hran, hl',
      hleaves ⟨c, s, l, hsession, hl, hmade, hbase, .refl⟩⟩

/-- The heap after the prototype of the object is replaced by `box`. -/
def boxReplaced : BoxHeap := ⟨[⟨2, .number (.finite 0)⟩], [⟨[(boxKey, .object 1)], some (.object 1)⟩]⟩

theorem box_replaced : ∃ c s, boxEngine.Session 0 (c, s) ∧ BoxState boxReplaced [.object 0, .object 1] c s.world := by
  obtain ⟨c, s, hsession, hs⟩ := box_reached
  obtain ⟨s', hran, hs'⟩ := box_update hs rfl rfl rfl "__proto__"
  have hvisit : Op.Visiting (utf8 "m.js")
      (.memberUpdate (.value ⟨0, some 0⟩) "__proto__" (.externValue (.value ⟨1, some 1⟩))) := trivial
  exact ⟨c, s', .visit hsession hvisit hran, hs'⟩

/-- `o.__proto__ = o.box; o.p = o.box` runs the setter: the binding `n` of the module changes. -/
theorem update_runs_setter : ¬ ∀ (P : Platform) (source : List UInt8) (path : CStr)
    (E : ModuleEngine P source path) (r : Nat) (c c' : Client) (s s' : Store P) (l l' : Loc P) (o : JSValueRef)
    (x : JSVal) (field : String) (v : Any) (res : Except Exn Unit), E.Session r (c, s) →
    s.world.loc? r = some l → o.Denotes s.world r x → E.Made l.heap x →
    Ran (JSRuntime.memberUpdate (some r) (.value o) field v) (c, s) res (c', s') →
    s'.world.loc? r = some l' → ∀ m p, E.record l.heap m = some p → E.record l'.heap m = some p := by
  intro hall
  obtain ⟨c, s, hsession, hs⟩ := box_replaced
  obtain ⟨l, hl, hheap⟩ := hs.loc
  obtain ⟨s', hran, hs'⟩ := box_update hs rfl rfl rfl "p"
  obtain ⟨l', hl', hheap'⟩ := hs'.loc
  have hmade : boxEngine.Made l.heap (.object 0) := by
    rw [hheap]
    rfl
  have hrecord := hall _ _ _ boxEngine 0 c c s s' l l' ⟨0, some 0⟩ (.object 0) "p" _ _ hsession hl
    ⟨0, rfl, (hs.handle 0 _ rfl).1⟩ hmade hran hl' 0 ⟨2, .number (.finite 0)⟩
  rw [hheap, hheap'] at hrecord
  have hchanged : some (⟨2, .object 1⟩ : BoxRecord) = some ⟨2, .number (.finite 0)⟩ := hrecord rfl
  cases hchanged

end InteropJs
