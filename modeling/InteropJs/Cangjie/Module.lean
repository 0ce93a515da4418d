import InteropJs.Bridge.Snapshot
import InteropJs.Cangjie.FunctionCall

/-!
# `getModule`

`js_runtime_import_module` tests what `JS_EvalFunction` returns for `JS_EXCEPTION` and frees it. For a
module the engine returns a promise: its state in the heap after the evaluation says how the
evaluation went. The bridge never asks for it, and goes on to the exports.

The engine is asked for one thing, the parameter `state`: the state of a promise in a heap
(`JS_PromiseState` and `JS_PromiseResult`).

* `ExportsThrow` lists the engine calls that can throw once the module has run, and `ExportsRefused` adds
  the memory for the handle: what the engine and the C library answer if there is nothing to deliver.
* `getModule_honest_iff`: a module that threw or waits is refused, with the text of its error, exactly
  when the engine and the C library refuse its exports, with this text.
-/

namespace InteropJs

open Hoare

variable {P : Platform} {r : Nat} {b : World P} {l : Loc P} {L : Multiset Resource}

/-- How an evaluation went: it waits at a top-level `await`, it ended, or it threw. -/
inductive PromiseState where
  | pending
  | fulfilled
  | rejected (e : JSVal)
  deriving DecidableEq

/-- The engine calls of `js_runtime_import_module` after the evaluation of the module `m`. -/
def Platform.exports (P : Platform) (m : Nat) : EngineM P.Heap JSVal :=
  EngineM.andThen (P.moduleNamespace m) P.snapshot

/-- The `source` compiles to the module `m`, which resolves and links; its evaluation gives `promise`,
in the heap `h'`. -/
structure Evaluates (P : Platform) (source : List UInt8) (path : CStr) (loader : Bool) (h : P.Heap)
    (m : Nat) (promise : JSVal) (h' : P.Heap) : Prop where
  evaluates : ∃ h₁ h₂, P.compileModule source path.text loader h = (.ok m, h₁) ∧
    P.resolveModule m loader h₁ = (.ok (), h₂) ∧ P.evalFunction m h₂ = (.ok promise, h')

theorem Evaluates.importModule {source : List UInt8} {path : CStr} {loader : Bool} {h h' : P.Heap}
    {m : Nat} {promise : JSVal} (he : Evaluates P source path loader h m promise h') :
    P.importModule source path loader h = P.exports m h' := by
  obtain ⟨h₁, h₂, hc, hr, he⟩ := he
  simp only [Platform.importModule, Platform.exports, EngineM.andThen, hc, hr, he]

/-- The state `s` before an import of `path` into `r`: the file is read, and its module evaluates. -/
structure ImportSite (r : Nat) (s : Store P) (l : Loc P) (path : CStr) (host : P.Host) (m : Nat)
    (promise : JSVal) (h : P.Heap) : Prop where
  state : ∃ L, On r s.world l L s
  module : ∃ source, P.readFile path l.host = (some source, host) ∧
    Evaluates P source path l.moduleLoader l.heap m promise h

/-- An engine call of the exports of the module `m` throws `e`, and leaves the heap `h'`: it asks for the
namespace, makes the object, lists the names, or reads or defines one of them. -/
inductive ExportsThrow (P : Platform) (m : Nat) (h : P.Heap) (e : JSVal) (h' : P.Heap) : Prop where
  | space (space : P.moduleNamespace m h = (.error e, h'))
  | object {ns : JSVal} {h₁ : P.Heap} (space : P.moduleNamespace m h = (.ok ns, h₁))
      (object : P.newObject h₁ = (.error e, h'))
  | names {ns x : JSVal} {h₁ h₂ : P.Heap} (space : P.moduleNamespace m h = (.ok ns, h₁))
      (object : P.newObject h₁ = (.ok x, h₂)) (names : P.ownPropertyNames ns h₂ = (.error e, h'))
  | copy {ns x : JSVal} {h₁ h₂ h₃ h₄ : P.Heap} {atoms : List PropKey} {k : PropKey}
      (space : P.moduleNamespace m h = (.ok ns, h₁)) (object : P.newObject h₁ = (.ok x, h₂))
      (names : P.ownPropertyNames ns h₂ = (.ok atoms, h₃)) (tried : (k, h₄) ∈ P.copyTries ns x atoms h₃)
      (copy : P.getProperty ns k h₄ = (.error e, h') ∨
        ∃ v h₅, P.getProperty ns k h₄ = (.ok v, h₅) ∧ P.defineProperty x k v h₅ = (.error e, h'))

theorem exports_error_iff {m : Nat} {h h' : P.Heap} {e : JSVal} :
    P.exports m h = (.error e, h') ↔ ExportsThrow P m h e h' := by
  constructor
  · intro hrun
    simp only [Platform.exports, Platform.snapshot, EngineM.andThen] at hrun
    rcases hspace : P.moduleNamespace m h with ⟨y | ns, h₁⟩ <;> simp only [hspace] at hrun
    · cases hrun
      exact .space hspace
    rcases hobject : P.newObject h₁ with ⟨y | x, h₂⟩ <;> simp only [hobject] at hrun
    · cases hrun
      exact .object hspace hobject
    rcases hnames : P.ownPropertyNames ns h₂ with ⟨y | atoms, h₃⟩ <;> simp only [hnames] at hrun
    · cases hrun
      exact .names hspace hobject hnames
    obtain ⟨⟨k, h₄⟩, htried, hcopy⟩ := (Platform.copyProperties_error_iff atoms).mp hrun
    exact .copy hspace hobject hnames htried hcopy
  · intro hthrow
    unfold Platform.exports Platform.snapshot EngineM.andThen
    cases hthrow with
    | space hspace => simp only [hspace]
    | object hspace hobject => simp only [hspace, hobject]
    | names hspace hobject hnames => simp only [hspace, hobject, hnames]
    | copy hspace hobject hnames htried hcopy =>
      simp only [hspace, hobject, hnames]
      exact (Platform.copyProperties_error_iff _).mpr ⟨_, htried, hcopy⟩

/-- The text that `copy_string` keeps of a message, if it has memory. -/
def Platform.keptText (P : Platform) (message : Option CStr) (host : P.Host) : Option CStr :=
  if (P.malloc host).1 then some (message.getD (utf8 "unknown QuickJS error")).text else none

theorem setError_error (l : Loc P) (message : Option CStr) :
    (l.setError message).error = P.keptText message l.host := rfl

/-- The exports of `m` are refused, and `text` is kept of that: an engine call throws, or each of them
returns and there is no memory for the handle. -/
inductive ExportsRefused (P : Platform) (host : P.Host) (m : Nat) (h : P.Heap) (text : Option CStr) :
    Prop where
  | thrown {e : JSVal} {h' : P.Heap} (throws : ExportsThrow P m h e h')
      (kept : text = P.keptText (P.toCString e h').1.toOption host)
  | full (returns : ∀ e h', ¬ ExportsThrow P m h e h') (full : (P.malloc host).1 = false)
      (kept : text = P.keptText (utf8 "failed to allocate JavaScript value handle") (P.malloc host).2)

/-- The local state after the exports of `m` were read in the heap `h`. -/
def Loc.afterExports (l : Loc P) (host : P.Host) (m : Nat) (h : P.Heap) : Loc P :=
  { l.clearError with host }.after (P.exports m h)

/-- The object of the exports. -/
def Platform.exported (P : Platform) (m : Nat) (h : P.Heap) : Option JSVal := (P.exports m h).1.toOption

/-- No handle is delivered exactly if the exports are refused, and their text is the error. -/
theorem exportsRefused_iff {host : P.Host} {m : Nat} {h : P.Heap} {text : Option CStr} :
    ExportsRefused P host m h text ↔ (l.afterExports host m h).delivers (P.exported m h) = false ∧
      text = ((l.afterExports host m h).lost (P.exported m h)).error := by
  rcases hrun : P.exports m h with ⟨e | x, h'⟩
  · have hthrow := exports_error_iff.mp hrun
    have herror : ((l.afterExports host m h).lost (P.exported m h)).error =
        P.keptText (P.toCString e h').1.toOption host := by
      have hnone : P.exported m h = none := by rw [Platform.exported, hrun]; rfl
      rw [hnone]
      simp only [Loc.afterExports, hrun, Loc.after_error, Loc.lost, Loc.capture, Option.getD_some,
        setError_error, Loc.after_host]
    have hdelivers : (l.afterExports host m h).delivers (P.exported m h) = false := by
      simp only [Platform.exported, hrun]
      rfl
    rw [herror]
    constructor
    · rintro (⟨hthrow', hkept⟩ | ⟨hno, -, -⟩)
      · cases hrun.symm.trans (exports_error_iff.mpr hthrow')
        exact ⟨hdelivers, hkept⟩
      · exact absurd hthrow (hno e h')
    · rintro ⟨-, hkept⟩
      exact .thrown hthrow hkept
  · have hno : ∀ e h', ¬ ExportsThrow P m h e h' := fun e h' hthrow => by
      cases hrun.symm.trans (exports_error_iff.mpr hthrow)
    have hdelivers : (l.afterExports host m h).delivers (P.exported m h) = (P.malloc host).1 := by
      simp [Loc.afterExports, Platform.exported, hrun, Loc.delivers, Except.toOption]
    have herror : ((l.afterExports host m h).lost (P.exported m h)).error =
        P.keptText (utf8 "failed to allocate JavaScript value handle") (P.malloc host).2 := by
      simp only [Loc.afterExports, Platform.exported, hrun, Loc.after_ok, Except.toOption, Loc.lost]
      exact setError_error _ _
    rw [hdelivers, herror]
    constructor
    · rintro (⟨hthrow, -⟩ | ⟨-, hfull, hkept⟩)
      · exact absurd hthrow (hno _ _)
      · exact ⟨hfull, hkept⟩
    · rintro ⟨hfull, hkept⟩
      exact .full hno hfull hkept

/-- The text in `last_error`. -/
def World.lastError (w : World P) (r : Nat) : Option CStr :=
  ((w.runtimes r).bind (·.lastError)).map (·.bytes)

theorem Run.lastError {w : World P} (h : Run r b l L w) : w.lastError r = l.error := by
  obtain ⟨e, he, hw⟩ := h
  rw [World.lastError, hw.cell]
  exact he

section Import

variable {s : Store P} {path : CStr} {host : P.Host} {m : Nat} {promise : JSVal} {h : P.Heap}

theorem jsRuntimeImportModule_at {source : List UInt8}
    (hread : P.readFile path l.host = (some source, host))
    (he : Evaluates P source path l.moduleLoader l.heap m promise h) :
    Triple (Run r b l L) (jsRuntimeImportModule (some r) (some path))
      (Answer r b L (P.exported m h) (l.afterExports host m h)) := by
  have hspec := jsRuntimeImportModule_spec (r := r) (b := b) (l := l) (L := L) path
  rw [hread] at hspec
  simp only [he.importModule] at hspec
  exact hspec

/-- How the import ends: with a handle, or with `NULL` and the text of the refusal. -/
theorem ImportSite.imported (hsite : ImportSite r s l path host m promise h) :
    ∃ p w, (jsRuntimeImportModule (some r) (some path)).run s.world = .ok (p, w) ∧
      ((p ≠ none ∧ ∀ text, ¬ ExportsRefused P host m h text) ∨
        p = none ∧ ∀ text, ExportsRefused P host m h text ↔ text = w.lastError r) := by
  obtain ⟨⟨L, hs⟩, source, hread, he⟩ := hsite
  obtain ⟨p, w, hrun, ha⟩ := jsRuntimeImportModule_at hread he s.world hs
  refine ⟨p, w, hrun, ?_⟩
  obtain ⟨x, -, hd, rfl, -⟩ | ⟨hd, rfl, hw⟩ := ha.cases
  · exact .inl ⟨by simp, fun text hrefused => by simp [(exportsRefused_iff (l := l)).mp hrefused] at hd⟩
  · refine .inr ⟨rfl, fun text => ?_⟩
    rw [exportsRefused_iff (l := l), hw.lastError]
    exact and_iff_right hd

/-- `getModule` returns exactly when nothing is refused. -/
theorem ImportSite.getModule {name : String}
    (hsite : ImportSite r s l (mallocCString name) host m promise h) :
    ∃ res s', (JSRuntime.getModule (some r) name).exec.run s = .ok (res, s') ∧
      ((∃ payload, res = .ok payload) ↔ ∀ text, ¬ ExportsRefused P host m h text) := by
  obtain ⟨⟨L, hs⟩, source, hread, he⟩ := hsite
  have hspec : Runs (On r s.world l L) (JSRuntime.getModule (some r) name)
      (fun _ _ => ∀ text, ¬ ExportsRefused P host m h text)
      (fun _ _ => ∃ text, ExportsRefused P host m h text) := by
    refine Runs.call (jsRuntimeImportModule_at hread he) fun p => ?_
    intro s₁ hs₁
    obtain ⟨x, -, hd, rfl, -⟩ | ⟨hd, rfl, hw⟩ := hs₁.cases
    · have hno : ∀ text, ¬ ExportsRefused P host m h text := fun text hrefused => by
        simp [(exportsRefused_iff (l := l)).mp hrefused] at hd
      exact (jsExtern_spec (I := fun _ => ∀ text, ¬ ExportsRefused P host m h text) _ fun _ _ h => h).post
        (fun _ _ ⟨_, _, _, h⟩ => h) (fun _ _ h => h) s₁ hno
    · exact throwRuntimeError_spec.post (fun _ _ h => h)
        (fun _ _ _ => ⟨_, (exportsRefused_iff (l := l)).mpr ⟨hd, rfl⟩⟩) s₁ hw
  obtain ⟨res, s', hrun, ⟨payload, rfl, hg⟩ | ⟨e, rfl, text, hg⟩⟩ := hspec.run hs
  · exact ⟨_, s', hrun, by simp [hg]⟩
  · exact ⟨_, s', hrun, iff_of_false (by simp) fun hno => hno text hg⟩

/-- What an import says of a module whose evaluation went to `st`, in the heap `h`: a module that threw
gives `NULL` with the text of its error, and one that waits gives `NULL`. -/
def ImportHonest (P : Platform) (r : Nat) (st : PromiseState) (h : P.Heap) (p : Ptr) (w : World P) :
    Prop :=
  match st with
  | .fulfilled => True
  | .pending => p = none
  | .rejected e => p = none ∧ ∃ text, (P.toCString e h).1 = .ok text ∧ w.lastError r = some text

/-- `getModule` throws for a module that threw or waits. -/
def GetHonest (st : PromiseState) (res : Except Exn Payload) : Prop :=
  (∃ payload, res = .ok payload) → st = .fulfilled

/-- A failed module is refused exactly when the engine and the C library refuse its exports, and the text
kept of that is the text of its error. -/
theorem getModule_honest_iff (state : JSVal → P.Heap → PromiseState)
    (hsite : ImportSite r s l path host m promise h) :
    ∃ p w, (jsRuntimeImportModule (some r) (some path)).run s.world = .ok (p, w) ∧
      ((ImportHonest P r (state promise h) h p w ∧ ∀ name, path = mallocCString name →
          ∃ res s', (JSRuntime.getModule (some r) name).exec.run s = .ok (res, s') ∧
            GetHonest (state promise h) res) ↔
        match state promise h with
        | .fulfilled => True
        | .pending => ∃ text, ExportsRefused P host m h text
        | .rejected e => ∃ text, (P.toCString e h).1 = .ok text ∧
            ExportsRefused P host m h (some text)) := by
  obtain ⟨p, w, hrun, himport⟩ := hsite.imported
  refine ⟨p, w, hrun, ?_⟩
  -- `getModule` follows the import, whatever the promise says
  have hget : ∀ name, path = mallocCString name → (state promise h = .fulfilled ∨
      ∃ text, ExportsRefused P host m h text) → ∃ res s',
      (JSRuntime.getModule (some r) name).exec.run s = .ok (res, s') ∧
        GetHonest (state promise h) res := by
    rintro name rfl hst
    obtain ⟨res, s', hrun, hres⟩ := hsite.getModule
    refine ⟨res, s', hrun, fun hok => hst.resolve_right ?_⟩
    rintro ⟨text, hrefused⟩
    exact hres.mp hok text hrefused
  cases hst : state promise h with
  | fulfilled =>
    rw [hst] at hget
    exact ⟨fun _ => trivial, fun _ => ⟨trivial, fun name hname => hget name hname (.inl rfl)⟩⟩
  | pending =>
    rw [hst] at hget
    constructor
    · rintro ⟨hnone, -⟩
      obtain ⟨hp, -⟩ | ⟨-, htext⟩ := himport
      · exact absurd hnone hp
      · exact ⟨_, (htext _).mpr rfl⟩
    · rintro ⟨text, hrefused⟩
      obtain ⟨-, hno⟩ | ⟨hnone, -⟩ := himport
      · exact absurd hrefused (hno text)
      · exact ⟨hnone, fun name hname => hget name hname (.inr ⟨text, hrefused⟩)⟩
  | rejected e =>
    rw [hst] at hget
    constructor
    · rintro ⟨⟨hnone, text, htext, hlast⟩, -⟩
      obtain ⟨hp, -⟩ | ⟨-, hrefused⟩ := himport
      · exact absurd hnone hp
      · exact ⟨text, htext, (hrefused _).mpr hlast.symm⟩
    · rintro ⟨text, htext, hrefused⟩
      obtain ⟨-, hno⟩ | ⟨hnone, hlast⟩ := himport
      · exact absurd hrefused (hno _)
      · exact ⟨⟨hnone, text, htext, ((hlast _).mp hrefused).symm⟩,
          fun name hname => hget name hname (.inr ⟨_, hrefused⟩)⟩

end Import

/-- A platform with one file, a module that ends by `throw "x"` after its exports were initialised:
the promise is object 1, the namespace object 2. -/
def Platform.throwing (source : List UInt8) : Platform :=
  { Platform.idle Unit () with
    fopen := fun _ h => (true, h)
    ftell := fun h => (source.length, h)
    fread := fun _ h => (source, h)
    compileModule := fun _ _ _ h => (.ok 0, h)
    resolveModule := fun _ _ h => (.ok (), h)
    evalFunction := fun _ h => (.ok (.object 1), h)
    moduleNamespace := fun _ h => (.ok (.object 2), h)
    newObject := fun h => (.ok (.object 3), h)
    ownPropertyNames := fun _ h => (.ok [[0x61]], h)
    getProperty := fun _ _ h => (.ok (.number (.finite 1)), h)
    defineProperty := fun _ _ _ h => (.ok true, h) }

/-- The promises of `Platform.throwing`. -/
def throwingState (source : List UInt8) (_ : JSVal) (_ : (Platform.throwing source).Heap) :
    PromiseState := .rejected (.string [0x78])

/-- `export let a = 1; throw "x"`. -/
def throwingSource : List UInt8 := utf8 "export let a = 1; throw \"x\""

theorem throwing_importSite (source : List UInt8) (path : CStr) :
    ImportSite (P := .throwing source) 0 (Store.sample _ () () .undefined) (Loc.sample () ()) path () 0
      (.object 1) () := by
  refine ⟨⟨_, sample_on _ _ _ _⟩, source, ?_, (), (), rfl, rfl, rfl⟩
  simp [Platform.readFile, Platform.throwing, Platform.idle]

theorem throwing_delivered (source : List UInt8) (text : Option CStr) :
    ¬ ExportsRefused (.throwing source) () 0 () text := by
  intro hrefused
  obtain ⟨hd, -⟩ := (exportsRefused_iff (l := (Loc.sample () () : Loc (.throwing source)))).mp hrefused
  cases hd

theorem getModule_honest_iff_throwing : ∃ p w,
    (jsRuntimeImportModule (some 0) (some (utf8 "m.js"))).run
      (Store.sample (.throwing throwingSource) () () .undefined).world = .ok (p, w) ∧
    ¬ (ImportHonest _ 0 (.rejected (.string [0x78])) () p w ∧ ∀ name,
      utf8 "m.js" = mallocCString name → ∃ res s', (JSRuntime.getModule (some 0) name).exec.run
        (Store.sample (.throwing throwingSource) () () .undefined) = .ok (res, s') ∧
        GetHonest (.rejected (.string [0x78])) res) := by
  obtain ⟨p, w, hrun, hiff⟩ := getModule_honest_iff (throwingState throwingSource)
    (throwing_importSite throwingSource (utf8 "m.js"))
  refine ⟨p, w, hrun, fun hh => ?_⟩
  obtain ⟨text, -, hrefused⟩ := hiff.mp hh
  exact throwing_delivered _ _ hrefused

/-- A module that threw after its exports were initialised is delivered. -/
theorem getModule_not_honest : ¬ ∀ (P : Platform) (state : JSVal → P.Heap → PromiseState) (r : Nat)
    (s : Store P) (l : Loc P) (path : CStr) (host : P.Host) (m : Nat) (promise : JSVal) (h : P.Heap),
    ImportSite r s l path host m promise h → ∀ p w,
    (jsRuntimeImportModule (some r) (some path)).run s.world = .ok (p, w) →
    ImportHonest P r (state promise h) h p w := by
  intro hall
  have hsite := throwing_importSite throwingSource (utf8 "m.js")
  obtain ⟨p, w, hrun, ⟨hp, -⟩ | ⟨-, hrefused⟩⟩ := hsite.imported
  · obtain ⟨hnone, -⟩ := hall _ (throwingState throwingSource) _ _ _ _ _ _ _ _ hsite _ _ hrun
    exact hp hnone
  · exact throwing_delivered _ _ ((hrefused _).mpr rfl)

end InteropJs
