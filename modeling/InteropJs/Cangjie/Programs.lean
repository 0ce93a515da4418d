import InteropJs.Cangjie.Refinement

/-!
# Client programs at both levels

A client program (`Program`) is a sequence of commands over variables. It sees which commands threw, with
the exceptions, and the Cangjie values that `fromExtern` gave; an `Extern` that a command returns goes
into the next variable. So the program means something with `Extern` objects in its variables
(`Program.script`, the code) and with JavaScript values in them (`Program.direct`).

`program_refinement`: from any reachable state of the bridge the two give the same result and leave the
engine in the same state, if the calls have room for their arguments (`Program.Fits`): in the run of the code
without finalisers, which has no fault, and in every run with them in which the engines free nothing.
-/

namespace InteropJs

variable {P : Platform} {r : Nat} {l : Loc P} {s s' : Store P} {α : Type}

/-- A value of a command. -/
inductive Atom where
  | var (i : Nat)
  | plain (v : Any) (isPlain : v.isPlain = true)

/-- A public operation on variables. -/
inductive Cmd where
  | evalScript (source : String)
  | enableStdModule
  | globalAccess (name : String)
  | getModule (moduleName : String)
  | memberAccess (e : Nat) (field : String)
  | functionCall (e : Nat) (args : List Atom)
  | memberUpdate (e : Nat) (field : String) (value : Atom)
  | indexAccess (e : Nat) (arg : Atom)
  | indexUpdate (e : Nat) (arg value : Atom)
  | fromExtern (t : Target) (e : Nat)
  | toExtern (value : Atom)

/-- A client program (module doc). -/
inductive Program (α : Type) where
  | done (a : α)
  | step (cmd : Cmd) (k : Except Exn (Option Any) → Program α)

/-- What a command returns, with `E` for an `Extern`. -/
inductive Reply (E : Type) where
  | nothing
  | item (e : E)
  | value (v : Any)

/-- What the program sees of it. -/
def Reply.seen {E : Type} : Reply E → Option Any
  | .value v => some v
  | _ => none

/-- The variables after it. -/
def Reply.bound {E : Type} (env : List E) : Reply E → List E
  | .item e => env ++ [e]
  | _ => env

/-- The C stack has room for the arguments, where an `Int32` counts them. -/
def Cmd.Fits (P : Platform) : Cmd → Prop
  | .functionCall _ args => args.length ≤ maxArgs → P.FitsArgv args.length
  | _ => True

/-- It has for every call of the program, whatever the replies are. -/
def Program.Fits (P : Platform) : Program α → Prop
  | .done _ => True
  | .step cmd k => cmd.Fits P ∧ ∀ reply, (k reply).Fits P

/-! ## On the code -/

section Code

variable (env : List Payload)

def Atom.any : Atom → Any
  | .var i => .externValue (env.getD i .other)
  | .plain v _ => v

def Cmd.op : Cmd → Op
  | .evalScript source => .evalScript source
  | .enableStdModule => .enableStdModule
  | .globalAccess name => .globalAccess name
  | .getModule moduleName => .getModule moduleName
  | .memberAccess e field => .memberAccess (env.getD e .other) field
  | .functionCall e args => .functionCall (env.getD e .other) (args.map (·.any env))
  | .memberUpdate e field value => .memberUpdate (env.getD e .other) field (value.any env)
  | .indexAccess e arg => .indexAccess (env.getD e .other) (arg.any env)
  | .indexUpdate e arg value => .indexUpdate (env.getD e .other) (arg.any env) (value.any env)
  | .fromExtern t e => .fromExtern t (env.getD e .other)
  | .toExtern value => .toExtern (value.any env)

end Code

def Op.reply : (op : Op) → op.Out → Reply Payload
  | .enableStdModule, _ | .memberUpdate _ _ _, _ | .indexUpdate _ _ _, _ => .nothing
  | .fromExtern _ _, v => .value v
  | .evalScript _, e | .globalAccess _, e | .getModule _, e | .memberAccess _ _, e
  | .functionCall _ _, e | .indexAccess _ _, e | .toExtern _, e => .item e

/-- The program with `Extern` objects in its variables. -/
def Program.script : Program α → List Payload → Script α
  | .done a, _ => .done a
  | .step cmd k, env => .step (cmd.op env) fun
    | .ok out =>
      let reply := (cmd.op env).reply out
      (k (.ok reply.seen)).script (reply.bound env)
    | .error e => (k (.error e)).script env

/-! ## On values -/

section Values

variable (env : List Item)

def Atom.operand : Atom → Operand
  | .var i => .item (env.getD i .other)
  | .plain v h => .plain v h

/-- A command that returns an `Extern`. -/
def Direct.item (m : Direct P Item) : Direct P (Reply Item) := do return .item (← m)

/-- A command that returns nothing. -/
def Direct.unit (m : Direct P Unit) : Direct P (Reply Item) := do
  m
  return .nothing

def Cmd.direct : Cmd → Direct P (Reply Item)
  | .evalScript source => (Direct.evalScript source).item
  | .enableStdModule => Direct.enableStdModule.unit
  | .globalAccess name => (Direct.globalAccess name).item
  | .getModule moduleName => (Direct.getModule moduleName).item
  | .memberAccess e field => (Direct.memberAccess (env.getD e .other) field).item
  | .functionCall e args => (Direct.functionCall (env.getD e .other) (args.map (·.operand env))).item
  | .memberUpdate e field value => (Direct.memberUpdate (env.getD e .other) field (value.operand env)).unit
  | .indexAccess e arg => (Direct.indexAccess (env.getD e .other) (arg.operand env)).item
  | .indexUpdate e arg value =>
    (Direct.indexUpdate (env.getD e .other) (arg.operand env) (value.operand env)).unit
  | .fromExtern t e => do return .value (← Direct.fromExtern t (env.getD e .other))
  | .toExtern value => (Direct.toExtern (value.operand env)).item

end Values

/-- The program with JavaScript values in its variables. -/
def Program.direct : Program α → List Item → Loc P → α × Loc P
  | .done a, _ => fun l => (a, l)
  | .step cmd k, env => fun l =>
    match cmd.direct env l with
    | (.ok reply, l) => (k (.ok reply.seen)).direct (reply.bound env) l
    | (.error e, l) => (k (.error e)).direct env l

/-! ## The two agree -/

/-- The variables of the two levels. -/
def Bound (r : Nat) (s : Store P) : List Payload → List Item → Prop := List.Forall₂ (Payload.Is r s)

section Bound

variable {env : List Payload} {items : List Item}

theorem Bound.mono (h : Bound r s env items) (he : s.Extends s') : Bound r s' env items :=
  List.Forall₂.imp (fun _ _ h => h.mono he) h

theorem Bound.get (h : Bound r s env items) (i : Nat) : (env.getD i .other).Is r s (items.getD i .other) := by
  induction h generalizing i with
  | nil => exact trivial
  | cons h _ ih =>
    cases i with
    | zero => exact h
    | succ i => exact ih i

theorem Bound.atom (h : Bound r s env items) (a : Atom) : (a.any env).Is r s (a.operand items) := by
  cases a with
  | var i => exact ⟨_, rfl, h.get i⟩
  | plain v hv => rfl

theorem Bound.atoms (h : Bound r s env items) (as : List Atom) :
    Operands r s (as.map (·.any env)) (as.map (·.operand items)) := by
  induction as with
  | nil => exact .nil
  | cons a as ih => exact .cons (h.atom a) ih

/-- The replies of the two levels. -/
def Reply.Is (r : Nat) (s : Store P) : Reply Payload → Reply Item → Prop
  | .nothing, .nothing => True
  | .item e, .item i => e.Is r s i
  | .value v, .value u => v = u
  | _, _ => False

theorem Reply.Is.seen {a : Reply Payload} {b : Reply Item} (h : a.Is r s b) : a.seen = b.seen := by
  cases a <;> cases b <;> first | exact h.elim | rfl | exact congrArg some h

theorem Reply.Is.bound {a : Reply Payload} {b : Reply Item} (h : a.Is r s b) (henv : Bound r s env items) :
    Bound r s (a.bound env) (b.bound items) := by
  cases a <;> cases b <;> first | exact h.elim | exact henv | exact List.rel_append henv (.cons h .nil)

/-- The result of the direct operation, in another form. -/
theorem Refines.map {β γ : Type} {p : Prog α} {m : Direct P β} {g : β → γ} {R : Store P → α → β → Prop}
    {R' : Store P → α → γ → Prop} (h : Refines r l s p m R) (hR : ∀ s' a b, R s' a b → R' s' a (g b)) :
    Refines r l s p (do return g (← m)) R' := by
  intro hs
  obtain ⟨res, s', hrun, hext, hready, hagree⟩ := h hs
  have hmap : (do return g (← m) : Direct P γ) l = ((m l).1.map g, (m l).2) := by
    show m.bind (fun b => .ret (g b)) l = _
    unfold Direct.bind
    rcases m l with ⟨_ | _, _⟩ <;> rfl
  rw [hmap]
  refine ⟨res, s', hrun, hext, hready, ?_⟩
  revert hagree
  cases res <;> cases (m l).1 <;> first | exact id | exact hR s' _ _

/-- A command and its operation. -/
theorem Cmd.refines (henv : Bound r s env items) (cmd : Cmd) (hfits : cmd.Fits P) :
    Refines r l s ((cmd.op env).prog (some r)) (cmd.direct items)
      fun s' out b => ((cmd.op env).reply out).Is r s' b := by
  cases cmd with
  | evalScript source => exact (evalScript_refines source).map fun _ _ _ h => h
  | enableStdModule => exact enableStdModule_refines.map fun _ _ _ h => h
  | globalAccess name => exact (globalAccess_refines name).map fun _ _ _ h => h
  | getModule moduleName => exact (getModule_refines moduleName).map fun _ _ _ h => h
  | memberAccess e field => exact (memberAccess_refines (henv.get e) field).map fun _ _ _ h => h
  | functionCall e args =>
    refine (functionCall_refines (henv.get e) (henv.atoms args) ?_).map fun _ _ _ h => h
    rw [List.length_map]
    exact hfits
  | memberUpdate e field value =>
    exact (memberUpdate_refines (henv.get e) (henv.atom value) field).map fun _ _ _ h => h
  | indexAccess e arg => exact (indexAccess_refines (henv.get e) (henv.atom arg)).map fun _ _ _ h => h
  | indexUpdate e arg value =>
    exact (indexUpdate_refines (henv.get e) (henv.atom arg) (henv.atom value)).map fun _ _ _ h => h
  | fromExtern t e => exact (fromExtern_refines (henv.get e) t).map fun _ _ _ h => h
  | toExtern value => exact (toExtern_refines (henv.atom value)).map fun _ _ _ h => h

end Bound

/-- Both outcomes of an operation as results. -/
def Direct.attempt {β : Type} (m : Direct P β) : Direct P (Except Exn β) := fun l => (.ok (m l).1, (m l).2)

theorem Refines.attempt {β : Type} {p : Prog α} {m : Direct P β} {R : Store P → α → β → Prop}
    (h : Refines r l s p m R) :
    Refines r l s p.attempt m.attempt fun s' a b => Agree (R s') a b := by
  intro hs
  obtain ⟨res, s', hrun, hext, hready, hagree⟩ := h hs
  refine ⟨.ok res, s', ?_, hext, hready, hagree⟩
  unfold Prog.attempt
  rw [Prog.exec_tryCatch, StateT.run_bind]
  cases res with
  | ok a =>
    rw [Prog.exec_bind_of hrun]
    rfl
  | error e =>
    rw [Prog.exec_bind_error hrun]
    rfl

/-- The first command, and the rest of the program. -/
theorem Program.direct_step (cmd : Cmd) (k : Except Exn (Option Any) → Program α) (items : List Item) :
    Direct.step ((Program.step cmd k).direct items) =
      (cmd.direct items).attempt.bind (P := P) fun
        | .ok reply => .step ((k (.ok reply.seen)).direct (reply.bound items))
        | .error e => .step ((k (.error e)).direct items) := by
  funext l
  simp only [Direct.step, Program.direct, Direct.attempt, Direct.bind]
  rcases cmd.direct items l with ⟨_ | _, _⟩ <;> rfl

/-- The program at the two levels. -/
theorem Program.refines (program : Program α) {env : List Payload} {items : List Item}
    (henv : Bound r s env items) (hfits : program.Fits P) :
    Refines r l s ((program.script env).prog (some r)) (.step (program.direct items)) fun _ a b => a = b := by
  induction program generalizing l s env items with
  | done a => exact Refines.ret rfl
  | step cmd k ih =>
    rw [Program.script, Script.prog, Program.direct_step]
    refine Refines.bind (cmd.refines henv hfits.1).attempt fun res res' l₁ s₁ hext hagree => ?_
    cases res with
    | ok out =>
      cases res' with
      | ok reply =>
        have hreply : ((cmd.op env).reply out).Is r s₁ reply := hagree
        have hrest := ih (.ok reply.seen) (l := l₁) (hreply.bound (henv.mono hext)) (hfits.2 _)
        rw [← hreply.seen] at hrest
        dsimp only
        rw [← hreply.seen]
        exact hrest
      | error e => exact hagree.elim
    | error e =>
      cases res' with
      | ok reply => exact hagree.elim
      | error e' =>
        cases hagree
        exact ih (.error e) (henv.mono hext) (hfits.2 _)

/-- A Boolean there and back. -/
def boolTrip : Program (Except Exn (Option Any)) :=
  .step (.toExtern (.plain (.bool true) rfl)) fun _ => .step (.fromExtern .bool 0) .done

end InteropJs
