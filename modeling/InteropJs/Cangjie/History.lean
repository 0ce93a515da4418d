import InteropJs.Bridge.Runs
import InteropJs.Cangjie.Spec

/-!
# Histories of a program

The states that a Cangjie program reaches with one runtime: it creates the runtime, runs public
operations in any order, and finalisers destroy handles between them.

* `Ran` is a run of a function in which every call of the bridge keeps to the contract
  (`Client.Allows`); `Ran.steps` says that it is a run of the bridge.
* `History` are the reached states. `History.on` gives the local state of the runtime there, so that
  what the specs say holds in every one of them.
-/

namespace InteropJs

variable {P : Platform} {r : Nat} {c : Client} {s : Store P} {l : Loc P}

/-- A run of a function, with what the client holds (module doc). -/
inductive Ran {α : Type} : Prog α → Client × Store P → Except Exn α → Client × Store P → Prop where
  | ret {a : α} {x : Client × Store P} : Ran (.ret a) x (.ok a) x
  | raise {e : Exn} {x : Client × Store P} : Ran (.raise e) x (.error e) x
  | alloc {h : Ptr} {k : JSValueRef → Prog α} {c : Client} {s : Store P} {res : Except Exn α}
      {y : Client × Store P} (rest : Ran (k ⟨s.nextRef, h⟩) (c, { s with nextRef := s.nextRef + 1 }) res y) :
      Ran (.alloc h k) (c, s) res y
  | touch {rs : List JSValueRef} {k : Prog α} {x y : Client × Store P} {res : Except Exn α}
      (rest : Ran k x res y) : Ran (.touch rs k) x res y
  | native {β : Type} {rs : List JSValueRef} {call : Call β} {k : β → Prog α} {c : Client} {s : Store P}
      {r : Nat} {x : β} {w : World P} {res : Except Exn α} {y : Client × Store P}
      (allowed : c.Allows r call) (ran : call.run.run s.world = .ok (x, w))
      (rest : Ran (k x) (c.after r call x, { s with world := w }) res y) :
      Ran (.native rs call k) (c, s) res y

theorem Ran.steps {α : Type} {p : Prog α} {x y : Client × Store P} {res : Except Exn α}
    (h : Ran p x res y) : Relation.ReflTransGen Step (x.1, x.2.world) (y.1, y.2.world) := by
  induction h with
  | ret => exact .refl
  | raise => exact .refl
  | alloc _ ih => exact ih
  | touch _ ih => exact ih
  | native allowed ran _ ih => exact .head (.call _ allowed ran) ih

/-- The states that a program reaches with the runtime `r` (module doc). -/
inductive History (r : Nat) : Client × Store P → Prop where
  | create {host : P.Host} {n : Nat} {y : Client × Store P}
      (ran : Ran createRuntime (Client.start, ⟨World.start host, n⟩) (.ok (some r)) y) : History r y
  | op {x y : Client × Store P} (op : Op) {res : Except Exn op.Out} (before : History r x)
      (ran : Ran (op.prog (some r)) x res y) : History r y
  | finalise {c : Client} {s : Store P} {p r' : Nat} {w : World P} (before : History r (c, s))
      (live : (p, r') ∈ c.live) (ran : (Call.valueDestroy (some p)).run.run s.world = .ok ((), w)) :
      History r (c.after r' (.valueDestroy (some p)) (), { s with world := w })
  | reclaim {c : Client} {s : Store P} {r' : Nat} {l : Loc P} (before : History r (c, s))
      (open_ : s.world.loc? r' = some l) (heap : P.Heap) (host : P.Host) :
      History r (c, { s with world := s.world.reclaimed r' heap host })

theorem History.reach {x : Client × Store P} (h : History r x) : Reach x.1 x.2.world := by
  induction h with
  | create ran => exact ⟨_, ran.steps⟩
  | op op _ ran ih =>
    obtain ⟨host, hr⟩ := ih
    exact ⟨host, hr.trans ran.steps⟩
  | @finalise c s p r' w _ live ran ih =>
    have allowed : c.Allows r' (.valueDestroy (some p)) := .inr ⟨p, rfl, live⟩
    exact ih.call _ allowed ran
  | reclaim _ open_ heap host ih => exact ih.reclaim open_ heap host

/-- The local state of the runtime in a reached state. -/
theorem History.on (h : History r (c, s)) (hl : s.world.loc? r = some l) :
    ∃ L, On r s.world l L s :=
  ⟨_, h.reach.inv.run_of_loc hl⟩

/-- `createRuntime` in the first state. -/
theorem Ran.created (host : P.Host) {w : World P}
    (h : Call.runtimeCreate.run.run (World.start host) = .ok (some r, w)) :
    Ran createRuntime (Client.start, (⟨World.start host, 0⟩ : Store P)) (.ok (some r))
      (Client.start.after 0 .runtimeCreate (some r), ⟨w, 0⟩) := by
  have hret : Ran (.ret (some r)) (Client.start.after 0 .runtimeCreate (some r), (⟨w, 0⟩ : Store P))
      (.ok (some r)) (Client.start.after 0 .runtimeCreate (some r), ⟨w, 0⟩) := .ret
  refine Ran.native (r := 0) (x := some r) (w := w) ?_ ?_ hret
  · trivial
  · exact h

/-- The history up to the first operation. -/
theorem History.created (host : P.Host) {w : World P}
    (h : Call.runtimeCreate.run.run (World.start host) = .ok (some r, w)) :
    History r (Client.start.after 0 .runtimeCreate (some r), ⟨w, 0⟩) := .create (Ran.created host h)

end InteropJs
