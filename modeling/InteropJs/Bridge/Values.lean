import InteropJs.Bridge.Exports

/-!
# Specs of the functions of a value

The `js_value_` functions take any handles: live ones of any runtime, or `NULL`. `World.valueOf`,
`thisOf` and `argvOf` are their checks as functions of the world, and `Checked` is how a function
ends that checks first.
-/

namespace InteropJs

open Hoare

variable {P : Platform} {r : Nat} {b w : World P} {l : Loc P} {L : Multiset Resource}

/-! ## Handles as arguments -/

/-- The live handle `p` of runtime `r` denotes `x`. -/
def World.Holds (b : World P) (p r : Nat) (x : JSVal) : Prop :=
  ∃ t, b.values p = some ⟨some r, .ref x t⟩

/-- A pointer that a client may pass: `NULL` or a live handle, of any runtime. -/
def World.NullOrLive (b : World P) (p : Ptr) : Prop :=
  ∀ q, p = some q → ∃ r x, b.Holds q r x

/-- The value of a handle, if it belongs to `r`. -/
def World.valueOf (b : World P) (r : Nat) (p : Ptr) : Option JSVal :=
  match p.bind b.values with
  | some ⟨some r', .ref x _⟩ => if r' = r then some x else none
  | _ => none

theorem World.Holds.valueOf {p r : Nat} {x : JSVal} (h : b.Holds p r x) :
    b.valueOf r (some p) = some x := by
  obtain ⟨t, ht⟩ := h
  simp [World.valueOf, ht]

theorem isForeign_spec {p : Ptr} (hp : b.NullOrLive p) :
    Triple (Run r b l L) (isForeign p (some r))
      (fun f w => f = (b.valueOf r p).isNone ∧ Run r b l L w) := by
  unfold isForeign
  cases p with
  | none => exact (Triple.ret _).pre fun w hw => ⟨rfl, hw⟩
  | some q =>
    obtain ⟨r', x, t, ht⟩ := hp q rfl
    rw [if_neg (by simp)]
    refine Triple.bind (readValue_spec ht) fun h => Triple.lift fun hh => ?_
    subst hh
    refine (Triple.ret _).pre fun w hw => ⟨?_, hw⟩
    by_cases hr : r' = r <;> simp [World.valueOf, ht, hr]

/-- A handle that `isForeign` let through. -/
theorem World.NullOrLive.holds {p : Ptr} {x : JSVal} (hp : b.NullOrLive p)
    (hx : b.valueOf r p = some x) : ∃ q, p = some q ∧ b.Holds q r x := by
  cases p with
  | none => cases hx
  | some q =>
    obtain ⟨r', y, t, ht⟩ := hp q rfl
    simp only [World.valueOf, Option.bind_some, ht] at hx
    split at hx
    · next h => cases hx; exact ⟨q, rfl, t, h ▸ ht⟩
    · cases hx

/-- The argument vector that `fill_argv` builds, or its error. -/
def World.argvOf (b : World P) (r : Nat) (args : Option (List Ptr)) (numArgs : Int) :
    Except CStr (List JSVal) :=
  if numArgs < 0 then .error (utf8 "argument count must not be negative")
  else if 0 < numArgs ∧ args.isNone then .error (utf8 "argument array must not be null")
  else
    match ((args.getD []).take numArgs.toNat).mapM (b.valueOf r) with
    | none => .error (utf8 "argument does not belong to this runtime")
    | some argv => .ok argv

/-- `js_value_call` takes `undefined` for a missing receiver. -/
def World.thisOf (b : World P) (r : Nat) (thisValue : Ptr) : Except CStr JSVal :=
  if thisValue.isNone then .ok .undefined
  else
    match b.valueOf r thisValue with
    | none => .error (utf8 "this value does not belong to this runtime")
    | some this => .ok this

/-- A check that failed with a message, or its result. -/
def Checked {α β : Type} (r : Nat) (b : World P) (L : Multiset Resource) (l : Loc P) (x : β)
    (check : Except CStr α) (Q : α → β → World P → Prop) : β → World P → Prop :=
  match check with
  | .error message => fun y w => y = x ∧ Run r b (l.setError message) L w
  | .ok a => Q a

theorem fillArgvLoop_spec {args : List Ptr} {n : Nat} (hn : n ≤ args.length)
    (hargs : ∀ p ∈ args, b.NullOrLive p) :
    Triple (Run r b l L) (fillArgvLoop (some r) args n)
      (fun o w => o = (args.take n).mapM (b.valueOf r) ∧
        Run r b (if o.isSome then l
          else l.setError (utf8 "argument does not belong to this runtime")) L w) := by
  induction args generalizing n with
  | nil =>
    obtain rfl : n = 0 := by simpa using hn
    exact (Triple.ret _).pre fun w hw => ⟨rfl, hw⟩
  | cons p args ih =>
    cases n with
    | zero => exact (Triple.ret _).pre fun w hw => ⟨rfl, hw⟩
    | succ n =>
      have hp := hargs p (by simp)
      unfold fillArgvLoop
      refine Triple.bind (isForeign_spec hp) fun f => Triple.lift fun hf => ?_
      subst hf
      rw [List.take_succ_cons, List.mapM_cons]
      cases hx : b.valueOf r p with
      | none => exact (reject_spec _ _).post fun o w ⟨ho, hw⟩ => by subst ho; exact ⟨rfl, hw⟩
      | some x =>
        obtain ⟨q, rfl, t, ht⟩ := hp.holds hx
        rw [if_neg (by simp)]
        refine Triple.bind (readValue_spec ht) fun h => Triple.lift fun hh => ?_
        subst hh
        refine Triple.bind (ih (by simpa using hn) fun p hp => hargs p (by simp [hp]))
          fun o => Triple.lift fun ho => ?_
        cases o with
        | none =>
          refine (Triple.ret _).pre fun w hw => ⟨?_, hw⟩
          simp [← ho]
        | some argv =>
          refine (Triple.ret _).pre fun w hw => ⟨?_, hw⟩
          simp [← ho, JSValue.val]

/-- The argument array has `n` elements, or is `NULL`. -/
def CountsArgs (args : Option (List Ptr)) (n : Int) : Prop := args = none ∨ n ≤ (args.getD []).length

/-- The loop of `fill_argv` ends within the array. -/
theorem CountsArgs.toNat_le {args : Option (List Ptr)} {n : Int} (h : CountsArgs args n)
    (hnull : ¬ (0 < n ∧ args.isNone = true)) : n.toNat ≤ (args.getD []).length := by
  obtain rfl | h := h
  · have hn : ¬ 0 < n := fun hn => hnull ⟨hn, rfl⟩
    omega
  · omega

theorem fillArgv_spec {p : Nat} {x : JSVal} {args : Option (List Ptr)} {n : Int} (hp : b.Holds p r x)
    (hn : CountsArgs args n) (hargs : ∀ q ∈ args.getD [], b.NullOrLive q) :
    Triple (Run r b l L) (fillArgv (some p) args n)
      (Checked r b L l none (b.argvOf r args n) fun argv o w => o = some argv ∧ Run r b l L w) := by
  obtain ⟨t, ht⟩ := hp
  refine guardValue ht rfl ?_
  unfold World.argvOf
  by_cases h₁ : n < 0
  · simp only [if_pos h₁]
    exact reject_spec _ _
  by_cases h₂ : 0 < n ∧ args.isNone = true
  · simp only [if_neg h₁, if_pos h₂]
    exact reject_spec _ _
  simp only [if_neg h₁, if_neg h₂]
  refine Triple.post (fillArgvLoop_spec (hn.toNat_le h₂) hargs) fun o w ⟨ho, hw⟩ => ?_
  subst ho
  cases hm : ((args.getD []).take n.toNat).mapM (b.valueOf r) <;> rw [hm] at hw <;> exact ⟨rfl, hw⟩

/-! ## Properties -/

theorem jsValueGetProperty_spec {p : Nat} {x : JSVal} (hp : b.Holds p r x) (name : CStr) :
    Triple (Run r b l L) (jsValueGetProperty (some p) (some name))
      (Answer r b L (P.getProperty x (.ofCString name) l.heap).1.toOption
        (l.clearError.after (P.getProperty x (.ofCString name) l.heap))) := by
  obtain ⟨t, ht⟩ := hp
  exact guardValue ht rfl <| Triple.bind clearError_spec fun _ =>
    Triple.bind (JS.produce_spec _) fun v => answer_spec v

theorem jsValueGetIndex_spec {p : Nat} {x : JSVal} {i : Int} (hp : b.Holds p r x) (hi : 0 ≤ i) :
    Triple (Run r b l L) (jsValueGetIndex (some p) i)
      (Answer r b L (P.getProperty x (.ofIndex (uint32 i).toNat) l.heap).1.toOption
        (l.clearError.after (P.getProperty x (.ofIndex (uint32 i).toNat) l.heap))) := by
  obtain ⟨t, ht⟩ := hp
  refine guardValue ht rfl ?_
  rw [if_neg (by omega)]
  exact Triple.bind clearError_spec fun _ => Triple.bind (JS.produce_spec _) fun v => answer_spec v

/-- How a function that returns a status ends, after the engine call `out`. -/
def Status {α : Type} (r : Nat) (b : World P) (L : Multiset Resource) (out : Except JSVal α × P.Heap)
    (l : Loc P) (s : Int) (w : World P) : Prop :=
  match out with
  | (.ok _, h) => s = 0 ∧ Run r b { l with heap := h } L w
  | (.error x, h) => s = 1 ∧ Run r b { l with heap := h, exception := some x }.capture L w

/-- A write `set` of the value of the handle `q`: the engine takes over a duplicate of its
reference. -/
theorem assign_spec {α : Type} {q : Nat} {y : JSVal} {f : JSVal → EngineM P.Heap α}
    {set : JSValue → BridgeM P Int} (hq : b.Holds q r y)
    (hset : ∀ v, Triple (Run r b l.clearError (L + v.res)) (set v) fun s w =>
      (s < 0 ↔ (f v.val l.heap).1.toOption = none) ∧ Run r b (l.clearError.after (f v.val l.heap)) L w) :
    Triple (Run r b l L)
      (do clearError (some r)
          let h ← readValue (some q)
          let dup ← JS.dupValue (some r) h.value
          let status ← set dup
          if status < 0 then do
            captureException (some r)
            return 1
          return 0)
      (Status r b L (f y l.heap) l.clearError) := by
  obtain ⟨t, ht⟩ := hq
  refine Triple.bind clearError_spec fun _ => ?_
  refine Triple.bind (readValue_spec ht) fun h => Triple.lift fun hh => ?_
  subst hh
  refine Triple.bind (JS.dupValue_spec y t) fun v => Triple.lift fun hv => ?_
  refine Triple.bind (hset v) fun s => Triple.lift fun hs => ?_
  rw [JSValue.val_of_opt hv, Option.getD_some] at hs ⊢
  unfold Status
  rcases hf : f y l.heap with ⟨x | a, h⟩ <;> rw [hf] at hs
  · rw [if_pos (hs.mpr rfl)]
    exact Triple.bind captureException_spec fun _ => (Triple.ret _).pre fun w hw => ⟨rfl, hw⟩
  · rw [if_neg (by simp [hs, Except.toOption])]
    exact (Triple.ret _).pre fun w hw => ⟨rfl, hw⟩

/-- The value of a `js_value_set_` function, which must belong to the runtime of the target. -/
def World.newValueOf (b : World P) (r : Nat) (value : Ptr) (message : String) : Except CStr JSVal :=
  match b.valueOf r value with
  | none => .error (utf8 message)
  | some y => .ok y

/-- The end of a `js_value_set_` function: the value is checked, and then written. -/
theorem assignOwn_spec {α : Type} {q : Ptr} {f : JSVal → EngineM P.Heap α} {set : JSValue → BridgeM P Int}
    {message : String} (hq : b.NullOrLive q)
    (hset : ∀ v, Triple (Run r b l.clearError (L + v.res)) (set v) fun s w =>
      (s < 0 ↔ (f v.val l.heap).1.toOption = none) ∧ Run r b (l.clearError.after (f v.val l.heap)) L w) :
    Triple (Run r b l L)
      (do if ← isForeign q (some r) then
            setError (some r) (utf8 message)
            return 1
          clearError (some r)
          let h ← readValue q
          let dup ← JS.dupValue (some r) h.value
          let status ← set dup
          if status < 0 then do
            captureException (some r)
            return 1
          return 0)
      (Checked r b L l 1 (b.newValueOf r q message) fun y => Status r b L (f y l.heap) l.clearError) := by
  refine Triple.bind (isForeign_spec hq) fun v => Triple.lift fun hv => ?_
  subst hv
  unfold World.newValueOf
  cases hy : b.valueOf r q with
  | none => exact reject_spec _ _
  | some y =>
    obtain ⟨q, rfl, hx⟩ := hq.holds hy
    exact assign_spec hx hset

theorem jsValueSetProperty_spec {p : Nat} {x : JSVal} {q : Ptr} (hp : b.Holds p r x)
    (hq : b.NullOrLive q) (name : CStr) :
    Triple (Run r b l L) (jsValueSetProperty (some p) (some name) q)
      (Checked r b L l 1 (b.newValueOf r q "property value does not belong to this runtime") fun y =>
        Status r b L (P.setProperty x (.ofCString name) y l.heap) l.clearError) := by
  obtain ⟨t, ht⟩ := hp
  refine guardValue ht rfl ?_
  exact assignOwn_spec (f := P.setProperty x (.ofCString name)) hq fun v => JS.consume_status_spec v _

theorem jsValueSetIndex_spec {p : Nat} {x : JSVal} {i : Int} {q : Ptr} (hp : b.Holds p r x)
    (hi : 0 ≤ i) (hq : b.NullOrLive q) :
    Triple (Run r b l L) (jsValueSetIndex (some p) i q)
      (Checked r b L l 1 (b.newValueOf r q "array value does not belong to this runtime") fun y =>
        Status r b L (P.setProperty x (.ofIndex (uint32 i).toNat) y l.heap) l.clearError) := by
  obtain ⟨t, ht⟩ := hp
  refine guardValue ht rfl ?_
  rw [if_neg (by omega)]
  exact assignOwn_spec (f := P.setProperty x (.ofIndex (uint32 i).toNat)) hq fun v => JS.consume_status_spec v _

/-! ## Calls -/

/-- The outcome of `js_value_call` after its checks. -/
def Loc.afterCall (l : Loc P) (f this : JSVal) (argv : List JSVal) : Loc P :=
  (l.clearError.started f f.callRuns).after (P.call f this argv l.heap)

/-- The outcome of `js_value_construct` after its checks. -/
def Loc.afterConstruct (l : Loc P) (f : JSVal) (argv : List JSVal) : Loc P :=
  (l.clearError.started f f.isConstructor).after (P.callConstructor f argv l.heap)

/-- The process ends at the array of a call with `n` arguments: the checks before it `passed`, and the
stack has no room. -/
def Overflows (P : Platform) (n : Int) (passed : Prop) (fault : Fault) : Prop :=
  fault = .stackOverflow ∧ passed ∧ 0 ≤ n ∧ ¬ P.FitsArgv n

/-- The arguments of a call are checked, and then passed to `k`. -/
theorem withArgv_spec {p : Nat} {f : JSVal} {args : Option (List Ptr)} {n : Int} {passed : Prop}
    {k : List JSVal → BridgeM P Ptr} {Q : List JSVal → Ptr → World P → Prop} (hp : b.Holds p r f)
    (hn : CountsArgs args n) (hargs : ∀ q ∈ args.getD [], b.NullOrLive q) (hpassed : passed)
    (hk : ∀ argv, Triple (Run r b l L) (k argv) (Q argv)) :
    TripleOr (Run r b l L)
      (do if n < 0 then
            setError (some r) (utf8 "argument count must not be negative")
            return none
          stackArgv n
          let some argv ← fillArgv (some p) args n | return none
          k argv)
      (Overflows P n passed) (Checked r b L l none (b.argvOf r args n) Q) := by
  by_cases hneg : n < 0
  · rw [if_pos hneg, World.argvOf, if_pos hneg]
    exact (reject_spec _ _).allow
  rw [if_neg hneg]
  refine TripleOr.bind (Q := fun _ => Run r b l L) ?_ fun _ => ?_
  · unfold stackArgv
    by_cases hfit : P.FitsArgv n
    · rw [if_pos hfit]
      exact (Triple.ret (Q := fun _ => Run r b l L) ()).allow
    · rw [if_neg hfit]
      exact TripleOr.throw ⟨rfl, hpassed, not_lt.mp hneg, hfit⟩
  refine (fillArgv_spec hp hn hargs).bindOr fun o => Triple.allow ?_
  unfold Checked
  cases b.argvOf r args n with
  | error m =>
    refine Triple.lift fun ho => ?_
    subst ho
    exact (Triple.ret _).pre fun w hw => ⟨rfl, hw⟩
  | ok argv =>
    refine Triple.lift fun ho => ?_
    subst ho
    exact hk argv

/-- Without room for the array nothing after it is done. -/
theorem withArgv_stops {n : Int} {k : BridgeM P Ptr} (hn : 0 ≤ n) (hfit : ¬ P.FitsArgv n) :
    TripleOr (Run r b l L)
      (do if n < 0 then
            setError (some r) (utf8 "argument count must not be negative")
            return none
          stackArgv n
          k)
      (· = .stackOverflow) fun _ _ => False := by
  rw [if_neg (by omega)]
  unfold stackArgv
  rw [if_neg hfit]
  exact TripleOr.bind (Q := fun _ _ => False) (TripleOr.throw rfl) fun _ _ h => h.elim

/-- The receiver of a call is checked, and then `k` goes on. -/
theorem withThis_spec {q : Ptr} {k : BridgeM P Ptr} {F : Fault → Prop}
    {Q : JSVal → Ptr → World P → Prop} (hq : b.NullOrLive q)
    (hk : ∀ this, b.thisOf r q = .ok this → TripleOr (Run r b l L) k F (Q this)) :
    TripleOr (Run r b l L)
      (do if ← (if q.isNone then pure false else isForeign q (some r)) then
            setError (some r) (utf8 "this value does not belong to this runtime")
            return none
          k)
      F (Checked r b L l none (b.thisOf r q) Q) := by
  refine Triple.bindOr (Q := fun v w => v = (q.isSome && (b.valueOf r q).isNone) ∧ Run r b l L w) ?_
    fun v => TripleOr.lift fun hv => ?_
  · cases q with
    | none => exact (Triple.ret _).pre fun w hw => ⟨rfl, hw⟩
    | some q => exact isForeign_spec hq
  subst hv
  cases hthis : b.thisOf r q with
  | error m =>
    unfold World.thisOf at hthis
    cases q with
    | none => cases hthis
    | some q =>
      cases hx : b.valueOf r (some q) with
      | none =>
        simp only [hx] at hthis
        cases hthis
        exact (reject_spec _ _).allow
      | some x =>
        simp only [hx] at hthis
        cases hthis
  | ok this =>
    have hlocal : ¬ (q.isSome && (b.valueOf r q).isNone) = true := fun h => by
      obtain ⟨h₁, h₂⟩ := Bool.and_eq_true_iff.mp h
      unfold World.thisOf at hthis
      rw [if_neg (by simpa [Option.isSome_iff_ne_none] using h₁), Option.isNone_iff_eq_none.mp h₂] at hthis
      cases hthis
    rw [if_neg hlocal]
    exact hk this hthis

/-- The value of a receiver that was let through. -/
theorem readThis_spec {q : Ptr} {this : JSVal} (hq : b.NullOrLive q) (hthis : b.thisOf r q = .ok this) :
    Triple (Run r b l L) (if q.isNone then pure .undefined else do return (← readValue q).value.val)
      fun v w => v = this ∧ Run r b l L w := by
  cases q with
  | none =>
    cases hthis
    exact (Triple.ret _).pre fun w hw => ⟨rfl, hw⟩
  | some q =>
    cases hx : b.valueOf r (some q) with
    | none => simp [World.thisOf, hx] at hthis
    | some x =>
      obtain rfl : x = this := by simpa [World.thisOf, hx] using hthis
      obtain ⟨q', hq', u, hu⟩ := hq.holds hx
      cases hq'
      refine Triple.bind (readValue_spec hu) fun h => Triple.lift fun hh => ?_
      subst hh
      exact (Triple.ret _).pre fun w hw => ⟨rfl, hw⟩

section Call

variable {p : Nat} {f : JSVal} {q : Ptr} {args : Option (List Ptr)} {n : Int}

theorem jsValueCall_spec (hp : b.Holds p r f) (hq : b.NullOrLive q) (hn : CountsArgs args n)
    (hargs : ∀ q ∈ args.getD [], b.NullOrLive q) :
    TripleOr (Run r b l L) (jsValueCall (some p) q args n)
      (Overflows P n (∃ this, b.thisOf r q = .ok this))
      (Checked r b L l none (b.thisOf r q) fun this =>
        Checked r b L l none (b.argvOf r args n) fun argv =>
          Answer r b L (P.call f this argv l.heap).1.toOption (l.afterCall f this argv)) := by
  obtain ⟨t, ht⟩ := hp
  refine guardValueOr ht rfl (withThis_spec hq fun this hthis => ?_)
  refine withArgv_spec ⟨t, ht⟩ hn hargs ⟨this, hthis⟩ fun argv => ?_
  refine Triple.bind clearError_spec fun _ => ?_
  refine Triple.bind (readThis_spec hq hthis) fun v => Triple.lift fun hv => ?_
  subst hv
  exact Triple.bind (JS.call_spec _ _ _) fun v => answer_spec v

/-- A call whose checks pass and whose arguments do not fit ends the process. -/
theorem jsValueCall_stops {this : JSVal} (hp : b.Holds p r f) (hq : b.NullOrLive q)
    (hthis : b.thisOf r q = .ok this) (hn : 0 ≤ n) (hfit : ¬ P.FitsArgv n) :
    TripleOr (Run r b l L) (jsValueCall (some p) q args n) (· = .stackOverflow) fun _ _ => False := by
  obtain ⟨t, ht⟩ := hp
  refine guardValueOr ht rfl ?_
  refine (withThis_spec (Q := fun _ _ _ => False) hq fun _ _ => withArgv_stops hn hfit).post fun _ _ h => ?_
  rwa [hthis] at h

theorem jsValueConstruct_spec (hp : b.Holds p r f) (hn : CountsArgs args n)
    (hargs : ∀ q ∈ args.getD [], b.NullOrLive q) :
    TripleOr (Run r b l L) (jsValueConstruct (some p) args n) (Overflows P n True)
      (Checked r b L l none (b.argvOf r args n) fun argv =>
        Answer r b L (P.callConstructor f argv l.heap).1.toOption (l.afterConstruct f argv)) := by
  obtain ⟨t, ht⟩ := hp
  refine guardValueOr ht rfl ?_
  refine withArgv_spec ⟨t, ht⟩ hn hargs trivial fun argv => ?_
  refine Triple.bind clearError_spec fun _ => ?_
  exact Triple.bind (JS.callConstructor_spec _ _) fun v => answer_spec v

theorem jsValueConstruct_stops (hp : b.Holds p r f) (hn : 0 ≤ n) (hfit : ¬ P.FitsArgv n) :
    TripleOr (Run r b l L) (jsValueConstruct (some p) args n) (· = .stackOverflow) fun _ _ => False := by
  obtain ⟨t, ht⟩ := hp
  exact guardValueOr ht rfl (withArgv_stops hn hfit)

end Call

/-! ## Observers -/

theorem jsValueKind_spec {p : Nat} {x : JSVal} (hp : b.Holds p r x) :
    Triple (Run r b l L) (jsValueKind (some p)) (fun k w => k = x.kind.code ∧ Run r b l L w) := by
  obtain ⟨t, ht⟩ := hp
  refine guardValue ht rfl ?_
  exact (Triple.ret _).pre fun w hw => ⟨rfl, hw⟩

theorem jsValueToBool_spec {p : Nat} {x : JSVal} (hp : b.Holds p r x) :
    Triple (Run r b l L) (jsValueToBool (some p))
      (fun v w => v = (if x.toBool then 1 else 0) ∧ Run r b l L w) := by
  obtain ⟨t, ht⟩ := hp
  refine guardValue ht rfl ?_
  unfold JS.toBool
  rw [bind_assoc]
  refine Triple.bind readContext_spec fun _ => Triple.lift fun _ => ?_
  rw [pure_bind]
  cases x.toBool <;> exact (Triple.ret _).pre fun w hw => ⟨rfl, hw⟩

theorem jsValueToNumber_spec {p : Nat} {x : JSVal} (hp : b.Holds p r x) :
    Triple (Run r b l L) (jsValueToNumber (some p))
      (match P.toNumber x l.heap with
        | (.ok y, h) => fun v w => v = y ∧ Run r b { l with heap := h } L w
        | (.error e, h) => fun v w => v = .finite 0 ∧
          Run r b ({ l with heap := h, exception := some e }.setError
            (utf8 "failed to convert JavaScript value to number")) L w) := by
  obtain ⟨t, ht⟩ := hp
  refine guardValue ht rfl ?_
  refine Triple.bind (onContext_spec _) fun o => Triple.lift fun ho => ?_
  subst ho
  simp only [JSValue.val]
  rcases P.toNumber x l.heap with ⟨e | y, h⟩
  · exact reject_spec _ _
  · exact (Triple.ret _).pre fun w hw => ⟨rfl, hw⟩

/-- The local state after `js_value_to_string`, and the bytes that the client gets. -/
def Loc.toText (l : Loc P) (x : JSVal) : Option CStr × Loc P :=
  match P.toCString x l.heap with
  | (.error e, h) =>
    (none, { l with heap := h, exception := some e }.setError
      (utf8 "failed to convert JavaScript value to string"))
  | (.ok bytes, h) =>
    if (P.malloc l.host).1 then
      (some bytes.text, { l with heap := h, host := (P.malloc l.host).2 })
    else
      (none, { l with heap := h, host := (P.malloc l.host).2 }.setError
        (utf8 "failed to allocate JavaScript string result"))

theorem jsValueToString_spec {p : Nat} {x : JSVal} (hp : b.Holds p r x) :
    Triple (Run r b l L) (jsValueToString (some p))
      (fun s w => s.map (·.bytes) = (l.toText x).1 ∧ Run r b (l.toText x).2 (L + stringRes s) w) := by
  obtain ⟨t, ht⟩ := hp
  refine guardValue ht rfl ?_
  refine Triple.bind (JS.toCString_spec _) fun s => Triple.lift fun hs => ?_
  simp only [JSValue.val, Loc.toText] at hs ⊢
  rcases hx : P.toCString x l.heap with ⟨e | bytes, h⟩ <;> rw [hx] at hs
  · obtain rfl : s = none := by simpa [Except.toOption] using hs
    refine Triple.bind (Triple.pre (setError_spec (L := L) _) fun w hw => by
      simpa [JS.cStringRes] using hw) fun _ => ?_
    exact (Triple.ret _).pre fun w hw => ⟨rfl, by simpa using hw⟩
  obtain ⟨s, rfl, rfl⟩ : ∃ u, s = some u ∧ u.bytes = bytes := by simpa [Except.toOption] using hs
  refine Triple.bind (copyString_spec _) fun c => Triple.lift fun hc => ?_
  refine Triple.bind (Triple.pre (JS.freeCString_spec (L := L + stringRes c) (some s)) fun w hw => by
    rwa [add_right_comm] at hw) fun _ => ?_
  by_cases hm : (P.malloc l.host).1 = true
  · have hm' : (P.malloc (l.after ((.ok s.bytes : Except JSVal CStr), h)).host).1 = true := hm
    rw [if_pos hm'] at hc
    simp only [if_pos hm]
    obtain ⟨c, rfl, hc⟩ : ∃ u, c = some u ∧ u.bytes = s.bytes.text := by simpa using hc
    rw [if_neg (by simp)]
    exact (Triple.ret _).pre fun w hw => ⟨by simp [hc], hw⟩
  · have hm' : ¬ (P.malloc (l.after ((.ok s.bytes : Except JSVal CStr), h)).host).1 = true := hm
    rw [if_neg hm'] at hc
    simp only [if_neg hm]
    obtain rfl : c = none := by simpa using hc
    rw [if_pos (by simp)]
    refine Triple.bind (setError_spec _) fun _ => ?_
    exact (Triple.ret _).pre fun w hw => ⟨rfl, by simpa using hw⟩

theorem jsValueIsArray_spec {p : Nat} {x : JSVal} (hp : b.Holds p r x) :
    Triple (Run r b l L) (jsValueIsArray (some p))
      (fun v w => v = (if (P.isArray x l.heap).1.toOption = some false then 0 else 1) ∧
        Run r b (l.after (P.isArray x l.heap)) L w) := by
  obtain ⟨t, ht⟩ := hp
  refine guardValue ht rfl ?_
  unfold JS.isArray
  rw [bind_assoc]
  refine Triple.bind (onContext_spec _) fun o => Triple.lift fun ho => ?_
  simp only [JSValue.val] at ho ⊢
  subst ho
  rcases P.isArray x l.heap with ⟨e | _ | _, h⟩ <;>
    exact (Triple.ret _).pre fun w hw => ⟨by simp [Except.toOption], hw⟩

/-- The local state after `js_value_array_length`, and its result. -/
def Loc.arrayLength (l : Loc P) (x : JSVal) : Int × Loc P :=
  match P.getProperty x (.ofCString (utf8 "length")) l.heap with
  | (.error e, h) => (-1, { l with heap := h, exception := some e }.capture)
  | (.ok v, h) =>
    match P.toNumber v h with
    | (.error e, h) =>
      (-1, { l with heap := h, exception := some e }.setError
        (utf8 "failed to convert JavaScript array length"))
    | (.ok n, h) => (P.castInt64 n, { l with heap := h })

theorem jsValueArrayLength_spec {p : Nat} {x : JSVal} (hp : b.Holds p r x) :
    Triple (Run r b l L) (jsValueArrayLength (some p))
      (fun v w => v = (l.arrayLength x).1 ∧ Run r b (l.arrayLength x).2 L w) := by
  obtain ⟨t, ht⟩ := hp
  refine guardValue ht rfl ?_
  unfold Loc.arrayLength
  refine produce_branch (fun e h hg => ?_) (fun v h s hg => ?_) <;> simp only [JSValue.val] at hg <;>
    rw [hg]
  · exact Triple.bind captureException_spec fun _ => (Triple.ret _).pre fun w hw => ⟨rfl, hw⟩
  refine Triple.bind (onContext_spec _) fun o => Triple.lift fun ho => ?_
  subst ho
  refine Triple.bind (JS.freeValue_spec (.ref v s)) fun _ => ?_
  simp only [JSValue.val]
  rcases P.toNumber v h with ⟨e | n, h⟩
  · exact reject_spec _ _
  · exact (Triple.ret _).pre fun w hw => ⟨rfl, hw⟩

end InteropJs
