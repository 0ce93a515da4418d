import InteropJs.Cangjie.Weaving

/-!
# The texts that a program leaves allocated

`js_value_to_string` gives its caller a block to free. `ownedCStringToString` copies the bytes into a
Cangjie `String` and then frees the block, but the copy throws when the bytes are not UTF-8, and then the
block is lost. A JavaScript string with an unmatched surrogate has such bytes.

* `lost` are the strings of a run that are not UTF-8.
* `Prog.Frees`: a program that frees the strings it can read. Every operation does (`Prog.Reads.frees`).
* `Woven.strings`: a run of such a program leaves its client the lost strings to free, and no other.
* `texts_freed`: so it is for every client program, wherever the finalisers run; together with the live
  handles and the error strings they are all that the program still owns.
-/

namespace InteropJs

variable {P : Platform} {r : Nat} {α : Type}

/-- The string that a call of the run gave to its caller. -/
def Mark.text? : Mark P → Option OwnedString
  | .call ⟨.valueToString _, s, _⟩ => s
  | _ => none

/-- The copy into a `String` throws. -/
def OwnedString.Unreadable (s : OwnedString) : Prop := s.bytes.string? = none

instance (s : OwnedString) : Decidable s.Unreadable := inferInstanceAs (Decidable (_ = _))

/-- The strings of a run that cannot be read. -/
def lost (τ : List (Mark P)) : Multiset OwnedString :=
  ((τ.filterMap Mark.text?).filter fun s => s.Unreadable : List OwnedString)

theorem lost_cons_none {m : Mark P} (h : m.text? = none) (τ : List (Mark P)) : lost (m :: τ) = lost τ := by
  rw [lost, List.filterMap_cons_none h]
  rfl

theorem lost_cons_some {m : Mark P} {s : OwnedString} (h : m.text? = some s) (τ : List (Mark P)) :
    lost (m :: τ) = if s.Unreadable then {s} + lost τ else lost τ := by
  rw [lost, List.filterMap_cons_some h, List.filter_cons]
  by_cases hs : s.Unreadable
  · rw [if_pos hs, if_pos (decide_eq_true hs)]
    rfl
  · rw [if_neg hs, if_neg (by simpa using hs)]
    rfl

theorem Mark.text?_ordinary {β : Type} {call : Call β} (h : call.Ordinary) (x : β) (w : World P) :
    (Mark.call ⟨call, x, w⟩ : Mark P).text? = none := by
  cases call <;> first | exact h.elim | rfl

theorem Client.strings_ordinary {β : Type} {call : Call β} (h : call.Ordinary) (c : Client) (r : Nat) (x : β) :
    (c.after r call x).strings = c.strings := by
  rw [Client.after_ordinary h]
  cases call.given x <;> rfl

/-! ## Programs that free what they read -/

/-- The string is read, and then freed. -/
def readable : Option OwnedString → Multiset OwnedString
  | some s => if s.Unreadable then 0 else {s}
  | none => 0

/-- The program frees the strings `ρ`, and every further one that can be read. -/
inductive Prog.Frees {α : Type} : Multiset OwnedString → Prog α → Prop where
  | ret (a : α) : Frees 0 (.ret a)
  | raise (e : Exn) : Frees 0 (.raise e)
  | alloc {ρ : Multiset OwnedString} {h : Ptr} {k : JSValueRef → Prog α} (rest : ∀ ref, Frees ρ (k ref)) :
      Frees ρ (.alloc h k)
  | touch {ρ : Multiset OwnedString} {rs : List JSValueRef} {k : Prog α} (rest : Frees ρ k) :
      Frees ρ (.touch rs k)
  | native {ρ : Multiset OwnedString} {β : Type} {rs : List JSValueRef} {call : Call β} {k : β → Prog α}
      (ordinary : call.Ordinary) (rest : ∀ x, Frees ρ (k x)) : Frees ρ (.native rs call k)
  | text {ρ : Multiset OwnedString} {rs : List JSValueRef} {p : Ptr} {k : Option OwnedString → Prog α}
      (rest : ∀ s, Frees (ρ + readable s) (k s)) : Frees ρ (.native rs (.valueToString p) k)
  | free {ρ : Multiset OwnedString} {rs : List JSValueRef} {s : OwnedString} {k : Unit → Prog α} (held : s ∈ ρ)
      (rest : Frees (ρ.erase s) (k ())) : Frees ρ (.native rs (.bridgeFreeString (some s)) k)

theorem attempt_unreadable {s : OwnedString} (h : s.Unreadable) (k : Except Exn String → Prog α) :
    (ownedCStringToString (some s)).attempt.bind k = k (.error .illegalArgument) := by
  unfold ownedCStringToString cStringToString
  dsimp only
  rw [show s.bytes.string? = none from h]
  rfl

theorem attempt_readable {s : OwnedString} {str : String} (h : s.bytes.string? = some str)
    (k : Except Exn String → Prog α) :
    (ownedCStringToString (some s)).attempt.bind k =
      .native [] (.bridgeFreeString (some s)) fun _ => k (.ok str) := by
  unfold ownedCStringToString cStringToString
  dsimp only
  rw [h]
  rfl

/-- `ownedCStringToString` frees what it can read. -/
theorem Prog.Reads.frees {p : Prog α} (h : p.Reads) : p.Frees 0 := by
  induction h with
  | ret a => exact .ret a
  | raise e => exact .raise e
  | alloc _ ih => exact .alloc ih
  | touch _ ih => exact .touch ih
  | native ho _ ih => exact .native ho ih
  | text _ ih =>
    refine .text fun s => ?_
    cases s with
    | none => exact ih _
    | some u =>
      rw [zero_add, readable]
      cases hstr : u.bytes.string? with
      | none =>
        -- the copy throws, and the block stays
        have hu : u.Unreadable := hstr
        rw [attempt_unreadable hstr, if_pos hu]
        exact ih _
      | some str =>
        have hu : ¬ u.Unreadable := by simp [OwnedString.Unreadable, hstr]
        rw [attempt_readable hstr, if_neg hu]
        refine .free (Multiset.mem_singleton_self u) ?_
        rw [Multiset.erase_singleton]
        exact ih _

/-- A woven run leaves its client the strings that cannot be read. -/
theorem Woven.strings {p : Prog α} {x y : Client × Store P} {τ : List (Mark P)} {res : Except Exn α}
    (h : Woven p x τ res y) {ρ : Multiset OwnedString} (hp : p.Frees ρ) :
    y.1.strings + ρ = x.1.strings + lost τ := by
  induction h generalizing ρ with
  | ret =>
    cases hp
    rfl
  | raise =>
    cases hp
    rfl
  | alloc _ ih =>
    cases hp with
    | alloc rest => exact (ih (rest _)).trans (by rw [lost_cons_none rfl])
  | touch _ ih =>
    cases hp with
    | touch rest => exact (ih rest).trans (by rw [lost_cons_none rfl])
  | @native _ _ call _ c _ r x _ _ _ _ allowed _ _ ih =>
    cases hp with
    | native ho rest =>
      have hrest := ih (rest x)
      rw [Client.strings_ordinary ho] at hrest
      rw [hrest, lost_cons_none (Mark.text?_ordinary ho _ _)]
    | @text _ _ p _ rest =>
      have hrest := ih (rest x)
      cases x with
      | none =>
        rw [readable, add_zero] at hrest
        rw [lost_cons_none rfl]
        exact hrest
      | some u =>
        have hstrings : (c.after r (.valueToString p) (some u)).strings = c.strings + {u} := rfl
        rw [hstrings, readable] at hrest
        rw [lost_cons_some rfl]
        by_cases hu : u.Unreadable
        · rw [if_pos hu, add_zero] at hrest
          rw [if_pos hu, hrest, add_assoc]
        · rw [if_neg hu, ← add_assoc, add_right_comm c.strings] at hrest
          rw [if_neg hu]
          exact Multiset.add_left_inj.mp hrest
    | @free _ _ s _ held rest =>
      have hmem : s ∈ c.strings := allowed s rfl
      have hrest : (_ : Multiset OwnedString) + ρ.erase s = c.strings.erase s + _ := ih rest
      rw [lost_cons_none rfl, ← Multiset.cons_erase held, ← Multiset.cons_erase hmem, Multiset.add_cons, hrest,
        Multiset.cons_add]
  | finalise _ _ _ ih => exact (ih hp).trans (by rw [lost_cons_none rfl]; rfl)
  | reclaim _ _ _ _ ih => exact (ih hp).trans (by rw [lost_cons_none rfl])

/-- In every client program, wherever the finalisers run and whatever the engines free: the strings that are
not freed are those of the run whose bytes are not UTF-8. -/
theorem texts_freed {c : Client} {s : Store P} (script : Script α) (h : Reach c s.world) {τ : List (Mark P)}
    {res : Except Exn α} {y : Client × Store P} (hw : Woven (script.prog (some r)) (c, s) τ res y) :
    y.1.strings = c.strings + lost τ ∧ y.2.world.ledger = y.1.owned y.2.world := by
  refine ⟨?_, ?_⟩
  · have hstrings := hw.strings (script.reads (some r)).frees
    rwa [add_zero] at hstrings
  · obtain ⟨host, hr⟩ := h
    have hreach : Reach y.1 y.2.world := ⟨host, hr.trans hw.steps⟩
    exact hreach.inv.ledger

/-- An engine whose scripts all give an unmatched surrogate. -/
def surrogatePlatform : Platform :=
  { Platform.idle Nat 0 with eval := fun _ h => (.ok (.string [0xD800]), h) }

/-- A script whose result is read as a `String`. -/
def readScript : Script (Except Exn Any) :=
  .step (.evalScript "") fun
    | .ok e => .step (.fromExtern .string e) .done
    | .error e => .done (.error e)

/-- The world after a call on this platform. -/
def surrogateAfter {β : Type} (call : Call β) (w : World surrogatePlatform) : World surrogatePlatform :=
  match call.run.run w with
  | .ok (_, w') => w'
  | .error _ => w

/-- The text of an unmatched surrogate is lost. -/
theorem texts_freed_surrogate :
    ∃ (c : Client) (s : Store surrogatePlatform) (τ : List (Mark surrogatePlatform))
      (y : Client × Store surrogatePlatform), Reach c s.world ∧ c.strings = 0 ∧
      Woven (readScript.prog (some 0)) (c, s) τ (.ok (.error .illegalArgument)) y ∧
      y.1.strings.map (·.bytes) = {[0xED, 0xA0, 0x80]} := by
  have hreach : Reach (Client.after Client.start 0 .runtimeCreate (some 0))
      (surrogateAfter .runtimeCreate (World.start ())) :=
    (Reach.start (P := surrogatePlatform) ()).call (r := 0) .runtimeCreate trivial rfl
  let s : Store surrogatePlatform := ⟨surrogateAfter .runtimeCreate (World.start ()), 0⟩
  have hw : Woven (readScript.prog (some 0)) (Client.after Client.start 0 .runtimeCreate (some 0), s) _
      (.ok (.error .illegalArgument)) _ :=
    .native (r := 0) (x := some 0) (.inr ⟨rfl, by decide, by decide⟩) rfl
      (.alloc (.touch (.native (r := 0) (x := 4) (.inr ⟨0, rfl, by decide⟩) rfl
        (.native (r := 0) (x := 4) (.inr ⟨0, rfl, by decide⟩) rfl
          (.native (r := 0) (x := some (OwnedString.mk 2 [0xED, 0xA0, 0x80])) (.inr ⟨0, rfl, by decide⟩) rfl .ret)))))
  obtain ⟨hstrings, -⟩ := texts_freed (r := 0) readScript hreach hw
  refine ⟨_, s, _, _, hreach, rfl, hw, ?_⟩
  rw [hstrings]
  rfl

end InteropJs
