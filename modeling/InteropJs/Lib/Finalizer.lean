import Mathlib.Data.List.Basic

/-!
# Finalisers

A program whose objects own handles, with a collector that finalises an object some time after the
last statement that reads it. The finaliser destroys the handle, and a handle that was taken out of
its object before may still be in use.

* A run without finalisers is its list of statements (`Event`): the objects that each one reads (or
  creates), and the handles that it passes on. A `Schedule` puts finalisers between them: of objects
  that were read before, that no later statement reads, and that are not `pinned` (read by the caller
  after the run).
* `Safe`: no statement passes on a handle of an object that was finalised before it.
* `Covered` says the same of the run alone: whenever a handle is passed on, each of the objects read
  so far that own it is pinned, or is read by this statement or by a later one.
  `schedules_safe_iff` is the equivalence.
* `Guarded` leaves the later statements out. It is enough (`Guarded.covered`), and one can check it
  statement by statement.
-/

namespace Finalizer

variable {O H : Type}

/-- A statement (module doc). -/
structure Event (O H : Type) where
  reads : List O
  uses : List H

/-- The objects that a run reads. -/
def readsOf (τ : List (Event O H)) : List O := τ.flatMap (·.reads)

@[simp] theorem readsOf_nil : readsOf ([] : List (Event O H)) = [] := rfl

@[simp] theorem readsOf_cons (e : Event O H) (τ : List (Event O H)) :
    readsOf (e :: τ) = e.reads ++ readsOf τ := rfl

@[simp] theorem readsOf_append (τ τ' : List (Event O H)) :
    readsOf (τ ++ τ') = readsOf τ ++ readsOf τ' := List.flatMap_append

/-- A step of a run with finalisers. -/
inductive Item (O H : Type) where
  | event (e : Event O H)
  | finalise (o : O)

/-- The run without its finalisers. -/
def events : List (Item O H) → List (Event O H)
  | [] => []
  | .event e :: items => e :: events items
  | .finalise _ :: items => events items

theorem events_map (τ : List (Event O H)) : events (τ.map .event) = τ := by
  induction τ with
  | nil => rfl
  | cons e τ ih => rw [List.map_cons, events, ih]

section Pinned

variable (pinned : O → Prop)

/-- The finalisers in `items` are ones that the collector may run, when the objects `R` were read
before: each at most once. -/
def Schedule (R : List O) : List (Item O H) → Prop
  | [] => True
  | .event e :: items => Schedule (e.reads ++ R) items
  | .finalise o :: items =>
    (o ∈ R ∧ o ∉ readsOf (events items) ∧ ¬ pinned o ∧ .finalise o ∉ items) ∧ Schedule R items

variable (own : O → Option H)

/-- No statement passes on a handle of an object that was finalised before, where the objects `F` were
finalised already. -/
def Safe (F : List O) : List (Item O H) → Prop
  | [] => True
  | .event e :: items => (∀ o ∈ F, ∀ h ∈ e.uses, own o ≠ some h) ∧ Safe F items
  | .finalise o :: items => Safe (o :: F) items

/-- Every handle that is passed on has its objects kept (module doc). -/
def Covered (R : List O) : List (Event O H) → Prop
  | [] => True
  | e :: τ =>
    (∀ o ∈ R, ∀ h ∈ e.uses, own o = some h → pinned o ∨ o ∈ e.reads ∨ o ∈ readsOf τ) ∧
      Covered (e.reads ++ R) τ

/-- `Covered`, by the statement itself. -/
def Guarded (R : List O) : List (Event O H) → Prop
  | [] => True
  | e :: τ =>
    (∀ o ∈ R, ∀ h ∈ e.uses, own o = some h → pinned o ∨ o ∈ e.reads) ∧ Guarded (e.reads ++ R) τ

end Pinned

variable {pinned : O → Prop} {own : O → Option H}

theorem schedule_map (R : List O) (τ : List (Event O H)) : Schedule pinned R (τ.map .event) := by
  induction τ generalizing R with
  | nil => trivial
  | cons e τ ih => exact ih _

/-- A schedule of a covered run is safe. -/
theorem Covered.safe {R F : List O} {items : List (Item O H)}
    (hc : Covered pinned own R (events items)) (hs : Schedule pinned R items)
    (hF : ∀ o ∈ F, o ∈ R ∧ ¬ pinned o ∧ o ∉ readsOf (events items)) : Safe own F items := by
  induction items generalizing R F with
  | nil => trivial
  | cons item items ih =>
    cases item with
    | event e =>
      obtain ⟨hcover, hc⟩ := hc
      refine ⟨fun o ho h hh hown => ?_, ih hc hs fun o ho => ?_⟩
      · obtain ⟨hR, hpin, hread⟩ := hF o ho
        rw [events, readsOf_cons, List.mem_append, not_or] at hread
        obtain hp | hp | hp := hcover o hR h hh hown
        · exact hpin hp
        · exact hread.1 hp
        · exact hread.2 hp
      · obtain ⟨hR, hpin, hread⟩ := hF o ho
        rw [events, readsOf_cons, List.mem_append, not_or] at hread
        exact ⟨List.mem_append_right _ hR, hpin, hread.2⟩
    | finalise o =>
      obtain ⟨⟨hR, hread, hpin, -⟩, hs⟩ := hs
      refine ih hc hs fun o' ho' => ?_
      rcases List.mem_cons.mp ho' with rfl | ho'
      · exact ⟨hR, hpin, hread⟩
      · exact hF o' ho'

/-- A run all of whose schedules are safe is covered: the object that is not kept can be finalised
right before the use of its handle. -/
theorem covered_of_safe {R : List O} {τ : List (Event O H)}
    (h : ∀ items, events items = τ → Schedule pinned R items → Safe own [] items) :
    Covered pinned own R τ := by
  induction τ generalizing R with
  | nil => trivial
  | cons e τ ih =>
    refine ⟨fun o ho k hk hown => ?_, ih fun items hitems hs => ?_⟩
    · by_contra hn
      rw [not_or, not_or] at hn
      obtain ⟨hpin, hread, hlater⟩ := hn
      have hitems : events (.finalise o :: .event e :: τ.map .event) = e :: τ := by
        rw [events, events, events_map]
      have hsched : Schedule pinned R (.finalise o :: .event e :: τ.map .event) := by
        refine ⟨⟨ho, ?_, hpin, by simp⟩, schedule_map _ τ⟩
        rw [events, events_map, readsOf_cons, List.mem_append, not_or]
        exact ⟨hread, hlater⟩
      exact (h _ hitems hsched).1 o (List.mem_singleton_self o) k hk hown
    · exact (h (.event e :: items) (by rw [events, hitems]) hs).2

/-- Every schedule of a run is safe exactly when the run is covered. -/
theorem schedules_safe_iff (τ : List (Event O H)) :
    (∀ items, events items = τ → Schedule pinned [] items → Safe own [] items) ↔
      Covered pinned own [] τ := by
  refine ⟨covered_of_safe, fun hc items hitems hs => ?_⟩
  subst hitems
  exact hc.safe hs fun o ho => absurd ho List.not_mem_nil

theorem Guarded.covered {R : List O} {τ : List (Event O H)} (h : Guarded pinned own R τ) :
    Covered pinned own R τ := by
  induction τ generalizing R with
  | nil => trivial
  | cons e τ ih =>
    refine ⟨fun o ho k hk hown => ?_, ih h.2⟩
    exact (h.1 o ho k hk hown).imp_right .inl

/-- What a covered run says about one of its statements. -/
theorem Covered.use {R : List O} {τ τ' : List (Event O H)} {e : Event O H}
    (h : Covered pinned own R (τ ++ e :: τ')) {o : O} (ho : o ∈ readsOf τ) {k : H} (hk : k ∈ e.uses)
    (hown : own o = some k) : pinned o ∨ o ∈ e.reads ∨ o ∈ readsOf τ' := by
  have split : ∀ {R : List O} {τ : List (Event O H)}, Covered pinned own R (τ ++ e :: τ') →
      (o ∈ R ∨ o ∈ readsOf τ) → pinned o ∨ o ∈ e.reads ∨ o ∈ readsOf τ' := by
    intro R τ h ho
    induction τ generalizing R with
    | nil => exact h.1 o (by simpa using ho) k hk hown
    | cons d τ ih =>
      refine ih h.2 ?_
      rw [readsOf_cons, List.mem_append] at ho
      rw [List.mem_append]
      tauto
  exact split h (.inr ho)

end Finalizer
