import InteropJs.Cangjie.Finalizer

/-!
# Unprotected operations

For each operation that is not `Op.Protected` there is a path on which it passes on the handle of an
object that nobody reads any more, and a finaliser that runs right before it. With the safety of the
protected ones this is `Op.safe_iff_protected`.
-/

namespace InteropJs

open Finalizer

variable {pinned : JSValueRef → Prop} {i j : Counters} {runtime : Ptr}

/-! ## Paths of the functions of raw handles -/

/-- A statement that passes on one handle. -/
abbrev use (q : Nat) : Statement := ⟨[], [q]⟩

theorem valueIs_path (kind : Int) (q : Nat) (x : Int) :
    Path i (valueIs kind (some q)) [use q] (.ok (decide (x = kind))) i :=
  .native (x := x) rfl trivial .ret

/-- The target is an object. -/
theorem valueHasProperties_path (q : Nat) :
    Path i (valueHasProperties (some q)) [use q] (.ok true) i :=
  (valueIs_path jsValueObjectKind q 6).bind .ret

/-- The target is `undefined`. -/
theorem valueHasProperties_undefined (q : Nat) :
    Path i (valueHasProperties (some q)) [use q, use q] (.ok false) i :=
  (valueIs_path jsValueObjectKind q 0).bind (valueIs_path jsValueFunctionKind q 0)

theorem getProperty_path (q : Nat) (name : String) :
    ∃ e, Path i (getProperty (some q) name) [use q, use q] (.error e) i :=
  ⟨_, (valueHasProperties_undefined q).bind .raise⟩

theorem setProperty_undefined (q : Nat) (name : String) (v : Ptr) :
    ∃ e, Path i (setProperty (some q) name v) [use q, use q] (.error e) i :=
  ⟨_, (valueHasProperties_undefined q).bind .raise⟩

theorem setProperty_path (q t : Nat) (name : String) :
    Path i (setProperty (some q) name (some t)) [use q, ⟨[], [q, t]⟩] (.ok ()) i :=
  (valueHasProperties_path q).bind (.native (x := 0) rfl trivial .ret)

theorem getIndex_path (q : Nat) (index : Int) :
    ∃ e, Path i (getIndex (some q) index) [use q] (.error e) i :=
  ⟨_, .native (x := 0) rfl trivial .raise⟩

theorem setIndex_noArray (q : Nat) (index : Int) (v : Ptr) :
    ∃ e, Path i (setIndex (some q) index v) [use q] (.error e) i :=
  ⟨_, .native (x := 0) rfl trivial .raise⟩

theorem setIndex_path {q t : Nat} {index : Int} (h₀ : 0 ≤ index) (h : index < 2 ^ 63 - 1) :
    Path i (setIndex (some q) index (some t)) [use q, use q, ⟨[], [q, t]⟩] (.ok ()) i := by
  refine .native (x := 1) rfl trivial ?_
  refine .native (x := 2 ^ 63 - 1) rfl (show (2 ^ 63 - 1 : Int) < 2 ^ 63 by decide) ?_
  show Path i (if index < 0 ∨ 2 ^ 63 - 1 ≤ index then _ else _) _ _ _
  rw [if_neg (by omega)]
  exact .native (x := 0) rfl trivial .ret

theorem quickJS2Cangjie_path (q : Nat) {t : Target} (ht : t ≠ .other) :
    ∃ τ e, Path i (quickJS2Cangjie (some q) t) (use q :: τ) (.error e) i ∧ readsOf τ = [] := by
  have numeric : ∀ ofNumber ofBigInt, Path i (numeric2Cangjie (some q) ofNumber ofBigInt)
      [use q, use q] (.error (.conversion "Unsupported type conversion by JSRuntime")) i :=
    fun _ _ => (valueIs_path jsValueNumberKind q 0).bind
      ((valueIs_path jsValueBigIntKind q 0).bind .raise)
  cases t with
  | bool => exact ⟨[], _, (valueIs_path jsValueBoolKind q 0).bind .raise, rfl⟩
  | string =>
    refine ⟨[use q], _, Path.bind (a := false) (τ := [use q, use q]) ?_ .raise, rfl⟩
    exact (valueIs_path jsValueStringKind q 0).bind (valueIs_path jsValueBigIntKind q 0)
  | int t => exact ⟨_, _, numeric _ _, rfl⟩
  | bigInt => exact ⟨_, _, numeric _ _, rfl⟩
  | float t => exact ⟨_, _, numeric _ _, rfl⟩
  | other => exact absurd rfl ht

theorem valueFromCallHandle_path (runtime : Ptr) :
    ∃ e, Path i (valueFromCallHandle runtime none) [⟨[], []⟩] (.error e) i := by
  have hs : CStr.string? [] = some "" := CStr.string?_eq_some_iff.mpr rfl
  refine ⟨.dynamic "JavaScript function call failed", .native (x := []) rfl trivial ?_⟩
  show Path i ((cStringToString []).bind _) _ _ _
  rw [cStringToString, hs]
  exact .raise

/-! ## Paths of conversions -/

/-- The object that `toJSValue` makes of `v`, from the counters `i`. -/
def Any.Object (i : Counters) (v : Any) (ref : JSValueRef) : Prop :=
  match v with
  | .externValue (.value r) => ref = r
  | .externValue (.pointer h) | .pointer h => i.ref ≤ ref.id ∧ ref.handle = h
  | .externValue (.method _ _) | .externValue .other | .other => False
  | _ => i.ref ≤ ref.id ∧ ref.handle ≠ none

theorem Any.Object.mono {v : Any} {ref : JSValueRef} (h : v.Object j ref) (hij : i.ref ≤ j.ref) :
    v.Object i ref := by
  cases v with
  | externValue e =>
    cases e with
    | pointer p => exact ⟨hij.trans h.1, h.2⟩
    | _ => exact h
  | other => exact h
  | _ => exact ⟨hij.trans h.1, h.2⟩

/-- An object that is neither kept nor one of `f`. -/
theorem Any.Object.exposed {v : Any} {ref : JSValueRef} {f : JSValueRef → Prop}
    (h : v.Object i ref) (hpin : ∀ ref, pinned ref ∨ f ref → ref.id < i.ref)
    (hv : ¬ v.HeldOr pinned f) : ¬ Held pinned ref ∧ ¬ f ref := by
  have fresh : i.ref ≤ ref.id → ref.handle ≠ none → ¬ Held pinned ref ∧ ¬ f ref := by
    intro hid hh
    refine ⟨fun hheld => ?_, fun hf => absurd (hpin ref (.inr hf)) (not_lt.mpr hid)⟩
    obtain hp | hn := hheld
    · exact absurd (hpin ref (.inl hp)) (not_lt.mpr hid)
    · exact hh hn
  cases v with
  | externValue e =>
    cases e with
    | value r =>
      cases h
      exact not_or.mp hv
    | pointer p => exact fresh h.1 (h.2 ▸ hv)
    | method f r => exact h.elim
    | other => exact h.elim
  | pointer p => exact fresh h.1 (h.2 ▸ hv)
  | other => exact h.elim
  | int t x => exact fresh h.1 h.2
  | bigInt x => exact fresh h.1 h.2
  | float t x => exact fresh h.1 h.2
  | bool b => exact fresh h.1 h.2
  | string s => exact fresh h.1 h.2

theorem Any.Object.handle {v : Any} {ref : JSValueRef} {q : Nat} (h : v.Object i ref)
    (hq : v.handle? = some q) : ref.handle = some q := by
  cases v with
  | externValue e =>
    cases e with
    | value r =>
      cases h
      exact hq
    | pointer p => exact h.2.trans hq
    | _ => cases hq
  | pointer p => exact h.2.trans hq
  | _ => cases hq

/-- A new handle, and the object that wraps it. -/
theorem newValue_path (c : Call Ptr) (hgiven : ∀ p, c.given p = p) (hs : ∀ p, c.Sane p) :
    Path i (do newRef (← valueFromRuntimeHandle runtime (← c.prog)) : Prog JSValueRef)
      [⟨[], c.uses⟩, ⟨[⟨i.ref, some i.value⟩], []⟩] (.ok ⟨i.ref, some i.value⟩)
      ⟨i.ref + 1, i.value + 1⟩ :=
  .native (x := some i.value) (by rw [hgiven]; exact ⟨rfl, rfl⟩) (hs _) (.alloc .ret)

theorem toJSValue_path (runtime : Ptr) {v : Any} (hv : ¬ v.Refused) :
    ∃ ref τ j, Path i (JSRuntime.toJSValue runtime v) τ (.ok ref) j ∧ i.ref ≤ j.ref ∧ v.Object i ref := by
  cases v with
  | externValue e =>
    cases e with
    | value r => exact ⟨r, [], i, .ret, le_rfl, rfl⟩
    | pointer p => exact ⟨⟨i.ref, p⟩, _, _, .alloc .ret, Nat.le_succ _, le_rfl, rfl⟩
    | method f r => exact absurd trivial hv
    | other => exact absurd trivial hv
  | pointer p => exact ⟨⟨i.ref, p⟩, _, _, .alloc .ret, Nat.le_succ _, le_rfl, rfl⟩
  | other => exact absurd trivial hv
  | int t x =>
    cases t <;> exact ⟨_, _, _, newValue_path _ (fun _ => rfl) (fun _ => trivial), Nat.le_succ _, le_rfl,
      nofun⟩
  | _ =>
    exact ⟨_, _, _, newValue_path _ (fun _ => rfl) (fun _ => trivial), Nat.le_succ _, le_rfl, nofun⟩

theorem toJSValues_path (runtime : Ptr) {args : List Any} (hargs : ∀ v ∈ args, ¬ v.Refused) :
    ∃ refs τ j, Path i (JSRuntime.toJSValues runtime args) τ (.ok refs) j ∧ i.ref ≤ j.ref ∧
      List.Forall₂ (fun v ref => v.Object i ref) args refs := by
  induction args generalizing i with
  | nil => exact ⟨[], [], i, .ret, le_rfl, .nil⟩
  | cons v args ih =>
    obtain ⟨ref, τ, j, hp, hij, hv⟩ := toJSValue_path (i := i) runtime
      (hargs v List.mem_cons_self)
    obtain ⟨refs, τ', j', hp', hjj, hrefs⟩ := ih (i := j) fun u hu => hargs u (List.mem_cons_of_mem v hu)
    exact ⟨ref :: refs, _, j', hp.bind (hp'.bind .ret), hij.trans hjj,
      .cons hv (hrefs.imp fun _ _ h => h.mono hij)⟩

theorem exists_object {args : List Any} {refs : List JSValueRef} {v : Any}
    (h : List.Forall₂ (fun v ref => v.Object i ref) args refs) (hv : v ∈ args) :
    ∃ ref ∈ refs, v.Object i ref := by
  induction h with
  | nil => cases hv
  | cons hx _ ih =>
    rcases List.mem_cons.mp hv with rfl | hv
    · exact ⟨_, List.mem_cons_self, hx⟩
    · obtain ⟨ref, href, h⟩ := ih hv
      exact ⟨ref, List.mem_cons_of_mem _ href, h⟩

/-! ## Unprotected operations are not safe -/

/-- An object is read, and the next statement passes on its handle. -/
theorem exposed_unsafe {α : Type} {p : Prog α} {τ τ' : List Statement} {res : Except Exn α}
    {ref : JSValueRef} {q : Nat} (hp : Path i p (τ ++ use q :: τ') res j) (href : ref ∈ readsOf τ)
    (hq : ref.handle = some q) (hheld : ¬ Held pinned ref) (hlater : readsOf τ' = []) :
    ¬ p.SafeUnder pinned i :=
  hp.not_safeUnder href List.mem_cons_self hq (fun h => hheld (.inl h)) List.not_mem_nil
    (by simp [hlater])

theorem exists_handle {ref : JSValueRef} (h : ¬ Held pinned ref) : ∃ q, ref.handle = some q :=
  Option.ne_none_iff_exists'.mp fun hn => h (.inr hn)

theorem pointer_path (ref : JSValueRef) :
    Path i ref.pointer [⟨[ref], []⟩] (.ok ref.handle) i := .touch .ret

theorem memberAccess_unsafe {ref : JSValueRef} (h : ¬ Held pinned ref) (field : String) :
    ¬ (JSRuntime.memberAccess (.value ref) field).SafeUnder pinned i := by
  obtain ⟨q, hq⟩ := exists_handle h
  obtain ⟨e, hget⟩ := getProperty_path (i := i) q field
  rw [← hq] at hget
  have hp : Path i (JSRuntime.memberAccess (.value ref) field) _ _ i :=
    (pointer_path ref).bind (Path.bind_error hget)
  exact exposed_unsafe (τ := [⟨[ref], []⟩]) hp (by simp) hq h rfl

theorem indexAccess_unsafe {ref : JSValueRef} {arg : Any} (hkey : ¬ arg.BadKey)
    (h : ¬ Held pinned ref) : ¬ (JSRuntime.indexAccess (.value ref) arg).SafeUnder pinned i := by
  obtain ⟨q, hq⟩ := exists_handle h
  by_cases hs : ∃ s, arg = .string s
  · obtain ⟨s, rfl⟩ := hs
    obtain ⟨e, hget⟩ := getProperty_path (i := i) q s
    rw [← hq] at hget
    have hp : Path i (JSRuntime.indexAccess (.value ref) (.string s)) _ _ i :=
      (pointer_path ref).bind (Path.bind_error hget)
    exact exposed_unsafe (τ := [⟨[ref], []⟩]) hp (by simp) hq h rfl
  · obtain ⟨index, hidx⟩ := Option.ne_none_iff_exists'.mp fun hn => hkey ⟨not_exists.mp hs, hn⟩
    obtain ⟨e, hget⟩ := getIndex_path (i := i) q index
    rw [← hq] at hget
    rw [indexAccess_eq (not_exists.mp hs), jsIndex_eq hidx]
    have hp : Path i (ref.pointer.bind fun p => (Prog.ret index).bind fun k =>
        (getIndex p k).bind jsExtern) _ _ i :=
      (pointer_path ref).bind (Path.bind .ret (Path.bind_error hget))
    exact exposed_unsafe (τ := [⟨[ref], []⟩]) hp (by simp) hq h rfl

section Update

variable {target : JSValueRef} {v : Any} {set : Ptr → Ptr → Prog Unit}

/-- The target, or an object with its handle, is not kept when the target is looked at. -/
theorem update_unsafe_target {t : Nat} (ht : target.handle = some t) (hv : ¬ v.Refused)
    (hset : ∀ i q, ∃ τ e, Path i (set (some t) q) (use t :: τ) (.error e) i ∧ readsOf τ = [])
    (h : ∀ ref, v.Object i ref → ¬ Held pinned target ∨ ref.handle = some t ∧ ¬ Held pinned ref) :
    ¬ (updateWith runtime target v set).SafeUnder pinned i := by
  obtain ⟨ref, τ, j, hconv, -, hobj⟩ := toJSValue_path (i := i) runtime hv
  obtain ⟨τ', e, hend, hreads⟩ := hset j ref.handle
  rw [← ht] at hend
  have hp : Path i (updateWith runtime target v set)
      ((τ ++ [⟨[target], []⟩, ⟨[ref], []⟩]) ++ use t :: τ') (.error e) j := by
    rw [List.append_assoc]
    exact hconv.bind (.touch (.touch hend))
  obtain hn | ⟨href, hn⟩ := h ref hobj
  · exact exposed_unsafe hp (by simp) ht hn hreads
  · exact exposed_unsafe hp (by simp) href hn hreads

/-- The value is not kept when it is stored. -/
theorem update_unsafe_value {t : Nat} (ht : target.handle = some t) (hv : ¬ v.Refused)
    (hset : ∀ i q, ∃ τ, Path i (set (some t) (some q)) (τ ++ [⟨[], [t, q]⟩]) (.ok ()) i)
    (hpin : ∀ ref, pinned ref → ref.id < i.ref) (h : ¬ v.HeldOr pinned fun _ => False) :
    ¬ (updateWith runtime target v set).SafeUnder pinned i := by
  obtain ⟨ref, τ, j, hconv, -, hobj⟩ := toJSValue_path (i := i) runtime hv
  obtain ⟨hn, -⟩ := hobj.exposed (fun ref hr => hpin ref (hr.resolve_right id)) h
  obtain ⟨q, hq⟩ := exists_handle hn
  obtain ⟨τ', hend⟩ := hset j q
  rw [← ht, ← hq] at hend
  have hp : Path i (updateWith runtime target v set)
      ((τ ++ [⟨[target], []⟩, ⟨[ref], []⟩] ++ τ') ++ ⟨[], [t, q]⟩ :: []) (.ok ()) j := by
    rw [List.append_assoc, List.append_assoc]
    exact hconv.bind (.touch (.touch hend))
  exact hp.not_safeUnder (by simp) (by simp) hq (fun h => hn (.inl h)) List.not_mem_nil List.not_mem_nil

/-- An update that is not protected, when the store is reached. -/
theorem update_unsafe (hset : ∀ i t q, ∃ τ e, Path i (set (some t) q) (use t :: τ) (.error e) i ∧
      readsOf τ = [])
    (hset' : ∀ i t q, ∃ τ, Path i (set (some t) (some q)) (τ ++ [⟨[], [t, q]⟩]) (.ok ()) i)
    (hpin : ∀ ref, pinned ref → ref.id < i.ref) (h : ¬ UpdateProtected pinned target v) :
    ¬ (updateWith runtime target v set).SafeUnder pinned i := by
  rw [UpdateProtected, not_or, not_or] at h
  obtain ⟨hv, ht, h⟩ := h
  obtain ⟨t, ht⟩ := Option.ne_none_iff_exists'.mp ht
  by_cases htarget : Held pinned target
  · exact update_unsafe_value ht hv (fun i q => hset' i t q) hpin fun hv => h ⟨htarget, hv⟩
  · exact update_unsafe_target ht hv (fun i q => hset i t q) fun _ _ => .inl htarget

theorem setProperty_unsafe {name : String} (hpin : ∀ ref, pinned ref → ref.id < i.ref)
    (h : ¬ UpdateProtected pinned target v) :
    ¬ (updateWith runtime target v fun p q => setProperty p name q).SafeUnder pinned i := by
  refine update_unsafe (fun i t q => ?_) (fun i t q => ⟨[use t], setProperty_path t q name⟩) hpin h
  obtain ⟨e, he⟩ := setProperty_undefined (i := i) t name q
  exact ⟨[use t], e, he, rfl⟩

theorem indexUpdate_unsafe {arg : Any} (hpin : ∀ ref, pinned ref → ref.id < i.ref)
    (h : ¬ (Op.indexUpdate (.value target) arg v).Protected pinned) :
    ¬ (JSRuntime.indexUpdate runtime (.value target) arg v).SafeUnder pinned i := by
  by_cases hs : ∃ s, arg = .string s
  · obtain ⟨s, rfl⟩ := hs
    exact setProperty_unsafe hpin h
  · have hs := not_exists.mp hs
    have h : ¬ (arg.BadKey ∨ UpdateProtected pinned target v ∨
        arg.OutOfRange ∧ Held pinned target ∧ v.handle? ≠ target.handle) := by
      cases arg with
      | string s => exact absurd rfl (hs s)
      | _ => exact h
    rw [not_or, not_or] at h
    obtain ⟨hkey, hupdate, hrange⟩ := h
    obtain ⟨index, hidx⟩ := Option.ne_none_iff_exists'.mp fun hn => hkey ⟨hs, hn⟩
    rw [indexUpdate_eq hs, jsIndex_eq hidx]
    show ¬ (updateWith runtime target v fun p q => setIndex p index q).SafeUnder pinned i
    have noArray : ∀ i t q, ∃ τ e, Path i (setIndex (some t) index q) (use t :: τ) (.error e) i ∧
        readsOf τ = [] := by
      intro i t q
      obtain ⟨e, he⟩ := setIndex_noArray (i := i) t index q
      exact ⟨[], e, he, rfl⟩
    by_cases hi : 0 ≤ index ∧ index < 2 ^ 63 - 1
    · exact update_unsafe noArray (fun i t q => ⟨[use t, use t], setIndex_path hi.1 hi.2⟩) hpin hupdate
    · have hout : arg.OutOfRange := by
        intro k hk
        rw [hidx] at hk
        cases hk
        omega
      rw [UpdateProtected, not_or, not_or] at hupdate
      obtain ⟨hv, ht, hupdate⟩ := hupdate
      obtain ⟨t, ht⟩ := Option.ne_none_iff_exists'.mp ht
      refine update_unsafe_target ht hv (fun i q => noArray i t q) fun ref hobj => ?_
      by_cases htarget : Held pinned target
      · -- the value is another object with the handle of the target
        have hsame : v.handle? = target.handle := by
          by_contra hne
          exact hrange ⟨hout, htarget, hne⟩
        refine .inr ⟨hobj.handle (hsame.trans ht), ?_⟩
        exact (hobj.exposed (fun ref hr => hpin ref (hr.resolve_right id))
          fun hv => hupdate ⟨htarget, hv⟩).1
      · exact .inl htarget

end Update

section Call

variable {f this : JSValueRef} {refs : List JSValueRef}

/-- The handles that `js_value_construct` gets. -/
def constructUses (f : JSValueRef) (refs : List JSValueRef) : List Nat :=
  f.handle.toList ++ (refs.map (·.handle)).flatMap Option.toList

theorem mem_constructUses {ref : JSValueRef} {q : Nat} (href : ref ∈ f :: refs)
    (hq : ref.handle = some q) : q ∈ constructUses f refs := by
  simp only [constructUses, List.mem_append, Option.mem_toList, List.mem_flatMap, List.mem_map]
  rcases List.mem_cons.mp href with rfl | href
  · exact .inl hq
  · exact .inr ⟨_, ⟨ref, href, rfl⟩, hq⟩

theorem callValue_path (runtime : Ptr) (f this : JSValueRef) (hlen : refs.length ≤ maxArgs) :
    ∃ uses e, Path i (JSRuntime.callValue runtime f this refs) [⟨refs, []⟩, ⟨[f, this], uses⟩, ⟨[], []⟩]
      (.error e) i := by
  obtain ⟨n, -, hofInt⟩ := int32_ofInt_length hlen
  obtain ⟨e, he⟩ := valueFromCallHandle_path (i := i) runtime
  refine ⟨(Call.valueCall f.handle this.handle (some (refs.map (·.handle))) n.val).uses, e, ?_⟩
  unfold JSRuntime.callValue
  rw [hofInt]
  exact .touch (.native (x := none) rfl trivial he)

theorem constructValue_path (runtime : Ptr) (f : JSValueRef) (hlen : refs.length ≤ maxArgs) :
    ∃ e, Path i (JSRuntime.constructValue runtime f refs)
      [⟨refs, []⟩, ⟨[f], constructUses f refs⟩, ⟨[], []⟩] (.error e) i := by
  obtain ⟨n, -, hofInt⟩ := int32_ofInt_length hlen
  obtain ⟨e, he⟩ := valueFromCallHandle_path (i := i) runtime
  refine ⟨e, ?_⟩
  unfold JSRuntime.constructValue
  rw [hofInt]
  exact .touch (.native (x := none) rfl trivial he)

/-- Both attempts fail: an argument or the receiver is not kept when the second one is made. -/
theorem callOrConstruct_unsafe {receiver : Prog JSValueRef} {args : List Any}
    (recv : Option JSValueRef)
    (hrec : ∀ j, ∃ this τ j', Path j receiver τ (.ok this) j' ∧ ∀ ref, recv = some ref → this = ref)
    (hpin : ∀ ref, pinned ref ∨ ref = f → ref.id < i.ref) (h : ¬ CallProtected pinned f recv args) :
    ¬ (JSRuntime.callOrConstruct runtime f receiver args).SafeUnder pinned i := by
  rw [CallProtected, not_or, not_or] at h
  obtain ⟨hlen, hrefused, h⟩ := h
  obtain ⟨refs, τ, j, hconv, -, hobj⟩ := toJSValues_path (i := i) runtime
    fun v hv hr => hrefused ⟨v, hv, hr⟩
  obtain ⟨this, τr, j', hthis, hrecv⟩ := hrec j
  have hlen : refs.length ≤ maxArgs := by
    rw [← hobj.length_eq]
    exact not_lt.mp hlen
  obtain ⟨uses, e, hcall⟩ := callValue_path (i := j') runtime f this hlen
  obtain ⟨e', hconstruct⟩ := constructValue_path (i := j') runtime f hlen
  have hp : Path i (JSRuntime.callOrConstruct runtime f receiver args)
      ((τ ++ (τr ++ [⟨refs, []⟩, ⟨[f, this], uses⟩, ⟨[], []⟩]) ++ [⟨refs, []⟩]) ++
        ⟨[f], constructUses f refs⟩ :: [⟨[], []⟩]) (.error e') j' := by
    rw [List.append_assoc, List.append_assoc]
    exact hconv.bind (Path.tryCatch (hthis.bind (Path.bind_error hcall)) (Path.bind_error hconstruct))
  -- an object that was read, is not kept and is not the function, with a handle that is passed on
  have bad : ∀ o ∈ this :: refs, ¬ Held pinned o → o ≠ f →
      (∃ o' ∈ f :: refs, o'.handle = o.handle) →
      ¬ (JSRuntime.callOrConstruct runtime f receiver args).SafeUnder pinned i := by
    rintro o ho hn hf ⟨o', ho', hsame⟩
    obtain ⟨q, hq⟩ := exists_handle hn
    refine hp.not_safeUnder ?_ (mem_constructUses ho' (hsame.trans hq)) hq (fun h => hn (.inl h))
      (by simpa using hf) (by simp)
    rcases List.mem_cons.mp ho with rfl | ho
    · simp
    · simp [ho]
  rw [not_and_or] at h
  obtain hargs | hrecv' := h
  · push Not at hargs
    obtain ⟨v, hv, hheld⟩ := hargs
    obtain ⟨ref, href, hvref⟩ := exists_object hobj hv
    obtain ⟨hn, hf⟩ := hvref.exposed hpin hheld
    exact bad ref (List.mem_cons_of_mem _ href) hn hf ⟨ref, List.mem_cons_of_mem _ href, rfl⟩
  · push Not at hrecv'
    obtain ⟨ref, hr, hf, hn, hsame⟩ := hrecv'
    obtain rfl := hrecv ref hr
    refine bad this List.mem_cons_self hn hf ?_
    by_cases hhandle : this.handle = f.handle
    · exact ⟨f, List.mem_cons_self, hhandle.symm⟩
    · obtain ⟨v, hv, hvthis⟩ := hsame hhandle
      obtain ⟨q, hq⟩ := exists_handle hn
      obtain ⟨ref, href, hvref⟩ := exists_object hobj hv
      exact ⟨ref, List.mem_cons_of_mem _ href, (hvref.handle (hvthis.trans hq)).trans hq.symm⟩

end Call

theorem fromExtern_unsafe {t : Target} (ht : t ≠ .other) {e : Payload}
    (h : ¬ (Op.fromExtern t e).Protected pinned) (hpin : ∀ ref, pinned ref → ref.id < i.ref) :
    ¬ (JSRuntime.fromExtern t e).SafeUnder pinned i := by
  have raw : ∀ {ref : JSValueRef} {j : Counters}, ¬ Held pinned ref →
      ∃ q τ e, ref.handle = some q ∧ readsOf τ = [] ∧
        Path j (ref.pointer.bind fun p => quickJS2Cangjie p t) ([⟨[ref], []⟩] ++ use q :: τ) (.error e) j := by
    intro ref j hn
    obtain ⟨q, hq⟩ := exists_handle hn
    obtain ⟨τ, e, hp, hτ⟩ := quickJS2Cangjie_path (i := j) q ht
    rw [← hq] at hp
    exact ⟨q, τ, e, hq, hτ, (pointer_path ref).bind hp⟩
  cases e with
  | value ref =>
    have hn : ¬ Held pinned ref := fun hn => h (.inr hn)
    obtain ⟨q, τ, e, hq, hτ, hp⟩ := raw (j := i) hn
    exact exposed_unsafe hp (by simp) hq hn hτ
  | pointer p =>
    have hn : ¬ Held pinned ⟨i.ref, p⟩ := by
      rintro (hp | hp)
      · exact absurd (hpin _ hp) (lt_irrefl _)
      · exact h (.inr hp)
    obtain ⟨q, τ, e, hq, hτ, hp⟩ := raw (j := ⟨i.ref + 1, i.value⟩) hn
    exact exposed_unsafe (τ := [⟨[⟨i.ref, p⟩], []⟩, ⟨[⟨i.ref, p⟩], []⟩]) (Path.alloc hp) (by simp) hq hn hτ
  | method f r => exact absurd trivial h
  | other => exact absurd trivial h

/-! ## All operations -/

/-- The objects that the caller knows, and those that it supplies, were made before the operation, and
so were the handles of these. -/
structure Op.Known (op : Op) (pinned : JSValueRef → Prop) (i : Counters) : Prop where
  pinned : ∀ ref, pinned ref → ref.id < i.ref
  refs : ∀ ref ∈ op.refs, ref.id < i.ref ∧ ∀ q, ref.handle = some q → q < i.value

/-- An operation is safe on every path and under every schedule of finalisers exactly when it is
protected. -/
theorem Op.safe_iff_protected {op : Op} (h : op.Known pinned i) :
    (op.prog runtime).SafeUnder pinned i ↔ op.Protected pinned := by
  refine ⟨fun hsafe => ?_, fun hp => hp.safe h.pinned fun ref hr => (h.refs ref hr).2⟩
  by_contra hn
  cases op with
  | memberAccess e field =>
    cases e with
    | value ref => exact memberAccess_unsafe hn field hsafe
    | _ => exact hn trivial
  | memberUpdate e field v =>
    cases e with
    | value ref => exact setProperty_unsafe h.pinned hn hsafe
    | _ => exact hn trivial
  | indexAccess e arg =>
    cases e with
    | value ref =>
      obtain ⟨hkey, hheld⟩ := not_or.mp hn
      exact indexAccess_unsafe hkey hheld hsafe
    | _ => exact hn trivial
  | indexUpdate e arg v =>
    cases e with
    | value ref => exact indexUpdate_unsafe h.pinned hn hsafe
    | _ => exact hn trivial
  | functionCall e args =>
    have known : ∀ f ∈ e.refs, ∀ ref, pinned ref ∨ ref = f → ref.id < i.ref := by
      rintro f hf ref (hp | rfl)
      · exact h.pinned ref hp
      · exact (h.refs ref (List.mem_append_left _ hf)).1
    cases e with
    | value f =>
      refine callOrConstruct_unsafe none (fun j => ?_) (known f (by simp [Payload.refs])) hn hsafe
      exact ⟨⟨j.ref, none⟩, _, _, .alloc .ret, fun ref hr => absurd hr (by simp)⟩
    | method f receiver =>
      refine callOrConstruct_unsafe (some receiver) (fun j => ?_)
        (known f (by simp [Payload.refs])) hn hsafe
      exact ⟨receiver, [], j, .ret, fun ref hr => Option.some.inj hr⟩
    | _ => exact hn trivial
  | fromExtern t e =>
    have ht : t ≠ .other := by
      rintro rfl
      cases e <;> first | exact hn (.inl rfl) | exact hn trivial
    exact fromExtern_unsafe ht hn h.pinned hsafe
  | _ => exact hn trivial

/-- An object with the handle 0, which the caller keeps. -/
def keptRef : JSValueRef := ⟨0, some 0⟩

theorem memberUpdate_known :
    (Op.memberUpdate (.value keptRef) "a" (.bool true)).Known (· = keptRef) ⟨1, 1⟩ := by
  refine ⟨fun ref h => h ▸ Nat.zero_lt_one, fun ref href => ?_⟩
  simp only [Op.refs, Payload.refs, Any.refs, List.append_nil, List.mem_singleton] at href
  subst href
  exact ⟨Nat.zero_lt_one, fun q hq => Option.some.inj hq ▸ Nat.zero_lt_one⟩

theorem memberUpdate_not_protected :
    ¬ UpdateProtected (· = keptRef) keptRef (.bool true) := by
  rintro (h | h | ⟨-, h⟩)
  · exact h
  · cases h
  · exact h

theorem Op.safe_iff_protected_memberUpdate :
    ¬ ((Op.memberUpdate (.value keptRef) "a" (.bool true)).prog (some 0)).SafeUnder (· = keptRef) ⟨1, 1⟩ :=
  fun h => memberUpdate_not_protected ((Op.safe_iff_protected memberUpdate_known).mp h)

/-- The temporary object of `memberUpdate(o, "a", true)` may be finalised before its handle is
stored. -/
theorem Op.not_safe : ¬ ∀ (op : Op) (pinned : JSValueRef → Prop) (i : Counters) (runtime : Ptr),
    op.Known pinned i → (op.prog runtime).SafeUnder pinned i := by
  intro hall
  exact setProperty_unsafe memberUpdate_known.pinned memberUpdate_not_protected
    (hall _ _ _ (some 0) memberUpdate_known)

end InteropJs
