import InteropJs.Cangjie.Marshal

/-!
# Strings

A string crosses the bridge as a C string, which ends at its first zero byte: `mallocCString` and
`JS_NewString` on the way in, `JS_ToCString`, `copy_string` and `CString.toString` on the way out.

* `newStringUnits_mallocCString` and `string?_cStringBytes`: what arrives are the code points before the first
  U+0000 (`untilZero`).
* `SendsExactly` and `ReadsExactly` say that nothing is lost on the way in and on the way out.
  `strings_exact_iff` says when.
-/

namespace InteropJs

open Hoare

variable {P : Platform} {r : Nat} {b : World P} {l : Loc P} {L : Multiset Resource} {st : Store P}

/-! ## The text of a C string -/

/-- The code points before the first U+0000. -/
def untilZero (cs : List Nat) : List Nat := cs.takeWhile (· ≠ 0)

theorem untilZero_eq_iff {cs : List Nat} : untilZero cs = cs ↔ 0 ∉ cs := by
  rw [untilZero, List.takeWhile_eq_self_iff]
  constructor
  · intro h hz
    simpa using h 0 hz
  · intro h c hc
    have hne : c ≠ 0 := fun h0 => h (h0 ▸ hc)
    simpa using hne

theorem mem_of_mem_untilZero {cs : List Nat} {c : Nat} (h : c ∈ untilZero cs) : c ∈ cs :=
  (List.takeWhile_prefix _).subset h

/-- The units of the string that `toExtern` makes of `s`. -/
def sentUnits (s : String) : List UInt16 := Utf.encode16 (untilZero (Utf.points s))

theorem newStringUnits_mallocCString (s : String) :
    newStringUnits (CStr.text (mallocCString s)) = sentUnits s := by
  have hlt : ∀ c ∈ Utf.points s, c < 0x110000 := fun c hc => (Utf.points_isScalar s c hc).1
  have htext : CStr.text (mallocCString s) = Utf.encode8 (untilZero (Utf.points s)) :=
    Utf.takeWhile_encode8 hlt
  rw [htext]
  exact newStringUnits_encode8 fun c hc => hlt c (mem_of_mem_untilZero hc)

/-- The units are those of `s` when no U+0000 ends it. -/
theorem sentUnits_eq_iff {s : String} :
    sentUnits s = Utf.encode16 (Utf.points s) ↔ 0 ∉ Utf.points s := by
  have hs := Utf.points_isScalar s
  rw [← untilZero_eq_iff]
  constructor
  · intro h
    have hdec := congrArg Utf.decode16 h
    rwa [sentUnits, Utf.decode16_encode16 (fun c hc => hs c (mem_of_mem_untilZero hc)),
      Utf.decode16_encode16 hs] at hdec
  · intro h
    rw [sentUnits, h]

theorem string?_cStringBytes (j : List UInt16) :
    CStr.string? (CStr.text (cStringBytes j)) = Utf.ofPoints (untilZero (Utf.decode16 j)) := by
  have hlt := Utf.decode16_lt j
  have htext : CStr.text (cStringBytes j) = Utf.encode8 (untilZero (Utf.decode16 j)) :=
    Utf.takeWhile_encode8 hlt
  have hdec : Utf.decode8 (Utf.encode8 (untilZero (Utf.decode16 j))) = some (untilZero (Utf.decode16 j)) :=
    Utf.decode8_encode8 fun c hc => hlt c (mem_of_mem_untilZero hc)
  rw [CStr.string?, CStr.text_text, htext, hdec]
  rfl

/-! ## Memory -/

/-- The engine makes the string of `s`, and there is memory for its handle. -/
def Loc.Stores (l : Loc P) (s : String) : Prop :=
  (P.newString (sentUnits s) l.heap).1.toOption.isSome = true ∧ (P.malloc l.host).1 = true

/-- The local state after the string of `s` was made. -/
def Loc.stored (l : Loc P) (s : String) : Loc P :=
  { l.clearError with
    heap := (P.newString (sentUnits s) l.heap).2
    host := (P.malloc l.host).2
    count := l.count + 1 }

/-- What the engine makes of `s`. -/
theorem converted_string (s : String) :
    l.converted (.string s) = match P.newString (sentUnits s) l.heap with
      | (.ok _, h) => (some (.string (sentUnits s)), { l.clearError with heap := h })
      | (.error x, h) => (none, { l.clearError with heap := h, exception := some x }) := by
  have hnew : P.newJSString (mallocCString s) l.heap = EngineM.andThen (P.newString (sentUnits s))
      (fun _ h => (.ok (.string (sentUnits s)), h)) l.heap := by
    rw [Platform.newJSString, newStringUnits_mallocCString]
  show ((P.newJSString (mallocCString s) l.heap).1.toOption,
    l.clearError.after (P.newJSString (mallocCString s) l.heap)) = _
  rw [hnew, EngineM.andThen]
  rcases P.newString (sentUnits s) l.heap with ⟨x | u, h⟩ <;> rfl

theorem converts_string (s : String) : l.Converts (.string s) ↔ l.Stores s := by
  unfold Loc.Converts Loc.Stores
  rw [converted_string]
  rcases P.newString (sentUnits s) l.heap with ⟨x | u, h⟩
  · simp [Loc.delivers, Except.toOption]
  · simp [Loc.delivers, Except.toOption, Loc.clearError]

theorem converted_of_stores {s : String} (h : l.Stores s) :
    (l.converted (.string s)).1 = some (.string (sentUnits s)) ∧
      (l.converted (.string s)).2.kept = l.stored s := by
  obtain ⟨hs, -⟩ := h
  rw [converted_string]
  unfold Loc.stored
  rcases hn : P.newString (sentUnits s) l.heap with ⟨x | u, h⟩
  · rw [hn] at hs
    cases hs
  · exact ⟨rfl, rfl⟩

theorem toCString_string (j : List UInt16) (h : P.Heap) :
    (P.toCString (.string j) h).1 = (P.cString j h).1.map fun _ => cStringBytes j := by
  unfold Platform.toCString EngineM.andThen
  rcases hj : P.cString j h with ⟨x | u, h'⟩ <;> simp only [hj] <;> rfl

theorem readText_string {j : List UInt16} (h : l.Copies (.string j)) :
    readText (l.toText (.string j)).1 = Utf.ofPoints (untilZero (Utf.decode16 j)) := by
  have hbytes : (P.toCString (.string j) l.heap).1 = .ok (cStringBytes j) := by
    have hc := h.1
    rw [toCString_string] at hc ⊢
    rcases hj : (P.cString j l.heap).1 with x | u
    · rw [hj] at hc
      cases hc
    · rfl
  rw [readText_copied hbytes h.2, ← string?_cStringBytes, CStr.string?, CStr.string?, CStr.text_text]

/-! ## The way out -/

theorem fromExtern_text_spec {e : Payload} {x : JSVal} (he : e.Denotes b r x)
    (hkind : x.kind.code = jsValueStringKind ∨ x.kind.code = jsValueBigIntKind) :
    Runs (On r b l L) (JSRuntime.fromExtern .string e)
      (fun a _ => ∃ m, a = .string m ∧ readText (l.toText x).1 = some m)
      (fun _ _ => readText (l.toText x).1 = none) := by
  refine Runs.bind (externContentToValue_spec he) fun p => Runs.lift fun hp => ?_
  obtain ⟨q, rfl, hq⟩ := hp
  refine Runs.bind (valueIsText_spec hq) fun ok => Runs.lift fun hok => ?_
  subst hok
  simp only [hkind, decide_true, if_true]
  refine Runs.bind ((valueAsString_spec hq hkind).post (fun _ _ h => h) fun e s h => h.1) fun m => ?_
  exact Runs.lift fun hm => (Runs.ret _).pre fun s _ => ⟨m, rfl, hm⟩

theorem fromExtern_string_spec {e : Payload} {j : List UInt16} (he : e.Denotes b r (.string j)) :
    Runs (On r b l L) (JSRuntime.fromExtern .string e)
      (fun a _ => ∃ m, a = .string m ∧ readText (l.toText (.string j)).1 = some m)
      (fun _ _ => readText (l.toText (.string j)).1 = none) :=
  fromExtern_text_spec he (.inl rfl)

/-- `fromExtern<String>` of the string `j` gives no other string: it returns the one with the code
points of `j`, or throws. -/
def ReadsExactly (j : List UInt16) (e : Payload) (st : Store P) : Prop :=
  ∃ res st', (JSRuntime.fromExtern .string e).exec.run st = .ok (res, st') ∧
    ∀ a, res = .ok a → ∃ m, a = .string m ∧ Utf.points m = Utf.decode16 j

/-- When `fromExtern<String>` of the string `j` is exact: no U+0000 ends the text, or a surrogate
without its partner before it makes the conversion throw; and without memory for the copy only the
empty string is read as itself. -/
def Loc.ReadsText (l : Loc P) (j : List UInt16) : Prop :=
  (l.Copies (.string j) → 0 ∉ j ∨ ∃ c ∈ untilZero (Utf.decode16 j), Utf.isSurrogate c = true) ∧
    (¬ l.Copies (.string j) → j = [])

/-- The text that is read has the code points of `j`, when there is one. -/
theorem readText_exact_iff {j : List UInt16} :
    (∀ m, readText (l.toText (.string j)).1 = some m → Utf.points m = Utf.decode16 j) ↔ l.ReadsText j := by
  by_cases hc : l.Copies (.string j)
  · rw [readText_string hc]
    constructor
    · intro h
      refine ⟨fun _ => ?_, fun hn => absurd hc hn⟩
      by_cases hs : ∀ c ∈ untilZero (Utf.decode16 j), Utf.IsScalar c
      · obtain ⟨m, hm⟩ : ∃ m, Utf.ofPoints (untilZero (Utf.decode16 j)) = some m := ⟨_, if_pos hs⟩
        have hpoints := (Utf.points_ofPoints hm).symm.trans (h m hm)
        exact .inl fun hz => untilZero_eq_iff.mp hpoints ((Utf.zero_mem_decode16 j).mpr hz)
      · obtain ⟨c, hc, hn⟩ := not_forall₂.mp hs
        refine .inr ⟨c, hc, ?_⟩
        by_contra hsur
        exact hn ⟨Utf.decode16_lt j c (mem_of_mem_untilZero hc), by simpa using hsur⟩
    · rintro ⟨h, -⟩ m hm
      have hpoints := Utf.points_ofPoints hm
      obtain hz | ⟨c, hmem, hsur⟩ := h hc
      · rw [hpoints]
        exact untilZero_eq_iff.mpr fun h0 => hz ((Utf.zero_mem_decode16 j).mp h0)
      · -- a string has no surrogates
        rw [← hpoints] at hmem
        have hs := (Utf.points_isScalar m c hmem).2
        rw [hsur] at hs
        cases hs
  · rw [readText_lost hc]
    constructor
    · intro h
      refine ⟨fun h => absurd h hc, fun _ => ?_⟩
      have hnil : [] = Utf.decode16 j := h "" rfl
      rw [← Utf.encode16_decode16 j, ← hnil]
      rfl
    · rintro ⟨-, h⟩ m hm
      cases hm
      rw [h hc]
      rfl

theorem readsExactly_iff (hst : On r b l L st) {e : Payload} {j : List UInt16}
    (he : e.Denotes b r (.string j)) : ReadsExactly j e st ↔ l.ReadsText j := by
  rw [← readText_exact_iff]
  obtain ⟨res, st', hrun, h⟩ := (fromExtern_string_spec he).run hst
  constructor
  · rintro ⟨res', st'', hrun', hexact⟩ m hm
    rw [hrun] at hrun'
    cases hrun'
    obtain ⟨a, rfl, m', rfl, hm'⟩ | ⟨x, rfl, hnone⟩ := h
    · obtain ⟨m'', heq, hpoints⟩ := hexact _ rfl
      cases heq
      rw [hm] at hm'
      cases hm'
      exact hpoints
    · rw [hm] at hnone
      cases hnone
  · intro hexact
    refine ⟨res, st', hrun, fun a ha => ?_⟩
    obtain ⟨a', rfl, m, rfl, hm⟩ | ⟨x, rfl, -⟩ := h
    · cases ha
      exact ⟨m, rfl, hexact m hm⟩
    · cases ha

/-! ## The way in -/

/-- `toExtern(s)` loses nothing: it throws, or the value denotes the string with the UTF-16 units of
`s`, and `fromExtern<String>` gives `s` back. -/
def SendsExactly (r : Nat) (s : String) (st : Store P) : Prop :=
  ∃ res st', (JSRuntime.toExtern (some r) (.string s)).exec.run st = .ok (res, st') ∧
    ∀ e, res = .ok e → e.Denotes st'.world r (.string (Utf.encode16 (Utf.points s))) ∧
      ∃ st'', (JSRuntime.fromExtern .string e).exec.run st' = .ok (.ok (.string s), st'')

/-- When `toExtern(s)` is exact: it throws, or no U+0000 ends the text and there is memory to read it
back. -/
def Loc.SendsText (l : Loc P) (s : String) : Prop :=
  l.Stores s → 0 ∉ Utf.points s ∧ ((l.stored s).Copies (.string (sentUnits s)) ∨ s = "")

/-- What `fromExtern<String>` reads back of the string that was sent. -/
theorem readText_sent_iff {s : String} (hz : 0 ∉ Utf.points s) :
    readText (l.toText (.string (sentUnits s))).1 = some s ↔ l.Copies (.string (sentUnits s)) ∨ s = "" := by
  have hunits : Utf.decode16 (sentUnits s) = Utf.points s := by
    rw [sentUnits_eq_iff.mpr hz, Utf.decode16_encode16 (Utf.points_isScalar s)]
  by_cases hc : l.Copies (.string (sentUnits s))
  · rw [readText_string hc, hunits, untilZero_eq_iff.mpr hz, Utf.ofPoints_points]
    simp [hc]
  · rw [readText_lost hc]
    simp [hc, eq_comm]

theorem sendsExactly_iff (hst : On r b l L st) (s : String) : SendsExactly r s st ↔ l.SendsText s := by
  obtain ⟨res, st', hrun, h⟩ := toExtern_run (v := .string s) rfl hst
  obtain ⟨ref, x, rfl, hx, hconv, href, hw⟩ | ⟨⟨e, rfl⟩, hconv, -⟩ := h
  · -- the value was made; the rest is about what it denotes and what is read back
    have hstores := (converts_string s).mp hconv
    obtain ⟨hval, hkept⟩ := converted_of_stores hstores
    rw [hx] at hval
    cases hval
    rw [hkept] at hw
    obtain ⟨⟨b', L', hst', hdenotes⟩, honly⟩ := hw.denotes href
    have hval' : (Payload.value ref).Denotes st'.world r (.string (sentUnits s)) := by
      obtain ⟨p, hp, t, ht⟩ := hdenotes
      obtain ⟨e, -, hat⟩ := hst'
      exact ⟨p, hp, t, by rw [hat.values, ht]⟩
    obtain ⟨res', st'', hread, hres⟩ := (fromExtern_string_spec hdenotes).run hst'
    constructor
    · rintro ⟨res₁, st₁, hrun₁, hexact⟩
      rw [hrun] at hrun₁
      cases hrun₁
      obtain ⟨hsame, st₂, hback⟩ := hexact _ rfl
      have hunits := honly _ hsame
      have hz : 0 ∉ Utf.points s := sentUnits_eq_iff.mp (JSVal.string.inj hunits).symm
      refine fun _ => ⟨hz, (readText_sent_iff hz).mp ?_⟩
      rw [hread] at hback
      cases hback
      obtain ⟨a, ha, m, rfl, hm⟩ | ⟨x, hx, -⟩ := hres
      · cases ha
        exact hm
      · cases hx
    · intro hsends
      obtain ⟨hz, hcopy⟩ := hsends hstores
      have hread' := (readText_sent_iff hz).mpr hcopy
      refine ⟨_, st', hrun, fun e he => ?_⟩
      cases he
      refine ⟨by rwa [← sentUnits_eq_iff.mpr hz], st'', ?_⟩
      obtain ⟨a, rfl, m, rfl, hm⟩ | ⟨x, -, hnone⟩ := hres
      · rw [hread'] at hm
        cases hm
        exact hread
      · rw [hread'] at hnone
        cases hnone
  · -- it threw
    have hstores : ¬ l.Stores s := fun h => hconv ((converts_string s).mpr h)
    exact ⟨fun _ h => absurd h hstores, fun _ => ⟨_, st', hrun, fun e he => by cases he⟩⟩

/-! ## Both ways -/

/-- A string is marshalled without loss exactly when no U+0000 cuts it and no lack of memory empties it
(`Loc.SendsText`, `Loc.ReadsText`). -/
theorem strings_exact_iff (hst : On r b l L st) :
    (∀ s, SendsExactly r s st ↔ l.SendsText s) ∧
      ∀ e j, Payload.Denotes e b r (.string j) → (ReadsExactly j e st ↔ l.ReadsText j) :=
  ⟨sendsExactly_iff hst, fun _ _ he => readsExactly_iff hst he⟩

/-- A state in which nothing fails, with a handle of the string `j`. -/
def textState (j : List UInt16) : Store (Platform.idle Unit ()) := Store.sample _ () () (.string j)

theorem textState_denotes (j : List UInt16) :
    Payload.Denotes (.pointer (some 0)) (textState j).world 0 (.string j) :=
  ⟨0, rfl, sample_holds _ _ _ _⟩

theorem strings_exact_iff_short : SendsExactly 0 "a" (textState [0x61]) ∧
    ReadsExactly [0x61] (.pointer (some 0)) (textState [0x61]) := by
  have h := strings_exact_iff (sample_on (Platform.idle Unit ()) () () (.string [0x61]))
  have hz : 0 ∉ Utf.points "a" := by decide
  refine ⟨(h.1 "a").mpr fun _ => ⟨hz, .inl ⟨rfl, rfl⟩⟩, ?_⟩
  refine (h.2 _ _ (textState_denotes _)).mpr ⟨fun _ => .inl (by decide), fun hn => ?_⟩
  exact absurd ⟨rfl, rfl⟩ hn

/-- A string with a U+0000 is cut, in both directions. -/
theorem strings_not_exact : ¬ SendsExactly 0 "a\x00b" (textState [0x61, 0, 0x62]) ∧
    ¬ ReadsExactly [0x61, 0, 0x62] (.pointer (some 0)) (textState [0x61, 0, 0x62]) := by
  have hon := sample_on (Platform.idle Unit ()) () () (.string [0x61, 0, 0x62])
  constructor
  · intro h
    have hz : 0 ∉ Utf.points "a\x00b" := ((sendsExactly_iff hon _).mp h ⟨rfl, rfl⟩).1
    exact hz (by decide)
  · intro h
    have hread := ((readsExactly_iff hon (textState_denotes _)).mp h).1 ⟨rfl, rfl⟩
    revert hread
    decide

end InteropJs
