import InteropJs.Lib.Triple
import InteropJs.Engine.NumString

/-!
# Atoms

A property key of QuickJS is an atom: a small number with a tag, or the index of a string in the atom
table. Two keys are compared as numbers, so a text must have one atom only, whether it came as a name
(`JS_NewAtomLen`) or as an index (`JS_NewAtomUInt32`), and as long as anyone holds it.

* `AtomTable` is the table of the runtime: the chains of the hash table, the array and its free entries.
  A chain is the list that `hash_next` links, and the free entries are a list as well. Symbols are left
  out.
* An entry is a string, and its count is of the references to the atom and of those to the string: `held`
  has both (`Ref`). `Good` is the invariant.
* `Good.step` is what one call keeps, `atoms_are_texts` what a run keeps: equal atoms are equal texts. So
  the text may stand for the key (`PropKey`).
* `Full` is the table that cannot grow any more: the next size wraps as an `int`, and the new entry is
  written past the end of the array.
-/

namespace InteropJs.QuickJS

open Hoare

/-! ## The table -/

def jsAtomTagInt : Nat := 0x80000000

def jsAtomMaxInt : Nat := jsAtomTagInt - 1

def jsAtomMax : Nat := 0x3fffffff

/-- `__JS_AtomFromUInt32`. -/
def atomFromUInt32 (v : Nat) : Nat := v ||| jsAtomTagInt

/-- `JSAtomStruct` with the type `JS_ATOM_TYPE_STRING`. -/
structure AtomStruct where
  str : JSString
  hash : Nat
  refCount : Nat

/-- The atoms of a runtime (module doc); an entry of `array` that is free or unused is `none`. -/
structure AtomTable where
  hashSize : Nat
  hash : Nat → List Nat
  size : Nat
  array : Nat → Option AtomStruct
  free : List Nat
  count : Nat
  countResize : Nat

/-- `hash_string`, the same sum for both widths. -/
def hashString (p : JSString) (h : Nat) : Nat := p.units.foldl (fun h c => (h * 263 + c.toNat) % 2 ^ 32) h

/-- The hash of a string, from `JS_ATOM_TYPE_STRING` on, under `JS_ATOM_HASH_MASK`. -/
def atomHash (p : JSString) : Nat := hashString p 1 &&& 0x3fffffff

/-- An entry at the front of its chain. -/
def link (hash : Nat → List Nat) (j i : Nat) : Nat → List Nat := Function.update hash j (i :: hash j)

namespace AtomTable

/-- `JS_InitAtoms`, before the predefined atoms. -/
def start : AtomTable := ⟨256, fun _ => [], 0, fun _ => none, [], 0, 512⟩

section

variable (t : AtomTable)

def bucket (h : Nat) : Nat := h &&& (t.hashSize - 1)

/-- The entry has the hash and the units. -/
def hit (h : Nat) (p : JSString) (i : Nat) : Bool :=
  match t.array i with
  | some q => q.hash = h ∧ q.str.len = p.len ∧ q.str.units = p.units
  | none => false

/-- The search of `__JS_NewAtom` along the chain. -/
def find (h : Nat) (p : JSString) : Option Nat := (t.hash (t.bucket h)).find? (t.hit h p)

/-- The entry with another count of references. -/
def setCount (i n : Nat) : AtomTable :=
  { t with array := Function.update t.array i ((t.array i).map fun p => { p with refCount := n }) }

def refCount (i : Nat) : Nat := (t.array i).elim 0 (·.refCount)

/-- `JS_ResizeAtomHash`; without memory the chains stay. -/
def resize (memory : Bool) (newSize : Nat) : AtomTable :=
  if !memory then t
  else
    let next := { t with hashSize := newSize, countResize := newSize * 2 }
    let relink (hash : Nat → List Nat) (i : Nat) :=
      link hash (next.bucket ((t.array i).elim 0 (·.hash))) i
    { next with hash := ((List.range t.hashSize).flatMap t.hash).foldl relink fun _ => [] }

/-- The next size of the array, `max_int(211, size * 3 / 2)`: the product is an `int`. -/
def newSize : Nat := (max 211 ((((t.size * 3 : Nat) : Int).bmod (2 ^ 32)).tdiv 2)).toNat

/-- New entries, when none is free. -/
def grow (memory : Bool) : Option AtomTable :=
  if t.free ≠ [] then some t
  else if jsAtomMax < t.newSize ∨ memory = false then none
  else
    -- the atom 0 is not used
    let start := if t.size = 0 then 1 else t.size
    some { t with
      size := t.newSize
      free := List.range' start (t.newSize - start)
      count := if t.size = 0 then t.count + 1 else t.count }

/-- The new entry of a string, with `others` references to it beside the caller's. -/
def insert (i : Nat) (free : List Nat) (p : JSString) (others : Nat) : AtomTable :=
  { t with
    free
    array := Function.update t.array i (some ⟨p, atomHash p, others + 1⟩)
    count := t.count + 1
    hash := link t.hash (t.bucket (atomHash p)) i }

variable (atomEnd : Nat)

/-- `__JS_AtomIsConst`: a predefined atom, or a tagged one, which is negative as an `int32_t`. -/
def isConst (v : Nat) : Bool := jsAtomTagInt ≤ v ∨ v < atomEnd

/-- `JS_DupAtom`. -/
def dup (v : Nat) : AtomTable := if isConst atomEnd v then t else t.setCount v (t.refCount v + 1)

/-- `__JS_NewAtom` of a string that is no atom; `none` is `JS_ATOM_NULL`. The Booleans say whether there is
memory for the array and for the chains. -/
def newAtom (forArray forHash : Bool) (p : JSString) (others : Nat) : Except Fault (Option Nat × AtomTable) :=
  match t.find (atomHash p) p with
  | some i => .ok (some i, t.dup atomEnd i)
  | none =>
    match t.grow forArray with
    | none => .ok (none, t)
    | some t =>
      match t.free with
      -- `atom_free_index` is the old size, and the array is shorter
      | [] => .error .bounds
      | i :: free =>
        let t := t.insert i free p others
        .ok (some i, if t.countResize ≤ t.count then t.resize forHash (t.hashSize * 2) else t)

/-- `JS_NewAtomStr` of a string that is no atom. -/
def newAtomStr (forArray forHash : Bool) (p : JSString) (others : Nat) :
    Except Fault (Option Nat × AtomTable) :=
  match isNumString p with
  | some n =>
    if n ≤ jsAtomMaxInt then .ok (some (atomFromUInt32 n), t) else t.newAtom atomEnd forArray forHash p others
  | none => t.newAtom atomEnd forArray forHash p others

/-- `JS_FreeAtomStruct` of the entry `i`. -/
def remove (i : Nat) : AtomTable :=
  let j := t.bucket ((t.array i).elim 0 (·.hash))
  { t with
    hash := Function.update t.hash j ((t.hash j).erase i)
    array := Function.update t.array i none
    free := i :: t.free
    count := t.count - 1 }

/-- `js_free_string` of the string of the entry `i`, and `__JS_FreeAtom`: the last reference takes the entry
out of its chain. -/
def release (i : Nat) : AtomTable :=
  if 1 < t.refCount i then t.setCount i (t.refCount i - 1) else t.remove i

/-- `JS_FreeAtom`. -/
def freeAtom (v : Nat) : AtomTable := if isConst atomEnd v then t else t.release v

/-- `JS_DupValue` of the string of the entry `i`, and `JS_AtomToString`. -/
def dupString (i : Nat) : AtomTable := t.setCount i (t.refCount i + 1)

/-- `js_get_atom_index`: the entry is looked for in its chain. -/
def getAtomIndex (i : Nat) : Option Nat := (t.hash (t.bucket ((t.array i).elim 0 (·.hash)))).find? (· = i)

/-- `__JS_NewAtom` of the string of the entry `i`: its reference becomes the atom's, which a constant atom
does not count. -/
def newAtomOf (i : Nat) : Except Fault (Option Nat × AtomTable) :=
  match t.getAtomIndex i with
  | none => .error .assertion
  | some i => .ok (some i, if isConst atomEnd i then t.setCount i (t.refCount i - 1) else t)

/-- `JS_NewAtomStr` of the string of the entry `i`. -/
def newAtomStrOf (i : Nat) : Except Fault (Option Nat × AtomTable) :=
  match (t.array i).bind fun p => isNumString p.str with
  | some n => if n ≤ jsAtomMaxInt then .ok (some (atomFromUInt32 n), t.release i) else t.newAtomOf atomEnd i
  | none => t.newAtomOf atomEnd i

def isDigit (c : UInt8) : Bool := 48 ≤ c.toNat ∧ c.toNat ≤ 57

/-- A name of ASCII characters that cannot be a number. -/
def isPlain (buf : List UInt8) : Bool :=
  buf = [] ∨ (isDigit (buf.headD 0) = false ∧ countAscii buf = buf.length)

/-- `__JS_FindAtom`, for the strings with 8-bit units. -/
def findAtom (str : List UInt8) : Option Nat :=
  (t.hash (t.bucket (atomHash (.str8 str)))).find? fun i =>
    t.hit (atomHash (.str8 str)) (.str8 str) i && (t.array i).any (!·.str.isWideChar)

/-- `JS_NewAtomLen`: a plain name is looked up first. -/
def newAtomLen (forArray forHash : Bool) (buf : List UInt8) : ExceptT Fault Alloc (Option Nat × AtomTable) := do
  match if isPlain buf then t.findAtom buf else none with
  | some i => return (some i, t.dup atomEnd i)
  | none =>
    match ← ExceptT.lift (newStringLen buf) with
    | none => return (none, t)
    | some p => ExceptT.mk (pure (t.newAtomStr atomEnd forArray forHash p 0))

/-- `JS_NewAtomUInt32`; `forString` is the memory of `js_new_string8_len`. -/
def newAtomUInt32 (forString forArray forHash : Bool) (n : Nat) : Except Fault (Option Nat × AtomTable) :=
  if n ≤ jsAtomMaxInt then .ok (some (atomFromUInt32 n), t)
  else do
    let buf ← u32toa n
    if forString then t.newAtom atomEnd forArray forHash (.str8 buf) 0 else return (none, t)

/-- The text of an atom. -/
def text (v : Nat) : Option (List UInt16) :=
  if jsAtomTagInt ≤ v then some (decimalUnits (v - jsAtomTagInt)) else (t.array v).map (·.str.units)

end

/-- The array cannot grow: the product in `newSize` is over the range of an `int`. -/
def Full (t : AtomTable) : Prop := t.free = [] ∧ 2 ^ 31 ≤ t.size * 3

/-! ## The invariant -/

/-- A reference of an owner, to an atom or to the string of an entry. -/
inductive Ref where
  | atom (v : Nat)
  | string (i : Nat)
  deriving DecidableEq

def Ref.index : Ref → Nat
  | .atom v => v
  | .string i => i

/-- What the entry counts: the owners of a constant atom are one for it. -/
def refs (atomEnd : Nat) (held : Multiset Ref) (i : Nat) : Nat :=
  (if isConst atomEnd i then 1 else held.count (.atom i)) + held.count (.string i)

/-- The entry belongs to the chain `j`. -/
def inBucket (t : AtomTable) (i j : Nat) : Bool :=
  match t.array i with
  | some p => t.bucket p.hash = j
  | none => false

/-- The reference is to an entry, or to a tagged atom. -/
def Live (t : AtomTable) (ref : Ref) : Prop :=
  t.array ref.index ≠ none ∨ ∃ n ≤ jsAtomMaxInt, ref = .atom (jsAtomTagInt + n)

/-- The table is well formed, and `held` are the references to its entries (module doc). -/
structure Good (atomEnd : Nat) (t : AtomTable) (held : Multiset Ref) : Prop where
  pos : 0 < t.hashSize
  size_le : t.size ≤ jsAtomMax
  chain : ∀ i j, (t.hash j).count i = if t.inBucket i j then 1 else 0
  entry : ∀ i p, t.array i = some p → 0 < i ∧ i < t.size ∧ p.hash = atomHash p.str ∧
    ∀ n ≤ jsAtomMaxInt, p.str.units ≠ decimalUnits n
  unique : ∀ i j p q, t.array i = some p → t.array j = some q → p.str.units = q.str.units → i = j
  free : ∀ i ∈ t.free, 0 < i ∧ i < t.size ∧ t.array i = none
  free_nodup : t.free.Nodup
  counts : ∀ i p, t.array i = some p → p.refCount = refs atomEnd held i
  live : ∀ ref ∈ held, t.Live ref

variable {atomEnd : Nat} {t t' : AtomTable} {held held' : Multiset Ref} {ref : Ref} {p : JSString} {i v : Nat}

theorem Good.start : Good atomEnd start 0 where
  pos := by decide
  size_le := by decide
  chain _ _ := rfl
  entry _ _ h := nomatch h
  unique _ _ _ _ h := nomatch h
  free _ h := nomatch h
  free_nodup := List.nodup_nil
  counts _ _ h := nomatch h
  live _ h := absurd h (Multiset.notMem_zero _)

theorem Good.lt_tag_of_lt (hg : Good atomEnd t held) (h : i < t.size) : i < jsAtomTagInt := by
  have hle := hg.size_le
  unfold jsAtomMax at hle
  unfold jsAtomTagInt
  omega

theorem Good.lt_tag (hg : Good atomEnd t held) {q : AtomStruct} (hq : t.array i = some q) : i < jsAtomTagInt :=
  hg.lt_tag_of_lt (hg.entry i q hq).2.1

theorem Live.entry (h : t.Live ref) (hlt : ref.index < jsAtomTagInt) : t.array ref.index ≠ none := by
  refine h.resolve_right ?_
  rintro ⟨n, -, rfl⟩
  simp only [Ref.index] at hlt
  omega

theorem Live.string (h : t.Live (.string i)) : t.array i ≠ none :=
  h.resolve_right fun ⟨_, _, hne⟩ => nomatch hne

theorem Good.live_cons (hg : Good atomEnd t held) (h : t.Live ref) : ∀ ref' ∈ ref ::ₘ held, t.Live ref' :=
  Multiset.forall_mem_cons.mpr ⟨h, hg.live⟩

theorem Good.refCount_eq (hg : Good atomEnd t held) (hi : t.array i ≠ none) :
    t.refCount i = refs atomEnd held i := by
  obtain ⟨q, hq⟩ := Option.ne_none_iff_exists'.mp hi
  rw [refCount, hq]
  exact hg.counts i q hq

theorem not_isConst (h : ¬ isConst atomEnd v = true) : v < jsAtomTagInt := by
  have : ¬ jsAtomTagInt ≤ v ∧ ¬ v < atomEnd := by simpa [isConst] using h
  omega

/-! ### Counts -/

theorem refs_congr (h : ∀ ref : Ref, ref.index = i → held'.count ref = held.count ref) :
    refs atomEnd held' i = refs atomEnd held i := by
  rw [refs, refs, h (.atom i) rfl, h (.string i) rfl]

theorem refs_cons_of_ne (h : ref.index ≠ i) : refs atomEnd (ref ::ₘ held) i = refs atomEnd held i := by
  refine refs_congr fun ref' href => Multiset.count_cons_of_ne ?_ held
  rintro rfl
  exact h href

theorem refs_cons_string : refs atomEnd (.string i ::ₘ held) i = refs atomEnd held i + 1 := by
  rw [refs, refs, Multiset.count_cons_self, Multiset.count_cons_of_ne (by simp)]
  omega

theorem refs_cons_atom (h : ¬ isConst atomEnd i = true) :
    refs atomEnd (.atom i ::ₘ held) i = refs atomEnd held i + 1 := by
  rw [refs, refs, if_neg h, if_neg h, Multiset.count_cons_self, Multiset.count_cons_of_ne (by simp)]
  omega

theorem refs_cons_const (h : isConst atomEnd i = true) :
    refs atomEnd (.atom i ::ₘ held) i = refs atomEnd held i := by
  rw [refs, refs, if_pos h, if_pos h, Multiset.count_cons_of_ne (by simp)]

/-- An entry that counts nothing has no reference. -/
theorem index_ne_of_refs (h : refs atomEnd held i = 0) (href : ref ∈ held) : ref.index ≠ i := by
  rintro rfl
  have hcount := Multiset.count_pos.mpr href
  unfold refs at h
  cases ref with
  | atom v =>
    replace h : (if isConst atomEnd v = true then 1 else held.count (.atom v)) + held.count (.string v) = 0 := h
    by_cases hc : isConst atomEnd v = true
    · rw [if_pos hc] at h
      omega
    · rw [if_neg hc] at h
      omega
  | string i =>
    simp only [Ref.index] at h
    omega

/-! ### Searches -/

theorem atomHash_congr {p q : JSString} (h : p.units = q.units) : atomHash p = atomHash q := by
  rw [atomHash, atomHash, hashString, hashString, h]

theorem find_some {h : Nat} (hf : t.find h p = some i) : ∃ q, t.array i = some q ∧ q.str.units = p.units := by
  have hhit := List.find?_some hf
  unfold hit at hhit
  split at hhit
  next q hq => exact ⟨q, hq, (by simpa using hhit : _ ∧ _ ∧ _).2.2⟩
  next => cases hhit

/-- The search finds the units if an entry has them. -/
theorem Good.find_none (hg : Good atomEnd t held) (hf : t.find (atomHash p) p = none) :
    ∀ i q, t.array i = some q → q.str.units ≠ p.units := by
  intro i q hq hunits
  have hhash : q.hash = atomHash p := (hg.entry i q hq).2.2.1.trans (atomHash_congr hunits)
  have hmem : i ∈ t.hash (t.bucket (atomHash p)) := by
    rw [← List.count_pos_iff, hg.chain]
    simp [inBucket, hq, hhash]
  have hmiss := List.find?_eq_none.mp hf i hmem
  simp [hit, hq, hhash, hunits, JSString.len] at hmiss

theorem array_setCount {n j : Nat} : (t.setCount i n).array j =
    if j = i then (t.array i).map fun p => { p with refCount := n } else t.array j := by
  by_cases h : j = i
  · subst h
    simp [setCount]
  · simp [setCount, h]

theorem inBucket_setCount {n j k : Nat} : (t.setCount i n).inBucket j k = t.inBucket j k := by
  unfold inBucket
  rw [array_setCount]
  by_cases h : j = i
  · subst h
    rw [if_pos rfl]
    cases t.array j <;> rfl
  · rw [if_neg h]
    rfl

@[simp] theorem text_setCount (n v : Nat) : (t.setCount i n).text v = t.text v := by
  unfold text
  rw [array_setCount]
  by_cases h : v = i
  · subst h
    rw [if_pos rfl]
    cases t.array v <;> rfl
  · rw [if_neg h]

/-- An entry of the table with a new count is an entry of the table before it. -/
theorem entry_setCount {n j : Nat} {q : AtomStruct} (h : (t.setCount i n).array j = some q) :
    ∃ q', t.array j = some q' ∧ q.str = q'.str ∧ q.hash = q'.hash ∧ (j ≠ i → q = q') ∧
      (j = i → q.refCount = n) := by
  rw [array_setCount] at h
  by_cases hj : j = i
  · subst hj
    rw [if_pos rfl, Option.map_eq_some_iff] at h
    obtain ⟨q', hq', rfl⟩ := h
    exact ⟨q', hq', rfl, rfl, fun hne => absurd rfl hne, fun _ => rfl⟩
  · rw [if_neg hj] at h
    exact ⟨q, h, rfl, rfl, fun _ => rfl, fun heq => absurd heq hj⟩

theorem live_setCount {n : Nat} : (t.setCount i n).Live ref ↔ t.Live ref := by
  unfold Live
  rw [array_setCount]
  by_cases h : ref.index = i
  · rw [if_pos h, ← h, Ne, Option.map_eq_none_iff]
  · rw [if_neg h]

/-- The references to one entry change, and its count with them. -/
theorem Good.setCount (hg : Good atomEnd t held) (hi : t.array i ≠ none)
    (hother : ∀ j ≠ i, refs atomEnd held' j = refs atomEnd held j) (hlive : ∀ ref ∈ held', t.Live ref) :
    Good atomEnd (t.setCount i (refs atomEnd held' i)) held' where
  pos := hg.pos
  size_le := hg.size_le
  chain j k := by rw [inBucket_setCount]; exact hg.chain j k
  entry j q hq := by
    obtain ⟨q', hq', hstr, hhash, -⟩ := entry_setCount hq
    rw [hstr, hhash]
    exact hg.entry j q' hq'
  unique j k p q hp hq hunits := by
    obtain ⟨p', hp', hstr, -⟩ := entry_setCount hp
    obtain ⟨q', hq', hstr', -⟩ := entry_setCount hq
    rw [hstr, hstr'] at hunits
    exact hg.unique j k p' q' hp' hq' hunits
  free j hj := by
    obtain ⟨h0, hsize, hnone⟩ := hg.free j hj
    refine ⟨h0, hsize, ?_⟩
    have hne : j ≠ i := by
      rintro rfl
      exact hi hnone
    rw [array_setCount, if_neg hne, hnone]
  free_nodup := hg.free_nodup
  counts j q hq := by
    obtain ⟨q', hq', -, -, hsame, hcount⟩ := entry_setCount hq
    by_cases hj : j = i
    · rw [hcount hj, hj]
    · rw [hsame hj, hg.counts j q' hq', hother j hj]
  live ref href := live_setCount.mpr (hlive ref href)

/-- References that no entry counts. -/
theorem Good.hold (hg : Good atomEnd t held)
    (hcount : ∀ i, t.array i ≠ none → refs atomEnd held' i = refs atomEnd held i)
    (hlive : ∀ ref ∈ held', t.Live ref) : Good atomEnd t held' :=
  { hg with
    counts := fun i q hq =>
      (hg.counts i q hq).trans (hcount i (by rw [hq]; exact Option.some_ne_none q)).symm
    live := hlive }

/-! ### New entries -/

theorem link_count (hash : Nat → List Nat) (j i k m : Nat) :
    (link hash j i k).count m = (hash k).count m + if k = j ∧ m = i then 1 else 0 := by
  unfold link
  by_cases h : k = j
  · subst h
    by_cases hm : m = i
    · subst hm
      simp
    · simp [hm, Ne.symm hm]
  · simp [h]

theorem array_insert_self {free : List Nat} {others : Nat} :
    (t.insert i free p others).array i = some ⟨p, atomHash p, others + 1⟩ := by
  simp [AtomTable.insert]

theorem array_insert_of_ne {free : List Nat} {others j : Nat} (h : j ≠ i) :
    (t.insert i free p others).array j = t.array j := by
  simp [AtomTable.insert, h]

/-- A free entry has no references. -/
theorem Good.not_held (hg : Good atomEnd t held) (hi : i ∈ t.free) (href : ref.index = i) : ref ∉ held := by
  obtain ⟨-, hsize, hnone⟩ := hg.free i hi
  subst href
  exact fun hmem => (hg.live ref hmem).entry (hg.lt_tag_of_lt hsize) hnone

theorem refs_new (others : Nat) (hnew : ∀ ref : Ref, ref.index = i → ref ∉ held) :
    refs atomEnd (.atom i ::ₘ (Multiset.replicate others (.string i) + held)) i = others + 1 := by
  have hatom := Multiset.count_eq_zero_of_notMem (hnew (.atom i) rfl)
  have hstring := Multiset.count_eq_zero_of_notMem (hnew (.string i) rfl)
  simp [refs, Multiset.count_replicate, hatom, hstring]
  omega

theorem refs_new_of_ne {j : Nat} (others : Nat) (hj : j ≠ i) :
    refs atomEnd (.atom i ::ₘ (Multiset.replicate others (.string i) + held)) j = refs atomEnd held j := by
  rw [refs_cons_of_ne (Ne.symm hj)]
  refine refs_congr fun ref href => ?_
  have hne : Ref.string i ≠ ref := by
    rintro rfl
    exact hj href.symm
  rw [Multiset.count_add, Multiset.count_replicate, if_neg hne, Nat.zero_add]

/-- The units of the new entry are new. -/
theorem Good.unique_insert (hg : Good atomEnd t held) {free : List Nat} {others : Nat}
    (hnew : ∀ j q, t.array j = some q → q.str.units ≠ p.units) {j k : Nat} {q q' : AtomStruct}
    (hq : (t.insert i free p others).array j = some q) (hq' : (t.insert i free p others).array k = some q')
    (hunits : q.str.units = q'.str.units) : j = k := by
  by_cases hj : j = i <;> by_cases hk : k = i
  · rw [hj, hk]
  · subst hj
    rw [array_insert_self] at hq
    rw [array_insert_of_ne hk] at hq'
    cases hq
    exact absurd hunits.symm (hnew k q' hq')
  · subst hk
    rw [array_insert_self] at hq'
    rw [array_insert_of_ne hj] at hq
    cases hq'
    exact absurd hunits (hnew j q hq)
  · rw [array_insert_of_ne hj] at hq
    rw [array_insert_of_ne hk] at hq'
    exact hg.unique j k q q' hq hq' hunits

theorem Good.insert (hg : Good atomEnd t held) {free : List Nat} (hfree : t.free = i :: free)
    (hnew : ∀ j q, t.array j = some q → q.str.units ≠ p.units)
    (hnum : ∀ n ≤ jsAtomMaxInt, p.units ≠ decimalUnits n) (others : Nat) :
    Good atomEnd (t.insert i free p others) (.atom i ::ₘ (Multiset.replicate others (.string i) + held)) := by
  have hi : i ∈ t.free := by simp [hfree]
  obtain ⟨h0, hsize, hnone⟩ := hg.free i hi
  have hnodup := hg.free_nodup
  rw [hfree, List.nodup_cons] at hnodup
  refine ⟨hg.pos, hg.size_le, fun j k => ?_, fun j q hq => ?_, fun j k q q' hq hq' => hg.unique_insert hnew hq hq',
    fun j hj => ?_, hnodup.2, fun j q hq => ?_, fun ref href => ?_⟩
  · show (link t.hash (t.bucket (atomHash p)) i k).count j = _
    rw [link_count, hg.chain]
    by_cases hj : j = i
    · subst hj
      simp only [inBucket, hnone, array_insert_self, Bool.false_eq_true, if_false, and_true, Nat.zero_add,
        decide_eq_true_eq]
      exact if_congr eq_comm rfl rfl
    · simp only [inBucket, array_insert_of_ne hj, hj, and_false, if_false, Nat.add_zero]
      rfl
  · by_cases hj : j = i
    · subst hj
      rw [array_insert_self] at hq
      cases hq
      exact ⟨h0, hsize, rfl, hnum⟩
    · rw [array_insert_of_ne hj] at hq
      exact hg.entry j q hq
  · have hne : j ≠ i := fun h => hnodup.1 (h ▸ hj)
    rw [array_insert_of_ne hne]
    exact hg.free j (hfree ▸ List.mem_cons_of_mem i hj)
  · by_cases hj : j = i
    · subst hj
      rw [array_insert_self] at hq
      cases hq
      exact (refs_new others fun ref href => hg.not_held hi href).symm
    · rw [array_insert_of_ne hj] at hq
      rw [hg.counts j q hq, refs_new_of_ne others hj]
  · by_cases h : ref.index = i
    · exact .inl (by rw [h, array_insert_self]; exact Option.some_ne_none _)
    · have hmem : ref ∈ held := by
        rcases Multiset.mem_cons.mp href with rfl | href
        · exact absurd rfl h
        rcases Multiset.mem_add.mp href with href | href
        · rw [Multiset.eq_of_mem_replicate href] at h
          exact absurd rfl h
        · exact href
      refine (hg.live ref hmem).imp_left fun hentry => ?_
      rw [array_insert_of_ne h]
      exact hentry

theorem newSize_eq (hsize : t.size ≤ jsAtomMax) :
    t.newSize = if t.size * 3 < 2 ^ 31 then max 211 (t.size * 3 / 2) else 211 := by
  unfold jsAtomMax at hsize
  unfold newSize
  split
  next hlt =>
    rw [Int.bmod_eq_of_le (by omega) (by omega), Int.tdiv_eq_ediv_of_nonneg (by omega)]
    omega
  next hge =>
    have hwrap : (((t.size * 3 : Nat) : Int).bmod (2 ^ 32)).tdiv 2 ≤ 0 := by
      have hmod : ((t.size * 3 : Nat) : Int) % (2 ^ 32 : Nat) = (t.size * 3 : Nat) :=
        Int.emod_eq_of_lt (by omega) (by omega)
      rw [Int.bmod_def, hmod, if_neg (by omega), ← Int.neg_sub, Int.neg_tdiv]
      have hpos : 0 ≤ (((2 ^ 32 : Nat) : Int) - (t.size * 3 : Nat)).tdiv 2 := Int.tdiv_nonneg (by omega) (by omega)
      omega
    omega

/-- The size goes up until the product wraps. -/
theorem lt_newSize (hsize : t.size ≤ jsAtomMax) (hlt : ¬ 2 ^ 31 ≤ t.size * 3) :
    211 ≤ t.newSize ∧ (t.size ≠ 0 → t.size < t.newSize) := by
  rw [newSize_eq hsize, if_pos (not_le.mp hlt)]
  omega

/-- The table grows, but for the one that is full: the array of that one gets shorter. -/
theorem Good.grow (hg : Good atomEnd t held) {memory : Bool} (h : t.grow memory = some t') :
    t'.array = t.array ∧ (t'.free = [] → t.Full) ∧ (t'.free ≠ [] → Good atomEnd t' held) := by
  have hnext := lt_newSize hg.size_le
  rw [AtomTable.grow] at h
  obtain ⟨n, hn⟩ : ∃ n, t.newSize = n := ⟨_, rfl⟩
  rw [hn] at h hnext
  by_cases hfree : t.free ≠ []
  · rw [if_pos hfree] at h
    cases h
    exact ⟨rfl, fun hnil => absurd hnil hfree, fun _ => hg⟩
  rw [if_neg hfree] at h
  by_cases hsize : jsAtomMax < n ∨ memory = false
  · rw [if_pos hsize] at h
    cases h
  rw [if_neg hsize] at h
  cases h
  refine ⟨rfl, fun hnil => ⟨not_not.mp hfree, by_contra fun hlt => ?_⟩, fun hsome => ?_⟩
  · have hlen := congrArg List.length hnil
    rw [List.length_range', List.length_nil] at hlen
    obtain ⟨h211, hmore⟩ := hnext hlt
    split at hlen <;> omega
  have hle : t.size ≤ n := by
    have hpos := List.length_pos_of_ne_nil hsome
    rw [List.length_range'] at hpos
    split at hpos <;> omega
  have hmax : n ≤ jsAtomMax := not_lt.mp fun hlt => hsize (.inl hlt)
  refine ⟨hg.pos, hmax, hg.chain, fun j q hq => ?_, hg.unique, fun j hj => ?_, List.nodup_range', hg.counts,
    hg.live⟩
  · obtain ⟨h0, hlt, hrest⟩ := hg.entry j q hq
    exact ⟨h0, hlt.trans_le hle, hrest⟩
  · obtain ⟨hlo, hhi⟩ := List.mem_range'_1.mp hj
    have h1 : 0 < j ∧ t.size ≤ j ∧ j < n := by
      by_cases hz : t.size = 0
      · rw [if_pos hz] at hlo hhi
        omega
      · rw [if_neg hz] at hlo hhi
        omega
    refine ⟨h1.1, h1.2.2, ?_⟩
    cases harr : t.array j with
    | none => rfl
    | some q =>
      have := (hg.entry j q harr).2.1
      omega

/-! ### Other chains -/

theorem foldl_link_count (b : Nat → Nat) (l : List Nat) (hash : Nat → List Nat) (i j : Nat) :
    (l.foldl (fun hash k => link hash (b k) k) hash j).count i =
      (hash j).count i + if b i = j then l.count i else 0 := by
  induction l generalizing hash with
  | nil => simp
  | cons k l ih =>
    rw [List.foldl_cons, ih, link_count]
    by_cases hk : i = k
    · subst hk
      by_cases hb : b i = j
      · subst hb
        simp
        omega
      · simp [hb, Ne.symm hb]
    · simp [hk, Ne.symm hk]

theorem bucket_lt (hpos : 0 < t.hashSize) (h : Nat) : t.bucket h < t.hashSize := by
  have : h &&& (t.hashSize - 1) ≤ t.hashSize - 1 := Nat.and_le_right
  unfold bucket
  omega

/-- Every entry stands once in the chains. -/
theorem Good.count_chains (hg : Good atomEnd t held) (i : Nat) :
    ((List.range t.hashSize).flatMap t.hash).count i = if (t.array i).isSome then 1 else 0 := by
  have hall (n : Nat) : ((List.range n).flatMap t.hash).count i =
      match t.array i with
      | some q => if t.bucket q.hash < n then 1 else 0
      | none => 0 := by
    induction n with
    | zero => cases t.array i <;> rfl
    | succ n ih =>
      rw [List.range_succ, List.flatMap_append, List.count_append, ih, List.flatMap_singleton, hg.chain, inBucket]
      cases t.array i with
      | none => rfl
      | some q =>
        simp only [decide_eq_true_eq]
        by_cases h1 : t.bucket q.hash < n
        · rw [if_pos h1, if_neg (by omega), if_pos (by omega)]
        · by_cases h2 : t.bucket q.hash = n
          · rw [if_neg h1, if_pos h2, if_pos (by omega)]
          · rw [if_neg h1, if_neg h2, if_neg (by omega)]
  rw [hall]
  cases t.array i with
  | none => rfl
  | some q => exact if_pos (bucket_lt hg.pos q.hash)

theorem Good.resize (hg : Good atomEnd t held) (memory : Bool) {newSize : Nat} (hn : 0 < newSize) :
    Good atomEnd (t.resize memory newSize) held := by
  cases memory with
  | false => exact hg
  | true =>
    refine ⟨hn, hg.size_le, fun i j => ?_, hg.entry, hg.unique, hg.free, hg.free_nodup, hg.counts, hg.live⟩
    refine (foldl_link_count _ _ _ i j).trans ?_
    rw [hg.count_chains]
    show 0 + _ = if inBucket _ i j then 1 else 0
    unfold inBucket
    show _ = if (match t.array i with | some p => _ | none => false) then 1 else 0
    cases t.array i with
    | none => simp
    | some q =>
      simp
      rfl

theorem array_resize {memory : Bool} {newSize v : Nat} : (t.resize memory newSize).array v = t.array v := by
  cases memory <;> rfl

@[simp] theorem text_resize (memory : Bool) (newSize v : Nat) : (t.resize memory newSize).text v = t.text v := by
  cases memory <;> rfl

/-! ### References -/

theorem Good.dup (hg : Good atomEnd t held) (hv : t.Live (.atom v)) :
    Good atomEnd (t.dup atomEnd v) (.atom v ::ₘ held) ∧ ∀ w, (t.dup atomEnd v).text w = t.text w := by
  have hlive := hg.live_cons hv
  unfold AtomTable.dup
  by_cases hc : isConst atomEnd v = true
  · rw [if_pos hc]
    refine ⟨hg.hold (fun i _ => ?_) hlive, fun w => rfl⟩
    by_cases hi : v = i
    · subst hi
      exact refs_cons_const hc
    · exact refs_cons_of_ne hi
  · rw [if_neg hc]
    have hentry : t.array v ≠ none := hv.entry (not_isConst hc)
    rw [hg.refCount_eq hentry, ← refs_cons_atom hc]
    exact ⟨hg.setCount hentry (fun j hj => refs_cons_of_ne (Ne.symm hj)) hlive, fun w => text_setCount _ w⟩

theorem Good.dupString (hg : Good atomEnd t held) (hi : t.array i ≠ none) :
    Good atomEnd (t.dupString i) (.string i ::ₘ held) ∧ ∀ w, (t.dupString i).text w = t.text w := by
  unfold AtomTable.dupString
  rw [hg.refCount_eq hi, ← refs_cons_string]
  exact ⟨hg.setCount hi (fun j hj => refs_cons_of_ne (Ne.symm hj)) (hg.live_cons (.inl hi)),
    fun w => text_setCount _ w⟩

/-- The entry without references goes, and its text with it. -/
theorem Good.remove (hg : Good atomEnd t (ref ::ₘ held)) {q : AtomStruct} (hq : t.array ref.index = some q)
    (hnone : refs atomEnd held ref.index = 0) : Good atomEnd (t.remove ref.index) held := by
  unfold AtomTable.remove
  simp only [hq, Option.elim_some]
  have harray {j : Nat} {p : AtomStruct} (h : Function.update t.array ref.index none j = some p) :
      j ≠ ref.index ∧ t.array j = some p := by
    by_cases hj : j = ref.index
    · subst hj
      simp at h
    · exact ⟨hj, by simpa [hj] using h⟩
  obtain ⟨h0, hsize, -⟩ := hg.entry ref.index q hq
  refine ⟨hg.pos, hg.size_le, fun i j => ?_, fun j p hp => hg.entry j p (harray hp).2,
    fun j k p p' hp hp' => hg.unique j k p p' (harray hp).2 (harray hp').2, fun j hj => ?_, ?_, fun j p hp => ?_,
    fun ref' href => ?_⟩
  · have hchain := hg.chain i j
    by_cases hi : i = ref.index
    · subst hi
      simp only [inBucket, hq, decide_eq_true_eq] at hchain
      by_cases hj : j = t.bucket q.hash
      · subst hj
        simp [inBucket, List.count_erase_self, hchain]
      · simp [inBucket, hj, hchain, Ne.symm hj]
    · have hsame : ((Function.update t.hash (t.bucket q.hash)
          ((t.hash (t.bucket q.hash)).erase ref.index)) j).count i = (t.hash j).count i := by
        by_cases hj : j = t.bucket q.hash
        · subst hj
          simp [List.count_erase_of_ne hi]
        · simp [hj]
      simp only [inBucket, Function.update_of_ne hi] at hchain ⊢
      exact hsame.trans hchain
  · obtain rfl | hj := List.mem_cons.mp hj
    · exact ⟨h0, hsize, by simp⟩
    · obtain ⟨h0', hsize', hnone⟩ := hg.free j hj
      refine ⟨h0', hsize', ?_⟩
      by_cases h : j = ref.index <;> simp [h, hnone]
  · refine List.nodup_cons.mpr ⟨fun h => ?_, hg.free_nodup⟩
    rw [(hg.free _ h).2.2] at hq
    cases hq
  · obtain ⟨hj, hp⟩ := harray hp
    rw [hg.counts j p hp, refs_cons_of_ne (Ne.symm hj)]
  · have hne : ref'.index ≠ ref.index := index_ne_of_refs hnone href
    refine (hg.live ref' (Multiset.mem_cons_of_mem href)).imp_left fun hentry => ?_
    simpa [hne] using hentry

/-- A counted reference to an entry is given up. -/
theorem Good.release (hg : Good atomEnd t (ref ::ₘ held)) (hentry : t.array ref.index ≠ none)
    (hcount : refs atomEnd (ref ::ₘ held) ref.index = refs atomEnd held ref.index + 1) :
    Good atomEnd (t.release ref.index) held ∧
      ∀ ref' ∈ held, (t.release ref.index).text ref'.index = t.text ref'.index := by
  unfold AtomTable.release
  rw [hg.refCount_eq hentry, hcount, Nat.add_sub_cancel]
  by_cases hmore : 1 < refs atomEnd held ref.index + 1
  · rw [if_pos hmore]
    exact ⟨hg.setCount hentry (fun j hj => (refs_cons_of_ne (Ne.symm hj)).symm)
      fun ref' href => hg.live ref' (Multiset.mem_cons_of_mem href), fun ref' _ => text_setCount _ _⟩
  · rw [if_neg hmore]
    have hnone : refs atomEnd held ref.index = 0 := by omega
    obtain ⟨q, hq⟩ := Option.ne_none_iff_exists'.mp hentry
    refine ⟨hg.remove hq hnone, fun ref' href => ?_⟩
    have hne : ref'.index ≠ ref.index := index_ne_of_refs hnone href
    simp [AtomTable.remove, text, hne]

theorem Good.freeAtom (hg : Good atomEnd t (.atom v ::ₘ held)) :
    Good atomEnd (t.freeAtom atomEnd v) held ∧
      ∀ ref ∈ held, (t.freeAtom atomEnd v).text ref.index = t.text ref.index := by
  unfold AtomTable.freeAtom
  by_cases hc : isConst atomEnd v = true
  · rw [if_pos hc]
    refine ⟨hg.hold (fun i _ => ?_) fun ref href => hg.live ref (Multiset.mem_cons_of_mem href), fun _ _ => rfl⟩
    by_cases hi : v = i
    · subst hi
      exact (refs_cons_const hc).symm
    · exact (refs_cons_of_ne (i := i) (show (Ref.atom v).index ≠ i from hi)).symm
  · rw [if_neg hc]
    have hentry := (hg.live (.atom v) (Multiset.mem_cons_self _ _)).entry (not_isConst hc)
    exact hg.release hentry (refs_cons_atom hc)

theorem Good.freeString (hg : Good atomEnd t (.string i ::ₘ held)) :
    Good atomEnd (t.release i) held ∧ ∀ ref ∈ held, (t.release i).text ref.index = t.text ref.index := by
  have hentry : t.array i ≠ none := (hg.live (.string i) (Multiset.mem_cons_self _ _)).string
  exact hg.release hentry refs_cons_string

/-! ## Texts and atoms -/

/-- The references after a call that gave an atom, or none. The `others` are to the entry if it is a new one. -/
def gain (t : AtomTable) (held : Multiset Ref) (others : Nat) : Option Nat × AtomTable → Multiset Ref
  | (some v, t') =>
    let toEntry := if (t.array v).isNone ∧ (t'.array v).isSome then others else 0
    .atom v ::ₘ (Multiset.replicate toEntry (.string v) + held)
  | (none, _) => held

/-- A call that was asked for the atom of the text: it gives that atom or none, and no atom or string that is
held gets another text. -/
structure Gave (atomEnd : Nat) (t : AtomTable) (held : Multiset Ref) (others : Nat) (us : List UInt16)
    (r : Option Nat × AtomTable) : Prop where
  good : Good atomEnd r.2 (gain t held others r)
  gives : ∀ v, r.1 = some v → r.2.text v = some us
  keeps : ∀ ref ∈ held, r.2.text ref.index = t.text ref.index

/-- What `res` is of such a call; only a table that is full is written past its end. -/
def Ended (t : AtomTable) (Q : Option Nat × AtomTable → Prop) : Except Fault (Option Nat × AtomTable) → Prop
  | .ok r => Q r
  | .error e => e = .bounds ∧ t.Full

theorem gain_entry {others : Nat} {q : AtomStruct} (hq : t.array v = some q) :
    gain t held others (some v, t') = .atom v ::ₘ held := by
  simp [gain, hq]

theorem Good.text_entry (hg : Good atomEnd t held) {q : AtomStruct} (hq : t.array i = some q) :
    t.text i = some q.str.units := by
  rw [text, if_neg (not_le.mpr (hg.lt_tag hq)), hq]
  rfl

theorem text_tagged (n : Nat) : t.text (jsAtomTagInt + n) = some (decimalUnits n) := by
  rw [text, if_pos (by omega), Nat.add_sub_cancel_left]

/-- An entry that was found. -/
theorem Good.found (hg : Good atomEnd t held) {q : AtomStruct} (hq : t.array i = some q) {us : List UInt16}
    (hus : q.str.units = us) (others : Nat) : Gave atomEnd t held others us (some i, t.dup atomEnd i) := by
  obtain ⟨hgood, htext⟩ := hg.dup (v := i) (.inl (by rw [Ref.index, hq]; exact Option.some_ne_none q))
  refine ⟨?_, fun v hv => ?_, fun ref _ => htext ref.index⟩
  · rw [gain_entry hq]
    exact hgood
  · cases hv
    rw [htext, hg.text_entry hq, hus]

/-- No atom, for lack of memory. -/
theorem Good.gave_none (hg : Good atomEnd t held) (others : Nat) (us : List UInt16) :
    Gave atomEnd t held others us (none, t) :=
  ⟨hg, fun _ hv => (nomatch hv), fun _ _ => rfl⟩

theorem Good.newAtom (hg : Good atomEnd t held) (forArray forHash : Bool) (others : Nat)
    (hnum : ∀ n ≤ jsAtomMaxInt, p.units ≠ decimalUnits n) :
    t.Ended (Gave atomEnd t held others p.units) (t.newAtom atomEnd forArray forHash p others) := by
  unfold AtomTable.newAtom
  cases hfind : t.find (atomHash p) p with
  | some i =>
    obtain ⟨q, hq, hunits⟩ := find_some hfind
    exact hg.found hq hunits others
  | none =>
    cases hgrow : t.grow forArray with
    | none => exact hg.gave_none others p.units
    | some t₁ =>
      obtain ⟨harray, hfull, hgrown⟩ := hg.grow hgrow
      have htext (w : Nat) : t₁.text w = t.text w := by rw [text, text, harray]
      dsimp only
      cases hfree : t₁.free with
      | nil => exact ⟨rfl, hfull hfree⟩
      | cons i free =>
        have hg₁ := hgrown (by rw [hfree]; exact List.cons_ne_nil i free)
        have hnew := hg₁.insert hfree (harray ▸ hg.find_none hfind) hnum others
        have hi : i ∈ t₁.free := by simp [hfree]
        have hnone : t.array i = none := harray ▸ (hg₁.free i hi).2.2
        have hgain {t₂ : AtomTable} (h : t₂.array i = some ⟨p, atomHash p, others + 1⟩) :
            gain t held others (some i, t₂) = .atom i ::ₘ (Multiset.replicate others (.string i) + held) := by
          simp [gain, hnone, h]
        have hkeep (ref : Ref) (href : ref ∈ held) :
            (t₁.insert i free p others).text ref.index = t.text ref.index := by
          have hne : ref.index ≠ i := fun heq => hg₁.not_held hi heq href
          rw [← htext, text, text, array_insert_of_ne hne]
        dsimp only
        by_cases hmany : (t₁.insert i free p others).countResize ≤ (t₁.insert i free p others).count
        · rw [if_pos hmany]
          refine ⟨?_, fun v hv => ?_, fun ref href => ?_⟩
          · rw [hgain (array_resize.trans array_insert_self)]
            exact hnew.resize forHash (Nat.mul_pos hnew.pos (by omega))
          · cases hv
            rw [text_resize, hnew.text_entry array_insert_self]
          · rw [text_resize, hkeep ref href]
        · rw [if_neg hmany]
          refine ⟨?_, fun v hv => ?_, hkeep⟩
          · rw [hgain array_insert_self]
            exact hnew
          · cases hv
            rw [hnew.text_entry array_insert_self]

theorem atomFromUInt32_eq {n : Nat} (hn : n ≤ jsAtomMaxInt) : atomFromUInt32 n = jsAtomTagInt + n := by
  have hlt : n < 2 ^ 31 := by
    unfold jsAtomMaxInt jsAtomTagInt at hn
    omega
  have h := Nat.two_pow_add_eq_or_of_lt hlt 1
  rw [atomFromUInt32, Nat.or_comm]
  exact h.symm

/-- A number that has a tagged atom. -/
theorem Good.tagged (hg : Good atomEnd t held) {n : Nat} (hn : n ≤ jsAtomMaxInt) (others : Nat) :
    Gave atomEnd t held others (decimalUnits n) (some (atomFromUInt32 n), t) := by
  rw [atomFromUInt32_eq hn]
  have hconst : t.dup atomEnd (jsAtomTagInt + n) = t := if_pos (by simp [isConst])
  obtain ⟨hgood, -⟩ := hg.dup (.inr ⟨n, hn, rfl⟩)
  rw [hconst] at hgood
  refine ⟨?_, fun v hv => ?_, fun _ _ => rfl⟩
  · have hold : ¬ ((t.array (jsAtomTagInt + n)).isNone ∧ (t.array (jsAtomTagInt + n)).isSome) := by
      cases t.array (jsAtomTagInt + n) <;> simp
    rw [gain, if_neg hold, Multiset.replicate_zero, Multiset.zero_add]
    exact hgood
  · cases hv
    exact text_tagged n

theorem Good.newAtomStr (hg : Good atomEnd t held) (forArray forHash : Bool) (p : JSString) (others : Nat) :
    t.Ended (Gave atomEnd t held others p.units) (t.newAtomStr atomEnd forArray forHash p others) := by
  unfold AtomTable.newAtomStr
  have hmax {n : Nat} (hn : n ≤ jsAtomMaxInt) : n < 2 ^ 32 := by
    unfold jsAtomMaxInt jsAtomTagInt at hn
    omega
  cases hnum : isNumString p with
  | some n =>
    obtain ⟨-, hunits⟩ := isNumString_iff.mp hnum
    dsimp only
    by_cases hn : n ≤ jsAtomMaxInt
    · rw [if_pos hn, hunits]
      exact hg.tagged hn others
    · rw [if_neg hn]
      refine hg.newAtom forArray forHash others fun m hm h => hn ?_
      rwa [decimalUnits_injective (hunits.symm.trans h)]
  | none =>
    refine hg.newAtom forArray forHash others fun m hm h => ?_
    rw [isNumString_iff.mpr ⟨hmax hm, h⟩] at hnum
    cases hnum

theorem Good.newAtomUInt32 (hg : Good atomEnd t held) (forString forArray forHash : Bool) {n : Nat}
    (hn : n < 2 ^ 32) :
    t.Ended (Gave atomEnd t held 0 (decimalUnits n)) (t.newAtomUInt32 atomEnd forString forArray forHash n) := by
  unfold AtomTable.newAtomUInt32
  by_cases hmax : n ≤ jsAtomMaxInt
  · rw [if_pos hmax]
    exact hg.tagged hmax 0
  · rw [if_neg hmax, u32toa_spec hn]
    cases forString with
    | false => exact hg.gave_none 0 _
    | true =>
      refine hg.newAtom (p := .str8 (radixText 10 n)) forArray forHash 0 fun m hm h => hmax ?_
      rwa [decimalUnits_injective h]

theorem findAtom_some {str : List UInt8} (hf : t.findAtom str = some i) :
    ∃ q, t.array i = some q ∧ q.str.units = (JSString.str8 str).units := by
  have hhit := List.find?_some hf
  obtain ⟨hhit, -⟩ := Bool.and_eq_true_iff.mp hhit
  unfold hit at hhit
  split at hhit
  next q hq => exact ⟨q, hq, (by simpa using hhit : _ ∧ _ ∧ _).2.2⟩
  next => cases hhit

theorem newStringUnits_ascii_all {buf : List UInt8} (h : countAscii buf = buf.length) :
    newStringUnits buf = (JSString.str8 buf).units := by
  have hall := countAscii_ascii buf
  rw [h, List.take_length] at hall
  have happend := newStringUnits_append_ascii hall []
  rw [List.append_nil] at happend
  rw [happend]
  exact List.append_nil _

theorem Good.newAtomLen (hg : Good atomEnd t held) (forArray forHash : Bool) {buf : List UInt8}
    (hbuf : buf.length ≤ jsStringLenMax) (ok : Prop) :
    Ends (Answers ok) (t.newAtomLen atomEnd forArray forHash buf) (fun e => e = .bounds ∧ t.Full)
      (Gave atomEnd t held 0 (newStringUnits buf)) := by
  have hint : buf.length < 2 ^ 31 := by
    unfold jsStringLenMax at hbuf
    omega
  unfold AtomTable.newAtomLen
  split
  next i hi =>
    refine Ends.ret ?_
    split at hi
    next hplain =>
      obtain ⟨q, hq, hunits⟩ := findAtom_some hi
      have hascii : countAscii buf = buf.length := by
        obtain rfl | h : buf = [] ∨ (isDigit (buf.headD 0) = false ∧ countAscii buf = buf.length) := by
          simpa [isPlain] using hplain
        · rfl
        · exact h.2
      exact hg.found hq (hunits.trans (newStringUnits_ascii_all hascii).symm) 0
    next => cases hi
  next =>
    refine Ends.bind (Ends.lift (newStringLen_made hint fun _ => hbuf)) fun o ho => ?_
    cases o with
    | none => exact Ends.ret (hg.gave_none 0 _)
    | some p =>
      have hunits : p.units = newStringUnits buf := ho.1
      have hended := hg.newAtomStr forArray forHash p 0
      rw [hunits] at hended
      show Ends _ (ExceptT.mk (pure (t.newAtomStr atomEnd forArray forHash p 0))) _ _
      revert hended
      generalize t.newAtomStr atomEnd forArray forHash p 0 = res
      cases res with
      | ok r => exact fun hgave => Ends.ret hgave
      | error e => exact fun hfull => Ends.throw hfull

/-! ### The string of an atom -/

theorem Good.getAtomIndex (hg : Good atomEnd t held) (hi : t.array i ≠ none) : t.getAtomIndex i = some i := by
  obtain ⟨q, hq⟩ := Option.ne_none_iff_exists'.mp hi
  have hmem : i ∈ t.hash (t.bucket q.hash) := by
    rw [← List.count_pos_iff, hg.chain]
    simp [inBucket, hq]
  rw [AtomTable.getAtomIndex, hq, Option.elim_some]
  cases hfind : (t.hash (t.bucket q.hash)).find? (· = i) with
  | none => simpa using List.find?_eq_none.mp hfind i hmem
  | some j =>
    have hj : j = i := by simpa using List.find?_some hfind
    rw [hj]

/-- The reference to the string becomes one to the atom. -/
theorem Good.newAtomStrOf (hg : Good atomEnd t (.string i ::ₘ held)) :
    ∃ t', t.newAtomStrOf atomEnd i = .ok (some i, t') ∧ Good atomEnd t' (.atom i ::ₘ held) ∧
      ∀ w, t'.text w = t.text w := by
  have hi : t.array i ≠ none := (hg.live (.string i) (Multiset.mem_cons_self _ _)).string
  obtain ⟨q, hq⟩ := Option.ne_none_iff_exists'.mp hi
  have hof : t.newAtomStrOf atomEnd i = t.newAtomOf atomEnd i := by
    rw [AtomTable.newAtomStrOf, hq, Option.bind_some]
    cases hnum : isNumString q.str with
    | none => rfl
    | some n =>
      refine if_neg fun hn => ?_
      exact (hg.entry i q hq).2.2.2 n hn (isNumString_iff.mp hnum).2
  have hlive : ∀ ref ∈ .atom i ::ₘ held, t.Live ref :=
    Multiset.forall_mem_cons.mpr ⟨.inl hi, fun ref href => hg.live ref (Multiset.mem_cons_of_mem href)⟩
  have hother (j : Nat) (hj : j ≠ i) :
      refs atomEnd (.atom i ::ₘ held) j = refs atomEnd (.string i ::ₘ held) j := by
    rw [refs_cons_of_ne (Ne.symm hj), refs_cons_of_ne (Ne.symm hj)]
  rw [hof, AtomTable.newAtomOf, hg.getAtomIndex hi]
  refine ⟨_, rfl, ?_⟩
  by_cases hc : isConst atomEnd i = true
  · rw [if_pos hc, hg.refCount_eq hi, refs_cons_string, Nat.add_sub_cancel, ← refs_cons_const hc]
    exact ⟨hg.setCount hi hother hlive, fun w => text_setCount _ w⟩
  · rw [if_neg hc]
    refine ⟨hg.hold (fun j _ => ?_) hlive, fun w => rfl⟩
    by_cases hj : j = i
    · rw [hj, refs_cons_atom hc, refs_cons_string]
    · exact hother j hj

/-! ## Runs -/

/-- A call on the table, by an owner of references that duplicates and frees only what it holds. -/
inductive Step (atomEnd : Nat) : AtomTable × Multiset Ref → AtomTable × Multiset Ref → Prop where
  | name {t : AtomTable} {held : Multiset Ref} {M : Type} (lib : Allocator M) (m : M)
      (forArray forHash : Bool) {buf : List UInt8} (hbuf : buf.length ≤ jsStringLenMax)
      {r : Option Nat × AtomTable}
      (ran : ((t.newAtomLen atomEnd forArray forHash buf).run.run lib m).1 = .ok r) :
      Step atomEnd (t, held) (r.2, gain t held 0 r)
  /-- `JS_NewAtomStr`, also in `JS_ValueToAtom`. -/
  | string {t : AtomTable} {held : Multiset Ref} (forArray forHash : Bool) (p : JSString) (others : Nat)
      {r : Option Nat × AtomTable} (ran : t.newAtomStr atomEnd forArray forHash p others = .ok r) :
      Step atomEnd (t, held) (r.2, gain t held others r)
  | index {t : AtomTable} {held : Multiset Ref} (forString forArray forHash : Bool) {n : Nat} (hn : n < 2 ^ 32)
      {r : Option Nat × AtomTable} (ran : t.newAtomUInt32 atomEnd forString forArray forHash n = .ok r) :
      Step atomEnd (t, held) (r.2, gain t held 0 r)
  /-- The same functions, of the string of an entry. -/
  | own {t t' : AtomTable} {held : Multiset Ref} {i v : Nat}
      (ran : t.newAtomStrOf atomEnd i = .ok (some v, t')) :
      Step atomEnd (t, .string i ::ₘ held) (t', .atom v ::ₘ held)
  | dup {t : AtomTable} {held : Multiset Ref} {v : Nat} (hv : .atom v ∈ held) :
      Step atomEnd (t, held) (t.dup atomEnd v, .atom v ::ₘ held)
  | dupString {t : AtomTable} {held : Multiset Ref} {ref : Ref} (href : ref ∈ held)
      (hentry : ref.index < jsAtomTagInt) :
      Step atomEnd (t, held) (t.dupString ref.index, .string ref.index ::ₘ held)
  | free {t : AtomTable} {held : Multiset Ref} {v : Nat} :
      Step atomEnd (t, .atom v ::ₘ held) (t.freeAtom atomEnd v, held)
  | freeString {t : AtomTable} {held : Multiset Ref} {i : Nat} :
      Step atomEnd (t, .string i ::ₘ held) (t.release i, held)

/-- What one step keeps. -/
theorem Good.step (hg : Good atomEnd t held) {x : AtomTable × Multiset Ref} (h : Step atomEnd (t, held) x) :
    Good atomEnd x.1 x.2 ∧ ∀ ref ∈ held, ref ∈ x.2 → x.1.text ref.index = t.text ref.index := by
  cases h with
  | name lib m forArray forHash hbuf ran =>
    have hends := EveryEnd.of (hg.newAtomLen forArray forHash hbuf) _ lib m
    rw [ran] at hends
    exact ⟨hends.good, fun ref href _ => hends.keeps ref href⟩
  | string forArray forHash p others ran =>
    have hended := hg.newAtomStr forArray forHash p others
    rw [ran] at hended
    exact ⟨hended.good, fun ref href _ => hended.keeps ref href⟩
  | index forString forArray forHash hn ran =>
    have hended := hg.newAtomUInt32 forString forArray forHash hn
    rw [ran] at hended
    exact ⟨hended.good, fun ref href _ => hended.keeps ref href⟩
  | own ran =>
    obtain ⟨t₁, hran, hgood, htext⟩ := hg.newAtomStrOf
    cases hran.symm.trans ran
    exact ⟨hgood, fun ref _ _ => htext ref.index⟩
  | dup hv =>
    obtain ⟨hgood, htext⟩ := hg.dup (hg.live _ hv)
    exact ⟨hgood, fun ref _ _ => htext ref.index⟩
  | dupString href hentry =>
    obtain ⟨hgood, htext⟩ := hg.dupString ((hg.live _ href).entry hentry)
    exact ⟨hgood, fun ref _ _ => htext ref.index⟩
  | free =>
    obtain ⟨hgood, htext⟩ := hg.freeAtom
    exact ⟨hgood, fun ref _ href => htext ref href⟩
  | freeString =>
    obtain ⟨hgood, htext⟩ := hg.freeString
    exact ⟨hgood, fun ref _ href => htext ref href⟩

/-- What a run from the start keeps. -/
theorem good_of_run {x : AtomTable × Multiset Ref} (h : Relation.ReflTransGen (Step atomEnd) (start, 0) x) :
    Good atomEnd x.1 x.2 :=
  Hoare.reach_invariant (I := fun x : AtomTable × Multiset Ref => Good atomEnd x.1 x.2)
    (fun _ _ hg hs => (hg.step hs).1) Good.start h

/-- Equal atoms are equal texts. -/
theorem Good.text_eq_iff (hg : Good atomEnd t held) {ref ref' : Ref} (href : ref ∈ held) (href' : ref' ∈ held) :
    ∃ a b, t.text ref.index = some a ∧ t.text ref'.index = some b ∧ (ref.index = ref'.index ↔ a = b) := by
  have hcases (ref : Ref) (href : ref ∈ held) :
      (∃ q, t.array ref.index = some q) ∨ ∃ n ≤ jsAtomMaxInt, ref.index = jsAtomTagInt + n := by
    refine (hg.live ref href).imp Option.ne_none_iff_exists'.mp ?_
    rintro ⟨n, hn, rfl⟩
    exact ⟨n, hn, rfl⟩
  obtain ⟨p, hp⟩ | ⟨n, hn, hv⟩ := hcases ref href <;> obtain ⟨q, hq⟩ | ⟨m, hm, hw⟩ := hcases ref' href'
  · refine ⟨_, _, hg.text_entry hp, hg.text_entry hq, fun h => ?_, hg.unique _ _ p q hp hq⟩
    rw [h, hq] at hp
    cases hp
    rfl
  · have hlt := hg.lt_tag hp
    refine ⟨_, _, hg.text_entry hp, hw ▸ text_tagged m, fun h => by omega, fun h => ?_⟩
    exact absurd h ((hg.entry _ p hp).2.2.2 m hm)
  · have hlt := hg.lt_tag hq
    refine ⟨_, _, hv ▸ text_tagged n, hg.text_entry hq, fun h => by omega, fun h => ?_⟩
    exact absurd h.symm ((hg.entry _ q hq).2.2.2 n hn)
  · refine ⟨_, _, hv ▸ text_tagged n, hw ▸ text_tagged m, fun h => ?_, fun h => ?_⟩
    · have hnm : n = m := by omega
      rw [hnm]
    · rw [hv, hw, decimalUnits_injective h]

/-- A call gives the atom of the text or none. -/
def Names (t : AtomTable) (us : List UInt16) : Except Fault (Option Nat × AtomTable) → Prop :=
  t.Ended fun r => ∀ v, r.1 = some v → r.2.text v = some us

theorem Ended.names {others : Nat} {us : List UInt16} {res : Except Fault (Option Nat × AtomTable)}
    (h : t.Ended (Gave atomEnd t held others us) res) : t.Names us res := by
  cases res with
  | ok r => exact h.gives
  | error e => exact h

/-- In every run, whatever is freed and whatever memory does: two atoms that are held are the same number
exactly if they have the same text, a name and an index included; an atom or its string keeps its text as
long as it is held; and a new atom has the text that it was asked for. Only in a table that is full, and
wraps in its next size, does a call write past the end of the array. -/
theorem atoms_are_texts (h : Relation.ReflTransGen (Step atomEnd) (start, 0) (t, held)) :
    (∀ ref ∈ held, ∀ ref' ∈ held, ∃ a b, t.text ref.index = some a ∧ t.text ref'.index = some b ∧
      (ref.index = ref'.index ↔ a = b)) ∧
    (∀ x, Step atomEnd (t, held) x → ∀ ref ∈ held, ref ∈ x.2 → x.1.text ref.index = t.text ref.index) ∧
    (∀ {M : Type} (lib : Allocator M) (m : M) (forArray forHash : Bool) (name : CStr),
      name.text.length ≤ jsStringLenMax →
      t.Names (PropKey.ofCString name) ((t.newAtomLen atomEnd forArray forHash name.text).run.run lib m).1) ∧
    (∀ (forString forArray forHash : Bool) (n : Nat), n < 2 ^ 32 →
      t.Names (PropKey.ofIndex n) (t.newAtomUInt32 atomEnd forString forArray forHash n)) ∧
    (∀ (forArray forHash : Bool) (p : JSString) (others : Nat),
      t.Names p.units (t.newAtomStr atomEnd forArray forHash p others)) ∧
    ∀ i, .string i ∈ held → ∃ t', t.newAtomStrOf atomEnd i = .ok (some i, t') ∧ t'.text i = t.text i := by
  have hg := good_of_run h
  refine ⟨fun ref href ref' href' => hg.text_eq_iff href href', fun x hx => (hg.step hx).2, ?_, ?_, ?_, ?_⟩
  · intro M lib m forArray forHash name hname
    have hends := EveryEnd.of (hg.newAtomLen forArray forHash hname) M lib m
    revert hends
    generalize ((t.newAtomLen atomEnd forArray forHash name.text).run.run lib m).1 = res
    cases res with
    | ok r => exact fun hgave => hgave.gives
    | error e => exact id
  · intro forString forArray forHash n hn
    rw [← decimalUnits_eq]
    exact (hg.newAtomUInt32 forString forArray forHash hn).names
  · intro forArray forHash p others
    exact (hg.newAtomStr forArray forHash p others).names
  · intro i hi
    obtain ⟨rest, rfl⟩ := Multiset.exists_cons_of_mem hi
    obtain ⟨t', hran, -, htext⟩ := hg.newAtomStrOf
    exact ⟨t', hran, htext i⟩

/-- The table with a name that starts as a number does, and another reference to its string. -/
def named : AtomTable :=
  match start.newAtomStr 0 true true (.str8 [53, 120]) 1 with
  | .ok r => r.2
  | .error _ => start

/-- The name `5x`, whose string comes back as a key, and the index 5. -/
theorem atoms_are_texts_digit : ∃ t held, Relation.ReflTransGen (Step 0) (start, 0) (t, held) ∧
    held = {.atom (jsAtomTagInt + 5), .atom 1, .atom 1} ∧
    ∃ a b, t.text 1 = some a ∧ t.text (jsAtomTagInt + 5) = some b ∧ a ≠ b := by
  have hname : Step 0 (start, 0) (named, .atom 1 ::ₘ .string 1 ::ₘ 0) :=
    .string true true (.str8 [53, 120]) 1 (r := (some 1, named)) rfl
  have hname' : Step 0 (start, 0) (named, .string 1 ::ₘ {.atom 1}) := Multiset.cons_swap _ _ 0 ▸ hname
  have hown : Step 0 (named, .string 1 ::ₘ {.atom 1}) (named, .atom 1 ::ₘ {.atom 1}) := .own rfl
  have hindex : Step 0 (named, .atom 1 ::ₘ {.atom 1}) (named, .atom (jsAtomTagInt + 5) ::ₘ .atom 1 ::ₘ {.atom 1}) :=
    .index true true true (n := 5) (by decide) (r := (some (jsAtomTagInt + 5), named)) rfl
  have hrun := ((Relation.ReflTransGen.single hname').tail hown).tail hindex
  obtain ⟨a, b, ha, hb, hiff⟩ := (atoms_are_texts hrun).1 (.atom 1) (by simp) (.atom (jsAtomTagInt + 5)) (by simp)
  exact ⟨_, _, hrun, rfl, a, b, ha, hb, fun h => absurd (hiff.mpr h) (by decide)⟩

end AtomTable

end InteropJs.QuickJS
