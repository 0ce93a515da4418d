import InteropJs.Engine.BigIntLiteral

/-!
# Numbers among the strings

A property name that is the decimal text of a number is a number to QuickJS. `is_num_string` finds these
names: no leading zero, no sign, at most `2 ^ 32 - 1` (`isNumString_iff`).
-/

namespace InteropJs.QuickJS

open Limbs

def isNum (c : UInt16) : Bool := 48 ≤ c.toNat ∧ c.toNat ≤ 57

/-- The loop of `is_num_string`. -/
def isNumLoop : List UInt16 → Nat → Option Nat
  | [], n => some n
  | c :: cs, n =>
    if !isNum c then none
    else
      let n64 := n * 10 + (c.toNat - 48)
      if n64 >>> 32 ≠ 0 then none else isNumLoop cs n64

/-- `is_num_string`. -/
def isNumString (p : JSString) : Option Nat :=
  match p.units with
  | [] => none
  | c :: cs =>
    if 10 < p.len then none
    else if isNum c then
      if c = 48 then
        if p.len ≠ 1 then none else some 0
      else isNumLoop cs (c.toNat - 48)
    else none

/-- The decimal text of a number. -/
def decimalUnits (n : Nat) : List UInt16 := (radixText 10 n).map UInt8.toUInt16

theorem decimalUnits_eq (n : Nat) : decimalUnits n = PropKey.ofIndex n := by
  have h : (radixText 10 n).map UInt8.toUInt16 = ((radixText 10 n).map UInt8.toNat).map UInt16.ofNat := by
    rw [List.map_map]
    exact List.map_congr_left fun b _ => UInt16.toNat_inj.mp (by simp)
  rw [decimalUnits, h, ← toDigits_radixText, List.map_map, PropKey.ofIndex]
  rfl

theorem decimalUnits_of_lt {n : Nat} (hn : n < 10) : decimalUnits n = [.ofNat (n + 48)] := by
  have hall : ∀ n < 10, ((digitByte36 n).toUInt16 : UInt16) = .ofNat (n + 48) := by decide
  rw [decimalUnits, radixText, radixDigits_of_lt hn]
  simpa using hall n hn

theorem decimalUnits_step {n d : Nat} (hn : n ≠ 0) (hd : d < 10) :
    decimalUnits (n * 10 + d) = decimalUnits n ++ [.ofNat (d + 48)] := by
  have hdiv : (n * 10 + d) / 10 ^ 1 = n := by omega
  have hlow : low 10 1 (n * 10 + d) = [d] := by
    simp [low]
    omega
  have hall : ∀ n < 10, ((digitByte36 n).toUInt16 : UInt16) = .ofNat (n + 48) := by decide
  rw [decimalUnits, radixText_low (show 1 < 10 by omega) 1 (by omega), hdiv, hlow, decimalUnits]
  simpa using hall d hd

theorem isNum_iff {c : UInt16} : isNum c = true ↔ ∃ d < 10, c = .ofNat (d + 48) := by
  constructor
  · intro h
    obtain ⟨h1, h2⟩ : 48 ≤ c.toNat ∧ c.toNat ≤ 57 := by simpa [isNum] using h
    refine ⟨c.toNat - 48, by omega, ?_⟩
    rw [Nat.sub_add_cancel h1, UInt16.ofNat_toNat]
  · rintro ⟨d, hd, rfl⟩
    have hall : ∀ d < 10, isNum (.ofNat (d + 48)) = true := by decide
    exact hall d hd

theorem digit_toNat {d : Nat} (hd : d < 10) : (UInt16.ofNat (d + 48)).toNat = d + 48 := by
  have hall : ∀ d < 10, (UInt16.ofNat (d + 48)).toNat = d + 48 := by decide
  exact hall d hd

theorem isNumLoop_cons {d n : Nat} (hd : d < 10) (cs : List UInt16) :
    isNumLoop (.ofNat (d + 48) :: cs) n = if n * 10 + d < 2 ^ 32 then isNumLoop cs (n * 10 + d) else none := by
  have hnum : isNum (.ofNat (d + 48)) = true := isNum_iff.mpr ⟨d, hd, rfl⟩
  have hshift : (n * 10 + d) >>> 32 ≠ 0 ↔ ¬ n * 10 + d < 2 ^ 32 := by
    rw [Nat.shiftRight_eq_div_pow]
    omega
  rw [isNumLoop, hnum, digit_toNat hd, Nat.add_sub_cancel]
  dsimp only
  rw [if_neg (by simp)]
  by_cases h : n * 10 + d < 2 ^ 32
  · rw [if_pos h, if_neg (fun h' => hshift.mp h' h)]
  · rw [if_neg h, if_pos (hshift.mpr h)]

/-- The number that the loop reads has the text before it and the digits. -/
theorem isNumLoop_text {cs : List UInt16} {n m : Nat} (hn : n ≠ 0) (hlt : n < 2 ^ 32)
    (h : isNumLoop cs n = some m) : m < 2 ^ 32 ∧ decimalUnits m = decimalUnits n ++ cs := by
  induction cs generalizing n with
  | nil =>
    cases h
    exact ⟨hlt, (List.append_nil _).symm⟩
  | cons c cs ih =>
    by_cases hc : isNum c = true
    · obtain ⟨d, hd, rfl⟩ := isNum_iff.mp hc
      rw [isNumLoop_cons hd] at h
      by_cases hle : n * 10 + d < 2 ^ 32
      · rw [if_pos hle] at h
        obtain ⟨hm, htext⟩ := ih (by omega) hle h
        refine ⟨hm, ?_⟩
        rw [htext, decimalUnits_step hn hd, List.append_assoc]
        rfl
      · rw [if_neg hle] at h
        cases h
    · simp [isNumLoop, hc] at h

theorem isNumLoop_concat {d : Nat} (hd : d < 10) (cs : List UInt16) {n m : Nat} (h : isNumLoop cs n = some m)
    (hm : m * 10 + d < 2 ^ 32) : isNumLoop (cs ++ [.ofNat (d + 48)]) n = some (m * 10 + d) := by
  induction cs generalizing n with
  | nil =>
    cases h
    rw [List.nil_append, isNumLoop_cons hd, if_pos hm, isNumLoop]
  | cons c cs ih =>
    rw [List.cons_append]
    by_cases hc : isNum c = true
    · obtain ⟨e, he, rfl⟩ := isNum_iff.mp hc
      rw [isNumLoop_cons he] at h ⊢
      by_cases hle : n * 10 + e < 2 ^ 32
      · rw [if_pos hle] at h ⊢
        exact ih h
      · rw [if_neg hle] at h
        cases h
    · simp [isNumLoop, hc] at h

/-- The loop reads the text of every number but zero. -/
theorem isNumLoop_decimal {n : Nat} (hn : n ≠ 0) (hlt : n < 2 ^ 32) :
    ∃ d cs, 0 < d ∧ d < 10 ∧ decimalUnits n = .ofNat (d + 48) :: cs ∧ isNumLoop cs d = some n := by
  induction n using Nat.strong_induction_on with
  | _ n ih =>
    by_cases h10 : n < 10
    · exact ⟨n, [], by omega, h10, decimalUnits_of_lt h10, rfl⟩
    · obtain ⟨d, cs, hd, hd', htext, hloop⟩ := ih (n / 10) (by omega) (by omega) (by omega)
      have hsplit : n = n / 10 * 10 + n % 10 := by omega
      have hmod : n % 10 < 10 := by omega
      refine ⟨d, cs ++ [.ofNat (n % 10 + 48)], hd, hd', ?_, ?_⟩
      · rw [hsplit, decimalUnits_step (by omega) hmod, htext]
        simp
      · rw [isNumLoop_concat hmod cs hloop (by omega)]
        exact congrArg some hsplit.symm

theorem decimalUnits_length {n : Nat} (hn : n < 2 ^ 32) : (decimalUnits n).length ≤ 10 := by
  rw [decimalUnits, List.length_map, radixText, List.length_map, List.length_reverse]
  exact radixDigits_length (show 1 < 10 by omega) (by omega) (by omega)

theorem decimalUnits_injective : Function.Injective decimalUnits := by
  intro n m h
  have hbytes : radixText 10 n = radixText 10 m :=
    List.map_injective_iff.mpr (fun a b hab => UInt8.toUInt16_inj.mp hab) h
  rw [← number_radixText (show 2 ≤ 10 by omega) (by omega) n, hbytes, number_radixText (by omega) (by omega)]

/-- `is_num_string` finds the decimal texts of the 32-bit numbers. -/
theorem isNumString_iff {p : JSString} {n : Nat} :
    isNumString p = some n ↔ n < 2 ^ 32 ∧ p.units = decimalUnits n := by
  have hzero : decimalUnits 0 = [48] := rfl
  constructor
  · intro h
    unfold isNumString at h
    split at h
    · cases h
    next c cs hunits =>
    by_cases hlen : 10 < p.len
    · rw [if_pos hlen] at h
      cases h
    by_cases hc : isNum c = true
    · rw [if_neg hlen, if_pos hc] at h
      obtain ⟨d, hd, rfl⟩ := isNum_iff.mp hc
      by_cases h0 : (UInt16.ofNat (d + 48)) = 48
      · rw [if_pos h0] at h
        by_cases hone : p.len ≠ 1
        · rw [if_pos hone] at h
          cases h
        · rw [if_neg hone] at h
          cases h
          obtain rfl : cs = [] := by
            rw [JSString.len, hunits, List.length_cons] at hone
            exact List.length_eq_zero_iff.mp (by omega)
          exact ⟨by omega, by rw [hunits, h0, hzero]⟩
      · rw [if_neg h0, digit_toNat hd, Nat.add_sub_cancel] at h
        have hd0 : d ≠ 0 := by
          rintro rfl
          exact h0 rfl
        obtain ⟨hn, htext⟩ := isNumLoop_text hd0 (by omega) h
        exact ⟨hn, by rw [hunits, htext, decimalUnits_of_lt hd, List.singleton_append]⟩
    · rw [if_neg hlen, if_neg hc] at h
      cases h
  · rintro ⟨hn, hunits⟩
    have hlen : ¬ 10 < p.len := by
      rw [JSString.len, hunits]
      exact not_lt.mpr (decimalUnits_length hn)
    rw [JSString.len, hunits] at hlen
    unfold isNumString
    rw [JSString.len, hunits]
    by_cases h0 : n = 0
    · subst h0
      rfl
    · obtain ⟨d, cs, hd, hd', htext, hloop⟩ := isNumLoop_decimal h0 hn
      have hne : (UInt16.ofNat (d + 48)) ≠ 48 := by
        intro h
        have := congrArg UInt16.toNat h
        rw [digit_toNat hd', show (48 : UInt16).toNat = 48 from rfl] at this
        omega
      rw [htext] at hlen ⊢
      simp only [if_neg hlen, isNum_iff.mpr ⟨d, hd', rfl⟩, if_true, if_neg hne, digit_toNat hd',
        Nat.add_sub_cancel, hloop]

end InteropJs.QuickJS
