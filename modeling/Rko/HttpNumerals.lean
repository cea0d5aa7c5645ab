import Mathlib.Data.Nat.Digits.Lemmas
import Rko.HttpWire

namespace Rko

/-- The value of a digit and the byte that shows it. -/
def digitValue (b : UInt8) : Nat := b.toNat - 48

def digitByte (d : Nat) : UInt8 := 48 + d.toUInt8

/-- The text is the decimal numeral of the number: digits only, no leading zero. -/
structure IsNumeral (n : Nat) (text : Bytes) : Prop where
  decimal : IsDecimal text
  value : decimalValue text = n
  leading : 1 < text.length → text.head? ≠ some 48

def numeral (n : Nat) : Bytes := if n = 0 then [48] else (Nat.digits 10 n).reverse.map digitByte

section Digits

theorem digit_eq_some {b : UInt8} (h : (digit b).isSome = true) :
    digit b = some (digitValue b) ∧ digitValue b < 10 ∧ digitByte (digitValue b) = b := by
  unfold digit at h ⊢
  split at h
  next hb =>
    rw [UInt8.le_iff_toNat_le, UInt8.le_iff_toNat_le] at hb
    have hlow : (48 : UInt8).toNat = 48 := by decide
    have hhigh : (57 : UInt8).toNat = 57 := by decide
    refine ⟨if_pos ?_, ?_, ?_⟩
    · rw [UInt8.le_iff_toNat_le, UInt8.le_iff_toNat_le]
      exact hb
    · unfold digitValue
      omega
    · apply UInt8.toNat_inj.mp
      unfold digitByte digitValue
      rw [UInt8.toNat_add, Nat.toUInt8_eq, UInt8.toNat_ofNat', hlow]
      omega
  next => cases h

theorem digit_digitByte {d : Nat} (hd : d < 10) : digit (digitByte d) = some d := digit_add d hd

theorem decimalFrom_eq {text : Bytes} (h : ∀ b ∈ text, (digit b).isSome) (acc : Nat) :
    decimalFrom acc text =
      acc * 10 ^ text.length + Nat.ofDigits 10 (text.map digitValue).reverse := by
  induction text generalizing acc with
  | nil => simp [decimalFrom]
  | cons b bs ih =>
    have hb := (digit_eq_some (h b List.mem_cons_self)).1
    have hcons : decimalFrom acc (b :: bs) = decimalFrom (acc * 10 + digitValue b) bs := by
      simp only [decimalFrom, List.foldl_cons, hb, Option.getD_some]
    have hrest := ih (fun x hx => h x (List.mem_cons_of_mem b hx)) (acc * 10 + digitValue b)
    rw [hcons, hrest, List.map_cons, List.reverse_cons, Nat.ofDigits_append, Nat.ofDigits_singleton,
      List.length_reverse, List.length_map, List.length_cons, Nat.pow_succ]
    ring

theorem isDecimal_numeral (n : Nat) : IsDecimal (numeral n) := by
  unfold numeral
  split
  next => exact ⟨by decide, by decide⟩
  next hn =>
    refine ⟨?_, List.all_eq_true.mpr ?_⟩
    · have hne : Nat.digits 10 n ≠ [] := Nat.digits_ne_nil_iff_ne_zero.mpr hn
      simp only [ne_eq, List.map_eq_nil_iff, List.reverse_eq_nil_iff]
      exact hne
    · intro b hb
      obtain ⟨d, hd, rfl⟩ := List.mem_map.mp hb
      have hlt := Nat.digits_lt_base (by decide) (List.mem_reverse.mp hd)
      rw [digit_digitByte hlt, Option.isSome_some]

theorem map_digitValue (n : Nat) :
    ((Nat.digits 10 n).reverse.map digitByte).map digitValue = (Nat.digits 10 n).reverse := by
  have hsame : ∀ d ∈ (Nat.digits 10 n).reverse, (digitValue ∘ digitByte) d = id d := by
    intro d hd
    have hlt := Nat.digits_lt_base (by decide) (List.mem_reverse.mp hd)
    have hdigit := digit_digitByte hlt
    have hvalue := (digit_eq_some (by rw [hdigit, Option.isSome_some])).1
    exact Option.some.inj (hvalue.symm.trans hdigit)
  rw [List.map_map, List.map_congr_left hsame, List.map_id]

theorem isNumeral_numeral (n : Nat) : IsNumeral n (numeral n) := by
  have hall : ∀ b ∈ numeral n, (digit b).isSome := List.all_eq_true.mp (isDecimal_numeral n).2
  refine ⟨isDecimal_numeral n, ?_, ?_⟩
  · rw [decimalValue, decimalFrom_eq hall, Nat.zero_mul, Nat.zero_add]
    unfold numeral
    split
    next hn =>
      rw [hn]
      decide
    next => rw [map_digitValue, List.reverse_reverse, Nat.ofDigits_digits]
  · unfold numeral
    split
    next =>
      intro hlt
      simp at hlt
    next hn =>
      intro _ hhead
      -- The first byte shows the highest digit, and that is not zero.
      have hlast := Nat.getLast_digit_ne_zero 10 hn
      have hne : Nat.digits 10 n ≠ [] := Nat.digits_ne_nil_iff_ne_zero.mpr hn
      rw [List.head?_map, List.head?_reverse, List.getLast?_eq_some_getLast hne, Option.map_some,
        Option.some.injEq] at hhead
      have hlt := Nat.digits_lt_base (by decide) (List.getLast_mem hne)
      have hdigit := digit_digitByte hlt
      rw [hhead] at hdigit
      exact hlast (Option.some.inj hdigit).symm

theorem numeral_injective {m n : Nat} (h : numeral m = numeral n) : m = n := by
  rw [← (isNumeral_numeral m).value, h, (isNumeral_numeral n).value]

end Digits

section Buffer

theorem formatLoop_eq {pos val : Nat} (h : val < 10 ^ pos) (written : Bytes) :
    formatLoop pos val written = (Nat.digits 10 val).reverse.map digitByte ++ written := by
  induction pos generalizing val written with
  | zero =>
    have hval : val = 0 := by simpa using h
    rw [hval, formatLoop, Nat.digits_zero]
    rfl
  | succ pos ih =>
    rw [formatLoop]
    split
    next hval =>
      rw [hval, Nat.digits_zero]
      rfl
    next hval =>
      have hdiv : val / 10 < 10 ^ pos := by
        rw [Nat.pow_succ] at h
        omega
      rw [ih hdiv, Nat.digits_def' (by decide) (Nat.pos_of_ne_zero hval), List.reverse_cons,
        List.map_append, List.append_assoc]
      rfl

/-- A buffer that is large enough for the digits gets all of them. -/
theorem formatUsize_eq_numeral {val size : Nat} (h : val < 10 ^ size) :
    formatUsize val size = numeral val := by
  unfold formatUsize numeral
  split
  next => rfl
  next => rw [formatLoop_eq h, List.append_nil]

end Buffer

section Lengths

open CallProgram Wire

end Lengths

end Rko
