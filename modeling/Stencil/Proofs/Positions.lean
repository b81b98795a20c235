import Stencil.Value.Access

/-!
Positions in sequences. A key is a position when it is a run of ASCII digits, and then that of its
value; what a number is shown as is the position of that number. So a sequence answers exactly the
keys that spell a number below its length.
-/
namespace Stencil

/-- `key` is a run of ASCII digits that stand for `i`. -/
structure Value.Spells (key : String) (i : Nat) : Prop where
  nonempty : key ≠ ""
  digits : ∀ c ∈ key.toList, c.isDigit
  value : Decimal.valueOf key.toList = i

namespace Decimal

theorem valueOf_digitChars (n : Nat) : valueOf (digitChars n) = n :=
  Nat.ofDigitChars_toDigits (by decide) (by decide)

theorem magnitude_zero (n : Nat) : magnitude n 0 = digitChars n := by
  rw [magnitude, if_pos Int.le_rfl]
  exact congrArg digitChars (Nat.mul_one n)

end Decimal

namespace Number

theorem intText_of_nonneg {n : Int} (h : 0 ≤ n) :
    intText n = String.ofList (Decimal.digitChars n.toNat) := by
  have hnegative : decide (n < 0) = false := decide_eq_false (Int.not_lt.mpr h)
  have hsize : n.natAbs = n.toNat := by omega
  rw [intText, Decimal.text, hnegative, Decimal.magnitude_zero, hsize]
  rfl

theorem intText_of_neg {n : Int} (h : n < 0) :
    intText n = String.ofList ('-' :: Decimal.digitChars n.natAbs) := by
  rw [intText, Decimal.text, decide_eq_true h, Decimal.magnitude_zero]
  rfl

end Number

namespace Value

theorem Spells.intText {n : Int} (h : 0 ≤ n) : Spells (Number.intText n) n.toNat := by
  have htext : (Number.intText n).toList = Decimal.digitChars n.toNat := by
    rw [Number.intText_of_nonneg h, String.toList_ofList]
  refine ⟨fun hempty => ?_, fun c hc => ?_, ?_⟩
  · rw [hempty] at htext
    exact Nat.toDigits_ne_nil htext.symm
  · rw [htext] at hc
    exact Nat.isDigit_of_mem_toDigits (by decide) (by decide) hc
  · rw [htext, Decimal.valueOf_digitChars]

/-- A sign is no digit. -/
theorem not_spells_intText {n : Int} (h : n < 0) (i : Nat) : ¬ Spells (Number.intText n) i := by
  intro hspells
  have hsign := hspells.digits '-' (by rw [Number.intText_of_neg h, String.toList_ofList]; simp)
  exact absurd hsign (by decide)

theorem text_ofInt {n : Int} (h : Number.intRange n) : (ofInt n).text = Number.intText n := by
  have hlower := h.1
  have hupper := h.2
  rw [Int64.toInt_minValue] at hlower
  rw [Int64.toInt_maxValue] at hupper
  have hvalue : (Int64.ofInt n).toInt = n := Int64.toInt_ofInt_of_le hlower (by omega)
  rw [ofInt, Number.ofInt, if_pos h, text, Number.text, hvalue]

theorem position?_eq_some {key : String} {i : Nat} :
    position? key = some i ↔ Spells key i ∧ i < UInt64.size := by
  have hspells : Spells key i ↔
      key ≠ "" ∧ (∀ c ∈ key.toList, c.isDigit) ∧ Decimal.valueOf key.toList = i :=
    ⟨fun h => ⟨h.nonempty, h.digits, h.value⟩, fun h => ⟨h.1, h.2.1, h.2.2⟩⟩
  rw [position?, hspells]
  simp only [Option.ite_none_right_eq_some, Option.some.injEq, Bool.and_eq_true, decide_eq_true_eq,
    List.all_eq_true, Bool.not_eq_true', List.isEmpty_eq_false_iff, ne_eq,
    String.toList_eq_nil_iff]
  constructor
  · rintro ⟨⟨⟨hne, hdigits⟩, hlt⟩, rfl⟩
    exact ⟨⟨hne, hdigits, rfl⟩, hlt⟩
  · rintro ⟨⟨hne, hdigits, rfl⟩, hlt⟩
    exact ⟨⟨⟨hne, hdigits⟩, hlt⟩, rfl⟩

variable {items : List Value} {key : String} {i : Nat}

theorem access_array (items : List Value) (key : String) :
    (array items).access key = pure ((position? key).bind (items[·]?)) := rfl

theorem access_of_spells (h : Spells key i) (hlt : i < UInt64.size) :
    (array items).access key = pure items[i]? := by
  rw [access_array, position?_eq_some.mpr ⟨h, hlt⟩, Option.bind_some]

/-- A key that spells no number below the length of an array leads nowhere in it. -/
theorem access_of_not_spells (h : ∀ i < items.length, ¬ Spells key i) :
    (array items).access key = pure none := by
  rw [access_array]
  cases hposition : position? key with
  | none => rfl
  | some i =>
    have hlength : items.length ≤ i := Nat.le_of_not_lt fun hlt =>
      h i hlt (position?_eq_some.mp hposition).1
    rw [Option.bind_some, List.getElem?_eq_none hlength]

theorem access_text_ofInt (h : i < items.length) (hrange : Number.intRange i) :
    (array items).access (ofInt i).text = pure (some items[i]) := by
  have hspells : Spells (ofInt i).text i := by
    rw [text_ofInt hrange]
    exact .intText (Int.natCast_nonneg i)
  have hlt : i < UInt64.size := by
    have hmax := hrange.2
    have hsize : Int64.maxValue.toInt < UInt64.size := by decide
    omega
  rw [access_of_spells hspells hlt, List.getElem?_eq_getElem h]

/-- What an integer is shown as leads to the element of its number. -/
theorem access_text_int (items : List Value) (n : Int64) :
    (array items).access (number (.int n)).text =
      pure (if 0 ≤ n.toInt then items[n.toInt.toNat]? else none) := by
  rw [text, Number.text]
  split
  next h =>
    have hlt : n.toInt.toNat < UInt64.size := by
      have hmax := n.toInt_lt
      have hsize : (2 : Int) ^ 63 < UInt64.size := by decide
      omega
    exact access_of_spells (.intText h) hlt
  next h =>
    have hnegative : n.toInt < 0 := Int.not_le.mp h
    exact access_of_not_spells fun i _ => not_spells_intText hnegative i

/-- Two positions below `n` stand for the same element in all arrays of this length only if they
are the same. -/
theorem spells_same_iff {a b : String} {j n : Nat} (ha : Spells a i) (hb : Spells b j) (hi : i < n)
    (hj : j < n) (hn : n ≤ UInt64.size) :
    (∀ items, items.length = n → (array items).access a = (array items).access b) ↔ i = j := by
  have hi' : i < UInt64.size := Nat.lt_of_lt_of_le hi hn
  have hj' : j < UInt64.size := Nat.lt_of_lt_of_le hj hn
  constructor
  · intro h
    -- an array whose elements are the numbers of their places
    let items := (List.range n).map fun k => array (List.replicate k null)
    have hread := h items (by simp [items])
    rw [access_of_spells ha hi', access_of_spells hb hj'] at hread
    have hsame := congrArg Reading.result hread
    simpa [items, hi, hj] using hsame
  · rintro rfl items -
    rw [access_of_spells ha hi', access_of_spells hb hj']

end Value
end Stencil
