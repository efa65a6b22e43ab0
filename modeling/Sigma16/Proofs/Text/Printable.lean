import Sigma16.Text.Width

namespace Sigma16.Text

/-- A text without control characters, and so without line breaks and colours. -/
def Printable (text : String) : Prop :=
  ∀ char ∈ text.toList, isControl char = false

-- The instance that runs through all characters there are is too slow to compute with.
instance (text : String) : Decidable (Printable text) :=
  List.decidableBAll (isControl · = false) text.toList

theorem Printable.notMem {text : String} (htext : Printable text) {char : Char}
    (hcontrol : isControl char = true) : char ∉ text.toList := by
  intro hchar
  rw [htext char hchar] at hcontrol
  cases hcontrol

theorem not_isControl_of_isDigit {char : Char} (hdigit : char.isDigit = true) :
    isControl char = false := by
  have hbounds : 48 ≤ char.toNat ∧ char.toNat ≤ 57 := by
    simpa [Char.isDigit, UInt32.le_iff_toNat_le] using hdigit
  simp [isControl]
  omega

theorem not_isControl_digitChar {digit : Nat} (hdigit : digit < 16) :
    isControl digit.digitChar = false := by
  decide +revert

theorem printable_toString (number : Nat) : Printable (toString number) := by
  intro char hchar
  rw [Nat.toString_eq_repr, Nat.repr_eq_ofList_toDigits, String.toList_ofList] at hchar
  exact not_isControl_of_isDigit (Nat.isDigit_of_mem_toDigits (by decide) (by decide) hchar)

end Sigma16.Text
