import Sigma16.Proofs.Text.Lines
import Sigma16.Proofs.Text.Separator
import Sigma16.Text.Width
import Mathlib.Tactic.Ring

namespace Sigma16.Text

theorem notMem_intercalate {char : Char} {joint : String} {parts : List String}
    (hjoint : char ∉ joint.toList) (hparts : ∀ part ∈ parts, char ∉ part.toList) :
    char ∉ (joint.intercalate parts).toList := by
  rw [String.toList_intercalate]
  intro hchar
  rcases mem_or_mem_of_mem_intercalate hchar with hmem | ⟨piece, hpiece, hmem⟩
  · exact hjoint hmem
  · obtain ⟨part, hpart, rfl⟩ := List.mem_map.1 hpiece
    exact hparts part hpart hmem

theorem notMem_replicate {char other : Char} (hne : char ≠ other) (count : Nat) :
    char ∉ (String.ofList (List.replicate count other)).toList := by
  rw [String.toList_ofList]
  exact fun hmem => hne (List.eq_of_mem_replicate hmem)

theorem width_append {text other : String} (htext : escape ∉ text.toList)
    (hother : escape ∉ other.toList) : width (text ++ other) = width text + width other := by
  have hboth : escape ∉ (text ++ other).toList := by
    rw [String.toList_append, List.mem_append, not_or]
    exact ⟨htext, hother⟩
  rw [width_eq_charsWidth hboth, String.toList_append, charsWidth_append,
    ← width_eq_charsWidth htext, ← width_eq_charsWidth hother]

theorem width_replicate {char : Char} (hplain : escape ≠ char) (hchar : charWidth char = 1)
    (count : Nat) : width (String.ofList (List.replicate count char)) = count := by
  rw [width_eq_charsWidth (notMem_replicate hplain count), String.toList_ofList,
    charsWidth_replicate count hchar]

/-- Joined texts take their own columns and those of the joints between them. -/
theorem width_intercalate {joint : String} {parts : List String} (hjoint : escape ∉ joint.toList)
    (hparts : ∀ part ∈ parts, escape ∉ part.toList) :
    width (joint.intercalate parts) = (parts.map width).sum + (parts.length - 1) * width joint := by
  induction parts with
  | nil => simp [width, widthFrom]
  | cons part parts ih =>
    rw [List.forall_mem_cons] at hparts
    cases parts with
    | nil => simp
    | cons next parts =>
      have hfront : escape ∉ (part ++ joint).toList := by
        rw [String.toList_append, List.mem_append, not_or]
        exact ⟨hparts.1, hjoint⟩
      rw [String.intercalate_cons_cons, width_append hfront (notMem_intercalate hjoint hparts.2),
        width_append hparts.1 hjoint, ih hparts.2]
      simp only [List.map_cons, List.sum_cons, List.length_cons, Nat.add_sub_cancel]
      ring

end Sigma16.Text
