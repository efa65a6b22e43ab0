import Mathlib.Data.List.Basic

namespace Sigma16.Text

variable {α : Type}

/-- The last occurrence of a separator cuts a list in only one way, whatever
    stands before it. -/
theorem append_cons_inj_of_last {separator : α} {before after front back : List α}
    (hafter : separator ∉ after) (hback : separator ∉ back)
    (hsame : before ++ separator :: after = front ++ separator :: back) :
    before = front ∧ after = back := by
  rcases List.append_eq_append_iff.1 hsame with ⟨between, hfront, hcut⟩ | ⟨between, hbefore, hcut⟩
  · cases between with
    | nil => simp_all
    | cons first between =>
      obtain ⟨-, rfl⟩ := List.cons.inj hcut
      exact absurd (by simp) hafter
  · cases between with
    | nil => simp_all
    | cons first between =>
      obtain ⟨-, rfl⟩ := List.cons.inj hcut
      exact absurd (by simp) hback

/-- What is joined with a separator has no elements but those of the pieces and
    of the separator. -/
theorem mem_or_mem_of_mem_intercalate {separator : List α} {pieces : List (List α)} {element : α}
    (helement : element ∈ separator.intercalate pieces) :
    element ∈ separator ∨ ∃ piece ∈ pieces, element ∈ piece := by
  induction pieces with
  | nil => simp at helement
  | cons piece pieces ih =>
    cases pieces with
    | nil =>
      rw [List.intercalate_singleton] at helement
      exact .inr ⟨piece, List.mem_cons_self, helement⟩
    | cons next pieces =>
      rw [List.intercalate_cons_cons, List.mem_append, List.mem_append] at helement
      rcases helement with (hpiece | hseparator) | hrest
      · exact .inr ⟨piece, List.mem_cons_self, hpiece⟩
      · exact .inl hseparator
      · refine (ih hrest).imp id ?_
        rintro ⟨found, hfound, hmem⟩
        exact ⟨found, List.mem_cons_of_mem _ hfound, hmem⟩

end Sigma16.Text
