import Std.Data.HashMap

namespace Sigma16

variable {α κ : Type} [BEq κ] [Hashable κ]

/-- Finds by its key the first element of a list that has that key. Later
    elements never replace an earlier one. -/
def firstByKey (key : α → κ) (elements : List α) : Std.HashMap κ α :=
  elements.foldl (fun found element => found.insertIfNew (key element) element) ∅

variable [LawfulBEq κ]

private theorem getElem?_foldl_insertIfNew (key : α → κ) (elements : List α)
    (found : Std.HashMap κ α) (wanted : κ) :
    (elements.foldl (fun found element => found.insertIfNew (key element) element) found)[wanted]?
      = found[wanted]?.or (elements.find? (key · == wanted)) := by
  induction elements generalizing found with
  | nil => simp
  | cons element elements ih =>
    rw [List.foldl_cons, ih, Std.HashMap.getElem?_insertIfNew, List.find?_cons]
    by_cases hkey : key element == wanted
    · by_cases hmem : wanted ∈ found
      · simp [eq_of_beq hkey, hmem]
      · simp [eq_of_beq hkey, hmem]
    · simp [hkey]

/-- Looking up a key is scanning the list for the first element that has it. -/
theorem getElem?_firstByKey (key : α → κ) (elements : List α) (wanted : κ) :
    (firstByKey key elements)[wanted]? = elements.find? (key · == wanted) := by
  simp [firstByKey, getElem?_foldl_insertIfNew]

/-- A key is present when some element of the list has it. -/
theorem mem_firstByKey (key : α → κ) (elements : List α) (wanted : κ) :
    wanted ∈ firstByKey key elements ↔ ∃ element ∈ elements, key element = wanted := by
  rw [← Std.HashMap.isSome_getElem?_iff_mem, getElem?_firstByKey, List.find?_isSome]
  simp

end Sigma16
