namespace Sigma16

section DistinctKeys

variable {α κ : Type} {key : α → κ} {elements : List α}
  (hdistinct : elements.Pairwise fun element other => key element ≠ key other)
include hdistinct

/-- Members of a list are told apart by their keys when no key is repeated. -/
theorem eq_of_key_eq {element other : α} (helement : element ∈ elements) (hother : other ∈ elements)
    (hkey : key element = key other) : element = other := by
  have hsame : elements.Pairwise fun element other => key element = key other → element = other :=
    hdistinct.imp fun hne hkey => absurd hkey hne
  have hflip : elements.Pairwise fun other element => key element = key other → element = other :=
    hdistinct.imp fun hne hkey => absurd hkey.symm hne
  exact hsame.forall_of_forall_of_flip (fun _ _ _ => rfl) hflip helement hother hkey

variable [DecidableEq κ]

/-- A scan for a key finds the one member that has it. -/
theorem find?_key_eq_some_iff {wanted : κ} {element : α} :
    elements.find? (key · = wanted) = some element ↔ element ∈ elements ∧ key element = wanted := by
  constructor
  · intro hfind
    exact ⟨List.mem_of_find?_eq_some hfind, by simpa using List.find?_some hfind⟩
  · rintro ⟨hmem, hkey⟩
    cases hfind : elements.find? (key · = wanted) with
    | none => exact absurd (decide_eq_true hkey) (List.find?_eq_none.1 hfind element hmem)
    | some found =>
      have hfound : key found = wanted := by simpa using List.find?_some hfind
      rw [eq_of_key_eq hdistinct (List.mem_of_find?_eq_some hfind) hmem (hfound.trans hkey.symm)]

/-- What is found for the key of an element is its value exactly if it is a
    member, given that key and value make up an element. -/
theorem map_find?_key_eq_some_iff {ν : Type} {value : α → ν}
    (hext : ∀ element other, key element = key other → value element = value other →
      element = other) {element : α} :
    (elements.find? (key · = key element)).map value = some (value element) ↔
      element ∈ elements := by
  simp only [Option.map_eq_some_iff, find?_key_eq_some_iff hdistinct]
  constructor
  · rintro ⟨found, ⟨hmem, hkey⟩, hvalue⟩
    exact hext found element hkey hvalue ▸ hmem
  · intro hmem
    exact ⟨element, ⟨hmem, rfl⟩, rfl⟩

/-- In whatever order the members come, a scan for a key finds the same. -/
theorem find?_key_eq_of_perm {order : List α} (hperm : order.Perm elements) (wanted : κ) :
    order.find? (key · = wanted) = elements.find? (key · = wanted) := by
  have horder : order.Pairwise fun element other => key element ≠ key other :=
    (hperm.pairwise_iff fun hne => hne.symm).2 hdistinct
  ext element
  rw [find?_key_eq_some_iff horder, find?_key_eq_some_iff hdistinct, hperm.mem_iff]

end DistinctKeys

end Sigma16
