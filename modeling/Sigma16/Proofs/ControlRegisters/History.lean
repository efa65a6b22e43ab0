import Sigma16.ControlRegisters
import Mathlib.Data.List.Induction
import Mathlib.Data.List.Sort

namespace Sigma16

/-- A register that stands somewhere in a history of additions, with none after
    it that has its name or its index. -/
def ControlRegister.Survives (register : ControlRegister) (history : List ControlRegister) : Prop :=
  ∃ before after, history = before ++ register :: after
    ∧ ∀ later ∈ after, later.name ≠ register.name ∧ later.index ≠ register.index

theorem ControlRegister.not_survives_nil (register : ControlRegister) : ¬ register.Survives [] := by
  rintro ⟨before, after, hhistory, -⟩
  simp at hhistory

/-- One more addition survives itself and leaves the registers that share
    nothing with it. It also counts against those that an earlier addition has
    displaced, so that nothing comes back. -/
theorem ControlRegister.survives_append_singleton {register last : ControlRegister}
    {history : List ControlRegister} :
    register.Survives (history ++ [last]) ↔
      register = last
        ∨ (register.Survives history ∧ register.name ≠ last.name ∧ register.index ≠ last.index) := by
  constructor
  · rintro ⟨before, after, hhistory, hlater⟩
    rcases after.eq_nil_or_concat' with rfl | ⟨front, final, rfl⟩
    · obtain ⟨-, hsame⟩ := List.append_inj' hhistory rfl
      exact .inl (List.singleton_inj.1 hsame).symm
    · rw [← List.cons_append, ← List.append_assoc] at hhistory
      obtain ⟨hfront, hsame⟩ := List.append_inj' hhistory rfl
      obtain rfl : last = final := List.singleton_inj.1 hsame
      obtain ⟨hname, hindex⟩ := hlater last (by simp)
      refine .inr ⟨⟨before, front, hfront, ?_⟩, hname.symm, hindex.symm⟩
      intro later hmem
      exact hlater later (List.mem_append_left _ hmem)
  · rintro (rfl | ⟨⟨before, after, rfl, hlater⟩, hname, hindex⟩)
    · exact ⟨history, [], rfl, by simp⟩
    · refine ⟨before, after ++ [last], by simp, ?_⟩
      intro later hmem
      rcases List.mem_append.1 hmem with hafter | hlast
      · exact hlater later hafter
      · rw [List.mem_singleton.1 hlast]
        exact ⟨hname.symm, hindex.symm⟩

namespace ControlRegisters

variable {history order : List ControlRegister}

theorem ofList_append_singleton (history : List ControlRegister) (last : ControlRegister) :
    ofList (history ++ [last]) = (ofList history).insert last := by
  simp [ofList]

/-- What a history of additions leaves are its survivors. -/
theorem mem_entries_ofList {register : ControlRegister} :
    register ∈ (ofList history).entries ↔ register.Survives history := by
  -- From the end, where the additions are that displace all others.
  induction history using List.reverseRecOn with
  | nil => simp [ofList, empty, register.not_survives_nil]
  | append_singleton history last ih =>
    rw [ofList_append_singleton, mem_insert, ih, ControlRegister.survives_append_singleton]

theorem nodup_entries (registers : ControlRegisters) : registers.entries.Nodup :=
  registers.increasing.imp fun hlt heq => UInt8.ne_of_lt hlt (congrArg ControlRegister.index heq)

/-- Two lists of registers in the order of their indices are the same when the
    one is a rearrangement of the other. -/
theorem eq_entries_of_perm {registers : ControlRegisters} {sorted : List ControlRegister}
    (hsorted : sorted.Pairwise (·.index ≤ ·.index)) (hperm : sorted.Perm registers.entries) :
    sorted = registers.entries := by
  refine hperm.eq_of_pairwise ?_ hsorted (registers.increasing.imp UInt8.le_of_lt)
  intro register other hregister hother hle hge
  exact eq_of_index_eq (hperm.mem_iff.1 hregister) hother (UInt8.le_antisymm hle hge)

/-- A set of control registers is determined by its members. -/
theorem ext_of_mem_iff {registers others : ControlRegisters}
    (hmem : ∀ register, register ∈ registers.entries ↔ register ∈ others.entries) :
    registers = others := by
  have hperm : registers.entries.Perm others.entries :=
    (List.perm_ext_iff_of_nodup registers.nodup_entries others.nodup_entries).2 hmem
  have hentries := eq_entries_of_perm (registers.increasing.imp UInt8.le_of_lt) hperm
  cases registers
  cases others
  simp_all

/-- In a set of control registers nothing displaces anything, so that adding its
    members one by one gives the set again. -/
theorem ofList_entries (registers : ControlRegisters) : ofList registers.entries = registers := by
  apply ext_of_mem_iff
  intro register
  rw [mem_entries_ofList]
  constructor
  · rintro ⟨before, after, hentries, -⟩
    simp [hentries]
  · intro hmem
    obtain ⟨before, after, hentries⟩ := List.append_of_mem hmem
    refine ⟨before, after, hentries, ?_⟩
    intro later hlater
    have hincreasing := registers.increasing
    have hdistinct := registers.distinct
    rw [hentries, List.pairwise_append, List.pairwise_cons] at hincreasing hdistinct
    exact ⟨(hdistinct.2.1.1 later hlater).symm,
      (UInt8.ne_of_lt (hincreasing.2.1.1 later hlater)).symm⟩

/-- The orders in which a map between names and indices that keeps no order may
    list its pairs. An addition removes the pair with the same name and the pair
    with the same index, adds the new one, and may move all others about. -/
inductive Enumerates : List ControlRegister → List ControlRegister → Prop
  | empty : Enumerates [] []
  | insert {history order next : List ControlRegister} {register : ControlRegister}
      (horder : Enumerates history order)
      (hnext : next.Perm (register :: order.filter fun other =>
        other.name ≠ register.name ∧ other.index ≠ register.index)) :
      Enumerates (history ++ [register]) next

theorem insert_perm (registers : ControlRegisters) (register : ControlRegister) :
    (registers.insert register).entries.Perm (register :: registers.entries.filter fun other =>
      other.name ≠ register.name ∧ other.index ≠ register.index) := by
  have hnew : register ∉ registers.entries.filter fun other =>
      other.name ≠ register.name ∧ other.index ≠ register.index := by simp
  refine (List.perm_ext_iff_of_nodup (nodup_entries _)
    (List.nodup_cons.2 ⟨hnew, registers.nodup_entries.filter _⟩)).2 ?_
  intro other
  rw [mem_insert, List.mem_cons, List.mem_filter, decide_eq_true_eq]

/-- Every order is possible in which the survivors of a history can be listed,
    and no other. -/
theorem enumerates_iff_perm : Enumerates history order ↔ order.Perm (ofList history).entries := by
  constructor
  · intro horder
    induction horder with
    | empty => exact .nil
    | insert _ hnext ih =>
      rw [ofList_append_singleton]
      exact hnext.trans (((ih.filter _).cons _).trans (insert_perm _ _).symm)
  · induction history using List.reverseRecOn generalizing order with
    | nil =>
      intro hperm
      rw [List.perm_nil.1 hperm]
      exact .empty
    | append_singleton history last ih =>
      intro hperm
      rw [ofList_append_singleton] at hperm
      -- Any order before the last addition will do, the sorted one for instance.
      exact .insert (ih (.refl _)) (hperm.trans (insert_perm _ _))

/-- Sorting by index undoes whatever order the pairs were listed in. -/
theorem mergeSort_eq_entries_of_perm {registers : ControlRegisters}
    (hperm : order.Perm registers.entries) :
    order.mergeSort (fun register other => register.index ≤ other.index) = registers.entries := by
  apply eq_entries_of_perm
  · have hsorted : (order.mergeSort fun register other => register.index ≤ other.index).Pairwise
        fun register other => decide (register.index ≤ other.index) = true := by
      apply List.pairwise_mergeSort
      · intro register other later hle hle'
        exact decide_eq_true (UInt8.le_trans (of_decide_eq_true hle) (of_decide_eq_true hle'))
      · intro register other
        simpa using UInt8.le_total register.index other.index
    exact hsorted.imp of_decide_eq_true
  · exact (List.mergeSort_perm order _).trans hperm

theorem index?_eq_of_perm {registers : ControlRegisters} (hperm : order.Perm registers.entries)
    (name : String) : (order.find? (·.name = name)).map (·.index) = registers.index? name := by
  rw [index?, find?_key_eq_of_perm registers.distinct hperm]

theorem name?_eq_of_perm {registers : ControlRegisters} (hperm : order.Perm registers.entries)
    (index : UInt8) : (order.find? (·.index = index)).map (·.name) = registers.name? index := by
  rw [name?, find?_key_eq_of_perm registers.distinct_indices hperm]

/-- After any history of additions names and indices determine each other, and
    the pairs that remain are the survivors of the history. They are listed once
    each in the order of their indices. Nothing of this depends on the order in
    which the pairs are kept: whatever order they come in, sorting gives the same
    list, and a scan gives the same index for a name and the same name for an
    index. Adding what remains one by one gives the same set again. -/
theorem ofList_survivors (history : List ControlRegister) :
    (∀ name index,
        ((ofList history).index? name = some index ↔ (ofList history).name? index = some name)
          ∧ ((ofList history).name? index = some name ↔ ⟨name, index⟩ ∈ (ofList history).entries)
          ∧ (⟨name, index⟩ ∈ (ofList history).entries ↔
              ControlRegister.Survives ⟨name, index⟩ history))
      ∧ (ofList history).entries.Pairwise (·.index < ·.index)
      ∧ (ofList history).entries.length = (ofList history).size
      ∧ (∀ order, Enumerates history order →
          order.length = (ofList history).size
            ∧ order.mergeSort (fun register other => register.index ≤ other.index)
              = (ofList history).entries
            ∧ (∀ name, (order.find? (·.name = name)).map (·.index) = (ofList history).index? name)
            ∧ ∀ index, (order.find? (·.index = index)).map (·.name) = (ofList history).name? index)
      ∧ (ofList (ofList history).entries).entries = (ofList history).entries := by
  refine ⟨?_, (ofList history).increasing, rfl, ?_, ?_⟩
  · intro name index
    have hindex := @index?_eq_some_iff (ofList history) ⟨name, index⟩
    have hname := @name?_eq_some_iff (ofList history) ⟨name, index⟩
    exact ⟨hindex.trans hname.symm, hname, mem_entries_ofList⟩
  · intro order horder
    have hperm := enumerates_iff_perm.1 horder
    exact ⟨hperm.length_eq, mergeSort_eq_entries_of_perm hperm, index?_eq_of_perm hperm,
      name?_eq_of_perm hperm⟩
  · rw [ofList_entries]

/-- The third of these additions displaces both earlier ones, and neither comes
    back when the fourth displaces the third. -/
theorem ofList_survivors_of_displaced :
    Enumerates [⟨"mask", 0⟩, ⟨"req", 1⟩, ⟨"mask", 1⟩, ⟨"timer", 1⟩, ⟨"ipc", 0⟩]
        [⟨"timer", 1⟩, ⟨"ipc", 0⟩]
      ∧ List.mergeSort [⟨"timer", 1⟩, ⟨"ipc", 0⟩]
            (fun (register other : ControlRegister) => register.index ≤ other.index)
          = (ofList [⟨"mask", 0⟩, ⟨"req", 1⟩, ⟨"mask", 1⟩, ⟨"timer", 1⟩, ⟨"ipc", 0⟩]).entries
      ∧ (ofList [⟨"mask", 0⟩, ⟨"req", 1⟩, ⟨"mask", 1⟩, ⟨"timer", 1⟩, ⟨"ipc", 0⟩]).entries
          = [⟨"ipc", 0⟩, ⟨"timer", 1⟩] := by
  have horder : Enumerates [⟨"mask", 0⟩, ⟨"req", 1⟩, ⟨"mask", 1⟩, ⟨"timer", 1⟩, ⟨"ipc", 0⟩]
      [⟨"timer", 1⟩, ⟨"ipc", 0⟩] := by
    rw [enumerates_iff_perm]
    decide
  exact ⟨horder, ((ofList_survivors _).2.2.2.1 _ horder).2.1, by decide⟩

end ControlRegisters

end Sigma16
