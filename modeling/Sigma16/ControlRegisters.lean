import Sigma16.DistinctKeys

namespace Sigma16

/-- A control register: its name in assembly language, and the index by which
    the instructions `getctl` and `putctl` address it. -/
@[ext]
structure ControlRegister where
  /-- The name, which is compared exactly. -/
  name : String
  index : UInt8
  deriving DecidableEq, Repr

/-- A set of control registers in which no two share their name or their
    index. Its members are kept in the order of their indices. -/
structure ControlRegisters where
  /-- The registers in the order of their indices. -/
  entries : List ControlRegister
  increasing : entries.Pairwise (·.index < ·.index)
  distinct : entries.Pairwise (·.name ≠ ·.name)

namespace ControlRegisters

theorem distinct_indices (registers : ControlRegisters) :
    registers.entries.Pairwise (·.index ≠ ·.index) :=
  registers.increasing.imp UInt8.ne_of_lt

/-- No two registers of a set share their name. -/
theorem eq_of_name_eq {registers : ControlRegisters} {register other : ControlRegister}
    (hregister : register ∈ registers.entries) (hother : other ∈ registers.entries)
    (hname : register.name = other.name) : register = other :=
  eq_of_key_eq registers.distinct hregister hother hname

theorem eq_of_index_eq {registers : ControlRegisters} {register other : ControlRegister}
    (hregister : register ∈ registers.entries) (hother : other ∈ registers.entries)
    (hindex : register.index = other.index) : register = other :=
  eq_of_key_eq registers.distinct_indices hregister hother hindex

def empty : ControlRegisters :=
  ⟨[], .nil, .nil⟩

/-- Adds a register, which takes the place of the one with its name and of the
    one with its index. -/
def insert (registers : ControlRegisters) (register : ControlRegister) : ControlRegisters where
  entries :=
    registers.entries.filter (fun other => other.name ≠ register.name ∧ other.index < register.index)
      ++ register ::
        registers.entries.filter
          (fun other => other.name ≠ register.name ∧ register.index < other.index)
  increasing := by
    simp only [List.pairwise_append, List.pairwise_cons, List.mem_filter, List.mem_cons,
      decide_eq_true_eq]
    refine ⟨registers.increasing.filter _, ⟨fun above habove => habove.2.2,
      registers.increasing.filter _⟩, ?_⟩
    rintro below ⟨_, _, hbelow⟩ above (rfl | ⟨_, _, habove⟩)
    · exact hbelow
    · exact UInt8.lt_trans hbelow habove
  distinct := by
    simp only [List.pairwise_append, List.pairwise_cons, List.mem_filter, List.mem_cons,
      decide_eq_true_eq]
    refine ⟨registers.distinct.filter _, ⟨fun above habove => habove.2.1.symm,
      registers.distinct.filter _⟩, ?_⟩
    rintro below ⟨hbelow, hname, hlow⟩ above (rfl | ⟨habove, _, hhigh⟩)
    · exact hname
    · intro hsame
      rw [eq_of_name_eq hbelow habove hsame] at hlow
      exact absurd (UInt8.lt_trans hlow hhigh) (UInt8.lt_irrefl _)

/-- The set that results when the registers of a list are added one by one, so
    that a later one takes the place of those it is in conflict with. -/
def ofList (registers : List ControlRegister) : ControlRegisters :=
  registers.foldl insert empty

def size (registers : ControlRegisters) : Nat :=
  registers.entries.length

def index? (registers : ControlRegisters) (name : String) : Option UInt8 :=
  (registers.entries.find? (·.name = name)).map (·.index)

def name? (registers : ControlRegisters) (index : UInt8) : Option String :=
  (registers.entries.find? (·.index = index)).map (·.name)

/-- The names of the architecture's control registers in the order of their
    indices. -/
def names : List String :=
  ["status", "mask", "req", "istat", "ipc", "vect", "psegBeg", "psegEnd", "dsegBeg", "dsegEnd"]

def standard : ControlRegisters :=
  ofList (names.mapIdx fun index name => ⟨name, UInt8.ofNat index⟩)

/-- The index found for a name is that of the register with this name. -/
theorem index?_eq_some_iff {registers : ControlRegisters} {register : ControlRegister} :
    registers.index? register.name = some register.index ↔ register ∈ registers.entries :=
  map_find?_key_eq_some_iff registers.distinct fun _ _ => ControlRegister.ext

/-- The name found for an index is that of the register with this index. -/
theorem name?_eq_some_iff {registers : ControlRegisters} {register : ControlRegister} :
    registers.name? register.index = some register.name ↔ register ∈ registers.entries :=
  map_find?_key_eq_some_iff registers.distinct_indices fun _ _ hindex hname =>
    ControlRegister.ext hname hindex

/-- A register is in the set after an insertion if it is the new one, or was
    there before and shares neither its name nor its index. -/
theorem mem_insert {registers : ControlRegisters} {register other : ControlRegister} :
    other ∈ (registers.insert register).entries ↔
      other = register ∨
        (other ∈ registers.entries ∧ other.name ≠ register.name
          ∧ other.index ≠ register.index) := by
  simp only [insert, List.mem_append, List.mem_cons, List.mem_filter, decide_eq_true_eq]
  have hne : other.index ≠ register.index ↔
      other.index < register.index ∨ register.index < other.index := by
    simp only [ne_eq, ← UInt8.toNat_inj, UInt8.lt_iff_toNat_lt]
    omega
  rw [hne]
  constructor
  · rintro (⟨hmem, hname, hlow⟩ | hsame | ⟨hmem, hname, hhigh⟩)
    · exact .inr ⟨hmem, hname, .inl hlow⟩
    · exact .inl hsame
    · exact .inr ⟨hmem, hname, .inr hhigh⟩
  · rintro (hsame | ⟨hmem, hname, hlow | hhigh⟩)
    · exact .inr (.inl hsame)
    · exact .inl ⟨hmem, hname, hlow⟩
    · exact .inr (.inr ⟨hmem, hname, hhigh⟩)

end ControlRegisters

end Sigma16
