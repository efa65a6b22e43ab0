import Sigma16.Proofs.Table.Pseudos

namespace Sigma16

namespace Entry

def IsRealInstruction (entry : Entry) : Prop :=
  entry.isInstruction = true ∧ entry.pseudo = false

instance (entry : Entry) : Decidable entry.IsRealInstruction :=
  inferInstanceAs (Decidable (_ ∧ _))

/-- Two different real instructions in a list never have the same opcode fields.
    The same one may stand in it twice. -/
def OpcodesDistinct (entries : List Entry) : Prop :=
  ∀ entry ∈ entries, entry.IsRealInstruction → ∀ other ∈ entries, other.IsRealInstruction →
    entry.opcode = other.opcode → entry = other

instance (entries : List Entry) : Decidable (OpcodesDistinct entries) :=
  inferInstanceAs (Decidable (∀ entry ∈ entries, _ → ∀ other ∈ entries, _))

theorem OpcodesDistinct.of_perm {entries others : List Entry} (hopcodes : OpcodesDistinct entries)
    (hperm : entries.Perm others) : OpcodesDistinct others := by
  intro entry hentry hreal other hother hotherReal
  exact hopcodes entry (hperm.mem_iff.2 hentry) hreal other (hperm.mem_iff.2 hother) hotherReal

/-- With distinct opcodes the first entry that could be a base is also the only
    one, since all that could be have the first two fields of the extension. -/
theorem OpcodesDistinct.eq_of_extends {entries : List Entry} (hopcodes : OpcodesDistinct entries)
    (hwell : ∀ entry ∈ entries, entry.WellFormed) {entry base other : Entry}
    (hentry : entry.WellFormed) (hbase : base ∈ entries) (hreal : base.pseudo = false)
    (hextends : entry.Extends base) (hother : other ∈ entries) (hotherReal : other.pseudo = false)
    (hotherExtends : entry.Extends other) : base = other := by
  have hinstruction := (hentry.isInstruction_of_extends (hwell base hbase) hextends).2
  have hotherInstruction := (hentry.isInstruction_of_extends (hwell other hother) hotherExtends).2
  apply hopcodes base hbase ⟨hinstruction, hreal⟩ other hother ⟨hotherInstruction, hotherReal⟩
  rw [hentry.opcode_eq_selector_of_extends (hwell base hbase) hextends,
    hentry.opcode_eq_selector_of_extends (hwell other hother) hotherExtends]

end Entry

namespace Table

theorem exists_firstBase_of_extends {table : Table} {entry base : Entry}
    (hpseudo : entry.pseudo = true) (hbase : base ∈ table.entries) (hreal : base.pseudo = false)
    (hextends : entry.Extends base) : ∃ first, table.FirstBase entry first := by
  cases hfound : table.base? entry with
  | none => exact absurd hextends ((base?_eq_none_iff hpseudo).1 hfound base hbase hreal)
  | some first => exact ⟨first, (base?_eq_some_iff.1 hfound).2⟩

/-- The laws survive a change of the order. Only that about pseudo-instructions
    looks at it, when it asks for the first of the possible bases. -/
theorem Lawful.of_perm {entries others : List Entry} (hlawful : (ofEntries entries).Lawful)
    (hopcodes : Entry.OpcodesDistinct entries) (hperm : entries.Perm others) :
    (ofEntries others).Lawful where
  encodingsDistinct := by
    have hdistinct := encodingsDistinct_iff_nodup.1 hlawful.encodingsDistinct
    exact encodingsDistinct_iff_nodup.2 (((hperm.filter _).map _).nodup_iff.1 hdistinct)
  wellFormed entry hentry := hlawful.wellFormed entry (hperm.mem_iff.2 hentry)
  pseudosSupplied := by
    intro entry hentry hpseudo
    have hmem := hperm.mem_iff.2 hentry
    obtain ⟨base, ⟨hbase, ⟨hreal, hextends⟩, -⟩, hsupplied⟩ :=
      hlawful.pseudosSupplied entry hmem hpseudo
    have hbaseMem := entry_mem_of_mem_rows hbase
    -- In the other order another row may come first, but with the same entry.
    obtain ⟨first, hfirst⟩ :=
      @exists_firstBase_of_extends (ofEntries others) _ _ hpseudo (hperm.mem_iff.1 hbaseMem) hreal
        hextends
    have hfirstMem := hperm.mem_iff.2 (entry_mem_of_mem_rows hfirst.1)
    have hsame : base.entry = first.entry :=
      hopcodes.eq_of_extends hlawful.wellFormed (hlawful.wellFormed entry hmem) hbaseMem hreal
        hextends hfirstMem hfirst.2.1.1 hfirst.2.1.2
    exact ⟨first, hfirst, hsame ▸ hsupplied⟩

end Table

namespace Registry

/-- If real instructions differ in their opcodes, it makes no difference to the
    verdict in which order the entries are declared. -/
theorem validate_eq_ok_iff_of_perm {entries others : List Entry}
    (hopcodes : Entry.OpcodesDistinct entries) (hperm : entries.Perm others)
    (registers : ControlRegisters) :
    validate ⟨.ofEntries entries, registers⟩ = .ok () ↔
      validate ⟨.ofEntries others, registers⟩ = .ok () := by
  simp only [validate_eq_ok_iff_lawful]
  constructor
  · rintro ⟨hlawful, hgapless⟩
    exact ⟨hlawful.of_perm hopcodes hperm, hgapless⟩
  · rintro ⟨hlawful, hgapless⟩
    exact ⟨hlawful.of_perm (hopcodes.of_perm hperm) hperm.symm, hgapless⟩

/-- The architecture's entries may be declared backwards, all pseudo-instructions
    before the instructions that they are built on. -/
theorem validate_standard_reversed :
    Entry.OpcodesDistinct standard.table.entries
      ∧ validate ⟨.ofEntries standard.table.entries.reverse, standard.registers⟩ = .ok () := by
  have hopcodes : Entry.OpcodesDistinct standard.table.entries := by decide +kernel
  have hperm : standard.table.entries.Perm standard.table.entries.reverse :=
    (List.reverse_perm _).symm
  exact ⟨hopcodes, (validate_eq_ok_iff_of_perm hopcodes hperm _).1 validate_standard⟩

-- Of two possible bases with the same opcode only one need supply the operands.
example :
    (Table.ofEntries [⟨"logicw", .rrrkExp, [14, 22], false⟩,
        ⟨"logicb", .rrrkkExp, [14, 22], false⟩,
        ⟨"and", .rrrExp, [14, 22, 1], true⟩]).PseudosSupplied
      ∧ ¬ (Table.ofEntries [⟨"logicb", .rrrkkExp, [14, 22], false⟩,
        ⟨"logicw", .rrrkExp, [14, 22], false⟩,
        ⟨"and", .rrrExp, [14, 22, 1], true⟩]).PseudosSupplied := by
  decide

end Registry

end Sigma16
