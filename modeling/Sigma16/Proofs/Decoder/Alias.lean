import Sigma16.Proofs.Decoder.FetchLength
import Sigma16.Proofs.Entry.Packing
import Sigma16.Proofs.Table.Selectors

namespace Sigma16

namespace Decoder

/-- The two ways to decode a word meet. They answer for the same words, and when
    the literal makes a difference, the preferred instruction is an indexed
    pseudo-instruction built on the real one, and the word packs it together with
    an operand in the nybble `a`. -/
theorem decodeAlias?_built_on_decode? {registry : Registry} (hvalid : registry.validate = .ok ())
    (hselectors : registry.table.SelectorsDistinct) (word : Word) :
    ((ofTable registry.table).decodeAlias? word).isSome
        = ((ofTable registry.table).decode? word).isSome
      ∧ ∀ real preferred, (ofTable registry.table).decode? word = some real →
          (ofTable registry.table).decodeAlias? word = some preferred →
          preferred = real
            ∨ (preferred.entry.pseudo = true ∧ preferred.entry.family = .indexed
              ∧ registry.table.base? preferred.entry = some real
              ∧ preferred.entry.opcode = word.opcodeFields ++ [word.d]
              ∧ preferred.entry.firstWord? = some word.clearA) := by
  have hlawful := Registry.lawful_of_validate_eq_ok hvalid
  refine ⟨isSome_decodeAlias? _ word, ?_⟩
  intro real preferred hdecode hpreferred
  obtain ⟨hreal, hselector, -⟩ := decode?_eq_some_iff.1 hdecode
  obtain ⟨hinstruction, hcarried⟩ := selector_of_decodeAlias? hlawful hpreferred
  obtain ⟨found, hfound, heither⟩ := eq_or_resolve?_of_decodeAlias? hpreferred
  rw [hdecode, Option.some.injEq] at hfound
  subst hfound
  rcases heither with heq | ⟨hfamily, hresolve⟩
  · exact .inl heq
  · have hopcode := (resolve?_eq_some_iff.1 hresolve).2.1
    rcases hlawful.eq_or_baseOf_of_selector_eq hselectors hreal hinstruction
      (hcarried.trans hselector.symm) with heq | ⟨hpseudo, hbase⟩
    · exact .inl heq
    · have hindexed : preferred.entry.family = .indexed := hbase.family_eq.trans hfamily
      have hentry := hlawful.wellFormed_of_mem_instructions hinstruction
      exact .inr ⟨hpseudo, hindexed, hbase.base?_eq, hopcode,
        hentry.firstWord?_eq_clearA hindexed hopcode hcarried⟩

/-- The architecture names `jumpc1` with the literal 2 `jumpeq`. -/
theorem decodeAlias?_built_on_decode?_jumpeq :
    Registry.standard.table.base? ⟨"jumpeq", .jx, [15, 5, 2], true⟩
        = some ⟨26, ⟨"jumpc1", .kx, [15, 5], false⟩⟩
      ∧ Entry.firstWord? ⟨"jumpeq", .jx, [15, 5, 2], true⟩ = some 0xf205 := by
  obtain ⟨hdecode, hpreferred⟩ := decoded_standard_jumpeq
  obtain ⟨-, hagree⟩ := decodeAlias?_built_on_decode? Registry.validate_standard
    (by decide +kernel) 0xf2a5
  rcases hagree _ _ hdecode hpreferred with heq | ⟨-, -, hbase, -, hword⟩
  · cases heq
  · exact ⟨hbase, hword⟩

end Decoder

end Sigma16
