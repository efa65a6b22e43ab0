import Sigma16.CommandLine.Outcome
import Sigma16.Proofs.Decoder.FetchLength
import Sigma16.Proofs.Entry.Text
import Sigma16.Proofs.Word.Spelling

namespace Sigma16

/-- The text of an entry is one line if its mnemonic is. -/
theorem Entry.lineFeed_notMem_text {entry : Entry} (hmnemonic : '\n' ∉ entry.mnemonic.toList) :
    '\n' ∉ entry.text.toList := by
  have hfields : '\n' ∉ entry.opcodeText.toList := entry.printable_opcodeText.notMem (by decide)
  have hlabel : '\n' ∉ entry.format.label.toList := entry.format.printable_label.notMem (by decide)
  have hmark : '\n' ∉ mark entry.pseudo := by
    cases entry.pseudo <;> decide
  simp only [toList_text, unmarkedText, List.mem_append, List.mem_cons, not_or]
  simp [hmnemonic, hfields, hmark, hlabel]

namespace CommandLine

/-- What the program has written to standard error before a failure. -/
def logBefore (spec : Option String) (events : List Event) : String :=
  let (filter, faults) := (spec.map Filter.ofSpec).getD (.standard, [])
  String.join (faults.map (·.line)) ++ logText filter events

theorem run_of_ofArguments {arguments : List String} {request : Request}
    (hrequest : Request.ofArguments arguments = .ok request) (registry : Registry)
    (spec : Option String) :
    run registry arguments spec =
      match (report registry request).result with
      | .ok output => ⟨0, output, logBefore spec (report registry request).events⟩
      | .error failure =>
        ⟨1, "", logBefore spec (report registry request).events ++ failure.text⟩ := by
  simp only [run, hrequest]
  rfl

/-- The program fails: it prints nothing, and what it writes to standard error
    ends with the text of the failure. -/
def Outcome.FailsWith (outcome : Outcome) (failure : Failure) : Prop :=
  outcome.exitCode = 1 ∧ outcome.output = "" ∧ failure.text.toList <:+ outcome.diagnostics.toList

section Run

variable {registry : Registry} {arguments : List String} {request : Request}

theorem failsWith_of_result_eq_error (hrequest : Request.ofArguments arguments = .ok request)
    {failure : Failure} (hresult : (report registry request).result = .error failure)
    (spec : Option String) : (run registry arguments spec).FailsWith failure := by
  rw [run_of_ofArguments hrequest, hresult]
  refine ⟨rfl, rfl, ?_⟩
  simp

theorem exitCode_and_output_of_result_eq_ok (hrequest : Request.ofArguments arguments = .ok request)
    {output : String} (hresult : (report registry request).result = .ok output)
    (spec : Option String) :
    (run registry arguments spec).exitCode = 0 ∧ (run registry arguments spec).output = output := by
  rw [run_of_ofArguments hrequest, hresult]
  exact ⟨rfl, rfl⟩

end Run

/-- The text that names a decoded instruction: that of the preferred entry, and
    the mnemonic of the real one in parentheses if this is another. -/
def nameText (real preferred : Entry) : String :=
  if preferred = real then preferred.text else preferred.text ++ " (" ++ real.mnemonic ++ ")"

theorem lineFeed_notMem_nameText {real preferred : Entry} (hreal : '\n' ∉ real.mnemonic.toList)
    (hpreferred : '\n' ∉ preferred.mnemonic.toList) : '\n' ∉ (nameText real preferred).toList := by
  have htext := Entry.lineFeed_notMem_text hpreferred
  unfold nameText
  split
  next => exact htext
  next => simp [htext, hreal]

theorem decodedText_eq {word : Word} {real : Entry}
    (hcount : real.wordCount = if word.isDoubleWord then 2 else 1) (preferred : Entry) :
    decodedText word real preferred
      = nameText real preferred ++ "\n" ++ "words: " ++ toString real.wordCount ++ "\n" := by
  have hdigit : (if word.isDoubleWord then "2" else "1") = toString real.wordCount := by
    rw [hcount]
    cases word.isDoubleWord <;> rfl
  rw [decodedText, hdigit, nameText]
  by_cases hsame : preferred = real
  · rw [if_pos hsame, if_pos hsame.symm, hsame]
  · rw [if_neg hsame, if_neg (Ne.symm hsame)]

/-- The failure to read a word and the failure to decode one end differently. -/
theorem Outcome.not_failsWith_malformedWord {outcome : Outcome} {word : Word}
    (hfails : outcome.FailsWith (.noInstruction word)) (text : String) (cause : HexError) :
    ¬ outcome.FailsWith (.malformedWord text cause) := by
  rintro ⟨-, -, hmalformed⟩
  have hopcode : ['d', 'e', '\n'] <:+ outcome.diagnostics.toList := by
    refine List.IsSuffix.trans ?_ hfails.2.2
    refine ⟨("Error: " ++ word.toHex ++ " does not hold a valid opco").toList, ?_⟩
    simp [Failure.text]
  have hcause : (cause.message ++ "\n").toList <:+ outcome.diagnostics.toList := by
    refine List.IsSuffix.trans ?_ hmalformed
    refine ⟨("Error: " ++ text ++ " is not a hexadecimal word\n\nCaused by:\n    ").toList, ?_⟩
    simp [Failure.text]
  have hsuffix := List.suffix_of_suffix_length_le hopcode hcause (by cases cause <;> decide)
  cases cause <;> exact absurd hsuffix (by decide)

section Decode

variable {registry : Registry} {arguments : List String} {text : String}

/-- There are three ends to a request for decoding: the text spells no word, the
    word that it spells selects no instruction, or it selects one. -/
theorem run_decode_cases (hrequest : Request.ofArguments arguments = .ok (.decode text))
    (spec : Option String) :
    ((¬ ∃ word : Word, Word.Spells text word.toNat)
        ∧ ∃ cause, (run registry arguments spec).FailsWith (.malformedWord text cause))
      ∨ (∃ word : Word, Word.Spells text word.toNat
          ∧ (Decoder.ofTable registry.table).decode? word = none
          ∧ (run registry arguments spec).FailsWith (.noInstruction word))
      ∨ ∃ (word : Word) (real preferred : Row), Word.Spells text word.toNat
          ∧ (Decoder.ofTable registry.table).decode? word = some real
          ∧ (Decoder.ofTable registry.table).decodeAlias? word = some preferred
          ∧ (run registry arguments spec).exitCode = 0
          ∧ (run registry arguments spec).output
              = decodedText word real.entry preferred.entry := by
  cases hread : Word.ofText text with
  | error cause =>
    have hresult : (report registry (.decode text)).result = .error (.malformedWord text cause) := by
      simp [report, reportDecode, hread]
    refine .inl ⟨?_, cause, failsWith_of_result_eq_error hrequest hresult spec⟩
    rintro ⟨word, hword⟩
    rw [Word.ofText_eq_ok_iff.2 hword] at hread
    cases hread
  | ok word =>
    have hword := Word.ofText_eq_ok_iff.1 hread
    cases hdecode : (Decoder.ofTable registry.table).decode? word with
    | none =>
      have hresult : (report registry (.decode text)).result = .error (.noInstruction word) := by
        simp [report, reportDecode, hread, hdecode]
      exact .inr (.inl ⟨word, hword, hdecode, failsWith_of_result_eq_error hrequest hresult spec⟩)
    | some real =>
      have hsome := Decoder.isSome_decodeAlias? (Decoder.ofTable registry.table) word
      rw [hdecode, Option.isSome_some, Option.isSome_iff_exists] at hsome
      obtain ⟨preferred, hpreferred⟩ := hsome
      have hresult : (report registry (.decode text)).result
          = .ok (decodedText word real.entry preferred.entry) := by
        simp [report, reportDecode, hread, hdecode, hpreferred]
      exact .inr (.inr ⟨word, real, preferred, hword, hdecode, hpreferred,
        exitCode_and_output_of_result_eq_ok hrequest hresult spec⟩)

/-- What the program makes of a text that it is to decode. -/
structure DecodesText (table : Table) (text : String) (outcome : Outcome) : Prop where
  exitCode_eq_zero_iff : outcome.exitCode = 0 ↔
    ∃ word : Word, Word.Spells text word.toNat ∧ ((Decoder.ofTable table).decode? word).isSome
  fails : outcome.exitCode ≠ 0 → outcome.exitCode = 1 ∧ outcome.output = ""
  malformed_iff : (∃ cause, outcome.FailsWith (.malformedWord text cause)) ↔
    ¬ ∃ word : Word, Word.Spells text word.toNat
  /-- Two lines: the name of the instruction, and the number of words that both
      the real entry and the preferred one take. -/
  output_eq : ∀ (word : Word) (real : Row), Word.Spells text word.toNat →
    (Decoder.ofTable table).decode? word = some real →
    ∃ preferred, (Decoder.ofTable table).decodeAlias? word = some preferred
      ∧ outcome.output = nameText real.entry preferred.entry ++ "\n"
          ++ "words: " ++ toString real.entry.wordCount ++ "\n"
      ∧ '\n' ∉ (nameText real.entry preferred.entry).toList
      ∧ preferred.entry.wordCount = real.entry.wordCount

/-- What is printed for a word does not depend on how it is spelled. -/
theorem DecodesText.output_eq_of_spells {table : Table} {other : String}
    {outcome otherOutcome : Outcome} (hdecodes : DecodesText table text outcome)
    (hother : DecodesText table other otherOutcome) {word : Word}
    (hword : Word.Spells text word.toNat) (hotherWord : Word.Spells other word.toNat) :
    outcome.output = otherOutcome.output := by
  cases hdecode : (Decoder.ofTable table).decode? word with
  | none =>
    have hfails {text : String} {outcome : Outcome} (hdecodes : DecodesText table text outcome)
        (hword : Word.Spells text word.toNat) : outcome.exitCode ≠ 0 := by
      rw [ne_eq, hdecodes.exitCode_eq_zero_iff]
      rintro ⟨found, hfound, hsome⟩
      rw [hfound.unique hword, hdecode] at hsome
      cases hsome
    rw [(hdecodes.fails (hfails hdecodes hword)).2, (hother.fails (hfails hother hotherWord)).2]
  | some real =>
    obtain ⟨preferred, hpreferred, houtput, -, -⟩ := hdecodes.output_eq word real hword hdecode
    obtain ⟨found, hfound, hotherOutput, -, -⟩ := hother.output_eq word real hotherWord hdecode
    obtain rfl := Option.some.inj (hfound.symm.trans hpreferred)
    rw [houtput, hotherOutput]

theorem decodesText_run (hvalid : registry.validate = .ok ())
    (hlines : ∀ entry ∈ registry.table.entries, '\n' ∉ entry.mnemonic.toList)
    (hrequest : Request.ofArguments arguments = .ok (.decode text)) (spec : Option String) :
    DecodesText registry.table text (run registry arguments spec) := by
  have hmnemonic (row : Row) (hrow : row ∈ registry.table.instructions) :
      '\n' ∉ row.entry.mnemonic.toList :=
    hlines row.entry (Table.entry_mem_of_mem_rows (Table.mem_instructions.1 hrow).1)
  rcases @run_decode_cases registry arguments text hrequest spec with
    ⟨hspells, cause, hfails⟩ | ⟨word, hword, hdecode, hfails⟩
      | ⟨word, real, preferred, hword, hdecode, hpreferred, hexit, houtput⟩
  · exact {
      exitCode_eq_zero_iff := by
        rw [hfails.1]
        refine ⟨fun hzero => absurd hzero (by decide), ?_⟩
        rintro ⟨word, hword, -⟩
        exact absurd ⟨word, hword⟩ hspells
      fails := fun _ => ⟨hfails.1, hfails.2.1⟩
      malformed_iff := ⟨fun _ => hspells, fun _ => ⟨cause, hfails⟩⟩
      output_eq := fun word _ hword => absurd ⟨word, hword⟩ hspells }
  · exact {
      exitCode_eq_zero_iff := by
        rw [hfails.1]
        refine ⟨fun hzero => absurd hzero (by decide), ?_⟩
        rintro ⟨other, hother, hsome⟩
        rw [hother.unique hword, hdecode] at hsome
        cases hsome
      fails := fun _ => ⟨hfails.1, hfails.2.1⟩
      malformed_iff := by
        refine ⟨?_, fun hnone => absurd ⟨word, hword⟩ hnone⟩
        rintro ⟨cause, hmalformed⟩
        exact absurd hmalformed (Outcome.not_failsWith_malformedWord hfails text cause)
      output_eq := by
        intro other real hother hreal
        rw [hother.unique hword, hdecode] at hreal
        cases hreal }
  · exact {
      exitCode_eq_zero_iff := by
        refine ⟨fun _ => ⟨word, hword, ?_⟩, fun _ => hexit⟩
        rw [hdecode, Option.isSome_some]
      fails := fun hfails => absurd hexit hfails
      malformed_iff := by
        refine ⟨?_, fun hnone => absurd ⟨word, hword⟩ hnone⟩
        rintro ⟨cause, hone, -⟩
        rw [hexit] at hone
        cases hone
      output_eq := by
        intro other found hother hfound
        obtain rfl := hother.unique hword
        obtain rfl := Option.some.inj (hfound.symm.trans hdecode)
        have hlawful := Registry.lawful_of_validate_eq_ok hvalid
        have hreal := Decoder.decode?_eq_some_iff.1 hdecode
        have hcount := Decoder.wordCount_eq_ite_of_selector hlawful
          (List.mem_filter.1 hreal.1).1 hreal.2.1
        obtain ⟨hrow, hselector⟩ := Decoder.selector_of_decodeAlias? hlawful hpreferred
        have hpreferredCount := Decoder.wordCount_eq_ite_of_selector hlawful hrow hselector
        refine ⟨preferred, hpreferred, houtput.trans (decodedText_eq hcount _),
          lineFeed_notMem_nameText (hmnemonic _ (List.mem_filter.1 hreal.1).1)
            (hmnemonic _ hrow), ?_⟩
        rw [hpreferredCount, hcount] }

end Decode

theorem lineFeed_notMem_mnemonic_standard :
    ∀ entry ∈ Registry.standard.table.entries, '\n' ∉ entry.mnemonic.toList := by
  decide +kernel

/-- The command to decode accepts the texts that spell a word, however they do it,
    and answers for the word alone: it succeeds if the word selects an instruction
    and then prints which one, and it tells apart the two ways to fail. -/
theorem run_decode_accepts {arguments : List String} {text : String}
    (hrequest : Request.ofArguments arguments = .ok (.decode text)) (spec : Option String) :
    DecodesText Registry.standard.table text (run .standard arguments spec)
      ∧ ∀ (others : List String) (other : String) (otherSpec : Option String) (word : Word),
          Request.ofArguments others = .ok (.decode other) →
          Word.Spells text word.toNat → Word.Spells other word.toNat →
          (run .standard others otherSpec).output = (run .standard arguments spec).output := by
  have hdecodes (arguments : List String) (text : String) (spec : Option String)
      (hrequest : Request.ofArguments arguments = .ok (.decode text)) :
      DecodesText Registry.standard.table text (run .standard arguments spec) :=
    decodesText_run Registry.validate_standard lineFeed_notMem_mnemonic_standard hrequest spec
  refine ⟨hdecodes arguments text spec hrequest, ?_⟩
  intro others other otherSpec word hothers hword hotherWord
  exact (hdecodes others other otherSpec hothers).output_eq_of_spells
    (hdecodes arguments text spec hrequest) hotherWord hword

/-- Marks, a sign and a leading zero in front of the word `f2a5`. -/
theorem run_decode_accepts_jumpeq :
    Request.ofArguments ["decode", "--", "0x0x$+0F2a5"] = .ok (.decode "0x0x$+0F2a5")
      ∧ Word.Spells "0x0x$+0F2a5" (0xf2a5 : Word).toNat
      ∧ (run .standard ["decode", "--", "0x0x$+0F2a5"] none).exitCode = 0
      ∧ (run .standard ["decode", "--", "0x0x$+0F2a5"] none).output
          = "jumpeq JX [15,5,2] pseudo (jumpc1)\nwords: 2\n" := by
  have hrequest : Request.ofArguments ["decode", "--", "0x0x$+0F2a5"]
      = .ok (.decode "0x0x$+0F2a5") := by
    decide
  have hspells : Word.Spells "0x0x$+0F2a5" (0xf2a5 : Word).toNat :=
    Word.ofText_eq_ok_iff.1 (by decide)
  obtain ⟨hdecode, hpreferred⟩ := Decoder.decoded_standard_jumpeq
  have hdecodes := (run_decode_accepts hrequest none).1
  refine ⟨hrequest, hspells, ?_, ?_⟩
  · rw [hdecodes.exitCode_eq_zero_iff]
    exact ⟨_, hspells, by rw [hdecode, Option.isSome_some]⟩
  · obtain ⟨preferred, hfound, houtput, -, -⟩ := hdecodes.output_eq _ _ hspells hdecode
    rw [hpreferred, Option.some.injEq] at hfound
    subst hfound
    rw [houtput]
    decide

end CommandLine

end Sigma16
