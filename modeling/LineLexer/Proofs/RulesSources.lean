import LineLexer.Proofs.Json.PromptDecoders
import LineLexer.Rules.Json

/-!
# Rule sets from sources of bytes

The bytes of a text are read as the text is. A source that fails before its end never gives a rule
set, not even if the bytes that it has delivered are a whole document. The main statement is
`read_sources`.
-/

namespace LineLexer.Rules

open Json Decoder

/-- Rule sets are read no further than they must. -/
theorem prompt_decoder : decoder.Prompt := by
  have fields : PromptFields form.fields := by
    simp only [PromptFields, form, List.forall_mem_cons]
    exact ⟨.field .string _ _ _, .field (.list .string) _ _ _, .field .string _ _ _,
      .field (.list .char) _ _ _, by simp⟩
  exact .record fields

/-- From the bytes of a text the same is read as from the text. A source that delivers the first
bytes of a document and then fails never gives a rule set. Its failure is reported if the bytes
alone are a document or break off; any other fault is that of every document that starts with the
same bytes. -/
theorem read_sources :
    (∀ text : String, ofJsonBytes .finished (utf8 text.toList) = ofJson text) ∧
    ∀ (bytes : List UInt8) (k : Nat) (reason : String),
      (∀ rules, ofJsonBytes (.failed reason) (bytes.take k) ≠ .ok rules) ∧
      ((∃ rules, ofJsonBytes .finished (bytes.take k) = .ok rules) ∨
          ofJsonBytes .finished (bytes.take k) = .error .incomplete →
        ofJsonBytes (.failed reason) (bytes.take k) = .error (.interrupted reason)) ∧
      ∀ fault, ofJsonBytes (.failed reason) (bytes.take k) = .error fault →
        fault ≠ .interrupted reason →
        ∀ other : List UInt8, other.take k = bytes.take k →
          ofJsonBytes .finished other = .error fault := by
  refine ⟨fun text => ?_, fun bytes k reason => ?_⟩
  · have read := read_ofList decoder text.toList
    rw [String.ofList_toList] at read
    exact read.symm
  · rcases prompt_decoder.readBytes (bytes.take k) with failed | ⟨found, definite, same⟩
    · have cut : ofJsonBytes (.failed reason) (bytes.take k) = .error (.interrupted reason) :=
        failed reason
      rw [cut]
      refine ⟨nofun, fun _ => rfl, fun fault h other => ?_⟩
      cases h
      exact absurd rfl other
    · have whole (ending : Ending) (more : List UInt8) :
          ofJsonBytes ending (bytes.take k ++ more) = .error found := same ending more
      have cut := whole (.failed reason) []
      have alone := whole .finished []
      rw [List.append_nil] at cut alone
      rw [cut, alone]
      refine ⟨nofun, ?_, fun fault h _ other start => ?_⟩
      · rintro (⟨rules, h⟩ | h) <;> cases h
        exact definite.elim
      · cases h
        rw [← List.take_append_drop k other, start]
        exact whole .finished _

/-- An empty list is a whole document, and yet it is not accepted from a source that fails behind
it. An opened list breaks off. A number in place of a name is refused, also if the document is
malformed behind it. -/
theorem read_sources_lists :
    ofJsonBytes (.failed "reader failed") ((utf8 ['[', ']']).take 2) =
        .error (.interrupted "reader failed") ∧
      ofJsonBytes (.failed "reader failed") ((utf8 ['[', '7']).take 1) =
        .error (.interrupted "reader failed") ∧
      ofJsonBytes .finished (utf8 ['[', '7', ',', ',']) =
        .error (.mismatch (.wrongType (.integer 7) "a string")) := by
  have sources := read_sources.2
  refine ⟨(sources _ _ _).2.1 (.inl ⟨standard, rfl⟩), (sources _ _ _).2.1 (.inr rfl), ?_⟩
  exact (sources (utf8 ['[', '7', ',']) 3 "reader failed").2.2 _ rfl nofun _ rfl

/-- A number may go on where its source fails. -/
example : ofJsonBytes (.failed "reader failed") (utf8 ['[', '7']) =
    .error (.interrupted "reader failed") := by
  rfl

end LineLexer.Rules
