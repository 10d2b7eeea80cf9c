import Covenant.Command
import Covenant.Proofs.Compilation.Independence
import Covenant.Proofs.Text.Hexadecimal
import Mathlib

/-! What a compilation with listings prints. Listings are read back from the text of the codes. That
never fails, so what is listed is the code that was generated. -/

namespace Covenant

namespace Command

/-- The listing of the code itself, under the name of its contract. -/
def listed (compiled : Compiled) : String :=
  "\n" ++ compiled.name ++ " (runtime):\n" ++ Evm.listing compiled.runtime

theorem run_listing (compiled : Compiled) (printed : String) :
    (listing compiled).run printed = .ok () (printed ++ listed compiled) := by
  have texts : printed ++ s!"\n{compiled.name} (runtime):\n" ++ Evm.listing compiled.runtime =
      printed ++ listed compiled := by
    rw [String.append_assoc]
    rfl
  rw [listing, Hex.decode?_encode, ← texts]
  rfl

theorem run_forM_listing (contracts : List Compiled) (printed : String) :
    (contracts.forM listing).run printed =
      .ok () (printed ++ String.join (contracts.map listed)) := by
  rw [List.forM_eq_forM]
  induction contracts generalizing printed with
  | nil =>
      rw [List.map_nil, String.join_nil, String.append_empty]
      rfl
  | cons compiled contracts induction =>
      rw [List.forM_cons, EStateM.run_bind, run_listing, List.map_cons, String.join_cons,
        ← String.append_assoc]
      exact induction _

theorem exists_of_run_orStop {α : Type} {result : Except CompileError α}
    {next : α → Printing Unit} {printed rest : String} {failure : Failure}
    (prints : ∀ value printed, ∃ rest, (next value).run printed = .ok () rest)
    (fails : (orStop result >>= next).run printed = .error failure rest) :
    ∃ error, failure = .compile error := by
  cases result with
  | error error =>
      cases fails
      exact ⟨error, rfl⟩
  | ok value =>
      obtain ⟨out, done⟩ := prints value printed
      change (next value).run printed = _ at fails
      rw [done] at fails
      cases fails

/-- A command stops only where the compiler does. -/
theorem exists_of_run_output {command : Command} {limits : Limits} {source printed rest : String}
    {failure : Failure} (fails : (command.output limits source).run printed = .error failure rest) :
    ∃ error, failure = .compile error := by
  cases command with
  | compile withListing =>
      refine exists_of_run_orStop (fun contracts printed => ?_) fails
      cases withListing with
      | false => exact ⟨_, rfl⟩
      | true => exact ⟨_, run_forM_listing contracts _⟩
  | tokens => exact exists_of_run_orStop (fun _ _ => ⟨_, rfl⟩) fails
  | ast tree => exact exists_of_run_orStop (fun _ _ => ⟨_, rfl⟩) fails

theorem run_output_compile {limits : Limits} {source : String} {contracts : List Compiled}
    (compiled : Covenant.compile limits source = .ok contracts) (printed : String) :
    ((compile true).output limits source).run printed =
      .ok () (printed ++ ((Json.array (contracts.map Compiled.toJson)).render ++ "\n") ++
        String.join (contracts.map listed)) := by
  rw [output, compiled]
  exact run_forM_listing contracts _

theorem fromUTF8?_toUTF8 (source : String) : String.fromUTF8? source.toUTF8 = some source :=
  dif_pos source.isValidUTF8

theorem run_compile {limits : Limits} {source : String} {contracts : List Compiled}
    (compiled : Covenant.compile limits source = .ok contracts) (path : String) :
    (compile true).run limits path (some source.toUTF8) =
      .success ((Json.array (contracts.map Compiled.toJson)).render ++ "\n" ++
        String.join (contracts.map listed)) := by
  simp only [run, fromUTF8?_toUTF8, run_output_compile compiled, String.empty_append]

end Command

/-- Bytes are written as lowercase digits, two for each byte, and read back from them. A text is read
exactly if its bytes are an even number and its characters are digits, and then it is what was read,
written, but for the case of its digits. So a command never stops for a code that cannot be read from
its own text, and a compilation with listings lists the codes that were generated. -/
theorem hexadecimal_text_exact :
    (∀ bytes : List UInt8,
      (Hex.encode bytes).length = 2 * bytes.length ∧
        (∀ c ∈ (Hex.encode bytes).toList, Hex.IsLowerDigit c) ∧
        (Hex.encode bytes).toList =
          bytes.flatMap (fun byte => (Hex.padded 2 byte.toNat).toList) ∧
        Hex.decode? (Hex.encode bytes) = some bytes) ∧
    (∀ text : String,
      ((Hex.decode? text).isSome ↔
          text.utf8ByteSize % 2 = 0 ∧ ∀ c ∈ text.toList, Hex.IsDigit c) ∧
        ∀ bytes, Hex.decode? text = some bytes → Hex.encode bytes = text.toLower) ∧
    ∀ (limits : Limits) (source : String),
      (∀ (command : Command) (printed : String),
        (command.output limits source).run "" ≠ .error .notHex printed) ∧
      ∀ (path : String) (contracts : List Compiled), compile limits source = .ok contracts →
        (Command.compile true).run limits path (some source.toUTF8) =
          .success ((Json.array (contracts.map Compiled.toJson)).render ++ "\n" ++
            String.join (contracts.map Command.listed)) := by
  refine ⟨fun bytes => ?_, fun text => ?_, fun limits source => ⟨?_, ?_⟩⟩
  · exact ⟨Hex.length_encode bytes, fun _ => Hex.isLowerDigit_of_mem_encode,
      Hex.toList_encode bytes, Hex.decode?_encode bytes⟩
  · exact ⟨Hex.isSome_decode?_iff text, fun _ => Hex.encode_of_decode?⟩
  · intro command printed fails
    obtain ⟨error, isCompile⟩ := Command.exists_of_run_output fails
    cases isCompile
  · exact fun path _ compiled => Command.run_compile compiled path

/-- Digits of both cases, a character that stands astride two pairs, and a contract that is listed. -/
theorem mixed_case_text_and_log_listing :
    Hex.decode? "000fA9ff" = some [0x00, 0x0f, 0xa9, 0xff] ∧
      Hex.encode [0x00, 0x0f, 0xa9, 0xff] = "000fa9ff" ∧
      "aé0".utf8ByteSize = 4 ∧ Hex.decode? "aé0" = none ∧
      compile ⟨128, 8⟩ logSource = .ok [logOutput] ∧
      (Command.compile true).run ⟨128, 8⟩ "log" (some logSource.toUTF8) =
        .success ((Json.array [logOutput.toJson]).render ++ "\n" ++ Command.listed logOutput) := by
  obtain ⟨_, texts, commands⟩ := hexadecimal_text_exact
  have read : Hex.decode? "000fA9ff" = some [0x00, 0x0f, 0xa9, 0xff] := by decide
  have written := (texts "000fA9ff").2 _ read
  have lower : "000fA9ff".toLower = "000fa9ff" := by decide +kernel
  have unread : Hex.decode? "aé0" = none := by
    rw [← Option.not_isSome_iff_eq_none, (texts "aé0").1]
    rintro ⟨_, digits⟩
    exact absurd (digits 'é' (by decide)) (by decide)
  have log : compile ⟨128, 8⟩ logSource = .ok [logOutput] := by cbv
  have printed := (commands ⟨128, 8⟩ logSource).2 "log" _ log
  simp only [List.map_cons, List.map_nil, String.join_cons, String.join_nil,
    String.append_empty] at printed
  exact ⟨read, written.trans lower, by decide, unread, log, printed⟩

end Covenant
