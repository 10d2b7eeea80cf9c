import Covenant.Proofs.Source.Order
import Covenant.Proofs.Token.LongestMatch
import Mathlib

/-! What a source that cannot be lexed says about every source that starts with it. All errors but
one are decided by the text up to them. Only a string that is not closed may still be closed. -/

namespace Covenant

namespace Lexeme

/-- Text behind a lexeme that shows where the lexeme ends. A point alone does not: a digit may follow
it, and both may belong to a number. -/
structure Bounds (after : List Char) : Prop where
  nonempty : after ≠ []
  notPoint : after ≠ ['.']

theorem startsFraction_append_of_bounds {text : List Char} (bounds : Bounds text)
    (more : List Char) : startsFraction (text ++ more) = startsFraction text := by
  match text with
  | [] => exact (bounds.nonempty rfl).elim
  | [c] =>
      have notPoint : c ≠ '.' := by
        rintro rfl
        exact bounds.notPoint rfl
      simp [startsFraction, notPoint]
  | c :: d :: rest => simp only [List.cons_append, startsFraction_cons_cons]

theorem takeWhile_append_of_bounds {stays : Char → Bool} {text after : List Char}
    (split : text = text.takeWhile stays ++ after) (bounds : Bounds after) (more : List Char) :
    (text ++ more).takeWhile stays = text.takeWhile stays := by
  apply takeWhile_append_of_stop
  have whole := List.takeWhile_append_dropWhile (p := stays) (l := text)
  rw [List.append_cancel_left (whole.trans split)]
  exact bounds.nonempty

theorem symbol?_append_of_bounds {c : Char} {rest after : List Char} {lexeme : Lexeme}
    (found : symbol? c rest = some lexeme) (split : c :: rest = lexeme.text ++ after)
    (bounds : Bounds after) (more : List Char) : symbol? c (rest ++ more) = some lexeme := by
  cases rest with
  | nil =>
      have alone : lexeme.text = [c] := by
        obtain ⟨sign, -, rfl⟩ := Option.map_eq_some_iff.1 found
        rfl
      rw [alone] at split
      exact (bounds.nonempty (List.cons.inj split).2.symm).elim
  | cons d rest => rw [← found, List.cons_append]; simp [symbol?]

theorem scanNumber_append_of_bounds {text after : List Char} {lexeme : Lexeme}
    (scanned : scanNumber text = .ok lexeme) (split : text = lexeme.text ++ after)
    (bounds : Bounds after) (more : List Char) : scanNumber (text ++ more) = .ok lexeme := by
  have whole := List.takeWhile_append_dropWhile (p := Char.isDigit) (l := text)
  rw [scanNumber] at scanned ⊢
  split at scanned
  · next starts =>
      obtain ⟨c, rest, fraction, -⟩ := eq_of_startsFraction starts
      have stops : text.dropWhile Char.isDigit ≠ [] := by simp [fraction]
      have inner := List.takeWhile_append_dropWhile (p := Char.isDigit) (l := c :: rest)
      simp only [takeWhile_append_of_stop stops, dropWhile_append_of_stop stops,
        if_pos (startsFraction_append_of_true starts more)]
      simp only [fraction, List.cons_append, List.tail_cons] at scanned ⊢
      split at scanned
      · cases scanned
      next notSecond =>
      cases scanned
      have remaining : (c :: rest).dropWhile Char.isDigit = after := by
        have same := whole.trans split
        rw [fraction, List.append_assoc, List.cons_append] at same
        have tails := (List.cons.inj (List.append_cancel_left same)).2
        exact List.append_cancel_left (inner.trans tails)
      have stopsToo : (c :: rest).dropWhile Char.isDigit ≠ [] := by
        rw [remaining]
        exact bounds.nonempty
      rw [← List.cons_append, takeWhile_append_of_stop stopsToo, dropWhile_append_of_stop stopsToo,
        startsFraction_append_of_bounds (remaining ▸ bounds), if_neg notSecond]
  · next notStarts =>
      cases scanned
      have remaining : text.dropWhile Char.isDigit = after :=
        List.append_cancel_left (whole.trans split)
      have stops : text.dropWhile Char.isDigit ≠ [] := by
        rw [remaining]
        exact bounds.nonempty
      simp only [takeWhile_append_of_stop stops, dropWhile_append_of_stop stops,
        startsFraction_append_of_bounds (remaining ▸ bounds), if_neg notStarts]

theorem scan_append_of_bounds {c : Char} {rest after : List Char} {lexeme : Lexeme}
    (scanned : scan c rest = .ok lexeme) (split : c :: rest = lexeme.text ++ after)
    (bounds : Bounds after) (more : List Char) : scan c (rest ++ more) = .ok lexeme := by
  cases readBy c with
  | symbol reads =>
      obtain ⟨found, isFound, scans⟩ := reads rest
      rw [scans] at scanned
      cases scanned
      rw [scan, symbol?_append_of_bounds isFound split bounds]
  | run kind stays reads =>
      rw [reads] at scanned ⊢
      cases scanned
      rw [takeWhile_append_of_bounds (List.cons.inj split).2 bounds]
  | string reads =>
      rw [reads] at scanned ⊢
      exact scanString_append scanned more
  | number _ reads =>
      rw [reads] at scanned ⊢
      exact scanNumber_append_of_bounds scanned split bounds more
  | unexpected reads =>
      rw [reads] at scanned
      cases scanned

/-! Errors. -/

theorem scanString_append_of_error {escaped : Bool} {read text : List Char} {fault : LexFault}
    (failed : scanString escaped read text = .error fault)
    (closes : fault.error ≠ .unterminatedString) (more : List Char) :
    scanString escaped read (text ++ more) = .error fault := by
  fun_induction scanString escaped read text with
  | case1 | case4 =>
      cases failed
      exact (closes rfl).elim
  | case2 => cases failed
  | case3 escaped read rest => simpa [scanString] using failed
  | case5 escaped read rest => simpa [scanString] using failed
  | case6 escaped read c rest other isEscapable induction =>
      simp [scanString, isEscapable, induction failed]
  | case7 escaped read c rest other notEscapable =>
      simpa [scanString, notEscapable] using failed
  | case8 escaped read c rest notQuote notLine notLast _ notEscape induction =>
      have notSlash : c ≠ '\\' := by
        intro isSlash
        cases rest with
        | nil => exact notLast isSlash rfl
        | cons d rest => exact notEscape d rest isSlash rfl
      rw [List.cons_append, scanString]
      · exact induction failed
      all_goals simp_all

theorem scanNumber_append_of_error {text : List Char} {fault : LexFault}
    (failed : scanNumber text = .error fault) (more : List Char) :
    scanNumber (text ++ more) = .error fault := by
  rw [scanNumber] at failed ⊢
  split at failed
  · next starts =>
      obtain ⟨c, rest, fraction, -⟩ := eq_of_startsFraction starts
      have stops : text.dropWhile Char.isDigit ≠ [] := by simp [fraction]
      simp only [takeWhile_append_of_stop stops, dropWhile_append_of_stop stops,
        if_pos (startsFraction_append_of_true starts more)]
      simp only [fraction, List.cons_append, List.tail_cons] at failed ⊢
      split at failed
      · next second =>
          cases failed
          obtain ⟨d, others, isSecond, -⟩ := eq_of_startsFraction second
          have stopsToo : (c :: rest).dropWhile Char.isDigit ≠ [] := by simp [isSecond]
          rw [← List.cons_append, takeWhile_append_of_stop stopsToo,
            dropWhile_append_of_stop stopsToo, if_pos (startsFraction_append_of_true second more)]
      · cases failed
  · cases failed

theorem scan_append_of_error {c : Char} {rest : List Char} {fault : LexFault}
    (failed : scan c rest = .error fault) (closes : fault.error ≠ .unterminatedString)
    (more : List Char) : scan c (rest ++ more) = .error fault := by
  cases readBy c with
  | symbol reads =>
      obtain ⟨found, -, scans⟩ := reads rest
      rw [scans] at failed
      cases failed
  | run kind stays reads =>
      rw [reads] at failed
      cases failed
  | string reads =>
      rw [reads] at failed ⊢
      exact scanString_append_of_error failed closes more
  | number _ reads =>
      rw [reads] at failed ⊢
      exact scanNumber_append_of_error failed more
  | unexpected reads =>
      rw [reads] at failed ⊢
      exact failed

/-- Where an error at the front of a text is: at one of its characters, and for a string that is not
closed at the first. -/
structure FaultWithin (text : List Char) (fault : LexFault) : Prop where
  inside : ∃ c rest, text = fault.before ++ c :: rest
  opening : fault.error = .unterminatedString → fault.before = []

theorem faultWithin_scanString {escaped : Bool} {c : Char} {before read text : List Char}
    {fault : LexFault} (failed : scanString escaped read text = .error fault)
    (isRead : read.reverse = c :: before) : FaultWithin (c :: before ++ text) fault := by
  fun_induction scanString escaped read text generalizing before with
  | case1 | case4 =>
      cases failed
      exact ⟨⟨c, _, rfl⟩, fun _ => rfl⟩
  | case2 => cases failed
  | case3 escaped read rest =>
      cases failed
      exact ⟨⟨'\n', rest, by simp [isRead]⟩, by simp⟩
  | case5 escaped read rest =>
      cases failed
      exact ⟨⟨'\n', rest, by simp [isRead]⟩, by simp⟩
  | case6 escaped read d rest other isEscapable induction =>
      simpa using @induction (before ++ ['\\', d]) failed (by simp [isRead])
  | case7 escaped read d rest other notEscapable =>
      cases failed
      exact ⟨⟨d, rest, by simp [isRead]⟩, by simp⟩
  | case8 escaped read d rest notQuote notLine notLast _ notEscape induction =>
      simpa using @induction (before ++ [d]) failed (by simp [isRead])

theorem faultWithin_scanNumber {text : List Char} {fault : LexFault}
    (failed : scanNumber text = .error fault) : FaultWithin text fault := by
  have whole := List.takeWhile_append_dropWhile (p := Char.isDigit) (l := text)
  rw [scanNumber] at failed
  split at failed
  · next starts =>
      obtain ⟨c, rest, fraction, -⟩ := eq_of_startsFraction starts
      have inner := List.takeWhile_append_dropWhile (p := Char.isDigit) (l := c :: rest)
      simp only [fraction, List.tail_cons] at failed
      split at failed
      · next second =>
          cases failed
          obtain ⟨d, others, isSecond, -⟩ := eq_of_startsFraction second
          refine ⟨⟨'.', d :: others, ?_⟩, by simp⟩
          conv => lhs; rw [← whole, fraction, ← inner, isSecond]
          simp
      · cases failed
  · cases failed

theorem faultWithin_scan {c : Char} {rest : List Char} {fault : LexFault}
    (failed : scan c rest = .error fault) : FaultWithin (c :: rest) fault := by
  cases readBy c with
  | symbol reads =>
      obtain ⟨found, -, scans⟩ := reads rest
      rw [scans] at failed
      cases failed
  | run kind stays reads =>
      rw [reads] at failed
      cases failed
  | string reads =>
      rw [reads] at failed
      exact @faultWithin_scanString false c [] [c] rest fault failed rfl
  | number _ reads =>
      rw [reads] at failed
      exact faultWithin_scanNumber failed
  | unexpected reads =>
      rw [reads] at failed
      cases failed
      exact ⟨⟨c, rest, rfl⟩, by simp⟩

end Lexeme

namespace Token

/-- Where lexing stops: behind `before`, at a lexeme that cannot be read. Text added at the end leaves
everything up to there as it is. -/
structure Stops (tokens : List Token) (cursor : Cursor) (text before : List Char) (c : Char)
    (rest : List Char) (fault : LexFault) : Prop where
  parts : text = before ++ c :: rest
  failed : Lexeme.scan c rest = .error fault
  resumes : ∀ more, ∃ done,
    lexFrom tokens cursor 0 (text ++ more) = lexFrom done (cursor.after before) 0 (c :: rest ++ more)

theorem stops_of_lexFrom {tokens : List Token} {cursor : Cursor} {text : List Char}
    {error : Located LexError} (failed : lexFrom tokens cursor 0 text = .error error) :
    ∃ before c rest fault, Stops tokens cursor text before c rest fault ∧
      error = ⟨(cursor.after (before ++ fault.before)).pos, fault.error⟩ := by
  match text with
  | [] => cases failed
  | c :: rest =>
      cases scanned : Lexeme.scan c rest with
      | error fault =>
          rw [lexFrom, scanned] at failed
          cases failed
          exact ⟨[], c, rest, fault, ⟨rfl, scanned, fun more => ⟨tokens, rfl⟩⟩, rfl⟩
      | ok lexeme =>
          have fronts := Lexeme.fronts_scan scanned
          obtain ⟨after, split⟩ := fronts.isPrefix
          have shorter : after.length < rest.length + 1 := fronts.length_lt split
          rw [lexFrom_of_scan scanned split.symm] at failed
          -- Text that ends here, or with a point, would be lexed, so the lexeme is settled.
          have bounds : Lexeme.Bounds after := by
            constructor
            · rintro rfl
              cases failed
            · rintro rfl
              cases failed
          obtain ⟨before, d, others, fault, stops, isError⟩ := stops_of_lexFrom failed
          refine ⟨lexeme.text ++ before, d, others, fault, ⟨?_, stops.failed, fun more => ?_⟩, ?_⟩
          · rw [← split, stops.parts, List.append_assoc]
          · obtain ⟨done, resumes⟩ := stops.resumes more
            have goes := Lexeme.scan_append_of_bounds scanned split.symm bounds more
            have parts : c :: (rest ++ more) = lexeme.text ++ (after ++ more) := by
              rw [← List.cons_append, ← split, List.append_assoc]
            refine ⟨done, ?_⟩
            rw [List.cons_append, lexFrom_of_scan goes parts, resumes, Cursor.after_append]
          · rw [isError, List.append_assoc, Cursor.after_append _ lexeme.text]
termination_by text.length

theorem pos_le_of_lexFrom {tokens : List Token} {cursor : Cursor} {text : List Char}
    {error : Located LexError} (failed : lexFrom tokens cursor 0 text = .error error) :
    cursor.pos ≤ error.pos := by
  obtain ⟨before, c, rest, fault, -, rfl⟩ := stops_of_lexFrom failed
  exact cursor.pos_le_after (before ++ fault.before)

/-- Text added at the end of a source that cannot be lexed changes nothing, unless a string is open at
its end: then lexing may succeed, but it does not fail at an earlier place. -/
theorem lex_error_persists {source : String} {error : Located LexError}
    (failed : lex source = .error error) :
    (error.value ≠ .unterminatedString → ∀ more, lex (source ++ more) = .error error) ∧
      (error.value = .unterminatedString → ∀ more, (∃ tokens, lex (source ++ more) = .ok tokens) ∨
        ∃ other, lex (source ++ more) = .error other ∧ error.pos ≤ other.pos) := by
  obtain ⟨before, c, rest, fault, stops, rfl⟩ := stops_of_lexFrom failed
  have resumes (more : String) : ∃ done, lex (source ++ more) =
      lexFrom done (Cursor.start.after before) 0 (c :: rest ++ more.toList) := by
    rw [lex, String.toList_append]
    exact stops.resumes more.toList
  constructor
  · intro closed more
    obtain ⟨done, same⟩ := resumes more
    have fails := Lexeme.scan_append_of_error stops.failed closed more.toList
    rw [same, List.cons_append, lexFrom, fails, Cursor.after_append]
  · intro isOpen more
    obtain ⟨done, same⟩ := resumes more
    rw [same, (Lexeme.faultWithin_scan stops.failed).opening isOpen, List.append_nil]
    cases lexed : lexFrom done (Cursor.start.after before) 0 (c :: rest ++ more.toList) with
    | ok tokens => exact .inl ⟨tokens, rfl⟩
    | error other => exact .inr ⟨other, rfl, pos_le_of_lexFrom lexed⟩

/-- A number with two points stays one, and a string that ends in a backslash can only go wrong from
its opening quote on. -/
theorem two_points_and_open_string_persist :
    (∀ more, lex ("a\n1.2.3" ++ more) = .error ⟨⟨2, 4⟩, .secondDecimalPoint⟩) ∧
      ∀ more, (∃ tokens, lex ("a\n\"b\\" ++ more) = .ok tokens) ∨
        ∃ other, lex ("a\n\"b\\" ++ more) = .error other ∧ ⟨2, 1⟩ ≤ other.pos := by
  have point : lex "a\n1.2.3" = .error ⟨⟨2, 4⟩, .secondDecimalPoint⟩ := by rfl
  have slash : lex "a\n\"b\\" = .error ⟨⟨2, 1⟩, .unterminatedString⟩ := by rfl
  exact ⟨(lex_error_persists point).1 (by decide), (lex_error_persists slash).2 rfl⟩

end Token

end Covenant
