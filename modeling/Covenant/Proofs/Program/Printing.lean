import Covenant.Proofs.Program.Parsing
import Covenant.Proofs.Program.Rereading
import Mathlib

/-! A program that has been read is read again from the text it is printed as. -/

namespace Covenant

open Token (Shape)

theorem Token.IsWord.shape {word : String} {token : Token} (isWord : token.IsWord word) :
    token.shape = .name word := by
  rw [shape_of_identifier isWord.kind, isWord.text]

/-! What is printed are texts of tokens. -/

theorem TypeName.writable_of_arrays {tokens : List Token} {type : TypeName}
    (arrays : Arrays tokens type) (writable : Shape.Writable (tokens.map Token.shape)) :
    Shape.Writable type.shapes := by
  induction arrays with
  | name isName => simpa [shapes, Token.shape_of_identifier isName] using writable
  | brackets _ _ _ induction =>
      simp only [List.map_append, Shape.writable_append] at writable
      simp [shapes, induction writable.1]

theorem TypeName.writable_of_derives {tokens : List Token} {type : TypeName}
    (derives : Derives tokens type) (writable : Shape.Writable (tokens.map Token.shape)) :
    Shape.Writable type.shapes := by
  induction derives with
  | arrays arrays => exact writable_of_arrays arrays writable
  | mapping isWord _ isKey _ _ _ induction =>
      simp only [List.map_append, List.map_cons, Shape.writable_append, Shape.writable_cons,
        isWord.shape, Token.shape_of_identifier isKey] at writable
      obtain ⟨word, _, key, _, inner, _⟩ := writable
      simp [shapes, word, key, induction inner]

namespace Stmt

theorem Step.writable {counter : Token} {tokens : List Token} {value : Expr}
    (step : Step counter tokens value) (writable : Shape.Writable (tokens.map Token.shape)) :
    Shape.Writable (.name "step" :: value.shapes) := by
  have word : Shape.Spelled (.name "step") :=
    @Shape.spelled_of_ofWord "step" (by decide) (by decide)
  cases step with
  | one =>
      have digits : "1".toList = ['1'] := rfl
      have one : Shape.Spelled (.number "1") := by
        rw [Shape.Spelled, Shape.number, digits]
        exact .integer (by simp) (by simp)
      simp [word, one, Expr.shapes, Literal.shape]
  | given _ derives =>
      simp only [List.map_cons, Shape.writable_cons] at writable
      simp [word, Expr.writable_of_derives derives writable.2]

theorem Simple.writable {tokens : List Token} {stmt : Stmt} (simple : Simple tokens stmt)
    (writable : Shape.Writable (tokens.map Token.shape)) : Shape.Writable stmt.shapes := by
  cases simple with
  | break_ | continue_ | return_ => simp [shapes]
  | returnValue _ derives =>
      simp only [List.map_cons, Shape.writable_cons] at writable
      simp [shapes, Expr.writable_of_derives derives writable.2]
  | expr derives => simp [shapes, Expr.writable_of_derives derives writable]
  | assign target _ value =>
      rw [List.map_append, Shape.writable_append] at writable
      obtain ⟨inTarget, inValue⟩ := writable
      simp [shapes, Expr.writable_of_derives target inTarget,
        Expr.writable_of_derives value (Shape.writable_cons.1 inValue).2]

theorem writable_of_derives {phrase : Phrase} {tokens : List Token} {stmts : List Stmt}
    (derives : Derives phrase tokens stmts) (writable : Shape.Writable (tokens.map Token.shape)) :
    ∀ stmt ∈ stmts, Shape.Writable stmt.shapes := by
  induction derives with
  | block _ _ _ induction =>
      simp only [List.map_append, List.map_cons, Shape.writable_append, Shape.writable_cons]
        at writable
      exact induction writable.2.1
  | nil => simp
  | cons _ _ first rest =>
      simp only [List.map_append, Shape.writable_append] at writable
      exact List.forall_mem_cons.2 ⟨first writable.1 _ (by simp), rest writable.2⟩
  | simple simple =>
      simp only [List.map_append, Shape.writable_append] at writable
      simpa using simple.writable writable.1
  | while_ _ test _ _ induction =>
      simp only [List.map_append, List.map_cons, Shape.writable_append, Shape.writable_cons]
        at writable
      obtain ⟨_, inTest, inBody, _⟩ := writable
      simpa [shapes, braced, Expr.writable_of_derives test inTest] using induction inBody
  | for_ _ isCounter _ start isBound stop step _ induction =>
      simp only [List.map_append, List.map_cons, Shape.writable_append, Shape.writable_cons,
        isBound.shape, Token.shape_of_identifier isCounter] at writable
      obtain ⟨_, counter, _, inStart, bound, inStop, inStep, inBody⟩ := writable
      have stepWritable := step.writable inStep
      rw [Shape.writable_cons] at stepWritable
      simpa [shapes, braced, stepOf, countBy, Token.ident, counter, bound, stepWritable,
        Expr.writable_of_derives start inStart, Expr.writable_of_derives stop inStop]
        using induction inBody
  | branch _ induction => exact induction writable
  | if_ _ test _ induction =>
      simp only [List.map_append, List.map_cons, Shape.writable_append, Shape.writable_cons]
        at writable
      obtain ⟨_, inTest, inYes⟩ := writable
      simpa [shapes_if, braced, Expr.writable_of_derives test inTest] using induction inYes
  | ifElse _ test _ _ _ _ yes no =>
      simp only [List.map_append, List.map_cons, Shape.writable_append, Shape.writable_cons]
        at writable
      obtain ⟨_, inTest, inYes, _, inNo⟩ := writable
      simpa [shapes_if, braced, Expr.writable_of_derives test inTest] using ⟨yes inYes, no inNo⟩

end Stmt

theorem TypedName.writable {tokens : List Token} {name : Ident} {type : TypeName}
    (typed : TypedName tokens name type) (writable : Shape.Writable (tokens.map Token.shape)) :
    Shape.Writable (name.typedShapes type) := by
  obtain ⟨isName, _, derives⟩ := typed
  simp only [List.map_cons, Shape.writable_cons, Token.shape_of_identifier isName] at writable
  obtain ⟨inName, _, inType⟩ := writable
  simp [Ident.typedShapes, Token.ident, inName, TypeName.writable_of_derives derives inType]

theorem StateVar.Derives.writable {tokens : List Token} {var : StateVar}
    (derives : Derives tokens var) (writable : Shape.Writable (tokens.map Token.shape)) :
    Shape.Writable var.shapes := by
  obtain @⟨_, _, _, _, _, location, typed⟩ := derives
  rw [List.map_append, Shape.writable_append] at writable
  cases location <;> simp [shapes, typed.writable writable.1]

theorem Field.Derives.writable {tokens : List Token} {field : Field}
    (derives : Derives tokens field) (writable : Shape.Writable (tokens.map Token.shape)) :
    Shape.Writable field.shapes := by
  obtain ⟨typed, _⟩ := derives
  rw [List.map_append, Shape.writable_append] at writable
  simp [shapes, typed.writable writable.1]

theorem Struct.Derives.writable {tokens : List Token} {struct : Struct}
    (derives : Derives tokens struct) (writable : Shape.Writable (tokens.map Token.shape)) :
    Shape.Writable struct.shapes := by
  obtain @⟨_, name, _, _, _, fields, _, isName, _, repeated, _⟩ := derives
  simp only [List.map_append, List.map_cons, Shape.writable_append, Shape.writable_cons,
    Token.shape_of_identifier isName] at writable
  obtain ⟨_, inName, _, inFields, _⟩ := writable
  have each (field : Field) (member : field ∈ fields) : Shape.Writable field.shapes := by
    obtain ⟨part, derives, within⟩ := repeated.exists_of_mem member
    exact derives.writable (inFields.of_subset (List.map_subset _ within))
  simpa [shapes, Stmt.braced, Token.ident, inName] using each

theorem Parameter.Derives.writable {tokens : List Token} {parameter : Parameter}
    (derives : Derives tokens parameter) (writable : Shape.Writable (tokens.map Token.shape)) :
    Shape.Writable parameter.shapes := by
  cases derives with
  | required typed => simp [shapes, typed.writable writable]
  | optional typed _ value =>
      simp only [List.map_append, List.map_cons, Shape.writable_append, Shape.writable_cons]
        at writable
      obtain ⟨inTyped, _, inValue⟩ := writable
      simp [shapes, typed.writable inTyped, Expr.writable_of_derives value inValue]

theorem ReturnType.Derives.writable {tokens : List Token} {returns : Option ReturnType}
    (derives : Derives tokens returns) (writable : Shape.Writable (tokens.map Token.shape)) :
    Shape.Writable (returns.elim [] shapes) := by
  cases derives with
  | none => simp
  | single _ isName =>
      simp only [List.map_cons, Shape.writable_cons, Token.shape_of_identifier isName] at writable
      simp [shapes, writable.2.1]
  | @tuple _ _ _ _ names _ _ separated _ =>
      simp only [List.map_append, List.map_cons, Shape.writable_append, Shape.writable_cons]
        at writable
      obtain ⟨_, _, inner, _⟩ := writable
      have each (name : String) (member : name ∈ names) : Shape.Spelled (.name name) := by
        obtain ⟨part, ⟨isName⟩, within⟩ := separated.exists_of_mem member
        have written := inner.of_subset (List.map_subset _ within)
        simpa [Token.shape_of_identifier isName] using written
      simpa [shapes, Shape.writable_commaSeparated] using each

theorem Modifiers.writable (modifiers : Modifiers) : Shape.Writable modifiers.shapes := by
  intro shape member
  obtain ⟨modifier, _, rfl⟩ := List.mem_map.1 member
  exact Shape.spelled_word modifier.keyword

theorem Function.Derives.writable {tokens : List Token} {function : Function}
    (derives : Derives tokens function) (writable : Shape.Writable (tokens.map Token.shape)) :
    Shape.Writable function.shapes := by
  obtain @⟨_, name, _, _, _, _, _, _, parameters, modifiers, _, _, _, isName, _, separated, _, _,
    returns, body⟩ := derives
  simp only [List.map_append, List.map_cons, Shape.writable_append, Shape.writable_cons,
    Token.shape_of_identifier isName] at writable
  obtain ⟨_, inName, _, inParameters, _, _, inReturns, inBody⟩ := writable
  have each (parameter : Parameter) (member : parameter ∈ parameters) :
      Shape.Writable parameter.shapes := by
    obtain ⟨part, derives, within⟩ := separated.exists_of_mem member
    exact derives.writable (inParameters.of_subset (List.map_subset _ within))
  rw [Parser.shapes_function]
  simpa [Token.ident, inName, modifiers.writable, returns.writable inReturns,
    Shape.writable_commaSeparated] using ⟨each, Stmt.writable_of_derives body inBody⟩

theorem Parser.Member.Derives.writable {tokens : List Token} {member : Member}
    (derives : Derives tokens member) (writable : Shape.Writable (tokens.map Token.shape)) :
    Shape.Writable member.shapes := by
  cases derives with
  | stateVar derives => exact derives.writable writable
  | function derives => exact derives.writable writable
  | struct derives => exact derives.writable writable

theorem Contract.Derives.writable {tokens : List Token} {contract : Contract}
    (derives : Derives tokens contract) (writable : Shape.Writable (tokens.map Token.shape)) :
    Shape.Writable contract.shapes := by
  obtain @⟨_, name, _, _, _, vars, functions, structs, _, isName, _, members, _⟩ := derives
  simp only [List.map_append, List.map_cons, Shape.writable_append, Shape.writable_cons,
    Token.shape_of_identifier isName] at writable
  obtain ⟨_, inName, _, inMembers, _⟩ := writable
  have each (member : Parser.Member)
      (isMember : member ∈ Parser.Member.all ⟨name.ident, vars, functions, structs⟩) :
      Shape.Writable member.shapes := by
    obtain ⟨part, derives, within⟩ := Parser.Member.exists_of_mem_all members isMember
    exact derives.writable (inMembers.of_subset (List.map_subset _ within))
  rw [Parser.shapes_contract]
  simpa [Token.ident, inName] using each

theorem Program.Derives.writable {tokens : List Token} {program : Program}
    (derives : Derives tokens program) (writable : Shape.Writable (tokens.map Token.shape)) :
    Shape.Writable program.shapes := by
  obtain @⟨contracts, repeated, _⟩ := derives
  refine Shape.writable_flatMap.2 fun contract member => ?_
  obtain ⟨part, derives, within⟩ := repeated.exists_of_mem member
  exact derives.writable (writable.of_subset (List.map_subset _ within))

namespace Program

/-- A program with all its places at the start of the source. -/
def unplaced (program : Program) : Program :=
  program.relocate fun _ => .start

theorem forall₂_alike_shape (tokens : List Token) :
    List.Forall₂ (Token.Alike fun _ => .start) tokens
      ((tokens.map Token.shape).map Shape.token) := by
  rw [List.map_map, List.forall₂_map_right_iff]
  exact List.forall₂_same.2 fun _ _ => ⟨rfl, fun _ => rfl, rfl⟩

/-- The tokens of a text differ from those of its shapes in their places only, so both runs go the
same way. -/
theorem run_program_of_alike {limit : Nat} {tokens : List Token} {cursor : Cursor}
    {program : Program}
    (read : Parser.run (Parser.program limit)
      ((tokens.map Token.shape).map Shape.token ++ [.endOfInput .start]) = .ok program) :
    ∃ again, Parser.run (Parser.program limit) (tokens ++ [.endOfInput cursor]) = .ok again ∧
      again.unplaced = program := by
  have alike : List.Forall₂ (Token.Alike fun _ => .start) (tokens ++ [.endOfInput cursor])
      ((tokens.map Token.shape).map Shape.token ++ [.endOfInput .start]) :=
    List.rel_append (forall₂_alike_shape tokens) (.cons ⟨rfl, fun _ => rfl, rfl⟩ .nil)
  have ended : ∃ last ∈ tokens ++ [.endOfInput cursor], last.kind = .eof :=
    ⟨.endOfInput cursor, by simp, rfl⟩
  have same := (@Parser.coupled_program ⟨_, [], [], limit, 0⟩).run_eq_relocate ended alike
  change _ = ((Parser.run (Parser.program limit) _).map unplaced).mapError _ at same
  have reread := read.symm.trans same
  cases ran : Parser.run (Parser.program limit) (tokens ++ [.endOfInput cursor]) with
  | error error =>
      rw [ran] at reread
      cases reread
  | ok again =>
      rw [ran] at reread
      exact ⟨again, rfl, (Except.ok.inj reread).symm⟩

theorem run_program_of_shapes {limit : Nat} {written tokens : List Token} {cursor : Cursor}
    {program : Program} (derives : Derives written program)
    (printed : tokens.map Token.shape = program.shapes)
    (fits : ∀ contract ∈ program.contracts, contract.Fits limit) :
    ∃ again, Parser.run (Parser.program limit) (tokens ++ [.endOfInput cursor]) = .ok again ∧
      again.unplaced = program.unplaced := by
  apply run_program_of_alike
  rw [printed]
  exact Parser.run_eq_ok_iff.2 ⟨_, Parser.program_shapes derives fits rfl⟩

theorem parse_of_renders {limits : Limits} {source : String} {written : List Token}
    {program : Program} (derives : Derives written program)
    (renders : Token.Renders source.toList program.shapes)
    (fits : ∀ contract ∈ program.contracts, contract.Fits limits.depth)
    (short : source.utf8ByteSize ≤ limits.sourceBytes) :
    ∃ again, parse limits source = .ok again ∧ again.unplaced = program.unplaced := by
  obtain ⟨tokens, cursor, lexed, printed⟩ := Token.lex_of_renders renders
  rw [parse, Parser.runSource_eq short lexed]
  exact run_program_of_shapes derives printed fits

/-- A program that has been read is printed as a text with the tokens of its shapes. Reading this
text, with a depth of at least its number of tokens, gives the program again, up to places. -/
theorem parse_print {limits : Limits} {source : String} {program : Program}
    (parsed : parse limits source = .ok program) :
    ∃ tokens last, Token.lex program.print = .ok (tokens ++ [last]) ∧ last.kind = .eof ∧
      tokens.map Token.shape = program.shapes ∧
      ∀ other : Limits, program.print.utf8ByteSize ≤ other.sourceBytes →
        tokens.length ≤ other.depth →
          ∃ again, parse other program.print = .ok again ∧ again.unplaced = program.unplaced := by
  obtain ⟨_, stream, lexed, after, ran⟩ := Parser.runSource_eq_ok_iff.1 parsed
  obtain ⟨written, last, rfl, going⟩ := Token.lex_eq_ok lexed
  have derives := Parser.derives_of_program going rfl ran
  have writable := derives.writable (Token.writable_of_lex lexed)
  obtain ⟨tokens, cursor, relexed, printed⟩ := Token.lex_write writable
  refine ⟨tokens, .endOfInput cursor, relexed, rfl, printed, fun other short deep => ?_⟩
  rw [parse, Parser.runSource_eq short relexed]
  have fits : program.shapes.length ≤ other.depth := by
    rwa [← printed, List.length_map]
  exact run_program_of_shapes derives printed (fits_of_length_le fits)

/-- A source with a group that has to stay, one that need not, an escape, and a step and a semicolon
left out. -/
def auditSource : String :=
  "contract A \x7b def f() \x7b x = (a) - (b - 1); " ++
    "for i = 0 to x \x7b log(\"\\n\", (i,)) \x7d \x7d \x7d"

def auditPrinted : String :=
  "contract A \x7b def f ( ) \x7b x = a - ( b - 1 ) ; " ++
    "for i = 0 to x step 1 \x7b log ( \"\\n\" , ( i , ) ) ; \x7d \x7d \x7d"

def audit : Program :=
  ⟨[⟨⟨"A", ⟨1, 10⟩⟩, [],
    [⟨⟨"f", ⟨1, 18⟩⟩, [], none, .none,
      [.assign ⟨1, 24⟩ ⟨.ident ⟨1, 24⟩ "x",
        .binary ⟨1, 29⟩ .sub (.ident ⟨1, 29⟩ "a")
          (.binary ⟨1, 35⟩ .sub (.ident ⟨1, 35⟩ "b") (.literal ⟨1, 39⟩ (.number "1")))⟩,
      .for_ ⟨1, 43⟩ ⟨"i", ⟨1, 47⟩⟩ (.literal ⟨1, 51⟩ (.number "0")) (.ident ⟨1, 56⟩ "x")
        (Stmt.countBy ⟨"i", ⟨1, 47⟩⟩ (.literal ⟨1, 47⟩ (.number "1")))
        [.expr ⟨1, 60⟩ (.call ⟨1, 60⟩ (.ident ⟨1, 60⟩ "log")
          [.literal ⟨1, 64⟩ (.string "\n"), .tuple ⟨1, 70⟩ [.ident ⟨1, 71⟩ "i"]])]]⟩], []⟩]⟩

theorem parse_auditPrinted :
    parse ⟨80, 40⟩ auditSource = .ok audit ∧ audit.print = auditPrinted ∧
      ∃ tokens last, Token.lex audit.print = .ok (tokens ++ [last]) ∧ last.kind = .eof ∧
        tokens.map Token.shape = audit.shapes ∧
        ∀ other : Limits, audit.print.utf8ByteSize ≤ other.sourceBytes →
          tokens.length ≤ other.depth →
            ∃ again, parse other audit.print = .ok again ∧ again.unplaced = audit.unplaced := by
  have parsed : parse ⟨80, 40⟩ auditSource = .ok audit := by cbv
  have printed : audit.print = auditPrinted := by decide +kernel
  exact ⟨parsed, printed, parse_print parsed⟩

end Program

end Covenant
