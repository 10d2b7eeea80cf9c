import Covenant.Proofs.Expr.Parsing
import Covenant.Proofs.Program.Reading
import Mathlib

/-! A source that is accepted as a program is one that the grammar derives. -/

namespace Covenant

theorem Parser.derives_of_program {limit : Nat} {tokens : List Token} {last : Token}
    {value : Program} {after : State} (going : ∀ token ∈ tokens, token.kind ≠ .eof)
    (ends : last.kind = .eof) (ran : program limit ⟨tokens ++ [last], 0⟩ = .ok value after) :
    Program.Derives tokens value := by
  obtain ⟨contracts, rounds, ended, nonempty, rfl⟩ := program_eq_ok_iff.1 ran
  have read : many .eof (contract limit) ⟨tokens ++ [last], 0⟩ = .ok contracts.reverse after :=
    bind_of_ok rounds _
  obtain ⟨passed, split, passing, derive⟩ := reads_many reads_contract read
  have stops : ∀ token ∈ after.rest.head?, token.kind = .eof := by
    intro next isHead
    rwa [State.next, List.headD_eq_head?_getD, Option.mem_def.1 isHead] at ended
  obtain rfl := eq_of_append_eof going passing ends stops split
  exact .mk derive (by simpa using nonempty)

namespace Program

/-- The tokens of an accepted source, up to the one that ends it, derive its program. -/
theorem parse_derives {limits : Limits} {source : String} {program : Program}
    (parsed : parse limits source = .ok program) :
    ∃ tokens last, Token.lex source = .ok (tokens ++ [last]) ∧ last.kind = .eof ∧
      Derives tokens program := by
  obtain ⟨_, stream, lexed, after, ran⟩ := Parser.runSource_eq_ok_iff.1 parsed
  obtain ⟨tokens, last, rfl, going⟩ := Token.lex_eq_ok lexed
  exact ⟨tokens, .endOfInput last, lexed, rfl, Parser.derives_of_program going rfl ran⟩

/-- A source with a counting loop, a chain of branches, a comma after the last parameter and a
semicolon left out. -/
def tallySource : String :=
  "contract T \x7b def f(n: uint256 = 0,) view -> uint256 \x7b for i = n to 9 \x7b " ++
    "if i \x7b break \x7d else if n \x7b continue; \x7d \x7d return n \x7d " ++
    "s: mapping(address -> bool[]); \x7d"

def tally : Program :=
  ⟨[⟨⟨"T", ⟨1, 10⟩⟩, [⟨⟨"s", ⟨1, 124⟩⟩, .mapping "address" (.array (.named "bool")), none⟩],
    [⟨⟨"f", ⟨1, 18⟩⟩,
      [⟨⟨"n", ⟨1, 20⟩⟩, .named "uint256", some (.literal ⟨1, 33⟩ (.number "0"))⟩],
      some (.single "uint256"), Modifiers.none.add .view,
      [.for_ ⟨1, 55⟩ ⟨"i", ⟨1, 59⟩⟩ (.ident ⟨1, 63⟩ "n") (.literal ⟨1, 68⟩ (.number "9"))
        (Stmt.countBy ⟨"i", ⟨1, 59⟩⟩ (.literal ⟨1, 59⟩ (.number "1")))
        [.if_ ⟨1, 72⟩ (.ident ⟨1, 75⟩ "i") [.break_ ⟨1, 79⟩]
          (some [.if_ ⟨1, 92⟩ (.ident ⟨1, 95⟩ "n") [.continue_ ⟨1, 99⟩] none])],
      .return_ ⟨1, 113⟩ (some (.ident ⟨1, 120⟩ "n"))]⟩], []⟩]⟩

theorem derives_tally :
    parse ⟨155, 8⟩ tallySource = .ok tally ∧
      ∃ tokens last, Token.lex tallySource = .ok (tokens ++ [last]) ∧ last.kind = .eof ∧
        Derives tokens tally := by
  have parsed : parse ⟨155, 8⟩ tallySource = .ok tally := by cbv
  exact ⟨parsed, parse_derives parsed⟩

end Program

end Covenant
