import Covenant.Proofs.Expr.Completeness
import Covenant.Proofs.Token.Lexing
import Mathlib

/-! A source that is one expression is parsed exactly as the grammar derives its tokens. -/

namespace Covenant

namespace Parser

theorem eq_of_append_eof {tokens passed rest : List Token} {last : Token}
    (going : ∀ token ∈ tokens, token.kind ≠ .eof) (passing : ∀ token ∈ passed, token.kind ≠ .eof)
    (ends : last.kind = .eof) (stops : ∀ token ∈ rest.head?, token.kind = .eof)
    (same : tokens ++ [last] = passed ++ rest) : passed = tokens := by
  have cut := congrArg (List.takeWhile fun token => !decide (token.kind = .eof)) same
  have nothing : rest.takeWhile (fun token => !decide (token.kind = .eof)) = [] := by
    cases rest with
    | nil => rfl
    | cons next others => simp [stops next rfl]
  rw [List.takeWhile_append_of_pos (by simpa using going),
    List.takeWhile_append_of_pos (by simpa using passing), nothing, List.append_nil] at cut
  simpa [ends] using cut.symm

theorem wholeExpr_eq_ok_iff {limit : Nat} {tokens : List Token} {last : Token} {value : Expr}
    (going : ∀ token ∈ tokens, token.kind ≠ .eof) (ends : last.kind = .eof)
    (deep : tokens.length ≤ limit) :
    (∃ after, wholeExpr limit ⟨tokens ++ [last], 0⟩ = .ok value after) ↔
      Expr.Derives .expr tokens value := by
  constructor
  · rintro ⟨after, succeeds⟩
    obtain ⟨result, between, read, remaining⟩ := bind_eq_ok_iff.1 succeeds
    obtain ⟨token, ended, consumed, returned⟩ := bind_eq_ok_iff.1 remaining
    cases returned
    obtain ⟨passed, split, passing, derives⟩ := reads_exprWithin limit limit read
    have stops : ∀ token ∈ between.rest.head?, token.kind = .eof := by
      intro next isHead
      have kind := kind_of_consume consumed
      rw [State.next, List.headD_eq_head?_getD, Option.mem_def.1 isHead] at kind
      exact kind
    rwa [eq_of_append_eof going passing ends stops split] at derives
  · intro derives
    have room : Room limit limit 0 (tokens.length + 1) := ⟨by omega, by omega⟩
    have read : expr limit ⟨tokens ++ [last], 0⟩ = .ok value ⟨[last], 0⟩ :=
      accepts_of_derives derives room (ends ▸ endsExpr_eof)
    have ended : consume .eof ⟨[last], 0⟩ = .ok last ⟨[last], 0⟩ := by
      rw [consume, bind_of_ok peek_cons, if_pos ends]
      exact if_pos ends
    exact ⟨⟨[last], 0⟩, (bind_of_ok read _).trans (bind_of_ok ended _)⟩

end Parser

namespace Expr

/-- For a source within its limits, and a depth of at least its number of tokens, parsing gives an
expression exactly if the grammar derives it from the tokens of the source. -/
theorem parse_eq_ok_iff_derives {limits : Limits} {source : String} {tokens : List Token}
    {last : Token} {expr : Expr} (lexed : Token.lex source = .ok (tokens ++ [last]))
    (short : source.utf8ByteSize ≤ limits.sourceBytes) (deep : tokens.length ≤ limits.depth) :
    Expr.parse limits source = .ok expr ↔ Derives .expr tokens expr := by
  obtain ⟨front, cursor, same, going⟩ := Token.lex_eq_ok lexed
  obtain ⟨rfl, isLast⟩ := List.append_inj' same rfl
  obtain rfl := List.singleton_inj.1 isLast
  rw [parse, Parser.runSource_eq short lexed, Parser.run_eq_ok_iff]
  exact Parser.wholeExpr_eq_ok_iff going rfl deep

/-- A source with most of the sorts of phrase. -/
def choiceSource : String :=
  "c ? -a.f(1,) * 2 : (b)"

def choiceTokens : List Token :=
  [⟨.identifier, "c", ⟨0, 1⟩, ⟨1, 1⟩⟩, ⟨.symbol .question, "?", ⟨2, 1⟩, ⟨1, 3⟩⟩,
    ⟨.symbol .minus, "-", ⟨4, 1⟩, ⟨1, 5⟩⟩, ⟨.identifier, "a", ⟨5, 1⟩, ⟨1, 6⟩⟩,
    ⟨.symbol .dot, ".", ⟨6, 1⟩, ⟨1, 7⟩⟩, ⟨.identifier, "f", ⟨7, 1⟩, ⟨1, 8⟩⟩,
    ⟨.symbol .lparen, "(", ⟨8, 1⟩, ⟨1, 9⟩⟩, ⟨.number, "1", ⟨9, 1⟩, ⟨1, 10⟩⟩,
    ⟨.symbol .comma, ",", ⟨10, 1⟩, ⟨1, 11⟩⟩, ⟨.symbol .rparen, ")", ⟨11, 1⟩, ⟨1, 12⟩⟩,
    ⟨.symbol .star, "*", ⟨13, 1⟩, ⟨1, 14⟩⟩, ⟨.number, "2", ⟨15, 1⟩, ⟨1, 16⟩⟩,
    ⟨.symbol .colon, ":", ⟨17, 1⟩, ⟨1, 18⟩⟩, ⟨.symbol .lparen, "(", ⟨19, 1⟩, ⟨1, 20⟩⟩,
    ⟨.identifier, "b", ⟨20, 1⟩, ⟨1, 21⟩⟩, ⟨.symbol .rparen, ")", ⟨21, 1⟩, ⟨1, 22⟩⟩]

def choiceExpr : Expr :=
  .ternary ⟨1, 1⟩ (.ident ⟨1, 1⟩ "c")
    (.binary ⟨1, 5⟩ .mul
      (.unary ⟨1, 5⟩ .neg
        (.call ⟨1, 6⟩ (.member ⟨1, 6⟩ (.ident ⟨1, 6⟩ "a") "f") [.literal ⟨1, 10⟩ (.number "1")]))
      (.literal ⟨1, 16⟩ (.number "2")))
    (.ident ⟨1, 21⟩ "b")

theorem derives_choiceExpr :
    Token.lex choiceSource = .ok (choiceTokens ++ [.endOfInput ⟨22, ⟨1, 23⟩⟩]) ∧
      choiceSource.utf8ByteSize ≤ 22 ∧ choiceTokens.length ≤ 16 ∧
      Expr.parse ⟨22, 16⟩ choiceSource = .ok choiceExpr ∧
      Derives .expr choiceTokens choiceExpr := by
  have lexed : Token.lex choiceSource = .ok (choiceTokens ++ [.endOfInput ⟨22, ⟨1, 23⟩⟩]) := by rfl
  have short : choiceSource.utf8ByteSize ≤ 22 := by decide
  have deep : choiceTokens.length ≤ 16 := by decide
  have parsed : Expr.parse ⟨22, 16⟩ choiceSource = .ok choiceExpr := by cbv
  exact ⟨lexed, short, deep, parsed, (parse_eq_ok_iff_derives lexed short deep).1 parsed⟩

end Expr

end Covenant
