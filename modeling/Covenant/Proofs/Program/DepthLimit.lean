import Covenant.Proofs.Expr.Tower
import Covenant.Proofs.Program.Nesting
import Mathlib

/-! What the limit on the depth bounds: blocks stand no deeper than it inside each other, but
expressions can be as high as its square. -/

namespace Covenant

/-- An expression that stands anywhere in a function. -/
def Function.Mentions (function : Function) (expr : Expr) : Prop :=
  (∃ parameter ∈ function.parameters, ∃ value ∈ parameter.default, value.Contains expr) ∨
    ∃ depth stmt, Stmt.At function.body depth stmt ∧ ∃ outer ∈ stmt.exprs, outer.Contains expr

theorem Stmt.At.depth_pos {block : List Stmt} {depth : Nat} {stmt : Stmt}
    (standing : At block depth stmt) : 0 < depth := by
  cases standing with
  | here => exact Nat.one_pos
  | inside => exact Nat.succ_pos _

namespace Parser

variable {limit : Nat}

theorem StmtFits.of_at {block : List Stmt} {base depth : Nat} {stmt : Stmt}
    (fits : ∀ outer ∈ block, StmtFits limit (base + 1) outer)
    (standing : Stmt.At block depth stmt) : StmtFits limit (base + depth) stmt := by
  induction standing generalizing base with
  | here member => exact fits _ member
  | @inside _ _ _ depth member _ induction =>
      obtain ⟨_, _, parts⟩ := fits _ member
      rw [Nat.add_comm depth, ← Nat.add_assoc]
      exact induction parts

theorem Fits.height_le_square {depth : Nat} {expr : Expr} (fits : Fits limit depth expr) :
    expr.height ≤ 3 * limit * limit := by
  have room := fits.room
  calc expr.height
    _ ≤ heightWithin (limit - depth) := fits.height
    _ ≤ heightWithin limit := heightWithin_strictMono.monotone (Nat.sub_le _ _)
    _ ≤ 3 * limit * limit := heightWithin_le (by omega)

theorem StmtFits.height_le_square {depth : Nat} {stmt : Stmt} (fits : StmtFits limit depth stmt)
    (positive : 0 < depth) {expr : Expr} (member : expr ∈ stmt.exprs) :
    expr.height ≤ 3 * limit * limit := by
  obtain ⟨opened, exprs, _⟩ := fits
  have fewer : limit - depth < limit := by omega
  calc expr.height
    _ ≤ heightWithin (limit - depth) + 1 := exprs expr member
    _ ≤ heightWithin limit := heightWithin_strictMono fewer
    _ ≤ 3 * limit * limit := heightWithin_le (by omega)

theorem FunctionFits.stmt {function : Function} (fits : FunctionFits limit function) {depth : Nat}
    {stmt : Stmt} (standing : Stmt.At function.body depth stmt) : StmtFits limit depth stmt := by
  have stands : StmtFits limit (0 + depth) stmt := .of_at fits.body standing
  rwa [Nat.zero_add] at stands

theorem FunctionFits.depth_le {function : Function} (fits : FunctionFits limit function)
    {depth : Nat} {stmt : Stmt} (standing : Stmt.At function.body depth stmt) : depth ≤ limit := by
  obtain ⟨opened, _, _⟩ := fits.stmt standing
  exact opened

theorem FunctionFits.height_le_square {function : Function} (fits : FunctionFits limit function)
    {expr : Expr} (mentions : function.Mentions expr) : expr.height ≤ 3 * limit * limit := by
  rcases mentions with ⟨parameter, member, value, isDefault, contains⟩ |
    ⟨depth, stmt, standing, outer, isExpr, contains⟩
  · exact contains.height_le.trans (fits.defaults parameter member value isDefault).height_le_square
  · apply contains.height_le.trans
    exact (fits.stmt standing).height_le_square standing.depth_pos isExpr

end Parser

namespace Expr

theorem fits_of_parse {limits : Limits} {source : String} {expr : Expr}
    (parsed : parse limits source = .ok expr) : Parser.Fits limits.depth 0 expr := by
  obtain ⟨_, tokens, _, after, ran⟩ := Parser.runSource_eq_ok_iff.1 parsed
  obtain ⟨value, between, read, ended⟩ := Parser.bind_eq_ok_iff.1 ran
  obtain ⟨_, last, _, returned⟩ := Parser.bind_eq_ok_iff.1 ended
  cases returned
  exact Parser.yields_exprWithin limits.depth limits.depth 0 rfl read

theorem parse_tower (storeys : Nat) :
    ∃ expr : Expr, 1 + (storeys + 1) * (storeys + 1 - 1) / 2 ≤ expr.height ∧ expr.check = .ok () ∧
      ∀ bytes, (Token.Shape.write (tower storeys)).utf8ByteSize ≤ bytes →
        parse ⟨bytes, storeys + 1⟩ (Token.Shape.write (tower storeys)) = .ok expr := by
  obtain ⟨tokens, cursor, lexed, shaped⟩ := Token.lex_write (writable_tower storeys)
  obtain ⟨expr, high, passes, reads⟩ := Parser.exists_readsOver_tower shaped
  refine ⟨expr, high, passes, fun bytes short => ?_⟩
  have read : Parser.expr (storeys + 1) ⟨tokens ++ [.endOfInput cursor], 0⟩ =
      .ok expr ⟨[.endOfInput cursor], 0⟩ :=
    reads (by omega) (by omega) Parser.endsExpr_eof
  rw [parse, Parser.runSource_eq short lexed, Parser.run_eq_ok_iff]
  exact ⟨_, (Parser.bind_of_ok read _).trans (Parser.bind_of_ok (Parser.consume_eof rfl) _)⟩

end Expr

/-- In a program that is read within a depth, no statement stands deeper than that in its function,
and no expression is higher than three times the square of it. The same holds of expressions that
are read alone. The square cannot be avoided: each depth allows a height of half its square. The
checks go through all of such an expression, and its text tree and its JSON are as high. -/
theorem depth_bounds_nesting :
    (∀ limits source program, Program.parse limits source = .ok program →
      ∀ contract ∈ program.contracts, ∀ function ∈ contract.functions,
        (∀ depth stmt, Stmt.At function.body depth stmt → depth ≤ limits.depth) ∧
          ∀ expr, function.Mentions expr → expr.height ≤ 3 * limits.depth * limits.depth) ∧
    (∀ limits source expr, Expr.parse limits source = .ok expr →
      expr.height ≤ 3 * limits.depth * limits.depth) ∧
    ∀ depth, 1 ≤ depth → ∃ source expr, 1 + depth * (depth - 1) / 2 ≤ expr.height ∧
      expr.check = .ok () ∧ expr.height ≤ expr.outline.height ∧ expr.height ≤ expr.toJson.height ∧
      ∀ bytes, source.utf8ByteSize ≤ bytes → Expr.parse ⟨bytes, depth⟩ source = .ok expr := by
  refine ⟨?_, ?_, ?_⟩
  · intro limits source program parsed contract isContract function isFunction
    obtain ⟨_, tokens, _, after, ran⟩ := Parser.runSource_eq_ok_iff.1 parsed
    have fits := Parser.yields_program limits.depth rfl ran contract isContract
    have functionFits := fits.functions function isFunction
    exact ⟨fun _ _ => functionFits.depth_le, fun _ => functionFits.height_le_square⟩
  · intro limits source expr parsed
    exact (Expr.fits_of_parse parsed).height_le_square
  · intro depth positive
    obtain ⟨storeys, rfl⟩ := Nat.exists_eq_succ_of_ne_zero (Nat.ne_of_gt positive)
    obtain ⟨expr, high, passes, parses⟩ := Expr.parse_tower storeys
    have outlined := expr.height_le_height_outline
    have serialized := expr.height_le_height_toJson
    exact ⟨_, expr, high, passes, outlined, serialized, parses⟩

/-- A loop in a function with a default. Five levels are just enough for it. -/
def loopSource : String :=
  "contract A \x7b def f(n: uint8 = (1)) \x7b while n \x7b n = (n + 1) + 1; \x7d \x7d \x7d"

def loopSum : Expr :=
  .binary ⟨1, 53⟩ .add
    (.binary ⟨1, 53⟩ .add (.ident ⟨1, 53⟩ "n") (.literal ⟨1, 57⟩ (.number "1")))
    (.literal ⟨1, 62⟩ (.number "1"))

def loopFunction : Function :=
  ⟨⟨"f", ⟨1, 18⟩⟩, [⟨⟨"n", ⟨1, 20⟩⟩, .named "uint8", some (.literal ⟨1, 32⟩ (.number "1"))⟩], none,
    .none, [.while_ ⟨1, 38⟩ (.ident ⟨1, 44⟩ "n")
      [.assign ⟨1, 48⟩ ⟨.ident ⟨1, 48⟩ "n", loopSum⟩]]⟩

theorem loop_within_depth :
    Program.parse ⟨80, 5⟩ loopSource = .ok ⟨[⟨⟨"A", ⟨1, 10⟩⟩, [], [loopFunction], []⟩]⟩ ∧
      (∀ depth stmt, Stmt.At loopFunction.body depth stmt → depth ≤ 5) ∧
      loopFunction.Mentions loopSum ∧ loopSum.height = 3 ∧ loopSum.height ≤ 75 ∧
      ∃ source expr, 11 ≤ expr.height ∧ 11 ≤ expr.outline.height ∧ 11 ≤ expr.toJson.height ∧
        ∀ bytes, source.utf8ByteSize ≤ bytes →
          Expr.parse ⟨bytes, 5⟩ source = .ok expr ∧ expr.height ≤ 75 := by
  have parsed : Program.parse ⟨80, 5⟩ loopSource =
      .ok ⟨[⟨⟨"A", ⟨1, 10⟩⟩, [], [loopFunction], []⟩]⟩ := by cbv
  obtain ⟨programs, exprs, towers⟩ := depth_bounds_nesting
  obtain ⟨depths, heights⟩ := programs _ _ _ parsed _ (.head _) _ (.head _)
  have mentioned : loopFunction.Mentions loopSum :=
    .inr ⟨2, _, .inside (.head _) (.here (.head _)), loopSum, .tail _ (.head _), .self _⟩
  have height : loopSum.height = 3 := by simp [loopSum, Expr.height_eq, Expr.parts]
  obtain ⟨source, expr, high, _, outlined, serialized, parses⟩ := towers 5 (by decide)
  refine ⟨parsed, depths, mentioned, height, heights _ mentioned, source, expr, high,
    high.trans outlined, high.trans serialized, ?_⟩
  intro bytes short
  exact ⟨parses bytes short, exprs _ _ _ (parses bytes short)⟩

end Covenant
