import Cinder.Proofs.Reformatting

/-!
# Canonical texts

The text of a program does not depend on positions. So programs that are equal up to positions have
one text, and formatting a text that was formatted already changes nothing.
-/
namespace Cinder

/-! ## Lines without positions -/

namespace Layout

theorem typeExp_unplaced (type : TypeExp) : typeExp type.unplaced = typeExp type := by
  cases type <;> rfl

theorem typed_unplaced (d : VarDecl) : typed d.unplaced = typed d := by
  simp only [typed, VarDecl.unplaced, typeExp_unplaced, Ident.unplaced]

theorem varDecl_unplaced (level : Nat) (d : VarDecl) :
    varDecl level d.unplaced = varDecl level d := by
  rw [varDecl, varDecl, typed_unplaced]

theorem varDecls_unplaced (level : Nat) (ds : List VarDecl) :
    (ds.map VarDecl.unplaced).map (varDecl level) = ds.map (varDecl level) := by
  rw [List.map_map]
  exact List.map_congr_left fun d _ => varDecl_unplaced level d

mutual

theorem exp_unplaced : (e : Exp) → exp Ident.name e.unplaced = exp Ident.name e
  | .int _ _ _ => rfl
  | .string _ _ => rfl
  | .bool true _ => rfl
  | .bool false _ => rfl
  | .ident _ => rfl
  | .dot base _ => by simp only [Exp.unplaced, exp, exp_unplaced base, Ident.unplaced]
  | .assign target value => by
    simp only [Exp.unplaced, exp, exp_unplaced target, exp_unplaced value]
  | .call _ args => by simp only [Exp.unplaced, exp, exps_unplaced args, Ident.unplaced]
  | .unary _ operand => by simp only [Exp.unplaced, exp, exp_unplaced operand]
  | .binary _ left right => by
    simp only [Exp.unplaced, exp, exp_unplaced left, exp_unplaced right]

theorem exps_unplaced : (es : List Exp) →
    exps Ident.name (Exp.unplacedAll es) = exps Ident.name es
  | [] => rfl
  | [e] => exp_unplaced e
  | e :: f :: rest => by
    have later := exps_unplaced (f :: rest)
    simp only [Exp.unplacedAll] at later
    simp only [Exp.unplacedAll, exps, exp_unplaced e, later]

end

mutual

theorem stmt_unplaced (level : Nat) : (s : Stmt) →
    stmt Ident.name level s.unplaced = stmt Ident.name level s
  | .assign _ _ | .increment _ | .decrement _ | .read _ | .write _ => by
    simp only [Stmt.unplaced, stmt, exp_unplaced]
  | .ifThen _ body | .whileLoop _ body | .repeatLoop _ body => by
    simp only [Stmt.unplaced, stmt, exp_unplaced, block_unplaced (level + 1) body]
  | .ifElse _ yes no => by
    simp only [Stmt.unplaced, stmt, exp_unplaced, block_unplaced (level + 1) yes,
      block_unplaced (level + 1) no]
  | .call _ _ => by simp only [Stmt.unplaced, stmt, exps_unplaced, Ident.unplaced]
  | .giveBack none _ => rfl
  | .giveBack (some _) _ => by simp only [Stmt.unplaced, stmt, exp_unplaced]

theorem block_unplaced (level : Nat) : (b : Block) →
    block Ident.name level b.unplaced = block Ident.name level b
  | .mk decls body => by
    simp only [Block.unplaced, block, varDecls_unplaced, stmts_unplaced level body]

theorem stmts_unplaced (level : Nat) : (ss : List Stmt) →
    stmts Ident.name level (Stmt.unplacedAll ss) = stmts Ident.name level ss
  | [] => rfl
  | s :: rest => by
    simp only [Stmt.unplacedAll, stmts, stmt_unplaced level s, stmts_unplaced level rest]

end

theorem decl_unplaced (d : Decl) : decl Ident.name d.unplaced = decl Ident.name d := by
  cases d with
  | var d => simp only [Decl.unplaced, decl, varDecl_unplaced]
  | fn d =>
    have formals : (d.formals.map VarDecl.unplaced).map typed = d.formals.map typed := by
      rw [List.map_map]
      exact List.map_congr_left fun formal _ => typed_unplaced formal
    simp only [Decl.unplaced, decl, typeExp_unplaced, formals, block_unplaced, Ident.unplaced]
  | struct d => simp only [Decl.unplaced, decl, varDecls_unplaced, Ident.unplaced]

end Layout

namespace Program

theorem lines_unplaced (p : Program) : p.unplaced.lines Ident.name = p.lines Ident.name := by
  rw [lines, lines, unplaced, List.flatMap_map]
  exact List.flatMap_congr fun d _ => Layout.decl_unplaced d

/-- Programs that are equal up to positions have one text. -/
theorem render_congr {p q : Program} (same : p.unplaced = q.unplaced) (indent : Indent) :
    p.render indent Ident.name = q.render indent Ident.name := by
  rw [render, render, ← lines_unplaced p, same, lines_unplaced q]

end Program

/-! ## Sources that can be formatted -/

namespace Text

/-- Without a program there is a syntax error. -/
theorem exists_program {source : Text} (clean : source.parse.hasErrors = false) :
    ∃ p, source.parse.program = some p := by
  rw [Text.parse, Text.parseFrom] at clean ⊢
  cases read : Program.ofTokens 0 source.scan.tokens with
  | ok p => exact ⟨p, rfl⟩
  | error e =>
    have reported : e.diagnostic.isError := rfl
    simp [read, Parsed.hasErrors, reported] at clean

theorem hasErrors_integerWarnings (program : Option Program) (literals : List (Text × Position)) :
    Parsed.hasErrors ⟨program, integerWarnings literals⟩ = false := by
  simp only [Parsed.hasErrors, integerWarnings, List.any_map, List.any_eq_false]
  intro literal _ reported
  cases reported

theorem format_of_hasErrors {source : Text} (errors : source.parse.hasErrors) (indent : Indent)
    (labelling : Labelling) :
    source.format indent labelling = .error (.source source.parse.errors) := by
  rw [Text.format]
  cases source.parse.program with
  | none => rfl
  | some p => simp only [errors, if_true]

theorem hasErrors_of_format {source text : Text} {indent : Indent} {labelling : Labelling}
    (formatted : source.format indent labelling = .ok text) : source.parse.hasErrors = false := by
  cases errors : source.parse.hasErrors with
  | false => rfl
  | true =>
    rw [format_of_hasErrors errors] at formatted
    cases formatted

theorem format_of_program {source : Text} {p : Program} (clean : source.parse.hasErrors = false)
    (parsed : source.parse.program = some p) (indent : Indent) :
    source.format indent .plain = (p.render indent Ident.name).mapError .indent := by
  simp only [Text.format, parsed, clean]
  rfl

theorem format_of_toOption {source text : Text} {indent : Indent} {labelling : Labelling}
    (found : (source.format indent labelling).toOption = some text) :
    source.format indent labelling = .ok text := by
  cases formatted : source.format indent labelling with
  | error e =>
    rw [formatted] at found
    cases found
  | ok text' =>
    rw [formatted] at found
    rw [Option.some.inj found]

/-- A source without errors is formatted. The text has no errors either, and formatting it once
more, with any indent, is formatting the source. -/
theorem exists_format {source : Text} (clean : source.parse.hasErrors = false) (n : Nat) :
    ∃ text, source.format (.blanks n) .plain = .ok text ∧ text.parse.hasErrors = false ∧
      ∀ indent, text.format indent .plain = source.format indent .plain := by
  obtain ⟨p, parsed⟩ := exists_program clean
  obtain ⟨text, q, rendered, reparsed, same⟩ :=
    Program.parse_render (Program.wellShaped_of_parse parsed) n
  have clean' : text.parse.hasErrors = false := by
    rw [reparsed]
    exact hasErrors_integerWarnings _ _
  refine ⟨text, ?_, clean', fun indent => ?_⟩
  · rw [format_of_program clean parsed, rendered]
    rfl
  · rw [format_of_program clean parsed, format_of_program clean' (by rw [reparsed]),
      Program.render_congr same]

end Text

end Cinder
