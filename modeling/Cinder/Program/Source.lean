import Cinder.Program.Parse
import Cinder.Token.Scan

/-!
Programs from tokens and from source texts. There is no recovery: the first token that fits nowhere
ends the parse. Nothing after the end of the input is looked at.
-/
namespace Cinder

namespace Parse

/-- The tokens before the end of the input, numbered from `first`. -/
def lexemes (first : Nat) (tokens : List Token) : List Lexeme :=
  (tokens.takeWhile (·.kind ≠ .endOfInput)).zipIdx first

/-- Where the input ends. -/
def endPosition (tokens : List Token) : Position :=
  ((tokens.find? (·.kind = .endOfInput)).map Token.position).getD .start

theorem exists_end {tokens : List Token}
    (ended : tokens.getLast?.map Token.kind = some .endOfInput) :
    ∃ front t back, tokens = front ++ t :: back ∧ (∀ u ∈ front, u.kind ≠ .endOfInput) ∧
      t.kind = .endOfInput := by
  obtain ⟨last, found, kind⟩ := Option.map_eq_some_iff.mp ended
  have isSome : (tokens.find? (·.kind = .endOfInput)).isSome :=
    List.find?_isSome.mpr ⟨last, List.mem_of_getLast? found, decide_eq_true kind⟩
  obtain ⟨t, found⟩ := Option.isSome_iff_exists.mp isSome
  obtain ⟨kind, front, back, whole, before⟩ := List.find?_eq_some_iff_append.mp found
  exact ⟨front, t, back, whole, fun u mem => by simpa using before u mem, of_decide_eq_true kind⟩

end Parse

/-- Where a token stood that no program continues with. -/
structure SyntaxError where
  position : Position

namespace SyntaxError

def message (e : SyntaxError) : Text :=
  "SyntaxError [line " ++ Text.ofInt e.position.line ++ ", col " ++ Text.ofInt e.position.column
    ++ "]: syntax error"

def diagnostic (e : SyntaxError) : Diagnostic := .error e.position .syntaxError

end SyntaxError

/-- The program that a token list writes, its identifiers numbered by the places of their tokens,
which count from `first`. -/
def Program.ofTokens (first : Nat) (tokens : List Token) : Except SyntaxError Program :=
  match Parse.decls (Parse.lexemes first tokens) with
  | .ok decls => .ok ⟨decls⟩
  | .error ⟨[]⟩ => .error ⟨Parse.endPosition tokens⟩
  | .error ⟨t :: _⟩ => .error ⟨t.1.position⟩

/-- What parsing a source text gives: a program unless there was a syntax error, and all the
diagnostics of scanning and parsing. -/
structure Parsed where
  program : Option Program
  diagnostics : List Diagnostic

namespace Parsed

def hasErrors (p : Parsed) : Bool := p.diagnostics.any Diagnostic.isError

def errors (p : Parsed) : List Diagnostic := p.diagnostics.filter Diagnostic.isError

end Parsed

/-- Parses a source text, numbering its identifiers from `first`. -/
def Text.parseFrom (first : Nat) (source : Text) : Parsed :=
  let scan := source.scan
  match Program.ofTokens first scan.tokens with
  | .ok program => ⟨some program, scan.diagnostics⟩
  | .error e => ⟨none, scan.diagnostics ++ [e.diagnostic]⟩

def Text.parse (source : Text) : Parsed := source.parseFrom 0

end Cinder
