import Cinder.Proofs.Tape.Bounds

/-!
# Source texts on a tape

Source texts can be parsed on a tape too, with the same result. There the recursion is on the room,
so what is parsed from a given text can be found by computation alone.
-/
namespace Cinder

theorem Scan.getLast?_ofSegments (p : Position) (segments : List Segment) :
    (ofSegments p segments).tokens.getLast?.map Token.kind = some .endOfInput := by
  induction segments generalizing p with
  | nil => rfl
  | cons segment rest ih =>
    obtain ⟨last, found, kind⟩ := Option.map_eq_some_iff.mp (ih (segment.after p))
    rw [ofSegments, List.getLast?_append, found]
    exact congrArg some kind

namespace Tape

/-- What the parser makes of the tape with room enough. -/
def result (tape : Tape) : Except SyntaxError Program :=
  match tape.parse (16 * tape.stop + 2) with
  | some (.ok program, _) => .ok program
  | some (.error (.misfit position), _) => .error ⟨position⟩
  | _ => .error ⟨.start⟩

theorem ofTokens_eq_result {tape : Tape}
    (ended : tape.tokens.getLast?.map Token.kind = some .endOfInput) :
    Program.ofTokens tape.first tape.tokens = tape.result := by
  have leads := leads_parse ended
  rw [result]
  generalize tape.parse (16 * tape.stop + 2) = o at leads
  cases read : Parse.decls (Parse.lexemes tape.first tape.tokens) with
  | ok ds =>
    rw [read] at leads
    cases leads
    rw [Program.ofTokens, read]
  | error stuck =>
    rw [read] at leads
    cases leads with
    | halt _ stands found =>
      rw [ofTokens_of_stuck read, stands.position found]

end Tape

namespace Text

def parseOnTape (source : Text) : Parsed :=
  let scan := source.scan
  match Tape.result ⟨0, scan.tokens⟩ with
  | .ok program => ⟨some program, scan.diagnostics⟩
  | .error e => ⟨none, scan.diagnostics ++ [e.diagnostic]⟩

theorem parse_eq_parseOnTape (source : Text) : source.parse = source.parseOnTape := by
  have ended := Scan.getLast?_ofSegments .start (Segment.divide source)
  have same := @Tape.ofTokens_eq_result ⟨0, source.scan.tokens⟩ ended
  cases read : Program.ofTokens 0 source.scan.tokens with
  | ok p => simp only [parse, parseFrom, parseOnTape, ← same, read]
  | error e => simp only [parse, parseFrom, parseOnTape, ← same, read]

/-- To find a program with a decidable property, it is enough to parse on a tape. -/
theorem exists_of_parseOnTape {source : Text} {P : Program → Prop} [DecidablePred P]
    (found : source.parseOnTape.program.any (P ·) = true) :
    ∃ p, source.parse.program = some p ∧ P p := by
  obtain ⟨p, parsed, holds⟩ := (Option.any_eq_true _ _).mp found
  rw [← parse_eq_parseOnTape] at parsed
  exact ⟨p, parsed, of_decide_eq_true holds⟩

end Text

end Cinder
