import Cinder.Proofs.Cursor
import Cinder.Proofs.Partition

/-!
# Scanning line by line

A scan reads segments from left to right and carries nothing over but its position, and no segment
reaches over a newline. So a source may be cut at any newline and the two parts scanned on their
own. Main result: what is found in the second part is what the whole scan finds there, as many lines
further down as the first part has.
-/
namespace Cinder

/-! ## Further down -/

/-- The same column, `n` lines further down. -/
def Position.below (p : Position) (n : Nat) : Position := { p with line := p.line + n }

def Token.below (t : Token) (n : Nat) : Token := { t with position := t.position.below n }

def Diagnostic.below (d : Diagnostic) (n : Nat) : Diagnostic :=
  { d with position := d.position.below n }

def Scan.below (scan : Scan) (n : Nat) : Scan :=
  ⟨scan.tokens.map (·.below n), scan.diagnostics.map (·.below n)⟩

namespace Segment

theorem after_below (s : Segment) (p : Position) (n : Nat) :
    s.after (p.below n) = (s.after p).below n := by
  cases s with
  | newline =>
    simp only [after, Position.nextLine, Position.below, Position.mk.injEq, and_true]
    omega
  | _ => rfl

theorem token?_below (s : Segment) (p : Position) (n : Nat) :
    s.token? (p.below n) = (s.token? p).map (·.below n) := by
  cases s with
  | lexeme kind text =>
    by_cases number : kind = .intLiteral
    · subst number
      rfl
    · rw [token?_lexeme number, token?_lexeme number]
      rfl
  | _ => rfl

theorem diagnostic?_below (s : Segment) (p : Position) (n : Nat) :
    s.diagnostic? (p.below n) = (s.diagnostic? p).map (·.below n) := by
  unfold diagnostic?
  split
  · split <;> rfl
  · rfl
  · rfl
  · rfl

/-- The position after segments that begin at `p`. -/
def afterAll (p : Position) (segments : List Segment) : Position :=
  segments.foldl (fun q s => s.after q) p

theorem afterAll_divide (before source : Text) :
    afterAll before.endPosition (divide source) = (before ++ source).endPosition := by
  fun_induction divide source generalizing before with
  | case1 => rw [List.append_nil, afterAll, List.foldl_nil]
  | case2 u rest ih =>
    rw [afterAll, List.foldl_cons, after_of_fits (fits_first u rest)]
    have whole := ih (before ++ (first u rest).1.text)
    rwa [List.append_assoc, text_append_first] at whole

end Segment

namespace Scan

/-- A scan looks at positions only to hand them on. -/
theorem ofSegments_below (p : Position) (n : Nat) (segments : List Segment) :
    ofSegments (p.below n) segments = (ofSegments p segments).below n := by
  induction segments generalizing p with
  | nil => rfl
  | cons s segments ih =>
    simp [ofSegments, below, ih, s.after_below, s.token?_below, s.diagnostic?_below,
      Option.toList_map]

/-- What a scan keeps of some segments does not depend on those after them. -/
theorem exists_kept (p : Position) (segments : List Segment) :
    ∃ kept, ∀ more, ofSegments p (segments ++ more) =
      ⟨kept ++ (ofSegments (Segment.afterAll p segments) more).tokens,
        (ofSegments p segments).diagnostics
          ++ (ofSegments (Segment.afterAll p segments) more).diagnostics⟩ := by
  induction segments generalizing p with
  | nil => exact ⟨[], fun more => rfl⟩
  | cons s segments ih =>
    obtain ⟨kept, rest⟩ := ih (s.after p)
    refine ⟨(s.token? p).toList ++ kept, ?_⟩
    intro more
    rw [List.cons_append, ofSegments, rest more]
    simp [ofSegments, Segment.afterAll]

end Scan

/-- A newline between two texts separates their scans: the tokens and diagnostics of the whole are
those of the first text, without the end of its input, and then those of the second, moved down by
the lines of the first. -/
theorem Text.scan_append_newline (first second : Text) :
    let lines := 1 + first.count CodeUnit.newline
    let whole := (first ++ CodeUnit.newline :: second).scan
    ∃ kept, first.scan.tokens = kept ++ [⟨.endOfInput, [], first.endPosition, none⟩] ∧
      (∀ token ∈ kept, token.kind ≠ .endOfInput) ∧
      whole.tokens = kept ++ second.scan.tokens.map (·.below lines) ∧
      whole.diagnostics = first.scan.diagnostics ++ second.scan.diagnostics.map (·.below lines) := by
  intro lines whole
  have reached : Segment.afterAll .start (Segment.divide first) = first.endPosition :=
    Segment.afterAll_divide [] first
  have moved : first.endPosition.nextLine = Position.start.below lines := by
    simp only [Text.endPosition, Position.nextLine, Position.start, Position.below,
      Position.mk.injEq, and_true, lines]
    omega
  obtain ⟨kept, scanned⟩ := Scan.exists_kept .start (Segment.divide first)
  rw [reached] at scanned
  have alone := scanned []
  rw [List.append_nil] at alone
  have ends : first.scan.tokens = kept ++ [⟨.endOfInput, [], first.endPosition, none⟩] :=
    congrArg Scan.tokens alone
  have joined : whole = ⟨kept ++ (second.scan.below lines).tokens,
      first.scan.diagnostics ++ (second.scan.below lines).diagnostics⟩ := by
    have rest := scanned (Segment.newline :: Segment.divide second)
    rw [← Segment.divide_append_newline] at rest
    refine rest.trans ?_
    rw [Scan.ofSegments, Segment.after, moved, Scan.ofSegments_below]
    rfl
  refine ⟨kept, ends, ?_, congrArg Scan.tokens joined, congrArg Scan.diagnostics joined⟩
  -- only the last token of a scan ends the input
  obtain ⟨tokens, q, same, others⟩ := Scan.exists_inner first
  obtain ⟨rfl, -⟩ := List.append_inj' (ends.symm.trans same) rfl
  exact others

end Cinder
