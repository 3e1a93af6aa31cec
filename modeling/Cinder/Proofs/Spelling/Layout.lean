import Cinder.Proofs.Spelling
import Mathlib.Data.List.TakeWhile

/-!
# The spelling of a layout

Each lexeme of a layout ends before the unit that follows it: words and numbers before anything that
is no part of a word, and marks before blanks, openings and brackets. So the layout of a well-shaped
tree writes the tokens of its spelling, and so does the text that is made of its lines.
-/
namespace Cinder

namespace Segment

/-- Whether a segment leaves no report; other segments are dropped. -/
def isKept : Segment → Bool
  | badString _ _ => false
  | illegal _ => false
  | _ => true

end Segment

/-- A text divides into these tokens, up to positions, and nothing of it is dropped. -/
structure Writes (t : Text) (ws : List Token) : Prop where
  kept : ∀ s ∈ Segment.divide t, s.isKept
  tokens : (Segment.divide t).filterMap (·.token? .start) = ws

namespace Writes

open Segment (divide endsBefore isWordPart isWordStart)
open Token (mark name)

variable {t rest : Text} {ws us : List Token}

theorem nil : Writes [] [] := by
  constructor
  · simp [divide]
  · simp [divide]

theorem blank (h : Writes rest ws) : Writes (32 :: rest) ws := by
  have found : divide (32 :: rest) = .blank 32 :: divide rest :=
    @Segment.divide_of_first 32 [] rest (.blank 32) rfl
  constructor
  · rw [found]
    exact List.forall_mem_cons.mpr ⟨rfl, h.kept⟩
  · rw [found]
    exact h.tokens

theorem blanks (h : Writes rest ws) (n : Nat) : Writes (List.replicate n 32 ++ rest) ws := by
  induction n with
  | zero => exact h
  | succ n ih => exact ih.blank

/-- A line, a newline and more lines. -/
theorem line (first : Writes t us) (h : Writes rest ws) :
    Writes (t ++ CodeUnit.newline :: rest) (us ++ ws) := by
  constructor
  · rw [Segment.divide_append_newline]
    exact List.forall_mem_append.mpr ⟨first.kept, List.forall_mem_cons.mpr ⟨rfl, h.kept⟩⟩
  · rw [Segment.divide_append_newline, List.filterMap_append, first.tokens, ← h.tokens]
    rfl

theorem of_line (h : Writes (t ++ [CodeUnit.newline]) ws) : Writes t ws := by
  have found := Segment.divide_append_newline t []
  constructor
  · intro s mem
    exact h.kept s (by simp [found, mem])
  · have tokens := h.tokens
    rw [found, List.filterMap_append] at tokens
    simpa [Segment.divide, Segment.token?] using tokens

theorem of_lines {n : Nat} (h : Writes (t ++ List.replicate n CodeUnit.newline) ws) :
    Writes t ws := by
  induction n with
  | zero => simpa using h
  | succ n ih =>
    rw [List.replicate_succ', ← List.append_assoc] at h
    exact ih h.of_line

theorem lexeme {kind : Kind} {w : Token} (spelled : kind.spells t)
    (token : (Segment.lexeme kind t).token? .start = some w)
    (apart : rest.head?.all (endsBefore t)) (h : Writes rest ws) : Writes (t ++ rest) (w :: ws) := by
  constructor
  · rw [Segment.divide_append spelled apart]
    exact List.forall_mem_cons.mpr ⟨rfl, h.kept⟩
  · rw [Segment.divide_append spelled apart, List.filterMap_cons, token, h.tokens]

/-- Whether no word goes on at the beginning of a text. -/
def breaks (rest : Text) : Bool := rest.head?.all (!isWordPart ·)

theorem endsBefore_of_breaks {u : CodeUnit} (part : isWordPart u) (h : breaks rest) :
    rest.head?.all (endsBefore (u :: t)) := by
  cases rest with
  | nil => rfl
  | cons v rest =>
    have other : isWordPart v = false := by simpa [breaks] using h
    have digit : v.isDigit = false := (Bool.or_eq_false_iff.mp other).2
    simp only [List.head?_cons, Option.all_some, endsBefore, other, digit]
    grind [isWordPart]

theorem ident (spelled : t.isName) (h : breaks rest) (more : Writes rest ws) :
    Writes (t ++ rest) (name t :: ws) := by
  refine @lexeme _ _ _ .identifier _ spelled rfl ?_ more
  cases t with
  | nil => cases spelled
  | cons u t =>
    have start : isWordStart u := by
      simp only [Text.isName, Text.isWord, Bool.and_eq_true] at spelled
      exact spelled.1.1
    exact endsBefore_of_breaks (by simp [isWordPart, start]) h

theorem digits (spelled : t.isDigits) (h : breaks rest) (more : Writes rest ws) :
    Writes (t ++ rest) (⟨.intLiteral, t, .start, some (min t.decimal maxInt : Nat)⟩ :: ws) := by
  refine @lexeme _ _ _ .intLiteral _ spelled rfl ?_ more
  cases t with
  | nil => cases spelled
  | cons u t =>
    have digit : u.isDigit := by
      simp only [Text.isDigits, List.all_cons, Bool.and_eq_true] at spelled
      exact spelled.2.1
    exact endsBefore_of_breaks (by simp [isWordPart, digit]) h

theorem string (spelled : t.isStringLiteral) (more : Writes rest ws) :
    Writes (t ++ rest) (⟨.stringLiteral, t, .start, none⟩ :: ws) := by
  refine @lexeme _ _ _ .stringLiteral _ spelled rfl ?_ more
  cases t with
  | nil => cases spelled
  | cons u t =>
    obtain rfl : u = CodeUnit.quote := by
      simp only [Text.isStringLiteral, Bool.and_eq_true, decide_eq_true_eq] at spelled
      exact spelled.1
    cases rest with
    | nil => rfl
    | cons v rest => rfl

/-- Whether a kind has one spelling only. -/
def isFixed (kind : Kind) : Bool := kind ≠ .intLiteral && kind.spells kind.spelling

theorem fixed {kind : Kind} (spelled : isFixed kind)
    (apart : rest.head?.all (endsBefore kind.spelling)) (more : Writes rest ws) :
    Writes (kind.spelling ++ rest) (mark kind :: ws) := by
  simp only [isFixed, Bool.and_eq_true, decide_eq_true_eq] at spelled
  exact lexeme spelled.2 (Segment.token?_lexeme spelled.1 _ _) apart more

/-- Whether a unit stands in no operator of two units and in no comment mark. -/
def isPlain (v : CodeUnit) : Bool :=
  Kind.doubles.all (fun entry => !entry.1.contains v) && v ≠ CodeUnit.slash

theorem endsBefore_of_isPlain {u v : CodeUnit} (marks : Segment.isMark u)
    (plain : isPlain u ∨ isPlain v) : endsBefore [u] v := by
  simp only [Segment.isMark, Bool.and_eq_true, decide_eq_true_eq, Bool.not_eq_true'] at marks
  have none : Kind.doubles.lookup [u, v] = none := by
    rw [List.lookup_eq_none_iff]
    intro entry mem
    have absent : ¬ (u ∈ entry.1 ∧ v ∈ entry.1) := by
      rintro ⟨hu, hv⟩
      rcases plain with plain | plain
      · have := List.all_eq_true.mp (Bool.and_eq_true_iff.mp plain).1 entry mem
        simp [hu] at this
      · have := List.all_eq_true.mp (Bool.and_eq_true_iff.mp plain).1 entry mem
        simp [hv] at this
    grind
  have noComment : ¬ (u = CodeUnit.slash ∧ v = CodeUnit.slash) := by
    rintro ⟨rfl, rfl⟩
    revert plain
    decide
  simp only [endsBefore, marks, List.singleton_append, none]
  simpa using not_and_or.mp noComment

/-- A unit that begins an expression. -/
def isOpening (v : CodeUnit) : Bool := isWordPart v || v = CodeUnit.quote || v = 40

theorem isPlain_of_isOpening {v : CodeUnit} (opening : isOpening v) : isPlain v := by
  have absent : Kind.doubles.all fun entry => entry.1.all (!isOpening ·) := rfl
  rw [isPlain, Bool.and_eq_true_iff, List.all_eq_true, decide_eq_true_iff]
  constructor
  · intro entry mem
    by_contra inside
    have closed := List.all_eq_true.mp (List.all_eq_true.mp absent entry mem) v (by simpa using inside)
    simp [opening] at closed
  · rintro rfl
    revert opening
    decide

/-- Whether a mark ends before any unit. -/
def isBracket (kind : Kind) : Bool :=
  isFixed kind && kind.spelling.length = 1
    && kind.spelling.all fun u => Segment.isMark u && isPlain u

theorem bracket {kind : Kind} (brackets : isBracket kind) (more : Writes rest ws) :
    Writes (kind.spelling ++ rest) (mark kind :: ws) := by
  simp only [isBracket, Bool.and_eq_true, decide_eq_true_eq] at brackets
  obtain ⟨⟨spelled, one⟩, units⟩ := brackets
  obtain ⟨u, single⟩ := List.length_eq_one_iff.mp one
  refine fixed spelled ?_ more
  rw [single] at units ⊢
  obtain ⟨marks, plain⟩ : Segment.isMark u ∧ isPlain u := by simpa using units
  cases rest with
  | nil => rfl
  | cons v rest => exact endsBefore_of_isPlain marks (.inl plain)

theorem unaryOp {v : CodeUnit} (op : UnaryOp) (opening : isOpening v)
    (more : Writes (v :: rest) ws) : Writes (op.symbol ++ v :: rest) (mark op.kind :: ws) := by
  have plain := isPlain_of_isOpening opening
  cases op with
  | negate =>
    have apart : endsBefore [45] v := endsBefore_of_isPlain rfl (.inr plain)
    exact @fixed _ _ .minus rfl apart more
  | not =>
    have apart : endsBefore [33] v := endsBefore_of_isPlain rfl (.inr plain)
    exact @fixed _ _ .not rfl apart more

theorem binaryOp (op : BinaryOp) (more : Writes (32 :: rest) ws) :
    Writes (op.symbol ++ 32 :: rest) (mark op.kind :: ws) := by
  have spelled : isFixed op.kind := by cases op <;> rfl
  have apart : (32 :: rest).head?.all (endsBefore op.kind.spelling) := by cases op <;> rfl
  have same : op.symbol = op.kind.spelling := by cases op <;> rfl
  rw [same]
  exact fixed spelled apart more

end Writes

namespace Layout

open Writes (isOpening breaks)

theorem isOpening_of_isName {t : Text} (spelled : t.isName) :
    ∃ v rest, t = v :: rest ∧ isOpening v := by
  cases t with
  | nil => cases spelled
  | cons v rest =>
    have start : Segment.isWordStart v := by
      simp only [Text.isName, Text.isWord, Bool.and_eq_true] at spelled
      exact spelled.1.1
    exact ⟨v, rest, rfl, by simp [isOpening, Segment.isWordPart, start]⟩

theorem isOpening_exp {e : Exp} (shaped : e.WellShaped) :
    ∃ v rest, exp Ident.name e = v :: rest ∧ isOpening v := by
  cases e with
  | int value text p =>
    obtain ⟨digits, _⟩ := shaped
    cases text with
    | nil => cases digits
    | cons v rest =>
      have digit : v.isDigit := by
        simp only [Text.isDigits, List.all_cons, Bool.and_eq_true] at digits
        exact digits.2.1
      exact ⟨v, rest, rfl, by simp [isOpening, Segment.isWordPart, digit]⟩
  | string text p =>
    cases text with
    | nil => cases shaped
    | cons v rest =>
      have quote : v = CodeUnit.quote := by
        simp only [Exp.WellShaped, Text.isStringLiteral, Bool.and_eq_true, decide_eq_true_eq] at shaped
        exact shaped.1
      exact ⟨v, rest, rfl, by simp [isOpening, quote]⟩
  | bool value p => cases value <;> exact ⟨_, _, rfl, rfl⟩
  | ident id => exact isOpening_of_isName shaped
  | dot base field =>
    obtain ⟨v, rest, same, opening⟩ := isOpening_exp shaped.2.1
    exact ⟨v, _, by rw [exp, same]; rfl, opening⟩
  | call callee args =>
    obtain ⟨v, rest, same, opening⟩ := isOpening_of_isName shaped.1
    exact ⟨v, _, by rw [exp, same]; rfl, opening⟩
  | assign target value => exact ⟨40, _, rfl, rfl⟩
  | unary op operand => exact ⟨40, _, rfl, rfl⟩
  | binary op left right => exact ⟨40, _, rfl, rfl⟩

mutual

theorem writes_exp {rest : Text} {ws : List Token} : (e : Exp) → e.WellShaped → breaks rest →
    Writes rest ws → Writes (exp Ident.name e ++ rest) (Spelling.exp e ++ ws)
  | .int value text p, shaped, ends, more => by
    obtain ⟨digits, rfl⟩ := shaped
    exact .digits digits ends more
  | .string text p, shaped, _, more => .string shaped more
  | .bool true p, _, ends, more => by
    exact @Writes.fixed _ _ .trueWord rfl (Writes.endsBefore_of_breaks rfl ends) more
  | .bool false p, _, ends, more => by
    exact @Writes.fixed _ _ .falseWord rfl (Writes.endsBefore_of_breaks rfl ends) more
  | .ident id, shaped, ends, more => .ident shaped ends more
  | .dot base field, shaped, ends, more => by
    obtain ⟨_, base_shaped, field_shaped⟩ := shaped
    have last : Writes (field.name ++ rest) _ := .ident field_shaped ends more
    have dot : Writes (Kind.dot.spelling ++ (field.name ++ rest)) _ := .bracket rfl last
    simp only [exp, Spelling.exp, List.append_assoc, List.cons_append, List.nil_append]
    exact writes_exp base base_shaped rfl dot
  | .assign target value, shaped, _, more => by
    obtain ⟨_, target_shaped, value_shaped⟩ := shaped
    have close : Writes (Kind.rightParen.spelling ++ rest) _ := .bracket rfl more
    have right := writes_exp value value_shaped rfl close
    have equals : Writes (Kind.assign.spelling ++ 32 :: _) _ :=
      .fixed rfl rfl right.blank
    have left := writes_exp target target_shaped rfl equals.blank
    have whole : Writes (Kind.leftParen.spelling ++ _) _ := .bracket rfl left
    simp only [exp, Spelling.exp, List.append_assoc, List.cons_append, List.nil_append]
    exact whole
  | .call callee args, shaped, _, more => by
    obtain ⟨callee_shaped, args_shaped⟩ := shaped
    have close : Writes (Kind.rightParen.spelling ++ rest) _ := .bracket rfl more
    have inner := writes_exps args args_shaped rfl close
    have left : Writes (Kind.leftParen.spelling ++ _) _ := .bracket rfl inner
    simp only [exp, Spelling.exp, List.append_assoc, List.cons_append, List.nil_append]
    exact .ident callee_shaped rfl left
  | .unary op operand, shaped, _, more => by
    have close : Writes (Kind.rightParen.spelling ++ rest) _ := .bracket rfl more
    have shaped : operand.WellShaped := shaped
    have inner := writes_exp operand shaped rfl close
    obtain ⟨v, text, same, opening⟩ := isOpening_exp shaped
    rw [same] at inner
    have sign := Writes.unaryOp op opening inner
    have whole : Writes (Kind.leftParen.spelling ++ _) _ := .bracket rfl sign
    simp only [exp, Spelling.exp, List.append_assoc, List.cons_append, List.nil_append, same]
    exact whole
  | .binary op left right, shaped, _, more => by
    obtain ⟨left_shaped, right_shaped⟩ := shaped
    have close : Writes (Kind.rightParen.spelling ++ rest) _ := .bracket rfl more
    have second := writes_exp right right_shaped rfl close
    have sign := Writes.binaryOp op second.blank
    have first := writes_exp left left_shaped rfl sign.blank
    have whole : Writes (Kind.leftParen.spelling ++ _) _ := .bracket rfl first
    simp only [exp, Spelling.exp, List.append_assoc, List.cons_append, List.nil_append]
    exact whole

theorem writes_exps {rest : Text} {ws : List Token} : (es : List Exp) → Exp.AllWellShaped es →
    breaks rest → Writes rest ws → Writes (exps Ident.name es ++ rest) (Spelling.exps es ++ ws)
  | [], _, _, more => more
  | [e], shaped, ends, more => writes_exp e shaped.1 ends more
  | e :: f :: es, shaped, ends, more => by
    obtain ⟨first_shaped, rest_shaped⟩ := shaped
    have others := writes_exps (f :: es) rest_shaped ends more
    have comma : Writes (Kind.comma.spelling ++ 32 :: _) _ := .bracket rfl others.blank
    simp only [exps, Spelling.exps, List.append_assoc, List.cons_append]
    exact writes_exp e first_shaped rfl comma

end

theorem writes_typeExp {type : TypeExp} {rest : Text} {ws : List Token}
    (shaped : type.WellShaped) (more : Writes rest ws) :
    Writes (typeExp type ++ 32 :: rest) (Spelling.typeExp type ++ ws) := by
  cases type with
  | int => exact @Writes.fixed _ _ .intWord rfl rfl more.blank
  | bool => exact @Writes.fixed _ _ .boolWord rfl rfl more.blank
  | void => exact @Writes.fixed _ _ .voidWord rfl rfl more.blank
  | struct id =>
    have named : Writes (id.name ++ 32 :: rest) _ := .ident shaped rfl more.blank
    exact @Writes.fixed _ _ .structWord rfl rfl named.blank

theorem writes_typed {d : VarDecl} {rest : Text} {ws : List Token} (shaped : d.WellShaped)
    (ends : breaks rest) (more : Writes rest ws) :
    Writes (typed d ++ rest) (Spelling.typed d ++ ws) := by
  have named : Writes (d.name.name ++ rest) _ := .ident shaped.name ends more
  simp only [typed, Spelling.typed, List.append_assoc]
  exact writes_typeExp shaped.type named

theorem writes_varDecl {d : VarDecl} (level : Nat) (shaped : d.WellShaped) :
    Writes (varDecl level d).text (Spelling.varDecl d) := by
  have mark : Writes (Kind.semicolon.spelling ++ []) _ := .bracket rfl .nil
  exact writes_typed shaped rfl mark

/-- Lines that write these tokens, one line after the other. -/
inductive Written : List Line → List Token → Prop where
  | nil : Written [] []
  | cons {line lines us ws} : Writes line.text us → Written lines ws →
      Written (line :: lines) (us ++ ws)

theorem Written.append {lines more : List Line} {us ws : List Token} (first : Written lines us)
    (second : Written more ws) : Written (lines ++ more) (us ++ ws) := by
  induction first with
  | nil => exact second
  | cons head _ ih =>
    rw [List.append_assoc]
    exact .cons head ih

theorem Written.single {level : Nat} {t : Text} {ws : List Token} (h : Writes t ws) :
    Written [⟨level, t⟩] ws := by
  simpa using Written.cons h .nil

theorem written_varDecls {ds : List VarDecl} (level : Nat) (shaped : ∀ d ∈ ds, d.WellShaped) :
    Written (ds.map (varDecl level)) (ds.flatMap Spelling.varDecl) := by
  induction ds with
  | nil => exact .nil
  | cons d ds ih =>
    rw [List.forall_mem_cons] at shaped
    exact .cons (writes_varDecl level shaped.1) (ih shaped.2)

/-- A statement that ends in a semicolon. -/
theorem writes_closed {e : Exp} (shaped : e.WellShaped) :
    Writes (exp Ident.name e ++ ";") (Spelling.exp e ++ [.mark .semicolon]) := by
  have mark : Writes (Kind.semicolon.spelling ++ []) _ := .bracket rfl .nil
  exact writes_exp e shaped rfl mark

/-- The line that opens a block, from the word that governs it. -/
theorem writes_condition {kind : Kind} {head : Text} {e : Exp} (spelled : Writes.isFixed kind)
    (apart : Segment.endsBefore kind.spelling 32)
    (same : head = kind.spelling ++ " (") (shaped : e.WellShaped) :
    Writes (head ++ exp Ident.name e ++ ") \x7b")
      (.mark kind :: .mark .leftParen :: Spelling.exp e ++ [.mark .rightParen]
        ++ [.mark .leftBrace]) := by
  have brace : Writes (Kind.leftBrace.spelling ++ []) _ := .bracket rfl .nil
  have close : Writes (Kind.rightParen.spelling ++ 32 :: _) _ := .bracket rfl brace.blank
  have inner := writes_exp e shaped rfl close
  have left : Writes (Kind.leftParen.spelling ++ _) _ := .bracket rfl inner
  have word : Writes (kind.spelling ++ 32 :: _) _ := .fixed spelled apart left.blank
  simp only [same, List.append_assoc, List.cons_append]
  exact word

theorem writes_closingBrace : Writes "\x7d" [.mark .rightBrace] :=
  @Writes.bracket [] _ .rightBrace rfl .nil

theorem writes_else : Writes "\x7d else \x7b" [.mark .rightBrace, .mark .elseWord, .mark .leftBrace] := by
  have brace : Writes (Kind.leftBrace.spelling ++ []) _ := .bracket rfl .nil
  have word : Writes (Kind.elseWord.spelling ++ 32 :: _) _ :=
    .fixed rfl rfl brace.blank
  exact @Writes.bracket _ _ .rightBrace rfl word.blank

/-- A block between the line that opens it and the line of its closing brace. -/
theorem Written.braced {level : Nat} {head : Text} {us : List Token} {b : Block}
    {lines : List Line} (opens : Writes head (us ++ [.mark .leftBrace]))
    (inner : Written lines (Spelling.inside b)) :
    Written (⟨level, head⟩ :: lines ++ [⟨level, "\x7d"⟩]) (us ++ Spelling.block b) := by
  have close : Written [⟨level, "\x7d"⟩] [.mark .rightBrace] := .single writes_closingBrace
  have first : Written [⟨level, head⟩] _ := .single opens
  rw [Spelling.block_eq]
  simpa using first.append (inner.append close)

theorem Written.bracedElse {level : Nat} {head : Text} {us : List Token} {yes no : Block}
    {lines more : List Line} (opens : Writes head (us ++ [.mark .leftBrace]))
    (inner : Written lines (Spelling.inside yes)) (other : Written more (Spelling.inside no)) :
    Written (⟨level, head⟩ :: lines ++ ⟨level, "\x7d else \x7b"⟩ :: more ++ [⟨level, "\x7d"⟩])
      (us ++ Spelling.block yes ++ .mark .elseWord :: Spelling.block no) := by
  have close : Written [⟨level, "\x7d"⟩] [.mark .rightBrace] := .single writes_closingBrace
  have middle : Written [⟨level, "\x7d else \x7b"⟩] _ := .single writes_else
  have first : Written [⟨level, head⟩] _ := .single opens
  rw [Spelling.block_eq, Spelling.block_eq]
  simpa using first.append (inner.append (middle.append (other.append close)))

mutual

theorem written_stmt (level : Nat) : (s : Stmt) → s.WellShaped →
    Written (stmt Ident.name level s) (Spelling.stmt s)
  | .assign target value, shaped => by
    obtain ⟨_, target_shaped, value_shaped⟩ := shaped
    have right := writes_closed value_shaped
    have equals : Writes (Kind.assign.spelling ++ 32 :: _) _ :=
      .fixed rfl rfl right.blank
    simp only [stmt, Spelling.stmt, List.append_assoc, List.cons_append]
    exact .single (writes_exp target target_shaped rfl equals.blank)
  | .increment target, shaped => by
    have mark : Writes (Kind.semicolon.spelling ++ []) _ := .bracket rfl .nil
    have sign : Writes (Kind.increment.spelling ++ _) _ := .fixed rfl rfl mark
    exact .single (writes_exp target shaped.2 rfl sign)
  | .decrement target, shaped => by
    have mark : Writes (Kind.semicolon.spelling ++ []) _ := .bracket rfl .nil
    have sign : Writes (Kind.decrement.spelling ++ _) _ := .fixed rfl rfl mark
    exact .single (writes_exp target shaped.2 rfl sign)
  | .read target, shaped => by
    have closed := writes_closed shaped.2
    have sign : Writes (Kind.read.spelling ++ 32 :: _) _ := .fixed rfl rfl closed.blank
    have word : Writes (Kind.cinWord.spelling ++ 32 :: _) _ := .fixed rfl rfl sign.blank
    simp only [stmt, Spelling.stmt, List.append_assoc, List.cons_append]
    exact .single word
  | .write value, shaped => by
    have closed := writes_closed shaped
    have sign : Writes (Kind.write.spelling ++ 32 :: _) _ := .fixed rfl rfl closed.blank
    have word : Writes (Kind.coutWord.spelling ++ 32 :: _) _ := .fixed rfl rfl sign.blank
    simp only [stmt, Spelling.stmt, List.append_assoc, List.cons_append]
    exact .single word
  | .ifThen condition body, shaped => by
    have head := @writes_condition .ifWord "if (" _ rfl rfl rfl shaped.1
    have inner := written_block (level + 1) body shaped.2
    simpa [stmt, Spelling.stmt] using Written.braced head inner
  | .ifElse condition yes no, shaped => by
    have head := @writes_condition .ifWord "if (" _ rfl rfl rfl shaped.1
    have first := written_block (level + 1) yes shaped.2.1
    have second := written_block (level + 1) no shaped.2.2
    simpa [stmt, Spelling.stmt] using Written.bracedElse head first second
  | .whileLoop condition body, shaped => by
    have head := @writes_condition .whileWord "while (" _ rfl rfl rfl shaped.1
    have inner := written_block (level + 1) body shaped.2
    simpa [stmt, Spelling.stmt] using Written.braced head inner
  | .repeatLoop count body, shaped => by
    have head := @writes_condition .repeatWord "repeat (" _ rfl rfl rfl shaped.1
    have inner := written_block (level + 1) body shaped.2
    simpa [stmt, Spelling.stmt] using Written.braced head inner
  | .call callee args, shaped => by
    obtain ⟨callee_shaped, args_shaped⟩ := shaped
    have mark : Writes (Kind.semicolon.spelling ++ []) _ := .bracket rfl .nil
    have close : Writes (Kind.rightParen.spelling ++ _) _ := .bracket rfl mark
    have inner := writes_exps args args_shaped rfl close
    have left : Writes (Kind.leftParen.spelling ++ _) _ := .bracket rfl inner
    simp only [stmt, Spelling.stmt, List.append_assoc, List.cons_append]
    exact .single (.ident callee_shaped rfl left)
  | .giveBack none p, _ => by
    have mark : Writes (Kind.semicolon.spelling ++ []) _ := .bracket rfl .nil
    have word : Writes (Kind.returnWord.spelling ++ _) _ := .fixed rfl rfl mark
    exact .single word
  | .giveBack (some value) p, shaped => by
    have closed := writes_closed shaped
    have word : Writes (Kind.returnWord.spelling ++ 32 :: _) _ :=
      .fixed rfl rfl closed.blank
    simp only [stmt, Spelling.stmt, List.append_assoc, List.cons_append]
    exact .single word

theorem written_block (level : Nat) : (b : Block) → b.WellShaped →
    Written (block Ident.name level b) (Spelling.inside b)
  | .mk _ body, shaped =>
    (written_varDecls level shaped.1).append (written_stmts level body shaped.2)

theorem written_stmts (level : Nat) : (ss : List Stmt) → Stmt.AllWellShaped ss →
    Written (stmts Ident.name level ss) (Spelling.stmts ss)
  | [], _ => .nil
  | s :: ss, shaped => (written_stmt level s shaped.1).append (written_stmts level ss shaped.2)

end

theorem writes_formals {rest : Text} {ws : List Token} (ends : breaks rest)
    (more : Writes rest ws) {ds : List VarDecl} (shaped : ∀ d ∈ ds, d.WellShaped) :
    Writes (Text.join ", " (ds.map typed) ++ rest)
      ([Token.mark .comma].intercalate (ds.map Spelling.typed) ++ ws) := by
  induction ds with
  | nil => simpa [Text.join] using more
  | cons d ds ih =>
    rw [List.forall_mem_cons] at shaped
    cases ds with
    | nil => simpa [Text.join] using writes_typed shaped.1 ends more
    | cons e ds =>
      have comma : Writes (Kind.comma.spelling ++ 32 :: _) _ := .bracket rfl (ih shaped.2).blank
      have whole := writes_typed shaped.1 rfl comma
      simp only [Text.join, List.map_cons, List.intercalate_cons_cons, List.append_assoc]
      exact whole

theorem written_decl {d : Decl} (shaped : d.WellShaped) :
    Written (decl Ident.name d) (Spelling.decl d) := by
  have gap : Written [⟨0, []⟩] [] := .single .nil
  cases d with
  | var d => exact .single (writes_varDecl 0 shaped)
  | fn d =>
    have brace : Writes (Kind.leftBrace.spelling ++ []) _ := .bracket rfl .nil
    have close : Writes (Kind.rightParen.spelling ++ 32 :: _) _ := .bracket rfl brace.blank
    have formals := writes_formals rfl close shaped.formals
    have left : Writes (Kind.leftParen.spelling ++ _) _ := .bracket rfl formals
    have named : Writes (d.name.name ++ _) _ := .ident shaped.name rfl left
    have head : Writes (typeExp d.resultType ++ " " ++ d.name.name ++ "("
        ++ Text.join ", " (d.formals.map typed) ++ ") \x7b")
        (Spelling.typeExp d.resultType ++ .name d.name.name :: .mark .leftParen
          :: [Token.mark .comma].intercalate (d.formals.map Spelling.typed) ++ [.mark .rightParen]
          ++ [.mark .leftBrace]) := by
      simp only [List.append_assoc, List.cons_append, List.nil_append]
      exact writes_typeExp shaped.resultType named
    have body : Written (⟨0, _⟩ :: block Ident.name 1 d.body ++ [⟨0, "\x7d"⟩]) _ :=
      .braced head (written_block 1 d.body shaped.body)
    simpa [decl, Spelling.decl] using body.append gap
  | struct d =>
    have brace : Writes (Kind.leftBrace.spelling ++ []) _ := .bracket rfl .nil
    have named : Writes (d.name.name ++ 32 :: _) _ := .ident shaped.name rfl brace.blank
    have word : Writes (Kind.structWord.spelling ++ 32 :: _) _ := .fixed rfl rfl named.blank
    have head : Written [⟨0, "struct " ++ d.name.name ++ " \x7b"⟩] _ := .single word
    have mark : Writes (Kind.semicolon.spelling ++ []) _ := .bracket rfl .nil
    have close : Written [⟨0, "\x7d;"⟩] _ := .single (@Writes.bracket _ _ .rightBrace rfl mark)
    have fields := written_varDecls 1 shaped.fields
    simpa [decl, Spelling.decl] using head.append (fields.append (close.append gap))

theorem written_decls {ds : List Decl} (shaped : ∀ d ∈ ds, d.WellShaped) :
    Written (ds.flatMap (decl Ident.name)) (ds.flatMap Spelling.decl) := by
  induction ds with
  | nil => exact .nil
  | cons d ds ih =>
    rw [List.forall_mem_cons] at shaped
    exact (written_decl shaped.1).append (ih shaped.2)

/-! ## From lines to a text -/

theorem renderAll_blanks (n : Nat) (lines : List Line) :
    Line.renderAll (.blanks n) lines =
      .ok (lines.map fun line => List.replicate (line.level * n) 32 ++ line.text) := by
  induction lines with
  | nil => rfl
  | cons line lines ih =>
    rw [Line.renderAll, ih]
    rfl

theorem Written.join {lines : List Line} {ws : List Token} (written : Written lines ws) (n : Nat) :
    Writes (Text.join [CodeUnit.newline]
      (lines.map fun line => List.replicate (line.level * n) 32 ++ line.text)) ws := by
  induction written with
  | nil => exact .nil
  | @cons line lines us ws first rest ih =>
    have indented := first.blanks (line.level * n)
    cases rest with
    | nil => simpa [Text.join] using indented
    | cons second rest =>
      rw [List.map_cons, List.map_cons, Text.join, List.intercalate_cons_cons]
      simpa [Text.join] using indented.line ih

theorem exists_dropNewlines (t : Text) :
    ∃ n, t = t.dropNewlines ++ List.replicate n CodeUnit.newline := by
  refine ⟨(t.reverse.takeWhile (· = CodeUnit.newline)).length, ?_⟩
  have newlines : t.reverse.takeWhile (· = CodeUnit.newline) =
      List.replicate (t.reverse.takeWhile (· = CodeUnit.newline)).length CodeUnit.newline := by
    refine List.eq_replicate_iff.mpr ⟨rfl, fun u mem => ?_⟩
    simpa using List.mem_takeWhile_imp mem
  have whole := congrArg List.reverse
    (List.takeWhile_append_dropWhile (p := (· = CodeUnit.newline)) (l := t.reverse))
  rw [List.reverse_append, List.reverse_reverse, newlines, List.reverse_replicate] at whole
  exact whole.symm

theorem writes_dropNewlines {t : Text} {ws : List Token} (h : Writes t ws) :
    Writes (t.dropNewlines ++ [CodeUnit.newline]) ws := by
  obtain ⟨n, whole⟩ := exists_dropNewlines t
  rw [whole] at h
  simpa using h.of_lines.line .nil

/-- The text of a well-shaped program writes the tokens of its spelling. -/
theorem writes_render {p : Program} (shaped : p.WellShaped) (n : Nat) :
    ∃ t, p.render (.blanks n) Ident.name = .ok t ∧ Writes t (Spelling.program p) := by
  have written : Written (p.lines Ident.name) (Spelling.program p) := written_decls shaped
  refine ⟨_, ?_, writes_dropNewlines (written.join n)⟩
  rw [Program.render, renderAll_blanks]
  rfl

end Layout

end Cinder
