import Cinder.Proofs.Grammar.Derivation

/-!
# Beginnings of phrases

Every nonterminal derives something. So lexemes that go through part of a production can be
continued to a whole phrase, and what begins a part of a production begins the production if phrases
of the parts before it stand in front.
-/
namespace Cinder

/-- Some token of a kind. -/
def Token.ofKind (kind : Kind) : Token := ⟨kind, [], .start, none⟩

/-- Some lexemes of the given kinds. -/
def Parse.lexemesOf (kinds : List Kind) : List Lexeme :=
  kinds.map fun kind => (Token.ofKind kind, 0)

@[simp] theorem Parse.map_kindOf_lexemesOf (kinds : List Kind) :
    (lexemesOf kinds).map kindOf = kinds := by
  rw [lexemesOf, List.map_map]
  exact List.map_id _

namespace Grammar

open Piece (token phrase)
open Parse (Lexeme kindOf)

/-! ## Every part derives something -/

theorem derives_operation (level : Option Level) :
    Derives accepted [phrase (.operation level)] [.identifier] := by
  have loc : Derives accepted [phrase .loc] [.identifier] := (Derives.token .nil).one (by decide)
  have term : Derives accepted [phrase .term] [.identifier] := loc.one (by decide)
  have unary : Derives accepted [phrase (.operation none)] [.identifier] := term.one (by decide)
  have product : Derives accepted [phrase (.operation (some .product))] [.identifier] :=
    unary.one (by decide)
  have sum : Derives accepted [phrase (.operation (some .sum))] [.identifier] :=
    product.one (by decide)
  have comparison : Derives accepted [phrase (.operation (some .comparison))] [.identifier] :=
    sum.one (by decide)
  have conjunction : Derives accepted [phrase (.operation (some .conjunction))] [.identifier] :=
    comparison.one (by decide)
  match level with
  | none => exact unary
  | some .product => exact product
  | some .sum => exact sum
  | some .comparison => exact comparison
  | some .conjunction => exact conjunction
  | some .disjunction => exact conjunction.one (by decide)

/-- A short phrase of each nonterminal. -/
def sample : Nonterminal → List Kind
  | .program | .varDecls | .stmts => []
  | .type => [.intWord]
  | .formal | .formals => [.intWord, .identifier]
  | .varDecl | .decl | .fields => [.intWord, .identifier, .semicolon]
  | .structDecl =>
    [.structWord, .identifier, .leftBrace, .intWord, .identifier, .semicolon, .rightBrace,
      .semicolon]
  | .fnDecl => [.intWord, .identifier, .leftParen, .rightParen, .leftBrace, .rightBrace]
  | .block => [.leftBrace, .rightBrace]
  | .stmt => [.returnWord, .semicolon]
  | .call => [.identifier, .leftParen, .rightParen]
  | .exp | .target | .operation _ | .term | .args | .loc => [.identifier]

theorem derives_sample (n : Nonterminal) : Derives accepted [phrase n] (sample n) := by
  have loc : Derives accepted [phrase .loc] (sample .loc) := (Derives.token .nil).one (by decide)
  have exp : Derives accepted [phrase .exp] (sample .exp) :=
    (derives_operation (some .disjunction)).one (by decide)
  have type : Derives accepted [phrase .type] (sample .type) := (Derives.token .nil).one (by decide)
  have formal : Derives accepted [phrase .formal] (sample .formal) :=
    Derives.one (by decide) (type.then (.token .nil))
  have varDecl : Derives accepted [phrase .varDecl] (sample .varDecl) :=
    Derives.one (by decide) (type.then (.token (.token .nil)))
  have fields : Derives accepted [phrase .fields] (sample .fields) := varDecl.one (by decide)
  have varDecls : Derives accepted [phrase .varDecls] (sample .varDecls) :=
    Derives.nil.one (by decide)
  have stmts : Derives accepted [phrase .stmts] (sample .stmts) := Derives.nil.one (by decide)
  have block : Derives accepted [phrase .block] (sample .block) :=
    Derives.one (by decide) (Derives.token (varDecls.then (stmts.then (.token .nil))))
  cases n with
  | program => exact Derives.nil.one (by decide)
  | decl => exact varDecl.one (by decide)
  | varDecl => exact varDecl
  | structDecl =>
    exact (Derives.token (.token (.token (fields.then (.token (.token .nil)))))).one (by decide)
  | fnDecl => exact (type.then (.token (.token (.token block)))).one (by decide)
  | formal => exact formal
  | type => exact type
  | fields => exact fields
  | formals => exact formal.one (by decide)
  | varDecls => exact varDecls
  | stmts => exact stmts
  | stmt => exact (Derives.token (.token .nil)).one (by decide)
  | block => exact block
  | exp => exact exp
  | target => exact loc.one (by decide)
  | operation level => exact derives_operation level
  | term => exact loc.one (by decide)
  | call => exact (Derives.token (.token (.token .nil))).one (by decide)
  | args => exact exp.one (by decide)
  | loc => exact loc

theorem exists_derives (parts : List Piece) : ∃ kinds, Derives accepted parts kinds := by
  induction parts with
  | nil => exact ⟨[], .nil⟩
  | cons part parts ih =>
    obtain ⟨kinds, rest⟩ := ih
    cases part with
    | token kind => exact ⟨_, .token rest⟩
    | phrase n => exact ⟨_, (derives_sample n).then rest⟩

theorem endOfInput_not_mem :
    ∀ n ∈ Nonterminal.all, ∀ body ∈ accepted n, token .endOfInput ∉ body := by
  decide

/-- The end of the input is no part of a phrase. -/
theorem not_mem_of_derives {parts : List Piece} {kinds : List Kind}
    (derived : Derives accepted parts kinds) (inside : token .endOfInput ∉ parts) :
    Kind.endOfInput ∉ kinds := by
  induction derived with
  | nil => exact List.not_mem_nil
  | token _ ih =>
    simp only [List.mem_cons, not_or] at inside ⊢
    exact ⟨fun same => inside.1 (congrArg token same), ih inside.2⟩
  | phrase mem _ _ ihBody ih =>
    simp only [List.mem_cons, not_or, List.mem_append] at inside ⊢
    exact ⟨ihBody (endOfInput_not_mem _ (Nonterminal.mem_all _) _ mem), ih inside.2⟩

/-! ## Beginnings -/

/-- The lexemes begin something that the parts derive. -/
def Begins (parts : List Piece) (ts : List Lexeme) : Prop :=
  ∃ more, Derives accepted parts (ts.map kindOf ++ more)

namespace Begins

variable {n : Nonterminal} {parts body : List Piece} {ts used : List Lexeme}

theorem start (parts : List Piece) : Begins parts [] := exists_derives parts

theorem extend (h : Begins parts ts) (parts' : List Piece) : Begins (parts ++ parts') ts := by
  obtain ⟨more, derived⟩ := h
  obtain ⟨kinds, rest⟩ := exists_derives parts'
  exact ⟨more ++ kinds, by simpa using derived.append rest⟩

/-- What begins a production begins a phrase. -/
theorem one (h : Begins body ts) (mem : body ∈ accepted n) : Begins [phrase n] ts := by
  obtain ⟨more, derived⟩ := h
  exact ⟨more, derived.one mem⟩

theorem expand (body : List Piece) (mem : body ∈ accepted n) (h : Begins (body ++ parts) ts) :
    Begins (phrase n :: parts) ts := by
  obtain ⟨more, derived⟩ := h
  obtain ⟨front, back, same, first, rest⟩ := derived.split
  exact ⟨more, same ▸ .phrase mem first rest⟩

theorem opens (h : Begins parts ts) (more : List Piece) (mem : parts ++ more ∈ accepted n) :
    Begins [phrase n] ts :=
  (h.extend more).one mem

theorem token {t : Lexeme} {kind : Kind} (same : kindOf t = kind) (h : Begins parts ts) :
    Begins (.token kind :: parts) (t :: ts) := by
  obtain ⟨more, derived⟩ := h
  exact ⟨more, same ▸ .token derived⟩

theorem after {v : n.Tree} (read : Phrase n used v) (h : Begins parts ts) :
    Begins (phrase n :: parts) (used ++ ts) := by
  obtain ⟨more, derived⟩ := h
  refine ⟨more, ?_⟩
  rw [List.map_append, List.append_assoc]
  exact (derives_of_phrase read).then derived

/-- A phrase of one nonterminal that is completed to a phrase of another one. -/
theorem within {m : Nonterminal} {front : List Lexeme} (h : Begins [phrase n] ts)
    (complete : ∀ us v, Phrase n us v → ∃ w, Phrase m (front ++ us) w) :
    Begins [phrase m] (front ++ ts) := by
  obtain ⟨more, derived⟩ := h
  have same : (ts ++ Parse.lexemesOf more).map kindOf = ts.map kindOf ++ more := by simp
  obtain ⟨us, vs, v, whole, inner, rfl⟩ := phrased_of_derives derived same
  rw [List.append_nil] at whole
  obtain ⟨w, outer⟩ := complete us v inner
  refine ⟨more, ?_⟩
  rw [List.map_append, List.append_assoc, ← same, whole, ← List.map_append]
  exact derives_of_phrase outer

end Begins

end Grammar

end Cinder
