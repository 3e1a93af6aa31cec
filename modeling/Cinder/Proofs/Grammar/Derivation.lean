import Cinder.Proofs.Grammar

/-!
# Derivations

The language of a table of productions, by rewriting, and the phrases with their trees describe the
same lists of token kinds. `Derives` stands between the two: it takes a list of parts to a list of
kinds from left to right.
-/
namespace Cinder.Grammar

open Piece (token phrase)

/-- The parts, each replaced according to the table, spell the kinds. -/
inductive Derives (table : Nonterminal → List (List Piece)) : List Piece → List Kind → Prop where
  | nil : Derives table [] []
  | token {kind parts kinds} : Derives table parts kinds →
      Derives table (token kind :: parts) (kind :: kinds)
  | phrase {n body parts kinds kinds'} : body ∈ table n → Derives table body kinds →
      Derives table parts kinds' → Derives table (phrase n :: parts) (kinds ++ kinds')

variable {table : Nonterminal → List (List Piece)}

namespace Derives

theorem append {parts parts' : List Piece} {kinds kinds' : List Kind}
    (left : Derives table parts kinds) (right : Derives table parts' kinds') :
    Derives table (parts ++ parts') (kinds ++ kinds') := by
  induction left with
  | nil => exact right
  | token _ ih => exact .token ih
  | phrase mem body _ _ ih =>
    rw [List.append_assoc]
    exact .phrase mem body ih

theorem split {parts parts' : List Piece} {kinds : List Kind}
    (whole : Derives table (parts ++ parts') kinds) :
    ∃ left right, kinds = left ++ right ∧ Derives table parts left ∧ Derives table parts' right := by
  induction parts generalizing kinds with
  | nil => exact ⟨[], kinds, rfl, .nil, whole⟩
  | cons part parts ih =>
    cases whole with
    | token rest =>
      obtain ⟨left, right, rfl, first, second⟩ := ih rest
      exact ⟨_ :: left, right, rfl, .token first, second⟩
    | phrase mem body rest =>
      obtain ⟨left, right, rfl, first, second⟩ := ih rest
      exact ⟨_ ++ left, right, by rw [List.append_assoc], .phrase mem body first, second⟩

/-- A production is a derivation of its nonterminal. -/
theorem one {n : Nonterminal} {body : List Piece} {kinds : List Kind} (mem : body ∈ table n)
    (derived : Derives table body kinds) : Derives table [Piece.phrase n] kinds := by
  have whole := Derives.phrase mem derived .nil
  rwa [List.append_nil] at whole

theorem tokens (kinds : List Kind) : Derives table (kinds.map Piece.token) kinds := by
  induction kinds with
  | nil => exact .nil
  | cons kind kinds ih => exact .token ih

end Derives

/-! ## Rewriting -/

/-- The sentential form that a list of parts stands for. -/
def form (parts : List Piece) := (rule .program parts).output

theorem form_append (parts parts' : List Piece) : form (parts ++ parts') = form parts ++ form parts' :=
  List.map_append

theorem form_tokens (kinds : List Kind) : form (kinds.map token) = kinds.map .terminal := by
  simp [form, rule, Function.comp_def]

theorem form_injective : Function.Injective form := by
  refine List.map_injective_iff.mpr ?_
  intro a b same
  cases a <;> cases b <;> cases same <;> rfl

theorem mem_rules {r : ContextFreeRule Kind Nonterminal} :
    r ∈ (ofTable table).rules ↔ ∃ n, ∃ body ∈ table n, rule n body = r := by
  refine List.mem_toFinset.trans ?_
  simp [Nonterminal.mem_all]

theorem derives_of_parts {parts : List Piece} {kinds : List Kind}
    (derived : Derives table parts kinds) :
    (ofTable table).Derives (form parts) (kinds.map .terminal) := by
  induction derived with
  | nil => exact .refl _
  | token _ ih => exact ih.append_left [.terminal _]
  | @phrase n body parts kinds kinds' mem _ _ ihBody ih =>
    have first : (ofTable table).Produces (form (phrase n :: parts)) (form (body ++ parts)) := by
      refine ⟨rule n body, mem_rules.mpr ⟨n, body, mem, rfl⟩, ?_⟩
      rw [form_append]
      exact .head _
    rw [form_append] at first
    rw [List.map_append]
    exact first.trans_derives ((ihBody.append_right _).trans (ih.append_left _))

theorem parts_of_produces {parts : List Piece} {u} {kinds : List Kind}
    (step : (ofTable table).Produces u (form parts)) (derived : Derives table parts kinds) :
    ∃ before, u = form before ∧ Derives table before kinds := by
  obtain ⟨r, used, rewrites⟩ := step
  obtain ⟨n, body, mem, rfl⟩ := mem_rules.mp used
  obtain ⟨p, q, rfl, whole⟩ := rewrites.exists_parts
  obtain ⟨most, back, rfl, start, rfl⟩ := List.map_eq_append_iff.mp whole
  obtain ⟨front, middle, rfl, rfl, same⟩ := List.map_eq_append_iff.mp start
  obtain rfl : middle = body := form_injective same
  obtain ⟨left, right, rfl, derived, derivedBack⟩ := derived.split
  obtain ⟨left, inner, rfl, derivedFront, derivedBody⟩ := derived.split
  refine ⟨front ++ [phrase n] ++ back, ?_, ?_⟩
  · rw [form_append, form_append]
    rfl
  · exact (derivedFront.append (derivedBody.one mem)).append derivedBack

theorem parts_of_derives {u} {kinds : List Kind}
    (derived : (ofTable table).Derives u (kinds.map .terminal)) :
    ∃ parts, u = form parts ∧ Derives table parts kinds := by
  induction derived using Relation.ReflTransGen.head_induction_on with
  | refl => exact ⟨kinds.map token, (form_tokens kinds).symm, .tokens kinds⟩
  | head step _ ih =>
    obtain ⟨parts, rfl, derived⟩ := ih
    exact parts_of_produces step derived

theorem mem_language_iff_derives {kinds : List Kind} :
    kinds ∈ (ofTable table).language ↔ Derives table [phrase .program] kinds := by
  constructor
  · intro generated
    obtain ⟨parts, same, derived⟩ := parts_of_derives generated
    obtain rfl : [phrase .program] = parts := form_injective same
    exact derived
  · exact derives_of_parts

/-! ## Trees -/

open Parse (Lexeme kindOf)

/-- A phrase before other parts. -/
theorem Derives.then {n : Nonterminal} {parts : List Piece} {kinds kinds' : List Kind}
    (first : Derives table [Piece.phrase n] kinds) (rest : Derives table parts kinds') :
    Derives table (Piece.phrase n :: parts) (kinds ++ kinds') :=
  first.append rest

theorem mem_operations {level : Level} {op : BinaryOp} {kind : Kind}
    (written : (kind, op) ∈ level.operators) :
    [phrase (.operation (if level = .comparison then level.tighter else some level)), token kind,
      phrase (.operation level.tighter)] ∈ accepted (.operation (some level)) :=
  List.mem_cons_of_mem _ (List.mem_map.mpr ⟨(kind, op), written, rfl⟩)

/-- The kinds of a phrase can be derived from its nonterminal. -/
theorem derives_of_phrase {n : Nonterminal} {ts : List Lexeme} {v : n.Tree}
    (phrase : Phrase n ts v) : Derives accepted [.phrase n] (ts.map kindOf) := by
  induction phrase with
  | noDecls | noVars | noStmts => exact Derives.nil.one (by decide)
  | moreDecls _ _ first rest | moreFields _ _ first rest | moreVars _ _ first rest
  | moreStmts _ _ first rest =>
    rw [List.map_append]
    exact (first.then rest).one (by decide)
  | declVar _ inner | declFn _ inner | declStruct _ inner | lastField _ inner | lastFormal _ inner
  | exp _ inner | target _ inner | unaryTerm _ inner | termLoc _ inner | termCall _ inner
  | lastArg _ inner =>
    exact inner.one (by decide)
  | varDecl _ kind mark typed =>
    simp only [List.map_append, List.map_cons, List.map_nil, kind, mark]
    exact (typed.then (.token (.token .nil))).one (by decide)
  | structDecl word kind left _ right mark fields =>
    simp only [List.map_append, List.map_cons, List.map_nil, List.cons_append, List.nil_append,
      word, kind, left, right, mark]
    exact (Derives.token (.token (.token (fields.then (.token (.token .nil)))))).one (by decide)
  | fnDeclPlain _ kind left right _ typed body =>
    simp only [List.map_append, List.map_cons, List.cons_append, List.nil_append,
      List.append_assoc, kind, left, right]
    exact (typed.then (.token (.token (.token body)))).one (by decide)
  | fnDecl _ kind left _ right _ typed formals body =>
    simp only [List.map_append, List.map_cons, List.cons_append, List.nil_append,
      List.append_assoc, kind, left, right]
    exact (typed.then (.token (.token (formals.then (.token body))))).one (by decide)
  | formal _ kind typed =>
    simp only [List.map_append, List.map_cons, List.map_nil, kind]
    exact (typed.then (.token .nil)).one (by decide)
  | typeInt kind | typeBool kind | typeVoid kind | int kind | string kind | true kind | false kind
  | ident kind =>
    simp only [List.map_cons, List.map_nil, kind]
    exact (Derives.token .nil).one (by decide)
  | typeStruct word kind | returnPlain word kind =>
    simp only [List.map_cons, List.map_nil, word, kind]
    exact (Derives.token (.token .nil)).one (by decide)
  | moreFormals _ comma _ first rest | moreArgs _ comma _ first rest =>
    simp only [List.map_append, List.map_cons, comma]
    exact (first.then (.token rest)).one (by decide)
  | assignStmt _ assigns _ mark target value =>
    simp only [List.map_append, List.map_cons, List.map_nil, List.cons_append, List.append_assoc,
      assigns, mark]
    exact (target.then (.token (value.then (.token .nil)))).one (by decide)
  | increment _ steps mark target | decrement _ steps mark target | select _ steps mark target =>
    simp only [List.map_append, List.map_cons, List.map_nil, steps, mark]
    exact (target.then (.token (.token .nil))).one (by decide)
  | read word arrow _ mark inner | write word arrow _ mark inner | call word arrow _ mark inner =>
    simp only [List.map_append, List.map_cons, List.map_nil, List.cons_append, List.nil_append,
      word, arrow, mark]
    exact (Derives.token (.token (inner.then (.token .nil)))).one (by decide)
  | ifThen word left _ right _ condition body | whileLoop word left _ right _ condition body
  | repeatLoop word left _ right _ condition body =>
    simp only [List.map_append, List.map_cons, List.cons_append, List.nil_append,
      word, left, right]
    exact (Derives.token (.token (condition.then (.token body)))).one (by decide)
  | ifElse word left _ right _ other _ condition yes no =>
    simp only [List.map_append, List.map_cons, List.cons_append, List.nil_append,
      List.append_assoc, word, left, right, other]
    exact (Derives.token (.token (condition.then (.token (yes.then (.token no)))))).one (by decide)
  | returnValue word _ mark inner | targetParens word _ mark inner | parens word _ mark inner =>
    simp only [List.map_append, List.map_cons, List.map_nil, List.cons_append, word, mark]
    exact (Derives.token (inner.then (.token .nil))).one (by decide)
  | callStmt _ mark inner =>
    simp only [List.map_append, List.map_cons, List.map_nil, mark]
    exact (inner.then (.token .nil)).one (by decide)
  | block left _ _ right declared body =>
    simp only [List.map_append, List.map_cons, List.map_nil, List.cons_append, List.append_assoc,
      left, right]
    exact (Derives.token (declared.then (body.then (.token .nil)))).one (by decide)
  | assign _ assigns _ target value =>
    simp only [List.map_append, List.map_cons, assigns]
    exact (target.then (.token value)).one (by decide)
  | operand _ inner => exact inner.one List.mem_cons_self
  | chain chains written _ _ left right =>
    have mem := mem_operations written
    rw [if_neg chains] at mem
    rw [List.map_append, List.map_cons]
    exact (left.then (.token right)).one mem
  | comparison written _ _ left right =>
    rw [List.map_append, List.map_cons]
    exact (left.then (.token right)).one (mem_operations written)
  | not kind _ inner | negate kind _ inner =>
    simp only [List.map_cons, kind]
    exact (Derives.token inner).one (by decide)
  | callPlain callee left right =>
    simp only [List.map_cons, List.map_nil, callee, left, right]
    exact (Derives.token (.token (.token .nil))).one (by decide)

/-- The lexemes divide into phrases and tokens as the parts say. -/
def Phrased : List Piece → List Lexeme → Prop
  | [], ts => ts = []
  | .token kind :: parts, ts => ∃ t us, ts = t :: us ∧ kindOf t = kind ∧ Phrased parts us
  | .phrase n :: parts, ts => ∃ us vs v, ts = us ++ vs ∧ Phrase n us v ∧ Phrased parts vs

theorem phrase_of_stmt {body : List Piece} {ts : List Lexeme} (mem : body ∈ accepted .stmt)
    (phrased : Phrased body ts) : ∃ s, Phrase .stmt ts s := by
  simp only [accepted, documented, List.mem_cons, List.not_mem_nil, or_false] at mem
  rcases mem with rfl | rfl | rfl | rfl | rfl | rfl | rfl | rfl | rfl | rfl | rfl | rfl
  · obtain ⟨_, _, x, rfl, target, _, _, rfl, assigns, _, _, e, rfl, value, _, _, rfl, mark, rfl⟩ :=
      phrased
    exact ⟨_, by simpa using Phrase.assignStmt target assigns value mark⟩
  · obtain ⟨_, _, x, rfl, target, _, _, rfl, steps, _, _, rfl, mark, rfl⟩ := phrased
    exact ⟨_, .increment target steps mark⟩
  · obtain ⟨_, _, x, rfl, target, _, _, rfl, steps, _, _, rfl, mark, rfl⟩ := phrased
    exact ⟨_, .decrement target steps mark⟩
  · obtain ⟨_, _, rfl, word, _, _, rfl, arrow, _, _, x, rfl, target, _, _, rfl, mark, rfl⟩ := phrased
    exact ⟨_, .read word arrow target mark⟩
  · obtain ⟨_, _, rfl, word, _, _, rfl, arrow, _, _, e, rfl, value, _, _, rfl, mark, rfl⟩ := phrased
    exact ⟨_, .write word arrow value mark⟩
  · obtain ⟨_, _, rfl, word, _, _, rfl, left, _, _, e, rfl, condition, _, _, rfl, right, _, _, b, rfl,
      body, rfl⟩ := phrased
    exact ⟨_, by simpa using Phrase.ifThen word left condition right body⟩
  · obtain ⟨_, _, rfl, word, _, _, rfl, left, _, _, e, rfl, condition, _, _, rfl, right, _, _, b, rfl,
      yes, _, _, rfl, other, _, _, c, rfl, no, rfl⟩ := phrased
    exact ⟨_, by simpa using Phrase.ifElse word left condition right yes other no⟩
  · obtain ⟨_, _, rfl, word, _, _, rfl, left, _, _, e, rfl, condition, _, _, rfl, right, _, _, b, rfl,
      body, rfl⟩ := phrased
    exact ⟨_, by simpa using Phrase.whileLoop word left condition right body⟩
  · obtain ⟨_, _, rfl, word, _, _, rfl, left, _, _, e, rfl, condition, _, _, rfl, right, _, _, b, rfl,
      body, rfl⟩ := phrased
    exact ⟨_, by simpa using Phrase.repeatLoop word left condition right body⟩
  · obtain ⟨_, _, rfl, word, _, _, rfl, mark, rfl⟩ := phrased
    exact ⟨_, .returnPlain word mark⟩
  · obtain ⟨_, _, rfl, word, _, _, e, rfl, value, _, _, rfl, mark, rfl⟩ := phrased
    exact ⟨_, .returnValue word value mark⟩
  · obtain ⟨_, _, ⟨f, args⟩, rfl, call, _, _, rfl, mark, rfl⟩ := phrased
    exact ⟨_, .callStmt call mark⟩

theorem phrase_of_term {body : List Piece} {ts : List Lexeme} (mem : body ∈ accepted .term)
    (phrased : Phrased body ts) : ∃ e, Phrase .term ts e := by
  simp only [accepted, documented, List.mem_cons, List.not_mem_nil, or_false] at mem
  rcases mem with rfl | rfl | rfl | rfl | rfl | rfl | rfl
  · obtain ⟨_, _, x, rfl, loc, rfl⟩ := phrased
    exact ⟨x, by simpa using loc.termLoc⟩
  · obtain ⟨_, _, rfl, kind, rfl⟩ := phrased
    exact ⟨_, .int kind⟩
  · obtain ⟨_, _, rfl, kind, rfl⟩ := phrased
    exact ⟨_, .string kind⟩
  · obtain ⟨_, _, rfl, kind, rfl⟩ := phrased
    exact ⟨_, .true kind⟩
  · obtain ⟨_, _, rfl, kind, rfl⟩ := phrased
    exact ⟨_, .false kind⟩
  · obtain ⟨_, _, rfl, left, _, _, e, rfl, inner, _, _, rfl, right, rfl⟩ := phrased
    exact ⟨e, .parens left inner right⟩
  · obtain ⟨_, _, ⟨f, args⟩, rfl, call, rfl⟩ := phrased
    exact ⟨_, by simpa using call.termCall⟩

theorem phrase_of_operation {level : Level} {body : List Piece} {ts : List Lexeme}
    (mem : body ∈ accepted (.operation (some level))) (phrased : Phrased body ts) :
    ∃ e, Phrase (.operation (some level)) ts e := by
  rcases List.mem_cons.mp mem with rfl | mem
  · obtain ⟨_, _, e, rfl, inner, rfl⟩ := phrased
    exact ⟨e, by simpa using inner.operand⟩
  · obtain ⟨⟨kind, op⟩, written, rfl⟩ := List.mem_map.mp mem
    dsimp only at phrased
    by_cases single : level = .comparison
    · subst single
      rw [if_pos rfl] at phrased
      obtain ⟨_, _, x, rfl, left, _, _, rfl, rfl, _, _, y, rfl, right, rfl⟩ := phrased
      exact ⟨_, by simpa using Phrase.comparison written left right⟩
    · rw [if_neg single] at phrased
      obtain ⟨_, _, x, rfl, left, _, _, rfl, rfl, _, _, y, rfl, right, rfl⟩ := phrased
      exact ⟨_, by simpa using Phrase.chain single written left right⟩

/-- Every production has a tree. -/
theorem phrase_of_body {n : Nonterminal} {body : List Piece} {ts : List Lexeme}
    (mem : body ∈ accepted n) (phrased : Phrased body ts) : ∃ v, Phrase n ts v := by
  cases n with
  | stmt => exact phrase_of_stmt mem phrased
  | term => exact phrase_of_term mem phrased
  | operation level =>
    cases level with
    | some level => exact phrase_of_operation mem phrased
    | none =>
      simp only [accepted, documented, List.mem_cons, List.not_mem_nil, or_false] at mem
      rcases mem with rfl | rfl | rfl
      · obtain ⟨_, _, e, rfl, inner, rfl⟩ := phrased
        exact ⟨e, by simpa using inner.unaryTerm⟩
      · obtain ⟨_, _, rfl, kind, _, _, e, rfl, inner, rfl⟩ := phrased
        exact ⟨_, by simpa using Phrase.not kind inner⟩
      · obtain ⟨_, _, rfl, kind, _, _, e, rfl, inner, rfl⟩ := phrased
        exact ⟨_, by simpa using Phrase.negate kind inner⟩
  | program =>
    simp only [accepted, documented, List.mem_cons, List.not_mem_nil, or_false] at mem
    rcases mem with rfl | rfl
    · obtain rfl : ts = [] := phrased
      exact ⟨_, .noDecls⟩
    · obtain ⟨_, _, d, rfl, first, _, _, ds, rfl, rest, rfl⟩ := phrased
      exact ⟨_, by simpa using Phrase.moreDecls first rest⟩
  | decl =>
    simp only [accepted, documented, List.mem_cons, List.not_mem_nil, or_false] at mem
    rcases mem with rfl | rfl | rfl
    · obtain ⟨_, _, d, rfl, inner, rfl⟩ := phrased
      exact ⟨_, by simpa using inner.declVar⟩
    · obtain ⟨_, _, d, rfl, inner, rfl⟩ := phrased
      exact ⟨_, by simpa using inner.declFn⟩
    · obtain ⟨_, _, d, rfl, inner, rfl⟩ := phrased
      exact ⟨_, by simpa using inner.declStruct⟩
  | varDecl =>
    obtain rfl := List.mem_singleton.mp mem
    obtain ⟨_, _, type, rfl, typed, _, _, rfl, kind, _, _, rfl, mark, rfl⟩ := phrased
    exact ⟨_, .varDecl typed kind mark⟩
  | structDecl =>
    obtain rfl := List.mem_singleton.mp mem
    obtain ⟨_, _, rfl, word, _, _, rfl, kind, _, _, rfl, left, _, _, ds, rfl, fields, _, _, rfl,
      right, _, _, rfl, mark, rfl⟩ := phrased
    exact ⟨_, .structDecl word kind left fields right mark⟩
  | fnDecl =>
    simp only [accepted, documented, List.mem_cons, List.not_mem_nil, or_false] at mem
    rcases mem with rfl | rfl
    · obtain ⟨_, _, type, rfl, typed, _, _, rfl, kind, _, _, rfl, left, _, _, rfl, right, _, _, b,
        rfl, body, rfl⟩ := phrased
      exact ⟨_, by simpa using Phrase.fnDeclPlain typed kind left right body⟩
    · obtain ⟨_, _, type, rfl, typed, _, _, rfl, kind, _, _, rfl, left, _, _, ds, rfl, formals, _, _,
        rfl, right, _, _, b, rfl, body, rfl⟩ := phrased
      exact ⟨_, by simpa using Phrase.fnDecl typed kind left formals right body⟩
  | formal =>
    obtain rfl := List.mem_singleton.mp mem
    obtain ⟨_, _, type, rfl, typed, _, _, rfl, kind, rfl⟩ := phrased
    exact ⟨_, .formal typed kind⟩
  | type =>
    simp only [accepted, documented, List.mem_cons, List.not_mem_nil, or_false] at mem
    rcases mem with rfl | rfl | rfl | rfl
    · obtain ⟨_, _, rfl, kind, rfl⟩ := phrased
      exact ⟨_, .typeInt kind⟩
    · obtain ⟨_, _, rfl, kind, rfl⟩ := phrased
      exact ⟨_, .typeBool kind⟩
    · obtain ⟨_, _, rfl, kind, rfl⟩ := phrased
      exact ⟨_, .typeVoid kind⟩
    · obtain ⟨_, _, rfl, word, _, _, rfl, kind, rfl⟩ := phrased
      exact ⟨_, .typeStruct word kind⟩
  | fields =>
    simp only [accepted, documented, List.mem_cons, List.not_mem_nil, or_false] at mem
    rcases mem with rfl | rfl
    · obtain ⟨_, _, d, rfl, inner, rfl⟩ := phrased
      exact ⟨_, by simpa using inner.lastField⟩
    · obtain ⟨_, _, d, rfl, first, _, _, ds, rfl, rest, rfl⟩ := phrased
      exact ⟨_, by simpa using first.moreFields rest⟩
  | formals =>
    simp only [accepted, documented, List.mem_cons, List.not_mem_nil, or_false] at mem
    rcases mem with rfl | rfl
    · obtain ⟨_, _, d, rfl, inner, rfl⟩ := phrased
      exact ⟨_, by simpa using inner.lastFormal⟩
    · obtain ⟨_, _, d, rfl, first, _, _, rfl, comma, _, _, ds, rfl, rest, rfl⟩ := phrased
      exact ⟨_, by simpa using first.moreFormals comma rest⟩
  | varDecls =>
    simp only [accepted, documented, List.mem_cons, List.not_mem_nil, or_false] at mem
    rcases mem with rfl | rfl
    · obtain rfl : ts = [] := phrased
      exact ⟨_, .noVars⟩
    · obtain ⟨_, _, d, rfl, first, _, _, ds, rfl, rest, rfl⟩ := phrased
      exact ⟨_, by simpa using first.moreVars rest⟩
  | stmts =>
    simp only [accepted, documented, List.mem_cons, List.not_mem_nil, or_false] at mem
    rcases mem with rfl | rfl
    · obtain rfl : ts = [] := phrased
      exact ⟨_, .noStmts⟩
    · obtain ⟨_, _, s, rfl, first, _, _, ss, rfl, rest, rfl⟩ := phrased
      exact ⟨_, by simpa using first.moreStmts rest⟩
  | block =>
    obtain rfl := List.mem_singleton.mp mem
    obtain ⟨_, _, rfl, left, _, _, ds, rfl, declared, _, _, ss, rfl, body, _, _, rfl, right, rfl⟩ :=
      phrased
    exact ⟨_, by simpa using Phrase.block left declared body right⟩
  | exp =>
    simp only [accepted, List.mem_cons, List.not_mem_nil, or_false] at mem
    rcases mem with rfl | rfl
    · obtain ⟨_, _, x, rfl, target, _, _, rfl, assigns, _, _, e, rfl, value, rfl⟩ := phrased
      exact ⟨_, by simpa using target.assign assigns value⟩
    · obtain ⟨_, _, e, rfl, inner, rfl⟩ := phrased
      exact ⟨_, by simpa using inner.exp⟩
  | target =>
    simp only [accepted, List.mem_cons, List.not_mem_nil, or_false] at mem
    rcases mem with rfl | rfl
    · obtain ⟨_, _, x, rfl, inner, rfl⟩ := phrased
      exact ⟨_, by simpa using inner.target⟩
    · obtain ⟨_, _, rfl, left, _, _, x, rfl, inner, _, _, rfl, right, rfl⟩ := phrased
      exact ⟨x, .targetParens left inner right⟩
  | call =>
    simp only [accepted, documented, List.mem_cons, List.not_mem_nil, or_false] at mem
    rcases mem with rfl | rfl
    · obtain ⟨_, _, rfl, callee, _, _, rfl, left, _, _, rfl, right, rfl⟩ := phrased
      exact ⟨_, .callPlain callee left right⟩
    · obtain ⟨_, _, rfl, callee, _, _, rfl, left, _, _, es, rfl, args, _, _, rfl, right, rfl⟩ :=
        phrased
      exact ⟨_, .call callee left args right⟩
  | args =>
    simp only [accepted, documented, List.mem_cons, List.not_mem_nil, or_false] at mem
    rcases mem with rfl | rfl
    · obtain ⟨_, _, e, rfl, inner, rfl⟩ := phrased
      exact ⟨_, by simpa using inner.lastArg⟩
    · obtain ⟨_, _, e, rfl, first, _, _, rfl, comma, _, _, es, rfl, rest, rfl⟩ := phrased
      exact ⟨_, by simpa using first.moreArgs comma rest⟩
  | loc =>
    simp only [accepted, documented, List.mem_cons, List.not_mem_nil, or_false] at mem
    rcases mem with rfl | rfl
    · obtain ⟨_, _, rfl, kind, rfl⟩ := phrased
      exact ⟨_, .ident kind⟩
    · obtain ⟨_, _, x, rfl, base, _, _, rfl, dot, _, _, rfl, kind, rfl⟩ := phrased
      exact ⟨_, .select base dot kind⟩

theorem phrased_of_derives {parts : List Piece} {kinds : List Kind}
    (derived : Derives accepted parts kinds) {ts : List Lexeme} (same : ts.map kindOf = kinds) :
    Phrased parts ts := by
  induction derived generalizing ts with
  | nil => exact List.map_eq_nil_iff.mp same
  | token _ ih =>
    obtain ⟨t, us, rfl, kind, rest⟩ := List.map_eq_cons_iff.mp same
    exact ⟨t, us, rfl, kind, ih rest⟩
  | phrase mem _ _ ihBody ih =>
    obtain ⟨us, vs, rfl, first, rest⟩ := List.map_eq_append_iff.mp same
    obtain ⟨v, phrase⟩ := phrase_of_body mem (ihBody first)
    exact ⟨us, vs, v, rfl, phrase, ih rest⟩

/-- Lexemes are a program exactly if their kinds belong to the language. -/
theorem mem_language_iff_phrase {ts : List Lexeme} :
    ts.map kindOf ∈ (ofTable accepted).language ↔ ∃ ds, Phrase .program ts ds := by
  rw [mem_language_iff_derives]
  constructor
  · intro derived
    obtain ⟨_, _, ds, rfl, phrase, rfl⟩ := phrased_of_derives derived rfl
    exact ⟨ds, by simpa using phrase⟩
  · rintro ⟨ds, phrase⟩
    exact derives_of_phrase phrase

end Cinder.Grammar
