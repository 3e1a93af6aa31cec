import Cinder.Proofs.Cursor
import Cinder.Proofs.Reports.Programs
import Cinder.Proofs.Tape.Source

/-!
# Reports in source order

Names are resolved in the order in which they are written, and an identifier is reported once at
most. There is one exception: a variable that is declared `void` under a name that is taken has two
things wrong with its name, and both are said. A chain of dot-accesses comes back to what stands
before the field, but only if nothing was reported there. Main result: the reports about the names
of a source go from its beginning to its end.
-/
namespace Cinder

/-- A position that comes later in the text. -/
def Position.Precedes (p q : Position) : Prop :=
  p.line < q.line ∨ p.line = q.line ∧ p.column < q.column

namespace Position.Precedes

variable {p q : Position}

theorem reaches (h : p.Precedes q) : p.Reaches q := by
  unfold Precedes at h
  unfold Reaches
  omega

theorem ne (h : p.Precedes q) : p ≠ q := by
  rintro rfl
  unfold Precedes at h
  omega

end Position.Precedes

/-- A token that is not empty begins before the next one. -/
theorem Token.Before.precedes {t u : Token} (before : t.Before u) (some : t.text ≠ []) :
    t.position.Precedes u.position := by
  have width : 0 < t.text.length := List.length_pos_iff.mpr some
  simp only [Token.Before, Position.Reaches, Position.right] at before
  unfold Position.Precedes
  omega

/-! ## Reports along identifiers -/

/-- Reports that follow a list of identifiers. Each of them is reported once at most, but for the
names of variables that are declared `void`. -/
inductive Along (vars : List VarDecl) : List Ident → List Diagnostic → Prop where
  | nil : Along vars [] []
  | silent (id : Ident) {ids : List Ident} {ds : List Diagnostic} (rest : Along vars ids ds) :
    Along vars (id :: ids) ds
  | one (id : Ident) (problem : Problem) {ids : List Ident} {ds : List Diagnostic}
    (rest : Along vars ids ds) : Along vars (id :: ids) (.error id.position problem :: ds)
  | two (d : VarDecl) {ids : List Ident} {ds : List Diagnostic} (mem : d ∈ vars)
    (void : d.type = .void) (rest : Along vars ids ds) :
    Along vars (d.name :: ids)
      (.error d.name.position .voidVariable :: .error d.name.position .redeclared :: ds)

/-- The second report comes later, or it is the other one about a name that is declared `void`. -/
def Follows (vars : List VarDecl) (d e : Diagnostic) : Prop :=
  d.position.Precedes e.position ∨ ∃ v ∈ vars, v.type = .void ∧
    d = .error v.name.position .voidVariable ∧ e = .error v.name.position .redeclared

namespace Along

variable {vars more : List VarDecl} {ids others : List Ident} {ds es : List Diagnostic}

theorem quiet : (ids : List Ident) → Along vars ids []
  | [] => .nil
  | id :: ids => .silent id (quiet ids)

theorem widen (h : Along vars ids ds) (sub : vars ⊆ more) : Along more ids ds := by
  induction h with
  | nil => exact .nil
  | silent id _ ih => exact .silent id ih
  | one id problem _ ih => exact .one id problem ih
  | two d mem void _ ih => exact .two d (sub mem) void ih

theorem append (first : Along vars ids ds) (second : Along vars others es) :
    Along vars (ids ++ others) (ds ++ es) := by
  induction first with
  | nil => exact second
  | silent id _ ih => exact .silent id ih
  | one id problem _ ih => exact .one id problem ih
  | two d mem void _ ih => exact .two d mem void ih

/-- Two parts with variables of their own. -/
theorem beside (first : Along vars ids ds) (second : Along more others es) :
    Along (vars ++ more) (ids ++ others) (ds ++ es) :=
  (first.widen (List.subset_append_left _ _)).append (second.widen (List.subset_append_right _ _))

theorem exists_ident (h : Along vars ids ds) {d : Diagnostic} (mem : d ∈ ds) :
    ∃ id ∈ ids, d.position = id.position := by
  induction h with
  | nil => cases mem
  | silent id _ ih =>
    obtain ⟨other, inside, same⟩ := ih mem
    exact ⟨other, List.mem_cons_of_mem _ inside, same⟩
  | one id problem _ ih =>
    cases mem with
    | head => exact ⟨id, List.mem_cons_self, rfl⟩
    | tail _ later =>
      obtain ⟨other, inside, same⟩ := ih later
      exact ⟨other, List.mem_cons_of_mem _ inside, same⟩
  | two v _ _ _ ih =>
    rcases mem with _ | ⟨_, _ | ⟨_, later⟩⟩
    · exact ⟨v.name, List.mem_cons_self, rfl⟩
    · exact ⟨v.name, List.mem_cons_self, rfl⟩
    · obtain ⟨other, inside, same⟩ := ih later
      exact ⟨other, List.mem_cons_of_mem _ inside, same⟩

/-- If the identifiers stand one after the other, so do the reports. -/
theorem pairwise (h : Along vars ids ds)
    (ordered : (ids.map Ident.position).Pairwise Position.Precedes) :
    ds.Pairwise (Follows vars) := by
  induction h with
  | nil => exact .nil
  | silent id _ ih => exact ih (List.pairwise_cons.mp ordered).2
  | one id problem rest ih =>
    obtain ⟨first, ordered⟩ := List.pairwise_cons.mp ordered
    refine .cons (fun e later => ?_) (ih ordered)
    obtain ⟨other, mem, same⟩ := rest.exists_ident later
    exact .inl (same ▸ first _ (List.mem_map_of_mem mem))
  | @two v ids ds mem void rest ih =>
    obtain ⟨first, ordered⟩ := List.pairwise_cons.mp ordered
    have after : ∀ e ∈ ds, v.name.position.Precedes e.position := by
      intro e later
      obtain ⟨other, inside, same⟩ := rest.exists_ident later
      exact same ▸ first _ (List.mem_map_of_mem inside)
    refine .cons (fun e later => ?_) (.cons (fun e later => .inl (after e later)) (ih ordered))
    cases later with
    | head => exact .inr ⟨v, mem, void, rfl, rfl⟩
    | tail _ later => exact .inl (after e later)

end Along

namespace Follows

variable {vars : List VarDecl} {d e : Diagnostic}

theorem reaches (h : Follows vars d e) : d.position.Reaches e.position := by
  rcases h with later | ⟨v, -, -, rfl, rfl⟩
  · exact later.reaches
  · exact .refl _

theorem ne (h : Follows vars d e) : (d.position, d.message) ≠ (e.position, e.message) := by
  rcases h with later | ⟨v, -, -, rfl, rfl⟩
  · intro same
    exact later.ne (Prod.mk.inj same).1
  · intro same
    have words : Problem.message .voidVariable = Problem.message .redeclared :=
      (Prod.mk.inj same).2
    exact absurd words (by decide)

/-- What is reported at one position. -/
theorem cases_at {ds : List Diagnostic} (ordered : ds.Pairwise (Follows vars))
    {position : Position} (here : ∀ d ∈ ds, d.position = position) :
    ds.length ≤ 1 ∨ ∃ v ∈ vars, v.type = .void ∧ v.name.position = position ∧
      ds = [.error position .voidVariable, .error position .redeclared] := by
  have both : ∀ d ∈ ds, ∀ e ∈ ds, Follows vars d e → ∃ v ∈ vars, v.type = .void ∧
      d = .error v.name.position .voidVariable ∧ e = .error v.name.position .redeclared := by
    intro d mem e mem' follows
    refine follows.resolve_left fun later => later.ne ?_
    rw [here d mem, here e mem']
  match ds, ordered with
  | [], _ => exact .inl (Nat.zero_le _)
  | [_], _ => exact .inl (Nat.le_refl _)
  | d :: e :: rest, ordered =>
    obtain ⟨first, others⟩ := List.pairwise_cons.mp ordered
    obtain ⟨v, mem, void, rfl, rfl⟩ := both d (by simp) e (by simp) (first e (by simp))
    have last : rest = [] := by
      -- A third report would make the second one that of a `void` variable.
      refine List.eq_nil_iff_forall_not_mem.mpr fun f third => ?_
      have follows := (List.pairwise_cons.mp others).1 f third
      obtain ⟨w, -, -, second, -⟩ := both _ (by simp) f (by simp [third]) follows
      have problems : Problem.redeclared = .voidVariable := congrArg Diagnostic.problem second
      cases problems
    obtain rfl : v.name.position = position := here _ List.mem_cons_self
    exact .inr ⟨v, mem, void, rfl, by rw [last]⟩

end Follows

/-! ## Places -/

/-- A place ends with an identifier, which has its position. -/
theorem Exp.idents_of_isPlace : (e : Exp) → e.isPlace →
    ∃ ids id, e.idents = ids ++ [id] ∧ e.position = id.position
  | .ident id, _ => ⟨[], id, rfl, rfl⟩
  | .dot base field, _ => ⟨base.idents, field, rfl, rfl⟩

namespace Scoping

/-- Nothing is reported about a place that has a meaning. -/
theorem silent_of_bound {env : Env} : (e : Exp) → e.isPlace → e.WellShaped →
    Base.of env e ≠ .unbound → (exp env e).diagnostics = []
  | .ident id, _, _, bound => by
    rw [exp, use]
    cases found : env.find id.name with
    | none =>
      rw [Base.of, found] at bound
      exact absurd rfl bound
    | some s => rfl
  | .dot base field, _, ⟨place, shaped, _⟩, bound => by
    rw [Base.of] at bound
    cases meant : Base.of env base with
    | unbound => exact absurd (by rw [meant]; rfl) bound
    | other => exact absurd (by rw [meant]; rfl) bound
    | struct d =>
      have before : (exp env base).diagnostics = [] :=
        silent_of_bound base place shaped (by simp [meant])
      change (exp env base).diagnostics ++ _ = []
      rw [before, meant, List.nil_append, select]
      rw [meant, Base.field?] at bound
      cases found : d.field? field.name with
      | none =>
        rw [found] at bound
        exact absurd rfl bound
      | some s => cases s <;> rfl

variable {vars : List VarDecl}

theorem along_use (env : Env) (id : Ident) : Along vars [id] (use env id).diagnostics := by
  rw [use]
  cases env.find id.name with
  | none => exact .one id _ .nil
  | some s => exact .silent id .nil

theorem along_dot {env : Env} {base : Exp} {field : Ident} (place : base.isPlace)
    (shaped : base.WellShaped) (before : Along vars base.idents (exp env base).diagnostics) :
    Along vars (Exp.dot base field).idents (exp env (.dot base field)).diagnostics := by
  change Along vars (base.idents ++ [field])
    ((exp env base).diagnostics ++ (select (.of env base) base.position field).diagnostics)
  have silent : Base.of env base ≠ .unbound → (exp env base).diagnostics = [] :=
    silent_of_bound base place shaped
  cases meant : Base.of env base with
  | unbound => exact before.append (.silent field .nil)
  | other =>
    rw [silent (by simp [meant])]
    obtain ⟨ids, id, idents, position⟩ := base.idents_of_isPlace place
    rw [idents, position]
    exact ((Along.quiet ids).append (.one id _ .nil)).append (.silent field .nil)
  | struct d =>
    rw [silent (by simp [meant]), select]
    refine (Along.quiet base.idents).append ?_
    cases d.field? field.name with
    | none => exact .one field _ .nil
    | some s => cases s <;> exact .silent field .nil

mutual

theorem along_exp {env : Env} : (e : Exp) → e.WellShaped →
    Along vars e.idents (exp env e).diagnostics
  | .int _ _ _, _ | .string _ _, _ | .bool _ _, _ => .nil
  | .ident id, _ => along_use env id
  | .dot base _, ⟨place, shaped, _⟩ => along_dot place shaped (along_exp base shaped)
  | .assign target value, ⟨_, first, second⟩ =>
    (along_exp target first).append (along_exp value second)
  | .call callee args, ⟨_, shaped⟩ => (along_use env callee).append (along_exps args shaped)
  | .unary _ operand, shaped => along_exp operand shaped
  | .binary _ left right, ⟨first, second⟩ =>
    (along_exp left first).append (along_exp right second)

theorem along_exps {env : Env} : (es : List Exp) → Exp.AllWellShaped es →
    Along vars (Exp.identsAll es) (exps env es).diagnostics
  | [], _ => .nil
  | e :: es, ⟨first, second⟩ => (along_exp e first).append (along_exps es second)

end

/-! ## Declarations and statements -/

theorem along_declare (env : Env) (taken : Bool) (d : VarDecl) :
    Along [d] d.idents (declare env taken d).2.diagnostics := by
  obtain ⟨type, name⟩ := d
  cases type with
  | void =>
    cases taken with
    | true => exact .two ⟨.void, name⟩ List.mem_cons_self rfl .nil
    | false => exact .one name _ .nil
  | struct typeName =>
    simp only [declare, candidate]
    cases env.struct typeName.name with
    | none =>
      cases taken with
      | true => exact .one typeName _ (.one name _ .nil)
      | false => exact .one typeName _ (.silent name .nil)
    | some definition =>
      cases taken with
      | true => exact .silent typeName (.one name _ .nil)
      | false => exact .silent typeName (.silent name .nil)
  | _ =>
    cases taken with
    | true => exact .one name _ .nil
    | false => exact .silent name .nil

theorem along_declareAll {visible : Scope → Env} : (scope : Scope) → (ds : List VarDecl) →
    Along ds (ds.flatMap VarDecl.idents) (declareAll visible scope ds).findings.diagnostics
  | _, [] => .nil
  | _, d :: ds => (along_declare _ _ d).beside (along_declareAll _ ds)

mutual

theorem along_stmt {env : Env} : (s : Stmt) → s.WellShaped →
    Along s.vars s.idents (stmt env s).diagnostics
  | .assign target value, ⟨_, first, second⟩ =>
    (along_exp target first).append (along_exp value second)
  | .increment target, ⟨_, shaped⟩ | .decrement target, ⟨_, shaped⟩ | .read target, ⟨_, shaped⟩ =>
    along_exp target shaped
  | .write value, shaped => along_exp value shaped
  | .ifThen condition body, ⟨first, second⟩ | .whileLoop condition body, ⟨first, second⟩
  | .repeatLoop condition body, ⟨first, second⟩ =>
    (along_exp condition first).append (along_block body second)
  | .ifElse condition yes no, ⟨first, second, third⟩ => by
    rw [Stmt.idents, List.append_assoc]
    exact (along_exp condition first).append
      ((along_block yes second).beside (along_block no third))
  | .call callee args, shaped => along_exp (.call callee args) shaped
  | .giveBack none _, _ => .nil
  | .giveBack (some value) _, shaped => along_exp value shaped

theorem along_block {env : Env} : (b : Block) → b.WellShaped →
    Along b.vars b.idents (block env b).diagnostics
  | .mk decls body, ⟨_, shaped⟩ => (along_declareAll _ decls).beside (along_stmts body shaped)

theorem along_stmts {env : Env} : (ss : List Stmt) → Stmt.AllWellShaped ss →
    Along (Stmt.varsAll ss) (Stmt.identsAll ss) (stmts env ss).diagnostics
  | [], _ => .nil
  | s :: ss, ⟨first, second⟩ => (along_stmt s first).beside (along_stmts ss second)

end

/-- The result type is written before the name of a function and looked at after it, but nothing is
reported about it. -/
theorem along_fnDecl (globals : Scope) {d : FnDecl} (shaped : d.WellShaped) :
    Along (Decl.fn d).vars (Decl.fn d).idents (fnDecl globals d).2.diagnostics := by
  obtain ⟨type, name, formals, ⟨decls, body⟩⟩ := d
  have own : ∀ vars, Along vars (type.idents ++ [name])
      (ownFindings globals ⟨type, name, formals, ⟨decls, body⟩⟩).diagnostics := by
    intro vars
    refine (Along.quiet type.idents).append ?_
    rw [ownFindings]
    split
    · exact .one name _ .nil
    · exact .silent name .nil
  change Along _ _ (_ ++ ((resultType globals type).diagnostics ++ _))
  rw [Rules.resultType_clean, List.nil_append, Decl.idents, List.append_assoc]
  refine (own _).append ((along_declareAll _ formals).beside ?_)
  exact (along_declareAll _ decls).beside (along_stmts body shaped.body.2)

theorem along_decl (globals : Scope) (d : Decl) (shaped : d.WellShaped) :
    Along d.vars d.idents (decl globals d).2.diagnostics := by
  cases d with
  | var d =>
    have declared := @along_declareAll (fun scope => [scope]) globals [d]
    rwa [List.flatMap_singleton] at declared
  | fn d => exact along_fnDecl globals shaped
  | struct d =>
    rw [decl, structDecl]
    split
    · exact .one d.name _ (.quiet _)
    · refine .silent d.name ?_
      have fields := @along_declareAll (fun _ => [globals]) .empty d.fields
      rwa [← List.append_nil (declareAll _ _ _).findings.diagnostics] at fields

theorem along_decls : (globals : Scope) → (ds : List Decl) → (∀ d ∈ ds, d.WellShaped) →
    Along (ds.flatMap Decl.vars) (ds.flatMap Decl.idents) (decls globals ds).2.diagnostics
  | _, [], _ => .nil
  | globals, d :: ds, shaped =>
    (along_decl globals d (shaped d List.mem_cons_self)).beside
      (along_decls _ ds fun d mem => shaped d (List.mem_cons_of_mem _ mem))

end Scoping

/-! ## Sources -/

namespace Program

variable {source : Text} {p : Program}

/-- The identifiers of a source stand one after the other. -/
theorem pairwise_precedes (parsed : source.parse.program = some p) :
    (p.idents.map Ident.position).Pairwise Position.Precedes := by
  have named := (proper_of_parse parsed).named
  have before : source.scan.tokens.Pairwise Token.Before :=
    Scan.pairwise_before .start (Segment.divide source)
  rw [← source.scan.tokens.zipIdx_map_fst 0, List.pairwise_map] at before
  rw [idents_eq_map_tokens parsed] at named ⊢
  rw [List.pairwise_map, List.pairwise_map]
  refine (before.filter _).imp_of_mem fun mem _ before => ?_
  exact before.precedes (named _ (List.mem_map_of_mem mem))

/-- The reports about names come in source order, and there is no repetition among them. Two of them
are at one position only if it is that of the name of a variable which is declared `void` and whose
name is taken. -/
theorem reports_in_source_order (source : Text) (p : Program)
    (parsed : source.parse.program = some p) :
    ∃ r, p.resolve = .ok r ∧
      (r.diagnostics.map Diagnostic.position).Pairwise Position.Reaches ∧
      (r.diagnostics.map fun d => (d.position, d.message)).Nodup ∧
      ∀ position, let here := r.diagnostics.filter (·.position = position)
        here.length ≤ 1 ∨ ∃ d ∈ p.vars, d.type = .void ∧ d.name.position = position ∧
          here.map Diagnostic.message =
            (["Non-function declared void", "Multiply declared identifier"] : List Text) := by
  have along := Scoping.along_decls .empty p.decls (wellShaped_of_parse parsed)
  have ordered := along.pairwise (pairwise_precedes parsed)
  refine ⟨_, resolve_eq_extend (proper_of_parse parsed), ?_, ?_, ?_⟩
  · exact List.pairwise_map.mpr (ordered.imp Follows.reaches)
  · exact List.pairwise_map.mpr (ordered.imp Follows.ne)
  · intro position here
    have same : ∀ d ∈ here, d.position = position := by
      intro d mem
      exact of_decide_eq_true (List.mem_filter.mp mem).2
    refine (Follows.cases_at (ordered.filter _) same).imp_right ?_
    rintro ⟨d, mem, void, name, both⟩
    exact ⟨d, mem, void, name, congrArg (List.map Diagnostic.message) both⟩

/-- A name with two reports, and a chain of which the field in the middle is reported. -/
theorem reports_in_source_order_chain :
    ∃ p, (Text.parse
      "int x;void x;struct S\x7bint a;\x7d;void f(struct S s)\x7bs.a.b.c=y;\x7d").program = some p ∧
      ∃ r, p.resolve = .ok r ∧ r.diagnostics = [.error ⟨1, 12⟩ .voidVariable,
          .error ⟨1, 12⟩ .redeclared, .error ⟨1, 52⟩ .notStruct, .error ⟨1, 58⟩ .undeclared] ∧
        (r.diagnostics.map fun d => (d.position, d.message)).Nodup ∧
        ∃ d ∈ p.vars, d.type = .void ∧ d.name.position = ⟨1, 12⟩ := by
  obtain ⟨p, parsed, reported⟩ : ∃ p, (Text.parse
      "int x;void x;struct S\x7bint a;\x7d;void f(struct S s)\x7bs.a.b.c=y;\x7d").program = some p ∧
      (p.resolve.toOption.map Resolver.diagnostics) = some [.error ⟨1, 12⟩ .voidVariable,
        .error ⟨1, 12⟩ .redeclared, .error ⟨1, 52⟩ .notStruct, .error ⟨1, 58⟩ .undeclared] :=
    Text.exists_of_parseOnTape (by decide +kernel)
  obtain ⟨r, resolved, -, distinct, once⟩ := reports_in_source_order _ p parsed
  rw [resolved] at reported
  have diagnostics := Option.some.inj reported
  refine ⟨p, parsed, r, resolved, diagnostics, distinct, ?_⟩
  have double := once ⟨1, 12⟩
  rw [diagnostics] at double
  obtain ⟨d, mem, void, position, -⟩ := double.resolve_left (by decide)
  exact ⟨d, mem, void, position⟩

end Program

end Cinder
