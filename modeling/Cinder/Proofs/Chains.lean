import Cinder.Proofs.Visits

/-!
# Chains of dot-accesses

A chain of dot-accesses is followed from the left. Each field is looked up in the struct of what
stands before it, and is bound to what is found there. Where nothing is found the chain ends: the
rest of it is left unbound, and the one report about the chain says why it ended.
-/
namespace Cinder

/-- The fields of a chain that starts with a name, each selected from what stands before it. -/
def Exp.chain (id : Ident) (fields : List Ident) : Exp := fields.foldl .dot (.ident id)

/-- There is exactly one report, an error with this text at the identifier. -/
def Ident.Blamed (id : Ident) (text : Text) (ds : List Diagnostic) : Prop :=
  ∃ problem, ds = [.error id.position problem] ∧ problem.message = text

namespace Bindings

/-- Fields are found one after the other, from one symbol to another. Each is bound to what the
struct before it has under its name, and a dot-access has a struct if its field is a struct
variable. -/
inductive Path (b : Bindings) : Symbol → List Ident → Symbol → Prop where
  | stay (s : Symbol) : Path b s [] s
  | select {s t u : Symbol} {d : StructDef} {field : Ident} {rest : List Ident}
      (struct : s.definition? = some d) (found : d.field? field.name = some t)
      (bound : b.symbolOf field = some t) (dot : b.structOf field = t.definition?)
      (next : Path b t rest u) : Path b s (field :: rest) u

/-- Nothing is bound to these identifiers, and the dot-accesses that they are fields of have no
struct. -/
def Leaves (b : Bindings) (ids : List Ident) : Prop :=
  ∀ id ∈ ids, b.symbolOf id = none ∧ b.structOf id = none

end Bindings

/-- Why a chain ends at an identifier that is bound to a symbol, given the fields that come next. -/
inductive Symbol.Ends (s : Symbol) (last : Ident) : List Ident → List Diagnostic → Prop where
  | complete : Ends s last [] []
  | notStruct {field : Ident} {rest : List Ident} {ds : List Diagnostic}
      (other : s.definition? = none) (blamed : last.Blamed "Dot-access of non-struct type" ds) :
      Ends s last (field :: rest) ds
  | unknownField {field : Ident} {rest : List Ident} {ds : List Diagnostic} {d : StructDef}
      (struct : s.definition? = some d) (missing : d.field? field.name = none)
      (blamed : field.Blamed "Invalid struct field name" ds) : Ends s last (field :: rest) ds

/-- What becomes of a chain whose first name means a symbol or nothing: the bindings that are there
in the end, and what is reported when the chain is resolved. -/
inductive Bindings.Chained (b : Bindings) (id : Ident) (fields : List Ident) :
    Option Symbol → List Diagnostic → Prop where
  | undeclared {ds : List Diagnostic} (unbound : b.Leaves (id :: fields))
      (blamed : id.Blamed "Undeclared identifier" ds) : Chained b id fields none ds
  | declared {s t : Symbol} {found missed : List Ident} {ds : List Diagnostic}
      (bound : b.symbolOf id = some s) (split : fields = found ++ missed)
      (path : b.Path s found t) (unbound : b.Leaves missed)
      (ends : t.Ends (found.getLastD id) missed ds) : Chained b id fields (some s) ds

theorem Exp.idents_foldl_dot (e : Exp) (fields : List Ident) :
    (fields.foldl Exp.dot e).idents = e.idents ++ fields := by
  induction fields generalizing e with
  | nil => rw [List.foldl_nil, List.append_nil]
  | cons field rest ih => rw [List.foldl_cons, ih, idents, List.append_assoc, List.singleton_append]

namespace Scoping

open Findings (nothing)

/-! ## Selections one after the other -/

/-- The selection of fields, each from what the one before it has given. -/
def selectAll (base : Base) (position : Position) : List Ident → Findings
  | [] => nothing
  | field :: rest =>
    select base position field ++
      selectAll (.ofSymbol? (base.field? field.name)) field.position rest

theorem exp_foldl_dot (env : Env) (e : Exp) (fields : List Ident) :
    exp env (fields.foldl Exp.dot e) = exp env e ++ selectAll (.of env e) e.position fields := by
  induction fields generalizing e with
  | nil => rw [List.foldl_nil, selectAll, Findings.append_nothing]
  | cons field rest ih =>
    rw [List.foldl_cons, ih, exp, Findings.append_assoc]
    rfl

theorem nodes_selectAll {n : Nat} {base : Base} {position : Position} {fields : List Ident}
    (mem : n ∈ (selectAll base position fields).nodes) : n ∈ nodes fields := by
  induction fields generalizing base position with
  | nil => cases mem
  | cons field rest ih =>
    rcases Findings.mem_nodes_append.mp mem with first | later
    · simp [nodes, nodes_select first]
    · exact List.mem_cons_of_mem _ (ih later)

/-- Nothing is said about what is selected from something unbound. -/
theorem selectAll_unbound (position : Position) (fields : List Ident) :
    (selectAll .unbound position fields).idents = [] ∧
      (selectAll .unbound position fields).dots = [] ∧
      (selectAll .unbound position fields).diagnostics = [] := by
  induction fields generalizing position with
  | nil => exact ⟨rfl, rfl, rfl⟩
  | cons field rest ih => exact ih field.position

theorem ofSymbol?_of_definition? {s : Symbol} {d : StructDef} (struct : s.definition? = some d) :
    Base.ofSymbol? (some s) = .struct d := by
  cases s with
  | structVar name typeName definition =>
    cases struct
    rfl
  | _ => cases struct

theorem ofSymbol?_of_other {s : Symbol} (other : s.definition? = none) :
    Base.ofSymbol? (some s) = .other := by
  cases s with
  | structVar name typeName definition => cases other
  | _ => rfl

/-- A field that is found is bound, and nothing is reported. -/
theorem select_found {d : StructDef} {position : Position} {field : Ident} {t : Symbol}
    (found : d.field? field.name = some t) :
    (select (.struct d) position field).bindings.symbolOf field = some t ∧
      (select (.struct d) position field).bindings.structOf field = t.definition? ∧
      (select (.struct d) position field).diagnostics = [] := by
  rw [select, found]
  cases t with
  | structVar name typeName inner =>
    simp [Findings.bindings, Bindings.symbolOf, Bindings.structOf, Table.find?, Symbol.definition?]
  | _ =>
    simp [Findings.bind, Findings.bindings, Bindings.symbolOf, Bindings.structOf, Table.find?,
      Symbol.definition?]

/-! ## What becomes of a chain -/

/-- Bindings that agree with findings on identifiers. -/
def Agree (b : Bindings) (f : Findings) (ids : List Ident) : Prop :=
  ∀ id ∈ ids, b.symbolOf id = f.bindings.symbolOf id ∧ b.structOf id = f.bindings.structOf id

variable {b : Bindings}

theorem Agree.leaves {f : Findings} {ids : List Ident} (agree : Agree b f ids)
    (idents : f.idents = []) (dots : f.dots = []) : b.Leaves ids := by
  intro id mem
  obtain ⟨symbol, struct⟩ := agree id mem
  constructor
  · rw [symbol, Findings.bindings, idents]
    rfl
  · rw [struct, Findings.bindings, dots]
    rfl

/-- What is bound to the identifiers of two parts, if each of the findings is about its own part. -/
theorem Agree.append {f g : Findings} {ids more : List Ident}
    (agree : Agree b (f ++ g) (ids ++ more)) (apart : (nodes ids).Disjoint (nodes more))
    (first : ∀ n ∈ f.nodes, n ∈ nodes ids) (rest : ∀ n ∈ g.nodes, n ∈ nodes more) :
    Agree b f ids ∧ Agree b g more := by
  constructor
  · intro id mem
    have absent : id.node ∉ g.nodes := fun known => apart (List.mem_map_of_mem mem) (rest _ known)
    obtain ⟨unbound, none⟩ := Findings.not_mem_of_nodes absent
    have here := agree id (List.mem_append_left _ mem)
    rwa [Findings.symbolOf_append, Findings.structOf_append, unbound, none, Option.or_none,
      Option.or_none] at here
  · intro id mem
    have absent : id.node ∉ f.nodes := fun known => apart (first _ known) (List.mem_map_of_mem mem)
    obtain ⟨unbound, none⟩ := Findings.not_mem_of_nodes absent
    have here := agree id (List.mem_append_right _ mem)
    rwa [Findings.symbolOf_append, Findings.structOf_append, unbound, none, Option.none_or,
      Option.none_or] at here

/-- What is bound to the first identifier and to the others, if findings about the first come before
those about the others. -/
theorem Agree.cons {f g : Findings} {id : Ident} {ids : List Ident}
    (agree : Agree b (f ++ g) (id :: ids)) (distinct : (nodes (id :: ids)).Nodup)
    (first : ∀ n ∈ f.nodes, n = id.node) (rest : ∀ n ∈ g.nodes, n ∈ nodes ids) :
    (b.symbolOf id = f.bindings.symbolOf id ∧ b.structOf id = f.bindings.structOf id) ∧
      Agree b g ids := by
  have apart : (nodes [id]).Disjoint (nodes ids) :=
    @List.disjoint_of_nodup_append _ [id.node] _ distinct
  have own : ∀ n ∈ f.nodes, n ∈ nodes [id] := fun n mem => List.mem_singleton.mpr (first n mem)
  obtain ⟨here, others⟩ := @Agree.append b f g [id] ids agree apart own rest
  exact ⟨here id List.mem_cons_self, others⟩

theorem exists_followed (s : Symbol) (last : Ident) (fields : List Ident)
    (distinct : (nodes fields).Nodup)
    (agree : Agree b (selectAll (.ofSymbol? (some s)) last.position fields) fields) :
    ∃ found missed t, fields = found ++ missed ∧ b.Path s found t ∧ b.Leaves missed ∧
      t.Ends (found.getLastD last) missed
        (selectAll (.ofSymbol? (some s)) last.position fields).diagnostics := by
  induction fields generalizing s last with
  | nil => exact ⟨[], [], s, rfl, .stay s, by simp [Bindings.Leaves], .complete⟩
  | cons field rest ih =>
    -- if the first field is not found, neither is any other
    obtain ⟨idents, dots, quiet⟩ := selectAll_unbound field.position rest
    cases struct : s.definition? with
    | none =>
      rw [ofSymbol?_of_other struct] at agree ⊢
      refine ⟨[], field :: rest, s, rfl, .stay s, agree.leaves idents dots, .notStruct struct ?_⟩
      exact ⟨.notStruct, congrArg _ quiet, rfl⟩
    | some d =>
      rw [ofSymbol?_of_definition? struct] at agree ⊢
      cases found : d.field? field.name with
      | none =>
        simp only [selectAll, select, Base.field?, found, Base.ofSymbol?] at agree ⊢
        refine ⟨[], field :: rest, s, rfl, .stay s, agree.leaves idents dots, ?_⟩
        exact .unknownField struct found ⟨.unknownField, congrArg _ quiet, rfl⟩
      | some t =>
        simp only [selectAll, Base.field?, found] at agree ⊢
        obtain ⟨⟨bound, dot⟩, agree⟩ :=
          agree.cons distinct (fun _ => nodes_select) (fun _ => nodes_selectAll)
        obtain ⟨symbol, definition, silent⟩ := @select_found d last.position field t found
        rw [symbol] at bound
        rw [definition] at dot
        obtain ⟨more, missed, u, rfl, path, unbound, ends⟩ := ih t field distinct.of_cons agree
        refine ⟨field :: more, missed, u, rfl, .select struct found bound dot path, unbound, ?_⟩
        rw [List.getLastD_cons, Findings.diagnostics_append, silent]
        exact ends

/-- The chain of a visit ends up as lexical scoping has it. -/
theorem chained_exp {env : Env} (id : Ident) (fields : List Ident)
    (distinct : (nodes (id :: fields)).Nodup)
    (agree : Agree b (exp env (.chain id fields)) (id :: fields)) :
    b.Chained id fields (env.find id.name) (exp env (.chain id fields)).diagnostics := by
  rw [Exp.chain, exp_foldl_dot, exp, Base.of] at agree ⊢
  cases found : env.find id.name with
  | none =>
    obtain ⟨idents, dots, quiet⟩ := selectAll_unbound id.position fields
    rw [use, found] at agree ⊢
    refine .undeclared (agree.leaves idents dots) ⟨.undeclared, congrArg _ quiet, rfl⟩
  | some s =>
    rw [use, found] at agree ⊢
    obtain ⟨⟨bound, -⟩, agree⟩ :=
      agree.cons distinct (by simp [Findings.nodes, Findings.bind]) (fun _ => nodes_selectAll)
    obtain ⟨found, missed, t, split, path, unbound, ends⟩ :=
      exists_followed s id fields distinct.of_cons agree
    exact .declared (bound.trans (Findings.symbolOf_bind id s)) split path unbound ends

/-- A chain that the resolver comes to: what it reports there, and what is bound in the end. -/
theorem chained_of_visited {p : Program} (proper : Proper p.idents) {id : Ident}
    {fields : List Ident} {r : Resolver} (visit : Visited p (.chain id fields) r) :
    ∃ base? s final own later,
      r.scopes.find id.name = .ok base? ∧
      Resolve.exp (.chain id fields) r = .ok () s ∧ s.diagnostics = r.diagnostics ++ own ∧
      p.resolve = .ok final ∧ final.diagnostics = s.diagnostics ++ later ∧
      final.bindings.Chained id fields base? own := by
  obtain ⟨env, inside, -, sited⟩ := sited_of_visited proper visit
  obtain ⟨later, resolved, -⟩ := sited.ends
  have run := (yields_exp inside _ sited.pending.proper.distinct).runs r sited.stack
    sited.pending.fresh
  have idents : (Exp.chain id fields).idents = id :: fields := Exp.idents_foldl_dot _ fields
  refine ⟨env.find id.name, _, _, _, later.diagnostics, ?_, run, rfl, resolved, ?_, ?_⟩
  · rw [sited.stack]
    exact Env.find_scopes inside id.name
  · rw [Resolver.extend, Resolver.extend, Findings.diagnostics_append, List.append_assoc]
  · refine chained_exp id fields ?_ fun other mem => ?_
    · rw [← idents]
      exact sited.pending.proper.distinct
    · refine sited.bindings resolved ?_
      rw [idents]
      exact List.mem_map_of_mem mem

end Scoping

/-- The resolver comes to every chain of a program. Whenever it does, it looks up the first name in
the scopes that are there, and what becomes of the chain is what follows from the symbol that it
finds: the reports are those added by the visit, the bindings are those at the end of the walk. -/
theorem Program.chains_resolve (p : Program) (distinct : (p.idents.map Ident.node).Nodup)
    (named : ∀ id ∈ p.idents, id.name ≠ []) (id : Ident) (fields : List Ident)
    (part : .chain id fields ∈ p.parts) :
    (∃ r, Scoping.Visited p (.chain id fields) r) ∧
    ∀ r, Scoping.Visited p (.chain id fields) r →
      ∃ base? s final own later,
        r.scopes.find id.name = .ok base? ∧
        Resolve.exp (.chain id fields) r = .ok () s ∧ s.diagnostics = r.diagnostics ++ own ∧
        p.resolve = .ok final ∧ final.diagnostics = s.diagnostics ++ later ∧
        final.bindings.Chained id fields base? own := by
  have proper : Scoping.Proper p.idents := ⟨distinct, named⟩
  constructor
  · exact Scoping.exists_visited proper part
  · intro r visit
    exact Scoping.chained_of_visited proper visit

/-- In `b.a.x.y.z` the fields `a` and `x` are found. What is reported is that `x`, an integer, has
no fields. -/
theorem Program.chains_resolve_past_integer :
    let v : Nat → Text → Ident := fun n name => ⟨n, name, ⟨1, n⟩⟩
    let inner : StructDecl := ⟨v 0 "A", [⟨.int, v 1 "x"⟩]⟩
    let outer : StructDecl := ⟨v 2 "B", [⟨.struct (v 3 "A"), v 4 "a"⟩]⟩
    let fields := [v 9 "a", v 10 "x", v 11 "y", v 12 "z"]
    let body : Block := .mk [] [.read (.chain (v 8 "b") fields)]
    let p : Program :=
      ⟨[.struct inner, .struct outer, .fn ⟨.void, v 5 "f", [⟨.struct (v 6 "B"), v 7 "b"⟩], body⟩]⟩
    (p.idents.map Ident.node).Nodup ∧ (∀ id ∈ p.idents, id.name ≠ []) ∧
      .chain (v 8 "b") fields ∈ p.parts ∧
      ∃ r base? final own,
        Scoping.Visited p (.chain (v 8 "b") fields) r ∧ r.scopes.find "b" = .ok base? ∧
        p.resolve = .ok final ∧ final.bindings.Chained (v 8 "b") fields base? own ∧
        final.diagnostics = [.error ⟨1, 10⟩ .notStruct] := by
  intro v inner outer fields body p
  have distinct : (p.idents.map Ident.node).Nodup := by decide
  have named : ∀ id ∈ p.idents, id.name ≠ [] := by decide
  have part : .chain (v 8 "b") fields ∈ p.parts := List.mem_cons_self
  obtain ⟨⟨r, visit⟩, every⟩ := p.chains_resolve distinct named (v 8 "b") fields part
  obtain ⟨base?, s, final, own, later, found, -, -, resolved, -, chained⟩ := every r visit
  refine ⟨distinct, named, part, r, base?, final, own, visit, found, resolved, chained, ?_⟩
  rw [p.resolve_eq_extend ⟨distinct, named⟩] at resolved
  cases resolved
  decide

end Cinder
