import Multimethod.Proofs.Inference.Kinds
import Multimethod.Proofs.Lowering.Declarations

/-!
# The types that a unit names

Every type that a lowered unit names stands for an annotation, is the type of a literal, or is the
top. So if a kind of types contains whatever an annotation can stand for, then all types that a
function or a class names are of the kind.
-/

namespace Multimethod.Lowering

/-- Whether whatever a computation answers is good. -/
def Yields {α : Type} (good : α → Prop) (result : Checked α) : Prop :=
  ∀ x, result = .ok x → good x

section Yields

variable {α β : Type} {good : α → Prop} {good' : β → Prop} {first : Checked α}
  {next : α → Checked β}

theorem Yields.ok {x : α} (of : good x) : Yields good (.ok x : Checked α) := by
  rintro _ ⟨⟩
  exact of

theorem Yields.fail (s : Scope) (cause : Cause) (p : Surface.Position) :
    Yields good (s.fail cause p) := by
  rintro _ ⟨⟩

theorem Yields.bind (yields : Yields good first) (rest : ∀ x, good x → Yields good' (next x)) :
    Yields good' (first >>= next) := by
  intro y done
  obtain ⟨x, here, there⟩ := bind_eq_ok done
  exact rest x (yields x here) y there

theorem Yields.mapM {f : α → Checked β} (each : ∀ x, Yields good' (f x)) (items : List α) :
    Yields (fun results => ∀ y ∈ results, good' y) (items.mapM f) := by
  intro results accepted y member
  obtain ⟨x, -, same⟩ := exists_of_mem_mapM accepted member
  exact each x y same

end Yields

/-! ## Types -/

/-- Whether a kind of types contains whatever an annotation in a scope can stand for, and the types
    of literals. -/
structure Scope.Covered (s : Scope) (kind : Ty → Prop) : Prop where
  any : kind .any
  bottom : kind .bottom
  literal : ∀ t ∈ Ty.literals, kind t
  union : ∀ types, (∀ t ∈ types, kind t) → kind (.unionOf types)
  typeVar : ∀ name bound, s.typeVars.find? name = some bound → kind (.typeVar name bound)
  aliased : ∀ name type, s.aliases.find? name = some type → kind type
  declared : ∀ name decl, s.hierarchy.find? name = some decl → decl.isAbstract = true →
    kind decl.toTy
  applied : ∀ name decl args, s.hierarchy.find? name = some decl → decl.isAbstract = false →
    (args = [] ∨ args.length = decl.params.length) → (∀ a ∈ args, kind a) →
      kind (.concrete name args)

variable {s : Scope} {kind : Ty → Prop}

theorem yields_resolveName (covered : s.Covered kind) (name : String) {args : List Ty}
    (loc : Location) (of : ∀ a ∈ args, kind a) :
    Yields kind (resolveName s.hierarchy name args loc) := by
  unfold resolveName
  split
  · rintro _ ⟨⟩
  · rename_i decl found
    split
    · rename_i isAbstract
      split
      · exact .ok (covered.declared name decl found isAbstract)
      · rintro _ ⟨⟩
    · rename_i isConcrete
      split
      · rintro _ ⟨⟩
      · rename_i fits
        refine .ok (covered.applied name decl args found (by simpa using isConcrete) ?_ of)
        simpa [or_iff_not_imp_left] using fits

mutual

theorem yields_lowerType (covered : s.Covered kind) (t : Surface.TypeExpr) :
    Yields kind (lowerType s t) := by
  match t with
  | .any => exact .ok covered.any
  | .never => exact .ok covered.bottom
  | .nothing => exact .ok (covered.literal _ (by simp [Ty.literals]))
  | .parens inner => exact yields_lowerType covered inner
  | .union members =>
      exact (yields_lowerTypes covered members).bind fun types of => .ok (covered.union types of)
  | .reference name args start =>
      rw [lowerType]
      split
      · rename_i bound found
        split
        · exact .ok (covered.typeVar name bound found)
        · exact .fail s _ _
      · split
        · rename_i type found
          split
          · exact .ok (covered.aliased name type found)
          · exact .fail s _ _
        · exact (yields_lowerTypes covered args).bind fun types of =>
            yields_resolveName covered name _ of
  | .qualified start => exact .fail s _ _
  | .other construct start => exact .fail s _ _

theorem yields_lowerTypes (covered : s.Covered kind) (ts : List Surface.TypeExpr) :
    Yields (fun types => ∀ t ∈ types, kind t) (lowerTypes s ts) := by
  match ts with
  | [] => exact .ok (by simp)
  | t :: ts =>
      refine (yields_lowerType covered t).bind fun type first => ?_
      exact (yields_lowerTypes covered ts).bind fun types others =>
        .ok (List.forall_mem_cons.2 ⟨first, others⟩)

end

theorem yields_lowerAscription (covered : s.Covered kind) (t : Option Surface.TypeExpr) :
    Yields (fun type => ∀ t ∈ type, kind t) (lowerAscription s t) := by
  cases t with
  | none => exact .ok (by simp)
  | some t => exact (yields_lowerType covered t).bind fun type of => .ok (by simpa using of)

/-- What an annotation that may be missing stands for, unless it is missing. -/
theorem Scope.Covered.getD (covered : s.Covered kind) {type : Option Ty} (of : ∀ t ∈ type, kind t) :
    kind (type.getD .any) := by
  cases type with
  | none => exact covered.any
  | some t => exact of t rfl

theorem yields_lowerTest (covered : s.Covered kind) (e : Surface.Expr) :
    Yields kind (lowerTest s e) := by
  unfold lowerTest
  split
  · split
    · rename_i bound found
      exact .ok (covered.typeVar _ bound found)
    · split
      · rename_i type found
        exact .ok (covered.aliased _ type found)
      · exact yields_resolveName covered _ _ (by simp)
  · exact .fail s _ _

/-! ## Expressions -/

/-- Whether the types that an expression names are of a kind. -/
def ExprOf (kind : Ty → Prop) (e : Expr) : Prop :=
  ∀ t ∈ e.types, kind t

/-- Whether the types that expressions name are of a kind. -/
def ExprsOf (kind : Ty → Prop) (es : List Expr) : Prop :=
  ∀ t ∈ Expr.allTypes es, kind t

theorem exprOf_literal (covered : s.Covered kind) {type : Ty} (among : type ∈ Ty.literals)
    (value : Option Bool) (loc : Location) : ExprOf kind (.literal type value loc) := by
  intro t member
  rw [List.mem_singleton.1 member]
  exact covered.literal type among

theorem exprOf_numberLiteral (covered : s.Covered kind) (isWhole : Bool)
    (start : Surface.Position) : ExprOf kind (numberLiteral s isWhole start) :=
  exprOf_literal covered (by cases isWhole <;> simp [Ty.literals]) _ _

theorem exprsOf_nil : ExprsOf kind [] := by
  simp [ExprsOf, Expr.allTypes]

theorem exprsOf_cons {e : Expr} {es : List Expr} (first : ExprOf kind e)
    (others : ExprsOf kind es) : ExprsOf kind (e :: es) :=
  List.forall_mem_append.2 ⟨first, others⟩

mutual

theorem yields_lowerExpr (covered : s.Covered kind) (e : Surface.Expr) :
    Yields (ExprOf kind) (lowerExpr s e) := by
  rw [lowerExpr.eq_def]
  split
  · exact .ok (exprOf_numberLiteral covered _ _)
  · exact .ok (exprOf_literal covered (by simp [Ty.literals]) _ _)
  · exact .ok (exprOf_literal covered (by simp [Ty.literals]) _ _)
  · exact .fail s _ _
  · exact .ok (exprOf_literal covered (by simp [Ty.literals]) _ _)
  · exact .ok (exprOf_literal covered (by simp [Ty.literals]) _ _)
  · exact .ok (by simp [ExprOf, Expr.types])
  · exact yields_lowerExpr covered _
  · exact .fail s _ _
  · refine (yields_lowerExpr covered _).bind fun subject first => ?_
    exact (yields_lowerTest covered _).bind fun test second =>
      .ok (List.forall_mem_cons.2 ⟨second, first⟩)
  · split
    · exact .fail s _ _
    · refine (yields_lowerExpr covered _).bind fun left first => ?_
      exact (yields_lowerExpr covered _).bind fun right second =>
        .ok (exprsOf_cons first (exprsOf_cons second exprsOf_nil))
  · split
    · exact .ok (exprOf_numberLiteral covered _ _)
    · split
      · exact (yields_lowerExpr covered _).bind fun operand of =>
          .ok (exprsOf_cons of exprsOf_nil)
      · exact .fail s _ _
  · split
    · exact .fail s _ _
    · refine (yields_lowerExpr covered _).bind fun left first => ?_
      exact (yields_lowerExpr covered _).bind fun right second =>
        .ok (List.forall_mem_append.2 ⟨first, second⟩)
  · refine (yields_lowerExpr covered _).bind fun test first => ?_
    refine (yields_lowerExpr covered _).bind fun consequent second => ?_
    exact (yields_lowerExpr covered _).bind fun alternate third =>
      .ok (List.forall_mem_append.2 ⟨List.forall_mem_append.2 ⟨first, second⟩, third⟩)
  · split
    · exact (yields_lowerArgs covered _).bind fun args of => .ok of
    · exact .fail s _ _
  · split
    · exact (yields_lowerArgs covered _).bind fun args of => .ok of
    · exact .fail s _ _
  · exact .fail s _ _
  · refine (yields_lowerExpr covered _).bind fun object first => ?_
    exact (yields_lowerExpr covered _).bind fun index second =>
      .ok (exprsOf_cons first (exprsOf_cons second exprsOf_nil))
  · exact (yields_lowerExpr covered _).bind fun object of => .ok of
  · exact (yields_lowerElements covered _ _).bind fun elements of => .ok of
  · exact .fail s _ _

theorem yields_lowerArgs (covered : s.Covered kind) (args : List Surface.Expr) :
    Yields (ExprsOf kind) (lowerArgs s args) := by
  rw [lowerArgs.eq_def]
  split
  · exact .ok exprsOf_nil
  · exact .fail s _ _
  · refine (yields_lowerExpr covered _).bind fun first of => ?_
    exact (yields_lowerArgs covered _).bind fun others rest => .ok (exprsOf_cons of rest)

theorem yields_lowerElements (covered : s.Covered kind) (start : Surface.Position)
    (elements : List Surface.Expr) : Yields (ExprsOf kind) (lowerElements s start elements) := by
  rw [lowerElements.eq_def]
  split
  · exact .ok exprsOf_nil
  · exact .fail s _ _
  · exact .fail s _ _
  · refine (yields_lowerExpr covered _).bind fun first of => ?_
    exact (yields_lowerElements covered start _).bind fun others rest =>
      .ok (exprsOf_cons of rest)

end

/-! ## Statements -/

/-- Whether the types that a statement names are of a kind. -/
def StmtOf (kind : Ty → Prop) (stmt : Stmt) : Prop :=
  ∀ t ∈ stmt.types, kind t

/-- Whether the types that statements name are of a kind. -/
def StmtsOf (kind : Ty → Prop) (stmts : List Stmt) : Prop :=
  ∀ t ∈ Stmt.allTypes stmts, kind t

theorem stmtsOf_iff {stmts : List Stmt} :
    StmtsOf kind stmts ↔ ∀ stmt ∈ stmts, StmtOf kind stmt := by
  induction stmts with
  | nil => simp [StmtsOf, Stmt.allTypes]
  | cons stmt stmts ih =>
      rw [List.forall_mem_cons, ← ih]
      exact List.forall_mem_append

theorem stmtsOf_nil : StmtsOf kind [] :=
  stmtsOf_iff.2 (by simp)

theorem stmtsOf_singleton {stmt : Stmt} : StmtsOf kind [stmt] ↔ StmtOf kind stmt := by
  simp [stmtsOf_iff]

theorem stmtsOf_append {first second : List Stmt} :
    StmtsOf kind (first ++ second) ↔ StmtsOf kind first ∧ StmtsOf kind second := by
  simp only [stmtsOf_iff, List.forall_mem_append]

theorem stmtOf_branch {test : Expr} {consequent alternate : List Stmt} {loc : Location}
    (first : ExprOf kind test) (second : StmtsOf kind consequent)
    (third : StmtsOf kind alternate) : StmtOf kind (.branch test consequent alternate loc) :=
  List.forall_mem_append.2 ⟨List.forall_mem_append.2 ⟨first, second⟩, third⟩

theorem stmtOf_loop {test : Expr} {body update : List Stmt} {loc : Location}
    (first : ExprOf kind test) (second : StmtsOf kind body) (third : StmtsOf kind update) :
    StmtOf kind (.loop test body update loc) :=
  List.forall_mem_append.2 ⟨List.forall_mem_append.2 ⟨first, second⟩, third⟩

theorem yields_assignedValue (covered : s.Covered kind) (op : String) (target value : Surface.Expr)
    (start : Surface.Position) : Yields (ExprOf kind) (assignedValue s op target value start) := by
  refine (yields_lowerExpr covered value).bind fun value of => ?_
  split
  · exact .ok of
  · split
    · exact .fail s _ _
    · exact (yields_lowerExpr covered target).bind fun target ofTarget =>
        .ok (exprsOf_cons ofTarget (exprsOf_cons of exprsOf_nil))

theorem yields_lowerAssign (covered : s.Covered kind) (op : String) (target value : Surface.Expr)
    (start : Surface.Position) : Yields (StmtOf kind) (lowerAssign s op target value start) := by
  refine (yields_assignedValue covered op target value start).bind fun value of => ?_
  dsimp only
  split
  · exact .ok (List.forall_mem_append.2 ⟨of, by simp⟩)
  · refine (yields_lowerExpr covered _).bind fun object first => ?_
    exact (yields_lowerExpr covered _).bind fun index second =>
      .ok (exprsOf_cons first (exprsOf_cons of (exprsOf_cons second exprsOf_nil)))
  · exact (yields_lowerExpr covered _).bind fun object first =>
      .ok (List.forall_mem_append.2 ⟨first, of⟩)
  · exact .fail s _ _

theorem yields_lowerUpdate (covered : s.Covered kind) (op : String) (target : Surface.Expr)
    (start : Surface.Position) : Yields (StmtOf kind) (lowerUpdate s op target start) := by
  unfold lowerUpdate
  dsimp only
  split
  · refine .ok fun t member => covered.literal t ?_
    have int : t = .int := by simpa [Stmt.types, Expr.types, Expr.allTypes] using member
    simp [int, Ty.literals]
  · exact .fail s _ _

theorem yields_lowerEffect (covered : s.Covered kind) (e : Surface.Expr) :
    Yields (StmtOf kind) (lowerEffect s e) := by
  unfold lowerEffect
  split
  · exact yields_lowerUpdate covered _ _ _
  · exact yields_lowerAssign covered _ _ _ _
  · exact (yields_lowerExpr covered _).bind fun value of => .ok of

theorem yields_lowerDeclarator (covered : s.Covered kind) (d : Surface.Declarator) :
    Yields (StmtOf kind) (lowerDeclarator s d) := by
  unfold lowerDeclarator
  split
  · exact .fail s _ _
  · split
    · exact .fail s _ _
    · refine (yields_lowerExpr covered _).bind fun value of => ?_
      exact (yields_lowerAscription covered _).bind fun type ofType =>
        .ok (List.forall_mem_append.2 ⟨of, by simpa using ofType⟩)

theorem yields_declarators (covered : s.Covered kind) (ds : List Surface.Declarator) :
    Yields (StmtsOf kind) (ds.mapM (lowerDeclarator s)) :=
  fun stmts accepted =>
    stmtsOf_iff.2 (Yields.mapM (yields_lowerDeclarator covered) ds stmts accepted)

theorem yields_lowerInit (covered : s.Covered kind) (init : Surface.LoopInit) :
    Yields (StmtsOf kind) (lowerInit s init) := by
  cases init with
  | none => exact .ok stmtsOf_nil
  | declared ds => exact yields_declarators covered ds
  | expression e =>
      exact (yields_lowerEffect covered e).bind fun stmt of => .ok (stmtsOf_singleton.2 of)

mutual

theorem yields_lowerStmt (covered : s.Covered kind) (stmt : Surface.Stmt) :
    Yields (StmtsOf kind) (lowerStmt s stmt) := by
  match stmt with
  | .block body _ => exact yields_lowerStmts covered body
  | .empty _ => exact .ok stmtsOf_nil
  | .declared ds _ => exact yields_declarators covered ds
  | .expression e _ =>
      exact (yields_lowerEffect covered e).bind fun stmt of => .ok (stmtsOf_singleton.2 of)
  | .ret none start => exact .ok (stmtsOf_singleton.2 (by simp [StmtOf, Stmt.types]))
  | .ret (some value) start =>
      exact (yields_lowerExpr covered value).bind fun value of => .ok (stmtsOf_singleton.2 of)
  | .raise value start =>
      exact (yields_lowerExpr covered value).bind fun value of => .ok (stmtsOf_singleton.2 of)
  | .branch test consequent none start =>
      refine (yields_lowerExpr covered test).bind fun test first => ?_
      exact (yields_lowerStmt covered consequent).bind fun consequent second =>
        .ok (stmtsOf_singleton.2 (stmtOf_branch first second stmtsOf_nil))
  | .branch test consequent (some alternate) start =>
      refine (yields_lowerExpr covered test).bind fun test first => ?_
      refine (yields_lowerStmt covered consequent).bind fun consequent second => ?_
      exact (yields_lowerStmt covered alternate).bind fun alternate third =>
        .ok (stmtsOf_singleton.2 (stmtOf_branch first second third))
  | .whileLoop test body start =>
      refine (yields_lowerExpr covered test).bind fun test first => ?_
      exact (yields_lowerStmt covered body).bind fun body second =>
        .ok (stmtsOf_singleton.2 (stmtOf_loop first second stmtsOf_nil))
  | .forLoop init test update body start =>
      refine (yields_lowerInit covered init).bind fun init before => ?_
      -- the test and the update may be missing
      have behind : ∀ test, ExprOf kind test → ∀ update, StmtsOf kind update →
          Yields (StmtsOf kind) (do
            return init ++ [.loop test (← lowerStmt s body) update (s.locate start)]) :=
        fun test first update third => (yields_lowerStmt covered body).bind fun body second =>
          .ok (stmtsOf_append.2 ⟨before, stmtsOf_singleton.2 (stmtOf_loop first second third)⟩)
      have further : ∀ test, ExprOf kind test → Yields (StmtsOf kind) (do
          let update ← match update with
            | some update => do pure [← lowerEffect s update]
            | none => pure []
          return init ++ [.loop test (← lowerStmt s body) update (s.locate start)]) := by
        intro test first
        cases update with
        | none => exact behind test first [] stmtsOf_nil
        | some update =>
            exact (yields_lowerEffect covered update).bind fun update third =>
              behind test first [update] (stmtsOf_singleton.2 third)
      cases test with
      | none => exact further _ (exprOf_literal covered (by simp [Ty.literals]) _ _)
      | some test => exact (yields_lowerExpr covered test).bind further
  | .forOf none iterable body start => exact .fail s _ _
  | .forOf (some target) iterable body start =>
      refine (yields_lowerExpr covered iterable).bind fun iterable first => ?_
      exact (yields_lowerStmt covered body).bind fun body second =>
        .ok (stmtsOf_singleton.2 (List.forall_mem_append.2 ⟨first, second⟩))
  | .jump jump isLabeled start =>
      rw [lowerStmt]
      split
      · exact .fail s _ _
      · exact .ok (stmtsOf_singleton.2 (by simp [StmtOf, Stmt.types]))
  | .other construct start => exact .fail s _ _

theorem yields_lowerStmts (covered : s.Covered kind) (stmts : List Surface.Stmt) :
    Yields (StmtsOf kind) (lowerStmts s stmts) := by
  match stmts with
  | [] => exact .ok stmtsOf_nil
  | stmt :: stmts =>
      refine (yields_lowerStmt covered stmt).bind fun first of => ?_
      exact (yields_lowerStmts covered stmts).bind fun others rest =>
        .ok (stmtsOf_append.2 ⟨of, rest⟩)

end

/-! ## Declarations -/

theorem yields_lowerFields (covered : s.Covered kind) (name : String)
    (members : List Surface.Member) {fields : Assoc Ty} (of : ∀ entry ∈ fields, kind entry.2) :
    Yields (fun fields => ∀ entry ∈ fields, kind entry.2) (lowerFields s name fields members) := by
  induction members generalizing fields with
  | nil => exact .ok of
  | cons member members ih =>
      rw [lowerFields.eq_def]
      split
      · rename_i equal
        cases equal
      · exact .fail s _ _
      · rename_i equal
        cases equal
        split
        · exact .fail s _ _
        · split
          · exact .fail s _ _
          · exact (yields_lowerAscription covered _).bind fun type ofType =>
              ih (Assoc.forall_mem_insert kind of (covered.getD ofType))

/-- A completed class differs from the declared one in its fields only, the types of which stand for
    annotations in the scope of its parameters. -/
theorem completeClass_eq_ok {c c' : DeclaredClass} (accepted : completeClass s c = .ok c') :
    c'.decl.name = c.decl.name ∧ c'.decl.params = c.decl.params ∧
      ∀ kind, (s.withTypeVars (boundsOf c.decl.params)).Covered kind →
        ∀ fields ∈ c'.decl.fields, ∀ entry ∈ fields, kind entry.2 := by
  unfold completeClass at accepted
  split at accepted
  · rename_i none
    cases accepted
    exact ⟨rfl, rfl, fun kind _ => by simp [none]⟩
  · obtain ⟨fields, lowered, accepted⟩ := bind_eq_ok accepted
    cases accepted
    refine ⟨rfl, rfl, fun kind covered => ?_⟩
    rintro _ ⟨⟩
    exact yields_lowerFields covered c.decl.name c.source.members (by simp) fields lowered

theorem yields_lowerParam (covered : s.Covered kind) (function : String)
    (binder : Surface.Binder) : Yields (fun p => kind p.type) (lowerParam s function binder) := by
  unfold lowerParam
  split
  · exact (yields_lowerAscription covered _).bind fun type of => .ok (covered.getD of)
  · exact .fail s _ _

/-- The types of a function stand for annotations in the scope of its type parameters. -/
theorem lowerFunction_eq_ok {f : Surface.FunctionDecl} {m : Method}
    (accepted : lowerFunction s f = .ok m) :
    ∃ params, lowerTypeParams (s.withTypeVars []) f.typeParams = .ok params ∧
      m.typeParams = (boundsOf params).map (fun entry => ⟨entry.1, entry.2⟩) ∧
      ∀ kind, (s.withTypeVars (boundsOf params)).Covered kind →
        (∀ p ∈ m.params, kind p.type) ∧ (∀ t ∈ m.returns, kind t) ∧
          ∀ stmts ∈ m.body, StmtsOf kind stmts := by
  unfold lowerFunction at accepted
  split at accepted
  · cases accepted
  · obtain ⟨typeParams, clause, accepted⟩ := bind_eq_ok accepted
    obtain ⟨params, first, accepted⟩ := bind_eq_ok accepted
    obtain ⟨returns, second, accepted⟩ := bind_eq_ok accepted
    have signature : ∀ kind, (s.withTypeVars (boundsOf typeParams)).Covered kind →
        (∀ p ∈ params, kind p.type) ∧ ∀ t ∈ returns, kind t := fun kind covered =>
      ⟨Yields.mapM (yields_lowerParam covered f.name) f.params params first,
        yields_lowerAscription covered f.returns returns second⟩
    cases source : f.body with
    | none =>
        rw [source] at accepted
        cases accepted
        exact ⟨typeParams, clause, rfl, fun kind covered =>
          ⟨(signature kind covered).1, (signature kind covered).2, by simp⟩⟩
    | some stmts =>
        rw [source] at accepted
        obtain ⟨body, third, accepted⟩ := bind_eq_ok accepted
        cases inside : lowerStmts (s.withTypeVars (boundsOf typeParams)) stmts with
        | error fault =>
            rw [inside] at third
            cases third
        | ok lowered =>
            rw [inside] at third
            cases third
            cases accepted
            refine ⟨typeParams, clause, rfl, fun kind covered =>
              ⟨(signature kind covered).1, (signature kind covered).2, ?_⟩⟩
            rintro _ ⟨⟩
            exact yields_lowerStmts covered stmts lowered inside

theorem yields_lowerEntry (covered : s.Covered kind) (e : Surface.Expr)
    (start : Surface.Position) :
    Yields (fun entry => ExprsOf kind entry.args) (lowerEntry s e start) := by
  unfold lowerEntry
  refine (yields_lowerExpr covered e).bind fun lowered of => ?_
  split
  · exact .ok of
  · exact .fail s _ _

/-- An accepted alias stands for what its annotation does. -/
theorem addAlias_eq_ok {a : Surface.AliasDecl} {next : Scope} (accepted : addAlias s a = .ok next) :
    ∃ type, lowerType s a.type = .ok type ∧
      next = { s with aliases := s.aliases.insert a.name type } := by
  unfold addAlias at accepted
  split at accepted
  · cases accepted
  · split at accepted
    · cases accepted
    · obtain ⟨type, lowered, same⟩ := bind_eq_ok accepted
      cases same
      exact ⟨type, lowered, rfl⟩

end Multimethod.Lowering
