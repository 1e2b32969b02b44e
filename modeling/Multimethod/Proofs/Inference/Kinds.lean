import Multimethod.Proofs.Dispatch.Lookup
import Multimethod.Proofs.Inference.Conversion
import Multimethod.Proofs.Inference.Reentry
import Multimethod.Proofs.Ty.Variables

/-!
# Kinds of types

A kind of types is kept by the analysis of a program if the types that the program names are of
the kind and if it is closed under what the analysis does with types. What follows from this for
field accesses, construction and dispatch is proved here, once for all kinds.
-/

namespace Multimethod

open Multimethod.Lattice

/-! ## The types that a program names -/

mutual

/-- The types that an expression names: those of its literals and of its tests. -/
def Expr.types : Expr → List Ty
  | literal type _ _ => [type]
  | name _ _ => []
  | call _ args _ => allTypes args
  | field object _ _ => object.types
  | isa subject test _ => test :: subject.types
  | logical _ left right _ => left.types ++ right.types
  | conditional test consequent alternate _ =>
      test.types ++ consequent.types ++ alternate.types
  | vector elements _ => allTypes elements

/-- The types that expressions name. -/
def Expr.allTypes : List Expr → List Ty
  | [] => []
  | expr :: exprs => expr.types ++ allTypes exprs

end

mutual

/-- The types that a statement names: those of its expressions and of its declared variables. -/
def Stmt.types : Stmt → List Ty
  | assign _ value declared _ => value.types ++ declared.toList
  | fieldAssign object _ value _ => object.types ++ value.types
  | expr value _ => value.types
  | ret value _ => (value.map Expr.types).getD []
  | raise value _ => value.types
  | branch test consequent alternate _ =>
      test.types ++ allTypes consequent ++ allTypes alternate
  | loop test body update _ => test.types ++ allTypes body ++ allTypes update
  | forEach _ iterable body _ => iterable.types ++ allTypes body
  | jump _ _ => []

/-- The types that statements name. -/
def Stmt.allTypes : List Stmt → List Ty
  | [] => []
  | stmt :: stmts => stmt.types ++ allTypes stmts

end

/-! ## Frames -/

/-- Whether the argument types and the returned types of a call tree are of a kind. -/
def Frame.Of (kind : Ty → Prop) (frame : Frame) : Prop :=
  ∀ g, Within g frame → (∀ a ∈ g.args, kind a) ∧ kind g.ret

section Frames

variable {kind : Ty → Prop} {frame : Frame}

theorem Frame.of_iff : frame.Of kind ↔
    (∀ a ∈ frame.args, kind a) ∧ kind frame.ret ∧ ∀ c ∈ frame.children, c.Of kind := by
  constructor
  · intro of
    obtain ⟨args, ret⟩ := of frame (.self _)
    exact ⟨args, ret, fun c member g within => of g (.child member within)⟩
  · rintro ⟨args, ret, children⟩ g within
    rcases within_iff.1 within with rfl | ⟨c, member, below⟩
    · exact ⟨args, ret⟩
    · exact children c member g below

theorem Frame.Of.args (of : frame.Of kind) : ∀ a ∈ frame.args, kind a :=
  (of frame (.self _)).1

theorem Frame.Of.ret (of : frame.Of kind) : kind frame.ret :=
  (of frame (.self _)).2

theorem Frame.Of.returning (of : frame.Of kind) {ret : Ty} (kept : kind ret) :
    Frame.Of kind { frame with ret := ret } := by
  obtain ⟨args, -, children⟩ := of_iff.1 of
  exact of_iff.2 ⟨args, kept, children⟩

mutual

theorem Frame.Of.prune (frame : Frame) (of : frame.Of kind) : frame.prune.Of kind := by
  match frame with
  | ⟨site, args, ret, status, origin, errors, children⟩ =>
      obtain ⟨args, ret, children⟩ := of_iff.1 of
      rw [Frame.prune]
      exact of_iff.2 ⟨args, ret, Frame.Of.pruneAll _ children⟩

theorem Frame.Of.pruneAll (frames : List Frame) (of : ∀ f ∈ frames, f.Of kind) :
    ∀ f ∈ Frame.pruneAll frames, f.Of kind := by
  match frames with
  | [] => simp [Frame.pruneAll]
  | frame :: frames =>
      rw [List.forall_mem_cons] at of
      have rest := Frame.Of.pruneAll frames of.2
      rw [Frame.pruneAll]
      split
      · exact List.forall_mem_cons.2 ⟨Frame.Of.prune frame of.1, rest⟩
      · exact rest

end

end Frames

/-! ## Environments -/

/-- Whether the types that names hold are of a kind. Every name is bound once. -/
structure Environment.Of (kind : Ty → Prop) (env : Environment) : Prop where
  distinct : env.bindings.Distinct
  here : ∀ entry ∈ env.bindings, kind entry.2.type ∧ ∀ d ∈ entry.2.declared, kind d
  outer : ∀ scope ∈ env.parent, ∀ name binding, scope.lookup name = some binding →
    kind binding.type

/-- Whether the environment that a flow gets to, if any, is of a kind. -/
def Flow.Of (kind : Ty → Prop) (flow : Flow) : Prop :=
  ∀ env ∈ flow, env.Of kind

/-- Whether the types that names have taken are of a kind. -/
def Environment.Histories.Of (kind : Ty → Prop) (histories : Environment.Histories) : Prop :=
  ∀ entry ∈ histories, ∀ t ∈ entry.2, kind t

/-! ## Closed kinds -/

/-- Whether bounds, differences and parts of types of a kind are of the kind. -/
structure Lattice.Keeps (h : Hierarchy) (kind : Ty → Prop) : Prop where
  bottom : kind .bottom
  any : kind .any
  member : ∀ t, kind t → ∀ m ∈ t.members, kind m
  arg : ∀ name ps, kind (.concrete name ps) → ∀ p ∈ ps, kind p
  bound : ∀ name bound, kind (.typeVar name bound) → kind bound
  join : ∀ a b, kind a → kind b → kind (join h a b)
  meet : ∀ a b, kind a → kind b → kind (meet h a b)
  subtract : ∀ a b, kind a → kind (subtract h a b)
  widen : ∀ ts threshold, (∀ t ∈ ts, kind t) → kind (widen h ts threshold)

/-- Whether the types of a method are of a kind, its signature behind the substitution of types of
    the kind. -/
structure Method.Of (kind : Ty → Prop) (m : Method) : Prop where
  clause : ∀ v ∈ m.typeParams, kind v.bound
  bounds : ∀ p ∈ m.params, ∀ v ∈ p.type.vars, kind v.bound
  params : ∀ bindings : Assoc Ty, (∀ entry ∈ bindings, kind entry.2) →
    ∀ p ∈ m.params, kind (p.type.substitute bindings).erase
  returns : ∀ bindings : Assoc Ty, (∀ entry ∈ bindings, kind entry.2) →
    ∀ t ∈ m.returns, kind (t.substitute bindings).erase
  body : ∀ stmts ∈ m.body, ∀ t ∈ Stmt.allTypes stmts, kind t

namespace Inference

open Dispatch

/-- Whether a kind of types is closed under what the analysis of a program does with types. -/
structure Closed (setting : Setting) (kind : Ty → Prop) : Prop
    extends Keeps setting.hierarchy kind where
  bool : kind Ty.bool
  int : kind Ty.int
  nothing : kind Ty.nothing
  function : kind Ty.function
  vector : ∀ t, kind t → kind (Ty.vector t)
  typeOf : ∀ t, kind t → kind (Ty.typeOf t)
  named : ∀ name t, setting.hierarchy.typeOf? name = some t → kind t
  instances : ∀ decl ∈ setting.hierarchy.decls, decl.fields.isSome = true → ∀ ts : List Ty,
    ts = [] ∨ ts.length = decl.params.length → (∀ t ∈ ts, kind t) → kind (.concrete decl.name ts)
  fields : ∀ name args field t, kind (.concrete name args) →
    setting.hierarchy.fieldType? name args field = some t → kind t
  methods : ∀ m ∈ setting.table.methods, m.Of kind
  globals : setting.globals.Of kind

/-- Whether a matched method has types of a kind: those its scope is made of, the declared return
    type, and those that its body names. -/
structure Match.Of (kind : Ty → Prop) (found : Match) : Prop where
  bindings : ∀ entry ∈ found.bindings, kind entry.2
  method : found.method.Of kind

variable {setting : Setting} {kind : Ty → Prop} {found : Match} {h : Hierarchy}

theorem Match.Of.vars (of : Match.Of kind found) : ∀ v ∈ found.method.typeParams,
    kind ((found.bindings.find? v.name).getD v.bound) := by
  intro v member
  cases bound : found.bindings.find? v.name with
  | none => exact of.method.clause v member
  | some t => exact of.bindings _ (Assoc.mem_of_find? bound)

theorem Match.Of.params (of : Match.Of kind found) :
    ∀ p ∈ found.method.params, kind (p.type.substitute found.bindings).erase :=
  of.method.params _ of.bindings

theorem Match.Of.returns (of : Match.Of kind found) : ∀ t ∈ declaredReturn found, kind t := by
  intro t declared
  obtain ⟨type, named, rfl⟩ := Option.map_eq_some_iff.1 declared
  exact of.method.returns _ of.bindings type named

theorem Closed.joinAll (closed : Closed setting kind) {ts : List Ty} (of : ∀ t ∈ ts, kind t) :
    kind (joinAll setting.hierarchy ts) :=
  List.foldlRecOn (motive := kind) ts (Lattice.join setting.hierarchy) closed.bottom
    fun acc kept t member => closed.join acc t kept (of t member)

/-! ## Conversion -/

/-- A converted value is the value, the target or what they have in common. -/
theorem Closed.convertType (closed : Closed setting kind) {value target converted : Ty}
    (ofValue : kind value) (ofTarget : kind target)
    (converts : convertType setting.hierarchy value target = some converted) : kind converted := by
  obtain ⟨rfl, -⟩ | ⟨rfl, -⟩ | ⟨rfl, -⟩ := convertType_cases converts
  · exact ofValue
  · exact ofTarget
  · exact closed.meet _ _ ofValue ofTarget

theorem Closed.convertChecked (closed : Closed setting kind) {value target : Ty}
    (ofValue : kind value) (ofTarget : kind target) (call : String) (loc : Location) :
    kind (convertChecked setting.hierarchy value target call loc).1 := by
  unfold Inference.convertChecked
  cases converts : Inference.convertType setting.hierarchy value target with
  | some converted => exact closed.convertType ofValue ofTarget converts
  | none => exact closed.bottom

/-! ## Fields -/

theorem mem_of_mem_leavesBelow {decls : List TypeDecl} {name : String} {decl : TypeDecl}
    (below : decl ∈ Hierarchy.leavesBelow decls name) : decl ∈ decls := by
  induction decls generalizing name with
  | nil => cases below
  | cons d newer ih =>
      rw [Hierarchy.leavesBelow] at below
      split at below
      · rcases List.mem_append.1 below with here | further
        · split at here
          · exact List.mem_cons_of_mem _ (ih here)
          · rw [List.mem_singleton.1 here]
            exact List.mem_cons_self
        · exact List.mem_cons_of_mem _ (ih further)
      · exact List.mem_cons_of_mem _ (ih below)

theorem Closed.inheritedField (closed : Closed setting kind) (name : String) (site : CallSite)
    (args : List Ty) : kind (inheritedField setting.hierarchy name site args).1 := by
  unfold Inference.inheritedField
  dsimp only
  split
  · exact closed.bottom
  · split
    · exact closed.bottom
    · refine closed.joinAll fun t member => ?_
      obtain ⟨decl, struct, found⟩ := List.mem_filterMap.1 member
      obtain ⟨below, fields⟩ := List.mem_filter.1 struct
      have declared := List.mem_reverse.1 (mem_of_mem_leavesBelow below)
      exact closed.fields _ _ _ t (closed.instances decl declared fields [] (.inl rfl) (by simp))
        found

mutual

theorem Closed.field (closed : Closed setting kind) (site : CallSite) (args : List Ty)
    (object : Ty) (of : kind object) :
    kind (resolveField setting.hierarchy site args object).1 := by
  match object with
  | .any =>
      rw [resolveField]
      exact closed.any
  | .bottom =>
      rw [resolveField]
      exact closed.bottom
  | .typeVar name bound =>
      rw [resolveField]
      exact closed.field site args bound (closed.bound name bound of)
  | .union ms =>
      rw [resolveField]
      exact closed.joinAll (closed.eachField site args ms (closed.member _ of))
  | .concrete name ps =>
      rw [resolveField]
      unfold structField
      split
      · exact closed.bottom
      · dsimp only
        split
        · exact closed.fields _ _ _ _ of ‹_›
        · exact closed.bottom
  | .abstract name =>
      rw [resolveField]
      exact closed.inheritedField name site args

theorem Closed.eachField (closed : Closed setting kind) (site : CallSite) (args : List Ty)
    (objects : List Ty) (of : ∀ t ∈ objects, kind t) :
    ∀ t ∈ (resolveEach setting.hierarchy site args objects).map (·.1), kind t := by
  match objects with
  | [] => simp [resolveEach]
  | object :: objects =>
      rw [List.forall_mem_cons] at of
      rw [resolveEach, List.map_cons]
      exact List.forall_mem_cons.2
        ⟨closed.field site args object of.1, closed.eachField site args objects of.2⟩

end

/-! ## Construction -/

mutual

/-- Variables are bound to parts of the arguments and to joins of such. -/
theorem of_bindVars (keeps : Keeps h kind) (declared : Ty) {arg : Ty} (ofArg : kind arg)
    {bindings : Assoc Ty} (of : ∀ entry ∈ bindings, kind entry.2) :
    ∀ entry ∈ bindVars h declared arg bindings, kind entry.2 := by
  rw [bindVars.eq_def]
  match declared with
  | .typeVar name bound =>
      dsimp only
      split
      · rename_i existing found
        exact Assoc.forall_mem_insert kind of (keeps.join _ _ (of _ (Assoc.mem_of_find? found)) ofArg)
      · exact Assoc.forall_mem_insert kind of ofArg
  | .concrete name ps =>
      dsimp only
      split
      · split
        · exact of_bindAllVars keeps ps (keeps.arg _ _ ofArg) of
        · exact of
      · exact of
  | .any | .bottom | .abstract _ | .union _ => exact of

theorem of_bindAllVars (keeps : Keeps h kind) (declared : List Ty) {args : List Ty}
    (ofArgs : ∀ a ∈ args, kind a) {bindings : Assoc Ty} (of : ∀ entry ∈ bindings, kind entry.2) :
    ∀ entry ∈ bindAllVars h declared args bindings, kind entry.2 := by
  rw [bindAllVars.eq_def]
  match declared, args with
  | d :: ds, a :: as =>
      rw [List.forall_mem_cons] at ofArgs
      exact of_bindAllVars keeps ds ofArgs.2 (of_bindVars keeps d ofArgs.1 of)
  | [], _ => exact of
  | _ :: _, [] => exact of

end

theorem length_filterMap_of_all {ts : List (Option Ty)} (all : ts.all Option.isSome = true) :
    (ts.filterMap fun t => t).length = ts.length := by
  induction ts with
  | nil => rfl
  | cons t ts ih =>
      rw [List.all_cons, Bool.and_eq_true] at all
      obtain ⟨type, rfl⟩ := Option.isSome_iff_exists.1 all.1
      simp [ih all.2]

theorem Closed.construct (closed : Closed setting kind) (site : CallSite) (name : String)
    (args : List Ty) (ofArgs : ∀ a ∈ args, kind a) :
    kind (constructInstance setting.hierarchy site name args).1 := by
  unfold constructInstance
  dsimp only
  split
  · rename_i declName isAbstract supertype params fields loc found
    split
    · split
      · exact closed.bottom
      · have named : declName = name := by simpa using List.find?_some found
        have instances := closed.instances _ (List.mem_of_find?_eq_some found) rfl
        have unbound : ∀ entry ∈ ([] : Assoc Ty), kind entry.2 := by simp
        have bindings := of_bindAllVars closed.toKeeps (fields.map (·.2)) ofArgs unbound
        rw [← named]
        unfold instanceOf
        dsimp only
        split
        · rename_i all
          refine instances _ (.inr ?_) fun t member => ?_
          · rw [length_filterMap_of_all all, List.length_map]
          · obtain ⟨found, among, same⟩ := List.mem_filterMap.1 member
            obtain ⟨param, -, rfl⟩ := List.mem_map.1 among
            exact bindings _ (Assoc.mem_of_find? same)
        · exact instances [] (.inl rfl) (by simp)
    · exact closed.bottom
  · exact closed.bottom

/-! ## Dispatch -/

section Matching

variable {bindings : Assoc Ty} {params args : List Ty} {arg : Ty}

/-- Variables are bound to what arguments and bounds have in common. -/
theorem of_matchVar (keeps : Keeps h kind) (name : String) {bound : Ty} (ofBound : kind bound)
    (ofArg : kind arg) (of : ∀ entry ∈ bindings, kind entry.2) :
    ∀ entry ∈ (matchVar h name bound arg bindings).2, kind entry.2 := by
  unfold matchVar
  split
  · dsimp only
    split
    · exact of
    · exact Assoc.forall_mem_insert kind of (keeps.meet _ _ ofArg ofBound)
  · rename_i existing found
    split
    · exact of
    · dsimp only
      split
      · exact of
      · exact Assoc.forall_mem_insert kind of (keeps.meet _ _ (of _ (Assoc.mem_of_find? found)) ofArg)

theorem of_matchArgs (each : ∀ param ∈ params, ∀ arg bindings, kind arg →
      (∀ entry ∈ bindings, kind entry.2) →
      ∀ entry ∈ (matchParam h param arg bindings).2, kind entry.2)
    (ofArgs : ∀ a ∈ args, kind a) (of : ∀ entry ∈ bindings, kind entry.2) :
    ∀ entry ∈ (matchArgs h params args bindings).2, kind entry.2 := by
  induction params generalizing args bindings with
  | nil => simpa [matchArgs] using of
  | cons param params ih =>
      cases args with
      | nil => simpa [matchArgs] using of
      | cons arg args =>
          rw [List.forall_mem_cons] at each ofArgs
          rw [matchArgs_cons]
          exact ih each.2 ofArgs.2 (each.1 arg bindings ofArgs.1 of)

theorem of_matchParam (keeps : Keeps h kind) (param : Ty) (bounds : ∀ v ∈ param.vars, kind v.bound)
    (arg : Ty) (bindings : Assoc Ty) (ofArg : kind arg) (of : ∀ entry ∈ bindings, kind entry.2) :
    ∀ entry ∈ (matchParam h param arg bindings).2, kind entry.2 := by
  induction param using Ty.parts_induction generalizing arg bindings with
  | concrete name ps ih =>
      cases compared h (.concrete name ps) arg with
      | inside length vars =>
          rw [matchParam_inside vars length]
          refine of_matchArgs (fun p hp => ih p hp fun v inside => ?_) (keeps.arg _ _ ofArg) of
          exact bounds v (Ty.mem_allVars.2 ⟨p, hp, inside⟩)
      | whole matched _ =>
          rw [matched]
          exact of
  | typeVar name bound =>
      rw [matchParam_typeVar]
      exact of_matchVar keeps name (bounds ⟨name, bound⟩ (List.mem_singleton_self _)) ofArg of
  | _ =>
      cases compared h _ arg with
      | whole matched _ =>
          rw [matched]
          exact of

end Matching

/-- Whatever a lookup answers is a method of the table that matches. -/
theorem exists_of_mem_matched {table : MethodTable} {callee : String} {args : List Ty}
    {answers : List Match}
    (answer : lookup h table callee args = .matched answers) (member : found ∈ answers) :
    ∃ m ∈ table.methods, matchMethod h m args = some found := by
  have matching : ∀ found ∈ matching h table callee args,
      ∃ m ∈ table.methods, matchMethod h m args = some found := by
    intro found member
    obtain ⟨m, named, matched⟩ := List.mem_filterMap.1 member
    exact ⟨m, mem_methods_of_mem_methodsOf named, matched⟩
  rw [lookup_eq] at answer
  split at answer
  · cases answer
  · split at answer
    · cases answer
      exact matching found member
    · split at answer
      · cases answer
        exact matching found (List.mem_filter.1 member).1
      · rename_i best most
        cases answer
        rcases List.mem_cons.1 member with rfl | other
        · have among : found ∈ maximal h (fullMatches (Dispatch.matching h table callee args)) :=
            most ▸ List.mem_singleton_self found
          exact matching found (List.mem_filter.1 (List.mem_filter.1 among).1).1
        · exact matching found (List.mem_filter.1 other).1
      · cases answer

theorem Closed.matched (closed : Closed setting kind) (callee : String) (args : List Ty)
    (answers : List Match) (ofArgs : ∀ a ∈ args, kind a)
    (answer : lookup setting.hierarchy setting.table callee args = .matched answers) :
    ∀ found ∈ answers, Match.Of kind found := by
  intro found member
  obtain ⟨m, registered, matched⟩ := exists_of_mem_matched answer member
  have ofMethod := closed.methods m registered
  have unbound : ∀ entry ∈ ([] : Assoc Ty), kind entry.2 := by simp
  have bindings : ∀ entry ∈ (matchArgs setting.hierarchy (m.params.map (·.type)) args []).2,
      kind entry.2 :=
    of_matchArgs (List.forall_mem_map.2 fun p hp =>
      of_matchParam closed.toKeeps p.type (ofMethod.bounds p hp)) ofArgs unbound
  unfold matchMethod at matched
  split at matched
  · cases matched
  · split at matched
    · cases matched
    · rename_i result
      cases matched
      rw [result] at bindings
      exact ⟨bindings, ofMethod⟩

end Inference

end Multimethod
