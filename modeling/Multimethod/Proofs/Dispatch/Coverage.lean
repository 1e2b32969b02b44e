import Multimethod.Proofs.Dispatch.Specificity
import Multimethod.Proofs.Ty.Substitution

/-!
# What full applicability covers

A method that applies fully binds its variables to what the arguments have in their places, and
each argument is then compared with its parameter position by position. This comes to the same as
comparing it with the parameter under the bindings, but for two oversights: a type without
variables is compared in one direction only, also where it stands in an invariant position beside
a variable, and a type whose variables are erased for the comparison is not compared with what
they are bound to.
-/

namespace Multimethod.Dispatch

open Multimethod.Lattice

variable {h : Hierarchy} {table : MethodTable} {bindings next last : Assoc Ty}
  {param arg bound : Ty} {params args ps qs : List Ty} {name : String} {exact : Bool}

/-! ## Bindings of a full match -/

/-- Bindings that only gain variables, bound to ground types. -/
structure Gains (h : Hierarchy) (bindings next : Assoc Ty) : Prop where
  keeps : ∀ name t, bindings.find? name = some t → next.find? name = some t
  ground : (∀ entry ∈ bindings, entry.2.ground h = true) → ∀ entry ∈ next, entry.2.ground h = true

theorem Gains.refl (h : Hierarchy) (bindings : Assoc Ty) : Gains h bindings bindings :=
  ⟨fun _ _ found => found, fun ground => ground⟩

theorem Gains.trans (second : Gains h next last) (first : Gains h bindings next) :
    Gains h bindings last :=
  ⟨fun name t found => second.keeps name t (first.keeps name t found),
    fun ground => second.ground (first.ground ground)⟩

/-- A variable that matches fully is bound to a type equivalent to the argument. -/
theorem matchVar_gains (ha : arg.ground h = true)
    (full : (matchVar h name bound arg bindings).1 = .full) :
    Gains h bindings (matchVar h name bound arg bindings).2 ∧
      ∃ t, (matchVar h name bound arg bindings).2.find? name = some t ∧
        equivalent h t arg = true := by
  unfold matchVar at full ⊢
  cases found : bindings.find? name with
  | none =>
      simp only [found] at full ⊢
      split at full
      · cases full
      · rename_i notBottom
        rw [if_neg notBottom]
        have below : isSubtype h arg bound = true := by
          by_contra notBelow
          rw [if_neg notBelow] at full
          cases full
        have whole : meet h arg bound = arg := by rw [meet.eq_def, if_pos below]
        rw [whole]
        refine ⟨⟨fun other t held => ?_, fun ground => ?_⟩, arg, ?_, ?_⟩
        · rw [Assoc.find?_insert, if_neg]
          · exact held
          · rintro rfl
            rw [found] at held
            cases held
        · exact Assoc.forall_mem_insert (fun t : Ty => t.ground h = true) ground ha
        · rw [Assoc.find?_insert, if_pos rfl]
        · rw [equivalent, isSubtype_refl, Bool.and_self]
  | some held =>
      simp only [found] at full ⊢
      by_cases same : equivalent h held arg = true
      · rw [if_pos same]
        exact ⟨.refl h bindings, held, found, same⟩
      · rw [if_neg same] at full
        split at full <;> cases full

theorem matchArgs_gains
    (each : ∀ p ∈ params, ∀ arg bindings, arg.ground h = true →
      (matchParam h p arg bindings).1 = .full →
        Gains h bindings (matchParam h p arg bindings).2)
    (ground : ∀ t ∈ args, t.ground h = true)
    (full : (matchArgs h params args bindings).1 = .full) :
    Gains h bindings (matchArgs h params args bindings).2 := by
  induction params generalizing args bindings with
  | nil =>
      rw [matchArgs.eq_def]
      exact .refl h bindings
  | cons param params ih =>
      cases args with
      | nil =>
          rw [matchArgs.eq_def]
          exact .refl h bindings
      | cons arg args =>
          rw [List.forall_mem_cons] at each ground
          rw [matchArgs_cons] at full ⊢
          obtain ⟨first, rest⟩ := both_eq_full.1 full
          exact (ih each.2 ground.2 rest).trans (each.1 arg bindings ground.1 first)

/-- A parameter that matches fully narrows nothing that is bound already. -/
theorem matchParam_gains (param arg : Ty) (bindings : Assoc Ty) (ha : arg.ground h = true)
    (full : (matchParam h param arg bindings).1 = .full) :
    Gains h bindings (matchParam h param arg bindings).2 := by
  induction total : param.size using Nat.strongRecOn generalizing param arg bindings with
  | ind n ih =>
      cases compared h param arg with
      | named name bound =>
          rw [matchParam_typeVar] at full ⊢
          exact (matchVar_gains ha full).1
      | @inside name ps qs length vars =>
          rw [matchParam_inside vars length] at full ⊢
          refine matchArgs_gains (fun p hp arg bindings ha full => ?_)
            (Ty.ground_concrete.1 ha).2.2 full
          have := Ty.size_lt_sizes hp
          exact ih p.size (by simp only [Ty.size] at total; omega) p arg bindings ha full rfl
      | whole matched =>
          rw [matched]
          exact .refl h bindings

/-- Where all arguments match fully, each one does, under bindings that the last ones keep. -/
theorem forall₂_of_matchArgs (length : params.length = args.length)
    (ground : ∀ t ∈ args, t.ground h = true)
    (full : (matchArgs h params args bindings).1 = .full)
    (keeps : Gains h (matchArgs h params args bindings).2 last) :
    List.Forall₂ (fun param arg => ∃ before, (matchParam h param arg before).1 = .full ∧
      Gains h (matchParam h param arg before).2 last) params args := by
  induction params generalizing args bindings with
  | nil =>
      rw [List.length_eq_zero_iff.1 length.symm]
      exact .nil
  | cons param params ih =>
      cases args with
      | nil => cases length
      | cons arg args =>
          rw [List.forall_mem_cons] at ground
          rw [matchArgs_cons] at full keeps
          obtain ⟨first, rest⟩ := both_eq_full.1 full
          have later := matchArgs_gains
            (fun p _ arg bindings ha full => matchParam_gains p arg bindings ha full) ground.2 rest
          exact .cons ⟨bindings, first, keeps.trans later⟩
            (ih (Nat.succ.inj length) ground.2 rest keeps)

/-! ## What matching overlooks -/

/-- Whether a parameter that mentions variables is compared with an argument as a whole. -/
def comparedErased : Ty → Ty → Bool
  | .typeVar _ _, _ => false
  | .concrete name ps, .concrete other qs => !(other == name && qs.length == ps.length)
  | _, _ => true

theorem matchParam_of_comparedErased (vars : param.hasVars = true)
    (erased : comparedErased param arg = true) :
    matchParam h param arg bindings = (applicabilityOf h param.erase arg, bindings) := by
  rw [matchParam.eq_def]
  cases param with
  | typeVar name bound => cases erased
  | concrete name ps =>
      cases arg with
      | concrete other qs =>
          rw [comparedErased, Bool.not_eq_true'] at erased
          simp [vars, erased]
      | _ => simp [vars]
  | _ => simp [vars]

/-- Whether a parameter of a parametric type is covariant. -/
def isCovariantAt (h : Hierarchy) (name : String) (i : Nat) : Bool :=
  (h.paramsOf name)[i]?.any (·.variance == .covariant)

/-- What matching a parameter fully overlooks, `exact` telling whether it stands in an invariant
    position. -/
inductive Overlooks (h : Hierarchy) (bindings : Assoc Ty) : (exact : Bool) → Ty → Ty → Prop where
  /-- A type without variables may be broader than what stands in its place. -/
  | broader {param arg : Ty} (closed : param.hasVars = false)
      (notBelow : isSubtype h param arg = false) : Overlooks h bindings true param arg
  /-- A type whose variables are erased may not fit once they are bound. -/
  | erased {exact : Bool} {param arg : Ty} (vars : param.hasVars = true)
      (asWhole : comparedErased param arg = true)
      (apart : isSubtype h arg (param.substitute bindings).erase = false ∨
        exact = true ∧ isSubtype h (param.substitute bindings).erase arg = false) :
      Overlooks h bindings exact param arg
  /-- Either may stand inside an instance all variables of which are bound. -/
  | inside {exact : Bool} {name : String} {ps qs : List Ty} (vars : Ty.anyHasVars ps = true)
      (closed : ((Ty.concrete name ps).substitute bindings).hasVars = false)
      (length : qs.length = ps.length) (i : Nat) (hp : i < ps.length) (hq : i < qs.length)
      (part : Overlooks h bindings (exact || !isCovariantAt h name i) ps[i] qs[i]) :
      Overlooks h bindings exact (.concrete name ps) (.concrete name qs)

/-- What is compared in every way the position asks for. -/
def Agrees (h : Hierarchy) (exact : Bool) (arg t : Ty) : Prop :=
  isSubtype h arg t = true ∧ (exact = true → isSubtype h t arg = true)

/-- Instances agree if their arguments do, in the positions that their declaration tells. -/
theorem agrees_concrete_iff (ha : (Ty.concrete name qs).ground h = true)
    (hp : (Ty.concrete name ps).ground h = true) (several : ps ≠ [])
    (length : qs.length = ps.length) :
    Agrees h exact (.concrete name qs) (.concrete name ps) ↔
      ∀ i (hq : i < qs.length) (hp : i < ps.length),
        Agrees h (exact || !isCovariantAt h name i) qs[i] ps[i] := by
  have several' : qs ≠ [] := by
    rintro rfl
    exact several (List.length_eq_zero_iff.1 length.symm)
  have pointwise : ∀ i (hq : i < qs.length) (hp : i < ps.length),
      Agrees h (exact || !isCovariantAt h name i) qs[i] ps[i] ↔
        (isSubtype h qs[i] ps[i] = true ∧
          (isCovariantAt h name i = true ∨ isSubtype h ps[i] qs[i] = true)) ∧
        (exact = true → isSubtype h ps[i] qs[i] = true) := by
    intro i hq hp
    unfold Agrees
    cases exact <;> cases isCovariantAt h name i <;> simp
  rw [Agrees, concrete_isSubtype_concrete_iff ha hp, concrete_isSubtype_concrete_iff hp ha,
    argsBelow_iff, argsBelow_iff]
  simp only [several, several', false_or, true_and]
  constructor
  · rintro ⟨⟨-, below⟩, above⟩ i hq hp
    exact (pointwise i hq hp).2 ⟨below i hq hp, fun isExact => ((above isExact).2 i hp hq).1⟩
  · intro each
    refine ⟨⟨length, fun i hq hp => ((pointwise i hq hp).1 (each i hq hp)).1⟩,
      fun isExact => ⟨length.symm, fun i hp hq => ?_⟩⟩
    obtain ⟨⟨below, -⟩, above⟩ := (pointwise i hq hp).1 (each i hq hp)
    exact ⟨above isExact, Or.inr below⟩

theorem overlooks_iff_of_closed (closed : param.hasVars = false) :
    Overlooks h bindings exact param arg ↔ exact = true ∧ isSubtype h param arg = false := by
  constructor
  · intro overlooked
    cases overlooked with
    | broader _ notBelow => exact ⟨rfl, notBelow⟩
    | erased vars => rw [closed] at vars; cases vars
    | inside vars => rw [Ty.hasVars, vars] at closed; cases closed
  · rintro ⟨rfl, notBelow⟩
    exact .broader closed notBelow

theorem overlooks_iff_of_comparedErased (vars : param.hasVars = true)
    (asWhole : comparedErased param arg = true) :
    Overlooks h bindings exact param arg ↔
      ¬ Agrees h exact arg (param.substitute bindings).erase := by
  have apart_iff : ¬ Agrees h exact arg (param.substitute bindings).erase ↔
      isSubtype h arg (param.substitute bindings).erase = false ∨
        exact = true ∧ isSubtype h (param.substitute bindings).erase arg = false := by
    rw [Agrees, not_and_or, Classical.not_imp, Bool.not_eq_true, Bool.not_eq_true]
  rw [apart_iff]
  constructor
  · intro overlooked
    cases overlooked with
    | broader closed => rw [closed] at vars; cases vars
    | erased _ _ apart => exact apart
    | inside _ _ length => simp [comparedErased, length] at asWhole
  · exact .erased vars asWhole

theorem not_overlooks_typeVar : ¬ Overlooks h bindings exact (.typeVar name bound) arg := by
  intro overlooked
  cases overlooked with
  | broader closed => cases closed
  | erased _ asWhole => cases asWhole

theorem overlooks_concrete_iff (vars : Ty.anyHasVars ps = true)
    (closed : ((Ty.concrete name ps).substitute bindings).hasVars = false)
    (length : qs.length = ps.length) :
    Overlooks h bindings exact (.concrete name ps) (.concrete name qs) ↔
      ∃ i, ∃ (hp : i < ps.length) (hq : i < qs.length),
        Overlooks h bindings (exact || !isCovariantAt h name i) ps[i] qs[i] := by
  constructor
  · intro overlooked
    cases overlooked with
    | broader closed => rw [Ty.hasVars, vars] at closed; cases closed
    | erased _ asWhole => simp [comparedErased, length] at asWhole
    | inside _ _ _ i hp hq part => exact ⟨i, hp, hq, part⟩
  · rintro ⟨i, hp, hq, part⟩
    exact .inside vars closed length i hp hq part

theorem agrees_iff_of_closed (formed : param.wellFormed h = true) (closed : param.hasVars = false)
    (full : (matchParam h param arg bindings).1 = .full) :
    Agrees h exact arg (param.substitute last) ↔ ¬ Overlooks h last exact param arg := by
  have whole : matchParam h param arg bindings = (applicabilityOf h param arg, bindings) := by
    rw [matchParam.eq_def]
    simp [closed]
  rw [whole] at full
  have below := applicabilityOf_eq_full_iff.1 full
  rw [Ty.substitute_of_ground last param (Ty.ground_of_wellFormed param formed closed),
    overlooks_iff_of_closed closed, Agrees, not_and, Bool.not_eq_false]
  exact ⟨fun agrees => agrees.2, fun above => ⟨below, above⟩⟩

theorem agrees_iff_of_comparedErased (ground : ∀ entry ∈ last, entry.2.ground h = true)
    (formed : param.wellFormed h = true) (closed : (param.substitute last).hasVars = false)
    (vars : param.hasVars = true) (asWhole : comparedErased param arg = true) :
    Agrees h exact arg (param.substitute last) ↔ ¬ Overlooks h last exact param arg := by
  rw [overlooks_iff_of_comparedErased vars asWhole, not_not,
    Ty.erase_of_ground _ (Ty.ground_substitute_of_wellFormed ground formed closed)]

theorem eq_of_not_comparedErased (aligned : comparedErased (.concrete name ps) arg = false) :
    ∃ qs, arg = .concrete name qs ∧ qs.length = ps.length := by
  cases arg with
  | concrete other qs =>
      rw [comparedErased, Bool.not_eq_false', Bool.and_eq_true, beq_iff_eq, beq_iff_eq] at aligned
      exact ⟨qs, by rw [aligned.1], aligned.2⟩
  | _ => cases aligned

/-- A parameter that matches fully and whose variables are all bound agrees with the argument
    exactly if nothing is overlooked. -/
theorem agrees_iff_of_full (ground : ∀ entry ∈ last, entry.2.ground h = true) (param : Ty)
    (formed : param.wellFormed h = true) (closed : (param.substitute last).hasVars = false)
    (exact : Bool) (arg : Ty) (bindings : Assoc Ty) (ha : arg.ground h = true)
    (full : (matchParam h param arg bindings).1 = .full)
    (gains : Gains h (matchParam h param arg bindings).2 last) :
    Agrees h exact arg (param.substitute last) ↔ ¬ Overlooks h last exact param arg := by
  induction param using Ty.parts_induction generalizing exact arg bindings with
  | any | bottom | abstract => exact agrees_iff_of_closed formed rfl full
  | typeVar name bound =>
      rw [matchParam_typeVar] at full gains
      obtain ⟨-, t, found, same⟩ := matchVar_gains ha full
      rw [equivalent, Bool.and_eq_true] at same
      rw [Ty.substitute, gains.keeps name t found, Option.getD_some]
      exact iff_of_true ⟨same.2, fun _ => same.1⟩ not_overlooks_typeVar
  | union ms =>
      cases vars : (Ty.union ms).hasVars with
      | false => exact agrees_iff_of_closed formed vars full
      | true => exact agrees_iff_of_comparedErased ground formed closed vars rfl
  | concrete name ps ih =>
      cases vars : (Ty.concrete name ps).hasVars with
      | false => exact agrees_iff_of_closed formed vars full
      | true =>
          cases asWhole : comparedErased (.concrete name ps) arg with
          | true => exact agrees_iff_of_comparedErased ground formed closed vars asWhole
          | false =>
              obtain ⟨qs, rfl, length⟩ := eq_of_not_comparedErased asWhole
              have several : ps ≠ [] := by
                rintro rfl
                cases vars
              rw [matchParam_inside vars length] at full gains
              have parts := List.forall₂_iff_get.1
                (forall₂_of_matchArgs length.symm (Ty.ground_concrete.1 ha).2.2 full gains)
              have ground' := Ty.ground_substitute_of_wellFormed ground formed closed
              rw [overlooks_concrete_iff vars closed length]
              rw [Ty.substitute, Ty.substituteAll_eq_map] at closed ground' ⊢
              rw [Ty.hasVars, Ty.anyHasVars_eq_false_iff] at closed
              -- position by position
              have each : ∀ i (hp : i < ps.length) (hq : i < qs.length),
                  Agrees h (exact || !isCovariantAt h name i) qs[i] (ps[i].substitute last) ↔
                    ¬ Overlooks h last (exact || !isCovariantAt h name i) ps[i] qs[i] := by
                intro i hp hq
                have member := List.getElem_mem hp
                obtain ⟨before, matched, kept⟩ := parts.2 i hp hq
                exact ih _ member ((Ty.wellFormed_concrete.1 formed).2.2 _ member)
                  (closed _ (List.mem_map_of_mem member)) _ _ before
                  ((Ty.ground_concrete.1 ha).2.2 _ (List.getElem_mem hq)) matched kept
              rw [agrees_concrete_iff ha ground' (by simpa using several) (by simpa using length)]
              simp only [List.length_map, List.getElem_map, not_exists]
              exact ⟨fun agrees i hp hq => (each i hp hq).1 (agrees i hq hp),
                fun none i hq hp => (each i hp hq).2 (none i hp hq)⟩

/-- An argument that a parameter matches fully is a subtype of the parameter under the bindings
    exactly if nothing is overlooked. -/
theorem isSubtype_iff_of_full (ground : ∀ entry ∈ last, entry.2.ground h = true)
    (formed : param.wellFormed h = true) (ha : arg.ground h = true)
    (full : (matchParam h param arg bindings).1 = .full)
    (gains : Gains h (matchParam h param arg bindings).2 last) :
    isSubtype h arg (param.substitute last).erase = true ↔
      ¬ Overlooks h last false param arg := by
  have loose : ∀ t, Agrees h false arg t ↔ isSubtype h arg t = true := by
    simp [Agrees]
  cases closed : (param.substitute last).hasVars with
  | false =>
      rw [Ty.erase_of_ground _ (Ty.ground_substitute_of_wellFormed ground formed closed), ← loose]
      exact agrees_iff_of_full ground param formed closed false arg bindings ha full gains
  | true =>
      have vars : param.hasVars = true := by
        by_contra plain
        rw [Bool.not_eq_true] at plain
        rw [Ty.substitute_of_ground _ _ (Ty.ground_of_wellFormed param formed plain), plain] at closed
        cases closed
      cases asWhole : comparedErased param arg with
      | true => rw [overlooks_iff_of_comparedErased vars asWhole, not_not, loose]
      | false =>
          cases param with
          | typeVar name bound =>
              -- the variable is bound to a ground type
              rw [matchParam_typeVar] at full gains
              obtain ⟨-, t, found, -⟩ := matchVar_gains ha full
              have held := gains.keeps name t found
              rw [Ty.substitute, held, Option.getD_some, Ty.hasVars_eq_false_of_ground t
                (ground _ (Assoc.mem_of_find? held))] at closed
              cases closed
          | concrete name ps =>
              -- with a variable left the parameter is erased to the bare type
              obtain ⟨qs, rfl, length⟩ := eq_of_not_comparedErased asWhole
              have bare : (Ty.concrete name []).ground h = true :=
                Ty.ground_concrete.2 ⟨(Ty.wellFormed_concrete.1 formed).1, Or.inl rfl, by simp⟩
              refine iff_of_true ?_ fun overlooked => ?_
              · rw [Ty.substitute, Ty.hasVars] at closed
                rw [Ty.substitute, Ty.erase, if_pos closed]
                exact (concrete_isSubtype_concrete_iff ha bare).2 ⟨rfl, Or.inl rfl⟩
              · cases overlooked with
                | erased _ whole => rw [asWhole] at whole; cases whole
                | inside _ bound => rw [closed] at bound; cases bound
          | _ => cases asWhole

/-! ## Lookups -/

theorem matchArgs_of_full_match {m : Method} {x : Match} (matched : matchMethod h m args = some x)
    (full : x.applicability = .full) :
    m.params.length = args.length ∧
      matchArgs h (m.params.map (·.type)) args [] = (.full, x.bindings) := by
  unfold matchMethod at matched
  split at matched
  · cases matched
  · rename_i length
    cases outcome : matchArgs h (m.params.map (·.type)) args [] with
    | mk applicability bindings =>
        rw [outcome] at matched
        cases applicability with
        | full =>
            cases matched
            exact ⟨not_not.1 length, rfl⟩
        | partly =>
            cases matched
            cases full
        | none => cases matched

theorem matchMethod_of_lookup {args : List Ty} {found : List Match} {x : Match}
    (answer : lookup h table name args = .matched found) (member : x ∈ found) :
    x.method ∈ table.methods ∧ matchMethod h x.method args = some x := by
  have among : x ∈ matching h table name args := by
    rw [lookup_eq] at answer
    split at answer
    · cases answer
    · split at answer
      · cases answer
        exact member
      · split at answer
        case h_1 =>
            cases answer
            exact (mem_fullMatches.1 member).1
        case h_2 best only =>
            cases answer
            rcases List.mem_cons.1 member with rfl | further
            · have top : x ∈ maximal h (fullMatches (matching h table name args)) :=
                only ▸ List.mem_singleton_self x
              exact (mem_fullMatches.1 (mem_maximal.1 top).1).1
            · exact (List.mem_filter.1 further).1
        case h_3 => cases answer
  obtain ⟨inTable, matched⟩ := mem_matching.1 among
  exact ⟨mem_methods_of_mem_methodsOf inTable, matched⟩

/-- Each argument that a method matches fully is a subtype of its parameter under the bindings
    exactly if nothing is overlooked. -/
theorem isSubtype_iff_of_matchMethod {x : Match} (formed : x.method.paramsWellFormed h = true)
    (ground : ∀ t ∈ args, t.ground h = true) (matched : matchMethod h x.method args = some x)
    (full : x.applicability = .full) :
    List.Forall₂ (fun p arg =>
      isSubtype h arg (p.type.substitute x.bindings).erase = true ↔
        ¬ Overlooks h x.bindings false p.type arg) x.method.params args := by
  obtain ⟨length, outcome⟩ := matchArgs_of_full_match matched full
  have fullArgs : (matchArgs h (x.method.params.map (·.type)) args []).1 = .full := by rw [outcome]
  have gains := matchArgs_gains
    (fun p _ arg bindings ha full => matchParam_gains p arg bindings ha full) ground fullArgs
  rw [outcome] at gains
  have parts := forall₂_of_matchArgs (by simpa using length) ground fullArgs
    (by rw [outcome]; exact .refl h x.bindings)
  rw [List.forall₂_map_left_iff] at parts
  have wellFormed := List.all_eq_true.1 formed
  refine List.forall₂_iff_get.2 ⟨parts.length_eq, fun i hp ha => ?_⟩
  obtain ⟨before, matched, kept⟩ := parts.get hp ha
  exact isSubtype_iff_of_full (gains.ground (by simp)) (wellFormed _ (List.get_mem _ ⟨i, hp⟩))
    (ground _ (List.get_mem _ ⟨i, ha⟩)) matched kept

/-- Let a lookup with ground arguments return a method that applies fully. Each argument is a
    subtype of its parameter under the bindings, with what is left of its variables erased, if
    and only if matching it has overlooked nothing. -/
theorem full_match_subtype_iff {found : List Match} {x : Match}
    (formed : ∀ m ∈ table.methods, m.paramsWellFormed h = true)
    (ground : ∀ t ∈ args, t.ground h = true)
    (answer : lookup h table name args = .matched found) (member : x ∈ found)
    (full : x.applicability = .full) :
    List.Forall₂ (fun p arg =>
      isSubtype h arg (p.type.substitute x.bindings).erase = true ↔
        ¬ Overlooks h x.bindings false p.type arg) x.method.params args := by
  obtain ⟨inTable, matched⟩ := matchMethod_of_lookup answer member
  exact isSubtype_iff_of_matchMethod (formed _ inTable) ground matched full

/-- An integer and a vector of integers apply fully to `f(x::T, y::Vector{T}) where T <: Int`, and
    nothing is overlooked. -/
theorem full_match_subtype_iff_vectors :
    vectorMethod.paramsWellFormed numberHierarchy = true ∧
      (∀ t ∈ [Ty.int, .vector .int], t.ground numberHierarchy = true) ∧
      ∃ found x, lookup numberHierarchy (.ofMethods [vectorMethod]) "f" [.int, .vector .int] =
          .matched found ∧ x ∈ found ∧ x.applicability = .full ∧
        List.Forall₂ (fun p arg =>
          isSubtype numberHierarchy arg (p.type.substitute x.bindings).erase = true ↔
            ¬ Overlooks numberHierarchy x.bindings false p.type arg)
          x.method.params [.int, .vector .int] := by
  have formed : vectorMethod.paramsWellFormed numberHierarchy = true := by decide +kernel
  have ground : ∀ t ∈ [Ty.int, .vector .int], t.ground numberHierarchy = true := by decide +kernel
  have computed : (match lookup numberHierarchy (.ofMethods [vectorMethod]) "f"
      [.int, .vector .int] with
      | .matched found => found.any (·.applicability == .full)
      | _ => false) = true := by decide +kernel
  split at computed
  case h_1 found answer =>
      obtain ⟨x, member, full⟩ := List.any_eq_true.1 computed
      rw [beq_iff_eq] at full
      refine ⟨formed, ground, found, x, answer, member, full, ?_⟩
      have each : ∀ m ∈ (MethodTable.ofMethods [vectorMethod]).methods,
          m.paramsWellFormed numberHierarchy = true := by
        intro m only
        rw [MethodTable.ofMethods, List.mem_singleton] at only
        exact only ▸ formed
      exact full_match_subtype_iff each ground answer member full
  case h_2 => cases computed

/-- Where every variable stands alone as a parameter type, full applicability means subtyping. -/
theorem isSubtype_of_full_match_of_alone {found : List Match} {x : Match}
    (formed : ∀ m ∈ table.methods, m.paramsWellFormed h = true)
    (ground : ∀ t ∈ args, t.ground h = true)
    (answer : lookup h table name args = .matched found) (member : x ∈ found)
    (full : x.applicability = .full)
    (alone : ∀ p ∈ x.method.params, p.type.hasVars = true →
      ∃ name bound, p.type = .typeVar name bound) :
    List.Forall₂ (fun p arg => isSubtype h arg (p.type.substitute x.bindings).erase = true)
      x.method.params args := by
  obtain ⟨inTable, matched⟩ := matchMethod_of_lookup answer member
  have each := isSubtype_iff_of_matchMethod (formed _ inTable) ground matched full
  refine List.forall₂_iff_get.2 ⟨each.length_eq, fun i hp ha => (each.get hp ha).2 ?_⟩
  cases vars : (x.method.params.get ⟨i, hp⟩).type.hasVars with
  | false =>
      rw [overlooks_iff_of_closed vars]
      rintro ⟨⟨⟩, -⟩
  | true =>
      obtain ⟨name, bound, equal⟩ := alone _ (List.get_mem _ ⟨i, hp⟩) vars
      rw [equal]
      exact not_overlooks_typeVar

/-! ## Matches that overlook something -/

/-- Whether a lookup returns a method that applies fully although some argument is no subtype of
    its parameter under the bindings. -/
def exceeds (h : Hierarchy) (table : MethodTable) (name : String) (args : List Ty) : Bool :=
  match lookup h table name args with
  | .matched found => found.any fun x => x.applicability == .full &&
      !paramsBelow h args (x.method.params.map fun p => (p.type.substitute x.bindings).erase)
  | _ => false

theorem exists_of_exceeds (beyond : exceeds h table name args = true) :
    ∃ found x, lookup h table name args = .matched found ∧ x ∈ found ∧ x.applicability = .full ∧
      ¬ List.Forall₂ (fun p arg =>
        isSubtype h arg (p.type.substitute x.bindings).erase = true) x.method.params args := by
  unfold exceeds at beyond
  split at beyond
  case h_1 found answer =>
      obtain ⟨x, member, outcome⟩ := List.any_eq_true.1 beyond
      rw [Bool.and_eq_true, beq_iff_eq, Bool.not_eq_true'] at outcome
      refine ⟨found, x, answer, member, outcome.1, fun below => ?_⟩
      have within : paramsBelow h args
          (x.method.params.map fun p => (p.type.substitute x.bindings).erase) = true :=
        paramsBelow_iff.2 (List.forall₂_map_right_iff.2 below.flip)
      rw [outcome.2] at within
      cases within
  case h_2 => cases beyond

/-- Numbers, vectors, and pairs that are invariant in both parts. -/
def pairHierarchy : Hierarchy where
  decls := ⟨"Pair", false, some "Any", [⟨"A", .invariant, .any⟩, ⟨"B", .invariant, .any⟩], none,
    none⟩ :: numberHierarchy.decls

/-- The method `f(x::Pair{T, Number}) where T`. -/
def pairMethod : Method :=
  unary [⟨"T", .any⟩] (.concrete "Pair" [.typeVar "T" .any, .abstract "Number"])

/-- A pair of integers applies fully to `f(x::Pair{T, Number})`, though it is no pair of an integer
    and a number, and to `f(x::T, y::Vector{T}) where T <: Int` an integer and a vector of anything
    apply fully, though that is no vector of integers. -/
theorem full_match_exceeds_parameters :
    pairHierarchy.Declared ∧ pairMethod.paramsWellFormed pairHierarchy = true ∧
      vectorMethod.paramsWellFormed numberHierarchy = true ∧
      (Ty.concrete "Pair" [.int, .int]).ground pairHierarchy = true ∧
      (Ty.concrete "Vector" []).ground numberHierarchy = true ∧
      (∃ found x, lookup pairHierarchy (.ofMethods [pairMethod]) "f"
          [.concrete "Pair" [.int, .int]] = .matched found ∧ x ∈ found ∧
        x.applicability = .full ∧
        ¬ List.Forall₂ (fun p arg =>
          isSubtype pairHierarchy arg (p.type.substitute x.bindings).erase = true)
          x.method.params [.concrete "Pair" [.int, .int]]) ∧
      ∃ found x, lookup numberHierarchy (.ofMethods [vectorMethod]) "f"
          [.int, .concrete "Vector" []] = .matched found ∧ x ∈ found ∧
        x.applicability = .full ∧
        ¬ List.Forall₂ (fun p arg =>
          isSubtype numberHierarchy arg (p.type.substitute x.bindings).erase = true)
          x.method.params [.int, .concrete "Vector" []] := by
  have declared : pairHierarchy.Declared :=
    Hierarchy.Declared.declareAll pairHierarchy.decls.dropLast.reverse .initial rfl
  exact ⟨declared, by decide +kernel, by decide +kernel, by decide +kernel, by decide +kernel,
    exists_of_exceeds (by decide +kernel), exists_of_exceeds (by decide +kernel)⟩

end Multimethod.Dispatch
