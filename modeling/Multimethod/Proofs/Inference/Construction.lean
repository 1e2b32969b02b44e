import Multimethod.Inference.Construction
import Multimethod.Proofs.Inference.Grounding
import Multimethod.Proofs.Inference.Probe
import Multimethod.Proofs.Lattice.Positions

/-!
# Constructed instances

What an instance says about the arguments that it was made from. If every parameter of the struct is
bound, the arguments convert to the fields of the instance as they are read from it. Otherwise the
instance is the bare type, whose fields are read with the bounds of the parameters.
-/

namespace Multimethod

open Multimethod.Lattice

/-! ## The fields of a compiled unit -/

namespace Lowering

variable {s : Scope}

end Lowering

namespace Hierarchy

variable {params : List TypeParam} {args : List Ty} {bindings known : Assoc Ty} {name : String}

end Hierarchy

namespace Ty

end Ty

/-! ## Fields that rise with their parameters -/

namespace Lattice

variable {h : Hierarchy}

/-- Whether a type mentions variables in covariant positions only. -/
inductive Rising (h : Hierarchy) : Ty → Prop where
  | ground {t : Ty} (ground : t.ground h = true) : Rising h t
  | param (name : String) (bound : Ty) : Rising h (.typeVar name bound)
  | applied {name : String} {ps : List Ty} (declared : h.hasConcrete name = true)
      (fits : ps = [] ∨ ps.length = (h.paramsOf name).length)
      (covariant : ∀ i (hp : i < ps.length),
        (h.paramsOf name)[i]?.any (·.variance == .covariant) = true ∨ ps[i].ground h = true)
      (args : ∀ p ∈ ps, Rising h p) : Rising h (.concrete name ps)
  | union {ms : List Ty} (members : ∀ m ∈ ms, Rising h m) : Rising h (.union ms)

/-- Where variables are bound to types below other ones, a type that rises with them lies below what
    it is with the others. -/
theorem Rising.substitute_isSubtype {low high : Assoc Ty} {t : Ty} (rising : Rising h t)
    (ordered : Hierarchy.Ordered h.decls)
    (below : ∀ v ∈ t.vars, ∃ a b, low.find? v.name = some a ∧ high.find? v.name = some b ∧
      a.ground h = true ∧ b.ground h = true ∧ isSubtype h a b = true) :
    (t.substitute low).ground h = true ∧ (t.substitute high).ground h = true ∧
      isSubtype h (t.substitute low) (t.substitute high) = true := by
  induction rising with
  | ground ground =>
      rw [Ty.substitute_of_ground low _ ground, Ty.substitute_of_ground high _ ground]
      exact ⟨ground, ground, isSubtype_refl h _⟩
  | param =>
      obtain ⟨a, b, foundLow, foundHigh, here⟩ := below _ (List.mem_singleton_self _)
      simpa only [Ty.substitute, foundLow, foundHigh, Option.getD_some] using here
  | @applied name ps declared fits covariant args ih =>
      refine concrete_substitute_isSubtype declared fits
        (fun p hp => ih p hp fun v hv => below v (Ty.mem_allVars.2 ⟨p, hp, hv⟩)) fun i hi => ?_
      refine (covariant i hi).imp_right fun ground => ?_
      rw [Ty.substitute_of_ground low _ ground, Ty.substitute_of_ground high _ ground]
      exact isSubtype_refl h _
  | @union ms members ih =>
      exact union_substitute_isSubtype ordered fun m hm =>
        ih m hm fun v hv => below v (Ty.mem_allVars.2 ⟨m, hm, hv⟩)

end Lattice

namespace Inference

variable {h : Hierarchy} {name : String} {args declared : List Ty} {actual : Ty}
  {bindings next last : Assoc Ty} {params : List TypeParam} {call : String} {loc : Location}

/-! ## Binding parameters -/

/-- Whether all bindings are to ground types. -/
def GroundBindings (h : Hierarchy) (bindings : Assoc Ty) : Prop :=
  ∀ entry ∈ bindings, entry.2.ground h = true

/-- Whether what is bound stays bound, to a type above the former one. -/
def BoundAbove (h : Hierarchy) (bindings next : Assoc Ty) : Prop :=
  ∀ name t, bindings.find? name = some t →
    ∃ u, next.find? name = some u ∧ isSubtype h t u = true

theorem BoundAbove.refl (h : Hierarchy) (bindings : Assoc Ty) : BoundAbove h bindings bindings :=
  fun _ t found => ⟨t, found, isSubtype_refl h t⟩

theorem BoundAbove.trans (ordered : Hierarchy.Ordered h.decls) (ground : GroundBindings h bindings)
    (groundNext : GroundBindings h next) (groundLast : GroundBindings h last)
    (first : BoundAbove h bindings next) (second : BoundAbove h next last) :
    BoundAbove h bindings last := by
  intro name t found
  obtain ⟨u, foundNext, below⟩ := first name t found
  obtain ⟨w, foundLast, above⟩ := second name u foundNext
  exact ⟨w, foundLast, isSubtype_trans ordered (ground _ (Assoc.mem_of_find? found))
    (groundNext _ (Assoc.mem_of_find? foundNext)) (groundLast _ (Assoc.mem_of_find? foundLast))
    below above⟩

/-- Meeting a variable binds it to a type above the actual one, and above what it was bound to. -/
theorem boundAbove_typeVar (ordered : Hierarchy.Ordered h.decls) (name : String) (bound : Ty)
    (groundActual : actual.ground h = true) (ground : GroundBindings h bindings) :
    GroundBindings h (bindVars h (.typeVar name bound) actual bindings) ∧
      BoundAbove h bindings (bindVars h (.typeVar name bound) actual bindings) ∧
      ∃ u, (bindVars h (.typeVar name bound) actual bindings).find? name = some u ∧
        isSubtype h actual u = true := by
  rw [bindVars]
  cases found : bindings.find? name with
  | some existing =>
      dsimp only
      have groundExisting := ground _ (Assoc.mem_of_find? found)
      obtain ⟨left, right⟩ := isSubtype_join ordered groundExisting groundActual
      refine ⟨Assoc.forall_mem_insert (fun t : Ty => t.ground h = true) ground
        (ground_join groundExisting groundActual), fun other t bound => ?_,
        _, (Assoc.find?_insert ..).trans (if_pos rfl), right⟩
      rw [Assoc.find?_insert]
      split
      · rename_i same
        subst same
        cases found.symm.trans bound
        exact ⟨_, rfl, left⟩
      · exact ⟨t, bound, isSubtype_refl h t⟩
  | none =>
      dsimp only
      refine ⟨Assoc.forall_mem_insert (fun t : Ty => t.ground h = true) ground groundActual,
        fun other t bound => ?_, _, (Assoc.find?_insert ..).trans (if_pos rfl),
        isSubtype_refl h actual⟩
      rw [Assoc.find?_insert, if_neg fun same => by simp [← same, found] at bound]
      exact ⟨t, bound, isSubtype_refl h t⟩

mutual

/-- Binding the variables of a declared type keeps what is bound, or raises it. -/
theorem boundAbove_bindVars (ordered : Hierarchy.Ordered h.decls) (declared : Ty) {actual : Ty}
    (groundActual : actual.ground h = true) {bindings : Assoc Ty}
    (ground : GroundBindings h bindings) :
    GroundBindings h (bindVars h declared actual bindings) ∧
      BoundAbove h bindings (bindVars h declared actual bindings) := by
  match declared with
  | .typeVar name bound =>
      obtain ⟨groundNext, above, -⟩ :=
        boundAbove_typeVar ordered name bound groundActual ground
      exact ⟨groundNext, above⟩
  | .concrete name ps =>
      rw [bindVars.eq_def]
      dsimp only
      split
      · split
        · exact boundAbove_bindAllVars ordered ps (Ty.ground_concrete.1 groundActual).2.2 ground
        · exact ⟨ground, .refl h bindings⟩
      · exact ⟨ground, .refl h bindings⟩
  | .any | .bottom | .abstract _ | .union _ =>
      rw [bindVars.eq_def]
      exact ⟨ground, .refl h bindings⟩

theorem boundAbove_bindAllVars (ordered : Hierarchy.Ordered h.decls) (declared : List Ty)
    {args : List Ty} (groundArgs : ∀ a ∈ args, a.ground h = true) {bindings : Assoc Ty}
    (ground : GroundBindings h bindings) :
    GroundBindings h (bindAllVars h declared args bindings) ∧
      BoundAbove h bindings (bindAllVars h declared args bindings) := by
  rw [bindAllVars.eq_def]
  match declared, args with
  | d :: ds, a :: as =>
      rw [List.forall_mem_cons] at groundArgs
      obtain ⟨groundNext, first⟩ := boundAbove_bindVars ordered d groundArgs.1 ground
      obtain ⟨groundLast, rest⟩ := boundAbove_bindAllVars ordered ds groundArgs.2 groundNext
      exact ⟨groundLast, first.trans ordered ground groundNext groundLast rest⟩
  | [], _ => exact ⟨ground, .refl h bindings⟩
  | _ :: _, [] => exact ⟨ground, .refl h bindings⟩

end

variable {decl : TypeDecl} {fields : Assoc Ty}

namespace Examples

end Examples

end Inference

end Multimethod
