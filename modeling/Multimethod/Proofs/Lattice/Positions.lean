import Multimethod.Proofs.Lattice.Join
import Multimethod.Proofs.Ty.Substitution

/-!
# Positions of variables

A type rises with what its variables are bound to, as long as they stand in covariant positions. In
any other position both bindings have to agree: there the order is asked for in both directions, and
each direction is the law itself with the bindings exchanged.
-/

namespace Multimethod.Lattice

/-- Whether a type has a variable of a name in a position that is not covariant. -/
inductive Fixed (h : Hierarchy) (var : String) : Ty → Prop where
  | arg {name : String} {ps : List Ty} {i : Nat} (hi : i < ps.length)
      (invariant : ¬ (h.paramsOf name)[i]?.any (·.variance == .covariant) = true)
      (mentioned : var ∈ ps[i].vars.map (·.name)) : Fixed h var (.concrete name ps)
  | inside {name : String} {ps : List Ty} {p : Ty} (hp : p ∈ ps) (fixed : Fixed h var p) :
      Fixed h var (.concrete name ps)
  | member {ms : List Ty} {m : Ty} (hm : m ∈ ms) (fixed : Fixed h var m) :
      Fixed h var (.union ms)

/-- Whether the variables of a type are bound to lower ground types by `low` than by `high`, and to
    equivalent ones where that matters. -/
def BoundBelow (h : Hierarchy) (t : Ty) (low high : Assoc Ty) : Prop :=
  ∀ v ∈ t.vars, ∃ a b, low.find? v.name = some a ∧ high.find? v.name = some b ∧
    a.ground h = true ∧ b.ground h = true ∧ isSubtype h a b = true ∧
      (Fixed h v.name t → isSubtype h b a = true)

variable {h : Hierarchy} {clause : List TypeVar} {low high : Assoc Ty} {name var : String}
  {ps ms : List Ty} {t m : Ty}

theorem Fixed.mem_vars (fixed : Fixed h var t) : var ∈ t.vars.map (·.name) := by
  have inside : ∀ {p : Ty} {ts : List Ty}, p ∈ ts → var ∈ p.vars.map (·.name) →
      var ∈ (Ty.allVars ts).map (·.name) := fun hp mentioned => by
    obtain ⟨v, hv, named⟩ := List.mem_map.1 mentioned
    exact List.mem_map.2 ⟨v, Ty.mem_allVars.2 ⟨_, hp, hv⟩, named⟩
  induction fixed with
  | arg hi _ mentioned => exact inside (List.getElem_mem hi) mentioned
  | inside hp _ ih => exact inside hp ih
  | member hm _ ih => exact inside hm ih

theorem BoundBelow.inside (below : BoundBelow h (.concrete name ps) low high) {p : Ty}
    (hp : p ∈ ps) : BoundBelow h p low high := by
  intro v mentioned
  obtain ⟨a, b, foundA, foundB, groundA, groundB, order, fixed⟩ :=
    below v (Ty.mem_allVars.2 ⟨p, hp, mentioned⟩)
  exact ⟨a, b, foundA, foundB, groundA, groundB, order, fun further =>
    fixed (.inside hp further)⟩

theorem BoundBelow.member (below : BoundBelow h (.union ms) low high) (hm : m ∈ ms) :
    BoundBelow h m low high := by
  intro v mentioned
  obtain ⟨a, b, foundA, foundB, groundA, groundB, order, fixed⟩ :=
    below v (Ty.mem_allVars.2 ⟨m, hm, mentioned⟩)
  exact ⟨a, b, foundA, foundB, groundA, groundB, order, fun further =>
    fixed (.member hm further)⟩

/-- In a position that is not covariant the bindings may be exchanged. -/
theorem BoundBelow.exchange (below : BoundBelow h (.concrete name ps) low high) {i : Nat}
    (hi : i < ps.length)
    (invariant : ¬ (h.paramsOf name)[i]?.any (·.variance == .covariant) = true) :
    BoundBelow h ps[i] high low := by
  intro v mentioned
  obtain ⟨a, b, foundA, foundB, groundA, groundB, order, fixed⟩ :=
    below v (Ty.mem_allVars.2 ⟨_, List.getElem_mem hi, mentioned⟩)
  exact ⟨b, a, foundB, foundA, groundB, groundA,
    fixed (.arg hi invariant (List.mem_map_of_mem mentioned)), fun _ => order⟩

/-! ## Substitution -/

/-- An instance lies below what it is with other bindings if its arguments do, in both directions
    where their position is not covariant. -/
theorem concrete_substitute_isSubtype (declared : h.hasConcrete name = true)
    (fits : ps = [] ∨ ps.length = (h.paramsOf name).length)
    (each : ∀ p ∈ ps, (p.substitute low).ground h = true ∧ (p.substitute high).ground h = true ∧
      isSubtype h (p.substitute low) (p.substitute high) = true)
    (fixed : ∀ i (hi : i < ps.length),
      (h.paramsOf name)[i]?.any (·.variance == .covariant) = true ∨
        isSubtype h (ps[i].substitute high) (ps[i].substitute low) = true) :
    ((Ty.concrete name ps).substitute low).ground h = true ∧
      ((Ty.concrete name ps).substitute high).ground h = true ∧
      isSubtype h ((Ty.concrete name ps).substitute low)
        ((Ty.concrete name ps).substitute high) = true := by
  rw [Ty.substitute, Ty.substitute, Ty.substituteAll_eq_map, Ty.substituteAll_eq_map]
  have groundLow : (Ty.concrete name (ps.map (Ty.substitute low))).ground h = true :=
    Ty.ground_concrete.2 ⟨declared, by simpa using fits,
      List.forall_mem_map.2 fun p hp => (each p hp).1⟩
  have groundHigh : (Ty.concrete name (ps.map (Ty.substitute high))).ground h = true :=
    Ty.ground_concrete.2 ⟨declared, by simpa using fits,
      List.forall_mem_map.2 fun p hp => (each p hp).2.1⟩
  refine ⟨groundLow, groundHigh, (concrete_isSubtype_concrete_iff groundLow groundHigh).2
    ⟨rfl, .inr (argsBelow_iff.2 ⟨by simp, fun i hi _ => ?_⟩)⟩⟩
  rw [List.length_map] at hi
  rw [List.getElem_map, List.getElem_map]
  exact ⟨(each _ (List.getElem_mem hi)).2.2, fixed i hi⟩

/-- A union lies below what it is with other bindings if its members do. -/
theorem union_substitute_isSubtype (ordered : Hierarchy.Ordered h.decls)
    (each : ∀ m ∈ ms, (m.substitute low).ground h = true ∧ (m.substitute high).ground h = true ∧
      isSubtype h (m.substitute low) (m.substitute high) = true) :
    ((Ty.union ms).substitute low).ground h = true ∧
      ((Ty.union ms).substitute high).ground h = true ∧
      isSubtype h ((Ty.union ms).substitute low) ((Ty.union ms).substitute high) = true := by
  rw [Ty.substitute, Ty.substitute, Ty.substituteAll_eq_map, Ty.substituteAll_eq_map]
  have groundLow : ∀ t ∈ ms.map (Ty.substitute low), t.ground h = true :=
    List.forall_mem_map.2 fun m hm => (each m hm).1
  have groundHigh : ∀ t ∈ ms.map (Ty.substitute high), t.ground h = true :=
    List.forall_mem_map.2 fun m hm => (each m hm).2.1
  have ground := Ty.ground_unionOf groundHigh
  refine ⟨Ty.ground_unionOf groundLow, ground, unionOf_isSubtype groundLow ground ?_⟩
  refine List.forall_mem_map.2 fun m hm => ?_
  exact isSubtype_trans ordered (each m hm).1 (each m hm).2.1 ground (each m hm).2.2
    (isSubtype_unionOf_of_mem groundHigh (List.mem_map.2 ⟨m, hm, rfl⟩))

/-- Where variables are bound to types below other ones, a type lies below what it is with the
    others. -/
theorem substitute_isSubtype (ordered : Hierarchy.Ordered h.decls) (t : Ty)
    (inScope : t.Scoped h clause) (below : BoundBelow h t low high) :
    (t.substitute low).ground h = true ∧ (t.substitute high).ground h = true ∧
      isSubtype h (t.substitute low) (t.substitute high) = true := by
  induction t using Ty.parts_induction generalizing low high with
  | any => exact ⟨rfl, rfl, isSubtype_refl h _⟩
  | bottom => exact ⟨rfl, rfl, isSubtype_refl h _⟩
  | abstract name => exact ⟨inScope, inScope, isSubtype_refl h _⟩
  | typeVar name bound ih =>
      obtain ⟨a, b, foundA, foundB, groundA, groundB, order, -⟩ :=
        below _ (List.mem_singleton_self _)
      simpa only [Ty.substitute, foundA, foundB, Option.getD_some] using
        And.intro groundA (And.intro groundB order)
  | concrete name ps ih =>
      obtain ⟨declared, fits, args⟩ := inScope
      rw [Ty.allScoped_iff] at args
      refine concrete_substitute_isSubtype declared fits
        (fun p hp => ih p hp (args p hp) (below.inside hp)) fun i hi => ?_
      refine or_iff_not_imp_left.2 fun invariant => ?_
      have hp := List.getElem_mem hi
      exact (ih _ hp (args _ hp) (below.exchange hi invariant)).2.2
  | union ms ih =>
      have members := Ty.allScoped_iff.1 inScope.2
      exact union_substitute_isSubtype ordered fun m hm =>
        ih m hm (members m hm) (below.member hm)

end Multimethod.Lattice
