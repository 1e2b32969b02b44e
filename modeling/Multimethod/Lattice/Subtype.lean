import Multimethod.Hierarchy

/-!
# The subtype order

`isSubtype h a b` holds when every value of `a` is a value of `b`, as far as the declarations
of `h` tell. Declared names compare by ancestry; instances of one parametric type compare
argument by argument, covariant ones by the order itself and invariant ones by the order in
both directions. A bare parametric name stands above all its instances.
-/

namespace Multimethod.Lattice

mutual

/-- Whether `a` is a subtype of `b`. -/
def isSubtype (h : Hierarchy) (a b : Ty) : Bool :=
  if a.same b then true
  else
    match a, b with
    | .bottom, _ => true
    | _, .any => true
    | .any, _ => false
    | .union ms, b => allBelow h ms b
    | .typeVar _ bound, b => isSubtype h bound b
    | a, .union ms => belowSome h a ms
    | a, .typeVar _ bound => isSubtype h a bound
    | _, .bottom => false
    | .concrete name _, .abstract above => h.isAncestor above name
    | .abstract name, .abstract above => h.isAncestor above name
    | .concrete name ps, .concrete other qs =>
        name == other && (qs.isEmpty || argsBelow h (h.paramsOf other) ps qs)
    | .abstract _, .concrete _ _ => false
  termination_by a.size + b.size
  decreasing_by all_goals simp only [Ty.size]; omega

/-- Whether every type of a list is a subtype of `b`. -/
def allBelow (h : Hierarchy) (ms : List Ty) (b : Ty) : Bool :=
  match ms with
  | [] => true
  | m :: ms => isSubtype h m b && allBelow h ms b
  termination_by Ty.sizes ms + b.size
  decreasing_by all_goals simp only [Ty.sizes]; omega

/-- Whether `a` is a subtype of some type of a list. -/
def belowSome (h : Hierarchy) (a : Ty) (ms : List Ty) : Bool :=
  match ms with
  | [] => false
  | m :: ms => isSubtype h a m || belowSome h a ms
  termination_by a.size + Ty.sizes ms
  decreasing_by all_goals simp only [Ty.sizes]; omega

/-- Whether two argument lists of one length compare position by position. Positions beyond
    the declared parameters are invariant. -/
def argsBelow (h : Hierarchy) (params : List TypeParam) (ps qs : List Ty) : Bool :=
  match params, ps, qs with
  | _, [], [] => true
  | [], p :: ps, q :: qs => isSubtype h p q && isSubtype h q p && argsBelow h [] ps qs
  | param :: params, p :: ps, q :: qs =>
      isSubtype h p q && (param.variance == .covariant || isSubtype h q p)
        && argsBelow h params ps qs
  | _, _, _ => false
  termination_by Ty.sizes ps + Ty.sizes qs
  decreasing_by all_goals simp only [Ty.sizes]; omega

end

/-- Whether two types are subtypes of each other. -/
def equivalent (h : Hierarchy) (a b : Ty) : Bool :=
  isSubtype h a b && isSubtype h b a

end Multimethod.Lattice
