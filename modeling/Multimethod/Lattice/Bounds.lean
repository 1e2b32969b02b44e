import Multimethod.Lattice.Subtype

/-!
# Bounds and differences

Unions are elements of the lattice, so the least upper bound of unrelated types is their
union without the members that another member covers.
-/

namespace Multimethod.Lattice

/-- Whether another of the members `ms` makes `m` superfluous: it lies strictly above, or it
    is equivalent and its id comes first. -/
def covered (h : Hierarchy) (ms : List Ty) (m : Ty) : Bool :=
  ms.any fun other =>
    !other.same m && isSubtype h m other
      && (!isSubtype h other m || unitsBefore other.id m.id)

/-- Drops the covered members of a union. -/
def normalize (h : Hierarchy) : Ty → Ty
  | .union ms => Ty.unionOf (ms.filter fun m => !covered h ms m)
  | t => t

/-- The least upper bound of two types. -/
def join (h : Hierarchy) (a b : Ty) : Ty :=
  if isSubtype h a b then b
  else if isSubtype h b a then a
  else normalize h (Ty.unionOf [a, b])

/-- The least upper bound of a list of types. -/
def joinAll (h : Hierarchy) (ts : List Ty) : Ty :=
  ts.foldl (join h) .bottom

mutual

/-- The greatest lower bound of two types. Unrelated declared types have no instance in
    common, since every type has a single supertype. -/
def meet (h : Hierarchy) (a b : Ty) : Ty :=
  if isSubtype h a b then a
  else if isSubtype h b a then b
  else
    match a, b with
    | .union ms, b => joinAll h (meetEach h ms b)
    | a, .union ms => joinAll h (meetWithEach h a ms)
    | .typeVar _ bound, b => meet h bound b
    | a, .typeVar _ bound => meet h a bound
    | .concrete name ps, .concrete other qs =>
        if name == other && ps.length == qs.length && h.allCovariant name then
          let args := meetArgs h ps qs
          if args.any Ty.isBottom then .bottom else .concrete name args
        else .bottom
    | _, _ => .bottom
  termination_by a.size + b.size
  decreasing_by all_goals simp only [Ty.size]; omega

/-- The greatest lower bounds of each type of a list with `b`. -/
def meetEach (h : Hierarchy) (ms : List Ty) (b : Ty) : List Ty :=
  match ms with
  | [] => []
  | m :: ms => meet h m b :: meetEach h ms b
  termination_by Ty.sizes ms + b.size
  decreasing_by all_goals simp only [Ty.sizes]; omega

/-- The greatest lower bounds of `a` with each type of a list. -/
def meetWithEach (h : Hierarchy) (a : Ty) (ms : List Ty) : List Ty :=
  match ms with
  | [] => []
  | m :: ms => meet h a m :: meetWithEach h a ms
  termination_by a.size + Ty.sizes ms
  decreasing_by all_goals simp only [Ty.sizes]; omega

/-- The greatest lower bounds of two argument lists, position by position. -/
def meetArgs (h : Hierarchy) (ps qs : List Ty) : List Ty :=
  match ps, qs with
  | p :: ps, q :: qs => meet h p q :: meetArgs h ps qs
  | _, _ => []
  termination_by Ty.sizes ps + Ty.sizes qs
  decreasing_by all_goals simp only [Ty.sizes]; omega

end

/-- Whether two types have a value in common. -/
def overlaps (h : Hierarchy) (a b : Ty) : Bool :=
  !(meet h a b).isBottom

mutual

/-- The part of `a` that is no subtype of `b`. -/
def subtract (h : Hierarchy) (a b : Ty) : Ty :=
  if isSubtype h a b then .bottom
  else
    match a with
    | .union ms => joinAll h (subtractEach h ms b)
    | a => a

/-- What is left of each type of a list. -/
def subtractEach (h : Hierarchy) (ms : List Ty) (b : Ty) : List Ty :=
  match ms with
  | [] => []
  | m :: ms => subtract h m b :: subtractEach h ms b

end

end Multimethod.Lattice
