import Multimethod.Lattice.Bounds

/-!
# Widening

A position that keeps changing its type is widened to the nearest common abstract ancestor of
the types it has taken. The nearest ancestor of two types is never larger than both together,
which bounds the fold over the members of a union.
-/

namespace Multimethod.Lattice

/-- The nearest abstract ancestor of the declared type `name` that lies above `b`, or the
    top. -/
def nominalAncestor (h : Hierarchy) (name : String) (b : Ty) : Ty :=
  let known := (h.ancestors name).takeWhile fun n => n != "Any" && h.has n
  match known.find? fun n =>
      ((h.find? n).map (·.isAbstract)).getD false && isSubtype h b (.abstract n) with
  | some n => .abstract n
  | none => .any

theorem size_nominalAncestor (h : Hierarchy) (name : String) (b : Ty) :
    (nominalAncestor h name b).size = 1 := by
  unfold nominalAncestor
  dsimp only
  split <;> simp [Ty.size]

theorem size_nominalAncestor_le {a : Ty} (h : Hierarchy) (name : String) (b c : Ty) :
    (nominalAncestor h name c).size ≤ a.size + b.size := by
  have := a.size_pos
  rw [size_nominalAncestor]
  omega

theorem size_any_le (a b : Ty) : Ty.any.size ≤ a.size + b.size := by
  have := a.size_pos
  simp only [Ty.size]
  omega

theorem size_le_union {t b : Ty} {ms : List Ty} (h : t.size ≤ b.size + Ty.sizes ms) :
    t.size ≤ (Ty.union ms).size + b.size := by
  simp only [Ty.size]
  omega

theorem size_le_of_union {t a : Ty} {ms : List Ty} (h : t.size ≤ a.size + Ty.sizes ms) :
    t.size ≤ a.size + (Ty.union ms).size := by
  simp only [Ty.size]
  omega

theorem size_le_typeVar {t bound b : Ty} {name : String} (h : t.size ≤ bound.size + b.size) :
    t.size ≤ (Ty.typeVar name bound).size + b.size := by
  simp only [Ty.size]
  omega

theorem size_le_of_typeVar {t a bound : Ty} {name : String} (h : t.size ≤ a.size + bound.size) :
    t.size ≤ a.size + (Ty.typeVar name bound).size := by
  simp only [Ty.size]
  omega

theorem size_concrete_le {ts ps qs : List Ty} {name other : String}
    (h : Ty.sizes ts ≤ Ty.sizes ps + Ty.sizes qs) :
    (Ty.concrete name ts).size ≤ (Ty.concrete name ps).size + (Ty.concrete other qs).size := by
  simp only [Ty.size]
  omega

theorem size_le_cons {t next acc m : Ty} {ms : List Ty} (h : next.size ≤ acc.size + m.size)
    (h' : t.size ≤ next.size + Ty.sizes ms) : t.size ≤ acc.size + Ty.sizes (m :: ms) := by
  simp only [Ty.sizes]
  omega

theorem sizes_cons_le {t p q : Ty} {ts ps qs : List Ty} (h : t.size ≤ p.size + q.size)
    (h' : Ty.sizes ts ≤ Ty.sizes ps + Ty.sizes qs) :
    Ty.sizes (t :: ts) ≤ Ty.sizes (p :: ps) + Ty.sizes (q :: qs) := by
  simp only [Ty.sizes]
  omega

mutual

/-- The nearest common ancestor of two types, with a bound on its size. -/
def ancestorOf (h : Hierarchy) (a b : Ty) : { t : Ty // t.size ≤ a.size + b.size } :=
  if isSubtype h a b then ⟨b, Nat.le_add_left _ _⟩
  else if isSubtype h b a then ⟨a, Nat.le_add_right _ _⟩
  else
    match a, b with
    | .union ms, b =>
        let r := ancestorOfAll h b ms
        ⟨r.1, size_le_union r.2⟩
    | a, .union ms =>
        let r := ancestorOfAll h a ms
        ⟨r.1, size_le_of_union r.2⟩
    | .typeVar _ bound, b =>
        let r := ancestorOf h bound b
        ⟨r.1, size_le_typeVar r.2⟩
    | a, .typeVar _ bound =>
        let r := ancestorOf h a bound
        ⟨r.1, size_le_of_typeVar r.2⟩
    | .concrete name ps, .concrete other qs =>
        if name == other && !ps.isEmpty && ps.length == qs.length && h.allCovariant name then
          let r := ancestorOfArgs h ps qs
          ⟨.concrete name r.1, size_concrete_le r.2⟩
        else ⟨nominalAncestor h name (.concrete other qs), size_nominalAncestor_le h name _ _⟩
    | .concrete name _, b => ⟨nominalAncestor h name b, size_nominalAncestor_le h name _ _⟩
    | .abstract name, b => ⟨nominalAncestor h name b, size_nominalAncestor_le h name _ _⟩
    | a, b => ⟨.any, size_any_le a b⟩
  termination_by a.size + b.size
  decreasing_by all_goals simp only [Ty.size]; omega

/-- Folds the nearest common ancestor over a list, starting from `acc`. -/
def ancestorOfAll (h : Hierarchy) (acc : Ty) (ms : List Ty) :
    { t : Ty // t.size ≤ acc.size + Ty.sizes ms } :=
  match ms with
  | [] => ⟨acc, Nat.le_add_right _ _⟩
  | m :: ms =>
      match ancestorOf h acc m with
      | ⟨next, hnext⟩ =>
          let r := ancestorOfAll h next ms
          ⟨r.1, size_le_cons hnext r.2⟩
  termination_by acc.size + Ty.sizes ms
  decreasing_by all_goals simp only [Ty.sizes]; omega

/-- The nearest common ancestors of two argument lists, position by position. -/
def ancestorOfArgs (h : Hierarchy) (ps qs : List Ty) :
    { ts : List Ty // Ty.sizes ts ≤ Ty.sizes ps + Ty.sizes qs } :=
  match ps, qs with
  | p :: ps, q :: qs =>
      let r := ancestorOf h p q
      let rs := ancestorOfArgs h ps qs
      ⟨r.1 :: rs.1, sizes_cons_le r.2 rs.2⟩
  | _, _ => ⟨[], Nat.zero_le _⟩
  termination_by Ty.sizes ps + Ty.sizes qs
  decreasing_by all_goals simp only [Ty.sizes]; omega

end

/-- The nearest common ancestor of two types; the top when there is none closer. -/
def commonAncestor (h : Hierarchy) (a b : Ty) : Ty :=
  (ancestorOf h a b).1

/-- How many distinct types a position may take before it is widened, unless stated
    otherwise. -/
def defaultWideningThreshold : Nat := 3

/-- The type of a position that has taken the types of `history`. Up to `threshold` distinct
    types are joined exactly; beyond that the result is their nearest common abstract ancestor,
    or the top. -/
def widen (h : Hierarchy) (history : List Ty) (threshold : Nat) : Ty :=
  let taken := Ty.distinct history
  if taken.length ≤ threshold then joinAll h taken
  else
    match taken with
    | [] => .bottom
    | first :: others =>
        match others.foldl (commonAncestor h) first with
        | .abstract name => .abstract name
        | _ => .any

end Multimethod.Lattice
