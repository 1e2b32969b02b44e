import Multimethod.Lattice.Subtype
import Multimethod.Proofs.Hierarchy.Ancestry
import Multimethod.Proofs.Ty.Ground

/-!
# Deciding subtypes

What `isSubtype` decides on well-formed ground types, one rule per pair of type formers. The
test for equal ids in front of the rules never disagrees with them there, so the rules can be
read as equivalences.
-/

namespace Multimethod.Lattice

variable {h : Hierarchy} {a b : Ty} {name other : String} {ms ps qs : List Ty}
  {params : List TypeParam}

theorem isSubtype_refl (h : Hierarchy) (a : Ty) : isSubtype h a a = true := by
  unfold isSubtype
  simp

@[simp] theorem bottom_isSubtype (h : Hierarchy) (b : Ty) : isSubtype h .bottom b = true := by
  unfold isSubtype
  simp

theorem isSubtype_of_isBottom (empty : a.isBottom = true) (c : Ty) : isSubtype h a c = true := by
  cases a with
  | bottom => exact bottom_isSubtype h c
  | _ => cases empty

@[simp] theorem isSubtype_any (h : Hierarchy) (a : Ty) : isSubtype h a .any = true := by
  unfold isSubtype
  cases a <;> simp

/-- The bare name of a type stands above all its instances. -/
theorem isSubtype_bare (h : Hierarchy) (name : String) (ps : List Ty) :
    isSubtype h (.concrete name ps) (.concrete name []) = true := by
  unfold isSubtype
  simp

theorem allBelow_iff : allBelow h ms b = true ↔ ∀ m ∈ ms, isSubtype h m b = true := by
  induction ms with
  | nil => simp [allBelow]
  | cons m ms ih => simp [allBelow, ih]

theorem belowSome_iff : belowSome h a ms = true ↔ ∃ m ∈ ms, isSubtype h a m = true := by
  induction ms with
  | nil => simp [belowSome]
  | cons m ms ih => simp [belowSome, ih]

theorem isSubtype_of_same (same : a.same b = true) : isSubtype h a b = true := by
  rw [isSubtype.eq_def, if_pos same]

theorem union_isSubtype_of_forall (below : ∀ m ∈ ms, isSubtype h m b = true) :
    isSubtype h (.union ms) b = true := by
  rw [isSubtype.eq_def]
  split
  · rfl
  · cases b with
    | any => rfl
    | _ => exact allBelow_iff.2 below

/-- The first position counts as covariant if it is declared so. -/
theorem argsBelow_cons {p q : Ty} :
    argsBelow h params (p :: ps) (q :: qs) = true ↔
      isSubtype h p q = true ∧
        (params[0]?.any (·.variance == .covariant) = true ∨ isSubtype h q p = true) ∧
        argsBelow h params.tail ps qs = true := by
  cases params <;> simp [argsBelow, and_assoc]

/-- Argument lists of one length compare position by position, in both directions where the
    position is not declared covariant. -/
theorem argsBelow_iff :
    argsBelow h params ps qs = true ↔
      ps.length = qs.length ∧ ∀ i (hp : i < ps.length) (hq : i < qs.length),
        isSubtype h ps[i] qs[i] = true ∧
          (params[i]?.any (·.variance == .covariant) = true ∨
            isSubtype h qs[i] ps[i] = true) := by
  induction ps generalizing params qs with
  | nil => cases qs <;> cases params <;> simp [argsBelow]
  | cons p ps ih =>
      cases qs with
      | nil => cases params <;> simp [argsBelow]
      | cons q qs =>
          rw [argsBelow_cons, ih]
          constructor
          · rintro ⟨first, variance, length, rest⟩
            refine ⟨by simp [length], fun i hp hq => ?_⟩
            cases i with
            | zero => exact ⟨first, variance⟩
            | succ i => simpa using rest i (by simpa using hp) (by simpa using hq)
          · rintro ⟨length, all⟩
            obtain ⟨first, variance⟩ := all 0 (by simp) (by simp)
            refine ⟨first, variance, by simpa using length, fun i hp hq => ?_⟩
            simpa only [List.getElem_cons_succ, List.getElem?_tail] using
              all (i + 1) (Nat.succ_lt_succ hp) (Nat.succ_lt_succ hq)

theorem length_eq_of_argsBelow (below : argsBelow h params ps qs = true) :
    ps.length = qs.length :=
  (argsBelow_iff.1 below).1

theorem argsBelow_refl (h : Hierarchy) (params : List TypeParam) (ps : List Ty) :
    argsBelow h params ps ps = true :=
  argsBelow_iff.2 ⟨rfl, fun i hp _ => ⟨isSubtype_refl h ps[i], Or.inr (isSubtype_refl h ps[i])⟩⟩

/-! ## The rules, pair by pair -/

theorem not_same_of_ne (ha : a.ground h = true) (hb : b.ground h = true) (different : a ≠ b) :
    a.same b = false := by
  rw [Bool.eq_false_iff]
  exact fun same => different ((Ty.same_iff_of_ground ha hb).1 same)

theorem any_isSubtype_iff (hb : b.ground h = true) : isSubtype h .any b = true ↔ b = .any := by
  by_cases equal : b = .any
  · subst equal
    simp
  · rw [isSubtype.eq_def, not_same_of_ne (Ty.ground_any h) hb (Ne.symm equal)]
    cases b <;> simp_all

theorem atom_isSubtype_union_iff (ha : a.ground h = true) (atom : a.isAtom = true)
    (hu : (Ty.union ms).ground h = true) :
    isSubtype h a (.union ms) = true ↔ ∃ m ∈ ms, isSubtype h a m = true := by
  have different : a ≠ .union ms := by
    rintro rfl
    simp [Ty.isAtom] at atom
  rw [← belowSome_iff, isSubtype.eq_def, not_same_of_ne ha hu different]
  cases a <;> simp_all [Ty.isAtom, Ty.ground]

/-- A member of a union is a subtype of it. -/
theorem isSubtype_union_of_mem (hu : (Ty.union ms).ground h = true) {m : Ty} (member : m ∈ ms) :
    isSubtype h m (.union ms) = true := by
  obtain ⟨canonical, members⟩ := Ty.ground_union.1 hu
  have atom := (Ty.isCanonical_iff.1 canonical).2.1 m member
  exact (atom_isSubtype_union_iff (members m member) atom hu).2 ⟨m, member, isSubtype_refl h m⟩

theorem union_isSubtype_iff (hu : (Ty.union ms).ground h = true) (hb : b.ground h = true) :
    isSubtype h (.union ms) b = true ↔ ∀ m ∈ ms, isSubtype h m b = true := by
  by_cases equal : Ty.union ms = b
  · subst equal
    exact ⟨fun _ m member => isSubtype_union_of_mem hu member, fun _ => isSubtype_refl h _⟩
  · rw [← allBelow_iff, isSubtype.eq_def, not_same_of_ne hu hb equal]
    cases b with
    | any => simp [allBelow_iff]
    | _ => simp

theorem isSubtype_bottom_iff (ha : a.ground h = true) :
    isSubtype h a .bottom = true ↔ a = .bottom := by
  refine ⟨fun below => ?_, fun equal => equal ▸ isSubtype_refl h .bottom⟩
  have atom_not_below : ∀ m : Ty, m.ground h = true → m.isAtom = true →
      isSubtype h m .bottom = false := by
    intro m hm atom
    have different : m ≠ .bottom := by
      rintro rfl
      simp [Ty.isAtom] at atom
    rw [isSubtype.eq_def, not_same_of_ne hm (Ty.ground_bottom h) different]
    cases m <;> simp_all [Ty.isAtom, Ty.ground]
  cases a with
  | bottom => rfl
  | any => exact absurd ((any_isSubtype_iff (Ty.ground_bottom h)).1 below) (by simp)
  | union ms =>
      obtain ⟨canonical, members⟩ := Ty.ground_union.1 ha
      obtain ⟨several, atoms, -⟩ := Ty.isCanonical_iff.1 canonical
      cases ms with
      | nil => simp at several
      | cons m ms =>
          have first := (union_isSubtype_iff ha (Ty.ground_bottom h)).1 below m List.mem_cons_self
          rw [atom_not_below m (members m List.mem_cons_self)
            (atoms m List.mem_cons_self)] at first
          cases first
  | _ =>
      rw [atom_not_below _ ha rfl] at below
      cases below

theorem concrete_isSubtype_concrete_iff (ha : (Ty.concrete name ps).ground h = true)
    (hb : (Ty.concrete other qs).ground h = true) :
    isSubtype h (.concrete name ps) (.concrete other qs) = true ↔
      name = other ∧ (qs = [] ∨ argsBelow h (h.paramsOf other) ps qs = true) := by
  by_cases equal : Ty.concrete name ps = Ty.concrete other qs
  · cases equal
    simp [isSubtype_refl, argsBelow_refl]
  · rw [isSubtype.eq_def, not_same_of_ne ha hb equal]
    simp

theorem concrete_isSubtype_abstract (ha : (Ty.concrete name ps).ground h = true)
    (hb : (Ty.abstract other).ground h = true) :
    isSubtype h (.concrete name ps) (.abstract other) = h.isAncestor other name := by
  rw [isSubtype.eq_def, not_same_of_ne ha hb (by simp)]
  simp

theorem abstract_isSubtype_abstract (ha : (Ty.abstract name).ground h = true)
    (hb : (Ty.abstract other).ground h = true) :
    isSubtype h (.abstract name) (.abstract other) = h.isAncestor other name := by
  by_cases equal : Ty.abstract name = Ty.abstract other
  · cases equal
    simp [isSubtype_refl]
  · rw [isSubtype.eq_def, not_same_of_ne ha hb equal]
    simp

theorem not_abstract_isSubtype_concrete (ha : (Ty.abstract name).ground h = true)
    (hb : (Ty.concrete other qs).ground h = true) :
    isSubtype h (.abstract name) (.concrete other qs) = false := by
  rw [isSubtype.eq_def, not_same_of_ne ha hb (by simp)]
  simp

end Multimethod.Lattice
