import Multimethod.Proofs.Lattice.Join

/-!
# Differences

`subtract` leaves of a union the members that the subtracted type does not cover and of any
other type everything or nothing. It never loses a value that is outside the subtracted type.
-/

namespace Multimethod.Lattice

variable {h : Hierarchy} {a b c t : Ty} {ms : List Ty} {name : String}

theorem subtractEach_eq_map (h : Hierarchy) (ms : List Ty) (b : Ty) :
    subtractEach h ms b = ms.map fun m => subtract h m b := by
  induction ms with
  | nil => rw [subtractEach, List.map_nil]
  | cons m ms ih => rw [subtractEach, List.map_cons, ih]

theorem subtract_of_isSubtype (below : isSubtype h a b = true) : subtract h a b = .bottom := by
  rw [subtract.eq_def, if_pos below]

theorem subtract_union (notBelow : ¬ isSubtype h (.union ms) b = true) :
    subtract h (.union ms) b = joinAll h (ms.map fun m => subtract h m b) := by
  rw [subtract.eq_def, if_neg notBelow]
  exact congrArg _ (subtractEach_eq_map h ms b)

/-- What is no union is kept as a whole. -/
theorem subtract_of_not_union (single : ∀ ms, a ≠ .union ms)
    (notBelow : ¬ isSubtype h a b = true) : subtract h a b = a := by
  rw [subtract.eq_def, if_neg notBelow]
  cases a with
  | union ms => exact absurd rfl (single ms)
  | _ => rfl

theorem not_union_of_isAtom (atom : a.isAtom = true) : ∀ ms, a ≠ .union ms := by
  rintro ms rfl
  simp [Ty.isAtom] at atom

/-- Subtracting from what is no union leaves everything or nothing. -/
theorem subtract_cases (single : ∀ ms, a ≠ .union ms) :
    subtract h a b = a ∨ subtract h a b = .bottom := by
  by_cases below : isSubtype h a b = true
  · exact Or.inr (subtract_of_isSubtype below)
  · exact Or.inl (subtract_of_not_union single below)

theorem isAtom_of_mem_union (hu : (Ty.union ms).ground h = true) {m : Ty} (hm : m ∈ ms) :
    m.isAtom = true :=
  (Ty.isCanonical_iff.1 (Ty.ground_union.1 hu).1).2.1 m hm

/-- A difference is well-formed and lies below the type it is taken from. -/
theorem subtract_isSubtype (ordered : Hierarchy.Ordered h.decls) (ha : a.ground h = true)
    (b : Ty) : (subtract h a b).ground h = true ∧ isSubtype h (subtract h a b) a = true := by
  have alone : ∀ t : Ty, t.ground h = true → (∀ ms, t ≠ .union ms) →
      (subtract h t b).ground h = true ∧ isSubtype h (subtract h t b) t = true := by
    intro t ht single
    rcases subtract_cases (h := h) (b := b) single with whole | nothing
    · rw [whole]
      exact ⟨ht, isSubtype_refl h t⟩
    · rw [nothing]
      exact ⟨Ty.ground_bottom h, bottom_isSubtype h t⟩
  by_cases below : isSubtype h a b = true
  · rw [subtract_of_isSubtype below]
    exact ⟨Ty.ground_bottom h, bottom_isSubtype h a⟩
  · rcases a.atom_cases with rfl | rfl | ⟨ms, rfl⟩ | atom
    · exact alone .any ha (by simp)
    · exact alone .bottom ha (by simp)
    · have members := (Ty.ground_union.1 ha).2
      have each : ∀ m ∈ ms, (subtract h m b).ground h = true ∧
          isSubtype h (subtract h m b) m = true := fun m hm =>
        alone m (members m hm) (not_union_of_isAtom (isAtom_of_mem_union ha hm))
      have ground : ∀ t ∈ ms.map (fun m => subtract h m b), t.ground h = true :=
        List.forall_mem_map.2 fun m hm => (each m hm).1
      rw [subtract_union below]
      refine ⟨ground_joinAll ground, ?_⟩
      rw [joinAll_isSubtype_iff ordered ground ha, List.forall_mem_map]
      intro m hm
      exact isSubtype_trans ordered (each m hm).1 (members m hm) ha (each m hm).2
        (isSubtype_union_of_mem ha hm)
    · exact alone a ha (not_union_of_isAtom atom)

/-- What is no union and lies below `a`, but not below `b`, lies below what is left of `a`. -/
theorem isSubtype_subtract (ordered : Hierarchy.Ordered h.decls) (ha : a.ground h = true)
    (hb : b.ground h = true) (hc : c.ground h = true) (single : ∀ ms, c ≠ .union ms)
    (ca : isSubtype h c a = true) (cb : isSubtype h c b = false) :
    isSubtype h c (subtract h a b) = true := by
  have notBelow : ∀ t : Ty, t.ground h = true → isSubtype h c t = true →
      ¬ isSubtype h t b = true := by
    intro t ht ct tb
    rw [isSubtype_trans ordered hc ht hb ct tb] at cb
    cases cb
  rcases a.atom_cases with rfl | rfl | ⟨ms, rfl⟩ | atom
  · rw [subtract_of_not_union (by simp) (notBelow .any ha ca)]
    exact ca
  · rw [subtract_of_not_union (by simp) (notBelow .bottom ha ca)]
    exact ca
  · rcases c.atom_cases with rfl | rfl | ⟨ns, rfl⟩ | atom
    · cases (any_isSubtype_iff ha).1 ca
    · exact bottom_isSubtype h _
    · exact absurd rfl (single ns)
    · -- the member above `c` is not below `b`, so that it is left
      obtain ⟨m, hm, below⟩ := (atom_isSubtype_union_iff hc atom ha).1 ca
      have members := (Ty.ground_union.1 ha).2
      have whole : subtract h m b = m :=
        subtract_of_not_union (not_union_of_isAtom (isAtom_of_mem_union ha hm))
          (notBelow m (members m hm) below)
      have ground : ∀ t ∈ ms.map (fun m => subtract h m b), t.ground h = true :=
        List.forall_mem_map.2 fun m hm => (subtract_isSubtype ordered (members m hm) b).1
      rw [subtract_union (notBelow _ ha ca)]
      exact isSubtype_joinAll ordered ground hc (List.mem_map.2 ⟨m, hm, whole⟩) below
  · rw [subtract_of_not_union (not_union_of_isAtom atom) (notBelow a ha ca)]
    exact ca

/-! ## Types without subtypes -/

end Multimethod.Lattice
