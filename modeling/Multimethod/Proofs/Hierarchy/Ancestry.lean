import Multimethod.Hierarchy

/-!
# Ancestry of declared names

A declaration is accepted only below an abstract type that is declared already, so the names of
a hierarchy form a tree. The walk from an ancestor is a tail of the walk from any name below it.
Hence ancestry is a partial order in which the ancestors of one name stand in a row.
-/

namespace Multimethod.Hierarchy

/-- The hierarchies that declarations build. -/
inductive Declared : Hierarchy → Prop where
  | initial : Declared initial
  | declare {h next : Hierarchy} {decl : TypeDecl} (built : Declared h)
      (accepted : h.declare decl = .ok next) : Declared next

theorem Declared.declareAll {h next : Hierarchy} (decls : List TypeDecl) (built : Declared h)
    (accepted : h.declareAll decls = .ok next) : Declared next := by
  induction decls generalizing h with
  | nil =>
      cases accepted
      exact built
  | cons decl decls ih =>
      rw [Hierarchy.declareAll, List.foldlM_cons] at accepted
      cases first : h.declare decl with
      | error fault =>
          rw [first] at accepted
          cases accepted
      | ok middle =>
          rw [first] at accepted
          exact ih (built.declare first) accepted

/-- Declarations each of which stands on older ones: its name is new, and its supertype is
    declared and abstract. The oldest is the root. -/
inductive Ordered : List TypeDecl → Prop where
  | root {decl : TypeDecl} (name : decl.name = "Any") (top : decl.supertype = none) :
      Ordered [decl]
  | under {decl parent : TypeDecl} {older : List TypeDecl} {above : String}
      (standing : Ordered older) (fresh : ∀ d ∈ older, d.name ≠ decl.name)
      (supertype : decl.supertype = some above)
      (found : older.find? (·.name == above) = some parent)
      (isAbstract : parent.isAbstract = true) : Ordered (decl :: older)

/-- An accepted declaration is new, and its supertype is declared and abstract. -/
theorem declare_eq_ok {h next : Hierarchy} {decl : TypeDecl}
    (accepted : h.declare decl = .ok next) :
    h.find? decl.name = none ∧
      ∃ parent, h.find? (decl.supertype.getD "Any") = some parent ∧
        parent.isAbstract = true ∧
        next = ⟨{ decl with supertype := some (decl.supertype.getD "Any") } :: h.decls⟩ := by
  unfold declare at accepted
  by_cases taken : h.has decl.name = true
  · simp [taken] at accepted
  · simp only [taken, Bool.false_eq_true, if_false] at accepted
    have fresh : h.find? decl.name = none := by simpa [has] using taken
    cases found : h.find? (decl.supertype.getD "Any") with
    | none => simp [found] at accepted
    | some parent =>
        simp only [found] at accepted
        by_cases isAbstract : parent.isAbstract = true
        · simp only [isAbstract, if_true] at accepted
          cases accepted
          exact ⟨fresh, parent, rfl, isAbstract, rfl⟩
        · simp [isAbstract] at accepted

theorem Declared.ordered {h : Hierarchy} (built : h.Declared) : Ordered h.decls := by
  induction built with
  | initial => exact .root rfl rfl
  | declare built accepted ih =>
      obtain ⟨fresh, parent, found, isAbstract, rfl⟩ := declare_eq_ok accepted
      refine .under ih ?_ rfl found isAbstract
      intro d member same
      have absent := List.find?_eq_none.1 fresh d member
      simp [same] at absent

/-- Names tell the declarations of a hierarchy apart. -/
theorem Ordered.eq_of_name {decls : List TypeDecl} (ordered : Ordered decls) {a b : TypeDecl}
    (ha : a ∈ decls) (hb : b ∈ decls) (same : a.name = b.name) : a = b := by
  induction ordered with
  | root => rw [List.mem_singleton.1 ha, List.mem_singleton.1 hb]
  | under _ fresh _ _ _ ih =>
      rcases List.mem_cons.1 ha with rfl | olderA <;> rcases List.mem_cons.1 hb with rfl | olderB
      · rfl
      · exact absurd same.symm (fresh b olderB)
      · exact absurd same (fresh a olderA)
      · exact ih olderA olderB

/-! ## Walks up the tree -/

theorem chain_root {decl : TypeDecl} (older : List TypeDecl) (top : decl.supertype = none) :
    chain (decl :: older) decl.name = [decl.name] := by
  simp [chain, top]

theorem chain_under {decl : TypeDecl} {above : String} (older : List TypeDecl)
    (supertype : decl.supertype = some above) :
    chain (decl :: older) decl.name = decl.name :: chain older above := by
  simp [chain, supertype]

theorem chain_cons_of_ne {decl : TypeDecl} {name : String} (older : List TypeDecl)
    (different : decl.name ≠ name) : chain (decl :: older) name = chain older name := by
  simp [chain, different]

theorem head?_chain (decls : List TypeDecl) (name : String) :
    (chain decls name).head? = some name := by
  induction decls with
  | nil => rfl
  | cons decl older ih =>
      by_cases same : decl.name = name
      · simp [chain, same]
      · rw [chain_cons_of_ne older same, ih]

theorem self_mem_chain (decls : List TypeDecl) (name : String) : name ∈ chain decls name :=
  List.mem_of_mem_head? (head?_chain decls name)

/-- A walk meets no name but its first that is not declared. -/
theorem declared_of_mem_chain {decls : List TypeDecl} (ordered : Ordered decls)
    {above name : String} (member : above ∈ chain decls name) :
    above = name ∨ ∃ d ∈ decls, d.name = above := by
  induction ordered generalizing name with
  | @root decl _ top =>
      by_cases same : decl.name = name
      · subst same
        rw [chain_root [] top] at member
        exact Or.inl (by simpa using member)
      · rw [chain_cons_of_ne [] same] at member
        exact Or.inl (by simpa [chain] using member)
  | @under decl parent older supertype _ _ super found _ ih =>
      by_cases same : decl.name = name
      · subst same
        rw [chain_under older super] at member
        rcases List.mem_cons.1 member with here | further
        · exact Or.inl here
        · right
          rcases ih further with rfl | ⟨d, hd, named⟩
          · have named := List.find?_some found
            exact ⟨parent, List.mem_cons_of_mem _ (List.mem_of_find?_eq_some found),
              by simpa using named⟩
          · exact ⟨d, List.mem_cons_of_mem _ hd, named⟩
      · rw [chain_cons_of_ne older same] at member
        rcases ih member with here | ⟨d, hd, named⟩
        · exact Or.inl here
        · exact Or.inr ⟨d, List.mem_cons_of_mem _ hd, named⟩

/-- The walk from a name that a walk meets is the rest of that walk. -/
theorem chain_suffix {decls : List TypeDecl} (ordered : Ordered decls) {above name : String}
    (member : above ∈ chain decls name) : chain decls above <:+ chain decls name := by
  induction ordered generalizing name with
  | @root decl _ top =>
      by_cases same : decl.name = name
      · subst same
        rw [chain_root [] top] at member
        obtain rfl : above = decl.name := by simpa using member
        exact List.suffix_refl _
      · rw [chain_cons_of_ne [] same] at member
        obtain rfl : above = name := by simpa [chain] using member
        exact List.suffix_refl _
  | @under decl parent older supertype standing fresh super found _ ih =>
      -- a name further up is declared in `older`, so `decl` does not get into its way
      have skip : ∀ {n}, above ∈ chain older n → n ≠ decl.name → decl.name ≠ above := by
        intro n met different same
        rcases declared_of_mem_chain standing met with here | ⟨d, hd, named⟩
        · exact different (here.symm.trans same.symm)
        · exact fresh d hd (named.trans same.symm)
      by_cases same : decl.name = name
      · subst same
        by_cases here : above = decl.name
        · exact here ▸ List.suffix_refl _
        · rw [chain_cons_of_ne older (Ne.symm here), chain_under older super]
          rw [chain_under older super] at member
          have further := (List.mem_cons.1 member).resolve_left here
          exact (ih further).trans (List.suffix_cons _ _)
      · rw [chain_cons_of_ne older same] at member ⊢
        rw [chain_cons_of_ne older (skip member (Ne.symm same))]
        exact ih member

/-! ## Ancestry is a partial order -/

variable {h : Hierarchy} {a b c : String}

theorem isAncestor_iff_mem : h.isAncestor a b = true ↔ a ∈ h.ancestors b := by
  simp [isAncestor]

@[simp] theorem isAncestor_refl (h : Hierarchy) (a : String) : h.isAncestor a a = true :=
  isAncestor_iff_mem.2 (self_mem_chain h.decls a)

theorem isAncestor_trans (ordered : Ordered h.decls) (upper : h.isAncestor a b = true)
    (lower : h.isAncestor b c = true) : h.isAncestor a c = true := by
  rw [isAncestor_iff_mem] at *
  exact (chain_suffix ordered lower).subset upper

theorem isAncestor_antisymm (ordered : Ordered h.decls) (upper : h.isAncestor a b = true)
    (lower : h.isAncestor b a = true) : a = b := by
  rw [isAncestor_iff_mem] at upper lower
  have suffix := chain_suffix ordered upper
  have longer := (chain_suffix ordered lower).length_le
  have same : chain h.decls a = chain h.decls b := suffix.eq_of_length_le longer
  have heads := head?_chain h.decls a
  rw [same, head?_chain h.decls b] at heads
  exact (Option.some.inj heads).symm

/-- Two ancestors of one name compare. -/
theorem isAncestor_total (ordered : Ordered h.decls) (first : h.isAncestor a c = true)
    (second : h.isAncestor b c = true) :
    h.isAncestor a b = true ∨ h.isAncestor b a = true := by
  rw [isAncestor_iff_mem] at first second
  have row := List.suffix_or_suffix_of_suffix (chain_suffix ordered first)
    (chain_suffix ordered second)
  rcases row with below | above
  · exact Or.inl (isAncestor_iff_mem.2 (below.subset (self_mem_chain h.decls a)))
  · exact Or.inr (isAncestor_iff_mem.2 (above.subset (self_mem_chain h.decls b)))

end Multimethod.Hierarchy
