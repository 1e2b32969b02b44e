import Multimethod.Proofs.Hierarchy.Ancestry
import Multimethod.Proofs.Ty.Ground

/-!
# How high a hierarchy is

On the way up from a declared name there are so many abstract types. From a type further up there
are fewer, so their number tells the ancestors of a name apart.
-/

namespace Multimethod.Hierarchy

/-- The abstract types on the way up from a name, without the root. -/
def abstractsAbove (h : Hierarchy) (name : String) : List String :=
  (h.ancestors name).filter fun above => above != "Any" && h.isAbstract above

/-- The largest number of abstract types, without the root, on the way up from a declared name. -/
def abstractHeight (h : Hierarchy) : Nat :=
  (h.decls.map fun decl => (h.abstractsAbove decl.name).length).max?.getD 0

variable {h : Hierarchy} {a b name : String}

theorem abstractsAbove_le (declared : h.isAbstract name = true) :
    (h.abstractsAbove name).length ≤ h.abstractHeight := by
  have known : ∃ decl ∈ h.decls, decl.name = name := by
    cases found : h.find? name with
    | none => simp [isAbstract, found] at declared
    | some decl =>
        exact ⟨decl, List.mem_of_find?_eq_some found, by simpa using List.find?_some found⟩
  obtain ⟨decl, member, rfl⟩ := known
  have counted : (h.abstractsAbove decl.name).length ∈
      h.decls.map fun decl => (h.abstractsAbove decl.name).length :=
    List.mem_map_of_mem member
  exact List.le_max?_getD_of_mem counted

/-- Fewer abstract types stand above an ancestor than above an abstract type itself. -/
theorem abstractsAbove_lt (ordered : Ordered h.decls) (below : h.isAbstract a = true)
    (notRoot : a ≠ "Any") (ancestor : h.isAncestor b a = true) (different : b ≠ a) :
    (h.abstractsAbove b).length < (h.abstractsAbove a).length := by
  obtain ⟨passed, chain⟩ := chain_suffix ordered (isAncestor_iff_mem.1 ancestor)
  have own : a ∈ passed := by
    have first := head?_chain h.decls a
    rw [← chain] at first
    cases passed with
    | nil =>
        rw [List.nil_append, head?_chain] at first
        exact absurd (Option.some.inj first) different
    | cons c passed =>
        obtain rfl : c = a := by simpa using first
        exact List.mem_cons_self
  have counted : 0 < (passed.filter fun above => above != "Any" && h.isAbstract above).length :=
    List.length_pos_of_mem (List.mem_filter.2 ⟨own, by simp [below, notRoot]⟩)
  have whole : h.abstractsAbove a =
      (passed.filter fun above => above != "Any" && h.isAbstract above) ++ h.abstractsAbove b := by
    rw [abstractsAbove, ancestors, ← chain, List.filter_append]
    rfl
  rw [whole, List.length_append]
  omega

end Multimethod.Hierarchy
