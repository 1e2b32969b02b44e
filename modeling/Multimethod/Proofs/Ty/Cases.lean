import Mathlib.Data.List.Forall2
import Mathlib.Data.List.Perm.Subperm
import Multimethod.Proofs.Text.Units
import Multimethod.Proofs.Ty.Ground
import Multimethod.Ty.Cases

/-!
# Choices of members

The choices of an argument list take one member of every type. Broader arguments have all
choices of the narrower ones, and at least as many.
-/

namespace Multimethod.Ty

/-- Whether a type is a union in canonical form, or no union. -/
def isNormalUnion : Ty → Bool
  | union ms => isCanonical ms
  | _ => true

/-- Every member of a type is a member of the broader type at its position. -/
def Broader (narrow broad : List Ty) : Prop :=
  List.Forall₂ (fun a b => ∀ m ∈ a.members, m ∈ b.members) narrow broad

variable {t : Ty} {args choice narrow broad : List Ty}

theorem mem_combinations :
    choice ∈ combinations args ↔ List.Forall₂ (fun m t => m ∈ t.members) choice args := by
  induction args generalizing choice with
  | nil => simp [combinations]
  | cons t args ih =>
      simp only [combinations, List.mem_flatMap, List.mem_map, List.forall₂_cons_right_iff]
      constructor
      · rintro ⟨m, member, rest, chosen, rfl⟩
        exact ⟨m, rest, member, ih.1 chosen, rfl⟩
      · rintro ⟨m, rest, member, chosen, rfl⟩
        exact ⟨m, member, rest, ih.2 chosen, rfl⟩

theorem foldl_caseCount (count : Nat) (args : List Ty) :
    args.foldl (fun count arg => count * arg.members.length) count = count * caseCount args := by
  unfold caseCount
  induction args generalizing count with
  | nil => simp
  | cons t args ih =>
      rw [List.foldl_cons, List.foldl_cons, ih, ih (1 * _), Nat.one_mul, Nat.mul_assoc]

theorem caseCount_cons (t : Ty) (args : List Ty) :
    caseCount (t :: args) = t.members.length * caseCount args := by
  rw [caseCount, List.foldl_cons, foldl_caseCount, Nat.one_mul]

theorem length_combinations (args : List Ty) :
    (combinations args).length = caseCount args := by
  induction args with
  | nil => rfl
  | cons t args ih =>
      rw [caseCount_cons, combinations, List.length_flatMap]
      simp only [List.length_map, ih, List.map_const', List.sum_replicate_nat]

theorem members_ne_nil (normal : t.isNormalUnion = true) : t.members ≠ [] := by
  cases t with
  | union ms =>
      intro none
      have several := (isCanonical_iff.1 normal).1
      rw [show ms = [] from none] at several
      simp at several
  | _ => simp [members]

theorem nodup_members (normal : t.isNormalUnion = true) : t.members.Nodup := by
  cases t with
  | union ms =>
      refine (isCanonical_iff.1 normal).2.2.imp fun {m n} before equal => ?_
      rw [equal, not_unitsBefore_self] at before
      cases before
  | _ => simp [members]

/-- Only a type that is no union has a single member. -/
theorem members_of_length_le_one (normal : t.isNormalUnion = true)
    (single : t.members.length ≤ 1) : t.members = [t] := by
  cases t with
  | union ms =>
      have several := (isCanonical_iff.1 normal).1
      exact absurd single (Nat.not_le.2 several)
  | _ => rfl

theorem caseCount_pos (normal : ∀ t ∈ args, t.isNormalUnion = true) : 0 < caseCount args := by
  induction args with
  | nil => exact Nat.one_pos
  | cons t args ih =>
      rw [caseCount_cons]
      have some := List.length_pos_iff.2 (members_ne_nil (normal t List.mem_cons_self))
      exact Nat.mul_pos some (ih fun u hu => normal u (List.mem_cons_of_mem _ hu))

/-- Arguments without unions are their only choice. -/
theorem combinations_of_caseCount_le_one (normal : ∀ t ∈ args, t.isNormalUnion = true)
    (single : caseCount args ≤ 1) : combinations args = [args] := by
  induction args with
  | nil => rfl
  | cons t args ih =>
      have normal' : ∀ u ∈ args, u.isNormalUnion = true := fun u hu =>
        normal u (List.mem_cons_of_mem _ hu)
      have normalHead := normal t List.mem_cons_self
      rw [caseCount_cons] at single
      have first := List.length_pos_iff.2 (members_ne_nil normalHead)
      have rest := caseCount_pos normal'
      have head : t.members.length ≤ 1 := Nat.le_trans (Nat.le_mul_of_pos_right _ rest) single
      have tail : caseCount args ≤ 1 := Nat.le_trans (Nat.le_mul_of_pos_left _ first) single
      rw [combinations, members_of_length_le_one normalHead head, ih normal' tail]
      rfl

/-- Within the limit, the cases of an argument list are its choices. -/
theorem splitCases_of_le {limit : Nat} (normal : ∀ t ∈ args, t.isNormalUnion = true)
    (within : caseCount args ≤ limit) : splitCases args limit = combinations args := by
  unfold splitCases
  dsimp only
  split
  · rename_i single
    simp only [Bool.or_eq_true, decide_eq_true_eq] at single
    rw [combinations_of_caseCount_le_one normal (by omega)]
  · rfl

theorem splitCases_of_lt {limit : Nat} (exceeds : limit < caseCount args) :
    splitCases args limit = [args] := by
  unfold splitCases
  simp [exceeds]

/-- A single case is the argument list itself. -/
theorem splitCases_of_length_eq_one {limit : Nat}
    (single : (splitCases args limit).length = 1) : splitCases args limit = [args] := by
  unfold splitCases at single ⊢
  dsimp only at single ⊢
  split
  · rfl
  · rename_i several
    rw [if_neg several, length_combinations] at single
    simp [single] at several

theorem combinations_subset (broader : Broader narrow broad) :
    combinations narrow ⊆ combinations broad := by
  intro choice chosen
  rw [mem_combinations] at chosen ⊢
  induction broader generalizing choice with
  | nil => exact chosen
  | cons wider _ ih =>
      cases chosen with
      | cons member chosen => exact List.Forall₂.cons (wider _ member) (ih chosen)

theorem caseCount_le (broader : Broader narrow broad)
    (normal : ∀ t ∈ narrow, t.isNormalUnion = true) : caseCount narrow ≤ caseCount broad := by
  induction broader with
  | nil => exact Nat.le_refl _
  | cons wider _ ih =>
      rw [caseCount_cons, caseCount_cons]
      have sub := List.subperm_of_subset (nodup_members (normal _ List.mem_cons_self)) wider
      exact Nat.mul_le_mul sub.length_le (ih fun u hu => normal u (List.mem_cons_of_mem _ hu))

/-- Only the bottom is broader than nothing but the bottom. -/
theorem any_isBottom_of_broader (broader : Broader narrow broad)
    (normal : ∀ t ∈ narrow, t.isNormalUnion = true) (bottom : broad.any isBottom = true) :
    narrow.any isBottom = true := by
  induction broader with
  | nil => exact bottom
  | @cons a b _ _ wider _ ih =>
      rw [List.any_cons, Bool.or_eq_true] at bottom ⊢
      rcases bottom with bottom | bottom
      · left
        obtain rfl : b = Ty.bottom := by cases b <;> simp_all [isBottom]
        obtain ⟨m, member⟩ := List.exists_mem_of_ne_nil _
          (members_ne_nil (normal a List.mem_cons_self))
        have bottoms : ∀ m ∈ a.members, m = Ty.bottom := fun m hm => by
          simpa [members] using wider m hm
        have few : List.Subperm a.members [Ty.bottom] :=
          List.subperm_of_subset (nodup_members (normal a List.mem_cons_self))
            fun m hm => List.mem_singleton.2 (bottoms m hm)
        have self := members_of_length_le_one (normal a List.mem_cons_self) few.length_le
        rw [bottoms a (by rw [self]; exact List.mem_singleton_self a)]
        rfl
      · exact Or.inr (ih (fun u hu => normal u (List.mem_cons_of_mem _ hu)) bottom)

end Multimethod.Ty
