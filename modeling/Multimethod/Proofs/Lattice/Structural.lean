import Multimethod.Lattice.Widening
import Multimethod.Proofs.Lattice.Difference
import Multimethod.Proofs.Lattice.Meet
import Multimethod.Proofs.Ty.Variables

/-!
# Kinds of types that the parts of a type decide

If a kind of types is decided by the parts of a type, and if the abstract types that a hierarchy
declares are of the kind, then bounds and differences of types of the kind are, and so is what
substitution and erasure make of them.
-/

namespace Multimethod.Lattice

/-- Whether a kind of types is decided by their parts: a union is of the kind if its members are,
    and the arguments of a type may be exchanged for others of the kind. -/
structure Structural (h : Hierarchy) (kind : Ty → Prop) : Prop where
  bottom : kind .bottom
  any : kind .any
  union : ∀ ms, kind (.union ms) ↔ ∀ m ∈ ms, kind m
  args : ∀ name ps, kind (.concrete name ps) → ∀ p ∈ ps, kind p
  applied : ∀ name ps qs, kind (.concrete name ps) → (∀ q ∈ qs, kind q) → kind (.concrete name qs)
  bound : ∀ name bound, kind (.typeVar name bound) → kind bound
  abstract : ∀ name, h.has name = true → kind (.abstract name)

namespace Structural

variable {h : Hierarchy} {kind : Ty → Prop} {a b t : Ty} {ts ms ps qs : List Ty}
  {bindings : Assoc Ty} (structural : Structural h kind)
include structural

/-! ## Unions -/

theorem member (of : kind t) : ∀ m ∈ t.members, kind m := by
  intro m member
  cases t with
  | union ms => exact (structural.union ms).1 of m member
  | _ =>
      cases List.mem_singleton.1 member
      exact of

theorem unionOf (of : ∀ t ∈ ts, kind t) : kind (Ty.unionOf ts) := by
  refine Ty.unionOf_of_flatten structural.bottom (fun ms => (structural.union ms).2) ?_
  intro m member
  obtain ⟨t, among, inside⟩ := List.mem_flatMap.1 member
  exact structural.member (of t among) m inside

theorem normalize (of : kind t) : kind (normalize h t) := by
  cases t with
  | union ms =>
      exact structural.unionOf fun m kept =>
        (structural.union ms).1 of m (List.mem_filter.1 kept).1
  | _ => exact of

/-! ## Bounds -/

theorem join (ofA : kind a) (ofB : kind b) : kind (join h a b) := by
  unfold Lattice.join
  split
  · exact ofB
  · split
    · exact ofA
    · exact structural.normalize (structural.unionOf (by simp [ofA, ofB]))

theorem joinAll (of : ∀ t ∈ ts, kind t) : kind (joinAll h ts) :=
  List.foldlRecOn (motive := kind) ts (Lattice.join h) structural.bottom
    fun _ kept t member => structural.join kept (of t member)

theorem meet (ofA : kind a) (ofB : kind b) : kind (meet h a b) := by
  revert ofA ofB
  refine meet_induction (p := fun a b met => kind a → kind b → kind met) ?below ?above ?left ?right
    ?leftBound ?rightBound ?args ?nothing a b
  case below => exact fun _ ofA _ => ofA
  case above => exact fun _ _ ofB => ofB
  case left =>
    intro ms b each ofA ofB
    exact structural.joinAll (List.forall_mem_map.2 fun m hm =>
      each m hm ((structural.union ms).1 ofA m hm) ofB)
  case right =>
    intro a ms each ofA ofB
    exact structural.joinAll (List.forall_mem_map.2 fun m hm =>
      each m hm ofA ((structural.union ms).1 ofB m hm))
  case leftBound => exact fun inner ofA ofB => inner (structural.bound _ _ ofA) ofB
  case rightBound => exact fun inner ofA ofB => inner ofA (structural.bound _ _ ofB)
  case args =>
    intro name ps qs _ _ each ofA ofB
    refine structural.applied name ps _ ofA fun t member => ?_
    obtain ⟨p, hp, q, hq, rfl⟩ := exists_of_mem_zipWith_meet member
    exact each p hp q hq (structural.args _ _ ofA p hp) (structural.args _ _ ofB q hq)
  case nothing => exact fun _ _ _ _ => structural.bottom

theorem subtract (b : Ty) (of : kind a) : kind (subtract h a b) := by
  induction a using Ty.parts_induction with
  | union ms ih =>
      unfold Lattice.subtract
      split
      · exact structural.bottom
      · dsimp only
        rw [subtractEach_eq_map]
        exact structural.joinAll (List.forall_mem_map.2 fun m hm =>
          ih m hm ((structural.union ms).1 of m hm))
  | _ =>
      unfold Lattice.subtract
      split
      · exact structural.bottom
      · exact of

/-! ## Widening -/

theorem nominalAncestor (name : String) (b : Ty) : kind (nominalAncestor h name b) := by
  unfold Lattice.nominalAncestor
  dsimp only
  split
  · rename_i n found
    have declared := List.find?_some found
    refine structural.abstract n ?_
    cases known : h.find? n with
    | none => simp [known] at declared
    | some decl => rw [Hierarchy.has, known, Option.isSome_some]
  · exact structural.any

section Ancestors

variable {n : Nat} (smaller : ∀ a b : Ty, a.size + b.size < n → kind a → kind b →
  kind (ancestorOf h a b).1)
include smaller

omit structural in
theorem ancestorOfAll (ofA : kind a) (of : ∀ m ∈ ms, kind m) (less : a.size + Ty.sizes ms < n) :
    kind (ancestorOfAll h a ms).1 := by
  induction ms generalizing a with
  | nil =>
      rw [Lattice.ancestorOfAll]
      exact ofA
  | cons m ms ih =>
      rw [Lattice.ancestorOfAll]
      have small := (ancestorOf h a m).2
      rw [List.forall_mem_cons] at of
      simp only [Ty.sizes] at less
      exact ih (smaller a m (by omega) ofA of.1) of.2 (by omega)

omit structural in
theorem ancestorOfArgs (ofPs : ∀ p ∈ ps, kind p) (ofQs : ∀ q ∈ qs, kind q)
    (less : Ty.sizes ps + Ty.sizes qs < n) : ∀ t ∈ (ancestorOfArgs h ps qs).1, kind t := by
  induction ps generalizing qs with
  | nil => simp [Lattice.ancestorOfArgs]
  | cons p ps ih =>
      cases qs with
      | nil => simp [Lattice.ancestorOfArgs]
      | cons q qs =>
          rw [Lattice.ancestorOfArgs]
          rw [List.forall_mem_cons] at ofPs ofQs
          simp only [Ty.sizes] at less
          exact List.forall_mem_cons.2 ⟨smaller p q (by omega) ofPs.1 ofQs.1,
            ih ofPs.2 ofQs.2 (by omega)⟩

end Ancestors

theorem ancestorOf (ofA : kind a) (ofB : kind b) : kind (ancestorOf h a b).1 := by
  obtain ⟨n, total⟩ : ∃ n, a.size + b.size = n := ⟨_, rfl⟩
  induction n using Nat.strongRecOn generalizing a b with
  | ind n ih =>
      have smaller : ∀ x y : Ty, x.size + y.size < n → kind x → kind y →
          kind (Lattice.ancestorOf h x y).1 := fun x y less ofX ofY => ih _ less ofX ofY rfl
      unfold Lattice.ancestorOf
      split
      · exact ofB
      · split
        · exact ofA
        · split
          · exact ancestorOfAll smaller ofB ((structural.union _).1 ofA)
              (by simp only [Ty.size] at total; omega)
          · exact ancestorOfAll smaller ofA ((structural.union _).1 ofB)
              (by simp only [Ty.size] at total; omega)
          · exact smaller _ _ (by simp only [Ty.size] at total; omega)
              (structural.bound _ _ ofA) ofB
          · exact smaller _ _ (by simp only [Ty.size] at total; omega) ofA
              (structural.bound _ _ ofB)
          · dsimp only
            split
            · refine structural.applied _ _ _ ofA (ancestorOfArgs smaller
                (structural.args _ _ ofA) (structural.args _ _ ofB) ?_)
              simp only [Ty.size] at total
              omega
            · exact structural.nominalAncestor _ _
          · exact structural.nominalAncestor _ _
          · exact structural.nominalAncestor _ _
          · exact structural.any

theorem widen (of : ∀ t ∈ ts, kind t) (threshold : Nat) : kind (widen h ts threshold) := by
  have taken : ∀ t ∈ Ty.distinct ts, kind t := fun t kept =>
    of t (Ty.mem_of_mem_distinctFrom kept)
  unfold Lattice.widen
  dsimp only
  split
  · exact structural.joinAll taken
  · generalize Ty.distinct ts = distinct at taken
    match distinct with
    | [] => exact structural.bottom
    | first :: others =>
        have folded : kind (others.foldl (commonAncestor h) first) :=
          List.foldlRecOn (motive := kind) others (commonAncestor h)
            (taken first List.mem_cons_self) fun _ of t member =>
              structural.ancestorOf of (taken t (List.mem_cons_of_mem _ member))
        dsimp only
        split
        · rename_i name found
          rwa [found] at folded
        · exact structural.any

/-! ## Type variables -/

/-- The bounds of the variables in a type are of its kind. -/
theorem mem_vars {v : TypeVar} (of : kind t) (mentioned : v ∈ t.vars) : kind v.bound := by
  induction t using Ty.parts_induction with
  | typeVar name bound =>
      cases List.mem_singleton.1 mentioned
      exact structural.bound _ _ of
  | concrete name ps ih =>
      obtain ⟨p, hp, inside⟩ := Ty.mem_allVars.1 mentioned
      exact ih p hp (structural.args _ _ of p hp) inside
  | union ms ih =>
      obtain ⟨m, hm, inside⟩ := Ty.mem_allVars.1 mentioned
      exact ih m hm ((structural.union ms).1 of m hm) inside
  | _ => cases mentioned

theorem substitute (bound : ∀ entry ∈ bindings, kind entry.2) (of : kind t) :
    kind (t.substitute bindings) := by
  induction t using Ty.parts_induction with
  | typeVar name upper =>
      rw [Ty.substitute]
      cases found : bindings.find? name with
      | none => exact of
      | some u => exact bound _ (Assoc.mem_of_find? found)
  | concrete name ps ih =>
      rw [Ty.substitute, Ty.substituteAll_eq_map]
      exact structural.applied _ ps _ of (List.forall_mem_map.2 fun p hp =>
        ih p hp (structural.args _ _ of p hp))
  | union ms ih =>
      rw [Ty.substitute, Ty.substituteAll_eq_map]
      exact structural.unionOf (List.forall_mem_map.2 fun m hm =>
        ih m hm ((structural.union ms).1 of m hm))
  | _ => exact of

theorem erase (of : kind t) : kind t.erase := by
  induction t using Ty.parts_induction with
  | typeVar name bound ih => exact ih (structural.bound _ _ of)
  | concrete name ps =>
      rw [Ty.erase]
      split
      · exact structural.applied _ ps _ of (by simp)
      · exact of
  | union ms ih =>
      rw [Ty.erase, Ty.eraseAll_eq_map]
      exact structural.unionOf (List.forall_mem_map.2 fun m hm =>
        ih m hm ((structural.union ms).1 of m hm))
  | _ => exact of

end Structural

end Multimethod.Lattice
