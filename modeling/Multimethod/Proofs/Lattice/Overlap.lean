import Multimethod.Proofs.Lattice.Meet
import Multimethod.Proofs.Ty.Scoped

/-!
# Overlapping types

Joins and meets of types without the bottom have it nowhere inside: a meet is the bottom itself
or has a value. Under uniform variance two types therefore overlap exactly if some type without
the bottom lies below both.
-/

namespace Multimethod.Lattice

open Ty (alternatives)

variable {h : Hierarchy} {a b c m t : Ty} {ts : List Ty}

/-! ## Alternatives of a join -/

/-- A join has no alternatives but those of what it joins. -/
theorem mem_alternatives_join (ha : a.ground h = true) (hb : b.ground h = true)
    (hm : m ∈ (join h a b).alternatives) : m ∈ a.alternatives ∨ m ∈ b.alternatives := by
  unfold join at hm
  by_cases ab : isSubtype h a b = true
  · rw [if_pos ab] at hm
    exact Or.inr hm
  · rw [if_neg ab] at hm
    by_cases ba : isSubtype h b a = true
    · rw [if_pos ba] at hm
      exact Or.inl hm
    · rw [if_neg ba] at hm
      have both := forall_mem_pair (p := fun t => t.ground h = true) ha hb
      have noTop : Ty.any ∉ [a, b] := by
        intro top
        rcases List.mem_pair.1 top with rfl | rfl
        · exact ba (isSubtype_any h b)
        · exact ab (isSubtype_any h a)
      obtain ⟨ground, spec⟩ := Ty.unionOf_spec both noTop
      obtain ⟨t, ht, member⟩ := (spec m).1 (((normalize_spec ground).2 m).1 hm).1
      rcases List.mem_pair.1 ht with rfl | rfl
      · exact Or.inl member
      · exact Or.inr member

theorem mem_alternatives_foldl_join (ha : a.ground h = true) (hts : ∀ t ∈ ts, t.ground h = true)
    (hm : m ∈ (ts.foldl (join h) a).alternatives) :
    m ∈ a.alternatives ∨ ∃ t ∈ ts, m ∈ t.alternatives := by
  induction ts generalizing a with
  | nil => exact Or.inl hm
  | cons t ts ih =>
      rw [List.forall_mem_cons] at hts
      rcases ih (ground_join ha hts.1) hts.2 hm with joined | ⟨u, hu, hm⟩
      · rcases mem_alternatives_join ha hts.1 joined with left | right
        · exact Or.inl left
        · exact Or.inr ⟨t, List.mem_cons_self, right⟩
      · exact Or.inr ⟨u, List.mem_cons_of_mem _ hu, hm⟩

theorem mem_alternatives_joinAll (hts : ∀ t ∈ ts, t.ground h = true)
    (hm : m ∈ (joinAll h ts).alternatives) : ∃ t ∈ ts, m ∈ t.alternatives := by
  rcases mem_alternatives_foldl_join (Ty.ground_bottom h) hts hm with nothing | found
  · simp at nothing
  · exact found

/-! ## The bottom and nothing else -/

/-- A ground type whose alternatives are free of the bottom is the bottom or free of it. -/
theorem solid_of_alternatives (ground : t.ground h = true)
    (free : ∀ m ∈ t.alternatives, m.bottomFree = true) : t = .bottom ∨ t.Solid h := by
  by_cases empty : t = .bottom
  · exact Or.inl empty
  · refine Or.inr ⟨ground, (Ty.bottomFree_iff_alternatives ground).2 ⟨?_, free⟩⟩
    rcases t.atom_cases with rfl | rfl | ⟨ms, rfl⟩ | atom
    · simp
    · exact absurd rfl empty
    · rintro none
      have several := (Ty.isCanonical_iff.1 (Ty.ground_union.1 ground).1).1
      rw [Ty.alternatives_union] at none
      simp [none] at several
    · simp [Ty.alternatives_of_isAtom atom]

theorem free_alternatives (solid : t = .bottom ∨ t.Solid h) :
    ∀ m ∈ t.alternatives, m.bottomFree = true := by
  rcases solid with rfl | solid
  · simp
  · exact ((Ty.bottomFree_iff_alternatives solid.ground).1 solid.bottomFree).2

/-- Joining types each of which is the bottom or free of it gives such a type. -/
theorem solid_joinAll (hts : ∀ t ∈ ts, t = .bottom ∨ t.Solid h) :
    joinAll h ts = .bottom ∨ (joinAll h ts).Solid h := by
  have grounds : ∀ t ∈ ts, t.ground h = true := by
    intro t ht
    rcases hts t ht with rfl | solid
    · exact Ty.ground_bottom h
    · exact solid.ground
  refine solid_of_alternatives (ground_joinAll grounds) fun m hm => ?_
  obtain ⟨t, ht, hm⟩ := mem_alternatives_joinAll grounds hm
  exact free_alternatives (hts t ht) m hm

/-- The meet of two instances that do not compare has no empty argument unless it is empty. -/
theorem bottom_not_mem_of_meet {name : String} {ps qs args : List Ty}
    (notBelow : ¬ isSubtype h (.concrete name ps) (.concrete name qs) = true)
    (notAbove : ¬ isSubtype h (.concrete name qs) (.concrete name ps) = true)
    (met : meet h (.concrete name ps) (.concrete name qs) = .concrete name args) :
    Ty.bottom ∉ args := by
  rw [meet.eq_def, if_neg notBelow, if_neg notAbove] at met
  dsimp only at met
  split at met
  · split at met
    case isTrue => cases met
    case isFalse inhabited =>
        cases met
        exact fun empty => inhabited (any_isBottom_iff.2 empty)
  · cases met

/-- A meet of types without the bottom is the bottom or free of it. -/
theorem solid_meet (ordered : Hierarchy.Ordered h.decls) (ha : a.Solid h) (hb : b.Solid h) :
    meet h a b = .bottom ∨ (meet h a b).Solid h := by
  induction total : a.size + b.size using Nat.strongRecOn generalizing a b with
  | ind n ih =>
      have smaller : ∀ x y : Ty, x.size + y.size < n → x.Solid h → y.Solid h →
          meet h x y = .bottom ∨ (meet h x y).Solid h :=
        fun x y less hx hy => ih _ less hx hy rfl
      by_cases ab : isSubtype h a b = true
      · rw [meet.eq_def, if_pos ab]
        exact Or.inr ha
      · by_cases ba : isSubtype h b a = true
        · rw [meet.eq_def, if_neg ab, if_pos ba]
          exact Or.inr hb
        · have lower := meet_lowerBound ordered ha.ground hb.ground
          have spec := meets_meet ha.ground hb.ground
          generalize met : meet h a b = value at spec lower ⊢
          cases spec with
          | below => exact absurd ‹_› ab
          | above => exact absurd ‹_› ba
          | @left ms b =>
              refine solid_joinAll (List.forall_mem_map.2 fun m hm => ?_)
              have := Ty.size_lt_sizes hm
              exact smaller m b (by simp only [Ty.size] at total; omega) (ha.member hm) hb
          | @right a ms =>
              refine solid_joinAll (List.forall_mem_map.2 fun m hm => ?_)
              have := Ty.size_lt_sizes hm
              exact smaller a m (by simp only [Ty.size] at total; omega) ha (hb.member hm)
          | @args name ps qs length covariant =>
              refine Or.inr ⟨lower.1, ?_⟩
              rw [Ty.bottomFree, Ty.allBottomFree_iff]
              intro t ht
              have inhabited : t ≠ .bottom := fun empty =>
                bottom_not_mem_of_meet ab ba met (empty ▸ ht)
              obtain ⟨i, hi, rfl⟩ := List.mem_iff_getElem.1 ht
              rw [List.getElem_zipWith] at inhabited ⊢
              have hp := List.getElem_mem (l := ps) (n := i) (by simp at hi; omega)
              have hq := List.getElem_mem (l := qs) (n := i) (by simp at hi; omega)
              have := Ty.size_lt_sizes hp
              have := Ty.size_lt_sizes hq
              exact ((smaller _ _ (by simp only [Ty.size] at total; omega) (ha.arg hp)
                (hb.arg hq)).resolve_left inhabited).bottomFree
          | emptyArg => exact Or.inl rfl
          | apart => exact Or.inl rfl

/-! ## Common lower types -/

/-- Whether some type without the bottom lies below two types. -/
def Common (h : Hierarchy) (a b : Ty) : Prop :=
  ∃ t : Ty, t.Solid h ∧ isSubtype h t a = true ∧ isSubtype h t b = true

theorem not_isSubtype_bottom_of_solid (solid : t.Solid h) : ¬ isSubtype h t .bottom = true := by
  intro below
  have free := solid.bottomFree
  rw [(isSubtype_bottom_iff solid.ground).1 below] at free
  cases free

/-- Types overlap exactly if they have something in common. -/
theorem meet_ne_bottom_iff (ordered : Hierarchy.Ordered h.decls) (uniform : h.UniformVariance)
    (ha : a.Solid h) (hb : b.Solid h) : meet h a b ≠ .bottom ↔ Common h a b := by
  constructor
  · intro overlap
    obtain ⟨-, left, right⟩ := meet_lowerBound ordered ha.ground hb.ground
    exact ⟨_, (solid_meet ordered ha hb).resolve_left overlap, left, right⟩
  · rintro ⟨t, solid, ta, tb⟩ empty
    have below := isSubtype_meet ordered uniform ha.ground hb.ground solid.ground solid.bottomFree
      ta tb
    rw [empty] at below
    exact not_isSubtype_bottom_of_solid solid below

end Multimethod.Lattice
