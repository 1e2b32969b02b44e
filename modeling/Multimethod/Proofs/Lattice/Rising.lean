import Multimethod.Proofs.Hierarchy.Height
import Multimethod.Proofs.Lattice.Widening

/-!
# Positions that are widened again and again

A position whose type is widened against all types that it has had before only rises. The type it
has reached changes at most as often as the threshold says while types are joined, and then once
for each abstract type on the way up, and once to the top.
-/

namespace Multimethod.Lattice

/-- The types that a position has had, in order: a first one, and then others that were widened
    against all of them before. Where the position was missing stands the bottom. -/
inductive Climbs (h : Hierarchy) (threshold : Nat) (first : Ty) : List Ty → Prop where
  | start (ground : first.ground h = true) : Climbs h threshold first [first]
  | missing {ts : List Ty} (before : Climbs h threshold first ts) :
      Climbs h threshold first (ts ++ [.bottom])
  | widened {ts : List Ty} {a : Ty} (before : Climbs h threshold first ts)
      (ground : a.ground h = true) :
      Climbs h threshold first (ts ++ [widen h (ts ++ [a]) threshold])

/-- The last of the different types in a list. -/
def peak (ts : List Ty) : Ty :=
  (Ty.distinct ts).getLast?.getD .bottom

/-- Whether a type is the top or abstract, as those that widening goes up to. -/
def isNominal : Ty → Bool
  | .any => true
  | .abstract _ => true
  | _ => false

/-- How many abstract types, without the root, stand above a type that is the top or abstract. -/
def rank (h : Hierarchy) : Ty → Nat
  | .abstract name => (h.abstractsAbove name).length
  | _ => 0

/-- Operations that go to the upper one of two comparable types, and above the second of any two. -/
structure Raises (h : Hierarchy) (f : Ty → Ty → Ty) : Prop where
  up : ∀ a b, isSubtype h a b = true → f a b = b
  stay : ∀ a b, isSubtype h a b = false → isSubtype h b a = true → f a b = a
  ground : ∀ a b, a.ground h = true → b.ground h = true → (f a b).ground h = true
  above : ∀ a b, a.ground h = true → b.ground h = true → isSubtype h b (f a b) = true

variable {h : Hierarchy} {a b t first : Ty} {ts : List Ty} {f : Ty → Ty → Ty} {threshold : Nat}

/-! ## Different types -/

theorem forall_mem_concat {p : Ty → Prop} (hts : ∀ t ∈ ts, p t) (ha : p a) :
    ∀ t ∈ ts ++ [a], p t := by
  simpa [or_imp, forall_and] using And.intro hts ha

theorem peak_mem (ts : List Ty) : peak ts = .bottom ∨ peak ts ∈ Ty.distinct ts := by
  unfold peak
  cases found : (Ty.distinct ts).getLast? with
  | none => exact Or.inl rfl
  | some t => exact Or.inr (List.mem_of_getLast? found)

/-- A well-formed type at the end of a list is known, or it is the last of the different types. -/
theorem distinct_concat_cases (hts : ∀ t ∈ ts, t.ground h = true) (ha : a.ground h = true) :
    (a = .bottom ∨ a ∈ Ty.distinct ts) ∧ Ty.distinct (ts ++ [a]) = Ty.distinct ts ∨
      a ≠ .bottom ∧ a ∉ Ty.distinct ts ∧ Ty.distinct (ts ++ [a]) = Ty.distinct ts ++ [a] := by
  have known : (a.isBottom || (Ty.distinct ts).any (·.id == a.id)) = true ↔
      a = .bottom ∨ a ∈ Ty.distinct ts := by
    rw [Bool.or_eq_true, List.any_eq_true]
    refine or_congr (by cases a <;> simp [Ty.isBottom]) ⟨?_, fun member => ⟨a, member, by simp⟩⟩
    rintro ⟨t, member, same⟩
    have ht := hts t ((mem_distinct_iff hts).1 member).1
    exact Ty.ground_id_inj ht ha (by simpa using same) ▸ member
  rw [Ty.distinct_concat]
  split
  case isTrue met => exact Or.inl ⟨known.1 met, rfl⟩
  case isFalse new =>
      obtain ⟨notBottom, unknown⟩ := not_or.1 (mt known.2 new)
      exact Or.inr ⟨notBottom, unknown, rfl⟩

theorem ground_getLast {row : List Ty} (ground : ∀ t ∈ row, t.ground h = true) :
    (row.getLast?.getD .bottom).ground h = true := by
  cases found : row.getLast? with
  | none => exact Ty.ground_bottom h
  | some t => exact ground t (List.mem_of_getLast? found)

/-- Every type of an ascending list lies below its last one. -/
theorem isSubtype_getLast {row : List Ty} (ascends : row.Pairwise fun t u => isSubtype h t u = true)
    (member : t ∈ row) : isSubtype h t (row.getLast?.getD .bottom) = true := by
  rcases row.eq_nil_or_concat with rfl | ⟨front, last, rfl⟩
  · cases member
  · rw [List.concat_eq_append] at ascends member ⊢
    rw [List.getLast?_concat, Option.getD_some]
    rcases List.mem_append.1 member with earlier | here
    · exact (List.pairwise_append.1 ascends).2.2 t earlier last (List.mem_singleton_self last)
    · exact List.mem_singleton.1 here ▸ isSubtype_refl h t

/-! ## Operations that raise -/

theorem raises_join (ordered : Hierarchy.Ordered h.decls) : Raises h (join h) where
  up a b below := if_pos below
  stay a b notBelow below := by rw [join, if_neg (by simp [notBelow]), if_pos below]
  ground a b ha hb := ground_join ha hb
  above a b ha hb := (isSubtype_join ordered ha hb).2

theorem commonAncestor_of_isSubtype (below : isSubtype h a b = true) :
    commonAncestor h a b = b := by
  unfold commonAncestor ancestorOf
  rw [if_pos below]

theorem raises_commonAncestor (ordered : Hierarchy.Ordered h.decls)
    (typesGround : h.TypesGround) : Raises h (commonAncestor h) where
  up a b below := commonAncestor_of_isSubtype below
  stay a b notBelow below := by
    unfold commonAncestor ancestorOf
    rw [if_neg (by simp [notBelow]), if_pos below]
  ground a b ha hb := (above_ancestorOf ordered typesGround a b ha hb).ground
  above a b ha hb := (above_ancestorOf ordered typesGround a b ha hb).right

/-- An ascending list is raised to its last type. -/
theorem Raises.foldl_of_ascends (raises : Raises h f) {row : List Ty}
    (ascends : row.Pairwise fun t u => isSubtype h t u = true)
    (lower : ∀ t ∈ row, isSubtype h a t = true) : row.foldl f a = row.getLast?.getD a := by
  induction row generalizing a with
  | nil => rfl
  | cons t row ih =>
      obtain ⟨below, ascends⟩ := List.pairwise_cons.1 ascends
      rw [List.foldl_cons, raises.up a t (lower t List.mem_cons_self), ih ascends below,
        List.getLast?_cons, Option.getD_some]

/-- One more type either changes nothing about what an ascending list is raised to, or leads to a
    type that is not in the list. -/
theorem Raises.foldl_concat (raises : Raises h f) (ordered : Hierarchy.Ordered h.decls)
    {row : List Ty} (ascends : row.Pairwise fun t u => isSubtype h t u = true)
    (ground : ∀ t ∈ row, t.ground h = true) (ha : a.ground h = true) (new : a ∉ row) :
    (row ++ [a]).foldl f .bottom = row.getLast?.getD .bottom ∨
      (row ++ [a]).foldl f .bottom ∉ row := by
  have raised := raises.foldl_of_ascends ascends fun t _ => bottom_isSubtype h t
  rw [List.foldl_append, raised, List.foldl_cons, List.foldl_nil]
  have last := ground_getLast ground
  cases up : isSubtype h (row.getLast?.getD .bottom) a with
  | true =>
      rw [raises.up _ _ up]
      exact Or.inr new
  | false =>
      cases below : isSubtype h a (row.getLast?.getD .bottom) with
      | true => exact Or.inl (raises.stay _ _ up below)
      | false =>
          refine Or.inr fun member => ?_
          have through := isSubtype_trans ordered ha (raises.ground _ _ last ha) last
            (raises.above _ _ last ha) (isSubtype_getLast ascends member)
          rw [below] at through
          cases through

/-! ## What is added by widening -/

/-- Types are joined while there are few of them; beyond that the result is the top, or an abstract
    type that is a common ancestor. -/
theorem widen_cases (h : Hierarchy) (ts : List Ty) (threshold : Nat) :
    (Ty.distinct ts).length ≤ threshold ∧
        widen h ts threshold = (Ty.distinct ts).foldl (join h) .bottom ∨
      isNominal (widen h ts threshold) = true ∧
        (widen h ts threshold = .any ∨
          widen h ts threshold = (Ty.distinct ts).foldl (commonAncestor h) .bottom) := by
  unfold widen
  dsimp only
  split
  case isTrue few => exact Or.inl ⟨few, rfl⟩
  case isFalse many =>
      right
      cases different : Ty.distinct ts with
      | nil => simp [different] at many
      | cons first others =>
          rw [List.foldl_cons, commonAncestor_of_isSubtype (bottom_isSubtype h first)]
          dsimp only
          split
          case h_1 name found => exact ⟨rfl, Or.inr found.symm⟩
          case h_2 => exact ⟨rfl, Or.inl rfl⟩

/-- The bottom is not counted among the different types. -/
theorem distinct_eq_nil (hts : ∀ t ∈ ts, t.ground h = true)
    (below : ∀ t ∈ ts, isSubtype h t .bottom = true) : Ty.distinct ts = [] := by
  refine List.eq_nil_iff_forall_not_mem.2 fun t member => ?_
  obtain ⟨ht, notBottom⟩ := (mem_distinct_iff hts).1 member
  rw [(isSubtype_bottom_iff (hts t ht)).1 (below t ht)] at notBottom
  cases notBottom

/-- Where the different types ascend, the top can only be the last of them. -/
theorem peak_of_any_mem (hts : ∀ t ∈ ts, t.ground h = true)
    (ascends : (Ty.distinct ts).Pairwise fun t u => isSubtype h t u = true)
    (known : Ty.any ∈ Ty.distinct ts) : peak ts = .any := by
  have last := ground_getLast fun t ht => hts t ((mem_distinct_iff hts).1 ht).1
  exact (any_isSubtype_iff last).1 (isSubtype_getLast ascends known)

/-- Where the different types ascend, an operation that raises stays at the last of them, or goes to
    a new type together with one more type. -/
theorem Raises.foldl_distinct_concat (raises : Raises h f) (ordered : Hierarchy.Ordered h.decls)
    (hts : ∀ t ∈ ts, t.ground h = true) (ha : a.ground h = true)
    (ascends : (Ty.distinct ts).Pairwise fun t u => isSubtype h t u = true) :
    (Ty.distinct (ts ++ [a])).foldl f .bottom = peak ts ∨
      (Ty.distinct (ts ++ [a])).foldl f .bottom ∉ Ty.distinct ts ∧
        (Ty.distinct (ts ++ [a])).length = (Ty.distinct ts).length + 1 := by
  have taken : ∀ t ∈ Ty.distinct ts, t.ground h = true := fun t ht =>
    hts t ((mem_distinct_iff hts).1 ht).1
  rcases distinct_concat_cases hts ha with ⟨-, same⟩ | ⟨-, new, more⟩
  · rw [same]
    exact Or.inl (raises.foldl_of_ascends ascends fun t _ => bottom_isSubtype h t)
  · rw [more]
    refine (raises.foldl_concat ordered ascends taken ha new).imp_right fun unknown => ?_
    exact ⟨unknown, by rw [List.length_append, List.length_singleton]⟩

/-- Where the different types ascend, one more widening stays at the last of them or goes to a new
    type: to the top or an abstract type, or to any type while there are few. -/
theorem widen_concat (ordered : Hierarchy.Ordered h.decls) (typesGround : h.TypesGround)
    (hts : ∀ t ∈ ts, t.ground h = true) (ha : a.ground h = true)
    (ascends : (Ty.distinct ts).Pairwise fun t u => isSubtype h t u = true) (threshold : Nat) :
    widen h (ts ++ [a]) threshold = peak ts ∨
      widen h (ts ++ [a]) threshold ≠ .bottom ∧ widen h (ts ++ [a]) threshold ∉ Ty.distinct ts ∧
        (isNominal (widen h (ts ++ [a]) threshold) = true ∨
          (Ty.distinct ts).length < threshold) := by
  by_cases bottom : widen h (ts ++ [a]) threshold = .bottom
  · -- nothing but the bottom is widened to the bottom
    left
    have upper := (isSubtype_widen ordered typesGround (forall_mem_concat hts ha) threshold).2
    rw [bottom] at upper ⊢
    rw [peak, distinct_eq_nil hts fun t ht => upper t (List.mem_append_left _ ht)]
    rfl
  rcases widen_cases h (ts ++ [a]) threshold with ⟨few, joined⟩ | ⟨nominal, top | ancestor⟩
  · rw [joined] at bottom ⊢
    rcases (raises_join ordered).foldl_distinct_concat ordered hts ha ascends with
      same | ⟨new, longer⟩
    · exact Or.inl same
    · exact Or.inr ⟨bottom, new, Or.inr (by omega)⟩
  · by_cases known : Ty.any ∈ Ty.distinct ts
    · exact Or.inl (top.trans (peak_of_any_mem hts ascends known).symm)
    · exact Or.inr ⟨bottom, top ▸ known, Or.inl nominal⟩
  · rcases (raises_commonAncestor ordered typesGround).foldl_distinct_concat ordered hts ha
      ascends with same | ⟨new, -⟩
    · exact Or.inl (ancestor.trans same)
    · exact Or.inr ⟨bottom, ancestor ▸ new, Or.inl nominal⟩

/-! ## How far a position climbs -/

theorem Climbs.ascends (ordered : Hierarchy.Ordered h.decls) (typesGround : h.TypesGround)
    (climbs : Climbs h threshold first ts) :
    (∀ t ∈ ts, t.ground h = true) ∧
      (Ty.distinct ts).Pairwise fun t u => isSubtype h t u = true := by
  induction climbs with
  | start ground =>
      refine ⟨by simpa using ground, ?_⟩
      unfold Ty.distinct Ty.distinctFrom
      split
      · exact .nil
      · exact List.pairwise_singleton _ _
  | missing before ih =>
      obtain ⟨hts, row⟩ := ih
      refine ⟨forall_mem_concat hts (Ty.ground_bottom h), ?_⟩
      rcases distinct_concat_cases hts (Ty.ground_bottom h) with ⟨-, same⟩ | ⟨absent, -⟩
      · rwa [same]
      · exact absurd rfl absent
  | @widened ts a before ha ih =>
      obtain ⟨hts, row⟩ := ih
      obtain ⟨ground, upper⟩ :=
        isSubtype_widen ordered typesGround (forall_mem_concat hts ha) threshold
      refine ⟨forall_mem_concat hts ground, ?_⟩
      rcases distinct_concat_cases hts ground with ⟨-, same⟩ | ⟨-, -, more⟩
      · rwa [same]
      · rw [more]
        refine List.pairwise_append.2 ⟨row, List.pairwise_singleton _ _, fun t ht u hu => ?_⟩
        rw [List.mem_singleton.1 hu]
        exact upper t (List.mem_append_left _ ((mem_distinct_iff hts).1 ht).1)

/-- What a position is widened to is the peak already, or becomes the new one. -/
theorem Climbs.distinct_widened (ordered : Hierarchy.Ordered h.decls)
    (typesGround : h.TypesGround) (before : Climbs h threshold first ts)
    (ha : a.ground h = true) :
    widen h (ts ++ [a]) threshold = peak ts ∧
        Ty.distinct (ts ++ [widen h (ts ++ [a]) threshold]) = Ty.distinct ts ∨
      Ty.distinct (ts ++ [widen h (ts ++ [a]) threshold]) =
          Ty.distinct ts ++ [widen h (ts ++ [a]) threshold] ∧
        (isNominal (widen h (ts ++ [a]) threshold) = true ∨
          (Ty.distinct ts).length < threshold) := by
  obtain ⟨hts, ascends⟩ := before.ascends ordered typesGround
  have ground := (isSubtype_widen ordered typesGround (forall_mem_concat hts ha) threshold).1
  rcases distinct_concat_cases hts ground with ⟨known, same⟩ | ⟨notBottom, new, more⟩
  · rcases widen_concat ordered typesGround hts ha ascends threshold with
      stays | ⟨notBottom, new, -⟩
    · exact Or.inl ⟨stays, same⟩
    · exact absurd known (not_or.2 ⟨notBottom, new⟩)
  · rcases widen_concat ordered typesGround hts ha ascends threshold with
      stays | ⟨-, -, reason⟩
    · rcases peak_mem ts with bottom | member
      · exact absurd (stays.trans bottom) notBottom
      · exact absurd (stays ▸ member) new
    · exact Or.inr ⟨more, reason⟩

/-- What was widened last is the peak. -/
theorem Climbs.peak_widened (ordered : Hierarchy.Ordered h.decls) (typesGround : h.TypesGround)
    (before : Climbs h threshold first ts) (ha : a.ground h = true) :
    peak (ts ++ [widen h (ts ++ [a]) threshold]) = widen h (ts ++ [a]) threshold := by
  rcases before.distinct_widened ordered typesGround ha with ⟨stays, same⟩ | ⟨more, -⟩
  · rw [peak, same]
    exact stays.symm
  · rw [peak, more, List.getLast?_concat, Option.getD_some]

theorem peak_singleton (t : Ty) : peak [t] = t := by
  unfold peak Ty.distinct
  cases t <;> rfl

theorem abstract_of_ground {name : String} (ground : (Ty.abstract name).ground h = true) :
    h.isAbstract name = true ∧ name ≠ "Any" := by
  simp only [Ty.ground, Hierarchy.hasAbstract, isTypeName, Bool.and_eq_true, bne_iff_ne] at ground
  exact ⟨ground.2, ground.1.1.1.2⟩

/-- A type that is the top or abstract has fewer abstract types above it than those below it. -/
theorem rank_lt (ordered : Hierarchy.Ordered h.decls) (ha : a.ground h = true)
    (hb : b.ground h = true) (nominal : isNominal a = true) (nominal' : isNominal b = true)
    (below : isSubtype h a b = true) (different : a ≠ b) : rank h b < rank h a := by
  match a, b with
  | .any, b => exact absurd ((any_isSubtype_iff hb).1 below).symm different
  | .abstract name, .any =>
      obtain ⟨declared, notRoot⟩ := abstract_of_ground ha
      have own : name ∈ h.abstractsAbove name := by
        refine List.mem_filter.2 ⟨Hierarchy.self_mem_chain h.decls name, ?_⟩
        simp [declared, notRoot]
      exact List.length_pos_of_mem own
  | .abstract name, .abstract above =>
      rw [abstract_isSubtype_abstract ha hb] at below
      obtain ⟨declared, notRoot⟩ := abstract_of_ground ha
      refine Hierarchy.abstractsAbove_lt ordered declared notRoot below ?_
      rintro rfl
      exact different rfl

theorem rank_le (ha : a.ground h = true) : rank h a ≤ h.abstractHeight := by
  cases a with
  | abstract name =>
      exact Hierarchy.abstractsAbove_le (abstract_of_ground ha).1
  | _ => exact Nat.zero_le _

/-- Among different types that ascend, no more are the top or abstract than the hierarchy is high,
    and one. -/
theorem length_nominal_le (ordered : Hierarchy.Ordered h.decls) (hts : ∀ t ∈ ts, t.ground h = true)
    (ascends : ts.Pairwise fun t u => isSubtype h t u = true)
    (apart : ts.Pairwise fun t u => t.id ≠ u.id) :
    (ts.filter isNominal).length ≤ h.abstractHeight + 1 := by
  have falls : ((ts.filter isNominal).map (rank h)).Pairwise fun m n => n < m := by
    refine List.pairwise_map.2 (List.pairwise_filter.2 ?_)
    refine (ascends.and apart).imp_of_mem fun {t u} ht hu ⟨below, different⟩ nominal nominal' => ?_
    exact rank_lt ordered (hts t ht) (hts u hu) nominal nominal' below fun same =>
      different (same ▸ rfl)
  have once : ((ts.filter isNominal).map (rank h)).Nodup :=
    falls.imp fun less => (ne_of_lt less).symm
  have few : (ts.filter isNominal).map (rank h) ⊆ List.range (h.abstractHeight + 1) := by
    intro n member
    obtain ⟨t, ht, rfl⟩ := List.mem_map.1 member
    exact List.mem_range.2 (Nat.lt_succ_of_le (rank_le (hts t (List.mem_filter.1 ht).1)))
  have bound := (List.subperm_of_subset once few).length_le
  rwa [List.length_map, List.length_range] at bound

/-- Beside its first type, a position takes as many others as the threshold allows, and then only
    the top and abstract types. -/
theorem Climbs.length_le_nominal (ordered : Hierarchy.Ordered h.decls)
    (typesGround : h.TypesGround) (climbs : Climbs h threshold first ts) :
    (Ty.distinct ts).length ≤
      (Ty.distinct [first]).length + threshold + ((Ty.distinct ts).filter isNominal).length := by
  induction climbs with
  | start => omega
  | missing before ih =>
      obtain ⟨hts, -⟩ := before.ascends ordered typesGround
      rcases distinct_concat_cases hts (Ty.ground_bottom h) with ⟨-, same⟩ | ⟨absent, -⟩
      · rwa [same]
      · exact absurd rfl absent
  | widened before ha ih =>
      rcases before.distinct_widened ordered typesGround ha with ⟨-, same⟩ | ⟨more, nominal | few⟩
      · rwa [same]
      · rw [more, List.filter_append, List.filter_cons_of_pos nominal, List.filter_nil]
        simp only [List.length_append, List.length_singleton]
        omega
      · rw [more, List.length_append, List.length_singleton]
        omega

/-- A position has at most so many different types, whatever it is widened against. -/
theorem Climbs.length_le (ordered : Hierarchy.Ordered h.decls) (typesGround : h.TypesGround)
    (climbs : Climbs h threshold first ts) :
    (Ty.distinct ts).length ≤
      (Ty.distinct [first]).length + (threshold + h.abstractHeight + 1) := by
  obtain ⟨hts, ascends⟩ := climbs.ascends ordered typesGround
  have taken : ∀ t ∈ Ty.distinct ts, t.ground h = true := fun t ht =>
    hts t ((mem_distinct_iff hts).1 ht).1
  have joined := climbs.length_le_nominal ordered typesGround
  have nominal := length_nominal_le ordered taken ascends (Ty.pairwise_distinctFrom [] ts).1
  omega

end Multimethod.Lattice
