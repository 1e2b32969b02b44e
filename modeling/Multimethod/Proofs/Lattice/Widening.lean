import Mathlib.Data.List.TakeWhile
import Multimethod.Lattice.Widening
import Multimethod.Proofs.Lattice.Join

/-!
# Widened types

A widened type stands above every type that it replaces. Up to the threshold it is their join;
beyond that it is an ancestor which is found by going up from one of them until the others lie
below. The ancestors are well-formed if all declared types are.
-/

namespace Multimethod

/-- Whether every declared type is well-formed. -/
def Hierarchy.TypesGround (h : Hierarchy) : Prop :=
  ∀ name type, h.typeOf? name = some type → type.ground h = true

theorem Hierarchy.typesGround_of_decls {h : Hierarchy}
    (decls : h.decls.all (fun decl => decl.toTy.ground h) = true) : h.TypesGround := by
  intro name type found
  obtain ⟨decl, known, rfl⟩ := Option.map_eq_some_iff.1 found
  exact List.all_eq_true.1 decls decl (List.mem_of_find?_eq_some known)

namespace Lattice

variable {h : Hierarchy} {a b t : Ty} {ms ps qs ts : List Ty} {name : String}

/-- A well-formed type above two others. -/
structure Above (h : Hierarchy) (a b t : Ty) : Prop where
  ground : t.ground h = true
  left : isSubtype h a t = true
  right : isSubtype h b t = true

/-! ## Common ancestors -/

/-- An abstract type that is met on the way up from a name lies above all types of that name and
    above the other type. -/
theorem nominalAncestor_cases (typesGround : h.TypesGround) (name : String) (b : Ty) :
    nominalAncestor h name b = .any ∨
      ∃ above, nominalAncestor h name b = .abstract above ∧
        (Ty.abstract above).ground h = true ∧ h.isAncestor above name = true ∧
        isSubtype h b (.abstract above) = true := by
  unfold nominalAncestor
  dsimp only
  split
  case h_2 => exact Or.inl rfl
  case h_1 above found =>
      have known := List.mem_of_find?_eq_some found
      have chosen := List.find?_some found
      rw [Bool.and_eq_true] at chosen
      have onWay : above ∈ h.ancestors name := (List.takeWhile_subset _) known
      have notAny : above ≠ "Any" := by
        have passed := List.mem_takeWhile_imp known
        rw [Bool.and_eq_true, bne_iff_ne] at passed
        exact passed.1
      refine Or.inr ⟨above, rfl, ?_, Hierarchy.isAncestor_iff_mem.2 onWay, chosen.2⟩
      cases declared : h.find? above with
      | none => simp [declared] at chosen
      | some decl =>
          have named : decl.name = above := by simpa using List.find?_some declared
          have isAbstract : decl.isAbstract = true := by simpa [declared] using chosen.1
          refine typesGround above _ ?_
          rw [Hierarchy.typeOf?, declared, Option.map_some, TypeDecl.toTy, named,
            if_neg notAny, if_pos isAbstract]

theorem above_concrete_ancestor (typesGround : h.TypesGround)
    (ha : (Ty.concrete name ps).ground h = true) (b : Ty) :
    Above h (.concrete name ps) b (nominalAncestor h name b) := by
  rcases nominalAncestor_cases typesGround name b with top | ⟨above, found, ground, up, right⟩
  · rw [top]
    exact ⟨Ty.ground_any h, isSubtype_any h _, isSubtype_any h b⟩
  · rw [found]
    exact ⟨ground, (concrete_isSubtype_abstract ha ground).trans up, right⟩

theorem above_abstract_ancestor (typesGround : h.TypesGround)
    (ha : (Ty.abstract name).ground h = true) (b : Ty) :
    Above h (.abstract name) b (nominalAncestor h name b) := by
  rcases nominalAncestor_cases typesGround name b with top | ⟨above, found, ground, up, right⟩
  · rw [top]
    exact ⟨Ty.ground_any h, isSubtype_any h _, isSubtype_any h b⟩
  · rw [found]
    exact ⟨ground, (abstract_isSubtype_abstract ha ground).trans up, right⟩

theorem argsBelow_of_covariant {params : List TypeParam} (length : ps.length = qs.length)
    (enough : ps.length ≤ params.length)
    (covariant : params.all (·.variance == .covariant) = true)
    (below : ∀ i (hp : i < ps.length) (hq : i < qs.length), isSubtype h ps[i] qs[i] = true) :
    argsBelow h params ps qs = true := by
  refine argsBelow_iff.2 ⟨length, fun i hp hq => ⟨below i hp hq, Or.inl ?_⟩⟩
  rw [List.getElem?_eq_getElem (Nat.lt_of_lt_of_le hp enough), Option.any_some]
  exact List.all_eq_true.1 covariant _ (List.getElem_mem _)

/-- Argument lists above two others, position by position. -/
structure ArgsAbove (h : Hierarchy) (ps qs ts : List Ty) : Prop where
  length : ts.length = ps.length
  ground : ∀ t ∈ ts, t.ground h = true
  left : ∀ i (hp : i < ps.length) (ht : i < ts.length), isSubtype h ps[i] ts[i] = true
  right : ∀ i (hq : i < qs.length) (ht : i < ts.length), isSubtype h qs[i] ts[i] = true

/-- An instance of a covariant type lies below the instance whose arguments lie above. -/
theorem above_concrete (ha : (Ty.concrete name ps).ground h = true)
    (hb : (Ty.concrete name qs).ground h = true) (length : ps.length = qs.length)
    (nonempty : ps ≠ []) (covariant : h.allCovariant name = true)
    (args : ArgsAbove h ps qs ts) :
    Above h (.concrete name ps) (.concrete name qs) (.concrete name ts) := by
  obtain ⟨declared, arity, -⟩ := Ty.ground_concrete.1 ha
  have many : ps.length = (h.paramsOf name).length := arity.resolve_left nonempty
  have ground : (Ty.concrete name ts).ground h = true :=
    Ty.ground_concrete.2 ⟨declared, Or.inr (args.length.trans many), args.ground⟩
  refine ⟨ground, ?_, ?_⟩
  · refine (concrete_isSubtype_concrete_iff ha ground).2 ⟨rfl, Or.inr ?_⟩
    exact argsBelow_of_covariant args.length.symm (Nat.le_of_eq many) covariant args.left
  · refine (concrete_isSubtype_concrete_iff hb ground).2 ⟨rfl, Or.inr ?_⟩
    have length' : qs.length = ts.length := length.symm.trans args.length.symm
    exact argsBelow_of_covariant length' (Nat.le_of_eq (length.symm.trans many)) covariant
      args.right

mutual

theorem above_ancestorOf (ordered : Hierarchy.Ordered h.decls) (typesGround : h.TypesGround)
    (a b : Ty) (ha : a.ground h = true) (hb : b.ground h = true) :
    Above h a b (ancestorOf h a b).1 := by
  unfold ancestorOf
  split
  case isTrue below => exact ⟨hb, below, isSubtype_refl h b⟩
  case isFalse notBelow =>
      split
      case isTrue below => exact ⟨ha, isSubtype_refl h a, below⟩
      case isFalse notAbove =>
          match a, b with
          | .any, b => exact absurd (isSubtype_any h b) notAbove
          | .bottom, b => exact absurd (bottom_isSubtype h b) notBelow
          | .typeVar _ _, _ => simp [Ty.ground] at ha
          | .union ms, b =>
              obtain ⟨ground, right, left⟩ := above_ancestorOfAll ordered typesGround b ms hb
                (Ty.ground_union.1 ha).2
              exact ⟨ground, (union_isSubtype_iff ha ground).2 left, right⟩
          | .concrete name ps, .any => exact absurd (isSubtype_any h _) notBelow
          | .concrete name ps, .bottom => exact absurd (bottom_isSubtype h _) notAbove
          | .concrete name ps, .typeVar _ _ => simp [Ty.ground] at hb
          | .concrete name ps, .union ms =>
              obtain ⟨ground, left, right⟩ := above_ancestorOfAll ordered typesGround _ ms ha
                (Ty.ground_union.1 hb).2
              exact ⟨ground, left, (union_isSubtype_iff hb ground).2 right⟩
          | .concrete name ps, .abstract other => exact above_concrete_ancestor typesGround ha _
          | .concrete name ps, .concrete other qs =>
              dsimp only
              split
              case isFalse => exact above_concrete_ancestor typesGround ha _
              case isTrue alike =>
                  simp only [Bool.and_eq_true, beq_iff_eq, Bool.not_eq_true',
                    List.isEmpty_eq_false_iff] at alike
                  obtain ⟨⟨⟨rfl, nonempty⟩, length⟩, covariant⟩ := alike
                  exact above_concrete ha hb length nonempty covariant
                    (above_ancestorOfArgs ordered typesGround ps qs length
                      (Ty.ground_concrete.1 ha).2.2 (Ty.ground_concrete.1 hb).2.2)
          | .abstract name, .any => exact absurd (isSubtype_any h _) notBelow
          | .abstract name, .bottom => exact absurd (bottom_isSubtype h _) notAbove
          | .abstract name, .typeVar _ _ => simp [Ty.ground] at hb
          | .abstract name, .union ms =>
              obtain ⟨ground, left, right⟩ := above_ancestorOfAll ordered typesGround _ ms ha
                (Ty.ground_union.1 hb).2
              exact ⟨ground, left, (union_isSubtype_iff hb ground).2 right⟩
          | .abstract name, .concrete other qs => exact above_abstract_ancestor typesGround ha _
          | .abstract name, .abstract other => exact above_abstract_ancestor typesGround ha _
  termination_by a.size + b.size
  decreasing_by all_goals simp only [Ty.size]; omega

theorem above_ancestorOfAll (ordered : Hierarchy.Ordered h.decls) (typesGround : h.TypesGround)
    (acc : Ty) (ms : List Ty) (hacc : acc.ground h = true) (hms : ∀ m ∈ ms, m.ground h = true) :
    (ancestorOfAll h acc ms).1.ground h = true ∧
      isSubtype h acc (ancestorOfAll h acc ms).1 = true ∧
      ∀ m ∈ ms, isSubtype h m (ancestorOfAll h acc ms).1 = true := by
  unfold ancestorOfAll
  match ms with
  | [] => exact ⟨hacc, isSubtype_refl h acc, by simp⟩
  | m :: ms =>
      have small := (ancestorOf h acc m).2
      have first := above_ancestorOf ordered typesGround acc m hacc (hms m List.mem_cons_self)
      obtain ⟨ground, upper, rest⟩ := above_ancestorOfAll ordered typesGround
        (ancestorOf h acc m).1 ms first.ground fun n hn => hms n (List.mem_cons_of_mem _ hn)
      refine ⟨ground, ?_, ?_⟩
      · exact isSubtype_trans ordered hacc first.ground ground first.left upper
      · intro n hn
        rcases List.mem_cons.1 hn with rfl | hn
        · exact isSubtype_trans ordered (hms n List.mem_cons_self) first.ground ground first.right
            upper
        · exact rest n hn
  termination_by acc.size + Ty.sizes ms
  decreasing_by all_goals simp only [Ty.sizes]; omega

theorem above_ancestorOfArgs (ordered : Hierarchy.Ordered h.decls) (typesGround : h.TypesGround)
    (ps qs : List Ty) (length : ps.length = qs.length) (hps : ∀ p ∈ ps, p.ground h = true)
    (hqs : ∀ q ∈ qs, q.ground h = true) : ArgsAbove h ps qs (ancestorOfArgs h ps qs).1 := by
  unfold ancestorOfArgs
  match ps, qs with
  | [], [] => exact ⟨rfl, by simp, by simp, by simp⟩
  | p :: ps, q :: qs =>
      have first := above_ancestorOf ordered typesGround p q (hps p List.mem_cons_self)
        (hqs q List.mem_cons_self)
      have rest := above_ancestorOfArgs ordered typesGround ps qs (Nat.succ.inj length)
        (fun r hr => hps r (List.mem_cons_of_mem _ hr))
        (fun r hr => hqs r (List.mem_cons_of_mem _ hr))
      refine ⟨congrArg Nat.succ rest.length, ?_, ?_, ?_⟩
      · intro t ht
        rcases List.mem_cons.1 ht with rfl | ht
        · exact first.ground
        · exact rest.ground t ht
      · intro i hp ht
        cases i with
        | zero => exact first.left
        | succ i => exact rest.left i (Nat.lt_of_succ_lt_succ hp) (Nat.lt_of_succ_lt_succ ht)
      · intro i hq ht
        cases i with
        | zero => exact first.right
        | succ i => exact rest.right i (Nat.lt_of_succ_lt_succ hq) (Nat.lt_of_succ_lt_succ ht)
  termination_by Ty.sizes ps + Ty.sizes qs
  decreasing_by all_goals simp only [Ty.sizes]; omega

end

/-! ## Widening -/

theorem above_foldl_commonAncestor (ordered : Hierarchy.Ordered h.decls)
    (typesGround : h.TypesGround) (ha : a.ground h = true) (hts : ∀ t ∈ ts, t.ground h = true) :
    (ts.foldl (commonAncestor h) a).ground h = true ∧
      ∀ t ∈ a :: ts, isSubtype h t (ts.foldl (commonAncestor h) a) = true := by
  induction ts generalizing a with
  | nil => exact ⟨ha, by simp [isSubtype_refl]⟩
  | cons t ts ih =>
      have ht := hts t List.mem_cons_self
      have step := above_ancestorOf ordered typesGround a t ha ht
      obtain ⟨ground, below⟩ := ih step.ground fun u hu => hts u (List.mem_cons_of_mem _ hu)
      have next := below _ List.mem_cons_self
      refine ⟨ground, fun u hu => ?_⟩
      rcases List.mem_cons.1 hu with rfl | hu
      · exact isSubtype_trans ordered ha step.ground ground step.left next
      · rcases List.mem_cons.1 hu with rfl | hu
        · exact isSubtype_trans ordered ht step.ground ground step.right next
        · exact below u (List.mem_cons_of_mem _ hu)

/-- Only the bottom is missing among the distinct types of a list. -/
theorem mem_distinct_iff (hts : ∀ t ∈ ts, t.ground h = true) :
    t ∈ Ty.distinct ts ↔ t ∈ ts ∧ t.isBottom = false := by
  have inj : ∀ t ∈ ts, ∀ u ∈ ts, t.id = u.id → t = u := fun t ht u hu =>
    Ty.ground_id_inj (hts t ht) (hts u hu)
  rw [Ty.distinct, Ty.mem_distinctFrom inj]
  simp

/-- What lies above the distinct types of a list lies above all of them. -/
theorem isSubtype_of_distinct (hts : ∀ t ∈ ts, t.ground h = true)
    (below : ∀ t ∈ Ty.distinct ts, isSubtype h t a = true) : ∀ t ∈ ts, isSubtype h t a = true := by
  intro t ht
  cases bottom : t.isBottom with
  | false => exact below t ((mem_distinct_iff hts).2 ⟨ht, bottom⟩)
  | true =>
      obtain rfl : t = .bottom := by cases t <;> simp_all [Ty.isBottom]
      exact bottom_isSubtype h a

/-- A widened type is well-formed and lies above every type of the history. -/
theorem isSubtype_widen (ordered : Hierarchy.Ordered h.decls) (typesGround : h.TypesGround)
    (hts : ∀ t ∈ ts, t.ground h = true) (threshold : Nat) :
    (widen h ts threshold).ground h = true ∧
      ∀ t ∈ ts, isSubtype h t (widen h ts threshold) = true := by
  have taken : ∀ t ∈ Ty.distinct ts, t.ground h = true := fun t ht =>
    hts t ((mem_distinct_iff hts).1 ht).1
  suffices upper : (widen h ts threshold).ground h = true ∧
      ∀ t ∈ Ty.distinct ts, isSubtype h t (widen h ts threshold) = true from
    ⟨upper.1, isSubtype_of_distinct hts upper.2⟩
  unfold widen
  dsimp only
  split
  case isTrue =>
      exact ⟨ground_joinAll taken, fun t ht =>
        isSubtype_joinAll ordered taken (taken t ht) ht (isSubtype_refl h t)⟩
  case isFalse =>
      cases distinct : Ty.distinct ts with
      | nil => exact ⟨Ty.ground_bottom h, by simp⟩
      | cons first others =>
          rw [distinct] at taken
          have upper := above_foldl_commonAncestor ordered typesGround
            (taken first List.mem_cons_self) fun t ht => taken t (List.mem_cons_of_mem _ ht)
          dsimp only
          split
          case h_1 name found => rwa [found] at upper
          case h_2 => exact ⟨Ty.ground_any h, fun t _ => isSubtype_any h t⟩

end Lattice

end Multimethod
