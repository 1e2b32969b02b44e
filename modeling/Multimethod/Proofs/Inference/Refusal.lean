import Multimethod.Proofs.Environment.Narrowing
import Multimethod.Proofs.Inference.Conversion
import Multimethod.Proofs.Lattice.Overlap

/-!
# When a conversion is refused

A type converts to another one if the two have a value in common, or if both are numbers. The rule
for numbers asks for the whole type. A union with a number among its members is refused where it
has nothing in common with the target, although the number alone converts; this is the only way in
which a conversion is refused that some value would pass.
-/

namespace Multimethod.Inference

open Multimethod.Lattice

variable {h : Hierarchy} {t m v value target converted : Ty}

/-! ## Values of a type -/

theorem ofValue_of_mem_alternatives (solid : t.Solid h) (hm : m ∈ t.alternatives) :
    m.OfValue h where
  ground := Ty.ground_of_mem_alternatives solid.ground hm
  inhabited := bottomFree_of_mem_alternatives solid.bottomFree hm
  single := by
    rintro ms rfl
    rcases Ty.isAtom_of_mem_alternatives solid.ground hm with atom | rfl
    · cases atom
    · simp at hm

/-- A type without the bottom has a value. -/
theorem exists_ofValue (solid : t.Solid h) : ∃ v : Ty, v.OfValue h ∧ isSubtype h v t = true := by
  obtain ⟨m, hm⟩ := List.exists_mem_of_ne_nil _
    ((Ty.bottomFree_iff_alternatives solid.ground).1 solid.bottomFree).1
  exact ⟨m, ofValue_of_mem_alternatives solid hm, isSubtype_of_mem_alternatives solid.ground hm⟩

theorem solid_of_ofValue (ofValue : v.OfValue h) : v.Solid h :=
  ⟨ofValue.ground, ofValue.inhabited⟩

/-- Two types have something in common exactly if they have a value in common. -/
theorem common_iff_ofValue (ordered : Hierarchy.Ordered h.decls) (ha : value.ground h = true)
    (hb : target.ground h = true) :
    Common h value target ↔
      ∃ v : Ty, v.OfValue h ∧ isSubtype h v value = true ∧ isSubtype h v target = true := by
  constructor
  · rintro ⟨t, solid, below, below'⟩
    obtain ⟨v, ofValue, under⟩ := exists_ofValue solid
    exact ⟨v, ofValue, isSubtype_trans ordered ofValue.ground solid.ground ha under below,
      isSubtype_trans ordered ofValue.ground solid.ground hb under below'⟩
  · rintro ⟨v, ofValue, below, below'⟩
    exact ⟨v, solid_of_ofValue ofValue, below, below'⟩

theorem common_of_isSubtype (ordered : Hierarchy.Ordered h.decls) (hv : v.ground h = true)
    (ha : value.ground h = true) (below : isSubtype h v value = true)
    (common : Common h v target) : Common h value target := by
  obtain ⟨t, solid, under, under'⟩ := common
  exact ⟨t, solid, isSubtype_trans ordered solid.ground hv ha under below, under'⟩

theorem ground_numberType (numbers : h.hasAbstract "Number" = true) :
    numberType.ground h = true :=
  numbers

theorem isBottom_eq_true_iff : t.isBottom = true ↔ t = .bottom := by
  cases t <;> simp [Ty.isBottom]

/-! ## The rules of a conversion -/

/-- A type is refused exactly if it has nothing in common with the target and the two are not both
    numbers. -/
theorem convertType_eq_none_iff (ordered : Hierarchy.Ordered h.decls) (uniform : h.UniformVariance)
    (ofValue : value.Solid h) (ofTarget : target.Solid h) :
    convertType h value target = none ↔ ¬ Common h value target ∧
      ¬ (isSubtype h value numberType = true ∧ isSubtype h target numberType = true) := by
  have overlap := meet_ne_bottom_iff ordered uniform ofValue ofTarget
  unfold convertType
  split
  case isTrue fits =>
    -- a value of the target is common to both
    have below : isSubtype h value target = true := by
      rcases Bool.or_eq_true_iff.1 fits with empty | below
      · exact isSubtype_of_isBottom empty target
      · exact below
    exact iff_of_false nofun fun refused =>
      refused.1 ⟨value, ofValue, isSubtype_refl h value, below⟩
  case isFalse =>
    split
    case isTrue numbers =>
      exact iff_of_false nofun fun refused => refused.2 (Bool.and_eq_true_iff.1 numbers)
    case isFalse others =>
      rw [Bool.and_eq_true] at others
      rw [← overlap]
      by_cases empty : meet h value target = .bottom
      · simp [empty, Ty.isBottom, others]
      · simp [isBottom_eq_true_iff, empty]

/-- A value of a type converts to a target exactly if the type has something in common with the
    target, or the target is a number and the type has numbers. -/
theorem exists_converts_iff (ordered : Hierarchy.Ordered h.decls) (uniform : h.UniformVariance)
    (numbers : h.hasAbstract "Number" = true) (ofValue : value.Solid h) (ofTarget : target.Solid h) :
    (∃ v : Ty, v.OfValue h ∧ isSubtype h v value = true ∧ convertType h v target ≠ none) ↔
      Common h value target ∨
        (isSubtype h target numberType = true ∧ Common h value numberType) := by
  have refused := fun (v : Ty) (single : v.OfValue h) =>
    convertType_eq_none_iff ordered uniform (solid_of_ofValue single) ofTarget
  constructor
  · rintro ⟨v, single, below, converts⟩
    rw [Ne, refused v single, not_and_or, not_not, not_not] at converts
    rcases converts with common | ⟨isNumber, number⟩
    · exact .inl (common_of_isSubtype ordered single.ground ofValue.ground below common)
    · exact .inr ⟨number, v, solid_of_ofValue single, below, isNumber⟩
  · rintro (common | ⟨number, common⟩)
    · obtain ⟨v, single, below, under⟩ :=
        (common_iff_ofValue ordered ofValue.ground ofTarget.ground).1 common
      refine ⟨v, single, below, fun none => ((refused v single).1 none).1 ?_⟩
      exact ⟨v, solid_of_ofValue single, isSubtype_refl h v, under⟩
    · obtain ⟨v, single, below, isNumber⟩ :=
        (common_iff_ofValue ordered ofValue.ground (ground_numberType numbers)).1 common
      exact ⟨v, single, below, fun none => ((refused v single).1 none).2 ⟨isNumber, number⟩⟩

/-! ## Numbers among others -/

/-- Whether a conversion to a kind of numbers is refused to the numbers of a type: not all of its
    values are numbers, and it has nothing in common with the target. -/
structure LosesNumbers (h : Hierarchy) (value target : Ty) : Prop where
  number : isSubtype h target numberType = true
  apart : meet h value target = .bottom
  others : isSubtype h value numberType = false
  numbers : ∃ v : Ty, v.OfValue h ∧ isSubtype h v value = true ∧ isSubtype h v numberType = true

/-- A value that is a number has a declared type. -/
theorem isAtom_of_isNumber (numbers : h.hasAbstract "Number" = true) (single : v.OfValue h)
    (isNumber : isSubtype h v numberType = true) : v.isAtom = true := by
  rcases v.atom_cases with rfl | rfl | ⟨ms, rfl⟩ | atom
  · cases (any_isSubtype_iff (ground_numberType numbers)).1 isNumber
  · cases single.inhabited
  · exact absurd rfl (single.single ms)
  · exact atom

/-- The numbers that a refused type loses are members of a union. -/
theorem LosesNumbers.exists_member (ordered : Hierarchy.Ordered h.decls)
    (uniform : h.UniformVariance) (numbers : h.hasAbstract "Number" = true)
    (ofValue : value.Solid h) (ofTarget : target.Solid h) (loses : LosesNumbers h value target) :
    ∃ ms, value = .union ms ∧ ∃ m ∈ ms, isSubtype h m numberType = true := by
  obtain ⟨v, single, below, isNumber⟩ := loses.numbers
  have ground := ground_numberType numbers
  have atom := isAtom_of_isNumber numbers single isNumber
  obtain ⟨m, hm, under⟩ :=
    (atom_isSubtype_iff_alternatives single.ground atom ofValue.ground).1 below
  have ofMember := ofValue_of_mem_alternatives ofValue hm
  -- no member is above the target, with which the type has nothing in common
  have apart : ¬ isSubtype h target m = true := fun above =>
    (meet_ne_bottom_iff ordered uniform ofValue ofTarget).2
      ⟨target, ofTarget, isSubtype_trans ordered ofTarget.ground ofMember.ground ofValue.ground
        above (isSubtype_of_mem_alternatives ofValue.ground hm), isSubtype_refl h target⟩
      loses.apart
  have member : isSubtype h m numberType = true := by
    rcases Ty.isAtom_of_mem_alternatives ofValue.ground hm with atomM | rfl
    · obtain isNumber | above | ⟨_, _, _, _, ⟨⟩, _⟩ := related_of_common_atom ordered uniform
        ofMember.ground ground single.ground atomM rfl atom under isNumber
      · exact isNumber
      · exact absurd (isSubtype_trans ordered ofTarget.ground ground ofMember.ground loses.number
          above) apart
    · obtain rfl := List.mem_singleton.1 hm
      exact absurd (isSubtype_any h target) apart
  have others : m ≠ value := by
    rintro rfl
    rw [loses.others] at member
    cases member
  cases value with
  | union ms => exact ⟨ms, rfl, m, hm, member⟩
  | bottom => simp at hm
  | _ => exact absurd (List.mem_singleton.1 hm) others

/-! ## Refused conversions -/

/-- A conversion is refused exactly if it is refused to every value, unless the type loses numbers:
    it is refused then, and some member of it is a number and converts. What a type converts to is
    below the target and converts to itself. -/
theorem conversion_refused_iff (declared : h.Declared) (uniform : h.UniformVariance)
    (numbers : h.hasAbstract "Number" = true) (ofValue : value.Solid h) (ofTarget : target.Solid h) :
    ((convertType h value target = none ↔
        ∀ v : Ty, v.OfValue h → isSubtype h v value = true → convertType h v target = none) ↔
      ¬ LosesNumbers h value target) ∧
    (LosesNumbers h value target → convertType h value target = none ∧
      ∃ ms, value = .union ms ∧ ∃ m ∈ ms,
        isSubtype h m numberType = true ∧ convertType h m target = some target) ∧
    ∀ converted, convertType h value target = some converted →
      isSubtype h converted target = true ∧ convertType h converted target = some converted := by
  have ordered := declared.ordered
  have overlap := meet_ne_bottom_iff ordered uniform ofValue ofTarget
  have whole := convertType_eq_none_iff ordered uniform ofValue ofTarget
  have lost : LosesNumbers h value target → convertType h value target = none := by
    intro loses
    refine whole.2 ⟨fun common => overlap.2 common loses.apart, fun both => ?_⟩
    rw [loses.others] at both
    cases both.1
  refine ⟨?_, fun loses => ⟨lost loses, ?_⟩, fun converted converts => ?_⟩
  · have loses : LosesNumbers h value target ↔ isSubtype h target numberType = true ∧
        ¬ Common h value target ∧ ¬ isSubtype h value numberType = true ∧
          Common h value numberType := by
      rw [common_iff_ofValue ordered ofValue.ground (ground_numberType numbers), ← overlap, not_not,
        Bool.not_eq_true]
      exact ⟨fun ⟨number, apart, others, numbers⟩ => ⟨number, apart, others, numbers⟩,
        fun ⟨number, apart, others, numbers⟩ => ⟨number, apart, others, numbers⟩⟩
    have each : (∀ v : Ty, v.OfValue h → isSubtype h v value = true →
        convertType h v target = none) ↔ ¬ (Common h value target ∨
          (isSubtype h target numberType = true ∧ Common h value numberType)) := by
      rw [← exists_converts_iff ordered uniform numbers ofValue ofTarget]
      simp only [not_exists, not_and, not_not]
    have all : isSubtype h value numberType = true → Common h value numberType :=
      fun isNumber => ⟨value, ofValue, isSubtype_refl h value, isNumber⟩
    rw [whole, each, loses]
    by_cases common : Common h value target
    · simp [common]
    · by_cases number : isSubtype h target numberType = true
      · by_cases isNumber : isSubtype h value numberType = true
        · simp [common, number, isNumber, all isNumber]
        · simp [common, number, isNumber]
      · simp [common, number]
  · obtain ⟨ms, rfl, m, hm, member⟩ :=
      loses.exists_member ordered uniform numbers ofValue ofTarget
    refine ⟨ms, rfl, m, hm, member, ?_⟩
    have apart : isSubtype h m target = false := by
      rw [Bool.eq_false_iff]
      intro below
      exact overlap.2 ⟨m, ofValue.member hm, isSubtype_of_mem_alternatives ofValue.ground hm,
        below⟩ loses.apart
    have inhabited : m.isBottom = false := by
      rw [Bool.eq_false_iff, Ne, isBottom_eq_true_iff]
      rintro rfl
      cases (ofValue.member hm).bottomFree
    simp [convertType, inhabited, apart, member, loses.number]
  · have below := convertType_isSubtype ordered ofValue.ground ofTarget.ground converts
    exact ⟨below, by simp [convertType, below]⟩

theorem uniformVariance_numberHierarchy : numberHierarchy.UniformVariance :=
  uniformVariance_of_decls (by simp [numberHierarchy, TypeDecl.any])

/-- Neither cells nor vectors of integers convert to a fraction. -/
theorem conversion_refused_iff_cells :
    numberHierarchy.Declared ∧ numberHierarchy.UniformVariance ∧
      numberHierarchy.hasAbstract "Number" = true ∧
      (Ty.union [.concrete "Cell" [], .vector .int]).Solid numberHierarchy ∧
      Ty.float.Solid numberHierarchy ∧
      ∀ v : Ty, v.OfValue numberHierarchy →
        isSubtype numberHierarchy v (.union [.concrete "Cell" [], .vector .int]) = true →
          convertType numberHierarchy v .float = none := by
  have ofValue : (Ty.union [.concrete "Cell" [], .vector .int]).Solid numberHierarchy :=
    ⟨by decide +kernel, by decide +kernel⟩
  have ofTarget : Ty.float.Solid numberHierarchy := ⟨by decide +kernel, by decide +kernel⟩
  obtain ⟨refused, lost, -⟩ := conversion_refused_iff numberHierarchy_declared
    uniformVariance_numberHierarchy (by decide +kernel) ofValue ofTarget
  refine ⟨numberHierarchy_declared, uniformVariance_numberHierarchy, by decide +kernel, ofValue,
    ofTarget, (refused.2 fun loses => ?_).1 (by decide +kernel)⟩
  -- no member is a number
  obtain ⟨-, ms, ⟨⟩, m, hm, isNumber, -⟩ := lost loses
  revert m
  decide +kernel

/-- An integer converts to a fraction, but an integer or cell does not. -/
theorem conversion_of_numbers_lost :
    numberHierarchy.Declared ∧ numberHierarchy.UniformVariance ∧
      numberHierarchy.hasAbstract "Number" = true ∧
      (Ty.union [.concrete "Cell" [], .int]).Solid numberHierarchy ∧
      Ty.float.Solid numberHierarchy ∧ Ty.int.OfValue numberHierarchy ∧
      isSubtype numberHierarchy .int (.union [.concrete "Cell" [], .int]) = true ∧
      convertType numberHierarchy (.union [.concrete "Cell" [], .int]) .float = none ∧
      convertType numberHierarchy .int .float = some .float := by
  refine ⟨numberHierarchy_declared, uniformVariance_numberHierarchy, by decide +kernel,
    ⟨by decide +kernel, by decide +kernel⟩, ⟨by decide +kernel, by decide +kernel⟩,
    ⟨by decide +kernel, by decide +kernel, nofun⟩, by decide +kernel, by decide +kernel, ?_⟩
  -- both are numbers and neither is the other
  unfold convertType
  rw [if_neg (by decide +kernel), if_pos (by decide +kernel)]

end Multimethod.Inference
