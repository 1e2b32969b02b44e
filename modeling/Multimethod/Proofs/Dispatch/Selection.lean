import Multimethod.Lowering.Compile
import Multimethod.Proofs.Dispatch.Specificity

/-!
# The selected method

The method a lookup selects is more specific than all other fully applicable ones. Broader
arguments may select another method. Whatever runs for narrower arguments is then still among the answers, as long as the
method that the broader arguments select applies fully to the narrower ones, too; and only then.
-/

namespace Multimethod.Dispatch

open Multimethod.Lattice

variable {h : Hierarchy} {table : MethodTable} {name : String} {args as bs cs : List Ty}
  {m a b c : Method} {found : List Match}

/-! ## Narrower arguments -/

section Narrower

variable {a b : List Ty} (ordered : Hierarchy.Ordered h.decls) (uniform : h.UniformVariance)
  (solidA : ∀ t ∈ a, t.Solid h) (single : ∀ t ∈ a, t.unionFree = true)
  (solidB : ∀ t ∈ b, t.Solid h)
  (below : List.Forall₂ (fun x y => isSubtype h x y = true) a b)

include ordered uniform solidA single solidB below in
/-- What is selected for narrower arguments is among the answers for the broader ones, if the
    method that is selected for those applies fully to the narrower ones. -/
theorem selected_answered_of_steady (wellFormed : ∀ m ∈ table.methods, m.WellFormed h) {x : Match}
    {rest : List Match} (narrow : lookup h table name a = .matched (x :: rest))
    (full : x.applicability = .full) (broad : lookup h table name b = .matched found)
    (steady : ∀ s ∈ found.head?, s.applicability = .full → AppliesFully h s.method a) :
    ∃ y ∈ found, y.method = x.method := by
  have wf : ∀ {args : List Ty} {y : Match}, y ∈ matching h table name args →
      y.method.WellFormed h := fun hy =>
    wellFormed _ (mem_methods_of_mem_methodsOf (mem_matching.1 hy).1)
  have formed : ∀ m ∈ table.methods, m.paramsWellFormed h = true := fun m hm =>
    paramsWellFormed_of_wellFormed (wellFormed m hm)
  -- the method also matches the broader arguments
  have hx : x ∈ matching h table name a := by
    rcases lookup_eq_matched ordered formed narrow with ⟨-, all⟩ | ⟨best, most, answer⟩
    · exact all ▸ List.mem_cons_self
    · cases answer
      have member : x ∈ maximal h (fullMatches (matching h table name a)) :=
        most ▸ List.mem_singleton_self x
      exact (mem_fullMatches.1 (mem_maximal.1 member).1).1
  obtain ⟨inTable, matchedA⟩ := mem_matching.1 hx
  obtain ⟨y, matchedB⟩ := Option.isSome_iff_exists.1 (matchMethod_of_broader ordered uniform
    (wf hx) solidA single solidB below (Option.isSome_iff_exists.2 ⟨x, matchedA⟩))
  obtain ⟨same, applies⟩ := method_of_matchMethod matchedB
  have hy : y ∈ matching h table name b := mem_matching.2 ⟨same ▸ inTable, same ▸ matchedB⟩
  rcases lookup_eq_matched ordered formed broad with ⟨-, rfl⟩ | ⟨best, mostB, rfl⟩
  · exact ⟨y, hy, same⟩
  · by_cases equal : best.method = x.method
    · exact ⟨best, List.mem_cons_self, equal⟩
    · have memberB : best ∈ maximal h (fullMatches (matching h table name b)) :=
        mostB ▸ List.mem_singleton_self best
      obtain ⟨bestFull, noneAbove⟩ := mem_maximal.1 memberB
      obtain ⟨hbest, isFull⟩ := mem_fullMatches.1 bestFull
      obtain ⟨z, matchedZ, fullZ⟩ := steady best rfl isFull
      obtain ⟨sameZ, -⟩ := method_of_matchMethod matchedZ
      have hz : z ∈ fullMatches (matching h table name a) :=
        mem_fullMatches.2 ⟨mem_matching.2 ⟨sameZ ▸ (mem_matching.1 hbest).1, sameZ ▸ matchedZ⟩,
          fullZ⟩
      -- for the narrower arguments the selected method beats the one selected before
      have beats : moreSpecific h x.method best.method = true := by
        rcases lookup_eq_matched ordered formed narrow with ⟨noFull, -⟩ | ⟨top, most, answer⟩
        · rw [noFull] at hz
          cases hz
        · cases answer
          obtain ⟨w, hw, above⟩ := exists_maximal ordered
            (fun y hy => paramsWellFormed_of_wellFormed (wf (mem_fullMatches.1 hy).1)) hz
          rw [most, List.mem_singleton] at hw
          subst hw
          rcases above with rfl | above
          · exact absurd sameZ.symm equal
          · exact sameZ ▸ above
      have partly : y.applicability = .partly := by
        cases applicability : y.applicability with
        | none => exact absurd applicability applies
        | partly => rfl
        | full => exact absurd (same ▸ beats) (noneAbove y (mem_fullMatches.2 ⟨hy, applicability⟩))
      refine ⟨y, List.mem_cons_of_mem _ (List.mem_filter.2 ⟨hy, ?_⟩), same⟩
      rw [partly, same, beats]
      rfl

end Narrower

/-! ## A method beside one that takes anything -/

/-- The method with as many parameters as `m`, each of which takes anything. -/
def catchAll (m : Method) : Method where
  name := m.name
  params := m.params.map fun p => ⟨p.name, .any⟩
  typeParams := []
  returns := none
  body := none
  intrinsic := none
  loc := m.loc

theorem wellFormed_catchAll (h : Hierarchy) (m : Method) : (catchAll m).WellFormed h where
  clause := ⟨List.nodup_nil, by simp [catchAll]⟩
  inScope := List.forall_mem_map.2 fun _ _ => trivial
  bottomFree := List.forall_mem_map.2 fun _ _ => rfl

theorem not_repeatsTypeVar_catchAll (m : Method) : repeatsTypeVar (catchAll m) = false := by
  have names : (catchAll m).params.flatMap (fun p => p.type.varNames) = [] := by
    simp [catchAll, List.flatMap_map, Ty.varNames]
  simp [repeatsTypeVar, names]

theorem erasedParams_catchAll (m : Method) :
    erasedParams (catchAll m) = m.params.map fun _ => Ty.any := by
  simp only [erasedParams, catchAll, List.map_map]
  exact List.map_congr_left fun _ _ => by simp [Ty.erase]

theorem appliesFully_catchAll (length : m.params.length = args.length)
    (solid : ∀ t ∈ args, t.Solid h) : AppliesFully h (catchAll m) args := by
  refine appliesFully_of_erase_any (wellFormed_catchAll h m) (not_repeatsTypeVar_catchAll m) ?_
    (by simpa [catchAll] using length) solid
  rw [erasedParams_catchAll]
  exact List.forall_mem_map.2 fun _ _ => rfl

/-- A method that does not apply fully to everything is more specific than the one that takes
    anything, and not the other way round. -/
theorem moreSpecific_catchAll (wellFormed : m.WellFormed h) (solid : ∀ t ∈ args, t.Solid h)
    (length : m.params.length = args.length) (notFull : ¬ AppliesFully h m args) :
    moreSpecific h m (catchAll m) = true ∧ ¬ moreSpecific h (catchAll m) m = true := by
  have plain := not_repeatsTypeVar_catchAll m
  have below : paramsBelow h (erasedParams m) (erasedParams (catchAll m)) = true := by
    rw [erasedParams_catchAll, erasedParams, paramsBelow_iff, List.forall₂_map_left_iff,
      List.forall₂_map_right_iff, List.forall₂_same]
    exact fun p _ => isSubtype_any h _
  rw [moreSpecific_iff, moreSpecific_iff, below, plain]
  refine ⟨⟨rfl, ?_⟩, ?_⟩
  · cases above : paramsBelow h (erasedParams (catchAll m)) (erasedParams m) with
    | false => exact Or.inl rfl
    | true =>
        refine Or.inr ⟨?_, rfl⟩
        rw [← Bool.not_eq_false]
        intro single
        refine notFull (appliesFully_of_erase_any wellFormed single ?_ length solid)
        rw [erasedParams_catchAll, erasedParams, paramsBelow_iff, List.forall₂_map_left_iff,
          List.forall₂_map_right_iff, List.forall₂_same] at above
        refine List.forall_mem_map.2 fun p hp => ?_
        have ground := ground_erasedParams (paramsWellFormed_of_wellFormed wellFormed) _
          (List.mem_map.2 ⟨p, hp, rfl⟩)
        exact (any_isSubtype_iff ground).1 (above p hp)
  · rintro ⟨-, notBelow | ⟨repeats, -⟩⟩
    · cases notBelow
    · cases repeats

theorem maximal_singleton (h : Hierarchy) (x : Match) : maximal h [x] = [x] := by
  have alone := not_moreSpecific_self h x.method
  simp [maximal, alone]

/-- Beside a method that takes anything, one that applies fully is selected, and one that does
    not is passed over. -/
theorem lookup_beside_catchAll (wellFormed : m.WellFormed h) {a b : List Ty}
    (solidA : ∀ t ∈ a, t.Solid h) (solidB : ∀ t ∈ b, t.Solid h) (length : a.length = b.length)
    (full : AppliesFully h m b) (notFull : ¬ AppliesFully h m a) :
    ∃ x y rest, lookup h (.ofMethods [m, catchAll m]) m.name b = .matched [x] ∧ x.method = m ∧
      lookup h (.ofMethods [m, catchAll m]) m.name a = .matched (y :: rest) ∧
      y.method = catchAll m ∧ y.applicability = .full := by
  obtain ⟨x, matchedX, fullX⟩ := full
  obtain ⟨sameX, -⟩ := method_of_matchMethod matchedX
  have arity : m.params.length = b.length := by
    have matched := Option.isSome_iff_exists.2 ⟨x, matchedX⟩
    exact (matchMethod_isSome_iff_matchArgs.1 matched).1
  obtain ⟨y, matchedY, fullY⟩ := appliesFully_catchAll (m := m) (arity.trans length.symm) solidA
  obtain ⟨sameY, -⟩ := method_of_matchMethod matchedY
  obtain ⟨z, matchedZ, fullZ⟩ := appliesFully_catchAll (m := m) arity solidB
  obtain ⟨sameZ, -⟩ := method_of_matchMethod matchedZ
  obtain ⟨above, notAbove⟩ :=
    moreSpecific_catchAll wellFormed solidA (arity.trans length.symm) notFull
  have methods : (MethodTable.ofMethods [m, catchAll m]).methodsOf m.name = [m, catchAll m] := by
    simp [MethodTable.methodsOf, MethodTable.ofMethods, catchAll]
  have foundB : matching h (.ofMethods [m, catchAll m]) m.name b = [x, z] := by
    simp [matching, methods, matchedX, matchedZ]
  refine ⟨x, y, (matching h (.ofMethods [m, catchAll m]) m.name a).filter fun w =>
    w.applicability == .partly && moreSpecific h w.method y.method, ?_, sameX, ?_, sameY, fullY⟩
  · have most : maximal h (fullMatches [x, z]) = [x] := by
      have alone := not_moreSpecific_self h m
      have alone' := not_moreSpecific_self h (catchAll m)
      simp [fullMatches, maximal, fullX, fullZ, sameX, sameZ, above, notAbove, alone]
    rw [lookup_eq, foundB, most]
    simp [fullMatches, fullX, fullZ]
  · have fulls : fullMatches (matching h (.ofMethods [m, catchAll m]) m.name a) = [y] := by
      rw [matching, methods]
      cases matchedM : matchMethod h m a with
      | none => simp [fullMatches, matchedM, matchedY, fullY]
      | some w =>
          have partly : w.applicability ≠ .full := fun isFull => notFull ⟨w, matchedM, isFull⟩
          simp [fullMatches, matchedM, matchedY, fullY, partly]
    have some : (matching h (.ofMethods [m, catchAll m]) m.name a).isEmpty = false := by
      rw [Bool.eq_false_iff]
      intro empty
      rw [List.isEmpty_iff.1 empty] at fulls
      cases fulls
    rw [lookup_eq, fulls, some, maximal_singleton]
    rfl

/-! ## What may run -/

/-- Let narrower arguments than `b` select a fully applicable method. It is among the answers for
    `b` if no method applies fully to `b`. Where one does, and `s` is selected, it is among the
    answers whatever other methods there are if and only if `s` applies fully to the narrower
    arguments, too. -/
theorem selected_answered_iff (built : h.Declared) (uniform : h.UniformVariance) {a b : List Ty}
    (solidA : ∀ t ∈ a, t.Solid h) (single : ∀ t ∈ a, t.unionFree = true)
    (solidB : ∀ t ∈ b, t.Solid h)
    (below : List.Forall₂ (fun x y => isSubtype h x y = true) a b) :
    (∀ table name x rest y others, (∀ m ∈ table.methods, m.WellFormed h) →
      lookup h table name a = .matched (x :: rest) → x.applicability = .full →
      lookup h table name b = .matched (y :: others) → y.applicability ≠ .full →
      ∃ z ∈ y :: others, z.method = x.method) ∧
    (∀ s, s.WellFormed h → AppliesFully h s b → (AppliesFully h s a ↔
      ∀ table name x rest y others, (∀ m ∈ table.methods, m.WellFormed h) →
        lookup h table name a = .matched (x :: rest) → x.applicability = .full →
        lookup h table name b = .matched (y :: others) → y.method = s →
        ∃ z ∈ y :: others, z.method = x.method)) := by
  have ordered := built.ordered
  refine ⟨?_, fun s wellFormed full => ⟨?_, fun answered => ?_⟩⟩
  · intro table name x rest y others wellFormed narrow full broad partly
    refine selected_answered_of_steady ordered uniform solidA single solidB below wellFormed narrow
      full broad ?_
    rintro _ ⟨⟩ isFull
    exact absurd isFull partly
  · intro steady table name x rest y others wellFormed narrow full broad same
    refine selected_answered_of_steady ordered uniform solidA single solidB below wellFormed narrow
      full broad ?_
    rintro _ ⟨⟩ -
    exact same ▸ steady
  · by_contra notFull
    obtain ⟨x, y, rest, broad, sameX, narrow, sameY, fullY⟩ :=
      lookup_beside_catchAll wellFormed solidA solidB below.length_eq full notFull
    have both : ∀ m ∈ (MethodTable.ofMethods [s, catchAll s]).methods, m.WellFormed h := by
      intro m member
      rcases List.mem_pair.1 member with rfl | rfl
      · exact wellFormed
      · exact wellFormed_catchAll h s
    obtain ⟨z, hz, same⟩ := answered _ _ y rest x [] both narrow fullY broad sameX
    rw [List.mem_singleton.1 hz, sameX, sameY] at same
    -- the method would take anything itself
    refine notFull ?_
    obtain ⟨w, matched, -⟩ := full
    have arity := (matchMethod_isSome_iff_matchArgs.1 (Option.isSome_iff_exists.2 ⟨w, matched⟩)).1
    have anything : AppliesFully h (catchAll s) a :=
      appliesFully_catchAll (arity.trans below.length_eq.symm) solidA
    rw [← same] at anything
    exact anything

/-- Where variables stand alone as parameter types, each once, what may run is answered. -/
theorem selected_answered_of_bare (built : h.Declared) (uniform : h.UniformVariance)
    {a b : List Ty} (solidA : ∀ t ∈ a, t.Solid h) (single : ∀ t ∈ a, t.unionFree = true)
    (solidB : ∀ t ∈ b, t.Solid h)
    (below : List.Forall₂ (fun x y => isSubtype h x y = true) a b)
    (wellFormed : ∀ m ∈ table.methods, m.WellFormed h) (bare : ∀ m ∈ table.methods, Bare m)
    {x : Match} {rest : List Match} (narrow : lookup h table name a = .matched (x :: rest))
    (full : x.applicability = .full) (broad : lookup h table name b = .matched found) :
    ∃ y ∈ found, y.method = x.method := by
  refine selected_answered_of_steady built.ordered uniform solidA single solidB below wellFormed
    narrow full broad fun s first isFull => ?_
  have member : s ∈ matching h table name b := by
    rcases lookup_eq_matched built.ordered
      (fun m hm => paramsWellFormed_of_wellFormed (wellFormed m hm)) broad
      with ⟨-, rfl⟩ | ⟨best, most, rfl⟩
    · exact List.mem_of_mem_head? first
    · obtain rfl : best = s := by simpa using first
      have top : best ∈ maximal h (fullMatches (matching h table name b)) :=
        most ▸ List.mem_singleton_self best
      exact (mem_fullMatches.1 (mem_maximal.1 top).1).1
  obtain ⟨inTable, matched⟩ := mem_matching.1 member
  have inMethods := mem_methods_of_mem_methodsOf inTable
  exact (bare _ inMethods).appliesFully_of_narrower built.ordered (wellFormed _ inMethods) solidA
    solidB below ⟨s, matched, isFull⟩

/-- The method `f(x::Number)`. -/
def numberMethod : Method where
  name := "f"
  params := [⟨"x", .abstract "Number"⟩]
  typeParams := []
  returns := none
  body := none
  intrinsic := none
  loc := default

/-- Whatever method an integer selects beside `f(x::Number)` is among the answers for numbers that
    select that one. -/
theorem selected_answered_iff_numbers :
    numberHierarchy.Declared ∧ numberHierarchy.UniformVariance ∧
      AppliesFully numberHierarchy numberMethod [.abstract "Number"] ∧
      ∀ table name x rest y others, (∀ m ∈ table.methods, m.WellFormed numberHierarchy) →
        lookup numberHierarchy table name [.int] = .matched (x :: rest) →
        x.applicability = .full →
        lookup numberHierarchy table name [.abstract "Number"] = .matched (y :: others) →
        y.method = numberMethod → ∃ z ∈ y :: others, z.method = x.method := by
  have uniform : numberHierarchy.UniformVariance :=
    uniformVariance_of_decls (by simp [numberHierarchy, TypeDecl.any])
  have solid : ∀ t : Ty, t.ground numberHierarchy = true → t.bottomFree = true →
      ∀ u ∈ [t], u.Solid numberHierarchy := by
    intro t ground free u member
    exact List.mem_singleton.1 member ▸ ⟨ground, free⟩
  have solidInt := solid .int (by decide +kernel) rfl
  have solidNumber := solid (.abstract "Number") (by decide +kernel) rfl
  have wellFormed : numberMethod.WellFormed numberHierarchy := by
    refine ⟨⟨List.nodup_nil, by simp [numberMethod]⟩, ?_, ?_⟩
    · intro p member
      rw [List.mem_singleton.1 member]
      show numberHierarchy.hasAbstract "Number" = true
      decide +kernel
    · decide +kernel
  have capped : List.Forall₂ (Capped numberHierarchy) (numberMethod.params.map (·.type))
      [.abstract "Number"] := .cons (capped_of_closed rfl) .nil
  have full : ∀ t : Ty, t.Solid numberHierarchy →
      isSubtype numberHierarchy t (.abstract "Number") = true →
      AppliesFully numberHierarchy numberMethod [t] := fun t solid below =>
    (appliesFully_iff capped (by decide +kernel)
      fun u member => List.mem_singleton.1 member ▸ solid).2 (.cons below .nil)
  have broad := full _ (solidNumber _ (List.mem_singleton_self _)) (isSubtype_refl _ _)
  have narrow := full .int (solidInt _ (List.mem_singleton_self _)) (by decide +kernel)
  refine ⟨numberHierarchy_declared, uniform, broad, ?_⟩
  exact ((selected_answered_iff numberHierarchy_declared uniform solidInt (by decide +kernel)
    solidNumber (.cons (by decide +kernel) .nil)).2 _ wellFormed broad).1 narrow

/-! ## A method that is lost -/

/-- A unit with the methods `f(x::Vector{T}) where T <: Number` and `f(x)`. -/
def vectorSource : String :=
  "function f<T extends Number>(x: Vector<T>) \x7b return 1; \x7d\n" ++
    "function f(x: any) \x7b return 2; \x7d\n"

/-- Whether narrower arguments select a fully applicable method that is not among the answers for
    broader ones. -/
def loses (unit : CompiledUnit) (name : String) (a b : List Ty) : Bool :=
  match lookup unit.hierarchy unit.table name a, lookup unit.hierarchy unit.table name b with
  | .matched (x :: _), .matched found =>
      x.applicability == .full && found.all fun y => y.method.loc != x.method.loc
  | _, _ => false

theorem exists_of_loses {unit : CompiledUnit} {a b : List Ty}
    (lost : loses unit name a b = true) :
    ∃ x rest found, lookup unit.hierarchy unit.table name a = .matched (x :: rest) ∧
      x.applicability = .full ∧ lookup unit.hierarchy unit.table name b = .matched found ∧
      ∀ y ∈ found, y.method ≠ x.method := by
  unfold loses at lost
  split at lost
  case h_1 x rest found narrow broad =>
      simp only [Bool.and_eq_true, beq_iff_eq, List.all_eq_true, bne_iff_ne] at lost
      exact ⟨x, rest, found, narrow, lost.1, broad, fun y hy same =>
        lost.2 y hy (congrArg Method.loc same)⟩
  case h_2 => cases lost

/-- A vector of texts selects the second method. Of the answers for vectors of any kind it is not
    one: the first method counts as fully applicable to them, since their type is compared with
    the erased parameter type only. -/
theorem vector_method_lost :
    ∃ unit, compile vectorSource "vectors.tpr" = .ok unit ∧ unit.hierarchy.UniformVariance ∧
      (Ty.vector .string).Solid unit.hierarchy ∧ (Ty.concrete "Vector" []).Solid unit.hierarchy ∧
      isSubtype unit.hierarchy (.vector .string) (.concrete "Vector" []) = true ∧
      ∃ x rest found, lookup unit.hierarchy unit.table "f" [.vector .string] =
          .matched (x :: rest) ∧ x.applicability = .full ∧
        lookup unit.hierarchy unit.table "f" [.concrete "Vector" []] = .matched found ∧
        ∀ y ∈ found, y.method ≠ x.method := by
  have computed : (match compile vectorSource "vectors.tpr" with
      | .ok unit =>
          unit.hierarchy.decls.all (fun decl =>
              decl.params.all (·.variance == .covariant) ||
                decl.params.all (·.variance == .invariant)) &&
            ((Ty.vector .string).ground unit.hierarchy &&
              (Ty.concrete "Vector" []).ground unit.hierarchy &&
              isSubtype unit.hierarchy (.vector .string) (.concrete "Vector" [])) &&
            loses unit "f" [.vector .string] [.concrete "Vector" []]
      | .error _ => false) = true := by decide +kernel
  cases compiled : compile vectorSource "vectors.tpr" with
  | error fault =>
      rw [compiled] at computed
      cases computed
  | ok unit =>
      rw [compiled] at computed
      simp only [Bool.and_eq_true, List.all_eq_true, Bool.or_eq_true, beq_iff_eq] at computed
      obtain ⟨⟨variance, ⟨ground, ground'⟩, below⟩, lost⟩ := computed
      exact ⟨unit, rfl, uniformVariance_of_decls variance, ⟨ground, rfl⟩, ⟨ground', rfl⟩, below,
        exists_of_loses lost⟩

end Multimethod.Dispatch
