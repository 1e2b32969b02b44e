import Mathlib.Data.List.Basic
import Multimethod.Proofs.Hierarchy.Tree
import Multimethod.Proofs.Lattice.Rising

/-!
# The nearest abstract type

A position that has taken too many types is widened to the nearest abstract type above all of them.
The types are folded one by one, and the fold can stop below the abstract types: at a type of the
history that is above all others, or at an instance of a covariant type. There the result is the top
although there is something nearer. Everywhere else the fold finds the nearest abstract type.
-/

namespace Multimethod

namespace Hierarchy

variable {h : Hierarchy} {name other : String}

/-- The walk from a name that a walk meets is what is left of it. -/
theorem ancestors_of_append {front back : List String} (ordered : Ordered h.decls)
    (split : h.ancestors name = front ++ other :: back) : h.ancestors other = other :: back := by
  have met : other ∈ h.ancestors name := split ▸ List.mem_append_right _ List.mem_cons_self
  obtain ⟨passed, whole⟩ := chain_suffix ordered met
  obtain ⟨rest, start⟩ := List.head?_eq_some_iff.1 (head?_chain h.decls other)
  have once : (front ++ other :: back).Nodup := split ▸ nodup_chain ordered name
  obtain ⟨notBefore, notBehind⟩ : other ∉ front ∧ other ∉ back := by
    simpa [not_or] using (List.nodup_cons.1 (List.nodup_middle.1 once)).1
  rw [start] at whole
  have same := (List.append_cons_inj_of_notMem notBefore notBehind).1 (split.symm.trans whole.symm)
  rw [ancestors, start, same.2.2]

/-- A walk that goes on behind a name has met a declared name there, and not the root. -/
theorem declared_of_append {front back : List String} (ordered : Ordered h.decls)
    (split : h.ancestors name = front ++ other :: back) {n : String} (passed : n ∈ front) :
    n ≠ "Any" ∧ h.has n = true := by
  have declared : ∃ d ∈ h.decls, d.name = name := by
    by_contra undeclared
    push Not at undeclared
    have alone : h.ancestors name = [name] := chain_of_undeclared undeclared
    rw [alone] at split
    cases front with
    | nil => cases passed
    | cons c front => simp at split
  have once : (front ++ other :: back).Nodup := split ▸ nodup_chain ordered name
  constructor
  · rintro rfl
    have last : (front ++ other :: back).getLast? = some "Any" :=
      split ▸ getLast?_chain ordered declared
    rw [List.getLast?_append_cons] at last
    exact (List.nodup_append.1 once).2.2 _ passed _ (List.mem_of_getLast? last) rfl
  · have met : n ∈ h.ancestors name := split ▸ List.mem_append_left _ passed
    obtain ⟨d, known, named⟩ : ∃ d ∈ h.decls, d.name = n :=
      (declared_of_mem_chain ordered met).elim (fun same => same ▸ declared) id
    rw [has, find?, List.find?_isSome]
    exact ⟨d, known, by simp [named]⟩

end Hierarchy

namespace Lattice

variable {h : Hierarchy} {a b c r t u : Ty} {history ms ps qs ts us : List Ty}
  {name other : String} {threshold : Nat}

/-! ## Ancestors found on the way up -/

theorem isNominal_nominalAncestor (h : Hierarchy) (name : String) (b : Ty) :
    isNominal (nominalAncestor h name b) = true := by
  unfold nominalAncestor
  dsimp only
  split <;> rfl

/-- No abstract type above a name and a type is nearer than the one that is found. -/
theorem nominalAncestor_isSubtype (ordered : Hierarchy.Ordered h.decls)
    (typesGround : h.TypesGround) (declared : h.hasAbstract other = true)
    (up : h.isAncestor other name = true) (below : isSubtype h b (.abstract other) = true) :
    isSubtype h (nominalAncestor h name b) (.abstract other) = true := by
  have ground : (Ty.abstract other).ground h = true := by simpa only [Ty.ground] using declared
  obtain ⟨isAbstract, notRoot⟩ := abstract_of_ground ground
  obtain ⟨front, back, split⟩ := List.append_of_mem (Hierarchy.isAncestor_iff_mem.1 up)
  have passed : ∀ n ∈ front, (n != "Any" && h.has n) = true := fun n member => by
    obtain ⟨different, has⟩ := Hierarchy.declared_of_append ordered split member
    simp [different, has]
  obtain ⟨decl, found, abstractDecl⟩ := (Option.any_eq_true _ _).1 isAbstract
  unfold nominalAncestor
  dsimp only
  split
  case h_2 none =>
      refine absurd (List.find?_eq_none.1 none other ?_) (by simp [found, abstractDecl, below])
      rw [split, List.takeWhile_append_of_pos passed]
      simp [Hierarchy.has, found, notRoot]
  case h_1 n first =>
      have groundFound : (Ty.abstract n).ground h = true := by
        have cases := nominalAncestor_cases typesGround name b
        simp only [nominalAncestor, first] at cases
        obtain absurd | ⟨above, same, ground, -⟩ := cases
        · cases absurd
        · cases same
          exact ground
      rw [abstract_isSubtype_abstract groundFound ground, Hierarchy.isAncestor_iff_mem]
      obtain ⟨-, before, behind, known, failed⟩ := List.find?_eq_some_iff_append.1 first
      obtain ⟨rest, whole⟩ := List.takeWhile_prefix
        (fun n => n != "Any" && h.has n) (l := h.ancestors name)
      rw [known, List.append_assoc, List.cons_append] at whole
      rw [Hierarchy.ancestors_of_append ordered whole.symm]
      have met := Hierarchy.isAncestor_iff_mem.1 up
      rw [← whole] at met
      refine (List.mem_append.1 met).resolve_left fun earlier => ?_
      simpa [found, abstractDecl, below] using failed other earlier

/-! ## What the fold reaches -/

/-- The types that no common ancestor of types below them leaves: abstract types, and covariant ones
    without arguments. -/
inductive Ceiling (h : Hierarchy) : Ty → Prop where
  | abstract {name : String} (declared : h.hasAbstract name = true) : Ceiling h (.abstract name)
  | bare {name : String} (declared : h.hasConcrete name = true)
      (covariant : h.allCovariant name = true) : Ceiling h (.concrete name [])

theorem Ceiling.ground (ceiling : Ceiling h c) : c.ground h = true := by
  cases ceiling with
  | abstract declared => simpa only [Ty.ground] using declared
  | bare declared => exact Ty.ground_concrete.2 ⟨declared, Or.inl rfl, by simp⟩

/-- What the common ancestor of some types can be: one of them, the top or an abstract type, or an
    instance of a covariant type of which they all are instances. -/
inductive Lands (h : Hierarchy) (ts : List Ty) : Ty → Prop where
  | member {c : Ty} (known : c ∈ ts) : Lands h ts c
  | nominal {c : Ty} (nominal : isNominal c = true) : Lands h ts c
  | applied {name : String} {args : List Ty} (bare : Ceiling h (.concrete name []))
      (below : ∀ t ∈ ts, isSubtype h t (.concrete name []) = true) :
      Lands h ts (.concrete name args)

/-- A common ancestor of some types: it lies above them, and below all ceilings above them. -/
structure Reaches (h : Hierarchy) (ts : List Ty) (c : Ty) : Prop where
  ground : c.ground h = true
  upper : ∀ t ∈ ts, isSubtype h t c = true
  least : ∀ top, Ceiling h top → (∀ t ∈ ts, isSubtype h t top = true) → isSubtype h c top = true
  lands : Lands h ts c

theorem reaches_of_mem (ground : c.ground h = true) (upper : ∀ t ∈ ts, isSubtype h t c = true)
    (known : c ∈ ts) : Reaches h ts c :=
  ⟨ground, upper, fun _ _ below => below c known, .member known⟩

theorem Reaches.of_mem_iff (same : ∀ t, t ∈ ts ↔ t ∈ us) (reaches : Reaches h ts c) :
    Reaches h us c where
  ground := reaches.ground
  upper t ht := reaches.upper t ((same t).2 ht)
  least top ceiling below := reaches.least top ceiling fun t ht => below t ((same t).1 ht)
  lands := by
    cases reaches.lands with
    | member known => exact .member ((same c).1 known)
    | nominal nominal => exact .nominal nominal
    | applied bare below => exact .applied bare fun t ht => below t ((same t).2 ht)

/-- Instead of a union that does not compare, its members are folded. -/
theorem Reaches.of_members (ordered : Hierarchy.Ordered h.decls) (ha : a.ground h = true)
    (hu : (Ty.union ms).ground h = true) (notBelow : ¬ isSubtype h a (.union ms) = true)
    (notAbove : ¬ isSubtype h (.union ms) a = true) (reaches : Reaches h (a :: ms) c) :
    Reaches h [a, .union ms] c := by
  obtain ⟨first, others⟩ := List.forall_mem_cons.1 reaches.upper
  have upper : ∀ t ∈ [a, .union ms], isSubtype h t c = true :=
    forall_mem_pair first ((union_isSubtype_iff hu reaches.ground).2 others)
  refine ⟨reaches.ground, upper, fun top ceiling below => ?_, ?_⟩
  · refine reaches.least top ceiling (List.forall_mem_cons.2 ⟨below a (by simp), ?_⟩)
    exact (union_isSubtype_iff hu ceiling.ground).1 (below _ (by simp))
  cases reaches.lands with
  | member known =>
      -- a type above the union or below it would have compared
      rcases List.mem_cons.1 known with rfl | member
      · exact absurd (upper _ (by simp)) notAbove
      · have within := isSubtype_union_of_mem hu member
        exact absurd (isSubtype_trans ordered ha reaches.ground hu first within) notBelow
  | nominal nominal => exact .nominal nominal
  | applied bare below =>
      obtain ⟨first, others⟩ := List.forall_mem_cons.1 below
      refine .applied bare (forall_mem_pair first ?_)
      exact (union_isSubtype_iff hu bare.ground).2 others

/-- A fold over two types and more goes on from their common ancestor. -/
theorem Reaches.step (ordered : Hierarchy.Ordered h.decls) (ha : a.ground h = true)
    (hb : b.ground h = true) (hts : ∀ t ∈ ts, t.ground h = true) (first : Reaches h [a, b] c)
    (rest : Reaches h (c :: ts) r) : Reaches h (a :: b :: ts) r := by
  obtain ⟨next, others⟩ := List.forall_mem_cons.1 rest.upper
  have both : ∀ {top}, top.ground h = true → isSubtype h c top = true →
      (∀ t ∈ ts, isSubtype h t top = true) → ∀ t ∈ a :: b :: ts, isSubtype h t top = true := by
    intro top htop below others
    obtain ⟨belowA, belowB⟩ : isSubtype h a c = true ∧ isSubtype h b c = true := by
      simpa using first.upper
    have throughA := isSubtype_trans ordered ha first.ground htop belowA below
    have throughB := isSubtype_trans ordered hb first.ground htop belowB below
    exact List.forall_mem_cons.2 ⟨throughA, List.forall_mem_cons.2 ⟨throughB, others⟩⟩
  refine ⟨rest.ground, both rest.ground next others, fun top ceiling below => ?_, ?_⟩
  · obtain ⟨belowA, below⟩ := List.forall_mem_cons.1 below
    obtain ⟨belowB, below⟩ := List.forall_mem_cons.1 below
    refine rest.least top ceiling (List.forall_mem_cons.2 ⟨?_, below⟩)
    exact first.least top ceiling (forall_mem_pair belowA belowB)
  cases rest.lands with
  | nominal nominal => exact .nominal nominal
  | applied bare below =>
      obtain ⟨next, others⟩ := List.forall_mem_cons.1 below
      exact .applied bare (both bare.ground next others)
  | member known =>
      rcases List.mem_cons.1 known with rfl | member
      · cases first.lands with
        | member known => exact .member (List.mem_append_left ts known)
        | nominal nominal => exact .nominal nominal
        | @applied name args bare below =>
            have instances := isSubtype_bare h name args
            exact .applied bare (both bare.ground instances fun t ht =>
              isSubtype_trans ordered (hts t ht) first.ground bare.ground (others t ht) instances)
      · exact .member (List.mem_append_right [a, b] member)

/-- The abstract type that is found on the way up from a name is reached from a type whose abstract
    ancestors are those of the name, if no ceiling without arguments is above both types. -/
theorem reaches_nominalAncestor (ordered : Hierarchy.Ordered h.decls)
    (typesGround : h.TypesGround) (above : Above h a b (nominalAncestor h name b))
    (up : ∀ other, h.hasAbstract other = true →
      isSubtype h a (.abstract other) = h.isAncestor other name)
    (noBare : ∀ other, Ceiling h (.concrete other []) →
      isSubtype h a (.concrete other []) = true → isSubtype h b (.concrete other []) = false) :
    Reaches h [a, b] (nominalAncestor h name b) where
  ground := above.ground
  upper := forall_mem_pair above.left above.right
  lands := .nominal (isNominal_nominalAncestor h name b)
  least top ceiling below := by
    have belowA := below a (by simp)
    have belowB := below b (by simp)
    cases ceiling with
    | @abstract other declared =>
        rw [up other declared] at belowA
        exact nominalAncestor_isSubtype ordered typesGround declared belowA belowB
    | @bare other declared covariant =>
        rw [noBare other (.bare declared covariant) belowA] at belowB
        cases belowB

theorem reaches_concrete_ancestor (ordered : Hierarchy.Ordered h.decls)
    (typesGround : h.TypesGround) (ha : (Ty.concrete name ps).ground h = true)
    (noBare : ∀ other, Ceiling h (.concrete other []) →
      isSubtype h (.concrete name ps) (.concrete other []) = true →
        isSubtype h b (.concrete other []) = false) :
    Reaches h [.concrete name ps, b] (nominalAncestor h name b) :=
  reaches_nominalAncestor ordered typesGround (above_concrete_ancestor typesGround ha b)
    (fun _ declared => concrete_isSubtype_abstract ha (Ceiling.abstract declared).ground) noBare

theorem reaches_abstract_ancestor (ordered : Hierarchy.Ordered h.decls)
    (typesGround : h.TypesGround) (ha : (Ty.abstract name).ground h = true) :
    Reaches h [.abstract name, b] (nominalAncestor h name b) := by
  refine reaches_nominalAncestor ordered typesGround (above_abstract_ancestor typesGround ha b)
    (fun _ declared => abstract_isSubtype_abstract ha (Ceiling.abstract declared).ground)
    fun other bare below => ?_
  rw [not_abstract_isSubtype_concrete ha bare.ground] at below
  cases below

/-- Instances of one covariant type that do not compare have arguments for all parameters. -/
theorem applied_of_not_isSubtype (ha : (Ty.concrete name ps).ground h = true)
    (hb : (Ty.concrete name qs).ground h = true)
    (notBelow : ¬ isSubtype h (.concrete name ps) (.concrete name qs) = true)
    (notAbove : ¬ isSubtype h (.concrete name qs) (.concrete name ps) = true) :
    ps ≠ [] ∧ ps.length = qs.length := by
  have some : ps ≠ [] := by
    rintro rfl
    exact notAbove (isSubtype_bare h _ _)
  have some' : qs ≠ [] := by
    rintro rfl
    exact notBelow (isSubtype_bare h _ _)
  exact ⟨some, ((Ty.ground_concrete.1 ha).2.1.resolve_left some).trans
    ((Ty.ground_concrete.1 hb).2.1.resolve_left some').symm⟩

/-- An instance above two instances of a covariant type is reached from them. -/
theorem Above.reaches_applied (ha : (Ty.concrete name ps).ground h = true)
    (covariant : h.allCovariant name = true)
    (above : Above h (.concrete name ps) (.concrete name qs) (.concrete name ts)) :
    Reaches h [.concrete name ps, .concrete name qs] (.concrete name ts) where
  ground := above.ground
  upper := forall_mem_pair above.left above.right
  lands := .applied (.bare (Ty.ground_concrete.1 ha).1 covariant)
    (forall_mem_pair (isSubtype_bare h _ _) (isSubtype_bare h _ _))
  least top ceiling below := by
    have belowA := below _ List.mem_cons_self
    cases ceiling with
    | abstract declared =>
        have ground := (Ceiling.abstract declared).ground
        rw [concrete_isSubtype_abstract ha ground] at belowA
        rwa [concrete_isSubtype_abstract above.ground ground]
    | bare declared covariant =>
        obtain ⟨rfl, -⟩ :=
          (concrete_isSubtype_concrete_iff ha (Ceiling.bare declared covariant).ground).1 belowA
        exact isSubtype_bare h _ _

mutual

/-- The common ancestor of two types is reached from them. -/
theorem reaches_ancestorOf (ordered : Hierarchy.Ordered h.decls) (typesGround : h.TypesGround)
    (a b : Ty) (ha : a.ground h = true) (hb : b.ground h = true) :
    Reaches h [a, b] (ancestorOf h a b).1 := by
  unfold ancestorOf
  split
  case isTrue below =>
      exact reaches_of_mem hb (forall_mem_pair below (isSubtype_refl h b)) (by simp)
  case isFalse notBelow =>
      split
      case isTrue below =>
          exact reaches_of_mem ha (forall_mem_pair (isSubtype_refl h a) below) (by simp)
      case isFalse notAbove =>
          match a, b with
          | .any, b => exact absurd (isSubtype_any h b) notAbove
          | .bottom, b => exact absurd (bottom_isSubtype h b) notBelow
          | .typeVar _ _, _ => simp [Ty.ground] at ha
          | .union ms, b =>
              have members := reaches_ancestorOfAll ordered typesGround b ms hb
                (Ty.ground_union.1 ha).2
              exact (members.of_members ordered hb ha notAbove notBelow).of_mem_iff
                (by simp [or_comm])
          | .concrete name ps, .any => exact absurd (isSubtype_any h _) notBelow
          | .concrete name ps, .bottom => exact absurd (bottom_isSubtype h _) notAbove
          | .concrete name ps, .typeVar _ _ => simp [Ty.ground] at hb
          | .concrete name ps, .union ms =>
              exact (reaches_ancestorOfAll ordered typesGround _ ms ha
                (Ty.ground_union.1 hb).2).of_members ordered ha hb notBelow notAbove
          | .concrete name ps, .abstract other =>
              exact reaches_concrete_ancestor ordered typesGround ha fun _ bare _ =>
                not_abstract_isSubtype_concrete hb bare.ground
          | .concrete name ps, .concrete other qs =>
              dsimp only
              split
              case isFalse apart =>
                  refine reaches_concrete_ancestor ordered typesGround ha
                    fun _ ceiling below => ?_
                  rw [Bool.eq_false_iff]
                  intro below'
                  obtain ⟨rfl, -⟩ := (concrete_isSubtype_concrete_iff ha ceiling.ground).1 below
                  obtain ⟨rfl, -⟩ := (concrete_isSubtype_concrete_iff hb ceiling.ground).1 below'
                  obtain ⟨some, length⟩ := applied_of_not_isSubtype ha hb notBelow notAbove
                  cases ceiling with
                  | bare declared covariant => simp [some, length, covariant] at apart
              case isTrue alike =>
                  simp only [Bool.and_eq_true, beq_iff_eq, Bool.not_eq_true',
                    List.isEmpty_eq_false_iff] at alike
                  obtain ⟨⟨⟨rfl, nonempty⟩, length⟩, covariant⟩ := alike
                  exact (above_concrete ha hb length nonempty covariant
                    (above_ancestorOfArgs ordered typesGround ps qs length
                      (Ty.ground_concrete.1 ha).2.2 (Ty.ground_concrete.1 hb).2.2)).reaches_applied
                        ha covariant
          | .abstract name, .any => exact absurd (isSubtype_any h _) notBelow
          | .abstract name, .bottom => exact absurd (bottom_isSubtype h _) notAbove
          | .abstract name, .typeVar _ _ => simp [Ty.ground] at hb
          | .abstract name, .union ms =>
              exact (reaches_ancestorOfAll ordered typesGround _ ms ha
                (Ty.ground_union.1 hb).2).of_members ordered ha hb notBelow notAbove
          | .abstract name, .concrete other qs =>
              exact reaches_abstract_ancestor ordered typesGround ha
          | .abstract name, .abstract other =>
              exact reaches_abstract_ancestor ordered typesGround ha
  termination_by a.size + b.size
  decreasing_by all_goals simp only [Ty.size]; omega

theorem reaches_ancestorOfAll (ordered : Hierarchy.Ordered h.decls) (typesGround : h.TypesGround)
    (acc : Ty) (ms : List Ty) (hacc : acc.ground h = true) (hms : ∀ m ∈ ms, m.ground h = true) :
    Reaches h (acc :: ms) (ancestorOfAll h acc ms).1 := by
  unfold ancestorOfAll
  match ms with
  | [] => exact reaches_of_mem hacc (by simp [isSubtype_refl]) (by simp)
  | m :: ms =>
      have small := (ancestorOf h acc m).2
      obtain ⟨hm, hms⟩ := List.forall_mem_cons.1 hms
      have first := reaches_ancestorOf ordered typesGround acc m hacc hm
      exact first.step ordered hacc hm hms
        (reaches_ancestorOfAll ordered typesGround (ancestorOf h acc m).1 ms first.ground hms)
  termination_by acc.size + Ty.sizes ms
  decreasing_by all_goals simp only [Ty.sizes]; omega

end

theorem foldl_commonAncestor (h : Hierarchy) (a : Ty) (ts : List Ty) :
    ts.foldl (commonAncestor h) a = (ancestorOfAll h a ts).1 := by
  induction ts generalizing a with
  | nil => simp [ancestorOfAll]
  | cons t ts ih =>
      rw [List.foldl_cons, ih, ancestorOfAll]
      rfl

/-! ## The nearest abstract type -/

/-- Whether an abstract type, other than the root, is above all types of a history. -/
structure Bounds (h : Hierarchy) (history : List Ty) (name : String) : Prop where
  declared : h.hasAbstract name = true
  above : ∀ t ∈ history, isSubtype h t (.abstract name) = true

/-- The nearest abstract type above a history; the top if there is no other. -/
inductive Nearest (h : Hierarchy) (history : List Ty) : Ty → Prop where
  | abstract {name : String} (bounds : Bounds h history name)
      (least : ∀ other, Bounds h history other →
        isSubtype h (.abstract name) (.abstract other) = true) :
      Nearest h history (.abstract name)
  | top (none : ∀ name, ¬ Bounds h history name) : Nearest h history .any

/-- Whether the fold over a history can stop below the abstract types: at a type of the history that
    is above all others, or at an instance of a covariant type of which they all are instances. -/
inductive Held (h : Hierarchy) (history : List Ty) : Prop where
  | member {t : Ty} (known : t ∈ history) (notNominal : isNominal t = false)
      (above : ∀ u ∈ history, isSubtype h u t = true)
  | applied {name : String} (bare : Ceiling h (.concrete name []))
      (below : ∀ t ∈ history, isSubtype h t (.concrete name []) = true)

theorem Nearest.unique (ordered : Hierarchy.Ordered h.decls) (first : Nearest h history a)
    (second : Nearest h history b) : a = b := by
  cases first with
  | abstract bounds least =>
      cases second with
      | abstract bounds' least' =>
          have up := least _ bounds'
          have down := least' _ bounds
          rw [abstract_isSubtype_abstract (Ceiling.abstract bounds.declared).ground
            (Ceiling.abstract bounds'.declared).ground] at up
          rw [abstract_isSubtype_abstract (Ceiling.abstract bounds'.declared).ground
            (Ceiling.abstract bounds.declared).ground] at down
          rw [Hierarchy.isAncestor_antisymm ordered up down]
      | top none => exact absurd bounds (none _)
  | top none =>
      cases second with
      | abstract bounds => exact absurd bounds (none _)
      | top => rfl

/-! ## Histories -/

theorem nodup_distinct (ts : List Ty) : (Ty.distinct ts).Nodup :=
  (Ty.pairwise_distinctFrom [] ts).1.imp fun different same => different (congrArg Ty.id same)

/-- A history has no more different types than one that has all of its types. -/
theorem length_distinct_le (hts : ∀ t ∈ ts, t.ground h = true) (hus : ∀ t ∈ us, t.ground h = true)
    (within : ts ⊆ us) : (Ty.distinct ts).length ≤ (Ty.distinct us).length := by
  refine (List.subperm_of_subset (nodup_distinct ts) fun t known => ?_).length_le
  obtain ⟨ht, notBottom⟩ := (mem_distinct_iff hts).1 known
  exact (mem_distinct_iff hus).2 ⟨within ht, notBottom⟩

theorem Reaches.of_distinct (hts : ∀ t ∈ history, t.ground h = true)
    (reaches : Reaches h (Ty.distinct history) c) : Reaches h history c where
  ground := reaches.ground
  upper := isSubtype_of_distinct hts reaches.upper
  least top ceiling below :=
    reaches.least top ceiling fun t ht => below t ((mem_distinct_iff hts).1 ht).1
  lands := by
    cases reaches.lands with
    | member known => exact .member ((mem_distinct_iff hts).1 known).1
    | nominal nominal => exact .nominal nominal
    | applied bare below => exact .applied bare (isSubtype_of_distinct hts below)

/-- Beyond the threshold the fold reaches a type from the history. The history is widened to it if
    it is abstract, and else to the top. -/
theorem exists_reached (ordered : Hierarchy.Ordered h.decls) (typesGround : h.TypesGround)
    (hts : ∀ t ∈ history, t.ground h = true) (many : threshold < (Ty.distinct history).length) :
    ∃ c, Reaches h history c ∧
      (isNominal c = true ∧ widen h history threshold = c ∨
        isNominal c = false ∧ widen h history threshold = .any) := by
  have taken : ∀ t ∈ Ty.distinct history, t.ground h = true := fun t ht =>
    hts t ((mem_distinct_iff hts).1 ht).1
  unfold widen
  dsimp only
  rw [if_neg (Nat.not_le.2 many)]
  cases different : Ty.distinct history with
  | nil => simp [different] at many
  | cons first others =>
      rw [different] at taken
      obtain ⟨hfirst, hothers⟩ := List.forall_mem_cons.1 taken
      have reaches := reaches_ancestorOfAll ordered typesGround first others hfirst hothers
      rw [← different, ← foldl_commonAncestor] at reaches
      refine ⟨_, reaches.of_distinct hts, ?_⟩
      dsimp only
      generalize others.foldl (commonAncestor h) first = c
      cases c <;> simp [isNominal]

/-- What is reached is the nearest abstract type if it is abstract. -/
theorem Reaches.nearest (reaches : Reaches h history c) (nominal : isNominal c = true) :
    Nearest h history c := by
  match c with
  | .any =>
      refine .top fun name bounds => ?_
      have ceiling := Ceiling.abstract bounds.declared
      cases (any_isSubtype_iff ceiling.ground).1 (reaches.least _ ceiling bounds.above)
  | .abstract name =>
      refine .abstract ⟨by simpa only [Ty.ground] using reaches.ground, reaches.upper⟩ ?_
      exact fun other bounds => reaches.least _ (.abstract bounds.declared) bounds.above

theorem Reaches.held (reaches : Reaches h history c) (notNominal : isNominal c = false) :
    Held h history := by
  cases reaches.lands with
  | member known => exact .member known notNominal reaches.upper
  | nominal nominal => simp [nominal] at notNominal
  | applied bare below => exact .applied bare below

/-- Beyond the threshold a history is widened to the nearest abstract type, or it is held and
    widened to the top. -/
theorem widen_nearest_or_held (ordered : Hierarchy.Ordered h.decls) (typesGround : h.TypesGround)
    (hts : ∀ t ∈ history, t.ground h = true) (many : threshold < (Ty.distinct history).length) :
    Nearest h history (widen h history threshold) ∨
      widen h history threshold = .any ∧ Held h history := by
  obtain ⟨c, reaches, ⟨nominal, widened⟩ | ⟨notNominal, widened⟩⟩ :=
    exists_reached ordered typesGround hts many
  · exact Or.inl (widened ▸ reaches.nearest nominal)
  · exact Or.inr ⟨widened, reaches.held notNominal⟩

/-! ## Orders in which a nearer type is missed -/

/-- Types strictly below do not move a fold that stays at the upper one of two types. -/
theorem Raises.foldl_of_below {f : Ty → Ty → Ty} (raises : Raises h f)
    (below : ∀ u ∈ us, isSubtype h t u = false ∧ isSubtype h u t = true) : us.foldl f t = t := by
  induction us with
  | nil => rfl
  | cons u us ih =>
      obtain ⟨⟨notAbove, upper⟩, below⟩ := List.forall_mem_cons.1 below
      rw [List.foldl_cons, raises.stay t u notAbove upper]
      exact ih below

theorem exists_perm_around (p : Ty → Bool) (known : t ∈ ts) :
    ∃ front back, (front ++ [t] ++ back).Perm ts ∧
      (∀ u ∈ front, p u = true) ∧ ∀ u ∈ back, p u = false := by
  obtain ⟨before, behind, rfl⟩ := List.append_of_mem known
  refine ⟨(before ++ behind).filter p, (before ++ behind).filter fun u => !p u, ?_, ?_, ?_⟩
  · rw [List.append_assoc, List.singleton_append]
    have split := List.filter_append_perm p (before ++ behind)
    exact List.perm_middle.trans ((split.cons t).trans List.perm_middle.symm)
  · exact fun u member => (List.mem_filter.1 member).2
  · exact fun u member => by simpa using (List.mem_filter.1 member).2

/-- A history with a type above all others has an order in which the fold stops at that type: behind
    those that are equivalent to it, and before those strictly below. -/
theorem exists_order_stays (ordered : Hierarchy.Ordered h.decls) (typesGround : h.TypesGround)
    (hts : ∀ t ∈ history, t.ground h = true) (known : t ∈ history) (notBottom : t ≠ .bottom)
    (above : ∀ u ∈ history, isSubtype h u t = true) :
    ∃ order, order.Perm history ∧ (Ty.distinct order).foldl (commonAncestor h) .bottom = t := by
  obtain ⟨front, back, perm, equal, strict⟩ :=
    exists_perm_around (fun u => isSubtype h t u && !u.same t) known
  simp only [Bool.and_eq_true, Bool.not_eq_true'] at equal
  have raises := raises_commonAncestor ordered typesGround
  have hord : ∀ u ∈ front ++ [t] ++ back, u.ground h = true := fun u hu =>
    hts u (perm.mem_iff.1 hu)
  have hfront : ∀ u ∈ front, u.ground h = true := fun u hu =>
    hord u (List.mem_append_left _ (List.mem_append_left _ hu))
  have last : Ty.distinct (front ++ [t]) = Ty.distinct front ++ [t] := by
    rcases distinct_concat_cases hfront (hts t known) with ⟨bottom | member, -⟩ | ⟨-, -, more⟩
    · exact absurd bottom notBottom
    · have different := (equal t ((mem_distinct_iff hfront).1 member).1).2
      simp at different
    · exact more
  have upper : ∀ u ∈ Ty.distinct front ++ [t], isSubtype h t u = true :=
    forall_mem_concat (fun u hu => (equal u ((mem_distinct_iff hfront).1 hu).1).1)
      (isSubtype_refl h t)
  refine ⟨_, perm, ?_⟩
  obtain ⟨rest, whole⟩ := Ty.distinct_prefix (front ++ [t]) back
  rw [last] at whole
  have once := nodup_distinct (front ++ [t] ++ back)
  rw [← whole, List.nodup_append] at once
  have further : ∀ u ∈ rest, isSubtype h t u = false ∧ isSubtype h u t = true := by
    intro u hu
    have kept : u ∈ Ty.distinct (front ++ [t] ++ back) := whole ▸ List.mem_append_right _ hu
    obtain ⟨member, notBottom⟩ := (mem_distinct_iff hord).1 kept
    refine ⟨Bool.eq_false_iff.2 fun up => ?_, above u (perm.mem_iff.1 member)⟩
    -- what is equivalent to the type has been taken before
    refine once.2.2 u ?_ u hu rfl
    rcases List.mem_append.1 member with earlier | later
    · exact last ▸ (mem_distinct_iff fun v hv => hord v (List.mem_append_left _ hv)).2
        ⟨earlier, notBottom⟩
    · have same : u.same t = true := by simpa [up] using strict u later
      rw [(Ty.same_iff_of_ground (hord u member) (hts t known)).1 same]
      simp
  rw [← whole, List.foldl_append, raises.foldl_of_ascends ?_ fun u _ => bottom_isSubtype h u,
    List.getLast?_concat, Option.getD_some]
  · exact raises.foldl_of_below further
  · refine List.pairwise_of_forall_mem_list fun u hu v hv => ?_
    have member : ∀ w ∈ Ty.distinct front ++ [t], w ∈ front ++ [t] ++ back := fun w hw =>
      ((mem_distinct_iff hord).1 (whole ▸ List.mem_append_left rest hw)).1
    exact isSubtype_trans ordered (hord u (member u hu)) (hts t known) (hord v (member v hv))
      (above u (perm.mem_iff.1 (member u hu))) (upper v hv)

/-- A history that is held has an order in which it is widened to the top. -/
theorem Held.exists_order_top (ordered : Hierarchy.Ordered h.decls) (typesGround : h.TypesGround)
    (hts : ∀ t ∈ history, t.ground h = true) (many : threshold < (Ty.distinct history).length)
    (held : Held h history) :
    ∃ order, order.Perm history ∧ widen h order threshold = .any := by
  cases held with
  | @member t known notNominal above =>
      have notBottom : t ≠ .bottom := by
        rintro rfl
        simp [distinct_eq_nil hts above] at many
      obtain ⟨order, perm, stays⟩ :=
        exists_order_stays ordered typesGround hts known notBottom above
      have many' := length_distinct_le hts (fun u hu => hts u (perm.mem_iff.1 hu)) perm.symm.subset
      refine ⟨order, perm, ?_⟩
      rcases widen_cases h order threshold with ⟨few, -⟩ | ⟨nominal, top | reached⟩
      · omega
      · exact top
      · rw [reached, stays, notNominal] at nominal
        cases nominal
  | @applied name bare below =>
      refine ⟨history, .refl _, ?_⟩
      obtain ⟨c, reaches, ⟨nominal, -⟩ | ⟨-, top⟩⟩ := exists_reached ordered typesGround hts many
      · -- no type that is the top or abstract lies below a concrete one
        have lower := reaches.least _ bare below
        match c with
        | .any => cases (any_isSubtype_iff bare.ground).1 lower
        | .abstract _ =>
            rw [not_abstract_isSubtype_concrete reaches.ground bare.ground] at lower
            cases lower
      · exact top

/-! ## Widening to the nearest abstract type -/

/-- Whether the fold can stop below an abstract type that is above all types of a history. -/
def Misses (h : Hierarchy) (history : List Ty) : Prop :=
  Held h history ∧ ∃ name, Bounds h history name

theorem Held.of_perm (perm : ts.Perm us) (held : Held h ts) : Held h us := by
  cases held with
  | member known notNominal above =>
      exact .member (perm.mem_iff.1 known) notNominal fun u hu => above u (perm.mem_iff.2 hu)
  | applied bare below => exact .applied bare fun t ht => below t (perm.mem_iff.2 ht)

theorem Bounds.of_subset (within : ts ⊆ us) (bounds : Bounds h us name) : Bounds h ts name :=
  ⟨bounds.declared, fun t ht => bounds.above t (within ht)⟩

theorem Nearest.of_perm (perm : ts.Perm us) (nearest : Nearest h ts c) : Nearest h us c := by
  cases nearest with
  | abstract bounds least =>
      refine .abstract (bounds.of_subset perm.symm.subset) fun other bounds' => ?_
      exact least other (bounds'.of_subset perm.subset)
  | top none => exact .top fun name bounds => none name (bounds.of_subset perm.subset)

/-- What is nearest to a longer history is not nearer. -/
theorem Nearest.mono (within : ts ⊆ us) (first : Nearest h ts a) (second : Nearest h us b) :
    isSubtype h a b = true := by
  cases second with
  | top => exact isSubtype_any h a
  | abstract bounds =>
      cases first with
      | abstract _ least => exact least _ (bounds.of_subset within)
      | top none => exact absurd (bounds.of_subset within) (none _)

/-- What a history is widened to beyond the threshold is the top or the nearest abstract type. It is
    the nearest one for every order of the history if and only if no abstract type above the history
    can be missed; then neither the order matters, nor is a longer history widened to a smaller
    type. -/
theorem widen_nearest_iff (built : h.Declared) (typesGround : h.TypesGround)
    (hts : ∀ t ∈ history, t.ground h = true) (many : threshold < (Ty.distinct history).length) :
    (∀ order, order.Perm history →
      widen h order threshold = .any ∨ Nearest h history (widen h order threshold)) ∧
    ((∀ order, order.Perm history → Nearest h history (widen h order threshold)) ↔
      ¬ Misses h history) ∧
    (¬ Misses h history →
      (∀ order, order.Perm history → widen h order threshold = widen h history threshold) ∧
      ∀ longer, history ⊆ longer → (∀ t ∈ longer, t.ground h = true) →
        isSubtype h (widen h history threshold) (widen h longer threshold) = true) := by
  have ordered := built.ordered
  have cases : ∀ order, order.Perm history → Nearest h history (widen h order threshold) ∨
      widen h order threshold = .any ∧ Held h history := by
    intro order perm
    have hord : ∀ t ∈ order, t.ground h = true := fun t ht => hts t (perm.mem_iff.1 ht)
    have many' := many.trans_le (length_distinct_le hts hord perm.symm.subset)
    exact (widen_nearest_or_held ordered typesGround hord many').imp (Nearest.of_perm perm)
      (And.imp_right (Held.of_perm perm))
  have nearest : ¬ Misses h history →
      ∀ order, order.Perm history → Nearest h history (widen h order threshold) := by
    intro missesNot order perm
    rcases cases order perm with nearest | ⟨top, held⟩
    · exact nearest
    · exact top ▸ .top fun name bounds => missesNot ⟨held, name, bounds⟩
  refine ⟨fun order perm => (cases order perm).symm.imp_left And.left, ⟨?_, nearest⟩, ?_⟩
  · rintro always ⟨held, name, bounds⟩
    obtain ⟨order, perm, top⟩ := held.exists_order_top ordered typesGround hts many
    have missed := always order perm
    rw [top] at missed
    cases missed with
    | top none => exact none name bounds
  · intro missesNot
    have own := nearest missesNot history (.refl _)
    refine ⟨fun order perm => (nearest missesNot order perm).unique ordered own, ?_⟩
    intro longer within hlonger
    have many' := many.trans_le (length_distinct_le hts hlonger within)
    rcases widen_nearest_or_held ordered typesGround hlonger many' with further | ⟨top, -⟩
    · exact own.mono within further
    · rw [top]
      exact isSubtype_any h _

/-- Three kinds of shapes. -/
def shapeHierarchy : Hierarchy where
  decls :=
    [⟨"Triangle", false, some "Shape", [], none, none⟩,
      ⟨"Square", false, some "Shape", [], none, none⟩,
      ⟨"Circle", false, some "Shape", [], none, none⟩,
      ⟨"Shape", true, some "Any", [], none, none⟩,
      TypeDecl.any]

/-- The three shapes, one by one. -/
def shapes : List Ty :=
  [.concrete "Circle" [], .concrete "Square" [], .concrete "Triangle" []]

theorem shapeHierarchy_declared : shapeHierarchy.Declared :=
  Hierarchy.Declared.declareAll shapeHierarchy.decls.dropLast.reverse .initial rfl

theorem shapeHierarchy_typesGround : shapeHierarchy.TypesGround :=
  Hierarchy.typesGround_of_decls (by decide +kernel)

theorem widen_shapes {history : List Ty} {threshold : Nat} {c : Ty}
    (hts : ∀ t ∈ history, t.ground shapeHierarchy = true) (hc : c.ground shapeHierarchy = true)
    (same : (widen shapeHierarchy history threshold).same c = true) :
    widen shapeHierarchy history threshold = c := by
  have ground := (isSubtype_widen shapeHierarchy_declared.ordered shapeHierarchy_typesGround hts
    threshold).1
  exact (Ty.same_iff_of_ground ground hc).1 same

/-- Three shapes are widened to the shape in general. -/
theorem widen_nearest_iff_shapes :
    (∀ t ∈ shapes, t.ground shapeHierarchy = true) ∧ 2 < (Ty.distinct shapes).length ∧
      Nearest shapeHierarchy shapes (.abstract "Shape") := by
  have ground : ∀ t ∈ shapes, t.ground shapeHierarchy = true := by decide +kernel
  have many : 2 < (Ty.distinct shapes).length := by decide +kernel
  have widened : widen shapeHierarchy shapes 2 = .abstract "Shape" :=
    widen_shapes ground (by decide +kernel) (by decide +kernel)
  refine ⟨ground, many, ?_⟩
  rcases (widen_nearest_iff shapeHierarchy_declared shapeHierarchy_typesGround ground many).1 shapes
    (.refl _) with top | nearest
  · rw [widened] at top
    cases top
  · rwa [widened] at nearest

/-- The union of three shapes and the shapes behind it are widened to the top. In another order, and
    with the shape in general behind them, they are widened to the shape in general. -/
theorem widen_misses_shape :
    (∀ t ∈ .union shapes :: shapes, t.ground shapeHierarchy = true) ∧
      3 < (Ty.distinct (.union shapes :: shapes)).length ∧
      Bounds shapeHierarchy (.union shapes :: shapes) "Shape" ∧
      widen shapeHierarchy (.union shapes :: shapes) 3 = .any ∧
      widen shapeHierarchy (shapes ++ [.union shapes]) 3 = .abstract "Shape" ∧
      widen shapeHierarchy (.union shapes :: shapes ++ [.abstract "Shape"]) 3 =
        .abstract "Shape" := by
  refine ⟨by decide +kernel, by decide +kernel, ⟨by decide +kernel, by decide +kernel⟩, ?_, ?_, ?_⟩
  all_goals exact widen_shapes (by decide +kernel) (by decide +kernel) (by decide +kernel)

end Lattice

end Multimethod
