import Multimethod.Proofs.Inference.Conversion
import Multimethod.Proofs.Lattice.Structural
import Multimethod.Proofs.Lattice.Widening
import Multimethod.Proofs.Ty.Apart

/-!
# Types bounded by a ground type

What lies below a ground type still does when it is joined with other types below it, and a value
lies below the ground type that it is converted to. This holds of types with variables as well,
unless these are taken for declared types.
-/

namespace Multimethod

namespace Lattice

variable {h : Hierarchy} {a b m r t : Ty} {ms rs ts ps qs : List Ty} {name : String}

theorem structural_apart (proper : ∀ d ∈ h.decls, isSpelled d.name = true) :
    Structural h fun t => t.apart h = true where
  bottom := rfl
  any := rfl
  union _ := Ty.apart_union
  args _ _ named := (Ty.apart_concrete.1 named).2
  applied _ _ _ named others := Ty.apart_concrete.2 ⟨(Ty.apart_concrete.1 named).1, others⟩
  bound _ _ named := (Ty.apart_typeVar.1 named).2
  abstract name known := by
    obtain ⟨decl, declared⟩ := Option.isSome_iff_exists.1 known
    have same : decl.name = name := by simpa using List.find?_some declared
    exact same ▸ proper decl (List.mem_of_find?_eq_some declared)

/-! ## Unions below a ground type -/

/-- A ground type that can be a member of a union starts with a declared name. -/
theorem has_word_of_ground (ground : r.ground h = true) (atom : r.isAtom = true) :
    isPlainName r.word = true ∧ h.has r.word = true := by
  have known : ∀ (name : String) (p : TypeDecl → Bool), (h.find? name).any p = true →
      h.has name = true := by
    intro name p declared
    obtain ⟨decl, found, -⟩ := (Option.any_eq_true p _).1 declared
    rw [Hierarchy.has, found, Option.isSome_some]
  cases r with
  | concrete name ps =>
      have declared := (Ty.ground_concrete.1 ground).1
      exact ⟨Ty.isPlainName_of_hasConcrete declared,
        known name _ (Bool.and_eq_true_iff.1 declared).2⟩
  | abstract name =>
      exact ⟨Ty.isPlainName_of_hasAbstract ground, known name _ (Bool.and_eq_true_iff.1 ground).2⟩
  | typeVar name bound => simp [Ty.ground] at ground
  | _ => cases atom

/-- Only a declared type has the id of a ground type that can be a member of a union. -/
theorem declared_of_same (named : t.apart h = true) (ground : r.ground h = true)
    (atom : r.isAtom = true) (same : t.same r = true) :
    (∃ name ps, t = .concrete name ps) ∨ ∃ name, t = .abstract name := by
  obtain ⟨plain, declared⟩ := has_word_of_ground ground atom
  obtain ⟨-, -, notAny, notBottom, notUnion⟩ := isPlainName_iff.1 plain
  have words : t.word = r.word :=
    (Ty.word_eq_of_id_eq named (Ty.apart_of_ground r ground) (by simpa [Ty.same] using same)).1
  rw [← words] at declared notAny notBottom notUnion
  cases t with
  | any => exact absurd rfl notAny
  | bottom => exact absurd rfl notBottom
  | union ms => exact absurd rfl notUnion
  | concrete name ps => exact .inl ⟨name, ps, rfl⟩
  | abstract name => exact .inr ⟨name, rfl⟩
  | typeVar name bound =>
      rw [Ty.word, (Ty.apart_typeVar.1 named).1.2] at declared
      cases declared

/-- What has the id of a member of a ground union is below the union. -/
theorem isSubtype_union_of_same (named : t.apart h = true)
    (ground : (Ty.union rs).ground h = true) (member : r ∈ rs) (same : t.same r = true) :
    isSubtype h t (.union rs) = true := by
  obtain ⟨canonical, all⟩ := Ty.ground_union.1 ground
  have atom := (Ty.isCanonical_iff.1 canonical).2.1 r member
  have among : belowSome h t rs = true := belowSome_iff.2 ⟨r, member, isSubtype_of_same same⟩
  rw [isSubtype.eq_def]
  split
  · rfl
  · obtain ⟨name, ps, rfl⟩ | ⟨name, rfl⟩ := declared_of_same named (all r member) atom same
    · exact among
    · exact among

/-- A union is below a ground type exactly if its members are. -/
theorem union_isSubtype_iff_of_apart (named : (Ty.union ms).apart h = true)
    (ground : r.ground h = true) :
    isSubtype h (.union ms) r = true ↔ ∀ m ∈ ms, isSubtype h m r = true := by
  refine ⟨fun below => ?_, union_isSubtype_of_forall⟩
  by_cases same : (Ty.union ms).same r = true
  · obtain ⟨rs, rfl, alike⟩ :=
      Ty.exists_union_of_id_eq named ground (by simpa [Ty.same] using same)
    intro m member
    obtain ⟨r, among, sameIds⟩ := alike m member
    exact isSubtype_union_of_same (Ty.apart_union.1 named m member) ground among
      (by simpa [Ty.same] using sameIds)
  · rw [isSubtype.eq_def, if_neg same] at below
    cases r with
    | any => exact fun m _ => isSubtype_any h m
    | _ => exact allBelow_iff.1 below

/-- What is below a member of a ground union is below the union. -/
theorem isSubtype_union_of_isSubtype (t : Ty) (named : t.apart h = true)
    (ground : (Ty.union rs).ground h = true) (member : r ∈ rs) (below : isSubtype h t r = true) :
    isSubtype h t (.union rs) = true := by
  obtain ⟨canonical, all⟩ := Ty.ground_union.1 ground
  have groundMember := all r member
  have atom := (Ty.isCanonical_iff.1 canonical).2.1 r member
  have among : belowSome h t rs = true := belowSome_iff.2 ⟨r, member, below⟩
  induction t using Ty.parts_induction with
  | any =>
      cases (any_isSubtype_iff groundMember).1 below
      cases atom
  | bottom => exact bottom_isSubtype h _
  | union ms ih =>
      have members := (union_isSubtype_iff_of_apart named groundMember).1 below
      exact union_isSubtype_of_forall fun m hm => ih m hm (Ty.apart_union.1 named m hm)
        (members m hm) (belowSome_iff.2 ⟨r, member, members m hm⟩)
  | typeVar name bound ih =>
      have notSame : ¬ (Ty.typeVar name bound).same r = true := fun same => by
        simpa using declared_of_same named groundMember atom same
      have boundBelow : isSubtype h bound r = true := by
        rw [isSubtype.eq_def, if_neg notSame] at below
        cases r with
        | any => exact isSubtype_any h bound
        | _ => exact below
      rw [isSubtype.eq_def]
      split
      · rfl
      · exact ih (Ty.apart_typeVar.1 named).2 boundBelow
          (belowSome_iff.2 ⟨r, member, boundBelow⟩)
  | _ =>
      rw [isSubtype.eq_def]
      split
      · rfl
      · exact among

/-! ## Bounds below a ground type -/

/-- Whether a type is below `r`, and told apart from declared types. -/
structure BoundedBy (h : Hierarchy) (r t : Ty) : Prop where
  apart : t.apart h = true
  below : isSubtype h t r = true

theorem boundedBy_bottom (h : Hierarchy) (r : Ty) : BoundedBy h r .bottom :=
  ⟨rfl, bottom_isSubtype h r⟩

theorem boundedBy_self (ground : r.ground h = true) : BoundedBy h r r :=
  ⟨Ty.apart_of_ground r ground, isSubtype_refl h r⟩

theorem boundedBy_union (each : ∀ m ∈ ms, BoundedBy h r m) : BoundedBy h r (.union ms) :=
  ⟨Ty.apart_union.2 fun m member => (each m member).apart,
    union_isSubtype_of_forall fun m member => (each m member).below⟩

theorem BoundedBy.member (ground : r.ground h = true) (bounded : BoundedBy h r t) :
    ∀ m ∈ t.members, BoundedBy h r m := by
  intro m member
  cases t with
  | union ms => exact ⟨Ty.apart_union.1 bounded.apart m member,
      (union_isSubtype_iff_of_apart bounded.apart ground).1 bounded.below m member⟩
  | _ =>
      cases List.mem_singleton.1 member
      exact bounded

theorem boundedBy_unionOf (ground : r.ground h = true) (each : ∀ t ∈ ts, BoundedBy h r t) :
    BoundedBy h r (Ty.unionOf ts) := by
  refine Ty.unionOf_of_flatten (boundedBy_bottom h r) (fun _ => boundedBy_union) ?_
  intro m member
  obtain ⟨t, among, inside⟩ := List.mem_flatMap.1 member
  exact (each t among).member ground m inside

theorem BoundedBy.normalize (ground : r.ground h = true) (bounded : BoundedBy h r t) :
    BoundedBy h r (normalize h t) := by
  cases t with
  | union ms =>
      exact boundedBy_unionOf ground fun m kept =>
        bounded.member ground m (List.mem_filter.1 kept).1
  | _ => exact bounded

theorem BoundedBy.join (ground : r.ground h = true) (left : BoundedBy h r a)
    (right : BoundedBy h r b) : BoundedBy h r (join h a b) := by
  unfold Lattice.join
  split
  · exact right
  · split
    · exact left
    · exact (boundedBy_unionOf ground (by simp [left, right])).normalize ground

theorem boundedBy_joinAll (ground : r.ground h = true) (each : ∀ t ∈ ts, BoundedBy h r t) :
    BoundedBy h r (joinAll h ts) :=
  List.foldlRecOn (motive := BoundedBy h r) ts (Lattice.join h) (boundedBy_bottom h r)
    fun _ bounded t member => bounded.join ground (each t member)

/-- Widening keeps below a ground type while few types have been taken. -/
theorem boundedBy_widen (ground : r.ground h = true) (each : ∀ t ∈ ts, BoundedBy h r t)
    {threshold : Nat} (few : (Ty.distinct ts).length ≤ threshold) :
    BoundedBy h r (widen h ts threshold) := by
  unfold widen
  rw [if_pos few]
  exact boundedBy_joinAll ground fun t kept => each t (Ty.mem_of_mem_distinctFrom kept)

/-! ## Conversion to a ground type -/

/-- Instances of a covariant type compare as their arguments do. -/
theorem concrete_isSubtype_of_covariant (arity : qs = [] ∨ qs.length = (h.paramsOf name).length)
    (length : ps.length = qs.length) (covariant : h.allCovariant name = true)
    (below : ∀ i (hp : i < ps.length) (hq : i < qs.length), isSubtype h ps[i] qs[i] = true) :
    isSubtype h (.concrete name ps) (.concrete name qs) = true := by
  rw [isSubtype.eq_def]
  split
  · rfl
  · rcases arity with rfl | arity
    · simp
    · have args : argsBelow h (h.paramsOf name) ps qs = true :=
        argsBelow_of_covariant length (length.trans arity).le covariant below
      simp [args]

section Conversion

variable (proper : ∀ d ∈ h.decls, isSpelled d.name = true)
include proper

/-- What a type has in common with a ground type is below the ground type. -/
theorem boundedBy_meet (named : a.apart h = true) (ground : r.ground h = true) :
    BoundedBy h r (meet h a r) := by
  refine ⟨(structural_apart proper).meet named (Ty.apart_of_ground r ground), ?_⟩
  revert named ground
  refine meet_induction (p := fun a r met => a.apart h = true → r.ground h = true →
    isSubtype h met r = true) ?below ?above ?left ?right ?leftBound ?rightBound ?args ?nothing a r
  case below => exact fun order _ _ => order
  case above => exact fun {_ r} _ _ _ => isSubtype_refl h r
  case left =>
    intro ms r each named ground
    refine (boundedBy_joinAll ground (List.forall_mem_map.2 fun m hm => ?_)).below
    have ofMember := Ty.apart_union.1 named m hm
    exact ⟨(structural_apart proper).meet ofMember (Ty.apart_of_ground r ground),
      each m hm ofMember ground⟩
  case right =>
    intro a rs each named ground
    refine (boundedBy_joinAll ground (List.forall_mem_map.2 fun r hr => ?_)).below
    have groundMember := (Ty.ground_union.1 ground).2 r hr
    have apart := (structural_apart proper).meet named (Ty.apart_of_ground r groundMember)
    exact ⟨apart, isSubtype_union_of_isSubtype _ apart ground hr (each r hr named groundMember)⟩
  case leftBound => exact fun inner named ground => inner (Ty.apart_typeVar.1 named).2 ground
  case rightBound =>
    intro a name bound _ _ ground
    cases ground
  case args =>
    intro name ps qs length covariant each named ground
    obtain ⟨-, arity, args⟩ := Ty.ground_concrete.1 ground
    refine concrete_isSubtype_of_covariant arity (by simp [length]) covariant fun i _ hq => ?_
    have hp : i < ps.length := length ▸ hq
    rw [List.getElem_zipWith]
    exact each _ (List.getElem_mem hp) _ (List.getElem_mem hq)
      ((Ty.apart_concrete.1 named).2 _ (List.getElem_mem hp)) (args _ (List.getElem_mem hq))
  case nothing => exact fun _ _ _ _ => bottom_isSubtype h _

/-- A converted value is below the ground type to which it is converted. -/
theorem boundedBy_convertType {value converted : Ty} (named : value.apart h = true)
    (ground : r.ground h = true)
    (converts : Inference.convertType h value r = some converted) : BoundedBy h r converted := by
  obtain ⟨rfl, below⟩ | ⟨rfl, -⟩ | ⟨rfl, -⟩ := Inference.convertType_cases converts
  · exact ⟨named, below⟩
  · exact boundedBy_self ground
  · exact boundedBy_meet proper named ground

end Conversion

end Lattice

end Multimethod
