import Multimethod.Hierarchy
import Multimethod.Proofs.Ty.Identity
import Multimethod.Text.Names

/-!
# Well-formed ground types

A ground type mentions no variable, uses every name as it is declared, and has its unions in the
canonical form. Over such types equal ids mean equal types.
-/

namespace Multimethod

/-- Whether a text is an identifier. -/
def isIdentifier (name : String) : Bool :=
  match name.toList with
  | [] => false
  | c :: cs => isNameStart c && cs.all isNamePart

/-- Whether a name may be declared and used as a type: an identifier that no builtin type
    former has. -/
def isTypeName (name : String) : Bool :=
  isIdentifier name && name != "Any" && name != "Bottom" && name != "Union"

theorem isMark_eq_false_of_isNamePart {c : Char} (h : isNamePart c = true) :
    isMark c = false := by
  rw [Bool.eq_false_iff]
  intro marked
  simp only [isMark, Bool.or_eq_true, beq_iff_eq] at marked
  rcases marked with ((((rfl | rfl) | rfl) | rfl) | rfl) | rfl <;> exact absurd h (by decide)

/-- An identifier has no mark in it. -/
theorem isPlainName_of_isTypeName {name : String} (h : isTypeName name = true) :
    isPlainName name = true := by
  simp only [isTypeName, Bool.and_eq_true, bne_iff_ne] at h
  obtain ⟨⟨⟨identifier, notAny⟩, notBottom⟩, notUnion⟩ := h
  refine isPlainName_iff.2 ⟨?_, ?_, notAny, notBottom, notUnion⟩
  · intro nothing
    simp [isIdentifier, nothing] at identifier
  · intro c hc
    unfold isIdentifier at identifier
    cases chars : name.toList with
    | nil => simp [chars] at hc
    | cons d ds =>
        simp only [chars, Bool.and_eq_true, List.all_eq_true] at identifier hc
        rcases List.mem_cons.1 hc with rfl | further
        · exact isMark_eq_false_of_isNamePart (isNamePart_of_isNameStart identifier.1)
        · exact isMark_eq_false_of_isNamePart (identifier.2 c further)

namespace Hierarchy

/-- Whether a name is declared as an abstract type. -/
def isAbstract (h : Hierarchy) (name : String) : Bool :=
  (h.find? name).any (·.isAbstract)

/-- Whether `name` can be used as the name of a concrete type. -/
def hasConcrete (h : Hierarchy) (name : String) : Bool :=
  isTypeName name && (h.find? name).any fun decl => !decl.isAbstract

/-- Whether `name` can be used as the name of an abstract type. -/
def hasAbstract (h : Hierarchy) (name : String) : Bool :=
  isTypeName name && h.isAbstract name

theorem not_isAbstract_of_hasConcrete {h : Hierarchy} {name : String}
    (declared : h.hasConcrete name = true) : h.isAbstract name = false := by
  unfold hasConcrete at declared
  unfold isAbstract
  cases found : h.find? name with
  | none => rfl
  | some decl => simp_all

end Hierarchy

namespace Ty

/-- Whether a type can be a member of a union. -/
def isAtom : Ty → Bool
  | any => false
  | bottom => false
  | union _ => false
  | _ => true

/-- A type is one of the two bounds, a union, or can be a member of one. -/
theorem atom_cases (t : Ty) :
    t = any ∨ t = bottom ∨ (∃ ms, t = union ms) ∨ t.isAtom = true := by
  cases t <;> simp [isAtom]

/-- Whether the members of a union have the canonical form: there are several, none of which
    is absorbed by a union, and their ids ascend. -/
def isCanonical (ms : List Ty) : Bool :=
  1 < ms.length && ms.all isAtom && decide (ms.Pairwise fun m n => unitsBefore m.id n.id = true)

mutual

/-- Whether a type is well-formed and mentions no variable. A concrete type has as many
    arguments as are declared, or none. -/
def ground (h : Hierarchy) : Ty → Bool
  | any => true
  | bottom => true
  | concrete name ps =>
      h.hasConcrete name && (ps.isEmpty || ps.length == (h.paramsOf name).length)
        && allGround h ps
  | abstract name => h.hasAbstract name
  | typeVar _ _ => false
  | union ms => isCanonical ms && allGround h ms

/-- Whether all types of a list are well-formed and mention no variable. -/
def allGround (h : Hierarchy) : List Ty → Bool
  | [] => true
  | t :: ts => ground h t && allGround h ts

end

mutual

/-- Whether the bottom occurs nowhere in a type. -/
def bottomFree : Ty → Bool
  | bottom => false
  | concrete _ ps => allBottomFree ps
  | union ms => allBottomFree ms
  | _ => true

/-- Whether the bottom occurs nowhere in the types of a list. -/
def allBottomFree : List Ty → Bool
  | [] => true
  | t :: ts => bottomFree t && allBottomFree ts

end

theorem allGround_iff {h : Hierarchy} {ts : List Ty} :
    allGround h ts = true ↔ ∀ t ∈ ts, t.ground h = true := by
  induction ts with
  | nil => simp [allGround]
  | cons t ts ih => simp [allGround, ih]

theorem allBottomFree_iff {ts : List Ty} :
    allBottomFree ts = true ↔ ∀ t ∈ ts, t.bottomFree = true := by
  induction ts with
  | nil => simp [allBottomFree]
  | cons t ts ih => simp [allBottomFree, ih]

theorem isCanonical_iff {ms : List Ty} :
    isCanonical ms = true ↔
      1 < ms.length ∧ (∀ m ∈ ms, m.isAtom = true) ∧
        ms.Pairwise fun m n => unitsBefore m.id n.id = true := by
  simp [isCanonical, and_assoc]

@[simp] theorem ground_any (h : Hierarchy) : ground h any = true := by
  simp [ground]

@[simp] theorem ground_bottom (h : Hierarchy) : ground h bottom = true := by
  simp [ground]

theorem ground_concrete {h : Hierarchy} {name : String} {ps : List Ty} :
    (concrete name ps).ground h = true ↔
      h.hasConcrete name = true ∧ (ps = [] ∨ ps.length = (h.paramsOf name).length) ∧
        ∀ p ∈ ps, p.ground h = true := by
  simp [ground, allGround_iff, and_assoc]

theorem ground_union {h : Hierarchy} {ms : List Ty} :
    (union ms).ground h = true ↔ isCanonical ms = true ∧ ∀ m ∈ ms, m.ground h = true := by
  simp [ground, allGround_iff]

/-- A ground type can be read back from its id. -/
theorem readable_of_ground {h : Hierarchy} (t : Ty) :
    t.ground h = true → readable h.isAbstract t = true := by
  induction t using parts_induction with
  | any => simp [readable]
  | bottom => simp [readable]
  | abstract name =>
      intro ht
      simp only [ground, Hierarchy.hasAbstract, Bool.and_eq_true] at ht
      simp [readable, isPlainName_of_isTypeName ht.1, ht.2]
  | typeVar name bound => simp [ground]
  | concrete name ps ih =>
      intro ht
      obtain ⟨declared, -, args⟩ := ground_concrete.1 ht
      have named : isTypeName name = true := by
        simp only [Hierarchy.hasConcrete, Bool.and_eq_true] at declared
        exact declared.1
      simp only [readable, isPlainName_of_isTypeName named,
        Hierarchy.not_isAbstract_of_hasConcrete declared, Bool.not_false, Bool.and_self,
        Bool.true_and, allReadable_iff]
      exact fun p hp => ih p hp (args p hp)
  | union ms ih =>
      intro ht
      rw [readable, allReadable_iff]
      exact fun m hm => ih m hm ((ground_union.1 ht).2 m hm)

theorem allReadable_of_allGround {h : Hierarchy} {ts : List Ty} (ground : allGround h ts = true) :
    allReadable h.isAbstract ts = true :=
  allReadable_iff.2 fun t ht => readable_of_ground t (allGround_iff.1 ground t ht)

/-- Ground types with one id are equal. -/
theorem ground_id_inj {h : Hierarchy} {a b : Ty} (ha : a.ground h = true)
    (hb : b.ground h = true) (same : a.id = b.id) : a = b :=
  eq_of_id_eq (readable_of_ground a ha) (readable_of_ground b hb) same

theorem same_iff_of_ground {h : Hierarchy} {a b : Ty} (ha : a.ground h = true)
    (hb : b.ground h = true) : a.same b = true ↔ a = b := by
  simp only [same, beq_iff_eq]
  exact ⟨ground_id_inj ha hb, fun equal => by rw [equal]⟩

end Ty

end Multimethod
