import Multimethod.Proofs.Ty.Ground
import Multimethod.Proofs.Ty.Spelling

/-!
# Variables that are told apart from declared types

The id of a type variable is its name. If no variable is named as a declared type is, then only the
union of types with the same ids has the id of a ground union, and no variable is taken for one of
its members.
-/

namespace Multimethod

namespace Ty

mutual

/-- Whether the names in a type can be told from the marks of its id, and its variables, in bounds
    too, from declared types. -/
def apart (h : Hierarchy) : Ty → Bool
  | any => true
  | bottom => true
  | concrete name ps => isSpelled name && allApart h ps
  | abstract name => isSpelled name
  | typeVar name bound => isSpelled name && !h.has name && apart h bound
  | union ms => allApart h ms

/-- Whether all types of a list are told apart. -/
def allApart (h : Hierarchy) : List Ty → Bool
  | [] => true
  | t :: ts => apart h t && allApart h ts

end

variable {h : Hierarchy} {t u m r : Ty} {ts us ms rs : List Ty} {name : String}

theorem allApart_iff : allApart h ts = true ↔ ∀ t ∈ ts, t.apart h = true := by
  induction ts with
  | nil => simp [allApart]
  | cons t ts ih => simp [allApart, ih]

theorem apart_concrete {ps : List Ty} :
    (concrete name ps).apart h = true ↔ isSpelled name = true ∧ ∀ p ∈ ps, p.apart h = true := by
  rw [apart, Bool.and_eq_true, allApart_iff]

theorem apart_typeVar {bound : Ty} : (typeVar name bound).apart h = true ↔
    (isSpelled name = true ∧ h.has name = false) ∧ bound.apart h = true := by
  simp [apart]

theorem apart_union : (union ms).apart h = true ↔ ∀ m ∈ ms, m.apart h = true := by
  rw [apart, allApart_iff]

theorem isPlainName_of_hasConcrete (declared : h.hasConcrete name = true) :
    isPlainName name = true := by
  simp only [Hierarchy.hasConcrete, Bool.and_eq_true] at declared
  exact isPlainName_of_isTypeName declared.1

theorem isPlainName_of_hasAbstract (declared : h.hasAbstract name = true) :
    isPlainName name = true := by
  simp only [Hierarchy.hasAbstract, Bool.and_eq_true] at declared
  exact isPlainName_of_isTypeName declared.1

theorem apart_of_ground (t : Ty) : t.ground h = true → t.apart h = true := by
  induction t using parts_induction with
  | any => exact fun _ => rfl
  | bottom => exact fun _ => rfl
  | abstract name => exact fun ground => isSpelled_of_isPlainName (isPlainName_of_hasAbstract ground)
  | typeVar name bound => simp [ground]
  | concrete name ps ih =>
      intro ground
      obtain ⟨declared, -, args⟩ := ground_concrete.1 ground
      exact apart_concrete.2 ⟨isSpelled_of_isPlainName (isPlainName_of_hasConcrete declared),
        fun p hp => ih p hp (args p hp)⟩
  | union ms ih =>
      exact fun ground => apart_union.2 fun m hm => ih m hm ((ground_union.1 ground).2 m hm)

/-! ## Ids of unions -/

theorem listIds_congr (alike : List.Forall₂ (fun t u : Ty => t.id = u.id) ts us) :
    listIds ts = listIds us := by
  have further : ∀ {ts us : List Ty}, List.Forall₂ (fun t u : Ty => t.id = u.id) ts us →
      furtherIds ts = furtherIds us := by
    intro ts us alike
    induction alike with
    | nil => rfl
    | cons first _ ih => rw [furtherIds, furtherIds, first, ih]
  cases alike with
  | nil => rfl
  | cons first rest => rw [listIds, listIds, first, further rest]

theorem id_eq_of_bracketed (sameWord : t.word = u.word)
    (sameInner : Option.Rel (List.Forall₂ fun t u : Ty => t.id = u.id) t.bracketed u.bracketed) :
    t.id = u.id := by
  rw [← String.toList_inj, toList_id, toList_id, sameWord]
  generalize t.bracketed = inner at sameInner
  generalize u.bracketed = other at sameInner
  cases sameInner with
  | none => rfl
  | some alike => rw [brackets, brackets, listIds_congr alike]

/-- Ids are read back part by part. -/
theorem legible_apart (h : Hierarchy) :
    Legible (fun t => t.apart h = true) fun t u => t.id = u.id where
  word t named := by
    cases t with
    | any => simp [word, isMark]
    | bottom => simp [word, isMark]
    | union ms => simp [word, isMark]
    | typeVar name bound => exact isSpelled_iff.1 (apart_typeVar.1 named).1.1
    | concrete name ps => exact isSpelled_iff.1 (apart_concrete.1 named).1
    | abstract name => exact isSpelled_iff.1 named
  inner t named ts inner := by
    cases t with
    | concrete name ps =>
        cases ps with
        | nil => simp [bracketed] at inner
        | cons p ps =>
            obtain rfl : p :: ps = ts := by simpa [bracketed] using inner
            exact (apart_concrete.1 named).2
    | union ms =>
        obtain rfl : ms = ts := by simpa [bracketed] using inner
        exact apart_union.1 named
    | _ => simp [bracketed] at inner
  same _ _ _ _ := id_eq_of_bracketed

theorem word_eq_of_id_eq (ht : t.apart h = true) (hu : u.apart h = true) (same : t.id = u.id) :
    t.word = u.word ∧ brackets t.bracketed = brackets u.bracketed := by
  have nothing : Stops [] := by simp [Stops]
  have stops : ∀ inner, Stops (brackets inner) := by
    intro inner
    have behind : Stops (brackets inner ++ []) := stops_brackets nothing
    rwa [List.append_nil] at behind
  rw [← String.toList_inj, toList_id, toList_id] at same
  obtain ⟨words, rest⟩ := append_inj_of_stops ((legible_apart h).word t ht).2
    ((legible_apart h).word u hu).2 (stops _) (stops _) same
  exact ⟨String.toList_inj.1 words, rest⟩

/-- Words of ground types are those of the builtin formers or declared names. -/
theorem word_ne_union (ground : r.ground h = true) (other : ∀ rs, r ≠ .union rs) :
    r.word ≠ "Union" := by
  cases r with
  | any => simp [word]
  | bottom => simp [word]
  | union rs => exact absurd rfl (other rs)
  | typeVar name bound => simp [Ty.ground] at ground
  | concrete name ps =>
      exact (isPlainName_iff.1 (isPlainName_of_hasConcrete (ground_concrete.1 ground).1)).2.2.2.2
  | abstract name => exact (isPlainName_iff.1 (isPlainName_of_hasAbstract ground)).2.2.2.2

/-- Only a union has the id of a union, and it has members with the ids of the other's. -/
theorem exists_union_of_id_eq (ht : (union ms).apart h = true) (ground : r.ground h = true)
    (same : (union ms).id = r.id) :
    ∃ rs, r = union rs ∧ ∀ m ∈ ms, ∃ u ∈ rs, m.id = u.id := by
  obtain ⟨words, inner⟩ := word_eq_of_id_eq ht (apart_of_ground r ground) same
  by_cases isUnion : ∃ rs, r = .union rs
  · obtain ⟨rs, rfl⟩ := isUnion
    simp only [bracketed, brackets, List.cons_append, List.cons.injEq, true_and,
      List.append_cancel_right_eq] at inner
    have alike := forall₂_of_listIds_eq (legible_apart h) (apart_union.1 ht)
      (apart_union.1 (apart_of_ground _ ground)) inner
    refine ⟨rs, rfl, fun m member => ?_⟩
    obtain ⟨i, hi, rfl⟩ := List.mem_iff_getElem.1 member
    have hi' : i < rs.length := alike.length_eq ▸ hi
    exact ⟨rs[i], List.getElem_mem hi', alike.get hi hi'⟩
  · exact absurd words.symm (word_ne_union ground (not_exists.1 isUnion))

end Ty

end Multimethod
