import Mathlib.Data.List.Forall2
import Multimethod.Ty.Basic

/-!
# Ids tell types apart

The id of a type can be read back as long as no name contains one of the marks that structure
an id, no name is that of a builtin type former, and no name is used both for an abstract and
for a concrete type. Reading is unambiguous in front of anything that a type cannot go on with,
which is what the induction over the parts of a type needs.

What an id is read back as depends on how much of a type is given by its word and by what stands
in its brackets, so reading is up to a relation that is.
-/

namespace Multimethod

/-- The characters that structure ids and the keys of calls. -/
def isMark (c : Char) : Bool :=
  c == '{' || c == '}' || c == ',' || c == '(' || c == ')' || c == ' '

/-- Whether a name stands apart from what surrounds it in an id, and from the builtin types. -/
def isPlainName (name : String) : Bool :=
  !name.toList.isEmpty && name.toList.all (fun c => !isMark c)
    && name != "Any" && name != "Bottom" && name != "Union"

theorem isPlainName_iff {name : String} :
    isPlainName name = true ↔
      name.toList ≠ [] ∧ (∀ c ∈ name.toList, isMark c = false) ∧
        name ≠ "Any" ∧ name ≠ "Bottom" ∧ name ≠ "Union" := by
  simp [isPlainName, and_assoc]

namespace Ty

/-- Induction over the parts of a type. -/
theorem parts_induction {motive : Ty → Prop} (any : motive .any) (bottom : motive .bottom)
    (concrete : ∀ name ps, (∀ p ∈ ps, motive p) → motive (.concrete name ps))
    (abstract : ∀ name, motive (.abstract name))
    (typeVar : ∀ name bound, motive bound → motive (.typeVar name bound))
    (union : ∀ ms, (∀ m ∈ ms, motive m) → motive (.union ms)) (t : Ty) : motive t := by
  induction hn : t.size using Nat.strongRecOn generalizing t with
  | ind n ih =>
      subst hn
      cases t with
      | any => exact any
      | bottom => exact bottom
      | abstract name => exact abstract name
      | concrete name ps =>
          refine concrete name ps fun p hp => ih _ ?_ p rfl
          have := size_lt_sizes hp
          simp only [size]
          omega
      | typeVar name bound =>
          refine typeVar name bound (ih _ ?_ bound rfl)
          simp only [size]
          omega
      | union ms =>
          refine union ms fun m hm => ih _ ?_ m rfl
          have := size_lt_sizes hm
          simp only [size]
          omega

mutual

/-- Whether a type without variables can be read back from its id. A name is abstract exactly
    if `isAbstract` says so. -/
def readable (isAbstract : String → Bool) : Ty → Bool
  | any => true
  | bottom => true
  | concrete name ps => isPlainName name && !isAbstract name && allReadable isAbstract ps
  | abstract name => isPlainName name && isAbstract name
  | typeVar _ _ => false
  | union ms => allReadable isAbstract ms

/-- Whether all types of a list can be read back. -/
def allReadable (isAbstract : String → Bool) : List Ty → Bool
  | [] => true
  | t :: ts => readable isAbstract t && allReadable isAbstract ts

end

theorem allReadable_iff {isAbstract : String → Bool} {ts : List Ty} :
    allReadable isAbstract ts = true ↔ ∀ t ∈ ts, readable isAbstract t = true := by
  induction ts with
  | nil => simp [allReadable]
  | cons t ts ih => simp [allReadable, ih]

/-! ## The words and brackets of an id -/

/-- The word with which an id starts. -/
def word : Ty → String
  | any => "Any"
  | bottom => "Bottom"
  | concrete name _ => name
  | abstract name => name
  | typeVar name _ => name
  | union _ => "Union"

/-- The types that stand in the brackets of an id, if it has brackets. -/
def bracketed : Ty → Option (List Ty)
  | concrete _ (p :: ps) => some (p :: ps)
  | union ms => some ms
  | _ => none

/-- The texts of further types in a list, each behind a comma. -/
def furtherIds : List Ty → List Char
  | [] => []
  | t :: ts => ',' :: ' ' :: t.id.toList ++ furtherIds ts

/-- The text of a list of types. -/
def listIds : List Ty → List Char
  | [] => []
  | t :: ts => t.id.toList ++ furtherIds ts

/-- What stands behind the word of an id. -/
def brackets : Option (List Ty) → List Char
  | none => []
  | some ts => '{' :: listIds ts ++ ['}']

theorem toList_intercalate_ids (ts : List Ty) :
    (", ".intercalate (ids ts)).toList = listIds ts := by
  induction ts with
  | nil => simp [ids, listIds]
  | cons t ts ih =>
      cases ts with
      | nil => simp [ids, listIds, furtherIds]
      | cons u us =>
          simp only [ids, String.intercalate_cons_cons, String.toList_append] at ih ⊢
          rw [ih]
          simp [listIds, furtherIds]

/-- An id is its word followed by its brackets. -/
theorem toList_id (t : Ty) : t.id.toList = t.word.toList ++ brackets t.bracketed := by
  cases t with
  | concrete name ps =>
      cases ps with
      | nil => simp [id, word, brackets, bracketed]
      | cons p ps =>
          simp only [id, String.toList_append, toList_intercalate_ids]
          simp [word, brackets, bracketed]
  | union ms =>
      simp only [id, String.toList_append, toList_intercalate_ids]
      simp [word, brackets, bracketed]
  | _ => simp [id, word, brackets, bracketed]

/-! ## Reading back -/

/-- A text that does not go on with a name: it is empty or starts with a mark. -/
def Stops (rest : List Char) : Prop :=
  ∀ c ∈ rest.head?, isMark c = true

/-- A text that does not go on with a type: it neither goes on with a name nor opens a
    bracket. -/
def Ends (rest : List Char) : Prop :=
  Stops rest ∧ rest.head? ≠ some '{'

theorem ends_comma (rest : List Char) : Ends (',' :: rest) :=
  ⟨by rintro c ⟨⟩; decide, by simp⟩

theorem ends_close (rest : List Char) : Ends ('}' :: rest) :=
  ⟨by rintro c ⟨⟩; decide, by simp⟩

theorem ends_furtherIds (ts : List Ty) (rest : List Char) :
    Ends (furtherIds ts ++ '}' :: rest) := by
  cases ts with
  | nil => exact ends_close rest
  | cons t ts => exact ends_comma _

/-- Characters without marks in front of a text that stops can be told from it. -/
theorem append_inj_of_stops {u v r s : List Char} (hu : ∀ c ∈ u, isMark c = false)
    (hv : ∀ c ∈ v, isMark c = false) (hr : Stops r) (hs : Stops s) (h : u ++ r = v ++ s) :
    u = v ∧ r = s := by
  induction u generalizing v with
  | nil =>
      cases v with
      | nil => exact ⟨rfl, h⟩
      | cons d v =>
          have marked := hr d (by simp only [List.nil_append] at h; simp [h])
          simp [hv d List.mem_cons_self] at marked
  | cons c u ih =>
      cases v with
      | nil =>
          have marked := hs c (by simp only [List.nil_append] at h; simp [← h])
          simp [hu c List.mem_cons_self] at marked
      | cons d v =>
          rw [List.cons_append, List.cons_append, List.cons.injEq] at h
          obtain ⟨rfl, h⟩ := h
          have rest := ih (fun c hc => hu c (List.mem_cons_of_mem _ hc))
            (fun c hc => hv c (List.mem_cons_of_mem _ hc)) h
          exact ⟨by rw [rest.1], rest.2⟩

theorem stops_brackets {inner : Option (List Ty)} {rest : List Char} (h : Stops rest) :
    Stops (brackets inner ++ rest) := by
  cases inner with
  | none => exact h
  | some ts => rintro c ⟨⟩; decide

/-- Types that are told apart, up to `same`, by their words and by what stands in their brackets. -/
structure Legible (plain : Ty → Prop) (same : Ty → Ty → Prop) : Prop where
  word : ∀ t, plain t → t.word.toList ≠ [] ∧ ∀ c ∈ t.word.toList, isMark c = false
  inner : ∀ t, plain t → ∀ ts ∈ t.bracketed, ∀ u ∈ ts, plain u
  same : ∀ t u, plain t → plain u → t.word = u.word →
    Option.Rel (List.Forall₂ same) t.bracketed u.bracketed → same t u

section Reading

variable {plain : Ty → Prop} {same : Ty → Ty → Prop} {ts us : List Ty} {r s : List Char}

/-- The id of `t` is read back as `t`, up to `same`, whatever it ends in front of. -/
def ReadsBack (plain : Ty → Prop) (same : Ty → Ty → Prop) (t : Ty) : Prop :=
  ∀ u r s, plain u → Ends r → Ends s → t.id.toList ++ r = u.id.toList ++ s → same t u ∧ r = s

theorem furtherIds_append_inj (reads : ∀ t ∈ ts, ReadsBack plain same t)
    (hu : ∀ u ∈ us, plain u) (h : furtherIds ts ++ '}' :: r = furtherIds us ++ '}' :: s) :
    List.Forall₂ same ts us ∧ r = s := by
  induction ts generalizing us with
  | nil =>
      cases us with
      | nil => exact ⟨.nil, by simpa [furtherIds] using h⟩
      | cons u us => simp [furtherIds] at h
  | cons t ts ih =>
      cases us with
      | nil => simp [furtherIds] at h
      | cons u us =>
          simp only [furtherIds, List.cons_append, List.append_assoc, List.cons.injEq,
            true_and] at h
          obtain ⟨first, rest⟩ := reads t List.mem_cons_self u _ _ (hu u List.mem_cons_self)
            (ends_furtherIds ts r) (ends_furtherIds us s) h
          obtain ⟨others, rfl⟩ := ih (fun t ht => reads t (List.mem_cons_of_mem _ ht))
            (fun u hu' => hu u (List.mem_cons_of_mem _ hu')) rest
          exact ⟨.cons first others, rfl⟩

variable (legible : Legible plain same)
include legible

/-- No list of types is read where the bracket closes at once. -/
theorem close_ne_listIds_cons {t : Ty} (ht : plain t) :
    '}' :: r ≠ listIds (t :: ts) ++ '}' :: s := by
  intro h
  obtain ⟨nonempty, unmarked⟩ := legible.word t ht
  rw [listIds, toList_id, List.append_assoc, List.append_assoc] at h
  refine nonempty (append_inj_of_stops (u := []) (by simp) unmarked (ends_close r).1 ?_ h).1.symm
  exact stops_brackets (ends_furtherIds ts s).1

theorem listIds_append_inj (ht : ∀ t ∈ ts, plain t) (reads : ∀ t ∈ ts, ReadsBack plain same t)
    (hu : ∀ u ∈ us, plain u) (h : listIds ts ++ '}' :: r = listIds us ++ '}' :: s) :
    List.Forall₂ same ts us ∧ r = s := by
  cases ts with
  | nil =>
      cases us with
      | nil => exact ⟨.nil, by simpa [listIds] using h⟩
      | cons u us => exact absurd h (close_ne_listIds_cons legible (hu u List.mem_cons_self))
  | cons t ts =>
      cases us with
      | nil => exact absurd h.symm (close_ne_listIds_cons legible (ht t List.mem_cons_self))
      | cons u us =>
          rw [listIds, listIds, List.append_assoc, List.append_assoc] at h
          obtain ⟨first, rest⟩ := reads t List.mem_cons_self u _ _ (hu u List.mem_cons_self)
            (ends_furtherIds ts r) (ends_furtherIds us s) h
          obtain ⟨others, rfl⟩ := furtherIds_append_inj
            (fun t ht => reads t (List.mem_cons_of_mem _ ht))
            (fun u hu' => hu u (List.mem_cons_of_mem _ hu')) rest
          exact ⟨.cons first others, rfl⟩

theorem brackets_append_inj {inner other : Option (List Ty)}
    (ht : ∀ ts ∈ inner, ∀ t ∈ ts, plain t) (reads : ∀ ts ∈ inner, ∀ t ∈ ts, ReadsBack plain same t)
    (hu : ∀ us ∈ other, ∀ u ∈ us, plain u) (hr : Ends r) (hs : Ends s)
    (h : brackets inner ++ r = brackets other ++ s) :
    Option.Rel (List.Forall₂ same) inner other ∧ r = s := by
  cases inner with
  | none =>
      cases other with
      | none => exact ⟨.none, h⟩
      | some us => exact absurd (by rw [show r = _ from h]; rfl) hr.2
  | some ts =>
      cases other with
      | none => exact absurd (by rw [← show _ = s from h]; rfl) hs.2
      | some us =>
          simp only [brackets, List.cons_append, List.append_assoc, List.nil_append,
            List.cons.injEq, true_and] at h
          obtain ⟨listed, rfl⟩ := listIds_append_inj legible (ht ts rfl) (reads ts rfl) (hu us rfl) h
          exact ⟨.some listed, rfl⟩

/-- Reading a type back reduces to reading back what stands in its brackets. -/
theorem readsBack_of_bracketed {t : Ty} (ht : plain t)
    (reads : ∀ ts ∈ t.bracketed, ∀ u ∈ ts, ReadsBack plain same u) : ReadsBack plain same t := by
  intro u r s hu hr hs h
  rw [toList_id, toList_id, List.append_assoc, List.append_assoc] at h
  obtain ⟨sameWord, rest⟩ := append_inj_of_stops (legible.word t ht).2 (legible.word u hu).2
    (stops_brackets hr.1) (stops_brackets hs.1) h
  obtain ⟨sameInner, sameRest⟩ := brackets_append_inj legible (legible.inner t ht) reads
    (legible.inner u hu) hr hs rest
  exact ⟨legible.same t u ht hu (String.toList_inj.1 sameWord) sameInner, sameRest⟩

theorem readsBack (t : Ty) : plain t → ReadsBack plain same t := by
  induction t using parts_induction with
  | concrete name ps ih =>
      intro ht
      refine readsBack_of_bracketed legible ht fun ts inner u hu => ?_
      cases ps with
      | nil => simp [bracketed] at inner
      | cons p ps =>
          obtain rfl : p :: ps = ts := by simpa [bracketed] using inner
          exact ih u hu (legible.inner _ ht _ rfl u hu)
  | union ms ih =>
      intro ht
      refine readsBack_of_bracketed legible ht fun ts inner u hu => ?_
      obtain rfl : ms = ts := by simpa [bracketed] using inner
      exact ih u hu (legible.inner _ ht _ rfl u hu)
  | _ =>
      intro ht
      exact readsBack_of_bracketed legible ht fun ts inner => by simp [bracketed] at inner

/-- Types with one id are the same as far as ids tell. -/
theorem same_of_id_eq {t u : Ty} (ht : plain t) (hu : plain u) (h : t.id = u.id) : same t u := by
  have nothing : Ends [] := ⟨by simp [Stops], by simp⟩
  exact (readsBack legible t ht u [] [] hu nothing nothing (by rw [h])).1

/-- So are types that are listed with one text. -/
theorem forall₂_of_listIds_eq (ht : ∀ t ∈ ts, plain t) (hu : ∀ u ∈ us, plain u)
    (h : listIds ts = listIds us) : List.Forall₂ same ts us := by
  have closed : listIds ts ++ '}' :: [] = listIds us ++ '}' :: [] := by rw [h]
  exact (listIds_append_inj legible ht (fun t member => readsBack legible t (ht t member)) hu
    closed).1

end Reading

/-! ## Readable types -/

/-- A readable type is given by its word and what stands in its brackets. -/
theorem eq_of_word_of_bracketed {isAbstract : String → Bool} {t u : Ty}
    (ht : readable isAbstract t = true) (hu : readable isAbstract u = true)
    (sameWord : t.word = u.word) (sameInner : t.bracketed = u.bracketed) : t = u := by
  cases t with
  | typeVar name bound => simp [readable] at ht
  | concrete name ps =>
      cases u with
      | concrete other qs =>
          obtain rfl : name = other := sameWord
          cases ps <;> cases qs <;> simp_all [bracketed]
      | abstract other =>
          obtain rfl : name = other := sameWord
          simp_all [readable]
      | _ => simp_all [readable, isPlainName_iff, word]
  | abstract name =>
      cases u with
      | concrete other qs =>
          obtain rfl : name = other := sameWord
          simp_all [readable]
      | _ => simp_all [readable, isPlainName_iff, word]
  | union ms => cases u <;> simp_all [readable, isPlainName_iff, word, bracketed]
  | any => cases u <;> simp_all [readable, isPlainName_iff, word]
  | bottom => cases u <;> simp_all [readable, isPlainName_iff, word]

/-- Readable types are told apart by their ids. -/
theorem legible_readable (isAbstract : String → Bool) :
    Legible (fun t => readable isAbstract t = true) Eq where
  word t h := by
    cases t with
    | any => simp [word, isMark]
    | bottom => simp [word, isMark]
    | union ms => simp [word, isMark]
    | typeVar name bound => simp [readable] at h
    | concrete name ps =>
        simp only [readable, Bool.and_eq_true, isPlainName_iff] at h
        exact ⟨h.1.1.1, h.1.1.2.1⟩
    | abstract name =>
        simp only [readable, Bool.and_eq_true, isPlainName_iff] at h
        exact ⟨h.1.1, h.1.2.1⟩
  inner t h ts inner := by
    cases t with
    | concrete name ps =>
        cases ps with
        | nil => simp [bracketed] at inner
        | cons p ps =>
            obtain rfl : p :: ps = ts := by simpa [bracketed] using inner
            simp only [readable, Bool.and_eq_true] at h
            exact allReadable_iff.1 h.2
    | union ms =>
        obtain rfl : ms = ts := by simpa [bracketed] using inner
        exact allReadable_iff.1 h
    | _ => simp [bracketed] at inner
  same t u ht hu sameWord sameInner := by
    rw [List.forall₂_eq_eq_eq] at sameInner
    refine eq_of_word_of_bracketed ht hu sameWord ?_
    generalize t.bracketed = inner at sameInner ⊢
    generalize u.bracketed = other at sameInner ⊢
    cases sameInner with
    | none => rfl
    | some same => exact congrArg some same

/-- Readable types with one id are equal. -/
theorem eq_of_id_eq {isAbstract : String → Bool} {t u : Ty}
    (ht : readable isAbstract t = true) (hu : readable isAbstract u = true)
    (h : t.id = u.id) : t = u :=
  same_of_id_eq (legible_readable isAbstract) ht hu h

end Ty

end Multimethod
