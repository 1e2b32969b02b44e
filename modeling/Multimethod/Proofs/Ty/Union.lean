import Multimethod.Proofs.Text.Units
import Multimethod.Proofs.Ty.Ground
import Multimethod.Ty.Union

/-!
# What a canonical union consists of

The alternatives of a type are the atoms it is the union of. The canonical union of well-formed
ground types is well-formed, and its alternatives are those of all of them together, unless the
top absorbs them.
-/

namespace Multimethod.Ty

/-- The types that a type is the union of: none for the bottom, the members of a union, and
    any other type itself. -/
def alternatives : Ty → List Ty
  | bottom => []
  | union ms => ms
  | t => [t]

variable {h : Hierarchy} {m t u : Ty} {ms ts : List Ty}

@[simp] theorem alternatives_bottom : alternatives bottom = [] := rfl

@[simp] theorem alternatives_union (ms : List Ty) : alternatives (union ms) = ms := rfl

@[simp] theorem alternatives_any : alternatives any = [any] := rfl

theorem alternatives_of_isAtom (atom : t.isAtom = true) : t.alternatives = [t] := by
  cases t <;> simp_all [isAtom, alternatives]

theorem ground_of_mem_alternatives (ht : t.ground h = true) (hm : m ∈ t.alternatives) :
    m.ground h = true := by
  cases t with
  | bottom => simp at hm
  | union ms => exact (ground_union.1 ht).2 m hm
  | _ =>
      obtain rfl : m = _ := by simpa [alternatives] using hm
      exact ht

/-- Only the top itself has an alternative that is no atom. -/
theorem isAtom_of_mem_alternatives (ht : t.ground h = true) (hm : m ∈ t.alternatives) :
    m.isAtom = true ∨ t = any := by
  cases t with
  | any => exact Or.inr rfl
  | bottom => simp at hm
  | union ms =>
      exact Or.inl ((isCanonical_iff.1 (ground_union.1 ht).1).2.1 m hm)
  | _ =>
      obtain rfl : m = _ := by simpa [alternatives] using hm
      exact Or.inl rfl

/-- Flattening finds the alternatives, and the bottom beside them. -/
theorem mem_members_iff (notBottom : m ≠ bottom) : m ∈ t.members ↔ m ∈ t.alternatives := by
  cases t with
  | bottom => simp [members, notBottom]
  | _ => simp [members, alternatives]

theorem mem_flatten_iff (notBottom : m ≠ bottom) :
    m ∈ flatten ts ↔ ∃ t ∈ ts, m ∈ t.alternatives := by
  simp only [flatten, List.mem_flatMap, mem_members_iff notBottom]

theorem ground_of_mem_flatten (hts : ∀ t ∈ ts, t.ground h = true) (hm : m ∈ flatten ts) :
    m.ground h = true := by
  by_cases equal : m = bottom
  · rw [equal]
    exact ground_bottom h
  · obtain ⟨t, ht, hm⟩ := (mem_flatten_iff equal).1 hm
    exact ground_of_mem_alternatives (hts t ht) hm

theorem any_isAny_iff : ts.any isAny = true ↔ any ∈ ts := by
  rw [List.any_eq_true]
  constructor
  · rintro ⟨m, hm, top⟩
    obtain rfl : m = any := by cases m <;> simp_all [isAny]
    exact hm
  · exact fun top => ⟨any, top, rfl⟩

/-- The top is found exactly if it stands in the list itself. -/
theorem any_mem_flatten_iff (hts : ∀ t ∈ ts, t.ground h = true) : any ∈ flatten ts ↔ any ∈ ts := by
  rw [mem_flatten_iff (by simp)]
  constructor
  · rintro ⟨t, ht, hm⟩
    rcases isAtom_of_mem_alternatives (hts t ht) hm with atom | rfl
    · simp [isAtom] at atom
    · exact ht
  · exact fun top => ⟨any, top, by simp⟩

/-- Flattening canonical unions leaves the bounds of the lattice and types that are no unions. -/
theorem isAtom_of_mem_flatten (canonical : ∀ ms, union ms ∈ ts → isCanonical ms = true)
    (hm : m ∈ flatten ts) : m = any ∨ m = bottom ∨ m.isAtom = true := by
  obtain ⟨t, ht, hm⟩ := List.mem_flatMap.1 hm
  rcases t.atom_cases with rfl | rfl | ⟨ms, rfl⟩ | atom
  · exact .inl (List.mem_singleton.1 hm)
  · exact .inr (.inl (List.mem_singleton.1 hm))
  · exact .inr (.inr ((isCanonical_iff.1 (canonical ms ht)).2.1 m hm))
  · have alone : t.members = [t] := by cases t <;> simp_all [isAtom, members]
    rw [alone, List.mem_singleton] at hm
    exact .inr (.inr (hm ▸ atom))

/-! ## Removing duplicates -/

/-- Among types that their ids tell apart, only the bottom and what was seen is dropped. -/
theorem mem_distinctFrom {seen : List String}
    (inj : ∀ t ∈ ts, ∀ u ∈ ts, t.id = u.id → t = u) :
    t ∈ distinctFrom seen ts ↔ t ∈ ts ∧ t.isBottom = false ∧ t.id ∉ seen := by
  induction ts generalizing seen with
  | nil => simp [distinctFrom]
  | cons u ts ih =>
      have inj' : ∀ t ∈ ts, ∀ u ∈ ts, t.id = u.id → t = u := fun t ht u hu =>
        inj t (List.mem_cons_of_mem _ ht) u (List.mem_cons_of_mem _ hu)
      unfold distinctFrom
      by_cases dropped : (u.isBottom || seen.contains u.id) = true
      · rw [if_pos dropped, ih inj']
        simp only [Bool.or_eq_true, List.contains_iff_mem] at dropped
        refine ⟨fun ⟨member, rest⟩ => ⟨List.mem_cons_of_mem _ member, rest⟩, ?_⟩
        rintro ⟨member, kept, unseen⟩
        rcases List.mem_cons.1 member with rfl | member
        · rcases dropped with bottom | met
          · rw [bottom] at kept
            cases kept
          · exact absurd met unseen
        · exact ⟨member, kept, unseen⟩
      · rw [if_neg dropped]
        simp only [Bool.or_eq_true, List.contains_iff_mem, not_or, Bool.not_eq_true] at dropped
        constructor
        · intro member
          rcases List.mem_cons.1 member with rfl | member
          · exact ⟨List.mem_cons_self, dropped⟩
          · obtain ⟨member, kept, unseen⟩ := (ih inj').1 member
            exact ⟨List.mem_cons_of_mem _ member, kept, fun met =>
              unseen (List.mem_cons_of_mem _ met)⟩
        · rintro ⟨member, kept, unseen⟩
          by_cases same : t.id = u.id
          · rw [inj t member u List.mem_cons_self same]
            exact List.mem_cons_self
          · have further : t ∈ ts := by
              rcases List.mem_cons.1 member with rfl | further
              · exact absurd rfl same
              · exact further
            exact List.mem_cons_of_mem _ ((ih inj').2 ⟨further, kept, by simp [same, unseen]⟩)

/-- No id is kept twice. -/
theorem pairwise_distinctFrom (seen : List String) (ts : List Ty) :
    (distinctFrom seen ts).Pairwise (fun t u => t.id ≠ u.id) ∧
      ∀ t ∈ distinctFrom seen ts, t.id ∉ seen := by
  induction ts generalizing seen with
  | nil => simp [distinctFrom]
  | cons u ts ih =>
      unfold distinctFrom
      by_cases dropped : (u.isBottom || seen.contains u.id) = true
      · rw [if_pos dropped]
        exact ih seen
      · rw [if_neg dropped]
        obtain ⟨apart, unseen⟩ := ih (u.id :: seen)
        simp only [Bool.or_eq_true, List.contains_iff_mem, not_or] at dropped
        refine ⟨List.pairwise_cons.2 ⟨fun t ht same => ?_, apart⟩, ?_⟩
        · exact unseen t ht (same ▸ List.mem_cons_self)
        · intro t ht
          rcases List.mem_cons.1 ht with rfl | ht
          · exact dropped.2
          · exact fun met => unseen t ht (List.mem_cons_of_mem _ met)

theorem distinctFrom_sublist (seen : List String) (ts : List Ty) :
    (distinctFrom seen ts).Sublist ts := by
  induction ts generalizing seen with
  | nil => exact .slnil
  | cons t ts ih =>
      rw [distinctFrom]
      split
      · exact (ih seen).cons t
      · exact (ih _).cons_cons t

theorem mem_of_mem_distinctFrom {seen : List String} (kept : t ∈ distinctFrom seen ts) :
    t ∈ ts :=
  (distinctFrom_sublist seen ts).subset kept

theorem isBottom_of_mem_distinctFrom {seen : List String} (kept : t ∈ distinctFrom seen ts) :
    t.isBottom = false := by
  induction ts generalizing seen with
  | nil => cases kept
  | cons u ts ih =>
      rw [distinctFrom] at kept
      split at kept
      · exact ih kept
      · rename_i free
        rcases List.mem_cons.1 kept with rfl | further
        · simp only [Bool.or_eq_true, not_or, Bool.not_eq_true] at free
          exact free.1
        · exact ih further

/-- A type at the end of a list is kept unless its id came earlier. -/
theorem distinctFrom_concat (seen : List String) (ts : List Ty) (t : Ty) :
    distinctFrom seen (ts ++ [t]) =
      if t.isBottom || seen.contains t.id || (distinctFrom seen ts).any (·.id == t.id)
      then distinctFrom seen ts else distinctFrom seen ts ++ [t] := by
  induction ts generalizing seen with
  | nil => simp [distinctFrom]
  | cons u ts ih =>
      rw [List.cons_append, distinctFrom, distinctFrom]
      by_cases dropped : (u.isBottom || seen.contains u.id) = true
      · rw [if_pos dropped, if_pos dropped, ih]
      · rw [if_neg dropped, if_neg dropped, ih]
        have regroup : (t.isBottom || (u.id :: seen).contains t.id ||
            (distinctFrom (u.id :: seen) ts).any (·.id == t.id)) =
            (t.isBottom || seen.contains t.id ||
              (u :: distinctFrom (u.id :: seen) ts).any (·.id == t.id)) := by
          rw [List.any_cons, List.contains_cons, Bool.beq_comm (a := t.id)]
          ac_rfl
        rw [regroup]
        split
        · rfl
        · rfl

theorem distinct_concat (ts : List Ty) (t : Ty) :
    distinct (ts ++ [t]) =
      if t.isBottom || (distinct ts).any (·.id == t.id) then distinct ts
      else distinct ts ++ [t] := by
  have kept := distinctFrom_concat [] ts t
  rwa [List.contains_nil, Bool.or_false] at kept

/-- What is kept of the front of a list comes first in what is kept of the list. -/
theorem distinct_prefix (ts us : List Ty) : distinct ts <+: distinct (ts ++ us) := by
  induction us generalizing ts with
  | nil => simp
  | cons u us ih =>
      have next : distinct ts <+: distinct (ts ++ [u]) := by
        rw [distinct_concat]
        split
        · exact List.prefix_refl _
        · exact List.prefix_append _ _
      rw [List.append_cons]
      exact next.trans (ih (ts ++ [u]))

theorem mem_distinct_flatten (hts : ∀ t ∈ ts, t.ground h = true) :
    m ∈ distinct (flatten ts) ↔ ∃ t ∈ ts, m ∈ t.alternatives := by
  have inj : ∀ t ∈ flatten ts, ∀ u ∈ flatten ts, t.id = u.id → t = u := fun t ht u hu =>
    ground_id_inj (ground_of_mem_flatten hts ht) (ground_of_mem_flatten hts hu)
  rw [distinct, mem_distinctFrom inj]
  by_cases equal : m = bottom
  · subst equal
    simp only [isBottom, Bool.true_eq_false, false_and, and_false, false_iff]
    rintro ⟨t, ht, hm⟩
    rcases isAtom_of_mem_alternatives (hts t ht) hm with atom | rfl
    · simp [isAtom] at atom
    · simp at hm
  · have kept : m.isBottom = false := by cases m <;> simp_all [isBottom]
    simp [kept, mem_flatten_iff equal]

/-! ## The union of a list -/

theorem idNotAfter_trans (a b c : Ty) (ab : idNotAfter a b = true) (bc : idNotAfter b c = true) :
    idNotAfter a c = true := by
  simp only [idNotAfter, Bool.not_eq_true', unitsBefore, decide_eq_false_iff_not,
    List.not_lt] at *
  exact List.le_trans ab bc

theorem idNotAfter_total (a b : Ty) : (idNotAfter a b || idNotAfter b a) = true := by
  simp only [idNotAfter, Bool.or_eq_true, Bool.not_eq_true']
  cases behind : unitsBefore b.id a.id with
  | false => exact Or.inl rfl
  | true => exact Or.inr (unitsBefore_asymm behind)

/-- Sorting types with different ids makes their ids ascend. -/
theorem pairwise_mergeSort_of_apart (apart : ts.Pairwise fun t u => t.id ≠ u.id) :
    (ts.mergeSort idNotAfter).Pairwise fun t u => unitsBefore t.id u.id = true := by
  have sorted := List.pairwise_mergeSort idNotAfter_trans idNotAfter_total ts
  have apart' := ((List.mergeSort_perm ts idNotAfter).symm.pairwise_iff
    (fun {t u} (different : t.id ≠ u.id) => Ne.symm different)).1 apart
  refine List.Pairwise.imp₂ ?_ sorted apart'
  intro t u notAfter different
  simp only [idNotAfter, Bool.not_eq_true'] at notAfter
  rcases unitsBefore_or_unitsBefore different with before | behind
  · exact before
  · rw [notAfter] at behind
    cases behind

/-- A union is the top exactly if the top is found in the list. -/
theorem unionOf_eq_any_iff : unionOf ts = any ↔ any ∈ flatten ts := by
  unfold unionOf
  dsimp only
  split
  case isTrue top => exact iff_of_true rfl (any_isAny_iff.1 top)
  case isFalse noTop =>
      refine iff_of_false ?_ (mt any_isAny_iff.2 noTop)
      split
      · rintro ⟨⟩
      · rename_i t single
        rintro rfl
        have kept : any ∈ distinct (flatten ts) := single ▸ List.mem_singleton_self any
        exact noTop (any_isAny_iff.2 (mem_of_mem_distinctFrom kept))
      · rintro ⟨⟩

theorem unionOf_of_any_mem (hts : ∀ t ∈ ts, t.ground h = true) (top : any ∈ ts) :
    unionOf ts = any :=
  unionOf_eq_any_iff.2 ((any_mem_flatten_iff hts).2 top)

/-- Without the top, what is kept of the members of a list can be members of a union. -/
theorem isAtom_of_mem_distinct (canonical : ∀ ms, union ms ∈ ts → isCanonical ms = true)
    (noTop : any ∉ flatten ts) (kept : m ∈ distinct (flatten ts)) : m.isAtom = true := by
  have inside := mem_of_mem_distinctFrom kept
  rcases isAtom_of_mem_flatten canonical inside with rfl | rfl | atom
  · exact absurd inside noTop
  · cases isBottom_of_mem_distinctFrom kept
  · exact atom

/-- The alternatives of a union are what is kept of its members, in the order of their ids. -/
theorem alternatives_unionOf (canonical : ∀ ms, union ms ∈ ts → isCanonical ms = true)
    (noTop : any ∉ flatten ts) :
    (unionOf ts).alternatives = (distinct (flatten ts)).mergeSort idNotAfter := by
  have atoms : ∀ m ∈ distinct (flatten ts), m.isAtom = true :=
    fun _ => isAtom_of_mem_distinct canonical noTop
  unfold unionOf
  dsimp only
  rw [if_neg (mt any_isAny_iff.1 noTop)]
  generalize distinct (flatten ts) = kept at atoms ⊢
  obtain _ | ⟨t, _ | ⟨u, rest⟩⟩ := kept
  · simp
  · simpa using alternatives_of_isAtom (atoms t (List.mem_singleton_self t))
  · rfl

/-- What holds of the members of a list behind flattening, of the bottom, and of a union of whose
    members it holds, holds of the union of the list. -/
theorem unionOf_of_flatten {motive : Ty → Prop} (ofBottom : motive bottom)
    (ofUnion : ∀ ms, (∀ m ∈ ms, motive m) → motive (union ms)) (of : ∀ m ∈ flatten ts, motive m) :
    motive (unionOf ts) := by
  have kept : ∀ m ∈ distinct (flatten ts), motive m :=
    fun m kept => of m (mem_of_mem_distinctFrom kept)
  unfold unionOf
  dsimp only
  split
  case isTrue top => exact of any (any_isAny_iff.1 top)
  case isFalse =>
      generalize distinct (flatten ts) = found at kept
      obtain _ | ⟨t, _ | ⟨u, rest⟩⟩ := found
      · exact ofBottom
      · exact kept t (List.mem_singleton_self t)
      · exact ofUnion _ fun m hm => kept m (List.mem_mergeSort.1 hm)

/-- The union of types of a kind is of the kind, if the members of a union decide whether it is. -/
theorem unionOf_of_forall {kind : Ty → Prop} (ofAny : kind any) (ofBottom : kind bottom)
    (ofUnion : ∀ ms, kind (union ms) ↔ isCanonical ms = true ∧ ∀ m ∈ ms, kind m)
    (of : ∀ t ∈ ts, kind t) : kind (unionOf ts) := by
  have canonical : ∀ ms, union ms ∈ ts → isCanonical ms = true :=
    fun ms ht => ((ofUnion ms).1 (of _ ht)).1
  have parts : ∀ m ∈ distinct (flatten ts), kind m := by
    intro m kept
    obtain ⟨t, ht, hm⟩ := List.mem_flatMap.1 (mem_of_mem_distinctFrom kept)
    cases t with
    | union ms => exact ((ofUnion ms).1 (of _ ht)).2 m hm
    | _ =>
        cases List.mem_singleton.1 hm
        exact of _ ht
  unfold unionOf
  dsimp only
  split
  case isTrue => exact ofAny
  case isFalse noTop =>
      have atoms : ∀ m ∈ distinct (flatten ts), m.isAtom = true :=
        fun _ => isAtom_of_mem_distinct canonical (mt any_isAny_iff.2 noTop)
      have apart : (distinct (flatten ts)).Pairwise fun t u => t.id ≠ u.id :=
        (pairwise_distinctFrom [] (flatten ts)).1
      generalize distinct (flatten ts) = kept at parts atoms apart
      obtain _ | ⟨t, _ | ⟨u, rest⟩⟩ := kept
      · exact ofBottom
      · exact parts t (List.mem_singleton_self t)
      · refine (ofUnion _).2
          ⟨isCanonical_iff.2 ⟨by simp, ?_, pairwise_mergeSort_of_apart apart⟩, ?_⟩
        · exact fun m hm => atoms m (List.mem_mergeSort.1 hm)
        · exact fun m hm => parts m (List.mem_mergeSort.1 hm)

theorem ground_unionOf (hts : ∀ t ∈ ts, t.ground h = true) : (unionOf ts).ground h = true :=
  unionOf_of_forall (ground_any h) (ground_bottom h) (fun _ => ground_union) hts

/-- Without the top, the union of a list is well-formed and has the alternatives of all
    types of the list. -/
theorem unionOf_spec (hts : ∀ t ∈ ts, t.ground h = true) (noTop : any ∉ ts) :
    (unionOf ts).ground h = true ∧
      ∀ m, m ∈ (unionOf ts).alternatives ↔ ∃ t ∈ ts, m ∈ t.alternatives := by
  refine ⟨ground_unionOf hts, fun m => ?_⟩
  rw [alternatives_unionOf (fun ms ht => (ground_union.1 (hts _ ht)).1)
    (mt (any_mem_flatten_iff hts).1 noTop), List.mem_mergeSort, mem_distinct_flatten hts]

/-! ## Canonical unions -/

theorem flatten_of_atoms (atoms : ∀ m ∈ ms, m.isAtom = true) : flatten ms = ms := by
  induction ms with
  | nil => rfl
  | cons m ms ih =>
      rw [List.forall_mem_cons] at atoms
      have alone : m.members = [m] := by cases m <;> simp_all [isAtom, members]
      rw [flatten, List.flatMap_cons, alone]
      exact congrArg (m :: ·) (ih atoms.2)

/-- Types with different ids, none of which is the bottom, are all kept. -/
theorem distinctFrom_of_apart {seen : List String} (notBottom : ∀ m ∈ ms, m.isBottom = false)
    (apart : ms.Pairwise fun m n => m.id ≠ n.id) (fresh : ∀ m ∈ ms, m.id ∉ seen) :
    distinctFrom seen ms = ms := by
  induction ms generalizing seen with
  | nil => rfl
  | cons m ms ih =>
      rw [List.forall_mem_cons] at notBottom fresh
      rw [List.pairwise_cons] at apart
      have new : ∀ n ∈ ms, n.id ∉ m.id :: seen := by
        intro n hn member
        rcases List.mem_cons.1 member with same | member
        · exact apart.1 n hn same.symm
        · exact fresh.2 n hn member
      rw [distinctFrom, ih notBottom.2 apart.2 new]
      simp [notBottom.1, fresh.1]

/-- Building the union of the members of a canonical one gives it back. -/
theorem unionOf_of_isCanonical (canonical : isCanonical ms = true) : unionOf ms = union ms := by
  obtain ⟨several, atoms, ascending⟩ := isCanonical_iff.1 canonical
  have noTop : ms.any isAny = false := by
    rw [List.any_eq_false]
    intro m hm top
    have atom := atoms m hm
    cases m <;> simp_all [isAny, isAtom]
  have noBottom : ∀ m ∈ ms, m.isBottom = false := by
    intro m hm
    have atom := atoms m hm
    cases m <;> simp_all [isBottom, isAtom]
  have apart : ms.Pairwise fun m n => m.id ≠ n.id := by
    refine ascending.imp ?_
    intro m n before same
    rw [same, not_unitsBefore_self] at before
    cases before
  have sorted : ms.mergeSort idNotAfter = ms := by
    refine List.mergeSort_of_pairwise (ascending.imp ?_)
    intro m n before
    rw [idNotAfter, Bool.not_eq_true']
    exact unitsBefore_asymm before
  have kept : distinct ms = ms := distinctFrom_of_apart noBottom apart (by simp)
  simp only [unionOf, flatten_of_atoms atoms, noTop, kept]
  rcases ms with _ | ⟨m, _ | ⟨n, rest⟩⟩
  · simp at several
  · simp at several
  · exact congrArg union sorted

end Multimethod.Ty
