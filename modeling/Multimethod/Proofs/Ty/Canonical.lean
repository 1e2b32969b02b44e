import Multimethod.Proofs.Lattice.Order
import Multimethod.Proofs.Ty.Apart
import Multimethod.Proofs.Ty.Variables

/-!
# The canonical form of unions

What the union of a list is depends only on the ids that are found in the list behind flattening.
The alternatives of the union are one type for each of these ids, in the order of the ids. Where the
names in a type stand apart from the marks of ids, its id tells the ids of its alternatives.
-/

namespace Multimethod.Ty

variable {h : Hierarchy} {t u m : Ty} {ts us ms xs ys zs : List Ty} {name n : String}

/-! ## Ids in a list -/

/-- The ids of what a list of types consists of behind flattening, but for the bottom. -/
def memberIds (ts : List Ty) : List String :=
  ((flatten ts).filter fun m => !m.isBottom).map id

theorem mem_map_id_distinctFrom {seen : List String} :
    n ∈ (distinctFrom seen ts).map id ↔ n ∉ seen ∧ n ∈ (ts.filter fun m => !m.isBottom).map id := by
  induction ts generalizing seen with
  | nil => simp [distinctFrom]
  | cons t ts ih =>
      rw [distinctFrom, List.filter_cons]
      cases isBottom : t.isBottom with
      | true => simpa using ih
      | false =>
          by_cases met : t.id ∈ seen
          · rw [if_pos (by simp [met]), ih, if_pos (by rfl), List.map_cons, List.mem_cons]
            refine and_congr_right fun new => (or_iff_right ?_).symm
            rintro rfl
            exact new met
          · rw [if_neg (by simp [met]), if_pos (by rfl), List.map_cons, List.map_cons,
              List.mem_cons, List.mem_cons, ih, List.mem_cons, not_or]
            by_cases here : n = t.id
            · simp [here, met]
            · simp [here]

/-- What is kept of the members of a list has the ids that are found in it. -/
theorem mem_map_id_distinct_flatten : n ∈ (distinct (flatten ts)).map id ↔ n ∈ memberIds ts := by
  rw [distinct, mem_map_id_distinctFrom, memberIds]
  simp

theorem flatten_append (xs ys : List Ty) : flatten (xs ++ ys) = flatten xs ++ flatten ys :=
  List.flatMap_append

theorem memberIds_append (xs ys : List Ty) :
    memberIds (xs ++ ys) = memberIds xs ++ memberIds ys := by
  rw [memberIds, flatten_append, List.filter_append, List.map_append]
  rfl

/-! ## Alternatives of a union -/

/-- Whether the unions in a type have the canonical form, and its names stand apart from the marks
    of ids and from the builtin types. Bounds of variables do not count, as ids do not show them. -/
inductive Proper : Ty → Prop
  | any : Proper .any
  | bottom : Proper .bottom
  | concrete {name : String} {ps : List Ty} (named : isPlainName name = true)
      (args : ∀ p ∈ ps, Proper p) : Proper (.concrete name ps)
  | abstract {name : String} (named : isPlainName name = true) : Proper (.abstract name)
  | typeVar {name : String} {bound : Ty} (named : isPlainName name = true) :
      Proper (.typeVar name bound)
  | union {ms : List Ty} (canonical : isCanonical ms = true) (members : ∀ m ∈ ms, Proper m) :
      Proper (.union ms)

theorem proper_union : (union ms).Proper ↔ isCanonical ms = true ∧ ∀ m ∈ ms, m.Proper := by
  constructor
  · rintro (_ | _ | _ | _ | _ | ⟨canonical, members⟩)
    exact ⟨canonical, members⟩
  · rintro ⟨canonical, members⟩
    exact .union canonical members

/-- A well-formed type is proper if the names of its variables stand apart as those of declared types
    do. -/
theorem proper_of_wellFormed (t : Ty) (formed : t.wellFormed h = true)
    (named : ∀ v ∈ t.vars, isPlainName v.name = true) : t.Proper := by
  induction t using parts_induction with
  | any => exact .any
  | bottom => exact .bottom
  | abstract name => exact .abstract (isPlainName_of_hasAbstract formed)
  | typeVar name bound => exact .typeVar (named ⟨name, bound⟩ (List.mem_singleton_self _))
  | concrete name ps ih =>
      obtain ⟨declared, -, args⟩ := wellFormed_concrete.1 formed
      exact .concrete (isPlainName_of_hasConcrete declared) fun p hp =>
        ih p hp (args p hp) fun v mentioned => named v (mem_allVars.2 ⟨p, hp, mentioned⟩)
  | union ms ih =>
      obtain ⟨canonical, members⟩ := wellFormed_union.1 formed
      exact .union canonical fun m hm =>
        ih m hm (members m hm) fun v mentioned => named v (mem_allVars.2 ⟨m, hm, mentioned⟩)

theorem proper_unionOf (proper : ∀ t ∈ ts, t.Proper) : (unionOf ts).Proper :=
  unionOf_of_forall .any .bottom (fun _ => proper_union) proper

theorem isCanonical_of_proper (proper : ∀ t ∈ ts, t.Proper) :
    ∀ ms, union ms ∈ ts → isCanonical ms = true :=
  fun _ among => (proper_union.1 (proper _ among)).1

/-- The ids of the alternatives of a union are those found in the list. -/
theorem mem_map_id_alternatives_unionOf (proper : ∀ t ∈ ts, t.Proper) (noTop : any ∉ flatten ts) :
    n ∈ (unionOf ts).alternatives.map id ↔ n ∈ memberIds ts := by
  rw [alternatives_unionOf (isCanonical_of_proper proper) noTop, ← mem_map_id_distinct_flatten]
  exact ((List.mergeSort_perm _ idNotAfter).map id).mem_iff

theorem ascending_alternatives_unionOf (proper : ∀ t ∈ ts, t.Proper) (noTop : any ∉ flatten ts) :
    ((unionOf ts).alternatives.map id).Pairwise fun i j => unitsBefore i j = true := by
  rw [alternatives_unionOf (isCanonical_of_proper proper) noTop, List.pairwise_map]
  exact pairwise_mergeSort_of_apart (pairwise_distinctFrom [] (flatten ts)).1

/-! ## Ids and the ids of alternatives -/

/-- Whether two types have one id and are both the top, or not, and whether their alternatives have
    the same ids. -/
structure SameMembers (t u : Ty) : Prop where
  id : t.id = u.id
  any : t = .any ↔ u = .any
  alternatives : t.alternatives.map Ty.id = u.alternatives.map Ty.id

/-- The word of a proper type tells the bounds of the lattice, unions and all other types apart. -/
theorem Proper.word_eq_iff (proper : t.Proper) :
    (t.word = "Any" ↔ t = .any) ∧ (t.word = "Bottom" ↔ t = .bottom) ∧
      (t.word = "Union" ↔ ∃ ms, t = .union ms) := by
  cases proper with
  | any => simp [word]
  | bottom => simp [word]
  | union => simp [word]
  | concrete named => simpa [word] using (isPlainName_iff.1 named).2.2
  | abstract named => simpa [word] using (isPlainName_iff.1 named).2.2
  | typeVar named => simpa [word] using (isPlainName_iff.1 named).2.2

theorem map_id_eq_of_forall₂ (alike : List.Forall₂ SameMembers ts us) :
    ts.map Ty.id = us.map Ty.id := by
  induction alike with
  | nil => rfl
  | cons first _ ih => rw [List.map_cons, List.map_cons, first.id, ih]

theorem sameMembers_of_bracketed (ht : t.Proper) (hu : u.Proper) (sameWord : t.word = u.word)
    (sameInner : Option.Rel (List.Forall₂ SameMembers) t.bracketed u.bracketed) :
    SameMembers t u := by
  obtain ⟨isAny, isBottom, isUnion⟩ := ht.word_eq_iff
  obtain ⟨isAny', isBottom', isUnion'⟩ := hu.word_eq_iff
  rw [← sameWord] at isAny' isBottom' isUnion'
  have sameId : t.id = u.id := id_eq_of_bracketed sameWord (by
    generalize t.bracketed = inner at sameInner
    generalize u.bracketed = other at sameInner
    cases sameInner with
    | none => exact .none
    | some alike => exact .some (alike.imp fun _ _ same => same.id))
  refine ⟨sameId, isAny.symm.trans isAny', ?_⟩
  rcases t.atom_cases with rfl | rfl | ⟨ms, rfl⟩ | atom
  · rw [isAny'.1 rfl]
  · rw [isBottom'.1 rfl]
  · obtain ⟨ns, rfl⟩ := isUnion'.1 rfl
    cases sameInner with
    | some alike => exact map_id_eq_of_forall₂ alike
  · have atom' : u.isAtom = true := by
      rcases u.atom_cases with top | bottom | union | atom'
      · cases isAny.1 (isAny'.2 top)
        cases atom
      · cases isBottom.1 (isBottom'.2 bottom)
        cases atom
      · obtain ⟨ms, rfl⟩ := isUnion.1 (isUnion'.2 union)
        cases atom
      · exact atom'
    rw [alternatives_of_isAtom atom, alternatives_of_isAtom atom', List.map_singleton,
      List.map_singleton, sameId]

/-- Ids of proper types tell the ids of their alternatives. -/
theorem legible_proper : Legible Proper SameMembers where
  word t proper := by
    cases proper with
    | any => simp [word, isMark]
    | bottom => simp [word, isMark]
    | union => simp [word, isMark]
    | concrete named => exact ⟨(isPlainName_iff.1 named).1, (isPlainName_iff.1 named).2.1⟩
    | abstract named => exact ⟨(isPlainName_iff.1 named).1, (isPlainName_iff.1 named).2.1⟩
    | typeVar named => exact ⟨(isPlainName_iff.1 named).1, (isPlainName_iff.1 named).2.1⟩
  inner t proper ts inner := by
    cases proper with
    | @concrete name ps named args =>
        cases ps with
        | nil => simp [bracketed] at inner
        | cons p ps =>
            obtain rfl : p :: ps = ts := by simpa [bracketed] using inner
            exact args
    | union canonical members =>
        obtain rfl := Option.some.inj inner
        exact members
    | _ => simp [bracketed] at inner
  same _ _ ht hu := sameMembers_of_bracketed ht hu

/-- An id is made of the ids of the alternatives. -/
theorem Proper.id_cases (proper : t.Proper) :
    (t.alternatives.map Ty.id = [] ∧ t.id = "Bottom") ∨ t.alternatives.map Ty.id = [t.id] ∨
      (1 < (t.alternatives.map Ty.id).length ∧
        t.id = "Union\x7b" ++ ", ".intercalate (t.alternatives.map Ty.id) ++ "\x7d") := by
  rcases t.atom_cases with rfl | rfl | ⟨ms, rfl⟩ | atom
  · exact .inr (.inl rfl)
  · exact .inl ⟨rfl, rfl⟩
  · have several := (isCanonical_iff.1 (proper_union.1 proper).1).1
    exact .inr (.inr ⟨by simpa using several, by simp [Ty.id]⟩)
  · exact .inr (.inl (by rw [alternatives_of_isAtom atom, List.map_singleton]))

/-- The ids of the alternatives give the id. -/
theorem id_eq_of_alternatives (ht : t.Proper) (hu : u.Proper)
    (same : t.alternatives.map id = u.alternatives.map id) : t.id = u.id := by
  rcases ht.id_cases with ⟨nothing, told⟩ | alone | ⟨several, told⟩
  · rw [same] at nothing
    rcases hu.id_cases with ⟨-, told'⟩ | alone' | ⟨several', -⟩
    · rw [told, told']
    · simp [nothing] at alone'
    · simp [nothing] at several'
  · rw [same] at alone
    rcases hu.id_cases with ⟨nothing', -⟩ | alone' | ⟨several', -⟩
    · simp [nothing'] at alone
    · exact List.singleton_inj.1 (alone.symm.trans alone')
    · simp [alone] at several'
  · rw [same] at several told
    rcases hu.id_cases with ⟨nothing', -⟩ | alone' | ⟨-, told'⟩
    · simp [nothing'] at several
    · simp [alone'] at several
    · rw [told, told']

/-! ## Which unions are the same -/

/-- Two lists have unions of one id exactly if the top is found in both, or in none and the same ids
    are found in them. -/
theorem id_unionOf_eq_iff (hx : ∀ t ∈ xs, t.Proper) (hy : ∀ t ∈ ys, t.Proper) :
    (unionOf xs).id = (unionOf ys).id ↔
      (any ∈ flatten xs ∧ any ∈ flatten ys) ∨
        (any ∉ flatten xs ∧ any ∉ flatten ys ∧ ∀ n, n ∈ memberIds xs ↔ n ∈ memberIds ys) := by
  have hx' := proper_unionOf hx
  have hy' := proper_unionOf hy
  constructor
  · intro same
    have members := same_of_id_eq legible_proper hx' hy' same
    have tops : any ∈ flatten xs ↔ any ∈ flatten ys := by
      rw [← unionOf_eq_any_iff, ← unionOf_eq_any_iff, members.any]
    by_cases top : any ∈ flatten xs
    · exact .inl ⟨top, tops.1 top⟩
    · have top' := mt tops.2 top
      refine .inr ⟨top, top', fun n => ?_⟩
      rw [← mem_map_id_alternatives_unionOf hx top, ← mem_map_id_alternatives_unionOf hy top',
        members.alternatives]
  · rintro (⟨top, top'⟩ | ⟨noTop, noTop', same⟩)
    · rw [unionOf_eq_any_iff.2 top, unionOf_eq_any_iff.2 top']
    · refine id_eq_of_alternatives hx' hy' (eq_of_mem_iff_of_ascending
        (ascending_alternatives_unionOf hx noTop)
        (ascending_alternatives_unionOf hy noTop') fun n => ?_)
      rw [mem_map_id_alternatives_unionOf hx noTop, mem_map_id_alternatives_unionOf hy noTop', same]

/-- What is found in a single type are its alternatives. -/
theorem memberIds_singleton (proper : t.Proper) : memberIds [t] = t.alternatives.map id := by
  rcases t.atom_cases with rfl | rfl | ⟨ms, rfl⟩ | atom
  · rfl
  · rfl
  · have atoms := (isCanonical_iff.1 (proper_union.1 proper).1).2.1
    have kept : ms.filter (fun m => !m.isBottom) = ms := by
      refine List.filter_eq_self.2 fun m member => ?_
      have atom := atoms m member
      cases m <;> simp_all [isAtom, isBottom]
    simp [memberIds, flatten, members, kept]
  · cases t <;> simp_all [isAtom, memberIds, flatten, members, isBottom, alternatives]

theorem any_mem_flatten_singleton (proper : t.Proper) : any ∈ flatten [t] ↔ t = any := by
  rcases t.atom_cases with rfl | rfl | ⟨ms, rfl⟩ | atom
  · simp [flatten, members]
  · simp [flatten, members]
  · have atoms := (isCanonical_iff.1 (proper_union.1 proper).1).2.1
    have noTop : any ∉ ms := fun member => by cases atoms any member
    simp [flatten, members, noTop]
  · cases t <;> simp_all [isAtom, flatten, members]

/-- Taking the union of some types first does not change the union of all. -/
theorem id_unionOf_append (hx : ∀ t ∈ xs, t.Proper) (hy : ∀ t ∈ ys, t.Proper) :
    (unionOf (xs ++ ys)).id = (unionOf [unionOf xs, unionOf ys]).id := by
  have hx' := proper_unionOf hx
  have hy' := proper_unionOf hy
  have divided : [unionOf xs, unionOf ys] = [unionOf xs] ++ [unionOf ys] := rfl
  have tops : any ∈ flatten (xs ++ ys) ↔ any ∈ flatten xs ∨ any ∈ flatten ys := by
    rw [flatten_append, List.mem_append]
  have tops' : any ∈ flatten [unionOf xs, unionOf ys] ↔ any ∈ flatten xs ∨ any ∈ flatten ys := by
    rw [divided, flatten_append, List.mem_append, any_mem_flatten_singleton hx',
      any_mem_flatten_singleton hy', unionOf_eq_any_iff, unionOf_eq_any_iff]
  refine (id_unionOf_eq_iff (List.forall_mem_append.2 ⟨hx, hy⟩) (by simp [hx', hy'])).2 ?_
  by_cases top : any ∈ flatten xs ∨ any ∈ flatten ys
  · exact .inl ⟨tops.2 top, tops'.2 top⟩
  · refine .inr ⟨mt tops.1 top, mt tops'.1 top, fun n => ?_⟩
    rw [not_or] at top
    rw [divided, memberIds_append, memberIds_append, memberIds_singleton hx',
      memberIds_singleton hy', List.mem_append, List.mem_append,
      mem_map_id_alternatives_unionOf hx top.1, mem_map_id_alternatives_unionOf hy top.2]

/-- The order of a list and repetitions in it do not matter for its union. -/
theorem id_unionOf_of_mem_iff (hx : ∀ t ∈ xs, t.Proper) (same : ∀ t, t ∈ ys ↔ t ∈ xs) :
    (unionOf ys).id = (unionOf xs).id := by
  have found : ∀ m, m ∈ flatten ys ↔ m ∈ flatten xs := fun m => by
    simp only [flatten, List.mem_flatMap, same]
  refine (id_unionOf_eq_iff (fun t member => hx t ((same t).1 member)) hx).2 ?_
  by_cases top : any ∈ flatten xs
  · exact .inl ⟨(found _).2 top, top⟩
  · refine .inr ⟨mt (found _).1 top, top, fun n => ?_⟩
    simp only [memberIds, List.mem_map, List.mem_filter, found]

/-- The union of a list is in canonical form, and two lists have unions of one id exactly if the top
    is found in both behind flattening, or in none and the same ids are found in them. So neither
    order nor repetition nor nesting matters. -/
theorem unionOf_canonical (hx : ∀ t ∈ xs, t.Proper) (hy : ∀ t ∈ ys, t.Proper) :
    (unionOf xs = any ∨ unionOf xs = bottom ∨ (unionOf xs).isAtom = true ∨
        ∃ ms, unionOf xs = union ms ∧ isCanonical ms = true) ∧
      ((unionOf xs).id = (unionOf ys).id ↔
        (any ∈ flatten xs ∧ any ∈ flatten ys) ∨
          (any ∉ flatten xs ∧ any ∉ flatten ys ∧ ∀ n, n ∈ memberIds xs ↔ n ∈ memberIds ys)) ∧
      (∀ zs, (∀ t, t ∈ zs ↔ t ∈ xs) → (unionOf zs).id = (unionOf xs).id) ∧
      (unionOf (xs ++ ys)).id = (unionOf [unionOf xs, unionOf ys]).id := by
  refine ⟨?_, id_unionOf_eq_iff hx hy, fun _ => id_unionOf_of_mem_iff hx, id_unionOf_append hx hy⟩
  rcases (unionOf xs).atom_cases with top | bottom | ⟨ms, union⟩ | atom
  · exact .inl top
  · exact .inr (.inl bottom)
  · exact .inr (.inr (.inr ⟨ms, union, (proper_union.1 (union ▸ proper_unionOf hx)).1⟩))
  · exact .inr (.inr (.inl atom))

/-- Numbers and values of a type `T`, with a union among them and one kind of numbers twice. -/
def nestedUnions : List Ty :=
  [union [float, typeVar "T" any], int, bottom, float]

/-- The same types, each once. -/
def flatUnion : List Ty :=
  [float, int, typeVar "T" any]

theorem unionOf_canonical_nestedUnions :
    (∀ t ∈ nestedUnions, t.Proper) ∧ (∀ t ∈ flatUnion, t.Proper) ∧
      (unionOf nestedUnions).id = (union flatUnion).id ∧
      (unionOf nestedUnions.reverse).id = (unionOf nestedUnions).id := by
  have formed : ∀ t ∈ nestedUnions ++ flatUnion,
      t.wellFormed Lattice.numberHierarchy = true ∧ ∀ v ∈ t.vars, isPlainName v.name = true := by
    decide +kernel
  obtain ⟨nested, flat⟩ := List.forall_mem_append.1 fun t member =>
    proper_of_wellFormed t (formed t member).1 (formed t member).2
  have ids : memberIds nestedUnions = ["Float", "T", "Int", "Float"] ∧
      memberIds flatUnion = ["Float", "Int", "T"] := ⟨rfl, rfl⟩
  obtain ⟨-, same, reordered, -⟩ := unionOf_canonical nested flat
  refine ⟨nested, flat, ?_, reordered _ fun _ => List.mem_reverse⟩
  rw [show union flatUnion = unionOf flatUnion from
    (unionOf_of_isCanonical (by decide +kernel)).symm]
  refine same.2 (.inr ⟨?_, ?_, fun n => ?_⟩)
  · simp [nestedUnions, flatten, members, Ty.int, Ty.float]
  · simp [flatUnion, flatten, members, Ty.int, Ty.float]
  · rw [ids.1, ids.2]
    simp only [List.mem_cons, List.not_mem_nil, or_false]
    tauto

end Multimethod.Ty
