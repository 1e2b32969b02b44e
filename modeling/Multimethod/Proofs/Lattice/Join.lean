import Mathlib.Data.Set.Finite.Basic
import Mathlib.Order.WellFounded
import Multimethod.Lattice.Bounds
import Multimethod.Proofs.Lattice.Order
import Multimethod.Proofs.Ty.Union

/-!
# Least upper bounds

`join` takes the union of two types and drops the members that another member covers. Covering
is a strict order on the members, so above each dropped one stands one that is kept: the result
is equivalent to the union, which is the least type above both.
-/

namespace Multimethod.Lattice

open Ty (alternatives)

variable {h : Hierarchy} {a b c m n t u : Ty} {ms ts us : List Ty}

/-! ## The order, alternative by alternative -/

theorem isSubtype_iff_alternatives (ht : t.ground h = true) (hc : c.ground h = true) :
    isSubtype h t c = true ↔ ∀ m ∈ t.alternatives, isSubtype h m c = true := by
  rcases t.atom_cases with rfl | rfl | ⟨ms, rfl⟩ | atom
  · simp
  · simp
  · exact union_isSubtype_iff ht hc
  · simp [Ty.alternatives_of_isAtom atom]

theorem atom_isSubtype_iff_alternatives (ha : a.ground h = true) (atom : a.isAtom = true)
    (ht : t.ground h = true) :
    isSubtype h a t = true ↔ ∃ m ∈ t.alternatives, isSubtype h a m = true := by
  rcases t.atom_cases with rfl | rfl | ⟨ms, rfl⟩ | atom'
  · simp
  · have notBottom : a ≠ .bottom := by
      rintro rfl
      simp [Ty.isAtom] at atom
    simp [isSubtype_bottom_iff ha, notBottom]
  · exact atom_isSubtype_union_iff ha atom ht
  · simp [Ty.alternatives_of_isAtom atom']

theorem isSubtype_of_mem_alternatives (ht : t.ground h = true) (hm : m ∈ t.alternatives) :
    isSubtype h m t = true :=
  (isSubtype_iff_alternatives ht ht).1 (isSubtype_refl h t) m hm

/-! ## Unions -/

theorem isSubtype_unionOf_of_mem (hts : ∀ t ∈ ts, t.ground h = true) (ht : t ∈ ts) :
    isSubtype h t (Ty.unionOf ts) = true := by
  by_cases top : Ty.any ∈ ts
  · rw [Ty.unionOf_of_any_mem hts top]
    exact isSubtype_any h t
  · obtain ⟨ground, spec⟩ := Ty.unionOf_spec hts top
    rw [isSubtype_iff_alternatives (hts t ht) ground]
    intro m hm
    exact isSubtype_of_mem_alternatives ground ((spec m).2 ⟨t, ht, hm⟩)

theorem unionOf_isSubtype (hts : ∀ t ∈ ts, t.ground h = true) (hc : c.ground h = true)
    (below : ∀ t ∈ ts, isSubtype h t c = true) : isSubtype h (Ty.unionOf ts) c = true := by
  by_cases top : Ty.any ∈ ts
  · rw [Ty.unionOf_of_any_mem hts top]
    exact below .any top
  · obtain ⟨ground, spec⟩ := Ty.unionOf_spec hts top
    rw [isSubtype_iff_alternatives ground hc]
    intro m hm
    obtain ⟨t, ht, hm⟩ := (spec m).1 hm
    exact (isSubtype_iff_alternatives (hts t ht) hc).1 (below t ht) m hm

theorem atom_isSubtype_unionOf_iff (hts : ∀ t ∈ ts, t.ground h = true)
    (ha : a.ground h = true) (atom : a.isAtom = true) :
    isSubtype h a (Ty.unionOf ts) = true ↔ ∃ t ∈ ts, isSubtype h a t = true := by
  by_cases top : Ty.any ∈ ts
  · rw [Ty.unionOf_of_any_mem hts top]
    exact ⟨fun _ => ⟨.any, top, isSubtype_any h a⟩, fun _ => isSubtype_any h a⟩
  · obtain ⟨ground, spec⟩ := Ty.unionOf_spec hts top
    rw [atom_isSubtype_iff_alternatives ha atom ground]
    constructor
    · rintro ⟨m, hm, below⟩
      obtain ⟨t, ht, hm⟩ := (spec m).1 hm
      exact ⟨t, ht, (atom_isSubtype_iff_alternatives ha atom (hts t ht)).2 ⟨m, hm, below⟩⟩
    · rintro ⟨t, ht, below⟩
      obtain ⟨m, hm, below⟩ := (atom_isSubtype_iff_alternatives ha atom (hts t ht)).1 below
      exact ⟨m, (spec m).2 ⟨t, ht, hm⟩, below⟩

/-! ## Covered members -/

/-- Whether `n` makes `m` superfluous beside it. -/
def Covers (h : Hierarchy) (n m : Ty) : Prop :=
  n ≠ m ∧ isSubtype h m n = true ∧
    (isSubtype h n m = false ∨ unitsBefore n.id m.id = true)

theorem covered_iff (hms : ∀ m ∈ ms, m.ground h = true) (hm : m ∈ ms) :
    covered h ms m = true ↔ ∃ n ∈ ms, Covers h n m := by
  simp only [covered, List.any_eq_true, Bool.and_eq_true, Bool.or_eq_true, Bool.not_eq_true',
    Covers, and_assoc]
  refine exists_congr fun n => and_congr_right fun hn => and_congr_left fun _ => ?_
  rw [Bool.eq_false_iff, ne_eq, Ty.same_iff_of_ground (hms n hn) (hms m hm)]

theorem not_covers_self (h : Hierarchy) (m : Ty) : ¬ Covers h m m :=
  fun covers => covers.1 rfl

theorem covers_trans (ordered : Hierarchy.Ordered h.decls) (ha : a.ground h = true)
    (hb : b.ground h = true) (hc : c.ground h = true) (ab : Covers h a b)
    (bc : Covers h b c) : Covers h a c := by
  obtain ⟨-, ba, above⟩ := ab
  obtain ⟨-, cb, above'⟩ := bc
  have ca := isSubtype_trans ordered hc hb ha cb ba
  cases ac : isSubtype h a c with
  | false =>
      refine ⟨?_, ca, Or.inl ac⟩
      rintro rfl
      rw [isSubtype_refl] at ac
      cases ac
  | true =>
      -- all three are equivalent, so that the ids decide
      have first : unitsBefore a.id b.id = true := by
        rcases above with notBelow | before
        · rw [isSubtype_trans ordered ha hc hb ac cb] at notBelow
          cases notBelow
        · exact before
      have second : unitsBefore b.id c.id = true := by
        rcases above' with notBelow | before
        · rw [isSubtype_trans ordered hb ha hc ba ac] at notBelow
          cases notBelow
        · exact before
      have before := unitsBefore_trans first second
      refine ⟨?_, ca, Or.inr before⟩
      rintro rfl
      rw [not_unitsBefore_self] at before
      cases before

/-- Above every member stands one that no member covers. -/
theorem exists_uncovered (ordered : Hierarchy.Ordered h.decls)
    (hms : ∀ m ∈ ms, m.ground h = true) (hm : m ∈ ms) :
    ∃ n ∈ ms, covered h ms n = false ∧ isSubtype h m n = true := by
  let Above : { m // m ∈ ms } → { m // m ∈ ms } → Prop := fun n m => Covers h n.1 m.1
  have : Finite { m // m ∈ ms } := ms.finite_toSet
  have : Std.Irrefl Above := ⟨fun m => not_covers_self h m.1⟩
  have : IsTrans { m // m ∈ ms } Above := ⟨fun a b c =>
    covers_trans ordered (hms _ a.2) (hms _ b.2) (hms _ c.2)⟩
  have wellFounded : WellFounded Above := Finite.wellFounded_of_trans_of_irrefl Above
  obtain ⟨⟨n, hn⟩, below, highest⟩ :=
    wellFounded.has_min { n | isSubtype h m n.1 = true } ⟨⟨m, hm⟩, isSubtype_refl h m⟩
  refine ⟨n, hn, ?_, below⟩
  rw [Bool.eq_false_iff]
  intro dropped
  obtain ⟨k, hk, covers⟩ := (covered_iff hms hn).1 dropped
  exact highest ⟨k, hk⟩
    (isSubtype_trans ordered (hms m hm) (hms n hn) (hms k hk) below covers.2.1) covers

/-- Of two uncovered members neither lies below the other. -/
theorem eq_of_uncovered (hms : ∀ m ∈ ms, m.ground h = true) (hm : m ∈ ms) (hn : n ∈ ms)
    (keptM : covered h ms m = false) (keptN : covered h ms n = false)
    (below : isSubtype h m n = true) : m = n := by
  by_contra different
  have uncovered : ∀ {k l}, k ∈ ms → l ∈ ms → covered h ms l = false → ¬ Covers h k l := by
    intro k l hk hl kept covers
    rw [(covered_iff hms hl).2 ⟨k, hk, covers⟩] at kept
    cases kept
  cases above : isSubtype h n m with
  | false => exact uncovered hn hm keptM ⟨Ne.symm different, below, Or.inl above⟩
  | true =>
      have ids : m.id ≠ n.id := fun same => different (Ty.ground_id_inj (hms m hm) (hms n hn) same)
      rcases unitsBefore_or_unitsBefore ids with before | behind
      · exact uncovered hm hn keptN ⟨different, above, Or.inr before⟩
      · exact uncovered hn hm keptM ⟨Ne.symm different, below, Or.inr behind⟩

/-! ## Normal unions -/

/-- The alternatives that `normalize` keeps are the uncovered ones. -/
theorem normalize_spec (ht : t.ground h = true) :
    (normalize h t).ground h = true ∧ ∀ m, m ∈ (normalize h t).alternatives ↔
      m ∈ t.alternatives ∧ covered h t.alternatives m = false := by
  have alone : ∀ t : Ty, t.alternatives = [t] → ∀ m, m ∈ t.alternatives ↔
      m ∈ t.alternatives ∧ covered h t.alternatives m = false := by
    intro t single m
    rw [single, List.mem_singleton]
    refine ⟨?_, And.left⟩
    rintro rfl
    simp [covered]
  rcases t.atom_cases with rfl | rfl | ⟨ms, rfl⟩ | atom
  · exact ⟨ht, alone .any rfl⟩
  · exact ⟨ht, by simp [normalize]⟩
  · obtain ⟨canonical, members⟩ := Ty.ground_union.1 ht
    have atoms := (Ty.isCanonical_iff.1 canonical).2.1
    have kept : ∀ m ∈ ms.filter (fun m => !covered h ms m), m ∈ ms :=
      fun m hm => (List.mem_filter.1 hm).1
    have noTop : Ty.any ∉ ms.filter (fun m => !covered h ms m) := by
      intro top
      simpa [Ty.isAtom] using atoms .any (kept _ top)
    obtain ⟨ground, spec⟩ := Ty.unionOf_spec (fun m hm => members m (kept m hm)) noTop
    refine ⟨ground, fun m => ?_⟩
    rw [normalize, spec, Ty.alternatives_union]
    constructor
    · rintro ⟨n, hn, hm⟩
      rw [Ty.alternatives_of_isAtom (atoms n (kept n hn)), List.mem_singleton] at hm
      subst hm
      simpa using hn
    · rintro ⟨hm, uncovered⟩
      refine ⟨m, by simp [hm, uncovered], ?_⟩
      rw [Ty.alternatives_of_isAtom (atoms m hm)]
      exact List.mem_singleton_self m
  · have same : normalize h t = t := by
      cases t <;> simp_all [normalize, Ty.isAtom]
    rw [same]
    exact ⟨ht, alone t (Ty.alternatives_of_isAtom atom)⟩

theorem isSubtype_normalize (ordered : Hierarchy.Ordered h.decls) (ht : t.ground h = true) :
    isSubtype h t (normalize h t) = true := by
  obtain ⟨ground, spec⟩ := normalize_spec ht
  have members : ∀ m ∈ t.alternatives, m.ground h = true :=
    fun m => Ty.ground_of_mem_alternatives ht
  rw [isSubtype_iff_alternatives ht ground]
  intro m hm
  obtain ⟨n, hn, uncovered, below⟩ := exists_uncovered ordered members hm
  have kept := isSubtype_of_mem_alternatives ground ((spec n).2 ⟨hn, uncovered⟩)
  exact isSubtype_trans ordered (members m hm) (members n hn) ground below kept

theorem normalize_isSubtype (ht : t.ground h = true) :
    isSubtype h (normalize h t) t = true := by
  obtain ⟨ground, spec⟩ := normalize_spec ht
  rw [isSubtype_iff_alternatives ground ht]
  intro m hm
  exact isSubtype_of_mem_alternatives ht ((spec m).1 hm).1

theorem Normal.alternative (normal : Normal h t) (hm : m ∈ t.alternatives) : Normal h m := by
  rcases t.atom_cases with rfl | rfl | ⟨ms, rfl⟩ | atom
  · rw [Ty.alternatives_any, List.mem_singleton] at hm
    exact hm ▸ normal
  · simp at hm
  · exact normal.member hm
  · rw [Ty.alternatives_of_isAtom atom, List.mem_singleton] at hm
    exact hm ▸ normal

/-- A type is normal if its alternatives are and none of them lies below another. -/
theorem normal_of_alternatives (ht : t.ground h = true)
    (normal : ∀ m ∈ t.alternatives, Normal h m)
    (apart : ∀ m ∈ t.alternatives, ∀ n ∈ t.alternatives, isSubtype h m n = true → m = n) :
    Normal h t := by
  rcases t.atom_cases with rfl | rfl | ⟨ms, rfl⟩ | atom
  · exact ⟨ht, rfl⟩
  · exact ⟨ht, rfl⟩
  · refine ⟨ht, ?_⟩
    simp only [reduced, Bool.and_eq_true]
    exact ⟨(isAntichain_iff (Ty.ground_union.1 ht).2).2 apart,
      allReduced_iff.2 fun m hm => (normal m hm).reduced⟩
  · exact normal t (by simp [Ty.alternatives_of_isAtom atom])

theorem normal_normalize (ht : t.ground h = true)
    (normal : ∀ m ∈ t.alternatives, Normal h m) : Normal h (normalize h t) := by
  obtain ⟨ground, spec⟩ := normalize_spec ht
  refine normal_of_alternatives ground (fun m hm => normal m ((spec m).1 hm).1) ?_
  intro m hm n hn below
  obtain ⟨hm, keptM⟩ := (spec m).1 hm
  obtain ⟨hn, keptN⟩ := (spec n).1 hn
  exact eq_of_uncovered (fun m => Ty.ground_of_mem_alternatives ht) hm hn keptM keptN below

/-! ## Joins -/

theorem forall_mem_pair {p : Ty → Prop} (ha : p a) (hb : p b) : ∀ t ∈ [a, b], p t := by
  simp [ha, hb]

theorem bottom_join (h : Hierarchy) (t : Ty) : join h .bottom t = t := by
  unfold join
  rw [if_pos (bottom_isSubtype h t)]

theorem ground_join (ha : a.ground h = true) (hb : b.ground h = true) :
    (join h a b).ground h = true := by
  unfold join
  split
  · exact hb
  · split
    · exact ha
    · exact (normalize_spec (Ty.ground_unionOf (forall_mem_pair ha hb))).1

theorem isSubtype_join (ordered : Hierarchy.Ordered h.decls) (ha : a.ground h = true)
    (hb : b.ground h = true) :
    isSubtype h a (join h a b) = true ∧ isSubtype h b (join h a b) = true := by
  unfold join
  split
  case isTrue ab => exact ⟨ab, isSubtype_refl h b⟩
  case isFalse =>
      split
      case isTrue ba => exact ⟨isSubtype_refl h a, ba⟩
      case isFalse =>
          have both := forall_mem_pair (p := fun t => t.ground h = true) ha hb
          have union := Ty.ground_unionOf both
          have ground := (normalize_spec union).1
          have kept := isSubtype_normalize ordered union
          exact ⟨isSubtype_trans ordered ha union ground
              (isSubtype_unionOf_of_mem both (by simp)) kept,
            isSubtype_trans ordered hb union ground
              (isSubtype_unionOf_of_mem both (by simp)) kept⟩

theorem join_isSubtype (ordered : Hierarchy.Ordered h.decls) (ha : a.ground h = true)
    (hb : b.ground h = true) (hc : c.ground h = true) (ac : isSubtype h a c = true)
    (bc : isSubtype h b c = true) : isSubtype h (join h a b) c = true := by
  unfold join
  split
  · exact bc
  · split
    · exact ac
    · have both := forall_mem_pair (p := fun t => t.ground h = true) ha hb
      have union := Ty.ground_unionOf both
      exact isSubtype_trans ordered (normalize_spec union).1 union hc (normalize_isSubtype union)
        (unionOf_isSubtype both hc (forall_mem_pair ac bc))

theorem Normal.join (ha : Normal h a) (hb : Normal h b) : Normal h (join h a b) := by
  unfold Lattice.join
  split
  · exact hb
  · split
    case isTrue => exact ha
    case isFalse notBelow notAbove =>
        have both := forall_mem_pair (p := fun t => t.ground h = true) ha.ground hb.ground
        have noTop : Ty.any ∉ [a, b] := by
          intro top
          rcases List.mem_pair.1 top with rfl | rfl
          · exact notAbove (isSubtype_any h b)
          · exact notBelow (isSubtype_any h a)
        obtain ⟨ground, spec⟩ := Ty.unionOf_spec both noTop
        refine normal_normalize ground fun m hm => ?_
        obtain ⟨t, ht, hm⟩ := (spec m).1 hm
        exact (forall_mem_pair ha hb t ht).alternative hm

theorem normal_bottom (h : Hierarchy) : Normal h .bottom :=
  ⟨Ty.ground_bottom h, rfl⟩

/-- Normal types that stand below the same types are equal. -/
theorem eq_of_least (ordered : Hierarchy.Ordered h.decls) (ha : Normal h a) (hb : Normal h b)
    (same : ∀ c, Normal h c → (isSubtype h a c = true ↔ isSubtype h b c = true)) : a = b :=
  isSubtype_antisymm ordered ha hb ((same b hb).2 (isSubtype_refl h b))
    ((same a ha).1 (isSubtype_refl h a))

theorem join_isSubtype_iff (ordered : Hierarchy.Ordered h.decls) (ha : a.ground h = true)
    (hb : b.ground h = true) (hc : c.ground h = true) :
    isSubtype h (join h a b) c = true ↔ isSubtype h a c = true ∧ isSubtype h b c = true := by
  have ground := ground_join ha hb
  obtain ⟨left, right⟩ := isSubtype_join ordered ha hb
  constructor
  · intro below
    exact ⟨isSubtype_trans ordered ha ground hc left below,
      isSubtype_trans ordered hb ground hc right below⟩
  · rintro ⟨ac, bc⟩
    exact join_isSubtype ordered ha hb hc ac bc

theorem join_comm (ordered : Hierarchy.Ordered h.decls) (ha : Normal h a) (hb : Normal h b) :
    join h a b = join h b a := by
  refine eq_of_least ordered (ha.join hb) (hb.join ha) fun c hc => ?_
  rw [join_isSubtype_iff ordered ha.ground hb.ground hc.ground,
    join_isSubtype_iff ordered hb.ground ha.ground hc.ground, and_comm]

theorem join_assoc (ordered : Hierarchy.Ordered h.decls) (ha : Normal h a) (hb : Normal h b)
    (hc : Normal h c) : join h (join h a b) c = join h a (join h b c) := by
  refine eq_of_least ordered ((ha.join hb).join hc) (ha.join (hb.join hc)) fun d hd => ?_
  rw [join_isSubtype_iff ordered (ha.join hb).ground hc.ground hd.ground,
    join_isSubtype_iff ordered ha.ground hb.ground hd.ground,
    join_isSubtype_iff ordered ha.ground (hb.join hc).ground hd.ground,
    join_isSubtype_iff ordered hb.ground hc.ground hd.ground, and_assoc]

theorem join_self (h : Hierarchy) (a : Ty) : join h a a = a := by
  unfold join
  rw [if_pos (isSubtype_refl h a)]

/-! ## Joins of lists -/

theorem ground_foldl_join (ha : a.ground h = true) (hts : ∀ t ∈ ts, t.ground h = true) :
    (ts.foldl (join h) a).ground h = true :=
  List.foldlRecOn (motive := fun t => t.ground h = true) ts (join h) ha
    fun _ ground t member => ground_join ground (hts t member)

/-- Joining a list onto `acc` goes to the least type above `acc` and the list. -/
theorem foldl_join_isSubtype_iff (ordered : Hierarchy.Ordered h.decls) (ha : a.ground h = true)
    (hts : ∀ t ∈ ts, t.ground h = true) (hc : c.ground h = true) :
    isSubtype h (ts.foldl (join h) a) c = true ↔
      isSubtype h a c = true ∧ ∀ t ∈ ts, isSubtype h t c = true := by
  induction ts generalizing a with
  | nil => simp
  | cons t ts ih =>
      rw [List.forall_mem_cons] at hts
      rw [List.foldl_cons, ih (ground_join ha hts.1) hts.2,
        join_isSubtype_iff ordered ha hts.1 hc, List.forall_mem_cons, and_assoc]

theorem Normal.foldl_join (ha : Normal h a) (hts : ∀ t ∈ ts, Normal h t) :
    Normal h (ts.foldl (Lattice.join h) a) :=
  List.foldlRecOn (motive := Normal h) ts (Lattice.join h) ha
    fun _ normal t member => normal.join (hts t member)

theorem ground_joinAll (hts : ∀ t ∈ ts, t.ground h = true) : (joinAll h ts).ground h = true :=
  ground_foldl_join (Ty.ground_bottom h) hts

theorem joinAll_isSubtype_iff (ordered : Hierarchy.Ordered h.decls)
    (hts : ∀ t ∈ ts, t.ground h = true) (hc : c.ground h = true) :
    isSubtype h (joinAll h ts) c = true ↔ ∀ t ∈ ts, isSubtype h t c = true := by
  rw [joinAll, foldl_join_isSubtype_iff ordered (Ty.ground_bottom h) hts hc]
  simp

/-- What lies below one type of a list lies below the join of the list. -/
theorem isSubtype_joinAll (ordered : Hierarchy.Ordered h.decls)
    (hts : ∀ t ∈ ts, t.ground h = true) (ha : a.ground h = true) (ht : t ∈ ts)
    (below : isSubtype h a t = true) : isSubtype h a (joinAll h ts) = true := by
  have ground := ground_joinAll hts
  have upper := (joinAll_isSubtype_iff ordered hts ground).1 (isSubtype_refl h _) t ht
  exact isSubtype_trans ordered ha (hts t ht) ground below upper

/-- Neither the order of a list nor its repetitions matter to its join. -/
theorem joinAll_congr (ordered : Hierarchy.Ordered h.decls) (hts : ∀ t ∈ ts, Normal h t)
    (hus : ∀ u ∈ us, Normal h u) (same : ∀ t, t ∈ ts ↔ t ∈ us) :
    joinAll h ts = joinAll h us := by
  refine eq_of_least ordered ((normal_bottom h).foldl_join hts) ((normal_bottom h).foldl_join hus)
    fun c hc => ?_
  rw [joinAll_isSubtype_iff ordered (fun t ht => (hts t ht).ground) hc.ground,
    joinAll_isSubtype_iff ordered (fun u hu => (hus u hu).ground) hc.ground]
  simp only [same]

/-! ## The join of a hierarchy -/

/-- On normal types `join` is the least upper bound, also among the types that are not normal,
    and its result is normal. Up to ids it is commutative, associative and idempotent, and a
    list is joined to the same type in any order and with any repetitions. -/
theorem join_leastUpperBound (built : h.Declared) :
    (∀ a b, Normal h a → Normal h b →
      Normal h (join h a b) ∧ isSubtype h a (join h a b) = true ∧
        isSubtype h b (join h a b) = true ∧
        ∀ c, c.ground h = true → isSubtype h a c = true → isSubtype h b c = true →
          isSubtype h (join h a b) c = true) ∧
      (∀ a b, Normal h a → Normal h b → (join h a b).id = (join h b a).id) ∧
      (∀ a b c, Normal h a → Normal h b → Normal h c →
        (join h (join h a b) c).id = (join h a (join h b c)).id) ∧
      (∀ a, Normal h a → (join h a a).id = a.id) ∧
      (∀ ts us, (∀ t ∈ ts, Normal h t) → (∀ t, t ∈ ts ↔ t ∈ us) →
        (joinAll h ts).id = (joinAll h us).id) := by
  have ordered := built.ordered
  refine ⟨fun a b ha hb => ?_, fun a b ha hb => ?_, fun a b c ha hb hc => ?_, fun a _ => ?_,
    fun ts us hts same => ?_⟩
  · obtain ⟨left, right⟩ := isSubtype_join ordered ha.ground hb.ground
    exact ⟨ha.join hb, left, right, fun c hc => join_isSubtype ordered ha.ground hb.ground hc⟩
  · rw [join_comm ordered ha hb]
  · rw [join_assoc ordered ha hb hc]
  · rw [join_self]
  · rw [joinAll_congr ordered hts (fun u hu => hts u ((same u).2 hu)) same]

/-- Joining both kinds of numbers stays below their common supertype, and joining them again
    changes nothing. -/
theorem join_leastUpperBound_numbers :
    numberHierarchy.Declared ∧
      isSubtype numberHierarchy (join numberHierarchy .int .float) (.abstract "Number") = true ∧
      (joinAll numberHierarchy [.int, .float]).id =
        (joinAll numberHierarchy [.float, .int, .float]).id := by
  have lattice := join_leastUpperBound numberHierarchy_declared
  have int : Normal numberHierarchy .int := ⟨by decide +kernel, by decide +kernel⟩
  have float : Normal numberHierarchy .float := ⟨by decide +kernel, by decide +kernel⟩
  have least := (lattice.1 .int .float int float).2.2.2
  refine ⟨numberHierarchy_declared, least _ (by decide +kernel) (by decide +kernel)
    (by decide +kernel), ?_⟩
  refine lattice.2.2.2.2 _ _ (forall_mem_pair int float) fun t => ?_
  simp only [List.mem_cons, List.not_mem_nil, or_false]
  tauto

end Multimethod.Lattice
