import Multimethod.Proofs.Lattice.Join

/-!
# Lower bounds

`meet` answers a common lower bound of two well-formed ground types. It is the greatest one
exactly in those hierarchies in which every parametric type varies in one way: it compares the
arguments of a type whose parameters are all covariant and gives up on every other one, which
is right for a type that is invariant in all parameters and loses instances of a mixed one.
-/

namespace Multimethod

/-- Whether every type is covariant in all of its parameters or invariant in all of them. -/
def Hierarchy.UniformVariance (h : Hierarchy) : Prop :=
  ∀ name, h.hasConcrete name = true →
    (∀ param ∈ h.paramsOf name, param.variance = .covariant) ∨
      (∀ param ∈ h.paramsOf name, param.variance = .invariant)

namespace Lattice

open Ty (alternatives)

variable {h : Hierarchy} {a b c t : Ty} {ps qs rs ms : List Ty} {name other : String}
  {params : List TypeParam}

/-! ## The cases of a meet -/

theorem meetEach_eq_map (h : Hierarchy) (ms : List Ty) (b : Ty) :
    meetEach h ms b = ms.map fun m => meet h m b := by
  induction ms with
  | nil => rw [meetEach, List.map_nil]
  | cons m ms ih => rw [meetEach, List.map_cons, ih]

theorem meetWithEach_eq_map (h : Hierarchy) (a : Ty) (ms : List Ty) :
    meetWithEach h a ms = ms.map fun m => meet h a m := by
  induction ms with
  | nil => rw [meetWithEach, List.map_nil]
  | cons m ms ih => rw [meetWithEach, List.map_cons, ih]

theorem meetArgs_eq_zipWith (h : Hierarchy) (ps qs : List Ty) :
    meetArgs h ps qs = List.zipWith (meet h) ps qs := by
  induction ps generalizing qs with
  | nil => simp [meetArgs]
  | cons p ps ih =>
      cases qs with
      | nil => simp [meetArgs]
      | cons q qs => rw [meetArgs, List.zipWith_cons_cons, ih]

theorem exists_of_mem_zipWith_meet (met : t ∈ List.zipWith (meet h) ps qs) :
    ∃ p ∈ ps, ∃ q ∈ qs, meet h p q = t := by
  rw [← List.map_uncurry_zip_eq_zipWith] at met
  obtain ⟨⟨p, q⟩, pair, rfl⟩ := List.mem_map.1 met
  exact ⟨p, (List.of_mem_zip pair).1, q, (List.of_mem_zip pair).2, rfl⟩

theorem allCovariant_iff :
    h.allCovariant name = true ↔ ∀ param ∈ h.paramsOf name, param.variance = .covariant := by
  simp [Hierarchy.allCovariant]

/-- What holds of two types that are ordered, and is kept where the members of a union, the bound of a
    variable or the arguments of two instances are met, holds of every meet. -/
theorem meet_induction {p : Ty → Ty → Ty → Prop}
    (below : ∀ {a b}, isSubtype h a b = true → p a b a)
    (above : ∀ {a b}, isSubtype h b a = true → p a b b)
    (left : ∀ {ms b}, (∀ m ∈ ms, p m b (meet h m b)) →
      p (.union ms) b (joinAll h (ms.map fun m => meet h m b)))
    (right : ∀ {a ms}, (∀ m ∈ ms, p a m (meet h a m)) →
      p a (.union ms) (joinAll h (ms.map fun m => meet h a m)))
    (leftBound : ∀ {name bound b}, p bound b (meet h bound b) →
      p (.typeVar name bound) b (meet h bound b))
    (rightBound : ∀ {a name bound}, p a bound (meet h a bound) →
      p a (.typeVar name bound) (meet h a bound))
    (args : ∀ {name ps qs}, ps.length = qs.length → h.allCovariant name = true →
      (∀ x ∈ ps, ∀ y ∈ qs, p x y (meet h x y)) →
      p (.concrete name ps) (.concrete name qs) (.concrete name (List.zipWith (meet h) ps qs)))
    (nothing : ∀ a b, p a b .bottom) (a b : Ty) : p a b (meet h a b) := by
  induction total : a.size + b.size using Nat.strongRecOn generalizing a b with
  | ind n ih =>
      have smaller : ∀ x y : Ty, x.size + y.size < n → p x y (meet h x y) :=
        fun x y less => ih _ less x y rfl
      by_cases ab : isSubtype h a b = true
      · rw [meet.eq_def, if_pos ab]
        exact below ab
      by_cases ba : isSubtype h b a = true
      · rw [meet.eq_def, if_neg ab, if_pos ba]
        exact above ba
      rw [meet.eq_def, if_neg ab, if_neg ba]
      clear ab ba
      split
      · rw [meetEach_eq_map]
        refine left fun m hm => smaller m _ ?_
        have := Ty.size_lt_sizes hm
        simp only [Ty.size] at total
        omega
      · rw [meetWithEach_eq_map]
        refine right fun m hm => smaller _ m ?_
        have := Ty.size_lt_sizes hm
        simp only [Ty.size] at total
        omega
      · refine leftBound (smaller _ _ ?_)
        simp only [Ty.size] at total
        omega
      · refine rightBound (smaller _ _ ?_)
        simp only [Ty.size] at total
        omega
      · split
        · rename_i alike
          simp only [Bool.and_eq_true, beq_iff_eq] at alike
          obtain ⟨⟨rfl, length⟩, covariant⟩ := alike
          dsimp only
          split
          · exact nothing _ _
          · rw [meetArgs_eq_zipWith]
            refine args length covariant fun x hx y hy => smaller x y ?_
            have := Ty.size_lt_sizes hx
            have := Ty.size_lt_sizes hy
            simp only [Ty.size] at total
            omega
        · exact nothing _ _
      · exact nothing _ _

/-- How the meet of two ground types comes about. -/
inductive Meets (h : Hierarchy) : Ty → Ty → Ty → Prop where
  | below {a b : Ty} (order : isSubtype h a b = true) : Meets h a b a
  | above {a b : Ty} (order : isSubtype h b a = true) : Meets h a b b
  | left {ms : List Ty} {b : Ty} : Meets h (.union ms) b (joinAll h (ms.map fun m => meet h m b))
  | right {a : Ty} {ms : List Ty} :
      Meets h a (.union ms) (joinAll h (ms.map fun m => meet h a m))
  | args {name : String} {ps qs : List Ty} (length : ps.length = qs.length)
      (covariant : h.allCovariant name = true) :
      Meets h (.concrete name ps) (.concrete name qs)
        (.concrete name (List.zipWith (meet h) ps qs))
  | emptyArg {name : String} {ps qs : List Ty} (length : ps.length = qs.length)
      (covariant : h.allCovariant name = true)
      (empty : Ty.bottom ∈ List.zipWith (meet h) ps qs) :
      Meets h (.concrete name ps) (.concrete name qs) .bottom
  | apart {a b : Ty} (atomA : a.isAtom = true) (atomB : b.isAtom = true)
      (notBelow : isSubtype h a b = false) (notAbove : isSubtype h b a = false)
      (unmet : ∀ name ps qs, a = .concrete name ps → b = .concrete name qs →
        ps.length = qs.length → h.allCovariant name = false) :
      Meets h a b .bottom

theorem any_isBottom_iff : ms.any Ty.isBottom = true ↔ Ty.bottom ∈ ms := by
  rw [List.any_eq_true]
  constructor
  · rintro ⟨m, hm, bottom⟩
    cases m <;> simp_all [Ty.isBottom]
  · intro hm
    exact ⟨.bottom, hm, rfl⟩

theorem meets_concrete (notBelow : isSubtype h (.concrete name ps) (.concrete other qs) = false)
    (notAbove : isSubtype h (.concrete other qs) (.concrete name ps) = false) :
    Meets h (.concrete name ps) (.concrete other qs)
      (meet h (.concrete name ps) (.concrete other qs)) := by
  rw [meet.eq_def]
  simp only [notBelow, notAbove, Bool.false_eq_true, if_false, meetArgs_eq_zipWith]
  by_cases met : (name == other && ps.length == qs.length && h.allCovariant name) = true
  · rw [if_pos met]
    simp only [Bool.and_eq_true, beq_iff_eq] at met
    obtain ⟨⟨rfl, length⟩, covariant⟩ := met
    split
    case isTrue empty => exact .emptyArg length covariant (any_isBottom_iff.1 empty)
    case isFalse => exact .args length covariant
  · rw [if_neg met]
    refine .apart rfl rfl notBelow notAbove ?_
    rintro _ _ _ ⟨⟩ ⟨⟩ length
    simpa [length] using met

theorem meets_meet (ha : a.ground h = true) (hb : b.ground h = true) :
    Meets h a b (meet h a b) := by
  by_cases ab : isSubtype h a b = true
  · rw [meet.eq_def, if_pos ab]
    exact .below ab
  · by_cases ba : isSubtype h b a = true
    · rw [meet.eq_def, if_neg ab, if_pos ba]
      exact .above ba
    · rcases a.atom_cases with rfl | rfl | ⟨ms, rfl⟩ | atomA
      · exact absurd (isSubtype_any h b) ba
      · exact absurd (bottom_isSubtype h b) ab
      · rw [meet.eq_def, if_neg ab, if_neg ba]
        simp only [meetEach_eq_map]
        exact .left
      · rcases b.atom_cases with rfl | rfl | ⟨ms, rfl⟩ | atomB
        · exact absurd (isSubtype_any h a) ab
        · exact absurd (bottom_isSubtype h a) ba
        · have value : meet h a (.union ms) = joinAll h (ms.map fun m => meet h a m) := by
            rw [meet.eq_def, if_neg ab, if_neg ba, ← meetWithEach_eq_map]
            cases a <;> simp_all [Ty.isAtom, Ty.ground]
          rw [value]
          exact .right
        · rw [Bool.not_eq_true] at ab ba
          cases a with
          | concrete name ps =>
              cases b with
              | concrete other qs => exact meets_concrete ab ba
              | abstract other =>
                  have value : meet h (.concrete name ps) (.abstract other) = .bottom := by
                    rw [meet.eq_def]
                    simp [ab, ba]
                  rw [value]
                  exact .apart rfl rfl ab ba (by simp)
              | typeVar other bound => simp [Ty.ground] at hb
              | _ => simp [Ty.isAtom] at atomB
          | abstract name =>
              have value : meet h (.abstract name) b = .bottom := by
                rw [meet.eq_def]
                cases b <;> simp_all [Ty.isAtom, Ty.ground]
              rw [value]
              exact .apart rfl atomB ab ba (by simp)
          | typeVar name bound => simp [Ty.ground] at ha
          | _ => simp [Ty.isAtom] at atomA

/-! ## Lower bounds -/

/-- In a well-formed instance of a type with covariant parameters every argument is covariant. -/
theorem covariant_of_lt (fits : ps = [] ∨ ps.length = params.length)
    (covariant : ∀ param ∈ params, param.variance = .covariant) {i : Nat} (hi : i < ps.length) :
    params[i]?.any (·.variance == .covariant) = true := by
  rcases fits with rfl | length
  · simp at hi
  · rw [length] at hi
    simp [hi, covariant _ (List.getElem_mem hi)]

theorem zipWith_meet_below (length : ps.length = qs.length)
    (covariant : ∀ i, i < ps.length → params[i]?.any (·.variance == .covariant) = true)
    (lower : ∀ p ∈ ps, ∀ q ∈ qs,
      isSubtype h (meet h p q) p = true ∧ isSubtype h (meet h p q) q = true) :
    argsBelow h params (List.zipWith (meet h) ps qs) ps = true ∧
      argsBelow h params (List.zipWith (meet h) ps qs) qs = true := by
  have pairs : ∀ i (hp : i < ps.length) (hq : i < qs.length),
      isSubtype h (meet h ps[i] qs[i]) ps[i] = true ∧
        isSubtype h (meet h ps[i] qs[i]) qs[i] = true :=
    fun i hp hq => lower _ (List.getElem_mem hp) _ (List.getElem_mem hq)
  constructor
  · refine argsBelow_iff.2 ⟨by simp [length], fun i _ hp => ?_⟩
    rw [List.getElem_zipWith]
    exact ⟨(pairs i hp (length ▸ hp)).1, Or.inl (covariant i hp)⟩
  · refine argsBelow_iff.2 ⟨by simp [length], fun i _ hq => ?_⟩
    rw [List.getElem_zipWith]
    exact ⟨(pairs i (length ▸ hq) hq).2, Or.inl (covariant i (length ▸ hq))⟩

/-- Joining a lower bound with `b` for each member of a union gives one for the union. -/
theorem joinAll_map_lowerBound (ordered : Hierarchy.Ordered h.decls) {f : Ty → Ty}
    (hu : (Ty.union ms).ground h = true) (hb : b.ground h = true)
    (each : ∀ m ∈ ms, (f m).ground h = true ∧ isSubtype h (f m) m = true ∧
      isSubtype h (f m) b = true) :
    (joinAll h (ms.map f)).ground h = true ∧
      isSubtype h (joinAll h (ms.map f)) (.union ms) = true ∧
      isSubtype h (joinAll h (ms.map f)) b = true := by
  have ground : ∀ t ∈ ms.map f, t.ground h = true :=
    List.forall_mem_map.2 fun m hm => (each m hm).1
  refine ⟨ground_joinAll ground, ?_, ?_⟩
  · rw [joinAll_isSubtype_iff ordered ground hu, List.forall_mem_map]
    intro m hm
    exact isSubtype_trans ordered (each m hm).1 ((Ty.ground_union.1 hu).2 m hm) hu
      (each m hm).2.1 (isSubtype_union_of_mem hu hm)
  · rw [joinAll_isSubtype_iff ordered ground hb, List.forall_mem_map]
    exact fun m hm => (each m hm).2.2

/-- A meet is well-formed and lies below both types. -/
theorem meet_lowerBound (ordered : Hierarchy.Ordered h.decls) (ha : a.ground h = true)
    (hb : b.ground h = true) :
    (meet h a b).ground h = true ∧ isSubtype h (meet h a b) a = true ∧
      isSubtype h (meet h a b) b = true := by
  revert ha hb
  refine meet_induction (p := fun a b met => a.ground h = true → b.ground h = true →
    met.ground h = true ∧ isSubtype h met a = true ∧ isSubtype h met b = true)
    ?below ?above ?left ?right ?leftBound ?rightBound ?args ?nothing a b
  case below =>
    intro a b order ha _
    exact ⟨ha, isSubtype_refl h a, order⟩
  case above =>
    intro a b order _ hb
    exact ⟨hb, order, isSubtype_refl h b⟩
  case left =>
    intro ms b each ha hb
    exact joinAll_map_lowerBound ordered ha hb fun m hm =>
      each m hm ((Ty.ground_union.1 ha).2 m hm) hb
  case right =>
    intro a ms each ha hb
    rw [and_comm (a := isSubtype h _ a = true)]
    refine joinAll_map_lowerBound ordered hb ha fun m hm => ?_
    obtain ⟨ground, left, right⟩ := each m hm ha ((Ty.ground_union.1 hb).2 m hm)
    exact ⟨ground, right, left⟩
  case leftBound =>
    intro name bound b _ ha
    cases ha
  case rightBound =>
    intro a name bound _ _ hb
    cases hb
  case args =>
    intro name ps qs length covariant each ha hb
    obtain ⟨declared, fits, argsA⟩ := Ty.ground_concrete.1 ha
    obtain ⟨-, -, argsB⟩ := Ty.ground_concrete.1 hb
    have met : ∀ p ∈ ps, ∀ q ∈ qs, (meet h p q).ground h = true ∧
        isSubtype h (meet h p q) p = true ∧ isSubtype h (meet h p q) q = true :=
      fun p hp q hq => each p hp q hq (argsA p hp) (argsB q hq)
    have ground : (Ty.concrete name (List.zipWith (meet h) ps qs)).ground h = true := by
      refine Ty.ground_concrete.2 ⟨declared, ?_, ?_⟩
      · refine fits.imp (fun empty => ?_) (fun full => ?_)
        · simp [empty]
        · simp [← length, full]
      · intro t ht
        obtain ⟨p, hp, q, hq, rfl⟩ := exists_of_mem_zipWith_meet ht
        exact (met p hp q hq).1
    obtain ⟨left, right⟩ := zipWith_meet_below length
      (fun i hi => covariant_of_lt fits (allCovariant_iff.1 covariant) hi)
      (fun p hp q hq => (met p hp q hq).2)
    exact ⟨ground, (concrete_isSubtype_concrete_iff ground ha).2 ⟨rfl, Or.inr left⟩,
      (concrete_isSubtype_concrete_iff ground hb).2 ⟨rfl, Or.inr right⟩⟩
  case nothing =>
    intro a b _ _
    exact ⟨Ty.ground_bottom h, bottom_isSubtype h a, bottom_isSubtype h b⟩

/-! ## The greatest lower bound -/

theorem argsBelow_symm_of_invariant
    (invariant : ∀ param ∈ params, param.variance = .invariant)
    (below : argsBelow h params ps qs = true) : argsBelow h params qs ps = true := by
  obtain ⟨length, order⟩ := argsBelow_iff.1 below
  have never : ∀ i : Nat, ¬ params[i]?.any (·.variance == .covariant) = true := by
    intro i covariant
    cases found : params[i]? with
    | none => simp [found] at covariant
    | some param =>
        rw [found, Option.any_some, invariant param (List.mem_of_getElem? found)] at covariant
        cases covariant
  refine argsBelow_iff.2 ⟨length.symm, fun i hq hp => ?_⟩
  obtain ⟨pq, qp⟩ := order i hp hq
  exact ⟨qp.resolve_left (never i), Or.inr pq⟩

/-- Under uniform variance two instances of a type that have an instance in common are related,
    unless all parameters are covariant. -/
theorem related_of_common_instance (ordered : Hierarchy.Ordered h.decls)
    (uniform : h.UniformVariance) (ha : (Ty.concrete name ps).ground h = true)
    (hb : (Ty.concrete name qs).ground h = true) (hc : (Ty.concrete name rs).ground h = true)
    (ca : isSubtype h (.concrete name rs) (.concrete name ps) = true)
    (cb : isSubtype h (.concrete name rs) (.concrete name qs) = true) :
    isSubtype h (.concrete name ps) (.concrete name qs) = true ∨
      isSubtype h (.concrete name qs) (.concrete name ps) = true ∨
      (ps.length = qs.length ∧ h.allCovariant name = true) := by
  obtain ⟨-, left⟩ := (concrete_isSubtype_concrete_iff hc ha).1 ca
  obtain ⟨-, right⟩ := (concrete_isSubtype_concrete_iff hc hb).1 cb
  rcases left with rfl | left
  · exact Or.inr (Or.inl ((concrete_isSubtype_concrete_iff hb ha).2 ⟨rfl, Or.inl rfl⟩))
  · rcases right with rfl | right
    · exact Or.inl ((concrete_isSubtype_concrete_iff ha hb).2 ⟨rfl, Or.inl rfl⟩)
    · rcases uniform name (Ty.ground_concrete.1 ha).1 with covariant | invariant
      · refine Or.inr (Or.inr ⟨?_, allCovariant_iff.2 covariant⟩)
        exact (length_eq_of_argsBelow left).symm.trans (length_eq_of_argsBelow right)
      · -- the common instance is equivalent to both
        have ac : isSubtype h (.concrete name ps) (.concrete name rs) = true :=
          (concrete_isSubtype_concrete_iff ha hc).2
            ⟨rfl, Or.inr (argsBelow_symm_of_invariant invariant left)⟩
        exact Or.inl (isSubtype_trans ordered ha hc hb ac cb)

/-- Two types that have an atom in common are related, or instances of one covariant type. -/
theorem related_of_common_atom (ordered : Hierarchy.Ordered h.decls)
    (uniform : h.UniformVariance) (ha : a.ground h = true) (hb : b.ground h = true)
    (hc : c.ground h = true) (atomA : a.isAtom = true) (atomB : b.isAtom = true)
    (atomC : c.isAtom = true) (ca : isSubtype h c a = true) (cb : isSubtype h c b = true) :
    isSubtype h a b = true ∨ isSubtype h b a = true ∨
      ∃ name ps qs, a = .concrete name ps ∧ b = .concrete name qs ∧ ps.length = qs.length ∧
        h.allCovariant name = true := by
  cases a with
  | abstract upper =>
      rw [atom_isSubtype_abstract hc atomC ha] at ca
      cases b with
      | abstract other =>
          rw [atom_isSubtype_abstract hc atomC hb] at cb
          rw [abstract_isSubtype_abstract ha hb, abstract_isSubtype_abstract hb ha]
          rcases Hierarchy.isAncestor_total ordered ca cb with above | below
          · exact Or.inr (Or.inl above)
          · exact Or.inl below
      | concrete name qs =>
          obtain ⟨rs, rfl, -⟩ := atom_isSubtype_concrete hc atomC hb cb
          refine Or.inr (Or.inl ?_)
          rw [concrete_isSubtype_abstract hb ha]
          exact ca
      | typeVar name bound => simp [Ty.ground] at hb
      | _ => simp [Ty.isAtom] at atomB
  | concrete name ps =>
      obtain ⟨rs, rfl, -⟩ := atom_isSubtype_concrete hc atomC ha ca
      cases b with
      | abstract other =>
          rw [concrete_isSubtype_abstract hc hb] at cb
          refine Or.inl ?_
          rw [concrete_isSubtype_abstract ha hb]
          exact cb
      | concrete other qs =>
          obtain ⟨rfl, -⟩ := (concrete_isSubtype_concrete_iff hc hb).1 cb
          rcases related_of_common_instance ordered uniform ha hb hc ca cb with ab | ba | args
          · exact Or.inl ab
          · exact Or.inr (Or.inl ba)
          · exact Or.inr (Or.inr ⟨_, ps, qs, rfl, rfl, args⟩)
      | typeVar other bound => simp [Ty.ground] at hb
      | _ => simp [Ty.isAtom] at atomB
  | typeVar name bound => simp [Ty.ground] at ha
  | _ => simp [Ty.isAtom] at atomA

theorem bottomFree_of_mem_alternatives (free : t.bottomFree = true) {m : Ty}
    (hm : m ∈ t.alternatives) : m.bottomFree = true := by
  rcases t.atom_cases with rfl | rfl | ⟨ms, rfl⟩ | atom
  · rw [Ty.alternatives_any, List.mem_singleton] at hm
    exact hm ▸ free
  · simp at hm
  · rw [Ty.bottomFree, Ty.allBottomFree_iff] at free
    exact free m hm
  · rw [Ty.alternatives_of_isAtom atom, List.mem_singleton] at hm
    exact hm ▸ free

/-- The arguments of an instance that lies below two others lie below the meets of theirs. -/
theorem args_below_meets (length : ps.length = qs.length)
    (ha : (Ty.concrete name ps).ground h = true) (hb : (Ty.concrete name qs).ground h = true)
    (hc : (Ty.concrete name rs).ground h = true)
    (lower : ∀ p ∈ ps, ∀ q ∈ qs, ∀ r ∈ rs, isSubtype h r p = true → isSubtype h r q = true →
      isSubtype h r (meet h p q) = true)
    (ca : isSubtype h (.concrete name rs) (.concrete name ps) = true)
    (cb : isSubtype h (.concrete name rs) (.concrete name qs) = true) :
    ps = [] ∨ (rs.length = ps.length ∧
      ∀ i (hr : i < rs.length) (hm : i < (List.zipWith (meet h) ps qs).length),
        isSubtype h rs[i] (List.zipWith (meet h) ps qs)[i] = true) := by
  obtain ⟨-, left⟩ := (concrete_isSubtype_concrete_iff hc ha).1 ca
  obtain ⟨-, right⟩ := (concrete_isSubtype_concrete_iff hc hb).1 cb
  rcases left with empty | left
  · exact Or.inl empty
  · rcases right with rfl | right
    · exact Or.inl (List.length_eq_zero_iff.1 length)
    · obtain ⟨lengthA, belowA⟩ := argsBelow_iff.1 left
      obtain ⟨lengthB, belowB⟩ := argsBelow_iff.1 right
      refine Or.inr ⟨lengthA, fun i hr hm => ?_⟩
      have hp : i < ps.length := lengthA ▸ hr
      have hq : i < qs.length := lengthB ▸ hr
      rw [List.getElem_zipWith]
      exact lower _ (List.getElem_mem hp) _ (List.getElem_mem hq) _ (List.getElem_mem hr)
        (belowA i hr hp).1 (belowB i hr hq).1

/-- An atom below two types is below their meet, given this for the parts of the types. -/
theorem atom_isSubtype_meet (ordered : Hierarchy.Ordered h.decls) (uniform : h.UniformVariance)
    (ha : a.ground h = true) (hb : b.ground h = true) (hc : c.ground h = true)
    (atom : c.isAtom = true) (free : c.bottomFree = true)
    (smaller : ∀ x y z : Ty, x.size + y.size < a.size + b.size → x.ground h = true →
      y.ground h = true → z.ground h = true → z.bottomFree = true →
      isSubtype h z x = true → isSubtype h z y = true → isSubtype h z (meet h x y) = true)
    (ca : isSubtype h c a = true) (cb : isSubtype h c b = true) :
    isSubtype h c (meet h a b) = true := by
  have args : ∀ name ps qs rs, a = .concrete name ps → b = .concrete name qs →
      c = .concrete name rs → ∀ p ∈ ps, ∀ q ∈ qs, ∀ r ∈ rs, isSubtype h r p = true →
        isSubtype h r q = true → isSubtype h r (meet h p q) = true := by
    rintro name ps qs rs rfl rfl rfl p hp q hq r hr
    have := Ty.size_lt_sizes hp
    have := Ty.size_lt_sizes hq
    rw [Ty.bottomFree, Ty.allBottomFree_iff] at free
    exact smaller p q r (by simp only [Ty.size]; omega) ((Ty.ground_concrete.1 ha).2.2 p hp)
      ((Ty.ground_concrete.1 hb).2.2 q hq) ((Ty.ground_concrete.1 hc).2.2 r hr) (free r hr)
  have ground := (meet_lowerBound ordered ha hb).1
  have spec := meets_meet ha hb
  generalize meet h a b = met at ground spec ⊢
  cases spec with
  | below order => exact ca
  | above order => exact cb
  | @left ms b =>
      obtain ⟨m, hm, cm⟩ := (atom_isSubtype_union_iff hc atom ha).1 ca
      have members := (Ty.ground_union.1 ha).2
      have := Ty.size_lt_sizes hm
      have grounds : ∀ t ∈ ms.map fun m => meet h m b, t.ground h = true :=
        List.forall_mem_map.2 fun m hm => (meet_lowerBound ordered (members m hm) hb).1
      exact isSubtype_joinAll ordered grounds hc (List.mem_map_of_mem hm)
        (smaller m b c (by simp only [Ty.size]; omega) (members m hm) hb hc free cm cb)
  | @right a ms =>
      obtain ⟨m, hm, cm⟩ := (atom_isSubtype_union_iff hc atom hb).1 cb
      have members := (Ty.ground_union.1 hb).2
      have := Ty.size_lt_sizes hm
      have grounds : ∀ t ∈ ms.map fun m => meet h a m, t.ground h = true :=
        List.forall_mem_map.2 fun m hm => (meet_lowerBound ordered ha (members m hm)).1
      exact isSubtype_joinAll ordered grounds hc (List.mem_map_of_mem hm)
        (smaller a m c (by simp only [Ty.size]; omega) ha (members m hm) hc free ca cm)
  | @args name ps qs length covariant =>
      obtain ⟨rs, rfl, -⟩ := atom_isSubtype_concrete hc atom ha ca
      refine (concrete_isSubtype_concrete_iff hc ground).2 ⟨rfl, ?_⟩
      rcases args_below_meets length ha hb hc (args name ps qs rs rfl rfl rfl) ca cb with
        rfl | ⟨lengthR, below⟩
      · exact Or.inl rfl
      · refine Or.inr (argsBelow_iff.2 ⟨by simp [lengthR, ← length], fun i hr hm => ?_⟩)
        refine ⟨below i hr hm, Or.inl ?_⟩
        exact covariant_of_lt (Ty.ground_concrete.1 hc).2.1 (allCovariant_iff.1 covariant) hr
  | @emptyArg name ps qs length covariant empty =>
      obtain ⟨rs, rfl, -⟩ := atom_isSubtype_concrete hc atom ha ca
      obtain ⟨i, hm, bottom⟩ := List.mem_iff_getElem.1 empty
      rcases args_below_meets length ha hb hc (args name ps qs rs rfl rfl rfl) ca cb with
        rfl | ⟨lengthR, below⟩
      · simp at hm
      · -- the argument at this position would have to be the bottom
        have hr : i < rs.length := by
          rw [List.length_zipWith] at hm
          omega
        have lower := below i hr hm
        rw [bottom, isSubtype_bottom_iff ((Ty.ground_concrete.1 hc).2.2 _ (List.getElem_mem hr))]
          at lower
        rw [Ty.bottomFree, Ty.allBottomFree_iff] at free
        have inhabited := free _ (List.getElem_mem hr)
        rw [lower] at inhabited
        cases inhabited
  | apart atomA atomB notBelow notAbove unmet =>
      rcases related_of_common_atom ordered uniform ha hb hc atomA atomB atom ca cb with
        ab | ba | ⟨name, ps, qs, rfl, rfl, length, covariant⟩
      · rw [ab] at notBelow
        cases notBelow
      · rw [ba] at notAbove
        cases notAbove
      · rw [unmet name ps qs rfl rfl length] at covariant
        cases covariant

/-- Under uniform variance every inhabited type below two types is below their meet. -/
theorem isSubtype_meet (ordered : Hierarchy.Ordered h.decls) (uniform : h.UniformVariance)
    (ha : a.ground h = true) (hb : b.ground h = true) (hc : c.ground h = true)
    (free : c.bottomFree = true) (ca : isSubtype h c a = true) (cb : isSubtype h c b = true) :
    isSubtype h c (meet h a b) = true := by
  induction total : a.size + b.size using Nat.strongRecOn generalizing a b c with
  | ind n ih =>
      have ground := (meet_lowerBound ordered ha hb).1
      rw [isSubtype_iff_alternatives hc ground]
      intro k hk
      have groundK := Ty.ground_of_mem_alternatives hc hk
      have ka := (isSubtype_iff_alternatives hc ha).1 ca k hk
      have kb := (isSubtype_iff_alternatives hc hb).1 cb k hk
      rcases Ty.isAtom_of_mem_alternatives hc hk with atom | rfl
      · exact atom_isSubtype_meet ordered uniform ha hb groundK atom
          (bottomFree_of_mem_alternatives free hk)
          (fun x y z less hx hy hz free zx zy => ih _ (total ▸ less) hx hy hz free zx zy rfl) ka kb
      · -- only the top is above the top
        obtain rfl := (any_isSubtype_iff ha).1 ca
        obtain rfl := (any_isSubtype_iff hb).1 cb
        have same : meet h .any .any = .any := by
          rw [meet.eq_def]
          simp
        rw [same]
        exact isSubtype_any h k

/-! ## Mixed variance -/

/-- The instance of a type that has `u` in its covariant positions and `v` in the others. -/
def filled (h : Hierarchy) (name : String) (u v : Ty) : Ty :=
  .concrete name ((h.paramsOf name).map fun param =>
    if param.variance = .covariant then u else v)

section Filled

variable {u u' v v' : Ty}

theorem ground_filled (declared : h.hasConcrete name = true) (hu : u.ground h = true)
    (hv : v.ground h = true) : (filled h name u v).ground h = true := by
  refine Ty.ground_concrete.2 ⟨declared, Or.inr (by simp), List.forall_mem_map.2 ?_⟩
  intro param _
  split
  · exact hu
  · exact hv

theorem bottomFree_filled (hu : u.bottomFree = true) (hv : v.bottomFree = true) :
    (filled h name u v).bottomFree = true := by
  rw [filled, Ty.bottomFree, Ty.allBottomFree_iff, List.forall_mem_map]
  intro param _
  split
  · exact hu
  · exact hv

/-- Where both variances occur, filled instances compare in `u` and agree in `v`. -/
theorem filled_isSubtype_iff (ground : (filled h name u v).ground h = true)
    (ground' : (filled h name u' v').ground h = true)
    (covariant : ∃ param ∈ h.paramsOf name, param.variance = .covariant)
    (invariant : ∃ param ∈ h.paramsOf name, param.variance = .invariant) :
    isSubtype h (filled h name u v) (filled h name u' v') = true ↔
      isSubtype h u u' = true ∧ isSubtype h v v' = true ∧ isSubtype h v' v = true := by
  have several : (h.paramsOf name).map (fun param =>
      if param.variance = .covariant then u' else v') ≠ [] := by
    obtain ⟨param, member, -⟩ := covariant
    simpa using List.ne_nil_of_mem member
  rw [filled, filled, concrete_isSubtype_concrete_iff ground ground']
  simp only [several, false_or, true_and]
  rw [argsBelow_iff]
  simp only [List.length_map, List.getElem_map, true_and]
  constructor
  · intro all
    obtain ⟨param, member, covariant⟩ := covariant
    obtain ⟨param', member', invariant⟩ := invariant
    obtain ⟨i, hi, rfl⟩ := List.mem_iff_getElem.1 member
    obtain ⟨j, hj, rfl⟩ := List.mem_iff_getElem.1 member'
    have first := all i hi hi
    have second := all j hj hj
    rw [if_pos covariant, if_pos covariant] at first
    rw [List.getElem?_eq_getElem hj, Option.any_some, invariant] at second
    simp only [reduceCtorEq, if_false, beq_iff_eq, false_or] at second
    exact ⟨first.1, second⟩
  · rintro ⟨left, right, right'⟩ i hi _
    cases variance : (h.paramsOf name)[i].variance with
    | covariant => simp [variance, hi, left]
    | invariant => simp [right, right']

/-- Instances filled with unions do not compare, if a member of the first union is not below any
    member of the second. -/
theorem filled_unionOf_not_isSubtype (ordered : Hierarchy.Ordered h.decls)
    (declared : h.hasConcrete name = true)
    (covariant : ∃ param ∈ h.paramsOf name, param.variance = .covariant)
    (invariant : ∃ param ∈ h.paramsOf name, param.variance = .invariant) {us vs : List Ty}
    (hus : ∀ t ∈ us, t.ground h = true) (hvs : ∀ t ∈ vs, t.ground h = true) (known : u ∈ us)
    (atom : u.isAtom = true) (apart : ∀ t ∈ vs, ¬ isSubtype h u t = true) :
    isSubtype h (filled h name (Ty.unionOf us) .any) (filled h name (Ty.unionOf vs) .any) =
      false := by
  have groundAny := Ty.ground_any h
  have groundUs := Ty.ground_unionOf hus
  have groundVs := Ty.ground_unionOf hvs
  rw [Bool.eq_false_iff]
  intro below
  have unions := ((filled_isSubtype_iff (ground_filled declared groundUs groundAny)
    (ground_filled declared groundVs groundAny) covariant invariant).1 below).1
  have member := isSubtype_trans ordered (hus u known) groundUs groundVs
    (isSubtype_unionOf_of_mem hus known) unions
  obtain ⟨t, ht, below⟩ := (atom_isSubtype_unionOf_iff hvs (hus u known) atom).1 member
  exact apart t ht below

end Filled

theorem meet_eq_bottom_of_mixed (ha : (Ty.concrete name ps).ground h = true)
    (hb : (Ty.concrete name qs).ground h = true) (mixed : h.allCovariant name = false)
    (notBelow : isSubtype h (.concrete name ps) (.concrete name qs) = false)
    (notAbove : isSubtype h (.concrete name qs) (.concrete name ps) = false) :
    meet h (.concrete name ps) (.concrete name qs) = .bottom := by
  have spec := meets_meet ha hb
  generalize meet h (.concrete name ps) (.concrete name qs) = met at spec ⊢
  cases spec with
  | below order =>
      rw [order] at notBelow
      cases notBelow
  | above order =>
      rw [order] at notAbove
      cases notAbove
  | args length covariant =>
      rw [covariant] at mixed
      cases mixed
  | emptyArg => rfl
  | apart => rfl

/-- A type of mixed variance has two instances with a common instance and an empty meet: they
    are filled with unions that share one of three instances, which differ in an invariant
    position. -/
theorem exists_lost_instance (ordered : Hierarchy.Ordered h.decls)
    (declared : h.hasConcrete name = true)
    (covariant : ∃ param ∈ h.paramsOf name, param.variance = .covariant)
    (invariant : ∃ param ∈ h.paramsOf name, param.variance = .invariant) :
    ∃ a b c : Ty, a.ground h = true ∧ b.ground h = true ∧ c.ground h = true ∧
      c.bottomFree = true ∧ isSubtype h c a = true ∧ isSubtype h c b = true ∧
      meet h a b = .bottom := by
  let bare := Ty.concrete name []
  let x := filled h name .any .any
  let y := filled h name .any bare
  let z := filled h name .any x
  have groundAny := Ty.ground_any h
  have groundBare : bare.ground h = true := Ty.ground_concrete.2 ⟨declared, Or.inl rfl, by simp⟩
  have groundX : x.ground h = true := ground_filled declared groundAny groundAny
  have groundY : y.ground h = true := ground_filled declared groundAny groundBare
  have groundZ : z.ground h = true := ground_filled declared groundAny groundX
  have compare {u u' v v' : Ty} (hu : u.ground h = true) (hv : v.ground h = true)
      (hu' : u'.ground h = true) (hv' : v'.ground h = true) :=
    filled_isSubtype_iff (ground_filled declared hu hv) (ground_filled declared hu' hv')
      covariant invariant
  have bareBelow : ¬ isSubtype h bare x = true := by
    intro below
    obtain ⟨param, member, -⟩ := covariant
    rcases ((concrete_isSubtype_concrete_iff groundBare groundX).1 below).2 with empty | args
    · simp [List.map_eq_nil_iff.1 empty] at member
    · simp [List.length_eq_zero_iff.1 (by simpa using (length_eq_of_argsBelow args).symm)] at member
  -- neither of the other two is below one of the three that is not itself
  have yApart : ∀ t ∈ [x, z], ¬ isSubtype h y t = true := by
    refine forall_mem_pair (fun below => ?_) (fun below => ?_)
    · have top := ((compare groundAny groundBare groundAny groundAny).1 below).2.2
      exact absurd ((any_isSubtype_iff groundBare).1 top) (by simp [bare])
    · exact bareBelow ((compare groundAny groundBare groundAny groundX).1 below).2.1
  have zApart : ∀ t ∈ [x, y], ¬ isSubtype h z t = true := by
    refine forall_mem_pair (fun below => ?_) (fun below => ?_)
    · have top := ((compare groundAny groundX groundAny groundAny).1 below).2.2
      exact absurd ((any_isSubtype_iff groundX).1 top) (by simp [x, filled])
    · exact bareBelow ((compare groundAny groundX groundAny groundBare).1 below).2.2
  have both : ∀ t ∈ [x, y], t.ground h = true := forall_mem_pair groundX groundY
  have both' : ∀ t ∈ [x, z], t.ground h = true := forall_mem_pair groundX groundZ
  have groundXY := Ty.ground_unionOf both
  have groundXZ := Ty.ground_unionOf both'
  refine ⟨filled h name (Ty.unionOf [x, y]) .any, filled h name (Ty.unionOf [x, z]) .any,
    filled h name x .any, ground_filled declared groundXY groundAny,
    ground_filled declared groundXZ groundAny, ground_filled declared groundX groundAny,
    bottomFree_filled (bottomFree_filled rfl rfl) rfl, ?_, ?_, ?_⟩
  · exact (compare groundX groundAny groundXY groundAny).2
      ⟨isSubtype_unionOf_of_mem both (by simp), by simp, by simp⟩
  · exact (compare groundX groundAny groundXZ groundAny).2
      ⟨isSubtype_unionOf_of_mem both' (by simp), by simp, by simp⟩
  · refine meet_eq_bottom_of_mixed (ground_filled declared groundXY groundAny)
      (ground_filled declared groundXZ groundAny) ?_ ?_ ?_
    · obtain ⟨param, member, notCovariant⟩ := invariant
      rw [Bool.eq_false_iff]
      intro all
      rw [allCovariant_iff.1 all param member] at notCovariant
      cases notCovariant
    · exact filled_unionOf_not_isSubtype (u := y) ordered declared covariant invariant both both'
        (by simp) rfl yApart
    · exact filled_unionOf_not_isSubtype (u := z) ordered declared covariant invariant both' both
        (by simp) rfl zApart

theorem uniformVariance_of_decls
    (each : ∀ decl ∈ h.decls, (∀ param ∈ decl.params, param.variance = .covariant) ∨
      (∀ param ∈ decl.params, param.variance = .invariant)) : h.UniformVariance := by
  intro name _
  unfold Hierarchy.paramsOf
  cases found : h.find? name with
  | none => exact Or.inl (by simp)
  | some decl => exact each decl (List.mem_of_find?_eq_some found)

theorem uniformVariance_of_no_lost_instance (ordered : Hierarchy.Ordered h.decls)
    (kept : ∀ a b c, a.ground h = true → b.ground h = true → c.ground h = true →
      c.bottomFree = true → isSubtype h c a = true → isSubtype h c b = true →
      meet h a b ≠ .bottom) : h.UniformVariance := by
  intro name declared
  by_contra mixed
  push Not at mixed
  obtain ⟨⟨param, member, notCovariant⟩, ⟨other, member', notInvariant⟩⟩ := mixed
  have invariant : param.variance = .invariant := by
    cases variance : param.variance <;> simp_all
  have covariant : other.variance = .covariant := by
    cases variance : other.variance <;> simp_all
  obtain ⟨a, b, c, ha, hb, hc, free, ca, cb, empty⟩ := exists_lost_instance ordered declared
    ⟨other, member', covariant⟩ ⟨param, member, invariant⟩
  exact kept a b c ha hb hc free ca cb empty

/-! ## The meet of a hierarchy -/

/-- `meet` answers a lower bound. It is the greatest one, and answers the bottom only for types
    without a common inhabited subtype, if and only if no type mixes covariant and invariant
    parameters. -/
theorem meet_greatest_iff_uniformVariance (built : h.Declared) :
    (∀ a b, a.ground h = true → b.ground h = true →
      (meet h a b).ground h = true ∧ isSubtype h (meet h a b) a = true ∧
        isSubtype h (meet h a b) b = true) ∧
      ((∀ a b c, a.ground h = true → b.ground h = true → c.ground h = true →
        c.bottomFree = true → isSubtype h c a = true → isSubtype h c b = true →
        isSubtype h c (meet h a b) = true) ↔ h.UniformVariance) ∧
      ((∀ a b c, a.ground h = true → b.ground h = true → c.ground h = true →
        c.bottomFree = true → isSubtype h c a = true → isSubtype h c b = true →
        meet h a b ≠ .bottom) ↔ h.UniformVariance) := by
  have ordered := built.ordered
  have inhabited : ∀ c : Ty, c.ground h = true → c.bottomFree = true →
      ¬ isSubtype h c .bottom = true := by
    intro c hc free below
    rw [(isSubtype_bottom_iff hc).1 below] at free
    cases free
  refine ⟨fun a b => meet_lowerBound ordered, ⟨fun greatest => ?_, fun uniform => ?_⟩,
    ⟨uniformVariance_of_no_lost_instance ordered, fun uniform => ?_⟩⟩
  · refine uniformVariance_of_no_lost_instance ordered fun a b c ha hb hc free ca cb empty => ?_
    have below := greatest a b c ha hb hc free ca cb
    rw [empty] at below
    exact inhabited c hc free below
  · intro a b c ha hb hc free ca cb
    exact isSubtype_meet ordered uniform ha hb hc free ca cb
  · intro a b c ha hb hc free ca cb empty
    have below := isSubtype_meet ordered uniform ha hb hc free ca cb
    rw [empty] at below
    exact inhabited c hc free below

/-- Vectors of integers are what vectors of numbers and cells or vectors of integers and cells
    have in common. -/
theorem meet_greatest_iff_uniformVariance_vectors :
    numberHierarchy.Declared ∧ numberHierarchy.UniformVariance ∧
      isSubtype numberHierarchy (.vector .int)
        (meet numberHierarchy (.vector (.abstract "Number"))
          (.vector (.union [.concrete "Cell" [], .int]))) = true := by
  have uniform : numberHierarchy.UniformVariance :=
    uniformVariance_of_decls (by simp [numberHierarchy, TypeDecl.any])
  have greatest := (meet_greatest_iff_uniformVariance numberHierarchy_declared).2.1.2 uniform
  exact ⟨numberHierarchy_declared, uniform, greatest _ _ _ (by decide +kernel)
    (by decide +kernel) (by decide +kernel) (by decide +kernel) (by decide +kernel)
    (by decide +kernel)⟩

/-- Values with a tag: covariant in the value and invariant in the tag. -/
def taggedHierarchy : Hierarchy where
  decls :=
    [⟨"Tagged", false, some "Any", [⟨"V", .covariant, .any⟩, ⟨"Tag", .invariant, .any⟩],
        none, none⟩,
      ⟨"String", false, some "Any", [], none, none⟩,
      ⟨"Int", false, some "Number", [], none, none⟩,
      ⟨"Float", false, some "Number", [], none, none⟩,
      ⟨"Number", true, some "Any", [], none, none⟩,
      TypeDecl.any]

/-- A tagged integer is a tagged integer or string and a tagged integer or fraction, but the
    meet of these two is empty. -/
theorem tagged_meet_lost :
    isSubtype taggedHierarchy (.concrete "Tagged" [.int, .int])
        (.concrete "Tagged" [.union [.int, .string], .int]) = true ∧
      isSubtype taggedHierarchy (.concrete "Tagged" [.int, .int])
        (.concrete "Tagged" [.union [.float, .int], .int]) = true ∧
      meet taggedHierarchy (.concrete "Tagged" [.union [.int, .string], .int])
        (.concrete "Tagged" [.union [.float, .int], .int]) = .bottom := by
  refine ⟨by decide +kernel, by decide +kernel, ?_⟩
  exact meet_eq_bottom_of_mixed (by decide +kernel) (by decide +kernel) (by decide +kernel)
    (by decide +kernel) (by decide +kernel)

end Lattice

end Multimethod
