import Multimethod.Proofs.Lattice.Subtype
import Multimethod.Proofs.Text.Units

/-!
# Subtyping is a partial order

Over well-formed ground types `isSubtype` is reflexive and transitive. It is antisymmetric on
reduced types, in which no member of a union makes another one superfluous.
-/

namespace Multimethod.Lattice

/-- Whether no member of a list is a subtype of another one. -/
def isAntichain (h : Hierarchy) (ms : List Ty) : Bool :=
  ms.all fun m => ms.all fun n => m.same n || !isSubtype h m n

mutual

/-- Whether no union within a type has a member that is a subtype of another member. -/
def reduced (h : Hierarchy) : Ty → Bool
  | .concrete _ ps => allReduced h ps
  | .union ms => isAntichain h ms && allReduced h ms
  | _ => true

/-- Whether no union within the types of a list has such a member. -/
def allReduced (h : Hierarchy) : List Ty → Bool
  | [] => true
  | t :: ts => reduced h t && allReduced h ts

end

variable {h : Hierarchy} {a b c : Ty} {ps qs rs ms ns : List Ty} {params : List TypeParam}

theorem allReduced_iff : allReduced h ms = true ↔ ∀ m ∈ ms, reduced h m = true := by
  induction ms with
  | nil => simp [allReduced]
  | cons m ms ih => simp [allReduced, ih]

/-! ## Transitivity -/

theorem argsBelow_trans
    (trans : ∀ p ∈ ps, ∀ q ∈ qs, ∀ r ∈ rs,
      (isSubtype h p q = true → isSubtype h q r = true → isSubtype h p r = true) ∧
        (isSubtype h r q = true → isSubtype h q p = true → isSubtype h r p = true))
    (first : argsBelow h params ps qs = true) (second : argsBelow h params qs rs = true) :
    argsBelow h params ps rs = true := by
  obtain ⟨length, lower⟩ := argsBelow_iff.1 first
  obtain ⟨length', upper⟩ := argsBelow_iff.1 second
  refine argsBelow_iff.2 ⟨length.trans length', fun i hp hr => ?_⟩
  have hq : i < qs.length := length ▸ hp
  obtain ⟨pq, pq'⟩ := lower i hp hq
  obtain ⟨qr, qr'⟩ := upper i hq hr
  obtain ⟨upward, downward⟩ := trans _ (List.getElem_mem hp) _ (List.getElem_mem hq) _
    (List.getElem_mem hr)
  refine ⟨upward pq qr, ?_⟩
  rcases pq' with covariant | qp
  · exact Or.inl covariant
  · exact qr'.imp_right fun rq => downward rq qp

/-- What lies below a concrete type is an instance of the same name, and its arguments compare
    where the upper type has any. -/
theorem atom_isSubtype_concrete {name : String} (ha : a.ground h = true)
    (atom : a.isAtom = true) (hb : (Ty.concrete name qs).ground h = true)
    (below : isSubtype h a (.concrete name qs) = true) :
    ∃ ps, a = .concrete name ps ∧
      (qs = [] ∨ argsBelow h (h.paramsOf name) ps qs = true) := by
  cases a with
  | concrete other ps =>
      obtain ⟨rfl, args⟩ := (concrete_isSubtype_concrete_iff ha hb).1 below
      exact ⟨ps, rfl, args⟩
  | abstract other =>
      rw [not_abstract_isSubtype_concrete ha hb] at below
      cases below
  | typeVar other bound => simp [Ty.ground] at ha
  | _ => simp [Ty.isAtom] at atom

/-- What lies below an abstract type has it among its ancestors. -/
theorem atom_isSubtype_abstract {name : String} (ha : a.ground h = true)
    (atom : a.isAtom = true) (hb : (Ty.abstract name).ground h = true) :
    isSubtype h a (.abstract name) = h.isAncestor name a.word := by
  cases a with
  | concrete other ps => exact concrete_isSubtype_abstract ha hb
  | abstract other => exact abstract_isSubtype_abstract ha hb
  | typeVar other bound => simp [Ty.ground] at ha
  | _ => simp [Ty.isAtom] at atom

/-- Transitivity between types that are no unions, given it for their arguments. -/
theorem atom_isSubtype_trans (ordered : Hierarchy.Ordered h.decls)
    (ha : a.ground h = true) (hb : b.ground h = true) (hc : c.ground h = true)
    (atomA : a.isAtom = true) (atomB : b.isAtom = true) (atomC : c.isAtom = true)
    (smaller : ∀ x y z : Ty, x.size + y.size + z.size < a.size + b.size + c.size →
      x.ground h = true → y.ground h = true → z.ground h = true →
      isSubtype h x y = true → isSubtype h y z = true → isSubtype h x z = true)
    (ab : isSubtype h a b = true) (bc : isSubtype h b c = true) :
    isSubtype h a c = true := by
  cases c with
  | abstract top =>
      rw [atom_isSubtype_abstract hb atomB hc] at bc
      rw [atom_isSubtype_abstract ha atomA hc]
      cases b with
      | abstract middle =>
          rw [atom_isSubtype_abstract ha atomA hb] at ab
          exact Hierarchy.isAncestor_trans ordered bc ab
      | concrete middle qs =>
          obtain ⟨ps, rfl, -⟩ := atom_isSubtype_concrete ha atomA hb ab
          exact bc
      | typeVar other bound => simp [Ty.ground] at hb
      | _ => simp [Ty.isAtom] at atomB
  | concrete top rs =>
      obtain ⟨qs, rfl, second⟩ := atom_isSubtype_concrete hb atomB hc bc
      obtain ⟨ps, rfl, first⟩ := atom_isSubtype_concrete ha atomA hb ab
      refine (concrete_isSubtype_concrete_iff ha hc).2 ⟨rfl, ?_⟩
      rcases second with rfl | second
      · exact Or.inl rfl
      · rcases first with rfl | first
        · -- a bare type in the middle has only the bare type above it
          cases rs with
          | nil => exact Or.inl rfl
          | cons r rs => simpa using length_eq_of_argsBelow second
        · refine Or.inr (argsBelow_trans (fun p hp q hq r hr => ?_) first second)
          have groundP := (Ty.ground_concrete.1 ha).2.2 p hp
          have groundQ := (Ty.ground_concrete.1 hb).2.2 q hq
          have groundR := (Ty.ground_concrete.1 hc).2.2 r hr
          have := Ty.size_lt_sizes hp
          have := Ty.size_lt_sizes hq
          have := Ty.size_lt_sizes hr
          exact ⟨smaller p q r (by simp only [Ty.size]; omega) groundP groundQ groundR,
            smaller r q p (by simp only [Ty.size]; omega) groundR groundQ groundP⟩
  | typeVar other bound => simp [Ty.ground] at hc
  | _ => simp [Ty.isAtom] at atomC

/-- Subtyping is transitive. -/
theorem isSubtype_trans (ordered : Hierarchy.Ordered h.decls) (ha : a.ground h = true)
    (hb : b.ground h = true) (hc : c.ground h = true) (ab : isSubtype h a b = true)
    (bc : isSubtype h b c = true) : isSubtype h a c = true := by
  induction total : a.size + b.size + c.size using Nat.strongRecOn generalizing a b c with
  | ind n ih =>
      have smaller : ∀ x y z : Ty, x.size + y.size + z.size < n →
          x.ground h = true → y.ground h = true → z.ground h = true →
          isSubtype h x y = true → isSubtype h y z = true → isSubtype h x z = true :=
        fun x y z less hx hy hz xy yz => ih _ less hx hy hz xy yz rfl
      rcases a.atom_cases with rfl | rfl | ⟨ms, rfl⟩ | atomA
      · obtain rfl := (any_isSubtype_iff hb).1 ab
        exact bc
      · exact bottom_isSubtype h c
      · -- a union on the left: each of its members
        refine (union_isSubtype_iff ha hc).2 fun m member => ?_
        have := Ty.size_lt_sizes member
        exact smaller m b c (by simp only [Ty.size] at total; omega)
          ((Ty.ground_union.1 ha).2 m member) hb hc ((union_isSubtype_iff ha hb).1 ab m member) bc
      · rcases b.atom_cases with rfl | rfl | ⟨ns, rfl⟩ | atomB
        · obtain rfl := (any_isSubtype_iff hc).1 bc
          exact isSubtype_any h a
        · obtain rfl := (isSubtype_bottom_iff ha).1 ab
          exact bottom_isSubtype h c
        · -- a union in the middle: the member that lies above `a`
          obtain ⟨m, member, am⟩ := (atom_isSubtype_union_iff ha atomA hb).1 ab
          have := Ty.size_lt_sizes member
          exact smaller a m c (by simp only [Ty.size] at total; omega) ha
            ((Ty.ground_union.1 hb).2 m member) hc am ((union_isSubtype_iff hb hc).1 bc m member)
        · rcases c.atom_cases with rfl | rfl | ⟨ks, rfl⟩ | atomC
          · exact isSubtype_any h a
          · obtain rfl := (isSubtype_bottom_iff hb).1 bc
            exact ab
          · -- a union on the right: the member that lies above `b`
            obtain ⟨m, member, bm⟩ := (atom_isSubtype_union_iff hb atomB hc).1 bc
            have := Ty.size_lt_sizes member
            refine (atom_isSubtype_union_iff ha atomA hc).2 ⟨m, member, ?_⟩
            exact smaller a b m (by simp only [Ty.size] at total; omega) ha hb
              ((Ty.ground_union.1 hc).2 m member) ab bm
          · exact atom_isSubtype_trans ordered ha hb hc atomA atomB atomC
              (fun x y z less => smaller x y z (total ▸ less)) ab bc

/-! ## Antisymmetry -/

theorem isAntichain_iff (hms : ∀ m ∈ ms, m.ground h = true) :
    isAntichain h ms = true ↔ ∀ m ∈ ms, ∀ n ∈ ms, isSubtype h m n = true → m = n := by
  simp only [isAntichain, List.all_eq_true, Bool.or_eq_true, Bool.not_eq_true']
  constructor
  · intro apart m hm n hn below
    rcases apart m hm n hn with same | notBelow
    · exact (Ty.same_iff_of_ground (hms m hm) (hms n hn)).1 same
    · rw [below] at notBelow
      cases notBelow
  · intro apart m hm n hn
    cases below : isSubtype h m n with
    | false => exact Or.inr rfl
    | true => exact Or.inl (apart m hm n hn below ▸ Ty.same_refl m)

/-- Types in the form that the lattice operations keep: well-formed, ground and reduced. -/
structure Normal (h : Hierarchy) (t : Ty) : Prop where
  ground : t.ground h = true
  reduced : reduced h t = true

theorem Normal.member (normal : Normal h (.union ms)) {m : Ty} (hm : m ∈ ms) : Normal h m := by
  have hr := normal.reduced
  simp only [Lattice.reduced, Bool.and_eq_true] at hr
  exact ⟨(Ty.ground_union.1 normal.ground).2 m hm, allReduced_iff.1 hr.2 m hm⟩

theorem Normal.arg {name : String} (normal : Normal h (.concrete name ps)) {p : Ty}
    (hp : p ∈ ps) : Normal h p := by
  have hr := normal.reduced
  rw [Lattice.reduced, allReduced_iff] at hr
  exact ⟨(Ty.ground_concrete.1 normal.ground).2.2 p hp, hr p hp⟩

/-- Of two members of a normal union neither lies below the other. -/
theorem Normal.eq_of_isSubtype (normal : Normal h (.union ms)) {m n : Ty} (hm : m ∈ ms)
    (hn : n ∈ ms) (below : isSubtype h m n = true) : m = n := by
  have hr := normal.reduced
  simp only [Lattice.reduced, Bool.and_eq_true] at hr
  exact (isAntichain_iff (Ty.ground_union.1 normal.ground).2).1 hr.1 m hm n hn below

/-- Canonical unions with the same members list them in the same order. -/
theorem eq_of_mem_iff_of_canonical (hms : Ty.isCanonical ms = true)
    (hns : Ty.isCanonical ns = true) (same : ∀ t, t ∈ ms ↔ t ∈ ns) : ms = ns :=
  eq_of_mem_iff_of_ascending (Ty.isCanonical_iff.1 hms).2.2 (Ty.isCanonical_iff.1 hns).2.2 same

theorem args_antisymm
    (equal : ∀ p ∈ ps, ∀ q ∈ qs, isSubtype h p q = true → isSubtype h q p = true → p = q)
    (first : argsBelow h params ps qs = true) (second : argsBelow h params qs ps = true) :
    ps = qs := by
  obtain ⟨length, lower⟩ := argsBelow_iff.1 first
  obtain ⟨-, upper⟩ := argsBelow_iff.1 second
  refine List.ext_getElem length fun i hp hq => ?_
  exact equal _ (List.getElem_mem hp) _ (List.getElem_mem hq) (lower i hp hq).1 (upper i hq hp).1

/-- Members of one of two equivalent normal unions are members of the other: what lies above a
    member on the other side lies below a member on this side, which can only be the same. -/
theorem mem_of_equivalent_unions (ordered : Hierarchy.Ordered h.decls)
    (ha : Normal h (.union ms)) (hb : Normal h (.union ns))
    (equal : ∀ m ∈ ms, ∀ n ∈ ns, isSubtype h m n = true → isSubtype h n m = true → m = n)
    (ab : isSubtype h (.union ms) (.union ns) = true)
    (ba : isSubtype h (.union ns) (.union ms) = true) {m : Ty} (hm : m ∈ ms) : m ∈ ns := by
  have atoms := (Ty.isCanonical_iff.1 (Ty.ground_union.1 ha.ground).1).2.1
  have atoms' := (Ty.isCanonical_iff.1 (Ty.ground_union.1 hb.ground).1).2.1
  have below := (union_isSubtype_iff ha.ground hb.ground).1 ab m hm
  obtain ⟨n, hn, mn⟩ :=
    (atom_isSubtype_union_iff (ha.member hm).ground (atoms m hm) hb.ground).1 below
  have below' := (union_isSubtype_iff hb.ground ha.ground).1 ba n hn
  obtain ⟨k, hk, nk⟩ :=
    (atom_isSubtype_union_iff (hb.member hn).ground (atoms' n hn) ha.ground).1 below'
  have mk := isSubtype_trans ordered (ha.member hm).ground (hb.member hn).ground
    (ha.member hk).ground mn nk
  obtain rfl := ha.eq_of_isSubtype hm hk mk
  exact equal m hm n hn mn nk ▸ hn

/-- No normal union is equivalent to one of its possible members. -/
theorem not_equivalent_union_of_atom (ordered : Hierarchy.Ordered h.decls)
    (ha : a.ground h = true) (atom : a.isAtom = true) (hb : Normal h (.union ms))
    (ab : isSubtype h a (.union ms) = true) : isSubtype h (.union ms) a = false := by
  rw [Bool.eq_false_iff]
  intro ba
  obtain ⟨top, htop, below⟩ := (atom_isSubtype_union_iff ha atom hb.ground).1 ab
  have all_top : ∀ m ∈ ms, m = top := by
    intro m hm
    have ma := (union_isSubtype_iff hb.ground ha).1 ba m hm
    exact hb.eq_of_isSubtype hm htop
      (isSubtype_trans ordered (hb.member hm).ground ha (hb.member htop).ground ma below)
  obtain ⟨several, -, ascending⟩ := Ty.isCanonical_iff.1 (Ty.ground_union.1 hb.ground).1
  match ms with
  | [] => simp at several
  | [m] => simp at several
  | m :: n :: rest =>
      obtain rfl := all_top m (by simp)
      obtain rfl := all_top n (by simp)
      simp at ascending

/-- Antisymmetry between types that are no unions, given it for their arguments. -/
theorem atom_isSubtype_antisymm (ordered : Hierarchy.Ordered h.decls)
    (ha : a.ground h = true) (hb : b.ground h = true) (atomA : a.isAtom = true)
    (atomB : b.isAtom = true)
    (args : ∀ name ps qs, a = .concrete name ps → b = .concrete name qs →
      ∀ p ∈ ps, ∀ q ∈ qs, isSubtype h p q = true → isSubtype h q p = true → p = q)
    (ab : isSubtype h a b = true) (ba : isSubtype h b a = true) : a = b := by
  cases b with
  | concrete name qs =>
      obtain ⟨ps, rfl, first⟩ := atom_isSubtype_concrete ha atomA hb ab
      obtain ⟨-, second⟩ := (concrete_isSubtype_concrete_iff hb ha).1 ba
      suffices ps = qs by rw [this]
      rcases first with rfl | first
      · rcases second with rfl | second
        · rfl
        · exact (List.length_eq_zero_iff.1 (length_eq_of_argsBelow second).symm)
      · rcases second with rfl | second
        · exact (List.length_eq_zero_iff.1 (length_eq_of_argsBelow first).symm).symm
        · exact args_antisymm (args name ps qs rfl rfl) first second
  | abstract name =>
      cases a with
      | abstract other =>
          rw [abstract_isSubtype_abstract ha hb] at ab
          rw [abstract_isSubtype_abstract hb ha] at ba
          rw [Hierarchy.isAncestor_antisymm ordered ab ba]
      | concrete other ps =>
          rw [not_abstract_isSubtype_concrete hb ha] at ba
          cases ba
      | typeVar other bound => simp [Ty.ground] at ha
      | _ => simp [Ty.isAtom] at atomA
  | typeVar name bound => simp [Ty.ground] at hb
  | _ => simp [Ty.isAtom] at atomB

/-- Subtyping is antisymmetric on normal types. -/
theorem isSubtype_antisymm (ordered : Hierarchy.Ordered h.decls) (ha : Normal h a)
    (hb : Normal h b) (ab : isSubtype h a b = true) (ba : isSubtype h b a = true) : a = b := by
  induction total : a.size + b.size using Nat.strongRecOn generalizing a b with
  | ind n ih =>
      have smaller : ∀ x y : Ty, x.size + y.size < n → Normal h x → Normal h y →
          isSubtype h x y = true → isSubtype h y x = true → x = y :=
        fun x y less hx hy xy yx => ih _ less hx hy xy yx rfl
      rcases a.atom_cases with rfl | rfl | ⟨ms, rfl⟩ | atomA
      · exact ((any_isSubtype_iff hb.ground).1 ab).symm
      · exact ((isSubtype_bottom_iff hb.ground).1 ba).symm
      · rcases b.atom_cases with rfl | rfl | ⟨ns, rfl⟩ | atomB
        · exact (any_isSubtype_iff ha.ground).1 ba
        · exact (isSubtype_bottom_iff ha.ground).1 ab
        · have members : ∀ m ∈ ms, ∀ k ∈ ns,
              isSubtype h m k = true → isSubtype h k m = true → m = k := by
            intro m hm k hk
            have := Ty.size_lt_sizes hm
            have := Ty.size_lt_sizes hk
            exact smaller m k (by simp only [Ty.size] at total; omega) (ha.member hm)
              (hb.member hk)
          have same : ms = ns := by
            refine eq_of_mem_iff_of_canonical (Ty.ground_union.1 ha.ground).1
              (Ty.ground_union.1 hb.ground).1 fun t => ⟨fun ht => ?_, fun ht => ?_⟩
            · exact mem_of_equivalent_unions ordered ha hb members ab ba ht
            · exact mem_of_equivalent_unions ordered hb ha
                (fun k hk m hm km mk => (members m hm k hk mk km).symm) ba ab ht
          rw [same]
        · rw [not_equivalent_union_of_atom ordered hb.ground atomB ha ba] at ab
          cases ab
      · rcases b.atom_cases with rfl | rfl | ⟨ns, rfl⟩ | atomB
        · exact (any_isSubtype_iff ha.ground).1 ba
        · exact (isSubtype_bottom_iff ha.ground).1 ab
        · rw [not_equivalent_union_of_atom ordered ha.ground atomA hb ab] at ba
          cases ba
        · refine atom_isSubtype_antisymm ordered ha.ground hb.ground atomA atomB ?_ ab ba
          rintro name ps qs rfl rfl p hp q hq
          have := Ty.size_lt_sizes hp
          have := Ty.size_lt_sizes hq
          exact smaller p q (by simp only [Ty.size] at total; omega) (ha.arg hp) (hb.arg hq)

/-! ## The order of a hierarchy -/

/-- Subtyping orders the well-formed ground types of a hierarchy: it is reflexive and
    transitive, and two types without superfluous members that lie below each other have one
    id. -/
theorem isSubtype_partialOrder (built : h.Declared) :
    (∀ a, a.ground h = true → isSubtype h a a = true) ∧
      (∀ a b c, a.ground h = true → b.ground h = true → c.ground h = true →
        isSubtype h a b = true → isSubtype h b c = true → isSubtype h a c = true) ∧
      (∀ a b, a.ground h = true → b.ground h = true → reduced h a = true →
        reduced h b = true → isSubtype h a b = true → isSubtype h b a = true →
        a.id = b.id) := by
  refine ⟨fun a _ => isSubtype_refl h a, ?_, ?_⟩
  · intro a b c ha hb hc ab bc
    exact isSubtype_trans built.ordered ha hb hc ab bc
  · intro a b ha hb ra rb ab ba
    rw [isSubtype_antisymm built.ordered ⟨ha, ra⟩ ⟨hb, rb⟩ ab ba]

/-- Two kinds of numbers, vectors that are covariant in their elements, and cells that are
    invariant in their contents. -/
def numberHierarchy : Hierarchy where
  decls :=
    [⟨"Cell", false, some "Any", [⟨"T", .invariant, .any⟩], none, none⟩,
      ⟨"Vector", false, some "Any", [⟨"T", .covariant, .any⟩], none, none⟩,
      ⟨"Int", false, some "Number", [], none, none⟩,
      ⟨"Float", false, some "Number", [], none, none⟩,
      ⟨"Number", true, some "Any", [], none, none⟩,
      TypeDecl.any]

theorem numberHierarchy_declared : numberHierarchy.Declared :=
  Hierarchy.Declared.declareAll numberHierarchy.decls.dropLast.reverse .initial rfl

/-- A vector of integers is a vector of numbers, by way of the vector of both kinds. -/
theorem isSubtype_partialOrder_vectors :
    numberHierarchy.Declared ∧
      isSubtype numberHierarchy (.vector .int) (.vector (.union [.float, .int])) = true ∧
      isSubtype numberHierarchy (.vector (.union [.float, .int]))
        (.vector (.abstract "Number")) = true ∧
      isSubtype numberHierarchy (.vector .int) (.vector (.abstract "Number")) = true := by
  have order := isSubtype_partialOrder numberHierarchy_declared
  have lower : isSubtype numberHierarchy (.vector .int) (.vector (.union [.float, .int])) = true :=
    by decide +kernel
  have upper : isSubtype numberHierarchy (.vector (.union [.float, .int]))
      (.vector (.abstract "Number")) = true := by decide +kernel
  exact ⟨numberHierarchy_declared, lower, upper, order.2.1 _ _ _ (by decide +kernel)
    (by decide +kernel) (by decide +kernel) lower upper⟩

end Multimethod.Lattice
