import Multimethod.Proofs.Lattice.Order
import Multimethod.Proofs.Lattice.Structural
import Multimethod.Proofs.Ty.Substitution

/-!
# Erasure

Erasing the variables of a type gives a type without variables that stands above all its instances:
above what the type becomes when its variables are bound to types below their erased bounds. Unions
collapse and change their order in both types. That keeps one type for each id, so types with one id
have to be equal, as they are if the names in them stand apart from the marks of ids.
-/

namespace Multimethod.Lattice

variable {h : Hierarchy} {names : List String} {a b m t u : Ty} {ts us ms : List Ty}
  {bindings : Assoc Ty}

/-! ## Types that ids tell apart -/

/-- Whether a type without variables uses names as they are declared, and can be read back from its
    id. -/
structure Told (h : Hierarchy) (t : Ty) : Prop where
  admitted : t.Admitted h []
  readable : t.readable h.isAbstract = true

theorem told_union : Told h (.union ms) ↔ Ty.isCanonical ms = true ∧ ∀ m ∈ ms, Told h m := by
  constructor
  · rintro ⟨admitted, readable⟩
    obtain ⟨canonical, members⟩ := Ty.admitted_union.1 admitted
    exact ⟨canonical, fun m hm => ⟨members m hm, Ty.allReadable_iff.1 readable m hm⟩⟩
  · rintro ⟨canonical, members⟩
    exact ⟨.union canonical fun m hm => (members m hm).admitted,
      Ty.allReadable_iff.2 fun m hm => (members m hm).readable⟩

theorem Told.eq_of_same (ha : Told h a) (hb : Told h b) (same : a.same b = true) : a = b :=
  Ty.eq_of_id_eq ha.readable hb.readable (by simpa [Ty.same] using same)

theorem Told.of_mem_members (told : Told h t) (hm : m ∈ t.members) : Told h m := by
  cases t with
  | union ms => exact (told_union.1 told).2 m hm
  | _ =>
      cases List.mem_singleton.1 hm
      exact told

theorem Told.of_mem_flatten (told : ∀ t ∈ ts, Told h t) (hm : m ∈ Ty.flatten ts) : Told h m := by
  obtain ⟨t, ht, hm⟩ := List.mem_flatMap.1 hm
  exact (told t ht).of_mem_members hm

theorem isCanonical_of_told (told : ∀ t ∈ ts, Told h t) :
    ∀ ms, .union ms ∈ ts → Ty.isCanonical ms = true :=
  fun _ ht => (told_union.1 (told _ ht)).1

/-! ## The order and the members of unions -/

theorem unionOf_isSubtype_of_forall (below : ∀ m ∈ Ty.flatten ts, isSubtype h m b = true) :
    isSubtype h (Ty.unionOf ts) b = true :=
  Ty.unionOf_of_flatten (bottom_isSubtype h b) (fun _ => union_isSubtype_of_forall) below

/-- A type below an alternative of a type is below that type. -/
theorem isSubtype_of_alternative (closed : a.hasVars = false) (atom : a.isAtom = true)
    (hm : m ∈ t.alternatives) (below : isSubtype h a m = true) : isSubtype h a t = true := by
  cases t with
  | bottom => cases hm
  | union ms =>
      have found : belowSome h a ms = true := belowSome_iff.2 ⟨m, hm, below⟩
      rw [isSubtype.eq_def]
      cases a <;> simp_all [Ty.isAtom, Ty.hasVars]
  | _ =>
      cases List.mem_singleton.1 hm
      exact below

/-- The members of a type below another one are below that one. -/
theorem Told.isSubtype_of_mem_members (ha : Told h a) (hb : Told h b)
    (below : isSubtype h a b = true) (hm : m ∈ a.members) : isSubtype h m b = true := by
  cases a with
  | union ms =>
      obtain ⟨canonical, members⟩ := told_union.1 ha
      have atom := (Ty.isCanonical_iff.1 canonical).2.1 m hm
      have closed := (members m hm).admitted.hasVars_eq_false
      cases same : (Ty.union ms).same b with
      | true =>
          rw [← ha.eq_of_same hb same]
          exact isSubtype_of_alternative closed atom hm (isSubtype_refl h m)
      | false =>
          rw [isSubtype.eq_def, same] at below
          cases b with
          | any => exact isSubtype_any h m
          | _ => exact allBelow_iff.1 below m hm
  | _ =>
      cases List.mem_singleton.1 hm
      exact below

theorem Told.eq_any_of_isSubtype (hb : Told h b) (below : isSubtype h .any b = true) :
    b = .any := by
  cases same : Ty.any.same b with
  | true => exact (Told.eq_of_same ⟨.any, rfl⟩ hb same).symm
  | false =>
      rw [isSubtype.eq_def, same] at below
      cases b <;> first | rfl | cases below

/-- A member of a union is below an alternative of every type that it is below. -/
theorem Told.exists_alternative (ha : Told h a) (atom : a.isAtom = true) (hb : Told h b)
    (below : isSubtype h a b = true) : ∃ m ∈ b.alternatives, isSubtype h a m = true := by
  have closed := ha.admitted.hasVars_eq_false
  rcases b.atom_cases with rfl | rfl | ⟨ms, rfl⟩ | atom'
  · exact ⟨.any, List.mem_singleton_self _, below⟩
  · cases same : a.same .bottom with
    | true =>
        cases ha.eq_of_same hb same
        cases atom
    | false =>
        rw [isSubtype.eq_def, same] at below
        cases a <;> simp_all [Ty.isAtom, Ty.hasVars]
  · cases same : a.same (.union ms) with
    | true =>
        cases ha.eq_of_same hb same
        cases atom
    | false =>
        rw [isSubtype.eq_def, same] at below
        refine belowSome_iff.1 ?_
        cases a <;> simp_all [Ty.isAtom, Ty.hasVars]
  · exact ⟨b, Ty.alternatives_of_isAtom atom' ▸ List.mem_singleton_self b, below⟩

theorem Told.not_isSubtype_bottom (ha : Told h a) (atom : a.isAtom = true) :
    ¬ isSubtype h a .bottom = true := by
  intro below
  obtain ⟨m, hm, -⟩ := ha.exists_alternative atom ⟨.bottom, rfl⟩ below
  cases hm

/-- What is below a type of a list, and no union, is below the union of the list. -/
theorem Told.atom_isSubtype_unionOf (ha : Told h a) (atom : a.isAtom = true)
    (told : ∀ t ∈ ts, Told h t) (ht : t ∈ ts) (below : isSubtype h a t = true) :
    isSubtype h a (Ty.unionOf ts) = true := by
  by_cases top : Ty.any ∈ Ty.flatten ts
  · rw [Ty.unionOf_eq_any_iff.2 top]
    exact isSubtype_any h a
  · obtain ⟨m, hm, below⟩ := ha.exists_alternative atom (told t ht) below
    have notBottom : m ≠ .bottom := by
      rintro rfl
      exact ha.not_isSubtype_bottom atom below
    have inside : m ∈ Ty.flatten ts := (Ty.mem_flatten_iff notBottom).2 ⟨t, ht, hm⟩
    -- the type that is kept for the id of the alternative is the alternative itself
    have apart : ∀ t ∈ Ty.flatten ts, ∀ u ∈ Ty.flatten ts, t.id = u.id → t = u :=
      fun _ ht _ hu => Ty.eq_of_id_eq (Told.of_mem_flatten told ht).readable
        (Told.of_mem_flatten told hu).readable
    have kept : m ∈ Ty.distinct (Ty.flatten ts) :=
      (Ty.mem_distinctFrom apart).2 ⟨inside, by cases m <;> simp_all [Ty.isBottom], by simp⟩
    refine isSubtype_of_alternative ha.admitted.hasVars_eq_false atom ?_ below
    rw [Ty.alternatives_unionOf (isCanonical_of_told told) top]
    exact List.mem_mergeSort.2 kept

/-- The union of types each of which is below one of some others is below the union of those. -/
theorem unionOf_mono (told : ∀ t ∈ ts, Told h t) (told' : ∀ u ∈ us, Told h u)
    (below : ∀ t ∈ ts, ∃ u ∈ us, isSubtype h t u = true) :
    isSubtype h (Ty.unionOf ts) (Ty.unionOf us) = true := by
  refine unionOf_isSubtype_of_forall fun m hm => ?_
  obtain ⟨t, ht, inside⟩ := List.mem_flatMap.1 hm
  obtain ⟨u, hu, below⟩ := below t ht
  have below := (told t ht).isSubtype_of_mem_members (told' u hu) below inside
  rcases Ty.isAtom_of_mem_flatten (isCanonical_of_told told) hm with rfl | rfl | atom
  · cases (told' u hu).eq_any_of_isSubtype below
    rw [Ty.unionOf_eq_any_iff.2 (List.mem_flatMap.2 ⟨.any, hu, List.mem_singleton_self _⟩)]
    exact isSubtype_any h _
  · exact bottom_isSubtype h _
  · exact (Told.of_mem_flatten told hm).atom_isSubtype_unionOf atom told' hu below

/-! ## Instances and the erased type -/

/-- Plain names are kept by all operations on types that do not look at declarations. -/
theorem structural_plainNames : Structural ⟨[]⟩ fun t => t.plainNames = true where
  bottom := rfl
  any := rfl
  union ms := Ty.allPlainNames_iff
  args name ps plain := (Ty.plainNames_concrete.1 plain).2
  applied name ps qs plain args :=
    Ty.plainNames_concrete.2 ⟨(Ty.plainNames_concrete.1 plain).1, args⟩
  bound name bound plain := plain
  abstract name known := by cases known

theorem told_erase (admitted : t.Admitted h names) (plain : t.plainNames = true) :
    Told h t.erase := by
  have closed := Ty.hasVars_erase t
  have erased := Ty.admitted_erase admitted
  exact ⟨erased.of_closed closed, erased.readable closed (structural_plainNames.erase plain)⟩

/-- Whether bindings assign types without variables, and to every variable of a type one below its
    erased bound. -/
structure Instantiates (h : Hierarchy) (bindings : Assoc Ty) (t : Ty) : Prop where
  admitted : ∀ entry ∈ bindings, entry.2.Admitted h []
  below : ∀ v ∈ t.vars, ∃ u, bindings.find? v.name = some u ∧ isSubtype h u v.bound.erase = true

theorem Instantiates.member (instantiates : Instantiates h bindings (.union ms)) (hm : m ∈ ms) :
    Instantiates h bindings m where
  admitted := instantiates.admitted
  below v mentioned := instantiates.below v (Ty.mem_allVars.2 ⟨m, hm, mentioned⟩)

/-- An instance of an admitted type is an admitted type without variables. -/
theorem Instantiates.admitted_substitute (instantiates : Instantiates h bindings t)
    (admitted : t.Admitted h names) : (t.substitute bindings).Admitted h [] := by
  have instantiated := Ty.admitted_substitute
    (fun entry member => (instantiates.admitted entry member).mono (List.nil_subset names)) admitted
  refine instantiated.of_closed (Ty.hasVars_substitute (fun v mentioned => ?_)
    fun entry member => (instantiates.admitted entry member).hasVars_eq_false)
  obtain ⟨u, found, -⟩ := instantiates.below v mentioned
  rw [found]
  rfl

theorem Instantiates.told_substitute (instantiates : Instantiates h bindings t)
    (admitted : t.Admitted h names) (plain : t.plainNames = true)
    (plain' : ∀ entry ∈ bindings, entry.2.plainNames = true) :
    Told h (t.substitute bindings) := by
  have instantiated := instantiates.admitted_substitute admitted
  exact ⟨instantiated, instantiated.readable instantiated.hasVars_eq_false
    (structural_plainNames.substitute plain' plain)⟩

/-- An instance of a type is below the erased type. -/
theorem Instantiates.isSubtype_erase (instantiates : Instantiates h bindings t)
    (admitted : t.Admitted h names) (plain : t.plainNames = true)
    (plain' : ∀ entry ∈ bindings, entry.2.plainNames = true) :
    isSubtype h (t.substitute bindings) t.erase = true := by
  induction admitted with
  | any => exact isSubtype_any h _
  | bottom => exact bottom_isSubtype h _
  | @concrete name ps _ found isConcrete fits args =>
      have admitted := Ty.Admitted.concrete found isConcrete fits args
      cases vars : Ty.anyHasVars ps with
      | true =>
          rw [Ty.substitute, Ty.erase, if_pos vars]
          exact isSubtype_bare h name _
      | false =>
          rw [Ty.substitute_of_closed bindings admitted vars, Ty.erase_of_closed admitted vars]
          exact isSubtype_refl h _
  | abstract => exact isSubtype_refl h _
  | typeVar =>
      obtain ⟨u, found, below⟩ := instantiates.below _ (List.mem_singleton_self _)
      rw [Ty.substitute, found]
      exact below
  | @union ms canonical members ih =>
      rw [Ty.plainNames, Ty.allPlainNames_iff] at plain
      rw [Ty.substitute, Ty.substituteAll_eq_map, Ty.erase, Ty.eraseAll_eq_map]
      refine unionOf_mono (List.forall_mem_map.2 fun m hm => ?_)
        (List.forall_mem_map.2 fun m hm => told_erase (members m hm) (plain m hm))
        (List.forall_mem_map.2 fun m hm => ⟨m.erase, List.mem_map_of_mem hm, ?_⟩)
      · exact (instantiates.member hm).told_substitute (members m hm) (plain m hm) plain'
      · exact ih m hm (instantiates.member hm) (plain m hm)

/-- The erased type of an admitted type has no variables and is its own erased type. Instances of
    the type have no variables either, and are below the erased type if all names of types are
    plain. -/
theorem erase_above_instances (admitted : t.Admitted h names) :
    (t.erase.Admitted h [] ∧ t.erase.hasVars = false) ∧ t.erase.erase = t.erase ∧
      ∀ bindings, Instantiates h bindings t →
        ((t.substitute bindings).Admitted h [] ∧ (t.substitute bindings).hasVars = false) ∧
          (t.plainNames = true → (∀ entry ∈ bindings, entry.2.plainNames = true) →
            isSubtype h (t.substitute bindings) t.erase = true) := by
  have closed := Ty.hasVars_erase t
  have erased := Ty.admitted_erase admitted
  refine ⟨⟨erased.of_closed closed, closed⟩, Ty.erase_of_closed erased closed,
    fun bindings instantiates => ?_⟩
  have instantiated := instantiates.admitted_substitute admitted
  exact ⟨⟨instantiated, instantiated.hasVars_eq_false⟩, instantiates.isSubtype_erase admitted⟩

/-- A number or a vector of such numbers, by a variable that is bounded through another one. -/
def numberOrVector : Ty :=
  .union [.typeVar "T" (.abstract "Number"),
    .typeVar "U" (.vector (.typeVar "T" (.abstract "Number")))]

theorem admitted_numberOrVector : numberOrVector.Admitted numberHierarchy ["T", "U"] := by
  have number : (Ty.typeVar "T" (.abstract "Number")).Admitted numberHierarchy ["T", "U"] :=
    .typeVar (by simp) (.abstract rfl rfl)
  have vector : (Ty.vector (.typeVar "T" (.abstract "Number"))).Admitted numberHierarchy
      ["T", "U"] :=
    .concrete rfl rfl (.inr rfl) (by simp [number])
  refine .union (by decide +kernel) ?_
  exact List.forall_mem_cons.2 ⟨number, by simpa using .typeVar (by simp) vector⟩

theorem erase_above_instances_vectors :
    numberOrVector.Admitted numberHierarchy ["T", "U"] ∧
      Instantiates numberHierarchy [("T", .int), ("U", .vector .int)] numberOrVector ∧
      isSubtype numberHierarchy (numberOrVector.substitute [("T", .int), ("U", .vector .int)])
        numberOrVector.erase = true := by
  have int : Ty.int.Admitted numberHierarchy [] := .concrete rfl rfl (.inl rfl) (by simp)
  have vector : (Ty.vector .int).Admitted numberHierarchy [] :=
    .concrete rfl rfl (.inr rfl) (by simp [int])
  have instantiates :
      Instantiates numberHierarchy [("T", .int), ("U", .vector .int)] numberOrVector :=
    { admitted := by simp [int, vector]
      below := List.forall_mem_cons.2 ⟨⟨.int, rfl, by decide +kernel⟩,
        List.forall_mem_cons.2
        ⟨⟨.vector .int, rfl, by decide +kernel⟩, by simp [Ty.allVars]⟩⟩ }
  exact ⟨admitted_numberOrVector, instantiates,
    ((erase_above_instances admitted_numberOrVector).2.2 _ instantiates).2 (by decide)
      (by decide)⟩

/-- Boxes of numbers, and a type whose name is the id of one of them. -/
def bracedHierarchy : Hierarchy where
  decls :=
    [⟨"Box\x7bNumber\x7d", false, some "Any", [], none, none⟩,
      ⟨"Box", false, some "Any", [⟨"T", .covariant, .any⟩], none, none⟩,
      ⟨"Whole", false, some "Number", [], none, none⟩,
      ⟨"Number", true, some "Any", [], none, none⟩,
      TypeDecl.any]

/-- The type whose name is an id. -/
def braced : Ty := .concrete "Box\x7bNumber\x7d" []

/-- A union of two variables whose bounds have one id. -/
def bracedUnion : Ty :=
  .union [.typeVar "T" braced, .typeVar "U" (.concrete "Box" [.abstract "Number"])]

/-- Types below the bounds of the variables, with different ids. -/
def bracedBindings : Assoc Ty :=
  [("T", braced), ("U", .concrete "Box" [.concrete "Whole" []])]

/-- Erasure keeps one of two types with one id, and instances of the other are not below it. -/
theorem erase_not_above_braced :
    bracedHierarchy.Declared ∧ bracedUnion.Admitted bracedHierarchy ["T", "U"] ∧
      Instantiates bracedHierarchy bracedBindings bracedUnion ∧
      isSubtype bracedHierarchy (bracedUnion.substitute bracedBindings) bracedUnion.erase =
        false := by
  have admitted : ∀ names, braced.Admitted bracedHierarchy names :=
    fun names => .concrete rfl rfl (.inl rfl) (by simp)
  have box : ∀ {names} {t : Ty}, t.Admitted bracedHierarchy names →
      (Ty.concrete "Box" [t]).Admitted bracedHierarchy names :=
    fun inner => .concrete rfl rfl (.inr rfl) (by simpa using inner)
  refine ⟨.declareAll bracedHierarchy.decls.dropLast.reverse .initial rfl, ?_, ⟨?_, ?_⟩, ?_⟩
  · refine .union (by decide +kernel) (List.forall_mem_cons.2
      ⟨.typeVar (by simp) (admitted _), List.forall_mem_cons.2
        ⟨.typeVar (by simp) (box (.abstract rfl rfl)), by simp⟩⟩)
  · exact List.forall_mem_cons.2 ⟨admitted _, List.forall_mem_cons.2
      ⟨box (.concrete rfl rfl (.inl rfl) (by simp)), by simp⟩⟩
  · exact List.forall_mem_cons.2 ⟨⟨braced, rfl, by decide +kernel⟩, List.forall_mem_cons.2
      ⟨⟨.concrete "Box" [.concrete "Whole" []], rfl, by decide +kernel⟩, by simp [Ty.allVars]⟩⟩
  · have substituted : bracedUnion.substitute bracedBindings =
        .union [braced, .concrete "Box" [.concrete "Whole" []]] := by
      change Ty.unionOf [braced, .concrete "Box" [.concrete "Whole" []]] = _
      exact Ty.unionOf_of_isCanonical (by decide +kernel)
    have erased : bracedUnion.erase = braced := rfl
    rw [substituted, erased]
    decide +kernel

end Multimethod.Lattice
