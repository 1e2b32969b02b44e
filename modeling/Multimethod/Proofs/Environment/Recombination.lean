import Multimethod.Proofs.Environment.Narrowing
import Multimethod.Proofs.Environment.Order

/-!
# Where the arms of a condition meet again

Each arm of a condition leaves of the type of a name a part, and where the arms meet again the name
has its whole type back. For a single test this is a law of `meet` and `subtract`. Behind `&&` and
`||` three paths meet, of which two come from one arm of the left operand. A name that is bound
further out may be bound innermost on some of them only, and then the merge forgets what the others
know of it; but on those that remain the name has its whole type.
-/

namespace Multimethod

namespace Lattice

variable {h : Hierarchy} {a b c m : Ty} {ms : List Ty}

/-- A member of a union that lies below another type lies below what both have in common. -/
theorem member_isSubtype_meet (ordered : Hierarchy.Ordered h.decls)
    (hu : (Ty.union ms).ground h = true) (hb : b.ground h = true) (hm : m ∈ ms)
    (below : isSubtype h m b = true) : isSubtype h m (meet h (.union ms) b) = true := by
  have members := (Ty.ground_union.1 hu).2
  by_cases ub : isSubtype h (.union ms) b = true
  · rw [meet.eq_def, if_pos ub]
    exact isSubtype_union_of_mem hu hm
  · by_cases bu : isSubtype h b (.union ms) = true
    · rw [meet.eq_def, if_neg ub, if_pos bu]
      exact below
    · rw [meet.eq_def, if_neg ub, if_neg bu]
      simp only [meetEach_eq_map]
      have whole : meet h m b = m := by rw [meet.eq_def, if_pos below]
      have ground : ∀ t ∈ ms.map (fun m => meet h m b), t.ground h = true :=
        List.forall_mem_map.2 fun m hm => (meet_lowerBound ordered (members m hm) hb).1
      exact isSubtype_joinAll ordered ground (members m hm) (List.mem_map.2 ⟨m, hm, whole⟩)
        (isSubtype_refl h m)

/-- What lies above both parts of a type lies above the type. -/
theorem isSubtype_of_parts (ordered : Hierarchy.Ordered h.decls) (ha : a.ground h = true)
    (hb : b.ground h = true) (hc : c.ground h = true) (inside : isSubtype h (meet h a b) c = true)
    (outside : isSubtype h (subtract h a b) c = true) : isSubtype h a c = true := by
  by_cases ab : isSubtype h a b = true
  · rwa [meet.eq_def, if_pos ab] at inside
  · by_cases union : ∃ ms, a = .union ms
    · obtain ⟨ms, rfl⟩ := union
      have members := (Ty.ground_union.1 ha).2
      have groundMeet := (meet_lowerBound ordered ha hb).1
      have groundRest := (subtract_isSubtype ordered ha b).1
      refine (union_isSubtype_iff ha hc).2 fun m hm => ?_
      cases mb : isSubtype h m b with
      | true =>
          exact isSubtype_trans ordered (members m hm) groundMeet hc
            (member_isSubtype_meet ordered ha hb hm mb) inside
      | false =>
          have left := isSubtype_subtract ordered ha hb (members m hm)
            (not_union_of_isAtom (isAtom_of_mem_union ha hm)) (isSubtype_union_of_mem ha hm) mb
          exact isSubtype_trans ordered (members m hm) groundRest hc left outside
    · rwa [subtract_of_not_union (fun ms equal => union ⟨ms, equal⟩) ab] at outside

end Lattice

namespace Environment

open Multimethod.Lattice

variable {h : Hierarchy} {base env a b q : Environment} {name : String} {c : Ty}
  {paths further : List Environment}

/-- Whether no visible name holds the bottom. -/
def Inhabited (env : Environment) : Prop :=
  ∀ name x, env.lookup name = some x → x.type.isBottom = false

/-! ## Environments below another one -/

/-- Whether an environment sees the names that `base` sees, each with a well-formed type below the
    one that it has there. It stands inside the same scopes and binds innermost at least what `base`
    does. -/
structure LoweredFrom (h : Hierarchy) (base env : Environment) : Prop where
  parent : env.parent = base.parent
  distinct : env.bindings.Distinct
  kept : ∀ name, env.bindings.find? name = none → base.bindings.find? name = none
  seen : ∀ name, (env.lookup name).isSome = true ↔ (base.lookup name).isSome = true
  types : ∀ name x y, base.lookup name = some x → env.lookup name = some y →
    y.type.ground h = true ∧ isSubtype h y.type x.type = true

theorem LoweredFrom.refl (distinct : env.bindings.Distinct) (ground : env.Ground h) :
    LoweredFrom h env env where
  parent := rfl
  distinct := distinct
  kept _ unbound := unbound
  seen _ := Iff.rfl
  types name x y here there := by
    rw [here] at there
    cases there
    exact ⟨ground name x here, isSubtype_refl h _⟩

theorem LoweredFrom.trans (ordered : Hierarchy.Ordered h.decls) (groundBase : base.Ground h)
    (first : LoweredFrom h base a) (second : LoweredFrom h a b) : LoweredFrom h base b where
  parent := second.parent.trans first.parent
  distinct := second.distinct
  kept name unbound := first.kept name (second.kept name unbound)
  seen name := (second.seen name).trans (first.seen name)
  types name x z seen there := by
    obtain ⟨y, here⟩ := Option.isSome_iff_exists.1
      ((first.seen name).2 (Option.isSome_iff_exists.2 ⟨x, seen⟩))
    obtain ⟨groundY, below⟩ := first.types name x y seen here
    obtain ⟨groundZ, below'⟩ := second.types name y z here there
    exact ⟨groundZ, isSubtype_trans ordered groundZ groundY (groundBase name x seen) below' below⟩

theorem LoweredFrom.exists_below (lowered : LoweredFrom h base env) {x : Binding}
    (seen : base.lookup name = some x) :
    ∃ y, env.lookup name = some y ∧ isSubtype h y.type x.type = true := by
  obtain ⟨y, found⟩ := Option.isSome_iff_exists.1
    ((lowered.seen name).2 (Option.isSome_iff_exists.2 ⟨x, seen⟩))
  exact ⟨y, found, (lowered.types name x y seen found).2⟩

theorem LoweredFrom.ground (lowered : LoweredFrom h base env) : env.Ground h := by
  intro name y found
  obtain ⟨x, seen⟩ := Option.isSome_iff_exists.1
    ((lowered.seen name).1 (Option.isSome_iff_exists.2 ⟨y, found⟩))
  exact (lowered.types name x y seen found).1

theorem LoweredFrom.groundHere (lowered : LoweredFrom h base env) : env.GroundHere h where
  distinct := lowered.distinct
  ground name t bound := by
    obtain ⟨x, found, rfl⟩ := typeHere?_eq_some.1 bound
    exact lowered.ground name x (lookup_of_find? found)

/-- A name that an environment does not bind innermost is what it is in the base. -/
theorem LoweredFrom.lookup_eq_of_not_bound (lowered : LoweredFrom h base env)
    (unbound : env.bindings.find? name = none) : env.lookup name = base.lookup name := by
  rw [lookup_of_not_bound unbound, lookup_of_not_bound (lowered.kept name unbound), lowered.parent]

theorem LoweredFrom.update (ordered : Hierarchy.Ordered h.decls) (groundBase : base.Ground h)
    (lowered : LoweredFrom h base env) {x : Binding} (found : env.lookup name = some x) {type : Ty}
    (typed : type.ground h = true) (below : isSubtype h type x.type = true) (kind : BindingKind) :
    LoweredFrom h base (env.update name type kind none) := by
  obtain ⟨bound, here, equal⟩ := lookup_update_self env name type kind
  refine ⟨lowered.parent, lowered.distinct.insert _ _, ?_, fun other => ?_, ?_⟩
  · intro other unbound
    rw [Environment.update, Assoc.find?_insert] at unbound
    split at unbound
    · cases unbound
    · exact lowered.kept other unbound
  · rw [← lowered.seen other]
    by_cases same : name = other
    · rw [← same, here, found]
      simp
    · rw [lookup_update_of_ne env type kind same]
  · intro other y z seen there
    by_cases same : name = other
    · subst same
      rw [here] at there
      cases there
      obtain ⟨known, above⟩ := lowered.types name y x seen found
      rw [equal]
      exact ⟨typed, isSubtype_trans ordered typed known (groundBase name y seen) below above⟩
    · rw [lookup_update_of_ne env type kind same] at there
      exact lowered.types other y z seen there

/-- What a name is in a merge: what it is on one path, or the join of what it is on both. -/
theorem lookup_merge (a : Environment) (distinct : b.bindings.Distinct) (name : String) :
    (merge h a b).lookup name = a.lookup name ∨ (merge h a b).lookup name = b.lookup name ∨
      ∃ x y, a.lookup name = some x ∧ b.lookup name = some y ∧
        (merge h a b).lookup name = addedBinding h (some x) (some x) y := by
  have merged := find?_merge h a distinct name
  rw [lookup_eq (merge h a b)]
  cases there : b.bindings.find? name with
  | none =>
      rw [there] at merged
      exact .inl (by rw [merged, lookup_eq a]; rfl)
  | some y =>
      rw [there] at merged
      cases here : a.bindings.find? name with
      | none =>
          rw [here] at merged
          exact .inr (.inl (by rw [merged, lookup_of_find? there]; rfl))
      | some x =>
          rw [here] at merged
          obtain ⟨z, added⟩ := exists_addedBinding h x y
          refine .inr (.inr ⟨x, y, lookup_of_find? here, lookup_of_find? there, ?_⟩)
          rw [added, merged.trans added]
          rfl

/-- The joined type of a name lies below what its types on both paths lie below. -/
theorem addedBinding_isSubtype (ordered : Hierarchy.Ordered h.decls) {x y z : Binding}
    (hx : x.type.ground h = true) (hy : y.type.ground h = true) (hc : c.ground h = true)
    (left : isSubtype h x.type c = true) (right : isSubtype h y.type c = true)
    (added : addedBinding h (some x) (some x) y = some z) : isSubtype h z.type c = true := by
  unfold addedBinding at added
  dsimp only at added
  split at added
  · cases added
    exact left
  · cases added
    exact join_isSubtype ordered hx hy hc left right

theorem LoweredFrom.merge (ordered : Hierarchy.Ordered h.decls) (groundBase : base.Ground h)
    (first : LoweredFrom h base a) (second : LoweredFrom h base b) :
    LoweredFrom h base (merge h a b) := by
  refine ⟨first.parent, distinct_merge h first.distinct b, ?_, fun name => ?_, ?_⟩
  · intro name unbound
    exact first.kept name ((find?_merge_eq_none second.distinct).1 unbound).1
  · rcases lookup_merge (h := h) a second.distinct name with same | same | ⟨x, y, here, _, same⟩
    · rw [same, first.seen]
    · rw [same, second.seen]
    · obtain ⟨z, added⟩ := exists_addedBinding h x y
      rw [same, added, ← first.seen, here]
      simp
  · intro name x z seen found
    rcases lookup_merge (h := h) a second.distinct name with same | same | ⟨y, y', here, there, same⟩
    · exact first.types name x z seen (same ▸ found)
    · exact second.types name x z seen (same ▸ found)
    · obtain ⟨groundY, belowY⟩ := first.types name x y seen here
      obtain ⟨groundY', belowY'⟩ := second.types name x y' seen there
      have added := same.symm.trans found
      exact ⟨(type_below_addedBinding ordered groundY groundY' added).1,
        addedBinding_isSubtype ordered groundY groundY' (groundBase name x seen) belowY belowY'
          added⟩

theorem Inhabited.merge (ordered : Hierarchy.Ordered h.decls) (first : LoweredFrom h base a)
    (second : LoweredFrom h base b) (inhabitedA : a.Inhabited) (inhabitedB : b.Inhabited) :
    (merge h a b).Inhabited := by
  intro name z found
  rcases lookup_merge (h := h) a second.distinct name with same | same | ⟨x, y, here, there, same⟩
  · exact inhabitedA name z (same ▸ found)
  · exact inhabitedB name z (same ▸ found)
  · -- a join with a type that is not the bottom is not the bottom
    have hx := first.ground name x here
    obtain ⟨-, above, -⟩ := type_below_addedBinding ordered hx (second.ground name y there)
      (same.symm.trans found)
    cases empty : z.type with
    | bottom =>
        rw [empty] at above
        have notBottom := inhabitedA name x here
        rw [(isSubtype_bottom_iff hx).1 above] at notBottom
        cases notBottom
    | _ => rfl

theorem loweredFrom_narrowName (ordered : Hierarchy.Ordered h.decls) (groundBase : base.Ground h)
    (lowered : LoweredFrom h base env) {t : Ty} (groundTest : t.ground h = true) {truthy : Bool}
    {env' : Environment} (reached : narrowName h env name t truthy = some env') :
    LoweredFrom h base env' ∧ (env.Inhabited → env'.Inhabited) := by
  rw [narrowName_eq] at reached
  cases found : env.lookup name with
  | none =>
      rw [found] at reached
      cases reached
      exact ⟨lowered, fun inhabited => inhabited⟩
  | some x =>
      simp only [found] at reached
      split at reached
      · cases reached
        exact ⟨lowered, fun inhabited => inhabited⟩
      · split at reached
        · cases reached
        · rename_i notEmpty
          cases reached
          obtain ⟨typed, below⟩ := narrowedType_isSubtype ordered (lowered.ground name x found)
            groundTest truthy
          refine ⟨lowered.update ordered groundBase found typed below .assigned, ?_⟩
          intro inhabited other y seen
          by_cases same : name = other
          · subst same
            obtain ⟨bound, here, equal⟩ := lookup_update_self env name
              (narrowedType h x.type t truthy) .assigned
            rw [here] at seen
            cases seen
            rw [equal]
            exact Bool.eq_false_iff.2 notEmpty
          · rw [lookup_update_of_ne env _ .assigned same] at seen
            exact inhabited other y seen

/-- Narrowing by a condition leaves of the type of every name a part, which is not the bottom if the
    type is not. -/
theorem loweredFrom_narrow (ordered : Hierarchy.Ordered h.decls) (ground : env.Ground h)
    (distinct : env.bindings.Distinct) {test : Expr} {truthy : Bool}
    (groundTests : ∀ t ∈ test.tests, t.ground h = true) :
    ∀ env' ∈ narrow h env test truthy,
      LoweredFrom h env env' ∧ (env.Inhabited → env'.Inhabited) := by
  refine forall_mem_narrow (p := fun env' => LoweredFrom h env env' ∧
    (env.Inhabited → env'.Inhabited)) ?_ ?_ ⟨.refl distinct ground, fun inhabited => inhabited⟩
  · intro t member env' name truthy ⟨lowered, inhabited⟩ env'' reached
    obtain ⟨lowered', inhabited'⟩ :=
      loweredFrom_narrowName ordered ground lowered (groundTests t member) reached
    exact ⟨lowered', fun start => inhabited' (inhabited start)⟩
  · intro a b ⟨loweredA, inhabitedA⟩ ⟨loweredB, inhabitedB⟩
    exact ⟨loweredA.merge ordered ground loweredB,
      fun start => .merge ordered loweredA loweredB (inhabitedA start) (inhabitedB start)⟩

/-! ## Paths that give every name its type back -/

/-- Whether some path binds a name innermost, and every path that does binds it to a type below. -/
structure Capped (h : Hierarchy) (name : String) (c : Ty) (paths : List Environment) : Prop where
  bound : ∃ p ∈ paths, p.bindings.find? name ≠ none
  below : ∀ p ∈ paths, ∀ t ∈ p.typeHere? name, isSubtype h t c = true

/-- Whether paths that start from an environment give every name its type back where they meet:
    what lies above all types to which they bind a name innermost lies above its type. -/
structure Restores (h : Hierarchy) (env : Environment) (paths : List Environment) : Prop where
  reached : paths ≠ []
  lowered : ∀ p ∈ paths, LoweredFrom h env p
  whole : ∀ name x c, env.lookup name = some x → c.ground h = true → Capped h name c paths →
    isSubtype h x.type c = true

theorem Restores.of_perm (restores : Restores h env paths) (perm : paths.Perm further) :
    Restores h env further where
  reached nothing := restores.reached (List.perm_nil.1 (nothing ▸ perm))
  lowered p member := restores.lowered p (perm.mem_iff.2 member)
  whole name x c seen hc capped := by
    obtain ⟨⟨p, member, bound⟩, below⟩ := capped
    exact restores.whole name x c seen hc
      ⟨⟨p, perm.mem_iff.2 member, bound⟩, fun p member => below p (perm.mem_iff.1 member)⟩

/-- An environment to which nothing happens gives every name its type back. -/
theorem restores_self (distinct : env.bindings.Distinct) (ground : env.Ground h)
    (reached : paths ≠ []) (same : ∀ p ∈ paths, p = env) : Restores h env paths where
  reached := reached
  lowered p member := by
    rw [same p member]
    exact .refl distinct ground
  whole name x c seen hc capped := by
    obtain ⟨⟨p, member, bound⟩, below⟩ := capped
    obtain rfl := same p member
    obtain ⟨y, found⟩ := Option.ne_none_iff_exists'.1 bound
    rw [lookup_of_find? found] at seen
    cases seen
    exact below p member _ (typeHere?_eq_some.2 ⟨x, found, rfl⟩)

section Meeting

variable (ordered : Hierarchy.Ordered h.decls) (ground : env.Ground h)
include ordered ground

/-- Two paths may meet before they meet the others. -/
theorem Restores.merge (restores : Restores h env (a :: b :: paths)) :
    Restores h env (merge h a b :: paths) := by
  have lowered := restores.lowered
  simp only [List.forall_mem_cons] at lowered
  obtain ⟨first, second, others⟩ := lowered
  have merged := first.merge ordered ground second
  refine ⟨List.cons_ne_nil _ _, List.forall_mem_cons.2 ⟨merged, others⟩, ?_⟩
  intro name x c seen hc capped
  obtain ⟨⟨p, member, bound⟩, below⟩ := capped
  rw [List.forall_mem_cons] at below
  -- what lies above the type in the merge lies above the types on both paths
  have onPath : ∀ p, LoweredFrom h env p → p.Below h (Environment.merge h a b) →
      ∀ t ∈ p.typeHere? name, isSubtype h t c = true := by
    intro p lowered under t held
    obtain ⟨u, held', above⟩ := under name t held
    exact isSubtype_trans ordered (lowered.groundHere.ground name t held)
      (merged.groundHere.ground name u held') hc above (below.1 u held')
  have left := below_merge_left ordered first.groundHere second.groundHere
  have right := below_merge_right ordered first.groundHere second.groundHere
  refine restores.whole name x c seen hc ⟨?_, ?_⟩
  · rcases List.mem_cons.1 member with rfl | member
    · rw [ne_eq, find?_merge_eq_none second.distinct, not_and_or] at bound
      rcases bound with here | here
      · exact ⟨a, by simp, here⟩
      · exact ⟨b, by simp, here⟩
    · exact ⟨p, by simp [member], bound⟩
  · simp only [List.forall_mem_cons]
    exact ⟨onPath a first left, onPath b second right, below.2⟩

/-- A path may be continued by paths that give every name the type back that it has there. -/
theorem Restores.splice (restores : Restores h env (paths ++ [q]))
    (rest : Restores h q further) : Restores h env (paths ++ further) := by
  have lowered := restores.lowered
  rw [List.forall_mem_append, List.forall_mem_singleton] at lowered
  obtain ⟨others, middle⟩ := lowered
  refine ⟨by simp [rest.reached], List.forall_mem_append.2 ⟨others, fun p member =>
    middle.trans ordered ground (rest.lowered p member)⟩, ?_⟩
  intro name x c seen hc capped
  obtain ⟨⟨p, member, bound⟩, below⟩ := capped
  rw [List.forall_mem_append] at below
  obtain ⟨y, found, -⟩ := middle.exists_below seen
  -- behind `q`, the name has at least the type that it has in `q`, if it is bound there at all
  have behind : (∃ p ∈ further, p.bindings.find? name ≠ none) → isSubtype h y.type c = true :=
    fun bound => rest.whole name y c found hc ⟨bound, below.2⟩
  cases here : q.bindings.find? name with
  | some z =>
      rw [lookup_of_find? here] at found
      cases found
      obtain ⟨p, member⟩ := List.exists_mem_of_ne_nil _ rest.reached
      have under := behind ⟨p, member, fun unbound => by
        rw [(rest.lowered p member).kept name unbound] at here
        cases here⟩
      refine restores.whole name x c seen hc ⟨⟨q, by simp, by simp [here]⟩, ?_⟩
      rw [List.forall_mem_append, List.forall_mem_singleton]
      refine ⟨below.1, fun t held => ?_⟩
      obtain ⟨y', found', rfl⟩ := typeHere?_eq_some.1 held
      rw [here] at found'
      cases found'
      exact under
  | none =>
      rcases List.mem_append.1 member with before | after
      · refine restores.whole name x c seen hc ⟨⟨p, by simp [before], bound⟩, ?_⟩
        rw [List.forall_mem_append, List.forall_mem_singleton]
        refine ⟨below.1, fun t held => ?_⟩
        obtain ⟨y', found', -⟩ := typeHere?_eq_some.1 held
        rw [here] at found'
        cases found'
      · rw [middle.lookup_eq_of_not_bound here, seen] at found
        cases found
        exact behind ⟨p, after, bound⟩

/-- Where one arm of an operand meets one arm of the other operand, which is evaluated on the other
    arm only. -/
theorem Restores.operands {decided evaluated : Flow} {f g : Environment → Flow}
    (left : Restores h env (decided.toList ++ evaluated.toList))
    (right : ∀ q ∈ evaluated, Restores h q ((f q).toList ++ (g q).toList)) :
    Restores h env
      ((mergeFlows h [decided, evaluated.bind f]).toList ++ (evaluated.bind g).toList) := by
  rw [mergeFlows_pair]
  cases evaluated with
  | none =>
      cases decided <;> simpa using left
  | some q =>
      have spliced := left.splice ordered ground (right q rfl)
      rw [Option.bind_some, Option.bind_some]
      cases decided with
      | none => simpa using spliced
      | some a =>
          cases first : f q with
          | none => simpa [first] using spliced
          | some b =>
              rw [first] at spliced
              exact Restores.merge ordered ground spliced

/-- Two paths that give every name its type back meet in an environment that does. -/
theorem Restores.exists_mergeFlows {first second : Flow}
    (restores : Restores h env (first.toList ++ second.toList)) :
    ∃ env', mergeFlows h [first, second] = some env' ∧ Restores h env [env'] := by
  rw [mergeFlows_pair]
  match first, second with
  | none, none => exact absurd rfl restores.reached
  | none, some b => exact ⟨b, rfl, restores⟩
  | some a, none => exact ⟨a, rfl, restores⟩
  | some a, some b => exact ⟨_, rfl, Restores.merge ordered ground restores⟩

omit ordered ground in
/-- A single path gives every name its type back if the name has it there. -/
theorem Restores.exists_equivalent (restores : Restores h env [a]) {x : Binding}
    (seen : env.lookup name = some x) :
    ∃ y, a.lookup name = some y ∧ isSubtype h y.type x.type = true ∧
      isSubtype h x.type y.type = true := by
  have lowered := restores.lowered a (List.mem_singleton_self a)
  obtain ⟨y, found, below⟩ := lowered.exists_below seen
  refine ⟨y, found, below, ?_⟩
  cases here : a.bindings.find? name with
  | none =>
      rw [lowered.lookup_eq_of_not_bound here, seen] at found
      cases found
      exact below
  | some z =>
      rw [lookup_of_find? here] at found
      cases found
      refine restores.whole name x y.type seen (lowered.ground name y (lookup_of_find? here))
        ⟨⟨a, by simp, by simp [here]⟩, ?_⟩
      rw [List.forall_mem_singleton, typeHere?, here]
      rintro _ ⟨⟩
      exact isSubtype_refl h _

end Meeting

/-! ## Conditions -/

/-- Paths on which a name gets parts of its type that make up the whole. -/
theorem restores_update (ordered : Hierarchy.Ordered h.decls) (distinct : env.bindings.Distinct)
    (ground : env.Ground h) {x : Binding} (found : env.lookup name = some x) {parts : List Ty}
    (reached : parts ≠ [])
    (below : ∀ t ∈ parts, t.ground h = true ∧ isSubtype h t x.type = true)
    (whole : ∀ c, c.ground h = true → (∀ t ∈ parts, isSubtype h t c = true) →
      isSubtype h x.type c = true) :
    Restores h env (parts.map fun t => env.update name t .assigned none) where
  reached := by simpa using reached
  lowered := List.forall_mem_map.2 fun t member =>
    (LoweredFrom.refl distinct ground).update ordered ground found (below t member).1
      (below t member).2 .assigned
  whole other y c seen hc capped := by
    obtain ⟨bound, capped⟩ := capped
    rw [List.forall_mem_map] at capped
    by_cases same : name = other
    · subst same
      rw [found] at seen
      cases seen
      refine whole c hc fun t member => capped t member t ?_
      rw [Option.mem_def, typeHere?_update, if_pos rfl]
    · obtain ⟨p, member, bound⟩ := bound
      obtain ⟨t, among, rfl⟩ := List.mem_map.1 member
      rw [Environment.update, Assoc.find?_insert, if_neg same] at bound
      obtain ⟨z, held⟩ := Option.ne_none_iff_exists'.1 bound
      rw [lookup_of_find? held] at seen
      cases seen
      refine capped t among y.type ?_
      rw [Option.mem_def, typeHere?_update, if_neg same]
      exact typeHere?_eq_some.2 ⟨y, held, rfl⟩

/-- The arms of a single test give every name its type back. -/
theorem restores_narrowName (ordered : Hierarchy.Ordered h.decls) (distinct : env.bindings.Distinct)
    (ground : env.Ground h) (inhabited : env.Inhabited) (name : String) {t : Ty}
    (groundTest : t.ground h = true) :
    Restores h env
      ((narrowName h env name t true).toList ++ (narrowName h env name t false).toList) := by
  cases found : env.lookup name with
  | none =>
      have arm : ∀ truthy, narrowName h env name t truthy = some env := by
        intro truthy
        rw [narrowName_eq, found]
      simp only [arm]
      exact restores_self distinct ground (by simp) (by simp)
  | some x =>
      have hx := ground name x found
      let parts := [narrowedType h x.type t true, narrowedType h x.type t false]
      have arms : (narrowName h env name t true).toList ++ (narrowName h env name t false).toList =
          (parts.filter fun u => !u.isBottom).map fun u => env.update name u .assigned none := by
        simp only [narrowName_eq, found, inhabited name x found, Bool.false_eq_true, if_false]
        cases left : (narrowedType h x.type t true).isBottom <;>
          cases right : (narrowedType h x.type t false).isBottom <;> simp [parts, left, right]
      have whole : ∀ c, c.ground h = true →
          (∀ u ∈ parts.filter (fun u => !u.isBottom), isSubtype h u c = true) →
          isSubtype h x.type c = true := by
        intro c hc below
        have each : ∀ u ∈ parts, isSubtype h u c = true := by
          intro u member
          cases empty : u.isBottom with
          | true => exact isSubtype_of_isBottom empty c
          | false => exact below u (List.mem_filter.2 ⟨member, by simp [empty]⟩)
        exact isSubtype_of_parts ordered hx groundTest hc (each _ (by simp [parts, narrowedType]))
          (each _ (by simp [parts, narrowedType]))
      rw [arms]
      refine restores_update ordered distinct ground found ?_ ?_ whole
      · intro nothing
        have bottom := (isSubtype_bottom_iff hx).1
          (whole .bottom (Ty.ground_bottom h) (by simp [nothing]))
        have known := inhabited name x found
        rw [bottom] at known
        cases known
      · intro u member
        have among := (List.mem_filter.1 member).1
        simp only [parts, List.mem_cons, List.not_mem_nil, or_false] at among
        rcases among with rfl | rfl
        · exact narrowedType_isSubtype ordered hx groundTest true
        · exact narrowedType_isSubtype ordered hx groundTest false

/-- The arms of a condition give every name its type back. -/
theorem restores_narrow (ordered : Hierarchy.Ordered h.decls) (test : Expr)
    (groundTests : ∀ t ∈ test.tests, t.ground h = true) (env : Environment)
    (distinct : env.bindings.Distinct) (ground : env.Ground h) (inhabited : env.Inhabited) :
    Restores h env ((narrow h env test true).toList ++ (narrow h env test false).toList) := by
  have alone : ∀ test : Expr, (∀ truthy, narrow h env test truthy = some env) →
      Restores h env ((narrow h env test true).toList ++ (narrow h env test false).toList) := by
    intro test arm
    simp only [arm]
    exact restores_self distinct ground (by simp) (by simp)
  match test with
  | .isa subject t _ =>
      cases subject with
      | name name _ =>
          simp only [narrow]
          exact restores_narrowName ordered distinct ground inhabited name
            (groundTests t (List.mem_singleton_self t))
      | _ => exact alone _ fun _ => rfl
  | .literal _ (some value) _ =>
      refine restores_self distinct ground ?_ ?_
      · cases value <;> simp [narrow]
      · cases value <;> simp [narrow]
  | .call callee [operand] loc =>
      by_cases negates : (callee == "!") = true
      · simp only [narrow, negates, if_true, Bool.not_true, Bool.not_false]
        exact (restores_narrow ordered operand groundTests env distinct ground inhabited).of_perm
          List.perm_append_comm
      · exact alone _ fun truthy => by simp only [narrow, negates]; rfl
  | .logical .and left right _ =>
      simp only [Expr.tests, List.forall_mem_append] at groundTests
      have first := restores_narrow ordered left groundTests.1 env distinct ground inhabited
      have second : ∀ q ∈ narrow h env left true, Restores h q
          ((narrow h q right false).toList ++ (narrow h q right true).toList) := by
        intro q reached
        obtain ⟨lowered, inhabited'⟩ :=
          loweredFrom_narrow ordered ground distinct groundTests.1 q reached
        exact (restores_narrow ordered right groundTests.2 q lowered.distinct lowered.ground
          (inhabited' inhabited)).of_perm List.perm_append_comm
      simp only [narrow]
      exact ((first.of_perm List.perm_append_comm).operands ordered ground second).of_perm
        List.perm_append_comm
  | .logical .or left right _ =>
      simp only [Expr.tests, List.forall_mem_append] at groundTests
      have first := restores_narrow ordered left groundTests.1 env distinct ground inhabited
      have second : ∀ q ∈ narrow h env left false, Restores h q
          ((narrow h q right true).toList ++ (narrow h q right false).toList) := by
        intro q reached
        obtain ⟨lowered, inhabited'⟩ :=
          loweredFrom_narrow ordered ground distinct groundTests.1 q reached
        exact restores_narrow ordered right groundTests.2 q lowered.distinct lowered.ground
          (inhabited' inhabited)
      simp only [narrow]
      exact first.operands ordered ground second
  | .literal _ none _ | .name _ _ | .call _ [] _ | .call _ (_ :: _ :: _) _ | .field _ _ _
  | .conditional _ _ _ _ | .vector _ _ => exact alone _ fun _ => rfl

/-- Narrowing loses nothing where the arms of a condition meet again: if no visible name holds the
    bottom, some arm can be reached, and behind the merge of both arms every name has a type that
    lies below and above the one that it had before. On each arm that can be reached every name has
    a type below the one before. -/
theorem arms_restore_types (built : h.Declared) (distinct : env.bindings.Distinct)
    (ground : env.Ground h) {test : Expr} (groundTests : ∀ t ∈ test.tests, t.ground h = true) :
    (env.Inhabited →
      ∃ env', mergeFlows h [narrow h env test true, narrow h env test false] = some env' ∧
        ∀ name x, env.lookup name = some x → ∃ y, env'.lookup name = some y ∧
          isSubtype h y.type x.type = true ∧ isSubtype h x.type y.type = true) ∧
      ∀ truthy env', narrow h env test truthy = some env' →
        ∀ name x, env.lookup name = some x →
          ∃ y, env'.lookup name = some y ∧ isSubtype h y.type x.type = true := by
  have ordered := built.ordered
  refine ⟨fun inhabited => ?_, fun truthy env' reached name x seen => ?_⟩
  · obtain ⟨env', met, restores⟩ := (restores_narrow ordered test groundTests env distinct ground
      inhabited).exists_mergeFlows ordered ground
    exact ⟨env', met, fun name x seen => restores.exists_equivalent seen⟩
  · exact (loweredFrom_narrow ordered ground distinct groundTests env' reached).1.exists_below seen

section Example

/-- The scope of a method with a parameter `x`, inside the global scope with a variable `n`. Both
    hold any number. -/
def openScope : Environment where
  bindings := [("x", ⟨.union [.float, .int], none, .param⟩)]
  parent := some ⟨[("n", ⟨.union [.float, .int], none, .global⟩)], none, .global⟩
  kind := .method

/-- The condition `(y || n instanceof Int) && !(x instanceof Float)`. -/
def openTest : Expr :=
  .logical .and
    (.logical .or (.name "y" default) (.isa (.name "n" default) .int default) default)
    (.call "!" [.isa (.name "x" default) .float default] default) default

theorem type_of_lookup_openScope {x : Binding} (found : openScope.lookup name = some x) :
    x.type = .union [.float, .int] := by
  rw [lookup_eq] at found
  by_cases first : "x" = name
  · simp only [openScope, Assoc.find?, first, if_true, Option.some_or, Option.some.injEq] at found
    exact found ▸ rfl
  · by_cases second : "n" = name
    · simp only [openScope, Assoc.find?, first, if_false, Option.none_or, Option.bind_some, lookup,
        second, if_true, Option.some.injEq] at found
      exact found ▸ rfl
    · simp [openScope, Assoc.find?, first, lookup, second] at found

/-- On one arm both names hold whole numbers, the global variable in spite of the operand that tells
    nothing of it. Behind both arms they hold any number. -/
theorem arms_restore_types_numbers :
    numberHierarchy.Declared ∧ openScope.bindings.Distinct ∧ openScope.Ground numberHierarchy ∧
      openScope.Inhabited ∧ (∀ t ∈ openTest.tests, t.ground numberHierarchy = true) ∧
      ((narrow numberHierarchy openScope openTest true).bind fun env =>
        (env.lookup "n").map (·.type.id)) = some "Int" ∧
      ∃ env', mergeFlows numberHierarchy [narrow numberHierarchy openScope openTest true,
          narrow numberHierarchy openScope openTest false] = some env' ∧
        ∀ name x, openScope.lookup name = some x → ∃ y, env'.lookup name = some y ∧
          isSubtype numberHierarchy y.type x.type = true ∧
          isSubtype numberHierarchy x.type y.type = true := by
  have distinct : openScope.bindings.Distinct := by
    simp [openScope, Assoc.Distinct, Assoc.keys]
  have ground : openScope.Ground numberHierarchy := by
    intro name x found
    rw [type_of_lookup_openScope found]
    decide +kernel
  have inhabited : openScope.Inhabited := by
    intro name x found
    rw [type_of_lookup_openScope found]
    rfl
  have groundTests : ∀ t ∈ openTest.tests, t.ground numberHierarchy = true := by decide +kernel
  exact ⟨numberHierarchy_declared, distinct, ground, inhabited, groundTests, by decide +kernel,
    (arms_restore_types numberHierarchy_declared distinct ground groundTests).1 inhabited⟩

end Example

end Environment

end Multimethod
