import Mathlib.Data.List.Chain
import Mathlib.Data.List.Induction
import Mathlib.Data.List.Nodup
import Multimethod.Proofs.Hierarchy.Ancestry
import Multimethod.Proofs.Ty.Ground

/-!
# The tree of declared names

Whatever is declared, and however much of it is refused, the names of a hierarchy form a tree with
the root `Any`. Going up from a declared name passes abstract types only and ends at the root; going
down from a name meets every concrete type below it once.
-/

namespace Multimethod.Hierarchy

/-! ## Declarations that may be refused -/

/-- The hierarchy behind a declaration. One that is refused changes nothing. -/
def offer (h : Hierarchy) (decl : TypeDecl) : Hierarchy :=
  match h.declare decl with
  | .ok next => next
  | .error _ => h

/-- The hierarchy behind declarations one after the other. -/
def offerAll (h : Hierarchy) (decls : List TypeDecl) : Hierarchy :=
  decls.foldl offer h

/-- The declarations among some that a hierarchy accepts, one after the other. -/
def acceptedOf (h : Hierarchy) : List TypeDecl → List TypeDecl
  | [] => []
  | decl :: decls =>
      match h.declare decl with
      | .ok next => decl :: acceptedOf next decls
      | .error _ => acceptedOf h decls

/-- Offering declarations is declaring those that are accepted. -/
theorem declareAll_acceptedOf (h : Hierarchy) (decls : List TypeDecl) :
    h.declareAll (h.acceptedOf decls) = .ok (h.offerAll decls) := by
  induction decls generalizing h with
  | nil => rfl
  | cons decl decls ih =>
      rw [acceptedOf, offerAll, List.foldl_cons, offer]
      cases done : h.declare decl with
      | error fault => exact ih h
      | ok next =>
          dsimp only
          rw [declareAll, List.foldlM_cons, done]
          exact ih next

theorem declared_offerAll (decls : List TypeDecl) : (initial.offerAll decls).Declared :=
  Declared.initial.declareAll _ (declareAll_acceptedOf initial decls)

/-! ## Going up -/

/-- The name above a declared one. -/
def parent? (h : Hierarchy) (name : String) : Option String :=
  (h.find? name).bind (·.supertype)

/-- Whether a name is declared right below an abstract one. -/
structure RightBelow (h : Hierarchy) (name above : String) : Prop where
  parent : h.parent? name = some above
  isAbstract : h.isAbstract above = true

variable {decls older newer : List TypeDecl} {decl d : TypeDecl} {name above other : String}

/-- A newest declaration has another name than what is found among the older ones. -/
theorem ne_of_found (fresh : ∀ d ∈ older, d.name ≠ decl.name)
    (found : older.find? (·.name == name) = some d) : decl.name ≠ name := by
  have named : d.name = name := by simpa using List.find?_some found
  exact fun same => fresh d (List.mem_of_find?_eq_some found) (named.trans same.symm)

/-- What is found among older declarations is found behind a newer one. -/
theorem find?_cons_of_found (fresh : ∀ d ∈ older, d.name ≠ decl.name)
    (found : older.find? (·.name == name) = some d) :
    (Hierarchy.mk (decl :: older)).find? name = some d := by
  rw [find?, List.find?_cons_of_neg (by simpa using ne_of_found fresh found)]
  exact found

theorem RightBelow.cons (fresh : ∀ d ∈ older, d.name ≠ decl.name)
    (below : (Hierarchy.mk older).RightBelow name above) :
    (Hierarchy.mk (decl :: older)).RightBelow name above := by
  obtain ⟨parent, isAbstract⟩ := below
  obtain ⟨d, found, super⟩ := Option.bind_eq_some_iff.1 parent
  obtain ⟨e, found', isAbstract⟩ := (Option.any_eq_true _ _).1 isAbstract
  exact ⟨by rw [parent?, find?_cons_of_found fresh found]; exact super,
    by rw [Hierarchy.isAbstract, find?_cons_of_found fresh found']; exact isAbstract⟩

/-- The walk from a name visits no name twice. -/
theorem nodup_chain (ordered : Ordered decls) (name : String) : (chain decls name).Nodup := by
  induction ordered generalizing name with
  | @root decl _ top =>
      by_cases same : decl.name = name
      · subst same
        simp [chain_root [] top]
      · rw [chain_cons_of_ne [] same]
        simp [chain]
  | @under decl parent older above standing fresh super found _ ih =>
      by_cases same : decl.name = name
      · subst same
        rw [chain_under older super]
        refine List.nodup_cons.2 ⟨fun member => ?_, ih above⟩
        rcases declared_of_mem_chain standing member with here | ⟨d, hd, named⟩
        · exact ne_of_found fresh found here
        · exact fresh d hd named
      · rw [chain_cons_of_ne older same]
        exact ih name

/-- The walk from a declared name ends at the root. -/
theorem getLast?_chain (ordered : Ordered decls) (declared : ∃ d ∈ decls, d.name = name) :
    (chain decls name).getLast? = some "Any" := by
  obtain ⟨d, member, rfl⟩ := declared
  induction ordered generalizing d with
  | @root decl named top =>
      rw [List.mem_singleton.1 member, chain_root [] top, named]
      rfl
  | @under decl parent older above standing fresh super found _ ih =>
      rcases List.mem_cons.1 member with rfl | further
      · have named : parent.name = above := by simpa using List.find?_some found
        have up := ih parent (List.mem_of_find?_eq_some found)
        rw [named] at up
        rw [chain_under older super, List.getLast?_cons, up]
        rfl
      · rw [chain_cons_of_ne older (Ne.symm (fresh d further))]
        exact ih d further

/-- Each name that a walk meets is declared right below the next one. -/
theorem isChain_chain (ordered : Ordered decls) (name : String) :
    (chain decls name).IsChain (Hierarchy.mk decls).RightBelow := by
  induction ordered generalizing name with
  | @root decl _ top =>
      by_cases same : decl.name = name
      · subst same
        rw [chain_root [] top]
        exact .singleton _
      · rw [chain_cons_of_ne [] same]
        exact .singleton _
  | @under decl parent older above standing fresh super found isAbstract ih =>
      have rest : ∀ name, (chain older name).IsChain (Hierarchy.mk (decl :: older)).RightBelow :=
        fun name => (ih name).imp fun _ _ below => below.cons fresh
      by_cases same : decl.name = name
      · subst same
        rw [chain_under older super]
        refine List.isChain_cons.2 ⟨fun next first => ?_, rest above⟩
        rw [head?_chain, Option.mem_some_iff] at first
        subst first
        refine ⟨by simpa [parent?, find?] using super, ?_⟩
        rw [Hierarchy.isAbstract, find?_cons_of_found fresh found]
        exact isAbstract
      · rw [chain_cons_of_ne older same]
        exact rest name

/-! ## Going down -/

/-- What a declaration has to do with an older one. -/
structure Younger (newer older : TypeDecl) : Prop where
  apart : newer.name ≠ older.name
  notAbove : older.supertype ≠ some newer.name
  isAbstract : newer.supertype = some older.name → older.isAbstract = true

/-- A declared type stands below a type that is declared and has another name. -/
theorem Ordered.exists_above (ordered : Ordered decls) (member : d ∈ decls)
    (super : d.supertype = some above) : d.name ≠ above ∧ ∃ e ∈ decls, e.name = above := by
  induction ordered with
  | root name top =>
      rw [List.mem_singleton.1 member, top] at super
      cases super
  | @under decl parent older above' standing fresh super' found isAbstract ih =>
      rcases List.mem_cons.1 member with rfl | further
      · obtain rfl : above' = above := Option.some.inj (super'.symm.trans super)
        exact ⟨ne_of_found fresh found, parent,
          List.mem_cons_of_mem _ (List.mem_of_find?_eq_some found),
          by simpa using List.find?_some found⟩
      · obtain ⟨different, e, among, named⟩ := ih further
        exact ⟨different, e, List.mem_cons_of_mem _ among, named⟩

theorem Ordered.pairwise (ordered : Ordered decls) : decls.Pairwise Younger := by
  induction ordered with
  | root => exact List.pairwise_singleton _ _
  | @under decl parent older above standing fresh super found isAbstract ih =>
      refine List.pairwise_cons.2 ⟨fun d member => ⟨(fresh d member).symm, fun same => ?_, ?_⟩, ih⟩
      · obtain ⟨-, e, among, named⟩ := standing.exists_above member same
        exact fresh e among named
      · intro below
        have named : parent.name = above := by simpa using List.find?_some found
        have same : d.name = above := Option.some.inj (below.symm.trans super)
        rw [standing.eq_of_name member (List.mem_of_find?_eq_some found) (same.trans named.symm)]
        exact isAbstract

/-- Declarations, newest first, none of which stands below itself or a newer one. -/
structure Stacked (decls : List TypeDecl) : Prop where
  pairwise : decls.Pairwise Younger
  notOwn : ∀ d ∈ decls, d.supertype ≠ some d.name

theorem Ordered.stacked (ordered : Ordered decls) : Stacked decls :=
  ⟨ordered.pairwise, fun _ member super => (ordered.exists_above member super).1 rfl⟩

/-- What the oldest of some declarations has to do with the others. -/
theorem Stacked.of_concat (stacked : Stacked (newer ++ [decl])) :
    Stacked newer ∧ (∀ e ∈ newer, Younger e decl) ∧ decl.supertype ≠ some decl.name := by
  obtain ⟨pairwise, -, younger⟩ := List.pairwise_append.1 stacked.pairwise
  exact ⟨⟨pairwise, fun e member => stacked.notOwn e (List.mem_append_left _ member)⟩,
    fun e member => younger e member decl (by simp), stacked.notOwn decl (by simp)⟩

/-- From a name that is not declared no walk leads up. -/
theorem chain_of_undeclared (undeclared : ∀ d ∈ decls, d.name ≠ name) :
    chain decls name = [name] := by
  induction decls with
  | nil => rfl
  | cons decl older ih =>
      rw [List.forall_mem_cons] at undeclared
      rw [chain_cons_of_ne older undeclared.1]
      exact ih undeclared.2

/-- A walk leaves the declarations it is read off at one name only. -/
theorem eq_of_mem_chain_of_undeclared {a b : String} (first : a ∈ chain decls name)
    (second : b ∈ chain decls name) (undeclaredA : ∀ d ∈ decls, d.name ≠ a)
    (undeclaredB : ∀ d ∈ decls, d.name ≠ b) : a = b := by
  induction decls generalizing name with
  | nil => rw [List.mem_singleton.1 first, List.mem_singleton.1 second]
  | cons decl older ih =>
      rw [List.forall_mem_cons] at undeclaredA undeclaredB
      by_cases same : decl.name = name
      · subst same
        cases super : decl.supertype with
        | none =>
            rw [chain_root older super] at first
            exact absurd (List.mem_singleton.1 first).symm undeclaredA.1
        | some above =>
            rw [chain_under older super] at first second
            exact ih ((List.mem_cons.1 first).resolve_left (Ne.symm undeclaredA.1))
              ((List.mem_cons.1 second).resolve_left (Ne.symm undeclaredB.1))
              undeclaredA.2 undeclaredB.2
      · rw [chain_cons_of_ne older same] at first second
        exact ih first second undeclaredA.2 undeclaredB.2

/-- What a walk meets behind its first name stands above something declared. -/
theorem exists_below_of_mem_chain (member : above ∈ chain decls name) :
    above = name ∨ ∃ d ∈ decls, d.supertype = some above := by
  induction decls generalizing name with
  | nil => exact .inl (List.mem_singleton.1 member)
  | cons decl older ih =>
      have further : ∀ {name}, above ∈ chain older name →
          above = name ∨ ∃ d ∈ decl :: older, d.supertype = some above :=
        fun member => (ih member).imp_right fun ⟨d, among, super⟩ =>
          ⟨d, List.mem_cons_of_mem _ among, super⟩
      by_cases same : decl.name = name
      · subst same
        cases super : decl.supertype with
        | none =>
            rw [chain_root older super] at member
            exact .inl (List.mem_singleton.1 member)
        | some next =>
            rw [chain_under older super] at member
            refine (List.mem_cons.1 member).imp_right fun up => ?_
            rcases further up with rfl | known
            · exact ⟨decl, List.mem_cons_self, super⟩
            · exact known
      · rw [chain_cons_of_ne older same] at member
        exact further member

/-- A walk is continued by an older declaration if it leads to its name. -/
theorem mem_chain_concat (fresh : ∀ d ∈ newer, d.name ≠ decl.name) :
    above ∈ chain (newer ++ [decl]) name ↔
      above ∈ chain newer name ∨ decl.name ∈ chain newer name ∧ decl.supertype = some above := by
  induction newer generalizing name with
  | nil =>
      by_cases same : decl.name = name
      · subst same
        cases super : decl.supertype with
        | none => simp [chain_root [] super, chain]
        | some next => simp [chain_under [] super, chain, eq_comm]
      · simp [chain_cons_of_ne [] same, chain, same]
  | cons d newer ih =>
      rw [List.forall_mem_cons] at fresh
      rw [List.cons_append]
      by_cases same : d.name = name
      · subst same
        cases super : d.supertype with
        | none =>
            rw [chain_root _ super, chain_root _ super]
            simp [Ne.symm fresh.1]
        | some next =>
            rw [chain_under _ super, chain_under _ super, List.mem_cons, ih fresh.2]
            simp [Ne.symm fresh.1, or_assoc]
      · rw [chain_cons_of_ne _ same, chain_cons_of_ne _ same, ih fresh.2]

theorem mem_leavesBelow_cons {newer : List TypeDecl} :
    d ∈ leavesBelow (decl :: newer) name ↔
      decl.supertype = some name ∧
          (decl.isAbstract = true ∧ d ∈ leavesBelow newer decl.name ∨
            decl.isAbstract = false ∧ d = decl) ∨
        d ∈ leavesBelow newer name := by
  rw [leavesBelow]
  split
  case isTrue below =>
      rw [List.mem_append]
      cases decl.isAbstract <;> simp [below]
  case isFalse notBelow => simp [notBelow]

/-- Read off declarations none of which stands above an older one, the concrete types below a name
    are those from which a walk leads up to it. -/
theorem mem_leavesBelow_iff (stacked : Stacked decls) :
    d ∈ leavesBelow decls.reverse name ↔
      d ∈ decls ∧ d.isAbstract = false ∧ name ∈ chain decls d.name ∧ name ≠ d.name := by
  -- from the oldest declaration to the newest, as the recursion goes
  induction decls using List.reverseRecOn generalizing name with
  | nil => simp [leavesBelow]
  | append_singleton newer decl ih =>
      obtain ⟨rest, younger, own⟩ := stacked.of_concat
      have fresh : ∀ e ∈ newer, e.name ≠ decl.name := fun e member => (younger e member).apart
      rw [List.reverse_append, List.reverse_singleton, List.singleton_append, mem_leavesBelow_cons,
        ih rest, ih rest, List.mem_append, List.mem_singleton, mem_chain_concat fresh]
      constructor
      · rintro (⟨below, ⟨-, member, concrete, up, -⟩ | ⟨concrete, rfl⟩⟩ |
          ⟨member, concrete, up, different⟩)
        · refine ⟨.inl member, concrete, .inr ⟨up, below⟩, ?_⟩
          rintro rfl
          exact (younger d member).notAbove below
        · refine ⟨.inr rfl, concrete, .inr ⟨self_mem_chain newer d.name, below⟩, ?_⟩
          rintro rfl
          exact own below
        · exact ⟨.inl member, concrete, .inl up, different⟩
      · rintro ⟨member | rfl, concrete, up | ⟨through, below⟩, different⟩
        · exact .inr ⟨member, concrete, up, different⟩
        · have other := Ne.symm (fresh d member)
          obtain ⟨e, among, under⟩ := (exists_below_of_mem_chain through).resolve_left other
          exact .inl ⟨below, .inl ⟨(younger e among).isAbstract under, member, concrete, through,
            other⟩⟩
        · rw [chain_of_undeclared fresh, List.mem_singleton] at up
          exact absurd up different
        · exact .inl ⟨below, .inr ⟨concrete, rfl⟩⟩

/-- No concrete type is met twice on the way down. -/
theorem nodup_leavesBelow (stacked : Stacked decls) (name : String) :
    (leavesBelow decls.reverse name).Nodup := by
  induction decls using List.reverseRecOn generalizing name with
  | nil => simp [leavesBelow]
  | append_singleton newer decl ih =>
      obtain ⟨rest, younger, own⟩ := stacked.of_concat
      rw [List.reverse_append, List.reverse_singleton, List.singleton_append, leavesBelow]
      split
      case isFalse => exact ih rest name
      case isTrue super =>
          refine List.nodup_append.2 ⟨?_, ih rest name, ?_⟩
          · split
            · exact ih rest decl.name
            · exact List.nodup_singleton _
          · rintro d first _ second rfl
            obtain ⟨member, -, up, -⟩ := (mem_leavesBelow_iff rest).1 second
            split at first
            · -- walks leave the newer declarations at one name
              obtain ⟨-, -, up', -⟩ := (mem_leavesBelow_iff rest).1 first
              have same := eq_of_mem_chain_of_undeclared up' up
                (fun e among => (younger e among).apart)
                (fun e among named => (younger e among).notAbove (super.trans (by rw [named])))
              exact own (same ▸ super)
            · rw [List.mem_singleton.1 first] at member
              exact (younger decl member).apart rfl

/-- The concrete types below a name are those below its children, one child after the other. -/
theorem leavesBelow_eq (stacked : Stacked decls) (name : String) :
    leavesBelow decls.reverse name =
      (decls.reverse.filter (·.supertype = some name)).flatMap fun d =>
        if d.isAbstract then leavesBelow decls.reverse d.name else [d] := by
  induction decls using List.reverseRecOn generalizing name with
  | nil => rfl
  | append_singleton newer decl ih =>
      obtain ⟨rest, younger, own⟩ := stacked.of_concat
      -- the oldest declaration is below none of the others, nor below itself
      have skip : ∀ e ∈ newer ++ [decl],
          leavesBelow (decl :: newer.reverse) e.name = leavesBelow newer.reverse e.name := by
        intro e member
        rw [leavesBelow, if_neg]
        rcases List.mem_append.1 member with among | here
        · exact (younger e among).notAbove
        · rw [List.mem_singleton.1 here]
          exact own
      have children : ∀ es : List TypeDecl, (∀ e ∈ es, e ∈ newer ++ [decl]) →
          (es.flatMap fun e =>
            if e.isAbstract then leavesBelow (decl :: newer.reverse) e.name else [e]) =
          es.flatMap fun e => if e.isAbstract then leavesBelow newer.reverse e.name else [e] :=
        fun es among => List.flatMap_congr fun e member => by rw [skip e (among e member)]
      rw [List.reverse_append, List.reverse_singleton, List.singleton_append,
        children _ fun e member => by simpa [or_comm] using (List.mem_filter.1 member).1,
        leavesBelow, List.filter_cons]
      by_cases below : decl.supertype = some name
      · rw [if_pos below, if_pos (decide_eq_true below), List.flatMap_cons, ← ih rest]
      · rw [if_neg below, if_neg (by simpa using below), ← ih rest]

/-! ## The tree -/

/-- Whether the names of a hierarchy form a tree with the root `Any` whose inner names are
    abstract. -/
structure IsTree (h : Hierarchy) : Prop where
  /-- No name is declared twice. -/
  apart : (h.decls.map (·.name)).Nodup
  root : h.has "Any" = true ∧ h.parent? "Any" = none
  /-- Going up from a declared name, from each name to the abstract one above it, ends at the root
      and visits no name twice. -/
  up : ∀ name, h.has name = true →
    (h.ancestors name).head? = some name ∧ (h.ancestors name).IsChain h.RightBelow ∧
      (h.ancestors name).getLast? = some "Any" ∧ (h.ancestors name).Nodup ∧
      ∀ above ∈ (h.ancestors name).tail, h.isAbstract above = true
  refl : ∀ a, h.isAncestor a a = true
  trans : ∀ a b c, h.isAncestor a b = true → h.isAncestor b c = true → h.isAncestor a c = true
  antisymm : ∀ a b, h.isAncestor a b = true → h.isAncestor b a = true → a = b
  /-- The ancestors of a name stand in a row. -/
  row : ∀ a b c, h.isAncestor a c = true → h.isAncestor b c = true →
    h.isAncestor a b = true ∨ h.isAncestor b a = true
  /-- Going down from a name visits its children in the order of their declaration, and those below
      each abstract child before the next. -/
  down : ∀ name, h.concreteDescendants name =
    (h.decls.reverse.filter (·.supertype = some name)).flatMap fun d =>
      if d.isAbstract then h.concreteDescendants d.name else [d]
  /-- It meets the concrete types below the name and nothing else, each once. -/
  leaves : ∀ name d, d ∈ h.concreteDescendants name ↔
    d ∈ h.decls ∧ d.isAbstract = false ∧ d.name ≠ name ∧ h.isAncestor name d.name = true
  once : ∀ name, ((h.concreteDescendants name).map (·.name)).Nodup

theorem isAbstract_of_mem_tail {h : Hierarchy} {names : List String}
    (row : names.IsChain h.RightBelow) : ∀ above ∈ names.tail, h.isAbstract above = true := by
  induction row with
  | nil => simp
  | singleton => simp
  | cons_cons below _ ih => exact List.forall_mem_cons.2 ⟨below.isAbstract, ih⟩

theorem Ordered.root_found (ordered : Ordered decls) :
    (Hierarchy.mk decls).has "Any" = true ∧ (Hierarchy.mk decls).parent? "Any" = none := by
  have found : ∃ d, (Hierarchy.mk decls).find? "Any" = some d ∧ d.supertype = none := by
    induction ordered with
    | @root decl named top => exact ⟨decl, by simp [find?, named], top⟩
    | under _ fresh _ _ _ ih =>
        obtain ⟨d, found, top⟩ := ih
        exact ⟨d, find?_cons_of_found fresh found, top⟩
  obtain ⟨d, found, top⟩ := found
  exact ⟨by rw [has, found]; rfl, by rw [parent?, found]; exact top⟩

theorem Declared.isTree {h : Hierarchy} (built : h.Declared) : h.IsTree := by
  have ordered := built.ordered
  have stacked := ordered.stacked
  have leaves : ∀ name d, d ∈ h.concreteDescendants name ↔
      d ∈ h.decls ∧ d.isAbstract = false ∧ d.name ≠ name ∧ h.isAncestor name d.name = true := by
    intro name d
    rw [isAncestor_iff_mem, concreteDescendants, mem_leavesBelow_iff stacked, ancestors,
      ne_comm, and_comm (a := name ∈ _)]
  refine
    { apart := List.pairwise_map.2 (stacked.pairwise.imp fun younger => younger.apart)
      root := ordered.root_found
      up := fun name declared => ?_
      refl := isAncestor_refl h
      trans := fun _ _ _ => isAncestor_trans ordered
      antisymm := fun _ _ => isAncestor_antisymm ordered
      row := fun _ _ _ => isAncestor_total ordered
      down := leavesBelow_eq stacked
      leaves := leaves
      once := fun name => ?_ }
  · have row := isChain_chain ordered name
    refine ⟨head?_chain h.decls name, row, getLast?_chain ordered ?_, nodup_chain ordered name,
      isAbstract_of_mem_tail row⟩
    obtain ⟨d, found⟩ := Option.isSome_iff_exists.1 declared
    exact ⟨d, List.mem_of_find?_eq_some found, by simpa using List.find?_some found⟩
  · refine List.Nodup.map_on (fun a first b second same => ?_)
      (nodup_leavesBelow stacked name)
    exact ordered.eq_of_name ((leaves name a).1 first).1 ((leaves name b).1 second).1 same

/-- Whatever is declared on a new hierarchy, what is refused has no effect, and the names form a
    tree. -/
theorem offerAll_isTree (decls : List TypeDecl) :
    initial.declareAll (initial.acceptedOf decls) = .ok (initial.offerAll decls) ∧
      (initial.offerAll decls).IsTree :=
  ⟨declareAll_acceptedOf initial decls, (declared_offerAll decls).isTree⟩

/-- A declaration of a type without parameters and fields. -/
def bareDecl (name : String) (isAbstract : Bool) (supertype : Option String) : TypeDecl :=
  ⟨name, isAbstract, supertype, [], none, none⟩

/-- A type below a concrete or an unknown one and a second type of a name are refused. -/
example :
    ((initial.offerAll [bareDecl "Shape" true none, bareDecl "Disk" false "Shape",
      bareDecl "Ring" false "Disk", bareDecl "Solid" true "Shape", bareDecl "Cube" false "Solid",
      bareDecl "Solid" false "Body", bareDecl "Line" false "Shape"]).concreteDescendants
        "Shape").map (·.name) = ["Disk", "Cube", "Line"] := by
  decide

end Multimethod.Hierarchy
