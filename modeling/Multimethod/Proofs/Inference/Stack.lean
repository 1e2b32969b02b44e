import Multimethod.Proofs.Inference.Reentry

/-!
# The call stack and the cache

A frame on the stack owns a pending entry of the cache, and every pending entry is owned by a
frame. The operations that a call is made of keep the two in step: entering a call adds one to
both, and storing its result takes one off both.
-/

namespace Multimethod.Inference

/-- Whether the pending entries of a cache are the placeholders of the frames of a stack: every
    frame owns one whose depth is the stack position of the frame, no two frames share a key, and
    nothing else is pending. -/
structure Balanced (cache : Cache) (stack : List Active) : Prop where
  apart : (stack.map Active.key).Nodup
  owned : ∀ top below, top :: below <:+ stack →
    ∃ p, cache.find? top.key = some (.pending p) ∧ p.serial = top.serial ∧ p.depth = below.length
  owner : ∀ key p, cache.find? key = some (.pending p) → ∃ a ∈ stack, a.key = key

/-- Whether stack and cache are balanced and within their limits. Frames have the key of their
    call, and depend on frames further out only. -/
structure Orderly (options : Options) (cache : Cache) (stack : List Active) : Prop
    extends Balanced cache stack where
  named : ∀ a ∈ stack, a.key = Cache.keyOf a.callee a.args
  outer : ∀ top below, top :: below <:+ stack → ∀ d ∈ top.dependsOn, d < below.length
  distinct : cache.entries.Distinct
  limit : cache.maxEntries = options.maxCacheEntries
  charged : cache.charged ≤ options.maxCacheEntries.toNat
  height : stack.length ≤ options.maxCallDepth.toNat

variable {options : Options} {cache next : Cache} {stack below : List Active} {top : Active}
  {key : String} {p q : Placeholder}

theorem find?_of_pending? (pending : cache.pending? key = some p) :
    cache.find? key = some (.pending p) := by
  unfold Cache.pending? at pending
  split at pending
  · rename_i found
    cases pending
    exact found
  · cases pending

theorem orderly_empty (empty : cache.entries = []) (none : cache.discarded = 0)
    (limit : cache.maxEntries = options.maxCacheEntries) : Orderly options cache [] where
  apart := .nil
  owned top below suffix := by simp at suffix
  owner key p found := by simp [Cache.find?, empty] at found
  named := by simp
  outer top below suffix := by simp at suffix
  distinct := by simp [Assoc.Distinct, Assoc.keys, empty]
  limit := limit
  charged := by simp [Cache.charged, Cache.size, empty, none]
  height := Nat.zero_le _

/-! ## What the cache holds -/

theorem size_setPlaceholder (found : cache.find? key = some (.pending q)) (p : Placeholder) :
    (cache.setPlaceholder key p).size = cache.size :=
  Assoc.length_insert_of_find? found _

theorem find?_discard_self (found : cache.find? key = some (.pending p)) :
    (cache.discard key).find? key = none := by
  unfold Cache.discard
  rw [Cache.pending?, found]
  exact (Assoc.find?_erase cache.entries key key).trans (if_pos rfl)

theorem charged_discard_le (found : cache.find? key = some (.pending p)) :
    (cache.discard key).charged ≤ cache.charged := by
  have fewer := Assoc.length_erase_lt found
  simp only [Cache.discard, Cache.pending?, found, Cache.charged, Cache.size]
  omega

theorem distinct_discard (distinct : cache.entries.Distinct) :
    (cache.discard key).entries.Distinct := by
  unfold Cache.discard
  split
  · exact distinct.erase key
  · exact distinct

theorem maxEntries_discard (cache : Cache) (key : String) :
    (cache.discard key).maxEntries = cache.maxEntries := by
  unfold Cache.discard
  split <;> rfl

/-- A pending entry can be finished. -/
theorem finish_of_pending (found : cache.find? key = some (.pending p)) (result : Inferred) :
    cache.finish key result =
      .ok { cache with entries := cache.entries.insert key (.finished result) } := by
  rw [Cache.finish, found]

/-! ## Entering a call -/

theorem begin_eq_ok {depth : Int} (begun : cache.begin key depth = .ok next) :
    (cache.find? key = none → (cache.charged : Int) < cache.maxEntries) ∧
      next = { cache with
        entries := cache.entries.insert key (.pending ⟨cache.begun, depth, .bottom, [], false⟩)
        begun := cache.begun + 1 } := by
  unfold Cache.begin at begun
  split at begun
  · cases begun
  · rename_i free
    cases begun
    refine ⟨fun unknown => ?_, rfl⟩
    simp only [unknown, Option.isNone_none, Bool.true_and, decide_eq_true_eq] at free
    omega

/-- No frame has a key that is unknown. -/
theorem Balanced.key_ne (balanced : Balanced cache stack) (unknown : cache.find? key = none)
    {a : Active} (member : a ∈ stack) : a.key ≠ key := by
  intro same
  obtain ⟨newer, older, rfl⟩ := List.append_of_mem member
  obtain ⟨p, held, -⟩ := balanced.owned a older (List.suffix_append _ _)
  rw [same, unknown] at held
  cases held

/-- A call whose key is unknown may be entered while there is room. -/
theorem Orderly.enter {callee : String} {args : List Ty} {loc : Location}
    (orderly : Orderly options cache stack)
    (unknown : cache.find? (Cache.keyOf callee args) = none)
    (room : stack.length < options.maxCallDepth.toNat)
    (begun : cache.begin (Cache.keyOf callee args) stack.length = .ok next) :
    Orderly options next
      (⟨callee, loc, args, Cache.keyOf callee args, cache.begun, none⟩ :: stack) := by
  have found : ∀ key, next.find? key =
      if Cache.keyOf callee args = key then some (.pending ⟨cache.begun, stack.length, .bottom, [],
        false⟩) else cache.find? key := fun _ => find?_begin begun
  obtain ⟨free, rfl⟩ := begin_eq_ok begun
  have fresh : ∀ a ∈ stack, a.key ≠ Cache.keyOf callee args := fun a member =>
    orderly.key_ne unknown member
  refine ⟨⟨?_, ?_, ?_⟩, ?_, ?_, orderly.distinct.insert _ _, orderly.limit, ?_, room⟩
  · refine List.nodup_cons.2 ⟨fun member => ?_, orderly.apart⟩
    obtain ⟨a, member, same⟩ := List.mem_map.1 member
    exact fresh a member same
  · intro top below suffix
    rcases List.suffix_cons_iff.1 suffix with here | further
    · obtain ⟨rfl, rfl⟩ := List.cons.inj here
      exact ⟨_, (found _).trans (if_pos rfl), rfl, rfl⟩
    · obtain ⟨p, held, same⟩ := orderly.owned top below further
      have different := fresh top (further.subset List.mem_cons_self)
      exact ⟨p, (found _).trans ((if_neg (Ne.symm different)).trans held), same⟩
  · intro key p held
    rw [found] at held
    split at held
    · rename_i same
      exact ⟨_, List.mem_cons_self, same⟩
    · obtain ⟨a, member, same⟩ := orderly.owner key p held
      exact ⟨a, List.mem_cons_of_mem _ member, same⟩
  · intro a member
    rcases List.mem_cons.1 member with rfl | member
    · rfl
    · exact orderly.named a member
  · intro top below suffix
    rcases List.suffix_cons_iff.1 suffix with here | further
    · obtain ⟨rfl, rfl⟩ := List.cons.inj here
      simp
    · exact orderly.outer top below further
  · have longer := Assoc.length_insert_le cache.entries (Cache.keyOf callee args)
      (.pending ⟨cache.begun, stack.length, .bottom, [], false⟩)
    have below := free unknown
    rw [orderly.limit] at below
    simp only [Cache.charged, Cache.size] at below ⊢
    omega

/-! ## While a call is analysed -/

/-- Only the innermost frame notes a dependency, and only on a frame further out. -/
theorem dependOn_cases (stack : List Active) (depth : Nat) :
    dependOn stack depth = stack ∨
      ∃ top below, stack = top :: below ∧ depth < below.length ∧
        dependOn stack depth = top.dependOn depth :: below := by
  match stack with
  | [] => exact Or.inl rfl
  | top :: below =>
      by_cases further : depth < below.length
      · exact Or.inr ⟨top, below, rfl, further, by rw [dependOn, if_pos further]⟩
      · exact Or.inl (by rw [dependOn, if_neg further])

theorem mem_dependsOn_dependOn {a : Active} {depth m : Nat}
    (noted : m ∈ (a.dependOn depth).dependsOn) : m = depth ∨ m ∈ a.dependsOn := by
  unfold Active.dependOn at noted
  cases before : a.dependsOn with
  | none =>
      simp only [before, Option.map_none, Option.getD_none, Option.mem_some_iff] at noted
      exact Or.inl noted.symm
  | some d =>
      simp only [before, Option.map_some, Option.getD_some, Option.mem_some_iff] at noted
      rw [Option.mem_some_iff]
      omega

theorem Orderly.dependOn (orderly : Orderly options cache stack) (depth : Nat) :
    Orderly options cache (dependOn stack depth) := by
  rcases dependOn_cases stack depth with same | ⟨top, below, rfl, further, noted⟩
  · rwa [same]
  rw [noted]
  have rest : ∀ a older, a :: older <:+ below → a :: older <:+ top :: below := fun a older suffix =>
    suffix.trans (List.suffix_cons _ _)
  refine ⟨⟨orderly.apart, ?_, ?_⟩, ?_, ?_, orderly.distinct, orderly.limit, orderly.charged,
    orderly.height⟩
  · intro a older suffix
    rcases List.suffix_cons_iff.1 suffix with here | suffix
    · obtain ⟨rfl, rfl⟩ := List.cons.inj here
      exact orderly.owned top older (List.suffix_refl _)
    · exact orderly.owned a older (rest a older suffix)
  · intro key p found
    obtain ⟨a, member, same⟩ := orderly.owner key p found
    rcases List.mem_cons.1 member with rfl | member
    · exact ⟨_, List.mem_cons_self, same⟩
    · exact ⟨a, List.mem_cons_of_mem _ member, same⟩
  · intro a member
    rcases List.mem_cons.1 member with rfl | member
    · exact orderly.named top List.mem_cons_self
    · exact orderly.named a (List.mem_cons_of_mem _ member)
  · intro a older suffix d dependent
    rcases List.suffix_cons_iff.1 suffix with here | suffix
    · obtain ⟨rfl, rfl⟩ := List.cons.inj here
      rcases mem_dependsOn_dependOn dependent with rfl | before
      · exact further
      · exact orderly.outer top older (List.suffix_refl _) d before
    · exact orderly.outer a older (rest a older suffix) d dependent

/-- What is known of a pending call may change. -/
theorem Orderly.setPlaceholder (orderly : Orderly options cache stack)
    (found : cache.find? key = some (.pending q)) (serial : p.serial = q.serial)
    (depth : p.depth = q.depth) : Orderly options (cache.setPlaceholder key p) stack := by
  have set : ∀ other, (cache.setPlaceholder key p).find? other =
      if key = other then some (.pending p) else cache.find? other :=
    fun other => find?_setPlaceholder cache key other p
  refine ⟨⟨orderly.apart, ?_, ?_⟩, orderly.named, orderly.outer, orderly.distinct.insert _ _,
    orderly.limit, ?_, orderly.height⟩
  · intro top below suffix
    obtain ⟨r, held, same, position⟩ := orderly.owned top below suffix
    by_cases here : key = top.key
    · rw [← here, found] at held
      cases held
      exact ⟨p, (set _).trans (if_pos here), serial.trans same, depth.trans position⟩
    · exact ⟨r, (set _).trans ((if_neg here).trans held), same, position⟩
  · intro other r held
    rw [set] at held
    split at held
    · rename_i same
      exact same ▸ orderly.owner key q found
    · exact orderly.owner other r held
  · rw [Cache.charged, size_setPlaceholder found]
    exact orderly.charged

/-! ## Storing a result -/

/-- The innermost call may be closed with any entry that is not pending. -/
theorem Orderly.close (orderly : Orderly options cache (top :: below))
    (others : ∀ key, top.key ≠ key → next.find? key = cache.find? key)
    (closed : ∀ p, next.find? top.key ≠ some (.pending p)) (distinct : next.entries.Distinct)
    (limit : next.maxEntries = cache.maxEntries) (charged : next.charged ≤ cache.charged) :
    Orderly options next below := by
  have rest : ∀ a older, a :: older <:+ below → a :: older <:+ top :: below := fun a older suffix =>
    suffix.trans (List.suffix_cons _ _)
  obtain ⟨fresh, apart⟩ := List.nodup_cons.1 orderly.apart
  refine ⟨⟨apart, ?_, ?_⟩, ?_, ?_, distinct, limit.trans orderly.limit,
    Nat.le_trans charged orderly.charged, Nat.le_of_succ_le orderly.height⟩
  · intro a older suffix
    have different : top.key ≠ a.key := fun same =>
      fresh (same ▸ List.mem_map_of_mem (suffix.subset List.mem_cons_self))
    rw [others a.key different]
    exact orderly.owned a older (rest a older suffix)
  · intro key p found
    by_cases here : top.key = key
    · exact absurd (here ▸ found) (closed p)
    · rw [others key here] at found
      obtain ⟨a, member, same⟩ := orderly.owner key p found
      rcases List.mem_cons.1 member with rfl | member
      · exact absurd same here
      · exact ⟨a, member, same⟩
  · exact fun a member => orderly.named a (List.mem_cons_of_mem _ member)
  · exact fun a older suffix => orderly.outer a older (rest a older suffix)

theorem Orderly.innermost (orderly : Orderly options cache (top :: below)) :
    ∃ p, cache.find? top.key = some (.pending p) ∧ p.serial = top.serial ∧
      p.depth = below.length :=
  orderly.owned top below (List.suffix_refl _)

theorem Orderly.finish {result : Inferred} (orderly : Orderly options cache (top :: below))
    (finished : cache.finish top.key result = .ok next) : Orderly options next below := by
  obtain ⟨p, found, -⟩ := orderly.innermost
  have set : ∀ key, next.find? key =
      if top.key = key then some (.finished result) else cache.find? key :=
    fun _ => find?_finish finished
  refine orderly.close (fun key different => (set key).trans (if_neg different)) ?_ ?_ ?_ ?_
  · intro q pending
    rw [set, if_pos rfl] at pending
    cases pending
  all_goals
    rw [finish_of_pending found] at finished
    cases finished
  · exact orderly.distinct.insert _ _
  · rfl
  · exact Nat.add_le_add_right (Nat.le_of_eq (Assoc.length_insert_of_find? found _)) _

theorem Orderly.discard (orderly : Orderly options cache (top :: below)) :
    Orderly options (cache.discard top.key) below := by
  obtain ⟨p, found, -⟩ := orderly.innermost
  refine orderly.close (fun key different => find?_discard_of_ne different) ?_
    (distinct_discard orderly.distinct) (maxEntries_discard cache top.key)
    (charged_discard_le found)
  intro q pending
  rw [find?_discard_self found] at pending
  cases pending

/-- All calls may be given up at once. -/
theorem Orderly.abandon (orderly : Orderly options cache stack) :
    Orderly options cache.discardPlaceholders [] := by
  have kept : cache.discardPlaceholders.entries.Sublist cache.entries := List.filter_sublist
  refine ⟨⟨.nil, by simp, ?_⟩, by simp, by simp, ?_, orderly.limit, ?_, Nat.zero_le _⟩
  · intro key p found
    have member := (List.mem_filter.1 (Assoc.mem_of_find? found)).2
    simp [CacheEntry.isPending] at member
  · exact List.Nodup.sublist (kept.map Prod.fst) orderly.distinct
  · exact Nat.le_trans (Nat.add_le_add_right kept.length_le _) orderly.charged

end Multimethod.Inference
