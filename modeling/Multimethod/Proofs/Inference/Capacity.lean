import Mathlib.Data.List.Induction
import Multimethod.Proofs.Inference.Stack

/-!
# A cache under any operations

The analysis makes a key pending before it finishes it, and asks for what is finished before it
makes anything pending. A cache does not insist on either. Whatever is asked of it, it exceeds its
limit exactly by finishing a key without an entry when there is no room, and forgets a result
exactly by making its key pending again or by being cleared.
-/

namespace Multimethod.Inference

/-- What can be asked of a cache. -/
inductive CacheOp where
  | begin (key : String) (depth : Int)
  | finish (key : String) (result : Inferred)
  | discard (key : String)
  | discardPlaceholders
  | clear

namespace Cache

/-- The cache behind an operation, unless it fails. -/
def perform (cache : Cache) : CacheOp → Checked Cache
  | .begin key depth => cache.begin key depth
  | .finish key result => cache.finish key result
  | .discard key => .ok (cache.discard key)
  | .discardPlaceholders => .ok cache.discardPlaceholders
  | .clear => .ok cache.clear

/-- The cache behind an operation. One that fails changes nothing. -/
def behind (cache : Cache) (op : CacheOp) : Cache :=
  match cache.perform op with
  | .ok next => next
  | .error _ => cache

/-- The cache behind operations one after the other. -/
def after (cache : Cache) (ops : List CacheOp) : Cache :=
  ops.foldl behind cache

/-- Whether an operation finishes a key that has no entry although there is no room. -/
def Overfills (cache : Cache) (op : CacheOp) : Prop :=
  ∃ key result, op = .finish key result ∧ cache.find? key = none ∧
    cache.maxEntries ≤ cache.charged

variable {cache next : Cache} {key other : String} {result : Inferred} {op : CacheOp}

theorem after_concat (cache : Cache) (ops : List CacheOp) (op : CacheOp) :
    cache.after (ops ++ [op]) = (cache.after ops).behind op := by
  rw [after, List.foldl_append]
  rfl

theorem after_append (cache : Cache) (first second : List CacheOp) :
    cache.after (first ++ second) = (cache.after first).after second :=
  List.foldl_append

/-! ## The limit -/

theorem charged_insert_of_unknown (unknown : cache.find? key = none) (entry : CacheEntry) :
    (cache.entries.insert key entry).length + cache.discarded = cache.charged + 1 := by
  have longer := congrArg List.length (Assoc.keys_insert cache.entries key entry)
  rw [if_neg (Assoc.find?_eq_none_iff.1 unknown)] at longer
  simp only [Assoc.keys, List.length_map, List.length_append, List.length_singleton] at longer
  rw [longer, charged, size]
  omega

theorem charged_insert_of_known {old : CacheEntry} (known : cache.find? key = some old)
    (entry : CacheEntry) :
    (cache.entries.insert key entry).length + cache.discarded = cache.charged := by
  rw [Assoc.length_insert_of_find? known]
  rfl

theorem charged_begin {depth : Int} (begun : cache.begin key depth = .ok next)
    (within : (cache.charged : Int) ≤ cache.maxEntries) :
    (next.charged : Int) ≤ cache.maxEntries := by
  obtain ⟨room, rfl⟩ := begin_eq_ok begun
  cases found : cache.find? key with
  | none =>
      have counted := charged_insert_of_unknown found
        (.pending ⟨cache.begun, depth, .bottom, [], false⟩)
      have below := room found
      simp only [charged, size] at counted below ⊢
      omega
  | some old =>
      have counted := charged_insert_of_known found
        (.pending ⟨cache.begun, depth, .bottom, [], false⟩)
      simp only [charged, size] at counted within ⊢
      omega

/-- What finishing a key counts: one more if the key had no entry. -/
theorem charged_finish (done : cache.finish key result = .ok next) :
    next.charged = cache.charged + if cache.find? key = none then 1 else 0 := by
  have stored : next = { cache with entries := cache.entries.insert key (.finished result) } := by
    unfold finish at done
    split at done
    · cases done
    · cases done
      rfl
  subst stored
  cases found : cache.find? key with
  | none => exact charged_insert_of_unknown found _
  | some old => exact charged_insert_of_known found _

theorem charged_discard (cache : Cache) (key : String) :
    (cache.discard key).charged ≤ cache.charged := by
  cases found : cache.pending? key with
  | none =>
      have kept : cache.discard key = cache := by rw [discard, found]
      exact Nat.le_of_eq (congrArg charged kept)
  | some p => exact charged_discard_le (find?_of_pending? found)

theorem charged_discardPlaceholders (cache : Cache) :
    cache.discardPlaceholders.charged ≤ cache.charged :=
  Nat.add_le_add_right (List.length_filter_le _ _) _

theorem finish_of_unknown (unknown : cache.find? key = none) (result : Inferred) :
    cache.finish key result =
      .ok { cache with entries := cache.entries.insert key (.finished result) } := by
  rw [finish, unknown]

theorem maxEntries_behind (cache : Cache) (op : CacheOp) :
    (cache.behind op).maxEntries = cache.maxEntries := by
  unfold behind
  cases done : cache.perform op with
  | error fault => rfl
  | ok next =>
      cases op with
      | begin key depth =>
          obtain ⟨-, rfl⟩ := begin_eq_ok done
          rfl
      | finish key result =>
          change cache.finish key result = .ok next at done
          unfold finish at done
          split at done
          · cases done
          · cases done
            rfl
      | discard key =>
          cases done
          exact maxEntries_discard cache key
      | discardPlaceholders =>
          cases done
          rfl
      | clear =>
          cases done
          rfl

theorem maxEntries_after (cache : Cache) (ops : List CacheOp) :
    (cache.after ops).maxEntries = cache.maxEntries := by
  induction ops generalizing cache with
  | nil => rfl
  | cons op ops ih => exact (ih (cache.behind op)).trans (maxEntries_behind cache op)

/-- An operation that does not overfill a cache keeps it within its limit. -/
theorem charged_behind (bound : 0 ≤ cache.maxEntries)
    (within : (cache.charged : Int) ≤ cache.maxEntries) (fits : ¬ cache.Overfills op) :
    ((cache.behind op).charged : Int) ≤ cache.maxEntries := by
  unfold behind
  cases done : cache.perform op with
  | error fault => exact within
  | ok next =>
      cases op with
      | begin key depth => exact charged_begin done within
      | finish key result =>
          have counted := charged_finish done
          dsimp only
          rw [counted]
          split
          case isTrue unknown =>
              have room : ¬ cache.maxEntries ≤ cache.charged :=
                fun full => fits ⟨key, result, rfl, unknown, full⟩
              omega
          case isFalse => exact within
      | discard key =>
          cases done
          exact Int.le_trans (Int.ofNat_le.2 (charged_discard cache key)) within
      | discardPlaceholders =>
          cases done
          exact Int.le_trans (Int.ofNat_le.2 (charged_discardPlaceholders cache)) within
      | clear =>
          cases done
          exact bound

/-- An operation that overfills a cache brings it over its limit. -/
theorem Overfills.lt_charged (overfills : cache.Overfills op) :
    cache.maxEntries < (cache.behind op).charged := by
  obtain ⟨key, result, rfl, unknown, full⟩ := overfills
  have stored := finish_of_unknown unknown result
  have counted := charged_finish stored
  rw [if_pos unknown] at counted
  rw [behind, perform, stored]
  dsimp only at counted ⊢
  omega

/-! ## Results -/

/-- No operation takes a result away but one that makes its key pending or clears the cache. -/
theorem find?_behind_of_finished (found : cache.find? key = some (.finished result))
    (reopened : ∀ depth, op ≠ .begin key depth) (cleared : op ≠ .clear) :
    (cache.behind op).find? key = some (.finished result) := by
  unfold behind
  cases done : cache.perform op with
  | error fault => exact found
  | ok next =>
      cases op with
      | begin other depth =>
          have different : other ≠ key := fun same => reopened depth (by rw [same])
          exact (find?_begin done).trans ((if_neg different).trans found)
      | finish other stored =>
          refine (find?_finish done).trans ((if_neg fun same => ?_).trans found)
          subst same
          change cache.finish other stored = .ok next at done
          rw [finish, found] at done
          cases done
      | discard other =>
          cases done
          by_cases same : other = key
          · subst same
            simp [discard, pending?, found]
          · exact (find?_discard_of_ne same).trans found
      | discardPlaceholders =>
          cases done
          exact Assoc.find?_filter found rfl
      | clear => exact absurd rfl cleared

/-- Making a key pending that has a result takes the result away. -/
theorem find?_behind_begin (found : cache.find? key = some (.finished result)) (depth : Int) :
    ((cache.behind (.begin key depth)).find? key) ≠ some (.finished result) := by
  unfold behind
  cases done : cache.perform (.begin key depth) with
  | error fault =>
      change cache.begin key depth = .error fault at done
      rw [begin, found] at done
      cases done
  | ok next =>
      dsimp only
      rw [find?_begin done, if_pos rfl]
      simp

/-- A result stays through operations exactly if none makes its key pending, unless the cache is
    cleared. -/
theorem finished_through_iff {ops : List CacheOp}
    (found : cache.find? key = some (.finished result)) (uncleared : .clear ∉ ops) :
    (∀ done, done <+: ops → (cache.after done).find? key = some (.finished result)) ↔
      ∀ depth, .begin key depth ∉ ops := by
  constructor
  · intro kept depth member
    obtain ⟨before, rest, rfl⟩ := List.append_of_mem member
    have lost := find?_behind_begin (kept before (List.prefix_append _ _)) depth
    rw [← after_concat] at lost
    refine lost (kept (before ++ [.begin key depth]) ⟨rest, ?_⟩)
    rw [List.append_assoc, List.singleton_append]
  · intro closed done begins
    induction done using List.reverseRecOn with
    | nil => exact found
    | append_singleton done op ih =>
        have member : op ∈ ops := begins.subset (by simp)
        rw [after_concat]
        refine find?_behind_of_finished (ih ((List.prefix_append _ _).trans begins)) ?_ ?_
        · rintro depth rfl
          exact closed depth member
        · rintro rfl
          exact uncleared member

end Cache

/-- Through any operations on an empty cache, the limit is kept at every step exactly if no step
    finishes a key without an entry when there is no room. And a result is there, from when its key
    is finished until the cache is cleared, exactly if its key is not made pending in between. -/
theorem limit_and_results_kept_iff {maxEntries : Int} (bound : 0 ≤ maxEntries)
    (ops : List CacheOp) :
    ((∀ done, done <+: ops → (((Cache.empty maxEntries).after done).charged : Int) ≤ maxEntries) ↔
      ∀ done op, done ++ [op] <+: ops → ¬ ((Cache.empty maxEntries).after done).Overfills op) ∧
    ∀ before key result next during, before ++ .finish key result :: during <+: ops →
      ((Cache.empty maxEntries).after before).finish key result = .ok next → .clear ∉ during →
      ((∀ done, done <+: during →
          ((Cache.empty maxEntries).after (before ++ .finish key result :: done)).find? key =
            some (.finished result)) ↔
        ∀ depth, .begin key depth ∉ during) := by
  have limit := Cache.maxEntries_after (Cache.empty maxEntries)
  refine ⟨⟨fun kept done op begins overfills => ?_, fun fits done begins => ?_⟩, ?_⟩
  · have exceeded := overfills.lt_charged
    rw [limit, ← Cache.after_concat] at exceeded
    exact absurd (kept _ begins) (Int.not_le.2 exceeded)
  · induction done using List.reverseRecOn with
    | nil => exact bound
    | append_singleton done op ih =>
        have within := ih ((List.prefix_append _ _).trans begins)
        have room : 0 ≤ ((Cache.empty maxEntries).after done).maxEntries := by rwa [limit]
        have step := Cache.charged_behind room (by rwa [limit]) (fits done op begins)
        rwa [limit, ← Cache.after_concat] at step
  · intro before key result next during _ finished uncleared
    have found : next.find? key = some (.finished result) :=
      (find?_finish finished).trans (if_pos rfl)
    have reached : ∀ done, (Cache.empty maxEntries).after (before ++ .finish key result :: done) =
        next.after done := by
      intro done
      rw [Cache.after_append, Cache.after, List.foldl_cons, Cache.behind, Cache.perform, finished]
      rfl
    simp only [reached]
    exact Cache.finished_through_iff found uncleared

namespace Examples

/-- What a call of `f` came to. -/
def settled : Inferred :=
  ⟨Frame.start ⟨"f", default, none⟩ [.int] .interpreted, true⟩

/-- A call is analysed, one within it is given up, and there is no room for a third. -/
def crowdedOps : List CacheOp :=
  [.begin "f()" 0, .begin "g()" 1, .discard "g()", .finish "f()" settled, .begin "h()" 0,
    .finish "f()" settled, .discard "f()", .discardPlaceholders]

/-- The third call is refused, the limit holds throughout, and the result of `f` stays. -/
theorem limit_and_results_kept_iff_crowded :
    (0 : Int) ≤ 2 ∧
      (∀ done, done <+: crowdedOps → (((Cache.empty 2).after done).charged : Int) ≤ 2) ∧
      ((Cache.empty 2).after crowdedOps).find? "f()" = some (.finished settled) ∧
      ((Cache.empty 2).after crowdedOps).find? "h()" = none := by
  have kept := @limit_and_results_kept_iff 2 (by decide) crowdedOps
  refine ⟨by decide, kept.1.2 ?_, ?_, rfl⟩
  · rintro done op ⟨rest, whole⟩ ⟨key, result, rfl, unknown, -⟩
    -- a key is finished at two places of the script, and has an entry at both
    have places :
        done = crowdedOps.take 3 ∧ key = "f()" ∨ done = crowdedOps.take 5 ∧ key = "f()" := by
      rcases done with
          _ | ⟨a, _ | ⟨b, _ | ⟨c, _ | ⟨d, _ | ⟨e, _ | ⟨f, _ | ⟨g, _ | ⟨i, done⟩⟩⟩⟩⟩⟩⟩⟩ <;>
        simp_all [crowdedOps]
    rcases places with ⟨rfl, rfl⟩ | ⟨rfl, rfl⟩ <;> cases unknown
  · exact (kept.2 (crowdedOps.take 3) "f()" settled _ (crowdedOps.drop 4) (List.prefix_refl _) rfl
      (by simp [crowdedOps])).2 (by simp [crowdedOps]) _ (List.prefix_refl _)

/-- With no room at all, a key that was never pending can be finished. With room for one entry, a
    key that has a result can be made pending, which takes the result away. -/
theorem limit_exceeded_and_result_lost :
    ¬ (((Cache.empty 0).after [.finish "f()" settled]).charged : Int) ≤ 0 ∧
    ((Cache.empty 1).after [.begin "f()" 0, .finish "f()" settled]).find? "f()" =
      some (.finished settled) ∧
    ((Cache.empty 1).after [.begin "f()" 0, .finish "f()" settled, .begin "f()" 0]).find? "f()" =
      some (.pending ⟨1, 0, .bottom, [], false⟩) :=
  ⟨by decide, rfl, rfl⟩

end Examples

end Multimethod.Inference
