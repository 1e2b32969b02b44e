/-!
# Repetition up to a limit

Something is done in rounds. What a round comes to tells whether there is another one and where it
begins, and there are never more rounds than the limit allows, except for the first.
-/

namespace Multimethod

variable {σ : Type}

/-- The states in which rounds begin, with the number of rounds before. -/
inductive Rounds (next : Nat → σ → Option σ) (limit : Nat) (start : σ) : Nat → σ → Prop where
  | first : Rounds next limit start 0 start
  | again {n : Nat} {s t : σ} (before : Rounds next limit start n s) (moves : next n s = some t)
      (more : n + 1 < limit) : Rounds next limit start (n + 1) t

/-- The state in which a round begins, with nothing to limit the rounds before. -/
def roundStart (next : Nat → σ → Option σ) (start : σ) : Nat → Option σ
  | 0 => some start
  | n + 1 => (roundStart next start n).bind (next n)

namespace Rounds

variable {next : Nat → σ → Option σ} {limit : Nat} {start s t : σ} {m n : Nat}

theorem unique (here : Rounds next limit start n s) (there : Rounds next limit start n t) :
    s = t := by
  induction here generalizing t with
  | first =>
      cases there
      rfl
  | again _ moves _ ih =>
      cases there with
      | again before' moves' _ =>
          cases ih before'
          exact Option.some.inj (moves.symm.trans moves')

theorem roundStart_eq (here : Rounds next limit start n s) : roundStart next start n = some s := by
  induction here with
  | first => rfl
  | again before moves more ih => rw [roundStart, ih, Option.bind_some, moves]

theorem exists_of_le (here : Rounds next limit start n s) (less : m ≤ n) :
    ∃ t, Rounds next limit start m t := by
  induction here with
  | first =>
      cases Nat.le_zero.1 less
      exact ⟨_, .first⟩
  | again before moves more ih =>
      rcases Nat.le_succ_iff.1 less with less | rfl
      · exact ih less
      · exact ⟨_, .again before moves more⟩

/-- There are as many rounds as the limit allows, but at least one. -/
theorem lt (here : Rounds next limit start n s) : n < max 1 limit := by
  cases here with
  | first => exact Nat.lt_of_lt_of_le Nat.zero_lt_one (Nat.le_max_left _ _)
  | again _ _ more => exact Nat.lt_of_lt_of_le more (Nat.le_max_right _ _)

/-- Whether a round is the last one. -/
def IsLast (next : Nat → σ → Option σ) (limit : Nat) (start : σ) (n : Nat) : Prop :=
  ∀ m t, Rounds next limit start m t → m ≤ n

/-- Behind the last round there is none, unless it is for the limit. -/
theorem next_eq_none (here : Rounds next limit start n s) (last : IsLast next limit start n)
    (more : n + 1 < limit) : next n s = none := by
  cases moves : next n s with
  | none => rfl
  | some t => exact absurd (last _ _ (.again here moves more)) (Nat.not_succ_le_self n)

theorem exists_last_of {n : Nat} {s : σ} (here : Rounds next limit start n s) :
    ∃ m t, Rounds next limit start m t ∧ IsLast next limit start m := by
  by_cases further : ∃ t, Rounds next limit start (n + 1) t
  · obtain ⟨t, further⟩ := further
    exact exists_last_of further
  · refine ⟨n, s, here, fun m t other => Nat.le_of_not_lt fun more => further ?_⟩
    exact other.exists_of_le more
termination_by max 1 limit - n
decreasing_by
  have bounded := further.lt
  omega

theorem exists_last (next : Nat → σ → Option σ) (limit : Nat) (start : σ) :
    ∃ n s, Rounds next limit start n s ∧ IsLast next limit start n :=
  exists_last_of .first

end Rounds

end Multimethod
