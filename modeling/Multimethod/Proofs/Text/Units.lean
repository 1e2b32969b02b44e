import Multimethod.Text.Units

/-!
# The order of texts

Two texts with the same units are equal, since a unit of a surrogate pair is never a character
of its own. Comparing unit by unit is therefore a strict total order on texts.
-/

namespace Multimethod

/-- What a character can be: any code point but the surrogates. -/
theorem toNat_not_surrogate (c : Char) :
    c.toNat < 0xD800 ∨ (0xDFFF < c.toNat ∧ c.toNat < 0x110000) :=
  c.valid

/-- The units of a character end where they end: what follows them does not matter. -/
theorem unitsOf_append_inj {c d : Char} {r s : List Nat}
    (h : unitsOf c ++ r = unitsOf d ++ s) : c = d ∧ r = s := by
  have hc := toNat_not_surrogate c
  have hd := toNat_not_surrogate d
  unfold unitsOf at h
  by_cases hc' : c.toNat < 0x10000 <;> by_cases hd' : d.toNat < 0x10000
  · simp only [if_pos hc', if_pos hd', List.cons_append, List.nil_append, List.cons.injEq] at h
    exact ⟨Char.toNat_inj.1 h.1, h.2⟩
  · -- a single unit is no surrogate, but a pair starts with one
    simp only [if_pos hc', if_neg hd', List.cons_append, List.nil_append, List.cons.injEq] at h
    omega
  · simp only [if_neg hc', if_pos hd', List.cons_append, List.nil_append, List.cons.injEq] at h
    omega
  · simp only [if_neg hc', if_neg hd', List.cons_append, List.nil_append, List.cons.injEq] at h
    obtain ⟨high, low, rest⟩ := h
    have same : c.toNat = d.toNat := by omega
    exact ⟨Char.toNat_inj.1 same, rest⟩

theorem unitsOf_ne_nil (c : Char) : unitsOf c ≠ [] := by
  unfold unitsOf
  split <;> simp

theorem flatMap_unitsOf_inj {cs ds : List Char}
    (h : cs.flatMap unitsOf = ds.flatMap unitsOf) : cs = ds := by
  induction cs generalizing ds with
  | nil =>
      cases ds with
      | nil => rfl
      | cons d ds => simp [unitsOf_ne_nil] at h
  | cons c cs ih =>
      cases ds with
      | nil => simp [unitsOf_ne_nil] at h
      | cons d ds =>
          rw [List.flatMap_cons, List.flatMap_cons] at h
          obtain ⟨rfl, rest⟩ := unitsOf_append_inj h
          rw [ih rest]

/-- The units of a text determine it. -/
theorem units_injective {s t : String} (h : units s = units t) : s = t :=
  String.toList_inj.1 (flatMap_unitsOf_inj h)

@[simp] theorem not_unitsBefore_self (s : String) : unitsBefore s s = false := by
  simp [unitsBefore]

theorem unitsBefore_trans {s t u : String} (h : unitsBefore s t = true)
    (h' : unitsBefore t u = true) : unitsBefore s u = true := by
  simp only [unitsBefore, decide_eq_true_eq] at *
  exact List.lt_trans h h'

theorem unitsBefore_asymm {s t : String} (h : unitsBefore s t = true) :
    unitsBefore t s = false := by
  cases h' : unitsBefore t s with
  | false => rfl
  | true => simpa using unitsBefore_trans h h'

/-- Of two different texts one stands before the other. -/
theorem unitsBefore_or_unitsBefore {s t : String} (h : s ≠ t) :
    unitsBefore s t = true ∨ unitsBefore t s = true := by
  simp only [unitsBefore, decide_eq_true_eq]
  by_cases before : units s < units t
  · exact Or.inl before
  · refine Or.inr (Decidable.byContradiction fun behind => h ?_)
    exact units_injective (List.le_antisymm (List.not_lt.1 behind) (List.not_lt.1 before))

/-- A list in the order of texts that tell its elements apart is given by what its elements are. -/
theorem eq_of_mem_iff_of_ascending {α : Type} {text : α → String} {xs ys : List α}
    (ascending : xs.Pairwise fun x y => unitsBefore (text x) (text y) = true)
    (ascending' : ys.Pairwise fun x y => unitsBefore (text x) (text y) = true)
    (same : ∀ x, x ∈ xs ↔ x ∈ ys) : xs = ys := by
  have apart : ∀ {zs : List α},
      zs.Pairwise (fun x y => unitsBefore (text x) (text y) = true) → zs.Nodup :=
    fun sorted => sorted.imp fun {x y} before equal => by
      rw [equal, not_unitsBefore_self] at before
      cases before
  refine List.Perm.eq_of_pairwise (fun x y _ _ before behind => ?_) ascending ascending'
    ((List.perm_ext_iff_of_nodup (apart ascending) (apart ascending')).2 same)
  rw [unitsBefore_asymm before] at behind
  cases behind

end Multimethod
