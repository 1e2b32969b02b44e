import Multimethod.Inference.Cache
import Multimethod.Proofs.Ty.Identity

/-!
# Keys tell calls apart

A key is the name of a function, an opening parenthesis and the ids of the arguments, separated
as the parts of a type are. The first parenthesis ends the name, since no name contains one, and
what follows is read back argument by argument.
-/

namespace Multimethod

namespace Ty

/-- Readable types listed with one text are the same types. -/
theorem eq_of_listIds_eq {isAbstract : String → Bool} {ts us : List Ty}
    (hts : allReadable isAbstract ts = true) (hus : allReadable isAbstract us = true)
    (same : listIds ts = listIds us) : ts = us := by
  have listed := forall₂_of_listIds_eq (legible_readable isAbstract) (allReadable_iff.1 hts)
    (allReadable_iff.1 hus) same
  rwa [List.forall₂_eq_eq_eq] at listed

end Ty

namespace Inference

theorem toList_keyOf (callee : String) (args : List Ty) :
    (Cache.keyOf callee args).toList = callee.toList ++ '(' :: (Ty.listIds args ++ [')']) := by
  rw [Cache.keyOf, ← Ty.ids_eq_map]
  simp only [String.toList_append, Ty.toList_intercalate_ids]
  simp

/-- The first opening parenthesis ends the name of the function. -/
theorem append_open_inj {u v r s : List Char} (hu : '(' ∉ u) (hv : '(' ∉ v)
    (same : u ++ '(' :: r = v ++ '(' :: s) : u = v ∧ r = s := by
  induction u generalizing v with
  | nil =>
      cases v with
      | nil => simpa using same
      | cons d v =>
          rw [List.nil_append, List.cons_append, List.cons.injEq] at same
          rw [← same.1] at hv
          exact absurd List.mem_cons_self hv
  | cons c u ih =>
      cases v with
      | nil =>
          rw [List.nil_append, List.cons_append, List.cons.injEq] at same
          rw [same.1] at hu
          exact absurd List.mem_cons_self hu
      | cons d v =>
          rw [List.cons_append, List.cons_append, List.cons.injEq] at same
          obtain ⟨rfl, same⟩ := same
          obtain ⟨rfl, rest⟩ := ih (fun member => hu (List.mem_cons_of_mem _ member))
            (fun member => hv (List.mem_cons_of_mem _ member)) same
          exact ⟨rfl, rest⟩

/-- A key is read back as the call it was made of. -/
theorem call_eq_of_keyOf_eq {isAbstract : String → Bool} {callee callee' : String}
    {args args' : List Ty} (plain : '(' ∉ callee.toList) (plain' : '(' ∉ callee'.toList)
    (readable : Ty.allReadable isAbstract args = true)
    (readable' : Ty.allReadable isAbstract args' = true)
    (same : Cache.keyOf callee args = Cache.keyOf callee' args') :
    callee = callee' ∧ args = args' := by
  rw [← String.toList_inj, toList_keyOf, toList_keyOf] at same
  obtain ⟨names, lists⟩ := append_open_inj plain plain' same
  exact ⟨String.toList_inj.1 names,
    Ty.eq_of_listIds_eq readable readable' (List.append_cancel_right lists)⟩

/-- Over types whose names are plain and of one kind each, the id of a type tells it from all
    others, and the key of a call tells the function, the number of its arguments and each
    argument from those of all other calls. -/
theorem keys_identify_calls (isAbstract : String → Bool) :
    (∀ t u : Ty, t.readable isAbstract = true → u.readable isAbstract = true → t.id = u.id →
      t = u) ∧
    ∀ (callee callee' : String) (args args' : List Ty), '(' ∉ callee.toList →
      '(' ∉ callee'.toList → (∀ t ∈ args, t.readable isAbstract = true) →
      (∀ t ∈ args', t.readable isAbstract = true) →
      Cache.keyOf callee args = Cache.keyOf callee' args' →
        callee = callee' ∧ args.length = args'.length ∧ args = args' := by
  refine ⟨fun t u ht hu same => Ty.eq_of_id_eq ht hu same, ?_⟩
  intro callee callee' args args' plain plain' readable readable' same
  obtain ⟨rfl, rfl⟩ := call_eq_of_keyOf_eq plain plain' (Ty.allReadable_iff.2 readable)
    (Ty.allReadable_iff.2 readable') same
  exact ⟨rfl, rfl, rfl⟩

namespace Examples

/-- The pair of a set of numbers or texts, and an abstract type. -/
def nested : Ty :=
  .concrete "Pair" [.union [.concrete "Set" [.int], .string], .abstract "Number"]

/-- A call with a nested type and one without arguments share their keys with no other call. -/
theorem keys_identify_calls_nested :
    (∀ u : Ty, u.readable (· == "Number") = true →
      nested.id = u.id → nested = u) ∧
    Cache.keyOf "f" [nested, .any] = "f(Pair{Union{Set{Int}, String}, Number}, Any)" ∧
    (Cache.keyOf "f" [nested, .any] = Cache.keyOf "f" [nested, .any] →
      "f" = "f" ∧ [nested, .any].length = 2 ∧ [nested, Ty.any] = [nested, .any]) := by
  have readable : nested.readable (· == "Number") = true := by decide
  refine ⟨fun u hu same => (keys_identify_calls _).1 nested u readable hu same, by decide, ?_⟩
  intro same
  have all : ∀ t ∈ [nested, Ty.any], t.readable (· == "Number") = true := by decide
  exact (keys_identify_calls _).2 "f" "f" [nested, .any] [nested, .any] (by decide) (by decide)
    all all same

end Examples

end Inference

end Multimethod
