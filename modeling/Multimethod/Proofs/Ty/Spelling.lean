import Multimethod.Proofs.Inference.Keys

/-!
# Ids tell how types are rendered

Types may share an id: a type variable with a class of its name, or a class with a builtin type.
They are then rendered alike, as long as no name is empty or contains one of the marks that
structure ids. The key of a call tells in the same way how the call is rendered.
-/

namespace Multimethod

/-- Whether a name is not empty and contains none of the marks that structure ids. -/
def isSpelled (name : String) : Bool :=
  !name.toList.isEmpty && name.toList.all fun c => !isMark c

theorem isSpelled_iff {name : String} :
    isSpelled name = true ↔ name.toList ≠ [] ∧ ∀ c ∈ name.toList, isMark c = false := by
  simp [isSpelled]

namespace Ty

mutual

/-- Whether all names in a type can be told from the marks of its id. -/
def spelled : Ty → Bool
  | any => true
  | bottom => true
  | concrete name ps => isSpelled name && allSpelled ps
  | abstract name => isSpelled name
  | typeVar name bound => isSpelled name && spelled bound
  | union ms => allSpelled ms

/-- Whether all names in the types of a list can be. -/
def allSpelled : List Ty → Bool
  | [] => true
  | t :: ts => spelled t && allSpelled ts

end

theorem allSpelled_iff {ts : List Ty} : allSpelled ts = true ↔ ∀ t ∈ ts, t.spelled = true := by
  induction ts with
  | nil => simp [allSpelled]
  | cons t ts ih => simp [allSpelled, ih]

theorem spelled_concrete {name : String} {ps : List Ty} :
    (concrete name ps).spelled = true ↔ isSpelled name = true ∧ ∀ p ∈ ps, p.spelled = true := by
  rw [spelled, Bool.and_eq_true, allSpelled_iff]

theorem isSpelled_of_isPlainName {name : String} (plain : isPlainName name = true) :
    isSpelled name = true := by
  simp only [isPlainName, Bool.and_eq_true] at plain
  exact Bool.and_eq_true_iff.2 plain.1.1.1

/-- What can be read back from its id has proper names. -/
theorem spelled_of_readable {isAbstract : String → Bool} (t : Ty) :
    t.readable isAbstract = true → t.spelled = true := by
  induction t using parts_induction with
  | any => exact fun _ => rfl
  | bottom => exact fun _ => rfl
  | abstract name =>
      intro told
      rw [readable, Bool.and_eq_true] at told
      exact isSpelled_of_isPlainName told.1
  | typeVar name bound => simp [readable]
  | concrete name ps ih =>
      intro told
      simp only [readable, Bool.and_eq_true, allReadable_iff] at told
      exact spelled_concrete.2
        ⟨isSpelled_of_isPlainName told.1.1, fun p hp => ih p hp (told.2 p hp)⟩
  | union ms ih =>
      intro told
      rw [readable, allReadable_iff] at told
      exact allSpelled_iff.2 fun m hm => ih m hm (told m hm)

/-! ## Rendering -/

/-- Whether two types are rendered alike, however deep. -/
def RenderedAlike (t u : Ty) : Prop :=
  ∀ levels, t.renderLevels levels = u.renderLevels levels

theorem renderAllLevels_congr {ts us : List Ty} (alike : List.Forall₂ RenderedAlike ts us)
    (levels : Nat) : renderAllLevels levels ts = renderAllLevels levels us := by
  induction alike with
  | nil => rfl
  | cons first _ ih => rw [renderAllLevels, renderAllLevels, first levels, ih]

/-- A rendered type is its word with the rendered types in brackets. -/
theorem renderLevels_succ (levels : Nat) (t : Ty) :
    t.renderLevels (levels + 1) = t.word ++
      match t.bracketed with
      | none => ""
      | some ts => "\x7b" ++ ", ".intercalate (renderAllLevels levels ts) ++ "\x7d" := by
  cases t with
  | concrete name ps => cases ps <;> simp [renderLevels, word, bracketed, String.append_assoc]
  | union ms =>
      have opens : "Union\x7b" = "Union" ++ "\x7b" := by decide
      simp only [renderLevels, word, bracketed, opens, String.append_assoc]
  | _ => simp [renderLevels, word, bracketed]

theorem renderedAlike_of_bracketed {t u : Ty} (sameWord : t.word = u.word)
    (sameInner : Option.Rel (List.Forall₂ RenderedAlike) t.bracketed u.bracketed) :
    RenderedAlike t u := by
  intro levels
  cases levels with
  | zero => cases t <;> cases u <;> rfl
  | succ levels =>
      rw [renderLevels_succ, renderLevels_succ, sameWord]
      congr 1
      generalize t.bracketed = inner at sameInner ⊢
      generalize u.bracketed = other at sameInner ⊢
      cases sameInner with
      | none => rfl
      | some alike =>
          dsimp only
          rw [renderAllLevels_congr alike]

/-- Ids tell how types with proper names are rendered. -/
theorem legible_spelled : Legible (fun t => t.spelled = true) RenderedAlike where
  word t h := by
    cases t with
    | any => simp [word, isMark]
    | bottom => simp [word, isMark]
    | union ms => simp [word, isMark]
    | typeVar name bound =>
        rw [spelled, Bool.and_eq_true] at h
        exact isSpelled_iff.1 h.1
    | concrete name ps => exact isSpelled_iff.1 (spelled_concrete.1 h).1
    | abstract name => exact isSpelled_iff.1 h
  inner t h ts inner := by
    cases t with
    | concrete name ps =>
        cases ps with
        | nil => simp [bracketed] at inner
        | cons p ps =>
            obtain rfl : p :: ps = ts := by simpa [bracketed] using inner
            exact (spelled_concrete.1 h).2
    | union ms =>
        obtain rfl : ms = ts := by simpa [bracketed] using inner
        exact allSpelled_iff.1 h
    | _ => simp [bracketed] at inner
  same _ _ _ _ := renderedAlike_of_bracketed

/-! ## Keys -/

/-- A parenthesis in a list of ids is one in an id. -/
theorem open_mem_listIds {ts : List Ty} (member : '(' ∈ listIds ts) :
    ∃ t ∈ ts, '(' ∈ t.id.toList := by
  have further : '(' ∈ furtherIds ts → ∃ t ∈ ts, '(' ∈ t.id.toList := by
    clear member
    induction ts with
    | nil => simp [furtherIds]
    | cons t ts ih =>
        intro member
        simp only [furtherIds, List.mem_append, List.mem_cons, Char.reduceEq, false_or] at member
        rcases member with here | further
        · exact ⟨t, List.mem_cons_self, here⟩
        · obtain ⟨u, among, inside⟩ := ih further
          exact ⟨u, List.mem_cons_of_mem _ among, inside⟩
  cases ts with
  | nil => cases member
  | cons t ts =>
      rw [listIds, List.mem_append] at member
      rcases member with here | member
      · exact ⟨t, List.mem_cons_self, here⟩
      · exact further (by rw [furtherIds]; simp [member])

theorem open_not_mem_id_of_bracketed {t : Ty} (named : t.spelled = true)
    (inner : ∀ ts ∈ t.bracketed, ∀ u ∈ ts, '(' ∉ u.id.toList) : '(' ∉ t.id.toList := by
  intro member
  rw [toList_id, List.mem_append] at member
  rcases member with here | member
  · exact absurd ((legible_spelled.word t named).2 _ here) (by decide)
  · cases within : t.bracketed with
    | none =>
        rw [within, brackets] at member
        cases member
    | some ts =>
        simp only [within, brackets, List.mem_append, List.mem_cons, Char.reduceEq, false_or,
          List.not_mem_nil, or_false] at member
        obtain ⟨u, among, inside⟩ := open_mem_listIds member
        exact inner ts within u among inside

theorem open_not_mem_id (t : Ty) : t.spelled = true → '(' ∉ t.id.toList := by
  induction t using parts_induction with
  | concrete name ps ih =>
      refine fun named => open_not_mem_id_of_bracketed named fun ts inner u member => ?_
      cases ps with
      | nil => simp [bracketed] at inner
      | cons p ps =>
          obtain rfl : p :: ps = ts := by simpa [bracketed] using inner
          exact ih u member (legible_spelled.inner _ named _ rfl u member)
  | union ms ih =>
      refine fun named => open_not_mem_id_of_bracketed named fun ts inner u member => ?_
      obtain rfl : ms = ts := by simpa [bracketed] using inner
      exact ih u member (legible_spelled.inner _ named _ rfl u member)
  | _ =>
      refine fun named => open_not_mem_id_of_bracketed named fun ts inner => ?_
      simp [bracketed] at inner

theorem open_not_mem_listIds {ts : List Ty} (named : ∀ t ∈ ts, t.spelled = true) :
    '(' ∉ listIds ts := by
  intro member
  obtain ⟨t, among, inside⟩ := open_mem_listIds member
  exact open_not_mem_id t (named t among) inside

end Ty

namespace Inference

/-- The last opening parenthesis starts the list of arguments. -/
theorem append_open_inj_of_last {u v r s : List Char} (hr : '(' ∉ r) (hs : '(' ∉ s)
    (same : u ++ '(' :: r = v ++ '(' :: s) : u = v ∧ r = s := by
  have reversed := congrArg List.reverse same
  simp only [List.reverse_append, List.reverse_cons, List.append_assoc, List.singleton_append]
    at reversed
  obtain ⟨rests, names⟩ := append_open_inj (by simpa using hr) (by simpa using hs) reversed
  exact ⟨List.reverse_inj.1 names, List.reverse_inj.1 rests⟩

/-- Whether a key tells how the calls with types of a kind are rendered. -/
def KeysRender (kind : Ty → Prop) : Prop :=
  ∀ callee callee' args args', (∀ a ∈ args, kind a) → (∀ a ∈ args', kind a) →
    Cache.keyOf callee args = Cache.keyOf callee' args' →
      renderCall callee none args = renderCall callee' none args'

/-- The key of a call tells how the call is rendered, if all names in its types are proper. -/
theorem keysRender_spelled : KeysRender fun t => t.spelled = true := by
  intro callee callee' args args' named named' same
  rw [← String.toList_inj, toList_keyOf, toList_keyOf] at same
  obtain ⟨callees, lists⟩ := append_open_inj_of_last
    (by simpa using Ty.open_not_mem_listIds named) (by simpa using Ty.open_not_mem_listIds named')
    same
  have alike := Ty.forall₂_of_listIds_eq Ty.legible_spelled named named'
    (List.append_cancel_right lists)
  have rendered : args.map (fun t => "::" ++ t.render) = args'.map fun t => "::" ++ t.render := by
    clear same lists named named'
    induction alike with
    | nil => rfl
    | cons first _ ih => rw [List.map_cons, List.map_cons, Ty.render, Ty.render, first, ih]
  rw [renderCall, renderCall, String.toList_inj.1 callees, rendered]

end Inference

end Multimethod
