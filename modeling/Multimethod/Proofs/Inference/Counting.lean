import Multimethod.Inference.Run
import Multimethod.Proofs.Assoc
import Multimethod.Proofs.Inference.Fixpoint
import Multimethod.Proofs.Inference.Scripts

/-!
# Counting further

A session tells its placeholders apart by numbers, and counts how often one has moved. The numbers
never show: a session that has counted further does what it would have done, with all numbers
further on.
-/

namespace Multimethod.Inference

open Dispatch Multimethod.Lattice

/-- An entry whose placeholder was made `n` placeholders later. -/
def CacheEntry.later (n : Nat) : CacheEntry → CacheEntry
  | pending p => pending { p with serial := p.serial + n }
  | finished result => finished result

/-- A cache that has made `n` more placeholders before. -/
def Cache.later (n : Nat) (cache : Cache) : Cache :=
  { cache with
    entries := cache.entries.mapValues (CacheEntry.later n)
    begun := cache.begun + n }

/-- A frame whose placeholder was made `n` placeholders later. -/
def Active.later (n : Nat) (active : Active) : Active :=
  { active with serial := active.serial + n }

/-- A provisional result that was found `g` moves and `n` placeholders later. -/
def Provisional.later (g n : Nat) (memo : Provisional) : Provisional :=
  { memo with headSerial := memo.headSerial + n, generation := memo.generation + g }

/-- A session in which `g` more moves and `n` more placeholders were made before. -/
def Session.later (g n : Nat) (s : Session) : Session where
  cache := s.cache.later n
  provisional := s.provisional.mapValues (Provisional.later g n)
  stack := s.stack.map (Active.later n)
  generation := s.generation + g

/-- Whether a computation does the same in a session that has counted further. -/
def Commutes (g n : Nat) {α : Type} (m : Infer α) : Prop :=
  ∀ s, m (s.later g n) = ((m s).1, (m s).2.later g n)

variable {setting : Setting} {g n : Nat} {α β : Type} {m : Infer α} {f : α → Infer β}
  {cache : Cache} {key : String} {depth : Int} {s : Session}

theorem Commutes.pure (x : α) : Commutes g n (pure x : Infer α) :=
  fun _ => rfl

theorem Commutes.bind (first : Commutes g n m) (next : ∀ x, Commutes g n (f x)) :
    Commutes g n (m >>= f) := by
  intro s
  rw [bind_run, bind_run, first s]
  match m s with
  | (.ok x, t) => exact next x t
  | (.error _, _) => rfl

/-- What is read off a session may depend on everything but its counters. -/
theorem Commutes.read {f : Session → Infer α}
    (next : ∀ s, f (s.later g n) (s.later g n) = ((f s s).1, (f s s).2.later g n)) :
    Commutes g n (get >>= f) :=
  next

theorem set_later (s : Session) {t u : Session} (same : u = t.later g n) :
    (set u : Infer Unit) (s.later g n) =
      (((set t : Infer Unit) s).1, ((set t : Infer Unit) s).2.later g n) := by
  rw [same]
  rfl

/-! ## The cache -/

theorem Cache.find?_later : (cache.later n).find? key = (cache.find? key).map (.later n) :=
  Assoc.find?_mapValues _ _

theorem Cache.charged_later : (cache.later n).charged = cache.charged := by
  simp [charged, size, later, Assoc.mapValues]

theorem Cache.pending?_later (cache : Cache) : (cache.later n).pending? key =
    (cache.pending? key).map fun p => { p with serial := p.serial + n } := by
  rw [pending?, pending?, find?_later]
  cases cache.find? key with
  | none => rfl
  | some entry => cases entry <;> rfl

theorem Cache.setPlaceholder_later (cache : Cache) (key : String) (p : Placeholder) :
    (cache.later n).setPlaceholder key { p with serial := p.serial + n } =
      (cache.setPlaceholder key p).later n := by
  simp only [setPlaceholder, later, Assoc.insert_mapValues, CacheEntry.later]

theorem Cache.begin_later :
    (cache.later n).begin key depth = (cache.begin key depth).map (Cache.later n) := by
  have known : ((cache.later n).find? key).isNone = (cache.find? key).isNone := by
    rw [find?_later, Option.isNone_map]
  rw [begin, begin, known, charged_later]
  by_cases full : (cache.find? key).isNone && cache.maxEntries ≤ cache.charged
  · rw [if_pos full]
    exact if_pos full
  · rw [if_neg full]
    refine (if_neg full).trans ?_
    simp [Except.map, later, Assoc.insert_mapValues, CacheEntry.later, Nat.add_right_comm]

theorem Cache.finish_later (result : Inferred) :
    (cache.later n).finish key result = (cache.finish key result).map (Cache.later n) := by
  rw [finish, finish, find?_later]
  have stored : (Assoc.insert (cache.later n).entries key (.finished result)) =
      ((cache.entries.insert key (.finished result)).mapValues (CacheEntry.later n)) := by
    rw [Assoc.insert_mapValues]
    rfl
  match cache.find? key with
  | none => simp [later, Except.map, Assoc.insert_mapValues, CacheEntry.later]
  | some (.pending _) => simp [later, Except.map, Assoc.insert_mapValues, CacheEntry.later]
  | some (.finished _) => rfl

theorem Cache.discard_later : (cache.later n).discard key = (cache.discard key).later n := by
  rw [discard, discard, pending?_later]
  cases cache.pending? key with
  | none => rfl
  | some p => simp [later, Assoc.erase_mapValues]

theorem Cache.discardPlaceholders_later (cache : Cache) :
    (cache.later n).discardPlaceholders = cache.discardPlaceholders.later n := by
  simp only [discardPlaceholders, later, mk.injEq, true_and, and_true]
  refine Assoc.filter_mapValues _ fun _ entry => ?_
  cases entry <;> rfl

/-! ## The steps of a call -/

theorem dependOn_later (stack : List Active) (depth : Nat) :
    dependOn (stack.map (Active.later n)) depth = (dependOn stack depth).map (Active.later n) := by
  match stack with
  | [] => rfl
  | top :: rest =>
      simp only [dependOn, List.map_cons, List.length_map]
      split <;> rfl

theorem headOf_later (stack : List Active) (dependsOn : Option Nat) :
    headOf (stack.map (Active.later n)) dependsOn =
      (headOf stack dependsOn).map (Prod.map id (Active.later n)) := by
  match dependsOn with
  | none => rfl
  | some depth =>
      simp only [headOf, ← List.map_reverse, List.getElem?_map, Option.map_map]
      rfl

theorem widenRecursiveArgs_later (stack : List Active) (callee : String) (args : List Ty)
    (site : CallSite) : widenRecursiveArgs setting (stack.map (Active.later n)) callee args site =
      widenRecursiveArgs setting stack callee args site := by
  have matching : (stack.map (Active.later n)).filter
      (fun f => f.callee == callee && f.loc == site.loc) =
        (stack.filter fun f => f.callee == callee && f.loc == site.loc).map (Active.later n) :=
    List.filter_map
  simp only [widenRecursiveArgs, matching, ← List.map_reverse, List.all_map, List.map_map]
  rfl

theorem isCurrent_later (memo : Provisional) :
    isCurrent (s.later g n) (memo.later g n) = isCurrent s memo := by
  simp only [isCurrent, Session.later, Provisional.later, Cache.pending?_later]
  congr 1
  · exact Bool.eq_iff_iff.2 (by simp)
  · cases s.cache.pending? memo.headKey <;> simp

theorem memo_later : (((s.later g n).provisional.find? key).filter (isCurrent (s.later g n))) =
    ((s.provisional.find? key).filter (isCurrent s)).map (Provisional.later g n) := by
  change ((s.provisional.mapValues (Provisional.later g n)).find? key).filter _ = _
  rw [Assoc.find?_mapValues]
  cases s.provisional.find? key with
  | none => rfl
  | some memo =>
      rw [Option.map_some, Option.filter_some, isCurrent_later, Option.filter_some]
      split <;> rfl

theorem reenter_later (p : Placeholder) (site : CallSite) (args : List Ty) :
    reenter key { p with serial := p.serial + n } site args (s.later g n) =
      ((reenter key p site args s).1, (reenter key p site args s).2.later g n) := by
  have met := Cache.setPlaceholder_later (n := n) s.cache key { p with reentered := true }
  have noted := dependOn_later (n := n) s.stack p.depth.toNat
  exact congrArg _ (congrArg₂ (fun cache stack => (⟨cache, _, stack, _⟩ : Session)) met noted)

theorem reuse_later (memo : Provisional) (site : CallSite) (args : List Ty) :
    reuse (memo.later g n) site args (s.later g n) =
      ((reuse memo site args s).1, (reuse memo site args s).2.later g n) := by
  have noted := dependOn_later (n := n) s.stack memo.dependsOn
  exact congrArg _ (congrArg (fun stack => (⟨_, _, stack, _⟩ : Session)) noted)

theorem commutes_enter (callee : String) (args : List Ty) (site : CallSite) (key : String) :
    Commutes g n (enter callee args site key) := by
  refine .read fun s => ?_
  have begun : (s.later g n).cache.begin key (s.later g n).stack.length =
      (s.cache.begin key s.stack.length).map (Cache.later n) := by
    rw [Session.later, List.length_map]
    exact Cache.begin_later
  dsimp only
  rw [begun]
  cases s.cache.begin key s.stack.length with
  | error fault => rfl
  | ok cache => rfl

theorem commutes_store (key : String) (dependsOn : Option Nat) (frame : Frame)
    (converged : Bool) : Commutes g n (store key dependsOn frame converged) := by
  refine .read fun s => ?_
  have head : headOf (s.later g n).stack dependsOn = _ := headOf_later s.stack dependsOn
  dsimp only
  rw [head]
  cases headOf s.stack dependsOn with
  | some found =>
      refine set_later s ?_
      simp only [Session.later, Cache.discard_later, dependOn_later, Assoc.insert_mapValues]
      rfl
  | none =>
      have finished : (s.later g n).cache.finish key ⟨frame, converged⟩ = _ :=
        Cache.finish_later ⟨frame, converged⟩
      dsimp only [Option.map_none]
      rw [finished]
      cases s.cache.finish key ⟨frame, converged⟩ with
      | error fault => rfl
      | ok cache => exact set_later s (by simp only [Session.later, Assoc.erase_mapValues])

theorem commutes_popOnExit (inner : Commutes g n m) : Commutes g n (popOnExit m) := by
  intro s
  unfold popOnExit
  rw [inner s]
  cases m s with
  | mk result t => simp only [Session.later, List.map_tail]

theorem commutes_topDependency : Commutes g n topDependency := by
  refine .read fun s => ?_
  have top : (s.later g n).stack.head?.bind (·.dependsOn) = s.stack.head?.bind (·.dependsOn) := by
    cases stack : s.stack <;> simp [Session.later, stack, Active.later]
  change (Except.ok ((s.later g n).stack.head?.bind _), _) = _
  rw [top]
  rfl

theorem moved_later (p : Placeholder) (next : Ty) (history : List Ty) :
    (s.later g n).moved key { p with serial := p.serial + n } next history =
      (s.moved key p next history).later g n := by
  have set := Cache.setPlaceholder_later (n := n) s.cache key
    { p with ret := next, history := history, reentered := false }
  simp only [Session.moved, Session.later, ← set, Nat.add_right_comm]

theorem commutes_settle {pass : Infer Frame} (passes : Commutes g n pass) (key : String)
    (left iteration : Nat) (frame : Frame) :
    Commutes g n (settle setting pass key left iteration frame) := by
  intro s
  have pending : (s.later g n).cache.pending? key = _ := Cache.pending?_later s.cache
  rw [settle_eq, settle_eq, pending]
  cases s.cache.pending? key with
  | none => rfl
  | some p =>
      dsimp only [Option.map_some]
      rw [show nextReturn setting { p with serial := p.serial + n } frame.ret iteration =
        nextReturn setting p frame.ret iteration from rfl]
      split
      · rfl
      · split
        · rfl
        · match left with
          | 0 => rfl
          | left + 1 =>
              dsimp only
              rw [moved_later]
              exact passes.bind (commutes_settle passes key left (iteration + 1)) _

theorem commutes_fixpoint {pass : Infer Frame} (passes : Commutes g n pass) (key : String) :
    Commutes g n (fixpoint setting pass key) :=
  passes.bind (commutes_settle passes key _ 1)

/-! ## Calls -/

theorem Script.commutes {caller : Caller}
    (calls : ∀ callee args loc, Commutes g n (caller callee args { callee := callee, loc := loc }))
    (script : Script α) : Commutes g n (script.run caller) := by
  induction script with
  | done x => exact .pure x
  | stray jump loc => exact fun _ => rfl
  | call callee args loc next ih => exact (calls callee args loc).bind ih

theorem commutes_dispatchPass {caller : Caller}
    (calls : ∀ callee args loc, Commutes g n (caller callee args { callee := callee, loc := loc }))
    (callee : String) (args : List Ty) (site : CallSite) :
    Commutes g n (dispatchPass setting caller callee args site) := by
  obtain ⟨script, follows⟩ := exists_script_dispatchPass setting callee args site
  rw [show dispatchPass setting caller callee args site = _ from follows caller]
  exact script.commutes calls

/-- A call does the same in a session that has counted further. -/
theorem commutes_interpret (room : Nat) (callee : String) (args : List Ty) (site : CallSite) :
    Commutes g n (interpret setting room callee args site) := by
  unfold interpret
  refine .read fun s => ?_
  have widened : widenRecursiveArgs setting (s.later g n).stack callee args site = _ :=
    widenRecursiveArgs_later s.stack callee args site
  dsimp only
  rw [widened]
  generalize widenRecursiveArgs setting s.stack callee args site = args
  rw [show (s.later g n).cache.find? _ = _ from Cache.find?_later, memo_later]
  cases s.cache.find? (Cache.keyOf callee args) with
  | some entry =>
      cases entry with
      | finished result => rfl
      | pending p => exact reenter_later p site args
  | none =>
      cases Option.filter (isCurrent s) (s.provisional.find? (Cache.keyOf callee args)) with
      | some memo => exact reuse_later memo site args
      | none =>
          match room with
          | 0 => rfl
          | room + 1 =>
              refine (commutes_enter _ _ _ _).bind (fun _ => ?_) s
              have passes : Commutes g n
                  (dispatchPass setting (interpret setting room) callee args site) :=
                commutes_dispatchPass (fun callee args loc =>
                  commutes_interpret room callee args { callee := callee, loc := loc }) callee args
                  site
              refine (commutes_popOnExit ((commutes_fixpoint passes _).bind fun result =>
                commutes_topDependency.bind fun _ => .pure _)).bind fun result => ?_
              exact (commutes_store _ _ _ _).bind fun _ => .pure _

/-! ## Runs -/

variable {entry : EntryCall} {args : List Ty} {body : Body}

theorem commutes_interpretCall (callee : String) (args : List Ty) (loc : Location) :
    Commutes g n (interpretCall setting callee args { callee := callee, loc := loc }) :=
  commutes_interpret _ callee args _

theorem commutes_of_built {m : Caller → Walk α} (built : Built m) (b : Body) :
    Commutes g n (m (interpretCall setting) b) := by
  obtain ⟨script, follows⟩ := built.exists_script b
  rw [show m (interpretCall setting) b = _ from follows _]
  exact script.commutes commutes_interpretCall

theorem commutes_catchLimit (inner : Commutes g n m) : Commutes g n (catchLimit m) := by
  intro s
  unfold catchLimit
  rw [inner s]
  match m s with
  | (.ok _, _) => rfl
  | (.error (.limit _ _), _) => rfl
  | (.error (.malformed _ _), _) => rfl
  | (.error (.tableSealed _), _) => rfl
  | (.error (.entrySealed _), _) => rfl

theorem commutes_runEvaluated : Commutes g n (runEvaluated setting entry args body) := by
  unfold runEvaluated
  split
  · exact .pure _
  · split
    · exact (commutes_interpretCall _ _ _).bind fun _ => .pure _
    · exact (commutes_of_built (built_resolveCall _ _ args _) body).bind fun _ => .pure _

theorem commutes_abandon (message : String) : Commutes g n (abandon entry args message) := by
  intro s
  have dropped := Cache.discardPlaceholders_later (n := n) s.cache
  exact congrArg _ (congrArg (fun cache => (⟨cache, _, _, _⟩ : Session)) dropped)

theorem commutes_runEntry (entry : EntryCall) : Commutes g n (runEntry setting entry) := by
  refine (commutes_catchLimit (commutes_of_built (built_evalAll _ _) _)).bind fun evaluated => ?_
  match evaluated with
  | .inr message => exact commutes_abandon message
  | .inl (args, body) =>
      refine (commutes_catchLimit commutes_runEvaluated).bind fun outcome => ?_
      match outcome with
      | .inr message => exact commutes_abandon message
      | .inl frame => exact .pure _

/-- A run does the same in a session that has counted further. -/
theorem commutes_runEntries (file : String) (entries : List EntryCall) :
    Commutes g n (runEntries setting file entries) := by
  have each : Commutes g n (entries.mapM (runEntry setting)) := by
    induction entries with
    | nil => exact .pure _
    | cons entry entries ih =>
        rw [List.mapM_cons]
        exact (commutes_runEntry entry).bind fun _ => ih.bind fun _ => .pure _
  have cleared : Commutes g n (modify fun s : Session =>
      { s with cache := s.cache.clear, provisional := [] }) := fun _ => rfl
  refine cleared.bind fun _ => each.bind fun _ => .read fun s => ?_
  have size : (s.later g n).cache.size = s.cache.size := by
    simp [Session.later, Cache.later, Cache.size, Assoc.mapValues]
  exact congrArg (fun size => ((Except.ok (⟨file, _, size⟩ : RunResult) : Except Fault _), _)) size

end Multimethod.Inference
