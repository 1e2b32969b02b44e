import Mathlib.Data.List.Forall2
import Multimethod.Proofs.Report.Pruning
import Multimethod.Report.Structured
import Multimethod.Report.Text

/-!
# Reading reports back

The text form of a report shows how calls are nested by nothing but the rails in front of its
lines. A reader that looks at the rails only finds the whole forest of calls again, and it is the
forest that the structured form spells out.

The induction is on the call trees, with any lines behind them: after the lines of a tree, the
reader stands where it stood before, and has one more call.
-/

namespace Multimethod.Report

open Inference Multimethod.Frame

/-- A call in a report: what its first line says, its diagnostics and the calls below it. -/
inductive Node where
  | call (head : String) (notes : List String) (calls : List Node)

/-! ## The reader of texts -/

/-- A line of a text report, with the number of rails in front of it. -/
inductive Rail where
  | opening (depth : Nat) (head : String)
  | note (depth : Nat) (text : String)
  | closing (depth : Nat)

/-- Reads a line behind `depth` rails. A line without rails is none of a call tree, nor is one
    whose rails lead to nothing known. -/
def Rail.read (depth : Nat) : List Char → Option Rail
  | '│' :: line => Rail.read (depth + 1) line
  | '┌' :: ' ' :: '@' :: ' ' :: head => some (.opening depth (String.ofList head))
  | ' ' :: text =>
      match depth with
      | 0 => none
      | depth + 1 => some (.note depth (String.ofList text))
  | ['└'] => some (.closing depth)
  | _ => none

/-- Whether a line is a diagnostic. -/
def Rail.isNote : Rail → Bool
  | .note _ _ => true
  | _ => false

/-- A call whose closing line is still to come: what is known of it, and the calls before it. -/
structure Opened where
  head : String
  notes : List String
  before : List Node

/-- Puts the lines of call trees together. `opened` are the calls around the present line,
    innermost first, and `calls` those read so far at its depth. -/
def assemble : (opened : List Opened) → (calls : List Node) → List Rail → Option (List Node)
  | [], calls, [] => some calls
  | opened, calls, .opening depth head :: lines =>
      if depth = opened.length then assemble (⟨head, [], calls⟩ :: opened) [] lines else none
  | ⟨head, notes, before⟩ :: opened, calls, .note depth text :: lines =>
      if depth = opened.length then
        assemble (⟨head, notes ++ [text], before⟩ :: opened) calls lines
      else none
  | ⟨head, notes, before⟩ :: opened, calls, .closing depth :: lines =>
      if depth = opened.length then assemble opened (before ++ [.call head notes calls]) lines
      else none
  | _, _, _ => none

/-- The lines of a text. -/
def linesOf (text : String) : List (List Char) :=
  text.toList.splitOn '\n'

/-- The lines of a text that belong to call trees. -/
def railsOf (text : String) : List Rail :=
  (linesOf text).filterMap (Rail.read 0)

/-! ## The reader of structured reports -/

/-- The first line of a call from the parts of a structured report. -/
def headOf (showFile : Bool) (file line call : String) : String :=
  (if showFile then file ++ ":" ++ line else "line " ++ line) ++ "  " ++ call

/-- A diagnostic of a structured report. -/
def noteOfJson : Json → Option String
  | .object (("kind", .string kind) :: ("message", .string message) :: _) =>
      some (kind ++ ": " ++ message)
  | _ => none

mutual

/-- A call tree of a structured report. -/
def nodeOfJson (showFile : Bool) : Json → Option Node
  | .object [("call", .string call), ("file", .string file), ("line", .number line), _, _,
      ("errors", .array errors), ("children", .array children)] => do
      let notes ← errors.mapM noteOfJson
      let calls ← nodesOfJson showFile children
      pure (.call (headOf showFile file line call) notes calls)
  | _ => none

/-- The call trees of a list of a structured report. -/
def nodesOfJson (showFile : Bool) : List Json → Option (List Node)
  | [] => some []
  | item :: items => do
      let node ← nodeOfJson showFile item
      let nodes ← nodesOfJson showFile items
      pure (node :: nodes)

end

/-- The call trees of a structured report. -/
def forestOfJson (showFile : Bool) (value : Json) : Option (List Node) :=
  match value.field? "entries" with
  | some (.array entries) => nodesOfJson showFile entries
  | _ => none

/-! ## What both forms show -/

/-- The first line of a call, behind its rails. -/
def headLine (showFile : Bool) (frame : Frame) : String :=
  place showFile frame.site.loc ++ "  " ++ frame.site.render frame.args

/-- The line of a diagnostic, behind its rails. -/
def noteLine (d : Diagnostic) : String :=
  d.kind.word ++ ": " ++ d.message

mutual

/-- A call tree as a report shows it. Its siblings are taken as they stand. -/
def nodeOf (showFile : Bool) : Frame → Node
  | ⟨site, args, ret, status, origin, errors, children⟩ =>
      .call (headLine showFile ⟨site, args, ret, status, origin, errors, children⟩)
        (errors.map noteLine) (nodesOf showFile children)

/-- Several call trees as a report shows them. -/
def nodesOf (showFile : Bool) : List Frame → List Node
  | [] => []
  | frame :: frames => nodeOf showFile frame :: nodesOf showFile frames

end

/-! ### Rails -/

theorem toList_rail (depth : Nat) : (rail depth).toList = List.replicate depth '│' := by
  rw [rail, String.toList_ofList]

/-- Rails in front of a line are counted. -/
theorem read_replicate (depth more : Nat) (line : List Char) :
    Rail.read depth (List.replicate more '│' ++ line) = Rail.read (depth + more) line := by
  induction more generalizing depth with
  | zero => rfl
  | succ more ih =>
      rw [List.replicate_succ, List.cons_append, Rail.read, ih, Nat.add_assoc, Nat.add_comm 1]

theorem read_opening (depth : Nat) (head : String) :
    Rail.read 0 (rail depth ++ ("┌ @ " ++ head)).toList = some (.opening depth head) := by
  simp [toList_rail, read_replicate, Rail.read]

theorem read_note (depth : Nat) (text : String) :
    Rail.read 0 (rail depth ++ ("│ " ++ text)).toList = some (.note depth text) := by
  simp [toList_rail, read_replicate, Rail.read]

theorem read_closing (depth : Nat) :
    Rail.read 0 (rail depth ++ "└").toList = some (.closing depth) := by
  simp [toList_rail, read_replicate, Rail.read]

theorem frameLines_eq (showFile : Bool) (depth : Nat) (frame : Frame) :
    frameLines showFile depth frame =
      (rail depth ++ ("┌ @ " ++ headLine showFile frame))
        :: frame.errors.map (fun d => rail depth ++ ("│ " ++ noteLine d))
        ++ allFrameLines showFile (depth + 1) frame.children ++ [rail depth ++ "└"] := by
  cases frame
  simp [frameLines, headLine, noteLine, toString, String.append_assoc]

/-- The lines of call trees among the lines of a report. -/
def railsAmong (lines : List String) : List Rail :=
  lines.filterMap fun line => Rail.read 0 line.toList

theorem railsAmong_append (lines more : List String) :
    railsAmong (lines ++ more) = railsAmong lines ++ railsAmong more :=
  List.filterMap_append

theorem railsAmong_cons {line : String} {read : Rail}
    (reads : Rail.read 0 line.toList = some read) (lines : List String) :
    railsAmong (line :: lines) = read :: railsAmong lines :=
  List.filterMap_cons_some reads

theorem railsAmong_notes (depth : Nat) (errors : List Diagnostic) :
    railsAmong (errors.map fun d => rail depth ++ ("│ " ++ noteLine d)) =
      errors.map fun d => Rail.note depth (noteLine d) := by
  induction errors with
  | nil => rfl
  | cons d errors ih => rw [List.map_cons, railsAmong_cons (read_note _ _), ih, List.map_cons]

theorem railsAmong_frameLines (showFile : Bool) (depth : Nat) (frame : Frame) :
    railsAmong (frameLines showFile depth frame) =
      .opening depth (headLine showFile frame)
        :: frame.errors.map (fun d => Rail.note depth (noteLine d))
        ++ railsAmong (allFrameLines showFile (depth + 1) frame.children)
        ++ [.closing depth] := by
  rw [frameLines_eq, railsAmong_append, railsAmong_append, railsAmong_cons (read_opening _ _),
    railsAmong_notes, railsAmong_cons (read_closing _)]
  rfl

/-! ### Putting the lines together -/

theorem assemble_notes (head : String) (notes : List String) (before calls : List Node)
    (opened : List Opened) (errors : List Diagnostic) (lines : List Rail) :
    assemble (⟨head, notes, before⟩ :: opened) calls
        (errors.map (fun d => Rail.note opened.length (noteLine d)) ++ lines) =
      assemble (⟨head, notes ++ errors.map noteLine, before⟩ :: opened) calls lines := by
  induction errors generalizing notes with
  | nil => rw [List.map_nil, List.nil_append, List.map_nil, List.append_nil]
  | cons d errors ih =>
      rw [List.map_cons, List.cons_append, assemble, if_pos rfl, ih, List.map_cons,
        List.append_assoc, List.singleton_append]

mutual

/-- After the lines of a call tree, the reader stands where it stood, with one more call. -/
theorem assemble_frameLines (showFile : Bool) (opened : List Opened) (calls : List Node)
    (lines : List Rail) (frame : Frame) :
    assemble opened calls (railsAmong (frameLines showFile opened.length frame) ++ lines) =
      assemble opened (calls ++ [nodeOf showFile frame]) lines := by
  match frame with
  | ⟨site, args, ret, status, origin, errors, children⟩ =>
      rw [railsAmong_frameLines, nodeOf, List.append_assoc, List.append_assoc, List.cons_append,
        assemble, if_pos rfl, assemble_notes, List.nil_append]
      have below := assemble_allFrameLines showFile
        (⟨headLine showFile ⟨site, args, ret, status, origin, errors, children⟩,
          errors.map noteLine, calls⟩ :: opened) [] ([.closing opened.length] ++ lines) children
      rw [List.length_cons] at below
      rw [below, List.singleton_append, assemble, if_pos rfl, List.nil_append]

theorem assemble_allFrameLines (showFile : Bool) (opened : List Opened) (calls : List Node)
    (lines : List Rail) (frames : List Frame) :
    assemble opened calls (railsAmong (allFrameLines showFile opened.length frames) ++ lines) =
      assemble opened (calls ++ nodesOf showFile frames) lines := by
  match frames with
  | [] =>
      rw [allFrameLines, nodesOf, List.append_nil]
      rfl
  | frame :: frames =>
      rw [allFrameLines, railsAmong_append, List.append_assoc,
        assemble_frameLines showFile opened calls _ frame,
        assemble_allFrameLines showFile opened _ lines frames, nodesOf, List.append_assoc,
        List.singleton_append]

end

/-! ### The structured form -/

theorem mapM_noteOfJson (errors : List Diagnostic) :
    (errors.map Diagnostic.toJson).mapM noteOfJson = some (errors.map noteLine) := by
  induction errors with
  | nil => rfl
  | cons d errors ih =>
      rw [List.map_cons, List.mapM_cons, ih, List.map_cons]
      rfl

theorem headOf_eq (showFile : Bool) (frame : Frame) :
    headOf showFile frame.site.loc.file (toString frame.site.loc.line)
      (frame.site.render frame.args) = headLine showFile frame := by
  cases showFile <;> simp [headOf, headLine, place, toString]

mutual

theorem nodeOfJson_toJson (showFile : Bool) (frame : Frame) :
    nodeOfJson showFile frame.toJson = some (nodeOf showFile frame) := by
  match frame with
  | ⟨site, args, ret, status, origin, errors, children⟩ =>
      rw [Frame.toJson, Json.ofNat, nodeOfJson, mapM_noteOfJson,
        nodesOfJson_allToJson showFile children, nodeOf]
      exact congrArg (fun head => some (Node.call head _ _))
        (headOf_eq showFile ⟨site, args, ret, status, origin, errors, children⟩)

theorem nodesOfJson_allToJson (showFile : Bool) (frames : List Frame) :
    nodesOfJson showFile (allToJson frames) = some (nodesOf showFile frames) := by
  match frames with
  | [] => rw [allToJson, nodesOfJson, nodesOf]
  | frame :: frames =>
      rw [allToJson, nodesOfJson, nodeOfJson_toJson showFile frame,
        nodesOfJson_allToJson showFile frames, nodesOf]
      rfl

end

theorem forestOfJson_toJson (showFile : Bool) (report : Report) :
    forestOfJson showFile report.toJson =
      some (nodesOf showFile (orderedAll report.entries)) := by
  rw [← nodesOfJson_allToJson]
  rfl

/-! ### Source order -/

/-- Whether a node shows a call tree: its diagnostics in their order and its calls by line and
    column, those of one place in call order. -/
inductive Presents (showFile : Bool) : Frame → Node → Prop where
  | call {frame : Frame} {order : List Frame} {calls : List Node}
      (perm : order.Perm frame.children)
      (sorted : order.Pairwise fun a b =>
        a.site.loc.line < b.site.loc.line ∨
          a.site.loc.line = b.site.loc.line ∧ a.site.loc.column ≤ b.site.loc.column)
      (ties : ∀ line column,
        order.filter (fun f => f.site.loc.line = line ∧ f.site.loc.column = column) =
          frame.children.filter fun f => f.site.loc.line = line ∧ f.site.loc.column = column)
      (below : List.Forall₂ (Presents showFile) order calls) :
      Presents showFile frame
        (.call (headLine showFile frame) (frame.errors.map noteLine) calls)

theorem notAfter_iff (a b : Location) :
    a.notAfter b = true ↔ a.line < b.line ∨ a.line = b.line ∧ a.column ≤ b.column := by
  simp [Location.notAfter]

theorem notAfter_trans (a b c : Frame) (first : a.site.loc.notAfter b.site.loc = true)
    (second : b.site.loc.notAfter c.site.loc = true) :
    a.site.loc.notAfter c.site.loc = true := by
  rw [notAfter_iff] at *
  omega

theorem notAfter_total (a b : Frame) :
    (a.site.loc.notAfter b.site.loc || b.site.loc.notAfter a.site.loc) = true := by
  rw [Bool.or_eq_true, notAfter_iff, notAfter_iff]
  omega

theorem perm_inSourceOrder (frames : List Frame) : (inSourceOrder frames).Perm frames :=
  List.mergeSort_perm frames _

theorem sorted_inSourceOrder (frames : List Frame) :
    (inSourceOrder frames).Pairwise fun a b =>
      a.site.loc.line < b.site.loc.line ∨
        a.site.loc.line = b.site.loc.line ∧ a.site.loc.column ≤ b.site.loc.column :=
  (List.pairwise_mergeSort notAfter_trans notAfter_total frames).imp
    fun sorted => (notAfter_iff _ _).1 sorted

/-- Frames at one place are left in their order. -/
theorem filter_inSourceOrder (frames : List Frame) (line column : Nat) :
    (inSourceOrder frames).filter (fun f => f.site.loc.line = line ∧ f.site.loc.column = column) =
      frames.filter fun f => f.site.loc.line = line ∧ f.site.loc.column = column := by
  have together : (frames.filter fun f => f.site.loc.line = line ∧ f.site.loc.column = column
      ).Pairwise fun a b => a.site.loc.notAfter b.site.loc = true := by
    refine List.pairwise_of_forall_mem_list fun a ha b hb => ?_
    have ha := List.of_mem_filter ha
    have hb := List.of_mem_filter hb
    simp only [decide_eq_true_eq] at ha hb
    rw [notAfter_iff]
    omega
  have kept : (frames.filter fun f => f.site.loc.line = line ∧ f.site.loc.column = column
      ).Sublist (inSourceOrder frames) :=
    List.sublist_mergeSort notAfter_trans notAfter_total together List.filter_sublist
  have kept := kept.filter fun f => f.site.loc.line = line ∧ f.site.loc.column = column
  rw [List.filter_filter] at kept
  simp only [Bool.and_self] at kept
  exact (kept.eq_of_length ((perm_inSourceOrder frames).filter _).length_eq.symm).symm

theorem orderedAll_eq_map (frames : List Frame) : orderedAll frames = frames.map ordered := by
  induction frames with
  | nil => rw [orderedAll, List.map_nil]
  | cons frame frames ih => rw [orderedAll, ih, List.map_cons]

theorem nodesOf_eq_map (showFile : Bool) (frames : List Frame) :
    nodesOf showFile frames = frames.map (nodeOf showFile) := by
  induction frames with
  | nil => rw [nodesOf, List.map_nil]
  | cons frame frames ih => rw [nodesOf, ih, List.map_cons]

theorem site_ordered (frame : Frame) : frame.ordered.site = frame.site := by
  cases frame
  rw [ordered]

/-- Ordering below the frames of a list does not move them. -/
theorem inSourceOrder_orderedAll (frames : List Frame) :
    inSourceOrder (orderedAll frames) = (inSourceOrder frames).map ordered := by
  rw [orderedAll_eq_map, inSourceOrder, inSourceOrder, List.map_mergeSort]
  intro a _ b _
  rw [site_ordered, site_ordered]

mutual

theorem presents_ordered (showFile : Bool) (frame : Frame) :
    Presents showFile frame (nodeOf showFile frame.ordered) := by
  match frame with
  | ⟨site, args, ret, status, origin, errors, children⟩ =>
      have below := presents_orderedAll showFile children
      rw [ordered, nodeOf, inSourceOrder_orderedAll, nodesOf_eq_map, List.map_map]
      refine .call (perm_inSourceOrder children)
        (sorted_inSourceOrder children) (filter_inSourceOrder children) ?_
      rw [List.forall₂_map_right_iff, List.forall₂_same]
      exact fun child member => below child ((perm_inSourceOrder children).mem_iff.1 member)

theorem presents_orderedAll (showFile : Bool) (frames : List Frame) :
    ∀ frame ∈ frames, Presents showFile frame (nodeOf showFile frame.ordered) := by
  match frames with
  | [] => simp
  | frame :: frames =>
      intro f member
      rcases List.mem_cons.1 member with same | member
      · rw [same]
        exact presents_ordered showFile frame
      · exact presents_orderedAll showFile frames f member

end

/-! ### Lines -/

mutual

/-- The texts that a report shows of a call tree. -/
def frameTexts (showFile : Bool) : Frame → List String
  | ⟨site, args, _, _, _, errors, children⟩ =>
      place showFile site.loc :: site.render args :: errors.map Diagnostic.message
        ++ allFrameTexts showFile children

/-- The texts that a report shows of several call trees. -/
def allFrameTexts (showFile : Bool) : List Frame → List String
  | [] => []
  | frame :: frames => frameTexts showFile frame ++ allFrameTexts showFile frames

end

/-- The texts that a report shows of an entry call that met a limit. -/
def failureTexts (showFile : Bool) (failure : ReportFailure) : List String :=
  [place showFile failure.loc, failure.call, failure.message]

/-- The places, calls and messages that a report shows. -/
def texts (report : Report) (showFile : Bool) : List String :=
  allFrameTexts showFile report.entries ++ report.failures.flatMap (failureTexts showFile)

/-- Whether a text stands on one line. -/
def OneLine (text : String) : Prop :=
  '\n' ∉ text.toList

instance (text : String) : Decidable (OneLine text) :=
  inferInstanceAs (Decidable ('\n' ∉ text.toList))

theorem oneLine_append {a b : String} : OneLine (a ++ b) ↔ OneLine a ∧ OneLine b := by
  simp [OneLine, not_or]

theorem oneLine_toString (n : Nat) : OneLine (toString n) := by
  intro member
  rw [Nat.toString_eq_repr, Nat.repr_eq_ofList_toDigits, String.toList_ofList] at member
  exact absurd (Nat.isDigit_of_mem_toDigits (by decide) (by decide) member) (by decide)

theorem oneLine_rail (depth : Nat) : OneLine (rail depth) := by
  rw [OneLine, toList_rail, List.mem_replicate]
  exact fun member => absurd member.2 (by decide)

theorem oneLine_word (kind : DiagnosticKind) : OneLine kind.word := by
  cases kind <;> decide

theorem oneLine_noteLine {d : Diagnostic} (message : OneLine d.message) :
    OneLine (noteLine d) :=
  oneLine_append.2 ⟨oneLine_append.2 ⟨oneLine_word d.kind, by decide⟩, message⟩

mutual

theorem oneLine_frameLines (showFile : Bool) (depth : Nat) (frame : Frame)
    (shown : ∀ text ∈ frameTexts showFile frame, OneLine text) :
    ∀ line ∈ frameLines showFile depth frame, OneLine line := by
  match frame with
  | ⟨site, args, ret, status, origin, errors, children⟩ =>
      simp only [frameTexts, List.mem_append, List.mem_cons, List.mem_map] at shown
      have below := oneLine_allFrameLines showFile (depth + 1) children
        fun text member => shown text (.inr member)
      have head : OneLine (headLine showFile ⟨site, args, ret, status, origin, errors, children⟩) :=
        oneLine_append.2 ⟨oneLine_append.2 ⟨shown _ (.inl (.inl rfl)), by decide⟩,
          shown _ (.inl (.inr (.inl rfl)))⟩
      rw [frameLines_eq]
      intro line member
      simp only [List.mem_append, List.mem_cons, List.mem_map, List.not_mem_nil, or_false] at member
      rcases member with ((rfl | ⟨d, found, rfl⟩) | member) | rfl
      · exact oneLine_append.2 ⟨oneLine_rail depth, oneLine_append.2 ⟨by decide, head⟩⟩
      · have note := oneLine_noteLine (shown d.message (.inl (.inr (.inr ⟨d, found, rfl⟩))))
        exact oneLine_append.2 ⟨oneLine_rail depth, oneLine_append.2 ⟨by decide, note⟩⟩
      · exact below line member
      · exact oneLine_append.2 ⟨oneLine_rail depth, by decide⟩

theorem oneLine_allFrameLines (showFile : Bool) (depth : Nat) (frames : List Frame)
    (shown : ∀ text ∈ allFrameTexts showFile frames, OneLine text) :
    ∀ line ∈ allFrameLines showFile depth frames, OneLine line := by
  match frames with
  | [] => simp [allFrameLines]
  | frame :: frames =>
      rw [allFrameTexts] at shown
      intro line member
      rw [allFrameLines] at member
      rcases List.mem_append.1 member with member | member
      · exact oneLine_frameLines showFile depth frame
          (fun text found => shown text (List.mem_append_left _ found)) line member
      · exact oneLine_allFrameLines showFile depth frames
          (fun text found => shown text (List.mem_append_right _ found)) line member

end

theorem allFrameTexts_eq_flatMap (showFile : Bool) (frames : List Frame) :
    allFrameTexts showFile frames = frames.flatMap (frameTexts showFile) := by
  induction frames with
  | nil => rw [allFrameTexts, List.flatMap_nil]
  | cons frame frames ih => rw [allFrameTexts, ih, List.flatMap_cons]

mutual

/-- A call tree and its ordered form show the same texts. -/
theorem frameTexts_ordered (showFile : Bool) (frame : Frame) :
    (frameTexts showFile frame.ordered).Perm (frameTexts showFile frame) := by
  match frame with
  | ⟨site, args, ret, status, origin, errors, children⟩ =>
      rw [ordered, frameTexts, frameTexts]
      have moved := (perm_inSourceOrder (orderedAll children)).flatMap_right (frameTexts showFile)
      rw [← allFrameTexts_eq_flatMap, ← allFrameTexts_eq_flatMap] at moved
      exact (moved.trans (allFrameTexts_orderedAll showFile children)).append_left _

theorem allFrameTexts_orderedAll (showFile : Bool) (frames : List Frame) :
    (allFrameTexts showFile (orderedAll frames)).Perm (allFrameTexts showFile frames) := by
  match frames with
  | [] => rw [orderedAll]
  | frame :: frames =>
      rw [orderedAll, allFrameTexts, allFrameTexts]
      exact (frameTexts_ordered showFile frame).append (allFrameTexts_orderedAll showFile frames)

end

theorem oneLine_header (errorCount : Nat) : OneLine (header errorCount) := by
  have number := oneLine_toString errorCount
  unfold header
  split
  · decide
  · dsimp only
    split <;> simpa [OneLine, toString] using number

theorem oneLine_failureLines (showFile : Bool) (failures : List ReportFailure)
    (shown : ∀ text ∈ failures.flatMap (failureTexts showFile), OneLine text) :
    ∀ line ∈ failureLines showFile failures, OneLine line := by
  have number := oneLine_toString failures.length
  intro line member
  rw [failureLines] at member
  split at member
  · cases member
  · rcases List.mem_cons.1 member with rfl | member
    · simpa [OneLine, toString] using number
    · obtain ⟨failure, found, rfl⟩ := List.mem_map.1 member
      have shown : ∀ text ∈ failureTexts showFile failure, OneLine text :=
        fun text named => shown text (List.mem_flatMap.2 ⟨failure, found, named⟩)
      simp only [failureTexts, List.mem_cons, List.not_mem_nil, or_false, forall_eq_or_imp,
        forall_eq] at shown
      simpa [OneLine, toString] using shown

/-- The lines of a report are found again in its text. -/
theorem linesOf_toText (report : Report) (showFile : Bool)
    (shown : ∀ text ∈ report.texts showFile, OneLine text) :
    linesOf (report.toText showFile) = (report.lines showFile).map String.toList := by
  rw [linesOf, toText, String.toList_intercalate]
  refine List.splitOn_intercalate '\n' ?_ (by simp [lines])
  intro chars member
  obtain ⟨line, found, rfl⟩ := List.mem_map.1 member
  have trees := oneLine_allFrameLines showFile 0 (orderedAll report.entries)
    fun text member => shown text <| List.mem_append_left _ <|
      (allFrameTexts_orderedAll showFile report.entries).mem_iff.1 member
  have failures := oneLine_failureLines showFile report.failures
    fun text member => shown text (List.mem_append_right _ member)
  rw [lines, List.mem_append, List.mem_cons] at found
  rcases found with (rfl | found) | found
  · exact oneLine_header report.errorCount
  · exact trees line found
  · exact failures line found

/-! ### Lines without rails -/

theorem read_header (errorCount : Nat) : Rail.read 0 (header errorCount).toList = none := by
  unfold header
  split
  · decide
  · dsimp only
    split <;> simp [toString, Rail.read]

/-- A line that starts with a number is none of a call tree. -/
theorem read_number (n : Nat) (rest : List Char) :
    Rail.read 0 ((toString n).toList ++ ' ' :: rest) = none := by
  have digits : ∀ c ∈ (toString n).toList, c.isDigit = true := by
    rw [Nat.toString_eq_repr, Nat.repr_eq_ofList_toDigits, String.toList_ofList]
    exact fun c member => Nat.isDigit_of_mem_toDigits (by decide) (by decide) member
  cases text : (toString n).toList with
  | nil => rw [List.nil_append, Rail.read]
  | cons c cs =>
      rw [text] at digits
      have digit := digits c List.mem_cons_self
      have marks : ∀ mark ∈ ['│', '┌', ' ', '└'], mark.isDigit = false := by
        simp [Char.isDigit]
      have apart : ∀ mark ∈ ['│', '┌', ' ', '└'], c ≠ mark := by
        rintro mark member rfl
        rw [marks c member] at digit
        cases digit
      rw [List.cons_append]
      unfold Rail.read
      split
      all_goals first | rfl | exact absurd (List.cons.inj ‹_›).1 (apart _ (by simp))

theorem railsAmong_failureLines (showFile : Bool) (failures : List ReportFailure) :
    railsAmong (failureLines showFile failures) = [] := by
  refine List.filterMap_eq_nil_iff.2 fun line member => ?_
  rw [failureLines] at member
  split at member
  · cases member
  · rcases List.mem_cons.1 member with rfl | member
    · have reads := read_number failures.length "entry call(s) could not be profiled:".toList
      simpa [toString] using reads
    · obtain ⟨failure, -, rfl⟩ := List.mem_map.1 member
      simp [toString, Rail.read]

theorem railsOf_toText (report : Report) (showFile : Bool)
    (shown : ∀ text ∈ report.texts showFile, OneLine text) :
    railsOf (report.toText showFile) =
      railsAmong (allFrameLines showFile 0 (orderedAll report.entries)) := by
  rw [railsOf, linesOf_toText report showFile shown, List.filterMap_map]
  change railsAmong (report.lines showFile) = _
  rw [lines, railsAmong_append, railsAmong_failureLines, List.append_nil]
  exact List.filterMap_cons_none (read_header report.errorCount)

/-! ### Counting diagnostics -/

theorem countP_notes (depth : Nat) (errors : List Diagnostic) :
    (errors.map fun d => Rail.note depth (noteLine d)).countP Rail.isNote = errors.length := by
  rw [List.countP_map, List.countP_eq_length]
  exact fun _ _ => rfl

mutual

theorem countP_frameLines (showFile : Bool) (depth : Nat) (frame : Frame) :
    (railsAmong (frameLines showFile depth frame)).countP Rail.isNote = frame.countErrors := by
  match frame with
  | ⟨site, args, ret, status, origin, errors, children⟩ =>
      rw [railsAmong_frameLines, List.countP_append, List.countP_append,
        List.countP_cons_of_neg (by simp [Rail.isNote]), countP_notes,
        countP_allFrameLines showFile (depth + 1) children, countErrors]
      rfl

theorem countP_allFrameLines (showFile : Bool) (depth : Nat) (frames : List Frame) :
    (railsAmong (allFrameLines showFile depth frames)).countP Rail.isNote =
      countAllErrors frames := by
  match frames with
  | [] =>
      rw [allFrameLines, countAllErrors]
      rfl
  | frame :: frames =>
      rw [allFrameLines, railsAmong_append, List.countP_append,
        countP_frameLines showFile depth frame, countP_allFrameLines showFile depth frames,
        countAllErrors]

end

theorem countAllErrors_perm {frames frames' : List Frame} (perm : frames.Perm frames') :
    countAllErrors frames = countAllErrors frames' := by
  rw [countAllErrors_eq, countAllErrors_eq, collectAllErrors_eq_flatMap,
    collectAllErrors_eq_flatMap]
  exact (perm.flatMap_right collectErrors).length_eq

mutual

theorem countErrors_ordered (frame : Frame) : frame.ordered.countErrors = frame.countErrors := by
  match frame with
  | ⟨site, args, ret, status, origin, errors, children⟩ =>
      rw [ordered, countErrors, countErrors, countAllErrors_perm (perm_inSourceOrder _),
        countAllErrors_orderedAll children]

theorem countAllErrors_orderedAll (frames : List Frame) :
    countAllErrors (orderedAll frames) = countAllErrors frames := by
  match frames with
  | [] => rw [orderedAll]
  | frame :: frames =>
      rw [orderedAll, countAllErrors, countAllErrors, countErrors_ordered frame,
        countAllErrors_orderedAll frames]

end

/-- The text of a report is read back from its rails as the forest that the structured form
    holds, with siblings in source order and as many diagnostics as its first line tells. -/
theorem toText_reads_back (result : RunResult) (showFile : Bool)
    (oneLine : ∀ text ∈ (ofRun result).texts showFile, OneLine text) :
    ∃ forest,
      assemble [] [] (railsOf ((ofRun result).toText showFile)) = some forest ∧
      forestOfJson showFile (ofRun result).toJson = some forest ∧
      List.Forall₂ (Presents showFile) (ofRun result).entries forest ∧
      (linesOf ((ofRun result).toText showFile)).head? =
        some (header ((railsOf ((ofRun result).toText showFile)).countP Rail.isNote)).toList := by
  have rails := railsOf_toText (ofRun result) showFile oneLine
  refine ⟨nodesOf showFile (orderedAll (ofRun result).entries), ?_, ?_, ?_, ?_⟩
  · have whole := assemble_allFrameLines showFile [] [] [] (orderedAll (ofRun result).entries)
    rw [List.append_nil, List.nil_append] at whole
    rw [rails]
    exact whole
  · exact forestOfJson_toJson showFile (ofRun result)
  · rw [nodesOf_eq_map, orderedAll_eq_map, List.map_map, List.forall₂_map_right_iff,
      List.forall₂_same]
    exact fun frame _ => presents_ordered showFile frame
  · rw [rails, countP_allFrameLines, countAllErrors_orderedAll, linesOf_toText _ showFile oneLine]
    rfl

/-- An entry call whose second call stands before its first one in the source, and an entry call
    that met a limit. -/
def crossedRun : RunResult :=
  let site (line : Nat) (callee : String) : CallSite := ⟨callee, ⟨"demo.tpr", line, 3⟩, none⟩
  let rejected (line : Nat) (callee : String) : Frame :=
    noMethodFrame (site line callee) [.concrete "Int" []]
  { file := "demo.tpr"
    outcomes :=
      [.frame
        { Frame.start (site 9 "area") [] .entry with
          status := .resolved, children := [rejected 5 "f", rejected 4 "g", rejected 5 "h"] },
        .failure "deep(::Int)" ⟨"demo.tpr", 10, 1⟩ "too deep"]
    cacheEntries := 0 }

theorem crossedRun_reads_back :
    (∀ text ∈ (ofRun crossedRun).texts true, OneLine text) ∧
    ∃ forest,
      assemble [] [] (railsOf ((ofRun crossedRun).toText true)) = some forest ∧
      forestOfJson true (ofRun crossedRun).toJson = some forest ∧
      List.Forall₂ (Presents true) (ofRun crossedRun).entries forest ∧
      (linesOf ((ofRun crossedRun).toText true)).head? =
        some (header
          ((railsOf ((ofRun crossedRun).toText true)).countP Rail.isNote)).toList := by
  have oneLine : ∀ text ∈ (ofRun crossedRun).texts true, OneLine text := by decide +kernel
  exact ⟨oneLine, toText_reads_back crossedRun true oneLine⟩

end Multimethod.Report
