import FormulaEditor.Proofs.Editing.Lockstep
import FormulaEditor.Proofs.Editing.Undoing
import FormulaEditor.Proofs.Session.Runs

/-
  This file proves that moving the caret edits nothing but
  continuations, of which it adds one at most, and that it
  comes to rest: moving forward after two moves, and leaving
  a construct after one.

  Key definitions include:
    * `Row.withoutContinuations`
    * `Intent.isMove`
    * `Document.Unedited`
    * `Editor.RestsAfter`

  Key theorems include:
    * `Editor.unedited_apply`
    * `Editor.restsAfter_landPast`
    * `Editor.forward_forward_forward`
    * `Editor.leave_leave`
    * `Editor.moves_end`
-/

namespace FormulaEditor

------------------------------------------------------------
-- Rows Without Continuations
------------------------------------------------------------

section Rows

variable {ι : Type}

mutual

/- A node without the continuations in it, if it is none. -/
def Node.withoutContinuations : Node ι → Row ι
  | .text run => [.text run]
  | .construct kind id first second =>
      [.construct kind id
        (Row.withoutContinuations first)
        (Row.withoutContinuations second)]
  | .continuation _ _ => []

/- A row without its continuations, at any depth. -/
def Row.withoutContinuations : Row ι → Row ι
  | [] => []
  | node :: rest =>
      node.withoutContinuations ++
        Row.withoutContinuations rest

end

namespace Row

/- The continuations of two rows are dropped one by one. -/
theorem withoutContinuations_append
    (row other : Row ι) :
    Row.withoutContinuations (row ++ other) =
      Row.withoutContinuations row ++
        Row.withoutContinuations other := by
  induction row with
  | nil => rfl
  | cons node row ih =>
      rw [List.cons_append, Row.withoutContinuations,
        Row.withoutContinuations, ih, List.append_assoc]

/- A tree is replaced as its other nodes are. -/
theorem withoutContinuations_replaceAt?
    {row inner new changed : Row ι}
    {steps : List Step}
    (hAt : row.at? steps = some inner)
    (hReplace : row.replaceAt? new steps = some changed)
    (hSame :
      new.withoutContinuations =
        inner.withoutContinuations) :
    changed.withoutContinuations =
      row.withoutContinuations := by
  refine eq_of_replaceAt? ?_ hAt hReplace hSame
  intro left right slot id below below' other hBelow
  rw [withoutContinuations_append,
    withoutContinuations_append, Row.withoutContinuations,
    Row.withoutContinuations]
  rcases slot with ⟨kind, _ | _⟩ <;>
    simp only [Slot.node, Node.withoutContinuations, hBelow]

end Row

end Rows

------------------------------------------------------------
-- Moving Edits Nothing
------------------------------------------------------------

/- Whether an intent only asks to move the caret. -/
def Intent.isMove : Intent → Bool
  | .forward => true
  | .focus _ => true
  | .leave _ => true
  | _ => false

/-
  A document has not been edited but for one continuation at
  most: it is written as it was, it has the nodes that it
  had, and if it has changed at all it has a continuation
  more at one place.
-/
structure Document.Unedited
    (placeholder : Char)
    (document changed : Document) :
    Prop where
  text : changed.toText = document.toText
  nodes :
    changed.root.withoutContinuations =
      document.root.withoutContinuations
  added :
    changed = document ∨
      ∃ steps left right root,
        document.root.at? steps = some (left ++ right) ∧
          document.root.replaceAt?
              (left ++
                .continuation document.next [placeholder] ::
                  right)
              steps =
            some root ∧
          changed = .ofRow (document.next + 1) root

namespace Document

variable {placeholder : Char} {document : Document}

/- A document that has not changed has not been edited. -/
theorem Unedited.refl
    (placeholder : Char)
    (document : Document) :
    Unedited placeholder document document :=
  ⟨rfl, rfl, .inl rfl⟩

/- A continuation is put into a row and not written. -/
theorem unedited_of_replaceAt?
    (hPlaceholder : isPlaceholder placeholder = true)
    {steps : List Step}
    {left right root : Row Identity}
    (hAt : document.root.at? steps = some (left ++ right))
    (hReplace :
      document.root.replaceAt?
          (left ++
            .continuation document.next [placeholder] ::
              right)
          steps =
        some root) :
    Unedited placeholder document
      (.ofRow (document.next + 1) root) where
  text := by
    have hNone :
        (Node.continuation document.next
            [placeholder]).toText =
          [] := by
      simp [Node.toText, Text.withoutPlaceholders,
        hPlaceholder]
    refine Row.toText_replaceAt? hAt hReplace ?_
    rw [toText_append, toText_append, Row.toText, hNone]
    rfl
  nodes := by
    refine Row.withoutContinuations_replaceAt? hAt hReplace ?_
    rw [Row.withoutContinuations_append,
      Row.withoutContinuations_append]
    rfl
  added := .inr ⟨steps, left, right, root, hAt, hReplace, rfl⟩

end Document

namespace Editor

section Moving

variable {editor : Editor} {placeholder : Char}

/- Landing after a node edits nothing. -/
theorem unedited_landPast
    (hPlaceholder : isPlaceholder placeholder = true)
    (editor : Editor)
    (id : Identity)
    (intoRun : Bool) :
    Document.Unedited placeholder editor.document
      (editor.landPast id placeholder
        intoRun).editor.document := by
  rcases landPast_cases editor id placeholder intoRun with
    hSame | ⟨_, _, left, right, _, hRow,
      ⟨_, _, hLanded⟩ | ⟨_, hReplace, hLanded⟩⟩
  · rw [hSame]
    exact .refl placeholder editor.document
  · rw [hLanded]
    exact .refl placeholder editor.document
  · rw [hLanded]
    exact Document.unedited_of_replaceAt? hPlaceholder hRow
      hReplace

/- Moving forward edits nothing. -/
theorem unedited_forward
    (hPlaceholder : isPlaceholder placeholder = true)
    (editor : Editor) :
    Document.Unedited placeholder editor.document
      (editor.forward placeholder).editor.document := by
  have hSame :=
    Document.Unedited.refl placeholder editor.document
  rw [forward]
  split
  · exact hSame
  · split
    · exact hSame
    · split
      · exact unedited_landPast hPlaceholder editor _ _
      · simp only
        split
        · exact hSame
        · exact hSame

/- Leaving a construct edits nothing. -/
theorem unedited_leave
    (hPlaceholder : isPlaceholder placeholder = true)
    (editor : Editor)
    (id : Identity) :
    Document.Unedited placeholder editor.document
      (editor.leave id placeholder).editor.document := by
  rw [leave]
  split
  · exact .refl placeholder editor.document
  · exact unedited_landPast hPlaceholder editor id true

/- Whatever only moves the caret edits nothing. -/
theorem unedited_apply
    {settings : Settings}
    (hPlaceholder : isPlaceholder settings.placeholder = true)
    (editor : Editor)
    {intent : Intent}
    (hMove : intent.isMove = true) :
    Document.Unedited settings.placeholder editor.document
      (editor.apply settings intent).1.document := by
  rw [← document_aim editor intent]
  simp only [apply]
  split
  · exact .refl _ _
  · next caret hClamp =>
      cases intent with
      | forward =>
          exact unedited_forward hPlaceholder
            ⟨editor.document, caret⟩
      | focus _ => exact .refl _ _
      | leave id =>
          exact unedited_leave hPlaceholder
            ⟨editor.document, caret⟩ id
      | trigger => cases hMove
      | fraction => cases hMove
      | limit => cases hMove
      | type c => cases hMove
      | backspace => cases hMove

end Moving

------------------------------------------------------------
-- Coming to Rest After a Node
------------------------------------------------------------

/-
  The caret rests after the node with an identity, which is
  at a path: where landing after that node puts it, on a
  continuation, or at the end of a run if `intoRun` is set.
-/
def RestsAfter
    (editor : Editor)
    (id : Identity)
    (path : Path)
    (intoRun : Bool) :
    Prop :=
  ∃ region left node right offset,
    editor.document.Finds id path region
        (left ++ node :: right) ∧
      left.length = path.index ∧
      Row.landing? intoRun right = some offset ∧
      editor.caret = ⟨region, path.index + 1, offset, false⟩

end Editor

/- A region is the one that the end of its steps is in. -/
theorem Document.regionOf?_of_stepsTo?
    {document : Document}
    {region : Region}
    {path : Path}
    (hSteps : document.stepsTo? region = some path.steps) :
    document.regionOf? path = some region := by
  cases region with
  | root =>
      have hNil : path.steps = [] :=
        (Option.some.inj hSteps).symm
      simp [regionOf?, hNil]
  | slot owner slot =>
      rcases Option.map_eq_some_iff.mp hSteps with
        ⟨outer, hPath, hInto⟩
      rcases exists_nodeAt?_of_path? hPath with
        ⟨node, hNode, hId⟩
      have hOwner :
          document.nodeAt? ⟨outer.steps, outer.index⟩ =
            some node :=
        hNode
      simp [regionOf?, ← hInto, Path.stepsInto, hOwner, hId]

namespace Editor

section Resting

variable {editor : Editor} {id : Identity} {path : Path}
variable {intoRun : Bool}

/- A row is opened after a node of it. -/
theorem cursor?_after
    (left right : Row Identity)
    (node : Node Identity) :
    Row.cursor? (left ++ node :: right) (left.length + 1) 0 =
      some ⟨node :: left.reverse, right, 0⟩ := by
  refine Row.cursor?_eq_some_iff.mpr ⟨?_, ?_, rfl⟩
  · simp [Cursor.row]
  · simp [Cursor.index]

/-
  Landing after a node goes where a caret can rest, or puts
  a continuation there.
-/
theorem exists_landed
    (hSound : editor.document.Sound)
    (hPath : editor.document.path? id = some path)
    (placeholder : Char)
    (intoRun : Bool) :
    ∃ region left node right,
      editor.document.Finds id path region
          (left ++ node :: right) ∧
        left.length = path.index ∧
        node.id? = some id ∧
        ((∃ offset,
          Row.landing? intoRun right = some offset ∧
            (editor.landPast id placeholder intoRun).editor =
              ⟨editor.document,
                ⟨region, path.index + 1, offset, false⟩⟩) ∨
          ∃ root,
            editor.document.root.replaceAt?
                (left ++ node ::
                  .continuation editor.document.next
                      [placeholder] :: right)
                path.steps =
              some root ∧
            (editor.landPast id placeholder intoRun).editor =
              ⟨.ofRow (editor.document.next + 1) root,
                ⟨region, path.index + 1, 0, false⟩⟩) := by
  rcases Document.exists_finds hSound hPath with
    ⟨region, row, hFinds⟩
  rcases Document.exists_nodeAt?_of_path? hPath with
    ⟨node, hNode, hId⟩
  rcases Row.nodeAt?_eq_some_iff.mp hNode with
    ⟨found, hFound, hHere⟩
  rcases Option.some.inj (hFound.symm.trans hFinds.opened)
    with rfl
  rcases exists_append_of_getElem? hHere with
    ⟨left, right, rfl, hLength, _⟩
  have hCursor := cursor?_after left right node
  rw [hLength] at hCursor
  refine ⟨region, left, node, right, hFinds, hLength, hId, ?_⟩
  rw [landPast_of_finds hFinds hCursor]
  cases hLanding : Row.landing? intoRun right with
  | some offset => exact .inl ⟨offset, rfl, rfl⟩
  | none =>
      rcases Row.exists_replaceAt? hFinds.opened
          (left ++ node ::
            .continuation editor.document.next
                [placeholder] :: right) with
        ⟨root, hReplace⟩
      refine .inr ⟨root, hReplace, ?_⟩
      have hRow :
          (node :: left.reverse).reverse ++
              .continuation editor.document.next
                  [placeholder] :: right =
            left ++ node ::
              .continuation editor.document.next
                  [placeholder] :: right := by
        simp
      have hSet :
          (editor.document.adopt
                (.continuation () [placeholder])).2.setRowAt?
              path.steps
              ((node :: left.reverse).reverse ++
                .continuation editor.document.next
                    [placeholder] :: right) =
            some (.ofRow (editor.document.next + 1) root) := by
        rw [hRow]
        exact Option.map_eq_some_iff.mpr
          ⟨root, hReplace, rfl⟩
      exact congrArg
        (fun changed =>
          (editor.close .regionGone
            ⟨region, path.index + 1, 0, false⟩
            changed).editor)
        hSet

/- A caret that rests after a node stays when it lands. -/
theorem landPast_of_restsAfter
    (hRests : editor.RestsAfter id path intoRun)
    (placeholder : Char) :
    (editor.landPast id placeholder intoRun).editor =
      editor := by
  rcases hRests with
    ⟨region, left, node, right, offset, hFinds, hLength,
      hLanding, hCaret⟩
  have hCursor := cursor?_after left right node
  rw [hLength] at hCursor
  rw [landPast_of_finds hFinds hCursor, hLanding]
  simp only [← hCaret]
  rfl

/- Landing after a node makes the caret rest there. -/
theorem restsAfter_landPast
    (hSound : editor.document.Sound)
    (hPath : editor.document.path? id = some path)
    (placeholder : Char)
    (intoRun : Bool) :
    (editor.landPast id placeholder
        intoRun).editor.RestsAfter id path intoRun := by
  have hLater := sound_landPast hSound id placeholder intoRun
  rcases exists_landed hSound hPath placeholder intoRun with
    ⟨region, left, node, right, hFinds, hLength, hId,
      ⟨offset, hLanding, hEq⟩ | ⟨root, hReplace, hEq⟩⟩
  · rw [hEq]
    exact ⟨region, left, node, right, offset, hFinds, hLength,
      hLanding, rfl⟩
  · rw [hEq] at hLater ⊢
    have hOpened := Row.at?_replaceAt? hReplace
    have hReached :=
      Document.stepsTo?_of_replaceAt? hLater.nodup
        hFinds.reached hReplace
    have hHere :
        (left ++ node ::
            .continuation editor.document.next
                [placeholder] :: right)[path.index]? =
          some node := by
      rw [← hLength, List.getElem?_append_right (Nat.le_refl _),
        Nat.sub_self, List.getElem?_cons_zero]
    refine ⟨region, left, node, _, 0,
      ⟨?_, ?_, hReached, hOpened⟩, hLength, rfl, rfl⟩
    · exact (Document.path?_eq_some_iff hLater.nodup).mpr
        ⟨node,
          Row.nodeAt?_eq_some_iff.mpr ⟨_, hOpened, hHere⟩,
          hId⟩
    · exact Document.regionOf?_of_stepsTo? hReached

/- The caret is on a continuation if no run will do. -/
theorem focus_of_restsAfter
    (hRests : editor.RestsAfter id path false) :
    editor.focus = .continuation := by
  rcases hRests with
    ⟨region, left, node, right, offset, hFinds, hLength,
      hLanding, hCaret⟩
  have hRegion :
      editor.document.region? region =
        some (left ++ node :: right) :=
    Document.region?_eq_some_iff.mpr
      ⟨path.steps, hFinds.reached, hFinds.opened⟩
  have hHere :
      (left ++ node :: right)[path.index + 1]? =
        right[0]? := by
    rw [← hLength,
      List.getElem?_append_right (Nat.le_add_right _ 1),
      Nat.add_sub_cancel_left, List.getElem?_cons_succ]
  rw [focus, Document.focus, hCaret]
  simp only [hRegion, hHere]
  rcases right with _ | ⟨_ | _ | _, right⟩
  case cons.continuation => rfl
  all_goals cases hLanding

/- The caret is right after the node that it rests after. -/
theorem pathUnder?_of_restsAfter
    (hRests : editor.RestsAfter id path intoRun) :
    editor.document.path? id = some path ∧
      editor.document.pathUnder? editor.caret =
        some ⟨path.steps, path.index + 1⟩ := by
  rcases hRests with
    ⟨region, left, node, right, offset, hFinds, hLength,
      hLanding, hCaret⟩
  refine ⟨hFinds.found, ?_⟩
  rw [Document.pathUnder?, hCaret]
  simp only [hFinds.reached]
  rfl

end Resting

------------------------------------------------------------
-- Moves That End
------------------------------------------------------------

section Ending

variable {editor : Editor} {placeholder : Char}

/- On a continuation there is nowhere to go. -/
theorem forward_of_continuation
    (hFocus : editor.focus = .continuation)
    (placeholder : Char) :
    (editor.forward placeholder).editor = editor := by
  rw [forward]
  split
  · rfl
  · rw [if_pos hFocus]
    rfl

/- From the second slot of a construct the caret leaves. -/
theorem forward_of_sibling?_none
    {owner : Identity}
    {slot : Slot}
    (hRegion : editor.caret.region = .slot owner slot)
    (hLast : slot.sibling? = none)
    (hFocus : editor.focus ≠ .continuation)
    (placeholder : Char) :
    editor.forward placeholder =
      editor.landPast owner placeholder false := by
  rw [forward]
  simp only [hRegion, if_neg hFocus, hLast]

/- There it stays, when it moves forward once more. -/
theorem forward_forward_of_sibling?_none
    (hSound : editor.document.Sound)
    {owner : Identity}
    {slot : Slot}
    (hRegion : editor.caret.region = .slot owner slot)
    (hLast : slot.sibling? = none) :
    (forward (editor.forward placeholder).editor
        placeholder).editor =
      (editor.forward placeholder).editor := by
  by_cases hFocus : editor.focus = .continuation
  · rw [forward_of_continuation hFocus,
      forward_of_continuation hFocus]
  · rw [forward_of_sibling?_none hRegion hLast hFocus]
    cases hPath : editor.document.path? owner with
    | some path =>
        refine forward_of_continuation ?_ placeholder
        exact focus_of_restsAfter
          (restsAfter_landPast hSound hPath placeholder false)
    | none =>
        have hSame :
            (editor.landPast owner placeholder
                false).editor =
              editor := by
          rw [landPast]
          simp only [hPath]
          rfl
        rw [hSame,
          forward_of_sibling?_none hRegion hLast hFocus,
          hSame]

/- From the first slot of a construct it goes to the next. -/
theorem forward_of_sibling?
    {owner : Identity}
    {slot sibling : Slot}
    (hRegion : editor.caret.region = .slot owner slot)
    (hNext : slot.sibling? = some sibling)
    (hFocus : editor.focus ≠ .continuation)
    (placeholder : Char) :
    (editor.forward placeholder).editor = editor ∨
      ∃ row,
        editor.document.region? (.slot owner sibling) =
            some row ∧
          (editor.forward placeholder).editor =
            { editor with
              caret := .atEndOf (.slot owner sibling) row } := by
  rw [forward]
  simp only [hRegion, if_neg hFocus, hNext]
  split
  · exact .inl rfl
  · next row hRow => exact .inr ⟨row, hRow, rfl⟩

/- The second slot of a construct is its last. -/
theorem sibling?_sibling?
    {slot sibling : Slot}
    (hNext : slot.sibling? = some sibling) :
    sibling.sibling? = none := by
  rcases slot with ⟨kind, _ | _⟩
  · rcases Option.some.inj hNext with rfl
    rfl
  · cases hNext

/- After two moves forward, a third one goes nowhere. -/
theorem forward_forward_forward
    (hSound : editor.document.Sound)
    (placeholder : Char) :
    let once := (editor.forward placeholder).editor
    let twice := (once.forward placeholder).editor
    (twice.forward placeholder).editor = twice := by
  intro once twice
  have hStuck (hSame : once = editor) :
      (twice.forward placeholder).editor = twice := by
    have hAgain : twice = editor := by
      simp only [twice, hSame]
      exact hSame
    rw [hAgain]
    exact hSame
  cases hRegion : editor.caret.region with
  | root =>
      refine hStuck ?_
      simp only [once, forward, hRegion]
      rfl
  | slot owner slot =>
      by_cases hFocus : editor.focus = .continuation
      · exact hStuck
          (forward_of_continuation hFocus placeholder)
      · cases hNext : slot.sibling? with
        | none =>
            have hRest : twice = once :=
              forward_forward_of_sibling?_none hSound hRegion
                hNext
            rw [hRest]
            exact hRest
        | some sibling =>
            rcases forward_of_sibling? hRegion hNext hFocus
                placeholder with hSame | ⟨row, _, hMoved⟩
            · exact hStuck hSame
            · have hLater : once.document.Sound := by
                simp only [once, hMoved]
                exact hSound
              have hInto :
                  once.caret.region = .slot owner sibling := by
                simp only [once, hMoved,
                  Caret.region_atEndOf]
              exact forward_forward_of_sibling?_none hLater
                hInto (sibling?_sibling? hNext)

/- A construct that is left once has been left. -/
theorem leave_leave
    (hSound : editor.document.Sound)
    (id : Identity)
    (placeholder : Char) :
    (leave (editor.leave id placeholder).editor id
        placeholder).editor =
      (editor.leave id placeholder).editor := by
  have hStays :
      ∀ editor : Editor,
        (editor.landPast id placeholder true).editor =
            editor →
          (editor.leave id placeholder).editor = editor := by
    intro editor hLand
    rw [leave]
    split
    · rfl
    · exact hLand
  cases hOwner : editor.document.owner? id with
  | none =>
      have hSame :
          (editor.leave id placeholder).editor = editor := by
        rw [leave, hOwner]
        rfl
      rw [hSame, hSame]
  | some node =>
      have hLeave :
          editor.leave id placeholder =
            editor.landPast id placeholder true := by
        rw [leave, hOwner]
      rw [hLeave]
      refine hStays _ ?_
      cases hPath : editor.document.path? id with
      | none =>
          rw [Document.owner?, hPath] at hOwner
          cases hOwner
      | some path =>
          exact landPast_of_restsAfter
            (restsAfter_landPast hSound hPath placeholder
              true)
            placeholder

/- A construct that has one slot has the other one too. -/
theorem exists_region?_sibling
    {document : Document}
    {owner : Identity}
    {slot sibling : Slot}
    {row : Row Identity}
    (hRegion :
      document.region? (.slot owner slot) = some row)
    (hNext : slot.sibling? = some sibling) :
    ∃ other,
      document.region? (.slot owner sibling) = some other := by
  rcases Document.region?_eq_some_iff.mp hRegion with
    ⟨steps, hSteps, hAt⟩
  rcases Option.map_eq_some_iff.mp hSteps with
    ⟨path, hPath, rfl⟩
  rcases Document.exists_nodeAt?_of_path? hPath with
    ⟨node, hNode, _⟩
  rw [Row.at?_stepsInto hNode] at hAt
  rcases slot with ⟨kind, _ | _⟩
  · rcases Option.some.inj hNext with rfl
    rcases Node.region?_eq_some_iff.mp hAt with
      ⟨id, other, rfl⟩
    refine ⟨other, Document.region?_eq_some_iff.mpr
      ⟨path.stepsInto ⟨kind, .second⟩,
        Option.map_eq_some_iff.mpr ⟨path, hPath, rfl⟩, ?_⟩⟩
    rw [Row.at?_stepsInto hNode]
    exact @region?_node _ ⟨kind, .second⟩ id other row
  · cases hNext

/- At the end of a row there is no continuation. -/
theorem focus_atEndOf
    {document : Document}
    {region : Region}
    {row : Row Identity}
    (hRegion : document.region? region = some row) :
    focus ⟨document, .atEndOf region row⟩ ≠ .continuation := by
  rw [focus, Document.focus, Caret.region_atEndOf, hRegion]
  have hPlain : region.focus ≠ .continuation := by
    cases region <;> exact Focus.noConfusion
  rcases Caret.getElem?_atEndOf region row with
    ⟨run, hRun, _⟩ | ⟨hNone, _⟩
  · simp only [hRun]
    exact hPlain
  · simp only [hNone]
    exact hPlain

/-
  Two moves forward from a slot, and off a continuation, go
  to where the caret rests after its construct.
-/
theorem restsAfter_forward_forward
    (hSound : editor.document.Sound)
    {owner : Identity}
    {slot : Slot}
    (hSlot : editor.caret.region = .slot owner slot)
    {row : Row Identity}
    (hRegion :
      editor.document.region? editor.caret.region = some row)
    (hFocus : editor.focus ≠ .continuation)
    (placeholder : Char) :
    ∃ path,
      editor.document.path? owner = some path ∧
        (forward (editor.forward placeholder).editor
            placeholder).editor.RestsAfter owner path
          false := by
  rw [hSlot] at hRegion
  rcases Document.region?_eq_some_iff.mp hRegion with
    ⟨steps, hSteps, _⟩
  rcases Option.map_eq_some_iff.mp hSteps with
    ⟨path, hPath, _⟩
  refine ⟨path, hPath, ?_⟩
  cases hNext : slot.sibling? with
  | none =>
      have hRests :=
        restsAfter_landPast hSound hPath placeholder false
      rw [forward_forward_of_sibling?_none hSound hSlot hNext,
        forward_of_sibling?_none hSlot hNext hFocus]
      exact hRests
  | some sibling =>
      rcases exists_region?_sibling hRegion hNext with
        ⟨other, hOther⟩
      have hMoved :
          (editor.forward placeholder).editor =
            { editor with
              caret :=
                .atEndOf (.slot owner sibling) other } := by
        rw [forward]
        simp only [hSlot, if_neg hFocus, hNext, hOther]
        rfl
      have hLast :=
        @forward_of_sibling?_none
          { editor with
            caret := .atEndOf (.slot owner sibling) other }
          owner sibling (Caret.region_atEndOf ..)
          (sibling?_sibling? hNext) (focus_atEndOf hOther)
          placeholder
      rw [hMoved, hLast]
      exact @restsAfter_landPast
        { editor with
          caret := .atEndOf (.slot owner sibling) other }
        owner path hSound hPath placeholder false

end Ending

end Editor

------------------------------------------------------------
-- Sessions
------------------------------------------------------------

namespace Session

/- A session that only moves its caret does nothing else. -/
theorem apply_of_isMove
    {session : Session}
    (hWritten : session.IsWritten)
    (hPlaceholder :
      isPlaceholder session.settings.placeholder = true)
    {intent : Intent}
    (hMove : intent.isMove = true)
    (now : Nat) :
    session.apply intent now =
      ⟨{ session with
          editor :=
            (session.editor.apply session.settings
              intent).1 },
        (session.editor.apply session.settings intent).2,
        []⟩ := by
  have hText :=
    (Editor.unedited_apply hPlaceholder session.editor
      hMove).text
  have hSame :
      (session.follow
          (session.editor.apply session.settings
            intent).1).written =
        session.written := by
    rw [hWritten]
    exact hText
  have hFollow :
      session.follow
          (session.editor.apply session.settings intent).1 =
        { session with
          editor :=
            (session.editor.apply session.settings
              intent).1 } := by
    rw [follow] at hSame ⊢
    simp only at hSame
    rw [hSame]
  simp only [apply, if_pos hSame]
  rw [hFollow]

end Session

------------------------------------------------------------
-- Moves From Anywhere
------------------------------------------------------------

namespace Editor

section Anywhere

variable {document : Document} {caret : Caret}

/- Moving forward a third time changes nothing. -/
theorem run_forward_forward_forward
    (settings : Settings)
    (hSound : document.Sound)
    (caret : Caret) :
    run settings ⟨document, caret⟩
        [.forward, .forward, .forward] =
      run settings ⟨document, caret⟩ [.forward, .forward] := by
  have hFirst :=
    @isPlaced_apply ⟨document, caret⟩ settings hSound .forward
  have hLater :=
    @sound_apply ⟨document, caret⟩ settings hSound .forward
  have hSecond :=
    isPlaced_forward hLater hFirst settings.placeholder
  simp only [run, List.foldl_cons, List.foldl_nil]
  rw [fst_apply_of_isPlaced settings hFirst rfl, attempt,
    fst_apply_of_isPlaced settings hSecond rfl, attempt]
  cases hRegion : document.region? caret.region with
  | none =>
      have hEnd :=
        @fst_apply_of_region?_none ⟨document, caret⟩ settings
          .forward hRegion
      have hRoot :
          (atEnd document).caret.region = .root :=
        Caret.region_atEndOf .root document.root
      have hSame :
          (forward (atEnd document)
              settings.placeholder).editor =
            atEnd document := by
        rw [forward, hRoot]
        rfl
      rw [hEnd, hSame, hSame]
  | some row =>
      have hOnce :=
        @fst_apply settings document caret row hRegion
          .forward rfl
      rw [hOnce]
      exact @forward_forward_forward
        ⟨document, caret.clampTo row⟩ hSound
        settings.placeholder

/- Leaving a construct a second time changes nothing. -/
theorem run_leave_leave
    (settings : Settings)
    (hSound : document.Sound)
    {row : Row Identity}
    (hRegion : document.region? caret.region = some row)
    (id : Identity) :
    run settings ⟨document, caret⟩ [.leave id, .leave id] =
      run settings ⟨document, caret⟩ [.leave id] := by
  have hPlaced := isPlaced_clampTo hRegion
  have hLeft :=
    isPlaced_leave hSound hPlaced id settings.placeholder
  rw [run_clampTo settings hRegion (fun _ => rfl),
    run_clampTo settings hRegion (fun _ => rfl)]
  simp only [run, List.foldl_cons, List.foldl_nil]
  rw [fst_apply_of_isPlaced settings hPlaced rfl, attempt,
    fst_apply_of_isPlaced settings hLeft rfl]
  exact leave_leave hSound id settings.placeholder

/- A caret off all continuations is not pulled onto one. -/
theorem focus_clampTo
    {row : Row Identity}
    (hRegion : document.region? caret.region = some row)
    (hOff :
      ∀ node, row[caret.index]? = some node →
        node.isContinuation = false) :
    focus ⟨document, caret.clampTo row⟩ ≠ .continuation := by
  have hPlain : caret.region.focus ≠ .continuation := by
    cases caret.region <;> exact Focus.noConfusion
  have hClamped :
      ∀ node, row[(caret.clampTo row).index]? = some node →
        node.isContinuation = false := by
    simp only [Caret.clampTo]
    split
    · intro node hNode
      rcases Caret.getElem?_atEndOf caret.region row with
        ⟨run, hRun, _⟩ | ⟨hNone, _⟩
      · rw [hRun] at hNode
        rcases Option.some.inj hNode with rfl
        rfl
      · rw [hNone] at hNode
        cases hNode
    · exact hOff
  rw [focus, Document.focus, Caret.region_clampTo, hRegion]
  simp only
  split
  · next id content hNode => cases hClamped _ hNode
  · exact hPlain

/-
  Two moves forward from a slot of a construct end on the
  continuation that comes right after the construct.
-/
theorem apply_forward_forward
    (settings : Settings)
    (hSound : document.Sound)
    {owner : Identity}
    {slot : Slot}
    (hSlot : caret.region = .slot owner slot)
    {row : Row Identity}
    (hRegion : document.region? caret.region = some row)
    (hOff :
      ∀ node, row[caret.index]? = some node →
        node.isContinuation = false) :
    ∃ after path,
      apply settings
          (run settings ⟨document, caret⟩ [.forward])
          .forward =
        (after, .continuation) ∧
      document.path? owner = some path ∧
      after.document.path? owner = some path ∧
      after.document.pathUnder? after.caret =
        some ⟨path.steps, path.index + 1⟩ := by
  have hPlaced := isPlaced_clampTo hRegion
  have hMoved :=
    isPlaced_forward hSound hPlaced settings.placeholder
  have hClamped :
      document.region? (caret.clampTo row).region =
        some row := by
    rw [Caret.region_clampTo, hRegion]
  have hClampedSlot :
      (caret.clampTo row).region = .slot owner slot := by
    rw [Caret.region_clampTo, hSlot]
  rcases @restsAfter_forward_forward
      ⟨document, caret.clampTo row⟩ hSound owner slot
      hClampedSlot row hClamped (focus_clampTo hRegion hOff)
      settings.placeholder with
    ⟨path, hPath, hRests⟩
  rw [run_clampTo settings hRegion (fun _ => rfl)]
  simp only [run, List.foldl_cons, List.foldl_nil]
  rw [fst_apply_of_isPlaced settings hPlaced rfl, attempt]
  refine ⟨_, path, Prod.ext
    (fst_apply_of_isPlaced settings hMoved rfl) ?_, hPath,
    pathUnder?_of_restsAfter hRests⟩
  rw [snd_apply, fst_apply_of_isPlaced settings hMoved rfl]
  exact focus_of_restsAfter hRests

end Anywhere

/-
  Moving the caret in a document that is reached by editing.
  It edits nothing, but for one continuation at most, so that
  in a session it does nothing but to move the caret.  Moving
  forward comes to rest after two moves: if the caret was in
  a slot and off the continuations, on a continuation right
  after the construct.  Leaving a construct comes to rest at
  once, unless the region of the caret was gone.
-/
theorem moves_end
    {settings : Settings}
    (hPlaceholder : isPlaceholder settings.placeholder = true)
    {document : Document}
    (hReachable : document.Reachable)
    (caret : Caret) :
    (∀ intent : Intent, intent.isMove = true →
      Document.Unedited settings.placeholder document
        (apply settings ⟨document, caret⟩
          intent).1.document) ∧
    (∀ host events (intent : Intent),
      let session :=
        (Session.openOn host settings).state.after events
      let answer := session.editor.apply settings intent
      let reply : Reply Session Focus :=
        ⟨{ session with editor := answer.1 }, answer.2, []⟩
      intent.isMove = true →
        (∀ now, session.apply intent now = reply) ∧
          ∀ caret, intent = .focus caret →
            session.place caret = reply) ∧
    run settings ⟨document, caret⟩
        [.forward, .forward, .forward] =
      run settings ⟨document, caret⟩ [.forward, .forward] ∧
    (∀ owner slot row,
      caret.region = .slot owner slot →
      document.region? caret.region = some row →
      (∀ node, row[caret.index]? = some node →
        node.isContinuation = false) →
      ∃ after path,
        apply settings
            (run settings ⟨document, caret⟩ [.forward])
            .forward =
          (after, .continuation) ∧
        document.path? owner = some path ∧
        after.document.path? owner = some path ∧
        after.document.pathUnder? after.caret =
          some ⟨path.steps, path.index + 1⟩) ∧
    (document.region? caret.region ≠ none →
      ∀ id,
        run settings ⟨document, caret⟩
            [.leave id, .leave id] =
          run settings ⟨document, caret⟩ [.leave id]) := by
  have hSound := hReachable.sound
  refine ⟨?_, ?_, ?_, ?_, ?_⟩
  · intro intent hMove
    exact unedited_apply hPlaceholder ⟨document, caret⟩ hMove
  · intro host events intent session answer reply hMove
    have hSettings : session.settings = settings :=
      ((Session.openOn host settings).state.continues_after
        events).settings
    have hWritten : session.IsWritten :=
      Session.written_after_openOn host settings events
    have hAnswer :
        answer =
          session.editor.apply session.settings intent := by
      rw [hSettings]
    have hReply :
        reply =
          ⟨{ session with
              editor :=
                (session.editor.apply session.settings
                  intent).1 },
            (session.editor.apply session.settings intent).2,
            []⟩ := by
      simp only [reply, hAnswer]
    rw [hReply]
    refine ⟨?_, ?_⟩
    · exact Session.apply_of_isMove hWritten
        (hSettings.symm ▸ hPlaceholder) hMove
    · rintro caret rfl
      rfl
  · exact run_forward_forward_forward settings hSound caret
  · intro owner slot row hSlot hRegion hOff
    exact apply_forward_forward settings hSound hSlot hRegion
      hOff
  · intro hThere id
    rcases Option.ne_none_iff_exists'.mp hThere with
      ⟨row, hRegion⟩
    exact run_leave_leave settings hSound hRegion id

/-
  Two moves forward from the numerator of a new fraction put
  a continuation after it, and a third one changes nothing.
-/
theorem moves_end_after_fraction :
    let document :=
      (apply .standard ⟨.empty, .start⟩
        .fraction).1.document
    let editor : Editor :=
      ⟨document, ⟨.slot 0 .numerator, 0, 0, false⟩⟩
    (run .standard editor
          [.forward, .forward, .forward]).document.root =
        (run .standard editor
          [.forward, .forward]).document.root ∧
      (run .standard editor
          [.forward, .forward]).document.root =
        [.construct .fraction 0 [] [],
          .continuation 1 ['\u00A0']] ∧
      ∃ after path,
        apply .standard (run .standard editor [.forward])
            .forward =
          (after, .continuation) ∧
        document.path? 0 = some path ∧
        after.document.path? 0 = some path ∧
        after.document.pathUnder? after.caret =
          some ⟨path.steps, path.index + 1⟩ := by
  intro document editor
  have hReachable : document.Reachable :=
    Document.Reachable.empty.apply .standard .start .fraction
  have hMoves :=
    @moves_end .standard (by decide) document hReachable
      ⟨.slot 0 .numerator, 0, 0, false⟩
  refine ⟨congrArg (·.document.root) hMoves.2.2.1, rfl, ?_⟩
  refine hMoves.2.2.2.1 0 .numerator [] rfl rfl ?_
  intro node hNode
  cases hNode

end Editor

end FormulaEditor
