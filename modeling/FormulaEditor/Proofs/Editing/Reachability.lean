import FormulaEditor.Proofs.Editing.Edits

/-
  This file defines which documents are reached by editing,
  and proves that all of them are sound.

  Key definitions include:
    * `Document.Reachable`

  Key theorems include:
    * `Editor.sound_apply`
    * `Document.Reachable.sound`
-/

namespace FormulaEditor

namespace Editor

------------------------------------------------------------
-- Edits Keep Documents Sound
------------------------------------------------------------

section Sound

variable {editor : Editor}

/- Typing keeps a document sound. -/
theorem sound_type
    (hSound : editor.document.Sound)
    (c : Char) :
    (editor.type c).editor.document.Sound := by
  refine (edits_type editor c).sound ?_ hSound
  intro node hMem slot below hRegion
  rw [List.mem_singleton.mp hMem] at hRegion
  cases hRegion

/- Inserting a construct keeps a document sound. -/
theorem sound_insert
    (hSound : editor.document.Sound)
    {content : Node Unit}
    (hConstruct : content.isConstruct = true)
    (hContent :
      ∀ slot below, content.region? slot = some below →
        below.Everywhere Row.IsSolid)
    (first : Slot)
    (selected : Bool) :
    (editor.insert content first
        selected).editor.document.Sound :=
  (edits_insert hConstruct (List.mem_singleton.mpr rfl) editor
      first selected).sound
    (List.forall_mem_singleton.mpr hContent) hSound

/- Removing a construct keeps a document sound. -/
theorem sound_removeOwner
    (hSound : editor.document.Sound)
    (id : Identity) :
    (editor.removeOwner id).editor.document.Sound :=
  (@edits_removeOwner [] editor id).sound (by simp) hSound

/- Deleting backwards keeps a document sound. -/
theorem sound_backspace
    (hSound : editor.document.Sound) :
    editor.backspace.editor.document.Sound :=
  (@edits_backspace [] editor).sound (by simp) hSound

/- The rows of a new fraction are empty. -/
theorem isSolid_emptyFraction
    (slot : Slot)
    (below : Row Unit)
    (hRegion :
      (Node.emptyFraction ()).region? slot = some below) :
    below.Everywhere Row.IsSolid := by
  rw [Node.eq_nil_of_region?_emptyFraction hRegion,
    ← Row.ofText_nil]
  exact Row.everywhere_isSolid_ofText []

/- The rows of a new limit have been read from text. -/
theorem isSolid_limit
    (limit : LimitTemplate)
    (slot : Slot)
    (below : Row Unit)
    (hRegion : limit.node.region? slot = some below) :
    below.Everywhere Row.IsSolid := by
  rcases LimitTemplate.eq_ofText_of_region? hRegion with
    ⟨s, rfl⟩
  exact Row.everywhere_isSolid_ofText s

/- No run is empty in what an intent adds. -/
theorem isSolid_additions
    (settings : Settings)
    (intent : Intent) :
    ∀ node ∈ intent.additions settings, ∀ slot below,
      node.region? slot = some below →
        below.Everywhere Row.IsSolid := by
  refine Intent.forall_mem_additions isSolid_emptyFraction
    (isSolid_limit settings.limit) ?_ ?_
  · intro slot below hRegion
    cases hRegion
  · intro c _ slot below hRegion
    cases hRegion

/- Applying an intent keeps a document sound. -/
theorem sound_apply
    (settings : Settings)
    (hSound : editor.document.Sound)
    (intent : Intent) :
    (editor.apply settings intent).1.document.Sound :=
  (edits_apply settings editor intent).sound
    (isSolid_additions settings intent) hSound

end Sound

end Editor

------------------------------------------------------------
-- Reachable Documents
------------------------------------------------------------

/-
  The documents that come from reading a text by any number
  of edits, rereadings and identities that are handed out.
-/
inductive Document.Reachable : Document → Prop where
  | read (next : Identity) (s : Text) :
      Reachable (ofTextFrom next s)
  | reread {document : Document} (s : Text) :
      Reachable document → Reachable (document.reread s)
  | allocate {document : Document} :
      Reachable document → Reachable document.allocate.2
  | adopt {document : Document} (content : Node Unit) :
      Reachable document →
        Reachable (document.adopt content).2
  | apply
      {document : Document}
      (settings : Settings)
      (caret : Caret)
      (intent : Intent) :
      Reachable document →
        Reachable
          (Editor.apply settings ⟨document, caret⟩
            intent).1.document

/- Every document that is reached by editing is sound. -/
theorem Document.Reachable.sound
    {document : Document}
    (hReachable : document.Reachable) :
    document.Sound := by
  induction hReachable with
  | read next s => exact sound_ofTextFrom next s
  | reread s _ _ => exact sound_ofTextFrom _ s
  | allocate _ ih => exact ih.later (Nat.le_add_right _ _)
  | adopt content _ ih =>
      exact ih.later (Nat.le_add_right _ _)
  | apply settings caret intent _ ih =>
      exact @Editor.sound_apply ⟨_, caret⟩ settings ih intent

/- An empty text is read as the empty document. -/
theorem Document.ofText_nil :
    ofText [] = empty := by
  rw [ofText, ofTextFrom, Row.ofText_nil]
  rfl

/- The empty document is where editing may start. -/
theorem Document.Reachable.empty :
    Document.empty.Reachable := by
  rw [← ofText_nil]
  exact .read 0 []

end FormulaEditor
