import FormulaEditor.Editing.Intent
import FormulaEditor.Host

/-
  This file keeps the text of a host and the document of an
  editor in step.  The document follows every change of the
  host's text, and edits are pushed to the host after they
  have been left alone for a while.  Either way the texts
  are compared first, so that nothing comes back as its own
  echo.  Time is an input of the operations that need it.

  Key definitions include:
    * `version`
    * `Session`
    * `Session.openOn`
    * `Session.hostChanged`
    * `Session.apply`
    * `Session.poll`
    * `Session.flush`
    * `Session.close`
-/

namespace FormulaEditor

/- The version of the editor, which hosts may ask for. -/
def version : Text :=
  "0.1.0".toList

------------------------------------------------------------
-- Sessions
------------------------------------------------------------

/-
  How often a document has been read anew, a text has been
  pushed, an echo has been skipped, and a push has been
  skipped because the host had the text already.
-/
structure Tally where
  rereads : Nat
  pushes : Nat
  echoes : Nat
  idlePushes : Nat
  deriving DecidableEq

/- Nothing has happened yet. -/
def Tally.zero : Tally :=
  ⟨0, 0, 0, 0⟩

/-
  A session: the host, the settings, the editor, the text
  that its document is written as, the last text that the
  host is known to have, the time at which a pending push is
  due, and the tally.
-/
structure Session where
  host : Host
  settings : Settings
  editor : Editor
  written : Text
  known : Text
  deadline : Option Nat
  tally : Tally

/- A push that the host has refused. -/
structure PushError where
  source : HostError
  deriving DecidableEq

/- The words for a push that the host has refused. -/
def PushError.message
    (_ : PushError) :
    Text :=
  "failed to push document to host".toList

namespace Session

/- What the caret is in. -/
def focus
    (session : Session) :
    Focus :=
  session.editor.focus

/- The requests that bring the preview up to date. -/
def preview
    (session : Session) :
    List Call :=
  session.host.preview session.written

/- Follow the document of an editor. -/
def follow
    (session : Session)
    (editor : Editor) :
    Session :=
  { session with
    editor := editor
    written := editor.document.toText }

/- Open a session on the present text of a host. -/
def openOn
    (host : Host)
    (settings : Settings) :
    Reply Session Unit :=
  let document := Document.ofText host.text
  let session : Session :=
    { host := host
      settings := settings
      editor := .atEnd document
      written := document.toText
      known := host.text
      deadline := none
      tally := .zero }
  ⟨session, (), session.preview⟩

------------------------------------------------------------
-- From the Host
------------------------------------------------------------

/-
  Take in a text that the host says it has.  A text that the
  session has too, or that the host was known to have, is an
  echo; any other replaces the document and drops a pending
  push.  The answer tells if the document was replaced.
-/
def hostChanged
    (session : Session)
    (text : Text) :
    Reply Session Bool :=
  if text = session.written || text = session.known then
    let echoes := session.tally.echoes + 1
    ⟨{ session with
        tally := { session.tally with echoes } },
      false, []⟩
  else
    let document := session.editor.document.reread text
    let rereads := session.tally.rereads + 1
    let session :=
      { session.follow (.atEnd document) with
        known := text
        deadline := none
        tally := { session.tally with rereads } }
    ⟨session, true, session.preview⟩

------------------------------------------------------------
-- Editing
------------------------------------------------------------

/-
  Apply an intent.  If that changes the text, the preview is
  shown anew and the time to wait before a push starts over.
-/
def apply
    (session : Session)
    (intent : Intent)
    (now : Nat) :
    Reply Session Focus :=
  let (editor, focus) :=
    session.editor.apply session.settings intent
  let after := session.follow editor
  if after.written = session.written then
    ⟨after, focus, []⟩
  else
    let after :=
      { after with
        deadline :=
          some (now + session.settings.debounce.toNat) }
    ⟨after, focus, after.preview⟩

/- Put the caret somewhere. -/
def place
    (session : Session)
    (caret : Caret) :
    Reply Session Focus :=
  let (editor, focus) :=
    session.editor.apply session.settings (.focus caret)
  ⟨{ session with editor }, focus, []⟩

------------------------------------------------------------
-- To the Host
------------------------------------------------------------

/-
  Push the text to the host, unless the host has it already.
  A push that fails stays pending.  The answer tells if the
  host was written to.
-/
def push
    (session : Session) :
    Reply Session (Except PushError Bool) :=
  if session.host.text = session.written then
    let idlePushes := session.tally.idlePushes + 1
    ⟨{ session with
        known := session.written
        deadline := none
        tally := { session.tally with idlePushes } },
      .ok false, []⟩
  else
    let reply := session.host.replace session.written
    match reply.answer with
    | .error source =>
        ⟨{ session with host := reply.state },
          .error ⟨source⟩, reply.calls⟩
    | .ok () =>
        let pushes := session.tally.pushes + 1
        ⟨{ session with
            host := reply.state
            known := session.written
            deadline := none
            tally := { session.tally with pushes } },
          .ok true, reply.calls⟩

/- Push at once, if a push is pending. -/
def flush
    (session : Session) :
    Reply Session (Except PushError Bool) :=
  match session.deadline with
  | none => ⟨session, .ok false, []⟩
  | some _ => session.push

/- Push if a pending push is due. -/
def poll
    (session : Session)
    (now : Nat) :
    Reply Session (Except PushError Bool) :=
  match session.deadline with
  | none => ⟨session, .ok false, []⟩
  | some deadline =>
      if deadline ≤ now then
        session.push
      else
        ⟨session, .ok false, []⟩

/- Close the session, and hand the host back as it is. -/
def close
    (session : Session) :
    Host :=
  session.host

end Session

end FormulaEditor
