import FormulaEditor.Text.Blank

/-
  This file defines hosts, which own the text that is
  edited, and what can be asked of them.

  Key definitions include:
    * `HostError`
    * `HostError.message`
    * `Host`
    * `Call`
    * `Reply`
    * `Host.replace`
    * `Host.insert`
    * `Host.preview`
-/

namespace FormulaEditor

------------------------------------------------------------
-- Errors
------------------------------------------------------------

/- Why a host does not do what it is asked for. -/
inductive HostError where
  | noEditor
  | refusedEdit (reason : Text)
  | gone
  | failed (reason : Text)
  deriving DecidableEq

/- The words for what a host does not do. -/
def HostError.message : HostError → Text
  | .noEditor =>
      "no active text editor to insert into".toList
  | .refusedEdit reason =>
      "host rejected the edit: ".toList ++ reason
  | .gone => "host document has been closed".toList
  | .failed reason => reason

------------------------------------------------------------
-- Hosts
------------------------------------------------------------

/-
  A host: its text, how each kind of request fails at
  present if it does, and whether it shows previews.
-/
structure Host where
  text : Text
  replaceError : Option HostError
  insertError : Option HostError
  previewError : Option HostError
  previews : Bool
  deriving DecidableEq

/- A host that does all it is asked for. -/
def Host.ofText
    (text : Text) :
    Host where
  text := text
  replaceError := none
  insertError := none
  previewError := none
  previews := true

/-
  A request as the host sees it, and whether it is accepted:
  to replace its text, to insert a text at its own caret, to
  show a preview, or to show a message instead of one.
-/
inductive Call where
  | replace (text : Text) (accepted : Bool)
  | insert (text : Text) (accepted : Bool)
  | preview (text : Text) (accepted : Bool)
  | previewFailed (message : Text)
  deriving DecidableEq

/-
  What an operation that may make requests leads to: the
  state afterwards, the answer, and the requests in order.
-/
structure Reply (σ α : Type) where
  state : σ
  answer : α
  calls : List Call

namespace Host

/- Replace the whole text of a host. -/
def replace
    (host : Host)
    (text : Text) :
    Reply Host (Except HostError Unit) :=
  match host.replaceError with
  | some error =>
      ⟨host, .error error, [.replace text false]⟩
  | none =>
      ⟨{ host with text }, .ok (), [.replace text true]⟩

/- Insert a text at the caret of a host, which is its end. -/
def insert
    (host : Host)
    (text : Text) :
    Reply Host (Except HostError Unit) :=
  match host.insertError with
  | some error =>
      ⟨host, .error error, [.insert text false]⟩
  | none =>
      ⟨{ host with text := host.text ++ text }, .ok (),
        [.insert text true]⟩

/- What is shown in place of a preview that fails. -/
def previewNotice : Text :=
  "Error rendering math".toList

/- The requests that show a preview, or the message. -/
def preview
    (host : Host)
    (text : Text) :
    List Call :=
  match host.previews, host.previewError with
  | false, _ => []
  | true, none => [.preview text true]
  | true, some _ =>
      [.preview text false, .previewFailed previewNotice]

end Host

end FormulaEditor
