import FormulaEditor.Proofs.Session.Agreement

/-
  This file defines the runs of a session: what it answers
  to each of a list of events, which are its own moves, what
  it hears about the text of its host, and changes of the
  host.

  Key definitions include:
    * `Event`
    * `Answer`
    * `Session.respond`
    * `Session.after`
    * `Session.record`
    * `Session.requests`
    * `Session.IsWritten`

  Key theorems include:
    * `Session.pushes_respond`
    * `Session.continues_respond`
    * `Session.continues_after`
    * `Session.written_after_openOn`
-/

namespace FormulaEditor

------------------------------------------------------------
-- Events and Answers
------------------------------------------------------------

/-
  What may happen to a session: it makes a move, it hears
  that the host has a text, or the host changes, in its text
  or in what it refuses.
-/
inductive Event where
  | move (move : Move)
  | hear (text : Text)
  | change (host : Host)

/- Whether an event asks for a pending push. -/
def Event.isPush : Event → Bool
  | .move (.poll _) => true
  | .move .flush => true
  | _ => false

/-
  What a session answers: what the caret is in, how a push
  went, whether a text has been read anew, or nothing.
-/
inductive Answer where
  | focus (focus : Focus)
  | pushed (result : Except PushError Bool)
  | heard (reread : Bool)
  | none
  deriving DecidableEq

/- An operation with its answer in another form. -/
def Reply.map
    {σ α β : Type}
    (f : α → β)
    (reply : Reply σ α) :
    Reply σ β :=
  ⟨reply.state, f reply.answer, reply.calls⟩

namespace Session

/-
  Respond to an event.  A host that changes goes on showing
  previews if it did, though it may begin or cease to fail.
-/
def respond
    (session : Session) :
    Event → Reply Session Answer
  | .move (.apply intent now) =>
      (session.apply intent now).map .focus
  | .move (.place caret) => (session.place caret).map .focus
  | .move (.poll now) => (session.poll now).map .pushed
  | .move .flush => session.flush.map .pushed
  | .hear text => (session.hostChanged text).map .heard
  | .change host =>
      ⟨{ session with
          host :=
            { host with previews := session.host.previews } },
        .none, []⟩

------------------------------------------------------------
-- Runs
------------------------------------------------------------

/- The session after a run. -/
def after
    (session : Session)
    (events : List Event) :
    Session :=
  events.foldl
    (fun session event => (session.respond event).state)
    session

/- The responses to the events of a run, in order. -/
def record :
    Session → List Event → List (Event × Reply Session Answer)
  | _, [] => []
  | session, event :: events =>
      (event, session.respond event) ::
        record (session.respond event).state events

/- The requests of a run, in order. -/
def requests
    (session : Session)
    (events : List Event) :
    List Call :=
  (session.record events).flatMap fun entry => entry.2.calls

/- The session after a run that goes on by one event. -/
theorem after_concat
    (session : Session)
    (events : List Event)
    (event : Event) :
    session.after (events ++ [event]) =
      ((session.after events).respond event).state := by
  rw [after, List.foldl_append]
  rfl

/- The requests of a run that starts with an event. -/
theorem requests_cons
    (session : Session)
    (event : Event)
    (events : List Event) :
    session.requests (event :: events) =
      (session.respond event).calls ++
        (session.respond event).state.requests events :=
  List.flatMap_cons

/- The requests of a run that goes on by one event. -/
theorem requests_concat
    (session : Session)
    (events : List Event)
    (event : Event) :
    session.requests (events ++ [event]) =
      session.requests events ++
        ((session.after events).respond event).calls := by
  induction events generalizing session with
  | nil => exact List.append_nil _
  | cons first events ih =>
      rw [List.cons_append, requests_cons, requests_cons, ih,
        List.append_assoc]
      rfl

------------------------------------------------------------
-- Requests to Push
------------------------------------------------------------

/- What asks for a push does one, or nothing. -/
theorem pushes_respond
    (session : Session)
    {event : Event}
    (hPush : event.isPush = true) :
    ∃ reply, session.Pushes reply ∧
      session.respond event = reply.map .pushed := by
  rcases event with (_ | _ | ⟨now⟩ | _) | text | host
  case move.poll =>
    exact ⟨_, session.pushes_poll now, rfl⟩
  case move.flush => exact ⟨_, session.pushes_flush, rfl⟩
  all_goals cases hPush

/- Only polling and flushing answer how a push went. -/
theorem isPush_of_answer
    {session : Session}
    {event : Event}
    {result : Except PushError Bool}
    (hAnswer :
      (session.respond event).answer = .pushed result) :
    event.isPush = true := by
  rcases event with (_ | _ | _ | _) | text | host
  case move.poll => rfl
  case move.flush => rfl
  all_goals cases hAnswer

/- No push changes the document or the caret. -/
theorem editor_of_isPush
    (session : Session)
    {event : Event}
    (hPush : event.isPush = true) :
    (session.respond event).state.editor = session.editor := by
  rcases session.pushes_respond hPush with
    ⟨reply, hPushes, hReply⟩
  rw [hReply]
  cases hPushes <;> rfl

------------------------------------------------------------
-- What Becomes of a Session
------------------------------------------------------------

/- A session continues whatever event happens. -/
theorem continues_respond
    (session : Session)
    (event : Event) :
    session.Continues (session.respond event).state := by
  cases event with
  | move move =>
      have hState :
          (session.respond (.move move)).state =
            (session.step move).state := by
        cases move <;> rfl
      rw [hState]
      exact session.continues_step move
  | hear text => exact session.continues_hostChanged text
  | change host => exact ⟨rfl, rfl, .inr ⟨rfl, rfl⟩⟩

/- So it does in a run. -/
theorem continues_after
    (session : Session)
    (events : List Event) :
    session.Continues (session.after events) := by
  induction events generalizing session with
  | nil => exact .refl session
  | cons event events ih =>
      exact (session.continues_respond event).trans (ih _)

------------------------------------------------------------
-- The Text of the Document
------------------------------------------------------------

/- A session has written the document that it holds. -/
def IsWritten
    (session : Session) :
    Prop :=
  session.written = session.editor.document.toText

/- In every run it has written the document that it holds. -/
theorem written_after_openOn
    (host : Host)
    (settings : Settings)
    (events : List Event) :
    ((openOn host settings).state.after events).IsWritten :=
  ((openOn host settings).state.continues_after
    events).written_eq rfl

end Session

end FormulaEditor
