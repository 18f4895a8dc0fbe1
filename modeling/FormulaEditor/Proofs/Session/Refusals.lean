import FormulaEditor.Proofs.Session.Runs

/-
  This file proves that a push that the host refuses leaves
  no trace: the session is as if it had not been asked to
  push, now and in whatever follows.

  Key definitions include:
    * `Session.Spares`

  Key theorems include:
    * `Session.respond_of_refused`
    * `Session.Spares.record_sublist`
    * `Session.refusals_invisible`
-/

namespace FormulaEditor

namespace Session

------------------------------------------------------------
-- One Refused Push
------------------------------------------------------------

/-
  A push is refused after one request, which the host does
  not accept, and leaves the session as it was.
-/
theorem respond_of_refused
    {session : Session}
    {event : Event}
    {error : PushError}
    (hRefused :
      (session.respond event).answer =
        .pushed (.error error)) :
    session.host.replaceError = some error.source ∧
      session.respond event =
        ⟨session, .pushed (.error error),
          [.replace session.written false]⟩ := by
  rcases session.pushes_respond (isPush_of_answer hRefused)
    with ⟨reply, hPushes, hReply⟩
  rw [hReply] at hRefused ⊢
  cases hPushes with
  | idle => cases hRefused
  | found => cases hRefused
  | wrote => cases hRefused
  | refused hError =>
      rcases Except.error.inj (Answer.pushed.inj hRefused)
        with rfl
      exact ⟨hError, rfl⟩

/- A push that is refused leaves the session as it was. -/
theorem state_of_refused
    {session : Session}
    {event : Event}
    {error : PushError}
    (hRefused :
      (session.respond event).answer =
        .pushed (.error error)) :
    (session.respond event).state = session := by
  rw [(respond_of_refused hRefused).2]

/- What a push writes is what the session has written. -/
theorem replace_of_isPush
    {session : Session}
    {event : Event}
    (hPush : event.isPush = true)
    {text : Text}
    (hReplace :
      .replace text true ∈ (session.respond event).calls) :
    text = session.written ∧
      (session.respond event).state.host.text = text := by
  rcases session.pushes_respond hPush with
    ⟨reply, hPushes, hReply⟩
  rw [hReply] at hReplace ⊢
  cases hPushes with
  | idle => cases hReplace
  | found => cases hReplace
  | refused =>
      cases Call.replace.inj (List.mem_singleton.mp hReplace)
        |>.2
  | wrote =>
      rcases Call.replace.inj
          (List.mem_singleton.mp hReplace) with
        ⟨rfl, _⟩
      exact ⟨rfl, rfl⟩

------------------------------------------------------------
-- Runs With Refused Pushes
------------------------------------------------------------

/-
  A run, and what is kept of it when any of the pushes that
  are refused in it are left out.
-/
inductive Spares : Session → List Event → List Event → Prop
  where
  | nil (session : Session) : Spares session [] []
  | keep
      {session : Session}
      {events kept : List Event}
      (event : Event) :
      Spares (session.respond event).state events kept →
        Spares session (event :: events) (event :: kept)
  | leave
      {session : Session}
      {events kept : List Event}
      {event : Event}
      {error : PushError} :
      (session.respond event).answer =
          .pushed (.error error) →
        Spares (session.respond event).state events kept →
        Spares session (event :: events) kept

/- What is kept of a run leads to the same session. -/
theorem Spares.after_eq
    {session : Session}
    {events kept : List Event}
    (hSpares : session.Spares events kept) :
    session.after kept = session.after events := by
  induction hSpares with
  | nil session => rfl
  | keep event _ ih => exact ih
  | @leave session events kept event error hRefused _ ih =>
      rw [state_of_refused hRefused] at ih
      rw [ih]
      change
        session.after events =
          (session.respond event).state.after events
      rw [state_of_refused hRefused]

/- What is kept of a run is responded to as it was there. -/
theorem Spares.record_sublist
    {session : Session}
    {events kept : List Event}
    (hSpares : session.Spares events kept) :
    (session.record kept).Sublist (session.record events) := by
  induction hSpares with
  | nil session => exact List.Sublist.refl _
  | keep event _ ih => exact ih.cons_cons _
  | @leave session events kept event error hRefused _ ih =>
      rw [state_of_refused hRefused] at ih
      rw [record, state_of_refused hRefused]
      exact ih.cons _

/-
  Refused pushes are invisible.  In every run, a push that
  is refused makes one request, which the host does not
  accept, and leaves the session as it was; to leave any of
  these pushes out of a run changes neither how it ends nor
  how anything else is responded to; a push that writes,
  writes the document as it is then; and no push changes the
  document or the caret.
-/
theorem refusals_invisible
    (host : Host)
    (settings : Settings)
    (events : List Event) :
    let session := (openOn host settings).state.after events
    (∀ event error,
      (session.respond event).answer =
          .pushed (.error error) →
        session.host.replaceError = some error.source ∧
          session.respond event =
            ⟨session, .pushed (.error error),
              [.replace session.editor.document.toText
                false]⟩) ∧
    (∀ more kept, session.Spares more kept →
      session.after kept = session.after more ∧
        (session.record kept).Sublist
          (session.record more)) ∧
    (∀ event text, event.isPush = true →
      .replace text true ∈ (session.respond event).calls →
        text = session.editor.document.toText ∧
          (session.respond event).state.host.text = text) ∧
    ∀ event, event.isPush = true →
      (session.respond event).state.editor =
        session.editor := by
  intro session
  have hWritten : session.IsWritten :=
    written_after_openOn host settings events
  rw [← show session.written = _ from hWritten]
  refine ⟨?_, ?_, ?_, ?_⟩
  · intro event error hRefused
    exact respond_of_refused hRefused
  · intro more kept hSpares
    exact ⟨hSpares.after_eq, hSpares.record_sublist⟩
  · intro event text hPush hReplace
    exact replace_of_isPush hPush hReplace
  · intro event hPush
    exact session.editor_of_isPush hPush

/-
  A push that is refused twice and then goes through, with
  and without one of the refusals.
-/
theorem refused_push_retried :
    let refusing : Host :=
      { Host.ofText [] with replaceError := some .gone }
    let edited :=
      (openOn (.ofText []) .standard).state.after
        [.move (.apply (.type 'q') 0), .change refusing]
    let refused := Event.move .flush
    let retried : List Event :=
      [.move (.poll 500), .change (.ofText []),
        .move (.poll 600)]
    (edited.respond refused).answer =
        .pushed (.error ⟨.gone⟩) ∧
      (edited.respond refused).state.deadline = some 500 ∧
      (edited.after (refused :: retried)).host.text =
        ['q'] ∧
      edited.after retried =
          edited.after (refused :: retried) ∧
        (edited.record retried).Sublist
          (edited.record (refused :: retried)) := by
  intro refusing edited refused retried
  have hRefused :
      (edited.respond refused).answer =
        .pushed (.error ⟨.gone⟩) := by
    decide +kernel
  have hSpares :
      edited.Spares (refused :: retried) retried := by
    refine .leave hRefused ?_
    exact .keep _ (.keep _ (.keep _ (.nil _)))
  exact ⟨hRefused, by decide +kernel, by decide +kernel,
    (refusals_invisible _ _ _).2.1 _ _ hSpares⟩

end Session

end FormulaEditor
