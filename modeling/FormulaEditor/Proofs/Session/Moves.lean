import FormulaEditor.Session

/-
  This file lists the moves that a session makes of its own
  accord, and proves what each of them does to the text that
  the session and its host share.

  Key definitions include:
    * `Move`
    * `Session.step`
    * `Session.Pushes`
    * `Session.Exchanges`
    * `Session.Rereads`
    * `Session.Continues`

  Key theorems include:
    * `Session.apply_cases`
    * `Session.pushes_push`
    * `Session.exchanges_step`
    * `Session.hostChanged_of_echo`
    * `Session.hostChanged_of_news`
    * `Session.continues_step`
    * `Session.continues_hostChanged`
-/

namespace FormulaEditor

------------------------------------------------------------
-- Moves
------------------------------------------------------------

/-
  What a session may be asked to do, other than to take in
  a text of the host.
-/
inductive Move where
  | apply (intent : Intent) (now : Nat)
  | place (caret : Caret)
  | poll (now : Nat)
  | flush

/- The text that a request has put in place of the host's. -/
def Call.written? : Call → Option Text
  | .replace text true => some text
  | _ => none

namespace Reply

variable {σ α : Type}

/- What an operation leads to, whatever it answers. -/
def effect
    (reply : Reply σ α) :
    Reply σ Unit :=
  ⟨reply.state, (), reply.calls⟩

/- The texts that an operation has written, in order. -/
def writes
    (reply : Reply σ α) :
    List Text :=
  reply.calls.filterMap Call.written?

end Reply

/- How often a push has been completed, written or not. -/
def Tally.completed
    (tally : Tally) :
    Nat :=
  tally.pushes + tally.idlePushes

/- Putting the caret somewhere leaves the document alone. -/
theorem Editor.document_apply_focus
    (settings : Settings)
    (editor : Editor)
    (caret : Caret) :
    (editor.apply settings (.focus caret)).1.document =
      editor.document := by
  simp only [apply]
  split <;> rfl

namespace Session

/- Make a move. -/
def step
    (session : Session) :
    Move → Reply Session Unit
  | .apply intent now => (session.apply intent now).effect
  | .place caret => (session.place caret).effect
  | .poll now => (session.poll now).effect
  | .flush => session.flush.effect

------------------------------------------------------------
-- Editing
------------------------------------------------------------

/-
  An edit that leaves the text as it is only changes the
  editor; any other sets the time at which a push is due,
  and shows the preview anew.
-/
theorem apply_cases
    (session : Session)
    (intent : Intent)
    (now : Nat) :
    ∃ editor,
      ((session.follow editor).written = session.written ∧
        (session.apply intent now).effect =
          ⟨session.follow editor, (), []⟩) ∨
      (session.follow editor).written ≠ session.written ∧
        ∃ after : Session,
          after =
              { session.follow editor with
                deadline :=
                  some
                    (now + session.settings.debounce.toNat) } ∧
            (session.apply intent now).effect =
              ⟨after, (), after.preview⟩ := by
  refine
    ⟨(session.editor.apply session.settings intent).1, ?_⟩
  simp only [apply]
  split
  · next hSame => exact .inl ⟨hSame, rfl⟩
  · next hOther => exact .inr ⟨hOther, _, rfl, rfl⟩

------------------------------------------------------------
-- Pushing
------------------------------------------------------------

/- A host that refuses nothing takes a text over. -/
theorem replace_of_accepts
    {host : Host}
    (hAccepts : host.replaceError = none)
    (text : Text) :
    host.replace text =
      ⟨{ host with text }, .ok (), [.replace text true]⟩ := by
  unfold Host.replace
  split
  · next hRefused =>
      rw [hAccepts] at hRefused
      cases hRefused
  · rfl

/-
  What polling and flushing may do: nothing, if no push is
  due; or a push, which finds its text with the host, or is
  refused there, or writes.  Only in this do they differ
  from doing nothing.
-/
inductive Pushes
    (session : Session) :
    Reply Session (Except PushError Bool) → Prop where
  | idle : Pushes session ⟨session, .ok false, []⟩
  | found :
      session.host.text = session.written →
        Pushes session
          ⟨{ session with
              known := session.written
              deadline := none
              tally :=
                { session.tally with
                  idlePushes :=
                    session.tally.idlePushes + 1 } },
            .ok false, []⟩
  | refused {error : HostError} :
      session.host.replaceError = some error →
        Pushes session
          ⟨session, .error ⟨error⟩,
            [.replace session.written false]⟩
  | wrote :
      session.host.replaceError = none →
        Pushes session
          ⟨{ session with
              host :=
                { session.host with text := session.written }
              known := session.written
              deadline := none
              tally :=
                { session.tally with
                  pushes := session.tally.pushes + 1 } },
            .ok true, [.replace session.written true]⟩

/- Pushing is one of these. -/
theorem pushes_push
    (session : Session) :
    session.Pushes session.push := by
  rw [push]
  split
  · next hSame => exact .found hSame
  · cases hError : session.host.replaceError with
    | some error =>
        simp only [Host.replace, hError]
        exact .refused hError
    | none =>
        simp only [replace_of_accepts hError]
        exact .wrote hError

/- Flushing is one of these. -/
theorem pushes_flush
    (session : Session) :
    session.Pushes session.flush := by
  rw [flush]
  split
  · exact .idle
  · exact session.pushes_push

/- Polling is one of these. -/
theorem pushes_poll
    (session : Session)
    (now : Nat) :
    session.Pushes (session.poll now) := by
  rw [poll]
  split
  · exact .idle
  · split
    · exact session.pushes_push
    · exact .idle

------------------------------------------------------------
-- Exchanges With the Host
------------------------------------------------------------

/-
  What a move may do to the text that a session shares with
  its host.  It leaves that text alone, or it completes a
  push, which finds the session's own text with the host or
  writes it there.
-/
inductive Exchanges
    (session : Session)
    (reply : Reply Session Unit) :
    Prop where
  | nothing :
      reply.state.known = session.known →
        reply.state.host.text = session.host.text →
        reply.state.tally.completed =
          session.tally.completed →
        reply.writes = [] →
        Exchanges session reply
  | found :
      reply.state.known = session.written →
        session.host.text = session.written →
        reply.state.host.text = session.host.text →
        reply.state.tally.completed =
          session.tally.completed + 1 →
        reply.writes = [] →
        Exchanges session reply
  | wrote :
      reply.state.known = session.written →
        reply.state.host.text = session.written →
        reply.state.tally.completed =
          session.tally.completed + 1 →
        reply.writes = [session.written] →
        Exchanges session reply

/- Showing a preview writes nothing. -/
theorem writes_preview
    (session : Session) :
    session.preview.filterMap Call.written? = [] := by
  rw [preview, Host.preview]
  split <;> rfl

/- An edit exchanges nothing with the host. -/
theorem exchanges_apply
    (session : Session)
    (intent : Intent)
    (now : Nat) :
    session.Exchanges (session.apply intent now).effect := by
  rcases session.apply_cases intent now with
    ⟨editor, ⟨_, hApply⟩ | ⟨_, after, rfl, hApply⟩⟩
  · rw [hApply]
    exact .nothing rfl rfl rfl rfl
  · rw [hApply]
    exact .nothing rfl rfl rfl (writes_preview _)

/- A push is completed, or leaves everything as it was. -/
theorem Pushes.exchanges
    {session : Session}
    {reply : Reply Session (Except PushError Bool)}
    (hPushes : session.Pushes reply) :
    session.Exchanges reply.effect := by
  cases hPushes with
  | idle => exact .nothing rfl rfl rfl rfl
  | found hSame => exact .found rfl hSame rfl rfl rfl
  | refused => exact .nothing rfl rfl rfl rfl
  | wrote => exact .wrote rfl rfl (Nat.add_right_comm ..) rfl

/- Every move exchanges nothing, or completes a push. -/
theorem exchanges_step
    (session : Session)
    (move : Move) :
    session.Exchanges (session.step move) := by
  cases move with
  | apply intent now => exact exchanges_apply session intent now
  | place caret => exact .nothing rfl rfl rfl rfl
  | poll now => exact (session.pushes_poll now).exchanges
  | flush => exact session.pushes_flush.exchanges

------------------------------------------------------------
-- Texts of the Host
------------------------------------------------------------

section HostTexts

variable (session : Session) (text : Text)

/-
  A session has read a text of the host anew: the document
  is that text's, the caret is at its end, and the answer
  tells so.
-/
structure Rereads :
    Prop where
  answer : (session.hostChanged text).answer = true
  editor :
    (session.hostChanged text).state.editor =
      .atEnd (session.editor.document.reread text)

/- Taking in a text does nothing to the host. -/
theorem host_hostChanged :
    (session.hostChanged text).state.host = session.host := by
  simp only [hostChanged]
  split <;> rfl

/- An echo changes neither the document nor the caret. -/
theorem hostChanged_of_echo
    (hEcho : text = session.written ∨ text = session.known) :
    (session.hostChanged text).answer = false ∧
      (session.hostChanged text).state.editor =
        session.editor ∧
      (session.hostChanged text).state.known =
        session.known := by
  simp only [hostChanged, Bool.or_eq_true, decide_eq_true_eq,
    if_pos hEcho, and_self]

/- Any other text is read anew, and known from then on. -/
theorem hostChanged_of_news
    (hOwn : text ≠ session.written)
    (hKnown : text ≠ session.known) :
    session.Rereads text ∧
      (session.hostChanged text).state.known = text := by
  have hNews :
      ¬ (text = session.written ∨ text = session.known) :=
    not_or.mpr ⟨hOwn, hKnown⟩
  refine ⟨⟨?_, ?_⟩, ?_⟩ <;>
    simp only [hostChanged, Bool.or_eq_true,
      decide_eq_true_eq, if_neg hNews]
  -- The editor is the one that `follow` was given.
  rfl

end HostTexts

------------------------------------------------------------
-- What Becomes of a Session
------------------------------------------------------------

/-
  What becomes of a session, whatever happens to it.  It
  keeps its settings, its host shows previews if it did, and
  it has either written the document that it holds, or left
  both the document and what was written as they were.
-/
structure Continues
    (session after : Session) :
    Prop where
  settings : after.settings = session.settings
  previews : after.host.previews = session.host.previews
  text :
    after.written = after.editor.document.toText ∨
      after.written = session.written ∧
        after.editor.document = session.editor.document

section Continues

variable {session after : Session}

/- A session may stay as it is. -/
theorem Continues.refl
    (session : Session) :
    session.Continues session :=
  ⟨rfl, rfl, .inr ⟨rfl, rfl⟩⟩

/- One thing may happen to a session after another. -/
theorem Continues.trans
    {last : Session}
    (hContinues : session.Continues after)
    (hLater : after.Continues last) :
    session.Continues last where
  settings := hLater.settings.trans hContinues.settings
  previews := hLater.previews.trans hContinues.previews
  text := by
    rcases hLater.text with hAnew | ⟨hText, hDocument⟩
    · exact .inl hAnew
    · rw [hText, hDocument]
      exact hContinues.text

/- A document that had been written has been written again. -/
theorem Continues.written_eq
    (hContinues : session.Continues after)
    (hWritten :
      session.written = session.editor.document.toText) :
    after.written = after.editor.document.toText := by
  rcases hContinues.text with hAnew | ⟨hText, hDocument⟩
  · exact hAnew
  · rw [hText, hDocument]
    exact hWritten

/- A push leaves the document as it was. -/
theorem Pushes.continues
    {reply : Reply Session (Except PushError Bool)}
    (hPushes : session.Pushes reply) :
    session.Continues reply.state := by
  cases hPushes <;> exact ⟨rfl, rfl, .inr ⟨rfl, rfl⟩⟩

end Continues

/- An edit writes the document anew, no other move does. -/
theorem continues_step
    (session : Session)
    (move : Move) :
    session.Continues (session.step move).state := by
  cases move with
  | apply intent now =>
      rcases session.apply_cases intent now with
        ⟨editor, ⟨_, hApply⟩ | ⟨_, after, rfl, hApply⟩⟩
      · rw [step, hApply]
        exact ⟨rfl, rfl, .inl rfl⟩
      · rw [step, hApply]
        exact ⟨rfl, rfl, .inl rfl⟩
  | place caret =>
      exact ⟨rfl, rfl,
        .inr ⟨rfl, Editor.document_apply_focus ..⟩⟩
  | poll now => exact (session.pushes_poll now).continues
  | flush => exact session.pushes_flush.continues

/- A text of the host is an echo, or is read and written. -/
theorem continues_hostChanged
    (session : Session)
    (text : Text) :
    session.Continues (session.hostChanged text).state := by
  simp only [hostChanged]
  split
  · exact ⟨rfl, rfl, .inr ⟨rfl, rfl⟩⟩
  · exact ⟨rfl, rfl, .inl rfl⟩

end Session

end FormulaEditor
