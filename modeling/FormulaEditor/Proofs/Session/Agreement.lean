import FormulaEditor.Proofs.Formula.Canonical
import FormulaEditor.Proofs.Session.Moves

/-
  This file proves that a session and its host agree
  whenever no push is pending, for as long as the host
  reports every change of its text.

  Key definitions include:
    * `Session.InTouch`
    * `Session.Matches`
    * `Session.Kept`

  Key theorems include:
    * `Session.kept_hostChanged`
    * `Session.Kept.pushes`
    * `Session.agrees_of_inTouch`
-/

namespace FormulaEditor

open Text

------------------------------------------------------------
-- Documents That Are Read or Left Alone
------------------------------------------------------------

/- Where identities start does not show in what is written. -/
theorem toText_ofTextFrom
    (next : Identity)
    (s : Text) :
    (Document.ofTextFrom next s).toText = canonical s := by
  rw [canonical_eq_toText]
  exact toText_number next (Row.ofText s)

namespace Session

------------------------------------------------------------
-- Sessions in Touch With Their Hosts
------------------------------------------------------------

/-
  The sessions that come from opening one on a host by any
  number of edits, moves of the caret, pushes and reported
  changes of the host's text.  In between, the host may
  start or stop to fail at anything.
-/
inductive InTouch : Session → Prop where
  | openOn (host : Host) (settings : Settings) :
      InTouch (openOn host settings).state
  | apply {session : Session} (intent : Intent) (now : Nat) :
      InTouch session →
        InTouch (session.apply intent now).state
  | place {session : Session} (caret : Caret) :
      InTouch session → InTouch (session.place caret).state
  | poll {session : Session} (now : Nat) :
      InTouch session → InTouch (session.poll now).state
  | flush {session : Session} :
      InTouch session → InTouch session.flush.state
  | report {session : Session} (text : Text) :
      InTouch session →
        InTouch
          (hostChanged
            { session with
              host := { session.host with text } }
            text).state
  | fail {session : Session} (host : Host) :
      host.text = session.host.text → InTouch session →
        InTouch { session with host }

------------------------------------------------------------
-- What Is Kept
------------------------------------------------------------

/- A session has a text as it is, or as it is written. -/
def Matches
    (session : Session)
    (text : Text) :
    Prop :=
  session.written = text ∨ session.written = canonical text

/-
  A session has written the document that it holds, and
  unless a push is pending it has both the text of the host
  and the one that the host was last known to have.  Only
  the latter carries over a text that comes as an echo.
-/
structure Kept
    (session : Session) :
    Prop where
  written :
    session.written = session.editor.document.toText
  known :
    session.deadline = none → session.Matches session.known
  host :
    session.deadline = none →
      session.Matches session.host.text

/- A session that has just been opened is kept. -/
theorem kept_openOn
    (host : Host)
    (settings : Settings) :
    Kept (openOn host settings).state where
  written := rfl
  known _ := .inr rfl
  host _ := .inr rfl

/- Putting the caret somewhere changes no text. -/
theorem kept_place
    {session : Session}
    (hKept : session.Kept)
    (caret : Caret) :
    Kept (session.place caret).state where
  written :=
    (session.continues_step (.place caret)).written_eq
      hKept.written
  known := hKept.known
  host := hKept.host

/- An edit that changes the text makes a push pending. -/
theorem kept_apply
    {session : Session}
    (hKept : session.Kept)
    (intent : Intent)
    (now : Nat) :
    Kept (session.apply intent now).state := by
  simp only [apply]
  split
  · next hSame =>
      refine ⟨rfl, ?_, ?_⟩
      · intro hNone
        rw [Matches, hSame]
        exact hKept.known hNone
      · intro hNone
        rw [Matches, hSame]
        exact hKept.host hNone
  · refine ⟨rfl, ?_, ?_⟩
    · intro hNone
      cases hNone
    · intro hNone
      cases hNone

/-
  A push leads to a text that the host has, or changes
  nothing.
-/
theorem Kept.pushes
    {session : Session}
    (hKept : session.Kept)
    {reply : Reply Session (Except PushError Bool)}
    (hPushes : session.Pushes reply) :
    Kept reply.state := by
  cases hPushes with
  | idle => exact hKept
  | found hSame =>
      exact ⟨hKept.written, fun _ => .inl rfl,
        fun _ => .inl hSame.symm⟩
  | refused => exact hKept
  | wrote =>
      exact ⟨hKept.written, fun _ => .inl rfl,
        fun _ => .inl rfl⟩

/-
  A reported text is what the session has, or what the host
  was known to have, or else it is read anew.
-/
theorem kept_hostChanged
    {session : Session}
    (hKept : session.Kept)
    (text : Text) :
    Kept
      (hostChanged
        { session with host := { session.host with text } }
        text).state := by
  simp only [hostChanged, Bool.or_eq_true, decide_eq_true_eq]
  split
  · next hEcho =>
      refine ⟨hKept.written, hKept.known, ?_⟩
      intro hNone
      rcases hEcho with hOwn | hKnown
      · exact .inl hOwn.symm
      · rw [hKnown]
        exact hKept.known hNone
  · have hRead :
        (session.editor.document.reread text).toText =
          canonical text :=
      toText_ofTextFrom _ text
    exact ⟨rfl, fun _ => .inr hRead, fun _ => .inr hRead⟩

/- Every session in touch with its host is kept. -/
theorem InTouch.kept
    {session : Session}
    (hInTouch : session.InTouch) :
    session.Kept := by
  induction hInTouch with
  | openOn host settings => exact kept_openOn host settings
  | apply intent now _ ih => exact kept_apply ih intent now
  | place caret _ ih => exact kept_place ih caret
  | @poll session now _ ih =>
      exact ih.pushes (session.pushes_poll now)
  | @flush session _ ih =>
      exact ih.pushes session.pushes_flush
  | report text _ ih => exact kept_hostChanged ih text
  | fail host hText _ ih =>
      refine ⟨ih.written, ih.known, ?_⟩
      intro hNone
      simp only [hText]
      exact ih.host hNone

/-
  A session has always written the document that it holds.
  Whenever no push is pending, the host has that text too,
  or one that is read as a document which is written so.
-/
theorem agrees_of_inTouch
    {session : Session}
    (hInTouch : session.InTouch) :
    session.written = session.editor.document.toText ∧
      (session.deadline = none →
        session.written = session.host.text ∨
          session.written =
            (Document.ofText session.host.text).toText) := by
  have hKept := hInTouch.kept
  exact ⟨hKept.written, hKept.host⟩

/-
  After an edit is pushed and the host's text changes to a
  spaced fraction, the session has it without the spaces.
-/
theorem agrees_after_report :
    ∃ session : Session,
      session.InTouch ∧
        session.deadline = none ∧
        session.written ≠ session.host.text ∧
        (session.written = session.host.text ∨
          session.written =
            (Document.ofText session.host.text).toText) := by
  have hInTouch :=
    InTouch.report "\\frac\x7b 1 \x7d\x7b2\x7d".toList
      (.flush
        (.apply (.type 'x') 0
          (.openOn (.ofText []) .standard)))
  refine ⟨_, hInTouch, ?_, ?_, ?_⟩
  · decide +kernel
  · decide +kernel
  · exact (agrees_of_inTouch hInTouch).2 (by decide +kernel)

end Session

end FormulaEditor
