import FormulaEditor.Proofs.Session.Moves

/-
  This file proves when a session takes its own writes for
  echoes, if its host notifies it of each of them in order
  but with any delay.

  Key definitions include:
    * `Session.Relayed`
    * `Session.IsCurrent`
    * `Session.InStep`

  Key theorems include:
    * `Session.InStep.after`
    * `Session.echo_of_relayed`
    * `Session.rereads_of_overtaken_write`
-/

namespace FormulaEditor

namespace Session

------------------------------------------------------------
-- Delayed Notifications
------------------------------------------------------------

/-
  The sessions that come from opening one on a host which
  nobody else writes to, each with the notifications that
  are in flight.  Every text that is written to the host is
  put last among these, and the first of them may come in at
  any time at which it `may`.  In between, the host may
  start or stop to fail at anything.
-/
inductive Relayed
    (may : Session → Text → List Text → Prop) :
    Session → List Text → Prop where
  | openOn (host : Host) (settings : Settings) :
      Relayed may (openOn host settings).state []
  | step {session : Session} {queue : List Text}
      (move : Move) :
      Relayed may session queue →
        Relayed may (session.step move).state
          (queue ++ (session.step move).writes)
  | deliver {session : Session} {text : Text}
      {queue : List Text} :
      may session text queue →
        Relayed may session (text :: queue) →
        Relayed may (session.hostChanged text).state queue
  | fail {session : Session} {queue : List Text}
      (host : Host) :
      host.text = session.host.text →
        Relayed may session queue →
        Relayed may { session with host } queue

/- What is in flight may be worked out. -/
theorem Relayed.of_eq
    {may : Session → Text → List Text → Prop}
    {session : Session}
    {queue queue' : List Text}
    (hRelayed : session.Relayed may queue)
    (hQueue : queue = queue') :
    session.Relayed may queue' := by
  rwa [← hQueue]

/-
  A notification is current when it comes in if its text is
  the session's own, or else that of the latest write, as it
  always is when nothing else is in flight.
-/
def IsCurrent
    (session : Session)
    (text : Text)
    (queue : List Text) :
    Prop :=
  text = session.written ∨
    (text :: queue).getLast? = some text

/-
  A session is in step with its host if it knows what the
  host has, and the last notification in flight is of that.
-/
structure InStep
    (session : Session)
    (queue : List Text) :
    Prop where
  known : session.known = session.host.text
  latest :
    ∀ text ∈ queue.getLast?, text = session.host.text

section InStep

variable {session : Session} {text : Text}
variable {queue : List Text}

/- Moves keep a session in step. -/
theorem InStep.after
    (hInStep : session.InStep queue)
    (move : Move) :
    InStep (session.step move).state
      (queue ++ (session.step move).writes) := by
  cases session.exchanges_step move with
  | nothing hKnown hHost _ hWrites =>
      refine ⟨?_, ?_⟩
      · rw [hKnown, hHost]
        exact hInStep.known
      · rw [hWrites, List.append_nil, hHost]
        exact hInStep.latest
  | found hKnown hSame hHost _ hWrites =>
      refine ⟨?_, ?_⟩
      · rw [hKnown, hHost]
        exact hSame.symm
      · rw [hWrites, List.append_nil, hHost]
        exact hInStep.latest
  | wrote hKnown hHost _ hWrites =>
      refine ⟨hKnown.trans hHost.symm, ?_⟩
      rw [hWrites, List.getLast?_concat, hHost]
      intro text hLatest
      exact (Option.some.inj hLatest).symm

/- What is current is known, or it is the session's own. -/
theorem InStep.isCurrent_iff
    (hInStep : session.InStep (text :: queue)) :
    session.IsCurrent text queue ↔
      text = session.written ∨ text = session.known := by
  refine or_congr_right ?_
  rw [hInStep.known]
  constructor
  · exact hInStep.latest text
  · intro hText
    have hLast :=
      List.getLast?_eq_some_getLast
        (List.cons_ne_nil text queue)
    have hLatest := hInStep.latest _ hLast
    rw [hLast, hLatest, hText]

/- So does a notification that comes in while it is current. -/
theorem InStep.deliver
    (hInStep : session.InStep (text :: queue))
    (hCurrent : session.IsCurrent text queue) :
    InStep (session.hostChanged text).state queue := by
  have hEcho :=
    hostChanged_of_echo session text
      (hInStep.isCurrent_iff.mp hCurrent)
  refine ⟨?_, ?_⟩
  · rw [hEcho.2.2, host_hostChanged]
    exact hInStep.known
  · rw [host_hostChanged]
    intro last hLast
    refine hInStep.latest last ?_
    rw [List.getLast?_cons, hLast]
    rfl

/- A session stays in step while notifications are current. -/
theorem Relayed.inStep
    (hRelayed : session.Relayed IsCurrent queue) :
    session.InStep queue := by
  induction hRelayed with
  | openOn host settings => exact ⟨rfl, by simp⟩
  | step move _ ih => exact ih.after move
  | deliver hCurrent _ ih => exact ih.deliver hCurrent
  | fail host hText _ ih =>
      refine ⟨?_, ?_⟩
      · rw [hText]
        exact ih.known
      · rw [hText]
        exact ih.latest

------------------------------------------------------------
-- Echoes
------------------------------------------------------------

/-
  As long as every notification has been current when it
  came in, the next one is an echo if it is current too, and
  changes neither the document nor the caret.  If it is not,
  its text is read anew.
-/
theorem echo_of_relayed
    (hRelayed : session.Relayed IsCurrent (text :: queue)) :
    (session.IsCurrent text queue →
      (session.hostChanged text).answer = false ∧
        (session.hostChanged text).state.editor =
          session.editor) ∧
    (¬ session.IsCurrent text queue →
      session.Rereads text) := by
  have hIff := hRelayed.inStep.isCurrent_iff
  constructor
  · intro hCurrent
    have hEcho :=
      hostChanged_of_echo session text (hIff.mp hCurrent)
    exact ⟨hEcho.1, hEcho.2.1⟩
  · intro hStale
    rcases not_or.mp (mt hIff.mpr hStale) with
      ⟨hOwn, hKnown⟩
    exact (hostChanged_of_news session text hOwn hKnown).1

end InStep

/-
  Of three writes in flight, the first is an echo if it was
  the same as the last.
-/
theorem echo_of_repeated_write :
    ∃ session : Session,
      session.Relayed IsCurrent
          ["a".toList, "ab".toList, "a".toList] ∧
        session.IsCurrent "a".toList
          ["ab".toList, "a".toList] ∧
        (session.hostChanged "a".toList).answer = false ∧
        (session.hostChanged "a".toList).state.editor =
          session.editor := by
  have hRelayed :=
    @Relayed.step IsCurrent _ _ .flush
      (.step (.apply .backspace 0)
        (.step .flush
          (.step (.apply (.type 'b') 0)
            (.step .flush
              (.step (.apply (.type 'a') 0)
                (.openOn (.ofText []) .standard))))))
  have hRun :
      Relayed IsCurrent _
        ["a".toList, "ab".toList, "a".toList] :=
    hRelayed.of_eq (by decide +kernel)
  exact ⟨_, hRun, .inr rfl,
    (echo_of_relayed hRun).1 (.inr rfl)⟩

/-
  The first of two writes comes in when the second one has
  been made.  It is read anew, and what was written since is
  lost to the session.
-/
theorem rereads_of_overtaken_write :
    ∃ session : Session,
      session.Relayed (fun _ _ _ => True)
          ["a".toList, "ab".toList] ∧
        session.written = "ab".toList ∧
        (session.hostChanged "a".toList).answer = true ∧
        (session.hostChanged "a".toList).state.written =
          "a".toList := by
  have hRelayed :=
    @Relayed.step (fun _ _ _ => True) _ _ .flush
      (.step (.apply (.type 'b') 0)
        (.step .flush
          (.step (.apply (.type 'a') 0)
            (.openOn (.ofText []) .standard))))
  exact ⟨_, hRelayed.of_eq (by decide +kernel),
    by decide +kernel, by decide +kernel, by decide +kernel⟩

end Session

end FormulaEditor
