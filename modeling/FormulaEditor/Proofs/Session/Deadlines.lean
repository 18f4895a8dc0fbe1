import FormulaEditor.Proofs.Session.Moves

/-
  This file proves when a session writes to its host: only
  if an edit has changed its text since that was last read
  or pushed, only that text, and not before the time to wait
  after the latest such edit has passed, unless it is told
  to write at once.

  Key definitions include:
    * `Mark`
    * `Session.mark?`
    * `IsSilent`
    * `Session.Logged`
    * `Session.IsDue`
    * `Session.Timed`

  Key theorems include:
    * `Session.calls_replace_step_iff`
    * `Session.Timed.after`
    * `Session.replaces_iff_of_logged`
-/

namespace FormulaEditor

------------------------------------------------------------
-- Marks
------------------------------------------------------------

/-
  What decides when a session writes: that an edit has
  changed its text, and when, or that its text has been
  settled with the host, by reading it or by a push that was
  completed.
-/
inductive Mark where
  | edited (time : Nat)
  | settled
  deriving DecidableEq

/- Whether a mark is that of an edit. -/
def Mark.isEdit : Mark → Bool
  | .edited _ => true
  | .settled => false

/-
  What has happened to a session: the requests that it has
  made in their order, and its marks, the latest first.
-/
structure Log where
  calls : List Call
  marks : List Mark

namespace Log

/- How often an edit has changed the text. -/
def edits
    (log : Log) :
    Nat :=
  log.marks.countP Mark.isEdit

/- The mark of an edit counts as one more edit. -/
theorem edits_cons_edited
    (calls : List Call)
    (time : Nat)
    (marks : List Mark) :
    edits ⟨calls, .edited time :: marks⟩ =
      marks.countP Mark.isEdit + 1 :=
  List.countP_cons_of_pos rfl

end Log

/- None of some requests is to replace the host's text. -/
def IsSilent
    (calls : List Call) :
    Prop :=
  ∀ text accepted, .replace text accepted ∉ calls

/- Requests that follow silent ones are silent with them. -/
theorem IsSilent.append
    {calls more : List Call}
    (hCalls : IsSilent calls)
    (hMore : IsSilent more) :
    IsSilent (calls ++ more) := by
  intro text accepted hMem
  rcases List.mem_append.mp hMem with hMem | hMem
  · exact hCalls text accepted hMem
  · exact hMore text accepted hMem

namespace Session

/-
  The mark that a move leaves, if it leaves one.  Only edits
  change the text, and only pushes are completed.
-/
def mark?
    (session : Session)
    (move : Move) :
    Option Mark :=
  let after := (session.step move).state
  match move with
  | .apply _ now =>
      if after.written = session.written then
        none
      else
        some (.edited now)
  | .place _ | .poll _ | .flush =>
      if after.tally.completed = session.tally.completed then
        none
      else
        some .settled

/-
  The sessions that come from opening one on a host by any
  number of moves, at whatever times, texts that the host is
  said to have, and changes of the host, each with its log.
-/
inductive Logged : Session → Log → Prop where
  | openOn (host : Host) (settings : Settings) :
      Logged (openOn host settings).state
        ⟨(openOn host settings).calls, [.settled]⟩
  | step {session : Session} {log : Log} (move : Move) :
      Logged session log →
        Logged (session.step move).state
          ⟨log.calls ++ (session.step move).calls,
            (session.mark? move).toList ++ log.marks⟩
  | hear {session : Session} {log : Log} (text : Text) :
      Logged session log →
        Logged (session.hostChanged text).state
          ⟨log.calls ++ (session.hostChanged text).calls,
            if (session.hostChanged text).answer then
              .settled :: log.marks
            else
              log.marks⟩
  | change {session : Session} {log : Log} (host : Host) :
      Logged session log →
        Logged { session with host } log

------------------------------------------------------------
-- Requests to Replace the Host's Text
------------------------------------------------------------

/- Showing a preview asks for no text to be replaced. -/
theorem isSilent_preview
    (session : Session) :
    IsSilent session.preview := by
  intro text accepted hMem
  rw [preview, Host.preview] at hMem
  split at hMem <;> simp at hMem

/- Nor does opening a session. -/
theorem isSilent_openOn
    (host : Host)
    (settings : Settings) :
    IsSilent (openOn host settings).calls :=
  isSilent_preview _

/- Nor does taking in a text of the host. -/
theorem isSilent_hostChanged
    (session : Session)
    (text : Text) :
    IsSilent (session.hostChanged text).calls := by
  simp only [hostChanged]
  split
  · intro text accepted hMem
    cases hMem
  · exact isSilent_preview _

/- Neither way does an edit ask for a text to be replaced. -/
theorem isSilent_apply
    (session : Session)
    (intent : Intent)
    (now : Nat) :
    IsSilent (session.step (.apply intent now)).calls := by
  rcases session.apply_cases intent now with
    ⟨editor, ⟨_, hApply⟩ | ⟨_, after, _, hApply⟩⟩
  · rw [step, hApply]
    exact fun _ _ => List.not_mem_nil
  · rw [step, hApply]
    exact isSilent_preview after

/-
  A push asks for the session's own text, unless the host
  has it already.
-/
theorem calls_replace_push_iff
    {session : Session}
    {text : Text}
    {accepted : Bool} :
    .replace text accepted ∈ session.push.calls ↔
      session.host.text ≠ session.written ∧
        text = session.written ∧
        accepted = session.host.replaceError.isNone := by
  rw [push]
  split
  · next hSame => simp [hSame]
  · next hOther =>
      cases hError : session.host.replaceError with
      | some error => simp [Host.replace, hError, hOther]
      | none => simp [Host.replace, hError, hOther]

/- A move carries out a push if one is due then. -/
def IsDue
    (session : Session)
    (move : Move) :
    Prop :=
  ∃ deadline, session.deadline = some deadline ∧
    (move = .flush ∨
      ∃ now, move = .poll now ∧ deadline ≤ now)

/- A push that is due is carried out. -/
theorem step_of_isDue
    {session : Session}
    {move : Move}
    (hDue : session.IsDue move) :
    session.step move = session.push.effect := by
  rcases hDue with ⟨deadline, hDeadline, rfl | ⟨now, rfl, hNow⟩⟩
  · rw [step, flush, hDeadline]
  · rw [step, poll, hDeadline]
    simp only [if_pos hNow]

/-
  When no push is due, only an edit or a move of the caret
  does anything.
-/
theorem step_of_not_isDue
    {session : Session}
    {move : Move}
    (hDue : ¬ session.IsDue move) :
    (∃ intent now, move = .apply intent now) ∨
      (∃ caret, move = .place caret) ∨
        session.step move = ⟨session, (), []⟩ := by
  cases move with
  | apply intent now => exact .inl ⟨intent, now, rfl⟩
  | place caret => exact .inr (.inl ⟨caret, rfl⟩)
  | flush =>
      refine .inr (.inr ?_)
      cases hDeadline : session.deadline with
      | none =>
          rw [step, flush, hDeadline]
          rfl
      | some deadline =>
          exact (hDue ⟨deadline, hDeadline, .inl rfl⟩).elim
  | poll now =>
      refine .inr (.inr ?_)
      cases hDeadline : session.deadline with
      | none =>
          rw [step, poll, hDeadline]
          rfl
      | some deadline =>
          have hLater : ¬ deadline ≤ now := fun hNow =>
            hDue ⟨deadline, hDeadline, .inr ⟨now, rfl, hNow⟩⟩
          rw [step, poll, hDeadline]
          simp only [if_neg hLater]
          rfl

/-
  A move asks for the host's text to be replaced exactly if
  a push is due and the host does not have the session's own
  text, and then it asks for that one.
-/
theorem calls_replace_step_iff
    {session : Session}
    {move : Move}
    {text : Text}
    {accepted : Bool} :
    .replace text accepted ∈ (session.step move).calls ↔
      session.IsDue move ∧
        session.host.text ≠ session.written ∧
        text = session.written ∧
        accepted = session.host.replaceError.isNone := by
  by_cases hDue : session.IsDue move
  · rw [step_of_isDue hDue]
    simp only [hDue, true_and]
    exact calls_replace_push_iff
  · simp only [hDue, false_and, iff_false]
    rcases step_of_not_isDue hDue with
      ⟨intent, now, rfl⟩ | ⟨caret, rfl⟩ | hStep
    · exact isSilent_apply session intent now text accepted
    · exact List.not_mem_nil
    · rw [hStep]
      exact List.not_mem_nil

------------------------------------------------------------
-- Marks and Deadlines
------------------------------------------------------------

/-
  How a move changes the time at which a push is due.  An
  edit that changes the text sets it anew, a completed push
  clears it, and nothing else changes it.
-/
inductive Shifts
    (session : Session)
    (move : Move) :
    Prop where
  | edited {time : Nat} :
      session.mark? move = some (.edited time) →
        (session.step move).state.deadline =
          some (time + session.settings.debounce.toNat) →
        (session.step move).state.tally.completed =
          session.tally.completed →
        Shifts session move
  | settled :
      session.mark? move = some .settled →
        session.deadline.isSome = true →
        (session.step move).state.deadline = none →
        (session.step move).state.tally.completed =
          session.tally.completed + 1 →
        Shifts session move
  | nothing :
      session.mark? move = none →
        (session.step move).state.deadline =
          session.deadline →
        (session.step move).state.tally.completed =
          session.tally.completed →
        Shifts session move

/- An edit sets the time anew if it changes the text. -/
theorem shifts_apply
    (session : Session)
    (intent : Intent)
    (now : Nat) :
    session.Shifts (.apply intent now) := by
  rcases session.apply_cases intent now with
    ⟨editor, ⟨hSame, hApply⟩ | ⟨hOther, after, hAfter, hApply⟩⟩
  · refine .nothing ?_ ?_ ?_
    · simp only [mark?, step, hApply, if_pos hSame]
    · rw [step, hApply]
      rfl
    · rw [step, hApply]
      rfl
  · rcases hAfter with rfl
    refine @Shifts.edited _ _ now ?_ ?_ ?_
    · simp only [mark?, step, hApply, if_neg hOther]
    · rw [step, hApply]
    · rw [step, hApply]
      rfl

/- A push that is completed is not due any more. -/
theorem Pushes.settled_or_kept
    {session : Session}
    {reply : Reply Session (Except PushError Bool)}
    (hPushes : session.Pushes reply) :
    (reply.state.deadline = none ∧
        reply.state.tally.completed =
          session.tally.completed + 1) ∨
      reply.state.deadline = session.deadline ∧
        reply.state.tally.completed =
          session.tally.completed := by
  cases hPushes with
  | idle => exact .inr ⟨rfl, rfl⟩
  | found => exact .inl ⟨rfl, rfl⟩
  | refused => exact .inr ⟨rfl, rfl⟩
  | wrote => exact .inl ⟨rfl, Nat.add_right_comm ..⟩

/- A push that is due clears the time if it is completed. -/
theorem shifts_of_isDue
    {session : Session}
    {move : Move}
    (hDue : session.IsDue move) :
    session.Shifts move := by
  have hStep := step_of_isDue hDue
  have hMark :
      session.mark? move =
        if session.push.state.tally.completed =
            session.tally.completed then
          none
        else
          some .settled := by
    rcases hDue with ⟨_, _, rfl | ⟨now, rfl, _⟩⟩ <;>
      simp only [mark?, hStep, Reply.effect]
  rcases hDue with ⟨deadline, hDeadline, _⟩
  rcases session.pushes_push.settled_or_kept with
    ⟨hCleared, hCompleted⟩ | ⟨hKept, hCompleted⟩
  · refine .settled ?_ (by rw [hDeadline]; rfl) ?_ ?_
    · rw [hMark, hCompleted, if_neg (Nat.succ_ne_self _)]
    · rw [hStep]
      exact hCleared
    · rw [hStep]
      exact hCompleted
  · refine .nothing ?_ ?_ ?_
    · rw [hMark, if_pos hCompleted]
    · rw [hStep]
      exact hKept
    · rw [hStep]
      exact hCompleted

/- Every move sets the time, clears it or leaves it. -/
theorem shifts_step
    (session : Session)
    (move : Move) :
    session.Shifts move := by
  by_cases hDue : session.IsDue move
  · exact shifts_of_isDue hDue
  · rcases step_of_not_isDue hDue with
      ⟨intent, now, rfl⟩ | ⟨caret, rfl⟩ | hStep
    · exact shifts_apply session intent now
    · exact .nothing (if_pos rfl) rfl rfl
    · refine .nothing ?_ ?_ ?_
      · cases move <;> simp only [mark?, hStep, if_true]
      · rw [hStep]
      · rw [hStep]

/- A text of the host is an echo, or clears the time. -/
theorem hostChanged_cases
    (session : Session)
    (text : Text) :
    (session.hostChanged text).state.tally.completed =
        session.tally.completed ∧
      (((session.hostChanged text).answer = false ∧
          (session.hostChanged text).state.deadline =
            session.deadline) ∨
        (session.hostChanged text).answer = true ∧
          (session.hostChanged text).state.deadline =
            none) := by
  simp only [hostChanged]
  split
  · exact ⟨rfl, .inl ⟨rfl, rfl⟩⟩
  · exact ⟨rfl, .inr ⟨rfl, rfl⟩⟩

------------------------------------------------------------
-- What the Log Tells
------------------------------------------------------------

/-
  When a push is due by the marks: some time after the
  latest mark if that is of an edit, and else never.
-/
def dueAfter
    (wait : Nat) :
    List Mark → Option Nat
  | .edited time :: _ => some (time + wait)
  | _ => none

/-
  A session is timed if its log tells when a push is due,
  and each completed push has an edit of its own, as has a
  push that is pending.
-/
structure Timed
    (session : Session)
    (log : Log) :
    Prop where
  deadline :
    session.deadline =
      dueAfter session.settings.debounce.toNat log.marks
  completed : session.tally.completed ≤ log.edits
  pending :
    session.deadline.isSome = true →
      session.tally.completed < log.edits
  silent : log.edits = 0 → IsSilent log.calls

/- A session that has just been opened is timed. -/
theorem timed_openOn
    (host : Host)
    (settings : Settings) :
    Timed (openOn host settings).state
      ⟨(openOn host settings).calls, [.settled]⟩ where
  deadline := rfl
  completed := Nat.le_refl 0
  pending hSome := by cases hSome
  silent _ := isSilent_openOn host settings

section Timed

variable {session : Session} {log : Log}

/- Without an edit no move asks for anything. -/
theorem Timed.isSilent_step
    (hTimed : session.Timed log)
    (hNone : log.edits = 0)
    (move : Move) :
    IsSilent (session.step move).calls := by
  intro text accepted hMem
  rcases (calls_replace_step_iff.mp hMem).1 with
    ⟨deadline, hDeadline, _⟩
  have hLess := hTimed.pending (by rw [hDeadline]; rfl)
  rw [hNone] at hLess
  exact Nat.not_lt_zero _ hLess

/- Moves keep a session timed. -/
theorem Timed.after
    (hTimed : session.Timed log)
    (move : Move) :
    Timed (session.step move).state
      ⟨log.calls ++ (session.step move).calls,
        (session.mark? move).toList ++ log.marks⟩ := by
  have hSilent := hTimed.isSilent_step
  have hSettings := (session.continues_step move).settings
  cases session.shifts_step move with
  | @edited time hMark hDeadline hCompleted =>
      have hEdits :=
        Log.edits_cons_edited
          (log.calls ++ (session.step move).calls) time
          log.marks
      rw [hMark, Option.toList_some, List.singleton_append]
      refine ⟨?_, ?_, ?_, ?_⟩
      · rw [hDeadline, hSettings]
        rfl
      · rw [hCompleted, hEdits]
        exact Nat.le_succ_of_le hTimed.completed
      · rw [hCompleted, hEdits]
        intro _
        exact Nat.lt_succ_of_le hTimed.completed
      · rw [hEdits]
        intro hNone
        cases hNone
  | settled hMark hSome hDeadline hCompleted =>
      have hLess := hTimed.pending hSome
      rw [hMark]
      refine ⟨?_, ?_, ?_, ?_⟩
      · rw [hDeadline]
        rfl
      · rw [hCompleted]
        exact hLess
      · rw [hDeadline]
        intro hSome
        cases hSome
      · intro hNone
        exact IsSilent.append (hTimed.silent hNone)
          (hSilent hNone move)
  | nothing hMark hDeadline hCompleted =>
      rw [hMark]
      refine ⟨?_, ?_, ?_, ?_⟩
      · rw [hDeadline, hSettings]
        exact hTimed.deadline
      · rw [hCompleted]
        exact hTimed.completed
      · rw [hDeadline, hCompleted]
        exact hTimed.pending
      · intro hNone
        exact IsSilent.append (hTimed.silent hNone)
          (hSilent hNone move)

/- So does taking in a text of the host. -/
theorem Timed.hear
    (hTimed : session.Timed log)
    (text : Text) :
    Timed (session.hostChanged text).state
      ⟨log.calls ++ (session.hostChanged text).calls,
        if (session.hostChanged text).answer then
          .settled :: log.marks
        else
          log.marks⟩ := by
  have hSilent := session.isSilent_hostChanged text
  have hSettings :=
    (session.continues_hostChanged text).settings
  rcases session.hostChanged_cases text with
    ⟨hCompleted,
      ⟨hEcho, hDeadline⟩ | ⟨hRead, hDeadline⟩⟩
  · rw [hEcho]
    refine ⟨?_, ?_, ?_, ?_⟩
    · rw [hDeadline, hSettings]
      exact hTimed.deadline
    · rw [hCompleted]
      exact hTimed.completed
    · rw [hDeadline, hCompleted]
      exact hTimed.pending
    · intro hNone
      exact IsSilent.append (hTimed.silent hNone) hSilent
  · rw [hRead]
    refine ⟨?_, ?_, ?_, ?_⟩
    · rw [hDeadline]
      rfl
    · rw [hCompleted]
      exact hTimed.completed
    · rw [hDeadline]
      intro hSome
      cases hSome
    · intro hNone
      exact IsSilent.append (hTimed.silent hNone) hSilent

/- Every session is timed by its log. -/
theorem Logged.timed
    (hLogged : session.Logged log) :
    session.Timed log := by
  induction hLogged with
  | openOn host settings => exact timed_openOn host settings
  | step move _ ih => exact ih.after move
  | hear text _ ih => exact ih.hear text
  | change host _ ih =>
      exact ⟨ih.deadline, ih.completed, ih.pending, ih.silent⟩

/- A push is due some time after the latest edit. -/
theorem Timed.isDue_iff
    (hTimed : session.Timed log)
    {move : Move} :
    session.IsDue move ↔
      ∃ time, log.marks.head? = some (.edited time) ∧
        (move = .flush ∨
          ∃ now, move = .poll now ∧
            time + session.settings.debounce.toNat ≤ now) := by
  rw [IsDue, hTimed.deadline]
  rcases log.marks with _ | ⟨_ | _, marks⟩
  · simp [dueAfter]
  · simp [dueAfter]
  · simp [dueAfter]

------------------------------------------------------------
-- When the Host Is Written To
------------------------------------------------------------

/-
  A session asks its host to replace its text in no other
  case than this one: the host does not have the session's
  text, an edit has changed that since it was last read or
  pushed, and either the session is flushed, or it is polled
  when the time to wait after the latest such edit has
  passed.  Then it asks for its own text.  Taking in a text
  asks for nothing, no more pushes are completed than edits
  have changed the text, and nothing is asked for before one
  has.
-/
theorem replaces_iff_of_logged
    (hLogged : session.Logged log) :
    (∀ move text accepted,
      .replace text accepted ∈ (session.step move).calls ↔
        (∃ time, log.marks.head? = some (.edited time) ∧
          (move = .flush ∨
            ∃ now, move = .poll now ∧
              time + session.settings.debounce.toNat ≤
                now)) ∧
          session.host.text ≠ session.written ∧
          text = session.written ∧
          accepted = session.host.replaceError.isNone) ∧
    (∀ heard text accepted,
      .replace text accepted ∉
        (session.hostChanged heard).calls) ∧
    session.tally.pushes + session.tally.idlePushes ≤
      log.edits ∧
    (log.edits = 0 →
      ∀ text accepted,
        .replace text accepted ∉ log.calls) := by
  have hTimed := hLogged.timed
  refine ⟨?_, ?_, hTimed.completed, hTimed.silent⟩
  · intro move text accepted
    rw [calls_replace_step_iff, hTimed.isDue_iff]
  · exact session.isSilent_hostChanged

end Timed

/-
  A push that the host has refused when it was due is put
  off by the next edit, and then it is that edit's text that
  is written.
-/
theorem replaces_after_refusal :
    let edited :=
      ((openOn (.ofText []) .standard).state.step
        (.apply (.type 'a') 0)).state
    let closed : Host :=
      { Host.ofText [] with replaceError := some .gone }
    let refused :=
      (step { edited with host := closed } (.poll 500)).state
    let session : Session :=
      { (refused.step (.apply (.type 'b') 520)).state with
        host := .ofText [] }
    ∃ log : Log,
      session.Logged log ∧
        log.marks = [.edited 520, .edited 0, .settled] ∧
        .replace "a".toList false ∈ log.calls ∧
        ∀ now text accepted,
          .replace text accepted ∈
              (session.step (.poll now)).calls ↔
            1020 ≤ now ∧ text = "ab".toList ∧
              accepted = true := by
  intro edited closed refused session
  have hRun :
      ∃ log : Log,
        session.Logged log ∧
          log.marks = [.edited 520, .edited 0, .settled] ∧
          .replace "a".toList false ∈ log.calls :=
    ⟨_,
      .change (.ofText [])
        (.step (.apply (.type 'b') 520)
          (.step (.poll 500)
            (.change closed
              (.step (.apply (.type 'a') 0)
                (.openOn (.ofText []) .standard))))),
      by decide +kernel, by decide +kernel⟩
  rcases hRun with ⟨log, hLogged, hMarks, hRefused⟩
  refine ⟨log, hLogged, hMarks, hRefused, ?_⟩
  intro now text accepted
  have hWait : session.settings.debounce.toNat = 500 := by
    decide +kernel
  have hWritten : session.written = "ab".toList := by
    decide +kernel
  have hHost : session.host = .ofText [] := rfl
  rw [(replaces_iff_of_logged hLogged).1, hMarks, hWait,
    hWritten, hHost]
  simp [Host.ofText]

end Session

end FormulaEditor
