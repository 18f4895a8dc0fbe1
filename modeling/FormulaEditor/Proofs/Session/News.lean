import FormulaEditor.Proofs.Session.Moves

/-
  This file proves which texts of its host a session takes
  for news.  The text that it knows the host to have is the
  last one that it has heard of or pushed, but a text that
  is heard while it is the session's own is passed over.

  Key definitions include:
    * `Session.heardAfter`
    * `Session.Heard`

  Key theorems include:
    * `Session.Heard.known_eq`
    * `Session.rereads_iff_of_heard`
    * `Session.not_rereads_after_own_text`
-/

namespace FormulaEditor

namespace Session

------------------------------------------------------------
-- What Has Been Heard
------------------------------------------------------------

/-
  The last text that the host is known to have after a move,
  where it was `heard` before: the session's own if the move
  has completed a push.
-/
def heardAfter
    (session : Session)
    (move : Move)
    (heard : Text) :
    Text :=
  if (session.step move).state.tally.completed =
      session.tally.completed then
    heard
  else
    session.written

/-
  The sessions that come from opening one on a host by any
  number of moves, texts that the host is said to have, and
  changes of the host, each with two texts.  The first is
  the latest of the text that was opened, the texts that the
  host was said to have, and those of completed pushes.  The
  second leaves out whatever the host was said to have while
  it was the session's own text.
-/
inductive Heard : Session → Text → Text → Prop where
  | openOn (host : Host) (settings : Settings) :
      Heard (openOn host settings).state host.text host.text
  | step {session : Session} {heard news : Text}
      (move : Move) :
      Heard session heard news →
        Heard (session.step move).state
          (session.heardAfter move heard)
          (session.heardAfter move news)
  | hear {session : Session} {heard news : Text}
      (text : Text) :
      Heard session heard news →
        Heard (session.hostChanged text).state text
          (if text = session.written then news else text)
  | change {session : Session} {heard news : Text}
      (host : Host) :
      Heard session heard news →
        Heard { session with host } heard news

/- The two texts may be worked out. -/
theorem Heard.of_eq
    {session : Session}
    {heard news heard' news' : Text}
    (hHeard : session.Heard heard news)
    (hLast : heard = heard')
    (hNews : news = news') :
    session.Heard heard' news' := by
  rwa [← hLast, ← hNews]

/- A completed push makes the session's own text known. -/
theorem known_step
    (session : Session)
    (move : Move) :
    (session.step move).state.known =
      session.heardAfter move session.known := by
  rw [heardAfter]
  cases session.exchanges_step move with
  | nothing hKnown _ hCompleted _ =>
      rw [if_pos hCompleted, hKnown]
  | found hKnown _ _ hCompleted _ =>
      rw [hCompleted, if_neg (Nat.succ_ne_self _), hKnown]
  | wrote hKnown _ hCompleted _ =>
      rw [hCompleted, if_neg (Nat.succ_ne_self _), hKnown]

/- A text that is the session's own does not become known. -/
theorem known_hostChanged
    (session : Session)
    (text : Text) :
    (session.hostChanged text).state.known =
      if text = session.written then session.known
      else text := by
  by_cases hOwn : text = session.written
  · rw [if_pos hOwn]
    exact (hostChanged_of_echo session text (.inl hOwn)).2.2
  · rw [if_neg hOwn]
    by_cases hKnown : text = session.known
    · rw [(hostChanged_of_echo session text
        (.inr hKnown)).2.2, hKnown]
    · exact (hostChanged_of_news session text hOwn hKnown).2

/- What a session knows is the last of the news. -/
theorem Heard.known_eq
    {session : Session}
    {heard news : Text}
    (hHeard : session.Heard heard news) :
    session.known = news := by
  induction hHeard with
  | openOn host settings => rfl
  | step move _ ih => rw [known_step, ih]
  | hear text _ ih => rw [known_hostChanged, ih]
  | change host _ ih => exact ih

------------------------------------------------------------
-- Which Texts Are News
------------------------------------------------------------

/-
  A text that is neither the session's own nor the last of
  the news is read anew.  So is every text that is neither
  the session's own nor the last one heard, exactly as long
  as the last one heard is the last of the news, or that is
  the session's own again.
-/
theorem rereads_iff_of_heard
    {session : Session}
    {heard news : Text}
    (hHeard : session.Heard heard news) :
    (∀ text, text ≠ session.written → text ≠ news →
      session.Rereads text) ∧
    ((∀ text, text ≠ session.written → text ≠ heard →
        session.Rereads text) ↔
      news = heard ∨ news = session.written) := by
  have hNews :
      ∀ text, text ≠ session.written → text ≠ news →
        session.Rereads text := by
    intro text hOwn hNew
    rw [← hHeard.known_eq] at hNew
    exact (hostChanged_of_news session text hOwn hNew).1
  refine ⟨hNews, ?_, ?_⟩
  · intro hAll
    by_cases hSame : news = heard
    · exact .inl hSame
    · by_cases hOwn : news = session.written
      · exact .inr hOwn
      · -- The last of the news itself is taken for an echo.
        have hEcho :=
          hostChanged_of_echo session news
            (.inr hHeard.known_eq.symm)
        have hRereads := hAll news hOwn hSame
        rw [hRereads.answer] at hEcho
        cases hEcho.1
  · rintro (rfl | rfl)
    · exact hNews
    · intro text hOwn _
      exact hNews text hOwn hOwn

/- Once an edit is pushed, the old text is read anew. -/
theorem rereads_after_push :
    let edited :=
      ((openOn (.ofText "a".toList) .standard).state.apply
        (.type 'x') 0).state
    let pushed := edited.flush.state
    pushed.Heard "ax".toList "ax".toList ∧
      "a".toList ≠ pushed.written ∧
      "a".toList ≠ "ax".toList ∧
      pushed.Rereads "a".toList := by
  intro edited pushed
  have hHeard : pushed.Heard "ax".toList "ax".toList := by
    have hPushed :=
      Heard.step .flush
        (.step (.apply (.type 'x') 0)
          (.openOn (.ofText "a".toList) .standard))
    exact hPushed.of_eq (by decide +kernel) (by decide +kernel)
  have hOwn : "a".toList ≠ pushed.written := by
    decide +kernel
  have hLast : "a".toList ≠ "ax".toList := by decide
  exact ⟨hHeard, hOwn, hLast,
    (rereads_iff_of_heard hHeard).1 _ hOwn hLast⟩

/-
  While an edit waits to be pushed, the host is said to have
  just that text, and then the old one again.  The session
  takes this for an echo, and the push that is still pending
  puts its own text in place of the host's.
-/
theorem not_rereads_after_own_text :
    let edited :=
      ((openOn (.ofText "a".toList) .standard).state.apply
        (.type 'x') 0).state
    let told :=
      (hostChanged
        { edited with host := .ofText "ax".toList }
        "ax".toList).state
    let back : Session :=
      { told with host := .ofText "a".toList }
    back.Heard "ax".toList "a".toList ∧
      "a".toList ≠ back.written ∧
      "a".toList ≠ "ax".toList ∧
      ¬ back.Rereads "a".toList ∧
      ((back.hostChanged "a".toList).state.poll
          500).state.host.text =
        "ax".toList := by
  intro edited told back
  have hHeard : back.Heard "ax".toList "a".toList := by
    have hBack :=
      Heard.change (.ofText "a".toList)
        (.hear "ax".toList
          (.change (.ofText "ax".toList)
            (.step (.apply (.type 'x') 0)
              (.openOn (.ofText "a".toList) .standard))))
    exact hBack.of_eq rfl (by decide +kernel)
  have hIgnored :
      (back.hostChanged "a".toList).answer = false := by
    decide +kernel
  refine ⟨hHeard, by decide +kernel, by decide, ?_,
    by decide +kernel⟩
  intro hRereads
  rw [hRereads.answer] at hIgnored
  cases hIgnored

end Session

end FormulaEditor
