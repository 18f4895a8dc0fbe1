import FormulaEditor.Proofs.Session.Runs
import Mathlib.Data.List.Induction

/-
  This file proves that the preview of a session always
  shows its document, and that nothing else depends on
  whether previews fail, or are shown at all.

  Key definitions include:
    * `Noticed`
    * `Session.Refreshes`
    * `Session.quiet`

  Key theorems include:
    * `Session.respond_previews`
    * `Session.latest_preview`
    * `Session.respond_quiet`
    * `Session.record_quiet`
    * `Session.previews_current`
-/

namespace FormulaEditor

------------------------------------------------------------
-- Requests for Previews
------------------------------------------------------------

/- Whether a request has to do with previews. -/
def Call.isPreview : Call → Bool
  | .preview _ _ => true
  | .previewFailed _ => true
  | _ => false

/- The text that a request is to show as a preview. -/
def Call.shown? : Call → Option Text
  | .preview text _ => some text
  | _ => none

/-
  Requests in which each preview that fails is followed by
  one message, and no other request is.
-/
inductive Noticed : List Call → Prop where
  | nil : Noticed []
  | shown {calls : List Call} (text : Text) :
      Noticed calls → Noticed (.preview text true :: calls)
  | failed {calls : List Call} (text : Text) :
      Noticed calls →
        Noticed
          (.preview text false ::
            .previewFailed Host.previewNotice :: calls)
  | other {calls : List Call} {call : Call} :
      call.isPreview = false → Noticed calls →
        Noticed (call :: calls)

/- Such requests may follow each other. -/
theorem Noticed.append
    {calls more : List Call}
    (hCalls : Noticed calls)
    (hMore : Noticed more) :
    Noticed (calls ++ more) := by
  induction hCalls with
  | nil => exact hMore
  | shown text _ ih => exact .shown text ih
  | failed text _ ih => exact .failed text ih
  | other hOther _ ih => exact .other hOther ih

section NoPreviews

variable {calls : List Call}
variable (hNone : ∀ call ∈ calls, call.isPreview = false)

include hNone

/- Requests that show no preview need no message. -/
theorem noticed_of_not_isPreview :
    Noticed calls := by
  induction calls with
  | nil => exact .nil
  | cons call calls ih =>
      rcases List.forall_mem_cons.mp hNone with
        ⟨hCall, hCalls⟩
      exact .other hCall (ih hCalls)

/- Requests that show no preview show no text. -/
theorem filterMap_shown?_of_not_isPreview :
    calls.filterMap Call.shown? = [] := by
  refine List.filterMap_eq_nil_iff.mpr ?_
  intro call hMem
  have hCall := hNone call hMem
  cases call with
  | replace => rfl
  | insert => rfl
  | preview => cases hCall
  | previewFailed => rfl

end NoPreviews

/- A preview that fails is followed by one message. -/
theorem noticed_preview
    (host : Host)
    (text : Text) :
    Noticed (host.preview text) := by
  rw [Host.preview]
  split
  · exact .nil
  · exact .shown text .nil
  · exact .failed text .nil

/- Failing or not, a preview shows its text once. -/
theorem filterMap_shown?_preview
    {host : Host}
    (hShows : host.previews = true)
    (text : Text) :
    (host.preview text).filterMap Call.shown? = [text] := by
  rw [Host.preview, hShows]
  cases host.previewError <;> rfl

namespace Session

------------------------------------------------------------
-- When Previews Are Shown
------------------------------------------------------------

/-
  The events that change what is to be shown: an edit that
  changes what the document is written as, and a text of the
  host that is read anew.
-/
inductive Refreshes
    (session : Session) :
    Event → Prop where
  | edit {intent : Intent} {now : Nat} :
      (session.respond
            (.move
              (.apply intent
                now))).state.editor.document.toText ≠
          session.editor.document.toText →
        Refreshes session (.move (.apply intent now))
  | reread {text : Text} :
      (session.respond (.hear text)).answer = .heard true →
        Refreshes session (.hear text)

/-
  What an event does about the preview.  If it changes what
  is to be shown, all that it requests is to show that; if
  not, it requests nothing that has to do with previews.
-/
inductive Previews
    (session : Session)
    (event : Event) :
    Prop where
  | refreshed :
      session.Refreshes event →
        (session.respond event).calls =
            (session.respond event).state.preview →
        Previews session event
  | kept :
      ¬ session.Refreshes event →
        (∀ call ∈ (session.respond event).calls,
            call.isPreview = false) →
        (session.respond event).state.editor.document.toText =
            session.editor.document.toText →
        Previews session event

/- An edit shows the preview anew if it has to. -/
theorem apply_previews
    {session : Session}
    (hWritten : session.IsWritten)
    (intent : Intent)
    (now : Nat) :
    session.Previews (.move (.apply intent now)) := by
  rcases session.apply_cases intent now with
    ⟨editor, ⟨hSame, hApply⟩ | ⟨hOther, after, hAfter, hApply⟩⟩
  · have hState :
        (session.respond (.move (.apply intent now))).state =
          session.follow editor :=
      congrArg Reply.state hApply
    have hCalls :
        (session.respond (.move (.apply intent now))).calls =
          [] :=
      congrArg Reply.calls hApply
    have hText :
        (session.follow editor).editor.document.toText =
          session.editor.document.toText :=
      hSame.trans hWritten
    refine .kept ?_ ?_ ?_
    · rintro (hChanged | _)
      rw [hState] at hChanged
      exact hChanged hText
    · rw [hCalls]
      exact List.forall_mem_nil _
    · rw [hState]
      exact hText
  · have hState :
        (session.respond (.move (.apply intent now))).state =
          after :=
      congrArg Reply.state hApply
    refine .refreshed (.edit ?_) ?_
    · rw [hState, hAfter]
      intro hText
      exact hOther (hText.trans hWritten.symm)
    · rw [hState]
      exact congrArg Reply.calls hApply

/- A text that is read anew has its preview shown. -/
theorem hostChanged_previews
    (session : Session)
    (text : Text) :
    session.Previews (.hear text) := by
  by_cases hEcho :
      text = session.written ∨ text = session.known
  · have hHeard := hostChanged_of_echo session text hEcho
    refine .kept ?_ ?_ ?_
    · rintro (_ | hReread)
      cases hHeard.1.symm.trans (Answer.heard.inj hReread)
    · intro call hMem
      simp only [respond, Reply.map, hostChanged,
        Bool.or_eq_true, decide_eq_true_eq, if_pos hEcho]
        at hMem
      cases hMem
    · exact congrArg (·.document.toText) hHeard.2.1
  · rcases not_or.mp hEcho with ⟨hOwn, hKnown⟩
    have hHeard :=
      (hostChanged_of_news session text hOwn hKnown).1
    refine .refreshed (.reread (congrArg _ hHeard.answer)) ?_
    simp only [respond, Reply.map, hostChanged,
      Bool.or_eq_true, decide_eq_true_eq, if_neg hEcho]

/-
  The preview is shown anew by these events, and by others
  neither is it shown nor does it need to be.
-/
theorem respond_previews
    {session : Session}
    (hWritten : session.IsWritten)
    (event : Event) :
    session.Previews event := by
  cases hPush : event.isPush with
  | true =>
      refine .kept ?_ ?_ ?_
      · intro hRefreshes
        cases hRefreshes with
        | edit => cases hPush
        | reread => cases hPush
      · rcases session.pushes_respond hPush with
          ⟨reply, hPushes, hReply⟩
        rw [hReply]
        cases hPushes <;> simp [Reply.map, Call.isPreview]
      · rw [session.editor_of_isPush hPush]
  | false =>
      rcases event with (⟨intent, now⟩ | ⟨caret⟩ | _ | _) |
        text | host
      · exact apply_previews hWritten intent now
      · refine .kept ?_ ?_ ?_
        · intro hRefreshes
          cases hRefreshes
        · exact List.forall_mem_nil _
        · exact congrArg Document.toText
            (Editor.document_apply_focus ..)
      · cases hPush
      · cases hPush
      · exact hostChanged_previews session text
      · refine .kept ?_ ?_ rfl
        · intro hRefreshes
          cases hRefreshes
        · exact List.forall_mem_nil _

------------------------------------------------------------
-- The Latest Preview
------------------------------------------------------------

section Shown

variable {session : Session}
variable (hWritten : session.IsWritten)
variable (hShows : session.host.previews = true)

include hWritten hShows

/- What needs to be shown is shown once, and nothing else. -/
theorem shown_of_refreshes
    {event : Event}
    (hRefreshes : session.Refreshes event) :
    (session.respond event).calls.filterMap Call.shown? =
      [(session.respond event).state.editor.document.toText] := by
  have hContinues := session.continues_respond event
  cases respond_previews hWritten event with
  | kept hNot => exact absurd hRefreshes hNot
  | refreshed _ hCalls =>
      rw [hCalls, preview,
        filterMap_shown?_preview
          (hContinues.previews.trans hShows)]
      exact congrArg ([·]) (hContinues.written_eq hWritten)

end Shown

/- Nothing is shown when nothing needs to be. -/
theorem shown_of_not_refreshes
    {session : Session}
    (hWritten : session.IsWritten)
    {event : Event}
    (hNot : ¬ session.Refreshes event) :
    (session.respond event).calls.filterMap Call.shown? = [] ∧
      (session.respond event).state.editor.document.toText =
        session.editor.document.toText := by
  cases respond_previews hWritten event with
  | refreshed hRefreshes => exact absurd hRefreshes hNot
  | kept _ hNone hText =>
      exact ⟨filterMap_shown?_of_not_isPreview hNone, hText⟩

/- All requests of a session from its opening on. -/
def log
    (host : Host)
    (settings : Settings)
    (events : List Event) :
    List Call :=
  (openOn host settings).calls ++
    (openOn host settings).state.requests events

/- The latest preview is that of the document. -/
theorem latest_preview
    {host : Host}
    (hShows : host.previews = true)
    (settings : Settings)
    (events : List Event) :
    ((log host settings events).filterMap
        Call.shown?).getLast? =
      some
        ((openOn host settings).state.after
          events).editor.document.toText := by
  induction events using List.reverseRecOn with
  | nil =>
      rw [log, requests, record, List.flatMap_nil,
        List.append_nil]
      exact congrArg List.getLast?
        (filterMap_shown?_preview hShows _)
  | append_singleton events event ih =>
      have hWritten :=
        written_after_openOn host settings events
      have hContinues :=
        (openOn host settings).state.continues_after events
      have hShown := hContinues.previews.trans hShows
      rw [log, requests_concat, ← List.append_assoc, ← log,
        List.filterMap_append, after_concat]
      by_cases hRefreshes :
          ((openOn host settings).state.after
            events).Refreshes event
      · rw [shown_of_refreshes hWritten hShown hRefreshes,
          List.getLast?_concat]
      · rcases shown_of_not_refreshes hWritten hRefreshes with
          ⟨hNone, hText⟩
        rw [hNone, List.append_nil, hText]
        exact ih

/- Each preview that fails is followed by one message. -/
theorem noticed_log
    (host : Host)
    (settings : Settings)
    (events : List Event) :
    Noticed (log host settings events) := by
  induction events using List.reverseRecOn with
  | nil =>
      rw [log, requests, record, List.flatMap_nil,
        List.append_nil]
      exact noticed_preview host _
  | append_singleton events event ih =>
      have hWritten :=
        written_after_openOn host settings events
      rw [log, requests_concat, ← List.append_assoc, ← log]
      refine ih.append ?_
      cases respond_previews hWritten event with
      | refreshed _ hCalls =>
          rw [hCalls]
          exact noticed_preview _ _
      | kept _ hNone _ => exact noticed_of_not_isPreview hNone

------------------------------------------------------------
-- Sessions Without Previews
------------------------------------------------------------

end Session

/- A host that shows no previews, and is else the same. -/
def Host.quiet
    (host : Host) :
    Host :=
  { host with previewError := none, previews := false }

/- A change of a host to one that shows no previews. -/
def Event.quiet : Event → Event
  | .change host => .change host.quiet
  | event => event

/- A session with a host that shows no previews. -/
def Session.quiet
    (session : Session) :
    Session :=
  { session with host := session.host.quiet }

/- What is left of a response without the previews. -/
def Reply.quiet
    {α : Type}
    (reply : Reply Session α) :
    Reply Session α :=
  ⟨reply.state.quiet, reply.answer,
    reply.calls.filter (!·.isPreview)⟩

namespace Session

/- Nothing is left of a preview. -/
theorem filter_preview
    (session : Session) :
    session.preview.filter (!·.isPreview) = [] := by
  rw [preview, Host.preview]
  split <;> rfl

/- Pushing has nothing to do with previews. -/
theorem push_quiet
    (session : Session) :
    session.quiet.push = session.push.quiet := by
  have hText : session.quiet.host.text = session.host.text :=
    rfl
  have hWritten : session.quiet.written = session.written :=
    rfl
  rw [push, push, hText, hWritten]
  by_cases hSame : session.host.text = session.written
  · rw [if_pos hSame, if_pos hSame]
    rfl
  · rw [if_neg hSame, if_neg hSame]
    rcases session with ⟨⟨_, replaceError, _, _, _⟩⟩
    cases replaceError <;> rfl

/- So it is with a push that is asked for at once. -/
theorem flush_quiet
    (session : Session) :
    session.quiet.flush = session.flush.quiet := by
  have hDeadline :
      session.quiet.deadline = session.deadline :=
    rfl
  rw [flush, flush, hDeadline]
  split
  · rfl
  · exact session.push_quiet

/- So it is with a push when it is due. -/
theorem poll_quiet
    (session : Session)
    (now : Nat) :
    session.quiet.poll now = (session.poll now).quiet := by
  have hDeadline :
      session.quiet.deadline = session.deadline :=
    rfl
  rw [poll, poll, hDeadline]
  split
  · rfl
  · split
    · exact session.push_quiet
    · rfl

/- Of an edit only the preview has. -/
theorem apply_quiet
    (session : Session)
    (intent : Intent)
    (now : Nat) :
    session.quiet.apply intent now =
      (session.apply intent now).quiet := by
  have hFollow :
      ∀ editor,
        (session.quiet.follow editor).written =
          (session.follow editor).written :=
    fun _ => rfl
  have hWritten : session.quiet.written = session.written :=
    rfl
  have hEdited :
      session.quiet.editor.apply session.quiet.settings intent =
        session.editor.apply session.settings intent :=
    rfl
  simp only [apply, hFollow, hWritten, hEdited]
  split
  · rfl
  · rw [Reply.quiet, filter_preview]
    rfl

/- So it is with a text that is taken in. -/
theorem hostChanged_quiet
    (session : Session)
    (text : Text) :
    session.quiet.hostChanged text =
      (session.hostChanged text).quiet := by
  have hWritten : session.quiet.written = session.written :=
    rfl
  have hKnown : session.quiet.known = session.known :=
    rfl
  simp only [hostChanged, hWritten, hKnown]
  split
  · rfl
  · rw [Reply.quiet, filter_preview]
    rfl

/- Nothing that happens depends on previews. -/
theorem respond_quiet
    (session : Session)
    (event : Event) :
    session.quiet.respond event.quiet =
      (session.respond event).quiet := by
  rcases event with (⟨intent, now⟩ | ⟨caret⟩ | ⟨now⟩ | _) |
    text | host
  · exact congrArg (Reply.map Answer.focus)
      (session.apply_quiet intent now)
  · rfl
  · exact congrArg (Reply.map Answer.pushed)
      (session.poll_quiet now)
  · exact congrArg (Reply.map Answer.pushed)
      session.flush_quiet
  · exact congrArg (Reply.map Answer.heard)
      (session.hostChanged_quiet text)
  · rfl

/- Opening a session depends on none. -/
theorem openOn_quiet
    (host : Host)
    (settings : Settings) :
    openOn host.quiet settings =
      (openOn host settings).quiet := by
  rw [Reply.quiet, openOn, openOn, filter_preview]
  rfl

/- Nor does anything in a run. -/
theorem record_quiet
    (session : Session)
    (events : List Event) :
    session.quiet.record (events.map Event.quiet) =
      (session.record events).map fun entry =>
        (entry.1.quiet, entry.2.quiet) := by
  induction events generalizing session with
  | nil => rfl
  | cons event events ih =>
      rw [List.map_cons, record, record, List.map_cons,
        session.respond_quiet event]
      exact congrArg (_ :: ·)
        (ih (session.respond event).state)

/-
  The preview is never out of date and never interferes.  In
  every run on a host that shows previews, the latest one is
  that of the document, and just the events that change what
  is to be shown show it anew, and once; no other event ever
  does.  A preview that fails is followed by one message, as
  nothing else is.  Apart from previews, a run does not
  depend on when they fail, nor on whether they are shown.
-/
theorem previews_current
    (host : Host)
    (settings : Settings)
    (events : List Event) :
    let opened := (openOn host settings).state
    let session := opened.after events
    (host.previews = true →
      ((log host settings events).filterMap
            Call.shown?).getLast? =
          some session.editor.document.toText ∧
        ∀ event, session.Refreshes event →
          (session.respond event).calls.filterMap
              Call.shown? =
            [(session.respond
              event).state.editor.document.toText]) ∧
      (∀ event, ¬ session.Refreshes event →
        (session.respond event).calls.filterMap Call.shown? =
          []) ∧
      Noticed (log host settings events) ∧
      ∀ other events', other.quiet = host.quiet →
        events'.map Event.quiet = events.map Event.quiet →
          (openOn other settings).quiet =
              (openOn host settings).quiet ∧
            ((openOn other settings).state.record
                events').map (fun entry => entry.2.quiet) =
              (opened.record events).map
                fun entry => entry.2.quiet := by
  intro opened session
  have hWritten : session.IsWritten :=
    written_after_openOn host settings events
  refine ⟨?_, ?_, noticed_log host settings events, ?_⟩
  · intro hShows
    have hShown : session.host.previews = true :=
      (opened.continues_after events).previews.trans hShows
    refine ⟨latest_preview hShows settings events, ?_⟩
    intro event hRefreshes
    exact shown_of_refreshes hWritten hShown hRefreshes
  · intro event hNot
    exact (shown_of_not_refreshes hWritten hNot).1
  · intro other events' hHosts hEvents
    have hOpened :
        (openOn other settings).quiet =
          (openOn host settings).quiet := by
      rw [← openOn_quiet, ← openOn_quiet, hHosts]
    have hStates :
        (openOn other settings).state.quiet = opened.quiet :=
      congrArg Reply.state hOpened
    have hRecords :=
      record_quiet (openOn other settings).state events'
    rw [hStates, hEvents, record_quiet opened events]
      at hRecords
    refine ⟨hOpened, ?_⟩
    have hReplies :=
      congrArg (List.map Prod.snd) hRecords.symm
    rwa [List.map_map, List.map_map] at hReplies

/-
  Two previews that fail, at the opening and after an edit,
  and one that is shown when a text is read anew.
-/
theorem previews_after_failures :
    let failing : Host :=
      { Host.ofText ['x'] with previewError := some .gone }
    let events : List Event :=
      [.move (.apply (.type 'y') 0), .change (.ofText ['z']),
        .hear ['z']]
    log failing .standard events =
        [.preview ['x'] false,
          .previewFailed Host.previewNotice,
          .preview ['x', 'y'] false,
          .previewFailed Host.previewNotice,
          .preview ['z'] true] ∧
      ((log failing .standard events).filterMap
          Call.shown?).getLast? =
        some
          ((openOn failing .standard).state.after
            events).editor.document.toText := by
  intro failing events
  exact ⟨by decide +kernel,
    ((previews_current failing .standard events).1 rfl).1⟩

end Session

end FormulaEditor
