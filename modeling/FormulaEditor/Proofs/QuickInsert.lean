import FormulaEditor.QuickInsert

/-
  This file proves what the quick-insert panel inserts over
  a run of keys: at each enter key the texts that have been
  typed into its two fields since the last one, whatever the
  host has refused before.

  Key definitions include:
    * `QuickInsert.Event`
    * `QuickInsert.after`
    * `QuickInsert.requests`
    * `QuickInsert.pressedIn`
    * `QuickInsert.submission`
    * `QuickInsert.rounds`
    * `QuickInsert.ofKeys`

  Key theorems include:
    * `QuickInsert.press_ofKeys`
    * `QuickInsert.run_ofKeys`
    * `QuickInsert.submissions_separate`
-/

namespace FormulaEditor

/- The text that a request inserts at the host's caret. -/
def Call.inserted? : Call → Option Text
  | .insert text _ => some text
  | _ => none

namespace QuickInsert

------------------------------------------------------------
-- Runs
------------------------------------------------------------

/-
  What may happen to a panel: a key is pressed, or the host
  changes, in its text or in what it refuses.
-/
inductive Event where
  | press (key : Key)
  | change (host : Host)

/- The key that an event presses, if it presses one. -/
def Event.key? : Event → Option Key
  | .press key => some key
  | .change _ => none

/- The keys that are pressed in a run, in order. -/
def pressed
    (events : List Event) :
    List Key :=
  events.filterMap Event.key?

/- The panel and the host after a run. -/
def after
    (panel : QuickInsert)
    (host : Host) :
    List Event → QuickInsert × Host
  | [] => (panel, host)
  | .press key :: events =>
      let reply := panel.press host key
      after reply.state.1 reply.state.2 events
  | .change host :: events => after panel host events

/- The requests of a run, in order. -/
def requests
    (panel : QuickInsert)
    (host : Host) :
    List Event → List Call
  | [] => []
  | .press key :: events =>
      let reply := panel.press host key
      reply.calls ++
        requests reply.state.1 reply.state.2 events
  | .change host :: events => requests panel host events

------------------------------------------------------------
-- What Keys Type
------------------------------------------------------------

/-
  Feed a key to a text.  A character goes to its end, and a
  backspace takes its last character away, if it has one.
-/
def feed
    (text : Text) :
    Key → Text
  | .char c => text ++ [c]
  | .backspace => text.dropLast
  | _ => text

/- The text that keys type when there is none before. -/
def typed
    (keys : List Key) :
    Text :=
  keys.foldl feed []

/- The field in focus changes with every tab key. -/
def focusAfter
    (keys : List Key) :
    Field :=
  if keys.count .tab % 2 = 0 then
    .numerator
  else
    .denominator

/-
  The keys that are pressed with a field in focus, which
  depends on the keys before each of them.
-/
def pressedIn
    (field : Field)
    (keys : List Key) :
    List Key :=
  (keys.zipIdx.filter
    fun entry => focusAfter (keys.take entry.2) = field).map
      Prod.fst

/- What the keys between two submissions submit. -/
def submission
    (keys : List Key) :
    Text :=
  typed (pressedIn .numerator keys) ++
    '/' :: typed (pressedIn .denominator keys)

/- The keys before each enter key that follow the last one. -/
def rounds
    (keys : List Key) :
    List (List Key) :=
  (keys.splitOn .enter).dropLast

/- The keys after the last enter key. -/
def unsent
    (keys : List Key) :
    List Key :=
  (keys.splitOn .enter).getLastD []

/- The panel that keys lead to if none of them submits. -/
def ofKeys
    (keys : List Key) :
    QuickInsert :=
  ⟨typed (pressedIn .numerator keys),
    typed (pressedIn .denominator keys),
    focusAfter keys⟩

------------------------------------------------------------
-- One More Key
------------------------------------------------------------

section Concat

variable (keys : List Key) (key : Key)

theorem typed_concat :
    typed (keys ++ [key]) = feed (typed keys) key := by
  simp [typed]

theorem focusAfter_concat :
    focusAfter (keys ++ [key]) =
      if key = .tab then
        (focusAfter keys).other
      else
        focusAfter keys := by
  by_cases hTab : key = .tab
  · simp only [focusAfter, hTab, List.count_append,
      List.count_singleton_self, if_true]
    by_cases hEven : keys.count .tab % 2 = 0
    · rw [if_pos hEven, if_neg (by omega), Field.other]
    · rw [if_neg hEven, if_pos (by omega), Field.other]
  · simp [focusAfter, hTab]

/- A key goes to the field that is in focus before it. -/
theorem pressedIn_concat
    (field : Field) :
    pressedIn field (keys ++ [key]) =
      pressedIn field keys ++
        if focusAfter keys = field then [key] else [] := by
  have hTake :
      ∀ entry ∈ keys.zipIdx,
        decide
            (focusAfter ((keys ++ [key]).take entry.2) =
              field) =
          decide (focusAfter (keys.take entry.2) = field) := by
    intro entry hMem
    have hLess := List.snd_lt_of_mem_zipIdx hMem
    rw [List.take_append_of_le_length (by omega)]
  rw [pressedIn, List.zipIdx_append, List.filter_append,
    List.filter_congr hTake, List.map_append]
  congr 1
  by_cases hFocus : focusAfter keys = field <;>
    simp [hFocus]

/- So it is fed to the text of that field alone. -/
theorem typed_pressedIn_concat
    (field : Field) :
    typed (pressedIn field (keys ++ [key])) =
      if focusAfter keys = field then
        feed (typed (pressedIn field keys)) key
      else
        typed (pressedIn field keys) := by
  rw [pressedIn_concat]
  split
  · exact typed_concat _ key
  · rw [List.append_nil]

/-
  A key that types is fed to the text of the field that is
  in focus, and the focus stays.
-/
theorem ofKeys_concat_of_ne_tab
    (hTab : key ≠ .tab) :
    ofKeys (keys ++ [key]) =
      (ofKeys keys).edit fun text => feed text key := by
  rw [ofKeys, focusAfter_concat, if_neg hTab,
    typed_pressedIn_concat, typed_pressedIn_concat]
  cases hFocus : focusAfter keys <;>
    simp [edit, ofKeys, hFocus]

/- A tab types nothing and moves the focus on. -/
theorem ofKeys_concat_tab :
    ofKeys (keys ++ [.tab]) =
      { ofKeys keys with focus := (focusAfter keys).other } := by
  have hFed (text : Text) : feed text .tab = text := rfl
  have hFocus :
      focusAfter (keys ++ [.tab]) =
        (focusAfter keys).other := by
    rw [focusAfter_concat, if_pos rfl]
  rw [ofKeys, typed_pressedIn_concat, typed_pressedIn_concat,
    hFed, hFed, ite_self, ite_self, hFocus, ofKeys]

end Concat

/-
  A key that does not submit is one more of the keys that
  have led to the panel.  The enter key submits what they
  typed, and then the panel is as if none had been pressed.
-/
theorem press_ofKeys
    (keys : List Key)
    (host : Host)
    (key : Key) :
    (ofKeys keys).press host key =
      if key = .enter then
        let reply := host.insert (submission keys)
        ⟨(ofKeys [], reply.state),
          reply.answer.map fun _ => true, reply.calls⟩
      else
        ⟨(ofKeys (keys ++ [key]), host), .ok false, []⟩ := by
  cases key with
  | enter => rfl
  | tab => rw [ofKeys_concat_tab]; rfl
  | backspace =>
      rw [ofKeys_concat_of_ne_tab keys _ (by decide)]
      rfl
  | char c =>
      rw [ofKeys_concat_of_ne_tab keys _ (by simp)]
      rfl

------------------------------------------------------------
-- Rounds
------------------------------------------------------------

section Rounds

variable {keys : List Key} (hKeys : .enter ∉ keys)

include hKeys

/- The first enter key ends the first round. -/
theorem rounds_append_enter
    (rest : List Key) :
    rounds (keys ++ .enter :: rest) = keys :: rounds rest := by
  rw [rounds,
    List.splitOn_append_cons_self_of_not_mem hKeys,
    List.dropLast_cons_of_ne_nil
      (List.splitOn_ne_nil .enter rest),
    rounds]

/- Nothing before an enter key is left to be submitted. -/
theorem unsent_append_enter
    (rest : List Key) :
    unsent (keys ++ .enter :: rest) = unsent rest := by
  rw [unsent, unsent,
    List.splitOn_append_cons_self_of_not_mem hKeys]
  cases hRest : rest.splitOn .enter with
  | nil => exact absurd hRest (List.splitOn_ne_nil _ _)
  | cons first others => rfl

/- Without an enter key no round has ended. -/
theorem rounds_of_not_mem :
    rounds keys = [] := by
  rw [rounds, List.splitOn_eq_singleton hKeys]
  rfl

/- Without an enter key all is left to be submitted. -/
theorem unsent_of_not_mem :
    unsent keys = keys := by
  rw [unsent, List.splitOn_eq_singleton hKeys]
  rfl

end Rounds

------------------------------------------------------------
-- Whole Runs
------------------------------------------------------------

/-
  From a panel that keys have led to, the panel after a run
  is the one that the keys since the last enter key lead to,
  and what is inserted are the submissions of the rounds.
-/
theorem run_ofKeys
    {keys : List Key}
    (hKeys : .enter ∉ keys)
    (host : Host)
    (events : List Event) :
    (after (ofKeys keys) host events).1 =
        ofKeys (unsent (keys ++ pressed events)) ∧
      (requests (ofKeys keys) host events).map
          Call.inserted? =
        (rounds (keys ++ pressed events)).map
          (some ∘ submission) := by
  induction events generalizing keys host with
  | nil =>
      rw [pressed, List.filterMap_nil, List.append_nil,
        unsent_of_not_mem hKeys, rounds_of_not_mem hKeys]
      exact ⟨rfl, rfl⟩
  | cons event events ih =>
      cases event with
      | change host => exact ih hKeys host
      | press key =>
          have hPressed :
              pressed (.press key :: events) =
                key :: pressed events :=
            rfl
          rw [after, requests, press_ofKeys, hPressed]
          by_cases hEnter : key = .enter
          -- The panel is cleared, so no keys are left over.
          · rcases ih List.not_mem_nil
                (host.insert (submission keys)).state with
              ⟨hPanel, hRequests⟩
            rw [if_pos hEnter, hEnter,
              unsent_append_enter hKeys,
              rounds_append_enter hKeys]
            refine ⟨hPanel, ?_⟩
            rw [List.map_append, hRequests, List.nil_append,
              List.map_cons]
            cases hError : host.insertError <;>
              simp [Host.insert, hError, Call.inserted?]
          · have hTyped : .enter ∉ keys ++ [key] := by
              simpa [eq_comm] using ⟨hKeys, hEnter⟩
            rw [if_neg hEnter,
              List.append_cons keys key (pressed events)]
            exact ih hTyped host

/-
  Submissions leak neither into each other nor across the
  fields.  In every run of an empty panel, whatever the host
  refuses and when, the texts that are inserted are those of
  the rounds of keys, in order.  A key makes one request if
  it is the enter key and none otherwise, and it answers
  with an error exactly when that request is refused.  What
  is refused changes neither the panel nor what is inserted
  later.
-/
theorem submissions_separate
    (host : Host)
    (events : List Event) :
    let panel := (after empty host events).1
    let current := (after empty host events).2
    (requests empty host events).map Call.inserted? =
        (rounds (pressed events)).map (some ∘ submission) ∧
      (∀ key,
        (panel.press current key).calls =
          if key = .enter then
            [.insert (submission (unsent (pressed events)))
              current.insertError.isNone]
          else
            []) ∧
      (∀ key,
        (∃ error,
          (panel.press current key).answer = .error error) ↔
          ∃ text,
            .insert text false ∈
              (panel.press current key).calls) ∧
      ∀ other others, pressed others = pressed events →
        (after empty other others).1 = panel ∧
          (requests empty other others).map Call.inserted? =
            (requests empty host events).map
              Call.inserted? := by
  intro panel current
  have hRun (host : Host) (events : List Event) :=
    @run_ofKeys [] List.not_mem_nil host events
  have hPanel : panel = ofKeys (unsent (pressed events)) :=
    (hRun host events).1
  refine ⟨(hRun host events).2, ?_, ?_, ?_⟩
  · intro key
    rw [hPanel, press_ofKeys]
    by_cases hEnter : key = .enter
    · rw [if_pos hEnter, if_pos hEnter]
      cases hError : current.insertError <;>
        simp [Host.insert, hError]
    · rw [if_neg hEnter, if_neg hEnter]
  · intro key
    rw [hPanel, press_ofKeys]
    by_cases hEnter : key = .enter
    · rw [if_pos hEnter]
      cases hError : current.insertError <;>
        simp [Host.insert, hError, Except.map]
    · rw [if_neg hEnter]
      simp
  · intro other others hKeys
    have hOther := hRun other others
    rw [hKeys] at hOther
    exact ⟨hOther.1.trans hPanel.symm,
      hOther.2.trans (hRun host events).2.symm⟩

/-
  A submission that is refused inserts just the text that it
  would have inserted, and takes nothing from the next one.
-/
theorem submissions_after_refusal :
    let gone : Host :=
      { Host.ofText [] with insertError := some .gone }
    let first : List Event :=
      [.press (.char '1'), .press .tab, .press (.char 'x'),
        .press .enter]
    let second : List Event :=
      [.press .backspace, .press (.char 'a'), .press .tab,
        .press .tab, .press .enter]
    let events := first ++ .change (.ofText []) :: second
    let others := first ++ second
    requests empty gone events =
        [.insert "1/x".toList false,
          .insert "a/".toList true] ∧
      pressed others = pressed events ∧
      (requests empty (.ofText []) others).map
          Call.inserted? =
        (requests empty gone events).map Call.inserted? := by
  intro gone first second events others
  have hKeys : pressed others = pressed events := by
    decide
  have hSeparate := submissions_separate gone events
  exact ⟨by decide, hKeys,
    (hSeparate.2.2.2 (.ofText []) others hKeys).2⟩

end QuickInsert

end FormulaEditor
