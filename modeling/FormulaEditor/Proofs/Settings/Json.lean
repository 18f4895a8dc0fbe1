import FormulaEditor.Proofs.Json.Record
import FormulaEditor.Settings.Json

/-
  This file proves that settings survive being written as
  JSON, in whichever order their keys stand and whichever
  keys are left out whose values are the standard ones.

  Key definitions include:
    * `LimitTemplate.IsJson`
    * `Settings.IsJson`

  Key theorems include:
    * `LimitTemplate.read_of_isJson`
    * `Settings.readJson_of_isJson`
    * `Settings.ofJson_of_isJson`
-/

namespace FormulaEditor

open Json

------------------------------------------------------------
-- Limits
------------------------------------------------------------

namespace LimitTemplate

/- The members that a limit is written with. -/
def members
    (limit : LimitTemplate) :
    List (Text × Text) :=
  [ ("subscript".toList, writeString limit.subscript),
    ("expression".toList, writeString limit.expression) ]

/-
  A text is JSON of a limit: an object with its members in
  any order, where those of the standard limit may be left
  out.
-/
def IsJson
    (limit : LimitTemplate)
    (s : Text) :
    Prop :=
  ∃ members,
    Abridges limit.members standard.members members ∧
      s = writeObject members

/- The subscript is read from its member. -/
theorem says_subscript
    (s : Text) :
    Says fields ("subscript".toList, writeString s)
      fun limit => { limit with subscript := s } :=
  says_of
    (fun s (limit : LimitTemplate) =>
      { limit with subscript := s })
    rfl fun rest _ => readText_writeString s rest

/- The expression is read from its member. -/
theorem says_expression
    (s : Text) :
    Says fields ("expression".toList, writeString s)
      fun limit => { limit with expression := s } :=
  says_of
    (fun s (limit : LimitTemplate) =>
      { limit with expression := s })
    rfl fun rest _ => readText_writeString s rest

/- The members of a limit describe it. -/
theorem describes_members
    (limit : LimitTemplate) :
    Describes fields standard limit.members limit where
  known := by
    simp only [members, List.forall_mem_cons]
    exact ⟨⟨_, says_subscript _⟩, ⟨_, says_expression _⟩,
      by simp⟩
  distinct := by
    simp only [members, List.map_cons, List.map_nil]
    decide
  commutes := by
    simp only [members, List.forall_mem_cons,
      List.not_mem_nil, false_implies, implies_true,
      and_true, (says_subscript _).withMember_eq,
      (says_expression _).withMember_eq]
  whole := by
    simp only [members, List.foldl_cons, List.foldl_nil,
      (says_subscript _).withMember_eq,
      (says_expression _).withMember_eq]

/- The members of the standard limit say nothing new. -/
theorem withMember_standard :
    ∀ member ∈ standard.members,
      withMember fields standard member = standard := by
  simp only [members, List.forall_mem_cons,
    (says_subscript _).withMember_eq,
    (says_expression _).withMember_eq]
  simp

/- A limit is read from any JSON of it. -/
theorem read_of_isJson
    {limit : LimitTemplate}
    {s : Text}
    (hJson : limit.IsJson s)
    (rest : Text) :
    LimitTemplate.read (s ++ rest) = .ok (limit, rest) := by
  rcases hJson with ⟨members, hAbridges, rfl⟩
  exact readRecord_of_abridges (describes_members limit)
    withMember_standard hAbridges rest

/- What is written for a limit is JSON of it. -/
theorem isJson_toJson
    (limit : LimitTemplate) :
    limit.IsJson limit.toJson :=
  ⟨_, abridges_self _ _, rfl⟩

end LimitTemplate

------------------------------------------------------------
-- Settings
------------------------------------------------------------

namespace Settings

/-
  The members that settings are written with, given how
  their limit is.
-/
def members
    (settings : Settings)
    (limit : Text) :
    List (Text × Text) :=
  [ ("debounce_ms".toList,
      writeNatural settings.debounce.toNat),
    ("trigger".toList, writeString [settings.trigger]),
    ("placeholder".toList,
      writeString [settings.placeholder]),
    ("limit".toList, limit) ]

/- The members of the standard settings. -/
def usual : List (Text × Text) :=
  standard.members LimitTemplate.standard.toJson

/-
  A text is JSON of settings: an object with their members
  in any order and any JSON of their limit, where members of
  the standard settings may be left out.
-/
def IsJson
    (settings : Settings)
    (s : Text) :
    Prop :=
  ∃ limit members,
    settings.limit.IsJson limit ∧
      Abridges (settings.members limit) usual members ∧
        s = writeObject members

/- The delay is read from its member, however long it is. -/
theorem says_debounce
    (n : UInt64) :
    Says fields ("debounce_ms".toList, writeNatural n.toNat)
      fun settings => { settings with debounce := n } := by
  have hFits : n.toNat ≤ maxNatural :=
    Nat.le_sub_one_of_lt n.toNat_lt
  have hSays :
      Says fields
        ("debounce_ms".toList, writeNatural n.toNat)
        fun settings =>
          { settings with
            debounce := UInt64.ofNat n.toNat } :=
    says_of
      (fun n (settings : Settings) =>
        { settings with debounce := UInt64.ofNat n })
      rfl fun rest hEnds =>
        readNatural_writeNatural hFits hEnds
  simp only [UInt64.ofNat_toNat] at hSays
  exact hSays

/- The trigger is read from its member. -/
theorem says_trigger
    (c : Char) :
    Says fields ("trigger".toList, writeString [c])
      fun settings => { settings with trigger := c } :=
  says_of
    (fun c (settings : Settings) =>
      { settings with trigger := c })
    rfl fun rest _ => readChar_writeString c rest

/- The placeholder is read from its member. -/
theorem says_placeholder
    (c : Char) :
    Says fields ("placeholder".toList, writeString [c])
      fun settings => { settings with placeholder := c } :=
  says_of
    (fun c (settings : Settings) =>
      { settings with placeholder := c })
    rfl fun rest _ => readChar_writeString c rest

/- The limit is read from its member. -/
theorem says_limit
    {limit : LimitTemplate}
    {s : Text}
    (hJson : limit.IsJson s) :
    Says fields ("limit".toList, s)
      fun settings => { settings with limit } :=
  says_of
    (fun limit (settings : Settings) =>
      { settings with limit })
    rfl fun rest _ => LimitTemplate.read_of_isJson hJson rest

/- The members of settings describe them. -/
theorem describes_members
    (settings : Settings)
    {limit : Text}
    (hJson : settings.limit.IsJson limit) :
    Describes fields standard (settings.members limit)
      settings where
  known := by
    simp only [members, List.forall_mem_cons]
    exact ⟨⟨_, says_debounce _⟩, ⟨_, says_trigger _⟩,
      ⟨_, says_placeholder _⟩, ⟨_, says_limit hJson⟩,
      by simp⟩
  distinct := by
    simp only [members, List.map_cons, List.map_nil]
    decide
  commutes := by
    simp only [members, List.forall_mem_cons,
      List.not_mem_nil, false_implies, implies_true,
      and_true, (says_debounce _).withMember_eq,
      (says_trigger _).withMember_eq,
      (says_placeholder _).withMember_eq,
      (says_limit hJson).withMember_eq]
  whole := by
    simp only [members, List.foldl_cons, List.foldl_nil,
      (says_debounce _).withMember_eq,
      (says_trigger _).withMember_eq,
      (says_placeholder _).withMember_eq,
      (says_limit hJson).withMember_eq]

/- The members of the standard settings say nothing new. -/
theorem withMember_usual :
    ∀ member ∈ usual,
      withMember fields standard member = standard := by
  have hLimit :=
    says_limit LimitTemplate.standard.isJson_toJson
  simp only [usual, members, List.forall_mem_cons,
    (says_debounce _).withMember_eq,
    (says_trigger _).withMember_eq,
    (says_placeholder _).withMember_eq,
    hLimit.withMember_eq]
  simp [standard]

/- Settings are read from any JSON of them. -/
theorem readJson_of_isJson
    {settings : Settings}
    {s : Text}
    (hJson : settings.IsJson s) :
    readJson s = .ok settings := by
  rcases hJson with
    ⟨limit, members, hLimit, hAbridges, rfl⟩
  have hRecord :=
    readRecord_of_abridges
      (settings.describes_members hLimit) withMember_usual
      hAbridges []
  rw [List.append_nil] at hRecord
  rw [readJson, readWhole, hRecord]
  rfl

/- What is written for settings is JSON of them. -/
theorem isJson_toJson
    (settings : Settings) :
    settings.IsJson settings.toJson :=
  ⟨_, _, settings.limit.isJson_toJson, abridges_self _ _,
    rfl⟩

/-
  Settings survive their JSON.  From what is written for
  them, and from any other JSON of them, they are read back
  if they are accepted, and otherwise the error is the one
  that they are not accepted with.
-/
theorem ofJson_of_isJson
    (settings : Settings) :
    settings.IsJson settings.toJson ∧
      ∀ s, settings.IsJson s →
        (settings.validate = .ok settings ∧
            ofJson s = .ok settings) ∨
          ∃ error,
            settings.validate = .error error ∧
              ofJson s = .error (.invalid error) := by
  refine ⟨settings.isJson_toJson, ?_⟩
  intro s hJson
  rw [ofJson, readJson_of_isJson hJson]
  cases hError : settings.error? with
  | none =>
      have hValid : settings.validate = .ok settings := by
        rw [validate, hError]
      refine .inl ⟨hValid, ?_⟩
      simp only [hValid]
  | some error =>
      have hRefused : settings.validate = .error error := by
        rw [validate, hError]
      refine .inr ⟨error, hRefused, ?_⟩
      simp only [hRefused]

/-
  Settings whose trigger is a quote and whose expression has
  a control character are read back from JSON in which the
  keys stand in another order and three of them are left
  out.
-/
theorem ofJson_of_quoted_trigger :
    ofJson
        ("\x7b\"limit\":\x7b\"expression\":\"\\u0001\"\x7d," ++
          "\"trigger\":\"\\\"\"\x7d").toList =
      .ok
        { standard with
          trigger := '"'
          limit :=
            { LimitTemplate.standard with
              expression := ['\x01'] } } := by
  let limit : LimitTemplate :=
    { LimitTemplate.standard with expression := ['\x01'] }
  let settings : Settings :=
    { standard with trigger := '"', limit }
  have hLimit :
      limit.IsJson
        (writeObject
          [("expression".toList, writeString ['\x01'])]) := by
    refine ⟨_,
      ⟨[("subscript".toList, writeString limit.subscript)],
        List.Perm.swap .., ?_⟩, rfl⟩
    intro member hMem
    rw [List.mem_singleton.mp hMem]
    exact List.mem_cons_self ..
  have hJson :
      settings.IsJson
        (writeObject
          [("limit".toList, writeObject
            [("expression".toList, writeString ['\x01'])]),
            ("trigger".toList, writeString ['"'])]) := by
    refine ⟨_, _, hLimit, ⟨
      [("debounce_ms".toList,
          writeNatural standard.debounce.toNat),
        ("placeholder".toList,
          writeString [standard.placeholder])], ?_, ?_⟩, rfl⟩
    · exact (@List.perm_append_comm _ [_] [_, _, _]).trans
        (List.Perm.swap ..)
    · intro member hMem
      rw [List.mem_cons, List.mem_singleton] at hMem
      rcases hMem with rfl | rfl
      · exact List.mem_cons_self ..
      · exact List.mem_cons_of_mem _
          (List.mem_cons_of_mem _ (List.mem_cons_self ..))
  have hValid : settings.validate = .ok settings := rfl
  rcases (ofJson_of_isJson settings).2 _ hJson with
    ⟨_, hRead⟩ | ⟨error, hRefused, _⟩
  · exact hRead
  · rw [hValid] at hRefused
    cases hRefused

end Settings

end FormulaEditor
