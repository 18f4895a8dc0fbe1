import FormulaEditor.Json.Record
import FormulaEditor.Proofs.Json.Number
import FormulaEditor.Proofs.Json.Quoted

/-
  This file proves what is read from a JSON object that has
  been written: the record that its members describe, in
  whichever order they stand, and also if those are left out
  that say what is usual.

  Key definitions include:
    * `Json.Says`
    * `Json.withMember`
    * `Json.Abridges`
    * `Json.Describes`

  Key theorems include:
    * `Json.readMember_writeMember`
    * `Json.readMembers_intercalate`
    * `Json.readRecord_writeObject`
    * `Json.readRecord_of_abridges`
-/

namespace FormulaEditor

namespace Json

variable {σ : Type} {fields : List (Field σ)}

------------------------------------------------------------
-- Members
------------------------------------------------------------

/-
  A member of an object, which is a key with a written
  value, says how a record changes: the key is known, and
  the value is read up to what ends it.
-/
def Says
    (fields : List (Field σ))
    (member : Text × Text)
    (change : σ → σ) :
    Prop :=
  ∃ field,
    fields.find? (fun field => field.key == member.1) =
        some field ∧
      ∀ rest, EndsValue rest →
        field.read (member.2 ++ rest) = .ok (change, rest)

/- What a member says whose value is put into a record. -/
theorem says_of
    {α : Type}
    {key value : Text}
    {read : Reader α}
    {hRead : read.Consumes}
    (set : α → σ → σ)
    (hField :
      fields.find? (fun field => field.key == key) =
        some (.of key read @hRead set))
    {a : α}
    (hValue :
      ∀ rest, EndsValue rest →
        read (value ++ rest) = .ok (a, rest)) :
    Says fields (key, value) (set a) := by
  refine ⟨_, hField, ?_⟩
  intro rest hEnds
  simp only [Field.of, Reader.setting, hValue rest hEnds]

/- A record that a member has been read into. -/
def withMember
    (fields : List (Field σ))
    (record : σ)
    (member : Text × Text) :
    σ :=
  match fields.find? fun field => field.key == member.1 with
  | none => record
  | some field =>
      match field.read (member.2 ++ ['\x7d']) with
      | .error _ => record
      | .ok (change, _) => change record

/- What a member says is what is read from it. -/
theorem Says.withMember_eq
    {member : Text × Text}
    {change : σ → σ}
    (hSays : Says fields member change)
    (record : σ) :
    withMember fields record member = change record := by
  rcases hSays with ⟨field, hField, hRead⟩
  have hValue := hRead ['\x7d'] ⟨_, _, rfl, .inr rfl⟩
  rw [withMember, hField]
  simp only [hValue]

/- Write a member of an object. -/
def writeMember
    (member : Text × Text) :
    Text :=
  writeString member.1 ++ ':' :: member.2

/- A member is read as what it says. -/
theorem readMember_writeMember
    {member : Text × Text}
    {change : σ → σ}
    (hSays : Says fields member change)
    {progress : Progress σ}
    (hNew : member.1 ∉ progress.seen)
    {rest : Text}
    (hEnds : EndsValue rest) :
    readMember fields progress (writeMember member ++ rest) =
      .ok
        (⟨withMember fields progress.record member,
          member.1 :: progress.seen⟩, rest) := by
  have hResult := hSays.withMember_eq progress.record
  rcases hSays with ⟨field, hField, hRead⟩
  have hValue := hRead rest hEnds
  have hKey :
      readKey (writeMember member ++ rest) =
        .ok (member.1, ':' :: (member.2 ++ rest)) := by
    have hWritten :
        writeMember member ++ rest =
          '"' :: (member.1.flatMap writeChar ++
            '"' :: ':' :: (member.2 ++ rest)) := by
      simp [writeMember, writeString]
    rw [hWritten, readKey]
    exact readString_flatMap member.1 _
  have hColon :
      readColon (':' :: (member.2 ++ rest)) =
        .ok ((), member.2 ++ rest) :=
    rfl
  have hUnseen : progress.seen.contains member.1 = false := by
    simpa using hNew
  rw [readMember, hKey]
  simp only [hField, hUnseen, hColon, hValue, hResult,
    Bool.false_eq_true, if_false]

------------------------------------------------------------
-- Objects
------------------------------------------------------------

/- The written members of an object, with commas between. -/
theorem intercalate_cons_cons
    (first second : Text)
    (more : List Text) :
    [','].intercalate (first :: second :: more) =
      first ++ ',' :: [','].intercalate (second :: more) := by
  simp [List.intercalate, List.intersperse]

/- A comma leads to the next member. -/
theorem readMembers_comma
    {progress after : Progress σ}
    {s rest : Text}
    (hMember :
      readMember fields progress s = .ok (after, ',' :: rest)) :
    readMembers fields progress s =
      readMembers fields after rest := by
  rw [readMembers.eq_def]
  split
  · next hFault =>
      rw [hMember] at hFault
      cases hFault
  · next hFound =>
      rw [hMember] at hFound
      rcases Prod.mk.inj (Except.ok.inj hFound) with
        ⟨rfl, rfl⟩
      rfl

/- A brace ends an object. -/
theorem readMembers_brace
    {progress after : Progress σ}
    {s rest : Text}
    (hMember :
      readMember fields progress s =
        .ok (after, '\x7d' :: rest)) :
    readMembers fields progress s =
      .ok (after.record, rest) := by
  rw [readMembers.eq_def]
  split
  · next hFault =>
      rw [hMember] at hFault
      cases hFault
  · next hFound =>
      rw [hMember] at hFound
      rcases Prod.mk.inj (Except.ok.inj hFound) with
        ⟨rfl, rfl⟩
      rfl

/- Members with distinct keys are read one by one. -/
theorem readMembers_intercalate
    {member : Text × Text}
    {members : List (Text × Text)}
    (hSays :
      ∀ other ∈ member :: members,
        ∃ change, Says fields other change)
    (hDistinct : ((member :: members).map Prod.fst).Nodup)
    {progress : Progress σ}
    (hNew :
      ∀ other ∈ member :: members,
        other.1 ∉ progress.seen)
    (rest : Text) :
    readMembers fields progress
        ([','].intercalate
            ((member :: members).map writeMember) ++
          '\x7d' :: rest) =
      .ok
        ((member :: members).foldl (withMember fields)
            progress.record, rest) := by
  induction members generalizing member progress with
  | nil =>
      rcases hSays member (List.mem_cons_self ..) with
        ⟨change, hChange⟩
      have hSingle :
          [','].intercalate ([member].map writeMember) =
            writeMember member := by
        simp [List.intercalate]
      rw [hSingle]
      exact readMembers_brace
        (readMember_writeMember hChange
          (hNew member (List.mem_cons_self ..))
          ⟨_, _, rfl, .inr rfl⟩)
  | cons second members ih =>
      rcases hSays member (List.mem_cons_self ..) with
        ⟨change, hChange⟩
      rw [List.forall_mem_cons] at hSays hNew
      rw [List.map_cons, List.nodup_cons] at hDistinct
      rw [List.map_cons, List.map_cons,
        intercalate_cons_cons, List.append_assoc,
        List.cons_append]
      rw [readMembers_comma
        (readMember_writeMember hChange hNew.1
          ⟨_, _, rfl, .inl rfl⟩)]
      refine ih hSays.2 hDistinct.2 ?_
      intro other hOther hSeen
      rcases List.mem_cons.mp hSeen with hSame | hOld
      · exact hDistinct.1
          (hSame ▸ List.mem_map_of_mem hOther)
      · exact hNew.2 other hOther hOld

/- The first member of an object starts with a quote. -/
theorem exists_quote_intercalate
    (member : Text × Text)
    (members : List (Text × Text)) :
    ∃ rest,
      [','].intercalate
          ((member :: members).map writeMember) =
        '"' :: rest := by
  cases members with
  | nil =>
      exact ⟨_, List.append_nil _⟩
  | cons second members =>
      rw [List.map_cons, List.map_cons,
        intercalate_cons_cons]
      exact ⟨_, rfl⟩

/- An object is read as the record that its members change. -/
theorem readRecord_writeObject
    {members : List (Text × Text)}
    (hSays :
      ∀ member ∈ members,
        ∃ change, Says fields member change)
    (hDistinct : (members.map Prod.fst).Nodup)
    (initial : σ)
    (rest : Text) :
    readRecord fields initial (writeObject members ++ rest) =
      .ok (members.foldl (withMember fields) initial,
        rest) := by
  have hWritten :
      writeObject members ++ rest =
        '\x7b' :: ([','].intercalate
          (members.map writeMember) ++ '\x7d' :: rest) := by
    simp only [writeObject, List.cons_append,
      List.append_assoc]
    rfl
  cases members with
  | nil => rfl
  | cons member members =>
      have hMembers :=
        @readMembers_intercalate σ fields member members
          hSays hDistinct ⟨initial, []⟩
          (fun _ _ hSeen => nomatch hSeen) rest
      rcases exists_quote_intercalate member members with
        ⟨tail, hTail⟩
      rw [hWritten]
      rw [hTail, List.cons_append] at hMembers ⊢
      exact hMembers

------------------------------------------------------------
-- Members Left Out
------------------------------------------------------------

/-
  Some members of an object, in any order, where only such
  are left out as are usual.
-/
def Abridges
    (full usual members : List (Text × Text)) :
    Prop :=
  ∃ omitted, (members ++ omitted).Perm full ∧
    ∀ member ∈ omitted, member ∈ usual

/- All members, in their own order, are left as they are. -/
theorem abridges_self
    (full usual : List (Text × Text)) :
    Abridges full usual full :=
  ⟨[], by rw [List.append_nil], by simp⟩

/-
  Members describe a record: their keys are known and
  distinct, no two of them get in each other's way, and
  together they make the record out of an initial one.
-/
structure Describes
    (fields : List (Field σ))
    (initial : σ)
    (full : List (Text × Text))
    (record : σ) :
    Prop where
  known :
    ∀ member ∈ full, ∃ change, Says fields member change
  distinct : (full.map Prod.fst).Nodup
  commutes :
    ∀ member ∈ full, ∀ other ∈ full, ∀ record,
      withMember fields (withMember fields record member)
          other =
        withMember fields (withMember fields record other)
          member
  whole : full.foldl (withMember fields) initial = record

/- Members that change nothing can be read in any number. -/
theorem foldl_of_unchanged
    {initial : σ}
    {members : List (Text × Text)}
    (hSame :
      ∀ member ∈ members,
        withMember fields initial member = initial) :
    members.foldl (withMember fields) initial = initial := by
  induction members with
  | nil => rfl
  | cons member members ih =>
      rw [List.forall_mem_cons] at hSame
      rw [List.foldl_cons, hSame.1, ih hSame.2]

/-
  A record is read from its members in any order, also when
  usual ones are left out, if those would not change the
  initial record.
-/
theorem readRecord_of_abridges
    {initial record : σ}
    {full usual members : List (Text × Text)}
    (hDescribes : Describes fields initial full record)
    (hUsual :
      ∀ member ∈ usual,
        withMember fields initial member = initial)
    (hAbridges : Abridges full usual members)
    (rest : Text) :
    readRecord fields initial (writeObject members ++ rest) =
      .ok (record, rest) := by
  rcases hAbridges with ⟨omitted, hPerm, hOmitted⟩
  have hKept : ∀ member ∈ members, member ∈ full :=
    fun member hMem =>
      hPerm.subset (List.mem_append_left omitted hMem)
  have hDistinct : (members.map Prod.fst).Nodup := by
    have hAll :=
      (hPerm.map Prod.fst).nodup_iff.mpr hDescribes.distinct
    rw [List.map_append] at hAll
    exact hAll.sublist (List.sublist_append_left _ _)
  have hNothing :
      omitted.foldl (withMember fields) initial = initial :=
    foldl_of_unchanged fun member hMem =>
      hUsual member (hOmitted member hMem)
  -- What is left out could as well have been read first.
  have hWhole :
      members.foldl (withMember fields) initial = record := by
    calc members.foldl (withMember fields) initial
        = (omitted ++ members).foldl (withMember fields)
            initial := by
          rw [List.foldl_append, hNothing]
      _ = full.foldl (withMember fields) initial := by
          have hFirst :=
            List.perm_append_comm.trans hPerm
          refine hFirst.foldl_eq' ?_ initial
          intro member hMem other hOther between
          exact hDescribes.commutes member
            (hFirst.subset hMem) other
            (hFirst.subset hOther) between
      _ = record := hDescribes.whole
  rw [readRecord_writeObject
    (fun member hMem =>
      hDescribes.known member (hKept member hMem))
    hDistinct, hWhole]

end Json

end FormulaEditor
