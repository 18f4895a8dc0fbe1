import FormulaEditor.Json.Record
import FormulaEditor.Settings.Validation

/-
  This file reads settings from JSON and writes them as
  JSON.

  Key definitions include:
    * `Settings.fields`
    * `Settings.readJson`
    * `Settings.ofJson`
    * `Settings.toJson`
-/

namespace FormulaEditor

------------------------------------------------------------
-- Reading
------------------------------------------------------------

/- The fields of the rows of a new limit. -/
def LimitTemplate.fields : List (Json.Field LimitTemplate) :=
  [ .of "subscript".toList
      Json.readText Json.readText_consumes
      fun s limit => { limit with subscript := s },
    .of "expression".toList
      Json.readText Json.readText_consumes
      fun s limit => { limit with expression := s } ]

/- Read the rows of a new limit. -/
def LimitTemplate.read : Json.Reader LimitTemplate :=
  Json.readRecord LimitTemplate.fields .standard

namespace Settings

/- The fields of settings. -/
def fields : List (Json.Field Settings) :=
  [ .of "debounce_ms".toList
      Json.readNatural Json.readNatural_consumes
      fun n settings =>
        { settings with debounce := UInt64.ofNat n },
    .of "trigger".toList
      Json.readChar Json.readChar_consumes
      fun c settings => { settings with trigger := c },
    .of "placeholder".toList
      Json.readChar Json.readChar_consumes
      fun c settings => { settings with placeholder := c },
    .of "limit".toList
      LimitTemplate.read
      (Json.readRecord_consumes LimitTemplate.fields .standard)
      fun limit settings => { settings with limit } ]

/- Read settings, whether they are acceptable or not. -/
def readJson
    (s : Text) :
    Except Json.Fault Settings :=
  Json.readWhole (Json.readRecord fields .standard) s

end Settings

/-
  Why a text does not give settings: it cannot be read, or
  what it says is not acceptable.
-/
inductive SettingsFault where
  | unreadable (fault : Json.Fault)
  | invalid (error : SettingsError)
  deriving DecidableEq

/- Read settings and validate them. -/
def Settings.ofJson
    (s : Text) :
    Except SettingsFault Settings :=
  match Settings.readJson s with
  | .error fault => .error (.unreadable fault)
  | .ok settings =>
      match settings.validate with
      | .error error => .error (.invalid error)
      | .ok settings => .ok settings

------------------------------------------------------------
-- Writing
------------------------------------------------------------

/- Write the rows of a new limit. -/
def LimitTemplate.toJson
    (limit : LimitTemplate) :
    Text :=
  Json.writeObject
    [ ("subscript".toList, Json.writeString limit.subscript),
      ("expression".toList,
        Json.writeString limit.expression) ]

/- Write settings. -/
def Settings.toJson
    (settings : Settings) :
    Text :=
  Json.writeObject
    [ ("debounce_ms".toList,
        Json.writeNatural settings.debounce.toNat),
      ("trigger".toList, Json.writeString [settings.trigger]),
      ("placeholder".toList,
        Json.writeString [settings.placeholder]),
      ("limit".toList, settings.limit.toJson) ]

end FormulaEditor
