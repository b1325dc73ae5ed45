import Taskman.Text.Basic

/-!
# Startup items

What the startup page lists, whatever platform it comes from.

* `StartupItem` : one entry;
* `StartupItem.toggled` : the list entry once an item is enabled or disabled.
-/

namespace Taskman

/-- What an entry costs at the start. -/
inductive StartupImpact where
  | unknown
  | none
  | low
  | medium
  | high
  deriving DecidableEq

/-- An entry of the startup list. -/
structure StartupItem where
  /-- Stable id within its location. -/
  id : Text
  name : Text
  command : Text
  location : Text
  publisher : Option Text
  enabled : Bool
  impact : StartupImpact
  deriving DecidableEq

/-- The impact of an item without measurements. -/
def unmeasuredImpact (enabled : Bool) : StartupImpact := if enabled then .unknown else .none

/-- An entry of the list, once the item with an id is enabled or disabled. -/
def StartupItem.toggled (id : Text) (enabled : Bool) (item : StartupItem) : StartupItem :=
  if item.id = id then { item with enabled := enabled, impact := unmeasuredImpact enabled }
  else item

@[simp]
theorem StartupItem.toggled_id (id : Text) (enabled : Bool) (item : StartupItem) :
    (item.toggled id enabled).id = item.id := by
  unfold toggled
  split_ifs <;> rfl

@[simp]
theorem StartupItem.toggled_name (id : Text) (enabled : Bool) (item : StartupItem) :
    (item.toggled id enabled).name = item.name := by
  unfold toggled
  split_ifs <;> rfl

end Taskman
