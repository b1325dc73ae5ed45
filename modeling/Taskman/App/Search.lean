import Taskman.Core.Model
import Taskman.Text.Scan
import Mathlib.Data.List.Infix

/-!
# Global search

One normalized query, matched against every field that identifies a process to a person.

* `Query` : the trimmed, lowered query; the empty one matches everything;
* `Query.matchesProcess` : name, description, publisher, account, services, pid, path and command
  line.
-/

namespace Taskman

/-- The case mappings of the Unicode tables and the localized texts of the page. -/
structure PageHost where
  /-- `str::to_lowercase`. -/
  toLowercase : Text → Text
  /-- `char::to_lowercase`. -/
  charToLowercase : Char → List Char
  /-- The heading of a service host. -/
  serviceHost : Text
  /-- The hover text of load that no running process accounts for. -/
  terminatedTooltip : Text → Text

namespace Search

/-- A normalized global search query. -/
structure Query where
  q : Text
  deriving DecidableEq

/-- What is searched for. -/
def Query.new (host : PageHost) (raw : Text) : Query := ⟨host.toLowercase (Text.trim raw)⟩

/-- Nothing is searched for. -/
def Query.isEmpty (query : Query) : Bool := query.q.isEmpty

/-- True when any candidate contains the query. -/
def Query.matchesAny (host : PageHost) (query : Query) (candidates : List Text) : Bool :=
  query.q.isEmpty || candidates.any fun c => decide (query.q <:+: host.toLowercase c)

/-- Every process field a person could search by. -/
def Query.matchesProcess (host : PageHost) (query : Query) (p : ProcessEntry) : Bool :=
  if query.q.isEmpty then true
  else if query.matchesAny host
      [p.name, p.shownName, p.description.getD [], p.company.getD [], p.user.getD [],
        p.serviceName.getD [], Nat.toDigits 10 p.pid] then true
  else query.matchesAny host [p.exePath.getD [], p.commandLine.getD []]

end Search

end Taskman
