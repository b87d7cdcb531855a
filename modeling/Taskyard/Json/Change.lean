import Taskyard.Json.Value

/-!
# JSON — changes throughout a value

Main definitions:

* `Json.mapTexts` — every text and every name of a member changed.
* `Json.mapMembers` — the value of every member changed as its name demands.
-/

namespace Taskyard.Json

mutual

/-- The value with every text and every name of a member changed. -/
def mapTexts (f : String → String) : Json → Json
  | .string s => .string (f s)
  | .array items => .array (mapTextsAll f items)
  | .object members => .object (mapTextsMembers f members)
  | j => j

/-- The values with every text changed. -/
def mapTextsAll (f : String → String) : List Json → List Json
  | [] => []
  | j :: rest => mapTexts f j :: mapTextsAll f rest

/-- The members with every text and every name changed. -/
def mapTextsMembers (f : String → String) : List (String × Json) → List (String × Json)
  | [] => []
  | (k, j) :: rest => (f k, mapTexts f j) :: mapTextsMembers f rest

end

mutual

/-- The value with the values of members changed, those inside others first. -/
def mapMembers (f : String → Json → Json) : Json → Json
  | .array items => .array (mapMembersAll f items)
  | .object members => .object (mapMembersOf f members)
  | j => j

/-- The values with the values of their members changed. -/
def mapMembersAll (f : String → Json → Json) : List Json → List Json
  | [] => []
  | j :: rest => mapMembers f j :: mapMembersAll f rest

/-- The members with their values changed. -/
def mapMembersOf (f : String → Json → Json) : List (String × Json) → List (String × Json)
  | [] => []
  | (k, j) :: rest => (k, f k (mapMembers f j)) :: mapMembersOf f rest

end

end Taskyard.Json
