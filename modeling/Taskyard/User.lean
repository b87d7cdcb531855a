import Taskyard.Dict
import Taskyard.Fault

/-!
# Users

Users are known by their login. A directory holds the users of an identity service.

Main definitions:

* `User` — a user with group, profile and roles.
* `Directory` — users by login, listed in the order of the logins.
-/

namespace Taskyard

/-- A user. -/
structure User where
  /-- A stable identifier. -/
  uuid : String := ""
  /-- The login. -/
  login : String
  /-- The path of the group. -/
  groupPath : String := ""
  /-- The profile. -/
  profile : String := ""
  /-- The roles. -/
  roles : List String := []
  /-- Free attributes. -/
  attributes : Dict String := Dict.empty
  deriving DecidableEq

/-- A standard user at the root of the groups. -/
def User.standard (login : String) : User where
  uuid := login
  login := login
  groupPath := "/"
  profile := "standard"

/-- The users of an identity service by login: a `MemoryUsers`. -/
structure Directory where
  /-- The users. -/
  users : Dict User

namespace Directory

/-- The directory without users. -/
def empty : Directory := ⟨Dict.empty⟩

/-- The directory with a user, in place of one with the same login. -/
def insert (d : Directory) (u : User) : Directory := ⟨d.users.insert u.login u⟩

/-- The directory of the users of a list. -/
def ofList (us : List User) : Directory := us.foldl insert empty

/-- The user with a login, if there is one. -/
def find? (d : Directory) (login : String) : Option User := d.users.get? login

/-- The user with a login. -/
def read (d : Directory) (login : String) : Except Fault User :=
  match d.find? login with
  | some u => .ok u
  | none => .error (.notFound ("user " ++ login))

/-- Every user, ordered by login. -/
def list (d : Directory) : List User := d.users.values

end Directory

end Taskyard
