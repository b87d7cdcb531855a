import Taskyard.Selector

/-!
# Jobs — actions

An action is one step of a job: the identifier of what is done, parameters, filters for what it is
given, selectors for what it is run on, and the actions that are run on its result.

Main definitions:

* `Action` — the step, a tree through its chained actions.
* `Action.applyFilters` — what the filters leave of a message.
* `Action.expand` — the messages that an action is run on.
-/

namespace Taskyard

/-- A step of a job. -/
structure Action where
  /-- The identifier of what is done. -/
  id : String
  /-- A label. -/
  label : String := ""
  /-- The parameters. -/
  parameters : Dict String := Dict.empty
  /-- The nodes that the action is run on. -/
  nodesSelector : Option (Selector NodeTest) := none
  /-- The users that the action is run on. -/
  usersSelector : Option (Selector UserTest) := none
  /-- The nodes that are kept. -/
  nodesFilter : Option (Query NodeTest) := none
  /-- The users that are kept. -/
  usersFilter : Option (Query UserTest) := none
  /-- The sources that are let through. -/
  sourceFilter : Option (Query SourceTest) := none
  /-- The actions that are run on the result. -/
  chained : List Action := []

namespace Message

/-- The message with the nodes that a query accepts, and whether it had none or has some left:
`filter` of a `NodesFilter`. -/
def filterNodes (q : Query NodeTest) (m : Message) : Message × Bool :=
  let kept := m.nodes.filter q.acceptsNode
  ({ m with nodes := kept }, m.nodes.isEmpty || !kept.isEmpty)

/-- The message with the users that a query accepts, and whether it had none or has some left:
`filter` of a `UsersFilter`. -/
def filterUsers (q : Query UserTest) (m : Message) : Message × Bool :=
  let kept := m.users.filter q.acceptsUser
  ({ m with users := kept }, m.users.isEmpty || !kept.isEmpty)

/-- The message as it is if a query accepts its source, and without nodes and users otherwise:
`filter` of a `SourceFilter`. -/
def filterSource (q : Query SourceTest) (m : Message) : Message × Bool :=
  if q.acceptsSource m.source then (m, true)
  else ({ m with nodes := [], users := [] }, false)

end Message

namespace Action

/-- The value of a parameter. -/
def param (a : Action) (key : String) : Option String := a.parameters.get? key

/-- The action with a parameter. -/
def withParam (a : Action) (key value : String) : Action :=
  { a with parameters := a.parameters.insert key value }

/-- The action with one more chained action. -/
def chain (a next : Action) : Action := { a with chained := a.chained ++ [next] }

/-- Whether the action selects what it is run on. -/
def hasSelectors (a : Action) : Bool := a.nodesSelector.isSome || a.usersSelector.isSome

/-- The action without its chained actions, as it is kept in logs: `without_chain`. -/
def withoutChain (a : Action) : Action := { a with chained := [] }

/-- What the filters leave of a message, or nothing when its source is not let through:
`apply_filters`. -/
def applyFilters (a : Action) (m : Message) : Option Message :=
  let m := match a.nodesFilter with
    | some q => (m.filterNodes q).1
    | none => m
  let m := match a.usersFilter with
    | some q => (m.filterUsers q).1
    | none => m
  match a.sourceFilter with
  | none => some m
  | some q =>
    let (filtered, passed) := m.filterSource q
    if !passed && filtered.isEmpty then none else some filtered

/-- The selected nodes that the filter of the action keeps: `prune_nodes`. -/
def pruneNodes (a : Action) (nodes : List Node) : List Node :=
  match a.nodesFilter with
  | some q => nodes.filter q.acceptsNode
  | none => nodes

/-- The selected users that the filter of the action keeps: `prune_users`. -/
def pruneUsers (a : Action) (users : List User) : List User :=
  match a.usersFilter with
  | some q => users.filter q.acceptsUser
  | none => users

/-- One message with all the objects, unless there are none, or one message for each of them: what
`expand` does with a `Selection`. -/
def spread {α : Type} (collect : Bool) (objects : List α) (give : List α → Message) :
    List Message :=
  if collect then (if objects.isEmpty then [] else [give objects])
  else objects.map fun o => give [o]

/-- The messages for the nodes that the action selects, from one message. -/
def spreadNodes (a : Action) (b : Backend) (buffer : Nat) (m : Message) :
    Except Fault (List Message) :=
  match a.nodesSelector with
  | none => .ok [m]
  | some s =>
    (selectNodes b s).map fun nodes =>
      spread s.collect (a.pruneNodes (drain buffer nodes)) m.withNodes

/-- The messages for the users that the action selects, from one message. -/
def spreadUsers (a : Action) (b : Backend) (buffer : Nat) (m : Message) :
    Except Fault (List Message) :=
  match a.usersSelector with
  | none => .ok [m]
  | some s =>
    (selectUsers b s).map fun users =>
      spread s.collect (a.pruneUsers (drain buffer users)) m.withUsers

/-- The messages that the action is run on when it is given a message, as `expand` has them: the
filters first, then the selected nodes, and for each of the messages so far the selected users. -/
def expand (a : Action) (b : Backend) (buffer : Nat) (m : Message) :
    Except Fault (List Message) :=
  match a.applyFilters m with
  | none => .ok []
  | some m => do
    let perNodes ← a.spreadNodes b buffer m
    let perUsers ← perNodes.mapM (a.spreadUsers b buffer)
    return perUsers.flatten

end Action

end Taskyard
