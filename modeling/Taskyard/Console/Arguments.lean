import Taskyard.Text.Numeral
import Taskyard.Text.Split

/-!
# Console — arguments

What is asked for on the command line. Flags start with dashes, a single one before a letter and two
before a word; flags that take a value have it in the same argument or in the next one. Other
arguments are operands, and the first operands name the command. A flag may be given once for each
part of the command; of the configurations given, the last part decides.

Main definitions:

* `Request`, `Invocation` — what is asked for.
* `Invocation.read` — the arguments as an invocation.
-/

namespace Taskyard.Console

/-! ## Flags -/

/-- What the value of a flag has to be. -/
inductive Kind where
  /-- Any text. -/
  | text
  /-- A path, which is not empty. -/
  | path
  /-- A natural number of 64 bits. -/
  | number

/-- Whether a value is of a kind. -/
def Kind.admits : Kind → String → Bool
  | .text, _ => true
  | .path, s => s ≠ ""
  | .number, s => (Text.numeral64? s).isSome

/-- A flag. -/
structure Flag where
  /-- Its word. -/
  long : String
  /-- Its letter. -/
  short : Option Char := none
  /-- What its value has to be; a switch has none. -/
  kind : Option Kind := none

/-- A part of the command line with the flags and operands that it takes. -/
structure Level where
  /-- The flags. -/
  flags : List Flag
  /-- Whether it tells the version. -/
  hasVersion : Bool := false
  /-- Whether its first operand names the next part. -/
  isFork : Bool := false
  /-- What its operands have to be. -/
  operands : List Kind := []

/-- Why nothing can be done. -/
inductive Stop where
  /-- An explanation is asked for. -/
  | help
  /-- The version is asked for. -/
  | version
  /-- The arguments make no sense. -/
  | misuse
  deriving DecidableEq, Repr

/-- What was found in a part of the command line. -/
structure Found where
  /-- The flags by their words, with their values; a switch has the empty one. -/
  values : List (String × String) := []
  /-- The operands. -/
  operands : List String := []

namespace Found

/-- The value of a flag, if it was found. -/
def value? (f : Found) (long : String) : Option String := f.values.lookup long

/-- Whether a switch was found. -/
def switch (f : Found) (long : String) : Bool := (f.value? long).isSome

/-- The operand at a place. -/
def operand (f : Found) (n : Nat) : String := (f.operands[n]?).getD ""

/-- A flag with a value that it admits, unless it was found before. -/
def give (f : Found) (flag : Flag) (value : String) : Except Stop Found :=
  if f.switch flag.long || !flag.kind.all (·.admits value) then .error .misuse
  else .ok { f with values := f.values ++ [(flag.long, value)] }

/-- An operand, if there is a place for it. -/
def addOperand (f : Found) (l : Level) (s : String) : Except Stop Found :=
  match l.operands[f.operands.length]? with
  | some kind =>
    if kind.admits s then .ok { f with operands := f.operands ++ [s] } else .error .misuse
  | none => .error .misuse

end Found

/-! ## Reading -/

/-- The forms of an argument. -/
inductive Shape where
  /-- Two dashes alone: only operands follow. -/
  | dashes
  /-- The word of a flag, perhaps with a value. -/
  | long (name : String) (value : Option String)
  /-- Letters of flags. -/
  | letters (cs : List Char)
  /-- An operand. -/
  | operand
  deriving DecidableEq, Repr

/-- The form of an argument. -/
def shape (arg : String) : Shape :=
  match arg.toList with
  | ['-', '-'] => .dashes
  | '-' :: '-' :: cs =>
    match Text.breakOnce '=' cs with
    | some (name, value) => .long (String.ofList name) (some (String.ofList value))
    | none => .long (String.ofList cs) none
  | '-' :: c :: cs => .letters (c :: cs)
  | _ => .operand

/-- The flag with a word, or why there is none. -/
def Level.long (l : Level) (name : String) : Except Stop Flag :=
  if name = "help" then .error .help
  else if name = "version" && l.hasVersion then .error .version
  else match l.flags.find? (·.long == name) with
    | some flag => .ok flag
    | none => .error .misuse

/-- The flag with a letter, or why there is none. -/
def Level.short (l : Level) (c : Char) : Except Stop Flag :=
  if c = 'h' then .error .help
  else if c = 'V' && l.hasVersion then .error .version
  else match l.flags.find? (·.short == some c) with
    | some flag => .ok flag
    | none => .error .misuse

/-- What is found in letters of flags, with the flag that still lacks its value. -/
def readLetters (l : Level) : Found → List Char → Except Stop (Found × Option Flag)
  | f, [] => .ok (f, none)
  | f, c :: rest => do
    let flag ← l.short c
    match flag.kind, rest with
    | none, rest => readLetters l (← f.give flag "") rest
    | some _, [] => return (f, some flag)
    | some _, '=' :: value => return (← f.give flag (String.ofList value), none)
    | some _, value => return (← f.give flag (String.ofList value), none)

/-- What is found in the word of a flag, with the flag if it still lacks its value. -/
def readLong (l : Level) (f : Found) (name : String) (value : Option String) :
    Except Stop (Found × Option Flag) := do
  let flag ← l.long name
  match flag.kind, value with
  | none, none => return (← f.give flag "", none)
  | none, some _ => throw .misuse
  | some _, some v => return (← f.give flag v, none)
  | some _, none => return (f, some flag)

/-- What is found in the arguments of a part, and the next part with its arguments. `only` says that
only operands follow, and `waiting` is a flag whose value is next. -/
def readLevel (l : Level) : Found → Bool → Option Flag → List String →
    Except Stop (Found × Option (String × List String))
  | f, _, none, [] => .ok (f, none)
  | _, _, some _, [] => .error .misuse
  | f, only, some flag, arg :: rest =>
    match shape arg with
    | .operand => do readLevel l (← f.give flag arg) only none rest
    | _ => .error .misuse
  | f, true, none, arg :: rest => do readLevel l (← f.addOperand l arg) true none rest
  | f, false, none, arg :: rest =>
    match shape arg with
    | .dashes => readLevel l f true none rest
    | .long name value => do
      let (f, waiting) ← readLong l f name value
      readLevel l f false waiting rest
    | .letters cs => do
      let (f, waiting) ← readLetters l f cs
      readLevel l f false waiting rest
    | .operand =>
      if l.isFork then .ok (f, some (arg, rest))
      else do readLevel l (← f.addOperand l arg) false none rest

/-- What is found in the arguments of a part that names the next one. -/
def readFork (l : Level) (args : List String) : Except Stop (Found × String × List String) := do
  match ← readLevel l {} false none args with
  | (f, some (name, rest)) => return (f, name, rest)
  | (_, none) => throw .misuse

/-- What is found in the arguments of the last part. -/
def readLeaf (l : Level) (args : List String) : Except Stop Found := do
  let (f, _) ← readLevel l {} false none args
  if f.operands.length = l.operands.length then return f else throw .misuse

/-! ## Requests -/

/-- What can be asked for. -/
inductive Request where
  /-- To run until interrupted. -/
  | serve
  /-- To save the job of a file. -/
  | putJob (file : String)
  /-- To show a job, with its tasks in a state. -/
  | showJob (id : String) (tasks : Option String)
  /-- To list jobs. -/
  | listJobs (owner : String) (eventsOnly timersOnly : Bool)
  /-- To delete a job. -/
  | deleteJob (id : String)
  /-- To list tasks. -/
  | listTasks (job status : String)
  /-- To delete old tasks of a job. -/
  | pruneTasks (job : String) (keep : Nat) (statuses : String)
  /-- To start a job and wait for the end of its task. -/
  | trigger (job : String) (seconds : Nat)
  deriving DecidableEq, Repr

/-- What is asked for, and with which configuration. -/
structure Invocation where
  /-- The file of the configuration, if not the usual one. -/
  config : Option String
  /-- What is asked for. -/
  request : Request
  deriving DecidableEq, Repr

/-- The flags of every part. -/
def common : List Flag :=
  [{ long := "config", short := some 'c', kind := some .path },
   { long := "verbose", short := some 'v' }]

/-- The first part. -/
def top : Level := { flags := common, hasVersion := true, isFork := true }

/-- A part that only names the next one. -/
def fork : Level := { flags := common, isFork := true }

/-- A last part. -/
def leaf (flags : List Flag) (operands : List Kind) : Level :=
  { flags := common ++ flags, operands }

/-- A flag with a value of a kind. -/
def valued (long : String) (kind : Kind) : Flag := { long, kind := some kind }

/-- A natural number that was admitted. -/
def numberOr (default : Nat) (s : Option String) : Nat := (s.bind Text.numeral64?).getD default

/-- The last part of a command: its form, and the request that it makes. -/
def lastPart (noun verb : String) : Option (Level × (Found → Request)) :=
  match noun, verb with
  | "jobs", "put" => some (leaf [] [.path], fun f => .putJob (f.operand 0))
  | "jobs", "get" =>
    some (leaf [valued "tasks" .text] [.text], fun f => .showJob (f.operand 0) (f.value? "tasks"))
  | "jobs", "list" =>
    some (leaf [valued "owner" .text, { long := "events-only" }, { long := "timers-only" }] [],
      fun f => .listJobs ((f.value? "owner").getD "") (f.switch "events-only")
        (f.switch "timers-only"))
  | "jobs", "delete" => some (leaf [] [.text], fun f => .deleteJob (f.operand 0))
  | "tasks", "list" =>
    some (leaf [valued "job" .text, valued "status" .text] [],
      fun f => .listTasks ((f.value? "job").getD "") ((f.value? "status").getD "any"))
  | "tasks", "prune" =>
    some (leaf [valued "keep" .number, valued "statuses" .text] [.text],
      fun f => .pruneTasks (f.operand 0) (numberOr 20 (f.value? "keep"))
        ((f.value? "statuses").getD "finished,error,interrupted"))
  | "", "trigger" =>
    some (leaf [valued "wait-secs" .number] [.text],
      fun f => .trigger (f.operand 0) (numberOr 60 (f.value? "wait-secs")))
  | "", "serve" => some (leaf [] [], fun _ => .serve)
  | _, _ => none

/-- Whether the words name a command or the beginning of one. -/
def isCommand : List String → Bool
  | [] => true
  | [word] => ["jobs", "tasks", "help"].contains word || (lastPart "" word).isSome
  | [noun, verb] => verb = "help" || (lastPart noun verb).isSome
  | _ => false

/-- The invocation of the last part, after the parts before it. -/
def Invocation.ofLeaf (before : List Found) (noun verb : String) (args : List String) :
    Except Stop Invocation :=
  match lastPart noun verb with
  | none => .error .misuse
  | some (level, request) => do
    let f ← readLeaf level args
    return { config := (f :: before).findSome? (·.value? "config"), request := request f }

/-- The arguments as an invocation. -/
def Invocation.read (args : List String) : Except Stop Invocation := do
  let (f, name, rest) ← readFork top args
  if name = "help" then throw (if isCommand rest then .help else .misuse)
  else if name = "jobs" || name = "tasks" then
    let (f', verb, rest') ← readFork fork rest
    if verb = "help" then throw (if isCommand (name :: rest') then .help else .misuse)
    else ofLeaf [f', f] name verb rest'
  else ofLeaf [f] "" name rest

end Taskyard.Console
