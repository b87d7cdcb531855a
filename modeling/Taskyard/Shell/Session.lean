import Taskyard.Handler.Script
import Taskyard.Shell.Tools
import Taskyard.Text.Path

/-!
# Shell — sessions

The state of a program while it runs: its variables, the directory it is in, the files that it
wrote, what it has written so far, and how it ended if it has.

Main definitions:

* `Session` — the state.
* `Session.perform` — the state after a command.
-/

namespace Taskyard.Shell

/-- How a program ended. -/
inductive Ending where
  /-- With a status. -/
  | exit (status : Nat)
  /-- By a signal. -/
  | kill (signal : Nat)
  /-- Only the present round of a loop has ended, after which the loop goes on or not. -/
  | round (again : Bool)
  /-- Never: it goes on to write the same bytes. -/
  | endless (unit : List UInt8)

/-- The state of a program. -/
structure Session where
  /-- The variables. -/
  bindings : Dict String := Dict.empty
  /-- The files that were written, by their paths. -/
  files : Dict (List UInt8) := Dict.empty
  /-- The directory. -/
  directory : String := "/"
  /-- The status of the last command. -/
  status : Nat := 0
  /-- The milliseconds that have passed. -/
  millis : Nat := 0
  /-- What is left to be read. -/
  input : Source := .bytes []
  /-- What was written, whether as an error, the newest first. -/
  written : List (Bool × List UInt8) := []
  /-- How the program ended, if it has. -/
  ending : Option Ending := none

/-! ## Paths -/

/-- The directories that are always there. -/
def directories : List String :=
  ["/", "/bin", "/dev", "/etc", "/home", "/lib", "/mnt", "/opt", "/proc", "/root", "/run", "/sbin",
   "/srv", "/sys", "/tmp", "/usr", "/usr/bin", "/usr/lib", "/usr/local", "/usr/sbin", "/usr/share",
   "/var", "/var/lib", "/var/log", "/var/tmp"]

namespace Session

/-- The session with bytes written. -/
def write (s : Session) (asError : Bool) (bytes : List UInt8) : Session :=
  if bytes.isEmpty then s else { s with written := (asError, bytes) :: s.written }

/-- What is in a file, if there is one of that name. -/
def open? (s : Session) (name : String) : Option Source :=
  let path := Path.resolve s.directory name
  if path = "/dev/null" then some (.bytes [])
  else if path = "/dev/zero" then some (.endless [0])
  else if path = "/dev/stdin" then some s.input
  else (s.files.get? path).map .bytes

/-- Whether there is a file or directory of a kind. -/
def present (s : Session) (kind : Char) (name : String) : Bool :=
  let path := Path.resolve s.directory name
  let isDirectory := name ≠ "" && directories.contains path
  let isFile := name ≠ "" && (s.files.contains path || path = "/bin/sh" || path = "/etc/passwd")
  let isDevice := name ≠ "" && ["/dev/null", "/dev/zero"].contains path
  if kind = 'd' then isDirectory
  else if kind = 'f' then isFile
  else if kind = 's' then
    isDirectory || isFile && (s.files.get? path).all fun bytes => !bytes.isEmpty
  else if "erwx".toList.contains kind then isDirectory || isFile || isDevice
  else false

/-- The value of a variable. -/
def value? (s : Session) (name : String) : Option String :=
  if name = "?" then some (Text.numeral s.status)
  else if name = "$" then some "4242"
  else if name = "#" then some "0"
  else if name = "0" then some "sh"
  else s.bindings.get? name

/-- The session with a variable set. -/
def assign (s : Session) (name value : String) : Session :=
  { s with bindings := s.bindings.insert name value }

/-- The session after the result of a command. -/
def conclude (s : Session) (r : Result) : Session :=
  let s := { s.write true r.errors with status := r.status }
  match r.output with
  | .bytes data => s.write false data
  | .endless unit => { s with ending := some (.endless unit) }

/-- The session after a command that failed with a message. -/
def failing (s : Session) (status : Nat) (message : String) : Session :=
  s.conclude (.failing status message)

/-- The session after a status. -/
def withStatus (s : Session) (status : Nat) : Session := { s with status }

/-! ## Commands on files -/

/-- What stands in a file, or what is read where a dash is named; otherwise the name. -/
def sourceOf (s : Session) (name : String) : Except String Source :=
  if name = "-" then .ok s.input
  else match s.open? name with
    | some source => .ok source
    | none => .error name

/-- What stands in files one after another, or what is read where no file is named; otherwise the
first name without a file. -/
def gather (s : Session) (names : List String) : Except String Source :=
  match names with
  | [] => .ok s.input
  | [name] => s.sourceOf name
  | names => (names.mapM s.sourceOf).map fun sources => .bytes (sources.flatMap Source.data)

/-- Why a name cannot be read. -/
def whyNot (s : Session) (name : String) : String :=
  if s.present 'd' name then "Is a directory" else "No such file or directory"

/-- The session after a command that reads files or what there is to be read. -/
def reading (s : Session) (command : String) (names : List String) (f : Source → Result) :
    Session :=
  match s.gather names with
  | .ok source => { s with input := .bytes [] }.conclude (f source)
  | .error name => s.failing 1 (command ++ ": " ++ name ++ ": " ++ s.whyNot name)

/-- The session after a command that reads the beginning or the end of files. -/
def readingPart (s : Session) (command : String) (names : List String) (f : Source → Result) :
    Session :=
  match s.gather names with
  | .ok source => { s with input := .bytes [] }.conclude (f source)
  | .error name =>
    s.failing 1 (command ++ ": cannot open '" ++ name ++ "' for reading: " ++ s.whyNot name)

/-! ## Commands on the session -/

/-- The numbers of signals by their names. -/
def signals : List (String × Nat) :=
  [("HUP", 1), ("INT", 2), ("QUIT", 3), ("ILL", 4), ("TRAP", 5), ("ABRT", 6), ("BUS", 7),
   ("FPE", 8), ("KILL", 9), ("USR1", 10), ("SEGV", 11), ("USR2", 12), ("PIPE", 13), ("ALRM", 14),
   ("TERM", 15), ("CHLD", 17), ("CONT", 18), ("STOP", 19), ("URG", 23), ("XCPU", 24), ("XFSZ", 25),
   ("VTALRM", 26), ("PROF", 27), ("WINCH", 28), ("IO", 29), ("PWR", 30), ("SYS", 31)]

/-- The number of a signal given by its number or its name. -/
def signalOf? (s : String) : Option Nat :=
  match Text.numeralBelow? 65 s with
  | some n => some n
  | none => signals.lookup (if s.startsWith "SIG" then String.ofList (s.toList.drop 3) else s)

/-- The session after a signal was sent to it. Some signals have no effect, and some stop it for
good. -/
def signal (s : Session) (n : Nat) : Session :=
  if [0, 17, 18, 23, 28].contains n then s.withStatus 0
  else if [19, 20, 21, 22].contains n then { s with ending := some (.endless []) }
  else { s with ending := some (.kill n) }

/-- The session after signals were sent. -/
def kill (s : Session) (args : List String) : Session :=
  let (name, pids) := match args with
    | "-s" :: name :: rest => (name, rest)
    | a :: rest =>
      match a.toList with
      | '-' :: cs => (String.ofList cs, rest)
      | _ => ("TERM", a :: rest)
    | [] => ("TERM", [])
  match signalOf? name, pids with
  | none, _ => s.failing 2 ("sh: 1: kill: Illegal option -" ++ name)
  | some _, [] =>
    s.failing 2 "sh: 1: kill: Usage: kill [-s sigspec | -signum | -sigspec] [pid | job]..."
  | some n, pid :: _ =>
    if pid = "4242" then s.signal n else s.failing 1 "sh: 1: kill: No such process"

/-- The milliseconds of a duration in seconds, if it is one. -/
def duration? (arg : String) : Option Nat :=
  let (whole, rest) := leadingNumber arg.toList
  match rest with
  | [] => some (whole * 1000)
  | ['s'] => some (whole * 1000)
  | ['m'] => some (whole * 60000)
  | '.' :: ds => (Text.digitsValue? 0 ((ds ++ ['0', '0', '0']).take 3)).map (whole * 1000 + ·)
  | _ => none

/-- The session after waiting. -/
def sleep (s : Session) (args : List String) : Session :=
  match args.mapM duration? with
  | some (d :: ds) => { s with millis := ds.foldl (· + ·) (s.millis + d) }.withStatus 0
  | some [] => s.failing 1 "sleep: missing operand"
  | none => s.failing 1 ("sleep: invalid time interval '" ++ args.head?.getD "" ++ "'")

/-- The session after its end was asked for. -/
def exit (s : Session) : List String → Session
  | [] => { s with ending := some (.exit s.status) }
  | arg :: _ =>
    match Text.numeralBelow? (UInt32.size / 2) arg with
    | some n => { s with ending := some (.exit (n % 256)) }
    | none =>
      { s.failing 2 ("sh: 1: exit: Illegal number: " ++ arg) with ending := some (.exit 2) }

/-- The session in another directory. -/
def enter (s : Session) (args : List String) : Session :=
  let name := args.head?.getD ((s.value? "HOME").getD "/")
  let path := Path.resolve s.directory name
  if directories.contains path then { s with directory := path }.withStatus 0
  else s.failing 2 ("sh: 1: cd: can't cd to " ++ name)

/-- The session with variables exported: those that are given a value get it. -/
def exporting (s : Session) (args : List String) : Session :=
  (args.foldl (fun s a =>
    match Text.splitOnce '=' a with
    | some (name, value) => s.assign name value
    | none => s) s).withStatus 0

/-- The session after a line was read into variables. -/
def readLine (s : Session) (names : List String) : Session :=
  let data := s.input.data
  match lines data with
  | [] => names.foldl (fun s name => s.assign name "") (s.withStatus 1)
  | line :: rest =>
    let text := Text.decodeLossy (chomp line)
    let words := (text.split fun c => c = ' ' || c = '\t').toList.map (·.toString)
      |>.filter (· ≠ "")
    let s := { s with input := .bytes rest.flatten }
    let rec give : List String → List String → Session → Session
      | [], _, s => s
      | [name], words, s => s.assign name (Text.joinWith " " words)
      | name :: more, words, s => give more (words.drop 1) (s.assign name (words.head?.getD ""))
    (give names words s).withStatus (if line.getLast? = some lineFeed then 0 else 1)

/-- The text of the variables, a line for each. -/
def environment (s : Session) : String :=
  String.join (s.bindings.entries.map fun (k, v) => k ++ "=" ++ v ++ "\n")

/-- The name of a command without the directory that it is in. -/
def bareName (name : String) : String :=
  match name.toList with
  | '/' :: _ =>
    if ["/bin", "/usr/bin"].contains (Path.parent name) then
      ((Text.splitChar '/' name).getLast?).getD name
    else name
  | _ => name

/-- The session after a command with arguments. -/
def perform (s : Session) (name : String) (args : List String) : Session :=
  match bareName name with
  | ":" | "true" | "wait" | "set" | "shift" | "trap" | "umask" | "exec" =>
    s.withStatus 0
  | "false" => s.withStatus 1
  | "exit" | "return" => s.exit args
  | "break" => { s.withStatus 0 with ending := some (.round false) }
  | "continue" => { s.withStatus 0 with ending := some (.round true) }
  | "echo" => s.conclude (echo args)
  | "printf" => s.conclude (printf args)
  | "kill" => s.kill args
  | "sleep" => s.sleep args
  | "cd" => s.enter args
  | "pwd" => s.conclude (.saying (s.directory ++ "\n"))
  | "export" => s.exporting args
  | "unset" => { s.withStatus 0 with bindings := args.foldl Dict.erase s.bindings }
  | "read" => s.readLine (args.filter (· ≠ "-r"))
  | "test" => s.withStatus (if condition s.present args then 0 else 1)
  | "[" =>
    if args.getLast? = some "]" then
      s.withStatus (if condition s.present args.dropLast then 0 else 1)
    else s.failing 2 "sh: 1: [: missing ]"
  | "env" => s.conclude (.saying s.environment)
  | "printenv" =>
    match (args.head?.bind s.bindings.get?) with
    | some v => s.conclude (.saying (v ++ "\n"))
    | none => s.withStatus 1
  | "cat" => s.reading name args fun source => { output := source }
  | "head" => let ((bytes, n), names) := amount args; s.readingPart name names (head bytes n)
  | "tail" => let ((bytes, n), names) := amount args; s.readingPart name names (tail bytes n)
  | "tr" => s.reading name [] (translate args)
  | "sed" => s.reading name [] (substitute args)
  | "wc" => s.reading name [] (count args)
  | "grep" => s.reading name [] (search args)
  | "sort" =>
    let (options, names) := args.partition fun a => a.startsWith "-" && a ≠ "-"
    s.reading name names (sorted (options.flatMap fun o => o.toList.drop 1))
  | "cut" => s.reading name [] (cut args)
  | "seq" => s.conclude (sequence args)
  | "yes" =>
    let line := if args.isEmpty then "y" else Text.joinWith " " args
    s.conclude { output := .endless (say (line ++ "\n")) }
  | "basename" =>
    s.conclude (.saying (((Text.splitChar '/' (args.head?.getD "")).getLast?.getD "") ++ "\n"))
  | "ls" => s.failing 2 ("ls: cannot access '" ++ args.getLast?.getD "." ++
      "': No such file or directory")
  | _ => s.failing 127 ("sh: 1: " ++ name ++ ": not found")

end Session

end Taskyard.Shell
