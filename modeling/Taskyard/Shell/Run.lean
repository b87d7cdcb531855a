import Taskyard.Shell.Arithmetic
import Taskyard.Shell.Parser
import Taskyard.Shell.Session

/-!
# Shell — running of programs

Main definitions:

* `Session.run` — the session after a phrase.
* `execute` — the result of a command of an action.
-/

namespace Taskyard.Shell

/-! ## Fields -/

/-- The words that come of one word, as far as they are known. -/
structure Fields where
  /-- Those that are complete. -/
  done : List String := []
  /-- The one that may still grow. -/
  current : Option String := none

namespace Fields

/-- More characters for the present word. -/
def add (f : Fields) (s : String) : Fields := { f with current := some (f.current.getD "" ++ s) }

/-- The end of the present word. -/
def finish (f : Fields) : Fields :=
  match f.current with
  | none => f
  | some c => { done := f.done ++ [c] }

/-- Characters among which blanks end words. -/
def split (f : Fields) : List Char → Fields
  | [] => f
  | c :: rest =>
    if c = ' ' || c = '\t' || c = '\n' then split f.finish rest
    else split (f.add (String.singleton c)) rest

/-- A value that falls apart at blanks unless it is quoted. -/
def put (f : Fields) (quoted : Bool) (s : String) : Fields :=
  if quoted then f.add s else f.split s.toList

end Fields

/-- Whether the part is what a program writes. -/
def Part.isProgram : Part → Bool
  | .output _ _ => true
  | _ => false

/-- What is written about a program that a signal has ended. -/
def obituary (signal : Nat) : String :=
  if signal = 9 then "Killed\n"
  else if signal = 15 then "Terminated\n"
  else if signal = 1 then "Hangup\n"
  else ""

/-! ## Streams -/

/-- Where a stream of a phrase goes. -/
inductive Sink where
  /-- To the output of the session. -/
  | output
  /-- To its errors. -/
  | errors
  /-- Into a file. -/
  | file (path : String)
  /-- Nowhere. -/
  | nowhere

/-- The streams of a phrase. -/
structure Streams where
  /-- What is read. -/
  input : Source
  /-- Where the output goes. -/
  output : Sink := .output
  /-- Where the errors go. -/
  errors : Sink := .errors

/-- The streams with one of the outputs somewhere else. -/
def Streams.lead (st : Streams) (c : Channel) (sink : Sink) : Streams :=
  match c with
  | .input => st
  | .output => { st with output := sink }
  | .errors => { st with errors := sink }

/-- The place of an output. -/
def Streams.sink (st : Streams) : Channel → Sink
  | .errors => st.errors
  | _ => st.output

namespace Session

/-- The session with bytes at their place. -/
def deliver (s : Session) (sink : Sink) (bytes : List UInt8) : Session :=
  match sink with
  | .output => s.write false bytes
  | .errors => s.write true bytes
  | .file path =>
    { s with files := s.files.insert path ((s.files.get? path).getD [] ++ bytes) }
  | .nowhere => s

/-- The session and the streams after a file was opened for writing, or why that fails. -/
def create (s : Session) (st : Streams) (c : Channel) (append : Bool) (name : String) :
    Except String (Session × Streams) :=
  let path := Path.resolve s.directory name
  if path = "/dev/null" then .ok (s, st.lead c .nowhere)
  else if path = "/dev/stdout" then .ok (s, st.lead c st.output)
  else if path = "/dev/stderr" then .ok (s, st.lead c st.errors)
  else if directories.contains path then
    .error ("sh: 1: cannot create " ++ name ++ ": Is a directory")
  else if directories.contains (Path.parent path) then
    let kept := if append then (s.files.get? path).getD [] else []
    .ok ({ s with files := s.files.insert path kept }, st.lead c (.file path))
  else .error ("sh: 1: cannot create " ++ name ++ ": Directory nonexistent")

/-- What a session has written without errors. -/
def outputBytes (s : Session) : List UInt8 :=
  (s.written.reverse.filterMap fun (asError, bytes) => if asError then none else some bytes).flatten

/-- What a session has written about errors. -/
def errorBytes (s : Session) : List UInt8 :=
  (s.written.reverse.filterMap fun (asError, bytes) => if asError then some bytes else none).flatten

/-- What the next stage of a pipe reads. -/
def source (s : Session) : Source :=
  match s.ending with
  | some (.endless unit) => if s.outputBytes.isEmpty then .endless unit else .bytes s.outputBytes
  | _ => .bytes s.outputBytes

/-- The session after an inner one whose variables are forgotten. Its output is kept or not. -/
def leave (s inner : Session) (keepOutput : Bool) : Session :=
  let written := inner.written.filter fun (asError, _) => asError || keepOutput
  let status := match inner.ending with
    | some (.exit status) => status
    | _ => inner.status
  let ending := match inner.ending with
    | some (.kill n) => some (Ending.kill n)
    | some (.endless unit) => if keepOutput then some (.endless unit) else none
    | _ => none
  { s with
    files := inner.files, millis := inner.millis, status, ending, written := written ++ s.written }

/-- The session when nothing more is to be expected of it: it is taken to go on for ever, unless it
has ended. -/
def stuck (s : Session) : Session := { s with ending := some (s.ending.getD (.endless [])) }

/-- The session after a round of a loop, and whether another one follows. -/
def endRound (s : Session) : Session × Bool :=
  match s.ending with
  | none => (s, true)
  | some (.round again) => ({ s with ending := none }, again)
  | some _ => (s, false)

/-- The value of a variable as a whole number; what is none counts as zero. -/
def number (s : Session) (name : String) : Int :=
  match Arithmetic.evaluate (fun _ => 0) ((s.value? name).getD "") with
  | .ok i => i
  | .error _ => 0

/-! ## Phrases -/

mutual

/-- The fields of a word. The number bounds the depth and the repetitions, here and below. -/
def expand : Nat → Session → Fields → Word → Session × Fields
  | 0, s, f, _ => (s, f)
  | _ + 1, s, f, [] => (s, f)
  | n + 1, s, f, part :: rest =>
    match part with
    | .text quoted text =>
      expand n s (if quoted || text ≠ "" then f.add text else f) rest
    | .value quoted name otherwise =>
      let value := (s.value? name).getD ""
      if value = "" && !otherwise.isEmpty then
        let (s, f) := expand n s f otherwise
        expand n s f rest
      else expand n s (f.put quoted value) rest
    | .given name instead =>
      if (s.value? name).getD "" = "" then expand n s f rest
      else
        let (s, f) := expand n s f instead
        expand n s f rest
    | .size quoted name =>
      expand n s (f.put quoted (Text.numeral ((s.value? name).getD "").length)) rest
    | .trimmed quoted name trim pattern =>
      let (s, p) := expandOne n s pattern
      let value := trim.apply p.toList ((s.value? name).getD "").toList
      expand n s (f.put quoted (String.ofList value)) rest
    | .sum quoted expression =>
      let (s, text) := expandOne n s expression
      match Arithmetic.evaluate s.number text with
      | .ok i => expand n s (f.put quoted (Text.integer i)) rest
      | .error why =>
        let message := "sh: 1: arithmetic expression: " ++ why.message ++ ": \"" ++ text ++ "\""
        ({ s.failing 2 message with ending := some (.exit 2) }, f)
    | .output quoted program =>
      let inner := run n { s with written := [] } program
      let text := Text.decodeLossy inner.outputBytes
      let text := String.ofList (text.toList.reverse.dropWhile (· = '\n')).reverse
      expand n (s.leave inner false) (f.put quoted text) rest

/-- All the fields of words. -/
def expandAll : Nat → Session → List Word → Session × List String
  | 0, s, _ => (s, [])
  | _ + 1, s, [] => (s, [])
  | n + 1, s, w :: rest =>
    let (s, f) := expand n s {} w
    let (s, later) := expandAll n s rest
    (s, f.finish.done ++ later)

/-- A word as one text. -/
def expandOne : Nat → Session → Word → Session × String
  | 0, s, _ => (s, "")
  | n + 1, s, w =>
    let (s, f) := expand n s {} w
    (s, Text.joinWith " " f.finish.done)

/-- The session with variables set. -/
def setAll : Nat → Session → List (String × Word) → Session
  | 0, s, _ => s
  | _ + 1, s, [] => s
  | n + 1, s, (name, w) :: rest =>
    let (s, value) := expandOne n s w
    setAll n (s.assign name value) rest

/-- The session and the streams after redirections, or why one of them fails. -/
def redirect : Nat → Session → Streams → List Redirection →
    Except (Session × String) (Session × Streams)
  | 0, s, st, _ => .ok (s, st)
  | _ + 1, s, st, [] => .ok (s, st)
  | n + 1, s, st, r :: rest =>
    match r with
    | .same .input _ => redirect n s st rest
    | .same c other => redirect n s (st.lead c (st.sink other)) rest
    | .file .input _ w =>
      let (s, name) := expandOne n s w
      match s.open? name with
      | some input => redirect n s { st with input } rest
      | none => .error (s, "sh: 1: cannot open " ++ name ++ ": No such file")
    | .file c append w =>
      let (s, name) := expandOne n s w
      match s.create st c append name with
      | .ok (s, st) => redirect n s st rest
      | .error why => .error (s, why)

/-- The session after the first arm with a pattern that fits a text. -/
def runArms : Nat → Session → String → List (List Word × Phrase) → Session
  | 0, s, _, _ => s.stuck
  | _ + 1, s, _, [] => s.withStatus 0
  | n + 1, s, text, (patterns, body) :: rest =>
    let found := patterns.any fun w => Pattern.fits (expandOne n s w).2.toList text.toList
    if found then run n (s.withStatus 0) body else runArms n s text rest

/-- The session after stages of a pipe, of which the first reads the given source. -/
def runPipe : Nat → Session → Source → List Phrase → Session
  | 0, s, _, _ => s
  | _ + 1, s, _, [] => s
  | n + 1, s, input, p :: rest =>
    let inner := run n { s with input, written := [], millis := 0 } p
    let last := rest.isEmpty
    let after := s.leave inner last
    let after := { after with millis := max s.millis inner.millis }
    match after.ending with
    | some _ => after
    | none => if last then after else runPipe n after inner.source rest

/-- The session after a phrase. -/
def run : Nat → Session → Phrase → Session
  | 0, s, _ => s.stuck
  | n + 1, s, p =>
    if s.ending.isSome then s else
    match p with
    | .plain settings words =>
      let (s, fields) := expandAll n s words
      if s.ending.isSome then s else
      match fields with
      | [] =>
        let asked :=
          (settings.any fun (_, w) => w.any Part.isProgram) || words.any (·.any Part.isProgram)
        setAll n (if asked then s else s.withStatus 0) settings
      | "exec" :: name :: args =>
        let after := s.perform name args
        { after with ending := some (after.ending.getD (.exit after.status)) }
      | "eval" :: args =>
        match parse? (Text.joinWith " " args) with
        | some p => run n s p
        | none => s.failing 2 "sh: 1: eval: Syntax error"
      | ["sh", "-c", program] =>
        match parse? program with
        | some p =>
          let inner := run n { s with written := [] } p
          let outer := s.leave inner true
          match inner.ending with
          | some (.kill signal) =>
            { outer with ending := none, status := 128 + signal }.write true (say (obituary signal))
          | _ => outer
        | none => s.failing 2 "sh: 1: Syntax error"
      | name :: args =>
        let bindings := s.bindings
        let after := (setAll n s settings).perform name args
        if settings.isEmpty then after else { after with bindings }
    | .row [] => s
    | .row (p :: ps) => run n (run n s p) (.row ps)
    | .pipe stages =>
      let start := s.millis
      let after := runPipe n { s with millis := 0 } s.input stages
      { after with millis := start + after.millis, input := .bytes [] }
    | .negated p =>
      let s := run n s p
      s.withStatus (if s.status = 0 then 1 else 0)
    | .andThen a b =>
      let s := run n s a
      if s.status = 0 then run n s b else s
    | .orElse a b =>
      let s := run n s a
      if s.status = 0 then s else run n s b
    | .branch c yes no =>
      let s := run n s c
      run n (s.withStatus 0) (if s.status = 0 then yes else no)
    | .whilst succeeds c body =>
      let s := run n s c
      if s.ending.isSome then s
      else if (s.status == 0) == succeeds then
        let (s, again) := (run n s body).endRound
        if again then run n s (.whilst succeeds c body) else s
      else s.withStatus 0
    | .each name words body =>
      let (s, fields) := expandAll n s words
      runEach n (s.withStatus 0) name fields body
    | .choose word arms =>
      let (s, text) := expandOne n s word
      runArms n s text arms
    | .apart p => s.leave (run n { s with written := [] } p) true
    | .redirected p rs =>
      match redirect n s { input := s.input } rs with
      | .error (s, why) => s.failing 2 why
      | .ok (s, st) =>
        let inner := run n { s with input := st.input, written := [] } p
        let after := { inner with written := s.written, input := s.input }
        inner.written.reverse.foldl (fun s (asError, bytes) =>
          s.deliver (if asError then st.errors else st.output) bytes) after

/-- The session after a phrase for each of several values of a variable. -/
def runEach : Nat → Session → String → List String → Phrase → Session
  | 0, s, _, _, _ => s
  | _ + 1, s, _, [], _ => s
  | n + 1, s, name, v :: rest, body =>
    let (s, again) := (run n (s.assign name v) body).endRound
    if again then runEach n s name rest body else s

end

end Session

/-! ## Commands of actions -/

/-- The bound of the depth and the repetitions of a program. -/
def patience : Nat := 20000

/-- The milliseconds of a program that never ends. -/
def forever : Nat := UInt64.size * 1000

/-- The complaint about a text that is no program. -/
def complaint (text : String) : String :=
  let marks (c : Char) := (text.toList.count c) % 2 = 1
  if marks '"' || marks '\x27' then "sh: 1: Syntax error: Unterminated quoted string\n"
  else if text.contains ')' && !text.contains '(' then "sh: 1: Syntax error: \")\" unexpected\n"
  else "sh: 1: Syntax error: end of file unexpected\n"

/-- The result of a program in a session. -/
def resultOf (s : Session) : CommandResult :=
  match s.ending with
  | some (.kill n) => .ended (.signal n) s.millis s.outputBytes s.errorBytes
  | some (.exit status) => .ended (.status status) s.millis s.outputBytes s.errorBytes
  | some (.endless _) => .ended (.status 0) forever s.outputBytes s.errorBytes
  | some (.round _) | none => .ended (.status s.status) s.millis s.outputBytes s.errorBytes

/-- The result of a command. -/
def execute (c : Command) : CommandResult :=
  let texts := c.text :: c.workdir.toList ++ c.bindings.map (·.2)
  if texts.any (·.contains '\x00') then .unstarted "nul byte found in provided data"
  else
    let directory := Path.resolve "/tmp" (c.workdir.getD ".")
    let start : Session := { directory, bindings := Dict.ofList c.bindings }
    if c.workdir = some "" || !start.present 'e' directory then
      .unstarted "No such file or directory (os error 2)"
    else if !start.present 'd' directory then .unstarted "Not a directory (os error 20)"
    else
      match parse? c.text with
      | some p => resultOf (start.run patience p)
      | none => .ended (.status 2) 0 [] (say (complaint c.text))

end Taskyard.Shell
