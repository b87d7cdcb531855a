import Taskyard.Dict
import Taskyard.Shell.Source
import Taskyard.Text.Numeral
import Taskyard.Text.Split

/-!
# Shell — commands that only read and write

Main definitions:

* `echo`, `printf` — write their arguments.
* `head`, `tail`, `translate`, `substitute`, `count`, `sequence`, `search` — write part or a change
  of what they read.
* `condition` — tells by its status whether something holds.
-/

namespace Taskyard.Shell

/-! ## Escapes -/

/-- The value of up to so many octal digits, and what follows them. -/
def octal : Nat → Nat → List Char → Nat × List Char
  | 0, acc, cs => (acc, cs)
  | _ + 1, acc, [] => (acc, [])
  | n + 1, acc, c :: rest =>
    match (Text.digit? c).filter (· < 8) with
    | some d => octal n (acc * 8 + d) rest
    | none => (acc, c :: rest)

/-- The character of a one-letter escape. -/
def letterEscape (c : Char) : Option UInt8 :=
  [('a', 7), ('b', 8), ('t', 9), ('n', 10), ('v', 11), ('f', 12), ('r', 13), ('\\', 92)].lookup c

/-- The bytes of characters with escapes, up to the escape that ends everything. With `zero` three
octal digits may follow that digit. The number bounds the characters. -/
def unescape (zero : Bool) : Nat → List Char → List UInt8 × Bool
  | 0, _ => ([], false)
  | _ + 1, [] => ([], false)
  | n + 1, '\\' :: c :: rest =>
    let more (bytes : List UInt8) (r : List UInt8 × Bool) := (bytes ++ r.1, r.2)
    if c = 'c' then ([], true)
    else match letterEscape c with
      | some b => more [b] (unescape zero n rest)
      | none =>
        if zero && c = '0' then
          let (v, after) := octal 3 0 rest
          more [UInt8.ofNat v] (unescape zero n after)
        else if ((Text.digit? c).filter (· < 8)).isSome then
          let (v, after) := octal 3 0 (c :: rest)
          more [UInt8.ofNat v] (unescape zero n after)
        else more (say (String.ofList ['\\', c])) (unescape zero n rest)
  | n + 1, c :: rest =>
    let (bytes, ended) := unescape zero n rest
    (say (String.singleton c) ++ bytes, ended)

/-! ## Writing of arguments -/

/-- The arguments with blanks between them and a line feed at the end, unless the first of them asks
for none. -/
def echo (args : List String) : Result :=
  let (feed, args) := match args with
    | "-n" :: rest => (false, rest)
    | args => (true, args)
  let cs := (Text.joinWith " " args).toList
  let (bytes, ended) := unescape true (cs.length + 1) cs
  { output := .bytes (bytes ++ if feed && !ended then [lineFeed] else []) }

/-- A field of a format: where it stands in its column, the width, and the places. -/
structure Field where
  /-- At the left. -/
  left : Bool := false
  /-- Filled with zeros. -/
  zeros : Bool := false
  /-- The least width. -/
  width : Nat := 0
  /-- The places. -/
  places : Option Nat := none

/-- The leading decimal number, and what follows it. -/
def leadingNumber (cs : List Char) : Nat × List Char :=
  let ds := cs.takeWhile Char.isDigit
  ((Text.digitsValue? 0 ds).getD 0, cs.drop ds.length)

/-- The field of a format after its percent sign, and what follows it. -/
def readField (cs : List Char) : Field × List Char :=
  let flags := cs.takeWhile fun c => "-0+ #".toList.contains c
  let (width, rest) := leadingNumber (cs.drop flags.length)
  let (places, rest) := match rest with
    | '.' :: more => let (p, after) := leadingNumber more; (some p, after)
    | rest => (none, rest)
  ({ left := flags.contains '-', zeros := flags.contains '0', width, places }, rest)

/-- Bytes in a field. -/
def Field.fill (f : Field) (zeros : Bool) (bytes : List UInt8) : List UInt8 :=
  let gap := f.width - bytes.length
  if f.left then bytes ++ List.replicate gap 32
  else List.replicate gap (if zeros then 48 else 32) ++ bytes

/-- The value of an argument that is a number. -/
def numberOf (s : String) : Int :=
  match s.toList with
  | '-' :: rest => -((leadingNumber rest).1 : Int)
  | '+' :: rest => ((leadingNumber rest).1 : Int)
  | cs => ((leadingNumber cs).1 : Int)

/-- One argument as a directive wants it. -/
def Field.print (f : Field) (directive : Char) (arg : String) : List UInt8 :=
  let number (digits : List Char) := f.fill f.zeros (say (String.ofList digits))
  if directive = 's' then
    let bytes := say arg
    f.fill false ((f.places.map fun p => bytes.take p).getD bytes)
  else if directive = 'b' then f.fill false (unescape true (arg.length + 1) arg.toList).1
  else if directive = 'c' then f.fill false ((say arg).take 1)
  else if directive = 'd' || directive = 'i' then number (Text.integer (numberOf arg)).toList
  else if directive = 'u' then number (Nat.toDigits 10 (numberOf arg).toNat)
  else if directive = 'x' then number (Nat.toDigits 16 (numberOf arg).toNat)
  else if directive = 'o' then number (Nat.toDigits 8 (numberOf arg).toNat)
  else []

/-- A format with arguments put in, and the arguments that remain. The number bounds the
characters. -/
def formatOnce : Nat → List Char → List String → List UInt8 × List String
  | 0, _, args => ([], args)
  | _ + 1, [], args => ([], args)
  | n + 1, '%' :: '%' :: rest, args =>
    let (bytes, left) := formatOnce n rest args
    (37 :: bytes, left)
  | n + 1, '%' :: rest, args =>
    let (f, rest) := readField rest
    match rest with
    | d :: rest =>
      let (bytes, left) := formatOnce n rest (args.drop 1)
      (f.print d (args.head?.getD "") ++ bytes, left)
    | [] => ([], args)
  | n + 1, c :: rest, args =>
    let plain := (c :: rest).takeWhile (· ≠ '%')
    let (bytes, left) := formatOnce n ((c :: rest).drop plain.length) args
    ((unescape false (plain.length + 1) plain).1 ++ bytes, left)

/-- A format over and over until no argument remains. The number bounds the rounds. -/
def formatAll (cs : List Char) : Nat → List String → List UInt8
  | 0, _ => []
  | n + 1, args =>
    let (bytes, left) := formatOnce (cs.length + 1) cs args
    if left.isEmpty || left.length = args.length then bytes else bytes ++ formatAll cs n left

/-- The arguments as a format wants them. -/
def printf : List String → Result
  | [] => .failing 2 "sh: 1: printf: usage: printf format [arg ...]"
  | format :: args => { output := .bytes (formatAll format.toList (args.length + 1) args) }

/-! ## Parts of what is read -/

/-- An amount asked for by an option, in bytes or lines, and the arguments after it. -/
def amount : List String → (Bool × Nat) × List String
  | "-c" :: n :: rest => ((true, (numberOf n).natAbs), rest)
  | "-n" :: n :: rest => ((false, (numberOf n).natAbs), rest)
  | a :: rest =>
    match a.toList with
    | '-' :: 'c' :: ds => ((true, (leadingNumber ds).1), rest)
    | '-' :: 'n' :: ds => ((false, (leadingNumber ds).1), rest)
    | '-' :: d :: ds => if d.isDigit then ((false, (leadingNumber (d :: ds)).1), rest)
      else ((false, 10), a :: rest)
    | _ => ((false, 10), a :: rest)
  | [] => ((false, 10), [])

/-- The beginning of what is read. -/
def head (bytes : Bool) (n : Nat) (s : Source) : Result :=
  { output := .bytes (if bytes then s.take n else ((lines s.data).take n).flatten) }

/-- The end of what is read. -/
def tail (bytes : Bool) (n : Nat) (s : Source) : Result :=
  { output := .bytes (if bytes then lastOf n s.data else (lastOf n (lines s.data)).flatten) }

/-- The bytes of a set of characters: single ones, and ranges with a dash between their ends. The
number bounds them. -/
def members : Nat → List UInt8 → List UInt8
  | 0, _ => []
  | n + 1, a :: 45 :: b :: rest =>
    (List.range (b.toNat + 1 - a.toNat)).map (fun i => UInt8.ofNat (a.toNat + i)) ++ members n rest
  | n + 1, a :: rest => a :: members n rest
  | _ + 1, [] => []

/-- The sets of characters that have a name, written as ranges. -/
def classes : List (String × String) :=
  [("[:digit:]", "0-9"), ("[:lower:]", "a-z"), ("[:upper:]", "A-Z"), ("[:alpha:]", "A-Za-z"),
   ("[:alnum:]", "0-9A-Za-z"), ("[:space:]", "\t-\r "), ("[:blank:]", "\t ")]

/-- The bytes that an argument lists. -/
def setOf (arg : String) : List UInt8 :=
  let arg := (classes.lookup arg).getD arg
  let bytes := (unescape false (arg.length + 1) arg.toList).1
  members bytes.length bytes

/-- Bytes of which neighbours that are equal and in a set stand for one. -/
def squeeze (set : List UInt8) : List UInt8 → List UInt8
  | [] => []
  | b :: rest =>
    match squeeze set rest with
    | [] => [b]
    | c :: after => if b = c && set.contains b then c :: after else b :: c :: after

/-- A byte in the place of another one; the last of the new ones stands for all that have none. -/
def swap (old new : List UInt8) (b : UInt8) : UInt8 :=
  match old.idxOf? b with
  | some i => (new[i]?).getD (new.getLast?.getD b)
  | none => b

/-- What is read with other bytes in the place of some, or without them. -/
def translate (args : List String) (s : Source) : Result :=
  let change (f : List UInt8 → List UInt8) : Result :=
    { output := match s with
        | .bytes data => .bytes (f data)
        | .endless unit => .endless (f unit) }
  match args with
  | ["-d", set] => let set := setOf set; change (·.filter fun b => !set.contains b)
  | ["-cd", set] => let set := setOf set; change (·.filter set.contains)
  | ["-s", set] => change (squeeze (setOf set))
  | [old, new] => let (old, new) := (setOf old, setOf new); change (·.map (swap old new))
  | _ => .failing 1 "tr: missing operand"

/-- The bytes of a pattern or a replacement, in which codes may be written in base sixteen. The
number bounds them. -/
def literal : Nat → List Char → List UInt8
  | 0, _ => []
  | _ + 1, [] => []
  | n + 1, '\\' :: 'x' :: a :: b :: rest =>
    match Text.hexDigit? a, Text.hexDigit? b with
    | some h, some l => UInt8.ofNat (h * 16 + l) :: literal n rest
    | _, _ => literal n (a :: b :: rest)
  | n + 1, '\\' :: 'n' :: rest => lineFeed :: literal n rest
  | n + 1, '\\' :: 't' :: rest => 9 :: literal n rest
  | n + 1, '\\' :: c :: rest => say (String.singleton c) ++ literal n rest
  | n + 1, c :: rest => say (String.singleton c) ++ literal n rest

/-- The parts of a command between marks. -/
def between (mark : Char) (cs : List Char) : List (List Char) := Text.pieces mark cs

/-- What remains after the given bytes, if they stand at the beginning. -/
def after? : List UInt8 → List UInt8 → Option (List UInt8)
  | [], bs => some bs
  | _ :: _, [] => none
  | a :: as, b :: bs => if a = b then after? as bs else none

/-- Bytes with others in the place of some, the first time or always. The number bounds them. -/
def replaceBytes (old new : List UInt8) (always : Bool) : Nat → List UInt8 → List UInt8
  | 0, bs => bs
  | _ + 1, [] => []
  | n + 1, b :: bs =>
    match after? old (b :: bs) with
    | some rest => new ++ if always then replaceBytes old new always n rest else rest
    | none => b :: replaceBytes old new always n bs

/-- The lines read with one text in the place of another. -/
def substitute (args : List String) (s : Source) : Result :=
  match args with
  | [command] =>
    match command.toList with
    | 's' :: mark :: rest =>
      match between mark rest with
      | [old, new, flags] =>
        let old := literal (old.length + 1) old
        let new := literal (new.length + 1) new
        let change (line : List UInt8) :=
          if old.isEmpty then line else replaceBytes old new (flags.contains 'g') line.length line
        { output := .bytes ((lines s.data).flatMap change) }
      | _ => .failing 1 "sed: -e expression #1, char 1: unterminated \x60s' command"
    | _ => .failing 1 "sed: -e expression #1, char 1: unknown command"
  | _ => .failing 1 "sed: no script specified"

/-- The number of lines, words or bytes read. -/
def count (args : List String) (s : Source) : Result :=
  let data := s.data
  let words := (data.splitBy fun a b => decide (a > 32) == decide (b > 32)).filter fun w =>
    w.any (· > 32)
  let column (n : Nat) :=
    List.replicate (7 - (Text.numeral n).length) ' ' ++ (Text.numeral n).toList
  let columns (ns : List Nat) := String.ofList ((ns.map column).intersperse [' ']).flatten
  match args with
  | [] => .saying (columns [data.count lineFeed, words.length, data.length] ++ "\n")
  | ["-l"] => .saying (Text.numeral (data.count lineFeed) ++ "\n")
  | ["-w"] => .saying (Text.numeral words.length ++ "\n")
  | ["-c"] => .saying (Text.numeral data.length ++ "\n")
  | ["-m"] => .saying (Text.numeral (Text.decodeLossy data).length ++ "\n")
  | _ => .failing 1 "wc: invalid option"

/-- The numbers from the first to the last, a line for each. -/
def sequence (args : List String) : Result :=
  let run (first last : Int) : Result :=
    .saying (String.join ((List.range (last + 1 - first).toNat).map fun (i : Nat) =>
      Text.integer (first + i) ++ "\n"))
  match args with
  | [last] => run 1 (numberOf last)
  | [first, last] => run (numberOf first) (numberOf last)
  | _ => .failing 1 "seq: missing operand"

/-- Whether bytes stand somewhere in others. -/
def occurs (old : List UInt8) : List UInt8 → Bool
  | [] => old.isEmpty
  | b :: bs => (after? old (b :: bs)).isSome || occurs old bs

/-- Whether a line holds a pattern: a text, perhaps at the beginning or at the end only. -/
def holds (pattern : String) (line : List UInt8) : Bool :=
  let line := chomp line
  let (front, cs) := match pattern.toList with
    | '^' :: rest => (true, rest)
    | cs => (false, cs)
  let back := cs.getLast? == some '$'
  let old := literal (cs.length + 1) (if back then cs.dropLast else cs)
  if front && back then line == old
  else if front then (after? old line).isSome
  else if back then (after? old.reverse line.reverse).isSome
  else occurs old line

/-- The lines that hold a pattern. -/
def search (args : List String) (s : Source) : Result :=
  let options := (args.takeWhile fun a => a.startsWith "-" && a ≠ "-").map fun a => a.toList.drop 1
  match args.drop options.length with
  | pattern :: _ =>
    let has (c : Char) := options.any (·.contains c)
    let found := (lines s.data).filter fun l => holds pattern l != has 'v'
    let status := if found.isEmpty then 1 else 0
    if has 'q' then { status }
    else if has 'c' then { Result.saying (Text.numeral found.length ++ "\n") with status }
    else { status, output := .bytes (found.flatMap fun l => chomp l ++ [lineFeed]) }
  | [] => .failing 2 "Usage: grep [OPTION]... PATTERNS [FILE]..."

/-- The lines read, in the order of their bytes, or of the numbers that they begin with; the other
way round with the option `r`, and one of each with the option `u`. -/
def sorted (options : List Char) (s : Source) : Result :=
  let number (l : List UInt8) := numberOf (Text.decodeLossy l)
  let before (a b : List UInt8) : Bool :=
    if options.contains 'n' && number a ≠ number b then number a < number b else !b.lex a
  let ls := ((lines s.data).map chomp).mergeSort before
  let ls := if options.contains 'u' then ls.eraseDups else ls
  let ls := if options.contains 'r' then ls.reverse else ls
  { output := .bytes (ls.flatMap (· ++ [lineFeed])) }

/-- Of each line read one of its fields between marks, or the whole line where there is no mark. -/
def field (mark : UInt8) (n : Nat) (s : Source) : Result :=
  let pick (line : List UInt8) : List UInt8 :=
    let fields := (chomp line).splitOn mark
    if fields.length = 1 then chomp line else (fields[n - 1]?).getD []
  { output := .bytes ((lines s.data).flatMap fun l => pick l ++ [lineFeed]) }

/-- The field that the options of an argument list ask for. -/
def cut (args : List String) (s : Source) : Result :=
  let joined := args.foldr (fun a rest =>
    match rest with
    | b :: more => if a = "-d" || a = "-f" then (a ++ b) :: more else a :: b :: more
    | [] => [a]) []
  let valueOf (option : String) := (joined.find? (·.startsWith option)).map fun a => a.toList.drop 2
  match valueOf "-f" with
  | some n =>
    let mark := ((valueOf "-d").bind fun cs => (say (String.ofList cs)).head?).getD 9
    field mark (leadingNumber n).1 s
  | none => .failing 1 "cut: you must specify a list of bytes, characters, or fields"

/-! ## Conditions -/

/-- Whether the comparison of two numbers holds, if there is one of that name. -/
def comparison (name : String) (a b : Int) : Option Bool :=
  match name with
  | "-eq" => some (a = b)
  | "-ne" => some (a ≠ b)
  | "-lt" => some (a < b)
  | "-le" => some (a ≤ b)
  | "-gt" => some (a > b)
  | "-ge" => some (a ≥ b)
  | _ => none

/-- Whether the expression of arguments holds. `exists` tells of files and directories. -/
def condition (present : Char → String → Bool) : List String → Bool
  | [] => false
  | "!" :: rest => !condition present rest
  | [s] => s ≠ ""
  | ["-n", s] => s ≠ ""
  | ["-z", s] => s = ""
  | [o, s] =>
    match o.toList with
    | ['-', c] => present c s
    | _ => false
  | [a, "=", b] => a = b
  | [a, "!=", b] => a ≠ b
  | [a, o, b] => (comparison o (numberOf a) (numberOf b)).getD false
  | _ => false

end Taskyard.Shell
