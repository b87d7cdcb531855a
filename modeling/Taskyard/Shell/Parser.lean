import Taskyard.Shell.Syntax

/-!
# Shell — reading of programs

Programs are read by recursive descent. A word ends at a blank or at a character that joins phrases,
unless that is quoted. Some words open and close phrases where a command could stand.

Main definitions:

* `parse?` — the program of a text.
-/

namespace Taskyard.Shell

/-! ## Characters -/

/-- Whether the character may stand in the name of a variable. -/
def isNameChar (c : Char) : Bool := c.isAlphanum || c = '_'

/-- Whether the characters are the name of a variable. -/
def isName (cs : List Char) : Bool :=
  cs.all isNameChar && (cs.head?.any fun c => !c.isDigit)

/-- Whether the character ends a word. -/
def endsWord (c : Char) : Bool := " \t\n;&|<>()".toList.contains c

/-- What follows blanks, hidden line breaks and a comment. -/
def skipBlanks : List Char → List Char
  | '\\' :: '\n' :: rest => skipBlanks rest
  | ' ' :: rest => skipBlanks rest
  | '\t' :: rest => skipBlanks rest
  | '#' :: rest => rest.dropWhile (· ≠ '\n')
  | cs => cs

/-- What follows blanks and line breaks. The number bounds the lines. -/
def skipBreaks : Nat → List Char → List Char
  | 0, cs => cs
  | n + 1, cs =>
    match skipBlanks cs with
    | '\n' :: rest => skipBreaks n rest
    | cs => cs

/-- What follows blanks and line breaks. -/
def skipLines (cs : List Char) : List Char := skipBreaks cs.length cs

/-- A bare word at the beginning, without anything quoted. -/
def bareWord (cs : List Char) : String :=
  String.ofList (cs.takeWhile fun c => !endsWord c && c ≠ '\x27' && c ≠ '"' && c ≠ '\\' && c ≠ '$')

/-- What follows a bare word, if it stands here. -/
def keyword? (word : String) (cs : List Char) : Option (List Char) :=
  let cs := skipLines cs
  if bareWord cs = word then some (cs.drop word.length) else none

/-- The words that close a phrase. -/
def closers : List String := ["then", "else", "elif", "fi", "do", "done", "esac", "\x7d"]

/-- The characters up to an unescaped backquote, and what follows it. -/
def untilBackquote : List Char → Option (List Char × List Char)
  | [] => none
  | '\\' :: c :: rest =>
    (untilBackquote rest).map fun (cs, after) =>
      (if c = '\x60' || c = '\\' || c = '$' then (c :: cs, after) else ('\\' :: c :: cs, after))
  | c :: rest =>
    if c = '\x60' then some ([], rest)
    else (untilBackquote rest).map fun (cs, after) => (c :: cs, after)

/-- The characters up to the two brackets that close an expression with so many open brackets, and
what follows them. -/
def untilBrackets (level : Nat) : List Char → Option (List Char × List Char)
  | [] => none
  | c :: rest =>
    if c = '(' then (untilBrackets (level + 1) rest).map fun (cs, after) => (c :: cs, after)
    else if c = ')' then
      match level with
      | 0 => match rest with
        | ')' :: after => some ([], after)
        | _ => none
      | level + 1 => (untilBrackets level rest).map fun (cs, after) => (c :: cs, after)
    else (untilBrackets level rest).map fun (cs, after) => (c :: cs, after)

/-- How a value is trimmed, and what follows the sign for it. -/
def trimSign : List Char → Option (Pattern.Trim × List Char)
  | '%' :: '%' :: rest => some (⟨true, true⟩, rest)
  | '%' :: rest => some (⟨true, false⟩, rest)
  | '#' :: '#' :: rest => some (⟨false, true⟩, rest)
  | '#' :: rest => some (⟨false, false⟩, rest)
  | _ => none

/-! ## Settings and redirections -/

/-- The name and the value of a word that sets a variable. -/
def setting? : Word → Option (String × Word)
  | .text false s :: rest =>
    let name := s.toList.takeWhile (· ≠ '=')
    match s.toList.dropWhile (· ≠ '=') with
    | '=' :: value =>
      if isName name then
        let value := String.ofList value
        some (String.ofList name, if value.isEmpty then rest else .text false value :: rest)
      else none
    | _ => none
  | _ => none

/-- The stream of a digit. -/
def channelOf (c : Char) : Option Channel :=
  if c = '0' then some .input
  else if c = '1' then some .output
  else if c = '2' then some .errors
  else none

/-- The sign of a redirection: the stream, whether something is added to a file, whether another
stream follows, and the rest. -/
def redirectionSign (cs : List Char) : Option (Channel × Bool × Bool × List Char) :=
  let (given, cs) := match cs with
    | d :: '<' :: rest => (channelOf d, '<' :: rest)
    | d :: '>' :: rest => if d.isDigit then (channelOf d, '>' :: rest) else (none, cs)
    | _ => (none, cs)
  match cs with
  | '>' :: '>' :: rest => some (given.getD .output, true, false, rest)
  | '>' :: '&' :: rest => some (given.getD .output, false, true, rest)
  | '>' :: rest => some (given.getD .output, false, false, rest)
  | '<' :: '&' :: rest => some (given.getD .input, false, true, rest)
  | '<' :: rest => some (given.getD .input, false, false, rest)
  | _ => none

/-- Neighbouring parts of the same kind as one. -/
def addText (quoted : Bool) (c : Char) : Word → Word
  | .text q s :: rest =>
    if q = quoted then .text q (String.singleton c ++ s) :: rest
    else .text quoted (String.singleton c) :: .text q s :: rest
  | w => .text quoted (String.singleton c) :: w

/-! ## Phrases -/

mutual

/-- What a dollar sign stands for, and what follows it. The number bounds the depth and the lengths,
here and below. -/
def readDollar : Nat → Bool → List Char → Option (Part × List Char)
  | 0, _, _ => none
  | n + 1, quoted, cs =>
    let expression : Option (List Char × List Char) := match cs with
      | '(' :: '(' :: rest => untilBrackets 0 rest
      | _ => none
    match expression with
    | some (inner, after) =>
      (readParts n true '\x00' (inner ++ ['\x00'])).map fun (w, _) => (.sum quoted w, after)
    | none =>
    match cs with
    | '(' :: rest => do
      let (p, rest) ← readRow n rest
      match skipLines rest with
      | ')' :: after => return (.output quoted p, after)
      | _ => none
    | '\x7b' :: '#' :: c :: rest =>
      let name := (c :: rest).takeWhile isNameChar
      match name, (c :: rest).drop name.length with
      | _ :: _, '\x7d' :: after => some (.size quoted (String.ofList name), after)
      | _, _ => none
    | '\x7b' :: rest =>
      let name := rest.takeWhile isNameChar
      let name := if name.isEmpty then (rest.take 1).filter "?$#".toList.contains else name
      match rest.drop name.length with
      | '\x7d' :: after => some (.value quoted (String.ofList name) [], after)
      | ':' :: '-' :: more => do
        let (w, after) ← readParts n quoted '\x7d' more
        return (.value quoted (String.ofList name) w, after)
      | '-' :: more => do
        let (w, after) ← readParts n quoted '\x7d' more
        return (.value quoted (String.ofList name) w, after)
      | ':' :: '+' :: more => do
        let (w, after) ← readParts n quoted '\x7d' more
        return (.given (String.ofList name) w, after)
      | '+' :: more => do
        let (w, after) ← readParts n quoted '\x7d' more
        return (.given (String.ofList name) w, after)
      | more => do
        let (trim, more) ← trimSign more
        let (w, after) ← readParts n true '\x7d' more
        return (.trimmed quoted (String.ofList name) trim w, after)
    | c :: rest =>
      if c = '$' || c = '?' || c = '#' || c.isDigit then
        some (.value quoted (String.singleton c) [], rest)
      else if isNameChar c then
        let name := cs.takeWhile isNameChar
        some (.value quoted (String.ofList name) [], cs.drop name.length)
      else some (.text quoted "$", cs)
    | [] => some (.text quoted "$", [])

/-- The parts up to a mark, quoted or not, and what follows the mark. -/
def readParts : Nat → Bool → Char → List Char → Option (Word × List Char)
  | 0, _, _, _ => none
  | _ + 1, _, _, [] => none
  | n + 1, quoted, mark, c :: rest =>
    if c = mark then some ([], rest)
    else if c = '$' then do
      let (p, rest) ← readDollar n quoted rest
      let (w, after) ← readParts n quoted mark rest
      return (p :: w, after)
    else if c = '\x60' then do
      let (inner, rest) ← untilBackquote rest
      let (p, _) ← readRow n inner
      let (w, after) ← readParts n quoted mark rest
      return (.output quoted p :: w, after)
    else if c = '\\' then
      match rest with
      | '\n' :: more => readParts n quoted mark more
      | e :: more => do
        let (w, after) ← readParts n quoted mark more
        if e = '$' || e = '\x60' || e = '"' || e = '\\' || e = mark then
          return (addText true e w, after)
        else return (addText true '\\' (addText true e w), after)
      | [] => none
    else do
      let (w, after) ← readParts n quoted mark rest
      return (addText quoted c w, after)

/-- The rest of a word, and what follows it. -/
def readWord : Nat → List Char → Option (Word × List Char)
  | 0, _ => none
  | _ + 1, [] => some ([], [])
  | n + 1, c :: rest =>
    if endsWord c then some ([], c :: rest)
    else if c = '\x27' then
      let inner := rest.takeWhile (· ≠ '\x27')
      match rest.drop inner.length with
      | _ :: rest => do
        let (w, after) ← readWord n rest
        return (.text true (String.ofList inner) :: w, after)
      | [] => none
    else if c = '"' then do
      let (parts, rest) ← readParts n true '"' rest
      let (w, after) ← readWord n rest
      return (.text true "" :: parts ++ w, after)
    else if c = '\\' then
      match rest with
      | '\n' :: more => readWord n more
      | e :: more => (readWord n more).map fun (w, after) => (addText true e w, after)
      | [] => some ([.text true "\\"], [])
    else if c = '$' then do
      let (p, rest) ← readDollar n false rest
      let (w, after) ← readWord n rest
      return (p :: w, after)
    else if c = '\x60' then do
      let (inner, rest) ← untilBackquote rest
      let (p, _) ← readRow n inner
      let (w, after) ← readWord n rest
      return (.output false p :: w, after)
    else (readWord n rest).map fun (w, after) => (addText false c w, after)

/-- The words and redirections of a command, and what follows it. -/
def readWords : Nat → List Char → Option (List Word × List Redirection × List Char)
  | 0, _ => none
  | n + 1, cs =>
    let cs := skipBlanks cs
    match redirectionSign cs with
    | some (channel, append, same, rest) => do
      let (w, rest) ← readWord n (skipBlanks rest)
      if w.isEmpty then none else
      let (ws, rs, after) ← readWords n rest
      let r ← match same, w with
        | false, w => some (.file channel append w)
        | true, [.text false d] => (d.toList.head?.bind channelOf).map (.same channel)
        | true, _ => none
      return (ws, r :: rs, after)
    | none =>
      match cs with
      | [] => some ([], [], [])
      | c :: _ =>
        if endsWord c then some ([], [], cs)
        else do
          let (w, rest) ← readWord n cs
          let (ws, rs, after) ← readWords n rest
          return (w :: ws, rs, after)

/-- A command or a phrase between brackets or words, and what follows it. -/
def readCommand : Nat → List Char → Option (Phrase × List Char)
  | 0, _ => none
  | n + 1, cs =>
    let cs := skipBlanks cs
    let finish (p : Phrase) (rest : List Char) : Option (Phrase × List Char) := do
      let (ws, rs, after) ← readWords n rest
      if ws.isEmpty then return (if rs.isEmpty then p else .redirected p rs, after) else none
    match cs with
    | '(' :: rest => do
      let (p, rest) ← readRow n rest
      match skipLines rest with
      | ')' :: after => finish (.apart p) after
      | _ => none
    | _ =>
      let word := bareWord cs
      let rest := cs.drop word.length
      if word = "\x7b" then do
        let (p, rest) ← readRow n rest
        let after ← keyword? "\x7d" rest
        finish p after
      else if word = "if" then do
        let (p, rest) ← readBranch n rest
        finish p rest
      else if word = "while" || word = "until" then do
        let (condition, rest) ← readRow n rest
        let rest ← keyword? "do" rest
        let (body, rest) ← readRow n rest
        let after ← keyword? "done" rest
        finish (.whilst (word = "while") condition body) after
      else if word = "for" then do
        let rest := skipBlanks rest
        let name := bareWord rest
        let rest ← keyword? "in" (rest.drop name.length)
        let (words, _, rest) ← readWords n rest
        let rest := match skipLines rest with
          | ';' :: more => more
          | rest => rest
        let rest ← keyword? "do" rest
        let (body, rest) ← readRow n rest
        let after ← keyword? "done" rest
        finish (.each name words body) after
      else if word = "case" then do
        let (w, rest) ← readWord n (skipBlanks rest)
        let rest ← keyword? "in" rest
        let (arms, rest) ← readArms n rest
        finish (.choose w arms) rest
      else if word = "!" then do
        let (p, after) ← readCommand n rest
        return (.negated p, after)
      else do
        let (ws, rs, after) ← readWords n cs
        let settings := (ws.takeWhile fun w => (setting? w).isSome).filterMap setting?
        let words := ws.drop settings.length
        if ws.isEmpty && rs.isEmpty then none
        else
          let p := Phrase.plain settings words
          return (if rs.isEmpty then p else .redirected p rs, after)

/-- The patterns of an arm with bars between them up to the closing bracket, and what follows it. -/
def readPatterns : Nat → List Char → Option (List Word × List Char)
  | 0, _ => none
  | n + 1, cs => do
    let (w, rest) ← readWord n (skipBlanks cs)
    match skipBlanks rest with
    | '|' :: more =>
      let (ws, after) ← readPatterns n more
      return (w :: ws, after)
    | ')' :: after => return ([w], after)
    | _ => none

/-- The arms of a choice by patterns, and what follows its last word. -/
def readArms : Nat → List Char → Option (List (List Word × Phrase) × List Char)
  | 0, _ => none
  | n + 1, cs =>
    match keyword? "esac" cs with
    | some after => some ([], after)
    | none => do
      let cs := match skipLines cs with
        | '(' :: rest => rest
        | cs => cs
      let (patterns, rest) ← readPatterns n cs
      let (body, rest) ← readRow n rest
      let rest := match skipLines rest with
        | ';' :: ';' :: more => more
        | rest => rest
      let (arms, after) ← readArms n rest
      return ((patterns, body) :: arms, after)

/-- A choice after its first word, and what follows it. -/
def readBranch : Nat → List Char → Option (Phrase × List Char)
  | 0, _ => none
  | n + 1, cs => do
    let (condition, rest) ← readRow n cs
    let rest ← keyword? "then" rest
    let (yes, rest) ← readRow n rest
    match keyword? "fi" rest, keyword? "else" rest, keyword? "elif" rest with
    | some after, _, _ => return (.branch condition yes .nothing, after)
    | none, some rest, _ => do
      let (no, rest) ← readRow n rest
      let after ← keyword? "fi" rest
      return (.branch condition yes no, after)
    | none, none, some rest => do
      let (no, after) ← readBranch n rest
      return (.branch condition yes no, after)
    | none, none, none => none

/-- Commands joined by pipes, and what follows them. -/
def readPipe : Nat → List Char → Option (List Phrase × List Char)
  | 0, _ => none
  | n + 1, cs => do
    let (p, rest) ← readCommand n cs
    match skipBlanks rest with
    | '|' :: '|' :: _ => return ([p], skipBlanks rest)
    | '|' :: more => do
      let (ps, after) ← readPipe n (skipLines more)
      return (p :: ps, after)
    | after => return ([p], after)

/-- Pipes joined by success and failure to a phrase before them, and what follows. -/
def readChain : Nat → Option (Bool × Phrase) → List Char → Option (Phrase × List Char)
  | 0, _, _ => none
  | n + 1, before, cs => do
    let (stages, rest) ← readPipe n cs
    let p := match stages with
      | [p] => p
      | ps => .pipe ps
    let p := match before with
      | none => p
      | some (true, q) => .andThen q p
      | some (false, q) => .orElse q p
    match skipBlanks rest with
    | '&' :: '&' :: more => readChain n (some (true, p)) (skipLines more)
    | '|' :: '|' :: more => readChain n (some (false, p)) (skipLines more)
    | after => return (p, after)

/-- Phrases one after another up to the end or to a closing word or bracket, and what follows. -/
def readRow : Nat → List Char → Option (Phrase × List Char)
  | 0, _ => none
  | n + 1, cs =>
    let cs := skipLines cs
    match cs with
    | [] => some (.nothing, [])
    | ')' :: _ => some (.nothing, cs)
    | ';' :: ';' :: _ => some (.nothing, cs)
    | _ =>
      if closers.contains (bareWord cs) then some (.nothing, cs)
      else do
        let (p, rest) ← readChain n none cs
        let join (q : Phrase) : Phrase := match q with
          | .row ps => .row (p :: ps)
          | q => .row [p, q]
        match skipBlanks rest with
        | ';' :: ';' :: more => return (join .nothing, ';' :: ';' :: more)
        | ';' :: more => (readRow n more).map fun (q, after) => (join q, after)
        | '&' :: more => (readRow n more).map fun (q, after) => (join q, after)
        | '\n' :: more => (readRow n more).map fun (q, after) => (join q, after)
        | after => return (join .nothing, after)

end

/-- The program of a text, if it is one. -/
def parse? (s : String) : Option Phrase :=
  let cs := s.toList
  match readRow (6 * cs.length + 12) cs with
  | some (p, rest) => if (skipLines rest).isEmpty then some p else none
  | none => none

end Taskyard.Shell
