import Dyad.Text.Characters

/-!
Environment variables, and the text files that add to them. A file holds one `KEY=VALUE` a line;
what is set already stays as it is, and loading stops at the first line that cannot be read.
-/

namespace Dyad

/-- Variables and their values. An entry stands for the text `KEY=VALUE`. -/
structure Environment where
  entries : List (String × String) := []
  deriving DecidableEq, Repr

namespace Environment

/-- What follows `name=` in the text of an entry. The name ends at any equals sign of the text: in
`A=B=1` the value of `A` is `B=1`, and that of `A=B` is `1`. -/
def valueIn? (name : String) (entry : String × String) : Option String :=
  ((name.toList ++ ['=']).isPrefixOf? (entry.1.toList ++ '=' :: entry.2.toList)).map String.ofList

/-- The value of a variable, from the first entry that has one. The empty name is no variable. -/
def get? (env : Environment) (name : String) : Option String :=
  if name.isEmpty then none else env.entries.findSome? (valueIn? name)

/-- Sets a variable that is not set yet. -/
def setDefault (env : Environment) (name value : String) : Environment :=
  match env.get? name with
  | some _ => env
  | none => ⟨env.entries ++ [(name, value)]⟩

/-! ### Values -/

/-- Where in a value the reader stands. `quoted` says whether a double quote is open. -/
inductive Mode where
  | plain
  /-- inside single quotes -/
  | single
  /-- inside double quotes -/
  | double
  /-- after a backslash -/
  | escaped (quoted : Bool)
  /-- in the name of a variable, made of letters and digits and read so far in reverse -/
  | name (quoted : Bool) (read : List Char)
  /-- in a name in braces -/
  | braced (quoted : Bool) (read : List Char)
  /-- after the value, where only blanks and a comment may follow -/
  | trailing
  deriving DecidableEq, Repr

def Mode.back (quoted : Bool) : Mode := if quoted then .double else .plain

/-- Puts the value of a variable behind what has been read; both are in reverse. -/
def substitute (env : Environment) (out name : List Char) : List Char :=
  ((env.get? (String.ofList name.reverse)).getD "").toList.reverse ++ out

/-- Characters that a backslash keeps as they are. -/
def isEscapable (c : Char) : Bool :=
  c == '\x5c' || c == '\x27' || c == '\x22' || c == '$' || c == ' '

/-- Reads a value, collecting it in reverse. -/
def scanValue (env : Environment) : Mode → (out : List Char) → List Char → Option (List Char)
  | .plain, out, [] | .trailing, out, [] | .escaped false, out, [] => some out.reverse
  | .name false read, out, [] => some (env.substitute out read).reverse
  | _, _, [] => none
  | .trailing, out, c :: cs =>
    if c = ' ' ∨ c = '\t' then scanValue env .trailing out cs
    else if c = '#' then some out.reverse
    else none
  | .escaped quoted, out, c :: cs =>
    if isEscapable c then scanValue env (.back quoted) (c :: out) cs
    else if c = 'n' then scanValue env (.back quoted) ('\n' :: out) cs
    else none
  | .single, out, c :: cs =>
    if c = '\x27' then scanValue env .plain out cs else scanValue env .single (c :: out) cs
  | .name quoted read, out, c :: cs =>
    if isAlphanumeric c then scanValue env (.name quoted (c :: read)) out cs
    else if c = '\x7b' ∧ read = [] then scanValue env (.braced quoted []) out cs
    else if c = '$' then scanValue env (.name quoted []) (env.substitute out read) cs
    else scanValue env (.back quoted) (c :: env.substitute out read) cs
  | .braced quoted read, out, c :: cs =>
    if c = '\x7d' then scanValue env (.back quoted) (env.substitute out read) cs
    else scanValue env (.braced quoted (c :: read)) out cs
  | .double, out, c :: cs =>
    if c = '$' then scanValue env (.name true []) out cs
    else if c = '\x22' then scanValue env .plain out cs
    else if c = '\x5c' then scanValue env (.escaped true) out cs
    else scanValue env .double (c :: out) cs
  | .plain, out, c :: cs =>
    if c = '$' then scanValue env (.name false []) out cs
    else if c = '\x27' then scanValue env .single out cs
    else if c = '\x22' then scanValue env .double out cs
    else if c = '\x5c' then scanValue env (.escaped false) out cs
    else if c = ' ' ∨ c = '\t' then scanValue env .trailing out cs
    else scanValue env .plain (c :: out) cs

/-! ### Lines -/

def isKeyStart (c : Char) : Bool := c.isAlpha || c == '_'

def isKeyChar (c : Char) : Bool := c.isAlphanum || c == '_' || c == '.'

/-- A key at the front, and what follows it and any blanks. -/
def key? (cs : List Char) : Option (List Char × List Char) :=
  match cs with
  | c :: _ =>
    if isKeyStart c then some (cs.takeWhile isKeyChar, trimStart (cs.dropWhile isKeyChar))
    else none
  | [] => none

/-- A key, an equals sign, and what follows it. The word `export` may stand in front, unless it is
the key itself. -/
def assignment? (cs : List Char) : Option (List Char × List Char) := do
  match ← key? cs with
  | (key, '=' :: rest) => return (key, rest)
  | (word, rest) =>
    if word = "export".toList then
      match ← key? rest with
      | (key, '=' :: rest) => return (key, rest)
      | _ => none
    else none

/-- Whether a line, or the rest of one, has nothing to say. -/
def isVoid : List Char → Bool
  | [] => true
  | c :: _ => c == '#'

/-- What a line sets: `none` if it cannot be read, `some none` if it is blank or a comment. -/
def readLine (env : Environment) (line : List Char) : Option (Option (String × String)) := do
  let line := trim line
  if isVoid line then return none
  let (key, rest) ← assignment? line
  let rest := trimStart rest
  if isVoid rest then return some (String.ofList key, "")
  let value ← env.scanValue .plain [] rest
  return some (String.ofList key, String.ofList value)

/-- Sets what the lines say, in order, up to the first that cannot be read. -/
def loadLines (env : Environment) : List (List Char) → Environment
  | [] => env
  | line :: lines =>
    match env.readLine line with
    | none => env
    | some none => loadLines env lines
    | some (some (key, value)) => loadLines (env.setDefault key value) lines

/-- The lines of a text. -/
def splitLines : (current : List Char) → List Char → List (List Char)
  | current, [] => [current.reverse]
  | current, c :: cs =>
    if c = '\n' then current.reverse :: splitLines [] cs else splitLines (c :: current) cs

/-- Adds the variables that a file sets. -/
def load (env : Environment) (text : String) : Environment :=
  env.loadLines (splitLines [] text.toList)

end Environment

end Dyad
