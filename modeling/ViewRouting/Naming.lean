import ViewRouting.Fault
import ViewRouting.Text.Lowercase

/-! Names: identifiers and helpers, the words of an identifier, and names that are given as values.
-/

/-! Dotted identifiers such as `MyApp.ArticleLive.Index`, and the names of path helpers. -/

namespace ViewRouting.Naming

def isWordChar (c : Char) : Bool :=
  c.isAlphanum || c = '_'

def isSegment (s : String) : Bool :=
  match s.toList with
  | [] => false
  | c :: cs => c.isUpper && cs.all isWordChar

def segments (identifier : String) : List String :=
  Text.split '.' identifier

def isDotted (s : String) : Bool :=
  (segments s).all isSegment

/-- The identifier made of the segments of all parts, empty segments left out. -/
def concat (parts : List String) : String :=
  Text.join "." ((parts.flatMap segments).filter fun s => !s.isEmpty)

def isHelper (s : String) : Bool :=
  match s.toList with
  | [] => false
  | c :: cs => (c.isLower || c = '_') && cs.all fun c => c.isLower || c.isDigit || c = '_'

def endsWith (suffix s : String) : Bool :=
  suffix.toList.isSuffixOf s.toList

def dropSuffix (suffix s : String) : String :=
  String.ofList (s.toList.take (s.toList.length - suffix.toList.length))

/-! Snake case of identifier segments: `HTTPServer` becomes `http_server`. A segment is read in four
passes, each from left to right over what the last one wrote, and is then lower-cased. -/

def isGap (c : Char) : Bool :=
  Text.isBlank c || c = '-'

/-- Each run of characters that satisfy `p` becomes one underscore; `inRun` says whether the
character before was one of them. -/
def bridge (p : Char → Bool) (inRun : Bool) : List Char → List Char
  | [] => []
  | c :: cs =>
    if p c then (if inRun then [] else ['_']) ++ bridge p true cs else c :: bridge p false cs

/-- A run of capitals, the last one first, as it stands before `next`: if that is a small letter,
the last capital begins its word and is parted from the others. -/
def partRun (next : Char) : List Char → List Char
  | b :: a :: run =>
    if next.isLower then (a :: run).reverse ++ ['_', b] else (b :: a :: run).reverse
  | run => run.reverse

/-- Parts every run of capitals from the word that its last capital begins; `run` is the run being
read. -/
def partAcronyms (run : List Char) : List Char → List Char
  | [] => run.reverse
  | c :: cs =>
    if c.isUpper then partAcronyms (c :: run) cs else partRun c run ++ c :: partAcronyms [] cs

def endsWord (c : Char) : Bool :=
  c.isLower || c.isDigit

/-- Parts a small letter or digit from the capital after it; a capital so found begins nothing else.
-/
def partWords : List Char → List Char
  | a :: b :: cs =>
    if endsWord a && b.isUpper then a :: '_' :: b :: partWords cs else a :: partWords (b :: cs)
  | cs => cs

def snakeChars (cs : List Char) : List Char :=
  bridge (· = '_') false (partWords (partAcronyms [] (bridge isGap false cs)))

def snakeCase (s : String) : String :=
  Text.lower (String.ofList (snakeChars s.toList))

/-! Names and endings that callers give as values. Most are texts. A helper name and an ending may
be any value that has a text, and are read as that text; an identifier has to be a text itself,
because it is taken apart. -/

def readText (v : Value) : Except Fault String :=
  match v.text? with
  | some s => .ok s
  | none => .error .unreadable

/-- The dotted identifier that a value is, if it is one. Values that count as absent are none. -/
def readDotted (v : Value) : Except Fault (Option String) :=
  match v with
  | .string s => .ok (if isDotted s then some s else none)
  | v => if v.isTruthy then .error .unreadable else .ok none

def hasEnding (ending : Value) (s : String) : Bool :=
  endsWith ending.text s

/-- How many of `width` units stay when `length` of them are dropped at the end. A fraction is left
out of account. Of a negative length that many units stay at the start, and a length that is zero or
no number leaves nothing. -/
def unitsLeft (width : Nat) (length : Binary64) : Nat :=
  if length.isNaN || (length.isFinite && length.wholePart = 0) then 0
  else
    let whole := if length.isFinite then length.wholePart else width
    if length.negative then min whole width else width - whole

/-- The text without its ending. An ending that is not a text drops as many units as its length
says. -/
def dropEnding (ending : Value) (s : String) : Text.Cut :=
  match ending with
  | .string suffix => ⟨dropSuffix suffix s, none⟩
  | ending => Text.cut (unitsLeft (Text.width s) (ending.length.number?.getD .nan)) s

end ViewRouting.Naming
