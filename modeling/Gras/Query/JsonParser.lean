import Mathlib.Data.List.Basic

/-!
# Query replies as JSON

`ptree_to_json` and `json_to_ptree` of `json_parser.cpp`.

`write_json` and `read_json` are the property tree library's.  `write_json` is
taken to write standard JSON with every key and every leaf as an escaped string;
how it lays the text out is a parameter.  `read_json` is taken to read standard
JSON: a string leaf becomes the text it denotes, any other leaf the text as it
stands.
-/

namespace Gras.Json

abbrev Text := List Char

/-- The children of a node of a property tree, each with its key, its data and
its own children. -/
inductive Children where
  | nil
  | cons (key data : Text) (sub next : Children)
  deriving DecidableEq

/-- A property tree. -/
structure PTree where
  data : Text
  children : Children
  deriving DecidableEq

namespace Children

/-- No node has both data and children. -/
def Accepted : Children → Prop
  | nil => True
  | cons _ data sub next =>
      (data = [] ∨ sub = nil) ∧ sub.Accepted ∧ next.Accepted

/-- `pt.count("") == pt.size()`: every key is empty. -/
def keyless : Children → Bool
  | nil => true
  | cons key _ _ next => key.isEmpty && next.keyless

end Children

/-- What `write_json` accepts: the root has no data, and no node has both data
and children. -/
def PTree.Accepted (t : PTree) : Prop := t.data = [] ∧ t.children.Accepted

/-! ## Tokens -/

inductive Kind where
  | object
  | array
  deriving DecidableEq

inductive Punct where
  | opening (kind : Kind)
  | closing (kind : Kind)
  | comma
  | colon
  deriving DecidableEq

/-- A token: punctuation, a string with the text it denotes, or a literal as it
stands. -/
inductive Token where
  | punct (p : Punct)
  | string (s : Text)
  | literal (s : Text)
  deriving DecidableEq

def Punct.char : Punct → Char
  | .opening .object => '{'
  | .closing .object => '}'
  | .opening .array => '['
  | .closing .array => ']'
  | .comma => ','
  | .colon => ':'

def punctOf (c : Char) : Option Punct :=
  if c = '{' then some (.opening .object)
  else if c = '}' then some (.closing .object)
  else if c = '[' then some (.opening .array)
  else if c = ']' then some (.closing .array)
  else if c = ',' then some .comma
  else if c = ':' then some .colon
  else none

/-- White space. -/
def isBlank (c : Char) : Bool := c = ' ' || c = '\t' || c = '\n' || c = '\r'

/-! ## `write_json` -/

def hexDigits : List Char :=
  ['0', '1', '2', '3', '4', '5', '6', '7', '8', '9', 'A', 'B', 'C',
    'D', 'E', 'F']

/-- How a character is written inside a string. -/
def escapeChar (c : Char) : Text :=
  if c = '"' then ['\\', '"']
  else if c = '\\' then ['\\', '\\']
  else if c = '/' then ['\\', '/']
  else if c = '\n' then ['\\', 'n']
  else if c = '\r' then ['\\', 'r']
  else if c.toNat = 8 then ['\\', 'b']
  else if c.toNat = 12 then ['\\', 'f']
  else if c.toNat < 32 then
    ['\\', 'u', '0', '0', hexDigits.getD (c.toNat / 16) '0',
      hexDigits.getD (c.toNat % 16) '0']
  else [c]

/-- `create_escapes`. -/
def createEscapes (s : Text) : Text := s.flatMap escapeChar

def Token.spell : Token → Text
  | .punct p => [p.char]
  | .string s => '"' :: (createEscapes s ++ ['"'])
  | .literal s => s

/-- A node whose children all have the empty key is written as an array. -/
def Children.kind (c : Children) : Kind := if c.keyless then .array else .object

/-- The key of a member, and the colon; an array has no keys. -/
def keyTokens : Kind → Text → List Token
  | .object, key => [.string key, .punct .colon]
  | .array, _ => []

/-- A node without children is a string, any other node its children in
brackets. -/
def nodeTokens (data : Text) (sub : Children) (inner : List Token) :
    List Token :=
  if sub = .nil then [.string data]
  else .punct (.opening sub.kind) ::
    (inner ++ [Token.punct (.closing sub.kind)])

/-- The members of an object or the items of an array, separated by commas. -/
def Children.tokens (kind : Kind) : Children → List Token
  | .nil => []
  | .cons key data sub next =>
      keyTokens kind key ++ (nodeTokens data sub (sub.tokens sub.kind) ++
        if next = .nil then [] else .punct .comma :: next.tokens kind)

/-- The tokens of a tree: the root is written as an object. -/
def PTree.tokens (t : PTree) : List Token :=
  .punct (.opening .object) ::
    (t.children.tokens .object ++ [Token.punct (.closing .object)])

/-- The white space before each token. -/
structure Layout where
  gap : Nat → Text
  blank : ∀ n, ∀ c ∈ gap n, isBlank c

/-- The text of the tokens from the `n`-th on. -/
def render (layout : Layout) : Nat → List Token → Text
  | n, [] => layout.gap n
  | n, token :: tokens =>
      layout.gap n ++ (token.spell ++ render layout (n + 1) tokens)

def writeJson (layout : Layout) (t : PTree) : Text := render layout 0 t.tokens

/-! ## The regular expression -/

/-- `(\.[0-9]+)?`. -/
def isFraction : Text → Bool
  | [] => true
  | c :: digits => c = '.' && (!digits.isEmpty && digits.all Char.isDigit)

/-- `[0-9]+(\.[0-9]+)?`. -/
def isDecimal (s : Text) : Bool :=
  !(s.takeWhile Char.isDigit).isEmpty && isFraction (s.dropWhile Char.isDigit)

/-- `null|true|false|[0-9]+(\.[0-9]+)?`. -/
def isBare (s : Text) : Bool :=
  s = "null".toList || s = "true".toList || s = "false".toList || isDecimal s

/-- Behind a quote: what the rest of the expression matches, and what
follows. -/
def matchBare (s : Text) : Option (Text × Text) :=
  match s.dropWhile (· ≠ '"') with
  | [] => none
  | _ :: rest =>
      if isBare (s.takeWhile (· ≠ '"')) then some
        (s.takeWhile (· ≠ '"'), rest) else none

theorem matchBare_length {s run rest : Text}
    (h : matchBare s = some (run, rest)) : rest.length < s.length := by
  have hlen :=
    (List.dropWhile_sublist (fun c : Char => decide (c ≠ '"'))
      (l := s)).length_le
  unfold matchBare at h
  split at h
  · cases h
  · next heq =>
      split at h
      · cases h
        rw [heq, List.length_cons] at hlen
        omega
      · cases h

/-- `regex_replace` with `$1`: from the left, each match loses its quotes. -/
def regexReplace : Text → Text
  | [] => []
  | c :: cs =>
      if c = '"' then
        match _h : matchBare cs with
        | some (run, rest) => run ++ regexReplace rest
        | none => c :: regexReplace cs
      else c :: regexReplace cs
termination_by s => s.length
decreasing_by
  · have := matchBare_length _h
    simp only [List.length_cons]
    omega
  · simp
  · simp

/-- `ptree_to_json`. -/
def ptreeToJson (layout : Layout) (t : PTree) : Text :=
  regexReplace (writeJson layout t)

/-! ## `read_json` -/

/-- The exponent of a number, or nothing. -/
def isExponent : Text → Bool
  | [] => true
  | c :: cs =>
      let digits := match cs with
        | s :: ds => if s = '+' || s = '-' then ds else cs
        | [] => []
      (c = 'e' || c = 'E') && !digits.isEmpty && digits.all Char.isDigit

/-- A fraction and an exponent, either of which may be missing. -/
def isFractionExponent : Text → Bool
  | [] => true
  | c :: cs =>
      if c = '.' then
        !(cs.takeWhile Char.isDigit).isEmpty &&
          isExponent (cs.dropWhile Char.isDigit)
      else isExponent (c :: cs)

/-- The whole part of a number: it has no superfluous leading zero. -/
def isWhole (digits : Text) : Bool :=
  digits = ['0'] || (!digits.isEmpty && digits.head? ≠ some '0')

/-- A number without its sign. -/
def isUnsigned (s : Text) : Bool :=
  isWhole (s.takeWhile Char.isDigit) &&
    isFractionExponent (s.dropWhile Char.isDigit)

/-- A literal of standard JSON. -/
def isLiteral (s : Text) : Bool :=
  s = "null".toList || s = "true".toList || s = "false".toList ||
    isUnsigned (if s.head? = some '-' then s.tail else s)

/-- A character of which literals are made. -/
def isLiteralChar (c : Char) : Bool :=
  c.isAlphanum || c = '+' || c = '-' || c = '.'

/-- What the character behind a backslash stands for. -/
def unescape (c : Char) : Option Char :=
  if c = '"' || c = '\\' || c = '/' then some c
  else if c = 'b' then some (Char.ofNat 8)
  else if c = 'f' then some (Char.ofNat 12)
  else if c = 'n' then some '\n'
  else if c = 'r' then some '\r'
  else if c = 't' then some '\t'
  else none

def hexValue (c : Char) : Option Nat :=
  if c.isDigit then some (c.toNat - '0'.toNat)
  else if 'A' ≤ c && c ≤ 'F' then some (c.toNat - 'A'.toNat + 10)
  else if 'a' ≤ c && c ≤ 'f' then some (c.toNat - 'a'.toNat + 10)
  else none

/-- Where the scanner is. -/
inductive Mode where
  | between
  | literal (run : Text)
  | string (run : Text)
  | escape (run : Text)
  | unicode (run : Text) (digits value : Nat)

/-- What a character outside strings and literals begins. -/
def begins (c : Char) : Option (List Token × Mode) :=
  if isBlank c then some ([], .between)
  else match punctOf c with
    | some p => some ([.punct p], .between)
    | none =>
        if c = '"' then some ([], .string [])
        else if isLiteralChar c then some ([], .literal [c])
        else none

/-- The tokens of a text. -/
def scan : Mode → Text → Option (List Token)
  | .between, [] => some []
  | .literal run, [] => if isLiteral run then some [.literal run] else none
  | _, [] => none
  | .between, c :: cs => do
      let (tokens, mode) ← begins c
      let more ← scan mode cs
      return tokens ++ more
  | .literal run, c :: cs =>
      if isLiteralChar c then scan (.literal (run ++ [c])) cs
      else if isLiteral run then do
        let (tokens, mode) ← begins c
        let more ← scan mode cs
        return .literal run :: (tokens ++ more)
      else none
  | .string run, c :: cs =>
      if c = '"' then do
        let more ← scan .between cs
        return .string run :: more
      else if c = '\\' then scan (.escape run) cs
      else if c.toNat < 32 then none
      else scan (.string (run ++ [c])) cs
  | .escape run, c :: cs =>
      if c = 'u' then scan (.unicode run 0 0) cs
      else do
        let d ← unescape c
        scan (.string (run ++ [d])) cs
  | .unicode run digits value, c :: cs => do
      let d ← hexValue c
      if digits = 3 then
        scan (.string (run ++ [Char.ofNat (16 * value + d)])) cs
      else scan (.unicode run (digits + 1) (16 * value + d)) cs

/-- The key of a member; an item of an array has the empty key. -/
def parseKey : Kind → List Token → Option (Text × List Token)
  | .object, .string key :: .punct .colon :: tokens => some (key, tokens)
  | .object, _ => none
  | .array, tokens => some ([], tokens)

mutual

/-- A value: its data and children, and the tokens behind it. -/
def parseValue : Nat → List Token → Option (PTree × List Token)
  | _ + 1, .string s :: tokens => some (⟨s, .nil⟩, tokens)
  | _ + 1, .literal s :: tokens => some (⟨s, .nil⟩, tokens)
  | fuel + 1, .punct (.opening kind) :: tokens =>
      if tokens.head? = some (.punct (.closing kind)) then
        some (⟨[], .nil⟩, tokens.tail)
      else do
        let (children, tokens) ← parseChildren fuel kind tokens
        return (⟨[], children⟩, tokens)
  | _, _ => none

/-- The members of an object or the items of an array up to the closing
bracket. -/
def parseChildren : Nat → Kind → List Token → Option (Children × List Token)
  | 0, _, _ => none
  | fuel + 1, kind, tokens => do
      let (key, tokens) ← parseKey kind tokens
      let (value, tokens) ← parseValue fuel tokens
      if tokens.head? = some (.punct (.closing kind)) then
        return (.cons key value.data value.children .nil, tokens.tail)
      else if tokens.head? = some (.punct .comma) then do
        let (next, tokens) ← parseChildren fuel kind tokens.tail
        return (.cons key value.data value.children next, tokens)
      else none

end

/-- A text is one value. -/
def parse (tokens : List Token) : Option PTree :=
  match parseValue (2 * tokens.length) tokens with
  | some (t, []) => some t
  | _ => none

/-- `json_to_ptree`: nothing where the text is not JSON. -/
def jsonToPtree (s : Text) : Option PTree := (scan .between s).bind parse

/-- The text is a JSON document. -/
def ValidJson (s : Text) : Prop := (jsonToPtree s).isSome

end Gras.Json
