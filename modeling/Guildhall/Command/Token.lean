import Guildhall.Text.Blank

/-!
# Command tokens

A message is split into words at spaces, tabs and line ends. Quotes of either kind group words
and vanish; no character escapes another.
-/

namespace Guildhall.Command

structure Unclosed where
  deriving DecidableEq, Repr

def Unclosed.message (_ : Unclosed) : String :=
  "Could not parse arguments: No closing quotation"

/-- Whether a character separates tokens outside quotes. -/
def isSeparator (c : Char) : Bool :=
  c = ' ' || c = '\t' || c = '\r' || c = '\n'

def isQuote (c : Char) : Bool :=
  c = '\'' || c = '"'

/-- The tokens of the rest of a message. `word` is the token being read, reversed, once it has
begun, and `inside` the mark of the quotation being read. -/
def scan (word : Option (List Char)) (inside : Option Char) :
    List Char → Except Unclosed (List (List Char))
  | [] =>
    match inside with
    | some _ => .error {}
    | none => .ok (word.toList.map List.reverse)
  | c :: rest =>
    match inside with
    | some mark =>
      if c = mark then scan word none rest else scan (some (c :: word.getD [])) inside rest
    | none =>
      if isSeparator c then
        match word with
        | none => scan none none rest
        | some w => (scan none none rest).map (w.reverse :: ·)
      else if isQuote c then scan (some (word.getD [])) (some c) rest
      else scan (some (c :: word.getD [])) none rest

def tokenize (message : String) : Except Unclosed (List String) :=
  (scan none none message.toList).map (·.map String.ofList)

def surround (mark : Char) (token : List Char) : List Char :=
  mark :: token ++ [mark]

/-- A token written so that it reads back as one: bare if it can be, else in the quotes it does
not contain, else as adjacent quotations. -/
def quoteChars (token : List Char) : List Char :=
  if !token.isEmpty && !token.any (fun c => Text.isBlank c || isQuote c) then token
  else if !token.contains '"' then surround '"' token
  else if !token.contains '\'' then surround '\'' token
  else ['\'', '"', '\''].intercalate ((Text.splitChars '"' token).map (surround '"'))

/-- A token written so that `tokenize` reads it back. -/
def quote (token : String) : String :=
  String.ofList (quoteChars token.toList)

/-- A message whose tokens are the given ones. -/
def join (tokens : List String) : String :=
  " ".intercalate (tokens.map quote)

end Guildhall.Command
