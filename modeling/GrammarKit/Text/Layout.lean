import GrammarKit.Register
import GrammarKit.Text.Quoted

/-!
# Layout of named lists

A map from names to lists of names is shown on one line when it fits. Otherwise each entry starts a
line of its own, indented below the opening bracket, and the same choice is made again for its list
and then for the names in it. A name that is too long is broken behind its white space, and a name
of several lines behind its line ends.

Widths count characters. `allowance` is the room that closing marks still need behind the last
part.
-/

namespace GrammarKit.Text

set_option autoImplicit false

def lineWidth : Int := 80

def isBlank (char : Char) : Bool :=
  char = ' ' || char = '\t' || char = '\n' || char = '\r'

/-- Lines with their ends: a line feed, a carriage return or both in this order. -/
def lines : List Char → List (List Char)
  | [] => []
  | '\r' :: '\n' :: rest => ['\r', '\n'] :: lines rest
  | char :: rest =>
      if char = '\n' ∨ char = '\r' then [char] :: lines rest
      else
        match lines rest with
        | [] => [[char]]
        | line :: others => (char :: line) :: others

/-- Words, each with the white space behind it. The first word may be empty. -/
def words : List Char → List (List Char)
  | [] => []
  | [char] => [[char]]
  | char :: next :: rest =>
      match words (next :: rest) with
      | [] => [[char]]
      | word :: others =>
          if isBlank char && !isBlank next then [char] :: word :: others
          else (char :: word) :: others

def quotedWidth (text : List Char) : Int := (quotedChars text).length

/-- Fills rows with words. A row may take `room` characters, and `lastRoom` if the last word is on
it. -/
def fillRows (room lastRoom : Int) (row : List Char) : List (List Char) → List (List Char)
  | [] => if row.isEmpty then [] else [row]
  | word :: rest =>
      let limit := if rest.isEmpty then lastRoom else room
      if limit < quotedWidth (row ++ word) then
        let later := fillRows room lastRoom word rest
        if row.isEmpty then later else row :: later
      else fillRows room lastRoom (row ++ word) rest

/-- The rows of a text. Only its last line has to leave room for what comes behind. -/
def rowsOf (room allowance : Int) : List (List Char) → List (List Char)
  | [] => []
  | line :: rest =>
      let lastRoom := if rest.isEmpty then room - allowance else room
      let here :=
        if quotedWidth line ≤ lastRoom then [line] else fillRows room lastRoom [] (words line)
      here ++ rowsOf room allowance rest

def newline (indent : Nat) : String := "\n" ++ String.ofList (List.replicate indent ' ')

def layoutName (indent : Nat) (allowance : Int) (name : String) : String :=
  let whole := quoted name
  if (whole.length : Int) ≤ lineWidth - indent - allowance then whole
  else
    let rows := rowsOf (lineWidth - indent) allowance (lines name.toList)
    if rows.length ≤ 1 then whole
    else (newline indent).intercalate (rows.map fun row => String.ofList (quotedChars row))

/-- Lays out items below each other. The last one needs the room behind it, each other one the room
for a comma. -/
def layoutItems {α : Type} (layout : Int → α → String) (indent : Nat) (allowance : Int) :
    List α → String
  | [] => ""
  | [item] => layout allowance item
  | item :: rest => layout 1 item ++ "," ++ newline indent ++ layoutItems layout indent allowance rest

def layoutList (indent : Nat) (allowance : Int) (names : List String) : String :=
  let whole := quotedList names
  if (whole.length : Int) ≤ lineWidth - indent - allowance then whole
  else
    "[" ++ layoutItems (layoutName (indent + 1)) (indent + 1) (allowance + 1) names ++ "]"

def layoutEntry (indent : Nat) (allowance : Int) (entry : String × List String) : String :=
  let key := quoted entry.1
  key ++ ": " ++ layoutList (indent + key.length + 2) allowance entry.2

def layoutMap (register : Register String (List String)) : String :=
  let entries := register.ascending
  let whole := "\x7b"
    ++ ", ".intercalate (entries.map fun entry => quoted entry.1 ++ ": " ++ quotedList entry.2)
    ++ "\x7d"
  if (whole.length : Int) ≤ lineWidth then whole
  else "\x7b" ++ layoutItems (layoutEntry 1) 1 1 entries ++ "\x7d"

end GrammarKit.Text
