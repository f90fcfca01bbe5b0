/-!
Inspection texts: how a value is shown to somebody who looks into it, on one line or indented with
one part a line.
-/

namespace AttachedState

inductive Outline where
  -- A text that is the same in both layouts.
  | atom (text : String)
  | named (name : String) (parts : List (String × Outline))
  -- Some parts are not shown.
  | partly (name : String) (parts : List (String × Outline))
  | around (name : String) (part : Outline)
  | list (items : List Outline)
deriving Inhabited, Repr

inductive Layout where
  | oneLine
  | indented
deriving DecidableEq, Repr

namespace Outline

def number (n : Nat) : Outline := .atom (toString n)

-- Meant for type names, which need no escapes.
def quoted (text : String) : Outline := .atom ("\"" ++ text ++ "\"")

mutual

def oneLine : Outline → String
  | .atom text => text
  | .named name [] => name
  | .named name (part :: parts) =>
    name ++ " \x7b " ++ ", ".intercalate (oneLineParts (part :: parts)) ++ " \x7d"
  | .partly name parts =>
    name ++ " \x7b " ++ ", ".intercalate (oneLineParts parts ++ [".."]) ++ " \x7d"
  | .around name part => name ++ "(" ++ part.oneLine ++ ")"
  | .list items => "[" ++ ", ".intercalate (oneLineItems items) ++ "]"

def oneLineParts : List (String × Outline) → List String
  | [] => []
  | (label, part) :: rest => (label ++ ": " ++ part.oneLine) :: oneLineParts rest

def oneLineItems : List Outline → List String
  | [] => []
  | item :: rest => item.oneLine :: oneLineItems rest

end

def indent (line : String) : String := "    " ++ line

def startWith (start : String) : List String → List String
  | [] => [start]
  | line :: rest => (start ++ line) :: rest

def endWith (finish : String) : List String → List String
  | [] => [finish]
  | [line] => [line ++ finish]
  | line :: rest => line :: endWith finish rest

mutual

-- Each part and item ends in a comma and is indented one step more than what holds it; the mark
-- for parts that are not shown has no comma.
def lines : Outline → List String
  | .atom text => [text]
  | .named name [] => [name]
  | .named name (part :: parts) =>
    [name ++ " \x7b"] ++ (partLines (part :: parts)).map indent ++ ["\x7d"]
  | .partly name parts => [name ++ " \x7b"] ++ (partLines parts ++ [".."]).map indent ++ ["\x7d"]
  | .around name part => [name ++ "("] ++ (endWith "," part.lines).map indent ++ [")"]
  | .list [] => ["[]"]
  | .list (item :: items) => ["["] ++ (itemLines (item :: items)).map indent ++ ["]"]

def partLines : List (String × Outline) → List String
  | [] => []
  | (label, part) :: rest => startWith (label ++ ": ") (endWith "," part.lines) ++ partLines rest

def itemLines : List Outline → List String
  | [] => []
  | item :: rest => endWith "," item.lines ++ itemLines rest

end

def render (outline : Outline) : Layout → String
  | .oneLine => outline.oneLine
  | .indented => "\n".intercalate outline.lines

end Outline

end AttachedState
