/-! # Arguments

Words of a command line sorted into options and plain arguments. Every word that starts with a
dash and goes on is an option, unless it is the value of one or follows a lone `--`.
-/

namespace Gridcalc.CommandLine

/-- The options a command knows: those that take a value, and those that are just given. -/
structure OptionNames where
  valued : List String
  flags : List String

/-- Sorted words, each kind in the order in which it came. -/
structure Arguments where
  plain : List String := []
  values : List (String × String) := []
  flags : List String := []
deriving DecidableEq, Repr

namespace Arguments

def value? (a : Arguments) (name : String) : Option String :=
  (a.values.reverse.find? (·.1 == name)).map (·.2)

def valuesOf (a : Arguments) (name : String) : List String :=
  (a.values.filter (·.1 == name)).map (·.2)

def hasFlag (a : Arguments) (name : String) : Bool := a.flags.contains name

def addPlain (word : String) (a : Arguments) : Arguments := { a with plain := word :: a.plain }

def addValue (name value : String) (a : Arguments) : Arguments :=
  { a with values := (name, value) :: a.values }

def addFlag (name : String) (a : Arguments) : Arguments := { a with flags := name :: a.flags }

def isOption (word : String) : Bool := word.toList.head? == some '-' && word != "-"

/-- The parts of a text before and after the first equals sign, if it has one. -/
def splitEquals? (s : String) : Option (String × String) :=
  match s.toList.dropWhile (· != '=') with
  | [] => none
  | _ :: value => some (String.ofList (s.toList.takeWhile (· != '=')), String.ofList value)

/-- Sorts words; nothing if an option is unknown, lacks its value or has one it does not take.
If options have to come first, they end at the first plain argument. -/
def sort? (names : OptionNames) (optionsFirst : Bool) : List String → Option Arguments
  | [] => some {}
  | "--" :: words => some { plain := words }
  | word :: words =>
    if isOption word then
      match splitEquals? word with
      | some (name, value) =>
        if names.valued.contains name then
          (sort? names optionsFirst words).map (addValue name value)
        else none
      | none =>
        if names.flags.contains word then (sort? names optionsFirst words).map (addFlag word)
        else if names.valued.contains word then
          match words with
          | [] => none
          | value :: words => (sort? names optionsFirst words).map (addValue word value)
        else none
    else if optionsFirst then some { plain := word :: words }
    else (sort? names optionsFirst words).map (addPlain word)

end Arguments

end Gridcalc.CommandLine
