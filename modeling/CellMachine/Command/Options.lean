/-!
# Command line options

A command knows options, some of which take a value, and is given words. `Options.read` sorts the
words into flags, values and positional words, or refuses them.

* A word that begins with `-` and is longer than that is an option; every other word is positional,
  and so is every word after `--`.
* A long option is written in full, its value behind `=` or in the next word, whatever that looks
  like. A flag takes no value.
* Short options may be written together behind one `-`. The first that takes a value takes all that
  follows it, or the next word if nothing does.
-/

namespace CellMachine.Options

/-- An option that a command knows. -/
structure Spec (κ : Type) where
  /-- What the option means to the command. -/
  key : κ
  /-- Its letter, if it has one. -/
  short : Option Char
  /-- Its name, dashes included. -/
  long : String
  /-- Does it take a value? -/
  takesValue : Bool

/-- What words stand for. -/
inductive Item (κ : Type) where
  /-- An option without a value. -/
  | flag (key : κ)
  /-- An option and its value. -/
  | value (key : κ) (text : String)
  /-- A word that is no option. -/
  | positional (text : String)
  deriving DecidableEq, Repr

variable {κ : Type}

/-- Is this word to be read as options? -/
def isOption (word : String) : Bool :=
  match word.toList with
  | '-' :: _ :: _ => true
  | _ => false

/-- Reads short options written together: what they stand for, and the last of them if it takes a
value that does not follow it. -/
def readShort (specs : List (Spec κ)) : List Char → Option (List (Item κ) × Option κ)
  | [] => some ([], none)
  | c :: rest =>
    match specs.find? fun spec => spec.short == some c with
    | none => none
    | some spec =>
      if spec.takesValue then
        match rest with
        | [] => some ([], some spec.key)
        | _ :: _ => some ([.value spec.key (.ofList rest)], none)
      else
        (readShort specs rest).map fun (items, wanting) => (.flag spec.key :: items, wanting)

/-- Reads one word of options: what it stands for, and an option that takes its value from the next
word. -/
def readWord (specs : List (Spec κ)) (word : String) : Option (List (Item κ) × Option κ) :=
  let s := word.toList
  let name := String.ofList (s.takeWhile (· ≠ '='))
  match specs.find? fun spec => spec.long == name with
  | some spec =>
    match s.dropWhile (· ≠ '='), spec.takesValue with
    | [], false => some ([.flag spec.key], none)
    | [], true => some ([], some spec.key)
    | _ :: value, true => some ([.value spec.key (.ofList value)], none)
    | _ :: _, false => none
  | none =>
    match s with
    | '-' :: '-' :: _ => none
    | _ => readShort specs (s.drop 1)

/-- Reads the words of a command line. -/
def read (specs : List (Spec κ)) : List String → Option (List (Item κ))
  | [] => some []
  | word :: words =>
    if word = "--" then some (words.map .positional)
    else if isOption word then
      match readWord specs word, words with
      | none, _ => none
      | some (items, none), words => (read specs words).map (items ++ ·)
      | some (_, some _), [] => none
      | some (items, some key), value :: words =>
        (read specs words).map (items ++ .value key value :: ·)
    else (read specs words).map (.positional word :: ·)

/-- The positional words. -/
def positionals (items : List (Item κ)) : List String :=
  items.filterMap fun
    | .positional text => some text
    | _ => none

/-- Was this flag given? -/
def hasFlag [DecidableEq κ] (items : List (Item κ)) (key : κ) : Bool :=
  items.any fun
    | .flag k => decide (k = key)
    | _ => false

/-- The values given to an option, in order. -/
def values [DecidableEq κ] (items : List (Item κ)) (key : κ) : List String :=
  items.filterMap fun
    | .value k text => if k = key then some text else none
    | _ => none

/-- The value that counts for an option given several times: the last. -/
def lastValue? [DecidableEq κ] (items : List (Item κ)) (key : κ) : Option String :=
  (values items key).getLast?

/-- The only positional word. -/
def onlyPositional? (items : List (Item κ)) : Option String :=
  match positionals items with
  | [word] => some word
  | _ => none

end CellMachine.Options
