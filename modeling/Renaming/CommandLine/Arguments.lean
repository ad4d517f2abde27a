/-!
The words of a command line, sorted into options and operands. An option starts with two dashes; its
value follows an equals sign or is the next word. A value that starts with a dash must follow an
equals sign. Behind a word of two dashes alone everything is an operand.
-/

namespace Renaming.CommandLine

/-- How an option is used. -/
inductive Usage
  /-- At most once, without a value. -/
  | flag
  /-- At most once, with a value. -/
  | single
  /-- Any number of times, each time with a value. -/
  | repeatable
  deriving DecidableEq, Repr

/-- What is wrong with a command line. -/
inductive Misuse
  | noCommand
  | unknown (word : String)
  | noValue (option : String)
  | needlessValue (option : String)
  | repeated (option : String)
  | missing (what : String)
  | noNumber (word : String)
  deriving DecidableEq, Repr

/-- The words for what is wrong with a command line. -/
def Misuse.message : Misuse → String
  | noCommand => "a command is required: apply, check or restore"
  | unknown word => "unexpected argument '" ++ word ++ "'"
  | noValue option => "a value is required for '--" ++ option ++ "'"
  | needlessValue option => "no value is allowed for '--" ++ option ++ "'"
  | repeated option => "'--" ++ option ++ "' cannot be used more than once"
  | missing what => "required argument is missing: " ++ what
  | noNumber word => "'" ++ word ++ "' is not a number of seconds"

/-- What a command line gives. -/
structure Given where
  /-- The options in their order, each with its value; a flag has the empty one. -/
  options : List (String × String) := []
  operands : List String := []
  deriving DecidableEq, Repr

namespace Given

/-- The values of an option, in their order. -/
def values (x : Given) (option : String) : List String :=
  x.options.filterMap fun (name, value) => if name = option then some value else none

/-- The value of an option. -/
def value? (x : Given) (option : String) : Option String := (x.values option).head?

/-- Whether an option is given. -/
def has (x : Given) (option : String) : Bool := (x.value? option).isSome

/-- The same with one more option, which may have to be the only one of its name. -/
def add (x : Given) (usage : Usage) (option value : String) : Except Misuse Given :=
  if usage ≠ .repeatable ∧ x.has option then .error (.repeated option)
  else .ok { x with options := x.options ++ [(option, value)] }

end Given

/-- Whether a word is an option or looks like one. -/
def isDashed (word : String) : Bool := word.toList.head? == some '-' && word ≠ "-"

/-- The name and the value in a word that starts with two dashes. -/
def option? (word : String) : Option (String × Option String) :=
  match word.toList with
  | '-' :: '-' :: text =>
    let name := String.ofList (text.takeWhile (· != '='))
    match text.dropWhile (· != '=') with
    | [] => some (name, none)
    | _ :: value => some (name, some (String.ofList value))
  | _ => none

/-- The options that a command knows. -/
abbrev Options := List (String × Usage)

/-- What some words give besides what has been given before them. -/
def Options.read (known : Options) : List String → Given → Except Misuse Given
  | [], x => .ok x
  | word :: rest, x =>
    if word = "--" then .ok { x with operands := x.operands ++ rest }
    else
      match option? word with
      | none =>
        if isDashed word then .error (.unknown word)
        else known.read rest { x with operands := x.operands ++ [word] }
      | some (name, value?) =>
        match known.lookup name, value? with
        | none, _ => .error (.unknown word)
        | some .flag, some _ => .error (.needlessValue name)
        | some .flag, none => (x.add .flag name "").bind (known.read rest)
        | some usage, some value => (x.add usage name value).bind (known.read rest)
        | some usage, none =>
          match rest with
          | [] => .error (.noValue name)
          | value :: rest =>
            if isDashed value then .error (.noValue name)
            else (x.add usage name value).bind (known.read rest)

end Renaming.CommandLine
