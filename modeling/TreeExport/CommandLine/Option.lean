/-!
# Options of a command line

An option has a name that follows two dashes, perhaps a letter that follows one, and expects a value
or none.  `Level.read` goes through the arguments of one command up to the name of a command below
it.
-/

namespace TreeExport.CommandLine

/-- What an option expects after it. -/
inductive Expected
  /-- Nothing; it may be given several times. -/
  | nothing
  /-- Nothing; the program shows how it is used. -/
  | help
  /-- Nothing; the program shows its version. -/
  | version
  /-- A path, which is not empty. -/
  | path
  /-- Any text; the option may be given several times. -/
  | texts
  /-- Any text. -/
  | text
  /-- A number of at most so many bits. -/
  | number (bits : Nat)
  /-- A number of at most 32 bits, which may have any sign as long as it is not negative. -/
  | figure
  /-- One of some words. -/
  | word (choices : List String)
  deriving Repr, DecidableEq

/-- An option; a variable of the environment may stand in for it. -/
structure Flag where
  name : String
  letter : Option Char := none
  expected : Expected
  standIn : Option String := none
  deriving Repr, DecidableEq

/-- Why the arguments lead to no command. -/
inductive Stop
  | help
  | version
  | misuse
  deriving Repr, DecidableEq

/-- The number that digits stand for. -/
def ofDigits? (digits : List Char) : Option Nat :=
  if digits.isEmpty || !digits.all Char.isDigit then none
  else some (digits.foldl (fun n c => n * 10 + (c.toNat - 48)) 0)

/-- The number of digits, with or without a plus before them. -/
def number? (text : String) : Option Nat :=
  match text.toList with
  | '+' :: digits => ofDigits? digits
  | digits => ofDigits? digits

/-- The number of digits with or without a sign before them, if it is not negative. -/
def figure? (text : String) : Option Nat :=
  match text.toList with
  | '-' :: digits => (ofDigits? digits).filter (· == 0)
  | _ => number? text

/-- The value is one that the option expects. -/
def Expected.admits : Expected → String → Bool
  | path, value => !value.isEmpty
  | number bits, value => (number? value).any (· < Nat.pow 2 bits)
  | figure, value => (figure? value).any (· < 0x100000000)
  | word choices, value => choices.contains value
  | texts, _ => true
  | text, _ => true
  | _, _ => false

/-- The option may be given several times. -/
def Expected.isRepeatable : Expected → Bool
  | nothing => true
  | texts => true
  | _ => false

/-- The options and the commands that may stand at a place. -/
structure Level where
  flags : List Flag
  commands : List String := []
  deriving Repr

/-- Options that have been given, by name, with their values. -/
abbrev Given := List (String × String)

namespace Level

/-- Adds an option that has been given with a value. -/
def give (flag : Flag) (value : String) (given : Given) : Except Stop Given :=
  if !flag.expected.admits value then .error .misuse
  else if !flag.expected.isRepeatable && given.any (·.1 == flag.name) then .error .misuse
  else .ok (given ++ [(flag.name, value)])

/-- Goes through the letters that follow one dash, none of which may expect a value. -/
def readLetters (level : Level) : List Char → Except Stop Unit
  | [] => .ok ()
  | letter :: rest =>
    match level.flags.find? (·.letter == some letter) with
    | none => .error .misuse
    | some flag =>
      match flag.expected with
      | .nothing => readLetters level rest
      | .help => .error .help
      | .version => .error .version
      | _ => .error .misuse

/-- The name and the value of an option that are joined by an equals sign, or the name alone. -/
def splitJoined (cs : List Char) : String × Option String :=
  match cs.dropWhile (· != '=') with
  | [] => (String.ofList cs, none)
  | _ :: value => (String.ofList (cs.takeWhile (· != '=')), some (String.ofList value))

/-- Goes through arguments.  The answer is what has been given and, if a command was named, its name
and the arguments after it. -/
def read (level : Level) (given : Given) :
    List String → Except Stop (Given × Option (String × List String))
  | [] => .ok (given, none)
  | argument :: rest =>
    match argument.toList with
    | ['-', '-'] => if rest.isEmpty then .ok (given, none) else .error .misuse
    | '-' :: '-' :: cs =>
      let (name, joined) := splitJoined cs
      match level.flags.find? (·.name == name) with
      | none => .error .misuse
      | some flag =>
        match flag.expected, joined, rest with
        | .nothing, none, rest => read level given rest
        | .help, none, _ => .error .help
        | .version, none, _ => .error .version
        | .nothing, some _, _ => .error .misuse
        | .help, some _, _ => .error .misuse
        | .version, some _, _ => .error .misuse
        | _, some value, rest => do read level (← give flag value given) rest
        | _, none, value :: rest =>
          if value.toList.head? == some '-' && value != "-" then .error .misuse
          else do read level (← give flag value given) rest
        | _, none, [] => .error .misuse
    | '-' :: letter :: more => do
      level.readLetters (letter :: more)
      read level given rest
    | _ =>
      if level.commands.contains argument then .ok (given, some (argument, rest))
      else .error .misuse

/-- Fills in options that have not been given from the environment. -/
def fillIn (environment : String → Option String) (given : Given) :
    List Flag → Except Stop Given
  | [] => .ok given
  | flag :: rest =>
    match flag.standIn.bind environment with
    | none => fillIn environment given rest
    | some value =>
      if given.any (·.1 == flag.name) then fillIn environment given rest
      else do fillIn environment (← give flag value given) rest

end Level

end TreeExport.CommandLine
