import DocCoverage.Text.Pieces
/-!
# Command line — flags, options and operands

Arguments are read from left to right. A long name follows two dashes, and
an option takes the text behind an equals sign or else the next argument.
One-letter flags follow one dash and may be joined. Behind two dashes alone,
and wherever no dash is in front, stands an operand. What an argument says
is put off until the next one is understood, so that an argument that is not
understood is reported before the value in front of it.
-/

namespace DocCoverage

/-- What can be switched on. -/
inductive Flag where
  | json
  | quiet
  | verbose
  | pullRequest
  | force
  | help
  | version
deriving DecidableEq, Repr

namespace Flag

/-- The long name of a flag. -/
def name : Flag → String
  | json => "json"
  | quiet => "quiet"
  | verbose => "verbose"
  | pullRequest => "pr"
  | force => "force"
  | help => "help"
  | version => "version"

/-- The letter of a flag. -/
def letter? : Flag → Option Char
  | json => some 'j'
  | quiet => some 'q'
  | verbose => some 'v'
  | help => some 'h'
  | version => some 'V'
  | pullRequest => none
  | force => none

end Flag

/-- What can be given a value. -/
inductive ValueOption where
  | settingsFile
  | coverageFloor
  | qualityFloor
  | override
  | baseRef
  | headRef
  | directory
deriving DecidableEq, Repr

namespace ValueOption

/-- The long name of an option. -/
def name : ValueOption → String
  | settingsFile => "config"
  | coverageFloor => "fail-under"
  | qualityFloor => "min-quality"
  | override => "set"
  | baseRef => "base-ref"
  | headRef => "head-ref"
  | directory => "dir"

end ValueOption

/-- Something that arguments say. -/
inductive Given where
  | flag (flag : Flag)
  | option (option : ValueOption) (value : String)
  | operand (text : String)
deriving DecidableEq, Repr

/-- Why reading stops early. -/
inductive Stop where
  /-- The arguments make no sense. Only a malformed override has words of
  its own. -/
  | misuse (complaint : Option String)
  /-- Help was asked for. -/
  | help
  /-- The version was asked for. -/
  | version
deriving DecidableEq, Repr

/-- What a command understands, and how it takes in what it is given. -/
structure Grammar (State : Type) where
  flags : List Flag
  options : List ValueOption
  /-- The operands it takes at most. -/
  operands : Nat
  accept : State → Given → Except Stop State

/-- An argument that was read and not yet taken in. -/
inductive Pending where
  | nothing
  /-- An option whose value is still to come. -/
  | awaiting (option : ValueOption)
  | complete (given : Given)
deriving DecidableEq, Repr

/-- How far reading has come. -/
structure Reading (State : Type) where
  state : State
  pending : Pending
  /-- The operands seen. -/
  operands : Nat
  /-- Whether two dashes alone have been seen. -/
  onlyOperands : Bool

namespace Grammar

variable {State : Type}

/-- The beginning of reading. -/
def start (initial : State) : Reading State := ⟨initial, .nothing, 0, false⟩

/-- The flag of a long name. -/
def flagNamed? (grammar : Grammar State) (name : String) : Option Flag :=
  grammar.flags.find? fun flag => flag.name == name

/-- The flag of a letter. -/
def flagLettered? (grammar : Grammar State) (letter : Char) : Option Flag :=
  grammar.flags.find? fun flag => flag.letter? == some letter

/-- The option of a long name. -/
def optionNamed? (grammar : Grammar State) (name : String) : Option ValueOption :=
  grammar.options.find? fun option => option.name == name

/-- Take in what was put off. An option that still awaits its value is
misused. -/
def settle (grammar : Grammar State) (reading : Reading State) :
    Except Stop (Reading State) :=
  match reading.pending with
  | .nothing => .ok reading
  | .awaiting _ => .error (.misuse none)
  | .complete given =>
    match grammar.accept reading.state given with
    | .ok state => .ok { reading with state := state, pending := .nothing }
    | .error stop => .error stop

/-- Take something in at once, after what was put off. -/
def take (grammar : Grammar State) (reading : Reading State) (given : Given) :
    Except Stop (Reading State) :=
  match grammar.settle reading with
  | .error stop => .error stop
  | .ok settled =>
    match grammar.accept settled.state given with
    | .ok state => .ok { settled with state := state }
    | .error stop => .error stop

/-- Put something off, after taking in what was put off before. -/
def postpone (grammar : Grammar State) (reading : Reading State) (pending : Pending) :
    Except Stop (Reading State) :=
  match grammar.settle reading with
  | .error stop => .error stop
  | .ok settled => .ok { settled with pending := pending }

/-- Read an argument behind two dashes. -/
def readLong (grammar : Grammar State) (reading : Reading State) (text : List Char) :
    Except Stop (Reading State) :=
  let name := String.ofList (text.takeWhile (· != '='))
  let value? := match text.dropWhile (· != '=') with
    | [] => none
    | _ :: rest => some (String.ofList rest)
  match grammar.flagNamed? name, grammar.optionNamed? name, value? with
  | some flag, _, none => grammar.take reading (.flag flag)
  | some _, _, some _ => .error (.misuse none)
  | none, some option, some value => grammar.take reading (.option option value)
  | none, some option, none => grammar.postpone reading (.awaiting option)
  | none, none, _ => .error (.misuse none)

/-- Read joined letters, one flag each. -/
def readLetters (grammar : Grammar State) (reading : Reading State) :
    List Char → Except Stop (Reading State)
  | [] => .ok reading
  | letter :: more =>
    match grammar.flagLettered? letter with
    | none => .error (.misuse none)
    | some flag =>
      match grammar.take reading (.flag flag) with
      | .ok reading => grammar.readLetters reading more
      | .error stop => .error stop

/-- Read an operand. One too many makes no sense. -/
def readOperand (grammar : Grammar State) (reading : Reading State) (text : String) :
    Except Stop (Reading State) :=
  if reading.operands < grammar.operands then
    match grammar.postpone reading (.complete (.operand text)) with
    | .ok reading => .ok { reading with operands := reading.operands + 1 }
    | .error stop => .error stop
  else .error (.misuse none)

/-- Read an argument without dashes: the value that an option awaits, or
else an operand. -/
def readPlain (grammar : Grammar State) (reading : Reading State) (text : String) :
    Except Stop (Reading State) :=
  match reading.pending with
  | .awaiting option => .ok { reading with pending := .complete (.option option text) }
  | _ => grammar.readOperand reading text

/-- Read one argument. -/
def readArgument (grammar : Grammar State) (reading : Reading State) (text : String) :
    Except Stop (Reading State) :=
  if reading.onlyOperands then grammar.readOperand reading text
  else match text.toList with
    | ['-', '-'] => .ok { reading with onlyOperands := true }
    | '-' :: '-' :: rest => grammar.readLong reading rest
    | ['-'] => grammar.readPlain reading text
    | '-' :: letters => grammar.readLetters reading letters
    | _ => grammar.readPlain reading text

/-- Read the arguments that are left. -/
def readAll (grammar : Grammar State) (reading : Reading State) :
    List String → Except Stop State
  | [] => (grammar.settle reading).map (·.state)
  | text :: more =>
    match grammar.readArgument reading text with
    | .ok reading => grammar.readAll reading more
    | .error stop => .error stop

/-- Read arguments. -/
def read (grammar : Grammar State) (initial : State) (arguments : List String) :
    Except Stop State :=
  grammar.readAll (start initial) arguments

end Grammar

end DocCoverage
