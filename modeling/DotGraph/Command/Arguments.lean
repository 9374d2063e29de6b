import DotGraph.Command

namespace DotGraph

/-! Command lines.  A flag is a word that starts with a hyphen; some flags have a value, in the same
word or in the next one.  Short flags may share a word. -/

inductive Flag where
  | verbose
  | quiet
  | config
  | path
  | output
  | pretty
  | summary
  | json
  | version
deriving DecidableEq, Repr

namespace Flag

def all : List Flag :=
  [verbose, quiet, config, path, output, pretty, summary, json, version]

def name : Flag → String
  | verbose => "verbose"
  | quiet => "quiet"
  | config => "config"
  | path => "path"
  | output => "output"
  | pretty => "pretty"
  | summary => "summary"
  | json => "json"
  | version => "version"

def letter? : Flag → Option Char
  | verbose => some 'v'
  | quiet => some 'q'
  | config => some 'c'
  | path => some 'p'
  | output => some 'o'
  | version => some 'V'
  | pretty | summary | json => none

def hasValue : Flag → Bool
  | config | path | output => true
  | _ => false

/-- These flags may stand on either side of the command. -/
def isGlobal : Flag → Bool
  | verbose | quiet | config => true
  | _ => false

def named? (name : String) : Option Flag :=
  all.find? fun flag => flag.name = name

def lettered? (letter : Char) : Option Flag :=
  all.find? fun flag => flag.letter? = some letter

end Flag

inductive Verb where
  | convert
  | parse
  | tokens
  | validate
deriving DecidableEq, Repr

namespace Verb

def named? : String → Option Verb
  | "convert" => some convert
  | "parse" => some parse
  | "tokens" => some tokens
  | "validate" => some validate
  | _ => none

def allows (verb : Verb) (flag : Flag) : Bool :=
  flag.isGlobal ||
    match verb, flag with
    | convert, .path | convert, .output | convert, .pretty | convert, .summary => true
    | parse, .pretty => true
    | validate, .json => true
    | _, _ => false

end Verb

/-- Why a command line is none. -/
inductive UsageFault where
  | missingCommand
  | unknownCommand (name : String)
  | unknownFlag (text : String)
  | missingValue (flag : Flag)
  | emptyValue (flag : Flag)
  | unwantedValue (flag : Flag)
  | repeatedFlag (flag : Flag)
  | surplusInput (text : String)
deriving DecidableEq, Repr

def UsageFault.message : UsageFault → String
  | missingCommand => "a command is missing"
  | unknownCommand name => "there is no command " ++ name
  | unknownFlag text => "there is no flag " ++ text ++ " here"
  | missingValue flag => "the flag --" ++ flag.name ++ " needs a value"
  | emptyValue flag => "the value of --" ++ flag.name ++ " is empty"
  | unwantedValue flag => "the flag --" ++ flag.name ++ " has no value"
  | repeatedFlag flag => "the flag --" ++ flag.name ++ " is there twice"
  | surplusInput text => "there is no place for " ++ text

namespace Arguments

/-- A part of a command line.  Behind two hyphens all words are operands. -/
inductive Item where
  | flag (flag : Flag) (value : Option String)
  | word (text : String)
  | operand (text : String)
  | fault (fault : UsageFault)
deriving DecidableEq, Repr

/-- The items of a word, and the flag in it that has its value in the next word. -/
structure WordItems where
  items : List Item
  open? : Option Flag := none

/-- The items of a word behind its two hyphens. -/
def longItems (text : List Char) : WordItems :=
  let name := String.ofList (text.takeWhile (· ≠ '='))
  match Flag.named? name, text.dropWhile (· ≠ '=') with
  | none, _ => ⟨[.fault (.unknownFlag ("--" ++ name))], none⟩
  | some flag, _ :: value =>
      if flag.hasValue then ⟨[.flag flag (some (String.ofList value))], none⟩
      else ⟨[.fault (.unwantedValue flag)], none⟩
  | some flag, [] => if flag.hasValue then ⟨[], some flag⟩ else ⟨[.flag flag none], none⟩

/-- A value in the word of its letter may come behind an equals sign. -/
def valueBehind : List Char → String
  | '=' :: value => String.ofList value
  | value => String.ofList value

/-- The items of a word behind its only hyphen. -/
def shortItems : List Char → WordItems
  | [] => ⟨[], none⟩
  | letter :: rest =>
      match Flag.lettered? letter with
      | none => ⟨[.fault (.unknownFlag (String.ofList ['-', letter]))], none⟩
      | some flag =>
          if flag.hasValue then
            if rest.isEmpty then ⟨[], some flag⟩
            else ⟨[.flag flag (some (valueBehind rest))], none⟩
          else
            let others := shortItems rest
            ⟨.flag flag none :: others.items, others.open?⟩

def wordItems (text : String) : WordItems :=
  match text.toList with
  | '-' :: '-' :: name => longItems name
  | '-' :: letter :: letters => shortItems (letter :: letters)
  | _ => ⟨[.word text], none⟩

/-- A word that could be a flag is no value. -/
def isValue (text : String) : Bool :=
  text = "-" || text.toList.head? ≠ some '-'

/-- The items of a command line, in their order.  The flag that is open, if there is one, takes the
first word as its value. -/
def items : Option Flag → List String → List Item
  | none, [] => []
  | some flag, [] => [.fault (.missingValue flag)]
  | some flag, text :: words =>
      if isValue text then .flag flag (some text) :: items none words
      else [.fault (.missingValue flag)]
  | none, text :: words =>
      if text = "--" then words.map .operand
      else (wordItems text).items ++ items (wordItems text).open? words

/-- What is given on one side of the command. -/
structure Given where
  verbosity : Nat := 0
  values : List (Flag × Option String) := []
  input : Option String := none

namespace Given

def has (given : Given) (flag : Flag) : Bool :=
  given.values.any fun entry => entry.1 = flag

def value? (given : Given) (flag : Flag) : Option String :=
  (given.values.lookup flag).join

/-- Only one flag may be repeated. -/
def addFlag (given : Given) (flag : Flag) (value : Option String) : Except UsageFault Given :=
  if flag = .verbose then .ok { given with verbosity := given.verbosity + 1 }
  else if given.has flag then .error (.repeatedFlag flag)
  else if flag = .config ∧ value = some "" then .error (.emptyValue flag)
  else .ok { given with values := (flag, value) :: given.values }

def addInput (given : Given) (text : String) : Except UsageFault Given :=
  match given.input with
  | none => .ok { given with input := some text }
  | some _ => .error (.surplusInput text)

end Given

/-- Reads what follows the command. -/
def readGiven (verb : Verb) : List Item → Given → Except UsageFault Given
  | [], given => .ok given
  | .fault fault :: _, _ => .error fault
  | .flag flag value :: items, given =>
      if verb.allows flag then given.addFlag flag value >>= readGiven verb items
      else .error (.unknownFlag ("--" ++ flag.name))
  | .word text :: items, given => given.addInput text >>= readGiven verb items
  | .operand text :: items, given => given.addInput text >>= readGiven verb items

def command (verb : Verb) (given : Given) : Command :=
  let input := given.input.getD "-"
  match verb with
  | .convert =>
      .convert input (given.value? .path) (given.value? .output) (given.has .pretty)
        (given.has .summary)
  | .parse => .parse input (given.has .pretty)
  | .tokens => .tokens input
  | .validate => .validate input (given.has .json)

/-- What is given behind the command goes before what is given in front of it. -/
def invocation (verb : Verb) (front behind : Given) : Invocation where
  verbosity := if behind.verbosity = 0 then front.verbosity else behind.verbosity
  quiet := behind.has .quiet || front.has .quiet
  config := (behind.value? .config).or (front.value? .config)
  command := command verb behind

end Arguments

/-- What a command line asks for. -/
inductive Request where
  | version
  | invoke (invocation : Invocation)
deriving DecidableEq, Repr

namespace Request

/-- The first thing that is wrong counts, but nothing counts behind the request for the version. -/
def ofItems : List Arguments.Item → Arguments.Given → Except UsageFault Request
  | [], _ => .error .missingCommand
  | .fault fault :: _, _ => .error fault
  | .flag flag value :: items, front =>
      if flag = .version then .ok .version
      else if flag.isGlobal then front.addFlag flag value >>= ofItems items
      else .error (.unknownFlag ("--" ++ flag.name))
  | .word name :: items, front =>
      match Verb.named? name with
      | none => .error (.unknownCommand name)
      | some verb => do
          let behind ← Arguments.readGiven verb items {}
          return .invoke (Arguments.invocation verb front behind)
  | .operand text :: _, _ => .error (.surplusInput text)

def ofArguments (arguments : List String) : Except UsageFault Request :=
  ofItems (Arguments.items none arguments) {}

end Request

end DotGraph
