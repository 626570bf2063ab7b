/-
The arguments of the command line.

The grammar has four options and one positional argument, which may be missing. An option
has a short name, behind which its value or further short options may follow at once, and
a long name, which may be cut short as long as it stays unambiguous and which takes its value
behind an equals sign or as the next argument. After two dashes everything is positional; two
dashes as a value in the argument of the option itself stand for no value.

* `classify` — what a single argument is, before its neighbours are looked at;
* `tokens` — the same for all arguments;
* `expand` — the options that one argument stands for;
* `interpret` — the settings that the arguments ask for, or what is wrong with them.

Design notes: all arguments are classified before any is acted on, so an ambiguous option is
complained about first. Then options are acted on in order: the request for help ends the
reading where it stands, whatever comes later. Arguments that nothing takes are complained
about last. Something that looks like a negative number, or has a blank in it, is never taken
for an unknown option.
-/
import FourierAudit.IntegerLiteral
import FourierAudit.QuotedText

namespace FourierAudit

/-- The options of the command line. -/
inductive Switch where
  | help
  | backend
  | seed
  | timings
deriving DecidableEq, Repr

namespace Switch

def all : List Switch := [help, backend, seed, timings]

def names : Switch → List String
  | help => ["-h", "--help"]
  | backend => ["-b", "--backend"]
  | seed => ["-s", "--seed"]
  | timings => ["-t", "--timings"]

def takesValue : Switch → Bool
  | help | timings => false
  | backend | seed => true

/-- Both names as messages show them. -/
def title (s : Switch) : String := "/".intercalate s.names

def table : List (String × Switch) := all.flatMap fun s => s.names.map (·, s)

/-- The option with exactly the given name. -/
def named? (name : String) : Option Switch := table.lookup name

end Switch

/-- What is wrong with the arguments. -/
inductive ArgumentError where
  /-- A cut name that several options could be meant by. -/
  | ambiguous (given : String) (candidates : List String)
  /-- A value for an option that takes none. -/
  | ignoredValue (option : Switch) (value : String)
  /-- An option without its value. -/
  | missingValue (option : Switch)
  /-- A value that should be an integer. -/
  | invalidInteger (option : Switch) (value : String)
  /-- Arguments that nothing takes. -/
  | unrecognized (given : List String)
deriving DecidableEq, Repr

def ArgumentError.message : ArgumentError → String
  | ambiguous given candidates =>
    s!"ambiguous option: {given} could match " ++ ", ".intercalate candidates
  | ignoredValue option value =>
    s!"argument {option.title}: ignored explicit argument " ++ QuotedText.encode value
  | missingValue option => s!"argument {option.title}: expected one argument"
  | invalidInteger option value =>
    s!"argument {option.title}: invalid int value: " ++ QuotedText.encode value
  | unrecognized given => "unrecognized arguments: " ++ " ".intercalate given

/-- What a single argument is. -/
inductive ArgumentToken where
  /-- A positional argument or the value of an option. -/
  | plain (text : String)
  /-- The two dashes after which everything is positional. -/
  | separator
  /-- An option under one of its names, and what follows the name in the same argument. -/
  | option (switch : Switch) (short : Bool) (value : Option String)
  /-- Something that looks like an option. -/
  | unknown (text : String)
deriving DecidableEq, Repr

namespace ArgumentToken

/-- The parts of a text before and after its first equals sign. -/
def splitEquals (text : List Char) : Option (String × String) :=
  match text.dropWhile (· != '=') with
  | _ :: value => some (String.ofList (text.takeWhile (· != '=')), String.ofList value)
  | [] => none

/-- Whether a text is a negative number: a dash, digits, and perhaps a point with digits after
it. A single line feed at the end does no harm. -/
def isNegativeNumber (text : List Char) : Bool :=
  match text with
  | '-' :: rest =>
    let core := if rest.getLast? == some '\n' then rest.dropLast else rest
    let isDigit (c : Char) := (IntegerLiteral.digit? c).isSome
    match core.dropWhile isDigit with
    | [] => !core.isEmpty
    | '.' :: fraction => !fraction.isEmpty && fraction.all isDigit
    | _ => false
  | _ => false

/-- The options whose names a text that is no exact name could be meant for, with the value
that each would have. -/
def candidates (text : List Char) : List (String × Switch × Option String) :=
  match text with
  | '-' :: '-' :: _ =>
    let (start, value) := match splitEquals text with
      | some (start, value) => (start, some value)
      | none => (String.ofList text, none)
    (Switch.table.filter fun (name, _) => name.startsWith start).map fun (name, switch) =>
      (name, switch, value)
  | '-' :: c :: rest =>
    let short := String.ofList ['-', c]
    (Switch.table.filter fun (name, _) => name == short).map fun (name, switch) =>
      (name, switch, some (String.ofList rest))
  | _ => []

/-- What an argument is that starts with a dash, has more than one character and is no exact
name. -/
def classifyDashed (text : String) : Except ArgumentError ArgumentToken :=
  let chars := text.toList
  let isShort (name : String) := !name.startsWith "--"
  let guess : Except ArgumentError ArgumentToken :=
    match candidates chars with
    | [(name, switch, value)] => .ok (.option switch (isShort name) value)
    | [] =>
      if isNegativeNumber chars || chars.contains ' ' then .ok (.plain text)
      else .ok (.unknown text)
    | several => .error (.ambiguous text (several.map (·.1)))
  match splitEquals chars with
  | some (name, value) =>
    match Switch.named? name with
    | some switch => .ok (.option switch (isShort name) (some value))
    | none => guess
  | none => guess

/-- What a single argument is. -/
def classify (text : String) : Except ArgumentError ArgumentToken :=
  if !text.startsWith "-" then .ok (.plain text)
  else match Switch.named? text with
    | some switch => .ok (.option switch (!text.startsWith "--") none)
    | none => if text.length = 1 then .ok (.plain text) else classifyDashed text

/-- What the arguments are, each for itself. -/
def tokens : List String → Except ArgumentError (List ArgumentToken)
  | [] => .ok []
  | text :: rest =>
    if text == "--" then .ok (.separator :: rest.map .plain)
    else do
      let token ← classify text
      let others ← tokens rest
      return token :: others

/-- The argument that a token came from, for those that may be left over. -/
def text : ArgumentToken → String
  | plain text => text
  | separator => "--"
  | unknown text => text
  | option .. => ""

end ArgumentToken

/-- What the arguments ask for. -/
structure Arguments where
  precision : String := "single"
  /-- The identifiers of the backends, in order; none where two dashes stand for no value. -/
  backends : List (Option String) := []
  /-- The seed of the stimulus; none where two dashes stand for no value. -/
  seed : Option Int := some 0
  timings : Bool := false
deriving DecidableEq, Repr

/-- What to do after reading the arguments. -/
inductive Request where
  | help
  | run (arguments : Arguments)
deriving DecidableEq, Repr

namespace Arguments

/-- The flags that one argument stands for, and the last option in it with the value found
there. What follows a short flag is read as further short options; what does not start with
one is complained about as a value of the flag. -/
def expand (switch : Switch) (short : Bool) :
    Option (List Char) → Except ArgumentError (List Switch × Switch × Option String)
  | none => .ok ([], switch, none)
  | some value =>
    if switch.takesValue then .ok ([], switch, some (String.ofList value))
    else if !short then .error (.ignoredValue switch (String.ofList value))
    else chain switch value
where
  /-- The options in what follows a short flag. -/
  chain (switch : Switch) :
      List Char → Except ArgumentError (List Switch × Switch × Option String)
    | [] => .error (.ignoredValue switch "")
    | c :: rest =>
      match Switch.named? (String.ofList ['-', c]) with
      | none => .error (.ignoredValue switch (String.ofList (c :: rest)))
      | some next =>
        if rest.isEmpty then .ok ([switch], next, none)
        else if next.takesValue then .ok ([switch], next, some (String.ofList rest))
        else do
          let (flags, last) ← chain next rest
          return (switch :: flags, last)

/-- What has been read so far. -/
structure Progress where
  arguments : Arguments := {}
  /-- Whether the positional argument has been found. -/
  hasPrecision : Bool := false
  extras : List String := []

/-- The settings after an option with its value, if it has one; none if help is asked for. -/
def apply (a : Arguments) (switch : Switch) (value : Option String) :
    Except ArgumentError (Option Arguments) :=
  match switch, value with
  | .help, _ => .ok none
  | .backend, value => .ok (some { a with backends := a.backends ++ [value] })
  | .seed, none => .ok (some { a with seed := none })
  | .seed, some value =>
    match IntegerLiteral.parse? value with
    | some seed => .ok (some { a with seed := some seed })
    | none => .error (.invalidInteger switch value)
  | .timings, _ => .ok (some { a with timings := true })

/-- The settings after some flags; none if help is asked for. -/
def applyFlags : List Switch → Arguments → Except ArgumentError (Option Arguments)
  | [], a => .ok (some a)
  | flag :: rest, a => do
    match ← apply a flag none with
    | none => return none
    | some a => applyFlags rest a

/-- Reads what follows the last option: the positional argument, if it is still open, with two
dashes before or after it. -/
def readTail (p : Progress) (rest : List ArgumentToken) : Progress :=
  let leftOver (p : Progress) (rest : List ArgumentToken) : Progress :=
    { p with extras := p.extras ++ rest.map (·.text) }
  if p.hasPrecision then leftOver p rest
  else
    let rest := match rest with
      | .separator :: rest => rest
      | rest => rest
    match rest with
    | .plain text :: rest =>
      let rest := match rest with
        | .separator :: rest => rest
        | rest => rest
      leftOver { p with arguments := { p.arguments with precision := text } } rest
    | rest => leftOver p rest

def isOption : ArgumentToken → Bool
  | .option .. | .unknown _ => true
  | _ => false

/-- Acts on the arguments in order. -/
def read (p : Progress) : List ArgumentToken → Except ArgumentError (Option Progress)
  | [] => .ok (some (readTail p []))
  | .plain text :: rest =>
    if !rest.any isOption then .ok (some (readTail p (.plain text :: rest)))
    else if p.hasPrecision then read { p with extras := p.extras ++ [text] } rest
    else
      read { p with arguments := { p.arguments with precision := text }, hasPrecision := true }
        rest
  | .separator :: rest => .ok (some (readTail p (.separator :: rest)))
  | .unknown text :: rest => read { p with extras := p.extras ++ [text] } rest
  | .option switch short value :: rest => do
    let (flags, last, value) ← expand switch short (value.map String.toList)
    match last.takesValue, value, rest with
    | true, none, .plain value :: rest =>
      match ← applyFlags flags p.arguments with
      | none => return none
      | some a =>
        match ← apply a last (some value) with
        | none => return none
        | some a => read { p with arguments := a } rest
    | true, none, _ => throw (.missingValue last)
    | _, value, rest =>
      match ← applyFlags flags p.arguments with
      | none => return none
      | some a =>
        match ← apply a last (value.filter (· != "--")) with
        | none => return none
        | some a => read { p with arguments := a } rest

/-- What the arguments ask for, or what is wrong with them. -/
def interpret (given : List String) : Except ArgumentError Request := do
  let tokens ← ArgumentToken.tokens given
  match ← read {} tokens with
  | none => return .help
  | some p => if p.extras.isEmpty then return .run p.arguments else throw (.unrecognized p.extras)

end Arguments

end FourierAudit
