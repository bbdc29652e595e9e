import PocketCalculator.Locale.Language

namespace PocketCalculator.Shell

inductive Command where
  | eval (expression : String) (degrees : Bool)
  | convert (value source target : String)
  | units (category : Option String)
  | console
deriving DecidableEq, Repr

structure Invocation where
  verbose : Bool
  noColour : Bool
  config : Option String
  language : Option Locale.Language
  command : Command
deriving DecidableEq, Repr

inductive Request where
  | run (invocation : Invocation)
  | version
  | help
  | misuse
deriving DecidableEq, Repr

namespace Request

inductive Verb where
  | eval
  | convert
  | units
  | repl
deriving DecidableEq, Repr

def Verb.ofName? : String → Option Verb
  | "eval" => some eval
  | "convert" => some convert
  | "units" => some units
  | "repl" => some repl
  | _ => none

def Verb.maxWords : Verb → Nat
  | eval => 1
  | convert => 3
  | units => 1
  | repl => 0

inductive Switch where
  | verbose
  | noColour
  | degrees
deriving DecidableEq, Repr

inductive Field where
  | config
  | language
deriving DecidableEq, Repr

/-- An option, or one of the two that are answered at once. -/
inductive Flag where
  | switch (s : Switch)
  | field (f : Field)
  | help
  | version
deriving DecidableEq, Repr

/-- The options given before the command, or those given after it. -/
structure Options where
  switches : List Switch := []
  config : Option String := none
  language : Option Locale.Language := none
deriving DecidableEq, Repr

/-- What has been read so far: the options before the command, the command, its options and its
words. -/
structure Draft where
  shared : Options := {}
  verb : Option Verb := none
  options : Options := {}
  words : List String := []
deriving DecidableEq, Repr

namespace Options

/-- No switch is given twice. -/
def add? (options : Options) (s : Switch) : Option Options :=
  if options.switches.contains s then none
  else some { options with switches := s :: options.switches }

/-- Sets an option with a value, which is given only once. A file has a name, and a language has
one of the known codes. -/
def set? (options : Options) (f : Field) (value : String) : Option Options :=
  match f with
  | .config =>
    if options.config.isSome ∨ value = "" then none else some { options with config := some value }
  | .language =>
    if options.language.isSome then none
    else (Locale.Language.ofCode? value).map fun language =>
      { options with language := some language }

end Options

/-- The options with a long name. The version is asked for before any command. -/
def longFlag? (verb : Option Verb) : String → Option Flag
  | "verbose" => some (.switch .verbose)
  | "no-color" => some (.switch .noColour)
  | "config" => some (.field .config)
  | "lang" => some (.field .language)
  | "help" => some .help
  | "degrees" => if verb = some .eval then some (.switch .degrees) else none
  | "version" => if verb = none then some .version else none
  | _ => none

def shortFlag? (verb : Option Verb) : Char → Option Flag
  | 'v' => some (.switch .verbose)
  | 'c' => some (.field .config)
  | 'l' => some (.field .language)
  | 'h' => some .help
  | 'd' => if verb = some .eval then some (.switch .degrees) else none
  | 'V' => if verb = none then some .version else none
  | _ => none

namespace Draft

def update? (draft : Draft) (change : Options → Option Options) : Option Draft :=
  match draft.verb with
  | none => (change draft.shared).map fun shared => { draft with shared }
  | some _ => (change draft.options).map fun options => { draft with options }

/-- What a command says when all arguments are read. Values after the command count before those
in front of it. -/
def finish (draft : Draft) : Request :=
  let has (s : Switch) : Bool :=
    draft.shared.switches.contains s || draft.options.switches.contains s
  let run (command : Command) : Request :=
    .run
      { verbose := has .verbose
        noColour := has .noColour
        config := draft.options.config.or draft.shared.config
        language := draft.options.language.or draft.shared.language
        command }
  match draft.verb, draft.words with
  | some .eval, [expression] => run (.eval expression (has .degrees))
  | some .convert, [value, source, target] => run (.convert value source target)
  | some .units, [] => run (.units none)
  | some .units, [category] => run (.units (some category))
  | some .repl, [] => run .console
  | _, _ => .misuse

end Draft

/-- The result of reading one argument with options: to be gone on with, perhaps waiting for a
value, or an answer. -/
inductive Progress where
  | more (draft : Draft) (waiting : Option Field)
  | answer (request : Request)

/-- Reads a long option, whose value may be attached with an equals sign. -/
def readLong (draft : Draft) (name : List Char) : Progress :=
  let value :=
    match name.dropWhile (· ≠ '=') with
    | _ :: value => some (String.ofList value)
    | [] => none
  match longFlag? draft.verb (String.ofList (name.takeWhile (· ≠ '='))), value with
  | some (.switch s), none =>
    match draft.update? (·.add? s) with
    | some draft => .more draft none
    | none => .answer .misuse
  | some (.field f), none => .more draft (some f)
  | some (.field f), some value =>
    match draft.update? (·.set? f value) with
    | some draft => .more draft none
    | none => .answer .misuse
  | some .help, none => .answer .help
  | some .version, none => .answer .version
  | _, _ => .answer .misuse

/-- Reads short options that are written together. What follows an option with a value is the
value, perhaps after an equals sign. -/
def readShort (draft : Draft) : List Char → Progress
  | [] => .more draft none
  | c :: rest =>
    match shortFlag? draft.verb c with
    | some (.switch s) =>
      match draft.update? (·.add? s) with
      | some draft => readShort draft rest
      | none => .answer .misuse
    | some (.field f) =>
      if rest.isEmpty then .more draft (some f)
      else
        let value := if rest.head? = some '=' then rest.drop 1 else rest
        match draft.update? (·.set? f (String.ofList value)) with
        | some draft => .more draft none
        | none => .answer .misuse
    | some .help => .answer .help
    | some .version => .answer .version
    | none => .answer .misuse

/-- Whether a text is digits with at most one point and one letter `e`, neither of them at the
start, the point before the letter, and the letter not at the end. -/
def isNumber (cs : List Char) : Bool :=
  let before := cs.takeWhile (· ≠ 'e')
  let digits (cs : List Char) : Bool := cs.all Char.isDigit
  let simple :=
    match before.dropWhile Char.isDigit with
    | '.' :: rest => before.head? ≠ some '.' && digits rest
    | rest => rest.isEmpty
  simple &&
    match cs.dropWhile (· ≠ 'e') with
    | [] => true
    | _ :: power => !before.isEmpty && !power.isEmpty && digits power

/-- Whether an argument that starts with a dash is a number that may be the value to convert. -/
def isNegativeValue (draft : Draft) (cs : List Char) : Bool :=
  draft.verb = some .convert && draft.words.isEmpty && isNumber cs

/-- The names after `help` are those of a command, or nothing. -/
def readHelp (names : List String) : Request :=
  match names with
  | [] => .help
  | [name] => if (Verb.ofName? name).isSome || name = "help" then .help else .misuse
  | _ => .misuse

/-- A word is a value that is waited for, or a word of the command. -/
def readWord (draft : Draft) (waiting : Option Field) (word : String) : Option Draft :=
  match waiting with
  | some f => draft.update? (·.set? f word)
  | none =>
    match draft.verb with
    | none => none
    | some verb =>
      if draft.words.length < verb.maxWords then some { draft with words := draft.words ++ [word] }
      else none

/-- Reads arguments. After two dashes alone there are only words. -/
def read (draft : Draft) (waiting : Option Field) (wordsOnly : Bool) : List String → Request
  | [] => if waiting.isSome then .misuse else draft.finish
  | arg :: rest =>
    let word : Request :=
      match readWord draft waiting arg with
      | some draft => read draft none wordsOnly rest
      | none => .misuse
    if wordsOnly then word
    else
      let start : Option Verb :=
        if waiting.isNone ∧ draft.verb.isNone then Verb.ofName? arg else none
      match start with
      | some verb => read { draft with verb := some verb } none false rest
      | none =>
        if arg = "help" ∧ waiting.isNone ∧ draft.verb.isNone then readHelp rest
        else
          let step (progress : Progress) : Request :=
            if waiting.isSome then .misuse
            else
              match progress with
              | .more draft waiting => read draft waiting false rest
              | .answer request => request
          match arg.toList with
          | ['-', '-'] => if waiting.isSome then .misuse else read draft none true rest
          | '-' :: '-' :: name => step (readLong draft name)
          | '-' :: c :: cs =>
            if isNegativeValue draft (c :: cs) then word else step (readShort draft (c :: cs))
          | _ => word

def ofArguments (arguments : List String) : Request := read {} none false arguments

end Request

end PocketCalculator.Shell
