import PageTemplate.Site
import PageTemplate.Text.Split

namespace PageTemplate

inductive Invocation
  | build (config : Path) (dryRun : Bool)
  /-- Help or the version. -/
  | information
  /-- Arguments that mean nothing. -/
  | misuse
  deriving DecidableEq

namespace CommandLine

structure Options where
  verbose : Bool := false
  dryRun : Bool := false
  config : Option Path := none
  deriving DecidableEq

inductive Step
  | go (options : Options)
  /-- The value of `config` is the next argument. -/
  | wantConfig (options : Options)
  | stop (result : Invocation)

namespace Options

def setVerbose (options : Options) : Step :=
  if options.verbose then .stop .misuse else .go { options with verbose := true }

def setDryRun (options : Options) : Step :=
  if options.dryRun then .stop .misuse else .go { options with dryRun := true }

def setConfig (options : Options) (value : String) : Step :=
  if value.isEmpty || options.config.isSome then .stop .misuse
  else .go { options with config := some (.ofText value) }

def invocation (options : Options) : Invocation :=
  .build (options.config.getD (.ofText "stanza.json")) options.dryRun

end Options

/-- Letters behind a single dash. Whatever follows the letter of an option with a value is the
value. -/
def letters (inBuild : Bool) : List Char → Options → Step
  | [], options => .go options
  | 'v' :: rest, options =>
    match options.setVerbose with
    | .go options => letters inBuild rest options
    | step => step
  | 'h' :: _, _ => .stop .information
  | 'V' :: _, _ => .stop (if inBuild then .misuse else .information)
  | 'c' :: rest, options =>
    if !inBuild then .stop .misuse
    else
      match rest with
      | [] => .wantConfig options
      | '=' :: value => options.setConfig (String.ofList value)
      | value => options.setConfig (String.ofList value)
  | _ :: _, _ => .stop .misuse

def long (inBuild : Bool) (word : List Char) (options : Options) : Step :=
  if word = "verbose".toList then options.setVerbose
  else if word = "help".toList then .stop .information
  else if word = "version".toList && !inBuild then .stop .information
  else if word = "dry-run".toList && inBuild then options.setDryRun
  else if word = "config".toList && inBuild then .wantConfig options
  else if "config=".toList.isPrefixOf word && inBuild then
    options.setConfig (String.ofList (word.drop "config=".length))
  else .stop .misuse

def option? (inBuild : Bool) (arg : String) (options : Options) : Option Step :=
  match arg.toList with
  | '-' :: '-' :: word => some (long inBuild word options)
  | '-' :: c :: rest => some (letters inBuild (c :: rest) options)
  | _ => none

def readBuild : Options → List String → Invocation
  | options, [] => options.invocation
  | options, "--" :: rest => if rest.isEmpty then options.invocation else .misuse
  | options, arg :: rest =>
    match option? true arg options with
    | none => .misuse
    | some (.stop result) => result
    | some (.go options) => readBuild options rest
    | some (.wantConfig options) =>
      match rest with
      | [] => .misuse
      | value :: rest =>
        if (option? true value options).isSome then .misuse
        else
          match options.setConfig value with
          | .go options => readBuild options rest
          | _ => .misuse

def readHelp : List String → Invocation
  | [] | ["build"] | ["help"] => .information
  | _ => .misuse

def read : Options → List String → Invocation
  | _, [] => .misuse
  | _, "build" :: rest => readBuild {} rest
  | _, "help" :: rest => readHelp rest
  | options, arg :: rest =>
    if arg = "--" then .misuse
    else
      match option? false arg options with
      | some (.stop result) => result
      | some (.go options) => read options rest
      | _ => .misuse

def setIn (width : Nat) (message : String) : String :=
  ("\n" ++ String.ofList (List.replicate width ' ')).intercalate (Text.split '\n' message)

def causeLines : List String → List String
  | [cause] => ["    " ++ setIn 4 cause]
  | causes => causes.mapIdx fun i cause => "    " ++ Text.decimalNat i ++ ": " ++ setIn 7 cause

def failureReport (headline : String) (failure : Failure) : String :=
  let lines := "\n".intercalate (causeLines failure.causes)
  "Error: " ++ headline ++ "\n\nCaused by:\n" ++ lines ++ "\n"

inductive Outcome
  | done (disk : Disk)
  | failed (headline : String) (failure : Failure)
  | information
  | misuse

def run (args : List String) (disk : Disk) : Outcome :=
  match read {} args with
  | .misuse => .misuse
  | .information => .information
  | .build path dryRun =>
    match Site.loadConfig disk path with
    | .error e => .failed ("failed to load config " ++ path.shown) e
    | .ok config =>
      match Site.build config (if dryRun then .nowhere else .disk) true disk with
      | .error e => .failed "build failed" e
      | .ok (_, finished) => .done finished.disk

end CommandLine
end PageTemplate
