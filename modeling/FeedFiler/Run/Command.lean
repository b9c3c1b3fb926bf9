/-!
# Commands

What the command line asks for: `ingest --feed NAME FILE…` or `replay --route NAME FILE…`, each with
a configuration file.
-/

namespace FeedFiler

/-- The two kinds of runs. -/
inductive Command.Kind where
  | ingest
  | replay
deriving DecidableEq, Repr

/-- A run. -/
structure Command where
  kind : Command.Kind
  /-- The file of the configuration. -/
  config : String := "feeds.toml"
  /-- The feed or the route. -/
  name : Option String := none
  /-- The input files in their order. -/
  files : List String := []
deriving Repr

namespace Command

/-- How to ask for a run. -/
def usage : String :=
  "usage: ingest [--config FILE] --feed NAME FILE...\n" ++
  "       replay [--config FILE] --route NAME FILE..."

/-- The options that name what a run of some kind reads. -/
def nameOptions : Kind → List String
  | .ingest => ["--feed", "-f"]
  | .replay => ["--route", "-r"]

/-- Reads the words after the kind of a run. -/
def readWords (c : Command) : List String → Option Command
  | [] => some c
  | word :: words =>
    if word = "--config" ∨ word = "-c" then
      match words with
      | path :: words => readWords { c with config := path } words
      | [] => none
    else if word ∈ nameOptions c.kind then
      match words with
      | name :: words => readWords { c with name := some name } words
      | [] => none
    else if word.startsWith "-" then none
    else readWords { c with files := c.files ++ [word] } words

/-- The run that a command line asks for. -/
def parse? (words : List String) : Option Command := do
  let c ← match words with
    | "ingest" :: words => readWords { kind := .ingest } words
    | "replay" :: words => readWords { kind := .replay } words
    | _ => none
  guard (c.name.isSome ∧ ¬ c.files.isEmpty)
  some c

end Command

end FeedFiler
