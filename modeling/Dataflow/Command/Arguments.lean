/-!
# Command-line arguments

Arguments are read word by word against a vocabulary of options.  Options may stand before and after
the other words, up to a word `--`.  The value of an option follows it as the next word, or after an
equals sign; after a one-letter option also immediately.
-/
namespace Dataflow.Command

/-- Why arguments name no command to be executed. -/
inductive Refusal where
  /-- The user asks how the program is called. -/
  | help
  /-- The user asks which version it is. -/
  | version
  | malformed
  deriving DecidableEq

/-- What an option does to the settings that were read so far; `none` when its value is not valid,
or when it was given before. -/
inductive Effect (σ : Type) where
  | flag (set : σ → Option σ)
  | value (set : String → σ → Option σ)
  | refuse (r : Refusal)

/-- An option with its one-letter name, if it has one, and its long name. -/
structure OptionSpec (σ : Type) where
  short : Option Char
  long : String
  effect : Effect σ

/-- The words that a command understands. -/
structure Vocabulary (σ : Type) where
  options : List (OptionSpec σ)
  /-- Takes a word that is no option. -/
  operand : String → σ → Option σ
  /-- The words that end these arguments and begin those of another command. -/
  commands : List String

/-- What is left to do after an option: nothing, or to find its value. -/
abbrev Expected (σ : Type) := Option (String → σ → Option σ)

namespace Vocabulary

variable {σ : Type}

def long? (v : Vocabulary σ) (name : String) : Option (Effect σ) :=
  (v.options.find? fun o => o.long = name).map OptionSpec.effect

def short? (v : Vocabulary σ) (c : Char) : Option (Effect σ) :=
  (v.options.find? fun o => o.short = some c).map OptionSpec.effect

end Vocabulary

def accept {σ : Type} : Option σ → Except Refusal σ
  | some s => .ok s
  | none => .error .malformed

/-- Splits a text at its first equals sign. -/
def splitValue (cs : List Char) : String × Option String :=
  let name := String.ofList (cs.takeWhile (· ≠ '='))
  match cs.dropWhile (· ≠ '=') with
  | _ :: value => (name, some (String.ofList value))
  | [] => (name, none)

/-- Reads a long option without its dashes. -/
def readLong {σ : Type} (v : Vocabulary σ) (cs : List Char) (s : σ) :
    Except Refusal (σ × Expected σ) :=
  let (name, value) := splitValue cs
  match v.long? name, value with
  | none, _ => .error .malformed
  | some (.refuse r), none => .error r
  | some (.flag set), none => (accept (set s)).map fun s => (s, none)
  | some (.value set), some value => (accept (set value s)).map fun s => (s, none)
  | some (.value set), none => .ok (s, some set)
  | some _, some _ => .error .malformed

/-- Reads a group of one-letter options.  What follows one that takes a value is the value. -/
def readShort {σ : Type} (v : Vocabulary σ) : List Char → σ → Except Refusal (σ × Expected σ)
  | [], s => .ok (s, none)
  | c :: rest, s =>
    match v.short? c with
    | none => .error .malformed
    | some (.refuse r) => .error r
    | some (.flag set) =>
      match set s with
      | some s => readShort v rest s
      | none => .error .malformed
    | some (.value set) =>
      match rest with
      | [] => .ok (s, some set)
      | '=' :: value => (accept (set (String.ofList value) s)).map fun s => (s, none)
      | value => (accept (set (String.ofList value) s)).map fun s => (s, none)

/-- Whether a word has the form of an option.  A single dash has not. -/
def isOption (word : String) : Bool :=
  match word.toList with
  | '-' :: _ :: _ => true
  | _ => false

/-- Reads the first word of some arguments, if it is an option. -/
def readOption {σ : Type} (v : Vocabulary σ) (word : String) (s : σ) :
    Except Refusal (σ × Expected σ) :=
  match word.toList with
  | '-' :: '-' :: cs => readLong v cs s
  | _ :: cs => readShort v cs s
  | [] => .ok (s, none)

/-- Reads words none of which is an option. -/
def readOperands {σ : Type} (v : Vocabulary σ) (words : List String) (s : σ) : Except Refusal σ :=
  accept (words.foldlM (fun s word => v.operand word s) s)

/-- Reads arguments up to their end, or up to a word that begins other ones: the word, and what
follows it. -/
def readWords {σ : Type} (v : Vocabulary σ) :
    List String → σ → Except Refusal (σ × Option (String × List String))
  | [], s => .ok (s, none)
  | word :: rest, s =>
    if word = "--" then (readOperands v rest s).map fun s => (s, none)
    else if isOption word then
      match readOption v word s with
      | .error r => .error r
      | .ok (s, none) => readWords v rest s
      | .ok (s, some set) =>
        match rest with
        | [] => .error .malformed
        | value :: rest =>
          if isOption value then .error .malformed
          else
            match set value s with
            | some s => readWords v rest s
            | none => .error .malformed
    else if word ∈ v.commands then .ok (s, some (word, rest))
    else
      match v.operand word s with
      | some s => readWords v rest s
      | none => .error .malformed

end Dataflow.Command
