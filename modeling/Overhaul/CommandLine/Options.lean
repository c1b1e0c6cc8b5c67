/-!
# Options

Words of a command line that begin with two dashes are options. An option is a flag, or it takes a
value, which follows an equals sign or is the next word; the next word is no value when it begins
with a dash, unless it is just a dash. Main definition: `Options.take?`.
-/

namespace Overhaul.CommandLine

/-- The options that are understood at some place. -/
structure Options where
  /-- Options without a value. -/
  flags : List String := []
  /-- Options with a value that come once at most. -/
  single : List String := []
  /-- Options with a value that may come again. -/
  repeated : List String := []
  deriving DecidableEq, Repr

/-- Options as they were given, with their values. -/
abbrev Given := List (String × Option String)

/-- What a word can be. -/
inductive Word
  /-- Two dashes alone, which end the options. -/
  | stop
  /-- The name of an option, and a value attached to it. -/
  | option (name : String) (attached : Option String)
  /-- A dash and letters, which nothing here understands. -/
  | short
  | plain
  deriving DecidableEq, Repr

/-- What the word is. -/
def Word.of (word : String) : Word :=
  match word.toList with
  | ['-', '-'] => .stop
  | '-' :: '-' :: cs =>
    let name := String.ofList (cs.takeWhile (· ≠ '='))
    match cs.dropWhile (· ≠ '=') with
    | _ :: value => .option name (some (String.ofList value))
    | [] => .option name none
  | ['-'] => .plain
  | '-' :: _ => .short
  | _ => .plain

namespace Options

/-- The options in front of the words, and the words from the first one that is none. -/
def take? (o : Options) : List String → Option (Given × List String)
  | [] => some ([], [])
  | word :: rest =>
    match Word.of word with
    | .plain => some ([], word :: rest)
    | .short => none
    | .stop => if rest = [] then some ([], []) else none
    | .option name attached =>
      if name ∈ o.flags then
        if attached.isSome then none
        else (take? o rest).map fun (given, left) => ((name, none) :: given, left)
      else if name ∈ o.single ++ o.repeated then
        match attached, rest with
        | some value, rest =>
          (take? o rest).map fun (given, left) => ((name, some value) :: given, left)
        | none, value :: rest =>
          if Word.of value = .plain then
            (take? o rest).map fun (given, left) => ((name, some value) :: given, left)
          else none
        | none, [] => none
      else none

/-- The options in front of the words, if none comes too often, and the other words. -/
def read? (o : Options) (words : List String) : Option (Given × List String) := do
  let (given, left) ← o.take? words
  if ((given.map Prod.fst).filter (· ∉ o.repeated)).Nodup then some (given, left) else none

end Options

namespace Given

/-- The option was given. -/
def has (given : Given) (name : String) : Bool := given.any fun g => g.1 = name

/-- The values of an option, in order. -/
def values (given : Given) (name : String) : List String :=
  given.filterMap fun g => if g.1 = name then g.2 else none

/-- The value of an option that has to be given. -/
def required? {α : Type} (given : Given) (name : String) (read : String → Option α) : Option α :=
  (given.values name).head?.bind read

/-- The value of an option, if it was given. -/
def optional? {α : Type} (given : Given) (name : String) (read : String → Option α) :
    Option (Option α) :=
  match (given.values name).head? with
  | none => some none
  | some s => (read s).map some

end Given

end Overhaul.CommandLine
