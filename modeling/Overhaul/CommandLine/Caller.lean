import Overhaul.Actor
import Overhaul.CommandLine.Options

/-!
# Who calls

Who calls is given by options, and by the environment where an option is missing. Somebody without a
role looks on.
-/

namespace Overhaul.CommandLine

/-- What the environment says of the caller. -/
structure Environment where
  tenant : Option String := none
  user : Option String := none
  role : Option String := none
  deriving DecidableEq, Repr

/-- What the options say of the caller. -/
structure CallerFlags where
  tenant : Option TenantId := none
  user : Option UserId := none
  role : Option Role := none
  deriving DecidableEq, Repr

/-- Why it is unknown who calls. -/
inductive CallerError
  | tenantMissing
  | tenantInvalid
  | userMissing
  | userInvalid
  | roleUnknown (cause : UnknownName)
  deriving DecidableEq, Repr

/-- The text of the message. -/
def CallerError.message : CallerError → String
  | .tenantMissing => "tenant not provided; pass --tenant or set HANGAR_ACTOR_TENANT"
  | .tenantInvalid => "invalid HANGAR_ACTOR_TENANT"
  | .userMissing => "user not provided; pass --user or set HANGAR_ACTOR_USER"
  | .userInvalid => "invalid HANGAR_ACTOR_USER"
  | .roleUnknown cause => cause.message

/-- An identifier from an option or, failing that, from the environment. -/
def identify {kind : IdKind} (option : Option (Id kind)) (fallback : Option String)
    (missing invalid : CallerError) : Except CallerError (Id kind) :=
  match option, fallback with
  | some id, _ => .ok id
  | none, none => .error missing
  | none, some s =>
    match Id.ofText? s with
    | some id => .ok id
    | none => .error invalid

namespace CallerFlags

/-- The options of a caller. -/
def options : List String := ["tenant", "user", "role"]

/-- What a person means by a name, if anything. -/
def name? {α : Type} [Named α] (s : String) : Option α := (Named.read s).toOption

/-- What the given options say of the caller. -/
def ofGiven? (given : Given) : Option CallerFlags := do
  return {
    tenant := ← given.optional? "tenant" Id.ofText?
    user := ← given.optional? "user" Id.ofText?
    role := ← given.optional? "role" name? }

/-- What later options say, and what earlier ones say besides. -/
def orElse (later earlier : CallerFlags) : CallerFlags where
  tenant := later.tenant <|> earlier.tenant
  user := later.user <|> earlier.user
  role := later.role <|> earlier.role

/-- The caller. -/
def actor (flags : CallerFlags) (env : Environment) : Except CallerError Actor := do
  let tenant ← identify flags.tenant env.tenant .tenantMissing .tenantInvalid
  let user ← identify flags.user env.user .userMissing .userInvalid
  let role ← match flags.role, env.role with
    | some role, _ => pure role
    | none, none => pure .viewer
    | none, some s => (Named.read s).mapError .roleUnknown
  return { tenant, user, role }

end CallerFlags

end Overhaul.CommandLine
