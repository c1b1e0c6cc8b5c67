import Overhaul.Id
import Overhaul.Text.Name

/-!
# Callers

An actor is a user acting for a tenant in a role. The role decides what the actor may see (`scope`)
and do. A platform administrator sees every tenant, everyone else their own.
-/

namespace Overhaul

/-- What a caller may do. -/
inductive Role
  /-- Administers the platform; bound to no tenant. -/
  | admin
  /-- Administers one tenant. -/
  | tenantAdmin
  /-- Plans and moves work. -/
  | scheduler
  /-- Performs work. -/
  | mechanic
  /-- Looks on. -/
  | viewer
  deriving DecidableEq, Repr

instance : Named Role where
  noun := "role"
  name
    | .admin => "admin"
    | .tenantAdmin => "tenant_admin"
    | .scheduler => "scheduler"
    | .mechanic => "mechanic"
    | .viewer => "viewer"
  all := [.admin, .tenantAdmin, .scheduler, .mechanic, .viewer]

instance : LawfulNamed Role where
  ofName?_name a := by cases a <;> decide

/-- Which tenants' records a read or write may touch. -/
inductive Scope
  | all
  | only (tenant : TenantId)
  deriving DecidableEq, Repr

/-- Whether a tenant's records are in the scope. -/
def Scope.includes : Scope → TenantId → Bool
  | .all, _ => true
  | .only t, u => t = u

/-- A user acting for a tenant in a role. -/
structure Actor where
  tenant : TenantId
  user : UserId
  role : Role
  deriving DecidableEq, Repr

namespace Actor

/-- What the actor may see. -/
def scope (a : Actor) : Scope :=
  if a.role = .admin then .all else .only a.tenant

/-- The roles that may cancel work, and complete it early. -/
def managesWork (a : Actor) : Bool :=
  a.role = .scheduler || a.role = .admin

/-- The roles that may move a task's window. -/
def movesWork (a : Actor) : Bool :=
  a.role = .scheduler || a.role = .admin || a.role = .tenantAdmin

end Actor

@[simp] theorem Scope.includes_all (t : TenantId) : Scope.all.includes t = true := rfl

@[simp] theorem Scope.includes_only (t u : TenantId) : (Scope.only t).includes u = decide (t = u) :=
  rfl

end Overhaul
