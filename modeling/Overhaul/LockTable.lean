import Overhaul.Id

/-!
# Locks of tenants

At most one change at a time is made to the records of a tenant: who wants to make one takes the
tenant's lock and gives it back afterwards. Locks of different tenants have nothing to do with each
other. Main statements: a lock is taken exactly when it is free, and `release` frees it alone.
-/

namespace Overhaul

/-- The tenants whose locks are taken. -/
structure LockTable where
  held : List TenantId
  deriving DecidableEq, Repr

namespace LockTable

instance (locks : LockTable) (tenant : TenantId) : Decidable (tenant ∈ locks.held) := inferInstance

/-- No lock is taken. -/
def empty : LockTable := ⟨[]⟩

/-- The table after taking the tenant's lock, if it was free. -/
def acquire? (locks : LockTable) (tenant : TenantId) : Option LockTable :=
  if tenant ∈ locks.held then none else some ⟨tenant :: locks.held⟩

/-- The table after giving the tenant's lock back. -/
def release (locks : LockTable) (tenant : TenantId) : LockTable :=
  ⟨locks.held.filter (· ≠ tenant)⟩

theorem acquire?_eq_none_iff {locks : LockTable} {tenant : TenantId} :
    locks.acquire? tenant = none ↔ tenant ∈ locks.held := by
  simp [acquire?]

theorem mem_held_of_acquire? {locks locks' : LockTable} {tenant other : TenantId}
    (h : locks.acquire? tenant = some locks') :
    other ∈ locks'.held ↔ other = tenant ∨ other ∈ locks.held := by
  simp only [acquire?] at h
  split at h
  · cases h
  · cases h; simp

@[simp] theorem mem_held_release {locks : LockTable} {tenant other : TenantId} :
    other ∈ (locks.release tenant).held ↔ other ∈ locks.held ∧ other ≠ tenant := by
  simp [release]

end LockTable

end Overhaul
