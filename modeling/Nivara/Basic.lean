import Mathlib.Init

/-! Scalars shared by the models of the services. Instants are `Int`, in milliseconds. -/
namespace Nivara

/-- Identifiers; which one a row gets is never looked at, only whether two agree. -/
abbrev Uuid := Nat

end Nivara
