import Mathlib.Data.List.Basic
import Mathlib.Data.List.Dedup

/-! Who may do what, from `authz/permissions.ts`, and what of it a machine may be granted, from
`authz/service-scopes.ts`. -/
namespace Nivara.Authz

inductive Permission where
  | ticketRead | ticketCreate | ticketReply | ticketTransition | ticketAssign | ticketPriority
  | noteRead | noteWrite | contactRead | analyticsRead | userRead
  | ticketClose | ticketDelete | userInvite | userDeactivate | slaConfigure | tokenManage | auditRead
  deriving DecidableEq, Repr

def Permission.text : Permission → String
  | .ticketRead => "ticket:read"
  | .ticketCreate => "ticket:create"
  | .ticketReply => "ticket:reply"
  | .ticketTransition => "ticket:transition"
  | .ticketAssign => "ticket:assign"
  | .ticketPriority => "ticket:priority"
  | .noteRead => "note:read"
  | .noteWrite => "note:write"
  | .contactRead => "contact:read"
  | .analyticsRead => "analytics:read"
  | .userRead => "user:read"
  | .ticketClose => "ticket:close"
  | .ticketDelete => "ticket:delete"
  | .userInvite => "user:invite"
  | .userDeactivate => "user:deactivate"
  | .slaConfigure => "sla:configure"
  | .tokenManage => "token:manage"
  | .auditRead => "audit:read"

def permissions : List Permission :=
  [.ticketRead, .ticketCreate, .ticketReply, .ticketTransition, .ticketAssign, .ticketPriority, .noteRead, .noteWrite,
    .contactRead, .analyticsRead, .userRead, .ticketClose, .ticketDelete, .userInvite, .userDeactivate, .slaConfigure,
    .tokenManage, .auditRead]

def supportWork : List Permission :=
  [.ticketRead, .ticketCreate, .ticketReply, .ticketTransition, .ticketAssign, .ticketPriority, .noteRead, .noteWrite,
    .contactRead, .analyticsRead, .userRead]

inductive UserRole where
  | agent | admin
  deriving DecidableEq, Repr

def rolePermissions : UserRole → List Permission
  | .agent => supportWork
  | .admin => supportWork ++ [.ticketClose, .ticketDelete, .userInvite, .userDeactivate, .slaConfigure, .tokenManage, .auditRead]

/-- A principal, as far as its authority is looked at. A role that was retired is none. -/
inductive Principal where
  | user (role : Option UserRole)
  | contact
  | widget
  | service (scopes : List Permission)

def permissionsFor : Principal → List Permission
  | .service scopes => scopes.dedup
  | .user role => (role.map rolePermissions).getD []
  | _ => []

def assignableScopes : List Permission := supportWork

def ungrantableScopes : List Permission := permissions.filter fun permission => !assignableScopes.contains permission

inductive ScopeVerdict where
  | accept (scopes : List Permission)
  | unknown (offending : List String)
  | forbidden (offending : List Permission)
  | empty
  deriving DecidableEq, Repr

def permissionNamed (name : String) : Option Permission := permissions.find? fun permission => permission.text = name

def classifyScopes (requested : List String) : ScopeVerdict :=
  let deduplicated := requested.eraseDups
  if deduplicated = [] then .empty
  else
    let unknown := deduplicated.filter fun scope => (permissionNamed scope).isNone
    if unknown ≠ [] then .unknown unknown
    else
      let scopes := deduplicated.filterMap permissionNamed
      let forbidden := scopes.filter fun scope => !assignableScopes.contains scope
      if forbidden ≠ [] then .forbidden forbidden else .accept scopes

def grantedScopes (stored : List String) : List Permission :=
  stored.filterMap fun scope => assignableScopes.find? fun permission => permission.text = scope

theorem mem_grantedScopes {stored : List String} {x : Permission} (h : x ∈ grantedScopes stored) :
    x.text ∈ stored ∧ x ∈ assignableScopes := by
  obtain ⟨scope,hscope,hx⟩ := List.mem_filterMap.mp h
  have htext : x.text = scope := by simpa using List.find?_some hx
  exact ⟨htext ▸ hscope,List.mem_of_find?_eq_some hx⟩

/-- What may be granted and what may not have nothing in common. -/
theorem not_ungrantable {x : Permission} (h : x ∈ assignableScopes) : x ∉ ungrantableScopes := by
  intro hx
  simpa [h] using (List.mem_filter.mp hx).2

/-- The permissions of a machine are among those stored, and are support work, whoever wrote the column. -/
theorem permissionsFor_service {stored : List String} {x : Permission}
    (h : x ∈ permissionsFor (.service (grantedScopes stored))) :
    x.text ∈ stored ∧ x ∈ supportWork ∧ x ∉ ungrantableScopes := by
  obtain ⟨hstored,hwork⟩ := mem_grantedScopes (List.mem_dedup.mp h)
  exact ⟨hstored,hwork,not_ungrantable hwork⟩

end Nivara.Authz
