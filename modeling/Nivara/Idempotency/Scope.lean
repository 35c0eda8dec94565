import Mathlib.Algebra.GroupWithZero.Nat
import Nivara.Realtime.Rooms

/-! Which idempotency records a request reaches, from `auth/principal-ref.ts`, `auth/request-principal.ts`,
`idempotency/idempotency-scope.ts`, `integrations/job-kinds.ts` and the head of
`idempotency/idempotency.interceptor.ts`. The scope is one string, and it is all that keeps callers apart. -/
namespace Nivara.Idempotency

structure Id where
  text : String
  valid : Realtime.isUuid text = true
  deriving DecidableEq

structure RequestTarget where
  text : String
  noSpace : ' ' ∉ text.toList
  deriving DecidableEq

inductive PrincipalKind where
  | user | contact | widget | service
  deriving DecidableEq, Repr

inductive RequestPrincipal where
  | user (tenantId userId : Id)
  | contact (tenantId contactId : Id)
  /-- The Contact is `none` until an act needs a requester. -/
  | widget (tenantId sessionId : Id) (contactId : Option Id)
  | service (tenantId tokenId : Id)
  deriving DecidableEq

namespace RequestPrincipal

def tenantId : RequestPrincipal → Id
  | .user tenantId _ => tenantId
  | .contact tenantId _ => tenantId
  | .widget tenantId _ _ => tenantId
  | .service tenantId _ => tenantId

def kind : RequestPrincipal → PrincipalKind
  | .user _ _ => .user
  | .contact _ _ => .contact
  | .widget _ _ _ => .widget
  | .service _ _ => .service

/-- The row the credential stands for: a widget visitor is its session, whoever it turns out to be. -/
def subject : RequestPrincipal → Id
  | .user _ userId => userId
  | .contact _ contactId => contactId
  | .widget _ sessionId _ => sessionId
  | .service _ tokenId => tokenId

end RequestPrincipal

def principalRef : RequestPrincipal → String
  | .user _ userId => "u:" ++ userId.text
  | .contact _ contactId => "c:" ++ contactId.text
  | .widget _ sessionId _ => "w:" ++ sessionId.text
  | .service _ tokenId => "s:" ++ tokenId.text

def httpScope (principal : RequestPrincipal) (method path : String) : String :=
  principalRef principal ++ "|" ++ method ++ " " ++ path

def inboundEventScope (source : String) : String := source ++ ":event"

inductive Actor where
  | user (id : Id)
  | contact (id : Id)
  | service (id : Id)
  | system
  deriving DecidableEq

structure TenantContext where
  tenantId : Id
  actor : Actor
  deriving DecidableEq

/-- `none` is the `InvalidTenantContextError`. -/
def actorFor : RequestPrincipal → Option Actor
  | .user _ userId => some (.user userId)
  | .contact _ contactId => some (.contact contactId)
  | .service _ tokenId => some (.service tokenId)
  | .widget _ _ contactId => contactId.map .contact

def tenantContextFor (principal : RequestPrincipal) : Option TenantContext :=
  (actorFor principal).map fun actor => ⟨principal.tenantId, actor⟩

def systemContextFor (tenantId : Id) : TenantContext := ⟨tenantId, .system⟩

def idempotencyContextFor (principal : RequestPrincipal) : Option TenantContext :=
  match principal with
  | .widget tenantId _ none => some (systemContextFor tenantId)
  | _ => tenantContextFor principal

/-- A key of the store: the columns of its unique index. -/
structure SlotName where
  tenantId : Id
  scope : String
  key : String
  deriving DecidableEq

inductive HeaderValue where
  | absent
  | one (value : String)
  | many (values : List String)
  deriving DecidableEq, Repr

structure HttpRequest (γ : Type) where
  method : String
  idempotencyKey : HeaderValue
  principal : Option RequestPrincipal
  originalUrl : RequestTarget
  body : γ

def isTrimmed (c : Char) : Bool :=
  c = ' ' || ('\x09' ≤ c && c ≤ '\x0d') || c = '\u00a0' || c = '\u1680' || ('\u2000' ≤ c && c ≤ '\u200a') ||
    c = '\u2028' || c = '\u2029' || c = '\u202f' || c = '\u205f' || c = '\u3000' || c = '\ufeff'

def trim (value : String) : String :=
  String.ofList ((value.toList.dropWhile isTrimmed).reverse.dropWhile isTrimmed).reverse

/-- `String.prototype.length`, in UTF-16 code units. -/
def utf16Length (value : String) : Nat := (value.toList.map fun c => if c.val < 0x10000 then 1 else 2).sum

def maxKeyLength : Nat := 255

inductive Interception where
  /-- The handler runs, and the store is not asked. -/
  | passed
  | refused (code message : String)
  | guarded (slot : SlotName) (requestHash : String)
  deriving DecidableEq

def headerValue : HeaderValue → Except (String × String) (Option String)
  | .absent => .ok none
  | .one value => .ok (if trim value = "" then none else some (trim value))
  | .many _ => .error ("malformed_request", "Idempotency-Key was supplied more than once.")

section Intercept
variable {γ : Type} (requestFingerprint : γ → String)

def intercept (request : HttpRequest γ) : Interception :=
  if request.method ≠ "POST" then .passed
  else match headerValue request.idempotencyKey with
    | .error (code, message) => .refused code message
    | .ok none => .passed
    | .ok (some key) =>
      if utf16Length key > maxKeyLength then
        .refused "malformed_request" ("Idempotency-Key must be at most " ++ toString maxKeyLength ++ " characters.")
      else match request.principal with
        | none => .passed
        | some principal =>
          match idempotencyContextFor principal with
          | none => .refused "internal_error" "InvalidTenantContextError"
          | some context =>
            .guarded ⟨context.tenantId, httpScope principal request.method request.originalUrl.text, key⟩
              (requestFingerprint request.body)

end Intercept

section Scopes
variable {p q : RequestPrincipal} {method method' path path' : String}

theorem idempotencyContextFor_isSome (p : RequestPrincipal) :
    ∃ context, idempotencyContextFor p = some context ∧ context.tenantId = p.tenantId := by
  cases p with
  | widget tenantId sessionId contactId => cases contactId <;> exact ⟨_,rfl,rfl⟩
  | _ => exact ⟨_,rfl,rfl⟩

/-- A reference names the kind of caller and its row. -/
theorem principalRef_inj : principalRef p = principalRef q ↔ p.kind = q.kind ∧ p.subject = q.subject := by
  have hid : ∀ a b : Id, a.text = b.text ↔ a = b := fun a b => by cases a; cases b; simp
  cases p <;> cases q <;>
    simp [principalRef, RequestPrincipal.kind, RequestPrincipal.subject, ← String.toList_inj, String.toList_append, ← hid]

private theorem bar_notMem_id (id : Id) : '|' ∉ id.text.toList := by
  intro h
  rcases Realtime.mem_of_isUuid id.valid h with hd | hd
  · exact absurd hd (by decide)
  · exact absurd hd (by decide)

theorem bar_notMem_principalRef (p : RequestPrincipal) : '|' ∉ (principalRef p).toList := by
  cases p <;> simp [principalRef, String.toList_append, bar_notMem_id]

/-- A separator that the left parts lack is found again from the left. -/
theorem split_left {α : Type} {a : α} {l₁ l₂ r₁ r₂ : List α} (h : l₁ ++ a :: r₁ = l₂ ++ a :: r₂)
    (h₁ : a ∉ l₁) (h₂ : a ∉ l₂) : l₁ = l₂ ∧ r₁ = r₂ := by
  induction l₁ generalizing l₂ with
  | nil =>
    cases l₂ with
    | nil => exact ⟨rfl,(List.cons.inj h).2⟩
    | cons b l₂ =>
      cases (List.cons.inj h).1
      exact absurd List.mem_cons_self h₂
  | cons b l₁ ih =>
    cases l₂ with
    | nil =>
      cases (List.cons.inj h).1
      exact absurd List.mem_cons_self h₁
    | cons c l₂ =>
      obtain ⟨rfl,htail⟩ := List.cons.inj h
      obtain ⟨rfl,rfl⟩ := ih htail (fun hm => h₁ (List.mem_cons_of_mem _ hm)) fun hm => h₂ (List.mem_cons_of_mem _ hm)
      exact ⟨rfl,rfl⟩

private theorem split_right {α : Type} {a : α} {l₁ l₂ r₁ r₂ : List α} (h : l₁ ++ a :: r₁ = l₂ ++ a :: r₂)
    (h₁ : a ∉ r₁) (h₂ : a ∉ r₂) : l₁ = l₂ ∧ r₁ = r₂ := by
  have hrev : r₁.reverse ++ a :: l₁.reverse = r₂.reverse ++ a :: l₂.reverse := by
    simpa using congrArg List.reverse h
  obtain ⟨hr,hl⟩ := split_left hrev (by simpa using h₁) (by simpa using h₂)
  exact ⟨List.reverse_inj.mp hl,List.reverse_inj.mp hr⟩

private theorem toList_httpScope (p : RequestPrincipal) (method path : String) :
    (httpScope p method path).toList = (principalRef p).toList ++ '|' :: (method.toList ++ ' ' :: path.toList) := by
  simp [httpScope, String.toList_append]

/-- The scope of a request gives back its caller, its method and its URL. -/
theorem httpScope_inj {target target' : RequestTarget}
    (h : httpScope p method target.text = httpScope q method' target'.text) :
    principalRef p = principalRef q ∧ method = method' ∧ target = target' := by
  rw [← String.toList_inj, toList_httpScope, toList_httpScope] at h
  obtain ⟨href,hline⟩ := split_left h (bar_notMem_principalRef p) (bar_notMem_principalRef q)
  obtain ⟨hmethod,hpath⟩ := split_right hline target.noSpace target'.noSpace
  refine ⟨String.toList_inj.mp href,String.toList_inj.mp hmethod,?_⟩
  cases target
  cases target'
  cases String.toList_inj.mp hpath
  rfl

/-- No request has the scope of the events of a source whose name has no bar. -/
theorem httpScope_ne_inboundEventScope {source : String} (h : '|' ∉ source.toList) :
    httpScope p method path ≠ inboundEventScope source := by
  intro he
  have hmem : '|' ∈ (inboundEventScope source).toList := by
    rw [← he, toList_httpScope]
    simp
  rw [inboundEventScope, String.toList_append, List.mem_append] at hmem
  rcases hmem with hmem | hmem
  · exact h hmem
  · exact absurd hmem (by decide)

end Scopes
end Nivara.Idempotency
