import Mathlib.Data.Int.Order.Basic
import Mathlib.Data.List.Sort
import Nivara.Pagination.Cursor
import Nivara.Text.Calendar

/-! The plan of a page, from `common/pagination/keyset.ts`, `page.ts` and `sort.ts`, and what a
database makes of it. The lists of this service are sorted by dates only. -/
namespace Nivara.Pagination
open Text

inductive SortableFieldKind where
  | date | scalar
  deriving DecidableEq, Repr

abbrev SortableFields := List (Str × SortableFieldKind)

def sortableFieldNames (fields : SortableFields) : List Str := fields.map Prod.fst

def inheritedNames : List Str :=
  ["constructor", "__defineGetter__", "__defineSetter__", "hasOwnProperty", "__lookupGetter__", "__lookupSetter__",
    "isPrototypeOf", "propertyIsEnumerable", "toString", "valueOf", "__proto__", "toLocaleString"].map units

/-- `fields[name]`; what is inherited is not `undefined`, and not `'date'`. -/
def kindOf (fields : SortableFields) (name : Str) : Option SortableFieldKind :=
  match fields.find? fun f => f.1 = name with
  | some f => some f.2
  | none => if inheritedNames.contains name then some .scalar else none

def ticketSortable : SortableFields := [(units "createdAt", .date), (units "updatedAt", .date)]

def defaultSort : Sorting := ⟨units "createdAt", .desc⟩

def parseSort (raw : Option Str) (allowed : List Str) : Except AppException Sorting :=
  match raw with
  | none => .ok defaultSort
  | some raw =>
    let direction := if (after (unit '-') raw).isSome then .desc else .asc
    let field := (after (unit '-') raw).getD raw
    if allowed.contains field then .ok ⟨field, direction⟩
    else .error ⟨.invalidSort, units "Cannot sort by '" ++ field ++ units "'. Sortable fields: " ++
      List.intercalate (units ", ") allowed ++ units "."⟩

inductive Operator where
  | lt | gt
  deriving DecidableEq, Repr

/-- What a row is compared with; an invalid `Date` has no instant. -/
inductive SeekValue where
  | date (at' : Option Int)
  | scalar (v : CursorValue)
  deriving DecidableEq

/-- The seek predicate: by id alone, or past the value, or level with it and past the id. -/
inductive Seek where
  | byId (operator : Operator) (anchorId : Str)
  | past (field : Str) (operator : Operator) (value : SeekValue) (anchorId : Str)
  deriving DecidableEq

structure KeysetPlan where
  orderBy : List (Str × Direction)
  where' : Option Seek

def orderByFor (sort : Sorting) : List (Str × Direction) :=
  if sort.field = units "id" then [(units "id", sort.direction)]
  else [(sort.field, sort.direction), (units "id", sort.direction)]

def truncate (q : ℚ) : Int := if 0 ≤ q then ⌊q⌋ else ⌈q⌉

def newDate (host : Host) : CursorValue → Option Int
  | .text s => dateParse host s
  | .number (.finite x) => timeClip (truncate x.val)
  | .number (.infinity _) => none

def decodeValue (host : Host) (value : CursorValue) : SortableFieldKind → SeekValue
  | .date => .date (newDate host value)
  | .scalar => .scalar value

def seekPast (sort : Sorting) (value : SeekValue) (anchorId : Str) : Seek :=
  let operator := match sort.direction with
    | .desc => Operator.lt
    | .asc => .gt
  if sort.field = units "id" then .byId operator anchorId else .past sort.field operator value anchorId

def otherResource : AppException :=
  ⟨.invalidCursor, units "This cursor was not issued for this resource. Restart the traversal without a cursor."⟩

def keysetPlan (base64 : Base64Decoder) (host : Host) (sort : Sorting) (cursor : Option Str) (fields : SortableFields) :
    Except AppException KeysetPlan :=
  match cursor with
  | none => .ok ⟨orderByFor sort, none⟩
  | some cursor => do
    let position ← decodeCursor base64 cursor
    assertCursorMatchesSort position sort
    match kindOf fields position.sort.field with
    | none => .error otherResource
    | some kind => .ok ⟨orderByFor sort, some (seekPast sort (decodeValue host position.value kind) position.id)⟩

inductive Column where
  | date (t : Instant)
  | text (s : Str)
  | number (x : Double)

/-- The rows of a resource: their ids, what the database reads an id as, and their columns. -/
structure Resource (Row κ : Type) where
  id : Row → Str
  key : Str → κ
  column : Row → Str → Option Column

structure Page (Row : Type) where
  data : List Row
  nextCursor : Option Str

/-- `sortValueOf`; `none` is the programming error of a field that was not selected. -/
def sortValueOf : Option Column → Option CursorValue
  | some (.date t) => some (.text (toISOString t))
  | some (.text s) => some (.text s)
  | some (.number x) => some (.number (.finite x))
  | none => none

section Queries
variable {Row κ : Type} (R : Resource Row κ)

def buildPage (rows : List Row) (limit : ℕ) (sort : Sorting) : Option (Page Row) :=
  let hasMore : Bool := limit < rows.length
  let data := if hasMore then rows.take limit else rows
  match if hasMore then data.getLast? else none with
  | none => some ⟨data, none⟩
  | some anchor => (sortValueOf (R.column anchor sort.field)).map fun value =>
      ⟨data, some (encodeCursor ⟨sort, value, R.id anchor⟩)⟩

variable [LinearOrder κ]

def Operator.holds {β : Type} [LinearOrder β] : Operator → β → β → Bool
  | .lt, a, b => a < b
  | .gt, a, b => b < a

def Seek.admits (r : Row) : Seek → Bool
  | .byId operator anchorId => operator.holds (R.key (R.id r)) (R.key anchorId)
  | .past field operator value anchorId =>
    match R.column r field, value with
    | some (.date t), .date (some at') =>
      operator.holds t.1 at' || (t.1 = at' && operator.holds (R.key (R.id r)) (R.key anchorId))
    | _, _ => false

def compareColumn (field : Str) (r r' : Row) : Ordering :=
  if field = units "id" then compare (R.key (R.id r)) (R.key (R.id r'))
  else match R.column r field, R.column r' field with
    | some (.date t), some (.date t') => compare t.1 t'.1
    | _, _ => .eq

def comesFirst : List (Str × Direction) → Row → Row → Bool
  | [], _, _ => true
  | (field, direction) :: terms, r, r' =>
    match compareColumn R field r r' with
    | .lt => direction = .asc
    | .gt => direction = .desc
    | .eq => comesFirst terms r r'

def findMany (plan : KeysetPlan) (take : ℕ) (rows : List Row) : List Row :=
  ((rows.filter fun r => plan.where'.all (Seek.admits R r)).insertionSort
    fun r r' => comesFirst R plan.orderBy r r' = true).take take

/-- A list endpoint, over the rows that its filters and the policies leave it. -/
def list (base64 : Base64Decoder) (host : Host) (fields : SortableFields) (sort : Sorting) (limit : ℕ) (rows : List Row)
    (cursor : Option Str) : Except AppException (Option (Page Row)) := do
  let plan ← keysetPlan base64 host sort cursor fields
  .ok (buildPage R (findMany R plan (limit + 1) rows) limit sort)

end Queries
end Nivara.Pagination
