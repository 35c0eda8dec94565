import Nivara.Text.Bytes
import Nivara.Text.Objects

/-! The cursors of `common/pagination/cursor.ts` and the sorts they are issued under. -/
namespace Nivara.Pagination
open Text

inductive Direction where
  | asc | desc
  deriving DecidableEq, Repr

structure Sorting where
  field : Str
  direction : Direction
  deriving DecidableEq

inductive ErrorCode where
  | invalidSort | invalidCursor
  deriving DecidableEq, Repr

structure AppException where
  code : ErrorCode
  message : Str
  deriving DecidableEq

inductive CursorValue where
  | text (s : Str)
  | number (n : Number)
  deriving DecidableEq

structure CursorPosition where
  sort : Sorting
  value : CursorValue
  id : Str
  deriving DecidableEq

def cursorVersion : ℚ := 1

def malformed : AppException :=
  ⟨.invalidCursor, units "The pagination cursor is malformed. Restart the traversal without a cursor."⟩

def Direction.text : Direction → Str
  | .asc => units "asc"
  | .desc => units "desc"

def CursorValue.json : CursorValue → Json
  | .text s => .string s
  | .number n => .number n

def payload (p : CursorPosition) : Json :=
  .object [(units "v", .number (toNumber cursorVersion)), (units "f", .string p.sort.field),
    (units "d", .string p.sort.direction.text), (units "k", p.value.json), (units "i", .string p.id)]

def encodeCursor (p : CursorPosition) : Str := encodeBase64 (encodeUtf8 (payload p).stringify)

def directionOf (s : Str) : Option Direction :=
  if s = units "asc" then some .asc else if s = units "desc" then some .desc else none

def readPayload (v : Json) : Option CursorPosition :=
  match v.get (units "v"), v.get (units "f"), v.get (units "d"), v.get (units "k"), v.get (units "i") with
  | some (.number n), some (.string f), some (.string d), some k, some (.string i) =>
    if n = toNumber cursorVersion then
      (directionOf d).bind fun d =>
        match k with
        | .string s => some ⟨⟨f, d⟩, .text s, i⟩
        | .number n => some ⟨⟨f, d⟩, .number n, i⟩
        | _ => none
    else none
  | _, _, _, _, _ => none

def decodeCursor (base64 : Base64Decoder) (cursor : Str) : Except AppException CursorPosition :=
  match (parseJson (decodeUtf8 .idle (base64.decode cursor))).bind readPayload with
  | some p => .ok p
  | none => .error malformed

def assertCursorMatchesSort (p : CursorPosition) (sort : Sorting) : Except AppException Unit :=
  if p.sort.field ≠ sort.field ∨ p.sort.direction ≠ sort.direction then
    .error ⟨.invalidCursor, units "This cursor was issued for a different sort. Restart the traversal without a cursor."⟩
  else .ok ()

def CursorValue.Finite : CursorValue → Prop
  | .number (.infinity _) => False
  | _ => True

private theorem version_finite : ∃ x, toNumber cursorVersion = .finite x := by
  have h : nearestDouble 1 = some 1 := by decide +kernel
  exact ⟨⟨1,h⟩,toNumber_of_nearest h⟩

private theorem payload_finite {p : CursorPosition} (h : p.value.Finite) : (payload p).Finite := by
  obtain ⟨x,hx⟩ := version_finite
  have hvalue : p.value.json.Finite := by
    revert h
    cases p.value with
    | text s => exact fun _ => trivial
    | number n => cases n <;> exact fun h => h
  simp only [payload, hx, Json.Finite, FiniteMembers, true_and, and_true]
  exact hvalue

/-- The five names of the wire form are different and none is an index, so the value is the text's. -/
private theorem build_payload (p : CursorPosition) : (payload p).build = payload p := by
  have hvalue : p.value.json.build = p.value.json := by cases p.value <;> rfl
  have hnodup : ([(units "v", Json.number (toNumber cursorVersion)), (units "f", .string p.sort.field),
      (units "d", .string p.sort.direction.text), (units "k", p.value.json), (units "i", .string p.id)].map
      Prod.fst).Nodup := by
    simp only [List.map_cons, List.map_nil]
    decide
  simp only [payload, Json.build, buildMembers, hvalue]
  rw [entries_defineAll hnodup, propertyOrder_of_names]
  intro m hm
  simp only [List.mem_cons, List.not_mem_nil, or_false] at hm
  rcases hm with rfl | rfl | rfl | rfl | rfl <;> dsimp only <;> decide

private theorem readPayload_payload (p : CursorPosition) : readPayload (payload p) = some p := by
  have hdirection : directionOf p.sort.direction.text = some p.sort.direction := by
    cases p.sort.direction <;> decide
  have hv : (payload p).get (units "v") = some (.number (toNumber cursorVersion)) := rfl
  have hf : (payload p).get (units "f") = some (.string p.sort.field) := rfl
  have hd : (payload p).get (units "d") = some (.string p.sort.direction.text) := rfl
  have hk : (payload p).get (units "k") = some p.value.json := rfl
  have hi : (payload p).get (units "i") = some (.string p.id) := rfl
  rw [readPayload, hv, hf, hd, hk, hi]
  dsimp only
  rw [if_pos rfl, hdirection, Option.bind_some]
  obtain ⟨sort,value,id⟩ := p
  cases value <;> rfl

/-- A cursor gives back what it was made of. -/
theorem decodeCursor_encodeCursor (base64 : Base64Decoder) {p : CursorPosition} (h : p.value.Finite) :
    decodeCursor base64 (encodeCursor p) = .ok p := by
  rw [decodeCursor, encodeCursor, base64.decode_encode, decode_encodeUtf8 (isWellFormed_stringify _), parseJson,
    readText_stringify (payload_finite h), Option.map_some, build_payload, Option.bind_some, readPayload_payload]

end Nivara.Pagination
