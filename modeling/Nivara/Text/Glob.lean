import Mathlib.Data.List.Infix
import Nivara.Text.Units

/-! Glob patterns as Redis matches them: `*`, `?`, classes in brackets, and a backslash before a symbol that
stands for itself. -/
namespace Nivara.Text

/-- The symbols between two brackets; a single symbol is a range of one. -/
structure SymbolClass where
  negated : Bool
  ranges : List (CodeUnit × CodeUnit)

def SymbolClass.push (k : SymbolClass) (a b : CodeUnit) : SymbolClass := { k with ranges := (a, b) :: k.ranges }

def SymbolClass.has (k : SymbolClass) (c : CodeUnit) : Bool :=
  (k.ranges.any fun r => min r.1 r.2 ≤ c && c ≤ max r.1 r.2) != k.negated

inductive Piece where
  | star
  | one
  | oneOf (symbols : SymbolClass)
  | literal (c : CodeUnit)

/-- The pieces of a pattern, from the inside of a class or not. A class may lack its closing bracket. -/
def pieces : Option SymbolClass → Str → List Piece
  | none, [] => []
  | some k, [] => [.oneOf k]
  | none, c :: p =>
    if c = unit '*' then .star :: pieces none p
    else if c = unit '?' then .one :: pieces none p
    else if c = unit '[' then
      match p with
      | [] => [.oneOf ⟨false, []⟩]
      | d :: q => if d = unit '^' then pieces (some ⟨true, []⟩) q else pieces (some ⟨false, []⟩) (d :: q)
    else if c = unit '\\' then
      match p with
      | [] => [.literal c]
      | d :: q => .literal d :: pieces none q
    else .literal c :: pieces none p
  | some k, c :: p =>
    if c = unit ']' then .oneOf k :: pieces none p
    else
      match p with
      | [] => [.oneOf (k.push c c)]
      | d :: q =>
        if c = unit '\\' then pieces (some (k.push d d)) q
        else
          match q with
          | [] => pieces (some (k.push c c)) [d]
          | e :: r =>
            if d = unit '-' then pieces (some (k.push c e)) r
            else pieces (some (k.push c c)) (d :: e :: r)

def matchPieces : List Piece → Str → Bool
  | [], s => s.isEmpty
  | .star :: ps, s => s.tails.any fun t => matchPieces ps t
  | .one :: ps, _ :: s => matchPieces ps s
  | .oneOf k :: ps, c :: s => k.has c && matchPieces ps s
  | .literal d :: ps, c :: s => c == d && matchPieces ps s
  | _ :: _, [] => false

def globMatch (pattern s : Str) : Bool := matchPieces (pieces none pattern) s

def Plain (p : Str) : Prop := ∀ c ∈ p, c ≠ unit '*' ∧ c ≠ unit '?' ∧ c ≠ unit '[' ∧ c ≠ unit '\\'

theorem plain_of_all {p : Str} (h : (p.all fun c => c ≠ unit '*' ∧ c ≠ unit '?' ∧ c ≠ unit '[' ∧ c ≠ unit '\\') = true) : Plain p :=
  fun c hc => of_decide_eq_true (List.all_eq_true.mp h c hc)

theorem pieces_plain {p : Str} (h : Plain p) (rest : Str) :
    pieces none (p ++ rest) = p.map .literal ++ pieces none rest := by
  induction p with
  | nil => rfl
  | cons c p ih =>
    obtain ⟨hstar,hone,hclass,hescape⟩ := h c List.mem_cons_self
    rw [List.cons_append, pieces.eq_def]
    simp only [hstar, hone, hclass, hescape, if_false]
    rw [ih fun d hd => h d (List.mem_cons_of_mem c hd)]
    rfl

private theorem matchPieces_star (s : Str) : matchPieces [.star] s = true := by
  rw [matchPieces, List.any_eq_true]
  exact ⟨[],(List.mem_tails _ _).mpr List.nil_suffix,rfl⟩

private theorem matchPieces_literals (p s : Str) : matchPieces (p.map .literal ++ [.star]) s = true ↔ p <+: s := by
  induction p generalizing s with
  | nil => simp [matchPieces_star]
  | cons d p ih =>
    cases s with
    | nil => simp [matchPieces]
    | cons c s =>
      rw [List.map_cons, List.cons_append, matchPieces, Bool.and_eq_true, beq_iff_eq, ih, List.cons_prefix_cons, eq_comm]

/-- A plain text before a star matches what begins with the text. -/
theorem globMatch_plain_star {p : Str} (h : Plain p) (s : Str) : globMatch (p ++ [unit '*']) s = true ↔ p <+: s := by
  have hstar : pieces none [unit '*'] = [.star] := rfl
  rw [globMatch, pieces_plain h, hstar, matchPieces_literals]

end Nivara.Text
