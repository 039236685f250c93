import Muduo.Base.Text
import Muduo.Foundations.Loops

/-!
# A solver of Sudoku puzzles

The solver of `examples/sudoku` turns a puzzle into a matrix with one column for each thing
that is missing: a number in an empty cell, and each value that a row, a column or a box of
the board still lacks. A row of the matrix is an empty cell with a value that does not occur
yet in its row, column and box, and meets four columns. A solution is a choice of rows that
meets every column once.

The matrix is kept as nodes that are linked in four directions. `cover` takes a column and the
rows that meet it out of the rings of the other columns, and `uncover` puts them back through
the pointers that the nodes still have.
-/

namespace Muduo

open Foundations

def kCells : ℕ := 81

def kMaxNodes : ℕ := 1 + 81 * 4 + 9 * 9 * 9 * 4

/-- A `Node*` is the position of the node in `nodes_`. -/
structure SudokuSolver where
  /-- `right` and `left` -/
  horizontal : Links ℕ
  /-- `down` and `up` -/
  vertical : Links ℕ
  col : ℕ → ℕ
  name : ℕ → ℕ
  size : ℕ → ℤ
  curNode : ℕ
  root : ℕ
  columns : ℕ → Option ℕ
  stack : List ℕ
  inout : ℕ → ℕ

namespace SudokuSolver

section Nodes

variable (s : SudokuSolver)

def right : ℕ → ℕ := s.horizontal.next

def left : ℕ → ℕ := s.horizontal.prev

def down : ℕ → ℕ := s.vertical.next

def up : ℕ → ℕ := s.vertical.prev

/-- The next of `nodes_`, linked to itself in all directions. -/
def newNode (col name : ℕ) : Except Fault (ℕ × SudokuSolver) := do
  assertThat (s.curNode < kMaxNodes)
  let n := s.curNode
  return (n, { s with
    horizontal := s.horizontal.alone n
    vertical := s.vertical.alone n
    col := Function.update s.col n col
    name := Function.update s.name n name
    size := Function.update s.size n 0
    curNode := n + 1 })

def newColumn (n : ℕ) : Except Fault (ℕ × SudokuSolver) := s.newNode s.curNode n

def putLeft (old nnew : ℕ) : SudokuSolver :=
  { s with horizontal := s.horizontal.insertBefore old nnew }

def putUp (old nnew : ℕ) : SudokuSolver :=
  { s with
    vertical := s.vertical.insertBefore old nnew
    size := Function.update s.size old (s.size old + 1)
    col := Function.update s.col nnew old }

def appendColumn (n : ℕ) : Except Fault SudokuSolver := do
  assertThat (s.columns n = none)
  let (c, s) ← s.newColumn n
  let s := s.putLeft s.root c
  return { s with columns := Function.update s.columns n (some c) }

def newRow (col : ℕ) : Except Fault (ℕ × SudokuSolver) :=
  match s.columns col with
  | none => .error .assertion
  | some c => do
    let (r, s) ← s.newNode c col
    return (r, s.putUp c r)

def getRowCol (row val : ℕ) : ℕ := 100 + row * 10 + val

def getColCol (col val : ℕ) : ℕ := 200 + col * 10 + val

def getBoxCol (box val : ℕ) : ℕ := 300 + box * 10 + val

def boxOf (i : ℕ) : ℕ := i / 9 / 3 * 3 + i % 9 / 3

def appendRow (i v : ℕ) : Except Fault SudokuSolver := do
  let (n0, s) ← s.newRow i
  let (nr, s) ← s.newRow (getRowCol (i / 9) v)
  let (nc, s) ← s.newRow (getColCol (i % 9) v)
  let (nb, s) ← s.newRow (getBoxCol (boxOf i) v)
  return ((s.putLeft n0 nr).putLeft n0 nc).putLeft n0 nb

/-- `rows`, `cols` and `boxes` of the constructor. -/
structure Used where
  rows : ℕ → ℕ → Bool
  cols : ℕ → ℕ → Bool
  boxes : ℕ → ℕ → Bool

/-- `table[i][v] = true`. -/
def mark (table : ℕ → ℕ → Bool) (i v : ℕ) : ℕ → ℕ → Bool :=
  Function.update table i (Function.update (table i) v true)

def used (board : ℕ → ℕ) : Used :=
  (List.range kCells).foldl (fun u i =>
    { rows := mark u.rows (i / 9) (board i)
      cols := mark u.cols (i % 9) (board i)
      boxes := mark u.boxes (boxOf i) (board i) })
    ⟨fun _ _ => false, fun _ _ => false, fun _ _ => false⟩

def appendCell (board : ℕ → ℕ) (i : ℕ) : Except Fault SudokuSolver :=
  if board i = 0 then s.appendColumn i else .ok s

def appendUnless (present : Bool) (n : ℕ) : Except Fault SudokuSolver :=
  if present then .ok s else s.appendColumn n

def appendValue (u : Used) (i v : ℕ) : Except Fault SudokuSolver := do
  let s ← s.appendUnless (u.rows i v) (getRowCol i v)
  let s ← s.appendUnless (u.cols i v) (getColCol i v)
  s.appendUnless (u.boxes i v) (getBoxCol i v)

def appendCandidate (u : Used) (i v : ℕ) : Except Fault SudokuSolver :=
  if u.rows (i / 9) v || u.cols (i % 9) v || u.boxes (boxOf i) v then .ok s else s.appendRow i v

def values : List ℕ := List.range' 1 9

def appendCandidates (board : ℕ → ℕ) (u : Used) (i : ℕ) : Except Fault SudokuSolver :=
  if board i = 0 then values.foldlM (fun s v => s.appendCandidate u i v) s else .ok s

end Nodes

/-- The memory before the constructor; what is in the nodes does not matter. -/
def blank (board : ℕ → ℕ) : SudokuSolver where
  horizontal := ⟨id, id⟩
  vertical := ⟨id, id⟩
  col := id
  name _ := 0
  size _ := 0
  curNode := 0
  root := 0
  columns _ := none
  stack := []
  inout := board

def make (board : ℕ → ℕ) : Except Fault SudokuSolver := do
  let (root, s) ← (blank board).newColumn 0
  let s := { s with root := root }
  let u := used board
  let s ← (List.range kCells).foldlM (fun s i => s.appendCell board i) s
  let s ← (List.range 9).foldlM
    (fun s i => values.foldlM (fun s v => s.appendValue u i v) s) s
  (List.range kCells).foldlM (fun s i => s.appendCandidates board u i) s

section Search

variable (s : SudokuSolver)

/-- The loop of `getMinColumn`: `c` has been the smallest so far. -/
def scanColumns : ℕ → ℕ → ℕ → Except Fault ℕ
  | 0, _, _ => .error .endless
  | fuel + 1, c, cc =>
    if cc = s.root then .ok c
    else if s.size cc < s.size c then
      if s.size cc ≤ 1 then .ok cc else scanColumns fuel cc (s.right cc)
    else scanColumns fuel c (s.right cc)

def getMinColumn : Except Fault ℕ :=
  let c := s.right s.root
  if 1 < s.size c then s.scanColumns (kMaxNodes + 1) c (s.right c) else .ok c

/-- A node leaves the ring of its column. -/
def takeOut (j : ℕ) : SudokuSolver :=
  { s with
    vertical := s.vertical.unlink j
    size := Function.update s.size (s.col j) (s.size (s.col j) - 1) }

def putBack (j : ℕ) : SudokuSolver :=
  { s with
    vertical := s.vertical.relink j
    size := Function.update s.size (s.col j) (s.size (s.col j) + 1) }

def cover (c : ℕ) : Except Fault SudokuSolver :=
  let s := { s with horizontal := s.horizontal.unlink c }
  forEach down (fun s row =>
    forEach right (fun s j => .ok (s.takeOut j)) row (kMaxNodes + 1) s (s.right row))
    c (kMaxNodes + 1) s (s.down c)

def uncover (c : ℕ) : Except Fault SudokuSolver := do
  let s ← forEach up (fun s row =>
    forEach left (fun s j => .ok (s.putBack j)) row (kMaxNodes + 1) s (s.left row))
    c (kMaxNodes + 1) s (s.up c)
  return { s with horizontal := s.horizontal.relink c }

/-- The other columns of a row are covered, from left to right. -/
def coverOthers (row : ℕ) : Except Fault SudokuSolver :=
  forEach right (fun s j => s.cover (s.col j)) row (kMaxNodes + 1) s (s.right row)

/-- They come back, from right to left. -/
def uncoverOthers (row : ℕ) : Except Fault SudokuSolver :=
  forEach left (fun s j => s.uncover (s.col j)) row (kMaxNodes + 1) s (s.left row)

/-- What a row of the matrix says; `-1` is `none`. -/
def readRow : ℕ → Option ℕ → Option ℕ → ℕ → Except Fault (ℕ × ℕ)
  | 0, _, _, _ => .error .endless
  | fuel + 1, cell, val, n =>
    match cell, val with
    | some cell, some val => .ok (cell, val)
    | cell, val =>
      if s.name n < 100 then readRow fuel (some (s.name n)) val (s.right n)
      else readRow fuel cell (some (s.name n % 10)) (s.right n)

/-- The rows on the stack are written to the board. -/
def fill : Except Fault SudokuSolver := do
  let inout ← s.stack.foldlM (fun inout n => do
    let (cell, val) ← s.readRow (kMaxNodes + 1) none none n
    return Function.update inout cell val) s.inout
  return { s with inout := inout }

end Search

/-- The loop over the rows of the covered column `c`. -/
def tryRows (solve : SudokuSolver → Except Fault (Bool × SudokuSolver)) (c : ℕ) :
    ℕ → SudokuSolver → ℕ → Except Fault (Bool × SudokuSolver)
  | 0, _, _ => .error .endless
  | fuel + 1, s, row =>
    if row = c then do
      let s ← s.uncover c
      return (false, s)
    else do
      let s ← { s with stack := s.stack ++ [row] }.coverOthers row
      let (found, s) ← solve s
      if found then return (true, s)
      else do
        let s ← { s with stack := s.stack.dropLast }.uncoverOthers row
        tryRows solve c fuel s (s.down row)

def solve : ℕ → SudokuSolver → Except Fault (Bool × SudokuSolver)
  | 0, _ => .error .endless
  | fuel + 1, s =>
    if s.left s.root = s.root then do
      let s ← s.fill
      return (true, s)
    else do
      let c ← s.getMinColumn
      let s ← s.cover c
      tryRows (solve fuel) c (kMaxNodes + 1) s (s.down c)

end SudokuSolver

def kNoSolution : Bytes := ascii "NoSolution"

/-- `puzzle[i] - '0'` for a signed `char`. -/
def digitOf (puzzle : Bytes) (i : ℕ) : ℤ := (puzzle.getD i 0).toInt8.toInt - 48

def solveSudoku (puzzle : Bytes) : Except Fault Bytes := do
  assertThat (puzzle.length = kCells)
  if (List.range kCells).all fun i => 0 ≤ digitOf puzzle i ∧ digitOf puzzle i ≤ 9 then do
    let s ← SudokuSolver.make fun i => (digitOf puzzle i).toNat
    let (found, s) ← SudokuSolver.solve kMaxNodes s
    return if found then (List.range kCells).map fun i => UInt8.ofNat (s.inout i + 48)
      else kNoSolution
  else return kNoSolution

end Muduo
