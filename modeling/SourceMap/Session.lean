import SourceMap.Mappings.Reader
import SourceMap.OriginIndex.Record
import SourceMap.OriginIndex.Redirect

/-!
# Sessions

A session works on indexes step by step. Every index that is made gets a cell of
its own, and a name stands for a cell. A step changes the cells in place, and
nothing is taken back: a step that fails leaves the cells as they are at that
moment. In particular a mappings text is read into a new cell, segment by segment,
and a fault in the middle of the text leaves a cell with the segments up to it. No
name stands for that cell, since a name is only given once the text has been read.

Steps are small programs over loading and storing a cell. That a step which fails
has changed nothing under any name is therefore no part of this module: it is a
property of the order in which each step does its work, and a step that stored an
index before its last check would not have it. Names may be given again; the cell
that a name stood for stays.
-/

namespace SourceMap

/-- The indexes that have been made, each in its cell, and the cells that names
stand for. -/
structure Session (σ : Type := String) [DecidableEq σ] [SourceKey σ] where
  cells : List (OriginIndex σ) := []
  named : String → Option Nat := fun _ => none

namespace Session

/-- Why a step fails: it works on an index that is not there, or it meets a
fault. -/
inductive Refusal where
  | unknown (name : String)
  | fault (fault : Fault)

/-- A step of a session. Its first name is that of the index that it makes or
works on. -/
inductive Step where
  /-- Start an index under a list of sources. -/
  | start (name : String) (order : List String)
  /-- Add one target at an origin. -/
  | add (name source : String) (line column : Number) (target : Target)
  /-- Make sure of a source. -/
  | includeSource (name source : String)
  /-- Make sure of a source and of a column in it. -/
  | includeColumn (name source : String) (line column : Number)
  /-- Read a mappings text under its tables. -/
  | read (name text : String) (sources names : List String)
  /-- Take over a record, under a list of sources or else in its own order. -/
  | takeOver (name : String) (record : OriginRecord) (order : Option (List String))
  /-- Redirect an index through the lines of a file of another one. -/
  | redirect (name first second : String) (file : Option String)
  /-- Redirect an index through any table of lines. -/
  | redirectLines (name first : String) (second : LineTable)

variable {σ : Type} [DecidableEq σ] [SourceKey σ]

/-- The session with another index in a cell. -/
def put (session : Session σ) (cell : Nat) (index : OriginIndex σ) : Session σ :=
  { session with cells := session.cells.set cell index }

/-- The session with one more cell. -/
def extend (session : Session σ) (index : OriginIndex σ) : Session σ :=
  { session with cells := session.cells ++ [index] }

/-- The session in which a name stands for a cell. -/
def assign (session : Session σ) (name : String) (cell : Nat) : Session σ :=
  { session with named := fun other => if other = name then some cell else session.named other }

/-- What a step does to a session. It may fail at any point, with what it has
done by then. -/
abbrev Action (σ : Type) [DecidableEq σ] [SourceKey σ] (α : Type) : Type :=
  EStateM Refusal (Session σ) α

/-- The index in a cell. -/
def load (cell : Nat) : Action σ (OriginIndex σ) := fun session =>
  .ok (session.cells[cell]?.getD default) session

/-- Put another index into a cell. -/
def store (cell : Nat) (index : OriginIndex σ) : Action σ Unit := fun session =>
  .ok () (session.put cell index)

/-- A new cell with an index. -/
def allocate (index : OriginIndex σ) : Action σ Nat := fun session =>
  .ok session.cells.length (session.extend index)

/-- Let a name stand for a cell from now on. -/
def give (name : String) (cell : Nat) : Action σ Unit := fun session =>
  .ok () (session.assign name cell)

/-- The cell that a name stands for. -/
def cellOf (name : String) : Action σ Nat := fun session =>
  match session.named name with
  | some cell => .ok cell session
  | none => .error (.unknown name) session

/-- The index that a name stands for. -/
def fetch (name : String) : Action σ (OriginIndex σ) := do
  load (← cellOf name)

/-- Go on with what was found, or fail with the fault that was met. -/
def demand {α : Type} : Except Fault α → Action σ α
  | .ok value => pure value
  | .error fault => throw (.fault fault)

/-- Change the index of a name. -/
def change (name : String) (update : OriginIndex σ → OriginIndex σ) : Action σ Unit := do
  let cell ← cellOf name
  let index ← load cell
  store cell (update index)

/-- Make an index and give it to a name. -/
def make (name : String) (index : OriginIndex σ) : Action σ Unit := do
  let cell ← allocate index
  give name cell

/-- Read one segment into a cell. -/
def readSegment (cell : Nat) (sources : List σ) (names : List String) (line segment : Nat)
    (cursor : Cursor) (token : List Char) : Action σ Cursor := do
  let index ← load cell
  let progress ← demand (Mappings.readSegment sources names line segment ⟨cursor, index⟩ token)
  store cell progress.index
  return progress.cursor

/-- Read the segments of one generated line into a cell. -/
def readLine (cell : Nat) (sources : List σ) (names : List String) (line : Nat)
    (cursor : Cursor) (group : List Char) : Action σ Cursor :=
  if Blank.isBlankText group then pure cursor.newLine
  else
    (group.splitOn ',').zipIdx.foldlM
      (fun cursor (token, segment) => readSegment cell sources names line segment cursor token)
      cursor.newLine

/-- Read a mappings text into a cell. -/
def readText (cell : Nat) (text : String) (sources : List σ) (names : List String) :
    Action σ Cursor :=
  (text.toList.splitOn ';').zipIdx.foldlM
    (fun cursor (group, line) => readLine cell sources names line cursor group) .start

/-- Perform a step. -/
def perform : Step → Action σ Unit
  | .start name order => make name (.empty (order.map SourceKey.ofName))
  | .add name source line column target =>
    change name fun index => index.add (SourceKey.ofName source) line column target
  | .includeSource name source =>
    change name fun index => index.includeSource (SourceKey.ofName source)
  | .includeColumn name source line column =>
    change name fun index =>
      (index.includeSource (SourceKey.ofName source)).append (SourceKey.ofName source) line column
        []
  | .read name text sources names => do
    let table : List σ := sources.map SourceKey.ofName
    let cell ← allocate (table.foldl OriginIndex.includeSource (.empty table))
    let _ ← readText cell text table names
    give name cell
  | .takeOver name record order =>
    make name (.ofRecord record (order.map fun sources => sources.map SourceKey.ofName))
  | .redirect name first second file => do
    let through ← fetch second
    let index ← fetch first
    let redirected ← demand (index.redirectThrough through (file.map SourceKey.ofName))
    make name redirected
  | .redirectLines name first second => do
    let index ← fetch first
    make name (index.redirect second)

/-- The session after a step, and why the step failed if it did. -/
def advance (session : Session σ) (step : Step) : Session σ × Option Refusal :=
  match perform step session with
  | .ok _ after => (after, none)
  | .error refusal after => (after, some refusal)

/-- The session without any index. -/
def empty : Session σ := {}

/-- The session after some steps, of which any may have failed. -/
def run (session : Session σ) (steps : List Step) : Session σ :=
  steps.foldl (fun session step => (session.advance step).1) session

/-- The index of a name. -/
def index? (session : Session σ) (name : String) : Option (OriginIndex σ) :=
  (session.named name).bind fun cell => session.cells[cell]?

end Session
end SourceMap
