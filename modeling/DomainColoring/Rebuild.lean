import DomainColoring.Json.Writer

/-!
# Rebuilding

When the mesh is to be built anew, and what its building has amounted to.
-/

namespace DomainColoring

/-- Whether the mesh is that of the current formula, view, canvas and colours. -/
inductive MeshState where
  | clean
  | dirty
deriving DecidableEq, Repr

namespace MeshState

/-- There is no mesh at first. -/
def initial : MeshState := dirty

def isDirty (s : MeshState) : Bool := s = dirty

/-- Asks for a rebuild. -/
def mark (_ : MeshState) : MeshState := dirty

/-- Whether a rebuild is due, and the state once it is done. -/
def take (s : MeshState) : Bool × MeshState := (s.isDirty, clean)

end MeshState

/-- Counts and times of rebuilds, and the size of the last mesh. -/
structure RebuildStats where
  count : Nat
  lastMs : Float
  totalMs : Float
  vertices : Nat
  singular : Nat
deriving DecidableEq, Repr

namespace RebuildStats

def zero : RebuildStats := ⟨0, 0, 0, 0, 0⟩

/-- Adds a rebuild that took `ms` milliseconds. -/
def record (s : RebuildStats) (ms : Float) (vertices singular : Nat) : RebuildStats :=
  ⟨s.count + 1, ms, s.totalMs + ms, vertices, singular⟩

/-- Milliseconds per rebuild; 0 before the first. -/
def averageMs (s : RebuildStats) : Float := if s.count = 0 then 0 else s.totalMs / s.count.toFloat

def json (s : RebuildStats) : String :=
  String.ofList <| JsonText.object
    [("rebuild_count", JsonText.count s.count),
      ("last_rebuild_ms", JsonText.number s.lastMs),
      ("total_rebuild_ms", JsonText.number s.totalMs),
      ("vertex_count", JsonText.count s.vertices),
      ("singular_vertices", JsonText.count s.singular)]

end RebuildStats

end DomainColoring
