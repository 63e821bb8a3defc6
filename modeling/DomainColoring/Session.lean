import DomainColoring.Event.Encoding
import DomainColoring.Expr.Printer
import DomainColoring.Log
import DomainColoring.Mesh
import DomainColoring.Preset
import DomainColoring.Rebuild

/-!
# Sessions

A plot while it is used: the formula, the view, the canvas and the colours, and the mesh that was
last built from them. A change is given here by its outcome: the session it leads to, which asks for
a rebuild, or the cause of its refusal. The mesh is rebuilt only by a tick, once for all changes
since the last.
-/

namespace DomainColoring

/-- Why drawing failed. -/
inductive RenderError where
  /-- Nothing can be drawn any more. -/
  | resourceUnavailable (reason : String)
  | draw (reason : String)
deriving DecidableEq, Repr

namespace RenderError

def message : RenderError → String
  | resourceUnavailable reason => s!"Render context unavailable: {reason}"
  | draw reason => s!"Draw failed: {reason}"

/-- Whether the failure is for good. -/
def isFatal : RenderError → Bool
  | resourceUnavailable _ => true
  | draw _ => false

end RenderError

/-- Why an input event is refused. -/
inductive SessionError where
  | formula (cause : SyntaxError)
  | input (cause : InputError Float)
  /-- The text is no event. -/
  | malformedEvent
deriving DecidableEq, Repr

structure Session where
  preset : Preset
  view : View Float
  canvas : Canvas
  expression : Expr
  /-- The text of the expression as it was committed. -/
  source : String
  colors : ColorSettings Float
  state : MeshState
  mesh : Mesh
  stats : RebuildStats
  /-- The fatal failure to draw, once there was one. -/
  failure : Option RenderError
deriving DecidableEq, Repr

namespace Session

/-- Refuses a canvas whose mesh exceeds the budget of the preset. -/
def checkBudget (preset : Preset) (canvas : Canvas) : Except (InputError Float) Unit :=
  let vertices := plannedVertexCount canvas preset.meshUnit
  if preset.maxVertices < vertices then
    .error (.meshTooLarge canvas vertices preset.maxVertices)
  else .ok ()

/-- The formula of a preset with its text; the identity if it does not compile. -/
def initialFormula (preset : Preset) : Expr × String :=
  match compile preset.compile preset.defaultExpression with
  | .ok e => (e, preset.defaultExpression)
  | .error _ => (.identity, "z")

/-- A session on any canvas. -/
def start (preset : Preset) (canvas : Canvas) : Session where
  preset := preset
  view := preset.defaultView
  canvas := canvas
  expression := (initialFormula preset).1
  source := (initialFormula preset).2
  colors := preset.colors
  state := .initial
  mesh := .empty
  stats := .zero
  failure := none

/-- What starting a session reports. -/
def startLog (preset : Preset) : List LogLine :=
  compileLog preset.compile preset.defaultExpression ++
    match compile preset.compile preset.defaultExpression with
    | .ok _ => []
    | .error e =>
      [.warn s!"Preset '{preset.id}' expression failed to compile ({e.message}), using identity"]

/-- A session on a canvas within the budget. -/
def open? (preset : Preset) (canvas : Canvas) : Except (InputError Float) Session := do
  checkBudget preset canvas
  .ok (start preset canvas)

/-- A session of the standard preset without a canvas. -/
def standard : Session := start .standard ⟨0, 0⟩

def isDirty (s : Session) : Bool := s.state.isDirty

/-- Asks for a rebuild. -/
def marked (s : Session) : Session := { s with state := s.state.mark }

/-- Installs the function that a text stands for. -/
def commit (s : Session) (text : String) : Except SyntaxError Session := do
  let expression ← compile s.preset.compile text
  .ok { s with expression, source := text }.marked

/-- What committing a text reports. -/
def commitLog (s : Session) (text : String) : List LogLine :=
  compileLog s.preset.compile text ++
    match compile s.preset.compile text with
    | .ok e => [.info s!"Installed f(z) = {e.text}"]
    | .error e => [.warn s!"Syntax error in '{text}': {e.message}; keeping f(z) = {s.source}"]

def withView (s : Session) (view : View Float) : Session := { s with view }.marked

def pan (s : Session) (d : Point Float) : Except (InputError Float) Session :=
  (s.view.panBy d).map s.withView

def zoom (s : Session) (factor : Float) : Except (InputError Float) Session :=
  (s.view.zoomBy factor).map s.withView

/-- Zooms and keeps the number at a pixel in place. -/
def zoomAt (s : Session) (factor : Float) (pixel : Point Float) :
    Except (InputError Float) Session :=
  (s.view.zoomAtPixel s.canvas factor pixel).map s.withView

/-- Zooms by notches of the wheel, out if positive. -/
def zoomNotches (s : Session) (notches : Float) (pixel : Point Float) :
    Except (InputError Float) Session :=
  s.zoomAt (Elementary.pow s.preset.zoomStep notches) pixel

/-- Changes the canvas, within the budget. -/
def resize (s : Session) (canvas : Canvas) : Except (InputError Float) Session := do
  checkBudget s.preset canvas
  .ok { s with canvas }.marked

def setColors (s : Session) (colors : ColorSettings Float) : Session := { s with colors }.marked

/-- Returns to the view and the colours of the preset; the formula stays. -/
def reset (s : Session) : Session :=
  { s with view := s.preset.defaultView, colors := s.preset.colors }.marked

/-- The session after an event. -/
def apply (s : Session) : Event → Except SessionError Session
  | .pan d => (s.pan d).mapError .input
  | .zoom factor => (s.zoom factor).mapError .input
  | .zoomAt factor pixel => (s.zoomAt factor pixel).mapError .input
  | .resize canvas => (s.resize canvas).mapError .input
  | .commit text => (s.commit text).mapError .formula
  | .setColors settings => .ok (s.setColors settings)
  | .reset => .ok s.reset

/-- What an event reports: a commit what it always does, and a refusal its reason. -/
def applyLog (s : Session) (e : Event) : List LogLine :=
  match e, s.apply e with
  | .commit text, _ => s.commitLog text
  | _, .error (.input cause) => [.warn s!"Rejected input event: {cause.message}"]
  | _, _ => []

/-- The session after the event that a text encodes. -/
def dispatch (s : Session) (text : String) : Except SessionError Session :=
  match Event.ofText? text with
  | some e => s.apply e
  | none => .error .malformedEvent

/-- What dispatching a text reports. The line for a text that is no event is left out, as it is in the
words of the library that reads it. -/
def dispatchLog (s : Session) (text : String) : List LogLine :=
  match Event.ofText? text with
  | some e => s.applyLog e
  | none => []

/-- The picture of the session as it is now. -/
def picture (s : Session) : Mesh :=
  Mesh.generate s.expression s.view s.canvas s.preset.meshUnit s.colors

/-- Builds the mesh, in so many milliseconds. -/
def rebuild (s : Session) (ms : Float) : Session :=
  let mesh := s.picture
  { s with mesh, stats := s.stats.record ms mesh.vertexCount mesh.singular }

/-- Rebuilds the mesh if it is due, and tells whether it was. -/
def tick (s : Session) (ms : Float) : Session × Bool :=
  let (due, state) := s.state.take
  if due then ({ s with state }.rebuild ms, true) else (s, false)

/-- Notes a failure to draw, and keeps a fatal one for good. -/
def failed (s : Session) (e : RenderError) : Session :=
  if e.isFatal then { s with failure := some e } else s

/-- What comes of a frame. -/
structure Frame where
  session : Session
  /-- Whether the mesh was rebuilt, or why nothing is shown. -/
  result : Except RenderError Bool
  /-- The mesh that was handed over to be drawn. -/
  drawn : Option Mesh
  log : List LogLine

/-- Ticks and has the mesh drawn. After a fatal failure it does nothing but repeat it. -/
def frame (s : Session) (ms : Float) (draw : Mesh → Except RenderError Unit) : Frame :=
  match s.failure with
  | some e => ⟨s, .error e, none, []⟩
  | none =>
    let (s, rebuilt) := s.tick ms
    match draw s.mesh with
    | .ok () => ⟨s, .ok rebuilt, some s.mesh, []⟩
    | .error e => ⟨s.failed e, .error e, some s.mesh, [.error e.message]⟩

end Session

end DomainColoring
