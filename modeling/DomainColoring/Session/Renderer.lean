import DomainColoring.Session

/-!
# Renderers

A frame as it is carried out. To draw a mesh and to report a failure are effects of a renderer, and
the frame asks for them one after the other, or not at all once drawing has failed for good.
-/

namespace DomainColoring

/-- What draws meshes and is told of failures, with its effects in a monad. -/
structure Renderer (m : Type → Type) where
  draw : Mesh → m (Except RenderError Unit)
  report : LogLine → m Unit

/-- Ticks and has the mesh drawn by a renderer. -/
def Session.present {m : Type → Type} [Monad m] (renderer : Renderer m) (s : Session) (ms : Float) :
    m (Session × Except RenderError Bool) :=
  match s.failure with
  | some e => pure (s, .error e)
  | none => do
    let (s, rebuilt) := s.tick ms
    match ← renderer.draw s.mesh with
    | .ok () => pure (s, .ok rebuilt)
    | .error e =>
      renderer.report (.error e.message)
      pure (s.failed e, .error e)

end DomainColoring
