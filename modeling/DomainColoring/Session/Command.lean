import DomainColoring.Session.Edit

/-!
# Histories

Everything that can be done to a session as data, the reply to one command, and the run of many.
-/

namespace DomainColoring

/-- What changes the formula, the view, the canvas or the colours. -/
inductive Change where
  | pan (d : Point Float)
  | zoom (factor : Float)
  | zoomAt (factor : Float) (pixel : Point Float)
  | zoomNotches (notches : Float) (pixel : Point Float)
  | resize (canvas : Canvas)
  | commit (text : String)
  | setColors (settings : ColorSettings Float)
  | reset
  /-- An event. -/
  | apply (e : Event)
  /-- A text that encodes an event. -/
  | dispatch (text : String)
deriving DecidableEq, Repr

inductive Command where
  | change (c : Change)
  /-- A tick whose rebuild, if one is due, takes so many milliseconds. -/
  | tick (ms : Float)
  /-- A frame, and what a renderer answers if it is asked to draw. -/
  | frame (ms : Float) (answer : Except RenderError Unit)

/-- What comes of a command. -/
inductive Answer where
  | accepted
  | refused (cause : SessionError)
  /-- Whether a tick rebuilt the mesh. -/
  | ticked (rebuilt : Bool)
  /-- Whether a frame rebuilt the mesh, or why nothing is shown. -/
  | framed (result : Except RenderError Bool)

structure Reply where
  session : Session
  answer : Answer
  /-- The mesh that was handed over to be drawn. -/
  drawn : Option Mesh
  log : List LogLine

namespace Session

/-- The session after a change. -/
def change (s : Session) : Change → Except SessionError Session
  | .pan d => (s.pan d).mapError .input
  | .zoom factor => (s.zoom factor).mapError .input
  | .zoomAt factor pixel => (s.zoomAt factor pixel).mapError .input
  | .zoomNotches notches pixel => (s.zoomNotches notches pixel).mapError .input
  | .resize canvas => (s.resize canvas).mapError .input
  | .commit text => (s.commit text).mapError .formula
  | .setColors settings => .ok (s.setColors settings)
  | .reset => .ok s.reset
  | .apply e => s.apply e
  | .dispatch text => s.dispatch text

/-- A change worked out in place. -/
def edit : Change → Edit SessionError Session Unit
  | .pan d => (Edit.pan d).adaptExcept .input
  | .zoom factor => (Edit.zoom factor).adaptExcept .input
  | .zoomAt factor pixel => (Edit.zoomAt factor pixel).adaptExcept .input
  | .zoomNotches notches pixel => (Edit.zoomNotches notches pixel).adaptExcept .input
  | .resize canvas => (Edit.resize canvas).adaptExcept .input
  | .commit text => (Edit.commit text).adaptExcept .formula
  | .setColors settings => Edit.setColors settings
  | .reset => Edit.reset
  | .apply e => Edit.apply e
  | .dispatch text => Edit.dispatch text

/-- What a change reports. -/
def changeLog (s : Session) : Change → List LogLine
  | .commit text => s.commitLog text
  | .apply e => s.applyLog e
  | .dispatch text => s.dispatchLog text
  | _ => []

/-- The session and the answer after a command. -/
def step (s : Session) : Command → Reply
  | .change c =>
    match (edit c).run s with
    | .ok _ after => ⟨after, .accepted, none, s.changeLog c⟩
    | .error cause after => ⟨after, .refused cause, none, s.changeLog c⟩
  | .tick ms =>
    let (after, rebuilt) := s.tick ms
    ⟨after, .ticked rebuilt, none, []⟩
  | .frame ms answer =>
    let f := s.frame ms fun _ => answer
    ⟨f.session, .framed f.result, f.drawn, f.log⟩

/-- The replies to commands given one after the other. -/
def run (s : Session) : List Command → List Reply
  | [] => []
  | c :: cs =>
    let reply := s.step c
    reply :: reply.session.run cs

/-- The session after commands given one after the other. -/
def after (s : Session) (cs : List Command) : Session :=
  cs.foldl (fun s c => (s.step c).session) s

end Session

end DomainColoring
