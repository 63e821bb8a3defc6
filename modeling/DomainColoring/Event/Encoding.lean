import DomainColoring.Event
import DomainColoring.Expr.Compile
import DomainColoring.Json.Reader
import DomainColoring.Json.Writer

/-!
# Events and settings as JSON

A record is an object with its fields by name, whatever else it holds, or an array of its fields in
order. An event is such a record under a type, which is its field `type` or its first item, and is
read only as a whole: a text that holds a number out of range, a string that is no text or
containers nested too deep is no event, wherever that is.
-/

namespace DomainColoring

namespace ColorMode

def name : ColorMode → String
  | logBrightness => "LogBrightness"
  | twoSegmentRamp => "TwoSegmentRamp"

def ofName? : String → Option ColorMode
  | "LogBrightness" => some logBrightness
  | "TwoSegmentRamp" => some twoSegmentRamp
  | _ => none

def ofJson? (allowEmpty : Bool) (j : Json) : Option ColorMode := (j.choice? allowEmpty).bind ofName?

def toJson (m : ColorMode) : List Char := JsonText.string m.name

end ColorMode

namespace Strictness

def name : Strictness → String
  | lenient => "Lenient"
  | strict => "Strict"

def ofName? : String → Option Strictness
  | "Lenient" => some lenient
  | "Strict" => some strict
  | _ => none

def ofJson? (allowEmpty : Bool) (j : Json) : Option Strictness :=
  (j.choice? allowEmpty).bind ofName?

def toJson (s : Strictness) : List Char := JsonText.string s.name

end Strictness

namespace ColorSettings

def ofJson? (allowEmpty : Bool) (j : Json) : Option (ColorSettings Float) := do
  match ← j.fields? ["mode", "k", "s"] with
  | [mode, k, s] => some ⟨← ColorMode.ofJson? allowEmpty mode, ← k.toFloat?, ← s.toFloat?⟩
  | _ => none

def toJson (c : ColorSettings Float) : List Char :=
  JsonText.object
    [("mode", c.mode.toJson), ("k", JsonText.number c.k), ("s", JsonText.number c.s)]

end ColorSettings

namespace Canvas

def ofJson? (j : Json) : Option Canvas := do
  match ← j.fields? ["width", "height"] with
  | [width, height] => some ⟨← width.toUInt32?, ← height.toUInt32?⟩
  | _ => none

def toJson (c : Canvas) : List Char :=
  JsonText.object
    [("width", JsonText.count c.width.toNat), ("height", JsonText.count c.height.toNat)]

end Canvas

namespace Complex

def ofJson? (j : Json) : Option (Complex Float) := do
  match ← j.fields? ["re", "im"] with
  | [re, im] => some ⟨← re.toFloat?, ← im.toFloat?⟩
  | _ => none

def toJson (a : Complex Float) : List Char :=
  JsonText.object [("re", JsonText.number a.re), ("im", JsonText.number a.im)]

end Complex

namespace Event

/-- The name of the type of an event. -/
def typeName : Event → String
  | pan _ => "Pan"
  | zoom _ => "Zoom"
  | zoomAt _ _ => "ZoomAt"
  | resize _ => "Resize"
  | commit _ => "Commit"
  | setColors _ => "SetColorSettings"
  | reset => "Reset"

/-- Containers around a value of an event. -/
def maxNesting : Nat := 127

/-- The event of a type with the fields of `body`. -/
def ofBody? (type : String) (body : Json) : Option Event := do
  match type with
  | "Pan" =>
    match ← body.fields? ["dx", "dy"] with
    | [dx, dy] => some (pan ⟨← dx.toFloat?, ← dy.toFloat?⟩)
    | _ => none
  | "Zoom" =>
    match ← body.fields? ["factor"] with
    | [factor] => some (zoom (← factor.toFloat?))
    | _ => none
  | "ZoomAt" =>
    match ← body.fields? ["factor", "x", "y"] with
    | [factor, x, y] => some (zoomAt (← factor.toFloat?) ⟨← x.toFloat?, ← y.toFloat?⟩)
    | _ => none
  | "Resize" => some (resize (← Canvas.ofJson? body))
  | "Commit" =>
    match ← body.fields? ["expression"] with
    | [expression] => some (commit (← expression.toText?))
    | _ => none
  | "SetColorSettings" =>
    match ← body.fields? ["settings"] with
    | [settings] => some (setColors (← ColorSettings.ofJson? true settings))
    | _ => none
  | "Reset" =>
    match ← body.fields? [] with
    | [] => some reset
    | _ => none
  | _ => none

def ofJson? (j : Json) : Option Event :=
  if !j.isReadable maxNesting then none
  else
    match j with
    | .object members => do
      let named ← Json.namedMembers? members
      let type ← (← Json.only? "type" named).toText?
      ofBody? type j
    | .array (type :: items) => do ofBody? (← type.toText?) (.array items)
    | _ => none

/-- The event that a text encodes. -/
def ofText? (text : String) : Option Event := (Json.ofText? text).bind ofJson?

/-- The fields of an event after its type. -/
def fields : Event → List (String × List Char)
  | pan d => [("dx", JsonText.number d.x), ("dy", JsonText.number d.y)]
  | zoom factor => [("factor", JsonText.number factor)]
  | zoomAt factor pixel =>
    [("factor", JsonText.number factor), ("x", JsonText.number pixel.x),
      ("y", JsonText.number pixel.y)]
  | resize canvas =>
    [("width", JsonText.count canvas.width.toNat), ("height", JsonText.count canvas.height.toNat)]
  | commit text => [("expression", JsonText.string text)]
  | setColors settings => [("settings", settings.toJson)]
  | reset => []

def toJson (e : Event) : List Char :=
  JsonText.object (("type", JsonText.string e.typeName) :: e.fields)

/-- The text that encodes an event. -/
def text (e : Event) : String := String.ofList e.toJson

end Event

end DomainColoring
