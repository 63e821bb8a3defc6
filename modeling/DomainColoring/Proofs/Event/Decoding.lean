import DomainColoring.Event.Encoding
import DomainColoring.Proofs.Json.Values

/-!
# Events are read back

The text of an event is read as the object of its members, and decoding that object reads each
machine number again and keeps everything else: the type, strings and sizes (`ofText?_text`). So
whether an event comes back is a matter of its machine numbers alone. One that is not finite is never
read, and whatever text an event comes from, its machine numbers are finite (`isFinite_of_ofText?`).
-/

namespace DomainColoring

open JsonText

/-- The value that settings are written as. -/
def ColorSettings.json (c : ColorSettings Float) : Json :=
  record [("mode", .string (parts c.mode.name)), ("k", float c.k), ("s", float c.s)]

namespace Event

/-- The machine numbers of an event, in the order of its fields. -/
def floats : Event → List Float
  | pan d => [d.x, d.y]
  | zoom factor => [factor]
  | zoomAt factor pixel => [factor, pixel.x, pixel.y]
  | resize _ => []
  | commit _ => []
  | setColors settings => [settings.k, settings.s]
  | reset => []

/-- The event with what `f` makes of its machine numbers, if it makes something of each. -/
def mapFloats? (f : Float → Option Float) : Event → Option Event
  | pan d => do some (pan ⟨← f d.x, ← f d.y⟩)
  | zoom factor => do some (zoom (← f factor))
  | zoomAt factor pixel => do some (zoomAt (← f factor) ⟨← f pixel.x, ← f pixel.y⟩)
  | resize canvas => some (resize canvas)
  | commit text => some (commit text)
  | setColors settings => do some (setColors ⟨settings.mode, ← f settings.k, ← f settings.s⟩)
  | reset => some reset

/-- The values of the fields of an event after its type. -/
def values : Event → List (String × Json)
  | pan d => [("dx", float d.x), ("dy", float d.y)]
  | zoom factor => [("factor", float factor)]
  | zoomAt factor pixel => [("factor", float factor), ("x", float pixel.x), ("y", float pixel.y)]
  | resize canvas =>
    [("width", .number (JsonNumber.ofCount canvas.width.toNat)),
      ("height", .number (JsonNumber.ofCount canvas.height.toNat))]
  | commit text => [("expression", .string (parts text))]
  | setColors settings => [("settings", settings.json)]
  | reset => []

/-- The members of an event: its type and its fields. -/
def members (e : Event) : List (String × Json) :=
  ("type", .string (parts e.typeName)) :: e.values

theorem spells_colors (c : ColorSettings Float) : Spells c.toJson c.json :=
  spells_object
    (.cons ⟨rfl, spells_string _⟩ (.cons ⟨rfl, spells_float _⟩ (.cons ⟨rfl, spells_float _⟩ .nil)))

theorem spellsFields_fields (e : Event) : SpellsFields e.fields e.values := by
  cases e with
  | pan d => exact .cons ⟨rfl, spells_float _⟩ (.cons ⟨rfl, spells_float _⟩ .nil)
  | zoom factor => exact .cons ⟨rfl, spells_float _⟩ .nil
  | zoomAt factor pixel =>
    exact .cons ⟨rfl, spells_float _⟩
      (.cons ⟨rfl, spells_float _⟩ (.cons ⟨rfl, spells_float _⟩ .nil))
  | resize canvas => exact .cons ⟨rfl, spells_count _⟩ (.cons ⟨rfl, spells_count _⟩ .nil)
  | commit text => exact .cons ⟨rfl, spells_string _⟩ .nil
  | setColors settings => exact .cons ⟨rfl, spells_colors settings⟩ .nil
  | reset => exact .nil

/-- The text of an event stands for the object of its members. -/
theorem spells_toJson (e : Event) : Spells e.toJson (record e.members) :=
  spells_object (.cons ⟨rfl, spells_string _⟩ (spellsFields_fields e))

theorem namedMembers?_record (values : List (String × Json)) :
    Json.namedMembers? (values.map fun member => (parts member.1, member.2)) = some values := by
  unfold Json.namedMembers?
  induction values with
  | nil => rfl
  | cons member values ih =>
    rw [List.map_cons, List.mapM_cons, ih]
    simp only [text?_parts]
    rfl

theorem fields?_record (names : List String) (values : List (String × Json)) :
    (record values).fields? names = names.mapM (Json.only? · values) := by
  unfold record Json.fields?
  simp only [namedMembers?_record]
  rfl

theorem only?_type (e : Event) :
    Json.only? "type" e.members = some (.string (parts e.typeName)) := by
  cases e <;> rfl

theorem toText?_parts (text : String) : Json.toText? (.string (parts text)) = some text :=
  text?_parts text

theorem ofJson?_colors (c : ColorSettings Float) :
    ColorSettings.ofJson? true c.json =
      (do some ⟨c.mode, ← reread c.k, ← reread c.s⟩) := by
  have mode : ColorMode.ofJson? true (.string (parts c.mode.name)) = some c.mode := by
    change (StringPart.text? (parts c.mode.name)).bind ColorMode.ofName? = some c.mode
    rw [text?_parts]
    cases c.mode <;> rfl
  unfold ColorSettings.ofJson? ColorSettings.json
  rw [fields?_record]
  change (do
    let m ← ColorMode.ofJson? true (.string (parts c.mode.name))
    let k ← (float c.k).toFloat?
    let s ← (float c.s).toFloat?
    some (⟨m, k, s⟩ : ColorSettings Float)) = _
  rw [mode, toFloat?_float, toFloat?_float]
  rfl

/-- Decoding the fields of an event reads its machine numbers again and keeps everything else. -/
theorem ofBody?_members (e : Event) :
    ofBody? e.typeName (record e.members) = e.mapFloats? reread := by
  -- each type asks for the fields that it writes, in the same order
  cases e with
  | pan d =>
    have fields : (record (pan d).members).fields? ["dx", "dy"] = some [float d.x, float d.y] :=
      fields?_record _ _
    unfold ofBody?
    simp only [typeName, fields, Option.bind_eq_bind, Option.bind_some, toFloat?_float]
    rfl
  | zoom factor =>
    have fields : (record (zoom factor).members).fields? ["factor"] = some [float factor] :=
      fields?_record _ _
    unfold ofBody?
    simp only [typeName, fields, Option.bind_eq_bind, Option.bind_some, toFloat?_float]
    rfl
  | zoomAt factor pixel =>
    have fields : (record (zoomAt factor pixel).members).fields? ["factor", "x", "y"] =
        some [float factor, float pixel.x, float pixel.y] :=
      fields?_record _ _
    unfold ofBody?
    simp only [typeName, fields, Option.bind_eq_bind, Option.bind_some, toFloat?_float]
    rfl
  | resize canvas =>
    have fields : (record (resize canvas).members).fields? ["width", "height"] =
        some [.number (JsonNumber.ofCount canvas.width.toNat),
          .number (JsonNumber.ofCount canvas.height.toNat)] :=
      fields?_record _ _
    unfold ofBody? Canvas.ofJson?
    simp only [typeName, fields, Option.bind_eq_bind, Option.bind_some, Json.toUInt32?,
      JsonNumber.toUInt32?_ofCount]
    rfl
  | commit text =>
    have fields : (record (commit text).members).fields? ["expression"] =
        some [.string (parts text)] :=
      fields?_record _ _
    unfold ofBody?
    simp only [typeName, fields, Option.bind_eq_bind, Option.bind_some, toText?_parts]
    rfl
  | setColors settings =>
    have fields : (record (setColors settings).members).fields? ["settings"] =
        some [settings.json] :=
      fields?_record _ _
    unfold ofBody?
    simp only [typeName, fields, Option.bind_eq_bind, Option.bind_some, ofJson?_colors,
      Option.bind_assoc]
    rfl
  | reset =>
    have fields : (record reset.members).fields? [] = some [] := fields?_record _ _
    unfold ofBody?
    simp only [typeName, fields, Option.bind_eq_bind, Option.bind_some]
    rfl

theorem isReadable_record (levels : Nat) (values : List (String × Json)) :
    (record values).isReadable (levels + 1) =
      values.all fun member => member.2.isReadable levels := by
  change Json.membersReadable levels _ = _
  induction values with
  | nil => rfl
  | cons member values ih =>
    have named : (StringPart.decode? (parts member.1)).isSome = true := by
      unfold parts
      rw [decode?_map]
      rfl
    rw [List.map_cons, Json.membersReadable, ih, named, Bool.true_and, List.all_cons]

theorem isReadable_string (levels : Nat) (text : String) :
    (Json.string (parts text)).isReadable levels = true := by
  unfold parts
  cases levels <;> simp [Json.isReadable, decode?_map]

theorem isReadable_float {x : Float} (read : (reread x).isSome = true) (levels : Nat) :
    (float x).isReadable levels = true := by
  rw [← toFloat?_float] at read
  generalize float x = j at read ⊢
  cases j with
  | number n => cases levels <;> exact read
  | _ => cases read

theorem isReadable_count (n : UInt32) (levels : Nat) :
    (Json.number (JsonNumber.ofCount n.toNat)).isReadable levels = true := by
  have inRange := JsonNumber.isSome_toFloat?_ofCount n
  cases levels <;> exact inRange

/-- The text of an event is readable as a whole if each of its machine numbers is in range as it is
read again. -/
theorem isReadable_members {e : Event} (read : ∀ x ∈ e.floats, (reread x).isSome = true) :
    (record e.members).isReadable maxNesting = true := by
  have floats (levels : Nat) : ∀ x ∈ e.floats, (float x).isReadable levels = true :=
    fun x inside => isReadable_float (read x inside) levels
  unfold maxNesting
  rw [isReadable_record, members, List.all_cons, isReadable_string, Bool.true_and]
  cases e with
  | pan d => simpa [values, Event.floats] using floats 126
  | zoom factor => simpa [values, Event.floats] using floats 126
  | zoomAt factor pixel => simpa [values, Event.floats] using floats 126
  | resize canvas => simp [values, isReadable_count]
  | commit text => simp [values, isReadable_string]
  | setColors settings =>
    simpa [values, Event.floats, ColorSettings.json, isReadable_record, isReadable_string]
      using floats 125
  | reset => rfl

section MapFloats

variable {f : Float → Option Float} {e e' : Event}

theorem isSome_of_mapFloats? (h : e.mapFloats? f = some e') :
    ∀ x ∈ e.floats, (f x).isSome = true := by
  cases e with
  | pan d =>
    obtain ⟨x, hx, y, hy, -⟩ := by simpa [mapFloats?, Option.bind_eq_some_iff] using h
    simp [floats, hx, hy]
  | zoom factor =>
    obtain ⟨x, hx, -⟩ := by simpa [mapFloats?, Option.bind_eq_some_iff] using h
    simp [floats, hx]
  | zoomAt factor pixel =>
    obtain ⟨x, hx, y, hy, z, hz, -⟩ := by simpa [mapFloats?, Option.bind_eq_some_iff] using h
    simp [floats, hx, hy, hz]
  | resize canvas => nofun
  | commit text => nofun
  | setColors settings =>
    obtain ⟨x, hx, y, hy, -⟩ := by simpa [mapFloats?, Option.bind_eq_some_iff] using h
    simp [floats, hx, hy]
  | reset => nofun

theorem mapFloats?_eq_none {x : Float} (inside : x ∈ e.floats) (lost : f x = none) :
    e.mapFloats? f = none := by
  cases mapped : e.mapFloats? f with
  | none => rfl
  | some e' =>
    have kept := isSome_of_mapFloats? mapped x inside
    rw [lost] at kept
    cases kept

theorem mapFloats?_eq_self (same : ∀ x ∈ e.floats, f x = some x) : e.mapFloats? f = some e := by
  cases e <;> simp_all [mapFloats?, floats]

end MapFloats

/-- Decoding the text of an event reads its machine numbers again and keeps everything else. -/
theorem ofText?_text (e : Event) : ofText? e.text = e.mapFloats? reread := by
  have value : Json.ofText? e.text = some (record e.members) := by
    unfold Json.ofText? text
    rw [String.toList_ofList]
    exact (spells_toJson e).ofChars?
  have body : ofJson? (record e.members) =
      if (record e.members).isReadable maxNesting then e.mapFloats? reread else none := by
    have named : Json.namedMembers? (e.members.map fun member => (parts member.1, member.2)) =
        some e.members := namedMembers?_record e.members
    have type := only?_type e
    unfold ofJson?
    cases (record e.members).isReadable maxNesting with
    | false => rfl
    | true =>
      simp only [Bool.not_true, Bool.false_eq_true, if_false, if_true]
      unfold record
      simp only [named, type, Option.bind_eq_bind, Option.bind_some, toText?_parts]
      exact ofBody?_members e
  unfold ofText?
  rw [value, Option.bind_some, body]
  split
  · rfl
  · next unreadable =>
    cases again : e.mapFloats? reread with
    | none => rfl
    | some e' => exact absurd (isReadable_members (isSome_of_mapFloats? again)) unreadable

theorem isFinite_of_toFloat? {j : Json} {x : Float} (h : j.toFloat? = some x) :
    x.isFinite = true := by
  cases j with
  | number n => exact JsonNumber.isFinite_of_toFloat? h
  | _ => cases h

theorem isFinite_of_colors {allowEmpty : Bool} {j : Json} {c : ColorSettings Float}
    (h : ColorSettings.ofJson? allowEmpty j = some c) :
    c.k.isFinite = true ∧ c.s.isFinite = true := by
  unfold ColorSettings.ofJson? at h
  obtain ⟨values, -, h⟩ := Option.bind_eq_some_iff.1 h
  split at h
  · obtain ⟨mode, -, h⟩ := Option.bind_eq_some_iff.1 h
    obtain ⟨k, hk, h⟩ := Option.bind_eq_some_iff.1 h
    obtain ⟨s, hs, h⟩ := Option.bind_eq_some_iff.1 h
    cases h
    exact ⟨isFinite_of_toFloat? hk, isFinite_of_toFloat? hs⟩
  · cases h

/-- A machine number that is read is finite. -/
theorem isFinite_of_ofBody? {type : String} {body : Json} {e : Event}
    (h : ofBody? type body = some e) : ∀ x ∈ e.floats, x.isFinite = true := by
  unfold ofBody? at h
  -- the types in the order in which they are tried, and then any other
  split at h
  · obtain ⟨values, -, h⟩ := Option.bind_eq_some_iff.1 h
    split at h
    · obtain ⟨x, hx, h⟩ := Option.bind_eq_some_iff.1 h
      obtain ⟨y, hy, h⟩ := Option.bind_eq_some_iff.1 h
      cases h
      simp [floats, isFinite_of_toFloat? hx, isFinite_of_toFloat? hy]
    · cases h
  · obtain ⟨values, -, h⟩ := Option.bind_eq_some_iff.1 h
    split at h
    · obtain ⟨x, hx, h⟩ := Option.bind_eq_some_iff.1 h
      cases h
      simp [floats, isFinite_of_toFloat? hx]
    · cases h
  · obtain ⟨values, -, h⟩ := Option.bind_eq_some_iff.1 h
    split at h
    · obtain ⟨x, hx, h⟩ := Option.bind_eq_some_iff.1 h
      obtain ⟨y, hy, h⟩ := Option.bind_eq_some_iff.1 h
      obtain ⟨z, hz, h⟩ := Option.bind_eq_some_iff.1 h
      cases h
      simp [floats, isFinite_of_toFloat? hx, isFinite_of_toFloat? hy, isFinite_of_toFloat? hz]
    · cases h
  · obtain ⟨canvas, -, h⟩ := Option.bind_eq_some_iff.1 h
    cases h
    nofun
  · obtain ⟨values, -, h⟩ := Option.bind_eq_some_iff.1 h
    split at h
    · obtain ⟨text, -, h⟩ := Option.bind_eq_some_iff.1 h
      cases h
      nofun
    · cases h
  · obtain ⟨values, -, h⟩ := Option.bind_eq_some_iff.1 h
    split at h
    · obtain ⟨settings, read, h⟩ := Option.bind_eq_some_iff.1 h
      cases h
      obtain ⟨hk, hs⟩ := isFinite_of_colors read
      simp [floats, hk, hs]
    · cases h
  · obtain ⟨values, -, h⟩ := Option.bind_eq_some_iff.1 h
    split at h
    · cases h
      nofun
    · cases h
  · cases h

theorem isFinite_of_ofText? {text : String} {e : Event} (h : ofText? text = some e) :
    ∀ x ∈ e.floats, x.isFinite = true := by
  obtain ⟨j, -, h⟩ := Option.bind_eq_some_iff.1 h
  unfold ofJson? at h
  split at h
  · cases h
  · split at h
    · obtain ⟨named, -, h⟩ := Option.bind_eq_some_iff.1 h
      obtain ⟨value, -, h⟩ := Option.bind_eq_some_iff.1 h
      obtain ⟨type, -, h⟩ := Option.bind_eq_some_iff.1 h
      exact isFinite_of_ofBody? h
    · obtain ⟨type, -, h⟩ := Option.bind_eq_some_iff.1 h
      exact isFinite_of_ofBody? h
    · cases h

end Event

end DomainColoring
