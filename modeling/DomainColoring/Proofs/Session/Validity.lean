import DomainColoring.Proofs.Grammar.Completeness
import DomainColoring.Proofs.Session.History
import DomainColoring.Proofs.View

/-!
# What every session keeps

The view of a session can be drawn, its canvas is within the budget and its formula is what its text
compiles to (`Sound`). Only the first formula and the first view are not checked when they are
installed: a preset may give a text that does not compile or a view that is refused. What replaces
them is always good, the variable because every formula may nest one level deep.
-/

namespace DomainColoring

namespace Preset

/-- The first view is valid whatever pan and scale a preset gives. -/
theorem defaultView_valid (p : Preset) : p.defaultView.Valid := by
  unfold defaultView
  split
  · next made => exact View.valid_of_make made
  · exact View.standard_valid

end Preset

theorem tokenizeWith_z (mode : Strictness) :
    tokenizeWith mode "z" = .ok ⟨[⟨.ident "z", 0⟩], []⟩ := by
  have tokens : tokenize "z" = ⟨[⟨.ident "z", 0⟩], []⟩ := by decide +kernel
  simp only [tokenizeWith, tokens]

/-- The text of the variable compiles under every limit but zero. -/
theorem compile_z {options : CompileOptions} (limit : 1 ≤ options.maxDepth) :
    compile options "z" = .ok .var := by
  have derives : Derives .expression ([⟨.ident "z", 0⟩].map Token.kind) .var 0 :=
    Derives.expression_of_unary (.unary (.factor .var))
  have read := derives.ofTokens_eq options.maxDepth
  rw [if_pos ⟨limit, Nat.zero_le _⟩] at read
  simp only [compile, tokenizeWith_z, bind, Except.bind, read]

/-- The limit of the options bounds every tree that compiles. -/
theorem height_le_of_compile {options : CompileOptions} {text : String} {e : Expr}
    (h : compile options text = .ok e) : e.height ≤ options.maxDepth := by
  obtain ⟨stream, _, read⟩ := exists_of_bind_ok h
  obtain ⟨_, _, _, low⟩ := Expr.derives_of_ofTokens read
  exact low

namespace Session

/-- What holds of a session at any time. -/
structure Sound (s : Session) : Prop where
  view : s.view.Valid
  budget : plannedVertexCount s.canvas s.preset.meshUnit ≤ s.preset.maxVertices
  formula : compile s.preset.compile s.source = .ok s.expression

theorem within_of_checkBudget {preset : Preset} {canvas : Canvas}
    (h : checkBudget preset canvas = .ok ()) :
    plannedVertexCount canvas preset.meshUnit ≤ preset.maxVertices := by
  unfold checkBudget at h
  dsimp only at h
  split at h
  · cases h
  · next within => exact Nat.le_of_not_lt within

/-- The first text compiles to the first formula, also where it is not that of the preset. -/
theorem compile_initialFormula {preset : Preset} (limit : 1 ≤ preset.compile.maxDepth) :
    compile preset.compile (initialFormula preset).2 = .ok (initialFormula preset).1 := by
  unfold initialFormula
  split
  · next compiled => exact compiled
  · exact compile_z limit

theorem Starts.sound {preset : Preset} {s : Session} (limit : 1 ≤ preset.compile.maxDepth)
    (h : Starts preset s) : Sound s := by
  obtain ⟨canvas, rfl, budget⟩ := h.eq_start
  exact ⟨preset.defaultView_valid, within_of_checkBudget budget, compile_initialFormula limit⟩

theorem Sound.accepted {s t : Session} (h : Sound s) (change : Accepted s t) : Sound t := by
  cases change with
  | pan moved => exact ⟨h.view.panBy moved, h.budget, h.formula⟩
  | zoom zoomed => exact ⟨h.view.zoomBy zoomed, h.budget, h.formula⟩
  | zoomAt zoomed => exact ⟨View.valid_of_zoomAtPixel zoomed, h.budget, h.formula⟩
  | resize budget => exact ⟨h.view, within_of_checkBudget budget, h.formula⟩
  | commit compiled => exact ⟨h.view, h.budget, compiled⟩
  | setColors _ => exact ⟨h.view, h.budget, h.formula⟩
  | reset => exact ⟨s.preset.defaultView_valid, h.budget, h.formula⟩

theorem Sound.move {s t : Session} (h : Sound s) (move : Move s t) : Sound t := by
  cases move with
  | accepted change => exact h.accepted change
  | rebuilt _ _ => exact ⟨h.view, h.budget, h.formula⟩
  | latched _ _ => exact ⟨h.view, h.budget, h.formula⟩

/-- Committing the text of the formula again changes nothing but that a rebuild is due. -/
theorem Sound.commit_source {s : Session} (h : Sound s) : s.commit s.source = .ok s.marked := by
  simp only [commit, h.formula, bind, Except.bind]

/-- After any history, whatever numbers its commands carry: the pan is finite and the scale is a
finite normal number, the canvas is within the budget, and the text compiles to the formula, which
is no higher than the limit; committing the text again is accepted and installs the formula again. -/
theorem after_sound {preset : Preset} (limit : 1 ≤ preset.compile.maxDepth) {s₀ : Session}
    (start : Starts preset s₀) (cs : List Command) :
    let s := s₀.after cs
    (s.view.pan.x.isFinite = true ∧ s.view.pan.y.isFinite = true) ∧
      (s.view.scale.isFinite = true ∧ Binary64.minNormal ≤ s.view.scale) ∧
      plannedVertexCount s.canvas preset.meshUnit ≤ preset.maxVertices ∧
      compile preset.compile s.source = .ok s.expression ∧
      s.commit s.source = .ok s.marked ∧
      s.expression.height ≤ preset.compile.maxDepth := by
  intro s
  have sound : Sound s := keeps_after Sound.move cs (start.sound limit)
  have same : s.preset = preset := by
    obtain ⟨canvas, rfl, -⟩ := start.eq_start
    exact preset_after _ cs
  have pan : s.view.pan.x.isFinite = true ∧ s.view.pan.y.isFinite = true :=
    Bool.and_eq_true_iff.1 sound.view.pan
  have scale : s.view.scale.isFinite = true ∧ Binary64.minNormal ≤ s.view.scale := by
    obtain ⟨finite, normal⟩ := Bool.and_eq_true_iff.1 sound.view.scale
    exact ⟨finite, of_decide_eq_true normal⟩
  have budget := sound.budget
  have formula := sound.formula
  rw [same] at budget formula
  exact ⟨pan, scale, budget, formula, sound.commit_source, height_le_of_compile formula⟩

/-- A preset of which neither the formula nor the view is accepted. -/
def unusable : Preset := { Preset.standard with defaultExpression := "(z", defaultScale := 0 }

/-- Refused and accepted changes, a rebuild, and a reset to the view that was refused. -/
def hostile : List Command :=
  [.change (.pan ⟨Binary64.notANumber, 0⟩), .change (.zoom Binary64.infinity), .change (.zoom 2),
    .change (.commit "sin(z)^2"), .tick 1, .change .reset]

theorem after_sound_hostile :
    let s := (start unusable ⟨100, 50⟩).after hostile
    (1 ≤ unusable.compile.maxDepth ∧ open? unusable ⟨100, 50⟩ = .ok (start unusable ⟨100, 50⟩)) ∧
      s.view.scale.isFinite = true ∧ compile unusable.compile s.source = .ok s.expression ∧
      s.commit s.source = .ok s.marked := by
  have limit : 1 ≤ unusable.compile.maxDepth := by decide
  have opened : open? unusable ⟨100, 50⟩ = .ok (start unusable ⟨100, 50⟩) := by
    have budget : checkBudget unusable ⟨100, 50⟩ = .ok () := by
      unfold checkBudget
      exact if_neg (by decide +kernel)
    simp only [open?, budget, bind, Except.bind]
  obtain ⟨-, scale, -, formula, again, -⟩ := after_sound limit (.opened opened) hostile
  exact ⟨⟨limit, opened⟩, scale.1, formula, again⟩

end Session

end DomainColoring
