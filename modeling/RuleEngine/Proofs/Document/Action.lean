import RuleEngine.Proofs.Document.Template
import RuleEngine.Proofs.Value.Overlong

/-!
# Actions of declared rules

A declared action renders the effects of its rule one after the other. Rendering can fail in two
ways: a reference is unbound, or the message of a log effect is a value that cannot be written.
Where neither happens the action answers with one effect for each declared one, in order
(`EffectSpec.Yields`).

* `action_returns`: the action answers, with what was declared.
-/

namespace RuleEngine

variable {b : Binding} {e : EffectSpec} {es : List EffectSpec}

/-- The effect is of the declared sort, with the declared names and the rendered template. -/
inductive EffectSpec.Yields (b : Binding) : EffectSpec → Effect → Prop where
  | assert {t v : Value} (rendered : Template.render b t = .ok v) : Yields b (.assert t) (.assert v)
  | retract {t v : Value} (rendered : Template.render b t = .ok v) :
      Yields b (.retract t) (.retract v)
  | upsert {t v : Value} (rendered : Template.render b t = .ok v) : Yields b (.upsert t) (.upsert v)
  | emit {name : String} {t v : Value} (rendered : Template.render b t = .ok v) :
      Yields b (.emit name t) (.emit (.text name) v)
  | log {level message : String} {v : Value}
      (rendered : Template.render b (.text message) = .ok v) :
      Yields b (.log level message) (.log (.text level) (.text v.display))
  | set {key : String} {t v : Value} (rendered : Template.render b t = .ok v) :
      Yields b (.set key t) (.set (.text key) v)

theorem Binding.read_isOverlong {x : String} {v : Value} (hb : (Value.map b).isOverlong = false)
    (h : b.read x = .ok v) : v.isOverlong = false := by
  obtain ⟨e, he, -, rfl⟩ := Binding.mem_of_read h
  exact (Value.isOverlongEntry_eq_false.mp hb e he).2

namespace EffectSpec

theorem message_isOverlong {message : String} {v : Value} (hb : (Value.map b).isOverlong = false)
    (h : Template.render b (.text message) = .ok v) : v.isOverlong = false := by
  simp only [Template.render] at h
  split at h
  · exact Binding.read_isOverlong hb h
  · cases h
    unfold Reference.unescape
    split <;> rfl

/-- A declared effect renders if what it refers to is bound and can be written. -/
theorem render_returns {names : List String} (hw : e.template.WellFormed)
    (hnames : e.variableNames = .ok names) (hbinds : ∀ x ∈ names, b.Binds x)
    (hb : (Value.map b).isOverlong = false) :
    ∃ effect, e.render b = .ok effect ∧ e.Yields b effect := by
  obtain ⟨u, hexp, hnames⟩ := map_eq_ok.mp hnames
  have hasked : ∀ x ∈ Template.variableNames e.template, b.Binds x := by
    intro x hx
    refine hbinds x ?_
    rw [← hnames]
    exact Document.exposed_variables hw hexp x hx
  obtain ⟨v, hv⟩ := Template.render_returns hasked
  unfold render
  rw [hv]
  cases e with
  | assert => exact ⟨_, rfl, .assert hv⟩
  | retract => exact ⟨_, rfl, .retract hv⟩
  | upsert => exact ⟨_, rfl, .upsert hv⟩
  | emit => exact ⟨_, rfl, .emit hv⟩
  | log =>
    have hwritable : v.checkText = .ok () := Value.checkText_of_shown (message_isOverlong hb hv)
    refine ⟨_, ?_, .log hv⟩
    simp only [bind_eq_ok]
    exact ⟨v, rfl, (), hwritable, rfl⟩
  | set => exact ⟨_, rfl, .set hv⟩

end EffectSpec

/-- A declared action answers with one effect for each that is declared, whatever it sees besides
the binding. -/
theorem RuleSpec.action_returns
    (h : ∀ e ∈ es, ∃ effect, e.render b = .ok effect ∧ e.Yields b effect) :
    ∃ effects, List.Forall₂ (EffectSpec.Yields b) es effects ∧
      ∀ view is, action es ⟨view, b, is⟩ = .ok (.context (.ok (is ++ effects.map .effect))) := by
  obtain ⟨effects, heffects⟩ := exists_forall₂ h
  have hrender : es.mapM (EffectSpec.render b) = .ok effects :=
    mapM_eq_ok.mpr (heffects.imp fun _ _ h => h.1)
  refine ⟨effects, heffects.imp fun _ _ h => h.2, ?_⟩
  intro view is
  rw [action, hrender]
  rfl

end RuleEngine
