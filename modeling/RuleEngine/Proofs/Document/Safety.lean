import RuleEngine.Document.Load
import RuleEngine.Proofs.Document.Action
import RuleEngine.Proofs.Document.Pattern
import RuleEngine.Proofs.Document.WellFormed
import RuleEngine.Proofs.Json.WellFormed
import RuleEngine.Proofs.Session.Failure
import RuleEngine.Proofs.Session.Firing

/-!
# Declared rules that compile cannot fail

The check at compile time and the functions that run are separate recursions over the same document.
Here they meet. What the check has found bound is bound wherever the rule matches, so guards miss no
variable and effects render; an activation on an agenda has a token, so what it binds can be written
and the messages of log effects can be too.

* `RuleSpec.compile_ensures`: what compiling ensures of a rule, over any facts.
* `Session.runsSafely`: what follows for a reachable session that has such a rule.
* `Document.compile_safe`: both, for all rules of a document; `Document.load_safe`: for all rules of
  a document in a file.
-/

namespace RuleEngine

variable {spec : RuleSpec} {r : Rule} {b : Binding} {x : String}

namespace RuleSpec

/-- The variable occurs in a condition of the rule or in the template of an effect, there as it is
written or in the form that is checked. -/
def RefersTo (spec : RuleSpec) (x : String) : Prop :=
  (∃ p ∈ spec.patterns, ∃ cs, p.readConditions = .ok cs ∧ ∃ c ∈ cs, x ∈ c.variableNames) ∨
  ∃ e ∈ spec.effects, x ∈ Template.variableNames e.template ∨
    ∃ names, e.variableNames = .ok names ∧ x ∈ names

/-- What the declaration of a rule ensures of the compiled rule, over any facts: where all patterns
match, everything the rule refers to is bound; where the guard of a pattern is asked, the variables
of its conditions are bound, and no attempt to match fails on a missing variable; and under a
binding of what the rule refers to that can be written, the action answers with exactly the declared
effects. -/
structure Ensures (spec : RuleSpec) (r : Rule) : Prop where
  name : r.name = .ofText spec.name
  size : r.patterns.length = spec.patterns.length
  reads : (∀ p ∈ spec.patterns, ∃ cs, p.readConditions = .ok cs) ∧
    ∀ e ∈ spec.effects, ∃ names, e.variableNames = .ok names
  binds : ∀ facts, ∀ b ∈ r.bindings facts, ∀ x, spec.RefersTo x → b.Binds x
  asks : ∀ facts (i : Nat) p q, spec.patterns[i]? = some p → r.patterns[i]? = some q →
    p.AsksBound q facts (Pattern.joinFrom facts [[]] (r.patterns.take i))
  guards : ∀ facts, ∀ a ∈ Pattern.joinAttempts facts [[]] r.patterns,
    ∀ b k, a ≠ .guardFailed b (.missingKey k)
  answers : ∀ b : Binding, (∀ x, spec.RefersTo x → b.Binds x) → (Value.map b).isOverlong = false →
    ∃ es, List.Forall₂ (EffectSpec.Yields b) spec.effects es ∧
      ∀ view, r.run ⟨view, b, []⟩ = .ok (es.map .effect)

end RuleSpec

/-! ## Compiling a rule -/

namespace Rule

theorem checkPatterns_fit (ps : List Pattern) : checkPatterns (ps.map .fit) = some ps := by
  induction ps with
  | nil => rfl
  | cons p ps ih =>
    unfold checkPatterns at ih ⊢
    rw [List.map_cons, List.mapM_cons, ih]
    rfl

theorem make_eq_ok {name salience once mode throttle : Value} {ps : List Pattern} {act : Action}
    (h : make name (ps.map .fit) (.fit act) salience once mode throttle = .ok r) :
    name.name? = some r.name ∧ r.patterns = ps ∧ r.action = act := by
  unfold make at h
  rw [checkPatterns_fit] at h
  split at h
  · cases h
  · rename_i n hn
    split at h
    · cases h
    · cases ps with
      | nil => cases h
      | cons p ps =>
        cases hs : salience? salience with
        | none =>
          rw [hs] at h
          cases h
        | some w =>
          rw [hs] at h
          dsimp only at h
          split at h
          · cases h
          · cases h
            exact ⟨hn, rfl, rfl⟩

end Rule

namespace RuleSpec

/-- A declared rule that compiles has the patterns and the action of its declaration, and its
effects ask only for variables that its patterns bind. -/
theorem compile_eq_ok (h : spec.compile = .ok r) :
    r.name = .ofText spec.name ∧ r.action = action spec.effects ∧
      PatternSpec.compileFrom spec.name 0 [] spec.patterns = .ok r.patterns ∧
      ∀ e ∈ spec.effects, ∃ names, e.variableNames = .ok names ∧
        ∀ x ∈ names, x ∈ spec.variableNames := by
  unfold compile at h
  obtain ⟨patterns, hpatterns, h⟩ := bind_eq_ok.mp h
  obtain ⟨asked, hasked, h⟩ := bind_eq_ok.mp h
  dsimp only at h
  split at h
  · rename_i hbound
    obtain ⟨hname, rfl, haction⟩ := Rule.make_eq_ok (mapError_eq_ok.mp h)
    refine ⟨(Option.some.inj hname).symm, haction, hpatterns, ?_⟩
    intro e he
    obtain ⟨names, hnames, hread⟩ :=
      exists_of_forall₂ (mapM_eq_ok.mp (lift_eq_ok.mp hasked)) he
    refine ⟨names, hread, ?_⟩
    intro x hx
    exact Document.unbound_isEmpty.mp hbound x (List.mem_flatten.mpr ⟨names, hnames, hx⟩)
  · cases h

theorem refersTo_bound (hw : spec.WellFormed) (h : spec.compile = .ok r) (hx : spec.RefersTo x) :
    x ∈ spec.variableNames := by
  obtain ⟨-, -, hpatterns, heffects⟩ := compile_eq_ok h
  rcases hx with ⟨p, hp, cs, hcs, c, hc, hx⟩ | ⟨e, he, hx⟩
  · obtain ⟨cs', hcs', hasked⟩ := PatternSpec.compileFrom_asked hpatterns p hp
    obtain rfl := Except.ok.inj (hcs.symm.trans hcs')
    exact hasked c hc x hx
  · obtain ⟨names, hnames, hbound⟩ := heffects e he
    rcases hx with htemplate | ⟨names', hnames', hx⟩
    · obtain ⟨w, hexposed, rfl⟩ := map_eq_ok.mp hnames
      exact hbound x (Document.exposed_variables (hw.effects e he) hexposed x htemplate)
    · obtain rfl := Except.ok.inj (hnames.symm.trans hnames')
      exact hbound x hx

theorem compile_ensures (hw : spec.WellFormed) (h : spec.compile = .ok r) : spec.Ensures r := by
  obtain ⟨hname, haction, hpatterns, heffects⟩ := compile_eq_ok h
  have hnothing : ∀ b ∈ [([] : Binding)], ∀ x ∈ ([] : List String), Binding.Binds b x := nofun
  have hasks : ∀ facts (i : Nat) p q, spec.patterns[i]? = some p → r.patterns[i]? = some q →
      p.AsksBound q facts (Pattern.joinFrom facts [[]] (r.patterns.take i)) :=
    fun facts i p q hp hq => PatternSpec.compileFrom_asksBound hw.patterns hpatterns hnothing hp hq
  have hsize := PatternSpec.compileFrom_length hpatterns
  refine ⟨hname, hsize, ⟨?_, ?_⟩, ?_, hasks, ?_, ?_⟩
  · intro p hp
    obtain ⟨cs, hcs, -⟩ := PatternSpec.compileFrom_asked hpatterns p hp
    exact ⟨cs, hcs⟩
  · intro e he
    obtain ⟨names, hnames, -⟩ := heffects e he
    exact ⟨names, hnames⟩
  · intro facts b hb x hx
    exact PatternSpec.joinFrom_binds hw.patterns hpatterns hnothing b hb x (refersTo_bound hw h hx)
  · exact fun facts => PatternSpec.compileFrom_attempts hw.patterns hpatterns hnothing
  · intro b hbinds hb
    have hrender : ∀ e ∈ spec.effects, ∃ effect, e.render b = .ok effect ∧ e.Yields b effect := by
      intro e he
      obtain ⟨names, hnames, -⟩ := heffects e he
      refine EffectSpec.render_returns (hw.effects e he) hnames ?_ hb
      exact fun x hx => hbinds x (.inr ⟨e, he, .inr ⟨names, hnames, hx⟩⟩)
    obtain ⟨es, hyields, hanswer⟩ := action_returns hrender
    refine ⟨es, hyields, ?_⟩
    intro view
    rw [Rule.run, haction, hanswer]
    rfl

end RuleSpec

/-! ## Running a session -/

namespace Session

variable {s : Session} {a : Activation}

/-- What the declaration of a rule ensures in a session that has it: its pending activations bind
everything it refers to, the action answers on each of them with exactly the declared effects, and a
step that fires one leaves these effects, or fails on a fault of what comes after the action. -/
structure RunsSafely (s : Session) (spec : RuleSpec) (r : Rule) : Prop where
  binds : ∀ a ∈ s.pending, a.rule.text = spec.name → ∀ x, spec.RefersTo x → a.binding.Binds x
  answers : ∀ a ∈ s.pending, a.rule.text = spec.name →
    ∃ es, List.Forall₂ (EffectSpec.Yields a.binding) spec.effects es ∧
      ∀ view, r.run ⟨view, a.binding, []⟩ = .ok (es.map .effect)
  step : ∀ a rest, s.pending = a :: rest → a.rule.text = spec.name →
    (∀ e, s.step.value = .error e → ∃ f, e = .fault f) ∧
    ∀ t o, s.step.value = .ok (t, o) →
      o = some a ∧ List.Forall₂ (EffectSpec.Yields a.binding) spec.effects t.lastEffects

/-- What is pending under the name of a rule comes from that rule, over the facts of the session,
and can be written. -/
theorem Reachable.pending_of_rule (hs : s.Reachable) (hr : r ∈ s.rules) (ha : a ∈ s.pending)
    (hname : a.rule.text = r.name.text) : s.rule? a.rule = some r ∧
      a.binding ∈ r.bindings s.memory.facts ∧ (Value.map a.binding).isOverlong = false := by
  obtain ⟨s₀, as, hnew, hist⟩ := hs
  have hrec := hist.recorded hnew
  obtain ⟨hmatch, hpend⟩ := hrec.upToDate
  rw [hpend] at ha
  obtain ⟨⟨r', hr', hact⟩, -⟩ := Agenda.mem_build.mp ha
  have hrule : s.rule? a.rule = some r := by
    rw [rule?, hname]
    exact rule?_eq_some hrec.names hr
  obtain ⟨b, hb, hmake⟩ := Rule.mem_activations.mp hact
  have hrule' : s.rule? a.rule = some r' := by
    rw [hmake]
    exact rule?_eq_some hrec.names hr'
  obtain rfl := Option.some.inj (hrule.symm.trans hrule')
  have hbinding : a.binding = b := congrArg Activation.binding hmake
  rw [hbinding]
  exact ⟨hrule, hb, (hmatch r hr).2 b hb⟩

theorem runsSafely (h : spec.Ensures r) (hs : s.Reachable) (hr : r ∈ s.rules) :
    s.RunsSafely spec r := by
  have hname : r.name.text = spec.name := by
    rw [h.name]
    rfl
  have hbinds : ∀ a ∈ s.pending, a.rule.text = spec.name →
      ∀ x, spec.RefersTo x → a.binding.Binds x := by
    intro a ha hn
    obtain ⟨-, hb, -⟩ := hs.pending_of_rule hr ha (hn.trans hname.symm)
    exact h.binds _ _ hb
  have hanswers : ∀ a ∈ s.pending, a.rule.text = spec.name →
      ∃ es, List.Forall₂ (EffectSpec.Yields a.binding) spec.effects es ∧
        ∀ view, r.run ⟨view, a.binding, []⟩ = .ok (es.map .effect) := by
    intro a ha hn
    obtain ⟨-, -, hwritable⟩ := hs.pending_of_rule hr ha (hn.trans hname.symm)
    exact h.answers _ (hbinds a ha hn) hwritable
  refine ⟨hbinds, hanswers, ?_⟩
  intro a rest hp hn
  have ha : a ∈ s.pending := by
    rw [hp]
    exact List.mem_cons_self
  obtain ⟨hrule, -, -⟩ := hs.pending_of_rule hr ha (hn.trans hname.symm)
  obtain ⟨es, hyields, hrun⟩ := hanswers a ha hn
  constructor
  · exact step_failsByFault hp hrule (hrun _)
  · intro t o ht
    obtain ⟨hnone, -⟩ | ⟨a', rest', u, es', hp', rfl, hfire, -, rfl⟩ := step_eq_ok.mp ht
    · rw [hp] at hnone
      cases hnone
    · rw [hp] at hp'
      cases hp'
      obtain ⟨r', items, hrule', hrun', hknown, -⟩ := fire_eq_ok.mp hfire
      obtain rfl := Option.some.inj (hrule.symm.trans hrule')
      obtain rfl := Except.ok.inj ((hrun _).symm.trans hrun')
      obtain rfl := Except.ok.inj ((knownEffects_effects es).symm.trans hknown)
      exact ⟨rfl, hyields⟩

end Session

/-! ## Documents -/

namespace Document

variable {rules : List Rule}

/-- The rules of a document with well-formed values keep what their declarations ensure. -/
theorem rules_safe {book : RuleBook} (hw : ∀ spec ∈ book.rules, spec.WellFormed)
    (h : book.rules.mapM RuleSpec.compile = .ok rules) :
    List.Forall₂ (fun spec r => spec.Ensures r ∧
      ∀ s : Session, s.Reachable → r ∈ s.rules → s.RunsSafely spec r) book.rules rules := by
  have hall := (List.forall₂_and_left _ _).mpr ⟨hw, mapM_eq_ok.mp h⟩
  refine hall.imp ?_
  intro spec r ⟨hspec, hcompile⟩
  have hensures := RuleSpec.compile_ensures hspec hcompile
  exact ⟨hensures, fun s hs hr => Session.runsSafely hensures hs hr⟩

theorem readFile_wellFormed {files : Files} {path : String} {v : Value}
    (h : readFile files path = .ok v) : v.WellFormed := by
  unfold readFile at h
  dsimp only at h
  split at h
  · cases h
  · split at h
    · cases h
    · split at h
      · cases h
      · unfold ofJson at h
        split at h
        · cases h
          exact Json.read_wellFormed ‹_›
        all_goals cases h

/-- Rules loaded from a file cannot fail when they run either, whatever the file holds. -/
theorem load_safe {files : Files} {path : String} (h : load files path = .ok rules) :
    ∃ v book, readFile files path = .ok v ∧ (data v).parse = .ok book ∧
      List.Forall₂ (fun spec r => spec.Ensures r ∧
        ∀ s : Session, s.Reachable → r ∈ s.rules → s.RunsSafely spec r) book.rules rules := by
  obtain ⟨v, hread, h⟩ := bind_eq_ok.mp h
  obtain ⟨book, hparse, hrules⟩ := bind_eq_ok.mp h
  have hw := parse_wellFormed (.data (readFile_wellFormed hread)) hparse
  exact ⟨v, book, hread, hparse, rules_safe hw hrules⟩

/-- Declared rules that compile cannot fail when they run: each rule of the document keeps what its
declaration ensures, over any facts, and runs safely in every reachable session that has it. -/
theorem compile_safe {d : Document} (hw : d.WellFormed) (h : d.compile = .ok rules) :
    ∃ book, d.parse = .ok book ∧
      List.Forall₂ (fun spec r => spec.Ensures r ∧
        ∀ s : Session, s.Reachable → r ∈ s.rules → s.RunsSafely spec r) book.rules rules := by
  obtain ⟨book, hparse, hrules⟩ := bind_eq_ok.mp h
  exact ⟨book, hparse, rules_safe (parse_wellFormed hw hparse) hrules⟩

namespace Sample

def record (fs : List (String × Value)) : Value := .map (fs.map fun f => (.text f.1, f.2))

/-- Declares a badge and a log entry for every guest whose id is not zero. -/
def badges : Value := record [("name", .text "badges"),
  ("when", .list [record [("kind", .text "guest"), ("fields", record [("id", .text "$who")]),
    ("where", .list [.list [.text "ne", .text "$who", .int 0]])]]),
  ("then", .list [
    record [("op", .text "assert"),
      ("fact", record [("kind", .text "badge"), ("id", .text "$who")])],
    record [("op", .text "log"), ("message", .text "$who")]])]

theorem record_wellFormed {fs : List (String × Value)} (hd : (fs.map (·.1)).Nodup)
    (hv : ∀ f ∈ fs, f.2.WellFormed) : (record fs).WellFormed := by
  refine .map ?_ ?_ ?_ ?_
  · exact List.forall_mem_map.mpr fun f _ => Value.wellFormed_text f.1
  · exact List.forall_mem_map.mpr hv
  · exact List.forall_mem_map.mpr fun f _ => rfl
  · refine List.pairwise_map.mpr ((List.pairwise_map.mp hd).imp ?_)
    intro f g hne
    refine Bool.eq_false_iff.mpr ?_
    intro he
    exact hne (Option.some.inj (Value.eq_text.mp he))

theorem badges_wellFormed : badges.WellFormed := by
  have ht := Value.wellFormed_text
  have hzero : (Value.int 0).WellFormed := .atom rfl (by simp)
  have hfields : (record [("id", .text "$who")]).WellFormed :=
    record_wellFormed (by decide) (by simp [ht])
  have hwhere : (Value.list [.list [.text "ne", .text "$who", .int 0]]).WellFormed :=
    .list (by simpa using Value.WellFormed.list (by simp [ht, hzero]))
  have hpattern : (record [("kind", .text "guest"), ("fields", record [("id", .text "$who")]),
      ("where", .list [.list [.text "ne", .text "$who", .int 0]])]).WellFormed :=
    record_wellFormed (by decide) (by simp [ht, hfields, hwhere])
  have hbadge : (record [("kind", .text "badge"), ("id", .text "$who")]).WellFormed :=
    record_wellFormed (by decide) (by simp [ht])
  have hassert : (record [("op", .text "assert"),
      ("fact", record [("kind", .text "badge"), ("id", .text "$who")])]).WellFormed :=
    record_wellFormed (by decide) (by simp [ht, hbadge])
  have hlog : (record [("op", .text "log"), ("message", .text "$who")]).WellFormed :=
    record_wellFormed (by decide) (by simp [ht])
  refine record_wellFormed (by decide) ?_
  simp only [List.forall_mem_cons]
  exact ⟨ht _, .list (by simpa using hpattern), .list (by simp [hassert, hlog]), nofun⟩

theorem isNew_of_data {v : Value} {rules : List Rule} {s : Session}
    (h : (Document.data v).compile = .ok rules) (hne : rules.isEmpty = false)
    (hs : Session.ofRules rules .default = .ok s) : s.IsNew ∧ s.rules = rules := by
  have hsource : (Source.document (.data v)).compileAll (fun _ => none) = .ok rules := by
    change Source.nonempty _ (Document.compile (.data v)) = _
    rw [h]
    change (if rules.isEmpty then _ else _) = _
    rw [hne]
    rfl
  constructor
  · refine ⟨fun _ => none, .document (.data v), .value .none, none, [], ?_⟩
    change (do
      Session.ofRules (← (Source.document (.data v)).compileAll fun _ => none) .default) = _
    rw [hsource]
    exact hs
  · unfold Session.ofRules at hs
    split at hs <;> cases hs
    rfl

end Sample

/-- Three guests come, one of them with the id zero. The other two are pending, and the first of
them gets a badge and a log entry. -/
theorem compile_safe_badges : (Document.data Sample.badges).WellFormed ∧
    ∃ (rules : List Rule) (s t : Session), (Document.data Sample.badges).compile = .ok rules ∧
      s.Reachable ∧ s.rules = rules ∧ s.pending.length = 2 ∧
      s.step.value = .ok (t, s.pending.head?) ∧ t.lastEffects.length = 2 ∧
      ∃ book, (Document.data Sample.badges).parse = .ok book ∧
        ∃ spec ∈ book.rules, ∃ r ∈ s.rules, spec.Ensures r ∧ s.RunsSafely spec r := by
  let os : List Session.Operation :=
    [.assertFact (Session.Sample.fact "guest" (.int 1)),
      .assertFact (Session.Sample.fact "guest" (.int 0)),
      .assertFact (Session.Sample.fact "guest" (.int 2))]
  have hd : ((Document.data Sample.badges).compile >>= fun rules =>
      Session.ofRules rules .default >>= fun s => s.replay os >>= fun q =>
      q.1.step.value >>= fun u =>
        pure (rules.isEmpty, q.1.pending.length, u.1.lastEffects.length)).toOption =
      some (false, 2, 2) := by
    decide +kernel
  simp only [toOption_eq_some, bind_eq_ok, pure, Except.pure, Except.ok.injEq, Prod.mk.injEq] at hd
  obtain ⟨rules, hrules, s₀, hs₀, q, hq, ⟨t, o⟩, hstep, hne, hpending, heffects⟩ := hd
  obtain ⟨hnew, hsame⟩ := Sample.isNew_of_data hrules hne hs₀
  have hist := Session.replay_history hq
  have hreach : q.1.Reachable := ⟨_, q.2, hnew, hist⟩
  have hkept : q.1.rules = rules := hist.keeps.1.trans hsame
  have hw : (Document.data Sample.badges).WellFormed := .data Sample.badges_wellFormed
  obtain ⟨book, hbook, hall⟩ := compile_safe hw hrules
  obtain ⟨r, hr⟩ := List.exists_mem_of_ne_nil rules (by simpa using hne)
  obtain ⟨spec, hspec, hensures, hruns⟩ := exists_of_forall₂ hall.flip hr
  have hhead : o = q.1.pending.head? := by
    obtain ⟨hp, -, ho⟩ | ⟨a, rest, _, _, hp, ho, -⟩ := Session.step_eq_ok.mp hstep
    · rw [ho, hp]
      rfl
    · rw [ho, hp]
      rfl
  rw [hhead] at hstep
  rw [← hkept] at hr
  exact ⟨hw, rules, q.1, t, hrules, hreach, hkept, hpending, hstep, heffects, book, hbook, spec,
    hspec, r, hr, hensures, hruns q.1 hreach hr⟩

end Document

end RuleEngine
