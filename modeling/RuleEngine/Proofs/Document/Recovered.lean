import RuleEngine.Proofs.Document.Pattern
import RuleEngine.Proofs.Pattern.Meaning
import RuleEngine.Proofs.Value.Plain

/-!
# Templates found again

Field terms and templates share one notation, which rendering and compiling read separately. What is
rendered from a template under a binding satisfies the terms of the same text under the assignment
of that binding, so a fact that an effect asserts is found by the pattern written like it, and
matching recovers the binding (`matches_rendered`).

This needs names for the fields at every depth, and no notation inside lists, which rendering goes
through while a term takes them as they are (`Reversible`).

* `variableNames_term`: the variables a term binds are those its text asks for as a template.
* `satisfy_rendered`: matching what was rendered succeeds, and keeps to the binding.
-/

namespace RuleEngine

variable {v w : Value} {b c : Binding} {es fs : List (Value × Value)}

/-! ## Literals -/

namespace Value

/-- Whether the value is a scalar or stands for a text. -/
def IsLiteral (v : Value) : Prop := v.IsScalar ∨ ∃ s, v.text? = some s

theorem IsLiteral.flat (h : v.IsLiteral) : Template.IsFlat v := by
  rcases h with hs | ⟨s, hs⟩
  · cases v <;> first | exact ⟨rfl, rfl⟩ | cases hs
  · cases v <;> first | exact ⟨rfl, rfl⟩ | cases hs

theorem IsLiteral.proper (h : v.IsLiteral) : v.Proper := by
  rcases h with hs | ⟨s, hs⟩
  · exact (IsPlain.scalar hs).proper
  · exact .atom (text_eq_some.mp hs) (by simp)

theorem IsLiteral.unescape (h : v.IsLiteral) : (Reference.unescape v).IsLiteral := by
  unfold Reference.unescape
  split
  · exact .inl trivial
  · exact h

end Value

namespace Term

/-- As a term, a literal has neither fields nor variables, and is compared with the value. -/
theorem isLiteral_spec (h : v.IsLiteral) : wellNamed v = true ∧ variableNames v = [] ∧
    ∀ w c, satisfy v w c = .ok (if v == w then some c else none) := by
  rcases h with hs | ⟨s, hs⟩
  · cases v <;> first | exact ⟨rfl, rfl, fun _ _ => rfl⟩ | cases hs
  · cases v <;> first | exact ⟨rfl, rfl, fun _ _ => rfl⟩ | cases hs

theorem allWellNamed_iff : allWellNamed es = true ↔
    ∀ e ∈ es, (name? e.1).isSome = true ∧ wellNamed e.2 = true := by
  induction es with
  | nil => exact iff_of_true rfl nofun
  | cons e es ih =>
    rw [allWellNamed, Bool.and_eq_true, Bool.and_eq_true, ih, List.forall_mem_cons]

end Term

namespace Binding

variable {xs : List String} {x : String}

/-- The part of a binding that is about these variables. -/
def restrict (xs : List String) (b : Binding) : Binding :=
  b.filter fun e => e.1.text?.any xs.contains

theorem mem_restrict {e : Value × Value} :
    e ∈ b.restrict xs ↔ e ∈ b ∧ ∃ x ∈ xs, e.1.text? = some x := by
  simp [restrict, Option.any_eq_true, and_comm]

theorem binds_restrict : (b.restrict xs).Binds x ↔ x ∈ xs ∧ b.Binds x := by
  simp only [binds_iff, mem_restrict]
  constructor
  · rintro ⟨e, ⟨he, y, hy, hey⟩, hex⟩
    obtain rfl := Option.some.inj (hex.symm.trans hey)
    exact ⟨hy, e, he, hex⟩
  · rintro ⟨hx, e, he, hex⟩
    exact ⟨e, ⟨he, x, hx, hex⟩, hex⟩

theorem Proper.restrict_textual (hb : b.Proper) : (b.restrict xs).Textual := by
  obtain ⟨hkeys, hvalues, hdistinct⟩ := proper_iff.mp hb
  refine ⟨proper_iff.mpr ⟨?_, ?_, hdistinct.filter _⟩, ?_⟩
  · exact fun e he => hkeys e (mem_restrict.mp he).1
  · exact fun e he => hvalues e (mem_restrict.mp he).1
  · intro e he
    obtain ⟨-, x, -, hx⟩ := mem_restrict.mp he
    exact ⟨x, hx⟩

end Binding

/-! ## Templates that can be read back -/

namespace Template

def BeginsWithDollar (v : Value) : Prop := ∃ s cs, v.text? = some s ∧ s.toList = '$' :: cs

theorem IsNotation.begins (h : IsNotation v) : BeginsWithDollar v := by
  cases ht : v.text? with
  | none =>
    rcases h with hname | hescape
    · simp [Reference.name?, ht] at hname
    · simp [Reference.unescape, ht] at hescape
  | some s =>
    refine ⟨s, ?_⟩
    rcases h with hname | hescape
    · simp only [Reference.name?, ht, Option.bind_some, Reference.ofText?] at hname
      split at hname
      · rename_i cs hs
        exact ⟨cs, ht, hs⟩
      · cases hname
    · unfold Reference.unescape at hescape
      split at hescape
      · rename_i cs hs
        exact ⟨'$' :: cs, ht, by simpa [ht] using hs⟩
      · exact absurd rfl hescape

/-- A template whose rendering can be matched again. Fields have names, and lists hold plain data
without notation. -/
inductive Reversible : Value → Prop where
  | literal {v : Value} (literal : v.IsLiteral) : Reversible v
  | list {xs : List Value} (plain : ∀ x ∈ xs, x.IsPlain)
      (verbatim : ∀ x ∈ xs, ¬ Occurs IsNotation x) : Reversible (.list xs)
  | map {es : List (Value × Value)} (names : ∀ e ∈ es, ∃ s, e.1 = .text s ∧ s ≠ "")
      (distinct : es.Pairwise fun e f => e.1 ≠ f.1) (values : ∀ e ∈ es, Reversible e.2) :
      Reversible (.map es)

/-- Lists of plain data in which no text begins with a dollar sign can be read back. -/
theorem Reversible.list_of_texts {xs : List Value} (plain : ∀ x ∈ xs, x.IsPlain)
    (h : ∀ x ∈ xs, ¬ Occurs BeginsWithDollar x) : Reversible (.list xs) :=
  .list plain fun x hx k => h x hx (k.mono fun _ hw => .here hw.begins)

theorem not_occurs_list {xs : List Value} (h : ∀ x ∈ xs, ¬ Occurs IsNotation x) :
    ¬ Occurs IsNotation (.list xs) := by
  intro hoccurs
  cases hoccurs with
  | here hv => exact hv.elim nofun fun hne => hne rfl
  | list hmem hx => exact h _ hmem hx

end Template

namespace Document

open Template (Reversible render)

/-- The term of a literal is the wildcard, a variable, or the literal less its escape. -/
theorem term_isLiteral (h : v.IsLiteral) : term v = if v == .text "_" then .any
    else (Reference.name? v).elim (Reference.unescape v) fun x => .var (.ofText x) := by
  have hmap : ∀ es, v ≠ .map es := by
    rintro es rfl
    cases h.flat.2
  rw [term_eq_of_not_map hmap]
  split
  · rfl
  · cases Reference.name? v <;> rfl

theorem name?_wildcard (h : (v == .text "_") = true) : Reference.name? v = none := by
  rw [Reference.name?, Value.eq_text.mp h]
  decide

/-- A term has the variables its text asks for as a template. -/
theorem variableNames_term (h : Reversible v) :
    Term.variableNames (term v) = (Template.variableNames v).map Name.ofText := by
  induction h with
  | @literal v hv =>
    rw [term_isLiteral hv, Template.variableNames_flat hv.flat]
    split
    · rename_i hany
      rw [name?_wildcard hany]
      rfl
    · cases Reference.name? v with
      | some x => rfl
      | none => exact (Term.isLiteral_spec hv.unescape).2.1
  | @list xs hplain hverbatim =>
    rw [Template.variableNames_eq_nil (Template.not_occurs_list hverbatim)]
    rfl
  | @map es hnames hdistinct hvalues ih =>
    rw [term, Term.variableNames, Term.variablesOf_eq_flatMap, terms_eq_map, List.flatMap_map,
      Template.variableNames_map, List.map_flatMap]
    exact List.flatMap_congr ih

/-! ## Matching what was rendered -/

open Binding (Narrows)

/-- The second binding is one of texts, and whatever it binds has the value of the first one. -/
structure Recovers (b c : Binding) : Prop where
  textual : c.Textual
  fits : c.Fits b.assignment

theorem Recovers.nil : Recovers b [] := ⟨.nil, Binding.fits_nil⟩

/-- What the assignment of the binding reaches keeps to the binding. -/
theorem Recovers.narrow {goal : Assignment → Prop} {o : Option Binding} (hc : Recovers b c)
    (h : Narrows goal c o) (hgoal : goal b.assignment) : ∃ d, o = some d ∧ Recovers b d := by
  obtain ⟨d, hd, hfits⟩ := (h.fits_iff _).mp ⟨hc.fits, hgoal⟩
  exact ⟨d, hd, h.textual d hd, hfits⟩

theorem assignment_of_read {x : String} (h : b.read x = .ok w) : b.assignment x = w := by
  rw [Binding.assignment, Binding.read_eq_ok.mp h, Option.getD_some]

theorem proper_of_read {x : String} (hb : b.Proper) (h : b.read x = .ok w) : w.Proper := by
  obtain ⟨e, he, -, rfl⟩ := Binding.mem_of_read h
  exact (Binding.proper_iff.mp hb).2.1 e he

/-- Field terms that the fields of a map satisfy one by one are satisfied together. -/
theorem satisfyFields_rendered (h : ∀ e ∈ es, ∃ u, Assoc.lookup e.1 fs = some u ∧
      ∀ c, Recovers b c → ∃ d, Term.satisfy (term e.2) u c = .ok (some d) ∧ Recovers b d)
    (hc : Recovers b c) :
    ∃ d, Term.satisfyFields (terms es) (.map fs) c = .ok (some d) ∧ Recovers b d := by
  induction es generalizing c with
  | nil => exact ⟨c, rfl, hc⟩
  | cons e es ih =>
    obtain ⟨⟨u, hu, hhead⟩, htail⟩ := List.forall_mem_cons.mp h
    obtain ⟨c', hc', hrecovers⟩ := hhead c hc
    obtain ⟨d, hd, hresult⟩ := ih htail hrecovers
    have hfield : Term.field (.map fs) e.1 = .ok (some u) := congrArg Except.ok hu
    refine ⟨d, ?_, hresult⟩
    rw [terms, Term.satisfyFields_present hfield, hc']
    exact hd

theorem lookup_rendered (hnames : ∀ e ∈ es, ∃ s, e.1 = .text s ∧ s ≠ "")
    (hdistinct : es.Pairwise fun e f => e.1 ≠ f.1)
    (h : List.Forall₂ (fun e f => f.1 = e.1 ∧ render b e.2 = .ok f.2) es fs) {e : Value × Value}
    (he : e ∈ es) : ∃ u, Assoc.lookup e.1 fs = some u ∧ render b e.2 = .ok u := by
  have htexts : ∀ e ∈ es, ∃ s, e.1 = .text s := fun e he => (hnames e he).imp fun _ hs => hs.1
  have hkeys : fs.map (·.1) = es.map (·.1) :=
    (map_eq_map_iff.mpr (h.imp fun _ _ hef => hef.1.symm)).symm
  obtain ⟨f, hf, hkey, hrender⟩ := exists_of_forall₂ h he
  obtain ⟨s, hs⟩ := htexts e he
  refine ⟨f.2, ?_, hrender⟩
  rw [← hkey]
  refine Assoc.lookup_of_mem ?_ hf ?_
  · exact Assoc.distinct_of_keys hkeys (Value.text_keys_distinct htexts hdistinct)
  · rw [hkey, hs]
    exact (Value.proper_text s).refl

/-- What is rendered from a template satisfies its term, and what is bound on the way is what the
template was rendered with. -/
theorem satisfy_rendered (hb : b.Proper) (hv : Reversible v) (h : render b v = .ok w)
    (hc : Recovers b c) :
    ∃ d, Term.satisfy (term v) w c = .ok (some d) ∧ Recovers b d := by
  induction hv generalizing w c with
  | @literal v hlit =>
    rw [Template.render_flat hlit.flat] at h
    rw [term_isLiteral hlit]
    split
    · exact ⟨c, rfl, hc⟩
    · cases hn : Reference.name? v with
      | some x =>
        rw [hn] at h
        have hw : w.Proper := proper_of_read hb h
        have hgoal : (w == b.assignment x) = true := assignment_of_read h ▸ hw.refl
        obtain ⟨d, hd, hrecovers⟩ :=
          hc.narrow (Term.bindVariable_narrows (n := .ofText x) rfl hw hc.textual) hgoal
        exact ⟨d, congrArg Except.ok hd, hrecovers⟩
      | none =>
        rw [hn] at h
        obtain rfl : Reference.unescape v = w := Except.ok.inj h
        refine ⟨c, ?_, hc⟩
        rw [Option.elim_none, (Term.isLiteral_spec hlit.unescape).2.2,
          if_pos hlit.unescape.proper.refl]
  | @list xs hplain hverbatim =>
    -- a list is compared as a whole, and renders to itself
    obtain rfl := Except.ok.inj
      (h.symm.trans (Template.render_self (Template.not_occurs_list hverbatim)))
    have hproper : (Value.list xs).Proper := .list fun x hx => (hplain x hx).proper
    have hsatisfy : Term.satisfy (term (.list xs)) (.list xs) c =
        .ok (if Value.list xs == .list xs then some c else none) := rfl
    exact ⟨c, by rw [hsatisfy, if_pos hproper.refl], hc⟩
  | @map es hnames hdistinct hvalues ih =>
    obtain ⟨fs, rfl, hfs⟩ := Template.render_map_eq_ok.mp h
    refine satisfyFields_rendered (fun e he => ?_) hc
    obtain ⟨u, hu, hrender⟩ := lookup_rendered hnames hdistinct hfs he
    exact ⟨u, hu, fun c hc => ih e he hrender hc⟩

/-! ## Matching undoes rendering -/

theorem wellNamed_term (hv : Reversible v) : Term.wellNamed (term v) = true := by
  induction hv with
  | @literal v hlit =>
    rw [term_isLiteral hlit]
    split
    · rfl
    · cases Reference.name? v with
      | some x => rfl
      | none => exact (Term.isLiteral_spec hlit.unescape).1
  | list => rfl
  | @map es hnames hdistinct hvalues ih =>
    rw [term, Term.wellNamed, Term.allWellNamed_iff, terms_eq_map]
    refine List.forall_mem_map.mpr fun e he => ⟨?_, ih e he⟩
    obtain ⟨s, hs, hne⟩ := hnames e he
    simp [hs, hne, Term.name?, Value.name?, Option.filter]

/-- What keeps to a binding and binds just these variables is this part of the binding. -/
theorem Recovers.eqv_restrict {d : Binding} {xs : List String} (hb : b.Proper)
    (hd : Recovers b d) (hbound : ∀ x ∈ xs, b.Binds x) (hbinds : ∀ x, d.Binds x ↔ x ∈ xs) :
    (Value.map d == Value.map (b.restrict xs)) = true := by
  have hr : (b.restrict xs).Textual := hb.restrict_textual
  refine (Binding.eqv_iff_within hd.textual.proper hr.proper).mpr ⟨?_, ?_⟩
  · refine hd.textual.within hr (fun x hx => ?_) fun e he x hx => ?_
    · exact Binding.binds_restrict.mpr ⟨(hbinds x).mp hx, hbound x ((hbinds x).mp hx)⟩
    · have hmem : x ∈ xs := (hbinds x).mp (Binding.binds_iff.mpr ⟨e, he, hx⟩)
      obtain ⟨f, hf, hfx⟩ := Binding.binds_iff.mp (hbound x hmem)
      have hfr : f ∈ b.restrict xs := Binding.mem_restrict.mpr ⟨hf, x, hmem, hfx⟩
      rw [hr.assignment_eq hfr hfx, ← hb.assignment_eq hf hfx]
      exact hd.fits e he x hx
  · refine hr.within hd.textual (fun x hx => ?_) fun f hf x hx => ?_
    · exact (hbinds x).mpr (Binding.binds_restrict.mp hx).1
    · obtain ⟨hfb, y, hy, hfy⟩ := Binding.mem_restrict.mp hf
      obtain rfl : x = y := Option.some.inj (hx.symm.trans hfy)
      obtain ⟨e, he, hex⟩ := Binding.binds_iff.mp ((hbinds x).mpr hy)
      have hvalue := hd.fits e he x hex
      rw [hb.assignment_eq hfb hx] at hvalue
      rw [hd.textual.assignment_eq he hex]
      exact (hd.textual.proper.value_isSteady he).symm hvalue

/-- The pattern with the fields of a template that can be read back matches whatever is rendered
from the template, and returns what the template was rendered with, as far as it asks for it. -/
theorem matches_rendered (hes : Reversible (.map es)) (hb : b.Proper)
    (hbound : ∀ x ∈ Template.variableNames (.map es), b.Binds x) (rule : String) (i : Nat)
    (bound : List String) :
    ∃ fact m d, render b (.map es) = .ok fact ∧
      PatternSpec.compile rule i bound ⟨none, es, [], none⟩ = .ok ⟨m, none⟩ ∧
      Pattern.Gives m fact d ∧
      (Value.map d == Value.map (b.restrict (Template.variableNames (.map es)))) = true := by
  obtain ⟨fact, hfact⟩ := Template.render_returns hbound
  obtain ⟨d, hd, hrecovers⟩ := satisfy_rendered hb hes hfact .nil
  have hcompile : PatternSpec.compile rule i bound ⟨none, es, [], none⟩ =
      .ok ⟨Pattern.matcherOf .anything (terms es) none, none⟩ := by
    have hnamed : Term.allWellNamed (terms es) = true := wellNamed_term hes
    refine PatternSpec.compile_iff.mpr ⟨[], _, rfl, nofun, ?_, rfl⟩
    refine Pattern.declare_eq_ok.mpr ⟨rfl, .anything, rfl, none, rfl, terms es, ?_, hnamed, rfl⟩
    cases es <;> rfl
  have hnames : Term.variablesOf (terms es) =
      (Template.variableNames (.map es)).map Name.ofText := variableNames_term hes
  have hadds := Term.satisfy_adds (term (.map es)) fact [] (fun n hn => by
    change n ∈ Term.variablesOf (terms es) at hn
    rw [hnames] at hn
    obtain ⟨x, -, rfl⟩ := List.mem_map.mp hn
    rfl) hd
  refine ⟨fact, _, d, hfact, hcompile, Pattern.gives_matcherOf.mpr ?_,
    hrecovers.eqv_restrict hb hbound fun x => ?_⟩
  · have hfields : Term.satisfyFields (terms es) fact [] = .ok (some d) := hd
    rw [Pattern.select, hfields]
    rfl
  · have hx := hadds x
    rw [variableNames_term hes, List.map_map] at hx
    simpa [Binding.binds_iff, Name.ofText, Function.comp_def] using hx

/-- A template with a wildcard, an escaped text, a list, and a variable at two depths. -/
def Sample.order : List (Value × Value) :=
  [(.text "id", .text "$x"), (.text "note", .text "_"), (.text "price", .text "$$5"),
    (.text "buyer", .map [(.text "id", .text "$x"), (.text "rank", .text "$rank")]),
    (.text "items", .list [.int 1, .text "a"]), (.text "sent", .none)]

/-- A binding for it, with a variable more than it asks for. -/
def Sample.buyer : Binding :=
  [(.text "rank", .text "$$gold"), (.text "extra", .none), (.text "x", .tuple [.int 7])]

def Sample.ordered : List (Value × Value) :=
  [(.text "id", .tuple [.int 7]), (.text "note", .text "_"), (.text "price", .text "$5"),
    (.text "buyer", .map [(.text "id", .tuple [.int 7]), (.text "rank", .text "$$gold")]),
    (.text "items", .list [.int 1, .text "a"]), (.text "sent", .none)]

/-- The fact with everything filled in is matched, also where two fields share a variable and where
a value looks like an escaped text. -/
theorem matches_rendered_order : Reversible (.map Sample.order) ∧ Sample.buyer.Proper ∧
    (∀ x ∈ Template.variableNames (.map Sample.order), Sample.buyer.Binds x) ∧
    render Sample.buyer (.map Sample.order) = .ok (.map Sample.ordered) ∧
    ∃ m d, PatternSpec.compile "ship" 0 [] ⟨none, Sample.order, [], none⟩ = .ok ⟨m, none⟩ ∧
      Pattern.Gives m (.map Sample.ordered) d ∧
      (Value.map d == .map [(.text "rank", .text "$$gold"), (.text "x", .tuple [.int 7])]) =
        true := by
  have hliteral (s : String) : Reversible (.text s) := .literal (.inl trivial)
  have hbuyer : Reversible (.map [(.text "id", .text "$x"), (.text "rank", .text "$rank")]) :=
    .map (by simp) (by simp) (by simp [hliteral])
  have hitems : Reversible (.list [.int 1, .text "a"]) := by
    have hone : ¬ Template.IsNotation (.int 1) := fun h => h.elim nofun fun hne => hne rfl
    have ha : ¬ Template.IsNotation (.text "a") := fun h => h.elim nofun fun hne => hne rfl
    refine .list ?_ ?_ <;> simp only [List.forall_mem_cons]
    · exact ⟨.scalar trivial, .scalar trivial, nofun⟩
    · exact ⟨fun h => hone (Template.occurs_of_flat ⟨rfl, rfl⟩ h),
        fun h => ha (Template.occurs_of_flat ⟨rfl, rfl⟩ h), nofun⟩
  have htemplate : Reversible (.map Sample.order) := by
    refine .map (by simp [Sample.order]) (by simp [Sample.order]) ?_
    simp only [Sample.order, List.forall_mem_cons]
    exact ⟨hliteral _, hliteral _, hliteral _, hbuyer, hitems, .literal (.inl trivial), nofun⟩
  have hproper : Sample.buyer.Proper := by
    refine Value.IsPlain.proper (.map (by simp [Sample.buyer]) ?_ (by simp [Sample.buyer]))
    simp only [Sample.buyer, List.forall_mem_cons]
    exact ⟨.scalar trivial, .scalar trivial,
      .tuple (List.forall_mem_singleton.mpr (.scalar trivial)), nofun⟩
  have hbound : ∀ x ∈ Template.variableNames (.map Sample.order), Sample.buyer.Binds x := by
    have hnames : Template.variableNames (.map Sample.order) = ["x", "x", "rank"] := by decide
    rw [hnames]
    simp only [List.forall_mem_cons]
    exact ⟨⟨_, rfl⟩, ⟨_, rfl⟩, ⟨_, rfl⟩, nofun⟩
  have hrender : render Sample.buyer (.map Sample.order) = .ok (.map Sample.ordered) := rfl
  obtain ⟨fact, m, d, hfact, hcompile, hgives, hequal⟩ :=
    matches_rendered htemplate hproper hbound "ship" 0 []
  obtain rfl := Except.ok.inj (hfact.symm.trans hrender)
  exact ⟨htemplate, hproper, hbound, hrender, m, d, hcompile, hgives, hequal⟩

end Document

end RuleEngine
