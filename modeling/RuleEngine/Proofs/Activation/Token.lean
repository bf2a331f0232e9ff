import RuleEngine.Proofs.Agenda
import RuleEngine.Proofs.Fact.Clash
import RuleEngine.Proofs.Pattern.Join
import RuleEngine.Session.Change

/-!
# Tokens and the equality of bindings

A token remembers an activation by the stand-in of its binding. Between bindings of plain data that
are equal, whatever the order of their variables and the types of their numbers, tokens do not
distinguish: what has fired under one of them has fired under the other. They do not distinguish
containers of different sorts either, so one of two activations that differ in nothing else never
fires.

* `of_eqv`: equal bindings of plain data have equal tokens, or neither has one.
* `of_ne`: the tokens of different bindings that do not clash are different.
-/

namespace RuleEngine.Token

variable {rule rule' : Name} {b c : Binding}

/-- Of two equal bindings of plain data either both have a token or neither has, by whether they can
be shown. If they have one, their tokens are equal, so an activation under one of them is spent once
one under the other has fired. -/
theorem of_eqv (hr : rule.text = rule'.text) (hb : (Value.map b).IsPlain)
    (hc : (Value.map c).IsPlain) (h : (Value.map b == Value.map c) = true)
    (salience : Salience) (once : Bool) :
    ((Value.map b).isOverlong = true →
      Token.of rule b = .error .unwritableInteger ∧
        Token.of rule' c = .error .unwritableInteger) ∧
    ((Value.map b).isOverlong = false → ∃ t a, Token.of rule b = .ok t ∧
      Activation.of rule' c salience once = .ok a ∧ Token.of rule' c = .ok a.token ∧
      (t == a.token) = true ∧ ∀ ts os, t ∈ ts → Agenda.isOpen ts os a = false) := by
  have hlong : (Value.map b).isOverlong = (Value.map c).isOverlong := hb.isOverlong_congr hc h
  refine ⟨fun hover => ⟨of_eq_error.mpr ⟨hover, rfl⟩, of_eq_error.mpr ⟨hlong ▸ hover, rfl⟩⟩,
    fun hshown => ?_⟩
  have hshown' : (Value.map c).isOverlong = false := hlong ▸ hshown
  have htoken : (Token.frozen rule b == Token.frozen rule' c) = true := by
    have hfrozen : (Value.map b).freeze.eqv (Value.map c).freeze = true := hb.freeze_eqv hc h
    exact Bool.and_eq_true_iff.mpr ⟨beq_iff_eq.mpr hr, hfrozen⟩
  refine ⟨_, _, of_eq_ok.mpr ⟨hshown, rfl⟩, Activation.of_eq_ok.mpr ⟨hshown', rfl⟩,
    of_eq_ok.mpr ⟨hshown', rfl⟩, htoken, fun ts os ht => ?_⟩
  have hspent : Agenda.IsSpent ts os (.make rule' c salience once) := .inl ⟨_, ht, htoken⟩
  exact Bool.eq_false_iff.mpr fun hopen => Agenda.isOpen_iff.mp hopen hspent

def Sample.one : Double := .ofInt 1

/-- A map with the entries of a list and of nothing, in this order. -/
def Sample.nested (items : List Value) : Value :=
  .map [(.text "xs", .list items), (.text "it's", .none)]

def Sample.left : Binding :=
  [(.text "n", .int 1), (.text "m", Sample.nested [.bool true, .float one])]

/-- The same variables in another order, with equal numbers of other types. -/
def Sample.right : Binding :=
  [(.text "m", Sample.nested [.float one, .int 1]), (.text "n", .bool true)]

theorem Sample.nested_isPlain {items : List Value} (h : ∀ x ∈ items, x.IsPlain) :
    (nested items).IsPlain := by
  refine .map (by simp) ?_ (by simp)
  simp only [List.forall_mem_cons, List.not_mem_nil, false_imp_iff, implies_true, and_true]
  exact ⟨.list h, .scalar trivial⟩

theorem of_eqv_mixed : (Value.map Sample.left == Value.map Sample.right) = true ∧
    ∃ t a, Token.of (.ofText "watch") Sample.left = .ok t ∧
      Token.of (.ofText "watch") Sample.right = .ok a.token ∧ (t == a.token) = true ∧
      Agenda.isOpen [t] [] a = false := by
  have hint : (Value.int 1).IsPlain := .scalar trivial
  have hbool : (Value.bool true).IsPlain := .scalar trivial
  have hone : (Value.float Sample.one).IsPlain :=
    .scalar (show Sample.one ≠ .nan by decide +kernel)
  have hleft : (Value.map Sample.left).IsPlain := by
    refine .map (by simp [Sample.left]) ?_ (by simp [Sample.left])
    simpa [Sample.left, hint] using Sample.nested_isPlain (by simp [hbool, hone])
  have hright : (Value.map Sample.right).IsPlain := by
    refine .map (by simp [Sample.right]) ?_ (by simp [Sample.right])
    simpa [Sample.right, hbool] using Sample.nested_isPlain (by simp [hint, hone])
  have heq : (Value.map Sample.left == Value.map Sample.right) = true := by decide +kernel
  have hshown : (Value.map Sample.left).isOverlong = false := by decide +kernel
  have hname : (Name.ofText "watch").text = (Name.ofText "watch").text := rfl
  obtain ⟨-, htokens⟩ := of_eqv hname hleft hright heq (.ofInt 0) false
  obtain ⟨t, a, ht, -, ha, htoken, hspent⟩ := htokens hshown
  exact ⟨heq, t, a, ht, ha, htoken, hspent _ _ List.mem_cons_self⟩

def Sample.watch : Rule where
  name := .ofText "watch"
  patterns := [Pattern.Sample.bind "x"]
  action := fun _ => .ok (.effects [])
  salience := .ofInt 0
  once := false
  mode := .perFact
  throttle := .none
  name_ne_empty := by decide
  patterns_ne_nil := by simp
  once_eq := rfl

/-- A binding equals itself, but if it holds a number with 4301 digits it has no token, and finding
the activations of a rule that binds this number fails. -/
theorem of_eqv_overlong : (Value.map [(.text "x", .int Value.writtenBound)]).IsPlain ∧
    (Value.map [(.text "x", .int Value.writtenBound)] ==
      Value.map [(.text "x", .int Value.writtenBound)]) = true ∧
    (Session.ruleActivations [.int Value.writtenBound] Sample.watch).value =
      .error (.fault .unwritableInteger) := by
  have hplain : (Value.map [(.text "x", .int Value.writtenBound)]).IsPlain :=
    .map (List.forall_mem_singleton.mpr ⟨_, rfl⟩)
      (List.forall_mem_singleton.mpr (.scalar trivial)) (List.pairwise_singleton _ _)
  refine ⟨hplain, hplain.proper.refl, ?_⟩
  have hmatch : (Pattern.matchAll Sample.watch.patterns [.int Value.writtenBound]).value =
      .ok [[(.text "x", .int Value.writtenBound)]] := rfl
  have hlong : (Value.map [(.text "x", .int Value.writtenBound)]).isOverlong = true :=
    Value.isOverlongEntry_iff.mpr
      ⟨_, List.mem_singleton_self _, .inr Value.isOverlongInteger_writtenBound⟩
  refine Traced.bind_value_eq_error.mpr (.inr ⟨_, hmatch, ?_⟩)
  have hnone : Activation.of (.ofText "watch") [(.text "x", .int Value.writtenBound)] (.ofInt 0)
      false = .error .unwritableInteger := Activation.of_eq_error.mpr ⟨hlong, rfl⟩
  have hwatch : [[(Value.text "x", Value.int Value.writtenBound)]].mapM (fun b =>
      Activation.of Sample.watch.name b Sample.watch.salience Sample.watch.once) =
      .error .unwritableInteger :=
    mapM_eq_error.mpr ⟨[], _, [], rfl, nofun, hnone⟩
  rw [Traced.ofExcept_value, hwatch]
  rfl

/-! ## Different bindings -/

def Sample.x (v : Value) : Binding := [(.text "x", v)]

theorem Sample.number_isStructured (n : Int) : (Value.int n).IsStructured :=
  .atom rfl (by simp) rfl (by simp)

theorem Sample.x_isStructured {v : Value} (h : v.IsStructured) :
    (Value.map (x v)).IsStructured := by
  refine .map ?_ ?_ ?_ (List.pairwise_singleton _ _)
  · simpa [x] using .atom rfl (by simp) rfl (by simp)
  · simpa [x] using h
  · simp [x, Value.hashable_text]

theorem Sample.x_clash {v w : Value} (h : Value.Clash (.map (x v)) (.map (x w))) :
    Value.Clash v w := by
  cases h with
  | sorts hl hr hne => cases hl; cases hr; exact absurd rfl hne
  | map he hf hk hc =>
    rw [x, List.mem_singleton] at he hf
    subst he hf
    exact hc

end RuleEngine.Token
