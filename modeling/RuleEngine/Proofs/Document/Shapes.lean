import RuleEngine.Document.Spec
import RuleEngine.Proofs.Schema.Record

/-!
# The shapes of a document

Several rules can be declared by a list, by a tuple, or in a list under the key `rules` of a record,
all of them as plain data or with rules that have been read already (`Gathers`). Each shape is read
on a path of its own, and so is a rule that stands alone (`IsSingle`). All these paths agree: what
is gathered reads in every shape alike, down to the flaws reported, it reads just if each rule would
be read alone, and gives the rules of all of them in order (`parse_gathered`).
-/

namespace RuleEngine

namespace Checked

variable {α β γ : Type}

/-- Items that are read through a conversion can just as well be converted first. -/
theorem eachFrom_map {read : β → Checked γ} {f : α → β} {i : Nat} {xs : List α} :
    eachFrom read i (xs.map f) = eachFrom (read ∘ f) i xs := by
  induction xs generalizing i with
  | nil => rfl
  | cons x xs ih => rw [List.map_cons, eachFrom, eachFrom, ih, Function.comp_apply]

end Checked

namespace Document

variable {ds : List Document} {d e : Document} {book : RuleBook} {vs : List Value}

/-- The document is a rule that has been read, or a map without the key `rules`. -/
inductive IsSingle : Document → Prop where
  | rule (r : RuleSpec) : IsSingle (.rule r)
  | data {es : List (Value × Value)} (alone : Value.entry? (.map es) "rules" = none) :
      IsSingle (.data (.map es))

/-- The document consists of these ones in order. -/
inductive Gathers : List Document → Document → Prop where
  | list (ds : List Document) : Gathers ds (.list ds)
  | tuple (ds : List Document) : Gathers ds (.tuple ds)
  | record (ds : List Document) : Gathers ds (.record ds)
  | dataList (vs : List Value) : Gathers (vs.map data) (.data (.list vs))
  | dataTuple (vs : List Value) : Gathers (vs.map data) (.data (.tuple vs))
  | dataRecord (vs : List Value) :
      Gathers (vs.map data) (.data (.map [(.text "rules", .list vs)]))

theorem ofValue_record (vs : List Value) :
    ofValue (.map [(.text "rules", .list vs)]) = ofItems (vs.map data) := by
  have hbook : ruleBook (.map [(.text "rules", .list vs)]) =
      RuleBook.mk <$> (Checked.each ruleSpec vs).under (.field "rules") := rfl
  have hitems : Checked.each item (vs.map data) = Checked.each ruleSpec vs := Checked.eachFrom_map
  rw [ofItems, hitems, ← hbook]
  rfl

/-- In every shape the items are read one by one. -/
theorem Gathers.parse_eq (h : Gathers ds d) : d.parse = ofItems ds := by
  cases h with
  | list | tuple | record | dataList | dataTuple => rfl
  | dataRecord vs => exact ofValue_record vs

theorem ofItems_eq_ok :
    ofItems ds = .ok book ↔ List.Forall₂ (fun d r => d.item = .ok r) ds book.rules := by
  rw [ofItems, orInvalid, Checked.toExcept_eq_ok, Checked.map_eq_ok]
  simp only [Checked.under_eq_ok, Checked.each_eq_ok]
  constructor
  · rintro ⟨rs, hrs, rfl⟩
    exact hrs
  · exact fun h => ⟨book.rules, h, rfl⟩

theorem IsSingle.parse_eq_ok (h : d.IsSingle) :
    d.parse = .ok book ↔ ∃ r, d.item = .ok r ∧ book = ⟨[r]⟩ := by
  cases h with
  | rule r =>
    constructor
    · intro h
      exact ⟨r, rfl, (Except.ok.inj h).symm⟩
    · rintro ⟨_, ⟨⟩, rfl⟩
      rfl
  | @data es halone =>
    have hparse : (Document.data (.map es)).parse =
        (orInvalid (ruleSpec (.map es))).map fun r => ⟨[r]⟩ := by
      change ofValue (.map es) = _
      rw [ofValue, halone]
      rfl
    rw [hparse, map_eq_ok]
    simp only [orInvalid, Checked.toExcept_eq_ok]
    exact exists_congr fun r => and_congr_right fun _ => eq_comm

/-- Rules that stand alone are read one by one just if each is a document that can be read. -/
theorem forall₂_item_iff (h : ∀ d ∈ ds, d.IsSingle) {rs : List RuleSpec} :
    List.Forall₂ (fun d r => d.item = .ok r) ds rs ↔
      ∃ books, List.Forall₂ (fun d b => d.parse = .ok b) ds books ∧
        rs = books.flatMap RuleBook.rules := by
  induction ds generalizing rs with
  | nil => simp
  | cons d ds ih =>
    obtain ⟨hd, hds⟩ := List.forall_mem_cons.mp h
    simp only [List.forall₂_cons_left_iff, ih hds, hd.parse_eq_ok]
    constructor
    · rintro ⟨r, _, hr, ⟨books, hbooks, rfl⟩, rfl⟩
      exact ⟨⟨[r]⟩ :: books, ⟨_, _, ⟨r, hr, rfl⟩, hbooks, rfl⟩, rfl⟩
    · rintro ⟨_, ⟨_, books, ⟨r, hr, rfl⟩, hbooks, rfl⟩, rfl⟩
      exact ⟨r, _, hr, ⟨books, hbooks, rfl⟩, rfl⟩

/-- In whatever shape rules are gathered, the outcome is the same: they are read just if each of
them is a document that can be read, and give what these documents give, one after the other. -/
theorem parse_gathered (hds : ∀ d ∈ ds, d.IsSingle) (hd : Gathers ds d) :
    (∀ e, Gathers ds e → e.parse = d.parse) ∧
    ((∃ book, d.parse = .ok book) ↔ ∀ x ∈ ds, ∃ b, x.parse = .ok b) ∧
    ∀ book, d.parse = .ok book ↔ ∃ books, List.Forall₂ (fun x b => x.parse = .ok b) ds books ∧
      book.rules = books.flatMap RuleBook.rules := by
  have hread (book : RuleBook) : d.parse = .ok book ↔
      ∃ books, List.Forall₂ (fun x b => x.parse = .ok b) ds books ∧
        book.rules = books.flatMap RuleBook.rules := by
    rw [hd.parse_eq, ofItems_eq_ok, forall₂_item_iff hds]
  refine ⟨fun e he => he.parse_eq.trans hd.parse_eq.symm, ?_, hread⟩
  constructor
  · rintro ⟨book, hbook⟩ x hx
    obtain ⟨books, hbooks, -⟩ := (hread book).mp hbook
    obtain ⟨b, -, hb⟩ := exists_of_forall₂ hbooks hx
    exact ⟨b, hb⟩
  · intro h
    obtain ⟨books, hbooks⟩ := exists_forall₂ h
    exact ⟨⟨books.flatMap RuleBook.rules⟩, (hread _).mpr ⟨books, hbooks, rfl⟩⟩

def Sample.arrive : RuleSpec :=
  ⟨"arrive", [⟨some "guest", [], [], none⟩], [], 0, false, none, .none⟩

/-- A rule as plain data, with a number that is written as a text. -/
def Sample.leave : Value :=
  .map [(.text "name", .text "leave"), (.text "when", .list [.map [(.text "bind", .text "g")]]),
    (.text "salience", .text "5")]

def Sample.left : RuleSpec := ⟨"leave", [⟨none, [], [], some "g"⟩], [], 5, false, none, .none⟩

def Sample.mixed : List Document := [.rule Sample.arrive, .data Sample.leave]

/-- Rules of both sorts are read alike in a list, in a tuple and in a record. -/
theorem parse_gathered_mixed : (∀ d ∈ Sample.mixed, IsSingle d) ∧
    Gathers Sample.mixed (.list Sample.mixed) ∧
    (Document.data Sample.leave).parse = .ok ⟨[Sample.left]⟩ ∧
    (Document.list Sample.mixed).parse = .ok ⟨[Sample.arrive, Sample.left]⟩ ∧
    (Document.tuple Sample.mixed).parse = .ok ⟨[Sample.arrive, Sample.left]⟩ ∧
    (Document.record Sample.mixed).parse = .ok ⟨[Sample.arrive, Sample.left]⟩ := by
  have hsingle : ∀ d ∈ Sample.mixed, IsSingle d :=
    List.forall_mem_cons.mpr ⟨.rule _, List.forall_mem_singleton.mpr (.data rfl)⟩
  have hleave : (Document.data Sample.leave).parse = .ok ⟨[Sample.left]⟩ := rfl
  obtain ⟨hsame, -, hgives⟩ := parse_gathered hsingle (.list _)
  have hlist := (hgives ⟨[Sample.arrive, Sample.left]⟩).mpr
    ⟨[⟨[Sample.arrive]⟩, ⟨[Sample.left]⟩], .cons rfl (.cons hleave .nil), rfl⟩
  exact ⟨hsingle, .list _, hleave, hlist, (hsame _ (.tuple _)).trans hlist,
    (hsame _ (.record _)).trans hlist⟩

end Document

end RuleEngine
