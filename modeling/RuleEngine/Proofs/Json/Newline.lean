import RuleEngine.Proofs.Json.Soundness
import RuleEngine.Text.Line

/-!
# The ends of lines do not matter

A carriage return is white space in JSON, and no string or number has one in it. So a text that is
read from a file with line feeds for its carriage returns is read like the text itself.

* `read_universalNewlines`: reading a text and reading it with line feeds alone answers the same.
-/

namespace RuleEngine.Json

open Text (universalNewlines)

variable {a b t t' ws : List Char} {c : Char} {v : Value} {p : Part} {k depth : Nat}
  {goal place : Place} {e : ReadError}

/-! ## Texts with the same lines -/

/-- The texts are the same up to how their lines end. -/
def SameLines (t t' : List Char) : Prop := universalNewlines t = universalNewlines t'

def IsLine (t : List Char) : Prop := ∀ c ∈ t, c ≠ '\r' ∧ c ≠ '\n'

theorem universalNewlines_cons (hc : c ≠ '\r') (t : List Char) :
    universalNewlines (c :: t) = c :: universalNewlines t := by
  rw [universalNewlines]
  · rintro _ rfl
    exact absurd rfl hc
  · exact hc

theorem universalNewlines_return (h : t.head? ≠ some '\n') :
    universalNewlines ('\r' :: t) = '\n' :: universalNewlines t := by
  rw [universalNewlines]
  rintro t rfl
  exact h rfl

/-- Texts are changed each for itself, unless the end of one line falls between them. -/
theorem universalNewlines_append (h : a.getLast? ≠ some '\r' ∨ b.head? ≠ some '\n') :
    universalNewlines (a ++ b) = universalNewlines a ++ universalNewlines b := by
  have hrest {c : Char} {t : List Char}
      (h : (c :: t).getLast? ≠ some '\r' ∨ b.head? ≠ some '\n') :
      t.getLast? ≠ some '\r' ∨ b.head? ≠ some '\n' := by
    refine h.imp_left fun hlast => ?_
    cases t with
    | nil => simp
    | cons => simpa using hlast
  fun_induction universalNewlines a with
  | case1 => rfl
  | case2 t ih =>
    rw [List.cons_append, List.cons_append, universalNewlines, ih (hrest (hrest h)),
      List.cons_append]
  | case3 t ht ih =>
    have hhead : (t ++ b).head? ≠ some '\n' := by
      cases t with
      | nil => exact h.resolve_left (by simp)
      | cons d t =>
        rintro ⟨⟩
        exact ht t rfl
    rw [List.cons_append, universalNewlines_return hhead, ih (hrest h), List.cons_append]
  | case4 c t _ hc ih =>
    rw [List.cons_append, universalNewlines_cons hc, ih (hrest h), List.cons_append]

theorem exists_of_universalNewlines_eq (h : universalNewlines t = a ++ b) :
    ∃ a' b', t = a' ++ b' ∧ universalNewlines a' = a ∧ universalNewlines b' = b := by
  fun_induction universalNewlines t generalizing a with
  | case1 =>
    obtain ⟨rfl, rfl⟩ := List.nil_eq_append_iff.mp h
    exact ⟨[], [], rfl, rfl, rfl⟩
  | case2 t ih =>
    cases a with
    | nil => exact ⟨[], _, rfl, rfl, h⟩
    | cons d a =>
      obtain ⟨rfl, hrest⟩ := List.cons.inj h
      obtain ⟨a', b', rfl, rfl, rfl⟩ := ih hrest
      exact ⟨'\r' :: '\n' :: a', b', rfl, rfl, rfl⟩
  | case3 t ht ih =>
    have hhead {s : List Char} (hs : s <+: t) : s.head? ≠ some '\n' := by
      rintro hnewline
      obtain ⟨u, rfl⟩ := List.head?_eq_some_iff.mp hnewline
      obtain ⟨w, rfl⟩ := hs
      exact ht _ rfl
    cases a with
    | nil =>
      exact ⟨[], _, rfl, rfl, (universalNewlines_return (hhead (List.prefix_refl t))).trans h⟩
    | cons d a =>
      obtain ⟨rfl, hrest⟩ := List.cons.inj h
      obtain ⟨a', b', rfl, rfl, rfl⟩ := ih hrest
      exact ⟨'\r' :: a', b', rfl, universalNewlines_return (hhead (List.prefix_append a' b')), rfl⟩
  | case4 c t _ hc ih =>
    cases a with
    | nil => exact ⟨[], _, rfl, rfl, (universalNewlines_cons hc t).trans h⟩
    | cons d a =>
      obtain ⟨rfl, hrest⟩ := List.cons.inj h
      obtain ⟨a', b', rfl, rfl, rfl⟩ := ih hrest
      exact ⟨c :: a', b', rfl, universalNewlines_cons hc a', rfl⟩

/-- What is the same as two texts consists of two texts that are the same as these. -/
theorem SameLines.append_inv (h : SameLines t (a ++ b))
    (hab : a.getLast? ≠ some '\r' ∨ b.head? ≠ some '\n') :
    ∃ a' b', t = a' ++ b' ∧ SameLines a' a ∧ SameLines b' b := by
  rw [SameLines, universalNewlines_append hab] at h
  exact exists_of_universalNewlines_eq h

theorem universalNewlines_eq_self (h : '\r' ∉ t) : universalNewlines t = t := by
  induction t with
  | nil => rfl
  | cons c t ih =>
    obtain ⟨hc, ht⟩ := not_or.mp (mt List.mem_cons.mpr h)
    rw [universalNewlines_cons (Ne.symm hc), ih ht]

theorem sameLines_universalNewlines (t : List Char) : SameLines (universalNewlines t) t := by
  refine universalNewlines_eq_self ?_
  fun_induction universalNewlines t with
  | case1 => exact List.not_mem_nil
  | case2 t ih => simpa using ih
  | case3 t ht ih => simpa using ih
  | case4 c t _ hc ih => simpa [ih] using Ne.symm hc

theorem IsLine.eq_of_sameLines (h : IsLine a) (ht : SameLines t a) : t = a := by
  rw [SameLines, universalNewlines_eq_self fun hmem => (h _ hmem).1 rfl] at ht
  have hnewline : '\n' ∉ universalNewlines t := by
    rw [ht]
    exact fun hmem => (h _ hmem).2 rfl
  rw [← ht]
  clear ht
  fun_induction universalNewlines t with
  | case1 => rfl
  | case2 | case3 => simp at hnewline
  | case4 c t _ hc ih => rw [← ih (List.not_mem_of_not_mem_cons hnewline)]

theorem IsLine.getLast (h : IsLine t) : t.getLast? ≠ some '\r' :=
  fun hlast => (h _ (List.mem_of_getLast? hlast)).1 rfl

/-- A text without an end of a line stands for itself in front of another. -/
theorem IsLine.append_inv (ha : IsLine a) (h : SameLines t (a ++ b)) :
    ∃ b', t = a ++ b' ∧ SameLines b' b := by
  obtain ⟨a', b', rfl, ha', hb⟩ := h.append_inv (.inl ha.getLast)
  obtain rfl := ha.eq_of_sameLines ha'
  exact ⟨b', rfl, hb⟩

theorem SameLines.cons_inv (h : SameLines t (c :: b)) (hr : c ≠ '\r') (hn : c ≠ '\n') :
    ∃ b', t = c :: b' ∧ SameLines b' b :=
  IsLine.append_inv (a := [c]) (List.forall_mem_singleton.mpr ⟨hr, hn⟩) h

theorem isSpace_universalNewlines : IsSpace (universalNewlines ws) ↔ IsSpace ws := by
  have hreturn : isSpace '\r' = true := by decide
  have hfeed : isSpace '\n' = true := by decide
  unfold IsSpace
  fun_induction universalNewlines ws with
  | case1 => exact Iff.rfl
  | case2 t ih => simp only [List.forall_mem_cons, hreturn, hfeed, true_and, ih]
  | case3 t ht ih => simp only [List.forall_mem_cons, hreturn, hfeed, true_and, ih]
  | case4 c t _ hc ih => simp only [List.forall_mem_cons, ih]

theorem SameLines.isSpace (h : SameLines t ws) (hws : IsSpace ws) : IsSpace t := by
  rw [← isSpace_universalNewlines, h]
  exact isSpace_universalNewlines.mpr hws

/-! ## Tokens -/

theorem isLine_of_digits (h : ∀ c ∈ t, c.isDigit = true) : IsLine t := by
  intro c hc
  constructor
  · rintro rfl
    exact absurd (h _ hc) (by decide)
  · rintro rfl
    exact absurd (h _ hc) (by decide)

theorem IsCode.isLine (h : IsCode t k) : IsLine t := by
  intro c hc
  obtain ⟨n, hn⟩ := hexValue_of_mem h.2 c hc
  constructor
  · rintro rfl
    cases hn
  · rintro rfl
    cases hn

theorem isLine_cons : IsLine (c :: t) ↔ (c ≠ '\r' ∧ c ≠ '\n') ∧ IsLine t :=
  List.forall_mem_cons

theorem isLine_append : IsLine (a ++ b) ↔ IsLine a ∧ IsLine b := List.forall_mem_append

theorem Spells.isLine {s : List Char} (h : Spells t s) : IsLine t := by
  induction h with
  | nil => exact List.forall_mem_nil _
  | @plain c _ _ _ _ hc _ ih =>
    refine isLine_cons.mpr ⟨⟨?_, ?_⟩, ih⟩
    · rintro rfl
      exact absurd hc (by decide)
    · rintro rfl
      exact absurd hc (by decide)
  | short he _ ih =>
    refine isLine_cons.mpr ⟨by decide, isLine_cons.mpr ⟨⟨?_, ?_⟩, ih⟩⟩
    · rintro rfl
      cases he
    · rintro rfl
      cases he
  | single hn _ _ ih =>
    refine isLine_cons.mpr ⟨by decide, isLine_cons.mpr ⟨by decide, ?_⟩⟩
    exact isLine_append.mpr ⟨hn.isLine, ih⟩
  | pair hhigh hlow _ _ ih =>
    simp only [isLine_cons, isLine_append]
    exact ⟨by decide, by decide, hhigh.isLine, by decide, by decide, hlow.isLine, ih⟩

theorem IsExponent.isLine {x : Option Int} (h : IsExponent t x) : IsLine t := by
  cases h with
  | none => exact List.forall_mem_nil _
  | some he hs hd =>
    have hsign : ∀ sign ∈ exponentSigns, IsLine sign.1 := by
      simp only [exponentSigns, List.forall_mem_cons]
      exact ⟨List.forall_mem_nil _, by simp [IsLine], by simp [IsLine], List.forall_mem_nil _⟩
    refine isLine_cons.mpr ⟨?_, isLine_append.mpr ⟨hsign _ hs, isLine_of_digits hd.2⟩⟩
    obtain rfl | rfl := he <;> decide

theorem isLine_signOf (negative : Bool) : IsLine (signOf negative) := by
  cases negative <;> simp [signOf, IsLine]

theorem IsNumber.isLine {negative : Bool} (h : IsNumber negative t v) : IsLine t := by
  cases h with
  | whole hw _ => exact isLine_of_digits hw.isDigits.2
  | @float ds xs places _ hw hp hx _ =>
    have hpointed : IsLine (pointed places) := by
      cases places with
      | none => exact List.forall_mem_nil _
      | some ps => exact isLine_cons.mpr ⟨by decide, isLine_of_digits (hp ps rfl).2⟩
    simp only [isLine_append]
    exact ⟨isLine_of_digits hw.isDigits.2, hpointed, hx.isLine⟩

theorem IsToken.isLine (h : IsToken t v) : IsLine t := by
  cases h with
  | word h =>
    have hall : ∀ w ∈ words, IsLine w.1.toList := by
      simp only [words, List.forall_mem_cons]
      simp [IsLine]
    exact hall _ h
  | number h => exact isLine_append.mpr ⟨isLine_signOf _, h.isLine⟩
  | string h =>
    simp only [isLine_cons, isLine_append]
    exact ⟨by decide, h.isLine, by decide, List.forall_mem_nil _⟩

/-! ## Parts -/

theorem Begins.head (h : Begins t) : t.head? ≠ some '\n' := by
  obtain ⟨c, cs, rfl, hc, -⟩ := h
  rintro ⟨⟩
  cases hc

theorem Writes.getLast (h : Writes t (.value v)) : t.getLast? ≠ some '\r' := by
  cases h with
  | token h => exact h.isLine.getLast
  | _ => simp [List.getLast?_cons, List.getLast?_append]

theorem IsComma.of_sameLines (h : IsComma t) (ht : SameLines t' t) : IsComma t' := by
  obtain ⟨ws, ws', hws, hws', rfl⟩ := h
  obtain ⟨a, r, rfl, ha, hr⟩ := ht.append_inv (.inr (by simp))
  obtain ⟨b, rfl, hb⟩ := hr.cons_inv (by decide) (by decide)
  exact ⟨a, b, ha.isSpace hws, hb.isSpace hws', rfl⟩

theorem IsKey.of_sameLines {key : String} (h : IsKey t key) (ht : SameLines t' t) :
    IsKey t' key := by
  obtain ⟨k, s, ws, ws', hk, rfl, hws, hws', rfl⟩ := h
  obtain ⟨r₁, rfl, h₁⟩ := ht.cons_inv (by decide) (by decide)
  obtain ⟨r₂, rfl, h₂⟩ := hk.isLine.append_inv h₁
  obtain ⟨r₃, rfl, h₃⟩ := h₂.cons_inv (by decide) (by decide)
  obtain ⟨a, r₄, rfl, ha, h₄⟩ := h₃.append_inv (.inr (by simp))
  obtain ⟨b, rfl, hb⟩ := h₄.cons_inv (by decide) (by decide)
  exact ⟨k, s, a, b, hk, rfl, ha.isSpace hws, hb.isSpace hws', rfl⟩

/-- What stands between two brackets has the same lines as what stands there in the other text. -/
theorem SameLines.bracket_inv {d : Char} (h : SameLines t (c :: (a ++ [d])))
    (hc : c ≠ '\r' ∧ c ≠ '\n') (hd : d ≠ '\r' ∧ d ≠ '\n') :
    ∃ a', t = c :: (a' ++ [d]) ∧ SameLines a' a := by
  obtain ⟨s, rfl, hs⟩ := h.cons_inv hc.1 hc.2
  obtain ⟨a', r, rfl, ha, hr⟩ := hs.append_inv (.inr (by simpa using hd.2))
  obtain rfl := IsLine.eq_of_sameLines (List.forall_mem_singleton.mpr hd) hr
  exact ⟨a', rfl, ha⟩

theorem Writes.of_sameLines (h : Writes t p) (ht : SameLines t' t) : Writes t' p := by
  induction h generalizing t' with
  | token h =>
    obtain rfl := h.isLine.eq_of_sameLines ht
    exact .token h
  | emptyArray hws =>
    obtain ⟨ws, rfl, hws'⟩ := ht.bracket_inv (by decide) (by decide)
    exact .emptyArray (hws'.isSpace hws)
  | array hws h ih =>
    rw [← List.append_assoc] at ht
    obtain ⟨r, rfl, hr⟩ := ht.bracket_inv (by decide) (by decide)
    obtain ⟨ws, u, rfl, hws', hu⟩ := hr.append_inv (.inr h.begins.head)
    rw [List.append_assoc]
    exact .array (hws'.isSpace hws) (ih hu)
  | emptyObject hws =>
    obtain ⟨ws, rfl, hws'⟩ := ht.bracket_inv (by decide) (by decide)
    exact .emptyObject (hws'.isSpace hws)
  | object hws h ih =>
    rw [← List.append_assoc] at ht
    obtain ⟨r, rfl, hr⟩ := ht.bracket_inv (by decide) (by decide)
    obtain ⟨ws, u, rfl, hws', hu⟩ := hr.append_inv (.inr h.begins.head)
    rw [List.append_assoc]
    exact .object (hws'.isSpace hws) (ih hu)
  | lastItem h hws ih =>
    obtain ⟨u, ws, rfl, hu, hws'⟩ := ht.append_inv (.inl h.getLast)
    exact .lastItem (ih hu) (hws'.isSpace hws)
  | item h hct hrest ih ihrest =>
    obtain ⟨u, r, rfl, hu, hr⟩ := ht.append_inv (.inl h.getLast)
    obtain ⟨ct, w, rfl, hct', hw⟩ := hr.append_inv (.inr hrest.begins.head)
    exact .item (ih hu) (hct.of_sameLines hct') (ihrest hw)
  | lastEntry hk h hws ih =>
    obtain ⟨kt, r, rfl, hk', hr⟩ := ht.append_inv (.inr (h.begins.append _).head)
    obtain ⟨u, ws, rfl, hu, hws'⟩ := hr.append_inv (.inl h.getLast)
    exact .lastEntry (hk.of_sameLines hk') (ih hu) (hws'.isSpace hws)
  | entry hk h hct hrest ih ihrest =>
    obtain ⟨kt, r, rfl, hk', hr⟩ := ht.append_inv (.inr (h.begins.append _).head)
    obtain ⟨u, r, rfl, hu, hr⟩ := hr.append_inv (.inl h.getLast)
    obtain ⟨ct, w, rfl, hct', hw⟩ := hr.append_inv (.inr hrest.begins.head)
    exact .entry (hk.of_sameLines hk') (ih hu) (hct.of_sameLines hct') (ihrest hw)

/-! ## Whole texts -/

theorem Denotes.of_sameLines (h : Denotes t v) (ht : SameLines t' t) : Denotes t' v := by
  obtain ⟨ws, u, ws', hws, hu, hws', rfl⟩ := h
  obtain ⟨a, r, rfl, ha, hr⟩ := ht.append_inv (.inr (hu.begins.append _).head)
  obtain ⟨w, b, rfl, hw, hb⟩ := hr.append_inv (.inl hu.getLast)
  exact ⟨a, w, b, ha.isSpace hws, hu.of_sameLines hw, hb.isSpace hws', rfl⟩

theorem GoesOn.of_sameLines (h : GoesOn t) (ht : SameLines t' t) : GoesOn t' := by
  cases h with
  | digit hc =>
    have hline := isLine_of_digits (isDigits_singleton hc).2
    obtain ⟨r, rfl, -⟩ := hline.append_inv ht
    exact .digit hc
  | places hc =>
    have hline := isLine_of_digits (isDigits_singleton hc).2
    obtain ⟨r, rfl, hr⟩ := ht.cons_inv (by decide) (by decide)
    obtain ⟨r, rfl, -⟩ := hline.append_inv hr
    exact .places hc
  | @exponent e c sign s _ he hs hc =>
    have hline := (IsExponent.some he hs (isDigits_singleton hc)).isLine
    have hsplit : e :: (sign ++ c :: s) = (e :: (sign ++ [c])) ++ s := by simp
    rw [hsplit] at ht
    obtain ⟨r, rfl, -⟩ := hline.append_inv ht
    rw [List.cons_append, List.append_assoc]
    exact .exponent he hs hc

theorem IsOverlong.of_sameLines (h : IsOverlong t k) (ht : SameLines t' t) : IsOverlong t' k := by
  obtain ⟨negative, ds, r, rfl, hw, hlen, rfl, hr⟩ := h
  obtain ⟨s, rfl, hs⟩ := (isLine_signOf negative).append_inv ht
  obtain ⟨r', rfl, hr'⟩ := (isLine_of_digits hw.isDigits.2).append_inv hs
  exact ⟨negative, ds, r', rfl, hw, hlen, rfl, fun h => hr (h.of_sameLines hr'.symm)⟩

theorem Leads.head (h : Leads goal depth place t) : t.head? ≠ some '\n' := by
  have hbegins : Begins (t ++ ['0']) := h.begins ⟨'0', [], rfl, by decide⟩
  cases t with
  | nil => simp
  | cons c t => exact hbegins.head

theorem Leads.of_sameLines (h : Leads goal depth place t) (ht : SameLines t' t) :
    Leads goal depth place t' := by
  induction h generalizing t' with
  | here =>
    obtain rfl := IsLine.eq_of_sameLines (List.forall_mem_nil _) ht
    exact .here
  | array hws h ih =>
    obtain ⟨r, rfl, hr⟩ := ht.cons_inv (by decide) (by decide)
    obtain ⟨ws, u, rfl, hws', hu⟩ := hr.append_inv (.inr h.head)
    exact .array (hws'.isSpace hws) (ih hu)
  | object hws h ih =>
    obtain ⟨r, rfl, hr⟩ := ht.cons_inv (by decide) (by decide)
    obtain ⟨ws, u, rfl, hws', hu⟩ := hr.append_inv (.inr h.head)
    exact .object (hws'.isSpace hws) (ih hu)
  | item h ih => exact .item (ih ht)
  | nextItem h hct hlead ih =>
    obtain ⟨u, r, rfl, hu, hr⟩ := ht.append_inv (.inl h.getLast)
    obtain ⟨ct, w, rfl, hct', hw⟩ := hr.append_inv (.inr hlead.head)
    exact .nextItem (h.of_sameLines hu) (hct.of_sameLines hct') (ih hw)
  | entry hk h ih =>
    obtain ⟨kt, u, rfl, hk', hu⟩ := ht.append_inv (.inr h.head)
    exact .entry (hk.of_sameLines hk') (ih hu)
  | nextEntry hk h hct hlead ih =>
    obtain ⟨kt, r, rfl, hk', hr⟩ := ht.append_inv (.inr (h.begins.append _).head)
    obtain ⟨u, r, rfl, hu, hr⟩ := hr.append_inv (.inl h.getLast)
    obtain ⟨ct, w, rfl, hct', hw⟩ := hr.append_inv (.inr hlead.head)
    exact .nextEntry (hk.of_sameLines hk') (h.of_sameLines hu) (hct.of_sameLines hct') (ih hw)

theorem GoesOnPaired.of_sameLines (h : GoesOnPaired k t) (ht : SameLines t' t) :
    GoesOnPaired k t' := by
  obtain ⟨ls, low, c, u, hls, hc, rfl⟩ := h
  obtain ⟨r₁, rfl, h₁⟩ := ht.cons_inv (by decide) (by decide)
  obtain ⟨r₂, rfl, h₂⟩ := h₁.cons_inv (by decide) (by decide)
  obtain ⟨u', rfl, -⟩ := hls.isLine.append_inv h₂
  exact ⟨ls, low, c, u', hls, hc, rfl⟩

theorem Strays.of_sameLines (h : Strays t) (ht : SameLines t' t) : Strays t' := by
  obtain ⟨a, s, _, hspells, ⟨hs, n, r, hn, hscalar, halone, rfl⟩, rfl⟩ := h
  obtain ⟨r₁, rfl, h₁⟩ := hspells.isLine.append_inv ht
  obtain ⟨r₂, rfl, h₂⟩ := h₁.cons_inv (by decide) (by decide)
  obtain ⟨r₃, rfl, h₃⟩ := h₂.cons_inv (by decide) (by decide)
  obtain ⟨r', rfl, hr⟩ := hn.isLine.append_inv h₃
  have hlone : IsLone (hs ++ r') :=
    ⟨hs, n, r', hn, hscalar, fun h => halone (h.of_sameLines hr.symm), rfl⟩
  exact ⟨a, s, _, hspells, hlone, rfl⟩

theorem IsSnag.of_sameLines (h : IsSnag place t e) (ht : SameLines t' t) : IsSnag place t' e := by
  cases h with
  | number h => exact .number (h.of_sameLines ht)
  | string h =>
    obtain ⟨r, rfl, hr⟩ := ht.cons_inv (by decide) (by decide)
    exact .string (h.of_sameLines hr)
  | key h =>
    obtain ⟨r, rfl, hr⟩ := ht.cons_inv (by decide) (by decide)
    exact .key (h.of_sameLines hr)

theorem Stops.of_sameLines (h : Stops t e) (ht : SameLines t' t) : Stops t' e := by
  obtain ⟨ws, _, hws, ⟨goal, depth, lead, u, hlead, hu, rfl⟩, rfl⟩ := h
  obtain ⟨ws', r, rfl, hws', hr⟩ := ht.append_inv (.inr (hlead.begins hu.begins).head)
  obtain ⟨lead', u', rfl, hlead', hu'⟩ := hr.append_inv (.inr hu.begins.head)
  have hreaches : Reaches .value (lead' ++ u') e :=
    ⟨goal, depth, lead', u', hlead.of_sameLines hlead', hu.of_sameLines hu', rfl⟩
  exact ⟨ws', _, hws'.isSpace hws, hreaches, rfl⟩

/-- A text is read like the text with line feeds alone at the ends of its lines. -/
theorem read_universalNewlines (s : String) :
    read (String.ofList (universalNewlines s.toList)) = read s := by
  have hlines : SameLines (String.ofList (universalNewlines s.toList)).toList s.toList := by
    rw [String.toList_ofList]
    exact sameLines_universalNewlines _
  cases h : read s with
  | ok v => exact read_eq_ok.mpr ((read_eq_ok.mp h).of_sameLines hlines)
  | error e =>
    by_cases he : e = .malformed
    · rw [he] at h ⊢
      obtain ⟨hdenotes, hstops⟩ := read_eq_malformed.mp h
      refine read_eq_malformed.mpr ⟨?_, ?_⟩
      · rintro ⟨v, hv⟩
        exact hdenotes ⟨v, hv.of_sameLines hlines.symm⟩
      · rintro ⟨f, hf⟩
        exact hstops ⟨f, hf.of_sameLines hlines.symm⟩
    · exact (read_eq_stopped he).mpr (((read_eq_stopped he).mp h).of_sameLines hlines)

end RuleEngine.Json
