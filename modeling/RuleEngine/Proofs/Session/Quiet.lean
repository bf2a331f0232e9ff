import RuleEngine.Proofs.Session.Termination

/-!
# Runs that leave the facts alone

In pure mode, or where no effect asks for a change of the facts, a step changes nothing but the
tokens. Every step throws the agenda away and builds it anew, but what comes of it is the old agenda
less what the token of the firing has spent (`step_pending`): the rest is found again in the same
order, because sorting does not care whether something is left out before or after it.

So such a run is a single pass over the agenda it starts from (`Agenda.firsts`), which skips what
has the token of something that it has taken before, and what belongs to a `once` rule of which it
has taken something.

* `Fires.firsts`: what has fired and what the pass has still to take make up the pass over the first
  agenda.
* `run_quiet`: such a run ends, leaves the facts as they are, and fires what the pass takes.
-/

namespace RuleEngine

namespace Agenda

/-- Whether one activation that fires rules out another one: they have equal tokens, or they belong
to the same rule and it fires once. -/
def excludes (a b : Activation) : Bool :=
  a.token == b.token || (b.once && a.rule.text == b.rule.text)

/-- What a pass over a list takes, in order, after it has taken some activations: each one that none
of those taken before rules out. -/
def firstsAfter (taken : List Activation) : List Activation → List Activation
  | [] => []
  | b :: bs =>
    if taken.any fun a => excludes a b then firstsAfter taken bs
    else b :: firstsAfter (taken ++ [b]) bs

/-- What a pass over a list takes: each activation that no earlier one among those taken rules
out. -/
def firsts (as : List Activation) : List Activation := firstsAfter [] as

/-- What has been taken first may as well have its victims removed from the list beforehand. -/
theorem firstsAfter_cons (a : Activation) (taken bs : List Activation) :
    firstsAfter (a :: taken) bs = firstsAfter taken (bs.filter fun b => !excludes a b) := by
  induction bs generalizing taken with
  | nil => rfl
  | cons b bs ih =>
    rw [firstsAfter, List.any_cons]
    cases hb : excludes a b with
    | true => simp [hb, ih]
    | false =>
      rw [List.filter_cons_of_pos (by simp [hb]), firstsAfter, Bool.false_or, ih]
      exact if_congr Iff.rfl rfl (congrArg (b :: ·) (ih (taken ++ [b])))

theorem firsts_cons (a : Activation) (as : List Activation) :
    firsts (a :: as) = a :: firsts (as.filter fun b => !excludes a b) :=
  congrArg (a :: ·) (firstsAfter_cons a [] as)

/-- After one more firing an activation is open if it was so before and the firing does not spend
it. -/
theorem isOpen_append (ts os : List Token) (t : Token) (once : Bool) (b : Activation) :
    isOpen (ts ++ [t]) (os ++ if once then [t] else []) b =
      (isOpen ts os b && (!(t == b.token) && !(b.once && once && t.rule.text == b.rule.text))) := by
  have hos : (os ++ if once then [t] else []).any (fun x => x.rule.text == b.rule.text) =
      (os.any (fun x => x.rule.text == b.rule.text) || (once && t.rule.text == b.rule.text)) := by
    cases once <;> simp
  rw [isOpen, isOpen, hos, List.any_append, List.any_cons, List.any_nil, Bool.or_false]
  generalize ts.any _ = fired
  generalize os.any _ = spent
  generalize (t == b.token) = equal
  generalize (t.rule.text == b.rule.text) = named
  generalize b.once = single
  clear hos
  decide +revert

end Agenda

namespace Session

variable {s t : Session} {as : List Activation}

/-- No effect of the session on its way asks for a change of the facts. -/
def AsksNoChange (s : Session) : Prop :=
  ∀ as t a r c items e, Fires step s as t → t.Calls a r c → r.run c = .ok items →
    .effect e ∈ items → Change.ofEffect? e = none

/-! ## One step -/

/-- Pending activations of one rule agree on whether they fire once. -/
theorem Reachable.once_eq (hs : s.Reachable) {a b : Activation} (ha : a ∈ s.pending)
    (hb : b ∈ s.pending) (h : a.rule.text = b.rule.text) : a.once = b.once := by
  obtain ⟨s₀, as, h₀, hist⟩ := hs
  have hrec := hist.recorded h₀
  rw [hrec.upToDate.2] at ha hb
  obtain ⟨⟨r, hr, hact⟩, -⟩ := Agenda.mem_build.mp ha
  obtain ⟨⟨r', hr', hact'⟩, -⟩ := Agenda.mem_build.mp hb
  obtain ⟨c, -, rfl⟩ := Rule.mem_activations.mp hact
  obtain ⟨c', -, rfl⟩ := Rule.mem_activations.mp hact'
  rw [rule_eq hrec.names hr hr' h]
  rfl

/-- A step that leaves the facts alone leaves the agenda less what its firing rules out. -/
theorem step_pending (hs : s.Reachable)
    (hwell : ∀ r ∈ s.rules, Pattern.BindsWell r.patterns s.facts) {a : Activation}
    (h : s.step.value = .ok (t, some a)) (hfacts : t.facts = s.facts) :
    ∃ rest, s.pending = a :: rest ∧ t.pending = rest.filter fun b => !Agenda.excludes a b := by
  obtain ⟨-, -, ⟨⟩⟩ | ⟨_, rest, u, es, hp, ⟨⟩, -⟩ := step_eq_ok.mp h
  refine ⟨rest, hp, ?_⟩
  have hup := hs.isUpToDate.2
  have hrec : ∃ as, Recorded as s := by
    obtain ⟨s₀, as, h₀, hist⟩ := id hs
    exact ⟨as, hist.recorded h₀⟩
  obtain ⟨_, hrec⟩ := hrec
  obtain ⟨hsup, -, htokens, honce⟩ := step_appends hrec.names hrec.upToDate h
  -- the firing spends itself, and of the others what it rules out
  have hself : (a.token == a.token) = true := by
    have ha : a ∈ s.freshAgenda := by rw [← hup, hp]; exact List.mem_cons_self
    obtain ⟨⟨r, hr, hact⟩, -⟩ := Agenda.mem_build.mp ha
    exact r.token_refl (hwell r hr) hact
  have hspends : ∀ b ∈ s.pending,
      (!(a.token == b.token) && !(b.once && a.once && a.token.rule.text == b.rule.text)) =
        !Agenda.excludes a b := by
    intro b hb
    rw [hsup.token_rule, Agenda.excludes, Bool.not_or]
    cases hname : a.rule.text == b.rule.text with
    | false => simp
    | true =>
      have ha : a ∈ s.pending := by rw [hp]; exact List.mem_cons_self
      rw [hs.once_eq ha hb (beq_iff_eq.mp hname)]
      simp
  have hagenda : t.pending = s.pending.filter fun b => !Agenda.excludes a b := by
    rw [← List.filter_congr hspends, (step_isUpToDate h).2, hup]
    unfold freshAgenda Agenda.build Agenda.choose Agenda.order
    rw [show t.memory.facts = s.memory.facts from hfacts, (step_keeps h).1, htokens, honce,
      ← StableSort.sort_filter Activation.notAfter_trans Activation.notAfter_total]
    refine congrArg _ ?_
    rw [Agenda.filterFired, Agenda.filterFired, List.filter_filter]
    refine List.filter_congr fun b _ => ?_
    rw [Agenda.isOpen_append, Bool.and_comm]
  rw [hagenda, hp, List.filter_cons_of_neg]
  simp [Agenda.excludes, hself]

theorem changeAll_of_none {es : List Effect} (h : ∀ e ∈ es, Change.ofEffect? e = none) :
    s.changeAll es = pure s := by
  induction es with
  | nil => rfl
  | cons e es ih =>
    obtain ⟨he, hes⟩ := List.forall_mem_cons.mp h
    rw [changeAll, he]
    exact (pure_bind _ _).trans (ih hes)

/-- In pure mode, or if no effect asks for a change, a step leaves the memory alone. -/
theorem step_memory {a : Activation} (h : s.step.value = .ok (t, some a))
    (hquiet : s.options.pure = true ∨ s.AsksNoChange) : t.memory = s.memory := by
  obtain ⟨r, c, items, hc, hrun, u, hmemory, hu⟩ := step_calls h
  rw [hmemory]
  rcases hu with ⟨-, rfl⟩ | ⟨hpure, hu⟩
  · rfl
  · have hno : s.AsksNoChange := hquiet.resolve_left (by simp [hpure])
    rw [changeAll_of_none] at hu
    · cases hu
      rfl
    · intro e he
      exact hno _ _ _ _ _ _ _ (.refl s) hc hrun (Item.mem_effects.mp he)

/-! ## Any number of steps -/

/-- What has fired and what a pass over the agenda has still to take make up the pass over the first
agenda. -/
theorem Fires.firsts (hs : s.Reachable)
    (hwell : ∀ r ∈ s.rules, Pattern.BindsWell r.patterns s.facts)
    (hquiet : s.options.pure = true ∨ s.AsksNoChange) (h : Fires step s as t) :
    t.facts = s.facts ∧ Agenda.firsts s.pending = as ++ Agenda.firsts t.pending := by
  induction h with
  | refl => exact ⟨rfl, rfl⟩
  | @next s u t a as hstep _ ih =>
    have hmemory := step_memory hstep hquiet
    have hfacts : u.facts = s.facts := congrArg Memory.facts hmemory
    obtain ⟨rest, hp, hpending⟩ := step_pending hs hwell hstep hfacts
    obtain ⟨hrules, hoptions⟩ := step_keeps hstep
    have hquiet' : u.options.pure = true ∨ u.AsksNoChange :=
      hquiet.imp (fun h => by rw [hoptions]; exact h)
        fun h _ _ _ _ _ _ _ k => h _ _ _ _ _ _ _ (.next hstep k)
    obtain ⟨hrest, hfirsts⟩ := ih ((Fires.singleton hstep).reachable hs)
      (by rw [hrules, hfacts]; exact hwell) hquiet'
    refine ⟨hrest.trans hfacts, ?_⟩
    rw [hp, Agenda.firsts_cons, ← hpending, hfirsts]
    rfl

/-- A run without a budget ends if it is in pure mode or no effect asks for a change, and no action
fails. It leaves the facts as they are, and it fires what a pass over the first agenda takes, as far
as it gets; in an idle session it has got to the end. What its matchers bind must be maps without
numbers that are not a number. -/
theorem run_quiet (hs : s.Reachable) (hbudget : s.options.maxSteps = none)
    (hwell : ∀ r ∈ s.rules, Pattern.BindsWell r.patterns s.facts) (hanswer : s.ActionsAnswer)
    (hquiet : s.options.pure = true ∨ s.AsksNoChange) :
    ∃ as t, Fires step s as t ∧ s.Ends as t ∧ t.facts = s.facts ∧
      as <+: Agenda.firsts s.pending ∧ (t.state = .idle → as = Agenda.firsts s.pending) := by
  have hbound : ∀ as t, Fires step s as t → as.length ≤ (Agenda.firsts s.pending).length := by
    intro as t h
    rw [(h.firsts hs hwell hquiet).2, List.length_append]
    exact Nat.le_add_right _ _
  obtain ⟨as, t, h, hends⟩ := exists_ends hs hbudget hanswer hbound
  obtain ⟨hfacts, hfirsts⟩ := h.firsts hs hwell hquiet
  refine ⟨as, t, h, hends, hfacts, ⟨_, hfirsts.symm⟩, fun hidle => ?_⟩
  rw [hfirsts, state_eq_idle.mp hidle]
  exact (List.append_nil as).symm

/-! ## Samples -/

def Sample.announce : Rule :=
  Sample.onGuest fun _ => .ok (.effects [.effect (.assert (Sample.fact "badge" (.int 1)))])

def Sample.announceOnce : Rule :=
  { Sample.announce with
    name := .ofText "announce"
    once := true
    mode := .once
    name_ne_empty := by decide
    once_eq := rfl }

def Sample.rehearsal : Session :=
  ⟨.initial { Options.default with pure := true }, [Sample.announce, Sample.announceOnce]⟩

theorem Sample.rehearsal_isNew : IsNew Sample.rehearsal :=
  ⟨fun _ => none, .list [.rule Sample.announce, .rule Sample.announceOnce],
    .value (.map [(.text "pure", .bool true)]), none, [], rfl⟩

/-- Of four pending activations for two guests, the second one of the rule that fires once is
skipped. The badge that was asked for has not been made. -/
theorem run_quiet_rehearsal : ∃ s : Session, s.Reachable ∧ s.options.pure = true ∧
    s.pending.length = 4 ∧
    ∃ as t, Fires step s as t ∧ t.facts = s.facts ∧ t.state = .idle ∧
      as = Agenda.firsts s.pending ∧ as.length = 3 := by
  have hd : ((Sample.rehearsal.assertFact (Sample.fact "guest" (.int 1))).value >>= fun u =>
      (u.assertFact (Sample.fact "guest" (.int 2))).value >>= fun s =>
      (s.run 9 .none).value >>= fun q =>
      pure (s.pending.length, (Agenda.firsts s.pending).length, q.1.state)).toOption =
        some (4, 3, .idle) := by
    decide +kernel
  simp only [toOption_eq_some, bind_eq_ok, pure, Except.pure, Except.ok.injEq, Prod.mk.injEq] at hd
  obtain ⟨u, hu, s, hs, q, hq, hpending, hfirsts, hstate⟩ := hd
  obtain ⟨⟨s₀, as₀, h₀, hist⟩, hrules, hoptions, hfacts⟩ := Sample.rehearsal_isNew.assertFact hu
  have hperform : (u.perform (.assertFact (Sample.fact "guest" (.int 2)))).value = .ok (s, []) :=
    Traced.bind_value_eq_ok.mpr ⟨s, hs, rfl⟩
  have hreach : s.Reachable := ⟨s₀, _, h₀, .next hist hperform⟩
  have hkeeps := change_keeps hs
  have hpure : s.options.pure = true := by rw [hkeeps.options, hoptions]; rfl
  have hbudget : s.options.maxSteps = none := by rw [hkeeps.options, hoptions]; rfl
  have hguests : ∀ v ∈ s.facts, ∃ k n, v = Sample.fact k (.int n) := by
    intro v hv
    rcases change_facts (e := .assert (Sample.fact "guest" (.int 2))) rfl hs v hv with
      hv | ⟨⟨⟩⟩ | ⟨⟨⟩⟩
    · rw [hfacts] at hv
      exact ⟨_, 1, List.mem_singleton.mp hv⟩
    · exact ⟨_, 2, rfl⟩
  have hwell : ∀ r ∈ s.rules, Pattern.BindsWell r.patterns s.facts := by
    rw [hkeeps.rules, hrules]
    intro r hr
    rcases List.mem_pair.mp hr with rfl | rfl <;> exact Sample.idOf_bindsWell "guest" "who" hguests
  have hanswer : s.ActionsAnswer := by
    refine .of_rules fun r hr c => ?_
    rw [hkeeps.rules, hrules] at hr
    rcases List.mem_pair.mp hr with rfl | rfl <;> exact ⟨_, rfl⟩
  obtain ⟨as, t, hfires, hends, hsame, hprefix, hall⟩ :=
    run_quiet hreach hbudget hwell hanswer (.inl hpure)
  have hlength : as.length ≤ 3 := hfirsts ▸ hprefix.length_le
  have hidle : t.state = .idle := by
    cases hends with
    | idle state => exact state
    | jams _ f run => cases hq.symm.trans (run 9 (by omega))
  refine ⟨s, hreach, hpure, hpending, as, t, hfires, hsame, hidle, hall hidle, ?_⟩
  rw [hall hidle, hfirsts]

/-- A rule whose action answers with a number of 4301 digits instead of an effect: no effect asks
for anything and no action fails, but the number cannot be dropped without showing it, and no run
comes to an end. -/
theorem run_quiet_overlong : ∃ (s : Session) (f : Fault), s.Reachable ∧
    s.options.maxSteps = none ∧ (∀ r ∈ s.rules, Pattern.BindsWell r.patterns s.facts) ∧
    s.ActionsAnswer ∧ s.AsksNoChange ∧ (Agenda.firsts s.pending).length = 1 ∧
    ∀ fuel, 0 < fuel → (s.run fuel .none).value = .error (.fault f) := by
  let action : Action := fun _ => .ok (.effects [.other (.int Value.writtenBound)])
  obtain ⟨s, a, c, harrival, hs, hrules, hoptions, hfacts, hc⟩ :=
    Sample.arrival_calls action (by decide +kernel)
  have hbudget : s.options.maxSteps = none := by rw [hoptions]; rfl
  have hlong : Value.isOverlong (.int Value.writtenBound) = true := by decide +kernel
  have hrun : (Sample.onGuest action).run c = .ok [.other (.int Value.writtenBound)] := rfl
  have hjams : s.Jams := .drops hc hrun List.mem_cons_self hlong
  obtain ⟨f, hf⟩ := step_of_jams hs.isUpToDate.1 hjams
  have hfirsts : ((Sample.arrival action).value.toOption.map
      fun s => (Agenda.firsts s.pending).length) = some 1 := by
    decide +kernel
  rw [harrival] at hfirsts
  refine ⟨s, f, hs, hbudget, ?_, .of_rules ?_, ?_, Option.some.inj hfirsts, fun fuel hfuel => ?_⟩
  · rw [hrules, hfacts, List.forall_mem_singleton]
    refine Sample.idOf_bindsWell "guest" "who" fun f hf => ?_
    exact ⟨_, _, List.mem_singleton.mp hf⟩
  · rw [hrules, List.forall_mem_singleton]
    exact fun c => ⟨_, rfl⟩
  · intro as t a r c items e h hc hrun he
    have hr := h.mem_rules hc
    rw [hrules] at hr
    obtain rfl := List.mem_singleton.mp hr
    cases hrun
    cases List.mem_singleton.mp he
  · rw [run_none hbudget]
    exact (Fires.refl s).runSteps_of_error hf hfuel

end Session

end RuleEngine
