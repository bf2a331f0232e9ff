import Mathlib.Data.List.DropRight
import RuleEngine.Recorder

/-!
# What a recorder keeps

A recorder gives away at most one event for each one it takes, and forgets all of them when it is
cleared. So what it holds is at any time a window on the events recorded since it was last cleared:
the newest of them, as many as its limit allows (`IsWindow`). Recording one more event moves the
window on (`IsWindow.record`), clearing starts another one, and neither changes the limit.

* `window_slides`: what is kept, selected and counted after any sequence of calls.
-/

namespace RuleEngine.Recorder

variable {r : Recorder} {limit : Option Nat} {es ws : List Event} {v : Value}

/-! ## Calls -/

/-- A call that changes what a recorder keeps. -/
inductive Call where
  | record (e : Event)
  | clear

namespace Call

def event? : Call → Option Event
  | record e => some e
  | clear => none

/-- The events recorded since the last call that cleared the recorder, oldest first. -/
def recent (cs : List Call) : List Event :=
  (cs.rtakeWhile fun c => c.event?.isSome).filterMap event?

theorem recent_record (cs : List Call) (e : Event) :
    recent (cs ++ [record e]) = recent cs ++ [e] := by
  rw [recent, List.rtakeWhile_concat_pos _ _ _ rfl, List.filterMap_append]
  rfl

theorem recent_clear (cs : List Call) : recent (cs ++ [clear]) = [] := by
  rw [recent, List.rtakeWhile_concat_neg _ _ _ (by simp [event?])]
  rfl

end Call

def perform (r : Recorder) : Call → Recorder
  | .record e => r.record e
  | .clear => r.clear

/-- The recorder after calls one after the other. -/
def performAll (r : Recorder) (cs : List Call) : Recorder := cs.foldl perform r

theorem performAll_concat (cs : List Call) (c : Call) :
    r.performAll (cs ++ [c]) = (r.performAll cs).perform c := by
  rw [performAll, List.foldl_append]
  rfl

/-! ## The window -/

/-- The last events of a list: all of them, or as many as the limit allows. -/
structure IsWindow (limit : Option Nat) (es ws : List Event) : Prop where
  last : ws <:+ es
  length : ws.length = limit.elim es.length (min · es.length)

theorem IsWindow.nil : IsWindow limit [] [] where
  last := List.nil_suffix
  length := by cases limit <;> simp

/-- With one more event the window moves on by one, or grows if there is room. -/
theorem IsWindow.record (h : IsWindow r.limit es r.events) (e : Event) :
    IsWindow r.limit (es ++ [e]) (r.record e).events := by
  obtain ⟨limit, ws⟩ := r
  obtain ⟨hlast, hlength⟩ := h
  have hnext : ws ++ [e] <:+ es ++ [e] := by
    obtain ⟨before, rfl⟩ := hlast
    exact ⟨before, by simp⟩
  cases limit with
  | none => exact ⟨hnext, by simpa [Recorder.record] using hlength⟩
  | some n =>
    simp only [Option.elim_some] at hlength
    simp only [Recorder.record, List.length_append, List.length_singleton]
    split
    · -- the window was full, so that its first event goes
      refine ⟨(List.drop_suffix 1 _).trans hnext, ?_⟩
      simp only [List.length_drop, List.length_append, List.length_singleton, Option.elim_some]
      omega
    · refine ⟨hnext, ?_⟩
      simp only [List.length_append, List.length_singleton, Option.elim_some]
      omega

theorem perform_limit (r : Recorder) (c : Call) : (r.perform c).limit = r.limit := by
  cases c with
  | clear => rfl
  | record e =>
    obtain ⟨limit, ws⟩ := r
    cases limit <;> rfl

theorem performAll_limit (cs : List Call) : (r.performAll cs).limit = r.limit := by
  induction cs using List.reverseRecOn with
  | nil => rfl
  | append_singleton cs c ih => rw [performAll_concat, perform_limit, ih]

/-- What a recorder holds after any calls is a window on what has been recorded since it was last
cleared. -/
theorem performAll_isWindow (h : r.events = []) (cs : List Call) :
    IsWindow r.limit (Call.recent cs) (r.performAll cs).events := by
  induction cs using List.reverseRecOn with
  | nil =>
    change IsWindow r.limit [] r.events
    rw [h]
    exact .nil
  | append_singleton cs c ih =>
    rw [performAll_concat]
    rw [← performAll_limit cs] at ih ⊢
    cases c with
    | record e =>
      rw [Call.recent_record]
      exact ih.record e
    | clear =>
      rw [Call.recent_clear]
      exact .nil

/-! ## Recorders that are made -/

/-- The value states the limit: none at all, or a whole number above zero. -/
inductive StatesLimit : Value → Option Nat → Prop where
  | unlimited : StatesLimit .none none
  | positive {v : Value} {n : Nat} (whole : v.integer? = some (n : Int)) (positive : 0 < n) :
      StatesLimit v (some n)

theorem make_of_statesLimit (h : StatesLimit v limit) : make v = .ok ⟨limit, []⟩ := by
  cases h with
  | unlimited => rfl
  | @positive _ n whole hpos =>
    have habove : (Number.whole n).le (.whole 0) = false := by
      simp [Number.le, Number.lt, Number.eqv]
      omega
    have hmake : make v = if (Number.whole n).le (.whole 0) then .error .nonPositiveLimit
        else .ok ⟨(Number.whole n).floor?.map Int.toNat, []⟩ := by
      unfold Value.integer? at whole
      split at whole
      · rw [← Option.some.inj whole]
        rfl
      · rw [← Option.some.inj whole]
        rfl
      · rw [← Option.some.inj whole]
        rfl
      · cases whole
    rw [hmake, habove]
    rfl

/-- A recorder made with a limit, or without one, holds after any calls the last of the events
recorded since it was last cleared, as many of them as the limit allows. Under a name it finds those
of them that have it, in the same order, and counts them. -/
theorem window_slides (h : StatesLimit v limit) : ∃ r, make v = .ok r ∧ ∀ cs : List Call,
    IsWindow limit (Call.recent cs) ((r.performAll cs).select none) ∧
    ∀ name, (r.performAll cs).select (some name) =
        ((r.performAll cs).select none).filter (fun e => e.name == name) ∧
      (r.performAll cs).count (some name) = ((r.performAll cs).select (some name)).length := by
  refine ⟨⟨limit, []⟩, make_of_statesLimit h, fun cs => ⟨?_, fun name => ⟨rfl, rfl⟩⟩⟩
  exact performAll_isWindow (r := ⟨limit, []⟩) rfl cs

def Sample.event (name : String) (n : Int) : Event := ⟨name, [], [(.text "number", .int n)]⟩

/-- A recorder that is cleared once, and then takes one event more than it can hold. -/
def Sample.calls : List Call :=
  [.record (Sample.event "tick" 1), .clear, .record (Sample.event "tick" 2),
    .record (Sample.event "tock" 3), .record (Sample.event "tick" 4)]

/-- Of the three events since it was cleared the recorder holds the last two. -/
theorem window_slides_two : StatesLimit (.int 2) (some 2) ∧
    Call.recent Sample.calls =
      [Sample.event "tick" 2, Sample.event "tock" 3, Sample.event "tick" 4] ∧
    ∃ r, make (.int 2) = .ok r ∧
      (r.performAll Sample.calls).select none = [Sample.event "tock" 3, Sample.event "tick" 4] ∧
      IsWindow (some 2) (Call.recent Sample.calls) ((r.performAll Sample.calls).select none) ∧
      (r.performAll Sample.calls).select (some "tick") = [Sample.event "tick" 4] ∧
      (r.performAll Sample.calls).count (some "tick") = 1 := by
  have hlimit : StatesLimit (.int 2) (some 2) := .positive rfl (by decide)
  obtain ⟨r, hr, hwindow⟩ := window_slides hlimit
  obtain ⟨hkept, hname⟩ := hwindow Sample.calls
  obtain rfl : ⟨some 2, []⟩ = r := Except.ok.inj hr
  refine ⟨hlimit, rfl, _, hr, rfl, hkept, ?_, ?_⟩
  · rw [(hname "tick").1]
    rfl
  · rw [(hname "tick").2]
    rfl

end RuleEngine.Recorder
