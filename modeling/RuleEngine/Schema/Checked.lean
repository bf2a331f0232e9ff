import RuleEngine.Fault
import RuleEngine.Flaw

/-!
# Checked results

Reading declared data gives a result, or all its flaws, or a fault of an operation on the values
read. Parts are read one after the other whether or not earlier ones had flaws; the first fault ends
the reading.
-/

namespace RuleEngine

/-- The result of reading declared data. -/
inductive Checked (α : Type) where
  | ok (a : α)
  | flawed (details : List Detail)
  | fault (f : Fault)

namespace Checked

variable {α β γ : Type}

def flaw (f : Flaw) : Checked α := .flawed [⟨[], f⟩]

def map (f : α → β) : Checked α → Checked β
  | ok a => .ok (f a)
  | flawed ds => .flawed ds
  | fault e => .fault e

def andThen (c : Checked α) (f : α → Checked β) : Checked β :=
  match c with
  | ok a => f a
  | flawed ds => .flawed ds
  | fault e => .fault e

/-- Two parts read one after the other. -/
def both (f : α → β → γ) (c : Checked α) (d : Checked β) : Checked γ :=
  match c, d with
  | fault e, _ => .fault e
  | _, fault e => .fault e
  | flawed ds, flawed es => .flawed (ds ++ es)
  | flawed ds, ok _ => .flawed ds
  | ok _, flawed es => .flawed es
  | ok a, ok b => .ok (f a b)

/-- Functions and arguments are read one after the other too. -/
instance : Applicative Checked where
  pure := .ok
  map := map
  seq f c := both (fun g a => g a) f (c ())

/-- The same result with its flaws seen from one step further out. -/
def under (s : Step) : Checked α → Checked α
  | flawed ds => .flawed (ds.map (Detail.under s))
  | c => c

/-- Flaws besides those of a result. -/
def withFlaws (ds : List Detail) (c : Checked α) : Checked α :=
  if ds.isEmpty then c else both (fun a () => a) c (.flawed ds)

def eachFrom (read : α → Checked β) : Nat → List α → Checked (List β)
  | _, [] => .ok []
  | i, x :: xs => both List.cons ((read x).under (.item i)) (eachFrom read (i + 1) xs)

def each (read : α → Checked β) (xs : List α) : Checked (List β) := eachFrom read 0 xs

/-- The result, with all flaws as one error. -/
def toExcept {ε : Type} (flaws : List Detail → ε) (failed : Fault → ε) : Checked α → Except ε α
  | ok a => .ok a
  | flawed ds => .error (flaws ds)
  | fault f => .error (failed f)

end Checked

end RuleEngine
