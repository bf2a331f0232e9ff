import RuleEngine.Error
import RuleEngine.Notice

/-!
# Traced computations

A computation of the engine gives a value or an error, and in either case the notices of what
happened up to there.
-/

namespace RuleEngine

/-- A value or an error, with the notices given on the way, oldest first. -/
structure Traced (α : Type) where
  notices : List Notice
  value : Except Error α

namespace Traced

variable {α β : Type}

def ok (a : α) : Traced α := ⟨[], .ok a⟩

/-- A computation without notices. -/
def ofExcept (x : Except Error α) : Traced α := ⟨[], x⟩

def give (ns : List Notice) : Traced Unit := ⟨ns, .ok ()⟩

/-- Goes on with the value. An error ends the computation and keeps its notices. -/
def andThen (x : Traced α) (f : α → Traced β) : Traced β :=
  match x.value with
  | .ok a =>
    let y := f a
    ⟨x.notices ++ y.notices, y.value⟩
  | .error e => ⟨x.notices, .error e⟩

instance : Monad Traced where
  pure := ok
  bind := andThen

end Traced

end RuleEngine
