import ForeignCall.Word

/-!
# Two ways to stop

A computation stops early either with a *fault* — a broken invariant, which no caller handles — or with an
*error*, which it reports to its caller.  `Halt φ ε` keeps the two apart; a computation that can only fault is
used inside one that can also err without further ado.
-/

namespace ForeignCall

/-- Why a computation stopped early. -/
inductive Halt (φ ε : Type) where
  | fault (cause : φ)
  | error (cause : ε)
  deriving DecidableEq

/-- Faults stay faults in a computation that can also err. -/
def Halt.ofFault {φ ε α : Type} : Except φ α → Except (Halt φ ε) α
  | .ok a => .ok a
  | .error f => .error (.fault f)

instance {φ ε : Type} : MonadLift (Except φ) (Except (Halt φ ε)) := ⟨Halt.ofFault⟩

def Halt.fail {φ ε α : Type} (e : ε) : Except (Halt φ ε) α := .error (.error e)

end ForeignCall
