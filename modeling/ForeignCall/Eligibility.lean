import ForeignCall.CallingSequence
import ForeignCall.Convention
import ForeignCall.Settings

/-!
# Calls that can be compiled

A call is compiled into direct moves between its values and the frame only if every program is simple: one
move through a register that holds the whole value, and no scratch memory.  `checkEligible` gives the first
reason against a sequence, an `Ineligible`.
-/

namespace ForeignCall

/-- Which program of a sequence is meant. -/
inductive ProgramPosition where
  | argument (index : Nat)
  | result
  deriving DecidableEq

def ProgramPosition.text : ProgramPosition → String
  | .argument i => "argument " ++ toString i
  | .result => "return"

/-- Why a sequence stays with the interpreter. -/
inductive Ineligible where
  | disabled (direction : Direction)
  | indirectResult
  | tooManyArguments (count max : Nat)
  | moveCount (position : ProgramPosition) (count : Nat)
  | indirectStorage (position : ProgramPosition) (storage : Storage) (size : Nat)
  | step (position : ProgramPosition) (step : Step)
  deriving DecidableEq

def Ineligible.text : Ineligible → String
  | .disabled direction => direction.text ++ " specialization disabled"
  | .indirectResult => "result is returned in memory"
  | .tooManyArguments count max =>
    toString count ++ " arguments, at most " ++ toString max ++ " can be direct"
  | .moveCount position count => position.text ++ " binds through " ++ toString count ++ " storages"
  | .indirectStorage position storage size =>
    position.text ++ ": " ++ toString size ++ " bytes through " ++ storage.text ++ " is not direct"
  | .step position s => position.text ++ ": " ++ s.text ++ " needs the interpreter"

namespace Eligibility

/-- The number of moves in some steps, all of which have to be direct. -/
def countMoves (position : ProgramPosition) (size : Nat) : Program → Except Ineligible Nat
  | [] => .ok 0
  | .move storage _ :: rest =>
    if storage.isDirect size then return (← countMoves position size rest) + 1
    else .error (.indirectStorage position storage size)
  | .field _ _ :: rest | .baseAddress :: rest | .boxAddress :: rest => countMoves position size rest
  | step :: _ => .error (.step position step)

/-- A program that moves a value of `size` bytes has exactly one move, which is direct. -/
def checkProgram (position : ProgramPosition) (size : Nat) (p : Program) : Except Ineligible Unit := do
  let count ← countMoves position size p
  if count = 1 then return () else throw (.moveCount position count)

/-- The reports of a check are errors of the whole. -/
def report {α : Type} : Except Ineligible α → Except (Halt Overflow Ineligible) α
  | .ok a => .ok a
  | .error reason => .error (.error reason)

/-- Check programs, the first of which belongs to argument `index`, with the layouts of their arguments. -/
def checkArguments (index : Nat) : List Program → List Layout → Except (Halt Overflow Ineligible) Unit
  | p :: ps, l :: ls => do
    let size ← l.byteSize
    report (checkProgram (.argument index) size p)
    checkArguments (index + 1) ps ls
  | _, _ => return ()

end Eligibility

def Settings.allowsDirect (s : Settings) : Direction → Bool
  | .downcall => s.directDowncalls
  | .upcall => s.directUpcalls

open Eligibility in
def checkEligible (s : CallingSequence) (c : Convention) (settings : Settings) :
    Except (Halt Overflow Ineligible) Unit := do
  if settings.allowsDirect s.direction = false then Halt.fail (.disabled s.direction)
  else if s.isIndirect then Halt.fail .indirectResult
  else if c.maxDirectArguments s.direction < s.argumentPrograms.length then
    Halt.fail (.tooManyArguments s.argumentPrograms.length (c.maxDirectArguments s.direction))
  else
    checkArguments 0 s.argumentPrograms s.descriptor.args
    match s.descriptor.result with
    | some l => do
      let size ← l.byteSize
      report (checkProgram .result size s.resultProgram)
    | none => return ()

end ForeignCall
