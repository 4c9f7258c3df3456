import ForeignCall.Layout
import ForeignCall.Storage

/-!
# Binding programs

A binding program moves one value between its managed form and the storages of a call.  `Step` is one
instruction of the stack machine that runs it.  The same step is read in two ways: *unboxing* takes a value
apart into storages, *boxing* puts one together from them.

| step | unboxing | boxing |
|---|---|---|
| `move` | pop a scalar, write it to a storage | read a storage, push a scalar |
| `field` | pop a segment, push one of its fields | pop a scalar and a segment, write the field, push the segment |
| `copy` | pop a segment, push a scratch copy of its first bytes | pop an address, push a scratch copy of the bytes there |
| `allocate` | push zeroed scratch memory | the same |
| `boxAddress` | pop an address, push its bits | pop bits, push an address |
| `baseAddress` | pop a segment, push its address | the same |
| `dup` | push the top of the stack again | the same |
-/

namespace ForeignCall

/-- One instruction of a binding program. -/
inductive Step where
  | move (storage : Storage) (kind : Primitive)
  | field (offset : Nat) (kind : Primitive)
  | copy (size alignment : Nat)
  | allocate (size alignment : Nat)
  | boxAddress
  | baseAddress
  | dup
  deriving DecidableEq

namespace Step

def copyOf (l : Layout) : Except Overflow Step := return .copy (← l.byteSize) l.alignment

def allocateFor (l : Layout) : Except Overflow Step := return .allocate (← l.byteSize) l.alignment

def name : Step → String
  | .move _ _ => "Move"
  | .field _ _ => "Deref"
  | .copy _ _ => "Copy"
  | .allocate _ _ => "Alloc"
  | .boxAddress => "BoxAddress"
  | .baseAddress => "BaseAddress"
  | .dup => "Dup"

def scratchSize : Step → Nat
  | .copy size _ | .allocate size _ => size
  | _ => 0

def storage? : Step → Option Storage
  | .move s _ => some s
  | _ => none

def text (step : Step) : String :=
  match step with
  | .move s p => step.name ++ " " ++ s.text ++ " " ++ p.text
  | .field offset p => step.name ++ " +" ++ toString offset ++ " " ++ p.text
  | .copy size alignment | .allocate size alignment =>
    step.name ++ " " ++ toString size ++ "/" ++ toString alignment
  | .boxAddress | .baseAddress | .dup => step.name

end Step

/-- A program is a list of steps, run from first to last. -/
abbrev Program := List Step

namespace Program

/-- The storages that a program moves through, in order. -/
def storages (p : Program) : List Storage := p.filterMap Step.storage?

def text (p : Program) : String := "[" ++ "; ".intercalate (p.map Step.text) ++ "]"

end Program

end ForeignCall
