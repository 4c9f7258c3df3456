import ForeignCall.CallError

/-!
# Checks on what crosses a call

* `CallingSequence.checkArguments`: the arguments of a downcall have to match its sequence, in number,
  carriers and, for segments, length;
* `checkResult`: so does the result of the target of an upcall.
-/

namespace ForeignCall

namespace CallingSequence

/-- The argument at `index` has to have the carrier of its binding, and a segment has to cover its layout. -/
def checkArgument (index : Nat) (v : Value) (b : Binding) : Except (Halt Overflow CallError) Unit := do
  if v.carrier? ≠ some b.carrier then Halt.fail (.argumentType index b.carrier v.carrier?)
  else
    match v with
    | .segment s =>
      let size ← b.layout.byteSize
      if s.length < size then Halt.fail (.segmentTooSmall index size s.length) else return ()
    | _ => return ()

/-- Check arguments, the first of which stands at `index`, with their bindings. -/
def checkEach (index : Nat) : List Value → List Binding → Except (Halt Overflow CallError) Unit
  | v :: vs, b :: bs => do
    checkArgument index v b
    checkEach (index + 1) vs bs
  | _, _ => return ()

def checkArguments (s : CallingSequence) (args : List Value) : Except (Halt Overflow CallError) Unit :=
  if args.length ≠ s.arguments.length then Halt.fail (.argumentCount s.arguments.length args.length)
  else checkEach 0 args s.arguments

/-- The bytes that a segment result has to cover. -/
def resultLength (s : CallingSequence) : Except Overflow Nat :=
  match s.descriptor.result with
  | some l => l.byteSize
  | none => return 0

end CallingSequence

/-- A result has to have the expected carrier, `void` for none. -/
def checkResultCarrier (expected : Option Carrier) (v : Value) : Except CallError Unit :=
  if v.carrier? = expected then .ok () else .error (.resultType expected v.carrier?)

/-- A segment result has to cover the given number of bytes. -/
def checkResultLength (length : Nat) (v : Value) : Except CallError Unit :=
  match v with
  | .segment s => if s.length < length then .error (.resultType (some .segment) (some .segment)) else .ok ()
  | _ => .ok ()

def checkResult (expected : Option Carrier) (length : Nat) (v : Value) : Except CallError Unit := do
  checkResultCarrier expected v
  checkResultLength length v

end ForeignCall
