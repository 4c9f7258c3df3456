import ForeignCall.CallingSequence
import ForeignCall.Convention

/-!
# Errors of linking and calling

* `Symbol`: a resolved native function;
* `LinkError`: why a function shape cannot be linked;
* `NativeError`, `CallError`: why a call did not give a result.  Errors in the arguments are reported before
  any storage is written.
-/

namespace ForeignCall

/-- A native function: its name and address. -/
structure Symbol where
  name : String
  address : Word
  deriving DecidableEq

def Symbol.text (s : Symbol) : String := s.name ++ "@" ++ wordText s.address

/-- Why a layout cannot be passed. -/
inductive Unsupported where
  | emptyAggregate (layout : Layout)
  /-- A piece of a size that no integer kind has. -/
  | integerPiece (layout : Layout) (size : Nat)
  /-- A piece of a size that no floating-point kind has. -/
  | floatPiece (layout : Layout) (size : Nat)
  | noResultRegister (convention : Convention)
  deriving DecidableEq

def Unsupported.text : Unsupported → String
  | .emptyAggregate l => l.text ++ ": empty aggregate"
  | .integerPiece l size => l.text ++ ": " ++ toString size ++ " byte piece"
  | .floatPiece l size => l.text ++ ": " ++ toString size ++ " byte float piece"
  | .noResultRegister c => c.text ++ " has no indirect result register"

/-- An error of arranging a call or of making its stub. -/
inductive LinkError where
  | unsupported (cause : Unsupported)
  | binding (cause : BindingError)
  | unknownSymbol (name : String)
  deriving DecidableEq

def LinkError.text : LinkError → String
  | .unsupported cause => "unsupported layout: " ++ cause.text
  | .binding cause => "binding error: " ++ cause.text
  | .unknownSymbol name => "unknown symbol `" ++ name ++ "`"

/-- A failure that native code reports.  Calls pass it on unchanged. -/
structure NativeError where
  message : String
  deriving DecidableEq

def NativeError.text (e : NativeError) : String := "native failure: " ++ e.message

/-- An error of a single call. -/
inductive CallError where
  | argumentCount (expected found : Nat)
  | argumentType (index : Nat) (expected : Carrier) (found : Option Carrier)
  /-- A segment argument that is shorter than its layout. -/
  | segmentTooSmall (index expected found : Nat)
  | resultType (expected found : Option Carrier)
  | native (cause : NativeError)
  /-- The managed target of an upcall failed. -/
  | target (message : String)
  deriving DecidableEq

def CallError.text : CallError → String
  | .argumentCount expected found =>
    "expected " ++ toString expected ++ " arguments, got " ++ toString found
  | .argumentType index expected found =>
    "argument " ++ toString index ++ ": expected " ++ expected.text ++ ", got " ++ Carrier.textOrVoid found
  | .segmentTooSmall index expected found =>
    "argument " ++ toString index ++ ": segment of " ++ toString found ++ " bytes, layout needs "
      ++ toString expected
  | .resultType expected found =>
    "result: expected " ++ Carrier.textOrVoid expected ++ ", got " ++ Carrier.textOrVoid found
  | .native cause => cause.text
  | .target message => "upcall target failed: " ++ message

end ForeignCall
