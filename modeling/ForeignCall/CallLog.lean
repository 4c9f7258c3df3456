import ForeignCall.CallError
import ForeignCall.Eligibility
import ForeignCall.Frame

/-!
# The log of linking and calling

Everything worth noting is recorded as a `LogEvent`, with a level and a message.
-/

namespace ForeignCall

/-- How much detail a record is. -/
inductive LogLevel where
  | debug
  | trace
  deriving DecidableEq

def LogLevel.text : LogLevel → String
  | .debug => "debug"
  | .trace => "trace"

/-- A record of the log. -/
inductive LogEvent where
  /- Interpreting programs -/
  | unboxStep (step : Step)
  | boxStep (step : Step)
  /- Scratch memory -/
  | newChunk (size : Nat)
  | allocate (size alignment : Nat)
  | release (bytes chunks : Nat)
  /- Crossing the boundary -/
  | downcall (name : String)
  | upcall (arguments : Nat)
  | nativeFailed (name : String) (error : NativeError)
  /- Linking -/
  | arranged (convention : Convention) (descriptor : Descriptor) (sequence : CallingSequence)
  | downcallStub (symbol : Symbol) (layout : FrameLayout)
  | upcallStub (entry : Word) (layout : FrameLayout)
  | directDowncall (symbol : Symbol) (descriptor : Descriptor)
  | interpretedDowncall (symbol : Symbol) (descriptor : Descriptor) (reason : Ineligible)
  | directUpcall (descriptor : Descriptor)
  | interpretedUpcall (descriptor : Descriptor) (reason : Ineligible)

namespace LogEvent

def level : LogEvent → LogLevel
  | .unboxStep _ | .boxStep _ | .newChunk _ | .allocate _ _ | .release _ _ | .downcall _ | .upcall _ => .trace
  | _ => .debug

def message : LogEvent → String
  | .unboxStep step => "unbox " ++ step.text
  | .boxStep step => "box " ++ step.text
  | .newChunk size => "binding context: new chunk of " ++ toString size ++ " bytes"
  | .allocate size alignment =>
    "binding context: allocate " ++ toString size ++ "/" ++ toString alignment
  | .release bytes chunks =>
    "binding context: release " ++ toString bytes ++ " bytes in " ++ toString chunks ++ " chunk(s)"
  | .downcall name => "downcall " ++ name
  | .upcall arguments => "upcall with " ++ toString arguments ++ " argument(s)"
  | .nativeFailed name error => name ++ " failed: " ++ error.text
  | .arranged convention descriptor sequence =>
    "arranged " ++ convention.text ++ " " ++ descriptor.text ++ ":\n" ++ sequence.text
  | .downcallStub symbol layout => "downcall stub for " ++ symbol.text ++ " over frame " ++ layout.text
  | .upcallStub entry layout => "upcall stub at " ++ wordText entry ++ " over frame " ++ layout.text
  | .directDowncall symbol descriptor => symbol.text ++ ": specialized downcall " ++ descriptor.text
  | .interpretedDowncall symbol descriptor reason =>
    symbol.text ++ ": interpreting downcall " ++ descriptor.text ++ ": " ++ reason.text
  | .directUpcall descriptor => "specialized upcall " ++ descriptor.text
  | .interpretedUpcall descriptor reason => "interpreting upcall " ++ descriptor.text ++ ": " ++ reason.text

end LogEvent

end ForeignCall
