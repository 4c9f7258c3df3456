import ForeignCall.Text.Blank

/-!
# Settings of a linker

`Settings` turns the compilation of calls and the cache of calling sequences on and off.
`Settings.ofVariables` reads them from environment variables; a variable that holds neither `0`, `1`, `true`
nor `false` changes nothing.
-/

namespace ForeignCall

/-- What a linker may do beyond interpreting calls. -/
structure Settings where
  /-- Compile the downcalls that allow it. -/
  directDowncalls : Bool
  /-- Compile the upcalls that allow it. -/
  directUpcalls : Bool
  /-- Arrange each function shape once per direction. -/
  cacheSequences : Bool
  deriving DecidableEq

namespace Settings

def standard : Settings := ⟨true, false, true⟩

/-- Every call is interpreted. -/
def interpreted : Settings := { standard with directDowncalls := false, directUpcalls := false }

/-- Every call that allows it is compiled. -/
def everything : Settings := ⟨true, true, true⟩

/-- The truth value that a variable holds.  Letters may have either case. -/
def parseFlag? (text : String) : Option Bool :=
  match String.ofList ((trim text.toList).map Char.toLower) with
  | "1" | "true" => some true
  | "0" | "false" => some false
  | _ => none

/-- The standard settings, overridden by the variables that hold a truth value. -/
def ofVariables (lookup : String → Option String) : Settings :=
  let flag (name : String) (default : Bool) : Bool := ((lookup name).bind parseFlag?).getD default
  { directDowncalls := flag "FFI_BINDING_SPECIALIZE" standard.directDowncalls
    directUpcalls := flag "FFI_BINDING_SPECIALIZE_UPCALLS" standard.directUpcalls
    cacheSequences := flag "FFI_BINDING_CACHE" standard.cacheSequences }

end Settings

end ForeignCall
