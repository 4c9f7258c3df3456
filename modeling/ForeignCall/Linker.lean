import ForeignCall.Arrangement.Sequence
import ForeignCall.Registry

/-!
# Linking

A `Linker` turns native functions into handles that managed code can call, and managed functions into entry
points that native code can call.  It arranges the sequence of each function shape at most once per
direction while its cache is on; failures are never kept.

* `Linking`: the computations of a linker on a registry.  What was done before an error stays;
* `Linking.sequence`: the calling sequence of a shape;
* `Linking.downcall`, `Linking.upcall`: link a function.
-/

namespace ForeignCall

/-- An arranged sequence.  Two sequences of one linker are the same object if they have the same serial
number. -/
structure SharedSequence where
  serial : Nat
  sequence : CallingSequence
  deriving DecidableEq

/-- What the cache of a linker is asked for. -/
structure SequenceKey where
  descriptor : Descriptor
  direction : Direction
  deriving DecidableEq

/-- A linker for one convention. -/
structure Linker where
  convention : Convention
  settings : Settings
  cache : List (SequenceKey × SharedSequence)
  /-- The number of sequences arranged so far. -/
  arranged : Nat

namespace Linker

def new (c : Convention) (settings : Settings) : Linker := ⟨c, settings, [], 0⟩

def cachedSequences (l : Linker) : Nat := l.cache.length

def cached? (l : Linker) (key : SequenceKey) : Option SharedSequence :=
  if l.settings.cacheSequences then l.cache.lookup key else none

/-- Count an arranged sequence, and keep it if the cache is on. -/
def keep (l : Linker) (key : SequenceKey) (s : CallingSequence) : SharedSequence × Linker :=
  let shared : SharedSequence := ⟨l.arranged, s⟩
  (shared,
    { l with
      cache := if l.settings.cacheSequences then (key, shared) :: l.cache else l.cache
      arranged := l.arranged + 1 })

end Linker

/-- A managed function at an entry point. -/
structure UpcallStub (τ : Type) where
  entry : Word
  handler : UpcallHandler τ

def UpcallStub.value {τ : Type} (s : UpcallStub τ) : Value := .address s.entry

/-- A linker at work: its registry and the log. -/
structure Linkage (φ τ : Type) where
  linker : Linker
  registry : Registry φ τ
  log : Array LogEvent

/-- Computations of a linker, which can fault or fail to link. -/
abbrev Linking (φ τ : Type) := EStateM (Halt Fault LinkError) (Linkage φ τ)

namespace Linking

variable {φ τ α : Type}

/-- A computation that touches neither linker nor registry. -/
def lift : Except (Halt Fault LinkError) α → Linking φ τ α
  | .ok a => fun s => .ok a s
  | .error e => fun s => .error e s

def record (e : LogEvent) : Linking φ τ Unit := modify fun s => { s with log := s.log.push e }

def sequence (d : Descriptor) (direction : Direction) : Linking φ τ SharedSequence := do
  let l := (← get).linker
  match l.cached? ⟨d, direction⟩ with
  | some shared => return shared
  | none =>
    let s ← lift (arrange l.convention d direction)
    record (.arranged l.convention d s)
    let (shared, l) := l.keep ⟨d, direction⟩ s
    modify fun state => { state with linker := l }
    return shared

def function (symbol : Symbol) (l : FrameLayout) : Linking φ τ (NativeFunction φ) := do
  match (← get).registry.downcallStub symbol with
  | .ok f =>
    record (.downcallStub symbol l)
    return f
  | .error e => lift (Halt.fail e)

/-- Compile a call, and record whether that was possible. -/
def compile (compiled : Except (Halt Fault Ineligible) α) (direct : LogEvent) (interpreted : Ineligible → LogEvent) :
    Linking φ τ (Option α) := do
  match compiled with
  | .ok a =>
    record direct
    return some a
  | .error (.error reason) =>
    record (interpreted reason)
    return none
  | .error (.fault f) => lift (.error (.fault f))

def downcall (symbol : Symbol) (d : Descriptor) : Linking φ τ (DowncallHandle φ) := do
  let shared ← sequence d .downcall
  let l := (← get).linker
  let layout ← lift (Halt.ofFault (Fault.ofOverflow (FrameLayout.covering l.convention shared.sequence.storages)))
  let native ← function symbol layout
  let direct ← compile (DirectDowncall.compile shared.sequence layout l.convention l.settings)
    (.directDowncall symbol d) (.interpretedDowncall symbol d)
  return ⟨symbol.name, shared.sequence, layout, native, direct, l.convention.returnsResultAddress⟩

def upcall (target : τ) (d : Descriptor) : Linking φ τ (UpcallStub τ) := do
  let shared ← sequence d .upcall
  let l := (← get).linker
  let layout ← lift (Halt.ofFault (Fault.ofOverflow (FrameLayout.covering l.convention shared.sequence.storages)))
  let direct ← compile (DirectUpcall.compile shared.sequence layout l.convention l.settings)
    (.directUpcall d) (.interpretedUpcall d)
  let handler : UpcallHandler τ := ⟨shared.sequence, layout, target, direct⟩
  let (entry, registry) := (← get).registry.addUpcall
    ⟨handler, layout, shared.sequence.isIndirect, shared.sequence.indirectSize⟩
  record (.upcallStub entry layout)
  modify fun state => { state with registry := registry }
  return ⟨entry, handler⟩

end Linking

end ForeignCall
