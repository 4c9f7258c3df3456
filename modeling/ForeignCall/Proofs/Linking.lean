import ForeignCall.Linker
import ForeignCall.Proofs.Frame
import ForeignCall.Proofs.Stopping

/-!
# What a linker hands out

* `Linkage.Reachable`: the states of a linker that some requests lead to, successful or not.  Between
  requests the registry and the log may change at will;
* `Linking.downcall_of_compiles`, `Linking.upcall_of_compiles`: what a linker makes of a function whose shape it
  meets for the first time;
* `Linking.Ensures`: a computation keeps an invariant, with one rule for each construct.  `Linking.Lasting`:
  invariants that depend on the linker and on the arrangements in the log only;
* `Linker.Sound`: every sequence in the cache is the one that its key is arranged to.  Every request keeps
  this;
* `DowncallHandle.Linked`, `UpcallHandler.Linked`: what a handle or a handler is made of.  Whatever a
  reachable linker hands out is so (`Linkage.Reachable.handle_linked`, `Linkage.Reachable.handler_linked`).
-/

namespace ForeignCall

variable {φ τ α β : Type} {c : Convention} {settings : Settings} {d : Descriptor}

/-- A linker of the convention and the settings whose cache holds arranged sequences. -/
structure Linker.Sound (c : Convention) (settings : Settings) (l : Linker) : Prop where
  convention : l.convention = c
  settings : l.settings = settings
  cache : ∀ key shared, (key, shared) ∈ l.cache → arrange c key.descriptor key.direction = .ok shared.sequence

/-- A handle of an arranged sequence, with the least frame for it and the compiled call if it compiles. -/
structure DowncallHandle.Linked (c : Convention) (settings : Settings) (d : Descriptor) (h : DowncallHandle φ) :
    Prop where
  sequence : arrange c d .downcall = .ok h.sequence
  layout : FrameLayout.covering c h.sequence.storages = .ok h.layout
  direct : ∀ direct ∈ h.direct, DirectDowncall.compile h.sequence h.layout c settings = .ok direct
  returnsResultAddress : h.returnsResultAddress = c.returnsResultAddress

/-- A handler of an arranged sequence, with the least frame for it and the compiled call if it compiles. -/
structure UpcallHandler.Linked (c : Convention) (settings : Settings) (d : Descriptor) (target : τ)
    (h : UpcallHandler τ) : Prop where
  sequence : arrange c d .upcall = .ok h.sequence
  layout : FrameLayout.covering c h.sequence.storages = .ok h.layout
  direct : ∀ direct ∈ h.direct, DirectUpcall.compile h.sequence h.layout c settings = .ok direct
  target : h.target = target

/-! ### Arrangements in the log -/

/-- The key that a record reports as arranged. -/
def LogEvent.arrangedKey? : LogEvent → Option SequenceKey
  | .arranged _ d s => some ⟨d, s.direction⟩
  | _ => none

/-- The keys that a log reports as arranged, in order. -/
def arrangedKeys (log : Array LogEvent) : List SequenceKey := log.toList.filterMap LogEvent.arrangedKey?

theorem arrangedKeys_push (log : Array LogEvent) (e : LogEvent) :
    arrangedKeys (log.push e) = arrangedKeys log ++ e.arrangedKey?.toList := by
  unfold arrangedKeys
  rw [Array.toList_push, List.filterMap_append]
  cases h : e.arrangedKey? <;> simp [h]

/-! ### Keeping an invariant -/

namespace Linking

/-- `x` keeps the invariant, also when it fails, and its values have the property. -/
def Ensures (I : Linkage φ τ → Prop) (x : Linking φ τ α) (Q : α → Prop) : Prop :=
  ∀ s, I s → match x s with
    | .ok a s' => I s' ∧ Q a
    | .error _ s' => I s'

/-- The invariant depends on the linker and on the arrangements in the log only. -/
def Lasting (I : Linkage φ τ → Prop) : Prop :=
  ∀ s registry log, arrangedKeys log = arrangedKeys s.log → I s → I { s with registry := registry, log := log }

/-- The state that a request leaves. -/
def after (x : Linking φ τ α) (s : Linkage φ τ) : Linkage φ τ :=
  match x s with
  | .ok _ s' | .error _ s' => s'

/-! ### Single steps -/

section Steps

variable {s s' : Linkage φ τ} {key : SequenceKey} {symbol : Symbol} {f : NativeFunction φ} {q : CallingSequence}
  {l : FrameLayout}

theorem get_bind_apply (f : Linkage φ τ → Linking φ τ α) (s : Linkage φ τ) : (get >>= f) s = f s s := rfl

theorem bind_of_ok {x : Linking φ τ α} {f : α → Linking φ τ β} {a : α} (h : x s = .ok a s') :
    (x >>= f) s = f a s' := by
  simp only [Bind.bind, EStateM.bind, h]

/-- What is not in the cache is arranged, reported and kept. -/
theorem sequence_arranged (h : s.linker.cached? key = none)
    (harrange : arrange s.linker.convention key.descriptor key.direction = .ok q) :
    sequence key.descriptor key.direction s = .ok (s.linker.keep key q).1
      { s with
        linker := (s.linker.keep key q).2
        log := s.log.push (.arranged s.linker.convention key.descriptor q) } := by
  unfold sequence
  rw [get_bind_apply]
  dsimp only
  rw [h, harrange]
  rfl

theorem function_of_downcallStub (h : s.registry.downcallStub symbol = .ok f) (l : FrameLayout) :
    function symbol l s = .ok f { s with log := s.log.push (.downcallStub symbol l) } := by
  unfold function
  rw [get_bind_apply, h]
  rfl

theorem lift_covering (h : FrameLayout.covering c q.storages = .ok l) (s : Linkage φ τ) :
    lift (Halt.ofFault (Fault.ofOverflow (FrameLayout.covering c q.storages))) s = .ok l s := by
  rw [h]
  rfl

/-- What compiling comes to: the compiled call, or none if the sequence is not eligible. -/
def Compiles (compiled : Except (Halt Fault Ineligible) α) : Option α → Prop
  | some direct => compiled = .ok direct
  | none => ∃ reason, compiled = .error (.error reason)

theorem Compiles.run {compiled : Except (Halt Fault Ineligible) α} {direct : Option α}
    (h : Compiles compiled direct) (e : LogEvent) (e' : Ineligible → LogEvent) (s : Linkage φ τ) :
    ∃ recorded, compile compiled e e' s = .ok direct { s with log := s.log.push recorded } := by
  cases direct with
  | some direct =>
    obtain rfl : compiled = .ok direct := h
    exact ⟨_, rfl⟩
  | none =>
    obtain ⟨reason, rfl⟩ := h
    exact ⟨_, rfl⟩

/-- The handle that a linker makes of a function it meets for the first time. -/
theorem downcall_of_compiles {direct : Option DirectDowncall} (hcache : s.linker.cached? ⟨d, .downcall⟩ = none)
    (hq : arrange s.linker.convention d .downcall = .ok q)
    (hl : FrameLayout.covering s.linker.convention q.storages = .ok l)
    (hf : s.registry.downcallStub symbol = .ok f)
    (hdirect : Compiles (DirectDowncall.compile q l s.linker.convention s.linker.settings) direct) :
    ∃ s', downcall symbol d s =
      .ok ⟨symbol.name, q, l, f, direct, s.linker.convention.returnsResultAddress⟩ s' := by
  unfold downcall
  rw [bind_of_ok (sequence_arranged hcache hq), get_bind_apply]
  dsimp only [Linker.keep]
  rw [bind_of_ok (lift_covering hl _), bind_of_ok (function_of_downcallStub (by exact hf) l)]
  obtain ⟨_, hrun⟩ := hdirect.run _ _ _
  rw [bind_of_ok hrun]
  exact ⟨_, rfl⟩

/-- The entry point that a linker makes for a target whose shape it meets for the first time. -/
theorem upcall_of_compiles {direct : Option DirectUpcall} {target : τ}
    (hcache : s.linker.cached? ⟨d, .upcall⟩ = none)
    (hq : arrange s.linker.convention d .upcall = .ok q)
    (hl : FrameLayout.covering s.linker.convention q.storages = .ok l)
    (hdirect : Compiles (DirectUpcall.compile q l s.linker.convention s.linker.settings) direct) :
    ∃ s', upcall target d s =
      .ok ⟨(s.registry.addUpcall ⟨⟨q, l, target, direct⟩, l, q.isIndirect, q.indirectSize⟩).1,
        ⟨q, l, target, direct⟩⟩ s' := by
  unfold upcall
  rw [bind_of_ok (sequence_arranged hcache hq), get_bind_apply]
  dsimp only [Linker.keep]
  rw [bind_of_ok (lift_covering hl _)]
  obtain ⟨_, hrun⟩ := hdirect.run _ _ _
  rw [bind_of_ok hrun, get_bind_apply]
  exact ⟨_, rfl⟩

theorem exists_downcall_of_arrange (hcache : s.linker.cached? ⟨d, .downcall⟩ = none)
    (hq : arrange s.linker.convention d .downcall = .ok q) (hf : s.registry.downcallStub symbol = .ok f)
    (hcompile : ∀ l, ∃ reason,
      DirectDowncall.compile q l s.linker.convention s.linker.settings = .error (.error reason)) :
    ∃ h s', downcall symbol d s = .ok h s' ∧ h.sequence = q ∧ h.direct = none := by
  obtain ⟨l, hl⟩ := FrameLayout.exists_covering s.linker.convention q.storages
  have hnone : Compiles (DirectDowncall.compile q l s.linker.convention s.linker.settings) none := hcompile l
  obtain ⟨s', hrun⟩ := downcall_of_compiles hcache hq hl hf hnone
  exact ⟨_, s', hrun, rfl, rfl⟩

end Steps

namespace Ensures

variable {I : Linkage φ τ → Prop} {x : Linking φ τ α} {Q : α → Prop}

theorem bind {f : α → Linking φ τ β} {P : β → Prop} (h : Ensures I x Q) (hf : ∀ a, Q a → Ensures I (f a) P) :
    Ensures I (x >>= f) P := by
  intro s hs
  have hx := h s hs
  simp only [Bind.bind, EStateM.bind]
  cases hrun : x s with
  | ok a s' =>
    rw [hrun] at hx
    exact hf a hx.2 s' hx.1
  | error e s' =>
    rw [hrun] at hx
    exact hx

theorem pure {a : α} (h : Q a) : Ensures I (Pure.pure a : Linking φ τ α) Q := fun _ hs => ⟨hs, h⟩

theorem lift {x : Except (Halt Fault LinkError) α} :
    Ensures I (Linking.lift x : Linking φ τ α) fun a => x = .ok a := by
  intro s hs
  cases x with
  | ok a => exact ⟨hs, rfl⟩
  | error e => exact hs

theorem get : Ensures I (MonadState.get : Linking φ τ (Linkage φ τ)) I := fun _ hs => ⟨hs, hs⟩

theorem update {f : Linkage φ τ → Linkage φ τ} (h : ∀ s, I s → I (f s)) :
    Ensures I (modify f : Linking φ τ Unit) fun _ => True := fun s hs => ⟨h s hs, trivial⟩

theorem record {e : LogEvent} (hI : Lasting I) (he : e.arrangedKey? = none) :
    Ensures I (Linking.record e : Linking φ τ Unit) fun _ => True := by
  refine update fun s hs => hI s s.registry _ ?_ hs
  rw [arrangedKeys_push, he, Option.toList_none, List.append_nil]

theorem after (h : Ensures I x Q) {s : Linkage φ τ} (hs : I s) : I (x.after s) := by
  have hx := h s hs
  unfold Linking.after
  cases hrun : x s with
  | ok a s' =>
    rw [hrun] at hx
    exact hx.1
  | error e s' =>
    rw [hrun] at hx
    exact hx

theorem of_ok (h : Ensures I x Q) {s s' : Linkage φ τ} {a : α} (hs : I s) (hrun : x s = .ok a s') : Q a := by
  have hx := h s hs
  rw [hrun] at hx
  exact hx.2

end Ensures

end Linking

/-! ### Requests -/

namespace Linker

variable {l : Linker} {key : SequenceKey}

theorem new_sound : (Linker.new c settings).Sound c settings := ⟨rfl, rfl, by simp [Linker.new]⟩

theorem mem_of_cached? {shared : SharedSequence} (h : l.cached? key = some shared) :
    (key, shared) ∈ l.cache := by
  unfold cached? at h
  split at h
  · obtain ⟨before, behind, hcache, -⟩ := List.lookup_eq_some_iff.1 h
    simp [hcache]
  · cases h

theorem not_mem_of_cached? (hon : l.settings.cacheSequences = true) (h : l.cached? key = none) :
    key ∉ l.cache.map (·.1) := by
  unfold cached? at h
  rw [if_pos hon, List.lookup_eq_none_iff] at h
  intro hmem
  obtain ⟨entry, hentry, rfl⟩ := List.mem_map.1 hmem
  simpa using h entry hentry

theorem Sound.cached? {shared : SharedSequence} (h : l.Sound c settings) (hkey : l.cached? key = some shared) :
    arrange c key.descriptor key.direction = .ok shared.sequence := h.cache _ _ (mem_of_cached? hkey)

theorem Sound.keep {s : CallingSequence} (h : l.Sound c settings)
    (hs : arrange c key.descriptor key.direction = .ok s) :
    (l.keep key s).2.Sound c settings := by
  refine ⟨h.convention, h.settings, fun k shared hmem => ?_⟩
  simp only [Linker.keep] at hmem
  split at hmem
  · rcases List.mem_cons.1 hmem with heq | hmem
    · cases heq
      exact hs
    · exact h.cache k shared hmem
  · exact h.cache k shared hmem

end Linker

namespace Linking

theorem lasting_sound : Lasting fun s : Linkage φ τ => s.linker.Sound c settings := fun _ _ _ _ hs => hs

/-- The sequence that a linker gives for a shape is the arranged one, be it from the cache or new. -/
theorem sequence_ensures (d : Descriptor) (direction : Direction) :
    Ensures (fun s => s.linker.Sound c settings) (sequence d direction : Linking φ τ SharedSequence)
      fun shared => arrange c d direction = .ok shared.sequence := by
  unfold sequence
  refine .bind .get fun s hs => ?_
  dsimp only
  split
  · next shared hcached => exact .pure (hs.cached? hcached)
  · refine .bind .lift fun sequence hsequence => ?_
    rw [hs.convention] at hsequence
    refine .bind (.update fun _ h => h) fun _ _ => .bind (.update fun _ _ => hs.keep hsequence) fun _ _ =>
      .pure hsequence

section Rest

variable {I : Linkage φ τ → Prop}

theorem function_ensures (hI : Lasting I) (symbol : Symbol) (layout : FrameLayout) :
    Ensures I (function symbol layout) fun _ => True := by
  unfold function
  refine .bind .get fun s _ => ?_
  split
  · exact .bind (.record hI rfl) fun _ _ => .pure trivial
  · exact fun _ hs => hs

theorem compile_ensures (hI : Lasting I) (compiled : Except (Halt Fault Ineligible) α) {direct : LogEvent}
    {interpreted : Ineligible → LogEvent} (hdirect : direct.arrangedKey? = none)
    (hinterpreted : ∀ reason, (interpreted reason).arrangedKey? = none) :
    Ensures I (compile compiled direct interpreted) fun direct => ∀ a ∈ direct, compiled = .ok a := by
  cases compiled with
  | ok a => exact .bind (.record hI hdirect) fun _ _ => .pure (by simp)
  | error e =>
    cases e with
    | fault f => exact fun _ hs => hs
    | error reason => exact .bind (.record hI (hinterpreted reason)) fun _ _ => .pure (by simp)

variable (hI : Lasting I) (hlinker : ∀ s, I s → s.linker.convention = c ∧ s.linker.settings = settings)
include hI hlinker

/-- **A handle is made of the sequence of its shape**, and making it does nothing else to the linker. -/
theorem exists_downcall (symbol : Symbol) (d : Descriptor) :
    ∃ rest : SharedSequence → Linking φ τ (DowncallHandle φ),
      downcall symbol d = sequence d .downcall >>= rest ∧
      ∀ shared, arrange c d .downcall = .ok shared.sequence → Ensures I (rest shared) fun h =>
        h.Linked c settings d := by
  refine ⟨_, rfl, fun shared hsequence => .bind .get fun s hs => ?_⟩
  obtain ⟨hconvention, hsettings⟩ := hlinker s hs
  refine .bind .lift fun layout hlayout => ?_
  rw [hconvention] at hlayout
  refine .bind (function_ensures hI symbol layout) fun native _ =>
    .bind (compile_ensures hI _ rfl fun _ => rfl) fun direct hdirect => ?_
  rw [hconvention, hsettings] at hdirect
  refine .pure ⟨hsequence, by simpa using hlayout, hdirect, ?_⟩
  rw [hconvention]

/-- **A stub is made of the sequence of its shape**, and making it does nothing else to the linker. -/
theorem exists_upcall (target : τ) (d : Descriptor) :
    ∃ rest : SharedSequence → Linking φ τ (UpcallStub τ), upcall target d = sequence d .upcall >>= rest ∧
      ∀ shared, arrange c d .upcall = .ok shared.sequence →
        Ensures I (rest shared) fun stub => stub.handler.Linked c settings d target := by
  refine ⟨_, rfl, fun shared hsequence => .bind .get fun s hs => ?_⟩
  obtain ⟨hconvention, hsettings⟩ := hlinker s hs
  refine .bind .lift fun layout hlayout => ?_
  rw [hconvention] at hlayout
  refine .bind (compile_ensures hI _ rfl fun _ => rfl) fun direct hdirect => .bind .get fun s' hs' => ?_
  rw [hconvention, hsettings] at hdirect
  refine .bind (.record hI rfl) fun _ _ => .bind (.update fun s h => hI s _ _ rfl h) fun _ _ => ?_
  exact .pure ⟨hsequence, by simpa using hlayout, hdirect, rfl⟩

end Rest

theorem downcall_ensures (symbol : Symbol) (d : Descriptor) :
    Ensures (fun s => s.linker.Sound c settings) (downcall symbol d : Linking φ τ (DowncallHandle φ))
      fun h => h.Linked c settings d := by
  obtain ⟨rest, heq, hrest⟩ :=
    exists_downcall (τ := τ) lasting_sound (fun _ hs => ⟨hs.convention, hs.settings⟩) symbol d
  rw [heq]
  exact .bind (sequence_ensures d .downcall) hrest

theorem upcall_ensures (target : τ) (d : Descriptor) :
    Ensures (fun s => s.linker.Sound c settings) (upcall target d : Linking φ τ (UpcallStub τ))
      fun stub => stub.handler.Linked c settings d target := by
  obtain ⟨rest, heq, hrest⟩ :=
    exists_upcall (φ := φ) lasting_sound (fun _ hs => ⟨hs.convention, hs.settings⟩) target d
  rw [heq]
  exact .bind (sequence_ensures d .upcall) hrest

end Linking

/-! ### Runs of requests -/

/-- The states of a linker of a convention and settings that some requests lead to. -/
inductive Linkage.Reachable (c : Convention) (settings : Settings) : Linkage φ τ → Prop
  | new (registry : Registry φ τ) (log : Array LogEvent) : Reachable c settings ⟨.new c settings, registry, log⟩
  | sequence {s : Linkage φ τ} (d : Descriptor) (direction : Direction) :
    Reachable c settings s → Reachable c settings ((Linking.sequence d direction).after s)
  | downcall {s : Linkage φ τ} (symbol : Symbol) (d : Descriptor) :
    Reachable c settings s → Reachable c settings ((Linking.downcall symbol d).after s)
  | upcall {s : Linkage φ τ} (target : τ) (d : Descriptor) :
    Reachable c settings s → Reachable c settings ((Linking.upcall target d).after s)
  | outside {s : Linkage φ τ} (registry : Registry φ τ) (log : Array LogEvent) :
    Reachable c settings s → Reachable c settings { s with registry := registry, log := log }

namespace Linkage.Reachable

variable {s s' : Linkage φ τ}

theorem sound (h : s.Reachable c settings) : s.linker.Sound c settings := by
  induction h with
  | new registry log => exact Linker.new_sound
  | sequence d direction _ ih => exact (Linking.sequence_ensures d direction).after ih
  | downcall symbol d _ ih => exact (Linking.downcall_ensures symbol d).after ih
  | upcall target d _ ih => exact (Linking.upcall_ensures target d).after ih
  | outside registry log _ ih => exact ih

/-- **A reachable linker hands out linked handles only.** -/
theorem handle_linked {symbol : Symbol} {handle : DowncallHandle φ} (h : s.Reachable c settings)
    (hrun : Linking.downcall symbol d s = .ok handle s') : handle.Linked c settings d :=
  (Linking.downcall_ensures symbol d).of_ok h.sound hrun

/-- **A reachable linker hands out linked handlers only.** -/
theorem handler_linked {target : τ} {stub : UpcallStub τ} (h : s.Reachable c settings)
    (hrun : Linking.upcall target d s = .ok stub s') : stub.handler.Linked c settings d target :=
  (Linking.upcall_ensures target d).of_ok h.sound hrun

end Linkage.Reachable

end ForeignCall
