import ForeignCall.Proofs.Arrangement.Plan
import ForeignCall.Proofs.CallCheck
import ForeignCall.Proofs.DirectCall.Programs
import ForeignCall.Proofs.Linking

/-!
# Compiled calls agree with interpreted calls

* `DirectDowncall.observe_invoke`, `DirectUpcall.observe_invoke`: a compiled call shows what interpreting
  its sequence shows — the same value, error or fault, and the same frame, memory and outside state;
* `direct_downcall_agrees`, `direct_upcall_agrees`: so do the handles and handlers of a linker.

Since an eligible sequence delivers nothing in memory, a call is a pass over its argument programs, the code
from outside, and at most one result program.  Each pass simulates its counterpart, program by program.
-/

namespace ForeignCall

open DirectCall

variable {σ φ τ : Type} {s : CallingSequence} {l : FrameLayout} {c : Convention} {settings : Settings}
  {args : List Value} {m : Machine σ}

/-! ### Eligible sequences -/

theorem indirect_of_checkEligible (h : checkEligible s c settings = .ok ()) : s.indirect = none := by
  unfold checkEligible at h
  split at h
  · simp at h
  · split at h
    · simp at h
    · next hindirect => simpa [CallingSequence.isIndirect] using hindirect

theorem CallingSequence.argumentPrograms_eq (h : s.indirect = none) :
    s.argumentPrograms = s.arguments.map (·.program) := by
  simp [argumentPrograms, userPrograms, pointerProgram?, h]

theorem DirectCall.result?_eq_ok {α : Type} {compile : ProgramPosition → Program → Compiling α} {r : Option α}
    (h : result? compile s = .ok r) :
    (r = none ∧ s.hasResultProgram = false) ∨
      ∃ a b, r = some a ∧ s.result = some b ∧ s.hasResultProgram = true ∧ s.resultProgram = b.program ∧
        compile .result b.program = .ok a := by
  unfold result? at h
  split at h
  · next hprogram =>
    obtain ⟨a, ha, h⟩ := bind_eq_ok.1 h
    cases h
    cases hresult : s.result with
    | none => simp [CallingSequence.hasResultProgram, CallingSequence.resultProgram, hresult] at hprogram
    | some b =>
      have hb : s.resultProgram = b.program := by simp [CallingSequence.resultProgram, hresult]
      exact .inr ⟨a, b, rfl, rfl, hprogram, hb, hb ▸ ha⟩
  · next hprogram =>
    cases h
    exact .inl ⟨rfl, by simpa using hprogram⟩

/-! ### Downcalls -/

theorem Sink.putAll_simulates {bs : List Binding} {sinks : List Sink} {i : Nat}
    (hbs : ∀ b ∈ bs, verifyUnbox b.program b.carrier b.layout = .ok ())
    (hsinks : arguments (sink l) i (bs.map (·.program)) = .ok sinks)
    (hargs : args.map Value.carrier? = bs.map fun b => some b.carrier) :
    Simulates l Eq (Sink.putAll sinks args : Engine σ Unit)
      (Downcall.passArguments args (bs.map (·.program))) := by
  induction bs generalizing sinks args i with
  | nil =>
    cases hsinks
    cases args with
    | nil => exact .pure rfl
    | cons v vs => cases hargs
  | cons b bs ih =>
    obtain ⟨s, hs, hsinks⟩ := bind_eq_ok.1 hsinks
    obtain ⟨rest, hrest, hsinks⟩ := bind_eq_ok.1 hsinks
    cases hsinks
    cases args with
    | nil => cases hargs
    | cons v vs =>
      obtain ⟨hv, hvs⟩ := List.cons_eq_cons.1 hargs
      refine .bind (put_simulates (hbs b (by simp)) hs hv) fun _ _ _ => ?_
      exact ih (fun b' hb' => hbs b' (by simp [hb'])) hrest hvs

theorem Engine.box_nil : (Engine.box [] : Engine σ Value) = pure .void := rfl

theorem Downcall.detach_of_source {v : Value} {b : Binding} {position : ProgramPosition} {src : Source}
    (hb : verifyBox b.program b.carrier b.layout = .ok ()) (hsrc : source l position b.program = .ok src)
    (hv : v.carrier? = some b.carrier) : (detach v : Engine σ Value) = pure v := by
  obtain ⟨-, -, ⟨-, -, hcarrier⟩ | ⟨-, -, -, hcarrier⟩⟩ := source_cases hb hsrc <;>
    · rw [hcarrier] at hv
      cases v <;> first | rfl | cases hv

/-- Without a result program nothing is fetched, and no frame is needed. -/
theorem Downcall.takeResult_void (h : s.hasResultProgram = false) (name : String) (returnsAddress : Bool) :
    (takeResult name s returnsAddress none : Engine σ (Except NativeError Value)) = pure (.ok .void) := by
  have hnil : s.resultProgram = [] := by simpa [CallingSequence.hasResultProgram] using h
  unfold takeResult
  rw [hnil, Engine.box_nil]
  rfl

theorem Downcall.takeResult_simulates {source? : Option Source} (hs : s.Built)
    (hdirection : s.direction = .downcall) (hsource : result? (source l) s = .ok source?) (name : String)
    (returnsAddress : Bool) :
    Simulates l Eq (return .ok (← Source.getResult source?) : Engine σ (Except NativeError Value))
      (takeResult name s returnsAddress none) := by
  obtain ⟨rfl, hprogram⟩ | ⟨src, b, rfl, hresult, -, hprogram, hsrc⟩ := result?_eq_ok hsource
  · rw [takeResult_void hprogram]
    exact .pure rfl
  · have hb := hs.verifyBox_result hdirection b hresult
    unfold takeResult
    rw [hprogram]
    refine .bind (Source.get_simulates hb hsrc) ?_
    rintro v _ ⟨rfl, hv⟩
    simp only [detach_of_source hb hsrc hv, pure_bind]
    exact .pure rfl

/-- **A compiled downcall shows what interpreting its sequence shows.**  Native code has to leave the frame
its layout if a result is read from there. -/
theorem DirectDowncall.observe_invoke {d : DirectDowncall} (hs : s.Built) (hdirection : s.direction = .downcall)
    (hd : DirectDowncall.compile s l c settings = .ok d) {native : Native σ}
    (hnative : s.hasResultProgram = true → native.KeepsLayout l) (hargs : s.Matches args)
    (hm : m.frame.layout = l) (name : String) (returnsAddress : Bool) :
    Engine.observe (d.invoke native args) m
      = Engine.observe (Downcall.interpret name s returnsAddress native args) m := by
  obtain ⟨⟨⟩, heligible, hd⟩ := bind_eq_ok.1 hd
  obtain ⟨sinks, hsinks, hd⟩ := bind_eq_ok.1 hd
  obtain ⟨source?, hsource, hd⟩ := bind_eq_ok.1 hd
  cases hd
  have hindirect := indirect_of_checkEligible (lift_halt_eq_ok.1 heligible)
  rw [s.argumentPrograms_eq hindirect] at hsinks
  have hverified := hs.verifyUnbox_arguments hdirection
  refine Engine.observe_withScratch_of_shows (fun n hn => ?_) hm s.scratchSize
  simp only [invoke, Downcall.passResultBuffer, hindirect, pure_bind]
  refine (Sink.putAll_simulates hverified hsinks hargs).bind_shows hn fun _ _ _ k i hk => ?_
  refine Simulates.native_shows (n := { i with log := i.log.push (.downcall name) })
    ⟨hk.view, hk.layout, hk.chunks⟩ ?_
  intro r k i hview hchunks hlayout
  cases r with
  | error e => exact .ok rfl hview hchunks
  | ok _ =>
    by_cases hprogram : s.hasResultProgram = true
    · have hki : Alike l k i := ⟨hview, hlayout (hnative hprogram) rfl, hchunks⟩
      exact (Downcall.takeResult_simulates hs hdirection hsource name returnsAddress k i hki).shows
    · have hnone : source? = none := by
        obtain ⟨rfl, -⟩ | ⟨_, _, -, -, hprogram', -⟩ := result?_eq_ok hsource
        · rfl
        · exact absurd hprogram' hprogram
      rw [hnone, Downcall.takeResult_void (Bool.eq_false_iff.2 hprogram)]
      exact .ok rfl hview hchunks

/-! ### Upcalls -/

theorem Source.getAll_simulates {bs : List Binding} {sources : List Source} {i : Nat}
    (hbs : ∀ b ∈ bs, verifyBox b.program b.carrier b.layout = .ok ())
    (hsources : arguments (source l) i (bs.map (·.program)) = .ok sources) :
    Simulates l Eq (Source.getAll sources : Engine σ (List Value))
      (Upcall.takeArguments (bs.map (·.program))) := by
  induction bs generalizing sources i with
  | nil =>
    cases hsources
    exact .pure rfl
  | cons b bs ih =>
    obtain ⟨src, hsrc, hsources⟩ := bind_eq_ok.1 hsources
    obtain ⟨rest, hrest, hsources⟩ := bind_eq_ok.1 hsources
    cases hsources
    refine .bind (get_simulates (hbs b (by simp)) hsrc) ?_
    rintro v _ ⟨rfl, -⟩
    refine .bind (ih (fun b' hb' => hbs b' (by simp [hb'])) hrest) ?_
    rintro vs _ rfl
    exact .pure rfl

theorem Sink.putResult_simulates {sink? : Option Sink} {v : Value} (hs : s.Built)
    (hdirection : s.direction = .upcall) (hsink : result? (sink l) s = .ok sink?)
    (hv : v.carrier? = s.signature.result) :
    Simulates l Eq (Sink.putResult sink? v : Engine σ Unit) (Upcall.passResult s v) := by
  unfold Upcall.passResult
  obtain ⟨rfl, hprogram⟩ | ⟨snk, b, rfl, hresult, hprogram, hb, hsnk⟩ := result?_eq_ok hsink
  · rw [hprogram]
    exact .pure rfl
  · rw [hprogram, hb]
    refine put_simulates (hs.verifyUnbox_result hdirection b hresult) hsnk ?_
    simpa [CallingSequence.signature, hresult] using hv

theorem Upcall.outcome_checkResult {length : Nat} (hindirect : s.indirect = none)
    (hlength : s.resultLength = .ok length) (v : Value) :
    Engine.outcome (checkResult s v)
      = (pure (ForeignCall.checkResult s.signature.result length v) : Engine σ _) := by
  have hcarrier : s.resultCarrier = s.signature.result := by
    simp [CallingSequence.resultCarrier, CallingSequence.isIndirect, hindirect]
  rw [checkResult_eq hlength, hcarrier]
  cases ForeignCall.checkResult s.signature.result length v <;> rfl

theorem DirectUpcall.compile_eq_ok {d : DirectUpcall} (hs : s.Built) (hdirection : s.direction = .upcall)
    (hd : DirectUpcall.compile s l c settings = .ok d) :
    s.indirect = none ∧ DirectCall.arguments (source l) 0 (s.arguments.map (·.program)) = .ok d.arguments ∧
      result? (sink l) s = .ok d.result ∧ s.resultLength = .ok d.length ∧ d.expected = s.signature.result ∧
      ∀ b ∈ s.arguments, verifyBox b.program b.carrier b.layout = .ok () := by
  obtain ⟨⟨⟩, heligible, hd⟩ := bind_eq_ok.1 hd
  obtain ⟨sources, hsources, hd⟩ := bind_eq_ok.1 hd
  obtain ⟨sink?, hsink, hd⟩ := bind_eq_ok.1 hd
  obtain ⟨length, hlength, hd⟩ := bind_eq_ok.1 hd
  cases hd
  have hindirect := indirect_of_checkEligible (lift_halt_eq_ok.1 heligible)
  rw [s.argumentPrograms_eq hindirect] at hsources
  have hlength := Fault.ofOverflow_eq_ok.1 (lift_fault_eq_ok.1 hlength)
  exact ⟨hindirect, hsources, hsink, hlength, rfl, hs.verifyBox_arguments hdirection⟩

/-- The target of a compiled upcall receives what the target of an interpreted one does. -/
theorem DirectUpcall.observe_getAll {d : DirectUpcall} (hs : s.Built) (hdirection : s.direction = .upcall)
    (hd : DirectUpcall.compile s l c settings = .ok d) (hm : m.frame.layout = l) :
    Engine.observe (Source.getAll d.arguments) m
      = Engine.observe (Engine.withScratch s.scratchSize (Upcall.takeArguments s.userPrograms)) m := by
  obtain ⟨-, hsources, -, -, -, hverified⟩ := compile_eq_ok hs hdirection hd
  exact Engine.observe_withScratch (Source.getAll_simulates hverified hsources) hm s.scratchSize

/-- **A compiled upcall shows what interpreting its sequence shows.** -/
theorem DirectUpcall.observe_invoke {d : DirectUpcall} (hs : s.Built) (hdirection : s.direction = .upcall)
    (hd : DirectUpcall.compile s l c settings = .ok d) (target : Target σ) (hm : m.frame.layout = l) :
    Engine.observe (d.invoke target) m = Engine.observe (Upcall.interpret s target) m := by
  obtain ⟨hindirect, hsources, hsink, hlength, hexpected, hverified⟩ := compile_eq_ok hs hdirection hd
  refine Engine.observe_withScratch ?_ hm s.scratchSize
  simp only [invoke, Upcall.takeResultBuffer, hindirect, pure_bind,
    Upcall.outcome_checkResult hindirect hlength, hexpected]
  refine .bind (Source.getAll_simulates hverified hsources) ?_
  rintro args _ rfl
  refine .record_right (.bind (.managed _) ?_)
  rintro r _ rfl
  cases r with
  | error message => exact .pure rfl
  | ok v =>
    dsimp only
    cases hcheck : checkResult s.signature.result d.length v with
    | error e => exact .pure rfl
    | ok _ =>
      obtain ⟨_, hcarrier, -⟩ := bind_eq_ok.1 hcheck
      -- The sink needs the carrier that the check has just established.
      refine .bind (Sink.putResult_simulates hs hdirection hsink ?_) fun _ _ _ => .pure rfl
      unfold checkResultCarrier at hcarrier
      split at hcarrier
      · assumption
      · cases hcarrier

/-! ### Handles and handlers -/

theorem Engine.observe_map {α β : Type} {x y : Engine σ α} (f : α → β)
    (h : Engine.observe x m = Engine.observe y m) :
    Engine.observe (x >>= fun a => pure (f a)) m = Engine.observe (y >>= fun a => pure (f a)) m := by
  unfold Engine.observe at h ⊢
  simp only [Engine.bind_apply]
  cases hx : x m <;> cases hy : y m <;> simp_all [Engine.pure_apply]

theorem NativeFunction.call_eq_ok {run : φ → Native σ} {f : NativeFunction φ} {n : Machine σ}
    {r : Except NativeError Unit} (h : f.call run m = .ok r n) :
    ∃ k, run f.code m = .ok r k ∧ k.view = n.view := by
  obtain ⟨outcome, k, hcode, h⟩ := Engine.bind_eq_ok.1 h
  cases outcome with
  | error e =>
    cases h
    exact ⟨k, hcode, rfl⟩
  | ok _ =>
    cases h
    exact ⟨_, hcode, rfl⟩

theorem NativeFunction.keepsLayout {run : φ → Native σ} {f : NativeFunction φ}
    (h : (run f.code).KeepsLayout l) :
    Native.KeepsLayout (f.call run) l := by
  intro m n hm hrun
  obtain ⟨k, hcode, hview⟩ := call_eq_ok hrun
  rw [← (Machine.view_eq_iff.1 hview).1]
  exact h m k hm hcode

/-- Calling a linked handle shows what interpreting its sequence shows, whatever the arguments are. -/
theorem DowncallHandle.Linked.observe_invoke {h : DowncallHandle φ} {d : Descriptor}
    (hh : h.Linked c settings d) {run : φ → Native σ}
    (hrun : h.sequence.hasResultProgram = true → (run h.native.code).KeepsLayout h.layout) (args : List Value)
    (hm : m.frame.layout = h.layout) :
    Engine.observe (h.invoke run args) m = Engine.observe (h.interpret run args) m := by
  unfold invoke
  split
  · next direct hdirect =>
    obtain ⟨_, _, _, _, _, _, _, hdirection, -⟩ := arrange_eq_ok hh.sequence
    unfold interpret checked
    cases hcheck : h.sequence.checkArguments args with
    | error e => cases e <;> rfl
    | ok _ =>
      refine Engine.observe_map (x := direct.invoke (h.native.call run) args)
        (Except.mapError CallError.native) ?_
      exact DirectDowncall.observe_invoke (arrange_built hh.sequence) hdirection (hh.direct direct hdirect)
        (fun hprogram => NativeFunction.keepsLayout (hrun hprogram))
          (CallingSequence.matches_of_checkArguments hcheck)
        hm _ _
  · rfl

theorem UpcallHandler.Linked.observe_invoke {h : UpcallHandler τ} {d : Descriptor} {target : τ}
    (hh : h.Linked c settings d target) (run : τ → Target σ) (hm : m.frame.layout = h.layout) :
    Engine.observe (h.invoke run) m = Engine.observe (h.interpret run) m := by
  unfold invoke
  split
  · next direct hdirect =>
    obtain ⟨_, _, _, _, _, _, _, hdirection, -⟩ := arrange_eq_ok hh.sequence
    exact DirectUpcall.observe_invoke (arrange_built hh.sequence) hdirection (hh.direct direct hdirect) _ hm
  · rfl

/-! ### Agreement -/

/-- **Compiled downcalls agree with interpreted downcalls.**  This holds for every downcall sequence that
can be built and every frame layout for which it compiles, and so for every handle that a linker hands out,
on frames of its own layout.  Where a result is read from the frame, native code that succeeds has to hand
it back in that layout. -/
theorem direct_downcall_agrees (c : Convention) (settings : Settings) :
    (∀ (s : CallingSequence) (l : FrameLayout) (d : DirectDowncall), s.Built → s.direction = .downcall →
      DirectDowncall.compile s l c settings = .ok d →
      ∀ (σ : Type) (native : Native σ), (s.hasResultProgram = true → native.KeepsLayout l) →
      ∀ (args : List Value), s.Matches args →
      ∀ (m : Machine σ), m.frame.layout = l →
      ∀ (name : String) (returnsAddress : Bool),
        Engine.observe (d.invoke native args) m
          = Engine.observe (Downcall.interpret name s returnsAddress native args) m) ∧
    (∀ (φ τ : Type) (k k' : Linkage φ τ), k.Reachable c settings →
      ∀ (symbol : Symbol) (shape : Descriptor) (h : DowncallHandle φ),
        Linking.downcall symbol shape k = .ok h k' →
      ∀ (σ : Type) (run : φ → Native σ),
        (h.sequence.hasResultProgram = true → (run h.native.code).KeepsLayout h.layout) →
      ∀ (args : List Value) (m : Machine σ), m.frame.layout = h.layout →
        Engine.observe (h.invoke run args) m = Engine.observe (h.interpret run args) m) := by
  constructor
  · intro s l d hs hdirection hd σ native hnative args hargs m hm name returnsAddress
    exact d.observe_invoke hs hdirection hd hnative hargs hm name returnsAddress
  · intro φ τ k k' hk symbol shape h hrun σ run hcode args m hm
    exact (hk.handle_linked hrun).observe_invoke hcode args hm

/-- The successor function on System V: as a sequence that a builder puts together, and as a linked handle. -/
theorem direct_downcall_agrees_successor :
    let argument : Binding := ⟨.primitive .i64, .value .i64, [.move (.slot .integerArg 0 8) .i64]⟩
    let result : Binding := ⟨.primitive .i64, .value .i64, [.move (.slot .integerRet 0 8) .i64]⟩
    let s : CallingSequence := ⟨.downcall, [argument], some result, none, 0⟩
    let native : Native Unit := fun m => .ok (.ok ()) { m with frame := m.frame.setWord 112 42 }
    let machine (l : FrameLayout) : Machine Unit :=
      ⟨⟨l, Array.replicate l.wordCount 0, Array.size_replicate⟩, .empty, .closed, #[], ()⟩
    (∃ l d, DirectDowncall.compile s l .sysV .everything = .ok d ∧
      Engine.observe (d.invoke native [.i64 41]) (machine l)
        = Engine.observe (Downcall.interpret "successor" s true native [.i64 41]) (machine l)) ∧
    ∃ (k k' : Linkage Unit Unit) (h : DowncallHandle Unit),
      Linking.downcall ⟨"successor", BitVec.ofNat 64 Registry.firstAddress⟩ s.descriptor k = .ok h k' ∧
        Engine.observe (h.invoke (fun _ => native) [.i64 41]) (machine h.layout)
          = Engine.observe (h.interpret (fun _ => native) [.i64 41]) (machine h.layout) := by
  intro argument result s native machine
  have hnative (l : FrameLayout) : native.KeepsLayout l := by
    intro m n hm hrun
    cases hrun
    exact hm
  have hbuilt : s.Built :=
    ⟨⟨.downcall, [argument], some result, none⟩,
      .setResult (b := result) (.addArgument (b := argument) (.new .downcall) rfl) rfl, rfl⟩
  let l : FrameLayout :=
    ⟨[⟨0, 6, 8⟩, ⟨48, 8, 8⟩, ⟨112, 0, 8⟩, ⟨112, 0, 8⟩, ⟨112, 2, 8⟩, ⟨128, 2, 8⟩, ⟨144, 2, 16⟩], 176⟩
  let direct : DirectDowncall := ⟨[⟨[], 0, .i64⟩], some ⟨112, .i64, 0⟩⟩
  have harrange : arrange .sysV s.descriptor .downcall = .ok s := rfl
  have hcovering : FrameLayout.covering .sysV s.storages = .ok l :=
    FrameLayout.covering_sysV (by decide)
  have hcompile : DirectDowncall.compile s l .sysV .everything = .ok direct := rfl
  constructor
  · refine ⟨l, direct, hcompile, ?_⟩
    exact (direct_downcall_agrees .sysV .everything).1 s l _ hbuilt rfl hcompile Unit native
      (fun _ => hnative l) [.i64 41] rfl (machine l) rfl "successor" true
  · let k : Linkage Unit Unit := ⟨.new .sysV .everything, (Registry.empty.define "successor" ()).2, #[]⟩
    let h : DowncallHandle Unit := ⟨"successor", s, l, ⟨"successor", ()⟩, some direct, true⟩
    obtain ⟨k', hrun⟩ :
        ∃ k', Linking.downcall ⟨"successor", BitVec.ofNat 64 Registry.firstAddress⟩ s.descriptor k = .ok h k' :=
      Linking.downcall_of_compiles rfl harrange hcovering rfl hcompile
    refine ⟨k, k', h, hrun, ?_⟩
    exact (direct_downcall_agrees .sysV .everything).2 Unit Unit k k' (.new _ _) _ _ h hrun Unit
      (fun _ => native) (fun _ => hnative l) [.i64 41] (machine l) rfl

/-- Native code may put a frame of another convention in the place of its own.  The compiled call then
reads the word where its own layout has the result, and the interpreted one the word where the new layout
has it. -/
theorem replaced_frame_disagrees :
    let result : Binding := ⟨.primitive .i64, .value .i64, [.move (.slot .integerRet 0 8) .i64]⟩
    let s : CallingSequence := ⟨.downcall, [], some result, none, 0⟩
    let l : FrameLayout :=
      ⟨[⟨0, 6, 8⟩, ⟨48, 8, 8⟩, ⟨112, 0, 8⟩, ⟨112, 0, 8⟩, ⟨112, 2, 8⟩, ⟨128, 2, 8⟩, ⟨144, 2, 16⟩], 176⟩
    let other : FrameLayout :=
      ⟨[⟨0, 8, 8⟩, ⟨64, 8, 8⟩, ⟨128, 0, 8⟩, ⟨128, 1, 8⟩, ⟨136, 2, 8⟩, ⟨152, 4, 8⟩, ⟨184, 0, 16⟩], 184⟩
    let frame (l : FrameLayout) : Frame := ⟨l, Array.replicate l.wordCount 0, Array.size_replicate⟩
    let native : Native Unit := fun m => .ok (.ok ()) { m with frame := (frame other).setWord 136 42 }
    let m : Machine Unit := ⟨frame l, .empty, .closed, #[], ()⟩
    s.Built ∧ FrameLayout.covering .sysV s.storages = .ok l ∧
      FrameLayout.covering .aarch64 s.storages = .ok other ∧
      ∃ d, DirectDowncall.compile s l .sysV .everything = .ok d ∧
        (Engine.observe (d.invoke native []) m).1 = .ok (.ok (.i64 0)) ∧
        (Engine.observe (Downcall.interpret "replace" s true native []) m).1 = .ok (.ok (.i64 42)) := by
  intro result s l other frame native m
  have hbuilt : s.Built :=
    ⟨⟨.downcall, [], some result, none⟩, .setResult (b := result) (.new .downcall) rfl, rfl⟩
  exact ⟨hbuilt, FrameLayout.covering_sysV (by decide), FrameLayout.covering_aarch64 (by decide +kernel),
    ⟨[], some ⟨112, .i64, 0⟩⟩, rfl, by decide +kernel, by decide +kernel⟩

/-- **Compiled upcalls agree with interpreted upcalls.**  This holds for every upcall sequence that can be
built and every frame layout for which it compiles: the target receives the same arguments, and the whole
call shows the same, whatever the target does and returns.  So it does for every handler that a linker hands
out, on frames of its own layout. -/
theorem direct_upcall_agrees (c : Convention) (settings : Settings) :
    (∀ (s : CallingSequence) (l : FrameLayout) (d : DirectUpcall), s.Built → s.direction = .upcall →
      DirectUpcall.compile s l c settings = .ok d →
      ∀ (σ : Type) (m : Machine σ), m.frame.layout = l →
        Engine.observe (Source.getAll d.arguments) m
            = Engine.observe (Engine.withScratch s.scratchSize (Upcall.takeArguments s.userPrograms)) m ∧
          ∀ target : Target σ, Engine.observe (d.invoke target) m
            = Engine.observe (Upcall.interpret s target) m) ∧
    (∀ (φ τ : Type) (k k' : Linkage φ τ), k.Reachable c settings →
      ∀ (target : τ) (shape : Descriptor) (stub : UpcallStub τ),
        Linking.upcall target shape k = .ok stub k' →
      ∀ (σ : Type) (run : τ → Target σ) (m : Machine σ), m.frame.layout = stub.handler.layout →
        Engine.observe (stub.handler.invoke run) m = Engine.observe (stub.handler.interpret run) m) := by
  constructor
  · intro s l d hs hdirection hd σ m hm
    exact ⟨d.observe_getAll hs hdirection hd hm, fun target => d.observe_invoke hs hdirection hd target hm⟩
  · intro φ τ k k' hk target shape stub hrun σ run m hm
    exact (hk.handler_linked hrun).observe_invoke run hm

/-- A target that adds one, called on System V: through a sequence that a builder puts together, and as a linked
handler. -/
theorem direct_upcall_agrees_successor :
    let argument : Binding := ⟨.primitive .i64, .value .i64, [.move (.slot .integerArg 0 8) .i64]⟩
    let result : Binding := ⟨.primitive .i64, .value .i64, [.move (.slot .integerRet 0 8) .i64]⟩
    let s : CallingSequence := ⟨.upcall, [argument], some result, none, 0⟩
    let target : Target Unit := fun args => return match args with
      | [.i64 x] => .ok (.i64 (x + 1))
      | _ => .error "one argument expected"
    let machine (l : FrameLayout) : Machine Unit :=
      ⟨⟨l, Array.replicate l.wordCount 41, Array.size_replicate⟩, .empty, .closed, #[], ()⟩
    (∃ l d, DirectUpcall.compile s l .sysV .everything = .ok d ∧
      Engine.observe (Source.getAll d.arguments) (machine l)
        = Engine.observe (Engine.withScratch s.scratchSize (Upcall.takeArguments s.userPrograms)) (machine l) ∧
      Engine.observe (d.invoke target) (machine l) = Engine.observe (Upcall.interpret s target) (machine l)) ∧
    ∃ (k k' : Linkage Unit Unit) (stub : UpcallStub Unit), Linking.upcall () s.descriptor k = .ok stub k' ∧
      Engine.observe (stub.handler.invoke fun _ => target) (machine stub.handler.layout)
        = Engine.observe (stub.handler.interpret fun _ => target) (machine stub.handler.layout) := by
  intro argument result s target machine
  have hbuilt : s.Built :=
    ⟨⟨.upcall, [argument], some result, none⟩,
      .setResult (b := result) (.addArgument (b := argument) (.new .upcall) rfl) rfl, rfl⟩
  let l : FrameLayout :=
    ⟨[⟨0, 6, 8⟩, ⟨48, 8, 8⟩, ⟨112, 0, 8⟩, ⟨112, 0, 8⟩, ⟨112, 2, 8⟩, ⟨128, 2, 8⟩, ⟨144, 2, 16⟩], 176⟩
  let direct : DirectUpcall := ⟨[⟨0, .i64, 0⟩], some ⟨[], 112, .i64⟩, some (.primitive .i64), 8⟩
  have harrange : arrange .sysV s.descriptor .upcall = .ok s := rfl
  have hcovering : FrameLayout.covering .sysV s.storages = .ok l :=
    FrameLayout.covering_sysV (by decide)
  have hcompile : DirectUpcall.compile s l .sysV .everything = .ok direct := rfl
  constructor
  · refine ⟨l, direct, hcompile, ?_⟩
    obtain ⟨harguments, hcall⟩ :=
      (direct_upcall_agrees .sysV .everything).1 s l _ hbuilt rfl hcompile Unit (machine l) rfl
    exact ⟨harguments, hcall target⟩
  · let k : Linkage Unit Unit := ⟨.new .sysV .everything, .empty, #[]⟩
    let stub : UpcallStub Unit := ⟨BitVec.ofNat 64 Registry.firstAddress, ⟨s, l, (), some direct⟩⟩
    obtain ⟨k', hrun⟩ : ∃ k', Linking.upcall () s.descriptor k = .ok stub k' :=
      Linking.upcall_of_compiles rfl harrange hcovering hcompile
    refine ⟨k, k', stub, hrun, ?_⟩
    exact (direct_upcall_agrees .sysV .everything).2 Unit Unit k k' (.new _ _) () _ stub hrun Unit
      (fun _ => target) (machine l) rfl

end ForeignCall
