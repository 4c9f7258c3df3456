import ForeignCall.Proofs.DirectCall.Agreement
import ForeignCall.Proofs.Transport.Upcalls

/-!
# Results on their way

* `ResultPlan.Awaits`: a downcall has reserved a buffer for its result where the plan wants one;
* `Downcall.takeResult_yields`: a downcall gets back the value that has reached the place of its result;
* `result_round_trip`: a downcall whose native code runs the upcall of the same function on its own frame
  gives the value that the target of the upcall returns.
-/

namespace ForeignCall

variable {σ φ τ : Type} {m n : Machine σ} {m₀ : Memory} {c : Convention} {d : Descriptor}
  {down up : CallingSequence} {plan : ResultPlan} {rs : List Route} {l : Layout} {v v' : Value}
  {b : Word} {args : List Value} {buffer : Option Segment}

/-- There is a buffer at `b` if the plan returns its result in memory. -/
def ResultPlan.Awaits (buffer : Option Segment) (b : Word) : ResultPlan → Prop
  | .memory l _ _ => ∃ t, buffer = some t ∧ t.address = b ∧ t.scope = .owned ∧ l.byteSize = .ok t.length
  | _ => buffer = none

/-- What a caller gets for a value that was returned: the same scalar or address, and for an aggregate
exactly its bytes, in memory that outlives the call. -/
structure Value.Lands (l : Layout) (v : Value) (m₀ : Memory) (v' : Value) (m : Memory) : Prop where
  arrives : v.Arrives l m₀ v' m
  owned : ∀ t, v' = .segment t → t.scope = .owned

theorem Value.lands_segment {s t : Segment} {m : Memory} {size : Nat} (hsize : l.byteSize = .ok size)
    (hlength : t.length = size) (howned : t.scope = .owned)
    (hbytes : ∀ i < size, m.bytes (t.address.toNat + i) = m₀.bytes (s.address.toNat + i)) :
    Value.Lands l (.segment s) m₀ (.segment t) m := by
  refine ⟨Value.arrives_segment hsize hlength (Segment.isAlive_of_owned howned) hbytes, fun t' ht' => ?_⟩
  cases ht'
  exact howned

theorem Value.Lands.congr {m m' : Memory} (h : v.Lands l m₀ v' m) (hbytes : m'.bytes = m.bytes) :
    v.Lands l m₀ v' m' := by
  refine ⟨?_, h.owned⟩
  cases v with
  | segment s =>
    obtain ⟨t, size, rfl, hsize, hlength, hread⟩ := h.arrives
    have halive (k : Memory) : t.isAlive k = true := Segment.isAlive_of_owned (h.owned t rfl)
    refine ⟨t, size, rfl, hsize, hlength, ?_⟩
    rw [Segment.bytes_eq (halive m)] at hread
    rw [Segment.bytes_eq (halive m'), ← hread]
    unfold Memory.range
    rw [hbytes]
  | _ => exact h.arrives

/-! ### Getting a result back -/

namespace Downcall

/-- A value that is a copy in scratch memory is handed out in memory of its own. -/
theorem detach_yields (hm : m.memory.Sound) (hv : v.IsCopy l v' m₀ m) :
    Yields (detach v') m fun w n => v.Lands l m₀ w n.memory := by
  cases v with
  | segment s =>
    obtain ⟨t, size, rfl, hsize, hlength, halive, hsettled, hbytes⟩ := hv
    refine .bind (.toOwned hm halive (fun i hi hspare => hsettled i (by omega) (.inl hspare)) ?_)
    intro copy memory hscope hlength' hcopied
    refine .pure (Value.lands_segment hsize (hlength'.trans hlength) hscope fun i hi => ?_)
    exact (hcopied i (by omega)).trans (hbytes i hi)
  | _ =>
    cases hv
    exact .pure ⟨rfl, by simp⟩

/-- A value that has reached the place of the result is the result of the call.  The address that a function
returns for a result in memory is that of the buffer. -/
theorem takeResult_yields (hpaired : CallingSequence.Paired c d down up plan rs) (hd : d.result = some l)
    (hm : m.Ready) (hhas : ∀ s ∈ plan.resultStorages, m.frame.layout.Has s) (hbuffer : plan.Awaits buffer b)
    (hv : v.Fits l) (hdelivers : plan.Delivers v m₀ b m) (name : String) :
    Yields (takeResult name down c.returnsResultAddress buffer) m fun r n =>
      ∃ v', r = .ok v' ∧ v.Lands l m₀ v' n.memory := by
  have hdescribes := hpaired.describesDown
  unfold takeResult
  rcases hpaired.result_cases hd with ⟨p, rfl, hp⟩ | ⟨pointer, returned, rfl, -, hreturned⟩
  · obtain rfl := hbuffer
    have hsize : ∀ size, l.byteSize = .ok size → size + 8 < wordLimit := by
      intro size hsize
      have hle := hp.size_le size hsize
      have hlimit : 40 < wordLimit := by decide
      omega
    refine .andThen (p.box_yields hdescribes.resultProgram_storages hp.carries hhas l.alignment_le hsize hm
      hdelivers.2) ?_
    rintro returned n ⟨hn, -, hcopy⟩
    refine .andThen (detach_yields hn.ready.memory hcopy) ?_
    exact fun v' k hlands => .pure ⟨v', rfl, hlands⟩
  · obtain ⟨t, rfl, rfl, howned, hlength⟩ := hbuffer
    obtain ⟨⟨s, size, rfl, hsize, hbytes⟩, haddress⟩ := hdelivers
    have hlands : Value.Lands l (.segment s) m₀ (.segment t) m.memory :=
      Value.lands_segment hsize (ok_unique hlength hsize) howned hbytes
    rw [← hreturned, hdescribes.resultProgram_memory]
    cases returned with
    | none => exact .pure ⟨_, rfl, hlands⟩
    | some r =>
      refine .bind (.boxPointer (hhas r (by simp [ResultPlan.resultStorages])) fun log => ?_)
      rw [haddress r rfl]
      dsimp only
      rw [if_neg (by simp [Value.asAddress?])]
      exact .pure ⟨_, rfl, hlands⟩

/-! ### The whole call -/

theorem alignment_power (l : Layout) : max l.alignment 1 &&& (max l.alignment 1 - 1) = 0 := by
  rcases l.alignment_cases with h | h | h | h <;> rw [h] <;> decide

theorem passResultBuffer_yields
    (hdescribes : plan.Describes .downcall (down.indirect.map fun i => (i.pointer, i.layout)) down.result)
    (hsize : ∀ i ∈ down.indirect, i.layout.byteSize = .ok i.size) (hm : m.Ready)
    (hhas : ∀ p, plan.pointer? = some p → m.frame.layout.Has p) :
    Yields (passResultBuffer down) m fun buffer n => MovesInto plan.pointer?.toList m n ∧
      ∃ b, plan.Awaits buffer b ∧ ∀ p, plan.pointer? = some p → n.frame.wordAt p = b := by
  have hindirect := hdescribes.indirect_eq hsize
  unfold passResultBuffer
  cases plan with
  | memory l pointer returned =>
    obtain ⟨size, hsize, hindirect⟩ := hindirect
    rw [hindirect]
    refine .bind (.allocateOwned hm.memory (alignment_power l) fun t memory hnew => .bind ?_)
    have hallocated : Marshals m { m with memory := memory } := by
      refine ⟨rfl, Scratch.Sound.evolves hm hnew.memory.toExtends hnew.released, fun a ha => ?_⟩
      exact hnew.memory.bytes a fun hspare => ha (.inl hspare)
    refine .unboxPointer (hhas pointer rfl) fun n hn hword => .pure ⟨?_, t.address, ?_, fun p hp => ?_⟩
    · exact (hallocated.movesInto rfl).trans (hn.movesInto hallocated.ready)
    · exact ⟨t, rfl, rfl, hnew.scope, hnew.length ▸ hsize⟩
    · cases hp
      exact hword
  | _ =>
    rw [hindirect]
    exact .pure ⟨(Marshals.refl hm).movesInto rfl, 0, rfl, by simp [ResultPlan.pointer?]⟩

/-- **A downcall returns what native code delivers.**  Native code finds the arguments in their storages,
and the address of a result buffer in the storage for it. -/
theorem interpret_yields (hpaired : CallingSequence.Paired c d down up plan rs) (hd : d.result = some l)
    (hm : m.memory.Sound) (hss : m.frame.layout.Separates ((plan.routes rs).flatMap Route.storages))
    (hhas : ∀ s ∈ plan.resultStorages, m.frame.layout.Has s)
    (hargs : List.Forall₂ (fun v r => v.Fits r.layout) args rs)
    (hlive : ∀ s, .segment s ∈ args → s.Valid m.memory ∧ m.memory.Reserved s.address.toNat s.length)
    {native : Native σ} {returned : Value → Machine σ → Prop}
    (hnative : ∀ b k, k.frame.layout = m.frame.layout → k.world = m.world → m.memory.Grows k.memory →
      (∀ p, plan.pointer? = some p → k.frame.wordAt p = b) →
      List.Forall₂ (fun v r => r.placement.Holds r.layout v m.memory k) args rs →
      Yields native k fun r n => r = .ok () ∧ plan.Delivered l returned b k n) (name : String) :
    Yields (interpret name down c.returnsResultAddress native args) m fun r n =>
      ∃ v k v', r = .ok v' ∧ returned v k ∧ v.Lands l k.memory v' n.memory := by
  rw [plan.storages_routes rs] at hss
  obtain ⟨hpointers, hrs, hbetween⟩ := FrameLayout.separates_append.1 hss
  unfold interpret
  refine .withScratch (P := fun r n => ∃ v k v', r = .ok v' ∧ returned v k ∧
    v.Lands l k.memory v' n.memory) ?_ ?_
  · have hready : Machine.Ready { m with scratch := Scratch.new down.scratchSize } := Scratch.new_sound hm _
    have hlive₀ : ∀ s, .segment s ∈ args → s.Live { m with scratch := Scratch.new down.scratchSize } :=
      fun s hs => (hlive s hs).1.live (m := { m with scratch := Scratch.new down.scratchSize })
        (hlive s hs).2 rfl
    refine .andThen (passResultBuffer_yields hpaired.describesDown hpaired.sizeDown hready fun p hp =>
      hpointers.has p (by simp [hp])) ?_
    rintro buffer n₁ ⟨h₁, b, hbuffer, hpointer⟩
    rw [hpaired.userPrograms_down]
    have hbytes : ∀ s, .segment s ∈ args → ∀ i < s.length,
        n₁.memory.bytes (s.address.toNat + i) = m.memory.bytes (s.address.toNat + i) :=
      fun s hs i hi => h₁.marshals.bytes_settled (hlive₀ s hs).settled hi
    refine .andThen (passArguments_yields hargs hpaired.sound (by rwa [h₁.layout]) h₁.marshals.ready
      (fun s hs => (hlive₀ s hs).marshals h₁.marshals) hbytes) ?_
    rintro ⟨⟩ n₂ ⟨h₂, hheld⟩
    have hmoves := h₁.trans h₂
    have hpointer₂ : ∀ p, plan.pointer? = some p → n₂.frame.wordAt p = b := by
      intro p hp
      rw [h₂.words p, hpointer p hp]
      intro s hs
      rw [h₁.layout]
      exact (hbetween p (by simp [hp]) s hs).symm
    refine .record (.bind (.native
      (hnative b _ hmoves.layout hmoves.marshals.world (hmoves.marshals.grows rfl) hpointer₂
        (hheld.imp fun v r h => h.inNewScratch rfl rfl rfl)) ?_))
    rintro _ n ⟨rfl, hlayout, hextends, v, k, hreturned, hv, hdelivers⟩
    have hready₃ (log) : Machine.Ready { n with scratch := n₂.scratch, log := log } :=
      Scratch.Sound.extends hmoves.marshals.ready hextends
    have hlayout₃ : n.frame.layout = m.frame.layout := hlayout.trans hmoves.layout
    refine (takeResult_yields hpaired hd (hready₃ _) (by rwa [hlayout₃]) hbuffer hv
      (hdelivers.congr rfl rfl) name).mono ?_
    rintro r i ⟨v', hr, hlands⟩
    exact ⟨v, k, v', hr, hreturned, hlands⟩
  · rintro r n ⟨v, k, v', rfl, hreturned, hlands⟩
    exact ⟨v, k, v', rfl, hreturned, hlands.congr (Engine.closeScratch_bytes n)⟩

end Downcall

/-! ### Down and up again -/

/-- Native code that hands its own frame to an upcall. -/
def UpcallHandler.asNative (u : UpcallHandler τ) (run : τ → Target σ) (report : CallError → NativeError) :
    Engine σ (Except NativeError Unit) := do
  return (← u.invoke run).mapError report

/-- An upcall delivers a result on the frame of the downcall that waits for it, be it compiled or not. -/
theorem UpcallHandler.Linked.asNative_yields {settings : Settings} {u : UpcallHandler τ} {target : τ}
    (hu : u.Linked c settings d target) (hpaired : CallingSequence.Paired c d down u.sequence plan rs)
    (hd : d.result = some l) (hlayout : m.frame.layout = u.layout) (hm : m.memory.Sound)
    (hhas : ∀ s ∈ (plan.routes rs).flatMap Route.storages, m.frame.layout.Has s)
    (hss : m.frame.layout.Separates plan.resultStorages)
    (hpointer : ∀ p, plan.pointer? = some p → m.frame.wordAt p = b)
    (hheld : List.Forall₂ (fun v r => r.placement.Holds r.layout v m₀ m) args rs)
    (hsize : ∀ r ∈ rs, ∀ size, r.layout.byteSize = .ok size → size + 8 < wordLimit)
    {run : τ → Target σ} {returned : Value → Machine σ → Prop}
    (htarget : ∀ args' k, k.world = m.world → m.memory.Grows k.memory →
      List.Forall₂ (fun e v' => e.2.Arrives e.1 m₀ v' k.memory) (d.args.zip args) args' →
      Upcall.Returns l returned (run target args') k) (report : CallError → NativeError) :
    Yields (u.asNative run report) m fun r n => r = .ok () ∧ plan.Delivered l returned b m n := by
  have hinterpret : Yields (u.interpret run) m fun r n => r = .ok () ∧ plan.Delivered l returned b m n := by
    unfold interpret
    rw [hu.target]
    exact Upcall.interpret_yields hpaired hd hm hhas hss hpointer hheld hsize htarget
  -- What has been delivered shows in the frame and the memory of a machine.
  let shown (r : Except CallError Unit) (w : View σ) : Prop :=
    r = .ok () ∧ plan.Delivered l returned b m ⟨w.frame, w.memory, Scratch.closed, #[], w.world⟩
  have hinvoke : Yields (u.invoke run) m fun r n => shown r n.view := by
    refine .of_observe (hu.observe_invoke run hlayout) (hinterpret.mono ?_)
    rintro r n ⟨hr, hlayout, hextends, v, k, hreturned, hv, hdelivers⟩
    exact ⟨hr, hlayout, hextends, v, k, hreturned, hv, hdelivers.congr rfl rfl⟩
  refine .andThen hinvoke ?_
  rintro _ n ⟨rfl, hlayout, hextends, v, k, hreturned, hv, hdelivers⟩
  exact .pure ⟨rfl, hlayout, hextends, v, k, hreturned, hv, hdelivers.congr rfl rfl⟩

/-- **Result transport is lossless.**  A downcall whose native code hands its own frame to the upcall of the
same function returns what the target of the upcall returns: the same scalar or address, and for an
aggregate exactly its bytes, in memory that outlives the call. -/
theorem result_round_trip {settings settings' : Settings} {j j' k k' : Linkage φ τ}
    {symbol : Symbol} {target : τ} {h : DowncallHandle φ} {u : UpcallStub τ} (hj : j.Reachable c settings)
    (hdown : Linking.downcall symbol d j = .ok h j') (hk : k.Reachable c settings')
    (hup : Linking.upcall target d k = .ok u k') (hd : d.result = some l)
    (hstack : h.sequence.stackMoves ≤ 65536) {run : φ → Native σ} {runTarget : τ → Target σ}
    {report : CallError → NativeError} (hnative : run h.native.code = u.handler.asNative runTarget report)
    (hlayout : m.frame.layout = h.layout) (hm : m.memory.Sound)
    (hargs : h.sequence.checkArguments args = .ok ())
    (hlive : ∀ s, .segment s ∈ args → s.Valid m.memory ∧ m.memory.Reserved s.address.toNat s.length)
    {returned : Value → Machine σ → Prop}
    (htarget : ∀ args' i, i.world = m.world → m.memory.Grows i.memory →
      List.Forall₂ (fun e v' => e.2.Arrives e.1 m.memory v' i.memory) (d.args.zip args) args' →
      Upcall.Returns l returned (runTarget target args') i) :
    Yields (h.interpret run args) m fun r n => ∃ v i v', r = .ok v' ∧ returned v i ∧
      v.Lands l i.memory v' n.memory := by
  have hh := hj.handle_linked hdown
  have hu := hk.handler_linked hup
  obtain ⟨plan, rs, hpaired⟩ := arrange_paired hh.sequence hu.sequence
  have hframe := hh.layout
  have hframe' := hu.layout
  rw [← hpaired.storages_eq] at hframe'
  have hlayouts : u.handler.layout = h.layout := ok_unique hframe' hframe
  have hss := hpaired.inFrame hframe hstack
  have hss' := hpaired.inFrame_result hframe hd
  rw [← hlayout] at hss hss'
  have hfits : List.Forall₂ (fun v r => v.Fits r.layout) args rs := by
    have hcovers := CallingSequence.checkArguments_eq_ok hargs
    rw [hpaired.argumentsDown, List.forall₂_map_right_iff] at hcovers
    exact hcovers.imp fun v r hv => ⟨hv.carrier, hv.length⟩
  have hsizes : ∀ r ∈ rs, ∀ size, r.layout.byteSize = .ok size → size + 8 < wordLimit := by
    have hready : Machine.Ready { m with scratch := Scratch.new 0 } := Scratch.new_sound hm 0
    refine sizes_lt hfits (fun s hs => ?_) hready
    obtain ⟨hvalid, hreserved⟩ := hlive s hs
    exact Segment.Valid.live hvalid hreserved rfl
  have hcall : Yields (Downcall.interpret h.name h.sequence c.returnsResultAddress (h.native.call run) args) m
      fun r n => ∃ v i v', r = .ok v' ∧ returned v i ∧ v.Lands l i.memory v' n.memory := by
    refine Downcall.interpret_yields hpaired hd hm hss hss'.has hfits hlive ?_ h.name
    intro b i hi hworld hgrows hpointer hheld
    rw [← hi] at hss hss'
    have hdelivered : Yields (u.handler.asNative runTarget report) i fun r n =>
        r = .ok () ∧ plan.Delivered l returned b i n := by
      refine hu.asNative_yields hpaired hd (hi.trans (hlayout.trans hlayouts.symm)) hgrows.sound hss.has hss'
        hpointer hheld hsizes ?_ report
      intro args' i' hworld' hgrows'
      exact htarget args' i' (hworld'.trans hworld) (hgrows.trans hgrows')
    unfold NativeFunction.call
    rw [hnative]
    refine .andThen hdelivered ?_
    rintro _ n ⟨rfl, hresult⟩
    exact .pure ⟨rfl, hresult⟩
  unfold DowncallHandle.interpret DowncallHandle.checked
  rw [hargs, hh.returnsResultAddress]
  refine .bind (.pure (.andThen hcall ?_))
  rintro _ n ⟨v, i, v', rfl, hv'⟩
  exact .pure ⟨v, i, v', rfl, hv'⟩

/-- A structure of three words on System V, whose address comes back in a register. -/
theorem result_round_trip_in_memory :
    let triple : Layout := .struct [.value .i64, .value .i64, .value .i64]
    let d : Descriptor := ⟨[.value .i8], some triple⟩
    let s : Segment := .global (BitVec.ofNat 64 Memory.firstAddress) 24
    let memory : Memory := ⟨fun a => BitVec.ofNat 8 a, Memory.firstAddress + 24, []⟩
    let symbol : Symbol := ⟨"make", BitVec.ofNat 64 Registry.firstAddress⟩
    let k : Linkage Unit Value := ⟨.new .sysV .everything, (Registry.empty.define "make" ()).2, #[]⟩
    let runTarget : Value → Target Unit := fun v _ => pure (.ok v)
    ∃ h u j' k', Linking.downcall symbol d k = .ok h j' ∧ Linking.upcall (.segment s) d k = .ok u k' ∧
      let run : Unit → Native Unit := fun _ => u.handler.asNative runTarget fun e => ⟨e.text⟩
      let m : Machine Unit :=
        ⟨⟨h.layout, Array.replicate h.layout.wordCount 0, Array.size_replicate⟩, memory, .closed, #[], ()⟩
      ∃ t n, h.interpret run [.i8 200] m = .ok (.ok (.segment t)) n ∧ t.scope = .owned ∧
        t.bytes n.memory = .ok (memory.range s.address.toNat 24) := by
  intro triple d s memory symbol k runTarget
  let argument : Binding := ⟨.primitive .i8, .value .i8, [.move (.slot .integerArg 1 8) .i8]⟩
  let down : CallingSequence := ⟨.downcall, [argument],
    some ⟨.address, .address, [.move (.slot .integerRet 0 8) .i64, .boxAddress]⟩,
    some ⟨[.boxAddress, .move (.slot .integerArg 0 8) .i64], triple, 24⟩, 0⟩
  let up : CallingSequence := ⟨.upcall, [argument],
    some ⟨.address, .address, [.boxAddress, .move (.slot .integerRet 0 8) .i64]⟩,
    some ⟨[.move (.slot .integerArg 0 8) .i64, .boxAddress], triple, 24⟩, 0⟩
  let l : FrameLayout :=
    ⟨[⟨0, 6, 8⟩, ⟨48, 8, 8⟩, ⟨112, 0, 8⟩, ⟨112, 0, 8⟩, ⟨112, 2, 8⟩, ⟨128, 2, 8⟩, ⟨144, 2, 16⟩], 176⟩
  let h : DowncallHandle Unit := ⟨"make", down, l, ⟨"make", ()⟩, none, true⟩
  let u : UpcallStub Value :=
    ⟨BitVec.ofNat 64 (Registry.firstAddress + Registry.addressStep), ⟨up, l, .segment s, none⟩⟩
  obtain ⟨j', hrun⟩ : ∃ j', Linking.downcall symbol d k = .ok h j' :=
    Linking.downcall_of_compiles rfl rfl (FrameLayout.covering_sysV (by decide)) rfl ⟨_, rfl⟩
  obtain ⟨k', hrun'⟩ : ∃ k', Linking.upcall (.segment s) d k = .ok u k' :=
    Linking.upcall_of_compiles rfl rfl (FrameLayout.covering_sysV (by decide)) ⟨_, rfl⟩
  refine ⟨h, u, j', k', hrun, hrun', ?_⟩
  intro run m
  have hsize : triple.byteSize = .ok 24 := by cbv
  have hfits : (Value.segment s).Fits triple := by
    refine ⟨rfl, fun t ht => ⟨24, hsize, ?_⟩⟩
    cases ht
    exact Nat.le_refl 24
  have hmemory : memory.Sound := ⟨by decide, by simp [memory]⟩
  let returned (v : Value) (i : Machine Unit) : Prop :=
    v = .segment s ∧ i.memory.range s.address.toNat 24 = memory.range s.address.toNat 24
  have htarget : ∀ args' (i : Machine Unit), i.world = m.world → memory.Grows i.memory →
      List.Forall₂ (fun e v' => e.2.Arrives e.1 memory v' i.memory) (d.args.zip [Value.i8 200]) args' →
      Upcall.Returns triple returned (runTarget (.segment s) args') i := by
    rintro args' i - hgrows -
    refine .pure ⟨.segment s, rfl, hfits, fun t ht => ?_, .refl hgrows.sound, rfl, ?_⟩
    · cases ht
      exact ⟨rfl, by decide⟩
    · unfold Memory.range
      refine List.map_congr_left fun o ho => hgrows.bytes _ fun hspare => ?_
      exact absurd hspare.1 (Nat.not_le.2 (Nat.add_lt_add_left (List.mem_range.1 ho) Memory.firstAddress))
  have hcall : Yields (h.interpret run [.i8 200]) m fun r n => ∃ v i v', r = .ok v' ∧ returned v i ∧
      v.Lands triple i.memory v' n.memory :=
    result_round_trip (.new _ _) hrun (.new _ _) hrun' rfl (by decide) rfl rfl hmemory rfl (by simp) htarget
  obtain ⟨v, n, hinterpret⟩ :=
    Engine.exists_value_of_observe (x := h.interpret run [.i8 200]) (m := m) (by decide +kernel)
  obtain ⟨_, i, v', heq, ⟨rfl, hbytes⟩, ⟨t, size, rfl, hsize', -, hread⟩, howned⟩ := hcall.at_ok hinterpret
  cases heq
  obtain rfl := ok_unique hsize hsize'
  exact ⟨t, n, hinterpret, howned t rfl, hbytes ▸ hread⟩

end ForeignCall
