import ForeignCall.Proofs.Arrangement.Locations
import ForeignCall.Proofs.Arrangement.Singles
import ForeignCall.Proofs.Calls.ScratchLife
import ForeignCall.Proofs.Calls.Totality
import ForeignCall.Proofs.DirectCall.Deciding

/-!
# What calls leave alone

* `Touches ss m n`: `n` comes from `m` by touching the storages and new memory of the arena only;
* `CallingSequence.WritesThrough`: what native code does that writes through its arguments by reference;
* `Downcall.body_kept`: a downcall of such code changes no byte that its caller has reserved;
* `arrange_refers`: what AArch64 passes by reference is found by native code, with few enough moves through
  the stack;
* `marshalling_confined`: all of this for programs, verified or not, and for the handles of a linker;
* `crowded_overwrites`: with more moves, the address of a copy gets lost, and native code that writes
  through it changes the memory of its caller.
-/

namespace ForeignCall

variable {σ φ τ : Type} {m n k : Machine σ} {c : Convention} {d : Descriptor} {s : CallingSequence}
  {l : FrameLayout} {settings : Settings} {ss : List Storage} {requests : List (Nat × Nat)}
  {given : List Segment} {args : List Value} {buffer : Option Segment} {native : Native σ} {r : Storage}
  {size a : Nat}

/-! ### Programs -/

/-- `n` comes from `m` by touching the storages, and memory that the arena has issued meanwhile.  What was
alive keeps its contents. -/
structure Touches (ss : List Storage) (m n : Machine σ) : Prop where
  carves : ∃ requests given, Carves ss requests given m n ∧ Keeps given m n
  live : ∀ t : Segment, t.Live m → t.Live n ∧
    ∀ i < t.length, n.memory.bytes (t.address.toNat + i) = m.memory.bytes (t.address.toNat + i)

theorem Carves.touches (h : Carves ss requests given m n) (hm : m.Ready) : Touches ss m n :=
  ⟨⟨requests, given, h, h.keeps hm⟩, fun _ ht => (h.keeps hm).live h.world ht⟩

/-! ### Native code that writes through references -/

/-- `k'` comes from `k` by code that may reserve memory and fill it, but changes nothing that was reserved
before except for the copies that the arguments of the sequence refer to. -/
structure CallingSequence.WritesThrough (s : CallingSequence) (k k' : Machine σ) : Prop where
  memory : k.memory.Extends k'.memory
  bytes : ∀ a, k.memory.Reserved a 1 →
    (∀ r size, Refers k.frame.layout r size s.userPrograms →
      ¬ ((k.frame.wordAt r).toNat ≤ a ∧ a < (k.frame.wordAt r).toNat + size)) →
    k'.memory.bytes a = k.memory.bytes a

theorem NativeFunction.call_writesThrough {run : φ → Native σ} {f : NativeFunction φ}
    (h : Ends (run f.code) k fun _ k' => s.WritesThrough k k') :
    Ends (f.call run) k fun _ k' => s.WritesThrough k k' := by
  refine h.andThen (fun outcome k' hk' => ?_) fun _ _ hk' => hk'
  cases outcome with
  | error e => exact .record (.pure ⟨hk'.memory, hk'.bytes⟩)
  | ok _ => exact .pure hk'

namespace Downcall

/-- From the native code on, a call changes no byte that is settled and lies outside of the copies. -/
theorem answer_kept (hk : k.Ready) (hbuffer : ∀ b ∈ buffer, b.scope = .owned)
    (hnative : Ends native { k with scratch := Scratch.closed, log := #[] } fun _ k' =>
      s.WritesThrough { k with scratch := Scratch.closed, log := #[] } k')
    (ha : k.memory.Reserved a 1) (hsettled : ¬ k.scratch.Spare k.memory a)
    (hout : ∀ r size, Refers k.frame.layout r size s.userPrograms →
      ¬ ((k.frame.wordAt r).toNat ≤ a ∧ a < (k.frame.wordAt r).toNat + size)) (name : String)
      (returnsAddress : Bool) :
    Ends (answer name s returnsAddress native buffer) k fun _ n => n.memory.bytes a = k.memory.bytes a := by
  have hcalled : Ends (Engine.native native) k fun _ n =>
      n.scratch = k.scratch ∧ k.memory.Extends n.memory ∧ n.memory.bytes a = k.memory.bytes a :=
    .native hnative fun _ k' hk' => ⟨rfl, hk'.memory, hk'.bytes a ha hout⟩
  refine hcalled.andThen ?_ fun _ n hn => hn.2.2
  rintro outcome n ⟨hscratch, hext, hbytes⟩
  cases outcome with
  | error e => exact .pure hbytes
  | ok _ =>
    have hn : n.Ready := by
      unfold Machine.Ready
      rw [hscratch]
      exact Scratch.Sound.extends hk hext
    refine (takeResult_footprint hbuffer name returnsAddress n).mono ?_
    rintro r i ⟨_, _, hi, -⟩
    rw [(hi.keeps hn).bytes_settled fun hspare => hsettled ((hscratch ▸ hspare).of_extends hext), hbytes]

/-- **A call changes no byte that is reserved by its caller**, if its native code writes through its
arguments by reference. -/
theorem body_kept (hlength : args.length = s.arguments.length) (hm : m.Ready)
    (hnative : ∀ k : Machine σ, k.frame.layout = m.frame.layout → k.memory.Sound →
      Ends native k fun _ k' => s.WritesThrough k k')
    (ha : m.memory.Reserved a 1) (hsettled : ¬ m.scratch.Spare m.memory a) (name : String)
    (returnsAddress : Bool) :
    Ends (body name s returnsAddress native args) m fun _ n => n.memory.bytes a = m.memory.bytes a := by
  have hsend := send_footprint hlength name m
  refine .bind_of (fun buffer k hrun => ?_) fun e k hrun => ?_
  · obtain ⟨_, given, hk, -, hfound⟩ := hsend.of_ok hrun
    obtain ⟨hbuffer, hpoints⟩ := hfound buffer rfl
    have hkeeps := hk.keeps hm
    rw [← hkeeps.bytes_settled hsettled]
    refine answer_kept hkeeps.evolves.sound hbuffer (hnative _ hk.layout hkeeps.evolves.sound.memory)
      (ha.mono hkeeps.evolves.top_le) (fun hspare => hsettled (hkeeps.evolves.spare a hspare)) ?_
      name returnsAddress
    -- The copies are new memory of the arena.
    intro r size hrefers hholds
    rw [hk.layout] at hrefers
    obtain ⟨t, ht, hword, hsize⟩ := hpoints r size hrefers
    rw [hword, ← hsize] at hholds
    exact hsettled (hkeeps.fresh t ht a hholds)
  · obtain ⟨_, _, hk, -⟩ := hsend.of_error hrun
    exact (hk.keeps hm).bytes_settled hsettled

end Downcall

theorem DowncallHandle.interpret_kept {h : DowncallHandle φ} {run : φ → Native σ} (hm : m.memory.Sound)
    (hnative : ∀ k : Machine σ, k.frame.layout = m.frame.layout → k.memory.Sound →
      Ends (run h.native.code) k fun _ k' => h.sequence.WritesThrough k k') (ha : m.memory.Reserved a 1) :
    Ends (h.interpret run args) m fun _ n => n.memory.bytes a = m.memory.bytes a := by
  refine (h.interpret_ran run args m).mono ?_
  rintro r n (⟨-, rfl, -⟩ | ⟨hcheck, r', k, -, hran⟩)
  · rfl
  have hready : Machine.Ready { m with scratch := Scratch.new h.sequence.scratchSize } := Scratch.new_sound hm _
  have hsettled : ¬ (Scratch.new h.sequence.scratchSize).Spare m.memory a := by
    rw [Scratch.spare_iff rfl]
    rcases ha with hle | hle <;> omega
  rw [hran.machine, Engine.closeScratch_bytes]
  exact (Downcall.body_kept (CallingSequence.checkArguments_eq_ok hcheck).length_eq hready
    (fun k hk hk' => NativeFunction.call_writesThrough (hnative k hk hk')) ha hsettled ..).finishes hran.body

/-! ### Linked handles -/

/-- A call that passes an argument by reference is not compiled. -/
theorem DowncallHandle.Linked.invoke_of_refers {h : DowncallHandle φ} (hh : h.Linked c settings d)
    (hrefers : Refers l r size h.sequence.userPrograms) (run : φ → Native σ) (args : List Value) :
    h.invoke run args = h.interpret run args := by
  refine h.invoke_of_direct (Option.eq_none_iff_forall_not_mem.2 fun direct hdirect => ?_) run args
  obtain ⟨⟨⟩, heligible, -⟩ := bind_eq_ok.1 (hh.direct direct hdirect)
  obtain ⟨-, -, -, harguments, -⟩ := checkEligible_eq_ok.1 (lift_halt_eq_ok.1 heligible)
  obtain ⟨p, hp, href⟩ := hrefers.exists_mem
  obtain ⟨b, hb, rfl⟩ := List.mem_map.1 hp
  obtain ⟨alignment, hprogram⟩ := Program.reference?_eq_some href
  obtain ⟨_, -, hb⟩ := harguments b hb
  rw [hprogram] at hb
  exact hb.steps (.copy size alignment) (by simp)

theorem Placed.reference? {cursor last : Cursor} {ls : List Layout} {placements : List Placement}
    {bindings : List Binding} (h : Placed c true cursor ls placements bindings last) :
    ∀ b ∈ bindings, c.copies b.layout = true →
      ∃ r size, b.layout.byteSize = .ok size ∧ b.program.reference? = some (r, size) := by
  induction h with
  | nil => simp
  | @cons _ _ _ l _ placement _ _ _ hplace hprogram _ ih =>
    refine List.forall_mem_cons.2 ⟨fun hcopies => ?_, ih⟩
    cases placement with
    | reference storage =>
      obtain ⟨copy, hcopy, hprogram⟩ := bind_eq_ok.1 hprogram
      cases hprogram
      obtain ⟨size, hsize, rfl⟩ := Step.copyOf_eq_ok hcopy
      exact ⟨storage, size, hsize, rfl⟩
    | _ => cases (Convention.place_isReference hplace).trans hcopies

theorem Placed.requests_eq_nil {cursor last : Cursor} {ls : List Layout} {placements : List Placement}
    {bindings : List Binding} (h : Placed c true cursor ls placements bindings last) :
    ∀ b ∈ bindings, c.copies b.layout = false → b.program.requests = [] := by
  induction h with
  | nil => simp
  | cons hplace hprogram _ ih =>
    refine List.forall_mem_cons.2 ⟨fun hcopies => Placement.requests_unboxing ?_ hprogram, ih⟩
    rintro storage rfl
    cases (Convention.place_isReference hplace).trans hcopies

/-- **What goes by reference is found in the frame**, as long as the moves through the stack are no more
than indices of 16 bits. -/
theorem arrange_refers (h : arrange c d .downcall = .ok s) (hl : FrameLayout.covering c s.storages = .ok l)
    (hstack : s.stackMoves ≤ 65536) :
    ∀ b ∈ s.arguments, c.copies b.layout = true → ∃ r size, b.layout.byteSize = .ok size ∧
      b.program.reference? = some (r, size) ∧ Refers l r size s.userPrograms := by
  obtain ⟨_, _, _, _, -, hplaced, -⟩ := arrange_eq_ok h
  have hcount : Storage.count .stack (Program.storages s.argumentPrograms.flatten) ≤ s.stackMoves := by
    show _ ≤ Storage.count .stack (Program.storages (s.argumentPrograms.flatten ++ s.resultProgram))
    rw [Program.storages_append, Storage.count_append]
    exact Nat.le_add_right _ _
  have hapart := ((arrange_numbers h).1.pairwise_iff.2 (by omega)).imp fun hst =>
    FrameLayout.withStackSlots_apart hl hst
  rw [CallingSequence.argumentPrograms, List.flatten_append, Program.storages_append,
    List.pairwise_append] at hapart
  intro b hb hcopies
  obtain ⟨r, size, hsize, href⟩ := hplaced.reference? b hb hcopies
  exact ⟨r, size, hsize, href, .of_apart hapart.2.1 (List.mem_map_of_mem hb) href⟩

/-- **Marshalling touches only what it names.**  Taking a value apart writes the storages of its program and
new memory of the arena, whatever the program and the outcome.  Putting a value together writes new memory
of the arena only.  What was alive before keeps its contents.  So a call changes nothing that its caller has
reserved, if its native code writes through its arguments by reference.  A call that has any is never
compiled, and every large aggregate of AArch64 is one unless the stack has more slots than there are
indices. -/
theorem marshalling_confined {j : Linkage φ τ} (hj : j.Reachable c settings) (d : Descriptor) (m : Machine σ) :
    (m.Ready → ∀ (v : Value) (p : Program),
      Ends (Engine.unbox v p) m (fun _ n => Touches p.storages m n) ∧ Ends (Engine.box p) m fun _ n =>
        Touches [] m n) ∧
    ∀ symbol h j', Linking.downcall symbol d j = .ok h j' →
      (m.memory.Sound → ∀ run : φ → Native σ,
        (∀ k : Machine σ, k.frame.layout = m.frame.layout → k.memory.Sound →
          Ends (run h.native.code) k fun _ k' => h.sequence.WritesThrough k k') →
        ∀ args a, m.memory.Reserved a 1 →
          Ends (h.interpret run args) m fun _ n => n.memory.bytes a = m.memory.bytes a) ∧
      (∀ l r size, Refers l r size h.sequence.userPrograms →
        ∀ (run : φ → Native σ) (args : List Value), h.invoke run args = h.interpret run args) ∧
      (h.sequence.stackMoves ≤ 65536 → ∀ b ∈ h.sequence.arguments, c.copies b.layout = true →
        ∃ r size, b.layout.byteSize = .ok size ∧ b.program.reference? = some (r, size) ∧
          Refers h.layout r size h.sequence.userPrograms) := by
  refine ⟨fun hm v p => ⟨(Engine.unbox_footprint v p m).mono ?_, (Engine.box_footprint p m).mono ?_⟩, ?_⟩
  · rintro _ n ⟨_, _, hn, -⟩
    exact hn.touches hm
  · rintro _ n ⟨_, _, hn, -⟩
    exact hn.touches hm
  · intro symbol h j' hlinked
    have hh := hj.handle_linked hlinked
    refine ⟨fun hm run hnative args a ha => DowncallHandle.interpret_kept hm hnative ha,
      fun l r size hrefers run args => hh.invoke_of_refers hrefers run args, fun hstack => ?_⟩
    exact arrange_refers hh.sequence hh.layout hstack

/-- A function on AArch64 that writes over the copy of its argument. -/
theorem marshalling_confined_by_reference :
    let d : Descriptor := ⟨[.padding 24], none⟩
    let symbol : Symbol := ⟨"scribble", BitVec.ofNat 64 Registry.firstAddress⟩
    let j : Linkage Unit Unit := ⟨.new .aarch64 .everything, (Registry.empty.define "scribble" ()).2, #[]⟩
    let argument : Storage := .slot .integerArg 0 8
    let s : CallingSequence :=
      ⟨.downcall, [⟨.segment, .padding 24, [.copy 24 1, .baseAddress, .boxAddress, .move argument .i64]⟩],
        none, none, 24⟩
    let l : FrameLayout :=
      ⟨[⟨0, 8, 8⟩, ⟨64, 8, 8⟩, ⟨128, 0, 8⟩, ⟨128, 1, 8⟩, ⟨136, 2, 8⟩, ⟨152, 4, 8⟩, ⟨184, 0, 16⟩], 184⟩
    let h : DowncallHandle Unit := ⟨"scribble", s, l, ⟨"scribble", ()⟩, none, false⟩
    let run : Unit → Native Unit := fun _ k =>
      .ok (.ok ()) { k with memory := k.memory.store (k.frame.wordAt argument).toNat 8 0xffffffffffffffff }
    let m : Machine Unit := ⟨⟨l, Array.replicate l.wordCount 0, Array.size_replicate⟩, .empty, .closed, #[], ()⟩
    (∃ j', Linking.downcall symbol d j = .ok h j') ∧
    ∃ v n, h.invoke run [.segment (Segment.global 4096 24)] m = .ok (.ok v) n ∧
      ∀ i < 24, n.memory.bytes (4096 + i) = m.memory.bytes (4096 + i) := by
  intro d symbol j argument s l h run m
  obtain ⟨j', hrun⟩ : ∃ j', Linking.downcall symbol d j = .ok h j' :=
    Linking.downcall_of_compiles rfl rfl (FrameLayout.covering_aarch64 (by decide)) rfl ⟨_, rfl⟩
  have hrefers (k : FrameLayout) : Refers k argument 24 s.userPrograms := .here rfl (by simp [Program.storages])
  have hm : m.memory.Sound := ⟨by decide, by simp [m, Memory.empty]⟩
  have hnative : ∀ k : Machine Unit, k.frame.layout = l → k.memory.Sound →
      Ends (run ()) k fun _ k' => s.WritesThrough k k' := by
    intro k _ hk
    refine ⟨⟨⟨hk.top_le, hk.released_lt⟩, Nat.le_refl _, fun _ hb => .inl hb⟩, fun a _ hout => ?_⟩
    have hcopy := hout argument 24 (hrefers _)
    rw [Memory.bytes_store, if_neg (by omega)]
  obtain ⟨v, n, hinvoke⟩ :=
    Engine.exists_value_of_observe (x := h.invoke run [.segment (Segment.global 4096 24)]) (m := m)
      (by decide +kernel)
  refine ⟨⟨j', hrun⟩, v, n, hinvoke, fun i hi => ?_⟩
  obtain ⟨hkept, hinterpreted, -⟩ := (marshalling_confined (.new _ _) d m).2 symbol h j' hrun
  rw [hinterpreted l argument 24 (hrefers l)] at hinvoke
  have htop : 4096 + 24 < m.memory.top := by decide
  have hreserved : m.memory.Reserved (4096 + i) 1 := .inl (by omega)
  exact (hkept hm run hnative [.segment (Segment.global 4096 24)] (4096 + i) hreserved).of_ok hinvoke

/-! ### A stack slot that is taken twice -/

namespace Descriptor

/-- Words in the integer registers, an aggregate by reference in the first stack slot, `n` more words, and
an address. -/
def crowded (n : Nat) : Descriptor :=
  ⟨List.replicate 8 (.value .i64) ++ .padding 24 :: (List.replicate n (.value .i64) ++ [.address]), none⟩

/-- Zeros, a segment of the caller, and the address of that segment once more. -/
def crowdedArguments (caller : Segment) (n : Nat) : List Value :=
  List.replicate 8 (.i64 0) ++ .segment caller :: (List.replicate n (.i64 0) ++ [.address caller.address])

variable {caller t : Segment} {layout : Layout} {i : Nat}

theorem mem_crowded (h : layout ∈ (crowded i).args) :
    layout = .value .i64 ∨ layout = .padding 24 ∨ layout = .address := by
  simp only [crowded, List.mem_append, List.mem_cons, List.mem_replicate, List.not_mem_nil, or_false] at h
  tauto

theorem single_crowded (h : layout ∈ (crowded i).args) : ∃ placement, AArch64.Single layout placement := by
  obtain rfl | rfl | rfl := mem_crowded h
  · exact ⟨_, AArch64.single_i64⟩
  · exact ⟨_, AArch64.single_padding (by decide)⟩
  · exact ⟨_, AArch64.single_address⟩

theorem crowdedArguments_fit (h : 24 ≤ caller.length) (i : Nat) :
    List.Forall₂ Value.Fits (crowdedArguments caller i) (crowded i).args := by
  have hwords (k : Nat) : List.Forall₂ Value.Fits (List.replicate k (.i64 0))
      (List.replicate k (.value .i64)) := by
    induction k with
    | zero => exact .nil
    | succ k ih => exact .cons ⟨rfl, by simp⟩ ih
  refine List.rel_append (hwords 8) (.cons ⟨rfl, fun t ht => ⟨24, rfl, ?_⟩⟩ ?_)
  · cases ht
    exact h
  · exact List.rel_append (hwords i) (.cons ⟨rfl, by simp⟩ .nil)

theorem mem_crowdedArguments (h : .segment t ∈ crowdedArguments caller i) : t = caller := by
  simpa [crowdedArguments] using h

end Descriptor

open Descriptor

theorem exists_arrange_crowded (i : Nat) :
    ∃ s, arrange .aarch64 (crowded i) .downcall = .ok s ∧ s.scratchSize = 24 := by
  have hsized : (crowded i).Sized := by
    refine ⟨fun l hl => ?_, by simp [crowded]⟩
    obtain rfl | rfl | rfl := mem_crowded hl
    · exact ⟨8, rfl, by decide⟩
    · exact ⟨24, rfl, by decide⟩
    · exact ⟨8, rfl, by decide⟩
  have hsupports : Convention.aarch64.Supports (crowded i) := by
    refine ⟨fun l hl => ?_, by simp [crowded]⟩
    obtain rfl | rfl | rfl := mem_crowded hl
    · exact nofun
    · exact (Layout.forall_size_iff rfl rfl).2 (by decide)
    · exact nofun
  have hscratch : Convention.aarch64.scratch (crowded i) .downcall = 24 := by
    have hword : Convention.aarch64.argumentScratch true (.value .i64) = 0 := by decide
    have haddress : Convention.aarch64.argumentScratch true .address = 0 := by decide
    have hpadding : Convention.aarch64.argumentScratch true (.padding 24) = 24 := by cbv
    simp [Convention.scratch, crowded, Direction.unboxesArguments, hword, haddress, hpadding]
  obtain ⟨s, hsize, hs⟩ := arrange_of_supports hsized hsupports .downcall
  rw [hscratch, if_pos (by decide)] at hs
  exact ⟨s, hs, hsize.trans hscratch⟩

/-- The moves of a crowded call through its first and its last stack slot. -/
theorem arrange_crowded {i : Nat} (hs : arrange .aarch64 (crowded i) .downcall = .ok s) :
    ∃ before b between last, s.arguments = before ++ b :: (between ++ [last]) ∧ before.length = 8 ∧
      between.length = i ∧
      (∀ b' ∈ before ++ between, b'.layout = .value .i64) ∧
      b.program = [.copy 24 1, .baseAddress, .boxAddress, .move (Convention.stackSlot 0) .i64] ∧
      last.program = scalarProgram .address (Convention.stackSlot (i + 1)) true := by
  obtain ⟨_, _, _, _, hplan, hplaced, -, -, -⟩ := arrange_eq_ok hs
  cases hplan
  have hlayouts := hplaced.layouts
  have hsingle : ∀ b ∈ s.arguments, ∃ placement, AArch64.Single b.layout placement := fun b hb =>
    single_crowded (hlayouts ▸ List.mem_map_of_mem hb)
  have hstart : (Cursor.arguments .aarch64).freeIntegers = 8 ∧
      (Cursor.arguments .aarch64).stack = 0 := ⟨rfl, rfl⟩
  obtain ⟨before, rest, harguments, hbefore, hrest⟩ := List.map_eq_append_iff.1 hlayouts
  obtain ⟨b, rest, rfl, hb, hrest⟩ := List.map_eq_cons_iff.1 hrest
  obtain ⟨between, rest, rfl, hbetween, hrest⟩ := List.map_eq_append_iff.1 hrest
  obtain ⟨last, rest, rfl, hlast, hrest⟩ := List.map_eq_cons_iff.1 hrest
  obtain rfl := List.map_eq_nil_iff.1 hrest
  obtain ⟨hcount, hfirst⟩ := List.eq_replicate_iff.1 hbefore
  obtain ⟨hcount', hmore⟩ := List.eq_replicate_iff.1 hbetween
  rw [List.length_map] at hcount hcount'
  rw [List.forall_mem_map] at hfirst hmore
  rw [harguments] at hplaced hsingle
  refine ⟨before, b, between, last, harguments, hcount, hcount',
    List.forall_mem_append.2 ⟨hfirst, hmore⟩, ?_, ?_⟩
  · have hprogram := hplaced.program_of_full (fun b' hb' => hsingle b' (by simp [hb']))
      (hb ▸ AArch64.single_padding (by decide)) (by omega)
    rw [hcount, hstart.1, hstart.2, hb] at hprogram
    exact (Except.ok.inj hprogram).symm
  · rw [show before ++ b :: (between ++ [last]) = (before ++ b :: between) ++ [last] by simp] at hplaced hsingle
    have hlength : (before ++ b :: between).length = i + 9 := by simp [hcount, hcount']; omega
    have hprogram := hplaced.program_of_full (fun b' hb' => hsingle b' (List.mem_append_left _ hb'))
      (hlast ▸ AArch64.single_address) (by omega)
    rw [hstart.1, hstart.2, hlast, hlength, show 0 + (i + 9 - 8) = i + 1 by omega] at hprogram
    exact (Except.ok.inj hprogram).symm

theorem requests_crowded {i : Nat} (hs : arrange .aarch64 (crowded i) .downcall = .ok s) :
    (s.arguments.flatMap fun b => b.program.requests) = [(24, 1)] := by
  obtain ⟨_, _, _, _, -, hplaced, -, -, -⟩ := arrange_eq_ok hs
  obtain ⟨before, b, between, last, harguments, -, -, hwords, hb, hlast⟩ := arrange_crowded hs
  have hnone : ∀ b' ∈ before ++ between, b'.program.requests = [] := by
    intro b' hb'
    have hmem : b' ∈ s.arguments := by
      rw [harguments]
      rcases List.mem_append.1 hb' with h | h <;> simp [h]
    exact hplaced.requests_eq_nil b' hmem (by rw [hwords b' hb']; decide)
  obtain ⟨hfirst, hmore⟩ := List.forall_mem_append.1 hnone
  rw [harguments, List.flatMap_append, List.flatMap_cons, List.flatMap_append, List.flatMap_eq_nil_iff.2 hfirst,
    List.flatMap_eq_nil_iff.2 hmore, List.flatMap_singleton, hb, hlast, Placement.requests_scalarProgram]
  rfl

theorem Engine.wordAt_of_unbox {a : Word}
    (h : unbox (.address a) (scalarProgram .address r true) m = .ok () n) :
    n.frame.wordAt r = a := by
  obtain ⟨stack, k, hrun, hfinish⟩ := bind_eq_ok.1 h
  obtain ⟨-, rfl⟩ := lift_eq_ok.1 hfinish
  obtain ⟨⟨⟩, _, -, hrun⟩ := bind_eq_ok.1 hrun
  obtain ⟨bits, _, haddress, hrun⟩ := bind_eq_ok.1 hrun
  cases haddress
  obtain ⟨⟨⟩, _, -, hrun⟩ := bind_eq_ok.1 hrun
  obtain ⟨rest, _, hmove, hrun⟩ := bind_eq_ok.1 hrun
  cases hrun
  obtain ⟨⟨w, rest⟩, _, hbits, hmove⟩ := bind_eq_ok.1 hmove
  cases hbits
  obtain ⟨⟨⟩, _, hwrite, hmove⟩ := bind_eq_ok.1 hmove
  cases hmove
  obtain ⟨_, -, -, hword⟩ := of_writeStorage_eq_ok hwrite
  exact hword

namespace Downcall

theorem passArguments_append {ps : List Program} (h : args.length = ps.length) (args' : List Value)
    (ps' : List Program) :
    (passArguments (args ++ args') (ps ++ ps') : Engine σ Unit) = (do
      passArguments args ps
      passArguments args' ps') := by
  induction args generalizing ps with
  | nil =>
    cases List.length_eq_zero_iff.1 h.symm
    rfl
  | cons v args ih =>
    cases ps with
    | nil => cases h
    | cons p ps => simp only [List.cons_append, passArguments, ih (Nat.succ.inj h), bind_assoc]

theorem wordAt_of_passArguments {ps : List Program} {a : Word} (hlength : args.length = ps.length)
    (h : passArguments (args ++ [.address a]) (ps ++ [scalarProgram .address r true]) m = .ok () n) :
    n.frame.wordAt r = a := by
  rw [passArguments_append hlength] at h
  obtain ⟨⟨⟩, k, -, h⟩ := Engine.bind_eq_ok.1 h
  obtain ⟨⟨⟩, n', hunbox, h⟩ := Engine.bind_eq_ok.1 h
  cases h
  exact Engine.wordAt_of_unbox hunbox

/-- If the last stack slot is the first one again, then that holds the address of the caller's segment, and
not that of the copy. -/
theorem passArguments_crowded {caller : Segment} {i : Nat} (hs : arrange .aarch64 (crowded i) .downcall = .ok s)
    (hwraps : Convention.stackSlot (i + 1) = Convention.stackSlot 0)
    (hlayout : FrameLayout.covering .aarch64 s.storages = .ok m.frame.layout) (hm : m.Ready)
    (hlength : 24 ≤ caller.length) (hlive : caller.Live m)
    (hserves : m.scratch.Serves (fun _ => False) m.memory [(24, 1)]) :
    ∃ k, passArguments (crowdedArguments caller i) s.userPrograms m = .ok () k ∧
      k.frame.wordAt (Convention.stackSlot 0) = caller.address := by
  obtain ⟨_, _, _, _, -, hplaced, hdescribes, hdirection, -⟩ := arrange_eq_ok hs
  obtain ⟨hlayouts, hbindings⟩ := hplaced.bindings
  have hhas := arrange_has hs hlayout
  rw [CallingSequence.steps, Program.storages_append, hdescribes.storages_argumentPrograms] at hhas
  have hfits := crowdedArguments_fit hlength i
  rw [← hlayouts, List.forall₂_map_right_iff] at hfits
  obtain ⟨⟨⟩, k, hrun, -⟩ := (passArguments_leadsTo ((arrange_built hs).verifyUnbox_arguments hdirection)
    (fun b hb => (hbindings b hb).1) (fun t ht => hhas t (List.mem_append_left _ (List.mem_append_right _ ht)))
    (requests_crowded hs ▸ hserves) hfits (fun t ht => mem_crowdedArguments ht ▸ hlive) hm).exists_ok
  refine ⟨k, hrun, ?_⟩
  obtain ⟨before, b, between, last, harguments, hcount, hcount', -, -, hlast⟩ := arrange_crowded hs
  have hprograms : s.arguments.map (·.program)
      = (before ++ b :: between).map (·.program) ++ [scalarProgram .address (Convention.stackSlot 0) true] := by
    rw [← hwraps, ← hlast]
    simp [harguments]
  have hvalues : crowdedArguments caller i
      = (List.replicate 8 (.i64 0) ++ .segment caller :: List.replicate i (.i64 0)) ++
        [.address caller.address] := by
    simp [crowdedArguments]
  rw [hprograms, hvalues] at hrun
  exact wordAt_of_passArguments (by simp [hcount, hcount']; omega) hrun

end Downcall

/-- Native code that fills eight bytes behind the address in the first stack slot. -/
def scribble : Native Unit := fun k =>
  .ok (.ok ()) { k with
    memory := k.memory.store (k.frame.wordAt (Convention.stackSlot 0)).toNat 8 0xffffffffffffffff }

/-- Then it fills bytes of the caller's segment. -/
theorem DowncallHandle.interpret_crowded {i : Nat}
    (hwraps : Convention.stackSlot (i + 1) = Convention.stackSlot 0) {h : DowncallHandle Unit}
    (hs : arrange .aarch64 (crowded i) .downcall = .ok h.sequence) (hsize : h.sequence.scratchSize = 24)
    {frame : Frame} (hlayout : FrameLayout.covering .aarch64 h.sequence.storages = .ok frame.layout) :
    ∃ k, h.interpret (fun _ => scribble) (crowdedArguments (.global 4096 24) i)
        ⟨frame, .empty, .closed, #[], ()⟩ = .ok (.ok .void) k ∧ k.memory.bytes 4096 = 0xff := by
  obtain ⟨_, _, _, _, hplan, -, hdescribes, -, -⟩ := arrange_eq_ok hs
  cases hplan
  have hindirect : h.sequence.indirect = none := Option.map_eq_none_iff.1 hdescribes.1
  have hresult : h.sequence.hasResultProgram = false := by
    unfold CallingSequence.hasResultProgram CallingSequence.resultProgram
    rw [hdescribes.2]
    rfl
  have hcheck : h.sequence.checkArguments (crowdedArguments (.global 4096 24) i) = .ok () := by
    have hfits : List.Forall₂ Value.Fits (crowdedArguments (.global 4096 24) i) (crowded i).args :=
      crowdedArguments_fit (Nat.le_refl 24) i
    obtain ⟨-, hcheck⟩ | ⟨e, hrejects, -⟩ := arrange_checkArguments hs (crowdedArguments (.global 4096 24) i)
    · exact hcheck
    · exact absurd hfits hrejects.not_fits
  let m : Machine Unit := ⟨frame, .empty, .new 24, #[], ()⟩
  have hempty : Memory.empty.Sound := ⟨by decide, fun _ hb => absurd hb List.not_mem_nil⟩
  have hreserved : Memory.empty.Reserved 4096 24 := .inl (by decide)
  have hlive : (Segment.global 4096 24).Live m := Segment.Valid.live ⟨rfl, by decide⟩ hreserved rfl
  have hserves : m.scratch.Serves (fun _ => False) m.memory [(24, 1)] := by
    obtain ⟨_, hallocate, -⟩ :=
      exists_ok_of_any (x := m.scratch.allocate m.memory 24 1) (p := fun _ => true) (by cbv)
    unfold Scratch.Serves
    rw [hallocate]
    trivial
  obtain ⟨k, hpass, hword⟩ :=
    Downcall.passArguments_crowded (m := m) hs hwraps hlayout (Scratch.new_sound hempty 24) (Nat.le_refl 24)
      hlive hserves
  have hrun : LeadsTo (fun _ => False) (h.interpret (fun _ => scribble) (crowdedArguments (.global 4096 24) i))
      ⟨frame, .empty, .closed, #[], ()⟩ fun r n => r = .ok .void ∧ n.memory.bytes 4096 = 0xff := by
    unfold interpret checked
    rw [hcheck]
    refine .bind (.pure (.bind ?_))
    unfold Downcall.interpret Downcall.passResultBuffer
    rw [hindirect, hsize]
    refine .withScratch (P := fun r n => r = .ok .void ∧ n.memory.bytes 4096 = 0xff)
      (.bind (.pure (.bind (.of_ok hpass (.record (.bind ?_)))))) ?_
    · refine .native (P := fun r n => r = .ok () ∧ n.memory.bytes 4096 = 0xff)
        (.of_ok (a := .ok ()) rfl ⟨rfl, ?_⟩) ?_
      · rw [show k.frame.wordAt (Convention.stackSlot 0) = 4096 from hword]
        rfl
      · rintro _ n ⟨rfl, hbytes⟩
        dsimp only
        rw [Downcall.takeResult_void hresult]
        exact .pure ⟨rfl, hbytes⟩
    · rintro r n ⟨rfl, hbytes⟩
      exact ⟨rfl, (congrFun (Engine.closeScratch_bytes n) 4096).trans hbytes⟩
  obtain ⟨_, n, hcall, rfl, hbytes⟩ := hrun.exists_ok
  exact ⟨n, hcall, hbytes⟩

/-- **With more stack slots than there are indices, native code can reach its caller's memory through a
reference.**  The aggregate goes by reference through the first slot, and the last argument goes through
that slot, too. -/
theorem crowded_overwrites {i : Nat} (hwraps : Convention.stackSlot (i + 1) = Convention.stackSlot 0)
    {j : Linkage Unit Unit} (hj : j.Reachable .aarch64 settings)
    (hcache : j.linker.cached? ⟨crowded i, .downcall⟩ = none)
    {symbol : Symbol} {f : NativeFunction Unit} (hf : j.registry.downcallStub symbol = .ok f) :
    ∃ h j', Linking.downcall symbol (crowded i) j = .ok h j' ∧
      (∃ b ∈ h.sequence.arguments, b.program.reference? = some (Convention.stackSlot 0, 24)) ∧
      ∀ frame : Frame, frame.layout = h.layout →
        ∃ n, h.invoke (fun _ => scribble) (crowdedArguments (.global 4096 24) i)
          ⟨frame, .empty, .closed, #[], ()⟩ = .ok (.ok .void) n ∧ n.memory.bytes 4096 = 0xff := by
  obtain ⟨s, hs, hsize⟩ := exists_arrange_crowded i
  obtain ⟨_, _, _, _, hplan, hplaced, hdescribes, hdirection, -⟩ := arrange_eq_ok hs
  cases hplan
  have hmany : Convention.aarch64.maxDirectArguments s.direction < s.argumentPrograms.length := by
    rw [hdirection, s.argumentPrograms_eq (Option.map_eq_none_iff.1 hdescribes.1), List.length_map,
      ← List.length_map (·.layout), hplaced.layouts]
    show 8 < (crowded i).args.length
    simp [crowded]
  have hconvention : j.linker.convention = .aarch64 := hj.sound.convention
  obtain ⟨h, j', hdown, rfl, hdirect⟩ :=
    Linking.exists_downcall_of_arrange hcache (hconvention.symm ▸ hs) hf fun l =>
      hconvention.symm ▸ DirectDowncall.compile_of_many hmany
  obtain ⟨_, b, _, _, harguments, -, -, -, hprogram, -⟩ := arrange_crowded hs
  refine ⟨h, j', hdown, ⟨b, by simp [harguments], by rw [hprogram]; rfl⟩, fun frame hframe => ?_⟩
  rw [h.invoke_of_direct hdirect]
  exact h.interpret_crowded hwraps hs hsize (hframe ▸ (hj.handle_linked hdown).layout)

/-- The call with 65535 words between the two. -/
theorem reference_overwritten :
    let symbol : Symbol := ⟨"scribble", BitVec.ofNat 64 Registry.firstAddress⟩
    let j : Linkage Unit Unit := ⟨.new .aarch64 .everything, (Registry.empty.define "scribble" ()).2, #[]⟩
    ∃ h j', Linking.downcall symbol (crowded 65535) j = .ok h j' ∧
      (∃ b ∈ h.sequence.arguments, b.program.reference? = some (Convention.stackSlot 0, 24)) ∧
      let frame : Frame := ⟨h.layout, Array.replicate h.layout.wordCount 0, Array.size_replicate⟩
      let m : Machine Unit := ⟨frame, .empty, .closed, #[], ()⟩
      ∃ n, h.invoke (fun _ => scribble) (crowdedArguments (.global 4096 24) 65535) m = .ok (.ok .void) n ∧
        m.memory.bytes 4096 = 0 ∧ n.memory.bytes 4096 = 0xff := by
  intro symbol j
  have hcache : j.linker.cached? ⟨crowded 65535, .downcall⟩ = none := rfl
  have hf : j.registry.downcallStub symbol = .ok ⟨"scribble", ()⟩ := rfl
  obtain ⟨h, j', hdown, hb, hinvoke⟩ := crowded_overwrites rfl (.new _ _) hcache hf
  obtain ⟨n, hcall, hbytes⟩ :=
    hinvoke ⟨h.layout, Array.replicate h.layout.wordCount 0, Array.size_replicate⟩ rfl
  exact ⟨h, j', hdown, hb, n, hcall, rfl, hbytes⟩

end ForeignCall
