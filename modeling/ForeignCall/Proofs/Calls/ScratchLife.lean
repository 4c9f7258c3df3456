import ForeignCall.Proofs.Arrangement.ScratchSize
import ForeignCall.Proofs.Arrangement.Registers
import ForeignCall.Proofs.CallCheck
import ForeignCall.Proofs.Calls.Footprint
import ForeignCall.Proofs.Linking

/-!
# The arena of a call

* `Engine.Ran`: the body of a call has run with an arena of its own, which was closed afterwards;
* `arrange_requests_pos`: an arranged sequence asks for no empty memory, and `arrange_scratchSize`: its
  programs together ask for the scratch memory that it was built with;
* `scratch_dies_with_call`: once a call is over, whatever its outcome, all that was carved from its arena is
  dead;
* `scratch_accounted`: a call that succeeds draws just the scratch memory of its sequence, and any other
  draws no more.
-/

namespace ForeignCall

variable {σ φ τ α : Type} {m n k : Machine σ} {c : Convention} {d : Descriptor} {direction : Direction}
  {s : CallingSequence} {l : Layout} {p : Placement} {program : Program} {cursor last : Cursor}
  {unboxes : Bool} {settings : Settings} {size : Nat} {t : Segment}

theorem ok_of_map_mapError {ε ε' δ : Type} {f : ε → ε'} {x : Except δ (Except ε α)} {a : α}
    (h : x.map (·.mapError f) = .ok (.ok a)) : x = .ok (.ok a) := by
  cases x with
  | error e => cases h
  | ok y =>
    cases y with
    | error e => cases h
    | ok b =>
      cases h
      rfl

/-! ### Runs with an arena -/

/-- A call on the machine `m` has run its body with a new arena, up to the machine `k`.  The arena was
closed then, and the one of before is back. -/
structure Engine.Ran (size : Nat) (body : Engine σ α) (m : Machine σ) (r : Except Fault α)
    (k n : Machine σ) : Prop where
  body : body.Finishes { m with scratch := Scratch.new size } r k
  machine : n = { closeScratch k with scratch := m.scratch }

theorem Engine.withScratch_ran (size : Nat) (body : Engine σ α) (m : Machine σ) :
    Ends (withScratch size body) m fun r n => ∃ k, Ran size body m r k n :=
  .withScratch (.of_finishes fun _ _ h => h) fun _ k h => ⟨k, h, rfl⟩

theorem DowncallHandle.invoke_of_direct {h : DowncallHandle φ} (hdirect : h.direct = none) (run : φ → Native σ)
    (args : List Value) : h.invoke run args = h.interpret run args := by
  unfold invoke
  rw [hdirect]

theorem UpcallHandler.invoke_of_direct {h : UpcallHandler τ} (hdirect : h.direct = none) (run : τ → Target σ) :
    h.invoke run = h.interpret run := by
  unfold invoke
  rw [hdirect]

/-- An interpreted downcall runs its body if its arguments are accepted, and does nothing otherwise. -/
theorem DowncallHandle.interpret_ran (h : DowncallHandle φ) (run : φ → Native σ) (args : List Value)
    (m : Machine σ) :
    Ends (h.interpret run args) m fun r n =>
      (h.sequence.checkArguments args ≠ .ok () ∧ n = m ∧ ∀ v, r ≠ .ok (.ok v)) ∨
      (h.sequence.checkArguments args = .ok () ∧ ∃ r' k, r = r'.map (·.mapError .native) ∧
        Engine.Ran h.sequence.scratchSize
          (Downcall.body h.name h.sequence h.returnsResultAddress (h.native.call run) args) m r' k n) := by
  unfold interpret checked
  rw [Downcall.interpret_eq]
  cases hcheck : h.sequence.checkArguments args with
  | error e =>
    cases e with
    | error e => exact .inl ⟨nofun, rfl, nofun⟩
    | fault o => exact .inl ⟨nofun, rfl, nofun⟩
  | ok _ =>
    refine .bind_of (fun outcome i hi => ?_) fun e i hi => nomatch hi
    cases hi
    refine (Engine.withScratch_ran ..).andThen (fun v n ⟨k, hk⟩ => .pure (.inr ⟨rfl, .ok v, k, rfl, hk⟩)) ?_
    exact fun e n ⟨k, hk⟩ => .inr ⟨rfl, .error e, k, rfl, hk⟩

/-! ### What arranged sequences ask for -/

theorem Program.scratch_eq_sum (p : Program) : p.scratch = (p.requests.map Prod.fst).sum := by
  induction p with
  | nil => rfl
  | cons step p ih =>
    rw [scratch_cons, requests_cons, ih]
    cases step <;> simp [Step.request?, Step.scratchSize]

theorem Placement.requests_pos (hcarries : p.Carries l)
    (hreference : p.isReference = true → 0 < l.aggregateSize) (h : p.program l unboxes = .ok program) :
    ∀ r ∈ program.requests, 0 < r.1 := by
  intro r hr
  obtain ⟨hsize, -⟩ := requests_program h r hr
  cases p with
  | whole storage =>
    cases h
    rw [requests_scalarProgram] at hr
    cases hr
  | pieces ps => exact hcarries.size_pos hcarries.1 rfl hsize
  | reference storage =>
    rw [← Layout.aggregateSize_eq hcarries hsize]
    exact hreference rfl

theorem Convention.aggregateSize_pos_of_copies (h : c.copies l = true) : 0 < l.aggregateSize := by
  simp only [copies, isLarge, Bool.and_eq_true, decide_eq_true_eq] at h
  exact Nat.zero_lt_of_lt h.2.1

theorem Placed.requests_pos {placements : List Placement} {bindings : List Binding} {ls : List Layout}
    (h : Placed c unboxes cursor ls placements bindings last) :
    ∀ b ∈ bindings, ∀ r ∈ Program.requests b.program, 0 < r.1 := by
  induction h with
  | nil => simp
  | cons hplace hprogram _ ih =>
    refine List.forall_mem_cons.2
      ⟨Placement.requests_pos (Convention.place_eq_ok hplace).2 (fun hreference => ?_) hprogram, ih⟩
    rw [Convention.place_isReference hplace] at hreference
    exact Convention.aggregateSize_pos_of_copies hreference

theorem ResultPlan.Describes.requests_pos {plan : ResultPlan} {l? : Option Layout}
    (hplan : c.planResult l? = .ok (plan, cursor))
    (h : plan.Describes direction (s.indirect.map fun i => (i.pointer, i.layout)) s.result) :
    ∀ r ∈ Program.requests s.resultProgram, 0 < r.1 := by
  cases plan with
  | void =>
    rw [CallingSequence.resultProgram, h.2]
    simp [Program.requests]
  | storages l placement =>
    obtain ⟨l', rfl⟩ : ∃ l', l? = some l' := by
      cases l? with
      | none => cases hplan
      | some l' => exact ⟨l', rfl⟩
    rcases Convention.planResult_eq_ok hplan with ⟨p, hp, hreturns⟩ | ⟨pointer, returned, hmemory, -⟩
    · cases hp
      refine Placement.requests_pos hreturns.carries (fun hreference => ?_) h.resultProgram_storages
      cases placement with
      | reference storage => exact absurd rfl (hreturns.ne_reference storage)
      | _ => cases hreference
    · cases hmemory
  | memory l pointer returned =>
    rw [h.resultProgram_memory]
    cases returned with
    | none => simp [Program.requests]
    | some r => simp [Placement.requests_scalarProgram]

/-- **An arranged sequence asks for no empty memory.** -/
theorem arrange_requests_pos (h : arrange c d direction = .ok s) : ∀ r ∈ Program.requests s.steps, 0 < r.1 := by
  obtain ⟨plan, cursor, placements, last, hplan, hplaced, hdescribes, -⟩ := arrange_eq_ok h
  intro r hr
  rw [s.requests_steps, CallingSequence.argumentPrograms, List.flatten_append, Program.requests_append] at hr
  rcases List.mem_append.1 hr with hr | hr
  · rcases List.mem_append.1 hr with hr | hr
    · rw [hdescribes.pointerProgram?] at hr
      cases hpointer : plan.pointer? with
      | none =>
        rw [hpointer] at hr
        cases hr
      | some pointer =>
        rw [hpointer] at hr
        simp [Placement.requests_scalarProgram] at hr
    · obtain ⟨step, hstep, hrequest⟩ := List.mem_filterMap.1 hr
      obtain ⟨program, hprogram, hstep⟩ := List.mem_flatten.1 hstep
      obtain ⟨b, hb, rfl⟩ := List.mem_map.1 hprogram
      exact hplaced.requests_pos b hb r (List.mem_filterMap.2 ⟨step, hstep, hrequest⟩)
  · exact hdescribes.requests_pos hplan r hr

/-- The programs of a sequence together ask for the scratch memory that it was built with. -/
theorem arrange_scratchSize (h : arrange c d direction = .ok s) :
    s.scratchSize = ((Program.requests s.steps).map Prod.fst).sum := by
  obtain ⟨b, -, hbuild⟩ := arrange_built h
  obtain ⟨-, -, -, -, hsize⟩ := SequenceBuilder.build_eq_ok hbuild
  rw [SequenceBuilder.scratchSize_eq] at hsize
  split at hsize
  · rw [← Program.scratch_eq_sum]
    exact (Except.ok.inj hsize).symm
  · cases hsize

theorem arrange_requests_eq_nil (h : arrange c d direction = .ok s) (hsize : s.scratchSize = 0) :
    Program.requests s.steps = [] := by
  have hpos := arrange_requests_pos h
  rw [arrange_scratchSize h] at hsize
  cases hrequests : Program.requests s.steps with
  | nil => rfl
  | cons r rest =>
    rw [hrequests, List.map_cons, List.sum_cons] at hsize
    have := hpos r (by simp [hrequests])
    omega

/-! ### The life of an arena -/

/-- When an arena that a call has used is closed, what was carved from it dies, and what it has issued was
all carved from it. -/
structure Engine.Expires (size : Nat) (k n : Machine σ) : Prop where
  issued : ∃ requests given, (Scratch.new size).Issues requests given k.scratch ∧
    ∀ t ∈ given, t.CarvedFrom k.scratch
  dead : ∀ t, Segment.CarvedFrom t k.scratch →
    ∀ later : Memory, (∀ b ∈ n.memory.released, b ∈ later.released) → t.Dead later

/-- All that was carved from the arena up to the machine `i`, when code from outside takes over, lasts: it
is alive in whatever memory that code leaves, and only dies with the arena. -/
def Engine.Lasts (i k : Machine σ) : Prop :=
  ∀ t, Segment.CarvedFrom t i.scratch → t.CarvedFrom k.scratch ∧ ∀ later, i.memory.Extends later →
    t.isAlive later = true

namespace Engine

variable {body : Engine σ α} {r : Except Fault α} {requests : List (Nat × Nat)} {all : Prop}

theorem Ran.expires (h : Ran size body m r k n) (hmeets : (Scratch.new size).Meets requests all k.scratch) :
    Expires size k n := by
  obtain ⟨made, given, hissues, -⟩ := hmeets
  refine ⟨⟨made, given, hissues, hissues.carvedFrom⟩, fun t ht later hlater => ?_⟩
  have hreleased : n.memory.released = (closeScratch k).memory.released := by rw [h.machine]
  exact dead_of_closeScratch hissues.isOpen (hreleased ▸ hlater) ht

theorem lasts_of_footprint {ss : List Storage} {Q : List Segment → α → Machine σ → Prop} {i : Machine σ}
    (hm : m.memory.Sound) (h : Footprint ss requests Q { m with scratch := Scratch.new size } r i)
    (hkept : ∀ t, Segment.CarvedFrom t i.scratch → t.CarvedFrom k.scratch) : Lasts i k := by
  obtain ⟨_, _, hcarves, -⟩ := h
  have hready : Machine.Ready { m with scratch := Scratch.new size } := Scratch.new_sound hm size
  have hsound := (hcarves.keeps hready).evolves.sound
  exact fun t ht => ⟨hkept t ht, fun later hlater => ht.isAlive (hsound.extends hlater)⟩

end Engine

/-- **Scratch memory never outlives its call.**  Whatever comes of a call that is interpreted, be it a
value, an error or a fault: every segment that was carved from its arena is dead once it is over, and
forever, so that no access reads or writes its bytes.  Until native code or a target has returned, the
segments it was handed are alive.  A segment that a downcall returns has memory of its own. -/
theorem scratch_dies_with_call (hm : m.memory.Sound) :
    (∀ (h : DowncallHandle φ) (run : φ → Native σ) (args : List Value),
      (h.direct = none → h.invoke run args = h.interpret run args) ∧
      Ends (h.interpret run args) m fun r n => (h.sequence.checkArguments args ≠ .ok () ∧ n = m) ∨
        ∃ r' k, r = r'.map (·.mapError .native) ∧
          Engine.Ran h.sequence.scratchSize
            (Downcall.body h.name h.sequence h.returnsResultAddress (h.native.call run) args) m r' k n ∧
          Engine.Expires h.sequence.scratchSize k n ∧ (∀ t, r = .ok (.ok (.segment t)) → t.scope = .owned) ∧
          ∀ buffer i, Downcall.send h.name h.sequence args
            { m with scratch := Scratch.new h.sequence.scratchSize }
            = .ok buffer i → Engine.Lasts i k) ∧
    (∀ (h : UpcallHandler τ) (run : τ → Target σ),
      (h.direct = none → h.invoke run = h.interpret run) ∧
      Ends (h.interpret run) m fun r n =>
        ∃ k, Engine.Ran h.sequence.scratchSize (Upcall.body h.sequence (run h.target)) m r k n ∧
          Engine.Expires h.sequence.scratchSize k n ∧
          ∀ received i, Upcall.receive h.sequence { m with scratch := Scratch.new h.sequence.scratchSize }
            = .ok received i → Engine.Lasts i k ∧ ∀ t, .segment t ∈ received.2 → t.CarvedFrom i.scratch) := by
  refine ⟨fun h run args => ⟨fun hdirect => h.invoke_of_direct hdirect run args, ?_⟩, fun h run =>
    ⟨fun hdirect => h.invoke_of_direct hdirect run, ?_⟩⟩
  · refine (h.interpret_ran run args m).mono ?_
    rintro r n (⟨hcheck, hn, -⟩ | ⟨hcheck, r', k, rfl, hran⟩)
    · exact .inl ⟨hcheck, hn⟩
    have hlength := (CallingSequence.checkArguments_eq_ok hcheck).length_eq
    obtain ⟨hmeets, howned, hkept⟩ := (Downcall.body_meets hlength ..).finishes hran.body
    refine .inr ⟨r', k, rfl, hran, hran.expires hmeets, fun t ht => ?_, fun buffer i hsend => ?_⟩
    · exact howned t (ok_of_map_mapError ht)
    · exact Engine.lasts_of_footprint hm ((Downcall.send_footprint hlength ..).of_ok hsend)
        (hkept buffer i hsend)
  · unfold UpcallHandler.interpret
    rw [Upcall.interpret_eq]
    refine (Engine.withScratch_ran ..).mono ?_
    rintro r n ⟨k, hran⟩
    obtain ⟨hmeets, hkept⟩ := (Upcall.body_meets ..).finishes hran.body
    refine ⟨k, hran, hran.expires hmeets, fun received i hreceive => ?_⟩
    obtain ⟨hreceived, hkept⟩ := hkept received i hreceive
    exact ⟨Engine.lasts_of_footprint hm ((Upcall.receive_footprint ..).of_ok hreceive) hkept, hreceived⟩

/-- A target receives an argument of 24 bytes.  When the call is over, the argument is dead. -/
theorem scratch_dies_with_call_of_argument :
    let s : CallingSequence :=
      ⟨.upcall, [⟨.segment, .padding 24, [.move (.slot .integerArg 0 8) .i64, .boxAddress, .copy 24 1]⟩],
        none, none, 24⟩
    let l : FrameLayout :=
      ⟨[⟨0, 8, 8⟩, ⟨64, 8, 8⟩, ⟨128, 0, 8⟩, ⟨128, 1, 8⟩, ⟨136, 2, 8⟩, ⟨152, 4, 8⟩, ⟨184, 0, 16⟩], 184⟩
    let h : UpcallHandler Unit := ⟨s, l, (), none⟩
    let run : Unit → Target Unit := fun _ _ => return .ok .void
    let m : Machine Unit :=
      ⟨⟨l, Array.replicate l.wordCount 8192, Array.size_replicate⟩, .empty, .closed, #[], ()⟩
    ∃ buffer t i n, Upcall.receive s { m with scratch := Scratch.new 24 } = .ok (buffer, [.segment t]) i ∧
      t.isAlive i.memory = true ∧ h.invoke run m = .ok (.ok ()) n ∧ t.Dead n.memory := by
  intro s l h run m
  have hm : m.memory.Sound := ⟨by decide, by simp [m, Memory.empty]⟩
  obtain ⟨⟨buffer, args⟩, hreceived, hargs⟩ := exists_ok_of_any
    (x := (Engine.observe (Upcall.receive s) { m with scratch := Scratch.new 24 }).1)
    (p := fun received => received.2.map Value.carrier? = [some .segment]) (by decide +kernel)
  obtain ⟨i, hreceive⟩ := Engine.exists_of_observe hreceived
  obtain ⟨v, rfl, hv⟩ := List.map_eq_singleton_iff.1 (of_decide_eq_true hargs)
  obtain ⟨t, rfl⟩ := Value.carrier?_eq_segment.1 hv
  obtain ⟨⟨⟩, n, hinvoke⟩ := Engine.exists_value_of_observe (x := h.invoke run) (m := m) (by decide +kernel)
  obtain ⟨hinterpret, hends⟩ := (scratch_dies_with_call (φ := Unit) hm).2 h run
  rw [hinterpret rfl] at hinvoke
  obtain ⟨k, -, hexpires, hreceives⟩ := hends.of_ok hinvoke
  obtain ⟨hlasts, hcarved⟩ := hreceives _ i hreceive
  obtain ⟨hkept, halive⟩ := hlasts t (hcarved t (by simp))
  have hready : Machine.Ready { m with scratch := Scratch.new 24 } := Scratch.new_sound hm 24
  obtain ⟨_, _, hi, -⟩ := (Upcall.receive_footprint s _).of_ok hreceive
  exact ⟨buffer, t, i, n, hreceive, halive i.memory (.refl (hi.keeps hready).evolves.sound.memory),
    hinterpret rfl ▸ hinvoke, hexpires.dead t hkept n.memory fun _ hb => hb⟩

/-! ### The books of an arena -/

/-- What an arena has handed out when it is closed, for the programs of a sequence. -/
structure Engine.Accounts (s : CallingSequence) (succeeds : Prop) (k n : Machine σ) : Prop where
  issued : ∃ requests given, (Scratch.new s.scratchSize).Issues requests given k.scratch ∧
    k.scratch.allocated = (given.map Segment.length).sum
  le : k.scratch.allocated ≤ s.scratchSize
  eq : succeeds → k.scratch.allocated = s.scratchSize
  unused : s.scratchSize = 0 → Program.requests s.steps = [] ∧ k.scratch.chunks = []
  recorded : n.log = k.log.push (.release k.scratch.allocated k.scratch.chunks.length)

theorem Engine.Ran.accounts {body : Engine σ α} {r : Except Fault α} {all : Prop}
    (hs : arrange c d direction = .ok s) (h : Ran s.scratchSize body m r k n)
    (hmeets : (Scratch.new s.scratchSize).Meets (Program.requests s.steps) all k.scratch) :
    Accounts s all k n := by
  obtain ⟨made, given, hissues, hmade, hall⟩ := hmeets
  have hsum : k.scratch.allocated = (made.map Prod.fst).sum := by
    rw [hissues.allocated, hissues.lengths]
    exact Nat.zero_add _
  refine ⟨⟨made, given, hissues, hissues.lengths ▸ hsum⟩, ?_, fun h => ?_, fun hzero => ?_, ?_⟩
  · obtain ⟨rest, hrest⟩ := hmade
    rw [hsum, arrange_scratchSize hs, ← hrest, List.map_append, List.sum_append]
    exact Nat.le_add_right _ _
  · rw [hsum, hall h, arrange_scratchSize hs]
  · have hnone := arrange_requests_eq_nil hs hzero
    rw [hnone, List.prefix_nil] at hmade
    subst hmade
    refine ⟨hnone, ?_⟩
    generalize k.scratch = arena at hissues
    cases hissues
    rfl
  · rw [h.machine, closeScratch_eq hissues.isOpen]

/-- **Static and dynamic accounts of scratch memory agree.**  When an interpreted call of a linked handle or
handler ends with a value, its arena has handed out just the bytes that its sequence was built with, and no
more when it ends in any other way.  If these are none, it never reserves a chunk. -/
theorem scratch_accounted {j : Linkage φ τ} (hj : j.Reachable c settings) (d : Descriptor) (m : Machine σ) :
    (∀ symbol h j', Linking.downcall symbol d j = .ok h j' → ∀ (run : φ → Native σ) (args : List Value),
      (h.direct = none → h.invoke run args = h.interpret run args) ∧
      Ends (h.interpret run args) m fun r n =>
        (h.sequence.checkArguments args ≠ .ok () ∧ n = m ∧ ∀ v, r ≠ .ok (.ok v)) ∨
        ∃ r' k, r = r'.map (·.mapError .native) ∧
          Engine.Ran h.sequence.scratchSize
            (Downcall.body h.name h.sequence h.returnsResultAddress (h.native.call run) args) m r' k n ∧
          Engine.Accounts h.sequence (∃ v, r = .ok (.ok v)) k n) ∧
    (∀ target stub j', Linking.upcall target d j = .ok stub j' → ∀ run : τ → Target σ,
      (stub.handler.direct = none → stub.handler.invoke run = stub.handler.interpret run) ∧
      Ends (stub.handler.interpret run) m fun r n =>
        ∃ k, Engine.Ran stub.handler.sequence.scratchSize
          (Upcall.body stub.handler.sequence (run stub.handler.target)) m r k n ∧
          Engine.Accounts stub.handler.sequence (r = .ok (.ok ())) k n) := by
  refine ⟨fun symbol h j' hlinked run args => ⟨fun hdirect => h.invoke_of_direct hdirect run args, ?_⟩,
    fun target stub j' hlinked run => ⟨fun hdirect => stub.handler.invoke_of_direct hdirect run, ?_⟩⟩
  · have hh := hj.handle_linked hlinked
    refine (h.interpret_ran run args m).mono ?_
    rintro r n (hrejected | ⟨hcheck, r', k, rfl, hran⟩)
    · exact .inl hrejected
    have hlength := (CallingSequence.checkArguments_eq_ok hcheck).length_eq
    obtain ⟨hmeets, -⟩ := (Downcall.body_meets hlength ..).finishes hran.body
    exact .inr ⟨r', k, rfl, hran,
      hran.accounts hh.sequence (hmeets.mono fun ⟨v, hv⟩ => ⟨v, ok_of_map_mapError hv⟩)⟩
  · have hh := hj.handler_linked hlinked
    unfold UpcallHandler.interpret
    rw [Upcall.interpret_eq]
    refine (Engine.withScratch_ran ..).mono ?_
    rintro r n ⟨k, hran⟩
    obtain ⟨hmeets, -⟩ := (Upcall.body_meets ..).finishes hran.body
    exact ⟨k, hran, hran.accounts hh.sequence hmeets⟩

/-- A function on AArch64 with an argument of 24 bytes, which is passed as a copy. -/
theorem scratch_accounted_by_reference :
    let d : Descriptor := ⟨[.padding 24], none⟩
    let symbol : Symbol := ⟨"take", BitVec.ofNat 64 Registry.firstAddress⟩
    let j : Linkage Unit Unit := ⟨.new .aarch64 .everything, (Registry.empty.define "take" ()).2, #[]⟩
    let s : CallingSequence :=
      ⟨.downcall, [⟨.segment, .padding 24,
        [.copy 24 1, .baseAddress, .boxAddress, .move (.slot .integerArg 0 8) .i64]⟩], none, none, 24⟩
    let l : FrameLayout :=
      ⟨[⟨0, 8, 8⟩, ⟨64, 8, 8⟩, ⟨128, 0, 8⟩, ⟨128, 1, 8⟩, ⟨136, 2, 8⟩, ⟨152, 4, 8⟩, ⟨184, 0, 16⟩], 184⟩
    let h : DowncallHandle Unit := ⟨"take", s, l, ⟨"take", ()⟩, none, false⟩
    let run : Unit → Native Unit := fun _ m => .ok (.ok ()) m
    let m : Machine Unit := ⟨⟨l, Array.replicate l.wordCount 0, Array.size_replicate⟩, .empty, .closed, #[], ()⟩
    (∃ j', Linking.downcall symbol d j = .ok h j') ∧ ∃ v n chunks,
      h.invoke run [.segment (Segment.global 4096 24)] m = .ok (.ok v) n ∧
        n.log.back? = some (.release 24 chunks) := by
  intro d symbol j s l h run m
  obtain ⟨j', hrun⟩ : ∃ j', Linking.downcall symbol d j = .ok h j' :=
    Linking.downcall_of_compiles rfl rfl (FrameLayout.covering_aarch64 (by decide)) rfl ⟨_, rfl⟩
  obtain ⟨v, n, hinvoke⟩ :=
    Engine.exists_value_of_observe (x := h.invoke run [.segment (Segment.global 4096 24)]) (m := m)
      (by decide +kernel)
  obtain ⟨hinterpret, hends⟩ :=
    (scratch_accounted (.new _ _) d m).1 symbol h j' hrun run [.segment (Segment.global 4096 24)]
  rw [hinterpret rfl] at hinvoke
  rcases hends.of_ok hinvoke with ⟨-, -, hno⟩ | ⟨_, k, -, -, haccounts⟩
  · exact absurd rfl (hno v)
  · refine ⟨⟨j', hrun⟩, v, n, k.scratch.chunks.length, hinterpret rfl ▸ hinvoke, ?_⟩
    rw [haccounts.recorded, haccounts.eq ⟨v, rfl⟩]
    simp [h, s]

end ForeignCall
