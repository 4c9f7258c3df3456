import ForeignCall.Downcall
import ForeignCall.Proofs.Arrangement.Routes
import ForeignCall.Proofs.Transport.Boxing
import ForeignCall.Upcall
import Mathlib.Data.List.Forall2

/-!
# Arguments on their way

`passArguments_yields` and `takeArguments_yields` move the arguments of a call out to the storages of their
routes and back from them.  `arguments_round_trip` puts the two together: whatever goes out through the
programs of a downcall comes back through those of the upcall of the same function.
-/

namespace ForeignCall

variable {σ : Type} {m n : Machine σ} {m₀ m₁ : Memory} {l : Layout} {v v' : Value} {vs : List Value}
  {rs : List Route} {c : Convention} {d : Descriptor} {down up : CallingSequence}

/-! ### Values that are held -/

theorem Placement.Holds.rebase {p : Placement} (h : p.Holds l v m₁ m) (hcarries : p.Carries l)
    (hbytes : ∀ s size, v = .segment s → l.byteSize = .ok size →
      ∀ i < size, m₁.bytes (s.address.toNat + i) = m₀.bytes (s.address.toNat + i)) : p.Holds l v m₀ m := by
  cases p with
  | whole s => exact h
  | pieces ps =>
    obtain ⟨s, rfl, hps⟩ := h
    obtain ⟨-, size, hsize, -, htiles⟩ := hcarries
    refine ⟨s, rfl, fun p hp => (hps p hp).trans ?_⟩
    have hend := htiles.end_le p hp
    refine Memory.field_congr fun i hi => ?_
    rw [Nat.add_assoc]
    exact hbytes s size rfl hsize _ (by omega)
  | reference r =>
    obtain ⟨s, size, rfl, hsize, hsettled, hreserved, hr⟩ := h
    exact ⟨s, size, rfl, hsize, hsettled, hreserved, fun i hi => (hr i hi).trans (hbytes s size rfl hsize i hi)⟩

/-- A new arena on the same memory leaves storages as they are. -/
theorem Placement.Holds.inNewScratch {p : Placement} (h : p.Holds l v m₀ m) (hframe : n.frame = m.frame)
    (hmemory : n.memory = m.memory) (hscratch : n.scratch.chunks = []) : p.Holds l v m₀ n := by
  cases p with
  | whole s => cases l <;> simpa only [Holds, hframe] using h
  | pieces ps => simpa only [Holds, hframe] using h
  | reference r =>
    obtain ⟨s, size, rfl, hsize, -, hreserved, hr⟩ := h
    rw [← hmemory, ← hframe] at hreserved hr
    exact ⟨s, size, rfl, hsize, hreserved.settled hscratch, hreserved, hr⟩

theorem Value.Fits.size_lt {size : Nat} (h : v.Fits l) (hlive : ∀ s, v = .segment s → s.Live m) (hm : m.Ready)
    (hsize : l.byteSize = .ok size) : size + 8 < wordLimit := by
  cases hl : l.isAggregate with
  | false =>
    have hle := Layout.byteSize_le_of_not_aggregate hl hsize
    have hlimit : 16 < wordLimit := by decide
    omega
  | true =>
    obtain ⟨s, size', rfl, hsize', hle⟩ := h.segment hl
    obtain rfl := ok_unique hsize hsize'
    have := (hlive s rfl).length_lt hm
    omega

/-! ### Runs over all arguments -/

/-- Passing arguments puts each of them into the storages of its route. -/
theorem passArguments_yields (hvs : List.Forall₂ (fun v r => v.Fits r.layout) vs rs) (hrs : ∀ r ∈ rs, r.Sound)
    (hss : m.frame.layout.Separates (rs.flatMap Route.storages)) (hm : m.Ready)
    (hlive : ∀ s, .segment s ∈ vs → s.Live m)
    (hbytes : ∀ s, .segment s ∈ vs → ∀ i < s.length,
      m.memory.bytes (s.address.toNat + i) = m₀.bytes (s.address.toNat + i)) :
    Yields (Downcall.passArguments vs (rs.map Route.out)) m fun _ n =>
      MovesInto (rs.flatMap Route.storages) m n ∧
      List.Forall₂ (fun v r => r.placement.Holds r.layout v m₀ n) vs rs := by
  induction hvs generalizing m with
  | nil => exact .pure ⟨(Marshals.refl hm).movesInto rfl, .nil⟩
  | @cons v r vs rs hv hvs ih =>
    have hr := hrs r (by simp)
    rw [List.flatMap_cons] at hss ⊢
    obtain ⟨hr', hrs', hbetween⟩ := FrameLayout.separates_append.1 hss
    refine .andThen (r.placement.unbox_yields hr.out hr.carries hr' r.layout.alignment_le hm hv
      fun s hs => hlive s (by simp [hs])) ?_
    rintro ⟨⟩ n ⟨hn, hholds⟩
    rw [← hn.layout] at hrs' hbetween
    refine (ih (fun r' hr' => hrs r' (by simp [hr'])) hrs' hn.marshals.ready
      (fun s hs => (hlive s (by simp [hs])).marshals hn.marshals) fun s hs i hi => ?_).mono ?_
    · rw [hn.marshals.bytes_settled (hlive s (by simp [hs])).settled hi, hbytes s (by simp [hs]) i hi]
    · rintro ⟨⟩ k ⟨hk, hrest⟩
      -- The routes share no storage, so what was passed first is still in place after the rest.
      have hheld := hholds.marshals hk.marshals fun s hs => hk.words s fun t ht => (hbetween s hs t ht).symm
      refine ⟨hn.trans hk, .cons (hheld.rebase hr.carries ?_) hrest⟩
      rintro s size rfl hsize i hi
      obtain ⟨size', hsize', hle⟩ := hv.length s rfl
      obtain rfl := ok_unique hsize hsize'
      exact hbytes s (by simp) i (by omega)

theorem takeArguments_yields (hvs : List.Forall₂ (fun v r => r.placement.Holds r.layout v m₀ m) vs rs)
    (hrs : ∀ r ∈ rs, r.Sound) (hhas : ∀ s ∈ rs.flatMap Route.storages, m.frame.layout.Has s) (hm : m.Ready)
    (hsize : ∀ r ∈ rs, ∀ size, r.layout.byteSize = .ok size → size + 8 < wordLimit) :
    Yields (Upcall.takeArguments (rs.map Route.back)) m fun vs' n => Marshals m n ∧ n.frame = m.frame ∧
      List.Forall₂ (fun e v' => e.2.IsCopy e.1 v' m₀ n) ((rs.map Route.layout).zip vs) vs' := by
  induction rs generalizing m vs with
  | nil =>
    cases hvs
    exact .pure ⟨.refl hm, rfl, .nil⟩
  | cons r rs ih =>
    cases hvs with
    | @cons v _ vs _ hv hvs =>
      have hr := hrs r (by simp)
      rw [List.flatMap_cons] at hhas
      refine .andThen (r.placement.box_yields hr.back hr.carries
        (fun s hs => hhas s (List.mem_append_left _ hs)) r.layout.alignment_le (hsize r (by simp)) hm hv) ?_
      rintro v' n ⟨hn, hframe, hcopy⟩
      rw [← hframe] at hhas
      -- Boxing leaves the frame alone and writes to new memory only, so the other routes hold what they held.
      have hvs := hvs.imp fun v r h => h.marshals hn fun s _ => by rw [hframe]
      refine .andThen (ih hvs (fun r' hr' => hrs r' (by simp [hr']))
        (fun s hs => hhas s (List.mem_append_right _ hs)) hn.ready fun r' hr' => hsize r' (by simp [hr'])) ?_
      rintro vs' k ⟨hk, hframe', hcopies⟩
      exact .pure ⟨hn.trans hk, hframe'.trans hframe, .cons (hcopy.marshals hk) hcopies⟩

/-! ### There and back -/

/-- What has come across: the same scalar or address, or a segment of exactly the bytes that the other one
starts with. -/
def Value.Arrives (l : Layout) (v : Value) (m₀ : Memory) (v' : Value) (m : Memory) : Prop :=
  match v with
  | .segment s => ∃ t size, v' = .segment t ∧ l.byteSize = .ok size ∧ t.length = size ∧
      t.bytes m = .ok (m₀.range s.address.toNat size)
  | v => v' = v

theorem Value.arrives_segment {s t : Segment} {memory : Memory} {size : Nat} (hsize : l.byteSize = .ok size)
    (hlength : t.length = size) (halive : t.isAlive memory = true)
    (hbytes : ∀ i < size, memory.bytes (t.address.toNat + i) = m₀.bytes (s.address.toNat + i)) :
    Value.Arrives l (.segment s) m₀ (.segment t) memory := by
  refine ⟨t, size, rfl, hsize, hlength, ?_⟩
  rw [Segment.bytes_eq halive, hlength, Memory.range, Memory.range]
  exact congrArg Except.ok (List.map_congr_left fun i hi => hbytes i (List.mem_range.1 hi))

theorem Value.IsCopy.arrives (h : v.IsCopy l v' m₀ m) : v.Arrives l m₀ v' m.memory := by
  cases v with
  | segment s =>
    obtain ⟨t, size, rfl, hsize, hlength, halive, -, hbytes⟩ := h
    exact Value.arrives_segment hsize hlength halive hbytes
  | _ => exact h

theorem sizes_lt (hvs : List.Forall₂ (fun v r => v.Fits r.layout) vs rs)
    (hlive : ∀ s, .segment s ∈ vs → s.Live m) (hm : m.Ready) :
    ∀ r ∈ rs, ∀ size, r.layout.byteSize = .ok size → size + 8 < wordLimit := by
  induction hvs with
  | nil => simp
  | cons hv _ ih =>
    intro r hr size hsize
    rcases List.mem_cons.1 hr with rfl | hr
    · exact hv.size_lt (fun s hs => hlive s (by simp [hs])) hm hsize
    · exact ih (fun s hs => hlive s (by simp [hs])) r hr size hsize

/-- Values that were passed along routes come back along them, in the arena they were passed in or in a new
one. -/
theorem routes_round_trip (hvs : List.Forall₂ (fun v r => v.Fits r.layout) vs rs) (hrs : ∀ r ∈ rs, r.Sound)
    (hss : m.frame.layout.Separates (rs.flatMap Route.storages)) (hm : m.Ready)
    (hlive : ∀ s, .segment s ∈ vs → s.Live m) {Q : List Value → Machine σ → Prop}
    (hQ : ∀ vs' k, List.Forall₂ (fun e v' => e.2.Arrives e.1 m.memory v' k.memory)
      ((rs.map Route.layout).zip vs) vs' →
      Q vs' k) :
    Yields (Downcall.passArguments vs (rs.map Route.out)) m fun _ n =>
      Yields (Upcall.takeArguments (rs.map Route.back)) n Q ∧
        ∀ capacity, Yields (Upcall.takeArguments (rs.map Route.back))
          { n with scratch := Scratch.new capacity } Q := by
  have hsizes := sizes_lt hvs hlive hm
  refine (passArguments_yields hvs hrs hss hm hlive fun _ _ _ _ => rfl).mono ?_
  rintro ⟨⟩ n ⟨hn, hheld⟩
  have htake {k : Machine σ} (hk : k.Ready) (hframe : k.frame = n.frame)
      (hheld : List.Forall₂ (fun v r => r.placement.Holds r.layout v m.memory k) vs rs) :
      Yields (Upcall.takeArguments (rs.map Route.back)) k Q := by
    refine (takeArguments_yields hheld hrs (fun s hs => ?_) hk hsizes).mono fun vs' k' hcopies => hQ vs' k' ?_
    · rw [hframe, hn.layout]
      exact hss.has s hs
    · exact hcopies.2.2.imp fun e v' h => h.arrives
  refine ⟨htake hn.marshals.ready rfl hheld, fun capacity => ?_⟩
  refine htake (Scratch.new_sound hn.marshals.ready.memory capacity) rfl ?_
  exact hheld.imp fun v r h => h.inNewScratch rfl rfl rfl

/-- **Argument transport is lossless.**  The sequences of both directions have one frame.  Whatever goes out
through the programs of the downcall comes back through those of the upcall, in the arena of the downcall or
in a new one: the address of the result buffer, the same scalars and addresses, and for each aggregate
exactly its bytes. -/
theorem arguments_round_trip (hdown : arrange c d .downcall = .ok down) (hup : arrange c d .upcall = .ok up)
    (hstack : down.stackMoves ≤ 65536) :
    ∃ frame, FrameLayout.covering c down.storages = .ok frame ∧ FrameLayout.covering c up.storages = .ok frame ∧
      ∀ (σ : Type) (m : Machine σ) (pointer? : Option Word) (args : List Value),
        m.frame.layout = frame → m.Ready →
        pointer?.isSome = down.isIndirect → List.Forall₂ Value.Fits args d.args →
          (∀ s, .segment s ∈ args → s.Live m) →
        let received : List Value → Machine σ → Prop :=
          fun vs k => ∃ args', vs = pointer?.toList.map .address ++ args' ∧
          List.Forall₂ (fun e v' => e.2.Arrives e.1 m.memory v' k.memory) (d.args.zip args) args'
        Yields (Downcall.passArguments (pointer?.toList.map .address ++ args) down.argumentPrograms) m
          fun _ n =>
            Yields (Upcall.takeArguments up.argumentPrograms) n received ∧
              ∀ capacity,
                Yields (Upcall.takeArguments up.argumentPrograms)
                  { n with scratch := Scratch.new capacity } received := by
  obtain ⟨plan, rs, hpaired⟩ := arrange_paired hdown hup
  obtain ⟨frame, hframe⟩ := FrameLayout.exists_covering c down.storages
  refine ⟨frame, hframe, hpaired.storages_eq ▸ hframe, ?_⟩
  intro σ m pointer? args hlayout hm hpointer hargs hlive received
  have hss := hpaired.inFrame hframe hstack
  rw [← hlayout] at hss
  rw [hpaired.argumentPrograms_down, hpaired.argumentPrograms_up]
  rw [hpaired.describesDown.isIndirect] at hpointer
  rw [hpaired.layouts, List.forall₂_map_right_iff] at hargs
  have hsound := hpaired.routes_sound
  unfold ResultPlan.routes at *
  cases hplan : plan.pointer? <;> cases pointer? <;> rw [hplan] at hpointer hss hsound <;> cases hpointer
  case none.none =>
    refine routes_round_trip hargs hsound hss hm hlive fun vs' k hvs' => ⟨vs', rfl, ?_⟩
    rw [hpaired.layouts]
    exact hvs'
  case some.some storage p =>
    -- The address of the result buffer travels like an argument in front of the others.
    have hvs : List.Forall₂ (fun v r => Value.Fits v r.layout) (.address p :: args)
        (Route.ofAddress storage :: rs) :=
      .cons ⟨rfl, by simp⟩ hargs
    refine routes_round_trip hvs hsound hss hm (by simpa using hlive) fun vs' k hvs' => ?_
    cases hvs' with
    | cons hp hargs' =>
      obtain rfl := hp
      refine ⟨_, rfl, ?_⟩
      rw [hpaired.layouts]
      exact hargs'

/-- A byte, a structure that travels as a private copy and three singles in vector registers, with a result in
memory. -/
theorem arguments_round_trip_aarch64 :
    let triple : Layout := .struct [.value .i64, .value .i64, .value .i64]
    let singles : Layout := .struct [.value .f32, .value .f32, .value .f32]
    let d : Descriptor := ⟨[.value .i8, triple, singles], some triple⟩
    let s : Segment := .global (BitVec.ofNat 64 Memory.firstAddress) 24
    let args : List Value := [.i8 200, .segment s, .segment s]
    let memory : Memory := ⟨fun a => BitVec.ofNat 8 a, Memory.firstAddress + 24, []⟩
    ∃ down up frame, arrange .aarch64 d .downcall = .ok down ∧ arrange .aarch64 d .upcall = .ok up ∧
      FrameLayout.covering .aarch64 up.storages = .ok frame ∧
      let m : Machine Unit :=
        ⟨⟨frame, Array.replicate frame.wordCount 0, Array.size_replicate⟩, memory, .new 64, #[], ()⟩
      ∃ n args' k, Downcall.passArguments (.address 4096 :: args) down.argumentPrograms m = .ok () n ∧
        Upcall.takeArguments up.argumentPrograms n = .ok (.address 4096 :: args') k ∧
        List.Forall₂ (fun e v' => e.2.Arrives e.1 m.memory v' k.memory) (d.args.zip args) args' := by
  intro triple singles d s args memory
  let move (kind : StorageClass) (i : Nat) : Primitive → Step := .move (.slot kind i 8)
  let down : CallingSequence := ⟨.downcall, [⟨.primitive .i8, .value .i8, [move .integerArg 0 .i8]⟩,
    ⟨.segment, triple, [.copy 24 8, .baseAddress, .boxAddress, move .integerArg 1 .i64]⟩,
    ⟨.segment, singles,
      [.dup, .field 0 .f32, move .vectorArg 0 .f32, .dup, .field 4 .f32, move .vectorArg 1 .f32,
        .field 8 .f32, move .vectorArg 2 .f32]⟩], none,
    some ⟨[.boxAddress, move .indirectResult 0 .i64], triple, 24⟩, 24⟩
  let up : CallingSequence := ⟨.upcall, [⟨.primitive .i8, .value .i8, [move .integerArg 0 .i8]⟩,
    ⟨.segment, triple, [move .integerArg 1 .i64, .boxAddress, .copy 24 8]⟩,
    ⟨.segment, singles,
      [.allocate 12 4, move .vectorArg 0 .f32, .field 0 .f32, move .vectorArg 1 .f32, .field 4 .f32,
        move .vectorArg 2 .f32, .field 8 .f32]⟩], none,
    some ⟨[move .indirectResult 0 .i64, .boxAddress], triple, 24⟩, 36⟩
  let frame : FrameLayout :=
    ⟨[⟨0, 8, 8⟩, ⟨64, 8, 8⟩, ⟨128, 0, 8⟩, ⟨128, 1, 8⟩, ⟨136, 2, 8⟩, ⟨152, 4, 8⟩, ⟨184, 0, 16⟩], 184⟩
  have hdown : arrange .aarch64 d .downcall = .ok down := rfl
  have hup : arrange .aarch64 d .upcall = .ok up := rfl
  obtain ⟨frame', hframe', hframe, h⟩ := arguments_round_trip hdown hup (by decide)
  obtain rfl : frame' = frame := ok_unique hframe' (FrameLayout.covering_aarch64 (by decide))
  refine ⟨down, up, frame, hdown, hup, hframe, ?_⟩
  intro m
  have hlive : s.Live m := Segment.Valid.live ⟨rfl, by decide⟩ (.inl (Nat.le_refl _)) rfl
  have hfits {l : Layout} {size : Nat} (hcarrier : l.carrier = .segment) (hsize : l.byteSize = .ok size)
      (hle : size ≤ 24) : Value.Fits (.segment s) l := by
    refine ⟨hcarrier ▸ rfl, fun t ht => ⟨size, hsize, ?_⟩⟩
    cases ht
    exact hle
  have hargs : List.Forall₂ Value.Fits args d.args :=
    .cons ⟨rfl, by simp⟩ (.cons (hfits rfl (by cbv) (by decide)) (.cons (hfits rfl (by cbv) (by decide)) .nil))
  have hmemory : memory.Sound := ⟨by decide, by simp [memory]⟩
  have hpassed := h Unit m (some 4096) args rfl (Scratch.new_sound hmemory 64) rfl hargs fun t ht => by
    obtain rfl : t = s := by simpa [args] using ht
    exact hlive
  let x : Engine Unit (List Value) := do
    Downcall.passArguments (.address 4096 :: args) down.argumentPrograms
    Upcall.takeArguments up.argumentPrograms
  obtain ⟨vs, hvs, -⟩ := exists_ok_of_any (x := (Engine.observe x m).1) (p := fun _ => true) (by decide +kernel)
  obtain ⟨k, hrun⟩ := Engine.exists_of_observe hvs
  obtain ⟨⟨⟩, n, hpass, htake⟩ := Engine.bind_eq_ok.1 hrun
  obtain ⟨args', rfl, harrive⟩ := (hpassed.at_ok hpass).1.at_ok htake
  exact ⟨n, args', k, hpass, htake, harrive⟩

end ForeignCall
