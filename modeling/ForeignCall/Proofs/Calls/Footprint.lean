import ForeignCall.Downcall
import ForeignCall.Proofs.Transport.References
import ForeignCall.Upcall

/-!
# The footprint of a call

* `Downcall.send`, `Upcall.receive`: what a call does until code from outside runs, and `Downcall.body`,
  `Upcall.body`: all that it does with its arena.  `Downcall.interpret_eq`, `Upcall.interpret_eq`: a call is
  its body with a fresh arena;
* one lemma for each part of a call, about its footprint;
* `Scratch.Meets`: what a call takes from its arena, memory on the requests of its programs, on all of them
  if it succeeds. `Downcall.body_meets`, `Upcall.body_meets`.
-/

namespace ForeignCall

variable {σ α ε : Type} {m n k : Machine σ} {s : CallingSequence} {args : List Value}
  {ps : List Program} {p q : Program} {given : List Segment} {buffer : Option Segment}

theorem Program.requests_append (p q : Program) : requests (p ++ q) = requests p ++ requests q :=
  List.filterMap_append ..

/-! ### Downcalls -/

namespace Downcall

/-- What a call does until its native code runs. -/
def send (name : String) (s : CallingSequence) (args : List Value) : Engine σ (Option Segment) := do
  let buffer ← passResultBuffer s
  passArguments args s.userPrograms
  Engine.record (.downcall name)
  return buffer

/-- What it does from then on. -/
def answer (name : String) (s : CallingSequence) (returnsAddress : Bool) (native : Native σ)
    (buffer : Option Segment) :
    Engine σ (Except NativeError Value) := do
  match ← Engine.native native with
  | .error e => return .error e
  | .ok () => takeResult name s returnsAddress buffer

/-- What a call does with its arena. -/
def body (name : String) (s : CallingSequence) (returnsAddress : Bool) (native : Native σ) (args : List Value) :
    Engine σ (Except NativeError Value) := do
  answer name s returnsAddress native (← send name s args)

theorem send_bind (name : String) (s : CallingSequence) (args : List Value) (f : Option Segment → Engine σ α) :
    send name s args >>= f = (do
      let buffer ← passResultBuffer s
      passArguments args s.userPrograms
      Engine.record (.downcall name)
      f buffer) := by
  simp only [send, bind_assoc, pure_bind]

theorem interpret_eq (name : String) (s : CallingSequence) (returnsAddress : Bool) (native : Native σ)
    (args : List Value) :
    interpret name s returnsAddress native args
      = Engine.withScratch s.scratchSize (body name s returnsAddress native args) := by
  unfold body
  rw [send_bind]
  rfl

theorem passResultBuffer_footprint (s : CallingSequence) (m : Machine σ) :
    Ends (passResultBuffer s) m (Footprint (Program.storages s.pointerProgram?.toList.flatten)
      (Program.requests s.pointerProgram?.toList.flatten) (fun _ buffer _ =>
        ∀ b ∈ buffer, b.scope = .owned) m) := by
  unfold passResultBuffer CallingSequence.pointerProgram?
  cases s.indirect with
  | none => exact .pure (.of_carves (.refl m) (by simp))
  | some i =>
    rw [Option.map_some, Option.toList_some, List.flatten_singleton]
    refine .footprint (Engine.allocateOwned_footprint ..) fun b n _ _ _ hscope => ?_
    refine .footprint_nil (Engine.unbox_footprint ..) fun _ k _ _ _ _ =>
      .pure (.of_carves (.refl k) fun b' hb' => ?_)
    obtain rfl := Option.mem_some_iff.1 hb'
    exact hscope

/-- Arguments that go by reference lie in the arena. -/
theorem passArguments_footprint (hlength : args.length = ps.length) (m : Machine σ) :
    Ends (passArguments args ps) m (Footprint (Program.storages ps.flatten) (Program.requests ps.flatten)
      (fun given _ n => ∀ r size, Refers m.frame.layout r size ps → n.frame.PointsTo given r size) m) := by
  induction ps generalizing args m with
  | nil =>
    obtain rfl := List.length_eq_zero_iff.1 hlength
    exact .pure (.of_carves (Carves.refl m) nofun)
  | cons p ps ih =>
    cases args with
    | nil => cases hlength
    | cons v vs =>
      rw [List.flatten_cons, Program.storages_append, Program.requests_append]
      refine .footprint (Engine.unbox_pointsTo v p m) fun _ n _ given hn hfirst => ?_
      refine (ih (by simpa using hlength) n).mono ?_
      rintro outcome k ⟨made, given', hk, hmade, hrest⟩
      refine ⟨made, given', hk, hmade, fun a ha r size hrefers => ?_⟩
      rw [hn.layout] at hrest
      cases hrefers with
      | here href hapart =>
        refine (hfirst r size href).mono (fun t => List.mem_append_left _) (hk.wordAt ?_)
        rwa [hn.layout]
      | there hrefers => exact (hrest a ha r size hrefers).mono (fun t => List.mem_append_right _) rfl

/-- What native code finds: the result buffer is no part of the arena, and the arguments that go by
reference are. -/
theorem send_footprint (hlength : args.length = s.arguments.length) (name : String) (m : Machine σ) :
    Ends (send name s args) m (Footprint (Program.storages s.argumentPrograms.flatten)
      (Program.requests s.argumentPrograms.flatten) (fun given buffer n => (∀ b ∈ buffer, b.scope = .owned) ∧
        ∀ r size, Refers m.frame.layout r size s.userPrograms → n.frame.PointsTo given r size) m) := by
  unfold send CallingSequence.argumentPrograms
  rw [List.flatten_append, Program.storages_append, Program.requests_append]
  refine .footprint (passResultBuffer_footprint s m) fun buffer n _ given hn hscope => ?_
  refine .footprint_nil (passArguments_footprint (by simpa [CallingSequence.userPrograms] using hlength) n) ?_
  rintro ⟨⟩ k _ given' - hpoints
  refine .record (.pure (.of_carves (Carves.withLog k _) ⟨hscope, fun r size hrefers => ?_⟩))
  rw [hn.layout] at hpoints
  exact (hpoints r size hrefers).mono (by simp +contextual) rfl

theorem detach_footprint (v : Value) (m : Machine σ) :
    Ends (detach v) m (Footprint [] [] (fun _ w _ => ∀ t, w = .segment t → t.scope = .owned) m) := by
  cases v with
  | segment t =>
    refine .footprint (Engine.toOwned_footprint t m) fun copy n _ _ _ hscope =>
      .pure (.of_carves (.refl n) fun u hu => ?_)
    cases hu
    exact hscope
  | _ => exact .pure (.of_carves (.refl m) nofun)

/-- A result never lies in the arena. -/
theorem takeResult_footprint (hbuffer : ∀ b ∈ buffer, b.scope = .owned) (name : String) (returnsAddress : Bool)
    (m : Machine σ) :
    Ends (takeResult name s returnsAddress buffer) m
      (Footprint [] s.resultProgram.requests (fun _ r _ => ∀ t, r = .ok (.segment t) →
        t.scope = .owned) m) := by
  unfold takeResult
  refine .footprint_nil (Engine.box_footprint s.resultProgram m) fun returned n _ _ _ _ => ?_
  cases buffer with
  | none =>
    refine .footprint (detach_footprint returned n) fun v k _ _ _ hscope =>
      .pure (.of_carves (.refl k) fun t ht => ?_)
    cases ht
    exact hscope t rfl
  | some b =>
    dsimp only
    split
    · exact .pure (.of_carves (.refl n) nofun)
    · refine .pure (.of_carves (.refl n) fun t ht => ?_)
      cases ht
      exact hbuffer b rfl

end Downcall

/-! ### Upcalls -/

namespace Upcall

/-- What an upcall does until its target runs. -/
def receive (s : CallingSequence) : Engine σ (Option Segment × List Value) := do
  let buffer ← takeResultBuffer s
  let args ← takeArguments s.userPrograms
  Engine.record (.upcall args.length)
  return (buffer, args)

/-- What it does from then on. -/
def answer (s : CallingSequence) (target : Target σ) (received : Option Segment × List Value) :
    Engine σ (Except CallError Unit) := do
  match ← Engine.managed (target received.2) with
  | .error message => return .error (.target message)
  | .ok v =>
    match ← Engine.outcome (checkResult s v) with
    | .error e => return .error e
    | .ok () =>
      deliver s received.1 v
      return .ok ()

/-- What an upcall does with its arena. -/
def body (s : CallingSequence) (target : Target σ) : Engine σ (Except CallError Unit) := do
  answer s target (← receive s)

theorem receive_bind (s : CallingSequence) (f : Option Segment × List Value → Engine σ α) :
    receive s >>= f = (do
    let buffer ← takeResultBuffer s
    let args ← takeArguments s.userPrograms
    Engine.record (.upcall args.length)
    f (buffer, args)) := by
  simp only [receive, bind_assoc, pure_bind]

theorem interpret_eq (s : CallingSequence) (target : Target σ) :
    interpret s target = Engine.withScratch s.scratchSize (body s target) := by
  unfold body
  rw [receive_bind]
  rfl

theorem takeResultBuffer_footprint (s : CallingSequence) (m : Machine σ) :
    Ends (takeResultBuffer s) m
      (Footprint [] (Program.requests s.pointerProgram?.toList.flatten) (fun _ _ _ => True) m) := by
  unfold takeResultBuffer CallingSequence.pointerProgram?
  cases s.indirect with
  | none => exact .pure (.of_carves (.refl m) trivial)
  | some i =>
    rw [Option.map_some, Option.toList_some, List.flatten_singleton]
    refine (Engine.box_footprint i.pointer m).andThen ?_ fun e n ⟨made, given, hn, hmade, _⟩ =>
      ⟨made, given, hn, hmade, nofun⟩
    rintro v n ⟨made, given, hn, hmade, -⟩
    cases v with
    | address a => exact .pure ⟨made, given, hn, hmade, fun _ _ => trivial⟩
    | _ => exact ⟨made, given, hn, hmade.isPrefix, nofun⟩

theorem takeArguments_footprint (ps : List Program) (m : Machine σ) :
    Ends (takeArguments ps) m (Footprint [] (Program.requests ps.flatten)
      (fun given args _ => ∀ t, .segment t ∈ args → t ∈ given) m) := by
  induction ps generalizing m with
  | nil => exact .pure (.of_carves (.refl m) (by simp))
  | cons p ps ih =>
    rw [List.flatten_cons, Program.requests_append]
    refine .footprint (Engine.box_footprint p m) fun v n _ given _ hv => ?_
    refine .footprint_nil (ih n) fun args k _ given' _ hargs => .pure (.of_carves (.refl k) fun t ht => ?_)
    rw [List.append_nil]
    rcases List.mem_cons.1 ht with ht | ht
    · exact List.mem_append_left _ (hv t ht.symm)
    · exact List.mem_append_right _ (hargs t ht)

/-- What a target receives lies in the arena. -/
theorem receive_footprint (s : CallingSequence) (m : Machine σ) :
    Ends (receive s) m (Footprint [] (Program.requests s.argumentPrograms.flatten)
      (fun given received _ => ∀ t, .segment t ∈ received.2 → t ∈ given) m) := by
  unfold receive CallingSequence.argumentPrograms
  rw [List.flatten_append, Program.requests_append]
  refine .footprint (takeResultBuffer_footprint s m) fun buffer n _ given _ _ => ?_
  refine .footprint_nil (takeArguments_footprint s.userPrograms n) fun args k _ given' _ hargs => ?_
  exact .record (.pure (.of_carves (.withLog k _) fun t ht => by simp [hargs t ht]))

end Upcall

/-! ### What calls draw from their arena -/

/-- The arena issues segments on the first of the requests, and on all of them if `all` holds. -/
def Scratch.Meets (s : Scratch) (requests : List (Nat × Nat)) (all : Prop) (s' : Scratch) : Prop :=
  ∃ made given, s.Issues made given s' ∧ made <+: requests ∧ (all → made = requests)

namespace Scratch.Meets

variable {s s' s'' : Scratch} {requests requests' : List (Nat × Nat)} {all : Prop}

theorem of_footprint {ss : List Storage} {Q : List Segment → α → Machine σ → Prop} {r : Except Fault α}
    (h : Footprint ss requests Q m r n) : m.scratch.Meets requests (∃ a, r = .ok a) n.scratch := by
  obtain ⟨made, given, hn, hmade, -⟩ := h
  refine ⟨made, given, hn.issues, hmade.isPrefix, ?_⟩
  rintro ⟨a, rfl⟩
  exact hmade

theorem trans (h : s.Meets requests True s') (h' : s'.Meets requests' all s'') :
    s.Meets (requests ++ requests') all s'' := by
  obtain ⟨made, given, hissues, -, hmade⟩ := h
  obtain ⟨made', given', hissues', hmade', hall⟩ := h'
  obtain rfl := hmade trivial
  exact ⟨made ++ made', given ++ given', hissues.trans hissues', (List.prefix_append_right_inj _).2 hmade',
    fun h => congrArg (made ++ ·) (hall h)⟩

/-- A call that has stopped before it made all requests. -/
theorem stop {all' : Prop} (h : s.Meets requests all' s') (hall : ¬ all) :
    s.Meets (requests ++ requests') all s' := by
  obtain ⟨made, given, hissues, hmade, -⟩ := h
  exact ⟨made, given, hissues, hmade.trans (List.prefix_append _ _), fun h => absurd h hall⟩

theorem mono {all' : Prop} (h : s.Meets requests all s') (hall : all' → all) : s.Meets requests all' s' := by
  obtain ⟨made, given, hissues, hmade, h⟩ := h
  exact ⟨made, given, hissues, hmade, fun h' => h (hall h')⟩

theorem none (hall : ¬ all) : s.Meets requests all s :=
  ⟨[], [], .nil s, List.nil_prefix, fun h => absurd h hall⟩

theorem kept {t : Segment} (h : s.Meets requests all s') (ht : t.CarvedFrom s) : t.CarvedFrom s' := by
  obtain ⟨_, _, hissues, -⟩ := h
  exact hissues.kept ht

end Scratch.Meets

theorem CallingSequence.requests_steps (s : CallingSequence) : Program.requests s.steps
    = Program.requests s.argumentPrograms.flatten ++ s.resultProgram.requests := Program.requests_append ..

theorem Engine.native_scratch (x : Engine σ α) (m : Machine σ) :
    Ends (Engine.native x) m fun _ n => n.scratch = m.scratch :=
  .native (P := fun _ _ => True) (.of_finishes fun _ _ _ => trivial) fun _ _ _ => rfl

theorem Engine.managed_scratch (x : Engine σ α) (m : Machine σ) :
    Ends (Engine.managed x) m fun _ n => n.scratch = m.scratch :=
  .managed (P := fun _ _ => True) (.of_finishes fun _ _ _ => trivial) fun _ _ _ => rfl

theorem Downcall.answer_meets (hbuffer : ∀ b ∈ buffer, b.scope = .owned) (name : String) (returnsAddress : Bool)
    (native : Native σ) (m : Machine σ) :
    Ends (answer name s returnsAddress native buffer) m fun r n =>
      m.scratch.Meets s.resultProgram.requests (∃ v, r = .ok (.ok v)) n.scratch ∧
        ∀ t, r = .ok (.ok (.segment t)) → t.scope = .owned := by
  refine (Engine.native_scratch native m).andThen (fun outcome n hn => ?_) fun e n hn => ?_
  · rw [← hn]
    cases outcome with
    | error e => exact .pure ⟨.none (by simp), nofun⟩
    | ok _ =>
      refine (takeResult_footprint hbuffer name returnsAddress n).mono fun r k hk => ⟨?_, ?_⟩
      · exact (Scratch.Meets.of_footprint hk).mono fun ⟨v, hv⟩ => ⟨_, hv⟩
      · obtain ⟨_, _, -, -, hresult⟩ := hk
        exact fun t ht => hresult _ ht t rfl
  · rw [hn]
    exact ⟨.none (by simp), nofun⟩

/-- **A downcall draws on its arena for its programs only**, once for each if it succeeds.  Its result lies
elsewhere. -/
theorem Downcall.body_meets (hlength : args.length = s.arguments.length) (name : String) (returnsAddress : Bool)
    (native : Native σ) (m : Machine σ) :
    Ends (body name s returnsAddress native args) m fun r n =>
      m.scratch.Meets (Program.requests s.steps) (∃ v, r = .ok (.ok v)) n.scratch ∧
        (∀ t, r = .ok (.ok (.segment t)) → t.scope = .owned) ∧
        ∀ buffer k, send name s args m = .ok buffer k → ∀ t, Segment.CarvedFrom t k.scratch →
          t.CarvedFrom n.scratch := by
  rw [s.requests_steps]
  have hsend := send_footprint hlength name m
  refine .bind_of (fun buffer k hrun => ?_) fun e k hrun => ?_
  · have hfootprint := hsend.of_ok hrun
    have hmeets := Scratch.Meets.of_footprint hfootprint
    obtain ⟨_, _, -, -, hfound⟩ := hfootprint
    refine (answer_meets (hfound buffer rfl).1 name returnsAddress native k).mono fun r n ⟨hn, howned⟩ => ?_
    refine ⟨(hmeets.mono fun _ => ⟨_, rfl⟩).trans hn, howned, fun buffer' k' hrun' t ht => ?_⟩
    obtain ⟨rfl, rfl⟩ := EStateM.Result.ok.inj (hrun.symm.trans hrun')
    exact hn.kept ht
  · refine ⟨(Scratch.Meets.of_footprint (hsend.of_error hrun)).stop (by simp), nofun, ?_⟩
    intro buffer k' hrun'
    cases hrun.symm.trans hrun'

theorem Upcall.passResult_meets (s : CallingSequence) (v : Value) (m : Machine σ) :
    Ends (passResult s v) m fun r n => m.scratch.Meets s.resultProgram.requests (∃ a, r = .ok a) n.scratch := by
  unfold passResult
  split
  · exact (Engine.unbox_footprint v s.resultProgram m).mono fun r n => .of_footprint
  · next hprogram =>
    have hnil : s.resultProgram = [] := by simpa [CallingSequence.hasResultProgram] using hprogram
    rw [hnil]
    exact .pure ⟨[], [], .nil _, List.nil_prefix, fun _ => rfl⟩

theorem Upcall.deliver_meets (s : CallingSequence) (buffer : Option Segment) (v : Value) (m : Machine σ) :
    Ends (deliver s buffer v) m fun r n =>
      m.scratch.Meets s.resultProgram.requests (∃ a, r = .ok a) n.scratch := by
  unfold deliver
  cases buffer with
  | none => exact passResult_meets s v m
  | some b =>
    cases v with
    | segment t =>
      refine (Engine.takeSegment_same t b.length m).andThen (fun t' n hn => ?_) fun e n hn =>
        hn ▸ .none (by simp)
      subst hn
      refine (Engine.copySegment_fills b t' n).andThen (fun _ k hk => ?_) fun e k hk =>
        hk.scratch ▸ .none (by simp)
      rw [← hk.scratch]
      exact passResult_meets s _ k
    | _ => exact Scratch.Meets.none (by simp)

theorem Upcall.answer_meets (s : CallingSequence) (target : Target σ) (received : Option Segment × List Value)
    (m : Machine σ) :
    Ends (answer s target received) m fun r n =>
      m.scratch.Meets s.resultProgram.requests (r = .ok (.ok ())) n.scratch := by
  refine (Engine.managed_scratch (target received.2) m).andThen (fun outcome n hn => ?_) fun e n hn =>
    hn ▸ .none (by simp)
  rw [← hn]
  cases outcome with
  | error message => exact .pure (.none (by simp))
  | ok v =>
    refine (Ends.outcome (Q := fun _ k => k = n) fun _ => rfl).andThen (fun checked k hk => ?_) fun e k hk => ?_
    · subst hk
      cases checked with
      | error e => exact .pure (.none (by simp))
      | ok _ =>
        exact (deliver_meets s received.1 v k).andThen (fun _ i hi => .pure (hi.mono fun _ => ⟨_, rfl⟩))
          fun e i hi => hi.mono (by simp)
    · exact hk ▸ .none (by simp)

/-- **An upcall draws on its arena for its programs only**, once for each if it succeeds.  Its target
receives what was carved from the arena. -/
theorem Upcall.body_meets (s : CallingSequence) (target : Target σ) (m : Machine σ) :
    Ends (body s target) m fun r n =>
      m.scratch.Meets (Program.requests s.steps) (r = .ok (.ok ())) n.scratch ∧
        ∀ received k, receive s m = .ok received k → (∀ t, .segment t ∈ received.2 → t.CarvedFrom k.scratch) ∧
          ∀ t, Segment.CarvedFrom t k.scratch → t.CarvedFrom n.scratch := by
  rw [s.requests_steps]
  have hreceive := receive_footprint s m
  refine .bind_of (fun received k hrun => ?_) fun e k hrun => ?_
  · have hfootprint := hreceive.of_ok hrun
    have hmeets := Scratch.Meets.of_footprint hfootprint
    obtain ⟨_, given, hk, -, hreceived⟩ := hfootprint
    refine (answer_meets s target received k).mono fun r n hn => ⟨(hmeets.mono fun _ => ⟨_, rfl⟩).trans hn, ?_⟩
    intro received' k' hrun'
    obtain ⟨rfl, rfl⟩ := EStateM.Result.ok.inj (hrun.symm.trans hrun')
    exact ⟨fun t ht => hk.issues.carvedFrom t (hreceived _ rfl t ht), fun t ht => hn.kept ht⟩
  · refine ⟨(Scratch.Meets.of_footprint (hreceive.of_error hrun)).stop (by simp), ?_⟩
    intro received k' hrun'
    cases hrun.symm.trans hrun'

end ForeignCall
