import ForeignCall.Proofs.Arrangement.Routes
import ForeignCall.Proofs.Engine.Access
import ForeignCall.Proofs.Transport.Footprint

/-!
# Arguments that go by reference

* `Program.reference?`: the programs that pass the address of a copy;
* `Frame.PointsTo`: a storage holds the address of one of some segments;
* `Engine.unbox_pointsTo`: a program that passes the address of a copy makes the copy in the arena;
* `Refers`: of several arguments one goes by reference, and no later one writes over its address.
-/

namespace ForeignCall

variable {σ : Type} {l : FrameLayout} {p : Program} {ps : List Program} {r : Storage} {size : Nat}
  {given given' : List Segment}

/-- The storage that a program passes the address of a copy in, and the size of the copy. -/
def Program.reference? : Program → Option (Storage × Nat)
  | [.copy size _, .baseAddress, .boxAddress, .move r .i64] => some (r, size)
  | _ => none

theorem Program.reference?_eq_some (h : p.reference? = some (r, size)) :
    ∃ alignment, p = [.copy size alignment, .baseAddress, .boxAddress, .move r .i64] := by
  unfold reference? at h
  split at h
  · next alignment _ =>
    cases h
    exact ⟨alignment, rfl⟩
  · cases h

/-- The storage holds the address of one of the segments, which has the given size. -/
def Frame.PointsTo (f : Frame) (given : List Segment) (r : Storage) (size : Nat) : Prop :=
  ∃ t ∈ given, f.wordAt r = t.address ∧ t.length = size

theorem Frame.PointsTo.mono {f g : Frame} (h : f.PointsTo given r size) (hgiven : ∀ t ∈ given, t ∈ given')
    (hword : g.wordAt r = f.wordAt r) : g.PointsTo given' r size := by
  obtain ⟨t, ht, haddress, hlength⟩ := h
  exact ⟨t, hgiven t ht, hword.trans haddress, hlength⟩

namespace Interpreter

theorem unboxStep_copy (alignment : Nat) (stack : List Value) (m : Machine σ) :
    Ends (unboxStep (.copy size alignment) stack) m (Footprint [] [(size, alignment)]
      (fun given next _ => ∃ t ∈ given, t.length = size ∧ next = .segment t :: stack.tail) m) := by
  refine .lift_bind (fun ⟨s, rest⟩ hpop => ?_) fun _ _ => .fault (.refl m)
  obtain rfl := popSegment_eq_ok.1 hpop
  let copied (given : List Segment) (next : List Value) := ∃ t ∈ given, t.length = size ∧
    next = .segment t :: rest
  refine Stands.allocated (I := copied) (.refl m) fun t n hn => ?_
  refine (Engine.takeSegment_same s size n).andThen (fun u k hk => ?_) fun _ k hk => hk ▸ ⟨hn, nofun⟩
  subst hk
  have hlength : [t].map Segment.length = [size] := hn.issues.lengths
  have hcopied : copied ([] ++ [t]) (.segment t :: rest) := ⟨t, by simp, by simpa using hlength, rfl⟩
  exact Stands.filled (I := copied) hn (by simp) (Engine.copySegment_fills t u k) hcopied

theorem run_passAddress (t : Segment) (r : Storage) (m : Machine σ) :
    Ends (run .unboxStep unboxStep [.baseAddress, .boxAddress, .move r .i64] [.segment t]) m
      (Footprint [r] [] (fun _ _ n => n.frame.wordAt r = t.address) m) := by
  have hbase : (unboxStep .baseAddress [.segment t] : Engine σ _) = pure [.address t.address] := rfl
  have hbox : (unboxStep .boxAddress [.address t.address] : Engine σ _) = pure [.i64 t.address] := rfl
  have hmove : (unboxStep (.move r .i64) [.i64 t.address] : Engine σ _)
      = Engine.writeStorage r t.address >>= fun _ => pure [] := rfl
  simp only [run, hbase, hbox, hmove, pure_bind, bind_assoc]
  have hlog (log : Array LogEvent) := Carves.withLog m log
  refine .record (.record (.record (.bind_of (fun _ n hn => ?_) fun e n hn => ?_)))
  · obtain ⟨_, -, -, hword⟩ := Engine.of_writeStorage_eq_ok hn
    exact .pure (.of_carves ((hlog _).trans ((Engine.writeStorage_carves ..).of_ok hn)) hword)
  · exact .fault ((hlog _).trans ((Engine.writeStorage_carves ..).of_error hn))

end Interpreter

/-- A program that passes the address of a copy makes the copy in the arena. -/
theorem Engine.unbox_reference (h : p.reference? = some (r, size)) (v : Value) (m : Machine σ) :
    Ends (unbox v p) m
      (Footprint p.storages p.requests (fun given _ n => n.frame.PointsTo given r size) m) := by
  obtain ⟨alignment, rfl⟩ := Program.reference?_eq_some h
  have hrun : Ends (Interpreter.run .unboxStep Interpreter.unboxStep
      [.copy size alignment, .baseAddress, .boxAddress, .move r .i64] [v]) m
      (Footprint [r] [(size, alignment)] (fun given _ n => n.frame.PointsTo given r size) m) := by
    refine .record (((Interpreter.unboxStep_copy alignment [v] _).footprint ?_).mono fun _ _ =>
      Footprint.withLog)
    rintro _ n _ given _ ⟨t, ht, hlength, rfl⟩
    refine (Interpreter.run_passAddress t r n).mono ?_
    rintro outcome k ⟨made, given', hk, hmade, hword⟩
    exact ⟨made, given', hk, hmade, fun next hnext => ⟨t, List.mem_append_left _ ht, hword next hnext, hlength⟩⟩
  exact hrun.footprint_nil fun stack n _ given _ hpoints =>
    .lift_ok (fun _ _ => .of_carves (.refl n) (by rwa [List.append_nil])) fun _ _ => .fault (.refl n)

/-- **What a program passes by reference lies in the arena.** -/
theorem Engine.unbox_pointsTo (v : Value) (p : Program) (m : Machine σ) :
    Ends (unbox v p) m (Footprint p.storages p.requests
      (fun given _ n => ∀ r size, p.reference? = some (r, size) → n.frame.PointsTo given r size) m) := by
  cases hp : p.reference? with
  | none =>
    refine (unbox_footprint v p m).mono ?_
    rintro outcome n ⟨made, given, hn, hmade, -⟩
    exact ⟨made, given, hn, hmade, nofun⟩
  | some reference =>
    refine (unbox_reference hp v m).mono ?_
    rintro outcome n ⟨made, given, hn, hmade, hpoints⟩
    refine ⟨made, given, hn, hmade, fun a ha r size href => ?_⟩
    cases href
    exact hpoints a ha

/-! ### Several arguments -/

/-- Of the programs of arguments, one passes the address of a copy in the storage, and no later one writes
its word. -/
inductive Refers (l : FrameLayout) (r : Storage) (size : Nat) : List Program → Prop
  | here {p : Program} {ps : List Program} : p.reference? = some (r, size) →
      (∀ s ∈ Program.storages ps.flatten, l.Apart s r) → Refers l r size (p :: ps)
  | there {p : Program} {ps : List Program} : Refers l r size ps → Refers l r size (p :: ps)

theorem Refers.exists_mem (h : Refers l r size ps) : ∃ p ∈ ps, p.reference? = some (r, size) := by
  induction h with
  | here h _ => exact ⟨_, List.mem_cons_self, h⟩
  | there _ ih =>
    obtain ⟨p, hp, h⟩ := ih
    exact ⟨p, List.mem_cons_of_mem _ hp, h⟩

/-- If no two storages of the programs share a word, every address of a copy stays where it is. -/
theorem Refers.of_apart (hps : (Program.storages ps.flatten).Pairwise l.Apart) (hp : p ∈ ps)
    (h : p.reference? = some (r, size)) : Refers l r size ps := by
  induction ps with
  | nil => cases hp
  | cons q ps ih =>
    rw [List.flatten_cons, Program.storages_append, List.pairwise_append] at hps
    obtain ⟨-, hrest, hbetween⟩ := hps
    rcases List.mem_cons.1 hp with rfl | hp
    · refine .here h fun s hs => (hbetween r ?_ s hs).symm
      obtain ⟨alignment, rfl⟩ := Program.reference?_eq_some h
      simp [Program.storages, Step.storage?]
    · exact .there (ih hrest hp)

end ForeignCall
