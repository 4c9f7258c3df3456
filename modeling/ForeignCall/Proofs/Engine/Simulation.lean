import ForeignCall.Proofs.Engine.Running
import ForeignCall.Proofs.Stopping

/-!
# Computations that show the same

* `Machine.view`: what the code outside of a call sees of a machine — its frame, memory and its own state;
* `Engine.observe`: the value or fault of a computation and the view of the machine that it leaves;
* `Simulates l R x y`: started on machines of one view, whose frame has the layout `l`, the computations `x`
  and `y` give values related by `R`, or the same fault, and leave machines of one view and that layout.
  Only `y` runs inside a call: it has a scratch arena, which has to stay empty, and a log of its own;
* `Shows`: so do their results, whatever layout the frame has in the end.

`observe_withScratch` turns a simulation by the body of a call into equal observations of the whole call.
-/

namespace ForeignCall

/-- What the code outside of a call sees of a machine. -/
structure View (σ : Type) where
  frame : Frame
  memory : Memory
  world : σ

variable {σ α β γ δ : Type}

/-- The frame, the memory and the world of a machine. -/
def Machine.view (m : Machine σ) : View σ := ⟨m.frame, m.memory, m.world⟩

theorem Machine.view_eq_iff {m n : Machine σ} :
    m.view = n.view ↔ m.frame = n.frame ∧ m.memory = n.memory ∧ m.world = n.world := by
  simp [Machine.view]

/-- The value or fault of a computation and the view of the machine that it leaves. -/
def Engine.observe (x : Engine σ α) (m : Machine σ) : Except Fault α × View σ :=
  match x m with
  | .ok a n => (.ok a, n.view)
  | .error f n => (.error f, n.view)

theorem Engine.exists_of_observe {x : Engine σ α} {m : Machine σ} {a : α} (h : (Engine.observe x m).1 = .ok a) :
    ∃ n, x m = .ok a n := by
  unfold Engine.observe at h
  cases hx : x m with
  | ok b n =>
    rw [hx] at h
    cases h
    exact ⟨n, rfl⟩
  | error f n =>
    rw [hx] at h
    cases h

theorem Engine.exists_value_of_observe {ε : Type} {x : Engine σ (Except ε α)} {m : Machine σ}
    (h : (Engine.observe x m).1.toOption.any (fun r => r.isOk) = true) : ∃ a n, x m = .ok (.ok a) n := by
  obtain ⟨r, hr, hok⟩ := exists_ok_of_any h
  obtain ⟨n, hx⟩ := exists_of_observe hr
  cases r with
  | ok a => exact ⟨a, n, hx⟩
  | error e => cases hok

theorem Engine.exists_error_of_observe {x : Engine σ α} {m : Machine σ} {f : Fault}
    (h : (Engine.observe x m).1 = .error f) :
    ∃ n, x m = .error f n := by
  unfold Engine.observe at h
  cases hx : x m with
  | ok b n =>
    rw [hx] at h
    cases h
  | error e n =>
    rw [hx] at h
    cases h
    exact ⟨n, rfl⟩

/-- Native code that succeeds on a frame of the layout hands back a frame of that layout. -/
def Native.KeepsLayout (native : Native σ) (l : FrameLayout) : Prop :=
  ∀ m n, m.frame.layout = l → native m = .ok (.ok ()) n → n.frame.layout = l

theorem Segment.primitive?_get {s : Segment} {m : Memory} {kind : Primitive} {offset : Nat} {v : Value}
    (h : s.get m kind offset = .ok v) : v.primitive? = some kind := by
  obtain ⟨-, -, h⟩ := bind_eq_ok.1 h
  obtain ⟨a, -, h⟩ := bind_eq_ok.1 h
  cases kind <;> (cases h; rfl)

/-! ### The relation between the machines -/

/-- Two machines of one view.  Their frame has the given layout, and the second has reserved no scratch
memory. -/
structure Alike (l : FrameLayout) (m n : Machine σ) : Prop where
  view : m.view = n.view
  layout : m.frame.layout = l
  chunks : n.scratch.chunks = []

namespace Alike

variable {l : FrameLayout} {m n : Machine σ}

theorem frame (h : Alike l m n) : n.frame = m.frame := (Machine.view_eq_iff.1 h.view).1.symm

theorem memory (h : Alike l m n) : n.memory = m.memory := (Machine.view_eq_iff.1 h.view).2.1.symm

theorem layout_right (h : Alike l m n) : n.frame.layout = l := by rw [h.frame, h.layout]

end Alike

/-- Two results: related values, or the same fault, on machines of one view. -/
inductive SameResult (l : FrameLayout) (R : α → β → Prop) :
    EStateM.Result Fault (Machine σ) α → EStateM.Result Fault (Machine σ) β → Prop
  | ok {a b m n} : R a b → Alike l m n → SameResult l R (.ok a m) (.ok b n)
  | error {f m n} : m.view = n.view → n.scratch.chunks = [] → SameResult l R (.error f m) (.error f n)

/-- Two results on machines of one view, whose frame may have any layout. -/
inductive Shows (R : α → β → Prop) :
    EStateM.Result Fault (Machine σ) α → EStateM.Result Fault (Machine σ) β → Prop
  | ok {a b m n} : R a b → m.view = n.view → n.scratch.chunks = [] → Shows R (.ok a m) (.ok b n)
  | error {f m n} : m.view = n.view → n.scratch.chunks = [] → Shows R (.error f m) (.error f n)

theorem SameResult.shows {l : FrameLayout} {R : α → β → Prop} {r : EStateM.Result Fault (Machine σ) α}
    {r' : EStateM.Result Fault (Machine σ) β} (h : SameResult l R r r') : Shows R r r' := by
  cases h with
  | ok hab hmn => exact .ok hab hmn.view hmn.chunks
  | error hview hchunks => exact .error hview hchunks

/-- `x` and `y` give related values, or the same fault, wherever they are started on machines of one view. -/
def Simulates (l : FrameLayout) (R : α → β → Prop) (x : Engine σ α) (y : Engine σ β) : Prop :=
  ∀ m n, Alike l m n → SameResult l R (x m) (y n)

namespace Simulates

variable {l : FrameLayout} {R : α → β → Prop} {S : γ → δ → Prop} {x : Engine σ α} {y : Engine σ β}

/-! ### Putting simulations together -/

theorem pure {a : α} {b : β} (h : R a b) : Simulates l R (pure a : Engine σ α) (pure b) :=
  fun _ _ hmn => .ok h hmn

theorem bind {f : α → Engine σ γ} {g : β → Engine σ δ} (h : Simulates l R x y)
    (hf : ∀ a b, R a b → Simulates l S (f a) (g b)) : Simulates l S (x >>= f) (y >>= g) := by
  intro m n hmn
  rw [Engine.bind_apply, Engine.bind_apply]
  have hrun := h m n hmn
  generalize x m = r at hrun ⊢
  generalize y n = r' at hrun ⊢
  cases hrun with
  | ok hab hmn' => exact hf _ _ hab _ _ hmn'
  | error hview hchunks => exact .error hview hchunks

/-- What comes last may leave a frame of any layout. -/
theorem bind_shows {f : α → Engine σ γ} {g : β → Engine σ δ} {m n : Machine σ} (h : Simulates l R x y)
    (hmn : Alike l m n) (hf : ∀ a b, R a b → ∀ k i, Alike l k i → Shows S (f a k) (g b i)) :
    Shows S ((x >>= f) m) ((y >>= g) n) := by
  rw [Engine.bind_apply, Engine.bind_apply]
  have hrun := h m n hmn
  generalize x m = r at hrun ⊢
  generalize y n = r' at hrun ⊢
  cases hrun with
  | ok hab hki => exact hf _ _ hab _ _ hki
  | error hview hchunks => exact .error hview hchunks

theorem mono {R' : α → β → Prop} (h : Simulates l R x y) (hR : ∀ a b, R a b → R' a b) : Simulates l R' x y := by
  intro m n hmn
  have hrun := h m n hmn
  generalize x m = r at hrun ⊢
  generalize y n = r' at hrun ⊢
  cases hrun with
  | ok hab hmn' => exact .ok (hR _ _ hab) hmn'
  | error hview hchunks => exact .error hview hchunks

/-- A value that only the right side works on further. -/
theorem map_right {R' : α → δ → Prop} {g : β → δ} (h : Simulates l R x y) (hg : ∀ a b, R a b → R' a (g b)) :
    Simulates l R' x (y >>= fun b => Pure.pure (g b)) := by
  have hx : x >>= Pure.pure = x := bind_pure x
  rw [← hx]
  exact h.bind fun a b hab => .pure (hg a b hab)

/-- The log of the call shows to nobody. -/
theorem record_right {e : LogEvent} {y : Unit → Engine σ β} (h : Simulates l R x (y ())) :
    Simulates l R x (Engine.record e >>= y) :=
  fun m _ hmn => h m _ ⟨hmn.view, hmn.layout, hmn.chunks⟩

/-! ### The primitives of the engine -/

theorem lift (x : Except Fault α) :
    Simulates l (fun a b => a = b ∧ x = .ok a) (liftM x : Engine σ α) (liftM x) := by
  intro m n hmn
  cases x with
  | ok a => exact .ok ⟨rfl, rfl⟩ hmn
  | error f => exact .error hmn.view hmn.chunks

theorem getField (s : Segment) (kind : Primitive) (offset : Nat) :
    Simulates l (fun v w => v = w ∧ v.primitive? = some kind)
      (Engine.getField s kind offset : Engine σ Value) (Engine.getField s kind offset) := by
  intro m n hmn
  unfold Engine.getField
  rw [Engine.get_bind_apply, Engine.get_bind_apply, hmn.memory]
  exact (lift _).mono (fun v w hv => ⟨hv.1, Segment.primitive?_get hv.2⟩) m n hmn

theorem readWord (offset : Nat) :
    Simulates l Eq (Engine.readWord offset : Engine σ Word) (Engine.readWord offset) := by
  intro m n hmn
  unfold Engine.readWord
  rw [Engine.get_bind_apply, Engine.get_bind_apply, hmn.frame]
  exact (lift _).mono (fun _ _ h => h.1) m n hmn

theorem writeWord (offset : Nat) (w : Word) :
    Simulates l Eq (Engine.writeWord offset w : Engine σ Unit) (Engine.writeWord offset w) := by
  intro m n hmn
  unfold Engine.writeWord
  rw [Engine.get_bind_apply, Engine.get_bind_apply, hmn.frame]
  refine bind (lift _) (S := Eq) (fun _ _ _ k k' hk => ?_) m n hmn
  refine .ok rfl ⟨?_, hk.layout, hk.chunks⟩
  simp only [Machine.view, hk.frame, hk.memory, (Machine.view_eq_iff.1 hk.view).2.2]

theorem readStorage {s : Storage} {offset : Nat} (h : l.offset s = .ok offset) :
    Simulates l Eq (Engine.readWord offset : Engine σ Word) (Engine.readStorage s) := by
  intro m n hmn
  have hread : n.frame.read s = n.frame.readWord offset := by
    unfold Frame.read
    rw [hmn.layout_right, h]
    rfl
  unfold Engine.readStorage
  rw [Engine.get_bind_apply, hread]
  exact readWord offset m n hmn

theorem writeStorage {s : Storage} {offset : Nat} (h : l.offset s = .ok offset) (w : Word) :
    Simulates l Eq (Engine.writeWord offset w : Engine σ Unit) (Engine.writeStorage s w) := by
  intro m n hmn
  unfold Engine.writeStorage
  rw [Engine.get_bind_apply, hmn.layout_right, h]
  exact writeWord offset w m n hmn

/-- Native code does the same on both machines, since it sees their view only.  It may hand back a frame of
another layout. -/
theorem native_shows {native : Native σ} {f : Except NativeError Unit → Engine σ γ}
    {g : Except NativeError Unit → Engine σ δ} {m n : Machine σ} (hmn : Alike l m n)
    (hf : ∀ r k i, k.view = i.view → i.scratch.chunks = [] →
      (native.KeepsLayout l → r = .ok () → k.frame.layout = l) → Shows S (f r k) (g r i)) :
    Shows S ((Engine.native native >>= f) m) ((Engine.native native >>= g) n) := by
  have hstart : { n with scratch := Scratch.closed, log := #[] }
      = { m with scratch := Scratch.closed, log := #[] } := by
    simp only [hmn.frame, hmn.memory, (Machine.view_eq_iff.1 hmn.view).2.2]
  rw [Engine.bind_apply, Engine.bind_apply]
  unfold Engine.native
  rw [hstart]
  cases hrun : native { m with scratch := Scratch.closed, log := #[] } with
  | ok r k =>
    refine hf r _ _ rfl hmn.chunks fun hkeeps hr => ?_
    subst hr
    exact hkeeps { m with scratch := Scratch.closed, log := #[] } k hmn.layout hrun
  | error f k => exact .error rfl hmn.chunks

/-- Managed code does the same too, and does not even see the frame. -/
theorem managed (body : Engine σ α) : Simulates l Eq (Engine.managed body) (Engine.managed body) := by
  intro m n hmn
  have hstart : { n with frame := Frame.empty, scratch := Scratch.closed, log := #[] }
      = { m with frame := Frame.empty, scratch := Scratch.closed, log := #[] } := by
    simp only [hmn.memory, (Machine.view_eq_iff.1 hmn.view).2.2]
  unfold Engine.managed
  rw [hstart]
  cases body { m with frame := Frame.empty, scratch := Scratch.closed, log := #[] } with
  | ok a k => exact .ok rfl ⟨by simp [Machine.view, hmn.frame], hmn.layout, hmn.chunks⟩
  | error f k => exact .error (by simp [Machine.view, hmn.frame]) hmn.chunks

end Simulates

/-! ### From simulation to observation -/

theorem Machine.view_closeScratch {m : Machine σ} (h : m.scratch.chunks = []) (s : Scratch) :
    ({ Engine.closeScratch m with scratch := s } : Machine σ).view = m.view := by
  have hmemory : (m.scratch.close m.memory).2 = m.memory := by
    unfold Scratch.close Memory.release
    split <;> simp [h]
  simp [Machine.view, Engine.closeScratch, hmemory]

/-- **A call that reserves no scratch memory shows what its body shows.** -/
theorem Engine.observe_withScratch_of_shows {l : FrameLayout} {x body : Engine σ α} {m : Machine σ}
    (h : ∀ n, Alike l m n → Shows Eq (x m) (body n)) (hm : m.frame.layout = l) (size : Nat) :
    Engine.observe x m = Engine.observe (Engine.withScratch size body) m := by
  have hrun := h { m with scratch := Scratch.new size } ⟨rfl, hm, rfl⟩
  unfold Engine.observe Engine.withScratch
  generalize x m = r at hrun
  generalize body { m with scratch := Scratch.new size } = r' at hrun
  cases hrun with
  | ok hab hview hchunks =>
    subst hab
    simp only [Machine.view_closeScratch hchunks, hview]
  | error hview hchunks => simp only [Machine.view_closeScratch hchunks, hview]

theorem Engine.observe_withScratch {l : FrameLayout} {x body : Engine σ α} (h : Simulates l Eq x body)
    {m : Machine σ} (hm : m.frame.layout = l) (size : Nat) :
    Engine.observe x m = Engine.observe (Engine.withScratch size body) m :=
  observe_withScratch_of_shows (fun n hn => (h m n hn).shows) hm size

end ForeignCall
