import ForeignCall.Proofs.Memory.HandingOut
import ForeignCall.Proofs.Memory.Views
import Mathlib.Logic.Relation

/-!
# Detached copies

* `Usage`: memory with the arenas and segments that code holds, and `Usage.Step`: what code does with them;
* `Usage.Reaches`: the bytes that this can ever read or write, apart from memory that is still to be reserved;
* `Usage.Keeps`: what no step changes.  A byte out of reach stays out of reach and as it is (`Usage.Step.keeps`,
  `Usage.Run.keeps`);
* `Usage.Sound.detached`: a copy that its holder keeps for itself is out of reach;
* `segments_are_views`: what segments are.
-/

namespace ForeignCall

variable {σ : Type} {k : Machine σ} {m m' : Memory} {s t copy : Segment} {a : Nat}

/-- The chunk that bytes are taken from: one of the arena, or one in new memory.  The other ones are kept. -/
theorem Scratch.Draws.source {older : List Chunk} {s : Scratch} {c : Chunk} {size start : Nat}
    (h : s.Draws m size c older start m') (hm : m.Sound)
    (hchunks : ∀ d ∈ s.chunks, d.base + d.capacity < m.top) :
    m.Grows m' ∧ c.base + c.capacity < m'.top ∧ (c ∈ s.chunks ∨ m.top ≤ c.base) ∧
      ∀ d ∈ older, d ∈ s.chunks := by
  rcases h.chunk with ⟨heq, rfl⟩ | ⟨capacity, base, hreserve, rfl, rfl⟩
  · have hc : c ∈ s.chunks := by simp [heq]
    exact ⟨⟨.refl hm, fun _ _ => rfl⟩, hchunks c hc, .inl hc, fun d hd => by simp [heq, hd]⟩
  · obtain ⟨hgrows, -, hbase, hend⟩ := (hm.reserve (by decide)).elim hreserve
    exact ⟨hgrows, hend, .inr hbase, fun d hd => hd⟩

/-- Memory, the arenas on it and the segments that code holds. -/
structure Usage where
  memory : Memory
  arenas : List Scratch
  views : List Segment

namespace Usage

variable {u u' u'' : Usage}

/-- The byte belongs to a segment that is held, or to an arena, which may hand it out. -/
def Reaches (u : Usage) (a : Nat) : Prop :=
  (∃ t ∈ u.views, t.Holds a) ∨ ∃ s ∈ u.arenas, ∃ c ∈ s.chunks, c.Holds a

/-- The byte is reserved, and nothing reaches it. -/
structure Misses (u : Usage) (a : Nat) : Prop where
  lt_top : a < u.memory.top
  lt_limit : a < Memory.addressLimit
  unreached : ¬ u.Reaches a

/-- What code does through the segments that it holds: writes, from any segment whatever; views of bytes
that it can read anyway, and of foreign memory; new memory, alone or in an arena; the end of an arena. -/
inductive Step : Usage → Usage → Prop
  | set {u : Usage} {t : Segment} {offset : Nat} {v : Value} {m' : Memory} (ht : t ∈ u.views)
      (h : t.set u.memory offset v = .ok m') : Step u { u with memory := m' }
  | copyFrom {u : Usage} {t source : Segment} {m' : Memory} (ht : t ∈ u.views)
      (h : t.copyFrom u.memory source = .ok m') : Step u { u with memory := m' }
  | take {u : Usage} {t p : Segment} {n : Nat} (ht : t ∈ u.views) (h : t.take u.memory n = .ok p) :
      Step u { u with views := p :: u.views }
  | global {u : Usage} {address : Word} {n : Nat}
      (h : ∀ a, (Segment.global address n).Holds a → (∃ t ∈ u.views, t.Holds a) ∨ Memory.addressLimit ≤ a) :
      Step u { u with views := .global address n :: u.views }
  | allocate {u : Usage} {t : Segment} {m' : Memory} {size alignment : Nat}
      (h : Segment.allocate u.memory size alignment = .ok (t, m')) :
      Step u { u with memory := m', views := t :: u.views }
  | toOwned {u : Usage} {source copy : Segment} {m' : Memory} (h : source.toOwned u.memory = .ok (copy, m')) :
      Step u { u with memory := m', views := copy :: u.views }
  | openArena {u : Usage} (firstChunkSize : Nat) : Step u { u with arenas := .new firstChunkSize :: u.arenas }
  | allocateScratch {u : Usage} {before after : List Scratch} {s s' : Scratch} {t : Segment} {m' : Memory}
      {size alignment : Nat} (harenas : u.arenas = before ++ s :: after)
      (h : s.allocate u.memory size alignment = .ok (t, s', m')) :
      Step u ⟨m', before ++ s' :: after, t :: u.views⟩
  | closeArena {u : Usage} {before after : List Scratch} {s : Scratch}
      (harenas : u.arenas = before ++ s :: after) :
      Step u { u with memory := (s.close u.memory).2, arenas := before ++ (s.close u.memory).1 :: after }

/-- Any number of steps. -/
abbrev Run : Usage → Usage → Prop := Relation.ReflTransGen Step

/-! ### What steps keep -/

/-- Segments and arenas are in memory that is reserved, or where no allocation reaches.  Who makes a view of
foreign memory has to see to that. -/
structure Sound (u : Usage) : Prop where
  memory : u.memory.Sound
  views : ∀ t ∈ u.views, ∀ a, t.Holds a → u.memory.Reserved a 1
  chunks : ∀ s ∈ u.arenas, ∀ c ∈ s.chunks, c.base + c.capacity < u.memory.top

theorem Sound.reserved (h : u.Sound) (ha : u.Reaches a) : u.memory.Reserved a 1 := by
  rcases ha with ⟨t, ht, ha⟩ | ⟨s, hs, c, hc, ha⟩
  · exact h.views t ht a ha
  · have hend := h.chunks s hs c hc
    have hlt := ha.2
    exact .inl (by omega)

/-- The invariant stays, and a byte out of reach stays out of reach and as it is. -/
structure Keeps (u u' : Usage) : Prop where
  sound : u'.Sound
  misses : ∀ a, u.Misses a → u'.Misses a
  bytes : ∀ a, u.Misses a → u'.memory.bytes a = u.memory.bytes a

theorem Keeps.refl (h : u.Sound) : u.Keeps u := ⟨h, fun _ ha => ha, fun _ _ => rfl⟩

theorem Keeps.trans (h : u.Keeps u') (h' : u'.Keeps u'') : u.Keeps u'' :=
  ⟨h'.sound, fun a ha => h'.misses a (h.misses a ha),
    fun a ha => (h'.bytes a (h.misses a ha)).trans (h.bytes a ha)⟩

theorem Sound.write {r : Span} (h : u.Sound) (hm : u.memory.ChangesOnly r m')
    (hr : ∀ a, r.Holds a → u.Reaches a) :
    u.Keeps { u with memory := m' } := by
  have htop : m'.top = u.memory.top := hm.top
  refine ⟨⟨⟨?_, fun b hb => ?_⟩, fun t ht a ha => ?_, fun s hs c hc => ?_⟩,
    fun a ha => ⟨?_, ha.lt_limit, ha.unreached⟩, fun a ha => hm.bytes a fun hin => ha.unreached (hr a hin)⟩
  · exact htop ▸ h.memory.top_le
  · rw [hm.released] at hb
    exact htop ▸ h.memory.released_lt b hb
  · exact (h.views t ht a ha).mono (Nat.le_of_eq htop.symm)
  · exact htop ▸ h.chunks s hs c hc
  · exact htop ▸ ha.lt_top

/-- New views and chunks on bytes that can be reached anyway, on new memory, or where no allocation reaches. -/
theorem Sound.extend (h : u.Sound) (hmemory : u'.memory.Sound) (htop : u.memory.top ≤ u'.memory.top)
    (hbytes : ∀ a < u.memory.top, u'.memory.bytes a = u.memory.bytes a)
    (hviews : ∀ t ∈ u'.views, ∀ a, t.Holds a →
      u.Reaches a ∨ (u.memory.top ≤ a ∧ a < u'.memory.top) ∨ Memory.addressLimit ≤ a)
    (hchunks : ∀ s ∈ u'.arenas, ∀ c ∈ s.chunks,
      (∃ s' ∈ u.arenas, ∃ c' ∈ s'.chunks, c.base = c'.base ∧ c.capacity = c'.capacity) ∨
        u.memory.top ≤ c.base ∧ c.base + c.capacity < u'.memory.top) :
    u.Keeps u' := by
  refine ⟨⟨hmemory, fun t ht a ha => ?_, fun s hs c hc => ?_⟩, fun a ha => ⟨?_, ha.lt_limit, ?_⟩,
    fun a ha => hbytes a ha.lt_top⟩
  · rcases hviews t ht a ha with hreached | ⟨-, hlt⟩ | hlimit
    · exact (h.reserved hreached).mono htop
    · exact .inl hlt
    · exact .inr hlimit
  · rcases hchunks s hs c hc with ⟨s', hs', c', hc', hbase, hcapacity⟩ | ⟨-, hend⟩
    · have := h.chunks s' hs' c' hc'
      omega
    · exact hend
  · exact Nat.lt_of_lt_of_le ha.lt_top htop
  · obtain ⟨hlt, hlimit, hmissed⟩ := ha
    rintro (⟨t, ht, hholds⟩ | ⟨s, hs, c, hc, hlo, hhi⟩)
    · rcases hviews t ht a hholds with hreached | ⟨hle, -⟩ | hle
      · exact hmissed hreached
      · omega
      · omega
    · rcases hchunks s hs c hc with ⟨s', hs', c', hc', hbase, hcapacity⟩ | ⟨hbase, -⟩
      · exact hmissed (.inr ⟨s', hs', c', hc', by omega, by omega⟩)
      · omega

theorem Sound.hold (h : u.Sound) (ht : ∀ a, t.Holds a → u.Reaches a ∨ Memory.addressLimit ≤ a) :
    u.Keeps { u with views := t :: u.views } := by
  refine h.extend h.memory (Nat.le_refl _) (fun _ _ => rfl) (fun s hs a ha => ?_) fun s hs c hc => ?_
  · rcases List.mem_cons.1 hs with rfl | hs
    · exact (ht a ha).imp_right .inr
    · exact .inl (.inl ⟨s, hs, ha⟩)
  · exact .inl ⟨s, hs, c, hc, rfl, rfl⟩

theorem Sound.allocate {size alignment : Nat} (h : u.Sound)
    (hrun : Segment.allocate u.memory size alignment = .ok (t, m')) :
    u.Keeps { u with memory := m', views := t :: u.views } := by
  obtain ⟨-, -, -, hnew⟩ := Segment.of_allocate_eq_ok hrun
  obtain ⟨-, hlength, hgrows, -, hbase, hend⟩ := hnew h.memory
  refine h.extend hgrows.sound hgrows.top_le (fun a ha => hgrows.bytes a (by omega)) (fun s hs a ha => ?_)
    fun s hs c hc => ?_
  · rcases List.mem_cons.1 hs with rfl | hs
    · obtain ⟨hlo, hhi⟩ := ha
      exact .inr (.inl ⟨by omega, by dsimp only; omega⟩)
    · exact .inl (.inl ⟨s, hs, ha⟩)
  · exact .inl ⟨s, hs, c, hc, rfl, rfl⟩

theorem mem_replaced {arenas before after : List Scratch} {s s' r : Scratch} (h : arenas = before ++ s :: after)
    (hr : r ∈ before ++ s' :: after) : r ∈ arenas ∨ r = s' := by
  rw [h]
  simp only [List.mem_append, List.mem_cons] at hr ⊢
  rcases hr with hr | rfl | hr
  · exact .inl (.inl hr)
  · exact .inr rfl
  · exact .inl (.inr (.inr hr))

/-- An arena hands out bytes of its latest chunk, which can be reached, or of a chunk in new memory. -/
theorem Sound.allocateScratch {before after : List Scratch} {s s' : Scratch}
    {size alignment : Nat} (h : u.Sound) (harenas : u.arenas = before ++ s :: after)
    (hrun : s.allocate u.memory size alignment = .ok (t, s', m')) :
    u.Keeps ⟨m', before ++ s' :: after, t :: u.views⟩ := by
  have hs : s ∈ u.arenas := by simp [harenas]
  obtain ⟨c, older, start, hdraws, rfl, rfl⟩ := Scratch.draws_of_allocate hrun
  obtain ⟨hgrows, hend, hc, holder⟩ := hdraws.source h.memory (h.chunks s hs)
  have hfit := hdraws.fits
  have hlimit := hgrows.sound.top_le
  have hlimits : Memory.addressLimit + 1 < wordLimit := by decide
  have haddress : (BitVec.ofNat 64 (c.base + start)).toNat = c.base + start := toNat_ofNat_word (by omega)
  refine h.extend hgrows.sound hgrows.top_le (fun a ha => hgrows.bytes a (by omega)) (fun t ht a ha => ?_)
    fun r hr d hd => ?_
  · rcases List.mem_cons.1 ht with rfl | ht
    · obtain ⟨hlo, hhi⟩ := ha
      dsimp only at hlo hhi
      rw [haddress] at hlo hhi
      rcases hc with hc | hbase
      · exact .inl (.inr ⟨s, hs, c, hc, by omega, by omega⟩)
      · exact .inr (.inl ⟨by omega, by dsimp only; omega⟩)
    · exact .inl (.inl ⟨t, ht, ha⟩)
  · rcases mem_replaced harenas hr with hr | rfl
    · exact .inl ⟨r, hr, d, hd, rfl, rfl⟩
    · rcases List.mem_cons.1 hd with rfl | hd
      · exact hc.imp (fun hc => ⟨s, hs, c, hc, rfl, rfl⟩) fun hbase => ⟨hbase, hend⟩
      · exact .inl ⟨s, hs, d, holder d hd, rfl, rfl⟩

theorem Sound.closeArena {before after : List Scratch} {s : Scratch} (h : u.Sound)
    (harenas : u.arenas = before ++ s :: after) :
    u.Keeps { u with memory := (s.close u.memory).2, arenas := before ++ (s.close u.memory).1 :: after } := by
  have hs : s ∈ u.arenas := by simp [harenas]
  unfold Scratch.close
  split
  · refine h.extend ⟨h.memory.top_le, fun b hb => ?_⟩ (Nat.le_refl _) (fun _ _ => rfl)
      (fun t ht a ha => .inl (.inl ⟨t, ht, ha⟩)) fun r hr d hd => ?_
    · rcases List.mem_append.1 hb with hb | hb
      · obtain ⟨c, hc, rfl⟩ := List.mem_map.1 hb
        have hend := h.chunks s hs c hc
        show c.base < u.memory.top
        omega
      · exact h.memory.released_lt b hb
    · rcases mem_replaced harenas hr with hr | rfl
      · exact .inl ⟨r, hr, d, hd, rfl, rfl⟩
      · cases hd
  · rw [← harenas]
    exact .refl h

theorem Sound.set {offset : Nat} {v : Value} (h : u.Sound) (ht : t ∈ u.views)
    (hset : t.set u.memory offset v = .ok m') :
    u.Keeps { u with memory := m' } := by
  obtain ⟨kind, hkind, -, hlength, -⟩ := Segment.of_set_eq_ok hset
  obtain ⟨kind', hkind', hchanges, -⟩ := Segment.set_changes hset
  obtain rfl : kind = kind' := Option.some.inj (hkind.symm.trans hkind')
  refine h.write hchanges fun a ⟨hlo, hhi⟩ => .inl ⟨t, ht, ?_⟩
  dsimp only at hlo hhi
  exact ⟨by omega, by omega⟩

theorem Sound.copyFrom (h : u.Sound) (ht : t ∈ u.views) (hcopy : t.copyFrom u.memory s = .ok m') :
    u.Keeps { u with memory := m' } := by
  obtain ⟨-, hlength, -⟩ := Segment.of_copyFrom_eq_ok hcopy
  refine h.write (Segment.copyFrom_changes hcopy).1 fun a ⟨hlo, hhi⟩ => .inl ⟨t, ht, ?_⟩
  dsimp only at hlo hhi
  exact ⟨by omega, by omega⟩

theorem Sound.toOwned (h : u.Sound) (hrun : s.toOwned u.memory = .ok (copy, m')) :
    u.Keeps { u with memory := m', views := copy :: u.views } := by
  obtain ⟨⟨copy', m⟩, hallocate, hrun⟩ := bind_eq_ok.1 hrun
  obtain ⟨_, hcopy, hrun⟩ := bind_eq_ok.1 hrun
  cases hrun
  have hallocated := h.allocate hallocate
  exact hallocated.trans (hallocated.sound.copyFrom (t := copy) List.mem_cons_self hcopy)

/-- **One step.** -/
theorem Step.keeps (hstep : u.Step u') (h : u.Sound) : u.Keeps u' := by
  cases hstep with
  | set ht hset => exact h.set ht hset
  | copyFrom ht hcopy => exact h.copyFrom ht hcopy
  | @take t p n ht htake =>
    obtain ⟨⟨⟩, hcheck, hrun⟩ := bind_eq_ok.1 htake
    cases hrun
    have hlength := (Segment.check_eq_ok.1 hcheck).2
    exact h.hold fun a ⟨hlo, hhi⟩ => .inl (.inl ⟨t, ht, hlo, by dsimp only at hhi; omega⟩)
  | global hbytes => exact h.hold fun a ha => (hbytes a ha).imp_left .inl
  | allocate hrun => exact h.allocate hrun
  | toOwned hrun => exact h.toOwned hrun
  | openArena firstChunkSize =>
    refine h.extend h.memory (Nat.le_refl _) (fun _ _ => rfl) (fun t ht a ha => .inl (.inl ⟨t, ht, ha⟩))
      fun s hs c hc => ?_
    rcases List.mem_cons.1 hs with rfl | hs
    · cases hc
    · exact .inl ⟨s, hs, c, hc, rfl, rfl⟩
  | allocateScratch harenas hrun => exact h.allocateScratch harenas hrun
  | closeArena harenas => exact h.closeArena harenas

/-- **Any number of steps.** -/
theorem Run.keeps (hrun : u.Run u') (h : u.Sound) : u.Keeps u' := by
  induction hrun with
  | refl => exact .refl h
  | tail _ hstep ih => exact ih.trans (hstep.keeps ih.sound)

/-! ### Copies out of reach -/

/-- **A copy that no one else gets is out of reach.** -/
theorem Sound.detached (h : u.Sound) (hcopy : t.toOwned u.memory = .ok (copy, m)) :
    Sound { u with memory := m } ∧ ∀ a, copy.Holds a → Misses { u with memory := m } a := by
  have hkept := (h.toOwned hcopy).sound
  obtain ⟨m₁, hallocate, rfl⟩ := Segment.of_toOwned_eq_ok hcopy
  obtain ⟨-, -, -, hnew⟩ := Segment.of_allocate_eq_ok hallocate
  obtain ⟨-, hlength, -, -, hbase, hend⟩ := hnew h.memory
  have hlimit : m₁.top ≤ Memory.addressLimit + 1 := hkept.memory.top_le
  refine ⟨⟨hkept.memory, fun s hs => hkept.views s (List.mem_cons_of_mem _ hs), hkept.chunks⟩,
    fun a ⟨hlo, hhi⟩ => ?_⟩
  have hlt : a < m₁.top := by omega
  refine ⟨hlt, by omega, fun hreached => ?_⟩
  rcases h.reserved hreached with hle | hle <;> omega

/-- **It keeps its bytes**, whatever is done through all other segments. -/
theorem Sound.copy_kept (h : u.Sound) (hcopy : t.toOwned u.memory = .ok (copy, m))
    (hrun : Run { u with memory := m } u') :
    copy.bytes u'.memory = copy.bytes m := by
  obtain ⟨hsound, hmisses⟩ := h.detached hcopy
  obtain ⟨m₁, hallocate, -⟩ := Segment.of_toOwned_eq_ok hcopy
  have halive (later : Memory) : copy.isAlive later = true :=
    Segment.isAlive_of_owned (Segment.of_allocate_eq_ok hallocate).1
  have hkeeps := hrun.keeps hsound
  rw [Segment.bytes_eq (halive _), Segment.bytes_eq (halive _)]
  refine congrArg Except.ok (List.map_congr_left fun i hi =>
    hkeeps.bytes _ (hmisses _ ⟨Nat.le_add_right _ _, ?_⟩))
  exact Nat.add_lt_add_left (List.mem_range.1 hi) _

theorem Sound.copy_bytes (h : u.Sound) (ht : t ∈ u.views) (hcopy : t.toOwned u.memory = .ok (copy, m)) :
    copy.bytes m = t.bytes u.memory := by
  obtain ⟨⟨copy', m₁⟩, hallocate, hcopy⟩ := bind_eq_ok.1 hcopy
  obtain ⟨_, hfill, hcopy⟩ := bind_eq_ok.1 hcopy
  cases hcopy
  obtain ⟨hscope, hlength, hreleased, hnew⟩ := Segment.of_allocate_eq_ok hallocate
  obtain ⟨-, p, htake, hbytes⟩ := Segment.copyFrom_changes hfill
  rw [Segment.take_eq (Segment.isAlive_of_owned hscope) (Nat.le_of_eq hlength.symm)] at htake
  cases htake
  rw [← hlength] at hbytes
  refine hbytes.trans (Segment.bytes_congr hreleased fun i hi => (hnew h.memory).memory.bytes _ ?_)
  have hreserved := h.views t ht (t.address.toNat + i) ⟨by omega, by omega⟩
  rintro ⟨hle, hlt⟩
  rcases hreserved with hend | hlimit <;> omega

end Usage

/-- **Segments are bounded views of one store of bytes.**

* An access faults iff a segment is dead or too short for it, and then changes nothing.
* So does a detached copy for which there is memory.  A fault leaves nothing behind but memory that no one
  holds.
* A scalar that is stored changes its field alone; all other reads, through whichever segment, give what
  they gave.
* A copy fills the start of a segment with what the other one held, however they overlap, and changes
  nothing else.
* A detached copy has the bytes of its origin, and keeps them whatever is done through other segments. -/
theorem segments_are_views (k : Machine σ) :
    (∀ (α : Type) (x : Engine σ α) rs, Access x rs →
      (∀ r ∈ rs, r.segment.address.toNat + r.segment.length ≤ wordLimit) →
        ((∃ f n, x k = .error f n) ↔ ∃ r ∈ rs, r.Refused k.memory) ∧ ∀ f n, x k = .error f n → n = k) ∧
    (∀ s : Segment,
      (∀ copy m, Segment.allocate k.memory s.length Segment.ownedAlignment = .ok (copy, m) →
        ((∃ f n, Engine.copyOut s k = .error f n) ↔ Span.Refused ⟨s, 0, s.length⟩ k.memory)) ∧
      (∀ f n, Engine.copyOut s k = .error f n → ∀ a, k.memory.Reserved a 1 →
        n.memory.bytes a = k.memory.bytes a) ∧
      Engine.toOwned s k = match Engine.copyOut s k with
        | .ok copy n => .ok copy n
        | .error f _ => .error f k) ∧
    (∀ (s : Segment) offset v m', s.set k.memory offset v = .ok m' → ∃ kind, v.primitive? = some kind ∧
      k.memory.ChangesOnly ⟨s, offset, kind.byteSize⟩ m' ∧ k.memory.SameOutside ⟨s, offset, kind.byteSize⟩ m' ∧
      s.get m' kind offset = .ok v) ∧
    (∀ (s t : Segment) m', s.copyFrom k.memory t = .ok m' → k.memory.ChangesOnly ⟨s, 0, t.length⟩ m' ∧
      ∃ p, s.take m' t.length = .ok p ∧ p.bytes m' = t.bytes k.memory) ∧
    ∀ arenas views, (Usage.mk k.memory arenas views).Sound → ∀ (t copy : Segment) m,
      t.toOwned k.memory = .ok (copy, m) → (t ∈ views → copy.bytes m = t.bytes k.memory) ∧
        ∀ u, Usage.Run ⟨m, arenas, views⟩ u → copy.bytes u.memory = copy.bytes m := by
  refine ⟨fun α x rs hx hend => ?_, fun s => ⟨fun copy m hallocate => ?_, fun f n hfailed a ha => ?_, ?_⟩,
    fun s offset v m' hset => ?_, fun s t m' => Segment.copyFrom_changes,
      fun arenas views hsound t copy m hcopy => ?_⟩
  · rcases hx.outcome hend k with ⟨hrefused, f, hf⟩ | ⟨hallowed, a, n, hok⟩
    · refine ⟨⟨fun _ => hrefused, fun _ => ⟨f, k, hf⟩⟩, fun g n hg => ?_⟩
      cases hf.symm.trans hg
      rfl
    · refine ⟨⟨fun ⟨f, n', hf⟩ => ?_, fun ⟨r, hr, hrefused⟩ => absurd hrefused (hallowed r hr)⟩,
        fun f n' hf => ?_⟩
      · cases hok.symm.trans hf
      · cases hok.symm.trans hf
  · rcases Engine.copyOut_outcome hallocate with ⟨hrefused, hfailed⟩ | ⟨hallowed, n, hok⟩
    · exact ⟨fun _ => hrefused, fun _ => hfailed⟩
    · refine ⟨fun ⟨f, n', hf⟩ => ?_, fun hrefused => absurd hrefused hallowed⟩
      cases hok.symm.trans hf
  · exact Engine.copyOut_failed hfailed ha
  · exact Engine.toOwned_eq_copyOut s k
  · obtain ⟨kind, hkind, hchanges, hread⟩ := Segment.set_changes hset
    exact ⟨kind, hkind, hchanges, hchanges.sameOutside, hread⟩
  · exact ⟨fun ht => hsound.copy_bytes ht hcopy, fun u hrun => hsound.copy_kept hcopy hrun⟩

/-- A machine on whose memory each byte holds the low bits of its address, and whose chunk at 5 was given
back. -/
def Machine.counting : Machine Unit :=
  ⟨.empty, ⟨fun a => BitVec.ofNat 8 a, Memory.firstAddress, [5]⟩, .closed, #[], ()⟩

/-- Views of the bytes 4096 to 4103, and of the last six of them.  Reading a field far behind the end
faults, and so does copying a dead segment, which leaves byte 4097 as it is.  A read of other bytes does not
see a store.  The last six bytes are copied to the start, and a copy of them is not changed by a store to
their origin. -/
theorem segments_are_views_overlapping :
    (∃ f n, Engine.getField (.global 4096 8) .i32 18446744073709551615 Machine.counting = .error f n) ∧
    (∃ f n, Engine.copyOut ⟨4096, 8, .scratch 5⟩ Machine.counting = .error f n ∧ n.memory.bytes 4097 = 1) ∧
    (∃ m, (Segment.global 4096 8).set Machine.counting.memory 4 (.i8 7) = .ok m ∧
      (Segment.global 4098 6).get m .i16 0 = .ok (.i16 0x0302)) ∧
    (∃ m p, (Segment.global 4096 8).copyFrom Machine.counting.memory (.global 4098 6) = .ok m ∧
      (Segment.global 4096 8).take m 6 = .ok p ∧ p.bytes m = .ok [2, 3, 4, 5, 6, 7] ∧ m.bytes 4102 = 6) ∧
    ∃ copy m m', (Segment.global 4098 6).toOwned Machine.counting.memory = .ok (copy, m) ∧
      (Segment.global 4096 8).set m 4 (.i8 7) = .ok m' ∧ copy.bytes m' = .ok [2, 3, 4, 5, 6, 7] := by
  obtain ⟨haccess, hcopyOut, hset, hcopy, hdetached⟩ := segments_are_views Machine.counting
  refine ⟨?fault, ?dead, ?store, ?move, ?detach⟩
  case fault =>
    refine (haccess _ _ _ (.get (.global 4096 8) .i32 18446744073709551615) ?_).1.2 ?_
    · exact fun r hr => List.mem_singleton.1 hr ▸ by decide
    · exact ⟨_, List.mem_singleton_self _, .inr (by decide)⟩
  case dead =>
    obtain ⟨houtcome, hfailed, -⟩ := hcopyOut ⟨4096, 8, .scratch 5⟩
    obtain ⟨f, n, h⟩ := (houtcome _ _ rfl).2 (.inl rfl)
    exact ⟨f, n, h, (hfailed f n h 4097 (.inl (by decide))).trans rfl⟩
  case store =>
    obtain ⟨kind, hkind, -, hsame, -⟩ := hset (.global 4096 8) 4 (.i8 7) _ rfl
    obtain rfl : Primitive.i8 = kind := Option.some.inj hkind
    refine ⟨_, rfl, (hsame.get (.global 4098 6) .i16 0 fun a ⟨_, hhi⟩ ⟨hlo, _⟩ => ?_).trans rfl⟩
    have hhi' : a < 4100 := hhi
    have hlo' : 4100 ≤ a := hlo
    omega
  case move =>
    obtain ⟨hchanges, p, htake, hbytes⟩ := hcopy (.global 4096 8) (.global 4098 6) _ rfl
    refine ⟨_, p, rfl, htake, hbytes.trans rfl, (hchanges.bytes 4102 ?_).trans rfl⟩
    rintro ⟨-, hhi⟩
    exact absurd hhi (by decide)
  case detach =>
    have hsound : (Usage.mk Machine.counting.memory [] [.global 4096 8, .global 4098 6]).Sound := by
      refine ⟨⟨by decide, by decide⟩, fun t ht a ha => .inl ?_, nofun⟩
      have hend : t.address.toNat + t.length ≤ 4104 := by
        simp only [List.mem_cons, List.not_mem_nil, or_false] at ht
        rcases ht with rfl | rfl <;> decide
      have hhi := ha.2
      show a + 1 ≤ Memory.firstAddress
      unfold Memory.firstAddress
      omega
    obtain ⟨hbytes, hkept⟩ := hdetached [] _ hsound (.global 4098 6) _ _ rfl
    have hwrite (m : Memory) : (Segment.global 4096 8).set m 4 (.i8 7) = .ok (m.store 4100 1 7) := rfl
    refine ⟨_, _, _, rfl, hwrite _, (hkept _ (.single (.set List.mem_cons_self (hwrite _)))).trans ?_⟩
    exact (hbytes (by simp)).trans rfl

end ForeignCall
