/-
  Placement/Proofs/Spawn/Construction.lean
  ========================================
  **The spawns that can come about, and what they all have in common.**

  A spawn begins without flags or is read from a source, and is changed by adding flags, by
  attaching a bound, and by assigning the fields that are free.  None of these ways touches
  the bit of the bound without the bound or the bound without the bit, so the two agree in
  every spawn there is (`Constructed.consistent`), and a writer never stores a layout that
  a reader would not expect.
-/
import Placement.Proofs.Spawn.Records
import Placement.Transform

namespace Placement

namespace Spawn

/-- The spawns that can come about. -/
inductive Constructed : Spawn Binary32 → Prop
  | unbounded (id : UInt32) (tile : UInt16) (name : List UInt8)
      (position rotation : Vec3 Binary32) (scale : Binary32) :
      Constructed (unbounded id tile name position rotation scale)
  | addFlags {s : Spawn Binary32} (flags : UInt32) : Constructed s → Constructed (s.addFlags flags)
  | attachBound {s : Spawn Binary32} (bound : Box Binary32) :
      Constructed s → Constructed (s.attachBound bound)
  | attachModelBound {s t : Spawn Binary32} {modelBound : Box Binary32} :
      Constructed s → s.attachModelBound modelBound = .ok t → Constructed t
  | assign {s : Spawn Binary32} (tile : UInt16) (id : UInt32) (position rotation : Vec3 Binary32)
      (scale : Binary32) (name : List UInt8) :
      Constructed s → Constructed { s with tile, id, position, rotation, scale, name }
  | received {σ : Type} [ByteSource σ] {source source' : σ} {s : Spawn Binary32} :
      receive source = (.ok (some s), source') → Constructed s

/-! ### The bit of the bound -/

theorem isSet_bounded_or_masked (old new : UInt32) :
    SpawnFlag.bounded.isSet (old ||| (new &&& ~~~SpawnFlag.bounded.bit)) =
      SpawnFlag.bounded.isSet old := by
  have hmasked : (new &&& ~~~SpawnFlag.bounded.bit) &&& SpawnFlag.bounded.bit = 0 := by
    rw [UInt32.and_assoc, UInt32.not_and_self, UInt32.and_zero]
  have hbits : (old ||| (new &&& ~~~SpawnFlag.bounded.bit)) &&& SpawnFlag.bounded.bit =
      old &&& SpawnFlag.bounded.bit := by
    have hdistrib : (old ||| (new &&& ~~~SpawnFlag.bounded.bit)) &&& SpawnFlag.bounded.bit =
        (old &&& SpawnFlag.bounded.bit) |||
          ((new &&& ~~~SpawnFlag.bounded.bit) &&& SpawnFlag.bounded.bit) :=
      UInt32.toBitVec_inj.1 BitVec.and_or_distrib_right
    rw [hdistrib, hmasked, UInt32.or_zero]
  rw [SpawnFlag.isSet, SpawnFlag.isSet, hbits]

theorem isSet_bounded_or_bit (old : UInt32) :
    SpawnFlag.bounded.isSet (old ||| SpawnFlag.bounded.bit) = true := by
  have hbits : (old ||| SpawnFlag.bounded.bit) &&& SpawnFlag.bounded.bit =
      (old &&& SpawnFlag.bounded.bit) ||| SpawnFlag.bounded.bit := by
    have hdistrib : (old ||| SpawnFlag.bounded.bit) &&& SpawnFlag.bounded.bit =
        (old &&& SpawnFlag.bounded.bit) ||| (SpawnFlag.bounded.bit &&& SpawnFlag.bounded.bit) :=
      UInt32.toBitVec_inj.1 BitVec.and_or_distrib_right
    rw [hdistrib, UInt32.and_self]
  have hne : (old &&& SpawnFlag.bounded.bit) ||| SpawnFlag.bounded.bit ≠ 0 := by
    intro hzero
    have := (UInt32.or_eq_zero_iff.mp hzero).2
    simp [SpawnFlag.bit] at this
  rw [SpawnFlag.isSet, hbits]
  simpa using hne

/-! ### What each way of construction keeps -/

theorem consistent_addFlags {s : Spawn Binary32} (flags : UInt32) (hs : s.Consistent) :
    (s.addFlags flags).Consistent := by
  unfold Consistent has addFlags at *
  rw [← hs]
  exact isSet_bounded_or_masked s.flags flags

theorem consistent_attachBound (s : Spawn Binary32) (bound : Box Binary32) :
    (s.attachBound bound).Consistent := isSet_bounded_or_bit s.flags

/-- Whatever came before, attaching the bound of a model attaches some bound. -/
theorem eq_attachBound_of_attachModelBound {s t : Spawn Binary32} {modelBound : Box Binary32}
    (h : s.attachModelBound modelBound = .ok t) : ∃ bound, t = s.attachBound bound := by
  unfold attachModelBound at h
  rcases htransform : Transform.ofSpawn s with e | transform
  · simp [htransform, Except.map] at h
  · simp only [htransform, Except.map, Except.ok.injEq] at h
    exact ⟨_, h.symm⟩

/-- **The bit and the bound agree in every spawn.** -/
theorem Constructed.consistent {s : Spawn Binary32} (h : s.Constructed) : s.Consistent := by
  induction h with
  | unbounded id tile name position rotation scale =>
    simp [Consistent, has, Spawn.unbounded, SpawnFlag.isSet]
  | addFlags flags _ ih => exact consistent_addFlags flags ih
  | attachBound bound _ _ => exact consistent_attachBound _ bound
  | attachModelBound _ hattach _ =>
    obtain ⟨bound, rfl⟩ := eq_attachBound_of_attachModelBound hattach
    exact consistent_attachBound _ bound
  | assign tile id position rotation scale name _ ih => exact ih
  | received hreceive => exact consistent_of_receive hreceive

end Spawn

end Placement
