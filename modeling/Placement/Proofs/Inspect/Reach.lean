/-
  Placement/Proofs/Inspect/Reach.lean
  ===================================
  **What the inspector says a ray reaches is not turned away.**

  Two places look at the time at which a ray enters a bound.  The gate before a mesh turns a
  ray away if the time is infinite, and the inspector tells of a spawn if the time is at most
  the greatest distance.  On a time that is no number both would be wrong: the gate would let
  the ray through and the inspector would pass the spawn over.  On minus infinity they would
  contradict each other.

  Neither occurs, whatever words the ray and the box are made of (`reported_rays_pass_gate`).
  Quotients and products without a value do arise along the way, along any axis; but a stretch
  of numbers that is clipped is a part of itself, and so a stretch of numbers
  (`PartOf.clip`), and a stretch starts no earlier than at zero (`zero_le_start`).
-/
import Placement.Inspect.Run
import Placement.Proofs.Query.InnerRays
import Placement.Proofs.Query.Probes

namespace Placement

open Binary32

/-! ### Infinite times -/

namespace Binary32

variable {a : Binary32}

theorem scalar_isInfinite (a : Binary32) : Scalar.isInfinite a = a.isInfinite := by
  cases hinf : a.isInfinite with
  | true =>
    rw [← ofParts_parts a, pattern_of_isInfinite hinf]
    cases a.negative <;> decide
  | false =>
    have hhigh : ¬ posInf ≤ a := by
      intro h
      obtain rfl := eq_posInf_of_le h
      cases hinf
    have hlow : ¬ a ≤ negInf := by
      intro h
      obtain rfl := eq_negInf_of_le h
      cases hinf
    exact Bool.or_eq_false_iff.mpr ⟨decide_eq_false hhigh, decide_eq_false hlow⟩

/-- Above zero, what is infinite is what exceeds every finite number. -/
theorem isInfinite_iff_forall_lt (ha : zero ≤ a) :
    Scalar.isInfinite a = true ↔ ∀ d : Binary32, d.isFinite = true → d < a := by
  rw [scalar_isInfinite]
  constructor
  · intro hinf d hd
    obtain ⟨hnum, hfinite⟩ := isFinite_iff.mp hd
    have hbelow := (key_between hnum hfinite).2
    have hkey := key_of_isInfinite hinf
    have hzero : 0 ≤ a.key := ha.2.2
    refine ⟨hnum, ha.2.1, ?_⟩
    split at hkey <;> omega
  · intro hall
    by_contra hinf
    -- otherwise it is a finite number itself
    have hfinite := isFinite_iff.mpr ⟨ha.2.1, Bool.eq_false_iff.mpr hinf⟩
    exact lt_irrefl a (hall a hfinite)

theorem isInfinite_eq_false_iff_exists_le (ha : zero ≤ a) :
    Scalar.isInfinite a = false ↔ ∃ d : Binary32, d.isFinite = true ∧ a ≤ d := by
  rw [← Bool.not_eq_true, isInfinite_iff_forall_lt ha]
  constructor
  · intro h
    simp only [not_forall] at h
    obtain ⟨d, hd, hnot⟩ := h
    exact ⟨d, hd, le_of_not_lt (isFinite_iff.mp hd).1 ha.2.1 hnot⟩
  · rintro ⟨d, hd, hle⟩ hall
    exact lt_irrefl a (lt_of_le_of_lt hle (hall d hd))

end Binary32

/-! ### Stretches of numbers -/

namespace Span

variable {s s' t : Span Binary32} {origin direction low high : Binary32}

/-- A stretch with numbers for ends that starts no earlier and ends no later than another. -/
structure PartOf (s t : Span Binary32) : Prop where
  enter : t.enter ≤ s.enter
  exit : s.exit ≤ t.exit

/-- Clipping takes something off a stretch or leaves it alone, also where the times at which
    the planes are passed are no numbers. -/
theorem PartOf.clip (hs : s.PartOf t) (h : s.clip origin direction low high = some s') :
    s'.PartOf t := by
  by_cases hmoves : Scalar.sameValue direction zero = true
  · rw [clip_of_still s hmoves, Option.ite_none_left_eq_some] at h
    obtain rfl := Option.some.inj h.2
    exact hs
  · rw [clip_of_moves s hmoves] at h
    obtain rfl := Option.some.inj h
    exact ⟨le_max_iff.mpr (.inl hs.enter), min_le_iff.mpr (.inl hs.exit)⟩

theorem zero_le_start (s : Span Binary32) : zero ≤ s.start := by
  simp only [start]
  split
  · decide
  · exact le_max_iff.mpr (.inr (by decide))

end Span

namespace Ray

variable {r : Ray Binary32} {b : Box Binary32}

theorem partOf_whole {s : Span Binary32} (h : r.span? b = some s) : s.PartOf .whole := by
  simp only [span?, Option.bind_eq_bind, Option.bind_eq_some_iff] at h
  obtain ⟨sx, hx, sy, hy, hz⟩ := h
  have hwhole : (Span.whole : Span Binary32).PartOf .whole := ⟨by decide, by decide⟩
  exact ((hwhole.clip hx).clip hy).clip hz

theorem zero_le_entryTime (r : Ray Binary32) (b : Box Binary32) : zero ≤ r.entryTime b := by
  rw [entryTime]
  split
  · decide
  · exact Span.zero_le_start _

end Ray

/-! ### Settings of a run -/

namespace QuerySettings

variable {settings settings' : QuerySettings Binary32}

theorem check_eq_ok_iff :
    settings.check = .ok settings' ↔ settings' = settings ∧
      zero < settings.maxRayDistance ∧ settings.maxRayDistance.isFinite = true ∧
      settings.parallelThreshold ≠ 0 := by
  have hpos : settings.maxRayDistance.isFinite = true →
      (¬ settings.maxRayDistance ≤ zero ↔ zero < settings.maxRayDistance) :=
    fun hfinite => not_le_iff (isFinite_iff.mp hfinite).1 (by decide)
  simp only [check]
  constructor
  · intro h
    split at h
    · cases h
    · rename_i hdistance
      split at h
      · cases h
      · rename_i hthreshold
        simp only [not_or, not_not] at hdistance
        exact ⟨(Except.ok.inj h).symm, (hpos hdistance.2).mp hdistance.1, hdistance.2, hthreshold⟩
  · rintro ⟨rfl, hdistance, hfinite, hthreshold⟩
    simp [(hpos hfinite).mpr hdistance, hfinite, hthreshold]

theorem check_of_ofToml {text : String} (h : ofToml text = .ok settings) :
    settings.check = .ok settings := by
  simp only [ofToml] at h
  split at h
  · cases h
  · rename_i read _
    cases hcheck : read.check with
    | error flaw => simp [hcheck, Except.mapError] at h
    | ok usable =>
      rw [hcheck] at h
      obtain rfl := Except.ok.inj h
      obtain ⟨rfl, -⟩ := check_eq_ok_iff.mp hcheck
      exact hcheck

end QuerySettings

namespace Inspect

theorem check_of_readSettings {files : Files} {config : Option String}
    {settings : QuerySettings Binary32} (h : readSettings files config = .ok settings) :
    settings.check = .ok settings := by
  cases config with
  | none =>
    obtain rfl := Except.ok.inj h
    decide
  | some path =>
    simp only [readSettings] at h
    cases htext : readText files path with
    | error e => simp [htext, Except.mapError] at h; cases h
    | ok text =>
      rw [htext] at h
      exact QuerySettings.check_of_ofToml h

theorem entryTime_le_of_rayLines {args : Arguments} {settings : QuerySettings Binary32}
    {s : Spawn Binary32} {r : Ray Binary32} {b : Box Binary32} (hray : args.ray = some r)
    (hbound : s.bound = some b) (hlines : rayLines args settings s ≠ []) :
    r.entryTime b ≤ settings.maxRayDistance := by
  by_contra hfar
  simp [rayLines, hray, hbound, hfar] at hlines

/-- **What the inspector says a ray reaches is let in by the gate.**  Whatever words a ray and
    a box are made of, the slab test keeps to numbers, and its time is a number that is not
    negative.  So the gate turns away exactly what no finite distance reaches.  The inspector
    reports what the greatest distance reaches; that is finite in settings that can be used,
    and so in those of every run. -/
theorem reported_rays_pass_gate (r : Ray Binary32) (b : Box Binary32) :
    (∀ s, r.span? b = some s → s.enter.isNaN = false ∧ s.exit.isNaN = false) ∧
    (r.entryTime b).isNaN = false ∧ zero ≤ r.entryTime b ∧
    (Scalar.isInfinite (r.entryTime b) = true ↔
      ∀ d : Binary32, d.isFinite = true → d < r.entryTime b) ∧
    (∀ {μ : Type} (p : PlacedModel Binary32 μ) (model : μ), p.model = some model →
      p.spawn.bound = some b →
      (p.rayGate r = .error (.besideBound p.spawn.shownName) ↔
        ∀ d : Binary32, d.isFinite = true → d < r.entryTime b) ∧
      (p.rayGate r = .ok model ↔ ∃ d : Binary32, d.isFinite = true ∧ r.entryTime b ≤ d)) ∧
    (∀ (args : Arguments) (settings : QuerySettings Binary32) (s : Spawn Binary32),
      args.ray = some r → settings.check = .ok settings → s.bound = some b →
      rayLines args settings s ≠ [] →
      Scalar.isInfinite (r.entryTime b) = false ∧
        ∀ {μ : Type} (p : PlacedModel Binary32 μ) (model : μ), p.model = some model →
          p.spawn = s → p.rayGate r = .ok model) ∧
    ∀ (files : Files) (config : Option String) (settings : QuerySettings Binary32),
      readSettings files config = .ok settings → settings.check = .ok settings := by
  have hzero := r.zero_le_entryTime b
  have hmiss := isInfinite_iff_forall_lt hzero
  have hreach := isInfinite_eq_false_iff_exists_le hzero
  refine ⟨?_, hzero.2.1, hzero, hmiss, ?_, ?_, fun files config settings => check_of_readSettings⟩
  · intro s hs
    have hpart := Ray.partOf_whole hs
    exact ⟨hpart.enter.2.1, hpart.exit.1⟩
  · intro μ p model hmodel hbound
    rw [PlacedModel.rayGate_of_bound hmodel hbound, ← hmiss, ← hreach]
    cases Scalar.isInfinite (r.entryTime b) with
    | true => simp
    | false => simp
  · intro args settings s hray hcheck hbound hlines
    obtain ⟨-, -, hfinite, -⟩ := QuerySettings.check_eq_ok_iff.mp hcheck
    have hnear := entryTime_le_of_rayLines hray hbound hlines
    have hinf : Scalar.isInfinite (r.entryTime b) = false := hreach.mpr ⟨_, hfinite, hnear⟩
    refine ⟨hinf, ?_⟩
    intro μ p model hmodel hspawn
    simp [PlacedModel.rayGate_of_bound hmodel (hspawn ▸ hbound), hinf]

/-- A ray of which it is not known where it starts and whereto it goes along the first axis. -/
def lostRay : Ray Binary32 := ⟨⟨nan, half, .ofInt 2⟩, ⟨nan, zero, -one⟩⟩

/-- The lost ray is said to reach the unit box, and is let in. -/
theorem reported_rays_pass_gate_lost :
    let args : Arguments := ⟨"spawns.bin", none, false, some lostRay, none, true⟩
    (rayLines args .standard Ray.unitSpawn).map OutputLine.text =
      ["  ray reaches spawn 0 at 1.000"] ∧
    ∃ p : PlacedModel Binary32 Unit, PlacedModel.place 0 Ray.unitSpawn (some ()) = .ok p ∧
      p.rayGate lostRay = .ok () := by
  intro args
  have hlines : (rayLines args .standard Ray.unitSpawn).map OutputLine.text =
      ["  ray reaches spawn 0 at 1.000"] := by
    decide +kernel
  obtain ⟨-, -, -, -, -, hreported, -⟩ := reported_rays_pass_gate lostRay Ray.unitBox
  have hlines_ne : rayLines args .standard Ray.unitSpawn ≠ [] := by
    intro h
    simp [h] at hlines
  refine ⟨hlines, _, rfl, ?_⟩
  exact (hreported args .standard Ray.unitSpawn rfl (by decide) rfl hlines_ne).2 _ () rfl rfl

end Inspect

end Placement
