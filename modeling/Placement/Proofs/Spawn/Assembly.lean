/-
  Placement/Proofs/Spawn/Assembly.lean
  ====================================
  **Spawns put together step by step.**

  A user of spawns has some of them at hand (a *shelf*), makes new ones, reads some from
  sources, copies them, assigns their free fields and adds flags and bounds to them, in any
  order.  Each step leaves only spawns that can come about (`Constructed`), and so whatever is
  done, the bit of the bound and the bound agree in all of them.

  For a spawn that is begun afresh and only added to, more can be said: what its flags and its
  bound are is a function of the additions (`added`).  The flags are those that were given,
  except for the bit of the bound, which follows the bounds that were attached; of these the
  last one stays.
-/
import Placement.Proofs.Spawn.RoundTrip

namespace Placement

/-! ### Additions -/

/-- What can be added to a spawn. -/
inductive Addition
  | flags (flags : UInt32)
  | bound (bound : Box Binary32)
  /-- The bound that follows from the bound of the model. -/
  | modelBound (modelBound : Box Binary32)

namespace Addition

/-- The flags that are given with an addition. -/
def flags? : Addition → Option UInt32
  | .flags given => some given
  | _ => none

/-- The bound that an addition attaches to a spawn which stands where `s` does. -/
def bound? (s : Spawn Binary32) : Addition → Option (Box Binary32)
  | .flags _ => none
  | .bound attached => some attached
  | .modelBound ofModel => (Transform.ofSpawn s).toOption.map fun t => t.boundInWorld ofModel

/-- Whether an addition can be made: only the bound of a model asks for the place of a spawn. -/
def applies (s : Spawn Binary32) : Addition → Bool
  | .modelBound _ => (Transform.ofSpawn s).isOk
  | _ => true

end Addition

namespace Spawn

variable (s : Spawn Binary32)

def add : Addition → Except (UnusableScale Binary32) (Spawn Binary32)
  | .flags flags => .ok (s.addFlags flags)
  | .bound bound => .ok (s.attachBound bound)
  | .modelBound modelBound => s.attachModelBound modelBound

/-- Make some additions, one after the other, as long as they succeed. -/
def addAll (additions : List Addition) : Except (UnusableScale Binary32) (Spawn Binary32) :=
  additions.foldlM add s

/-- All bits that are set in some flags. -/
def allFlags (given : List UInt32) : UInt32 := given.foldr (· ||| ·) 0

/-- What a spawn is after additions that gave these flags and attached these bounds. -/
def added (given : List UInt32) (bounds : List (Box Binary32)) : Spawn Binary32 :=
  { s with
    flags := s.flags ||| (allFlags given &&& ~~~SpawnFlag.bounded.bit) |||
      (if bounds = [] then 0 else SpawnFlag.bounded.bit)
    bound := bounds.getLast?.or s.bound }

theorem allFlags_append (given given' : List UInt32) :
    allFlags (given ++ given') = allFlags given ||| allFlags given' := by
  induction given with
  | nil => exact UInt32.zero_or.symm
  | cons flags given ih =>
    have hcons : allFlags (flags :: given) = flags ||| allFlags given := rfl
    have hcons' : allFlags (flags :: given ++ given') = flags ||| allFlags (given ++ given') := rfl
    rw [hcons, hcons', ih, UInt32.or_assoc]

@[simp] theorem added_nil : s.added [] [] = s := by
  simp [added, allFlags]

theorem added_added (given given' : List UInt32) (bounds bounds' : List (Box Binary32)) :
    (s.added given bounds).added given' bounds' = s.added (given ++ given') (bounds ++ bounds') := by
  have hdistrib : (allFlags given ||| allFlags given') &&& ~~~SpawnFlag.bounded.bit =
      (allFlags given &&& ~~~SpawnFlag.bounded.bit) |||
        (allFlags given' &&& ~~~SpawnFlag.bounded.bit) :=
    UInt32.toBitVec_inj.1 BitVec.and_or_distrib_right
  have hbit : (if bounds = [] then 0 else SpawnFlag.bounded.bit) |||
      (if bounds' = [] then 0 else SpawnFlag.bounded.bit) =
      if bounds ++ bounds' = [] then 0 else SpawnFlag.bounded.bit := by
    cases bounds <;> cases bounds' <;> simp
  have hflags (a b c d e : UInt32) : a ||| b ||| c ||| d ||| e = a ||| (b ||| d) ||| (c ||| e) := by
    ac_rfl
  simp only [added, allFlags_append, hdistrib, ← hbit, hflags, List.getLast?_append, Option.or_assoc]

theorem bound?_added (given : List UInt32) (bounds : List (Box Binary32)) :
    Addition.bound? (s.added given bounds) = Addition.bound? s := rfl

theorem applies_added (given : List UInt32) (bounds : List (Box Binary32)) :
    Addition.applies (s.added given bounds) = Addition.applies s := rfl

theorem add_of_applies {addition : Addition} (h : addition.applies s = true) :
    s.add addition = .ok (s.added addition.flags?.toList (addition.bound? s).toList) := by
  cases addition with
  | flags flags =>
    simp [add, addFlags, added, allFlags, Addition.flags?, Addition.bound?]
  | bound bound =>
    simp [add, attachBound, added, allFlags, Addition.flags?, Addition.bound?]
  | modelBound modelBound =>
    unfold Addition.applies at h
    rcases hplace : Transform.ofSpawn s with e | t
    · simp [hplace, Except.isOk, Except.toBool] at h
    · simp [add, attachModelBound, attachBound, added, allFlags, Addition.flags?, Addition.bound?,
        hplace, Except.map, Except.toOption]

theorem add_of_not_applies {addition : Addition} (h : addition.applies s = false) :
    ∃ e, s.add addition = .error e := by
  cases addition with
  | flags flags => cases h
  | bound bound => cases h
  | modelBound modelBound =>
    unfold Addition.applies at h
    rcases hplace : Transform.ofSpawn s with e | t
    · exact ⟨e, by simp [add, attachModelBound, hplace, Except.map]⟩
    · simp [hplace, Except.isOk, Except.toBool] at h

/-- Additions succeed together if each of them can be made, and then they come to what they
    give and attach. -/
theorem addAll_eq_ok_iff {t : Spawn Binary32} (additions : List Addition) :
    s.addAll additions = .ok t ↔
      (∀ addition ∈ additions, addition.applies s = true) ∧
        t = s.added (additions.filterMap Addition.flags?)
          (additions.filterMap (Addition.bound? s)) := by
  induction additions generalizing s with
  | nil =>
    have hnone : s.addAll [] = .ok s := rfl
    rw [hnone, Except.ok.injEq, List.filterMap_nil, List.filterMap_nil, added_nil, eq_comm]
    simp
  | cons addition additions ih =>
    rw [addAll, List.foldlM_cons]
    cases happlies : addition.applies s with
    | true =>
      -- what is added does not move a spawn, so the additions behind apply to it as to the first
      have hrest := ih (s.added addition.flags?.toList (addition.bound? s).toList)
      rw [applies_added, bound?_added, added_added] at hrest
      have hstep : (s.add addition >>= fun s => additions.foldlM add s) =
          (s.added addition.flags?.toList (addition.bound? s).toList).addAll additions := by
        rw [add_of_applies s happlies]
        rfl
      have hfirst {β : Type} (f : Addition → Option β) : (addition :: additions).filterMap f =
          (f addition).toList ++ additions.filterMap f := by
        rw [List.filterMap_cons]
        cases f addition <;> rfl
      rw [hstep, hrest, List.forall_mem_cons, hfirst, hfirst, happlies]
      simp
    | false =>
      obtain ⟨e, he⟩ := add_of_not_applies s happlies
      rw [he, List.forall_mem_cons, happlies]
      constructor
      · intro h
        cases h
      · rintro ⟨⟨h, -⟩, -⟩
        cases h

end Spawn

/-! ### A shelf -/

/-- A free field of a spawn, with a value for it. -/
inductive FieldValue
  | tile (tile : UInt16)
  | id (id : UInt32)
  | position (position : Vec3 Binary32)
  | rotation (rotation : Vec3 Binary32)
  | scale (scale : Binary32)
  | name (name : List UInt8)

def Spawn.assign (s : Spawn Binary32) : FieldValue → Spawn Binary32
  | .tile tile => { s with tile }
  | .id id => { s with id }
  | .position position => { s with position }
  | .rotation rotation => { s with rotation }
  | .scale scale => { s with scale }
  | .name name => { s with name }

/-- What can be done with the spawns on a shelf, which are called by their places. -/
inductive ShelfStep
  | unbounded (id : UInt32) (tile : UInt16) (name : List UInt8)
      (position rotation : Vec3 Binary32) (scale : Binary32)
  /-- Read one record, if there is one. -/
  | receive (stream : ByteStream)
  | copy (place : Nat)
  | assign (place : Nat) (value : FieldValue)
  /-- Make an addition to a spawn.  If it fails, the spawn is lost. -/
  | add (place : Nat) (addition : Addition)

namespace ShelfStep

/-- The shelf after a step.  An empty place stays empty, whatever is done with it. -/
def apply (shelf : List (Spawn Binary32)) : ShelfStep → List (Spawn Binary32)
  | .unbounded id tile name position rotation scale =>
    shelf ++ [Spawn.unbounded id tile name position rotation scale]
  | .receive stream =>
    match (Spawn.receive stream).1 with
    | .ok (some s) => shelf ++ [s]
    | _ => shelf
  | .copy place => shelf ++ shelf[place]?.toList
  | .assign place value => shelf.modify place fun s => s.assign value
  | .add place addition =>
    match shelf[place]?.map fun s : Spawn Binary32 => s.add addition with
    | some (.ok t) => shelf.set place t
    | some (.error _) => shelf.eraseIdx place
    | none => shelf

/-- The shelf after some steps. -/
def run (steps : List ShelfStep) (shelf : List (Spawn Binary32)) : List (Spawn Binary32) :=
  steps.foldl apply shelf

end ShelfStep

namespace Spawn

theorem Constructed.add {s t : Spawn Binary32} {addition : Addition} (hs : s.Constructed)
    (hadd : s.add addition = .ok t) : t.Constructed := by
  cases addition with
  | flags given =>
    obtain rfl := Except.ok.inj hadd
    exact hs.addFlags given
  | bound attached =>
    obtain rfl := Except.ok.inj hadd
    exact hs.attachBound attached
  | modelBound ofModel => exact hs.attachModelBound hadd

theorem Constructed.assignValue {s : Spawn Binary32} (hs : s.Constructed) (value : FieldValue) :
    (s.assign value).Constructed := by
  cases value with
  | tile tile => exact hs.assign tile s.id s.position s.rotation s.scale s.name
  | id id => exact hs.assign s.tile id s.position s.rotation s.scale s.name
  | position position => exact hs.assign s.tile s.id position s.rotation s.scale s.name
  | rotation rotation => exact hs.assign s.tile s.id s.position rotation s.scale s.name
  | scale scale => exact hs.assign s.tile s.id s.position s.rotation scale s.name
  | name name => exact hs.assign s.tile s.id s.position s.rotation s.scale name

end Spawn

namespace ShelfStep

open Spawn

theorem constructed_apply {shelf : List (Spawn Binary32)} (hshelf : ∀ s ∈ shelf, s.Constructed)
    (step : ShelfStep) : ∀ s ∈ step.apply shelf, s.Constructed := by
  cases step with
  | unbounded id tile name position rotation scale =>
    intro s hs
    rcases List.mem_append.mp hs with hs | hs
    · exact hshelf s hs
    · obtain rfl := List.mem_singleton.mp hs
      exact .unbounded id tile name position rotation scale
  | receive stream =>
    rcases hreceive : Spawn.receive stream with ⟨e | _ | t, rest⟩
    · simpa only [apply, hreceive] using hshelf
    · simpa only [apply, hreceive] using hshelf
    · intro s hs
      simp only [apply, hreceive, List.mem_append, List.mem_singleton] at hs
      rcases hs with hs | rfl
      · exact hshelf s hs
      · exact .received hreceive
  | copy place =>
    intro s hs
    rcases List.mem_append.mp hs with hs | hs
    · exact hshelf s hs
    · exact hshelf s (List.mem_of_getElem? (Option.mem_toList.mp hs))
  | assign place value =>
    intro s hs
    obtain ⟨i, hi⟩ := List.mem_iff_getElem?.mp hs
    rw [apply, List.getElem?_modify, Option.map_eq_map, Option.map_eq_some_iff] at hi
    obtain ⟨t, ht, rfl⟩ := hi
    have htmade := hshelf t (List.mem_of_getElem? ht)
    split
    · exact htmade.assignValue value
    · exact htmade
  | add place addition =>
    rcases hplace : shelf[place]? with _ | t
    · simpa only [apply, hplace, Option.map_none] using hshelf
    · have htmade := hshelf t (List.mem_of_getElem? hplace)
      rcases hadd : t.add addition with e | t'
      · intro s hs
        simp only [apply, hplace, Option.map_some, hadd] at hs
        exact hshelf s (List.mem_of_mem_eraseIdx hs)
      · intro s hs
        simp only [apply, hplace, Option.map_some, hadd] at hs
        rcases List.mem_or_eq_of_mem_set hs with hs | rfl
        · exact hshelf s hs
        · exact htmade.add hadd

theorem constructed_run (steps : List ShelfStep) {shelf : List (Spawn Binary32)}
    (hshelf : ∀ s ∈ shelf, s.Constructed) : ∀ s ∈ run steps shelf, s.Constructed := by
  induction steps generalizing shelf with
  | nil => exact hshelf
  | cons step steps ih => exact ih (constructed_apply hshelf step)

end ShelfStep

namespace Spawn

/-- Whoever reads a stored form goes by the layout that it was written in. -/
theorem length_fields_of_send {s : Spawn Binary32} (hs : s.Consistent) {encoding : List UInt8}
    (hsend : send s [] = (.ok (), encoding)) (tail : List UInt8) :
    s.fields.map List.length =
      fieldWidths (SpawnFlag.bounded.isSet (readWord32 (encoding ++ tail))) := by
  obtain ⟨-, rfl⟩ := send_nil_eq_ok_iff.mp hsend
  have hset : SpawnFlag.bounded.isSet s.flags = s.bound.isSome := hs
  rw [stored_append, readWord32_word32_append, hset, length_fields]

/-- **The bit of the bound follows the bound.**  Whatever steps are taken from an empty shelf, in
    each spawn on it the bit is set exactly if there is a bound; so the fields that are stored
    of it have the widths that a reader expects, which sees nothing of it but the bytes.  A
    spawn that is begun and only added to has the flags that it was given, except for this
    bit, which it has exactly if a bound was attached, and its bound is the last of these; and
    the additions succeed unless one of them needs the place of a spawn that has none. -/
theorem bit_follows_bound :
    (∀ steps : List ShelfStep, ∀ s ∈ ShelfStep.run steps [],
      s.has .bounded = s.bound.isSome ∧
      ∀ encoding : List UInt8, send s [] = (.ok (), encoding) → ∀ tail : List UInt8,
        s.fields.map List.length =
          fieldWidths (SpawnFlag.bounded.isSet (readWord32 (encoding ++ tail)))) ∧
    ∀ (id : UInt32) (tile : UInt16) (name : List UInt8) (position rotation : Vec3 Binary32)
        (scale : Binary32) (additions : List Addition),
      let start := unbounded id tile name position rotation scale
      let given := additions.filterMap Addition.flags?
      let attached := additions.filterMap (Addition.bound? start)
      (∀ t : Spawn Binary32, start.addAll additions = .ok t →
        t.flags = (given.foldr (· ||| ·) 0 &&& ~~~SpawnFlag.bounded.bit) |||
          (if attached = [] then 0 else SpawnFlag.bounded.bit) ∧
        t.bound = attached.getLast?) ∧
      ((∃ t, start.addAll additions = .ok t) ↔
        ∀ addition ∈ additions, addition.applies start = true) := by
  constructor
  · intro steps s hs
    have hmade := ShelfStep.constructed_run steps (by simp) s hs
    exact ⟨hmade.consistent, fun encoding hsend => length_fields_of_send hmade.consistent hsend⟩
  · intro id tile name position rotation scale additions start given attached
    constructor
    · intro t hadd
      obtain ⟨-, rfl⟩ := (start.addAll_eq_ok_iff additions).mp hadd
      have hflags : start.flags = 0 := rfl
      have hbound : start.bound = none := rfl
      refine ⟨?_, ?_⟩
      · rw [added, hflags, UInt32.zero_or]
        rfl
      · rw [added, hbound, Option.or_none]
    · constructor
      · rintro ⟨t, hadd⟩
        exact ((start.addAll_eq_ok_iff additions).mp hadd).1
      · intro happlies
        exact ⟨_, (start.addAll_eq_ok_iff additions).mpr ⟨happlies, rfl⟩⟩

end Spawn

end Placement
