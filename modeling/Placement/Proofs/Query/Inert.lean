/-
  Placement/Proofs/Query/Inert.lean
  =================================
  **Placed models that cannot answer change no answer.**

  A placed model is inert for a question if its gate refuses the question, or if its mesh has
  nothing to say to it.  A probe of such a model comes back empty, whatever was found before
  it and whatever distance it was handed; and where the gate refuses, no mesh is asked.

  So inert models may be inserted into a list wherever one likes.  What they change is the
  numbers of those that stand behind them, and these numbers are what a hit is told apart
  by.  A list with insertions is a list of entries, and `place` says where an item has
  moved to.  It keeps the order of the items (`place_lt_iff`), and order is all that the
  choice of the nearer hit asks of numbers.
-/
import Placement.Proofs.Query.LoneHits
import Placement.Proofs.Query.Highest

namespace Placement

/-! ### Lists with insertions -/

/-- An item of a list, or one that has been inserted into it. -/
inductive Entry (β : Type)
  | own (x : β)
  | added (x : β)

namespace Entry

variable {β δ : Type}

def item : Entry β → β
  | own x => x
  | added x => x

def own? : Entry β → Option β
  | own x => some x
  | added _ => none

/-- The list with the insertions. -/
def whole (entries : List (Entry β)) : List β := entries.map item

/-- The list before anything was inserted. -/
def before (entries : List (Entry β)) : List β := entries.filterMap own?

/-- How many were inserted before the item with this number. -/
def addedBefore : List (Entry β) → Nat → Nat
  | [], _ => 0
  | added _ :: entries, k => addedBefore entries k + 1
  | own _ :: _, 0 => 0
  | own _ :: entries, k + 1 => addedBefore entries k

/-- The number that an item has after the insertions. -/
def place (entries : List (Entry β)) (k : Nat) : Nat := k + addedBefore entries k

/-- All that was inserted has this property. -/
def Adds (P : β → Prop) (entries : List (Entry β)) : Prop := ∀ x, added x ∈ entries → P x

variable {P : β → Prop} {e : Entry β} {x : β} {entries : List (Entry β)}

@[simp] theorem whole_own : whole (own x :: entries) = x :: whole entries := rfl

@[simp] theorem whole_added : whole (added x :: entries) = x :: whole entries := rfl

@[simp] theorem before_own : before (own x :: entries) = x :: before entries := rfl

@[simp] theorem before_added : before (added x :: entries) = before entries := rfl

theorem Adds.head (h : Adds P (added x :: entries)) : P x := h x List.mem_cons_self

theorem Adds.tail (h : Adds P (e :: entries)) : Adds P entries := by
  intro x hx
  exact h x (List.mem_cons_of_mem e hx)

theorem Adds.mono {Q : β → Prop} (h : Adds P entries) (hPQ : ∀ x, P x → Q x) : Adds Q entries := by
  intro x hx
  exact hPQ x (h x hx)

theorem addedBefore_mono (entries : List (Entry β)) {j k : Nat} (h : j ≤ k) :
    addedBefore entries j ≤ addedBefore entries k := by
  induction entries generalizing j k with
  | nil => exact Nat.le_refl 0
  | cons e entries ih =>
    cases e with
    | added x => exact Nat.succ_le_succ (ih h)
    | own x =>
      cases j with
      | zero => exact Nat.zero_le _
      | succ j =>
        cases k with
        | zero => exact absurd h (Nat.not_succ_le_zero j)
        | succ k => exact ih (Nat.le_of_succ_le_succ h)

theorem place_lt_iff (entries : List (Entry β)) {j k : Nat} :
    place entries j < place entries k ↔ j < k := by
  simp only [place]
  constructor
  · intro h
    by_contra hle
    have hadded := addedBefore_mono entries (Nat.not_lt.mp hle)
    omega
  · intro h
    have hadded := addedBefore_mono entries (Nat.le_of_lt h)
    omega

theorem place_own_succ (k : Nat) : place (own x :: entries) (k + 1) = place entries k + 1 := by
  simp only [place, addedBefore]
  omega

theorem place_added (k : Nat) : place (added x :: entries) k = place entries k + 1 := rfl

/-- The number of an item leads to it in both lists. -/
theorem getElem?_place (entries : List (Entry β)) (k : Nat) :
    (whole entries)[place entries k]? = (before entries)[k]? := by
  induction entries generalizing k with
  | nil => rfl
  | cons e entries ih =>
    cases e with
    | added x => exact ih k
    | own x =>
      cases k with
      | zero => rfl
      | succ k =>
        rw [place_own_succ]
        exact ih k

/-- A change of numbers that goes along with the insertions, where the list is numbered from `j` on
    before them and from `i` on with them. -/
def Renumbers (f : Nat → Nat) (i j : Nat) (entries : List (Entry β)) : Prop :=
  ∀ k, f (j + k) = i + place entries k

namespace Renumbers

variable {f : Nat → Nat} {i j : Nat}

theorem of_place (entries : List (Entry β)) : Renumbers (place entries) 0 0 entries := by
  intro k
  rw [Nat.zero_add, Nat.zero_add]

theorem first (h : Renumbers f i j (own x :: entries)) : f j = i := h 0

theorem after_own (h : Renumbers f i j (own x :: entries)) :
    Renumbers f (i + 1) (j + 1) entries := by
  intro k
  have hnext := h (k + 1)
  rw [place_own_succ] at hnext
  rw [Nat.add_assoc, Nat.add_comm 1 k, hnext]
  omega

theorem after_added (h : Renumbers f i j (added x :: entries)) : Renumbers f (i + 1) j entries := by
  intro k
  rw [h k, place_added]
  omega

end Renumbers

theorem filterMap_whole {f : β → Option δ} (h : Adds (fun x => f x = none) entries) :
    (whole entries).filterMap f = (before entries).filterMap f := by
  rw [whole, before, List.filterMap_map, List.filterMap_filterMap]
  apply List.filterMap_congr
  intro e he
  cases e with
  | own x => rfl
  | added x => exact h x he

theorem flatMap_whole {f : β → List δ} (h : Adds (fun x => f x = []) entries) :
    (whole entries).flatMap f = (before entries).flatMap f := by
  induction entries with
  | nil => rfl
  | cons e entries ih =>
    cases e with
    | own x => rw [whole_own, before_own, List.flatMap_cons, List.flatMap_cons, ih h.tail]
    | added x =>
      rw [whole_added, before_added, List.flatMap_cons, h.head, List.nil_append, ih h.tail]

end Entry

/-! ### Questions to a mesh -/

namespace Query

variable {α μ γ β δ : Type}

/-- The questions that a query puts to meshes, in their order. -/
def calls (query : Query α μ γ β) : List (MeshCall α μ γ) := query.events.filterMap QueryEvent.call?

@[simp] theorem calls_pure (b : β) : (pure b : Query α μ γ β).calls = [] := rfl

@[simp] theorem calls_log (line : LogLine) : (log line : Query α μ γ Unit).calls = [] := rfl

@[simp] theorem calls_bind (query : Query α μ γ β) (next : β → Query α μ γ δ) :
    (query >>= next).calls = query.calls ++ (next query.value).calls :=
  List.filterMap_append

theorem calls_sift (query : β → Query α μ γ (Option δ)) (xs : List β) :
    calls (Traced.sift query xs) = xs.flatMap fun x => (query x).calls := by
  rw [calls, Traced.events_sift, List.filterMap_flatMap]
  rfl

/-- The questions of split work are those of its segments, put together alike. -/
theorem calls_collect (work : List β → Query α μ γ δ) (combine : δ → δ → δ) (tree : SplitTree β) :
    (tree.collect work (Traced.merge combine)).calls =
      tree.collect (fun xs => (work xs).calls) (· ++ ·) := by
  induction tree with
  | segment items => rfl
  | join left right ihl ihr =>
    rw [SplitTree.collect, SplitTree.collect, ← ihl, ← ihr]
    exact List.filterMap_append

end Query

/-! ### Inert models -/

namespace PlacedModel

variable {α μ γ β : Type} [Scalar α] {p : PlacedModel α μ} {ray : Ray α} {point : Vec3 α}
  {mode : RayMode}

/-- A ray that does not get to the mesh. -/
inductive BarsRay (p : PlacedModel α μ) (ray : Ray α) : Prop
  | unloaded (hmodel : p.model = none)
  | unbounded (hbound : p.spawn.bound = none)
  | beside {bound : Box α} (hbound : p.spawn.bound = some bound)
      (htime : Scalar.isInfinite (ray.entryTime bound) = true)

/-- A point from which no probe gets to the mesh. -/
inductive BarsPoint (p : PlacedModel α μ) (point : Vec3 α) : Prop
  | unloaded (hmodel : p.model = none)
  | doodad (hdoodad : p.spawn.has .doodad = true)
  | unbounded (hbound : p.spawn.bound = none)
  | outside {bound : Box α} (hbound : p.spawn.bound = some bound)
      (hcontains : bound.contains point = false)

theorem barsRay_iff : p.BarsRay ray ↔ ∀ model, p.rayGate ray ≠ .ok model := by
  simp only [ne_eq, rayGate_eq_ok_iff]
  constructor
  · intro h model hgate
    obtain ⟨hmodel, bound, hbound, htime⟩ := hgate
    cases h with
    | unloaded hmodel' => simp [hmodel] at hmodel'
    | unbounded hbound' => simp [hbound] at hbound'
    | beside hbound' htime' =>
      rw [hbound, Option.some.injEq] at hbound'
      simp [← hbound', htime] at htime'
  · intro h
    cases hmodel : p.model with
    | none => exact .unloaded hmodel
    | some model =>
      cases hbound : p.spawn.bound with
      | none => exact .unbounded hbound
      | some bound =>
        apply BarsRay.beside hbound
        rw [← Bool.not_eq_false]
        intro htime
        exact h model ⟨hmodel, bound, hbound, htime⟩

theorem barsPoint_iff : p.BarsPoint point ↔ ∀ model, ¬ p.LetsIn point model := by
  constructor
  · intro h model hin
    obtain ⟨bound, hbound, hcontains⟩ := hin.inside
    cases h with
    | unloaded hmodel => simp [hin.loaded] at hmodel
    | doodad hdoodad => simp [hin.noDoodad] at hdoodad
    | unbounded hbound' => simp [hbound] at hbound'
    | outside hbound' hcontains' =>
      rw [hbound, Option.some.injEq] at hbound'
      simp [← hbound', hcontains] at hcontains'
  · intro h
    cases hmodel : p.model with
    | none => exact .unloaded hmodel
    | some model =>
      cases hbound : p.spawn.bound with
      | none => exact .unbounded hbound
      | some bound =>
        cases hdoodad : p.spawn.has .doodad with
        | true => exact .doodad hdoodad
        | false =>
          apply BarsPoint.outside hbound
          rw [← Bool.not_eq_true]
          intro hcontains
          exact h model ⟨hmodel, hdoodad, bound, hbound, hcontains⟩

variable [Mesh α μ γ]

/-- A ray that comes to nothing here: it does not get to the mesh, or the mesh misses it at
    every distance. -/
def InertForRay (p : PlacedModel α μ) (mode : RayMode) (ray : Ray α) : Prop :=
  p.BarsRay ray ∨ ∀ model, p.model = some model → ∀ distance,
    (Mesh.traceRay model (p.transform.rayInModel ray) distance mode).hit = false

omit [Mesh α μ γ] in
/-- A point from which a probe comes to nothing here: it does not get to the mesh, or the mesh
    has no answer. -/
def InertForPoint (p : PlacedModel α μ) (answer : μ → Vec3 α → Vec3 α → Option β)
    (point : Vec3 α) : Prop :=
  p.BarsPoint point ∨ ∀ model, p.model = some model →
    answer model (p.transform.toModel point) p.downInModel = none

theorem BarsRay.inert (h : p.BarsRay ray) : p.InertForRay mode ray := .inl h

omit [Mesh α μ γ] in
theorem BarsPoint.inert {answer : μ → Vec3 α → Vec3 α → Option β} (h : p.BarsPoint point) :
    p.InertForPoint answer point := .inl h

theorem InertForRay.hitDistance_value (h : p.InertForRay mode ray) (distance : α) :
    (p.hitDistance ray distance mode).value = none := by
  rw [hitDistance]
  cases hgate : p.rayGate ray with
  | error refusal => rfl
  | ok model =>
    rcases h with h | h
    · exact absurd hgate (barsRay_iff.mp h model)
    · have hmiss := h model (rayGate_eq_ok_iff.mp hgate).1 (distance * p.transform.invScale)
      simp [Query.traceRay, hmiss]

theorem InertForPoint.areaBelow_value (h : p.InertForPoint Mesh.findArea point) :
    (p.areaBelow point).value = none := by
  apply Option.eq_none_iff_forall_ne_some.mpr
  intro surface hsurface
  obtain ⟨model, hit, hin, hhit, -⟩ := areaBelow_eq_some_iff.mp hsurface
  rcases h with h | h
  · exact barsPoint_iff.mp h model hin
  · rw [h model hin.loaded] at hhit
    cases hhit

theorem InertForPoint.surfaceBelow_value (h : p.InertForPoint Mesh.findGroup point) :
    (p.surfaceBelow point).value = none := by
  apply Option.eq_none_iff_forall_ne_some.mpr
  intro surface hsurface
  obtain ⟨model, hit, hin, hhit, -⟩ := surfaceBelow_eq_some_iff.mp hsurface
  rcases h with h | h
  · exact barsPoint_iff.mp h model hin
  · rw [h model hin.loaded] at hhit
    cases hhit

/-! ### What is refused asks no mesh -/

theorem BarsRay.calls_hitDistance (h : p.BarsRay ray) (distance : α) (mode : RayMode) :
    (p.hitDistance ray distance mode).calls = [] := by
  rw [hitDistance]
  cases hgate : p.rayGate ray with
  | error refusal => simp
  | ok model => exact absurd hgate (barsRay_iff.mp h model)

theorem BarsPoint.calls_probe (h : p.BarsPoint point)
    (question : μ → Vec3 α → Vec3 α → Query α μ γ (Option β)) :
    (p.probe point question).calls = [] := by
  rw [probe]
  rcases hgate : p.pointGate point with (_ | refusal) | ⟨model, q⟩
  · simp
  · simp
  · exact absurd (pointGate_eq_ok_iff.mp hgate).1 (barsPoint_iff.mp h model)

theorem BarsPoint.calls_areaBelow (h : p.BarsPoint point) : (p.areaBelow point).calls = [] := by
  simp [areaBelow, h.calls_probe]

theorem BarsPoint.calls_surfaceBelow (h : p.BarsPoint point) :
    (p.surfaceBelow point).calls = [] := by
  simp [surfaceBelow, h.calls_probe]

theorem calls_probeArea (p : PlacedModel α μ) (point : Vec3 α) (best : AreaSurface α) :
    (p.probeArea point best).calls = (p.areaBelow point).calls := by
  rw [probeArea, Query.calls_bind]
  cases (p.areaBelow point).value with
  | none => exact List.append_nil _
  | some surface => exact List.append_nil _

theorem calls_probeGroup (p : PlacedModel α μ) (point : Vec3 α) (best : LocatedSurface α μ γ) :
    (p.probeGroup point best).calls = (p.surfaceBelow point).calls := by
  rw [probeGroup, Query.calls_bind]
  cases (p.surfaceBelow point).value with
  | none => exact List.append_nil _
  | some surface => exact List.append_nil _

end PlacedModel

/-! ### Hits with other numbers -/

namespace PlacedHit

variable {f : Nat → Nat} {α : Type}

/-- The same hit in a list in which placed models have other numbers. -/
def renumber (f : Nat → Nat) (hit : PlacedHit α) : PlacedHit α := { hit with index := f hit.index }

theorem nearer_renumber [Scalar α] (hf : ∀ {j k}, f j < f k ↔ j < k) (a b : PlacedHit α) :
    (a.renumber f).nearer (b.renumber f) = (a.nearer b).renumber f := by
  rw [nearer, nearer, apply_ite (renumber f)]
  simp only [renumber, hf]

theorem nearest?_renumber [Scalar α] (hf : ∀ {j k}, f j < f k ↔ j < k) (hits : List (PlacedHit α)) :
    nearest? (hits.map (renumber f)) = (nearest? hits).map (renumber f) := by
  cases hits with
  | nil => rfl
  | cons first hits =>
    rw [List.map_cons, nearest?, nearest?, Option.map_some, List.foldl_map]
    exact congrArg some (List.foldl_hom (renumber f) (nearer_renumber hf))

end PlacedHit

/-! ### Lists of placed models -/

namespace Batch

open Entry PlacedHit

variable {μ γ β : Type} [Mesh Binary32 μ γ] {entries : List (Entry (PlacedModel Binary32 μ))}
  {settings : QuerySettings Binary32} {ray : Ray Binary32} {mode : RayMode} {point : Vec3 Binary32}

/-! ### Hits -/

section Hits

variable {f : Nat → Nat} {i j : Nat}

/-- A pass over the whole list takes the hits of the list as it was before. -/
theorem takenHits_whole (hinert : Adds (fun p => p.InertForRay mode ray) entries)
    (hf : Renumbers f i j entries) (distance : Binary32) :
    takenHits ray mode i (whole entries) distance =
      (takenHits ray mode j (before entries) distance).map (renumber f) := by
  induction entries generalizing i j distance with
  | nil => rfl
  | cons e entries ih =>
    cases e with
    | added p =>
      -- the distance that is handed on stays what it was; only the count goes up
      rw [whole_added, before_added, takenHits, hinert.head.hitDistance_value]
      exact ih hinert.tail hf.after_added distance
    | own p =>
      rw [whole_own, before_own, takenHits, takenHits]
      cases (p.hitDistance ray distance mode).value with
      | none => exact ih hinert.tail hf.after_own distance
      | some d => simp [renumber, hf.first, ih hinert.tail hf.after_own d]

theorem filterMap_zipIdx_whole
    (hinert : Adds (fun p => p.InertForRay settings.toRayMode ray) entries)
    (hf : Renumbers f i j entries) :
    (((whole entries).zipIdx i).filterMap fun p => (loneHit settings ray p).value) =
      (((before entries).zipIdx j).filterMap fun p => (loneHit settings ray p).value).map
        (renumber f) := by
  induction entries generalizing i j with
  | nil => rfl
  | cons e entries ih =>
    cases e with
    | added p =>
      rw [whole_added, before_added, List.zipIdx_cons, List.filterMap_cons, loneHit,
        Traced.value_bind, hinert.head.hitDistance_value]
      exact ih hinert.tail hf.after_added
    | own p =>
      rw [whole_own, before_own, List.zipIdx_cons, List.zipIdx_cons, List.filterMap_cons,
        List.filterMap_cons, loneHit, loneHit, Traced.value_bind, Traced.value_bind]
      cases (p.hitDistance ray settings.maxRayDistance settings.toRayMode).value with
      | none => exact ih hinert.tail hf.after_own
      | some d => simp [renumber, hf.first, ih hinert.tail hf.after_own]

theorem seekRay_whole (hinert : Adds (fun p => p.InertForRay mode ray) entries)
    (distance : Binary32) :
    (seekRay ray mode 0 (whole entries) distance none).value =
      (seekRay ray mode 0 (before entries) distance none).value.map (renumber (place entries)) := by
  have htaken := takenHits_whole hinert (Renumbers.of_place entries) distance
  -- a pass that stops keeps the first of the hits it takes, and any other the last
  by_cases hmode : mode.stopAtFirstHit = true
  · rw [seekRay_value_of_stop hmode, seekRay_value_of_stop hmode, htaken, Option.or_none,
      Option.or_none, List.head?_map]
  · rw [Bool.not_eq_true] at hmode
    rw [seekRay_value hmode, seekRay_value hmode, htaken, Option.or_none, Option.or_none,
      List.getLast?_map]

theorem splitRay_whole (hmode : settings.stopAtFirstHit = false)
    (hmesh : LeavesNumbers μ settings.toRayMode) (hplaced : ∀ p ∈ before entries, p.Accepted)
    (hinert : Adds (fun p => p.InertForRay settings.toRayMode ray) entries)
    (schedule schedule' : Schedule) :
    (splitRay schedule settings (whole entries) ray).value =
      (splitRay schedule' settings (before entries) ray).value.map (renumber (place entries)) := by
  have hlone : loneHits settings ray (whole entries) =
      (loneHits settings ray (before entries)).map (renumber (place entries)) :=
    filterMap_zipIdx_whole hinert (Renumbers.of_place entries)
  have hnum : ∀ hit ∈ loneHits settings ray (before entries), hit.distance.isNaN = false :=
    isNaN_of_loneHit hmesh hplaced
  have hnum' : ∀ hit ∈ loneHits settings ray (whole entries), hit.distance.isNaN = false := by
    intro hit hhit
    rw [hlone] at hhit
    obtain ⟨own, hown, rfl⟩ := List.mem_map.mp hhit
    exact hnum own hown
  rw [splitRay_eq_nearest? hmode hnum, splitRay_eq_nearest? hmode hnum', hlone]
  exact nearest?_renumber (place_lt_iff entries) _

end Hits

theorem hitOnRay_whole
    (hpath : isSequential settings (whole entries) = isSequential settings (before entries))
    (hsplit : isSequential settings (before entries) = false → settings.stopAtFirstHit = false ∧
      LeavesNumbers μ settings.toRayMode ∧ ∀ p ∈ before entries, p.Accepted)
    (hinert : Adds (fun p => p.InertForRay settings.toRayMode ray) entries)
    (schedule schedule' : Schedule) :
    (hitOnRay schedule settings (whole entries) ray).value =
      (hitOnRay schedule' settings (before entries) ray).value.map (renumber (place entries)) := by
  rw [hitOnRay, hitOnRay, hpath]
  cases hsequential : isSequential settings (before entries) with
  | true => exact seekRay_whole hinert settings.maxRayDistance
  | false =>
    obtain ⟨hmode, hmesh, hplaced⟩ := hsplit hsequential
    exact splitRay_whole hmode hmesh hplaced hinert schedule schedule'

/-! ### Ground -/

theorem areaBelow_whole (hinert : Adds (fun p => p.InertForPoint Mesh.findArea point) entries)
    (schedule schedule' : Schedule) (settings settings' : QuerySettings Binary32) :
    (areaBelow schedule settings (whole entries) point).value =
      (areaBelow schedule' settings' (before entries) point).value := by
  rw [areaBelow_value, areaBelow_value, filterMap_whole]
  exact hinert.mono fun p hp => hp.areaBelow_value

theorem surfaceBelow_whole (hinert : Adds (fun p => p.InertForPoint Mesh.findGroup point) entries)
    (schedule schedule' : Schedule) (settings settings' : QuerySettings Binary32) :
    (surfaceBelow schedule settings (whole entries) point).value =
      (surfaceBelow schedule' settings' (before entries) point).value := by
  rw [surfaceBelow_value, surfaceBelow_value, filterMap_whole]
  exact hinert.mono fun p hp => hp.surfaceBelow_value

/-! ### Questions -/

theorem calls_seekRay_whole (hbars : Adds (fun p => p.BarsRay ray) entries) (i j : Nat)
    (distance : Binary32) (best best' : Option (PlacedHit Binary32)) :
    (seekRay ray mode i (whole entries) distance best).calls =
      (seekRay ray mode j (before entries) distance best').calls := by
  induction entries generalizing i j distance best best' with
  | nil => rfl
  | cons e entries ih =>
    cases e with
    | added p =>
      have hinert : p.InertForRay mode ray := hbars.head.inert
      rw [whole_added, before_added, seekRay, Query.calls_bind, hinert.hitDistance_value,
        hbars.head.calls_hitDistance]
      exact ih hbars.tail (i + 1) j distance best best'
    | own p =>
      rw [whole_own, before_own, seekRay, seekRay, Query.calls_bind, Query.calls_bind]
      congr 1
      cases (p.hitDistance ray distance mode).value with
      | none => exact ih hbars.tail (i + 1) (j + 1) distance best best'
      | some d =>
        cases hmode : mode.stopAtFirstHit with
        | true => rfl
        | false => exact ih hbars.tail (i + 1) (j + 1) d _ _

theorem calls_seekArea (point : Vec3 Binary32) (ps : List (PlacedModel Binary32 μ))
    (best : AreaSurface Binary32) :
    (seekArea point ps best).calls = ps.flatMap fun p => (p.areaBelow point).calls := by
  induction ps generalizing best with
  | nil => rfl
  | cons p ps ih =>
    rw [seekArea, Query.calls_bind, p.calls_probeArea, ih, List.flatMap_cons]

theorem calls_seekGroup (point : Vec3 Binary32) (ps : List (PlacedModel Binary32 μ))
    (best : LocatedSurface Binary32 μ γ) :
    (seekGroup point ps best).calls = ps.flatMap fun p => (p.surfaceBelow point).calls := by
  induction ps generalizing best with
  | nil => rfl
  | cons p ps ih =>
    rw [seekGroup, Query.calls_bind, p.calls_probeGroup, ih, List.flatMap_cons]

omit [Mesh Binary32 μ γ] in
/-- What each item of a list asks does not depend on what was found before it, so along any tree
    it comes to the same questions. -/
theorem collect_calls {β δ : Type} {work : List β → Query Binary32 μ γ δ}
    {question : β → List (MeshCall Binary32 μ γ)}
    (hwork : ∀ ps, (work ps).calls = ps.flatMap question) (tree : SplitTree β) :
    tree.collect (fun ps => (work ps).calls) (· ++ ·) = tree.items.flatMap question := by
  rw [← hwork tree.items]
  apply tree.collect_eq
  intro xs ys _
  rw [hwork, hwork, hwork, List.flatMap_append]

section Questions

variable (schedule : Schedule) (settings : QuerySettings Binary32)
  (placed : List (PlacedModel Binary32 μ))

theorem calls_areaBelow (point : Vec3 Binary32) :
    (areaBelow schedule settings placed point).calls =
      placed.flatMap fun p => (p.areaBelow point).calls := by
  rw [areaBelow]
  split
  · exact calls_seekArea point placed .none
  · rw [splitArea, Query.calls_collect, collect_calls (fun ps => calls_seekArea point ps .none),
      schedule.items_split]

theorem calls_surfaceBelow (point : Vec3 Binary32) :
    (surfaceBelow schedule settings placed point).calls =
      placed.flatMap fun p => (p.surfaceBelow point).calls := by
  rw [surfaceBelow]
  split
  · exact calls_seekGroup point placed .none
  · rw [splitGroup, Query.calls_collect, collect_calls (fun ps => calls_seekGroup point ps .none),
      schedule.items_split]

/-- What a placed model asks when it is asked alone. -/
def loneCalls (settings : QuerySettings Binary32) (ray : Ray Binary32)
    (p : PlacedModel Binary32 μ) : List (MeshCall Binary32 μ γ) :=
  (p.hitDistance ray settings.maxRayDistance settings.toRayMode).calls

theorem calls_sift_loneHit (ray : Ray Binary32) (ps : List (PlacedModel Binary32 μ × Nat)) :
    Query.calls (Traced.sift (loneHit settings ray) ps) =
      ps.flatMap fun p => loneCalls settings ray p.1 := by
  rw [Query.calls_sift]
  congr 1
  funext p
  rw [loneHit, Query.calls_bind, Query.calls_pure, List.append_nil, loneCalls]

theorem calls_firstOf_sublist (ray : Ray Binary32) (ps : List (PlacedModel Binary32 μ × Nat)) :
    (firstOf schedule settings ray ps).calls.Sublist
      (ps.flatMap fun p => loneCalls settings ray p.1) := by
  change (Query.calls (Traced.sift (loneHit settings ray) (ps.filter _))).Sublist _
  rw [calls_sift_loneHit]
  exact List.filter_sublist.flatMap _

theorem flatMap_zipIdx_loneCalls (ray : Ray Binary32) :
    (placed.zipIdx.flatMap fun p => loneCalls settings ray p.1) =
      placed.flatMap (loneCalls settings ray) := by
  have hplaced : placed.zipIdx.map Prod.fst = placed := List.zipIdx_map_fst 0 placed
  conv_rhs => rw [← hplaced, List.flatMap_map]

/-- Split work that looks for the nearest hit asks all placed models, each over the full
    distance. -/
theorem calls_splitRay (hmode : settings.stopAtFirstHit = false) (ray : Ray Binary32) :
    (splitRay schedule settings placed ray).calls = placed.flatMap (loneCalls settings ray) := by
  have hwork : ∀ ps : List (PlacedModel Binary32 μ × Nat), (nearestOf settings ray ps).calls =
      ps.flatMap fun p => loneCalls settings ray p.1 := by
    intro ps
    rw [nearestOf, Query.calls_bind, Query.calls_pure, List.append_nil, calls_sift_loneHit]
  rw [splitRay, hmode, if_neg Bool.false_ne_true, Query.calls_collect, collect_calls hwork,
    schedule.items_split, flatMap_zipIdx_loneCalls]

/-- Where any hit will do, split work asks some of them and leaves out others. -/
theorem calls_splitRay_sublist (ray : Ray Binary32) :
    (splitRay schedule settings placed ray).calls.Sublist
      (placed.flatMap (loneCalls settings ray)) := by
  by_cases hmode : settings.stopAtFirstHit = true
  · rw [splitRay, if_pos hmode, schedule.items_split, ← flatMap_zipIdx_loneCalls]
    exact calls_firstOf_sublist schedule settings ray placed.zipIdx
  · rw [calls_splitRay schedule settings placed (by simpa using hmode)]

end Questions

/-- **Inert placed models change no answer.**  Insert any number of placed models anywhere into a
    list.  If all of them are inert for a point, ground queries report the same, whichever
    path either list takes.  If all of them are inert for a ray, then a pass over the whole list
    ends with the same hit at the same distance, under the number that its placed model has now;
    and so does split work that looks for the nearest hit, for accepted scales and meshes
    that leave numbers.  If all of them are inert by their gates, they ask no mesh anything, so
    that the questions of both lists are the same, on either path.  Only where any hit will do, a
    schedule may leave out some of the questions of the models that were there before. -/
theorem inert_insertions_change_no_answer (entries : List (Entry (PlacedModel Binary32 μ))) :
    (∀ k, (whole entries)[place entries k]? = (before entries)[k]?) ∧
    (∀ (point : Vec3 Binary32) (schedule schedule' : Schedule)
        (settings settings' : QuerySettings Binary32),
      (Adds (fun p => p.InertForPoint Mesh.findArea point) entries →
        (areaBelow schedule settings (whole entries) point).value =
          (areaBelow schedule' settings' (before entries) point).value) ∧
      (Adds (fun p => p.InertForPoint Mesh.findGroup point) entries →
        (surfaceBelow schedule settings (whole entries) point).value =
          (surfaceBelow schedule' settings' (before entries) point).value)) ∧
    (∀ (ray : Ray Binary32) (settings : QuerySettings Binary32) (schedule schedule' : Schedule),
      Adds (fun p => p.InertForRay settings.toRayMode ray) entries →
      let usable := LeavesNumbers μ settings.toRayMode ∧ ∀ p ∈ before entries, p.Accepted
      let moved := renumber (place entries)
      (seekRay ray settings.toRayMode 0 (whole entries) settings.maxRayDistance none).value =
        (seekRay ray settings.toRayMode 0 (before entries) settings.maxRayDistance
          none).value.map moved ∧
      (settings.stopAtFirstHit = false → usable →
        (splitRay schedule settings (whole entries) ray).value =
          (splitRay schedule' settings (before entries) ray).value.map moved) ∧
      (isSequential settings (whole entries) = isSequential settings (before entries) →
        (isSequential settings (before entries) = false →
          settings.stopAtFirstHit = false ∧ usable) →
        (hitOnRay schedule settings (whole entries) ray).value =
          (hitOnRay schedule' settings (before entries) ray).value.map moved)) ∧
    (∀ (point : Vec3 Binary32) (tree : SplitTree (PlacedModel Binary32 μ)),
      Adds (fun p => p.BarsPoint point) entries → tree.items = whole entries →
      Adds (fun p => (p.areaBelow point).calls = [] ∧ (p.surfaceBelow point).calls = []) entries ∧
      tree.collect (fun ps => (seekArea point ps .none).calls) (· ++ ·) =
        (seekArea point (before entries) .none).calls ∧
      tree.collect (fun ps => (seekGroup point ps .none).calls) (· ++ ·) =
        (seekGroup point (before entries) .none).calls) ∧
    (∀ (ray : Ray Binary32) (mode : RayMode) (distance : Binary32),
      Adds (fun p => p.BarsRay ray) entries →
      Adds (fun p => (p.hitDistance ray distance mode).calls = []) entries ∧
      (seekRay ray mode 0 (whole entries) distance none).calls =
        (seekRay ray mode 0 (before entries) distance none).calls) ∧
    ∀ (schedule schedule' : Schedule) (settings settings' : QuerySettings Binary32),
      (∀ point : Vec3 Binary32, Adds (fun p => p.BarsPoint point) entries →
        (areaBelow schedule settings (whole entries) point).calls =
          (areaBelow schedule' settings' (before entries) point).calls ∧
        (surfaceBelow schedule settings (whole entries) point).calls =
          (surfaceBelow schedule' settings' (before entries) point).calls) ∧
      ∀ ray : Ray Binary32, Adds (fun p => p.BarsRay ray) entries →
        (settings.stopAtFirstHit = false →
          (splitRay schedule settings (whole entries) ray).calls =
            (splitRay schedule' settings (before entries) ray).calls) ∧
        (splitRay schedule settings (whole entries) ray).calls.Sublist
          ((before entries).flatMap (loneCalls settings ray)) := by
  refine ⟨getElem?_place entries, ?_, ?_, ?_, ?_, ?_⟩
  · intro point schedule schedule' settings settings'
    constructor
    · intro hinert
      exact areaBelow_whole hinert schedule schedule' settings settings'
    · intro hinert
      exact surfaceBelow_whole hinert schedule schedule' settings settings'
  · intro ray settings schedule schedule' hinert usable moved
    refine ⟨seekRay_whole hinert settings.maxRayDistance, ?_, ?_⟩
    · intro hmode husable
      exact splitRay_whole hmode husable.1 husable.2 hinert schedule schedule'
    · intro hpath hsplit
      exact hitOnRay_whole hpath hsplit hinert schedule schedule'
  · intro point tree hbars htree
    have hareas := hbars.mono fun p hp => hp.calls_areaBelow
    have hgroups := hbars.mono fun p hp => hp.calls_surfaceBelow
    refine ⟨hbars.mono fun p hp => ⟨hp.calls_areaBelow, hp.calls_surfaceBelow⟩, ?_, ?_⟩
    · rw [collect_calls fun ps => calls_seekArea point ps .none, htree, calls_seekArea]
      exact flatMap_whole hareas
    · rw [collect_calls fun ps => calls_seekGroup point ps .none, htree, calls_seekGroup]
      exact flatMap_whole hgroups
  · intro ray mode distance hbars
    refine ⟨hbars.mono fun p hp => hp.calls_hitDistance distance mode, ?_⟩
    exact calls_seekRay_whole hbars 0 0 distance none none
  · intro schedule schedule' settings settings'
    refine ⟨?_, ?_⟩
    · intro point hbars
      simp only [calls_areaBelow, calls_surfaceBelow]
      exact ⟨flatMap_whole (hbars.mono fun p hp => hp.calls_areaBelow),
        flatMap_whole (hbars.mono fun p hp => hp.calls_surfaceBelow)⟩
    · intro ray hbars
      have hlone : (whole entries).flatMap (loneCalls settings ray) =
          (before entries).flatMap (loneCalls settings ray) :=
        flatMap_whole (hbars.mono fun p hp => hp.calls_hitDistance _ _)
      refine ⟨?_, ?_⟩
      · intro hmode
        rw [calls_splitRay _ _ _ hmode, calls_splitRay _ _ _ hmode, hlone]
      · rw [← hlone]
        exact calls_splitRay_sublist schedule settings (whole entries) ray

end Batch

/-! ### Insertions before each item -/

namespace Entry

variable {β : Type}

/-- A list with some items inserted before each of its own. -/
def ahead (xs ys : List β) : List (Entry β) := ys.flatMap fun y => xs.map added ++ [own y]

theorem before_ahead (xs ys : List β) : before (ahead xs ys) = ys := by
  induction ys with
  | nil => rfl
  | cons y ys ih =>
    have hadded : (xs.map added).filterMap own? = ([] : List β) := by
      rw [List.filterMap_map, List.filterMap_eq_nil_iff]
      intro x _
      rfl
    rw [ahead, before] at ih
    rw [ahead, before, List.flatMap_cons, List.filterMap_append, List.filterMap_append, hadded, ih]
    rfl

theorem adds_ahead {P : β → Prop} {xs : List β} (h : ∀ x ∈ xs, P x) (ys : List β) :
    Adds P (ahead xs ys) := by
  intro x hx
  have hmem : (∃ y, y ∈ ys) ∧ x ∈ xs := by simpa [ahead] using hx
  exact h x hmem.2

end Entry

namespace PlacedModel

variable {μ : Type} {model : μ} {p : PlacedModel Binary32 μ}

/-- A model without a bound, one that is not loaded, and one whose bound is far away. -/
def barred (model : μ) : List (PlacedModel Binary32 μ) :=
  let spawn := Spawn.unbounded 0 0 [] .zero .zero Binary32.one
  let near : Box Binary32 := ⟨.zero, .zero⟩
  let far : Box Binary32 := ⟨⟨.ofInt 10, .ofInt 10, .zero⟩, ⟨.ofInt 20, .ofInt 20, .zero⟩⟩
  let models := [(spawn, some model), (spawn.attachBound near, none),
    (spawn.attachBound far, some model)]
  models.filterMap fun s => (place 0 s.1 s.2).toOption

theorem bars_of_mem_barred (hp : p ∈ barred model) :
    p.BarsRay Floor.downward ∧ p.BarsPoint .zero := by
  obtain ⟨s, hs, hplace⟩ := List.mem_filterMap.mp hp
  obtain ⟨t, -, rfl⟩ := place_eq_ok_iff.mp (place_of_toOption hplace)
  simp only [List.mem_cons, List.not_mem_nil, or_false] at hs
  rcases hs with rfl | rfl | rfl
  · exact ⟨.unbounded rfl, .unbounded rfl⟩
  · exact ⟨.unloaded rfl, .unloaded rfl⟩
  · exact ⟨.beside rfl (by decide +kernel), .outside rfl (by decide +kernel)⟩

end PlacedModel

namespace Batch

open Entry

/-- Floors with four models each inserted before them, one of which is a floor too high up to be
    hit; and soundings with three models before each. -/
theorem inert_insertions_between_floors :
    let barred := PlacedModel.barred (Floor.mk .zero)
    let floors := ahead (barred ++ Floor.placed [(.ofInt 9, .one)])
      (Floor.placed [(.zero, .one), (.one, .ofInt 2)])
    let soundings := ahead (PlacedModel.barred (Sounding.mk .one))
      (Sounding.placed [.ofInt 4, .ofInt 2])
    let settings := QuerySettings.standard
    Adds (fun p => p.InertForRay settings.toRayMode Floor.downward) floors ∧
    Adds (fun p => p.BarsRay Floor.downward ∧ p.BarsPoint .zero) soundings ∧
    LeavesNumbers Floor settings.toRayMode ∧ (∀ p ∈ before floors, p.Accepted) ∧
    (∀ schedule : Schedule,
      (hitOnRay schedule settings (whole floors) Floor.downward).value = some ⟨9, .ofInt 3⟩ ∧
      (splitRay schedule settings (whole floors) Floor.downward).value = some ⟨9, .ofInt 3⟩ ∧
      (areaBelow schedule settings (whole soundings) .zero).value.height = .ofInt (-2) ∧
      (surfaceBelow schedule settings (whole soundings) .zero).value.height = .ofInt (-2)) ∧
    (seekArea .zero (whole soundings) .none).calls =
      (seekArea .zero (before soundings) .none).calls ∧
    (seekRay Floor.downward settings.toRayMode 0 (whole soundings) .one none).calls =
      (seekRay Floor.downward settings.toRayMode 0 (before soundings) .one none).calls := by
  intro barred floors soundings settings
  have habove : ∀ p ∈ Floor.placed [(.ofInt 9, .one)], ∀ floor ∈ p.model,
      floor.reach? (p.transform.rayInModel Floor.downward) = none := by
    decide +kernel
  have hfloors : Adds (fun p => p.InertForRay settings.toRayMode Floor.downward) floors := by
    apply adds_ahead
    intro p hp
    rcases List.mem_append.mp hp with hp | hp
    · exact (PlacedModel.bars_of_mem_barred hp).1.inert
    · apply Or.inr
      intro floor hfloor distance
      change (RayFinding.within distance (floor.reach? _)).hit = false
      rw [habove p hp floor hfloor]
      rfl
  have hsoundings : Adds (fun p => p.BarsRay Floor.downward ∧ p.BarsPoint .zero) soundings := by
    apply adds_ahead
    intro p hp
    exact PlacedModel.bars_of_mem_barred hp
  have hmesh : LeavesNumbers Floor settings.toRayMode := Floor.geometry.leavesNumbers rfl
  have hplaced : ∀ p ∈ before floors, p.Accepted := by
    rw [before_ahead]
    exact Floor.accepted_of_mem_placed
  obtain ⟨-, -, hrays, -⟩ := inert_insertions_change_no_answer floors
  obtain ⟨-, hground, -, hprobes, htraces, -⟩ := inert_insertions_change_no_answer soundings
  have hpoint := hsoundings.mono fun p hp => hp.2
  have hpath : isSequential settings (whole floors) = isSequential settings (before floors) := by
    decide +kernel
  have hsequential : isSequential settings (before floors) ≠ false := by decide +kernel
  refine ⟨hfloors, hsoundings, hmesh, hplaced, ?_, ?_, ?_⟩
  · intro schedule
    obtain ⟨-, hsplit, hhit⟩ := hrays Floor.downward settings schedule .halving hfloors
    obtain ⟨harea, hgroup⟩ := hground .zero schedule .halving settings settings
    rw [hhit hpath (fun h => absurd h hsequential), hsplit rfl ⟨hmesh, hplaced⟩,
      harea (hpoint.mono fun p hp => hp.inert), hgroup (hpoint.mono fun p hp => hp.inert),
      before_ahead, before_ahead]
    decide +kernel
  · have hsegment : (SplitTree.segment (whole soundings)).items = whole soundings := by
      rw [SplitTree.items]
    obtain ⟨-, harea, -⟩ := hprobes .zero _ hpoint hsegment
    rw [SplitTree.collect] at harea
    exact harea
  · exact (htraces Floor.downward settings.toRayMode .one (hsoundings.mono fun p hp => hp.1)).2

end Batch

end Placement
