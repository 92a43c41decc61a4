/-
  Placement/Proofs/Query/Accumulation.lean
  ========================================
  **Surfaces in the making, however they are put together.**

  Surfaces of both kinds are collected in slots: a probe adds to a slot what it finds, and
  one slot may be put together with another.  A `Ledger` holds the slots, and `run` applies
  any operations to it, in any order; each probe brings a mesh of its own, so what a mesh
  answers may depend on anything.

  Every operation makes an offer to one slot, which takes it only if it is higher.  An
  offer is either what the probe itself has found or what another slot has held, so a slot
  never holds parts of two answers: it is as it was at the start, or it is the answer of
  one probe, complete (`Backed`).  What a probe can answer is spelled out field by field in
  `FindsArea` and `FindsGroup`.
-/
import Mathlib.Data.List.Induction
import Mathlib.Logic.Function.Basic
import Placement.Proofs.Query.Ground
import Placement.Proofs.Query.Probes

namespace Placement

/-! ### Offers -/

section Offers

variable {β : Type} {found : β → Bool} {height : β → Binary32} {best other : β}

/-- As at the start, or with a height and from somewhere. -/
def Backed (height : β → Binary32) (start : β) (Known : β → Prop) (s : β) : Prop :=
  s = start ∨ (Binary32.negInf < height s ∧ Known s)

theorem keep_ne_iff :
    keep (isHigher found height) best other ≠ best ↔ isHigher found height best other = true := by
  constructor
  · intro hchanged
    by_contra hlow
    exact hchanged (keep_of_not_better hlow)
  · intro hhigher hsame
    rw [keep_of_better hhigher] at hsame
    rw [hsame] at hhigher
    exact Binary32.lt_irrefl _ (isHigher_iff.mp hhigher).2

theorem height_lt_keep (h : isHigher found height best other = true) :
    height best < height (keep (isHigher found height) best other) := by
  rw [keep_of_better h]
  exact (isHigher_iff.mp h).2

namespace Backed

variable {start s : β} {Known Known' : β → Prop}

theorem mono (h : Backed height start Known s) (hknown : ∀ s, Known s → Known' s) :
    Backed height start Known' s := by
  rcases h with h | ⟨hheight, h⟩
  · exact .inl h
  · exact .inr ⟨hheight, hknown s h⟩

theorem isNaN_eq_false (hstart : height start = .negInf) (h : Backed height start Known s) :
    (height s).isNaN = false := by
  rcases h with rfl | ⟨hheight, -⟩
  · rw [hstart]
    rfl
  · exact Binary32.isNaN_right_of_lt hheight

theorem known (h : Backed height start Known s) (hs : s ≠ start) : Known s := by
  rcases h with rfl | ⟨-, h⟩
  · exact absurd rfl hs
  · exact h

/-- An offer may be taken if it is itself known, should it count as found. -/
theorem kept (h : Backed height start Known best) (hother : found other = true → Known other) :
    Backed height start Known (keep (isHigher found height) best other) := by
  by_cases hhigher : isHigher found height best other = true
  · rw [keep_of_better hhigher]
    obtain ⟨hfound, hheight⟩ := isHigher_iff.mp hhigher
    exact .inr ⟨Binary32.negInf_lt_of_lt hheight, hother hfound⟩
  · rw [keep_of_not_better hhigher]
    exact h

/-- So it is with all slots when an offer is made to one of them. -/
theorem update {ι : Type} [DecidableEq ι] {slots : ι → β}
    (h : ∀ i, Backed height start Known (slots i)) (i : ι)
    (hother : found other = true → Known other) (i' : ι) :
    Backed height start Known
      (Function.update slots i (keep (isHigher found height) (slots i) other) i') := by
  rcases eq_or_ne i' i with rfl | hne
  · rw [Function.update_self]
    exact (h i').kept hother
  · rw [Function.update_of_ne hne]
    exact h i'

end Backed

end Offers

/-! ### Operations -/

section Operations

variable {ι κ μ γ : Type}

/-- Slots for surfaces of both kinds. -/
structure Ledger (ι κ μ γ : Type) where
  areas : ι → AreaSurface Binary32
  groups : κ → LocatedSurface Binary32 μ γ

/-- What can be done with the slots of a ledger. -/
inductive Accumulation (ι κ μ γ : Type)
  | probeArea (mesh : Mesh Binary32 μ γ) (slot : ι) (placed : PlacedModel Binary32 μ)
      (point : Vec3 Binary32)
  | probeGroup (mesh : Mesh Binary32 μ γ) (slot : κ) (placed : PlacedModel Binary32 μ)
      (point : Vec3 Binary32)
  | mergeAreas (into other : ι)
  | mergeGroups (into other : κ)

namespace Ledger

/-- Nothing was found yet. -/
def fresh : Ledger ι κ μ γ := ⟨fun _ => .none, fun _ => .none⟩

/-- What stands in a slot. -/
def entry (l : Ledger ι κ μ γ) : ι ⊕ κ → AreaSurface Binary32 ⊕ LocatedSurface Binary32 μ γ :=
  Sum.map l.areas l.groups

def heightAt (l : Ledger ι κ μ γ) : ι ⊕ κ → Binary32 :=
  Sum.elim (fun i => (l.areas i).height) fun j => (l.groups j).height

end Ledger

namespace Accumulation

/-- The slot that an operation may change. -/
def target : Accumulation ι κ μ γ → ι ⊕ κ
  | probeArea _ slot _ _ => .inl slot
  | probeGroup _ slot _ _ => .inr slot
  | mergeAreas into _ => .inl into
  | mergeGroups into _ => .inr into

/-- An area that an operation can have found: that of a probe, with what the mesh of its placed
    model answers, the height of this answer and the tile of the spawn. -/
inductive FindsArea : Accumulation ι κ μ γ → AreaSurface Binary32 → Prop
  | probe (mesh : Mesh Binary32 μ γ) (slot : ι) (placed : PlacedModel Binary32 μ)
      (point : Vec3 Binary32) (model : μ) (hit : AreaFinding Binary32)
      (hmodel : placed.model = some model)
      (hhit : mesh.findArea model (placed.transform.toModel point) placed.downInModel = some hit) :
      FindsArea (.probeArea mesh slot placed point)
        { found := true
          height := placed.groundHeight (placed.transform.toModel point) hit.distance
          flags := hit.flags
          tile := placed.spawn.tile
          rootId := hit.rootId
          groupId := hit.groupId }

/-- A surface that an operation can have found, with the group that the mesh of its placed
    model names and with this placed model. -/
inductive FindsGroup : Accumulation ι κ μ γ → LocatedSurface Binary32 μ γ → Prop
  | probe (mesh : Mesh Binary32 μ γ) (slot : κ) (placed : PlacedModel Binary32 μ)
      (point : Vec3 Binary32) (model : μ) (hit : GroupFinding Binary32 γ)
      (hmodel : placed.model = some model)
      (hhit : mesh.findGroup model (placed.transform.toModel point) placed.downInModel = some hit) :
      FindsGroup (.probeGroup mesh slot placed point)
        { rootId := hit.rootId
          group := some hit.group
          placed := some placed
          height := placed.groundHeight (placed.transform.toModel point) hit.distance }

theorem FindsArea.found {op : Accumulation ι κ μ γ} {s : AreaSurface Binary32}
    (h : op.FindsArea s) : s.found = true := by
  cases h with
  | probe => rfl

theorem FindsGroup.isSome {op : Accumulation ι κ μ γ} {s : LocatedSurface Binary32 μ γ}
    (h : op.FindsGroup s) : s.group.isSome = true ∧ s.placed.isSome = true := by
  cases h with
  | probe => exact ⟨rfl, rfl⟩

theorem findsArea_of_areaBelow [mesh : Mesh Binary32 μ γ] {placed : PlacedModel Binary32 μ}
    {point : Vec3 Binary32} {s : AreaSurface Binary32} (slot : ι)
    (h : (placed.areaBelow point).value = some s) :
    FindsArea (probeArea mesh slot placed point : Accumulation ι κ μ γ) s := by
  obtain ⟨model, hit, hin, hhit, rfl⟩ := PlacedModel.areaBelow_eq_some_iff.mp h
  exact .probe mesh slot placed point model hit hin.loaded hhit

theorem findsGroup_of_surfaceBelow [mesh : Mesh Binary32 μ γ] {placed : PlacedModel Binary32 μ}
    {point : Vec3 Binary32} {s : LocatedSurface Binary32 μ γ} (slot : κ)
    (h : (placed.surfaceBelow point).value = some s) :
    FindsGroup (probeGroup mesh slot placed point : Accumulation ι κ μ γ) s := by
  obtain ⟨model, hit, hin, hhit, rfl⟩ := PlacedModel.surfaceBelow_eq_some_iff.mp h
  exact .probe mesh slot placed point model hit hin.loaded hhit

variable [DecidableEq ι] [DecidableEq κ]

/-- Apply an operation.  All but a probe for an area tell whether they changed their slot. -/
def perform (op : Accumulation ι κ μ γ) (l : Ledger ι κ μ γ) : Option Bool × Ledger ι κ μ γ :=
  match op with
  | probeArea mesh slot placed point =>
    letI := mesh
    (none, { l with
      areas := Function.update l.areas slot (placed.probeArea point (l.areas slot)).value })
  | probeGroup mesh slot placed point =>
    letI := mesh
    let answer := (placed.probeGroup point (l.groups slot)).value
    (some answer.1, { l with groups := Function.update l.groups slot answer.2 })
  | mergeAreas into other =>
    (some ((l.areas into).yieldsTo (l.areas other)), { l with
      areas := Function.update l.areas into ((l.areas into).higher (l.areas other)) })
  | mergeGroups into other =>
    (some ((l.groups into).yieldsTo (l.groups other)), { l with
      groups := Function.update l.groups into ((l.groups into).higher (l.groups other)) })

/-- Apply some operations to fresh slots, one after the other. -/
def run (ops : List (Accumulation ι κ μ γ)) : Ledger ι κ μ γ :=
  ops.foldl (fun l op => (op.perform l).2) .fresh

/-! ### One step -/

/-- An operation makes no offer, or it makes one to the slot it is for.  It offers what it has
    found itself or what has been in a slot before, unless this does not count as found. -/
theorem perform_cases (op : Accumulation ι κ μ γ) (l : Ledger ι κ μ γ) :
    ((op.perform l).2 = l ∧ ∀ told, (op.perform l).1 = some told → told = false) ∨
    (∃ i other, op.target = .inl i ∧
      (other.found = true → op.FindsArea other ∨ ∃ i', other = l.areas i') ∧
      (op.perform l).2 = { l with
        areas := Function.update l.areas i ((l.areas i).higher other) } ∧
      ∀ told, (op.perform l).1 = some told → told = (l.areas i).yieldsTo other) ∨
    ∃ j other, op.target = .inr j ∧
      (other.found = true → op.FindsGroup other ∨ ∃ j', other = l.groups j') ∧
      (op.perform l).2 = { l with
        groups := Function.update l.groups j ((l.groups j).higher other) } ∧
      ∀ told, (op.perform l).1 = some told → told = (l.groups j).yieldsTo other := by
  cases op with
  | probeArea mesh slot placed point =>
    simp only [perform, PlacedModel.probeArea_value]
    cases hoffer : (placed.areaBelow point).value with
    | none =>
      rw [Option.elim_none, Function.update_eq_self]
      exact .inl ⟨rfl, fun told htold => by cases htold⟩
    | some other =>
      refine .inr (.inl ⟨slot, other, rfl, ?_, rfl, fun told htold => by cases htold⟩)
      exact fun _ => .inl (findsArea_of_areaBelow slot hoffer)
  | probeGroup mesh slot placed point =>
    simp only [perform, PlacedModel.probeGroup_value]
    cases hoffer : (placed.surfaceBelow point).value with
    | none =>
      simp only [Option.elim_none, Function.update_eq_self]
      exact .inl ⟨trivial, fun told htold => (Option.some.inj htold).symm⟩
    | some other =>
      refine .inr (.inr ⟨slot, other, rfl, ?_, rfl, fun told htold => (Option.some.inj htold).symm⟩)
      exact fun _ => .inl (findsGroup_of_surfaceBelow slot hoffer)
  | mergeAreas into other =>
    exact .inr (.inl ⟨into, _, rfl, fun _ => .inr ⟨other, rfl⟩, rfl,
      fun told htold => (Option.some.inj htold).symm⟩)
  | mergeGroups into other =>
    exact .inr (.inr ⟨into, _, rfl, fun _ => .inr ⟨other, rfl⟩, rfl,
      fun told htold => (Option.some.inj htold).symm⟩)

end Accumulation

/-! ### Runs -/

namespace Ledger

variable {ops : List (Accumulation ι κ μ γ)} {l : Ledger ι κ μ γ}

theorem heightAt_eq_of_entry {l' : Ledger ι κ μ γ} {slot : ι ⊕ κ}
    (h : l'.entry slot = l.entry slot) : l'.heightAt slot = l.heightAt slot := by
  cases slot with
  | inl i => exact congrArg AreaSurface.height (Sum.inl.inj h)
  | inr j => exact congrArg LocatedSurface.height (Sum.inr.inj h)

/-- Each slot holds nothing yet, or the whole answer of one of some operations. -/
structure Whole (ops : List (Accumulation ι κ μ γ)) (l : Ledger ι κ μ γ) : Prop where
  areas : ∀ i, Backed AreaSurface.height .none (fun s => ∃ op ∈ ops, op.FindsArea s) (l.areas i)
  groups : ∀ j,
    Backed LocatedSurface.height .none (fun s => ∃ op ∈ ops, op.FindsGroup s) (l.groups j)

theorem Whole.append (h : l.Whole ops) (more : List (Accumulation ι κ μ γ)) :
    l.Whole (ops ++ more) where
  areas i := (h.areas i).mono fun _ ⟨op, hop, hfinds⟩ => ⟨op, List.mem_append_left more hop, hfinds⟩
  groups j :=
    (h.groups j).mono fun _ ⟨op, hop, hfinds⟩ => ⟨op, List.mem_append_left more hop, hfinds⟩

theorem Whole.isNaN_heightAt (h : l.Whole ops) (slot : ι ⊕ κ) :
    (l.heightAt slot).isNaN = false := by
  cases slot with
  | inl i =>
    have hnum : (l.areas i).height.isNaN = false := (h.areas i).isNaN_eq_false rfl
    exact hnum
  | inr j =>
    have hnum : (l.groups j).height.isNaN = false := (h.groups j).isNaN_eq_false rfl
    exact hnum

variable [DecidableEq ι] [DecidableEq κ]

theorem Whole.perform (h : l.Whole ops) (op : Accumulation ι κ μ γ) :
    (op.perform l).2.Whole (ops ++ [op]) := by
  have hold := h.append [op]
  have hop : op ∈ ops ++ [op] := List.mem_append_right ops List.mem_cons_self
  rcases op.perform_cases l with ⟨hsame, -⟩ | ⟨i, other, -, hother, hafter, -⟩ |
    ⟨j, other, -, hother, hafter, -⟩
  · rw [hsame]
    exact hold
  · rw [hafter]
    refine ⟨Backed.update hold.areas i ?_, hold.groups⟩
    -- a fresh slot has nothing to offer, so what another slot offers is known
    intro hfound
    rcases hother hfound with hfinds | ⟨k, rfl⟩
    · exact ⟨op, hop, hfinds⟩
    · exact (hold.areas k).known fun hnone => by simp [hnone, AreaSurface.none] at hfound
  · rw [hafter]
    refine ⟨hold.areas, Backed.update hold.groups j ?_⟩
    intro hfound
    rcases hother hfound with hfinds | ⟨k, rfl⟩
    · exact ⟨op, hop, hfinds⟩
    · exact (hold.groups k).known fun hnone => by
        simp [hnone, LocatedSurface.none, LocatedSurface.found] at hfound

end Ledger

namespace Accumulation

variable [DecidableEq ι] [DecidableEq κ]

theorem whole_run (ops : List (Accumulation ι κ μ γ)) : (run ops).Whole ops := by
  -- by the last operation: what an operation finds is known from then on
  induction ops using List.reverseRecOn with
  | nil => exact ⟨fun _ => .inl rfl, fun _ => .inl rfl⟩
  | append_singleton ops op ih =>
    rw [run, List.foldl_append]
    exact ih.perform op

theorem entry_of_ne_target {op : Accumulation ι κ μ γ} {slot : ι ⊕ κ} (l : Ledger ι κ μ γ)
    (hslot : slot ≠ op.target) : (op.perform l).2.entry slot = l.entry slot := by
  rcases op.perform_cases l with ⟨hsame, -⟩ | ⟨i, other, htarget, -, hafter, -⟩ |
    ⟨j, other, htarget, -, hafter, -⟩
  · rw [hsame]
  · rw [hafter]
    cases slot with
    | inl i' =>
      have hne : i' ≠ i := fun h => hslot (by rw [h, htarget])
      exact congrArg Sum.inl (Function.update_of_ne hne _ _)
    | inr j => rfl
  · rw [hafter]
    cases slot with
    | inl i => rfl
    | inr j' =>
      have hne : j' ≠ j := fun h => hslot (by rw [h, htarget])
      exact congrArg Sum.inr (Function.update_of_ne hne _ _)

/-- The slot of an operation is changed only by something higher, and the operation tells so. -/
theorem changed_target (op : Accumulation ι κ μ γ) (l : Ledger ι κ μ γ) :
    ((op.perform l).2.entry op.target ≠ l.entry op.target →
      l.heightAt op.target < (op.perform l).2.heightAt op.target) ∧
    ∀ told, (op.perform l).1 = some told →
      (told = true ↔ (op.perform l).2.entry op.target ≠ l.entry op.target) := by
  rcases op.perform_cases l with ⟨hsame, htold⟩ | ⟨i, other, htarget, -, hafter, htold⟩ |
    ⟨j, other, htarget, -, hafter, htold⟩
  · rw [hsame]
    constructor
    · intro hchanged
      exact absurd rfl hchanged
    · intro told hreport
      simp [htold told hreport]
  · simp only [hafter, htarget, Ledger.entry, Ledger.heightAt, Sum.map_inl, Sum.elim_inl, ne_eq,
      Sum.inl.injEq, Function.update_self]
    constructor
    · intro hchanged
      exact height_lt_keep (keep_ne_iff.mp hchanged)
    · intro told hreport
      rw [htold told hreport]
      exact keep_ne_iff.symm
  · simp only [hafter, htarget, Ledger.entry, Ledger.heightAt, Sum.map_inr, Sum.elim_inr, ne_eq,
      Sum.inr.injEq, Function.update_self]
    constructor
    · intro hchanged
      exact height_lt_keep (keep_ne_iff.mp hchanged)
    · intro told hreport
      rw [htold told hreport]
      exact keep_ne_iff.symm

/-- **Surfaces in the making are never torn.**  After any operations on fresh slots, a slot for
    an area either is as it was at the start or holds, with a height that is a number above
    minus infinity, the whole answer of one probe that was made; a slot for a group knows its
    group just if it knows the placed model and just if its height is above minus infinity, and
    then it holds the whole answer of one probe of this placed model.  Whatever is done next,
    no height gets lower and at most the slot of the operation is changed; a change makes its
    height greater, and an operation that tells of changes tells the truth. -/
theorem accumulators_never_torn (ops : List (Accumulation ι κ μ γ)) :
    (∀ i, (((run ops).areas i).found = false → (run ops).areas i = .none) ∧
      (((run ops).areas i).found = true →
        ((run ops).areas i).height.isNaN = false ∧
        Binary32.negInf < ((run ops).areas i).height ∧
        ∃ op ∈ ops, op.FindsArea ((run ops).areas i))) ∧
    (∀ j, (((run ops).groups j).group.isSome = true ↔
        Binary32.negInf < ((run ops).groups j).height) ∧
      (((run ops).groups j).placed.isSome = true ↔
        Binary32.negInf < ((run ops).groups j).height) ∧
      (((run ops).groups j).placed.isSome = false → (run ops).groups j = .none) ∧
      (((run ops).groups j).placed.isSome = true →
        ∃ op ∈ ops, op.FindsGroup ((run ops).groups j))) ∧
    ∀ op : Accumulation ι κ μ γ,
      (∀ slot, (run ops).heightAt slot ≤ (op.perform (run ops)).2.heightAt slot) ∧
      (∀ slot, slot ≠ op.target →
        (op.perform (run ops)).2.entry slot = (run ops).entry slot) ∧
      ((op.perform (run ops)).2.entry op.target ≠ (run ops).entry op.target →
        (run ops).heightAt op.target < (op.perform (run ops)).2.heightAt op.target) ∧
      ∀ told, (op.perform (run ops)).1 = some told →
        (told = true ↔ (op.perform (run ops)).2.entry op.target ≠ (run ops).entry op.target) := by
  have hwhole := whole_run ops
  generalize run ops = l at hwhole ⊢
  refine ⟨?_, ?_, ?_⟩
  · intro i
    rcases hwhole.areas i with hnone | ⟨hheight, op, hop, hfinds⟩
    · rw [hnone]
      exact ⟨fun _ => rfl, fun hfound => by cases hfound⟩
    · constructor
      · intro hmissing
        rw [hfinds.found] at hmissing
        cases hmissing
      · intro _
        exact ⟨Binary32.isNaN_right_of_lt hheight, hheight, op, hop, hfinds⟩
  · intro j
    rcases hwhole.groups j with hnone | ⟨hheight, op, hop, hfinds⟩
    · rw [hnone]
      have hlow : ¬ Binary32.negInf < Binary32.negInf := Binary32.lt_irrefl _
      have hnothing : ¬ false = true := Bool.false_ne_true
      exact ⟨iff_of_false hnothing hlow, iff_of_false hnothing hlow, fun _ => rfl,
        fun hplaced => absurd hplaced hnothing⟩
    · obtain ⟨hgroup, hplaced⟩ := hfinds.isSome
      refine ⟨iff_of_true hgroup hheight, iff_of_true hplaced hheight, ?_, ?_⟩
      · intro hmissing
        rw [hplaced] at hmissing
        cases hmissing
      · intro _
        exact ⟨op, hop, hfinds⟩
  · intro op
    obtain ⟨hrise, htold⟩ := changed_target op l
    refine ⟨?_, fun slot => entry_of_ne_target l, hrise, htold⟩
    intro slot
    by_cases hsame : (op.perform l).2.entry slot = l.entry slot
    · rw [Ledger.heightAt_eq_of_entry hsame]
      exact Binary32.le_refl (hwhole.isNaN_heightAt slot)
    · obtain rfl : slot = op.target := by
        by_contra hne
        exact hsame (entry_of_ne_target l hne)
      exact Binary32.le_of_lt (hrise hsame)

end Accumulation

end Operations

end Placement
