/-
  Placement/Proofs/Bytes/Refusals.lean
  ====================================
  **How far bytes get into a tray.**

  A tray takes bytes in pieces and breaks off calls, and none of this shows in the end: the
  bytes go in until the tray stands at a position where it refuses every offer, be it that a
  fault strikes there or that it is full.  `refusal?` says where that is and with what error.
  It depends on nothing but the room of the tray and those faults that are no interruptions.

  `Admits` and `Stops` are the two ways an attempt to put some bytes into a tray can end.  They
  go together with appending bytes, so the fate of a whole row of fields is that of its bytes
  in one piece.
-/
import Placement.Bytes.Sink
import Placement.Proofs.Bytes.Delivery
import Mathlib.Order.Bounds.Basic

namespace Placement

namespace Fault

/-- Whether the fault ends what it strikes.  After an interruption all is tried again. -/
def isFatal (f : Fault) : Bool := decide (f.error.kind ≠ .interrupted)

/-- The fault that lets nothing past an offset: the first fatal one there. -/
def fatalAt? (offset : Nat) (faults : List Fault) : Option Fault :=
  faults.find? fun f => f.isFatal && decide (f.offset = offset)

variable {offset : Nat} {faults rest : List Fault} {e : IoError}

theorem fatalAt?_eq_none_iff :
    fatalAt? offset faults = none ↔ ∀ f ∈ faults, f.isFatal → f.offset ≠ offset := by
  simp [fatalAt?, List.find?_eq_none]

theorem fatalAt?_filter (offset : Nat) (faults : List Fault) :
    fatalAt? offset (faults.filter isFatal) = fatalAt? offset faults := by
  rw [fatalAt?, fatalAt?, List.find?_filter]
  simp

theorem fatalAt?_of_strike?_none (h : strike? offset faults = none) :
    fatalAt? offset faults = none := by
  rw [fatalAt?_eq_none_iff]
  induction faults with
  | nil => simp
  | cons fault faults ih =>
    rw [strike?] at h
    split at h
    · cases h
    next hoffset =>
      intro f hf hfatal
      rcases List.mem_cons.mp hf with rfl | hf
      · exact hoffset
      · exact ih (Option.map_eq_none_iff.mp h) f hf hfatal

theorem filter_of_interrupted (h : strike? offset faults = some (e, rest))
    (he : e.kind = .interrupted) : rest.filter isFatal = faults.filter isFatal := by
  obtain ⟨front, struck, back, rfl, rfl, rfl, -, -⟩ := exists_of_strike? h
  have hstruck : struck.isFatal = false := by simp [isFatal, he]
  rw [List.filter_append, List.filter_append, List.filter_cons, hstruck]
  rfl

theorem fatalAt?_of_interrupted (h : strike? offset faults = some (e, rest))
    (he : e.kind = .interrupted) (position : Nat) :
    fatalAt? position rest = fatalAt? position faults := by
  rw [← fatalAt?_filter position rest, filter_of_interrupted h he, fatalAt?_filter]

theorem fatalAt?_of_fatal (h : strike? offset faults = some (e, rest))
    (he : e.kind ≠ .interrupted) : ∃ f, fatalAt? offset faults = some f ∧ f.error = e := by
  obtain ⟨front, struck, back, rfl, rfl, rfl, hstruck, hfront⟩ := exists_of_strike? h
  have hnone : front.find? (fun f => f.isFatal && decide (f.offset = offset)) = none := by
    rw [List.find?_eq_none]
    intro f hf hboth
    exact hfront f hf (by simpa using (Bool.and_eq_true_iff.mp hboth).2)
  refine ⟨struck, ?_, rfl⟩
  rw [fatalAt?, List.find?_append, hnone, List.find?_cons]
  simp [isFatal, he, hstruck]

theorem clear_le_sub (count : Nat) {f : Fault} (hf : f ∈ faults) (hoffset : offset < f.offset) :
    clear offset faults count ≤ f.offset - offset := by
  unfold clear
  induction faults generalizing count with
  | nil => cases hf
  | cons fault faults ih =>
    rw [List.foldl_cons]
    rcases List.mem_cons.mp hf with rfl | hf
    · rw [if_pos hoffset]
      exact Nat.le_trans (clear_le offset faults _) (Nat.min_le_right _ _)
    · exact ih _ hf

/-- No fault strikes at what passes in one go, behind its first byte. -/
theorem fatalAt?_of_lt_clear {count k : Nat} (hpos : 0 < k) (hk : k < clear offset faults count) :
    fatalAt? (offset + k) faults = none := by
  rw [fatalAt?_eq_none_iff]
  rintro f hf - hoffset
  have hle := clear_le_sub count hf (by omega : offset < f.offset)
  omega

end Fault

namespace ByteTray

/-! ### Where a tray refuses -/

/-- A tray with nothing in it yet. -/
def empty (capacity chunk : Option Nat) (faults : List Fault) : ByteTray :=
  ⟨[], capacity, chunk, faults⟩

@[simp] theorem held_empty (capacity chunk : Option Nat) (faults : List Fault) :
    (empty capacity chunk faults).held = [] := rfl

/-- Whether nothing more fits in when so many bytes are in the tray.  Nothing ever fits into a
    tray that places no bytes with any offer. -/
def isFullAt (t : ByteTray) (position : Nat) : Bool :=
  t.chunk == some 0 || t.capacity.any fun capacity => decide (capacity ≤ position)

/-- The error that meets every offer at a position, if one does. -/
def refusal? (t : ByteTray) (position : Nat) : Option IoError :=
  match Fault.fatalAt? position t.faults with
  | some f => some f.error
  | none => if t.isFullAt position then some .sinkFull else none

theorem isFullAt_eq_false_iff {t : ByteTray} {position : Nat} :
    t.isFullAt position = false ↔
      t.chunk ≠ some 0 ∧ ∀ capacity, t.capacity = some capacity → position < capacity := by
  unfold isFullAt
  cases t.capacity <;> simp

theorem refusal?_eq_none_iff {t : ByteTray} {position : Nat} :
    t.refusal? position = none ↔
      (∀ f ∈ t.faults, f.isFatal → f.offset ≠ position) ∧ t.isFullAt position = false := by
  rw [← Fault.fatalAt?_eq_none_iff, refusal?]
  cases Fault.fatalAt? position t.faults <;> simp

theorem refusal?_eq_some_iff {t : ByteTray} {position : Nat} {e : IoError} :
    t.refusal? position = some e ↔
      (t.refusal? position).isSome ∧
        e = ((Fault.fatalAt? position t.faults).map Fault.error).getD .sinkFull := by
  rw [refusal?]
  cases Fault.fatalAt? position t.faults with
  | none => cases t.isFullAt position <;> simp [eq_comm]
  | some f => simp [eq_comm]

/-- How bytes are cut up, where a tray is interrupted and what it holds has no influence on
    where it refuses. -/
theorem refusal?_congr {t t' : ByteTray} (hcapacity : t'.capacity = t.capacity)
    (hchunk : t'.chunk = some 0 ↔ t.chunk = some 0)
    (hfaults : t'.faults.filter Fault.isFatal = t.faults.filter Fault.isFatal) :
    t'.refusal? = t.refusal? := by
  funext position
  have hfull : t'.isFullAt position = t.isFullAt position := by
    have hzero : (t'.chunk == some 0) = (t.chunk == some 0) := by
      rw [Bool.eq_iff_iff, beq_iff_eq, beq_iff_eq, hchunk]
    rw [isFullAt, isFullAt, hcapacity, hzero]
  rw [refusal?, refusal?, ← Fault.fatalAt?_filter, hfaults, Fault.fatalAt?_filter, hfull]

/-! ### One offer -/

/-- How many of `count` bytes an offer would place if no fault were near. -/
def piece (t : ByteTray) (count : Nat) : Nat :=
  let room := match t.capacity with
    | some capacity => min count (capacity - t.held.length)
    | none => count
  match t.chunk with
  | some chunk => min room chunk
  | none => room

theorem piece_le (t : ByteTray) (count : Nat) : t.piece count ≤ count := by
  unfold piece
  cases t.capacity <;> cases t.chunk <;> simp only <;> omega

theorem isFullAt_of_lt_piece {t : ByteTray} {count k : Nat} (hk : k < t.piece count) :
    t.isFullAt (t.held.length + k) = false := by
  rw [isFullAt_eq_false_iff]
  unfold piece at hk
  cases hcapacity : t.capacity <;> cases hchunk : t.chunk <;> simp_all <;> omega

theorem isFullAt_of_piece_eq_zero {t : ByteTray} {count : Nat} (hcount : 0 < count)
    (h : t.piece count = 0) : t.isFullAt t.held.length = true := by
  by_contra hroom
  rw [Bool.not_eq_true, isFullAt_eq_false_iff] at hroom
  unfold piece at h
  cases hcapacity : t.capacity <;> cases hchunk : t.chunk <;> simp_all <;> omega

theorem write_of_strike?_none {t : ByteTray} (h : Fault.strike? t.held.length t.faults = none)
    (bs : List UInt8) :
    t.write bs = (.taken (Fault.clear t.held.length t.faults (t.piece bs.length)),
      { t with
        held := t.held ++ bs.take (Fault.clear t.held.length t.faults (t.piece bs.length)) }) := by
  rw [write]
  simp only [h]
  rfl

/-- What one offer of at least a byte can come to. -/
theorem write_cases (t : ByteTray) {bs : List UInt8} (hbs : 0 < bs.length) :
    (∃ e t', t.write bs = (.failed e, t') ∧ e.kind = .interrupted ∧ t'.held = t.held ∧
      t'.refusal? = t.refusal? ∧ t'.faults.length < t.faults.length) ∨
    (∃ e t', t.write bs = (.failed e, t') ∧ e.kind ≠ .interrupted ∧ t'.held = t.held ∧
      t.refusal? t.held.length = some e) ∨
    (∃ t', t.write bs = (.taken 0, t') ∧ t'.held = t.held ∧
      t.refusal? t.held.length = some .sinkFull) ∨
    (∃ n t', t.write bs = (.taken (n + 1), t') ∧ n < bs.length ∧
      t'.held = t.held ++ bs.take (n + 1) ∧ t'.refusal? = t.refusal? ∧ t'.faults = t.faults ∧
      ∀ k ≤ n, t.refusal? (t.held.length + k) = none) := by
  rcases hstrike : Fault.strike? t.held.length t.faults with _ | ⟨e, faults⟩
  · have hwrite := write_of_strike?_none hstrike bs
    have hnone := Fault.fatalAt?_of_strike?_none hstrike
    rcases hpiece : t.piece bs.length with _ | count
    · -- no fault is there, and yet nothing is placed: the tray is full
      have hclear : Fault.clear t.held.length t.faults 0 = 0 :=
        Nat.le_zero.mp (Fault.clear_le _ _ 0)
      rw [hpiece, hclear, List.take_zero, List.append_nil] at hwrite
      refine .inr (.inr (.inl ⟨_, hwrite, rfl, ?_⟩))
      rw [refusal?, hnone, isFullAt_of_piece_eq_zero hbs hpiece]
      rfl
    · have hclear : Fault.clear t.held.length t.faults (t.piece bs.length) ≤ t.piece bs.length :=
        Fault.clear_le _ _ _
      have hpos : 0 < Fault.clear t.held.length t.faults (t.piece bs.length) :=
        Fault.clear_pos _ _ (by omega)
      obtain ⟨n, hn⟩ := Nat.exists_eq_add_one_of_ne_zero (Nat.ne_of_gt hpos)
      have hle := t.piece_le bs.length
      -- a piece ends before the next fault and within the room, so nothing in it is refused
      have hpast : ∀ k ≤ n, t.refusal? (t.held.length + k) = none := by
        intro k hk
        have hfree : Fault.fatalAt? (t.held.length + k) t.faults = none := by
          rcases Nat.eq_zero_or_pos k with rfl | hkpos
          · exact hnone
          · have hclear : k < Fault.clear t.held.length t.faults (t.piece bs.length) := by omega
            exact Fault.fatalAt?_of_lt_clear hkpos hclear
        have hroom : k < t.piece bs.length := by omega
        exact refusal?_eq_none_iff.mpr
          ⟨Fault.fatalAt?_eq_none_iff.mp hfree, isFullAt_of_lt_piece hroom⟩
      rw [hn] at hwrite
      exact .inr (.inr (.inr ⟨n, _, hwrite, by omega, rfl, rfl, rfl, hpast⟩))
  · have hwrite : t.write bs = (.failed e, { t with faults }) := by
      simp only [write, hstrike]
    by_cases he : e.kind = .interrupted
    · refine .inl ⟨e, _, hwrite, he, rfl, ?_, ?_⟩
      · funext position
        rw [refusal?, refusal?, Fault.fatalAt?_of_interrupted hstrike he]
        rfl
      · obtain ⟨front, struck, back, hall, rfl, -⟩ := Fault.exists_of_strike? hstrike
        simp [hall]
    · obtain ⟨f, hf, rfl⟩ := Fault.fatalAt?_of_fatal hstrike he
      refine .inr (.inl ⟨_, _, hwrite, he, rfl, ?_⟩)
      rw [refusal?, hf]

/-! ### Many bytes -/

/-- All of the bytes got into the tray. -/
structure Admits (t : ByteTray) (bs : List UInt8) (t' : ByteTray) : Prop where
  held_eq : t'.held = t.held ++ bs
  refusal_eq : t'.refusal? = t.refusal?
  free : ∀ k < bs.length, t.refusal? (t.held.length + k) = none

/-- The first `n` of the bytes got into the tray, and the next one was refused. -/
structure Stops (t : ByteTray) (bs : List UInt8) (n : Nat) (e : IoError) (t' : ByteTray) :
    Prop where
  lt : n < bs.length
  held_eq : t'.held = t.held ++ bs.take n
  refused : t.refusal? (t.held.length + n) = some e
  free : ∀ k < n, t.refusal? (t.held.length + k) = none

section Attempts

variable {t t' t'' : ByteTray} {bs cs : List UInt8} {n : Nat} {e : IoError}

theorem admits_nil (t : ByteTray) : t.Admits [] t where
  held_eq := (List.append_nil _).symm
  refusal_eq := rfl
  free := by simp

theorem Admits.length_held (h : t.Admits bs t') : t'.held.length = t.held.length + bs.length := by
  rw [h.held_eq, List.length_append]

theorem Admits.free_behind (h : t.Admits bs t') {count : Nat}
    (hfree : ∀ k < count, t'.refusal? (t'.held.length + k) = none) :
    ∀ k < bs.length + count, t.refusal? (t.held.length + k) = none := by
  intro k hk
  rcases Nat.lt_or_ge k bs.length with hfront | hbehind
  · exact h.free k hfront
  · obtain ⟨j, rfl⟩ := Nat.exists_eq_add_of_le hbehind
    rw [← Nat.add_assoc, ← h.length_held, ← h.refusal_eq]
    exact hfree j (by omega)

theorem Admits.append (h : t.Admits bs t') (h' : t'.Admits cs t'') : t.Admits (bs ++ cs) t'' where
  held_eq := by rw [h'.held_eq, h.held_eq, List.append_assoc]
  refusal_eq := h'.refusal_eq.trans h.refusal_eq
  free := by
    rw [List.length_append]
    exact h.free_behind h'.free

theorem Admits.stops (h : t.Admits bs t') (h' : t'.Stops cs n e t'') :
    t.Stops (bs ++ cs) (bs.length + n) e t'' where
  lt := by
    rw [List.length_append]
    exact Nat.add_lt_add_left h'.lt _
  held_eq := by rw [h'.held_eq, h.held_eq, List.append_assoc, List.take_length_add_append]
  refused := by
    rw [← Nat.add_assoc, ← h.length_held, ← h.refusal_eq]
    exact h'.refused
  free := h.free_behind h'.free

theorem Stops.append (h : t.Stops bs n e t') (cs : List UInt8) : t.Stops (bs ++ cs) n e t' where
  lt := by
    rw [List.length_append]
    exact Nat.lt_add_right _ h.lt
  held_eq := by rw [h.held_eq, List.take_append_of_le_length (Nat.le_of_lt h.lt)]
  refused := h.refused
  free := h.free

theorem Admits.of_same {u : ByteTray} (h : u.Admits bs t') (hheld : u.held = t.held)
    (hrefusal : u.refusal? = t.refusal?) : t.Admits bs t' where
  held_eq := by rw [h.held_eq, hheld]
  refusal_eq := h.refusal_eq.trans hrefusal
  free := by
    rw [← hheld, ← hrefusal]
    exact h.free

theorem Stops.of_same {u : ByteTray} (h : u.Stops bs n e t') (hheld : u.held = t.held)
    (hrefusal : u.refusal? = t.refusal?) : t.Stops bs n e t' where
  lt := h.lt
  held_eq := by rw [h.held_eq, hheld]
  refused := by
    rw [← hheld, ← hrefusal]
    exact h.refused
  free := by
    rw [← hheld, ← hrefusal]
    exact h.free

/-- Where an attempt stops depends on nothing but what is held and where the tray refuses. -/
theorem Stops.unique {u u' : ByteTray} {n' : Nat} {e' : IoError} (h : t.Stops bs n e t')
    (h' : u.Stops bs n' e' u') (hheld : u.held = t.held) (hrefusal : u.refusal? = t.refusal?) :
    n' = n ∧ e' = e := by
  have h' := h'.of_same hheld hrefusal
  rcases Nat.lt_trichotomy n' n with hlt | rfl | hlt
  · have hrefused := h'.refused
    rw [h.free n' hlt] at hrefused
    cases hrefused
  · have hrefused := h'.refused
    rw [h.refused, Option.some.injEq] at hrefused
    exact ⟨rfl, hrefused.symm⟩
  · have hnone := h'.free n hlt
    rw [h.refused] at hnone
    cases hnone

theorem Admits.not_stops {u u' : ByteTray} (h : t.Admits bs t') (hheld : u.held = t.held)
    (hrefusal : u.refusal? = t.refusal?) : ¬ u.Stops bs n e u' := by
  intro h'
  have hrefused := (h'.of_same hheld hrefusal).refused
  rw [h.free n h'.lt] at hrefused
  cases hrefused

/-! ### From an empty tray -/

/-- What an attempt to put so many bytes into an empty tray can end at: at their number, at the
    room of the tray, at once if it never takes anything, and at a fatal fault. -/
def endings (t : ByteTray) (total : Nat) : Set Nat :=
  {n | n = total ∨ t.capacity = some n ∨ (t.chunk = some 0 ∧ n = 0) ∨
    ∃ f ∈ t.faults, f.isFatal ∧ f.offset = n}

theorem le_of_mem_endings {total x : Nat} (hx : x ∈ t.endings total) (hn : n ≤ total)
    (hfree : ∀ k < n, t.refusal? k = none) : n ≤ x := by
  by_contra hlt
  obtain ⟨hfaults, hroom⟩ := refusal?_eq_none_iff.mp (hfree x (Nat.lt_of_not_le hlt))
  obtain ⟨hchunk, hcapacity⟩ := isFullAt_eq_false_iff.mp hroom
  rcases hx with rfl | hx | ⟨hx, -⟩ | ⟨f, hf, hfatal, hoffset⟩
  · exact hlt hn
  · exact Nat.lt_irrefl x (hcapacity x hx)
  · exact hchunk hx
  · exact hfaults f hf hfatal hoffset

theorem Admits.isLeast (h : t.Admits bs t') (hheld : t.held = []) :
    IsLeast (t.endings bs.length) bs.length := by
  refine ⟨.inl rfl, fun x hx => le_of_mem_endings hx (Nat.le_refl _) fun k hk => ?_⟩
  simpa [hheld] using h.free k hk

theorem Stops.isLeast (h : t.Stops bs n e t') (hheld : t.held = []) :
    IsLeast (t.endings bs.length) n := by
  have hrefused : t.refusal? n = some e := by simpa [hheld] using h.refused
  have hfree : ∀ k < n, t.refusal? k = none := fun k hk => by simpa [hheld] using h.free k hk
  refine ⟨?_, fun x hx => le_of_mem_endings hx (Nat.le_of_lt h.lt) hfree⟩
  -- a position that is none of the endings is as free as the ones before it
  by_contra hout
  simp only [endings, Set.mem_ofPred_eq, not_or, not_exists, not_and] at hout
  obtain ⟨-, hcapacity, hchunk, hfaults⟩ := hout
  have hroom : t.isFullAt n = false := by
    rw [isFullAt_eq_false_iff]
    constructor
    · intro hnothing
      have hpos : 0 < n := Nat.pos_of_ne_zero (hchunk hnothing)
      have hfirst := (refusal?_eq_none_iff.mp (hfree 0 hpos)).2
      exact (isFullAt_eq_false_iff.mp hfirst).1 hnothing
    · intro capacity hc
      by_contra hle
      have hne : capacity ≠ n := fun heq => hcapacity (heq ▸ hc)
      have hlt : capacity < n := by omega
      have hlast := (refusal?_eq_none_iff.mp (hfree capacity hlt)).2
      exact Nat.lt_irrefl _ ((isFullAt_eq_false_iff.mp hlast).2 capacity hc)
  have hnone : t.refusal? n = none := refusal?_eq_none_iff.mpr ⟨hfaults, hroom⟩
  rw [hnone] at hrefused
  cases hrefused

end Attempts

theorem putWithin_cases {calls : Nat} {bs : List UInt8} {t : ByteTray}
    (hcalls : bs.length + t.faults.length ≤ calls) :
    (∃ t', ByteSink.putWithin calls bs t = (.ok (), t') ∧ t.Admits bs t') ∨
    ∃ n e t', ByteSink.putWithin calls bs t = (.error e, t') ∧ t.Stops bs n e t' := by
  induction calls generalizing bs t with
  | zero =>
    obtain rfl : bs = [] := List.length_eq_zero_iff.mp (by omega)
    exact .inl ⟨t, rfl, admits_nil t⟩
  | succ calls ih =>
    rcases bs with _ | ⟨b, bs⟩
    · exact .inl ⟨t, rfl, admits_nil t⟩
    have hpos : 0 < (b :: bs).length := Nat.succ_pos _
    have hstops {e : IoError} {t' : ByteTray} (hheld : t'.held = t.held)
        (hrefused : t.refusal? t.held.length = some e) : t.Stops (b :: bs) 0 e t' :=
      ⟨hpos, by simpa using hheld, hrefused, by simp⟩
    rcases write_cases t hpos with ⟨e, t', hwrite, he, hheld, hrefusal, hfewer⟩ |
      ⟨e, t', hwrite, he, hheld, hrefused⟩ | ⟨t', hwrite, hheld, hrefused⟩ |
      ⟨n, t', hwrite, hn, hheld, hrefusal, hfaults, hfree⟩
    · -- nothing has changed but that there is one interruption less to come
      have hstep : ByteSink.putWithin (calls + 1) (b :: bs) t =
          ByteSink.putWithin calls (b :: bs) t' := by
        simp only [ByteSink.putWithin, ByteSink.write, hwrite, he, if_true]
      have hleft : (b :: bs).length + t'.faults.length ≤ calls := by omega
      rw [hstep]
      rcases ih hleft with ⟨t'', hput, hadmits⟩ | ⟨n, e, t'', hput, hstop⟩
      · exact .inl ⟨t'', hput, hadmits.of_same hheld hrefusal⟩
      · exact .inr ⟨n, e, t'', hput, hstop.of_same hheld hrefusal⟩
    · refine .inr ⟨0, e, t', ?_, hstops hheld hrefused⟩
      simp only [ByteSink.putWithin, ByteSink.write, hwrite, he, if_false]
    · refine .inr ⟨0, .sinkFull, t', ?_, hstops hheld hrefused⟩
      simp only [ByteSink.putWithin, ByteSink.write, hwrite]
    · -- a piece got in, and with it the rest has to be put into what the tray is then
      have hpiece : t.Admits ((b :: bs).take (n + 1)) t' :=
        ⟨hheld, hrefusal, fun k hk => hfree k (by rw [List.length_take] at hk; omega)⟩
      have hstep : ByteSink.putWithin (calls + 1) (b :: bs) t =
          ByteSink.putWithin calls ((b :: bs).drop (n + 1)) t' := by
        simp only [ByteSink.putWithin, ByteSink.write, hwrite]
      have hwhole := List.take_append_drop (n + 1) (b :: bs)
      have hleft : ((b :: bs).drop (n + 1)).length + t'.faults.length ≤ calls := by
        rw [hfaults, List.length_drop]
        omega
      rw [hstep]
      rcases ih hleft with ⟨t'', hput, hadmits⟩ | ⟨m, e, t'', hput, hstop⟩
      · have hall := hpiece.append hadmits
        rw [hwhole] at hall
        exact .inl ⟨t'', hput, hall⟩
      · refine .inr ⟨((b :: bs).take (n + 1)).length + m, e, t'', hput, ?_⟩
        have hpast := hpiece.stops hstop
        rwa [hwhole] at hpast

/-- Bytes get into a tray, or they get in up to the first position where it refuses. -/
theorem putAll_cases (bs : List UInt8) (t : ByteTray) :
    (∃ t', ByteSink.putAll bs t = (.ok (), t') ∧ t.Admits bs t') ∨
    ∃ n e t', ByteSink.putAll bs t = (.error e, t') ∧ t.Stops bs n e t' :=
  putWithin_cases (Nat.le_refl _)

end ByteTray

end Placement
