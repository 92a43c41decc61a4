/-
  Placement/Proofs/Spawn/Fields.lean
  ==================================
  **The fields of a spawn and the bytes they are laid out in.**

  Both directions of the layout go part by part, along the table of parts, without looking
  at single bytes.  What was read from a block has for the fields of each part the bytes from
  its offset on, and so all of them are the block, cut up (`fields_ofFields`).  In the
  fields of a spawn each part begins at its offset (`fromPart_fields`), and so the spawn is
  read back from them (`ofFields_fields`).

  The second direction needs that the bit of the bound tells the truth (`Consistent`),
  since it is the bit that decides what a reader expects, and the bound that decides what
  a writer stores.
-/
import Placement.Proofs.Bytes.Words

namespace Placement

/-! ### Cutting bytes into pieces -/

/-- Pieces of the given widths, from the front. -/
def cut : (widths : List Nat) → List UInt8 → List (List UInt8)
  | [], _ => []
  | width :: widths, bs => bs.take width :: cut widths (bs.drop width)

theorem flatten_cut (widths : List Nat) (bs : List UInt8) :
    (cut widths bs).flatten = bs.take widths.sum := by
  induction widths generalizing bs with
  | nil => simp [cut]
  | cons width widths ih => rw [cut, List.flatten_cons, ih, List.sum_cons, List.take_add]

theorem cut_append (widths widths' : List Nat) (bs : List UInt8) :
    cut (widths ++ widths') bs = cut widths bs ++ cut widths' (bs.drop widths.sum) := by
  induction widths generalizing bs with
  | nil => simp [cut]
  | cons width widths ih =>
    rw [List.cons_append, cut, cut, ih, List.cons_append, List.sum_cons, List.drop_drop]

/-- How many of the pieces of the given widths, one after the other, end within `count` bytes. -/
def piecesWithin (widths : List Nat) (count : Nat) : Nat :=
  (List.range widths.length).countP fun i => (widths.take (i + 1)).sum ≤ count

theorem piecesWithin_cons (width count : Nat) (widths : List Nat) :
    piecesWithin (width :: widths) count =
      if width ≤ count then piecesWithin widths (count - width) + 1 else 0 := by
  have hlater (i : Nat) : ((width :: widths).take (i + 1 + 1)).sum =
      width + (widths.take (i + 1)).sum := by
    rw [List.take_succ_cons, List.sum_cons]
  rw [piecesWithin, List.length_cons, List.range_succ_eq_map, List.countP_cons, List.countP_map]
  by_cases hwidth : width ≤ count
  · have hrest : (fun i => decide (((width :: widths).take (i + 1)).sum ≤ count)) ∘ Nat.succ =
        fun i => decide ((widths.take (i + 1)).sum ≤ count - width) := by
      funext i
      refine decide_eq_decide.mpr ?_
      rw [Nat.succ_eq_add_one, hlater]
      omega
    rw [hrest, if_pos hwidth]
    simp [piecesWithin, hwidth]
  · rw [if_neg hwidth, Nat.add_eq_zero_iff]
    refine ⟨List.countP_eq_zero.mpr ?_, by simp [hwidth]⟩
    intro i _
    rw [Function.comp_apply, Nat.succ_eq_add_one, hlater, decide_eq_true_eq]
    omega

namespace Spawn

/-- The bit of the bound is set exactly if there is a bound. -/
def Consistent {α : Type} (s : Spawn α) : Prop := s.has .bounded = s.bound.isSome

instance {α : Type} (s : Spawn α) : Decidable s.Consistent :=
  inferInstanceAs (Decidable (s.has .bounded = s.bound.isSome))

/-- A spawn that has a stored form of its own: its bit of the bound tells the truth, and its
    name is not too long. -/
structure Storable (s : Spawn Binary32) : Prop where
  consistent : s.Consistent
  name_le : s.name.length ≤ maxNameLength

/-- The bytes of a spawn whose name is not too long. -/
def stored (s : Spawn Binary32) : List UInt8 := s.fields.flatten ++ s.name

/-! ### Parts -/

theorem parts_eq_cons (bounded : Bool) : parts bounded = .flags :: (parts bounded).tail := by
  cases bounded <;> rfl

theorem tail_fieldWidths (bounded : Bool) :
    (fieldWidths bounded).tail = (parts bounded).tail.flatMap Part.widths := by
  cases bounded <;> rfl

theorem nodup_tail_parts (bounded : Bool) : (parts bounded).tail.Nodup := by
  cases bounded <;> decide

theorem Part.sum_widths (part : Part) : part.widths.sum = part.count * part.width := by
  rw [widths, List.sum_replicate_nat]

theorem offset_add_le : ∀ {bounded : Bool} {part : Part}, part ∈ (parts bounded).tail →
    part.offset bounded + part.widths.sum ≤ (fieldWidths bounded).tail.sum := by
  decide

/-- All parts but the corners of a bound are always there. -/
theorem mem_tail_parts {bounded : Bool} {part : Part} (h : part ∉ [.flags, .low, .high]) :
    part ∈ (parts bounded).tail := by
  cases bounded <;> cases part <;> simp_all [parts]

/-- Only a bound has corners. -/
theorem bounded_of_corner {bounded : Bool} (h : .low ∈ parts bounded ∨ .high ∈ parts bounded) :
    bounded = true := by
  cases bounded with
  | false => simp [parts] at h
  | true => rfl

/-- Parts cut out at their offsets, one after the other, are the bytes cut up. -/
theorem flatMap_cut {ps : List Part} (hps : ps.Nodup) (bs : List UInt8) :
    (ps.flatMap fun p => cut p.widths (bs.drop (p.offsetIn ps))) =
      cut (ps.flatMap Part.widths) bs := by
  induction ps generalizing bs with
  | nil => rfl
  | cons q ps ih =>
    obtain ⟨hq, hps⟩ := List.nodup_cons.mp hps
    rw [List.flatMap_cons, List.flatMap_cons, cut_append, ← ih hps]
    congr 1
    · rw [Part.offsetIn, if_pos rfl, List.drop_zero]
    · -- the first part stands before every other
      apply List.flatMap_congr
      intro p hp
      have hne : q ≠ p := fun h => hq (h ▸ hp)
      rw [Part.offsetIn, if_neg hne, q.sum_widths, List.drop_drop]

/-- In a row of parts each begins at its offset. -/
theorem exists_drop_flatMap {f : Part → List (List UInt8)} {ps : List Part}
    (hf : ∀ p ∈ ps, (f p).map List.length = p.widths) {p : Part} (hp : p ∈ ps) :
    ∃ rest, (ps.flatMap f).flatten.drop (p.offsetIn ps) = (f p).flatten ++ rest := by
  induction ps with
  | nil => cases hp
  | cons q ps ih =>
    rw [List.flatMap_cons, List.flatten_append, Part.offsetIn]
    by_cases hq : q = p
    · rw [if_pos hq, List.drop_zero, hq]
      exact ⟨_, rfl⟩
    · have hlength : (f q).flatten.length = q.count * q.width := by
        rw [List.length_flatten, hf q List.mem_cons_self, q.sum_widths]
      rw [if_neg hq, ← List.drop_drop, List.drop_left' hlength]
      apply ih (fun p hp => hf p (List.mem_cons_of_mem q hp))
      exact (List.mem_cons.mp hp).resolve_left (Ne.symm hq)

/-! ### From bytes to fields -/

theorem consistent_ofFields (flags : UInt32) (block name : List UInt8) :
    (ofFields flags block name).Consistent := by
  unfold Consistent has ofFields
  cases SpawnFlag.bounded.isSet flags <;> rfl

theorem vectorFields_readVector {bs : List UInt8} (h : 12 ≤ bs.length) :
    vectorFields (readVector bs) = cut [4, 4, 4] bs := by
  have hfields : 4 ≤ bs.length ∧ 4 ≤ (bs.drop 4).length ∧ 4 ≤ (bs.drop 8).length := by
    simp only [List.length_drop]
    omega
  simp only [vectorFields, readVector, readNumber, word32_readWord32 _ hfields.1,
    word32_readWord32 _ hfields.2.1, word32_readWord32 _ hfields.2.2, cut, List.drop_drop]

section Read

variable {flags : UInt32} {block name : List UInt8}
  (hblock : block.length = (fieldWidths (SpawnFlag.bounded.isSet flags)).tail.sum)
  (hname : name.length = readNameLength (SpawnFlag.bounded.isSet flags) block)

include hblock hname

/-- What was read from where a part begins is spelled as it is there. -/
theorem partFields_ofFields {part : Part}
    (hpart : part ∈ (parts (SpawnFlag.bounded.isSet flags)).tail) :
    (ofFields flags block name).partFields part =
      cut part.widths (fromPart (SpawnFlag.bounded.isSet flags) block part) := by
  have hfits : part.widths.sum ≤
      (fromPart (SpawnFlag.bounded.isSet flags) block part).length := by
    have hend := offset_add_le hpart
    rw [fromPart, List.length_drop]
    omega
  cases part with
  | flags => cases hset : SpawnFlag.bounded.isSet flags <;> simp [parts, hset] at hpart
  | tile => exact congrArg (· :: []) (encode_readWord16 _ hfits)
  | id | scale => exact congrArg (· :: []) (word32_readWord32 _ hfits)
  | position | rotation => exact vectorFields_readVector hfits
  | low =>
    have hset := bounded_of_corner (.inl (List.mem_of_mem_tail hpart))
    simp only [partFields, ofFields, if_pos hset, Option.elim_some]
    exact vectorFields_readVector hfits
  | high =>
    have hset := bounded_of_corner (.inr (List.mem_of_mem_tail hpart))
    simp only [partFields, ofFields, if_pos hset, Option.elim_some]
    exact vectorFields_readVector hfits
  | nameLength =>
    have hlast := word32_readWord32 _ hfits
    rw [word32, ← readNameLength, ← hname] at hlast
    exact congrArg (· :: []) hlast

/-- The fields of a spawn that was read from a block are the bytes it was read from. -/
theorem fields_ofFields :
    (ofFields flags block name).fields =
      word32 flags :: cut (fieldWidths (SpawnFlag.bounded.isSet flags)).tail block := by
  have hbound : (ofFields flags block name).bound.isSome = SpawnFlag.bounded.isSet flags :=
    (consistent_ofFields flags block name).symm
  have hparts := flatMap_cut (nodup_tail_parts (SpawnFlag.bounded.isSet flags)) block
  rw [fields, hbound, parts_eq_cons, List.flatMap_cons, tail_fieldWidths, ← hparts]
  refine congrArg (word32 flags :: ·) (List.flatMap_congr ?_)
  intro part hpart
  exact partFields_ofFields hblock hname hpart

theorem flatten_fields_ofFields :
    (ofFields flags block name).fields.flatten = word32 flags ++ block := by
  rw [fields_ofFields hblock hname, List.flatten_cons, flatten_cut, ← hblock, List.take_length]

end Read

/-! ### From fields to bytes and back -/

theorem length_vectorFields (v : Vec3 Binary32) :
    (vectorFields v).map List.length = [4, 4, 4] := by
  simp [vectorFields]

theorem length_partFields (s : Spawn Binary32) {part : Part}
    (hpart : part ∈ parts s.bound.isSome) :
    (s.partFields part).map List.length = part.widths := by
  cases part with
  | flags | tile | id | scale | nameLength =>
    exact congrArg (· :: []) (LittleEndian.length_encode _ _)
  | position | rotation => exact length_vectorFields _
  | low =>
    obtain ⟨b, hb⟩ := Option.isSome_iff_exists.mp (bounded_of_corner (.inl hpart))
    simp only [partFields, hb, Option.elim_some]
    exact length_vectorFields b.low
  | high =>
    obtain ⟨b, hb⟩ := Option.isSome_iff_exists.mp (bounded_of_corner (.inr hpart))
    simp only [partFields, hb, Option.elim_some]
    exact length_vectorFields b.high

theorem length_fields (s : Spawn Binary32) :
    s.fields.map List.length = fieldWidths s.bound.isSome := by
  rw [fields, List.map_flatMap, fieldWidths]
  exact List.flatMap_congr fun part hpart => s.length_partFields hpart

theorem fields_eq_cons (s : Spawn Binary32) :
    s.fields = word32 s.flags :: (parts s.bound.isSome).tail.flatMap s.partFields := by
  rw [fields, parts_eq_cons]
  rfl

/-- A record begins with its flags. -/
theorem stored_append (s : Spawn Binary32) (tail : List UInt8) :
    s.stored ++ tail = word32 s.flags ++ (s.fields.tail.flatten ++ (s.name ++ tail)) := by
  rw [stored, fields_eq_cons, List.flatten_cons, List.tail_cons, List.append_assoc,
    List.append_assoc]

theorem length_flatten_fields (s : Spawn Binary32) :
    s.fields.flatten.length = (fieldWidths s.bound.isSome).sum := by
  rw [List.length_flatten, length_fields]

/-- Every record takes at least 42 bytes. -/
theorem le_length_stored (s : Spawn Binary32) : 42 ≤ s.stored.length := by
  have hsum : 42 ≤ (fieldWidths s.bound.isSome).sum := by
    cases s.bound.isSome <;> decide
  rw [stored, List.length_append, length_flatten_fields]
  omega

theorem length_flatten_tail_fields (s : Spawn Binary32) :
    s.fields.tail.flatten.length = (fieldWidths s.bound.isSome).tail.sum := by
  rw [List.length_flatten, List.map_tail, length_fields]

/-- In the fields of a spawn each part begins at its offset. -/
theorem fromPart_fields (s : Spawn Binary32) {part : Part}
    (hpart : part ∈ (parts s.bound.isSome).tail) :
    ∃ rest, fromPart s.bound.isSome s.fields.tail.flatten part =
      (s.partFields part).flatten ++ rest := by
  rw [fields_eq_cons, List.tail_cons]
  exact exists_drop_flatMap (fun p hp => s.length_partFields (List.mem_of_mem_tail hp)) hpart

section Written

variable {s : Spawn Binary32} {part : Part} (hpart : part ∈ (parts s.bound.isSome).tail)

include hpart

theorem readWord32_fromPart {n : Nat} (hn : n < 256 ^ 4)
    (hfields : s.partFields part = [LittleEndian.encode 4 n]) :
    readWord32 (fromPart s.bound.isSome s.fields.tail.flatten part) = UInt32.ofNat n := by
  obtain ⟨rest, hrest⟩ := s.fromPart_fields hpart
  rw [hrest, hfields, List.flatten_singleton, readWord32_encode_append hn]

theorem readWord16_fromPart {w : UInt16}
    (hfields : s.partFields part = [LittleEndian.encode 2 w.toNat]) :
    readWord16 (fromPart s.bound.isSome s.fields.tail.flatten part) = w := by
  obtain ⟨rest, hrest⟩ := s.fromPart_fields hpart
  rw [hrest, hfields, List.flatten_singleton, readWord16_encode_append]

theorem readVector_fromPart {v : Vec3 Binary32} (hfields : s.partFields part = vectorFields v) :
    readVector (fromPart s.bound.isSome s.fields.tail.flatten part) = v := by
  obtain ⟨rest, hrest⟩ := s.fromPart_fields hpart
  rw [hrest, hfields, readVector_vectorFields_append]

end Written

theorem readCorners_fromPart (s : Spawn Binary32) :
    (if s.bound.isSome then
      some (⟨readVector (fromPart s.bound.isSome s.fields.tail.flatten .low),
        readVector (fromPart s.bound.isSome s.fields.tail.flatten .high)⟩ : Box Binary32)
      else none) = s.bound := by
  cases hb : s.bound with
  | none => rfl
  | some b =>
    have hcorners : .low ∈ (parts s.bound.isSome).tail ∧ .high ∈ (parts s.bound.isSome).tail := by
      rw [hb, Option.isSome_some]
      decide
    have hlow : s.partFields .low = vectorFields b.low := by
      simp only [partFields, hb, Option.elim_some]
    have hhigh : s.partFields .high = vectorFields b.high := by
      simp only [partFields, hb, Option.elim_some]
    rw [← hb, readVector_fromPart hcorners.1 hlow, readVector_fromPart hcorners.2 hhigh, hb]
    rfl

/-- The last field is the length of the name. -/
theorem readNameLength_fields {s : Spawn Binary32} (hname : s.name.length ≤ maxNameLength) :
    readNameLength s.bound.isSome s.fields.tail.flatten = s.name.length := by
  have hlt : s.name.length < 256 ^ 4 := Nat.lt_of_le_of_lt hname (by decide)
  rw [readNameLength, readWord32_fromPart (mem_tail_parts (by decide)) hlt rfl,
    UInt32.toNat_ofNat_of_lt' hlt]

/-- A spawn whose bit of the bound tells the truth is read back from its own fields. -/
theorem ofFields_fields {s : Spawn Binary32} (hs : s.Storable) :
    ofFields s.flags s.fields.tail.flatten s.name = s := by
  have hset : SpawnFlag.bounded.isSet s.flags = s.bound.isSome := hs.consistent
  have htile : readWord16 (fromPart s.bound.isSome s.fields.tail.flatten .tile) = s.tile :=
    readWord16_fromPart (mem_tail_parts (by decide)) rfl
  have hid : readWord32 (fromPart s.bound.isSome s.fields.tail.flatten .id) = s.id :=
    (readWord32_fromPart (mem_tail_parts (by decide)) s.id.toNat_lt rfl).trans UInt32.ofNat_toNat
  have hposition : readVector (fromPart s.bound.isSome s.fields.tail.flatten .position) =
      s.position := readVector_fromPart (mem_tail_parts (by decide)) rfl
  have hrotation : readVector (fromPart s.bound.isSome s.fields.tail.flatten .rotation) =
      s.rotation := readVector_fromPart (mem_tail_parts (by decide)) rfl
  have hscale : readNumber (fromPart s.bound.isSome s.fields.tail.flatten .scale) = s.scale :=
    congrArg Binary32.mk ((readWord32_fromPart (mem_tail_parts (by decide)) s.scale.bits.toNat_lt
      rfl).trans UInt32.ofNat_toNat)
  simp only [ofFields, hset, htile, hid, hposition, hrotation, hscale, readCorners_fromPart]

end Spawn

end Placement
