/-
  Placement/Proofs/Bytes/Breaks.lean
  ==================================
  **Streams that break.**

  A stream breaks at the next of its fatal faults, the one with the least offset and among
  those the first (`Fault.next?`), unless its bytes are over before that.  So it is in for the
  bytes before that fault (`ByteStream.prospect`), and interruptions and the size of the pieces
  do not matter.
-/
import Placement.Proofs.Bytes.Refusals
import Mathlib.Data.List.MinMax

namespace Placement

/-! ### The next fault -/

namespace Fault

variable {start stop : Nat} {faults rest : List Fault} {f : Fault} {e : IoError}

/-- The fault that a source meets next if it gets so far: of those that are fatal and not behind
    it the nearest, and of several there the first. -/
def next? (start : Nat) (faults : List Fault) : Option Fault :=
  ((faults.filter isFatal).filter fun f => decide (start ≤ f.offset)).argmin
    Fault.offset

theorem of_next? (h : next? start faults = some f) :
    f ∈ faults ∧ f.isFatal ∧ start ≤ f.offset := by
  obtain ⟨hmem, hle⟩ := List.mem_filter.mp (List.argmin_mem h)
  obtain ⟨hmem, hfatal⟩ := List.mem_filter.mp hmem
  exact ⟨hmem, hfatal, of_decide_eq_true hle⟩

/-- What is passed without a fault does not matter to what comes next. -/
theorem next?_of_free (hle : start ≤ stop)
    (hfree : ∀ f ∈ faults, f.isFatal → start ≤ f.offset → stop ≤ f.offset) :
    next? stop faults = next? start faults := by
  have hsame : (faults.filter isFatal).filter (fun f => decide (stop ≤ f.offset)) =
      (faults.filter isFatal).filter fun f => decide (start ≤ f.offset) := by
    refine List.filter_congr ?_
    intro f hf
    obtain ⟨hmem, hfatal⟩ := List.mem_filter.mp hf
    exact decide_eq_decide.mpr ⟨Nat.le_trans hle, hfree f hmem hfatal⟩
  rw [next?, next?, hsame]

theorem argmin_append_cons {β : Type} (key : β → Nat) (front back : List β) (b : β)
    (hfront : ∀ a ∈ front, key b < key a) (hback : ∀ a ∈ back, key b ≤ key a) :
    (front ++ b :: back).argmin key = some b := by
  induction front with
  | nil =>
    rw [List.nil_append, List.argmin_cons]
    rcases hmin : back.argmin key with _ | c
    · rfl
    · exact if_neg (Nat.not_lt.mpr (hback c (List.argmin_mem hmin)))
  | cons a front ih =>
    rw [List.cons_append, List.argmin_cons, ih fun c hc => hfront c (List.mem_cons_of_mem a hc)]
    exact if_pos (hfront a List.mem_cons_self)

/-- A fatal fault that strikes is the next one, and it strikes once. -/
theorem exists_next?_of_strike? (h : strike? start faults = some (e, rest))
    (he : e.kind ≠ .interrupted) :
    ∃ f, next? start faults = some f ∧ f.offset = start ∧ f.error = e ∧
      rest.filter isFatal = (faults.filter isFatal).erase f := by
  obtain ⟨front, struck, back, rfl, rfl, rfl, hstruck, hfront⟩ := exists_of_strike? h
  have hfatal : struck.isFatal = true := by simp [isFatal, he]
  refine ⟨struck, ?_, hstruck, rfl, ?_⟩
  · rw [next?, List.filter_append, List.filter_append, List.filter_cons, hfatal, if_pos rfl,
      List.filter_cons, if_pos (decide_eq_true (Nat.le_of_eq hstruck.symm))]
    refine argmin_append_cons _ _ _ _ ?_ ?_
    · intro f hf
      obtain ⟨hf, hle⟩ := List.mem_filter.mp hf
      have hne := hfront f (List.mem_of_mem_filter hf)
      have hle := of_decide_eq_true hle
      omega
    · intro f hf
      have hle := of_decide_eq_true (List.mem_filter.mp hf).2
      omega
  · have hnot : struck ∉ front.filter isFatal :=
      fun hmem => hfront struck (List.mem_of_mem_filter hmem) hstruck
    rw [List.filter_append, List.filter_append, List.filter_cons, hfatal, if_pos rfl,
      List.erase_append_right _ hnot, List.erase_cons_head]

end Fault

namespace ByteStream

/-- The stream without its faults. -/
def calm (s : ByteStream) : ByteStream := { s with faults := [] }

/-- The bytes that the stream hands out if no fault is in the way.  One that hands out none with
    any call is over at once. -/
def offered (s : ByteStream) : List UInt8 := if s.chunk = some 0 then [] else s.rest

def next? (s : ByteStream) : Option Fault := Fault.next? s.position s.faults

/-- The bytes before the next fault. -/
def view (s : ByteStream) : List UInt8 :=
  match s.next? with
  | some f => s.offered.take (f.offset - s.position)
  | none => s.offered

/-- The error of the next fault, if the bytes get so far. -/
def ending (s : ByteStream) : Option IoError :=
  match s.next? with
  | some f => if f.offset - s.position ≤ s.offered.length then some f.error else none
  | none => none

/-- The faults that would end a reading. -/
def fatal (s : ByteStream) : List Fault := s.faults.filter Fault.isFatal

variable {s s' : ByteStream} {want : Nat} {bs : List UInt8}

theorem read_bytes_offered (h : s.read want = (.bytes bs, s')) :
    s'.chunk = s.chunk ∧ s'.faults = s.faults ∧ s.offered = bs ++ s'.offered ∧
      (0 < want → bs = [] → s.offered = []) := by
  obtain ⟨-, hrest, -⟩ := read_bytes h
  obtain ⟨-, n, hn, rfl, rfl⟩ := of_read_bytes h
  refine ⟨rfl, rfl, ?_, ?_⟩
  · rw [offered, offered]
    by_cases hchunk : s.chunk = some 0
    · have hzero : n = 0 := by
        have hle := Fault.clear_le s.position s.faults (s.portion want)
        have hportion : s.portion want = min want 0 := by rw [portion, hchunk, Option.elim_some]
        omega
      rw [if_pos hchunk, if_pos hchunk, hzero, List.take_zero]
      rfl
    · rw [if_neg hchunk, if_neg hchunk]
      exact hrest
  · intro hwant hnone
    rw [offered]
    split
    · rfl
    next hchunk =>
      rcases List.take_eq_nil_iff.mp hnone with hzero | hnil
      · exact absurd (hn ▸ hzero) (Nat.ne_of_gt (clear_pos_of_want hchunk hwant))
      · exact hnil

theorem read_bytes_free (h : s.read want = (.bytes bs, s')) :
    ∀ f ∈ s.faults, f.isFatal → s.position ≤ f.offset →
      s.position < f.offset ∧ s.position + bs.length ≤ f.offset := by
  intro f hf hfatal hle
  obtain ⟨hstrike, n, rfl, rfl, -⟩ := of_read_bytes h
  have hne := Fault.fatalAt?_eq_none_iff.mp (Fault.fatalAt?_of_strike?_none hstrike) f hf hfatal
  have hlt : s.position < f.offset := by omega
  have hclear := Nat.le_trans (List.length_take_le _ s.rest)
    (Fault.clear_le_sub (s.portion want) hf hlt)
  exact ⟨hlt, by omega⟩

theorem next?_of_read (h : s.read want = (.bytes bs, s')) : s'.next? = s.next? := by
  obtain ⟨-, -, hposition⟩ := read_bytes h
  obtain ⟨-, hfaults, -⟩ := read_bytes_offered h
  rw [next?, next?, hfaults, hposition]
  refine Fault.next?_of_free (Nat.le_add_right _ _) ?_
  intro f hf hfatal hle
  exact (read_bytes_free h f hf hfatal hle).2

/-- A stream is in for the bytes before its next fatal fault. -/
def prospect (start : ByteStream) : ByteSource.Prospect ByteStream where
  Sound s := s.fatal = start.fatal ∧ s.next? = start.next?
  view := view
  ending := ending
  Broken s := ∃ f, start.next? = some f ∧ s.fatal = start.fatal.erase f
  delivered := by
    rintro s s' want bs ⟨hfatal, hnext⟩ hwant hread
    obtain ⟨hlen, -, hposition⟩ := read_bytes hread
    obtain ⟨-, hfaults, hoffered, hend⟩ := read_bytes_offered hread
    have hfree := read_bytes_free hread
    have hsame := next?_of_read hread
    have hlength : s.offered.length = bs.length + s'.offered.length := by
      rw [hoffered, List.length_append]
    refine ⟨⟨?_, hsame.trans hnext⟩, ?_, ?_, hlen, ?_, ?_⟩
    · rw [fatal, hfaults]
      exact hfatal
    · rw [view, view, hsame, hposition]
      cases hf : s.next? with
      | none => exact hoffered
      | some f =>
        obtain ⟨hmem, hfatal, hle⟩ := Fault.of_next? hf
        have hpast := (hfree f hmem hfatal hle).2
        simp only
        rw [hoffered, List.take_append, List.take_of_length_le (by omega), Nat.sub_sub]
    · rw [ending, ending, hsame, hposition]
      cases hf : s.next? with
      | none => rfl
      | some f =>
        obtain ⟨hmem, hfatal, hle⟩ := Fault.of_next? hf
        have hpast := (hfree f hmem hfatal hle).2
        simp only
        rw [hlength]
        congr 1
        exact propext (by omega)
    · intro hnone
      have hnil := hend hwant hnone
      rw [view, ending, hnil]
      cases hf : s.next? with
      | none => exact ⟨rfl, rfl⟩
      | some f =>
        obtain ⟨hmem, hfatal, hle⟩ := Fault.of_next? hf
        have hahead := (hfree f hmem hfatal hle).1
        exact ⟨List.take_nil, if_neg (by rw [List.length_nil]; omega)⟩
    · simp [ByteSource.patience, hfaults]
  failed := by
    rintro s s' want e ⟨hfatal, hnext⟩ - hread
    obtain ⟨faults, hstrike, rfl⟩ := of_read_failed hread
    by_cases hkind : e.kind = .interrupted
    · have hfilter := Fault.filter_of_interrupted hstrike hkind
      have hsame : ({ s with faults } : ByteStream).next? = s.next? := by
        rw [next?, next?, Fault.next?, hfilter]
        rfl
      refine .inl ⟨hkind, ⟨hfilter.trans hfatal, hsame.trans hnext⟩, ?_, ?_, ?_⟩
      · rw [view, view, hsame]
        rfl
      · rw [ending, ending, hsame]
        rfl
      · obtain ⟨front, struck, back, hall, rfl, -⟩ := Fault.exists_of_strike? hstrike
        simp [ByteSource.patience, hall]
    · obtain ⟨f, hf, hoffset, herror, herase⟩ := Fault.exists_next?_of_strike? hstrike hkind
      have hhere : s.next? = some f := hf
      refine .inr ⟨hkind, ?_, ?_, f, hnext.symm.trans hhere, ?_⟩
      · simp [view, hhere, hoffset]
      · simp [ending, hhere, hoffset, herror]
      · rw [← hfatal]
        exact herase

/-- The stream so many bytes on, without its faults. -/
def calmPast (s : ByteStream) (count : Nat) : ByteStream :=
  { s with rest := s.rest.drop count, position := s.position + count, faults := [] }

/-- Whatever is taken out of a stream, nothing changes but where it stands and its faults. -/
theorem calm_of_took (h : ByteSource.Took s bs s') :
    s'.calm = s.calmPast bs.length ∧ s'.faults.Sublist s.faults := by
  obtain ⟨hrest, hposition⟩ := ByteSource.Took.rest_eq h
  have hsettings : s'.chunk = s.chunk ∧ s'.faults.Sublist s.faults := by
    clear hrest hposition
    induction h with
    | nothing s => exact ⟨rfl, .refl _⟩
    | bytes hread _ ih =>
      obtain ⟨hchunk, hfaults, -⟩ := read_bytes_offered hread
      exact ⟨ih.1.trans hchunk, hfaults ▸ ih.2⟩
    | failed hread _ ih =>
      obtain ⟨faults, hstrike, rfl⟩ := of_read_failed hread
      obtain ⟨front, struck, back, hall, rfl, -⟩ := Fault.exists_of_strike? hstrike
      refine ⟨ih.1, ih.2.trans ?_⟩
      rw [hall]
      exact List.Sublist.append_left (List.sublist_cons_self struck back) front
  refine ⟨?_, hsettings.2⟩
  rw [calm, calmPast, hrest, hposition, hsettings.1, List.drop_left]

end ByteStream

end Placement
