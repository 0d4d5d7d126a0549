import Colloquy.Check.Basic
import Colloquy.Proofs.Text.Bytes
import Mathlib.Data.List.Induction
import Mathlib.Data.List.Nodup
import Mathlib.Data.Prod.Lex

/-! # What a bag gives back

The diagnostics that a bag gives back stand in the lexicographic order of their start, their end, their severity, worse
ones first, and their code. It is a linear preorder, so sorting by it gives an ordered list. The sort is stable, and
this carries over to what is left out: without some of the diagnostics, the others stand as they stood.
-/

namespace Colloquy

/-- What decides on the place of a diagnostic in a report: start, end, severity, worse ones first, and code. -/
def Diagnostic.place (d : Diagnostic) : ℕ ×ₗ ℕ ×ₗ ℕᵒᵈ ×ₗ ℕ :=
  toLex (d.span.start.toNat, toLex (d.span.stop.toNat,
    toLex (OrderDual.toDual d.severity.level.toNat, d.code.number.toNat)))

/-- The diagnostics stand in the order of their places. -/
def Diagnostic.InOrder (found : List Diagnostic) : Prop := found.Pairwise (·.place ≤ ·.place)

instance (found : List Diagnostic) : Decidable (Diagnostic.InOrder found) :=
  inferInstanceAs (Decidable (found.Pairwise _))

namespace Diagnostic

theorem le_iff {a b : Diagnostic} : le a b = true ↔ a.place ≤ b.place := by
  simp only [le, place, Prod.Lex.toLex_le_toLex, OrderDual.toDual_lt_toDual, OrderDual.toDual_inj, UInt32.toNat_inj,
    UInt8.toNat_inj]
  have level : a.severity.level = b.severity.level ↔ a.severity = b.severity := by
    rw [← Severity.mk.injEq]
  by_cases start : a.span.start = b.span.start
  · by_cases stop : a.span.stop = b.span.stop
    · by_cases severity : a.severity = b.severity
      · simp [start, stop, severity, UInt16.le_iff_toNat_le]
      · simp [start, stop, severity, level, UInt8.lt_iff_toNat_lt]
    · simp [start, stop, UInt32.lt_iff_toNat_lt]
  · simp [start, UInt32.lt_iff_toNat_lt]

theorem le_trans (a b c : Diagnostic) (first : le a b = true) (second : le b c = true) : le a c = true := by
  rw [le_iff] at first second ⊢
  exact first.trans second

theorem le_total (a b : Diagnostic) : (le a b || le b a) = true := by
  rw [Bool.or_eq_true, le_iff, le_iff]
  exact Std.le_total

theorem inOrder_mergeSort (found : List Diagnostic) : InOrder (found.mergeSort le) :=
  (List.pairwise_mergeSort le_trans le_total found).imp le_iff.mp

theorem span_eq_of_le {a b : Diagnostic} (first : le a b = true) (second : le b a = true) : a.span = b.span := by
  have same : a.place = b.place := le_antisymm (le_iff.mp first) (le_iff.mp second)
  simp only [place, toLex_inj, Prod.mk.injEq] at same
  exact congrArg₂ Span.mk (UInt32.toNat_inj.mp same.1) (UInt32.toNat_inj.mp same.2.1)

/-- Sorting puts a new first diagnostic between the sorted others, right after those that must stand before it. -/
theorem mergeSort_cons (d : Diagnostic) (found : List Diagnostic) :
    (d :: found).mergeSort le =
      (found.mergeSort le).filter (fun e => !le d e) ++ d :: (found.mergeSort le).filter (le d) := by
  -- the library leaves open where the new one stands; the order of the whole decides it
  obtain ⟨before, after, sorted, others, strict⟩ := List.mergeSort_cons le_trans le_total d found
  have inOrder := List.pairwise_mergeSort le_trans le_total (d :: found)
  rw [sorted] at inOrder
  have later : ∀ e ∈ after, le d e = true := (List.pairwise_cons.mp (List.pairwise_append.mp inOrder).2.1).1
  have strict : ∀ e ∈ before, le d e = false := by simpa using strict
  rw [sorted, others, List.filter_append, List.filter_append]
  rw [List.filter_eq_self.mpr (by simpa using strict), List.filter_eq_self.mpr later]
  rw [List.filter_eq_nil_iff.mpr (by simpa using later), List.filter_eq_nil_iff.mpr (by simpa using strict)]
  rw [List.append_nil, List.nil_append]

/-- Fewer diagnostics are sorted to the sorted list without the others. -/
theorem sublist_mergeSort {fewer found : List Diagnostic} (kept : fewer.Sublist found) :
    (fewer.mergeSort le).Sublist (found.mergeSort le) := by
  induction kept with
  | slnil => exact List.Sublist.refl _
  | @cons _ found d _ ih =>
      obtain ⟨before, after, sorted, others, _⟩ := List.mergeSort_cons le_trans le_total d found
      rw [others] at ih
      rw [sorted]
      exact ih.trans ((List.sublist_cons_self d after).append_left before)
  | cons_cons d _ ih =>
      -- on both sides `d` stands between the same two classes of the others
      rw [mergeSort_cons, mergeSort_cons]
      exact (ih.filter _).append ((ih.filter _).cons_cons d)

end Diagnostic

/-! ## Repetitions

A bag gives back diagnostics that were put into it, and without a limit it gives back the first of those that
share a key. Keys are texts; they tell apart diagnostics of different code, span or message, because numbers
are written in digits and what stands between them is no digit.
-/

namespace Diagnostic

theorem key_eq (d : Diagnostic) :
    d.key = Bytes.ofNat d.code.number.toNat ++ 0x3A :: (Bytes.ofNat d.span.start.toNat ++
      0x2D :: (Bytes.ofNat d.span.stop.toNat ++ 0x3A :: d.message)) := by
  have colon : utf8 ":" = [0x3A] := by decide
  simp [key, Span.render, colon]

/-- Diagnostics of one key agree in code, span and message. -/
theorem key_inj {a b : Diagnostic} (same : a.key = b.key) :
    a.code = b.code ∧ a.span = b.span ∧ a.message = b.message := by
  rw [key_eq, key_eq] at same
  obtain ⟨code, same⟩ := Bytes.ofNat_append_inj (by decide) same
  obtain ⟨start, same⟩ := Bytes.ofNat_append_inj (by decide) same
  obtain ⟨stop, message⟩ := Bytes.ofNat_append_inj (by decide) same
  refine ⟨?_, ?_, message⟩
  · exact congrArg Code.mk (UInt16.toNat_inj.mp code)
  · exact congrArg₂ Span.mk (UInt32.toNat_inj.mp start) (UInt32.toNat_inj.mp stop)

end Diagnostic

namespace Bag

variable {limit : Int} {found : List Diagnostic} {d : Diagnostic}

theorem mem_firstOfEach_iff {seen : List Bytes} :
    d ∈ firstOfEach seen found ↔ d.key ∉ seen ∧ found.find? (fun e => e.key = d.key) = some d := by
  fun_induction firstOfEach seen found with
  | case1 seen => simp
  | case2 seen e rest known ih =>
      have known : e.key ∈ seen := by simpa using known
      rw [ih]
      by_cases same : e.key = d.key
      · simp [← same, known]
      · rw [List.find?_cons_of_neg (by simpa using same)]
  | case3 seen e rest fresh ih =>
      have fresh : e.key ∉ seen := by simpa using fresh
      rw [List.mem_cons, ih]
      by_cases same : e.key = d.key
      · rw [List.find?_cons_of_pos (by simpa using same)]
        simp [← same, fresh, eq_comm]
      · rw [List.find?_cons_of_neg (by simpa using same)]
        have differs : d ≠ e := fun equal => same (congrArg Diagnostic.key equal.symm)
        simp [differs, Ne.symm same]

theorem nodup_key_firstOfEach (seen : List Bytes) (found : List Diagnostic) :
    ((firstOfEach seen found).map Diagnostic.key).Nodup := by
  fun_induction firstOfEach seen found with
  | case1 => exact .nil
  | case2 seen e rest known ih => exact ih
  | case3 seen e rest fresh ih =>
      refine List.nodup_cons.mpr ⟨fun again => ?_, ih⟩
      obtain ⟨d, member, same⟩ := List.mem_map.mp again
      exact (mem_firstOfEach_iff.mp member).1 (List.mem_cons.mpr (.inl same))

theorem nodup_firstOfEach (seen : List Bytes) (found : List Diagnostic) : (firstOfEach seen found).Nodup :=
  List.Nodup.of_map Diagnostic.key (nodup_key_firstOfEach seen found)

theorem mem_extend {b : Bag} (member : d ∈ (b.extend found).items) : d ∈ b.items ∨ d ∈ found := by
  fun_induction extend b found with
  | case1 b => exact .inl member
  | case2 b e rest full => exact .inl member
  | case3 b e rest room ih =>
      obtain held | later := ih member
      · rw [add, if_neg room] at held
        obtain held | last := List.mem_append.mp held
        · exact .inl held
        · exact .inr (List.mem_cons.mpr (.inl (List.mem_singleton.mp last)))
      · exact .inr (List.mem_cons_of_mem _ later)

theorem items_extend {b : Bag} (unlimited : b.limit ≤ 0) : (b.extend found).items = b.items ++ found := by
  fun_induction extend b found with
  | case1 b => simp
  | case2 b e rest full =>
      have room : b.isFull = false := by simp [isFull, Int.not_lt.mpr unlimited]
      simp [room] at full
  | case3 b e rest room ih =>
      rw [add, if_neg room] at ih ⊢
      rw [ih unlimited, List.append_assoc, List.singleton_append]

theorem mem_finish_iff {b : Bag} : d ∈ b.finish ↔ b.items.find? (fun e => e.key = d.key) = some d := by
  rw [finish, sort, (List.mergeSort_perm _ _).mem_iff, dedup, mem_firstOfEach_iff]
  simp

theorem nodup_finish (b : Bag) : b.finish.Nodup :=
  (List.mergeSort_perm _ _).nodup_iff.mpr (nodup_firstOfEach [] b.items)

theorem mem_of_mem_finish (member : d ∈ ((empty limit).extend found).finish) : d ∈ found := by
  obtain held | given := mem_extend (List.mem_of_find?_eq_some (mem_finish_iff.mp member))
  · simp [empty] at held
  · exact given

/-- Without a limit the first finding of each key comes back. -/
theorem mem_finish_extend_iff (unlimited : limit ≤ 0) :
    d ∈ ((empty limit).extend found).finish ↔ found.find? (fun e => e.key = d.key) = some d := by
  have all : ((empty limit).extend found).items = found := items_extend unlimited
  rw [mem_finish_iff, all]

theorem exists_mem_finish (unlimited : limit ≤ 0) (member : d ∈ found) :
    ∃ e ∈ ((empty limit).extend found).finish, e.key = d.key := by
  cases first : found.find? (fun e => e.key = d.key) with
  | none => simpa using List.find?_eq_none.mp first d member
  | some e =>
      have same : e.key = d.key := by simpa using List.find?_some first
      refine ⟨e, (mem_finish_extend_iff unlimited).mpr ?_, same⟩
      rw [same, first]

/-- Without a limit, a finding that no other one shares its key with comes back. -/
theorem mem_finish_extend_of_alone (unlimited : limit ≤ 0) (alone : ∀ e ∈ found, e.key = d.key → e = d) :
    d ∈ ((empty limit).extend found).finish ↔ d ∈ found := by
  constructor
  · exact mem_of_mem_finish
  · intro member
    obtain ⟨e, kept, same⟩ := exists_mem_finish unlimited member
    exact alone e (mem_of_mem_finish kept) same ▸ kept

end Bag

/-! ## What a limit leaves out

A limit cuts the findings where they were found, before repetitions are dropped and before they are sorted. What
is kept is nevertheless a part of what would be kept without it, in the same order: a finding that is first of its
key among all is first among fewer, and the sort keeps sublists. The very first finding is kept by every limit.
-/

/-- No more diagnostics than a limit allows, in the order of a report. -/
structure Diagnostic.Fits (limit : Int) (found : List Diagnostic) : Prop where
  length_le : (found.length : Int) ≤ limit
  inOrder : InOrder found

instance (limit : Int) (found : List Diagnostic) : Decidable (Diagnostic.Fits limit found) :=
  decidable_of_iff (_ ∧ _) ⟨fun ⟨length_le, inOrder⟩ => ⟨length_le, inOrder⟩, fun fits => ⟨fits.1, fits.2⟩⟩

theorem Diagnostic.Fits.sublist {limit : Int} {fewer found : List Diagnostic} (fits : Fits limit found)
    (kept : fewer.Sublist found) : Fits limit fewer := by
  have length_le := fits.length_le
  have fewer_le := kept.length_le
  exact ⟨by omega, fits.inOrder.sublist kept⟩

namespace Bag

variable {limit : Int} {found : List Diagnostic} {d : Diagnostic}

theorem items_extend_of_limit {b : Bag} (limited : 0 < b.limit) :
    (b.extend found).items = b.items ++ found.take (b.limit.toNat - b.items.length) := by
  fun_induction extend b found with
  | case1 b => simp
  | case2 b e rest full =>
      have none_left : b.limit.toNat - b.items.length = 0 := by
        simp [isFull] at full
        omega
      rw [none_left, List.take_zero, List.append_nil]
  | case3 b e rest room ih =>
      have left : b.limit.toNat - b.items.length = (b.limit.toNat - (b.items.length + 1)) + 1 := by
        simp [isFull, limited] at room
        omega
      rw [add, if_neg room] at ih ⊢
      rw [ih limited, left, List.take_succ_cons, List.append_assoc, List.singleton_append, List.length_append,
        List.length_singleton]

/-- The findings that a limit lets in. -/
theorem items_extend_empty :
    ((empty limit).extend found).items = if 0 < limit then found.take limit.toNat else found := by
  split
  · next limited => exact items_extend_of_limit limited
  · next unlimited => exact items_extend (by simpa [empty] using unlimited)

theorem firstOfEach_sublist {seen : List Bytes} : (firstOfEach seen found).Sublist found := by
  fun_induction firstOfEach seen found with
  | case1 seen => exact List.Sublist.refl _
  | case2 seen e rest known ih => exact ih.cons e
  | case3 seen e rest fresh ih => exact ih.cons_cons e

/-- Whether a diagnostic is the first of its key depends on those before it only. -/
theorem firstOfEach_append (seen : List Bytes) (found more : List Diagnostic) :
    firstOfEach seen found <+: firstOfEach seen (found ++ more) := by
  fun_induction firstOfEach seen found with
  | case1 seen => exact List.nil_prefix
  | case2 seen e rest known ih => rwa [List.cons_append, firstOfEach, if_pos known]
  | case3 seen e rest fresh ih =>
      rw [List.cons_append, firstOfEach, if_neg fresh]
      exact List.cons_prefix_cons.mpr ⟨rfl, ih⟩

end Bag

namespace Check

variable {limit unlimited : Int} {found : List Diagnostic} {d : Diagnostic}

theorem collect_of_limit (limited : 0 < limit) :
    collect limit found = (Bag.firstOfEach [] (found.take limit.toNat)).mergeSort Diagnostic.le := by
  rw [collect, Bag.finish, Bag.sort, Bag.dedup, Bag.items_extend_empty, if_pos limited]

theorem collect_of_not_limit (none : unlimited ≤ 0) :
    collect unlimited found = (Bag.firstOfEach [] found).mergeSort Diagnostic.le := by
  rw [collect, Bag.finish, Bag.sort, Bag.dedup, Bag.items_extend_empty, if_neg (Int.not_lt.mpr none)]

theorem fits_collect (limited : 0 < limit) : Diagnostic.Fits limit (collect limit found) := by
  refine ⟨?_, Diagnostic.inOrder_mergeSort _⟩
  have fewer : (Bag.firstOfEach [] (found.take limit.toNat)).length ≤ (found.take limit.toNat).length :=
    Bag.firstOfEach_sublist.length_le
  have cut : (found.take limit.toNat).length ≤ limit.toNat := List.length_take_le _ _
  rw [collect_of_limit limited, List.length_mergeSort]
  omega

/-- A limit leaves findings out and moves none. -/
theorem collect_sublist (limited : 0 < limit) (none : unlimited ≤ 0) :
    (collect limit found).Sublist (collect unlimited found) := by
  rw [collect_of_limit limited, collect_of_not_limit none]
  -- before the sort the limit keeps a front, and a front of the findings has a front of the first ones
  refine Diagnostic.sublist_mergeSort (List.IsPrefix.sublist ?_)
  have cut := Bag.firstOfEach_append [] (found.take limit.toNat) (found.drop limit.toNat)
  rwa [List.take_append_drop] at cut

theorem mem_of_mem_collect (member : d ∈ collect limit found) : d ∈ found := Bag.mem_of_mem_finish member

/-- The first finding is kept, whatever the limit. -/
theorem mem_collect_cons : d ∈ collect limit (d :: found) := by
  rw [collect, Bag.mem_finish_iff, Bag.items_extend_empty]
  split
  · next limited =>
      obtain ⟨n, count⟩ : ∃ n, limit.toNat = n + 1 := ⟨limit.toNat - 1, by omega⟩
      rw [count, List.take_succ_cons, List.find?_cons_of_pos (by simp)]
  · rw [List.find?_cons_of_pos (by simp)]

end Check

/-! ## Cleaning up

A bag is filled, sorted and freed of repetitions in any order of these. It never holds more than its limit allows.
Freeing it of repetitions keeps the first diagnostic of each code, span and message and moves none, although it compares
texts. Sorting is stable, so what no rule of the order decides stays as it was found. Both together leave nothing for a
second time.
-/

namespace Diagnostic

/-- What a diagnostic shares with those that repeat it. -/
structure Subject where
  code : Code
  span : Span
  message : Bytes
  deriving DecidableEq

def subject (d : Diagnostic) : Subject := ⟨d.code, d.span, d.message⟩

theorem key_eq_iff {a b : Diagnostic} : a.key = b.key ↔ a.subject = b.subject := by
  constructor
  · intro same
    obtain ⟨code, span, message⟩ := key_inj same
    simp [subject, code, span, message]
  · intro same
    obtain ⟨code, span, message⟩ : a.code = b.code ∧ a.span = b.span ∧ a.message = b.message := by
      simpa [subject] using same
    rw [key, key, code, span, message]

/-- None of the first `i` diagnostics has the subject of this one. -/
def IsFirst (found : List Diagnostic) (d : Diagnostic) (i : Nat) : Prop := ∀ e ∈ found.take i, e.subject ≠ d.subject

instance (found : List Diagnostic) (d : Diagnostic) (i : Nat) : Decidable (IsFirst found d i) :=
  inferInstanceAs (Decidable (∀ e ∈ found.take i, e.subject ≠ d.subject))

/-- The diagnostics whose subject no earlier one has, in their order. -/
def firsts (found : List Diagnostic) : List Diagnostic :=
  (found.zipIdx.filter fun entry => decide (IsFirst found entry.1 entry.2)).map (·.1)

/-- The same diagnostics in the order of their places, where those of one place keep their order. -/
structure StablySorted (found sorted : List Diagnostic) : Prop where
  perm : sorted.Perm found
  inOrder : InOrder sorted
  stable : ∀ p, sorted.filter (·.place = p) = found.filter (·.place = p)

theorem firsts_concat (found : List Diagnostic) (d : Diagnostic) :
    firsts (found ++ [d]) = firsts found ++ if d.subject ∈ found.map subject then [] else [d] := by
  have earlier : found.zipIdx.filter (fun entry => decide (IsFirst (found ++ [d]) entry.1 entry.2)) =
      found.zipIdx.filter (fun entry => decide (IsFirst found entry.1 entry.2)) := by
    apply List.filter_congr
    rintro ⟨e, i⟩ member
    have inside : i < found.length := by simpa using (List.mem_zipIdx member).2.1
    apply decide_eq_decide.mpr
    rw [IsFirst, List.take_append_of_le_length (Nat.le_of_lt inside), IsFirst]
  have last : [d].zipIdx (0 + found.length) = [(d, found.length)] := by simp
  rw [firsts, List.zipIdx_append, List.filter_append, List.map_append, earlier, ← firsts, last]
  congr 1
  by_cases known : d.subject ∈ found.map subject
  · have repeats : ¬ IsFirst (found ++ [d]) d found.length := by
      rw [IsFirst, List.take_left]
      simpa using known
    rw [if_pos known, List.filter_cons_of_neg (by simpa using repeats)]
    rfl
  · have fresh : IsFirst (found ++ [d]) d found.length := by
      rw [IsFirst, List.take_left]
      simpa using known
    rw [if_neg known, List.filter_cons_of_pos (by simpa using fresh)]
    rfl

theorem stablySorted_mergeSort (found : List Diagnostic) : StablySorted found (found.mergeSort le) := by
  have perm := List.mergeSort_perm found le
  refine ⟨perm, inOrder_mergeSort found, fun p => ?_⟩
  -- those of one place are in order already, so that they come out as they stood
  have alike : (found.filter (·.place = p)).Pairwise (le · ·) := by
    apply List.pairwise_of_forall_mem_list
    intro a first b second
    have first : a.place = p := by simpa using (List.mem_filter.mp first).2
    have second : b.place = p := by simpa using (List.mem_filter.mp second).2
    exact le_iff.mpr (Std.le_of_eq (first.trans second.symm))
  have kept := List.sublist_mergeSort le_trans le_total alike List.filter_sublist
  have within := kept.filter (fun d => decide (d.place = p))
  rw [List.filter_filter] at within
  simp only [Bool.and_self] at within
  exact (within.eq_of_length (perm.filter _).length_eq.symm).symm

end Diagnostic

namespace Bag

open Diagnostic (subject firsts StablySorted)

variable {seen : List Bytes} {found : List Diagnostic} {b : Bag}

theorem firstOfEach_concat (seen : List Bytes) (found : List Diagnostic) (d : Diagnostic) :
    firstOfEach seen (found ++ [d]) =
      firstOfEach seen found ++ if d.key ∈ seen ∨ d.key ∈ found.map Diagnostic.key then [] else [d] := by
  fun_induction firstOfEach seen found with
  | case1 seen => simp [firstOfEach]
  | case2 seen e rest known ih =>
      have before : e.key ∈ seen := by simpa using known
      have same : d.key ∈ seen ∨ d.key ∈ (e :: rest).map Diagnostic.key ↔
          d.key ∈ seen ∨ d.key ∈ rest.map Diagnostic.key := by
        rw [List.map_cons, List.mem_cons]
        constructor
        · rintro (old | same | later)
          · exact .inl old
          · exact .inl (same ▸ before)
          · exact .inr later
        · rintro (old | later)
          · exact .inl old
          · exact .inr (.inr later)
      rw [List.cons_append, firstOfEach, if_pos known, ih, if_congr same rfl rfl]
  | case3 seen e rest fresh ih =>
      have same : d.key ∈ seen ∨ d.key ∈ (e :: rest).map Diagnostic.key ↔
          d.key ∈ e.key :: seen ∨ d.key ∈ rest.map Diagnostic.key := by
        simp only [List.map_cons, List.mem_cons]
        rw [← or_assoc, or_comm (a := d.key ∈ seen)]
      rw [List.cons_append, firstOfEach, if_neg fresh, ih, if_congr same rfl rfl, List.cons_append]

/-- The diagnostics that are kept are the first ones of their subjects, because keys tell subjects apart. -/
theorem items_dedup (b : Bag) : b.dedup.items = firsts b.items := by
  change firstOfEach [] b.items = firsts b.items
  generalize b.items = found
  induction found using List.reverseRecOn with
  | nil => rfl
  | append_singleton found d ih =>
      have same : d.key ∈ found.map Diagnostic.key ↔ d.subject ∈ found.map subject := by
        simp only [List.mem_map, Diagnostic.key_eq_iff]
      rw [firstOfEach_concat, Diagnostic.firsts_concat, ih]
      simp only [List.not_mem_nil, false_or, same]

theorem firstOfEach_of_nodup (once : (found.map Diagnostic.key).Nodup) (fresh : ∀ d ∈ found, d.key ∉ seen) :
    firstOfEach seen found = found := by
  fun_induction firstOfEach seen found with
  | case1 seen => rfl
  | case2 seen e rest known ih => exact absurd (by simpa using known) (fresh e List.mem_cons_self)
  | case3 seen e rest new ih =>
      obtain ⟨other, once⟩ := List.nodup_cons.mp once
      congr 1
      apply ih once
      intro d member again
      cases List.mem_cons.mp again with
      | inl same => exact other (List.mem_map.mpr ⟨d, member, same⟩)
      | inr before => exact fresh d (List.mem_cons_of_mem e member) before

/-- Freed of repetitions and sorted, a bag stays as it is. -/
theorem dedup_sort_dedup_sort (b : Bag) : b.dedup.sort.dedup.sort = b.dedup.sort := by
  have once : (b.dedup.sort.items.map Diagnostic.key).Nodup := by
    have perm := (List.mergeSort_perm b.dedup.items Diagnostic.le).map Diagnostic.key
    exact perm.nodup_iff.mpr (nodup_key_firstOfEach [] b.items)
  have kept : b.dedup.sort.dedup = b.dedup.sort := by
    rw [dedup, firstOfEach_of_nodup once (by simp)]
  have inOrder := List.pairwise_mergeSort Diagnostic.le_trans Diagnostic.le_total b.dedup.items
  rw [kept, sort, sort, List.mergeSort_of_pairwise inOrder]

/-- What is done to a bag. -/
inductive Operation
  | add (d : Diagnostic)
  | extend (found : List Diagnostic)
  | sort
  | dedup
  deriving DecidableEq

def apply (b : Bag) : Operation → Bag
  | .add d => (b.add d).2
  | .extend found => b.extend found
  | .sort => b.sort
  | .dedup => b.dedup

/-- The bag after operations, one after the other. -/
def after (b : Bag) (operations : List Operation) : Bag := operations.foldl apply b

theorem limit_extend (b : Bag) (found : List Diagnostic) : (b.extend found).limit = b.limit := by
  fun_induction extend b found with
  | case1 b => rfl
  | case2 b e rest full => rfl
  | case3 b e rest room ih => rw [ih, add, if_neg room]

theorem limit_apply (b : Bag) (o : Operation) : (b.apply o).limit = b.limit := by
  cases o with
  | add d =>
      change (b.add d).2.limit = b.limit
      unfold add
      split <;> rfl
  | extend found => exact limit_extend b found
  | sort => rfl
  | dedup => rfl

/-- The bag holds no more than its limit allows, if it has one. -/
def Fits (b : Bag) : Prop := 0 < b.limit → (b.items.length : Int) ≤ b.limit

theorem Fits.apply (fits : b.Fits) (o : Operation) : (b.apply o).Fits := by
  intro limited
  rw [limit_apply] at limited ⊢
  have fits := fits limited
  cases o with
  | add d =>
      change ((b.add d).2.items.length : Int) ≤ b.limit
      unfold add
      split
      · exact fits
      · rename_i room
        simp [isFull, limited] at room
        simp only [List.length_append, List.length_singleton]
        omega
  | extend found =>
      change ((b.extend found).items.length : Int) ≤ b.limit
      rw [items_extend_of_limit limited, List.length_append, List.length_take]
      omega
  | sort =>
      change ((b.items.mergeSort Diagnostic.le).length : Int) ≤ b.limit
      rwa [List.length_mergeSort]
  | dedup =>
      have fewer : (firstOfEach [] b.items).length ≤ b.items.length := firstOfEach_sublist.length_le
      change ((firstOfEach [] b.items).length : Int) ≤ b.limit
      omega

theorem Fits.after (fits : b.Fits) (operations : List Operation) : (b.after operations).Fits := by
  induction operations generalizing b with
  | nil => exact fits
  | cons o operations ih => exact ih (fits.apply o)

theorem limit_after (b : Bag) (operations : List Operation) : (b.after operations).limit = b.limit := by
  induction operations generalizing b with
  | nil => rfl
  | cons o operations ih => exact (ih (b := b.apply o)).trans (limit_apply b o)

/-- Whatever was done to a bag: a positive limit holds; without its repetitions it has the first diagnostic of each code,
span and message, and their keys differ exactly if these do; sorted, it is in the order of start, end, severity, worse
ones first, and code, and stable; and without repetitions and sorted, it stays as it is when both are done again. -/
theorem clean_up_keeps_representatives (limit : Int) (operations : List Operation) :
    let b := (empty limit).after operations
    (0 < limit → (b.items.length : Int) ≤ limit) ∧
    b.dedup.items = firsts b.items ∧ (∀ d e : Diagnostic, d.key = e.key ↔ d.subject = e.subject) ∧
    StablySorted b.items b.sort.items ∧
    b.dedup.sort.dedup.sort = b.dedup.sort := by
  intro b
  refine ⟨?_, items_dedup b, fun d e => Diagnostic.key_eq_iff, Diagnostic.stablySorted_mergeSort b.items,
    dedup_sort_dedup_sort b⟩
  have none : (empty limit).Fits := fun limited => Int.le_of_lt limited
  have fits : b.Fits := none.after operations
  rwa [Fits, limit_after] at fits

/-- Two diagnostics of one place, whose messages begin with digits too, a repetition and one that does not fit. -/
theorem clean_up_keeps_representatives_full :
    let first := Diagnostic.error ⟨7⟩ ⟨1, 2⟩ (utf8 "3:m")
    let other := Diagnostic.error ⟨7⟩ ⟨1, 2⟩ (utf8 "3:3:m")
    let ahead := Diagnostic.warning ⟨7⟩ ⟨0, 2⟩ (utf8 "3:m")
    let filling : List Operation := [.extend [first, first, ahead], .dedup, .extend [other, ahead]]
    let b := (empty 2).after (filling ++ [.sort])
    (0 : Int) < 2 ∧ (b.items.length : Int) ≤ 2 ∧ b.items = [first, other] ∧ b.dedup.items = firsts b.items := by
  intro first other ahead filling b
  have kept := clean_up_keeps_representatives 2 (filling ++ [.sort])
  have filled : ((empty 2).after filling).items = [first, other] := by decide
  have inOrder : [first, other].Pairwise (Diagnostic.le · ·) := by decide
  have last : b = ((empty 2).after filling).sort := List.foldl_concat ..
  have sorted : b.items = [first, other] := by
    rw [last, sort, filled, List.mergeSort_of_pairwise inOrder]
  exact ⟨by decide, kept.1 (by decide), sorted, kept.2.1⟩

end Bag

end Colloquy
