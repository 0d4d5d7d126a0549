import Colloquy.Proofs.Text.Boundary
import Colloquy.Text.Width

/-! # Width of clusters

A text is read in pieces: a byte that announces a character, with the bytes behind it that continue one. A piece stands
by itself, so that nothing behind it changes what it is. `Width.cells` counts the cells of a text from piece to piece,
with the cells of the cluster that is open; it is what the clusters of the text take together.
-/

namespace Colloquy

open Bytes

/-! ## Pieces -/

namespace Grapheme

/-- How many bytes the character has that a byte announces. -/
def announced (lead : UInt8) : Nat :=
  if lead < 0xC2 then 1 else if lead < 0xE0 then 2 else if lead < 0xF0 then 3 else if lead < 0xF8 then 4 else 1

/-- A byte and what continues it, in front of `tail`. -/
structure Piece (lead : UInt8) (more tail : Bytes) : Prop where
  enough : announced lead ≤ (more ++ tail).length + 1
  short : more.length + 1 ≤ announced lead
  continued : ∀ b ∈ more, Rune.isContinuation b = true
  stopped : more.length + 1 < announced lead → ∀ b ∈ tail.head?, Rune.isContinuation b = false

variable {lead : UInt8} {more tail rest : Bytes}

theorem announced_pos (lead : UInt8) : 0 < announced lead := by
  unfold announced
  repeat' split
  all_goals decide

theorem announced_le (lead : UInt8) : announced lead ≤ 4 := by
  unfold announced
  repeat' split
  all_goals decide

theorem announced_ascii (ascii : lead < 0x80) : announced lead = 1 := by
  rw [announced, if_pos (UInt8.lt_trans ascii (by decide))]

theorem announced_sequence {code : Nat} (seq : Rune.Sequence lead more code) : announced lead = more.length + 1 := by
  cases seq with
  | one ascii => exact announced_ascii ascii
  | two lo hi h₁ =>
      simp only [announced, UInt8.lt_iff_toNat_lt, UInt8.le_iff_toNat_le, UInt8.reduceToNat] at lo hi ⊢
      rw [if_neg (by omega), if_pos (by omega)]
      rfl
  | three lo hi h₁ h₂ =>
      simp only [announced, UInt8.lt_iff_toNat_lt, UInt8.le_iff_toNat_le, UInt8.reduceToNat] at lo hi ⊢
      rw [if_neg (by omega), if_neg (by omega), if_pos (by omega)]
      rfl
  | four lo hi h₁ h₂ h₃ =>
      simp only [announced, UInt8.lt_iff_toNat_lt, UInt8.le_iff_toNat_le, UInt8.reduceToNat] at lo hi ⊢
      rw [if_neg (by omega), if_neg (by omega), if_neg (by omega), if_pos (by omega)]
      rfl

theorem unitWidth?_eq (lead : UInt8) (rest : Bytes) :
    unitWidth? lead rest = if rest.length + 1 < announced lead then none
      else some (1 + ((rest.take (announced lead - 1)).takeWhile Rune.isContinuation).length) := rfl

theorem Piece.unitWidth? (piece : Piece lead more tail) : unitWidth? lead (more ++ tail) = some (more.length + 1) := by
  obtain ⟨enough, short, continued, stopped⟩ := piece
  rw [unitWidth?_eq, if_neg (Nat.not_lt.mpr enough)]
  have front : ((more ++ tail).take (announced lead - 1)).takeWhile Rune.isContinuation = more := by
    rw [List.take_append, List.take_of_length_le (by omega), List.takeWhile_append_of_pos continued]
    by_cases room : more.length + 1 < announced lead
    · cases tail with
      | nil => simp
      | cons b tail =>
          have stop := stopped room b rfl
          obtain ⟨k, more'⟩ : ∃ k, announced lead - 1 - more.length = k + 1 := ⟨_, (Nat.sub_add_cancel (by omega)).symm⟩
          rw [more', List.take_succ_cons, List.takeWhile_cons_of_neg (by simp [stop]), List.append_nil]
    · rw [show announced lead - 1 - more.length = 0 by omega, List.take_zero, List.takeWhile_nil, List.append_nil]
  rw [front, Nat.add_comm]

theorem exists_continued (n : Nat) (rest : Bytes) :
    ∃ more tail, rest = more ++ tail ∧ more.length ≤ n ∧ (∀ b ∈ more, Rune.isContinuation b = true) ∧
      (more.length < n → ∀ b ∈ tail.head?, Rune.isContinuation b = false) := by
  induction n generalizing rest with
  | zero => exact ⟨[], rest, rfl, Nat.le_refl 0, nofun, nofun⟩
  | succ n ih =>
      cases rest with
      | nil => exact ⟨[], [], rfl, Nat.zero_le _, nofun, nofun⟩
      | cons b rest =>
          cases own : Rune.isContinuation b with
          | true =>
              obtain ⟨more, tail, rfl, short, continued, stopped⟩ := ih rest
              refine ⟨b :: more, tail, rfl, Nat.succ_le_succ short, ?_, ?_⟩
              · exact List.forall_mem_cons.mpr ⟨own, continued⟩
              · exact fun room => stopped (Nat.lt_of_succ_lt_succ room)
          | false => exact ⟨[], b :: rest, rfl, Nat.zero_le _, nofun, fun _ c head => Option.some.inj head ▸ own⟩

/-- A text starts with a piece if it is long enough for the character that its first byte announces. -/
theorem exists_piece (enough : announced lead ≤ rest.length + 1) :
    ∃ more tail, rest = more ++ tail ∧ Piece lead more tail := by
  obtain ⟨more, tail, rfl, short, continued, stopped⟩ := exists_continued (announced lead - 1) rest
  have pos := announced_pos lead
  exact ⟨more, tail, rfl, enough, by omega, continued, fun room => stopped (by omega)⟩

theorem pieceInduction {motive : Bytes → Prop} (nil : motive [])
    (cut : ∀ lead rest, rest.length + 1 < announced lead → motive (lead :: rest))
    (piece : ∀ lead more tail, Piece lead more tail → motive tail → motive (lead :: (more ++ tail))) (t : Bytes) :
    motive t := by
  match t with
  | [] => exact nil
  | lead :: rest =>
      by_cases enough : announced lead ≤ rest.length + 1
      · obtain ⟨more, tail, split, here⟩ := exists_piece enough
        have shorter : tail.length < (lead :: rest).length := by
          rw [split, List.length_cons, List.length_append]
          omega
        rw [split]
        exact piece lead more tail here (pieceInduction nil cut piece tail)
      · exact cut lead rest (Nat.not_le.mp enough)
termination_by t.length

theorem piece_ascii (ascii : lead < 0x80) (tail : Bytes) : Piece lead [] tail := by
  have one := announced_ascii ascii
  refine ⟨?_, Nat.le_of_eq one.symm, nofun, fun room => absurd one (Nat.ne_of_gt room)⟩
  rw [one]
  exact Nat.le_add_left _ _

theorem piece_sequence {code : Nat} (seq : Rune.Sequence lead more code) (tail : Bytes) : Piece lead more tail := by
  have own := announced_sequence seq
  refine ⟨?_, Nat.le_of_eq own.symm, ?_, fun room => absurd own (Nat.ne_of_gt room)⟩
  · rw [own, List.length_append]
    omega
  · intro b member
    obtain ⟨low, high⟩ := seq.continued b member
    simp only [Rune.isContinuation, Bool.and_eq_true, decide_eq_true_iff, UInt8.le_iff_toNat_le]
    exact ⟨low, high⟩

/-- A character that the text behind a byte completes is the whole piece. -/
theorem Piece.eq_of_sequence (piece : Piece lead more tail) {more' tail' : Bytes} {code : Nat}
    (split : more ++ tail = more' ++ tail') (seq : Rune.Sequence lead more' code) : more = more' := by
  have own := announced_sequence seq
  have short : more.length ≤ more'.length := by
    have short := piece.short
    omega
  obtain ⟨left, rfl⟩ : more <+: more' := List.prefix_of_prefix_length_le ⟨tail, split⟩ ⟨tail', rfl⟩ short
  cases left with
  | nil => exact (List.append_nil more).symm
  | cons b left =>
      have room : more.length + 1 < announced lead := by
        rw [own, List.length_append, List.length_cons]
        omega
      have behind : tail.head? = some b := by
        rw [List.append_assoc] at split
        rw [List.append_cancel_left split]
        rfl
      have goesOn := (piece_sequence seq []).continued b (by simp)
      rw [piece.stopped room b behind] at goesOn
      cases goesOn

/-- What a piece is does not depend on what stands behind it. -/
theorem Piece.decode (piece : Piece lead more tail) : Rune.decode lead (more ++ tail) = Rune.decode lead more := by
  obtain ⟨more', tail', code, split, seq⟩ | alone := Rune.sequence_or_invalid lead (more ++ tail)
  · obtain rfl := piece.eq_of_sequence split seq
    rw [seq.decode_append, ← List.append_nil more, seq.decode_append, List.append_nil]
  · obtain ⟨more', tail', code, rfl, seq⟩ | alone' := Rune.sequence_or_invalid lead more
    · rw [List.append_assoc, seq.decode_append, seq.decode_append]
    · rw [alone, alone']

theorem decode_continuation {b : UInt8} (continues : Rune.isContinuation b = true) (rest : Bytes) :
    Rune.decode b rest = Rune.invalid := by
  obtain ⟨low, high⟩ := Rune.isContinuation_bounds continues
  obtain ⟨more, tail, code, rfl, seq⟩ | alone := Rune.sequence_or_invalid b rest
  · cases seq with
    | one ascii =>
        simp only [UInt8.lt_iff_toNat_lt, UInt8.reduceToNat] at ascii
        omega
    | two lo hi h₁ | three lo hi h₁ h₂ | four lo hi h₁ h₂ h₃ =>
        simp only [UInt8.le_iff_toNat_le, UInt8.reduceToNat] at lo
        omega
  · exact alone

theorem boundary_continued (continued : ∀ b ∈ more, Rune.isContinuation b = true) (tail : Bytes) :
    Boundary (more ++ tail) more.length := by
  induction more with
  | nil => exact .zero
  | cons b more ih =>
      obtain ⟨own, others⟩ := List.forall_mem_cons.mp continued
      rw [List.cons_append]
      refine boundary_cons.mpr (.inr ⟨more.length, ?_, ?_⟩)
      · rw [decode_continuation own]
        exact Nat.add_comm _ _
      · rw [decode_continuation own]
        exact ih others

/-- No rune reaches from a piece into what stands behind it. -/
theorem Piece.boundary (piece : Piece lead more tail) : Boundary (lead :: (more ++ tail)) (more.length + 1) := by
  obtain ⟨more', tail', code, split, seq⟩ | alone := Rune.sequence_or_invalid lead (more ++ tail)
  · obtain rfl := piece.eq_of_sequence split seq
    exact boundary_cons.mpr (.inr ⟨0, by rw [seq.decode_append], .zero⟩)
  · refine boundary_cons.mpr (.inr ⟨more.length, ?_, ?_⟩)
    · rw [alone]
      exact Nat.add_comm _ _
    · rw [alone]
      exact boundary_continued piece.continued tail

end Grapheme

/-! ## Cells -/

namespace Width

open Grapheme

variable {s : State} {lead : UInt8} {more tail rest : Bytes}

theorem ofCode_le (code : Nat) : ofCode code ≤ 2 := by
  unfold ofCode
  repeat' split
  all_goals decide

theorem ofCluster_le (cluster : Bytes) : ofCluster cluster ≤ 2 := by
  unfold ofCluster
  cases found : ((codes cluster).map ofCode).find? (0 < ·) with
  | none => exact Nat.zero_le 2
  | some w =>
      obtain ⟨code, -, rfl⟩ := List.mem_map.mp (List.mem_of_find?_eq_some found)
      exact ofCode_le code

/-- The cells of a cluster of `w` cells with a piece of `u` cells behind it. -/
def widen (w u : Nat) : Nat := if w = 0 then u else w

theorem le_widen (w u : Nat) : w ≤ widen w u := by
  unfold widen
  split <;> omega

theorem widen_le {w u : Nat} (first : w ≤ 2) (second : u ≤ 2) : widen w u ≤ 2 := by
  unfold widen
  split <;> assumption

theorem ofCluster_append {front back : Bytes} (apart : Boundary (front ++ back) front.length) :
    ofCluster (front ++ back) = widen (ofCluster front) (ofCluster back) := by
  have split : codes (front ++ back) = codes front ++ codes back := by
    rw [codes, runes_boundary apart, List.take_left, List.drop_left, List.map_append]
    rfl
  rw [ofCluster, split, List.map_append, List.find?_append, widen]
  cases found : ((codes front).map ofCode).find? (0 < ·) with
  | none => rw [ofCluster, found, Option.none_or, Option.getD_none, if_pos rfl, ofCluster]
  | some w =>
      have some : 0 < w := by simpa using List.find?_some found
      rw [ofCluster, found, Option.some_or, Option.getD_some, if_neg (Nat.ne_of_gt some)]

/-- The cells of a text behind an open cluster of `w` cells; `skip` bytes belong to a piece already counted. -/
def cellsFrom (s : State) (w : Nat) : (skip : Nat) → Bytes → Nat
  | _, [] => w
  | skip + 1, _ :: rest => cellsFrom s w skip rest
  | 0, lead :: rest =>
    match unitWidth? lead rest with
    | none => widen w (ofCluster (lead :: rest))
    | some width =>
      let c := unitClass lead rest
      let u := ofCluster (lead :: rest.take (width - 1))
      if s.joins c then cellsFrom (s.next c) (widen w u) (width - 1) rest
      else w + cellsFrom (.start c) u (width - 1) rest

def cells (s : State) (w : Nat) (t : Bytes) : Nat := cellsFrom s w 0 t

theorem cellsFrom_skip (s : State) (w : Nat) (more tail : Bytes) :
    cellsFrom s w more.length (more ++ tail) = cells s w tail := by
  induction more with
  | nil => rfl
  | cons b more ih => exact ih

theorem cells_cut (w : Nat) (cut : rest.length + 1 < announced lead) :
    cells s w (lead :: rest) = widen w (ofCluster (lead :: rest)) := by
  rw [cells, cellsFrom, unitWidth?_eq, if_pos cut]

theorem unitClass_piece (piece : Piece lead more tail) : unitClass lead (more ++ tail) = unitClass lead more := by
  rw [unitClass, unitClass, piece.decode]

theorem cells_piece (w : Nat) (piece : Piece lead more tail) :
    cells s w (lead :: (more ++ tail)) = if s.joins (unitClass lead more)
      then cells (s.next (unitClass lead more)) (widen w (ofCluster (lead :: more))) tail
      else w + cells (.start (unitClass lead more)) (ofCluster (lead :: more)) tail := by
  rw [cells, cellsFrom, piece.unitWidth?]
  simp only [Nat.add_sub_cancel, List.take_left, unitClass_piece piece, cellsFrom_skip]

theorem cells_ascii (w : Nat) (ascii : lead < 0x80) (t : Bytes) :
    cells s w (lead :: t) = if s.joins (unitClass lead [])
      then cells (s.next (unitClass lead [])) (widen w (ofCluster [lead])) t
      else w + cells (.start (unitClass lead [])) (ofCluster [lead]) t :=
  cells_piece w (piece_ascii ascii t)

theorem clustersFrom_skip (s : State) (cluster more tail : Bytes) :
    clustersFrom s cluster more.length (more ++ tail) = clustersFrom s (more.reverse ++ cluster) 0 tail := by
  induction more generalizing cluster with
  | nil => rfl
  | cons b more ih =>
      rw [List.reverse_cons, List.append_assoc]
      exact ih (b :: cluster)

theorem boundary_alone (piece : Piece lead more tail) :
    Boundary ((more.reverse ++ [lead]).reverse ++ tail) (more.reverse ++ [lead]).reverse.length := by
  rw [List.reverse_append, List.reverse_reverse]
  exact piece.boundary

/-- The clusters of a text take the cells that are counted from piece to piece. -/
theorem total_clustersFrom (t : Bytes) : ∀ (s : State) (cluster : Bytes),
    Boundary (cluster.reverse ++ t) cluster.reverse.length →
      total ((clustersFrom s cluster 0 t).map ofCluster) = cells s (ofCluster cluster.reverse) t := by
  induction t using pieceInduction with
  | nil =>
      intro s cluster _
      exact Nat.add_zero _
  | cut lead rest cut =>
      intro s cluster apart
      rw [cells_cut _ cut, ← ofCluster_append apart, clustersFrom, unitWidth?_eq, if_pos cut]
      exact Nat.add_zero _
  | piece lead more tail piece ih =>
      intro s cluster apart
      have own : Boundary (cluster.reverse ++ lead :: more) cluster.reverse.length := by
        have front := apart.take (m := cluster.reverse.length + (more.length + 1)) (Nat.le_add_right _ _)
        rwa [List.take_length_add_append, List.take_succ_cons, List.take_left] at front
      have next : Boundary (cluster.reverse ++ lead :: (more ++ tail))
          (cluster.reverse.length + (more.length + 1)) := by
        apply apart.add
        rw [List.drop_left]
        exact piece.boundary
      have joined : (more.reverse ++ lead :: cluster).reverse = cluster.reverse ++ lead :: more := by simp
      rw [cells_piece _ piece, clustersFrom, piece.unitWidth?]
      simp only [Nat.add_sub_cancel, unitClass_piece piece, clustersFrom_skip]
      split
      · rw [ih, joined, ofCluster_append own]
        rw [joined, List.append_assoc, List.length_append]
        exact next
      · rw [List.map_cons, total, ih _ _ (boundary_alone piece), List.reverse_append, List.reverse_reverse]
        rfl

theorem joins_control (c : GraphemeClass) : (State.start .control).joins c = false := by
  cases c <;> rfl

/-- The cells of a text, as behind a control, which nothing joins. -/
theorem ofText_eq (t : Bytes) : ofText t = cells (.start .control) 0 t := by
  cases t with
  | nil => rfl
  | cons lead rest =>
      rw [ofText, clusters]
      by_cases enough : announced lead ≤ rest.length + 1
      · obtain ⟨more, tail, rfl, piece⟩ := exists_piece enough
        rw [piece.unitWidth?, cells_piece _ piece, joins_control, if_neg Bool.false_ne_true, Nat.zero_add]
        simp only [Nat.add_sub_cancel, unitClass_piece piece, clustersFrom_skip]
        rw [total_clustersFrom _ _ _ (boundary_alone piece), List.reverse_append, List.reverse_reverse]
        rfl
      · rw [unitWidth?_eq, if_pos (Nat.not_le.mp enough), cells_cut _ (Nat.not_le.mp enough)]
        exact Nat.add_zero _

/-! ## Bounds -/

theorem le_cells (t : Bytes) : ∀ (s : State) (w : Nat), w ≤ cells s w t := by
  induction t using pieceInduction with
  | nil => exact fun _ w => Nat.le_refl w
  | cut lead rest cut =>
      intro s w
      rw [cells_cut w cut]
      exact le_widen w _
  | piece lead more tail piece ih =>
      intro s w
      rw [cells_piece w piece]
      split
      · exact Nat.le_trans (le_widen w _) (ih _ _)
      · exact Nat.le_add_right w _

/-- A cluster that is open already gets at most one cell more when it is closed later. -/
theorem cells_le_succ (t : Bytes) : ∀ (s : State) {w : Nat}, w ≤ 2 → cells s w t ≤ cells s 1 t + 1 := by
  induction t using pieceInduction with
  | nil => exact fun _ _ small => small
  | cut lead rest cut =>
      intro s w small
      rw [cells_cut w cut, cells_cut 1 cut]
      exact widen_le small (ofCluster_le _)
  | piece lead more tail piece ih =>
      intro s w small
      rw [cells_piece w piece, cells_piece 1 piece]
      split
      · exact ih _ (widen_le small (ofCluster_le _))
      · omega

theorem joins_return (s : State) : s.joins .carriageReturn = false := by
  unfold State.joins
  cases s.last <;> rfl

theorem joins_tab (s : State) : s.joins .control = false := by
  unfold State.joins
  cases s.last <;> rfl

theorem cells_tab (w : Nat) (t : Bytes) : cells s w (tab :: t) = w + cells (.start .control) 0 t := by
  have own : unitClass tab [] = .control ∧ ofCluster [tab] = 0 := by decide
  rw [cells_ascii w (by decide), own.1, own.2, joins_tab, if_neg Bool.false_ne_true]

theorem next_of_joins_other {c : GraphemeClass} (joins : (State.start .other).joins c = true) :
    (State.start .other).next c = .start c := by
  cases c with
  | extend | joiner | spacingMark => rfl
  | _ => cases joins

/-- What may join a space in front of it adds at most two cells without it. -/
theorem cells_control_le (t : Bytes) : cells (.start .control) 0 t ≤ cells (.start .other) 1 t + 1 := by
  cases t with
  | nil => exact Nat.zero_le _
  | cons lead rest =>
      by_cases enough : announced lead ≤ rest.length + 1
      · obtain ⟨more, tail, rfl, piece⟩ := exists_piece enough
        rw [cells_piece 0 piece, cells_piece 1 piece, joins_control, if_neg Bool.false_ne_true]
        split
        · rename_i joins
          rw [next_of_joins_other joins, Nat.zero_add]
          exact cells_le_succ tail _ (ofCluster_le _)
        · omega
      · have cut := Nat.not_le.mp enough
        rw [cells_cut 0 cut, cells_cut 1 cut]
        exact ofCluster_le _

theorem cells_returns (w n : Nat) : cells s w (List.replicate n cr) = w := by
  induction n generalizing s w with
  | zero => rfl
  | succ n ih =>
      have own : unitClass cr [] = .carriageReturn ∧ ofCluster [cr] = 0 := by decide
      rw [List.replicate_succ, cells_ascii w (by decide), own.1, own.2, joins_return, if_neg Bool.false_ne_true, ih,
        Nat.add_zero]

/-- Carriage returns behind whole characters take no cell. -/
theorem cells_append_returns {t : Bytes} {codes : List Nat} (spells : Spells t codes) (n : Nat) :
    ∀ (s : State) (w : Nat), cells s w (t ++ List.replicate n cr) = cells s w t := by
  induction spells with
  | nil => exact fun _ w => cells_returns w n
  | cons seq _ ih =>
      intro s w
      rw [List.cons_append, List.append_assoc, cells_piece w (piece_sequence seq _),
        cells_piece w (piece_sequence seq _)]
      simp only [ih]

theorem ofText_append_returns {t : Bytes} (valid : isUtf8 t = true) (n : Nat) :
    ofText (t ++ List.replicate n cr) = ofText t := by
  rw [ofText_eq, ofText_eq, cells_append_returns (spells_codes valid)]

theorem cells_space (w : Nat) (t : Bytes) : cells s w (space :: t) = if s.joins .other
    then cells (.start .other) (widen w 1) t else w + cells (.start .other) 1 t := by
  have own : unitClass space [] = .other ∧ ofCluster [space] = 1 := by decide
  rw [cells_ascii w (by decide), own.1, own.2]
  rfl

/-- Four spaces take three cells at least; the first of them may join what stands before it. -/
theorem le_cells_spaces (w : Nat) (t : Bytes) :
    w + 2 + cells (.start .other) 1 t ≤ cells s w (List.replicate 4 space ++ t) := by
  have apart : (State.start .other).joins .other = false := rfl
  have three (w : Nat) :
      cells (.start .other) w (List.replicate 3 space ++ t) = w + (1 + (1 + cells (.start .other) 1 t)) := by
    simp only [List.replicate, List.cons_append, List.nil_append, cells_space, apart, Bool.false_eq_true, if_false]
  rw [List.replicate_succ, List.cons_append, cells_space, three, three]
  have wider := le_widen w 1
  split <;> omega

/-- A text with four spaces somewhere in it takes three cells more than the cluster before it. -/
theorem add_three_le_cells (front back : Bytes) (s : State) (w : Nat) :
    w + 3 ≤ cells s w (front ++ (List.replicate 4 space ++ back)) := by
  match front with
  | [] =>
      have behind := le_cells back (.start .other) 1
      have first := le_cells_spaces (s := s) w back
      rw [List.nil_append]
      omega
  | lead :: rest =>
      have enough : announced lead ≤ (rest ++ (List.replicate 4 space ++ back)).length + 1 := by
        have most := announced_le lead
        simp only [List.length_append, List.length_replicate]
        omega
      obtain ⟨more, tail, split, piece⟩ := exists_piece enough
      -- no space continues a character, so the piece ends before the spaces
      obtain ⟨left, rfl, rfl⟩ : ∃ left, rest = more ++ left ∧ tail = left ++ (List.replicate 4 space ++ back) := by
        obtain ⟨extra, rfl, behind⟩ | ⟨left, front, behind⟩ := List.append_eq_append_iff.mp split
        · cases extra with
          | nil => exact ⟨[], by simp, behind.symm⟩
          | cons b extra =>
              obtain ⟨rfl, -⟩ := List.cons.inj behind
              have stop : Rune.isContinuation space = false := by decide
              rw [piece.continued space (by simp)] at stop
              cases stop
        · exact ⟨left, front, behind⟩
      rw [List.cons_append, List.append_assoc, cells_piece w piece]
      have shorter : left.length < (lead :: (more ++ left)).length := by
        rw [List.length_cons, List.length_append]
        omega
      split
      · have behind := add_three_le_cells left back (s.next (unitClass lead more)) (widen w (ofCluster (lead :: more)))
        have wider := le_widen w (ofCluster (lead :: more))
        omega
      · have behind := add_three_le_cells left back (.start (unitClass lead more)) (ofCluster (lead :: more))
        omega
termination_by front.length

end Width

end Colloquy
