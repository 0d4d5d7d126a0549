import Colloquy.Proofs.Expansion.Recursion

/-! # Expansion replaces directives and keeps the rest

The expansion of a text is the text itself with a piece in the place of each outermost directive. A directive that
invokes something becomes what invoking it alone gives; another one stays, with its contents expanded as a text of
their own. `Spliced` relates two texts that agree outside the directives. The first piece that fails is the fault
of the whole.
-/

namespace Colloquy

theorem Bytes.drop_eq_slice_append {t : Bytes} {start stop : Nat} (le : start ≤ stop) :
    t.drop start = t.slice start stop ++ t.drop stop := by
  have rest : t.drop stop = (t.drop start).drop (stop - start) := by
    rw [List.drop_drop, Nat.add_sub_of_le le]
  rw [slice, rest, List.take_append_drop]

namespace Expansions

/-- Two texts from offset `pos` of the first on: where a listed directive stands in the first, the second has a
piece, and all other bytes are the same. -/
inductive Spliced : (pos : Nat) → (text : Bytes) → List (Directive × Bytes) → (out : Bytes) → Prop where
  | rest {pos : Nat} {text : Bytes} : Spliced pos text [] text
  | piece {pos : Nat} {gap own text out : Bytes} {d : Directive} {piece : Bytes} {more : List (Directive × Bytes)} :
      d.extent.start = pos + gap.length → d.extent.stop = d.extent.start + own.length →
      Spliced d.extent.stop text more out →
      Spliced pos (gap ++ (own ++ text)) ((d, piece) :: more) (gap ++ piece ++ out)

theorem Spliced.unique {pos : Nat} {text out out' : Bytes} {more : List (Directive × Bytes)}
    (spliced : Spliced pos text more out) (spliced' : Spliced pos text more out') : out' = out := by
  generalize given : text = text' at spliced'
  induction spliced generalizing out' text' with
  | rest =>
      subst given
      cases spliced'
      rfl
  | piece start stop _ ih =>
      cases spliced' with
      | piece start' stop' behind' =>
          -- Both cut the text at the same offsets.
          obtain ⟨rfl, rest⟩ := List.append_inj given (by omega)
          obtain ⟨-, rfl⟩ := List.append_inj rest (by omega)
          rw [ih _ rfl behind']

/-- Pieces between what lies outside the directives, when the directives stand one behind the other. -/
theorem spliced_stitched {text : Bytes} {ds : List Directive} {pieces : List Bytes} {last : Nat}
    (long : ds.length = pieces.length) (behind : ∀ d ∈ ds, last ≤ d.extent.start)
    (placed : ∀ d ∈ ds, d.Placed text.length)
    (row : ds.Pairwise fun a b => a.extent.stop ≤ b.extent.start) :
    Spliced last (text.drop last) (ds.zip pieces) (stitched text last ds pieces) := by
  induction ds generalizing pieces last with
  | nil => exact .rest
  | cons d ds ih =>
      cases pieces with
      | nil => simp at long
      | cons piece pieces =>
          obtain ⟨here, others⟩ := List.forall_mem_cons.mp placed
          obtain ⟨after, row⟩ := List.pairwise_cons.mp row
          have start := behind d List.mem_cons_self
          have inside := here.stop_le
          have lt := here.lt
          have gap : (text.slice last d.extent.start).length = d.extent.start - last :=
            Bytes.length_slice _ (by omega)
          have own : (text.slice d.extent.start d.extent.stop).length = d.extent.stop - d.extent.start :=
            Bytes.length_slice _ inside
          have rest := ih (Nat.succ.inj long) after others row
          rw [Bytes.drop_eq_slice_append start, Bytes.drop_eq_slice_append (Nat.le_of_lt lt)]
          refine .piece ?_ ?_ rest
          · omega
          · omega

/-- What a directive becomes in the expansion of a whole text. -/
def piece (x : Expansions) (text : Bytes) (d : Directive) : Except ExpansionFault Bytes :=
  if (x.invoked? d.key (d.inner.of text)).isSome then x.expandDirective d.key (d.inner.of text)
  else if d.key = Builtin.macroKey then .error (.unknown (d.inner.of text).trim)
  else (x.expandText (d.inner.of text)).map (refilled text d)

/-- Expanding a text and invoking one directive of it start with the same room. -/
theorem replacement_maxDepth (x : Expansions) (text : Bytes) : x.replacement maxDepth text = x.piece text := by
  funext d
  unfold replacement piece expandDirective
  cases x.invoked? d.key (d.inner.of text) <;> rfl

variable {x : Expansions} {text : Bytes}

theorem stitched_iff_spliced {pieces : List Bytes} {out : Bytes} (long : (directives text).length = pieces.length) :
    stitched text 0 (directives text) pieces = out ↔ Spliced 0 text ((directives text).zip pieces) out := by
  have spliced : Spliced 0 (text.drop 0) ((directives text).zip pieces) (stitched text 0 (directives text) pieces) :=
    spliced_stitched long (fun d _ => Nat.zero_le _) (fun d member => placed_of_mem_directives member)
      (pairwise_directives text)
  constructor
  · rintro rfl
    exact spliced
  · intro spliced'
    exact (spliced.unique spliced').symm

theorem expandText_eq_ok_iff {out : Bytes} : x.expandText text = .ok out ↔
    ∃ pieces, List.Forall₂ (fun d piece => x.piece text d = .ok piece) (directives text) pieces ∧
      Spliced 0 text ((directives text).zip pieces) out := by
  rw [expandText, expand_eq_ok_iff, replacement_maxDepth]
  refine exists_congr fun pieces => ?_
  rw [mapM_eq_ok_iff]
  refine and_congr_right fun each => ?_
  exact stitched_iff_spliced each.length_eq

theorem expandText_eq_error_iff {fault : ExpansionFault} : x.expandText text = .error fault ↔
    ∃ before d after, directives text = before ++ d :: after ∧
      (∀ b ∈ before, ∃ piece, x.piece text b = .ok piece) ∧ x.piece text d = .error fault := by
  rw [expandText, expand_eq, map_eq_error_iff, mapM_eq_error_iff, replacement_maxDepth]

/-- A text that is one directive expands to what the directive becomes. -/
theorem expandText_of_alone {d : Directive} (alone : directives text = [d]) (whole : d.extent = ⟨0, text.length⟩) :
    x.expandText text = x.piece text d := by
  rw [expandText, expand_eq, replacement_maxDepth, alone]
  cases done : x.piece text d with
  | error fault =>
      rw [mapM_cons_of_error done]
      rfl
  | ok out =>
      rw [mapM_cons_of_ok done]
      simp [Except.map, pure, Except.pure, stitched, stitch, whole, Bytes.slice]

/-- The outermost directives of a text lie in it one behind the other. Its expansion succeeds when each of their
pieces does, and is the text with the pieces in their places; it fails with the fault of the first piece that
fails, which for a name that nothing has is that the name is unknown. A text that is one invocation expands to
what invoking it gives. -/
theorem expansion_compositional (x : Expansions) (text : Bytes) :
    let ds := directives text
    (∀ d ∈ ds, d.Placed text.length) ∧
    ds.Pairwise (fun a b => a.extent.stop ≤ b.extent.start) ∧
    (∀ out, x.expandText text = .ok out ↔
      ∃ pieces, List.Forall₂ (fun d piece => x.piece text d = .ok piece) ds pieces ∧
        Spliced 0 text (ds.zip pieces) out) ∧
    (∀ fault, x.expandText text = .error fault ↔
      ∃ before d after, ds = before ++ d :: after ∧
        (∀ b ∈ before, ∃ piece, x.piece text b = .ok piece) ∧ x.piece text d = .error fault) ∧
    (∀ d, ds = [d] → d.extent = ⟨0, text.length⟩ → (x.invoked? d.key (d.inner.of text)).isSome →
      x.expandText text = x.expandDirective d.key (d.inner.of text)) := by
  intro ds
  refine ⟨fun d member => placed_of_mem_directives member, pairwise_directives text,
    fun out => expandText_eq_ok_iff, fun fault => expandText_eq_error_iff, ?_⟩
  intro d alone whole invoked
  rw [expandText_of_alone alone whole]
  exact if_pos invoked

end Expansions

end Colloquy
