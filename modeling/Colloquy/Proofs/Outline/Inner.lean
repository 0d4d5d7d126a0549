import Colloquy.Outline.Basic
import Colloquy.Proofs.Document.Inline

/-! # What lies inside directives and links

An outline looks for the brackets of a directive and the destination of a link once more, in the text of the
node. What it finds does not reach past the node, whatever that text is.
-/

namespace Colloquy

theorem Bytes.length_slice {t : Bytes} {stop : Nat} (start : Nat) (le : stop ≤ t.length) :
    (t.slice start stop).length = stop - start := by
  rw [slice, List.length_take, List.length_drop]
  omega

theorem Bytes.find?_prefix {t part : Bytes} {i : Nat} (found : t.find? part = some i) :
    i ≤ t.length ∧ part <+: t.drop i := by
  fun_induction Bytes.find? t part generalizing i with
  | case1 none =>
      obtain rfl := Option.some.inj found
      simp [List.isEmpty_iff.mp none]
  | case2 more => simp at found
  | case3 b rest here =>
      obtain rfl := Option.some.inj found
      exact ⟨Nat.zero_le _, List.isPrefixOf_iff_prefix.mp here⟩
  | case4 b rest other ih =>
      obtain ⟨j, later, rfl⟩ := Option.map_eq_some_iff.mp found
      obtain ⟨inside, occurs⟩ := ih later
      exact ⟨Nat.succ_le_succ inside, occurs⟩

theorem Bytes.find?_le {t part : Bytes} {i : Nat} (found : t.find? part = some i) : i + part.length ≤ t.length := by
  obtain ⟨inside, occurs⟩ := find?_prefix found
  have length := occurs.length_le
  rw [List.length_drop] at length
  omega

namespace Directive

theorem inner_le {text : Bytes} {n : Document.Node} (start : n.start ≤ n.stop) (stop : n.stop ≤ text.length) :
    (ofNode text n).inner.start ≤ n.stop ∧ (ofNode text n).inner.stop ≤ n.stop := by
  have length := Bytes.length_slice n.start stop
  unfold ofNode
  simp only
  split
  · exact ⟨Nat.le_refl _, Nat.le_refl _⟩
  · rename_i i found
    have bracket := Document.Inline.indexOf?_lt found
    split
    · rename_i close closed
      have inside := Document.Bracket.closing?_lt closed
      rw [List.length_drop] at inside
      simp only
      omega
    · simp only
      omega

end Directive

namespace Link

variable {raw : Bytes} {i : Nat}

theorem skipBlanks_bounds (le : i ≤ raw.length) : i ≤ skipBlanks raw i ∧ skipBlanks raw i ≤ raw.length := by
  have run := (List.takeWhile_prefix (l := raw.drop i) Bytes.isBlankByte).length_le
  rw [List.length_drop] at run
  unfold skipBlanks
  omega

theorem wordEnd_bounds (le : i ≤ raw.length) : i ≤ wordEnd raw i ∧ wordEnd raw i ≤ raw.length := by
  have run := (List.takeWhile_prefix (l := raw.drop i) fun b => !Bytes.isSpaceByte b).length_le
  rw [List.length_drop] at run
  unfold wordEnd
  omega

theorem destination_le (raw : Bytes) : (destination raw).start ≤ raw.length ∧ (destination raw).stop ≤ raw.length := by
  unfold destination
  split
  · rename_i angled
    have some : 1 ≤ raw.length := (List.isPrefixOf_iff_prefix.mp angled).length_le
    split
    · rename_i angle found
      exact ⟨some, Nat.le_of_lt (Document.Inline.indexOf?_lt found)⟩
    · exact ⟨some, Nat.le_refl _⟩
  split
  · rename_i i found
    have behind : i + 2 ≤ raw.length := Bytes.find?_le found
    have start := skipBlanks_bounds behind
    simp only
    generalize skipBlanks raw (i + 2) = p at *
    have word := wordEnd_bounds start.2
    split
    · rename_i close found
      split at found
      · have inside := Document.Inline.indexOf?_lt found
        rw [List.length_drop] at inside
        simp only
        omega
      · simp at found
    · split
      · simp only
        omega
      · simp only
        omega
  split
  · rename_i i found
    have behind : i + 2 ≤ raw.length := Bytes.find?_le found
    have start := skipBlanks_bounds behind
    exact ⟨start.2, (wordEnd_bounds start.2).2⟩
  · exact ⟨Nat.zero_le _, Nat.le_refl _⟩

theorem url_le {text : Bytes} {n : Document.Node} (start : n.start ≤ n.stop) (stop : n.stop ≤ text.length) :
    (ofNode text n).url.start ≤ n.stop ∧ (ofNode text n).url.stop ≤ n.stop := by
  have inside := destination_le (text.slice n.start n.stop)
  rw [Bytes.length_slice n.start stop] at inside
  simp only [ofNode]
  omega

end Link

end Colloquy
