import Colloquy.Preview.Link
import Colloquy.Proofs.Host.Path
import Mathlib.Data.List.TakeWhile

/-! # Targets that are anchored

A relative target is anchored by writing the mark of the document's directory in front of its cleaned path. The path is
cleaned before it is looked at as a target; a target that is followed is first trimmed and cut off at its fragment,
and its home is looked up, and it is cleaned last. Both ways lead to one place as long as the path does not start in a
place of its own and as cleaning leaves the end of it and the fragment where they are.
-/

namespace Colloquy.Target

open Colloquy.Path (slash here up components SamePlace inside)

/-- The byte that a fragment starts with. -/
abbrev hash : UInt8 := 0x23

/-- The path that a target spells: all of it, or what follows the scheme of a file URL. -/
def pathOf (t : Bytes) : Bytes := Bytes.dropHead t fileScheme

/-! ## Schemes -/

theorem hasScheme_iff {least : Nat} {t : Bytes} : hasScheme least t = true ↔
    ∃ name rest, t = name ++ 0x3A :: rest ∧ (∀ b ∈ name, isSchemeByte b = true) ∧
      (name.head?.map Bytes.isLetter).getD false = true ∧ least ≤ name.length := by
  constructor
  · intro has
    simp only [hasScheme, Bool.and_eq_true, decide_eq_true_eq, beq_iff_eq] at has
    obtain ⟨⟨letter, long⟩, colon⟩ := has
    refine ⟨t.takeWhile isSchemeByte, t.drop ((t.takeWhile isSchemeByte).length + 1), ?_, ?_, letter, long⟩
    · obtain ⟨lt, same⟩ := List.getElem?_eq_some_iff.mp colon
      have whole := List.take_append_drop (t.takeWhile isSchemeByte).length t
      rw [List.drop_eq_getElem_cons lt, same, ← List.prefix_iff_eq_take.mp (List.takeWhile_prefix _)] at whole
      exact whole.symm
    · exact fun b among => List.mem_takeWhile_imp among
  · rintro ⟨name, rest, rfl, bytes, letter, long⟩
    have cut : (name ++ 0x3A :: rest).takeWhile isSchemeByte = name := by
      rw [List.takeWhile_append_of_pos bytes, List.takeWhile_cons_of_neg (by decide), List.append_nil]
    simp [hasScheme, cut, letter, long]

theorem hasScheme_file (least : Nat) (le : least ≤ 4) (p : Bytes) : hasScheme least (fileScheme ++ p) = true :=
  hasScheme_iff.mpr ⟨utf8 "file", utf8 "//" ++ p, rfl, by decide +kernel, rfl, le⟩

/-- A front of a text without a scheme has none. -/
theorem hasScheme_front {least : Nat} {t u : Bytes} (front : t <+: u) (le : 1 ≤ least)
    (none : hasScheme 1 u = false) : hasScheme least t = false := by
  refine Bool.eq_false_iff.mpr fun has => ?_
  obtain ⟨name, rest, rfl, bytes, letter, long⟩ := hasScheme_iff.mp has
  obtain ⟨more, rfl⟩ := front
  have also : hasScheme 1 (name ++ 0x3A :: rest ++ more) = true :=
    hasScheme_iff.mpr ⟨name, rest ++ more, by simp, bytes, letter, Nat.le_trans le long⟩
  rw [none] at also
  cases also

/-! ## Relative targets -/

/-- A path that is taken from the document's directory. -/
structure IsRelative (p : Bytes) : Prop where
  notAbs : Path.isAbs p = false
  notAnchored : isAnchored p = false

theorem pathOf_file (p : Bytes) : pathOf (fileScheme ++ p) = p := by
  simp [pathOf, Bytes.dropHead, Bytes.after?, Bytes.startsWith]

theorem pathOf_of_not_file {t : Bytes} (none : Bytes.after? t fileScheme = none) : pathOf t = t := by
  rw [pathOf, Bytes.dropHead, none, Option.getD_none]

/-- A target that is neither a file URL nor remote, and leads out of the document. -/
structure IsBare (t : Bytes) : Prop where
  nonempty : t ≠ []
  notHash : t.head? ≠ some hash
  notHome : t.head? ≠ some 0x7E
  noScheme : hasScheme 1 t = false

theorem IsBare.not_file {t : Bytes} (bare : IsBare t) : Bytes.after? t fileScheme = none := by
  unfold Bytes.after?
  split
  · rename_i file
    obtain ⟨p, rfl⟩ := List.isPrefixOf_iff_prefix.mp file
    exact absurd (hasScheme_file 1 (by decide) p) (Bool.eq_false_iff.mp bare.noScheme)
  · rfl

/-- What can be anchored is a file URL or a bare path, either with a relative path. -/
theorem absolute?_eq_some {t fixed : Bytes} (found : absolute? t = some fixed) :
    fixed = anchored (pathOf t) ∧ IsRelative (pathOf t) ∧ (t = fileScheme ++ pathOf t ∨ pathOf t = t ∧ IsBare t) := by
  unfold absolute? at found
  split at found
  · rename_i relative
    obtain ⟨p, rfl⟩ : ∃ p, t = fileScheme ++ p := by
      unfold isRelativeFile Bytes.after? at relative
      split at relative
      · rename_i p after
        split at after
        · rename_i file
          obtain ⟨p, same⟩ := List.isPrefixOf_iff_prefix.mp file
          exact ⟨p, same.symm⟩
        · cases after
      · cases relative
    have path := pathOf_file p
    simp only [isRelativeFile, Bytes.after?, Bytes.startsWith, List.isPrefixOf_iff_prefix, List.prefix_append,
      if_true, List.drop_left, Bool.and_eq_true, Bool.not_eq_true'] at relative
    rw [List.drop_left, Option.some.injEq] at found
    rw [path]
    exact ⟨found.symm, ⟨relative.1, relative.2⟩, .inl rfl⟩
  · split at found
    · rename_i relative
      simp only [isRelativePath, Bool.and_eq_true, Bool.not_eq_true', Bool.or_eq_false_iff, bne_iff_ne,
        beq_eq_false_iff_ne] at relative
      obtain ⟨⟨⟨⟨⟨some, notAbs⟩, notHash⟩, notAnchored⟩, noScheme⟩, notHome⟩ := relative
      have bare : IsBare t := ⟨by simpa using some, notHash, notHome, noScheme⟩
      have path := pathOf_of_not_file bare.not_file
      rw [Option.some.injEq] at found
      rw [path]
      exact ⟨found.symm, ⟨notAbs, notAnchored⟩, .inr ⟨rfl, bare⟩⟩
    · cases found

/-! ## Following a target -/

theorem head?_front {t u : Bytes} (front : t <+: u) {b : UInt8} (other : u.head? ≠ some b) : t.head? ≠ some b := by
  obtain ⟨rest, rfl⟩ := front
  cases t with
  | nil => exact nofun
  | cons c t => exact other

theorem startsWith_front {t u : Bytes} (front : t <+: u) {mark : Bytes} (none : Bytes.startsWith u mark = false) :
    Bytes.startsWith t mark = false := by
  refine Bool.eq_false_iff.mpr fun begins => Bool.eq_false_iff.mp none ?_
  exact List.isPrefixOf_iff_prefix.mpr ((List.isPrefixOf_iff_prefix.mp begins).trans front)

theorem IsRelative.front {p q : Bytes} (relative : IsRelative p) (front : q <+: p) : IsRelative q := by
  obtain ⟨notAbs, notAnchored⟩ := relative
  rw [isAnchored, Bool.or_eq_false_iff] at notAnchored
  refine ⟨?_, ?_⟩
  · exact beq_eq_false_iff_ne.mpr (head?_front front (beq_eq_false_iff_ne.mp notAbs))
  · rw [isAnchored, startsWith_front front notAnchored.1, startsWith_front front notAnchored.2]
    rfl

theorem withoutFragment_eq {t : Bytes} (notHash : t.head? ≠ some hash) :
    withoutFragment t = t.takeWhile (· != hash) := by
  by_cases member : hash ∈ t
  · obtain ⟨front, rest, rfl, free⟩ := List.eq_append_cons_of_mem member
    rw [Bytes.takeWhile_mark free, withoutFragment, Bytes.indexOf?_first free]
    cases front with
    | nil => exact absurd rfl notHash
    | cons b front =>
        change List.take (b :: front).length (b :: front ++ hash :: rest) = b :: front
        exact List.take_left
  · rw [withoutFragment, Bytes.indexOf?_eq_none member, Bytes.takeWhile_of_not_mem member]

/-- Where the path of a target leads in a document of directory `dir`. -/
def placed (host : Host) (dir p : Bytes) : Bytes :=
  let p := expandDirectory dir p
  let p := match Bytes.after? p homeMark, host.env.get? "HOME" with
    | some rest, some home => if home.isEmpty then p else Path.join [home, rest]
    | _, _ => p
  Path.clean (if Path.isAbs p then p else Path.join [dir, p])

theorem localPath?_eq (host : Host) (dir : Bytes) {target t : Bytes} (trimmed : Bytes.trim target = t)
    (nonempty : t ≠ []) (notHash : t.head? ≠ some hash)
    (isLocal : (Bytes.after? t fileScheme).isSome ∨ hasScheme 2 t = false) :
    localPath? host dir target = some (placed host dir (withoutFragment (pathOf t))) := by
  have inDocument : ¬ (t.isEmpty || t.head? == some hash) = true := by simp [nonempty, notHash]
  have remote : ¬ ((Bytes.after? t fileScheme).isNone && hasScheme 2 t) = true := by
    cases isLocal with
    | inl file => simp [Option.isNone_eq_false_iff.mpr file]
    | inr none => simp [none]
  unfold localPath?
  simp only [trimmed]
  rw [if_neg inDocument, if_neg remote]
  rfl

theorem trim_file (p : Bytes) : Bytes.trim (fileScheme ++ p) = fileScheme ++ Bytes.trimEnd p := by
  have start : Bytes.trimStart (fileScheme ++ p) = fileScheme ++ p := Bytes.trimStart_cons (by decide) (by decide) _
  rw [Bytes.trim, start]
  exact Bytes.trimEnd_append (by decide) (by decide) (utf8 "file:/") p

section Directory

variable (host : Host) {dir : Bytes} (rooted : Path.isAbs dir = true)
include rooted

theorem placed_of_relative {p : Bytes} (relative : IsRelative p) (notHome : Bytes.startsWith p homeMark = false) :
    placed host dir p = inside dir p := by
  obtain ⟨notAbs, notAnchored⟩ := relative
  rw [isAnchored, Bool.or_eq_false_iff] at notAnchored
  have expanded : expandDirectory dir p = p := by
    simp [expandDirectory, Bytes.after?, notAnchored]
  have home : Bytes.after? p homeMark = none := by simp [Bytes.after?, notHome]
  simp only [placed, expanded, home, notAbs, if_neg Bool.false_ne_true]
  rw [Path.join_eq_inside rooted, inside, Path.clean_clean (Path.isAbs_append rooted _)]

theorem placed_of_anchored (rest : Bytes) : placed host dir (directoryMark ++ rest) = Path.clean (dir ++ rest) := by
  have absolute := Path.isAbs_append rooted rest
  have expanded : expandDirectory dir (directoryMark ++ rest) = dir ++ rest := rfl
  have home : Bytes.after? (dir ++ rest) homeMark = none := by
    obtain ⟨t, rfl⟩ := Path.exists_slash rooted
    rfl
  simp only [placed, expanded, home, absolute, if_true]

/-- An anchored target is local, whatever its path. -/
theorem localPath?_anchored (p : Bytes) : localPath? host dir (anchored p) =
    some (inside dir ((Bytes.trimEnd (Path.clean p)).takeWhile (· != hash))) := by
  have file (q : Bytes) : (Bytes.after? (fileScheme ++ q) fileScheme).isSome ∨ hasScheme 2 (fileScheme ++ q) = false :=
    .inl (by simp [Bytes.after?, Bytes.startsWith])
  unfold anchored
  by_cases atHere : Path.clean p = here
  · have trimmed : Bytes.trim (fileScheme ++ directoryMark) = fileScheme ++ directoryMark := by decide +kernel
    have bare : withoutFragment (pathOf (fileScheme ++ directoryMark)) = directoryMark ++ [] := by decide +kernel
    have dot : (Bytes.trimEnd here).takeWhile (· != hash) = here := by decide +kernel
    have same : SamePlace here [] := fun _ => rfl
    rw [if_pos (beq_iff_eq.mpr atHere), localPath?_eq host dir trimmed (by decide) (by decide) (file _), bare,
      placed_of_anchored host rooted, List.append_nil, atHere, dot, same.inside_eq rooted, Path.inside_nil rooted]
  · have whole : fileScheme ++ directoryMark ++ [slash] ++ Path.clean p =
        fileScheme ++ (directoryMark ++ slash :: Path.clean p) := by simp
    have trimmed := trim_file (directoryMark ++ slash :: Path.clean p)
    rw [Bytes.trimEnd_append (by decide) (by decide)] at trimmed
    have apart : (directoryMark ++ slash :: Bytes.trimEnd (Path.clean p)).head? ≠ some hash := nofun
    rw [if_neg (by simpa using atHere), whole, localPath?_eq host dir trimmed nofun nofun (file _), pathOf_file,
      withoutFragment_eq apart, List.takeWhile_append_of_pos (by decide +kernel),
      List.takeWhile_cons_of_pos (by decide), placed_of_anchored host rooted]
    rfl

/-- A relative target that starts in the directory leads to its path up to the fragment, without white space at its
    end. -/
theorem localPath?_of_relative {t : Bytes} (relative : IsRelative (pathOf t))
    (kind : t = fileScheme ++ pathOf t ∨ pathOf t = t ∧ IsBare t) (started : Bytes.trimStart t = t)
    (notHash : (pathOf t).head? ≠ some hash) (notHome : Bytes.startsWith (pathOf t) homeMark = false) :
    localPath? host dir t = some (inside dir ((Bytes.trimEnd (pathOf t)).takeWhile (· != hash))) := by
  have ended : Bytes.trimEnd (pathOf t) <+: pathOf t := Bytes.trimEnd_prefix _
  have cut : (Bytes.trimEnd (pathOf t)).takeWhile (· != hash) <+: pathOf t := (List.takeWhile_prefix _).trans ended
  have place := placed_of_relative host rooted (relative.front cut) (startsWith_front cut notHome)
  rw [← place, ← withoutFragment_eq (head?_front ended notHash)]
  cases kind with
  | inl file =>
      have trimmed := trim_file (pathOf t)
      rw [← file] at trimmed
      rw [localPath?_eq host dir trimmed nofun nofun (.inl (by simp [Bytes.after?, Bytes.startsWith])), pathOf_file]
  | inr bare =>
      obtain ⟨whole, bare⟩ := bare
      rw [whole] at ended ⊢
      have trimmed : Bytes.trim t = Bytes.trimEnd t := by rw [Bytes.trim, started]
      have own : pathOf (Bytes.trimEnd t) = Bytes.trimEnd t := pathOf_of_not_file <| IsBare.not_file
        ⟨Bytes.trimEnd_ne_nil started bare.nonempty, head?_front ended bare.notHash,
          head?_front ended bare.notHome, hasScheme_front ended (Nat.le_refl 1) bare.noScheme⟩
      rw [localPath?_eq host dir trimmed (Bytes.trimEnd_ne_nil started bare.nonempty)
        (head?_front ended bare.notHash) (.inr (hasScheme_front ended (by decide) bare.noScheme)), own]

end Directory

/-! ## Cleaning a path that is followed -/

/-- Cleaning leaves the end of a relative path and its fragment where they are, and the path starts in no place of its
    own. -/
structure IsSteady (p : Bytes) : Prop where
  notHash : p.head? ≠ some hash
  notHome : Bytes.startsWith p homeMark = false
  /-- Two dots in the fragment would take away what stands in front of it. -/
  fragment : up ∉ components (p.dropWhile (· != hash))
  /-- White space at the end of a name is trimmed when cleaning brings the name to the end of the path. -/
  names : hash ∈ p ∨ ∀ c ∈ (components p).dropLast, Bytes.trimEnd c = c

theorem trimEnd_takeWhile {t : Bytes} (member : hash ∈ t) :
    (Bytes.trimEnd t).takeWhile (· != hash) = t.takeWhile (· != hash) := by
  obtain ⟨front, rest, rfl, free⟩ := List.eq_append_cons_of_mem member
  rw [Bytes.trimEnd_append (by decide) (by decide), Bytes.takeWhile_mark free, Bytes.takeWhile_mark free]

theorem not_mem_of_components {t : Bytes} (clear : ∀ c ∈ components t, hash ∉ c) : hash ∉ t := by
  intro member
  obtain ⟨c, among, inside⟩ := (Bytes.mem_iff_mem_splitOn (by decide : hash ≠ slash)).mp member
  exact clear c among inside

theorem mem_of_components {t c : Bytes} (among : c ∈ components t) (inside : hash ∈ c) : hash ∈ t :=
  (Bytes.mem_iff_mem_splitOn (by decide)).mpr ⟨c, among, inside⟩

/-- Up to its fragment a path leads to the same place when it is cleaned first. -/
theorem samePlace_fragment {p : Bytes} (relative : Path.isAbs p = false) (member : hash ∈ p)
    (fragment : up ∉ components (p.dropWhile (· != hash))) :
    SamePlace ((Bytes.trimEnd (Path.clean p)).takeWhile (· != hash)) ((Bytes.trimEnd p).takeWhile (· != hash)) := by
  obtain ⟨u, v, rfl, free⟩ := List.eq_append_cons_of_mem member
  have apart : slash ∉ [hash] := by decide
  obtain ⟨piece, behind, -, split⟩ := Bytes.splitOn_append apart v
  obtain ⟨before, last, first, behind', own, next, whole⟩ := Bytes.splitOn_glue slash u (hash :: v)
  obtain ⟨rfl, rfl⟩ : [hash] ++ piece = first ∧ behind = behind' := List.cons.inj (split.symm.trans next)
  have own : components u = before ++ [last] := own
  have whole : components (u ++ hash :: v) = before ++ (last ++ hash :: piece) :: behind := whole
  have holds : hash ∈ last ++ hash :: piece := by simp
  have named : Path.Counts (last ++ hash :: piece) ∧ last ++ hash :: piece ≠ up := by
    refine ⟨⟨?_, ?_⟩, ?_⟩
    all_goals
      intro same
      rw [same] at holds
      exact absurd holds (by decide)
  have noUp : up ∉ behind := by
    have rest : (u ++ hash :: v).dropWhile (· != hash) = hash :: v := by
      rw [List.dropWhile_append_of_pos fun b among => by simpa using fun same : b = hash => free (same ▸ among),
        List.dropWhile_cons_of_neg (by simp)]
    rw [rest, show components (hash :: v) = _ from split] at fragment
    exact fun among => fragment (List.mem_cons_of_mem _ among)
  obtain ⟨more, cleaned⟩ := Path.cleaned_of_stays relative whole named.1 named.2 noUp
  have ends : components (Path.clean (u ++ hash :: v)) = _ :=
    (Path.components_clean relative).trans (if_neg (by simp [cleaned]))
  rw [cleaned] at ends
  have clear (d : Bytes) (among : d ∈ before ++ [last]) : hash ∉ d := fun inside =>
    free (mem_of_components (own ▸ among) inside)
  have kept : ∀ d ∈ (before.foldl (Path.cleanStep false) []).reverse, hash ∉ d := by
    intro d among
    obtain own | rfl := Path.mem_foldl_cleanStep d (List.mem_reverse.mp among)
    · exact clear d (List.mem_append_left _ own)
    · decide
  have front := Path.components_takeWhile (by decide : hash ≠ slash) ends kept holds
  have member' : hash ∈ Path.clean (u ++ hash :: v) := mem_of_components (ends ▸ by simp) holds
  rw [trimEnd_takeWhile member, trimEnd_takeWhile member', Bytes.takeWhile_mark free]
  rw [Bytes.takeWhile_mark (clear last (by simp))] at front
  intro stack
  rw [front, own, List.foldl_append, List.foldl_append, Path.foldl_cleaned]

/-- Without a fragment, a path leads to the same place when it is cleaned before it is trimmed. -/
theorem samePlace_trimEnd {p : Bytes} (relative : Path.isAbs p = false)
    (names : ∀ c ∈ (components p).dropLast, Bytes.trimEnd c = c) :
    SamePlace (Bytes.trimEnd (Path.clean p)) (Bytes.trimEnd p) := by
  have dots : Bytes.trimEnd here = here ∧ Bytes.trimEnd up = up ∧ Bytes.trimEnd [] = [] := by decide
  obtain ⟨before, last, own, trimmed⟩ := Path.components_trimEnd p
  obtain ⟨before', last', own', trimmed'⟩ := Path.components_trimEnd (Path.clean p)
  rw [own, List.dropLast_concat] at names
  intro stack
  by_cases named : Path.Counts last ∧ last ≠ up
  · -- The last component is a name. It stays the last one, and what is in front of it is cleaned.
    have cleaned : Path.cleaned p = (before.foldl (Path.cleanStep false) []).reverse ++ [last] := by
      rw [Path.cleaned, relative, own, List.foldl_append, List.foldl_cons, List.foldl_nil,
        Path.cleanStep_push named.1 named.2, List.reverse_cons]
    have some : Path.cleaned p ≠ [] := by simp [cleaned]
    rw [Path.components_clean relative, if_neg some, cleaned] at own'
    obtain ⟨rfl, rfl⟩ := List.append_singleton_inj.mp own'
    rw [trimmed, trimmed', List.foldl_append, List.foldl_append, Path.foldl_cleaned]
  · -- The last component does not count or takes a name away. There is nothing in it to trim, nor in what is last then.
    have ended : Bytes.trimEnd last = last := by
      by_cases counts : Path.Counts last
      · obtain rfl : last = up := by simpa [counts] using named
        exact dots.2.1
      · cases Path.not_counts_iff.mp counts with
        | inl same => rw [same, dots.2.2]
        | inr same => rw [same, dots.1]
    have ended' : Bytes.trimEnd last' = last' := by
      have among : last' ∈ components (Path.clean p) := own' ▸ List.mem_append_right _ List.mem_cons_self
      rw [Path.components_clean relative] at among
      split at among
      · rw [List.mem_singleton.mp among, dots.1]
      · obtain given | rfl := Path.mem_foldl_cleanStep last' (List.mem_reverse.mp among)
        · rw [own] at given
          obtain early | late := List.mem_append.mp given
          · exact names last' early
          · rw [List.mem_singleton.mp late, ended]
        · exact dots.2.1
    have same := Path.samePlace_clean relative stack
    rwa [trimmed, trimmed', ended, ended', ← own, ← own']

theorem IsSteady.samePlace {p : Bytes} (steady : IsSteady p) (relative : Path.isAbs p = false) :
    SamePlace ((Bytes.trimEnd (Path.clean p)).takeWhile (· != hash)) ((Bytes.trimEnd p).takeWhile (· != hash)) := by
  by_cases member : hash ∈ p
  · exact samePlace_fragment relative member steady.fragment
  · have names := steady.names.resolve_left member
    have absent : hash ∉ Path.clean p := by
      refine not_mem_of_components fun c among => ?_
      rw [Path.components_clean relative] at among
      split at among
      · rw [List.mem_singleton.mp among]
        decide
      · obtain given | rfl := Path.mem_foldl_cleanStep c (List.mem_reverse.mp among)
        · exact fun inside => member (mem_of_components given inside)
        · decide
    have trimmed (t : Bytes) (free : hash ∉ t) : (Bytes.trimEnd t).takeWhile (· != hash) = Bytes.trimEnd t :=
      Bytes.takeWhile_of_not_mem fun inside => free ((Bytes.trimEnd_prefix t).subset inside)
    rw [trimmed p member, trimmed (Path.clean p) absent]
    exact samePlace_trimEnd relative names

/-! ## What the rewritten target leads to -/

theorem anchored_final (p : Bytes) :
    isRelativeFile (anchored p) = false ∧ isRelativePath (anchored p) = false ∧ absolute? (anchored p) = none := by
  obtain ⟨rest, whole⟩ : ∃ rest, anchored p = fileScheme ++ (directoryMark ++ rest) := by
    unfold anchored
    dsimp only
    split
    · exact ⟨[], by simp⟩
    · exact ⟨slash :: Path.clean p, by simp⟩
  have anchor : isAnchored (directoryMark ++ rest) = true := by simp [isAnchored, Bytes.startsWith]
  have file : isRelativeFile (anchored p) = false := by
    simp [whole, isRelativeFile, Bytes.after?, Bytes.startsWith, anchor]
  have path : isRelativePath (anchored p) = false := by
    rw [whole, isRelativePath, hasScheme_file 1 (by decide)]
    simp
  exact ⟨file, path, by simp [absolute?, file, path]⟩

/-- An anchored target is not anchored again, and it is local: it leads to what the cleaned path spells in the
    directory, up to its fragment and without white space at its end. Where the target begins with no white space and
    its path is steady, the target itself leads to the same place. -/
theorem anchored_same_place (host : Host) {dir url fixed : Bytes} (rooted : Path.isAbs dir = true)
    (offered : absolute? url = some fixed) :
    (isRelativeFile fixed = false ∧ isRelativePath fixed = false ∧ absolute? fixed = none) ∧
    localPath? host dir fixed =
      some (inside dir ((Bytes.trimEnd (Path.clean (pathOf url))).takeWhile (· != hash))) ∧
    (Bytes.trimStart url = url → IsSteady (pathOf url) → localPath? host dir url = localPath? host dir fixed) := by
  obtain ⟨rfl, relative, kind⟩ := absolute?_eq_some offered
  have leads := localPath?_anchored host rooted (pathOf url)
  refine ⟨anchored_final _, leads, ?_⟩
  intro started steady
  rw [leads, localPath?_of_relative host rooted relative kind started steady.notHash steady.notHome,
    (steady.samePlace relative.notAbs).inside_eq rooted]

/-- Dots in front, and a fragment with slashes and white space at its end. -/
theorem anchored_same_place_dots :
    let host : Host := ⟨FileTree.empty, utf8 "/", [(utf8 "HOME", utf8 "/home")]⟩
    let url := utf8 "file://docs/../../n.md#a//b "
    let fixed := utf8 "file://$PWD/../n.md#a/b "
    Path.isAbs (utf8 "/d") = true ∧ absolute? url = some fixed ∧ Bytes.trimStart url = url ∧ IsSteady (pathOf url) ∧
    localPath? host (utf8 "/d") url = some (utf8 "/n.md") ∧
    localPath? host (utf8 "/d") url = localPath? host (utf8 "/d") fixed := by
  intro host url fixed
  have rooted : Path.isAbs (utf8 "/d") = true := by decide
  have offered : absolute? url = some fixed := by decide +kernel
  have started : Bytes.trimStart url = url := by decide +kernel
  have steady : IsSteady (pathOf url) :=
    ⟨by decide +kernel, by decide +kernel, by decide +kernel, .inl (by decide +kernel)⟩
  exact ⟨rooted, offered, started, steady, by decide +kernel,
    (anchored_same_place host rooted offered).2.2 started steady⟩

/-- Targets that lead elsewhere when they are anchored: a path at home, a path that is all fragment, two dots behind the
    start of a fragment, white space in front of the last slash, and white space in front of the target. -/
theorem anchored_elsewhere :
    let host : Host := ⟨FileTree.empty, utf8 "/", [(utf8 "HOME", utf8 "/home")]⟩
    let leads := fun target : String => (localPath? host (utf8 "/d") (utf8 target),
      (absolute? (utf8 target)).bind (localPath? host (utf8 "/d")))
    leads "file://~/n" = (some (utf8 "/home/n"), some (utf8 "/d/~/n")) ∧
    leads "file://#n" = (some (utf8 "/d/#n"), some (utf8 "/d")) ∧
    leads "n#a/../b" = (some (utf8 "/d/n"), some (utf8 "/d/b")) ∧
    leads "n /" = (some (utf8 "/d/n "), some (utf8 "/d/n")) ∧
    leads " n" = (some (utf8 "/d/n"), some (utf8 "/d/ n")) := by
  decide

end Colloquy.Target
