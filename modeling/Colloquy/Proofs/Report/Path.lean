import Colloquy.Proofs.Host.Directory
import Colloquy.Report.Basic

/-! # Paths as a report shows them

A report shows the way from its base directory to a document if the way goes down only, and finds that out by looking at
its first two bytes: two dots stand for going up. But they may as well begin a name, and then the whole path is shown for
a document inside the directory.
-/

namespace Colloquy.PathMode

open Colloquy.Path

variable {base path : Bytes}

theorem leadsTo_relative (cwd : Bytes) (dir : IsCanonical base) (place : IsCanonical path) :
    LeadsTo base (relative.render cwd base path) path := by
  have some : base.isEmpty = false := by simpa using dir.ne_nil
  have found := rel?_of_isCanonical dir place
  have leads := leadsTo_of_rel? dir place found
  simpa [render, some, found] using leads

/-- The whole path is shown if the way goes up, or seems to. -/
theorem render_auto (cwd : Bytes) (dir : IsCanonical base) (place : IsCanonical path) :
    let parted := dropCommon (cleaned base) (cleaned path)
    auto.render cwd base path =
      if 0 < parted.1.length ∨ ∃ c ∈ parted.2.head?, up <+: c then path else way parted.1.length parted.2 := by
  intro parted
  have some : base.isEmpty = false := by simpa using dir.ne_nil
  have downs := (names_dropCommon (names_cleaned dir.absolute) (names_cleaned place.absolute)).2
  simp [render, some, rel?_of_isCanonical dir place, startsWith_way downs, parted]

/-- A place that lies under the base directory is shown by the names behind it, unless the first of these begins with
two dots; every other place is shown by its whole path. On request the way from the base directory is shown wherever the
place lies, and it always leads there. -/
theorem relative_under_base_unless_dotted (cwd : Bytes) (dir : IsCanonical base) (place : IsCanonical path) :
    (LiesUnder base path → ¬ StartsDotted base path →
      auto.render cwd base path = way 0 (namesBehind base path) ∧ LeadsTo base (auto.render cwd base path) path) ∧
    (LiesUnder base path → StartsDotted base path → auto.render cwd base path = path) ∧
    (¬ LiesUnder base path → auto.render cwd base path = path) ∧
    LeadsTo base (relative.render cwd base path) path := by
  have shown := render_auto cwd dir place
  refine ⟨?_, ?_, ?_, leadsTo_relative cwd dir place⟩
  · intro under plain
    have found := rel?_of_isCanonical dir place
    rw [dropCommon_of_liesUnder under] at shown found
    have down : auto.render cwd base path = way 0 (namesBehind base path) := by
      refine shown.trans (if_neg ?_)
      rintro (up | dotted)
      · exact Nat.lt_irrefl 0 up
      · exact plain dotted
    exact ⟨down, down ▸ leadsTo_of_rel? dir place found⟩
  · intro under dotted
    rw [dropCommon_of_liesUnder under] at shown
    exact shown.trans (if_pos (.inr dotted))
  · intro beside
    refine shown.trans (if_pos (.inl ?_))
    apply List.length_pos_iff.mpr
    intro none
    exact beside (dropCommon_fst_eq_nil_iff.mp none)

/-- Names that begin with a dot, in a directory that begins with two, a name that begins with two itself, and a place
beside the directory. -/
theorem relative_under_base_unless_dotted_hidden :
    let base := utf8 "/w/..x"
    let inside := utf8 "/w/..x/.y/..z"
    let dotted := utf8 "/w/..x/..y"
    let beside := utf8 "/w/x"
    IsCanonical base ∧ IsCanonical inside ∧ IsCanonical dotted ∧ IsCanonical beside ∧
      (LiesUnder base inside ∧ ¬ StartsDotted base inside ∧ auto.render [] base inside = utf8 ".y/..z" ∧
        LeadsTo base (auto.render [] base inside) inside) ∧
      (LiesUnder base dotted ∧ StartsDotted base dotted ∧ auto.render [] base dotted = dotted) ∧
      ¬ LiesUnder base beside ∧ auto.render [] base beside = beside := by
  intro base inside dotted beside
  have dir : IsCanonical base := ⟨by decide, by decide⟩
  have first : IsCanonical inside := ⟨by decide, by decide⟩
  have second : IsCanonical dotted := ⟨by decide, by decide⟩
  have third : IsCanonical beside := ⟨by decide, by decide⟩
  have shown := (relative_under_base_unless_dotted [] dir first).1 (by decide) (by decide)
  have whole := (relative_under_base_unless_dotted [] dir second).2.1 (by decide) (by decide)
  have apart := (relative_under_base_unless_dotted [] dir third).2.2.1 (by decide)
  exact ⟨dir, first, second, third, ⟨by decide, by decide, shown.1.trans (by decide), shown.2⟩,
    ⟨by decide, by decide, whole⟩, by decide, apart⟩

/-- A name with two dots in front is taken for the way up, and its whole path is shown. -/
theorem dotted_name_shown_whole :
    let base := utf8 "/a"
    let path := utf8 "/a/..b"
    IsCanonical base ∧ IsCanonical path ∧ LiesUnder base path ∧ LeadsTo base (utf8 "..b") path ∧
      auto.render [] base path = path ∧ ¬ LeadsTo base (auto.render [] base path) path := by
  refine ⟨⟨by decide, by decide⟩, ⟨by decide, by decide⟩, by decide, ⟨by decide, by decide, by decide⟩, by decide, ?_⟩
  intro leads
  exact absurd leads.relative (by decide)

end Colloquy.PathMode
