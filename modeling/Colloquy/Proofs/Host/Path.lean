import Colloquy.Host.Path
import Colloquy.Proofs.Text.Space
import Mathlib.Data.List.Basic
import Mathlib.Data.List.Induction

/-! # Clean paths

Cleaning an absolute path leaves proper names between slashes, so that cleaning it once more changes nothing, and it
never makes a path longer. Cleaning a relative path keeps two dots only in front of its names, so that behind a
directory it leads to the same place as before.
-/

namespace Colloquy.Path

/-! ## One component

Components that say nothing are left out, two dots take the last name away if there is one, and everything else is a
name and is kept.
-/

/-- The component counts when a path is cleaned: it is a name or two dots. -/
def Counts (c : Bytes) : Prop := c ≠ [] ∧ c ≠ here

theorem counts_up : Counts up := ⟨by decide, by decide⟩

theorem not_counts_iff {c : Bytes} : ¬ Counts c ↔ c = [] ∨ c = here := by
  rw [Counts, not_and_or, not_ne_iff, not_ne_iff]

theorem cleanStep_skip {c : Bytes} (idle : ¬ Counts c) (rooted : Bool) (kept : List Bytes) :
    cleanStep rooted kept c = kept := by
  cases not_counts_iff.mp idle with
  | inl same => rw [same]; rfl
  | inr same => rw [same]; rfl

theorem cleanStep_push {c : Bytes} (counts : Counts c) (other : c ≠ up) (rooted : Bool) (kept : List Bytes) :
    cleanStep rooted kept c = c :: kept := by
  simp [cleanStep, counts.1, counts.2, other]

theorem cleanStep_up_of_ne {last : Bytes} (other : last ≠ up) (rooted : Bool) (kept : List Bytes) :
    cleanStep rooted (last :: kept) up = kept := by
  have shown : up.isEmpty = false ∧ (up == here) = false := by decide
  simp [cleanStep, shown, other]

/-! ## Clean absolute paths -/

/-- A component that cleaning keeps. -/
structure IsName (c : Bytes) : Prop where
  some : c ≠ []
  notHere : c ≠ here
  notUp : c ≠ up
  free : slash ∉ c

theorem IsName.counts {c : Bytes} (name : IsName c) : Counts c := ⟨name.some, name.notHere⟩

/-- Behind a slash, two dots take the last name away. -/
theorem cleanStep_up {kept : List Bytes} (names : ∀ k ∈ kept, IsName k) : cleanStep true kept up = kept.tail := by
  cases kept with
  | nil => rfl
  | cons last rest => exact cleanStep_up_of_ne (names last List.mem_cons_self).notUp true rest

theorem names_cleanStep {kept : List Bytes} {c : Bytes} (names : ∀ k ∈ kept, IsName k) (free : slash ∉ c) :
    ∀ k ∈ cleanStep true kept c, IsName k := by
  by_cases counts : Counts c
  · by_cases back : c = up
    · rw [back, cleanStep_up names]
      exact fun k member => names k (List.mem_of_mem_tail member)
    · rw [cleanStep_push counts back]
      exact List.forall_mem_cons.mpr ⟨⟨counts.1, counts.2, back, free⟩, names⟩
  · rw [cleanStep_skip counts]
    exact names

theorem names_cleaned {p : Bytes} (absolute : isAbs p = true) : ∀ c ∈ cleaned p, IsName c := by
  have kept : ∀ c ∈ (components p).foldl (cleanStep true) [], IsName c := by
    refine List.foldlRecOn (motive := fun kept => ∀ c ∈ kept, IsName c) _ _ (by simp) ?_
    intro kept names c member
    exact names_cleanStep names (Bytes.not_mem_of_mem_splitOn c member)
  intro c member
  rw [cleaned, absolute] at member
  exact kept c (List.mem_reverse.mp member)

theorem foldl_cleanStep_names {cs : List Bytes} (names : ∀ c ∈ cs, IsName c) (rooted : Bool) (kept : List Bytes) :
    cs.foldl (cleanStep rooted) kept = cs.reverse ++ kept := by
  induction cs generalizing kept with
  | nil => rfl
  | cons c cs ih =>
      obtain ⟨name, names⟩ := List.forall_mem_cons.mp names
      rw [List.foldl_cons, cleanStep_push name.counts name.notUp, ih names, List.reverse_cons, List.append_assoc]
      rfl

theorem components_slash (t : Bytes) : components (slash :: t) = [] :: components t := by
  rw [components, Bytes.splitOn, if_pos (beq_self_eq_true slash)]
  rfl

theorem isAbs_slash (t : Bytes) : isAbs (slash :: t) = true := by simp [isAbs]

theorem exists_slash {p : Bytes} (absolute : isAbs p = true) : ∃ t, p = slash :: t := by
  cases p with
  | nil => simp [isAbs] at absolute
  | cons b t => exact ⟨t, by simpa [isAbs] using absolute⟩

/-- Names put together behind slashes are found again by cleaning. -/
theorem cleaned_ofComponents {cs : List Bytes} (names : ∀ c ∈ cs, IsName c) :
    cleaned (ofComponents true cs) = cs := by
  have step : cleanStep true [] [] = [] := rfl
  rw [ofComponents, if_pos rfl, cleaned, isAbs_slash, components_slash, List.foldl_cons, step]
  cases cs with
  | nil => rfl
  | cons c cs =>
      rw [components, Bytes.splitOn_join (by simp) fun c member => (names c member).free,
        foldl_cleanStep_names names, List.append_nil, List.reverse_reverse]

theorem clean_of_isAbs {p : Bytes} (absolute : isAbs p = true) : clean p = ofComponents true (cleaned p) := by
  rw [clean, absolute]

theorem isAbs_clean {p : Bytes} (absolute : isAbs p = true) : isAbs (clean p) = true := by
  rw [clean_of_isAbs absolute, ofComponents, if_pos rfl]
  exact isAbs_slash _

theorem clean_clean {p : Bytes} (absolute : isAbs p = true) : clean (clean p) = clean p := by
  rw [clean_of_isAbs (isAbs_clean absolute), clean_of_isAbs absolute, cleaned_ofComponents (names_cleaned absolute)]

/-! ## Lengths -/

/-- How much room components take, each with a slash. -/
def room (cs : List Bytes) : Nat := total (cs.map fun c => c.length + 1)

theorem room_cons (c : Bytes) (cs : List Bytes) : room (c :: cs) = c.length + 1 + room cs := rfl

theorem room_reverse (cs : List Bytes) : room cs.reverse = room cs := by
  rw [room, List.map_reverse, total_reverse]
  rfl

theorem room_splitOn (t : Bytes) (sep : UInt8) : room (Bytes.splitOn t sep) = t.length + 1 := by
  fun_induction Bytes.splitOn t sep with
  | case1 => rfl
  | case2 b rest same ih =>
      rw [room_cons, ih, List.length_cons, List.length_nil]
      omega
  | case3 b rest _ none => exact absurd none (Bytes.splitOn_ne_nil rest sep)
  | case4 b rest _ piece pieces split ih =>
      rw [split, room_cons] at ih
      rw [room_cons, List.length_cons, List.length_cons]
      omega

theorem length_join (cs : List Bytes) : (Bytes.join [slash] cs).length = room cs - 1 := by
  fun_induction Bytes.join [slash] cs with
  | case1 => rfl
  | case2 c => simp [room, total]
  | case3 c cs more ih =>
      obtain ⟨next, cs, rfl⟩ := List.exists_cons_of_ne_nil more
      have others := room_cons next cs
      rw [List.length_append, List.length_append, ih, room_cons c, List.length_singleton]
      omega

theorem room_cleanStep_le (rooted : Bool) (kept : List Bytes) (c : Bytes) :
    room (cleanStep rooted kept c) ≤ room kept + (c.length + 1) := by
  unfold cleanStep
  split
  · exact Nat.le_add_right _ _
  split
  · rename_i back
    obtain rfl := eq_of_beq back
    -- two dots are left out, take a name away or are kept
    split
    · split
      · exact Nat.zero_le _
      · exact Nat.le_add_left _ _
    · rename_i last rest
      split
      · exact Nat.le_of_eq (Nat.add_comm _ _)
      · rw [room_cons]
        omega
  · exact Nat.le_of_eq (Nat.add_comm _ _)

theorem room_foldl_cleanStep_le (rooted : Bool) (kept cs : List Bytes) :
    room (cs.foldl (cleanStep rooted) kept) ≤ room kept + room cs := by
  induction cs generalizing kept with
  | nil => exact Nat.le_refl _
  | cons c cs ih =>
      have step := room_cleanStep_le rooted kept c
      have rest := ih (cleanStep rooted kept c)
      rw [List.foldl_cons, room_cons]
      omega

theorem length_clean_le {p : Bytes} (absolute : isAbs p = true) : (clean p).length ≤ p.length := by
  obtain ⟨t, rfl⟩ := exists_slash absolute
  -- the slash in front makes an empty component, which takes no room
  have kept : room (cleaned (slash :: t)) ≤ t.length + 1 := by
    have start : cleanStep true [] [] = [] := rfl
    rw [cleaned, room_reverse, isAbs_slash, components_slash, List.foldl_cons, start, components,
      ← room_splitOn t slash]
    exact Nat.le_trans (room_foldl_cleanStep_le true [] _) (Nat.le_of_eq (Nat.zero_add _))
  rw [clean_of_isAbs absolute, ofComponents, if_pos rfl, List.length_cons, length_join, List.length_cons]
  omega

/-! ## Absolute paths -/

/-- The path starts with a slash and is clean. -/
structure IsCanonical (p : Bytes) : Prop where
  absolute : isAbs p = true
  clean : clean p = p

theorem isCanonical_clean {p : Bytes} (absolute : isAbs p = true) : IsCanonical (clean p) :=
  ⟨isAbs_clean absolute, clean_clean absolute⟩

theorem abs_of_isAbs (cwd : Bytes) {p : Bytes} (absolute : isAbs p = true) : abs cwd p = clean p := by
  rw [abs, if_pos absolute]

theorem IsCanonical.abs_eq {p : Bytes} (canonical : IsCanonical p) (cwd : Bytes) : abs cwd p = p := by
  rw [abs_of_isAbs cwd canonical.absolute, canonical.clean]

theorem isCanonical_abs {cwd : Bytes} (absolute : isAbs cwd = true) (p : Bytes) : IsCanonical (abs cwd p) := by
  by_cases own : isAbs p = true
  · rw [abs_of_isAbs cwd own]
    exact isCanonical_clean own
  · obtain ⟨t, rfl⟩ := exists_slash absolute
    rw [abs, if_neg own, join]
    cases p with
    | nil => simpa [Bytes.join] using isCanonical_clean absolute
    | cons b rest => simpa [Bytes.join] using isCanonical_clean (isAbs_slash (t ++ slash :: b :: rest))

/-! ## Relative paths

A relative path keeps the two dots that it starts with. Put behind a directory they take names away there, the same
names whether the path was cleaned before or not.
-/

theorem counts_cleanStep {own : List Bytes} (counts : ∀ d ∈ own, Counts d) (c : Bytes) :
    ∀ d ∈ cleanStep false own c, Counts d := by
  by_cases idle : Counts c
  · by_cases back : c = up
    · subst back
      cases own with
      | nil => exact List.forall_mem_singleton.mpr counts_up
      | cons last rest =>
          by_cases again : last = up
          · subst again
            exact List.forall_mem_cons.mpr ⟨counts_up, counts⟩
          · rw [cleanStep_up_of_ne again]
            exact (List.forall_mem_cons.mp counts).2
    · rw [cleanStep_push idle back]
      exact List.forall_mem_cons.mpr ⟨idle, counts⟩
  · rw [cleanStep_skip idle]
    exact counts

/-- One more component of a relative path, behind what is kept already: a name of the path that two dots take away is
    on top there as well. -/
theorem foldl_cleanStep_cleanStep {own : List Bytes} (counts : ∀ d ∈ own, Counts d) (kept : List Bytes) (c : Bytes) :
    (cleanStep false own c).reverse.foldl (cleanStep true) kept =
      cleanStep true (own.reverse.foldl (cleanStep true) kept) c := by
  by_cases idle : Counts c
  · by_cases back : c = up
    · subst back
      cases own with
      | nil => rfl
      | cons last rest =>
          by_cases again : last = up
          · subst again
            have stays : cleanStep false (up :: rest) up = up :: up :: rest := rfl
            rw [stays, List.reverse_cons, List.foldl_append]
            rfl
          · have last_counts := (List.forall_mem_cons.mp counts).1
            rw [cleanStep_up_of_ne again, List.reverse_cons, List.foldl_append, List.foldl_cons, List.foldl_nil,
              cleanStep_push last_counts again, cleanStep_up_of_ne again]
    · rw [cleanStep_push idle back, List.reverse_cons, List.foldl_append]
      rfl
  · rw [cleanStep_skip idle, cleanStep_skip idle]

/-- Cleaning components on their own before they are cleaned behind others changes nothing. -/
theorem foldl_cleaned (kept cs : List Bytes) :
    (cs.foldl (cleanStep false) []).reverse.foldl (cleanStep true) kept = cs.foldl (cleanStep true) kept := by
  induction cs using List.reverseRecOn with
  | nil => rfl
  | append_singleton cs c ih =>
      have counts : ∀ d ∈ cs.foldl (cleanStep false) [], Counts d :=
        List.foldlRecOn (motive := fun own => ∀ d ∈ own, Counts d) cs _ (List.forall_mem_nil _)
          fun own counts c _ => counts_cleanStep counts c
      rw [List.foldl_append, List.foldl_append, ← ih]
      exact foldl_cleanStep_cleanStep counts kept c

/-! ## Paths seen from a directory -/

/-- The place of a relative path in a directory. -/
def inside (dir p : Bytes) : Bytes := clean (dir ++ slash :: p)

/-- Behind whatever is kept, the two paths lead to the same place. -/
def SamePlace (p q : Bytes) : Prop :=
  ∀ kept, (components p).foldl (cleanStep true) kept = (components q).foldl (cleanStep true) kept

theorem components_append (p q : Bytes) : components (p ++ slash :: q) = components p ++ components q :=
  Bytes.splitOn_append_sep p slash q

theorem components_of_not_mem {p : Bytes} (free : slash ∉ p) : components p = [p] := Bytes.splitOn_of_not_mem free

theorem isAbs_append {p : Bytes} (absolute : isAbs p = true) (q : Bytes) : isAbs (p ++ q) = true := by
  obtain ⟨t, rfl⟩ := exists_slash absolute
  exact isAbs_slash (t ++ q)

/-- The components of a path go on where those of the directory have come to. -/
theorem inside_eq {dir : Bytes} (rooted : isAbs dir = true) (p : Bytes) :
    inside dir p = ofComponents true ((components p).foldl (cleanStep true) (cleaned dir).reverse).reverse := by
  rw [inside, clean_of_isAbs (isAbs_append rooted _), cleaned, isAbs_append rooted, components_append,
    List.foldl_append, cleaned, rooted, List.reverse_reverse]

theorem SamePlace.inside_eq {p q : Bytes} (same : SamePlace p q) {dir : Bytes} (rooted : isAbs dir = true) :
    inside dir p = inside dir q := by
  rw [Path.inside_eq rooted, Path.inside_eq rooted, same]

/-- A slash at the end adds no name. -/
theorem inside_nil {dir : Bytes} (rooted : isAbs dir = true) : inside dir [] = clean dir := by
  have nothing : (components []).foldl (cleanStep true) (cleaned dir).reverse = (cleaned dir).reverse := rfl
  rw [inside_eq rooted, clean_of_isAbs rooted, nothing, List.reverse_reverse]

/-- A relative path that is put behind a directory is cleaned there. -/
theorem join_eq_inside {dir : Bytes} (rooted : isAbs dir = true) (p : Bytes) : join [dir, p] = inside dir p := by
  obtain ⟨t, rfl⟩ := exists_slash rooted
  cases p with
  | nil =>
      rw [inside_nil rooted]
      simp [join, Bytes.join]
  | cons b rest => simp [join, Bytes.join, inside]

theorem mem_foldl_cleanStep {rooted : Bool} {cs : List Bytes} :
    ∀ c ∈ cs.foldl (cleanStep rooted) [], c ∈ cs ∨ c = up := by
  refine List.foldlRecOn (motive := fun kept => ∀ c ∈ kept, c ∈ cs ∨ c = up) _ _ (List.forall_mem_nil _) ?_
  intro kept known c among
  unfold cleanStep
  split
  · exact known
  split
  · split
    · split
      · exact List.forall_mem_nil _
      · exact List.forall_mem_singleton.mpr (.inr rfl)
    · split
      · exact List.forall_mem_cons.mpr ⟨.inr rfl, known⟩
      · exact (List.forall_mem_cons.mp known).2
  · exact List.forall_mem_cons.mpr ⟨.inl among, known⟩

theorem free_of_mem_cleaned {p c : Bytes} (member : c ∈ cleaned p) : slash ∉ c := by
  obtain own | rfl := mem_foldl_cleanStep c (List.mem_reverse.mp member)
  · exact Bytes.not_mem_of_mem_splitOn c own
  · decide

/-- Components that hold no slash are found again in the relative path that is made of them. -/
theorem components_ofComponents {cs : List Bytes} (free : ∀ c ∈ cs, slash ∉ c) :
    components (ofComponents false cs) = if cs = [] then [here] else cs := by
  rw [ofComponents, if_neg Bool.false_ne_true]
  split
  · rename_i none
    rw [if_pos (List.isEmpty_iff.mp none)]
    rfl
  · rename_i some
    have some : cs ≠ [] := fun none => some (List.isEmpty_iff.mpr none)
    rw [if_neg some]
    exact Bytes.splitOn_join some free

theorem components_clean {p : Bytes} (relative : isAbs p = false) :
    components (clean p) = if cleaned p = [] then [here] else cleaned p := by
  rw [clean, relative]
  exact components_ofComponents fun c => free_of_mem_cleaned

theorem samePlace_clean {p : Bytes} (relative : isAbs p = false) : SamePlace (clean p) p := by
  intro kept
  have own := foldl_cleaned kept (components p)
  rw [← relative] at own
  rw [components_clean relative, ← own]
  change _ = (cleaned p).foldl (cleanStep true) kept
  split
  · rename_i none
    rw [none]
    rfl
  · rfl

/-! ## White space at the end -/

theorem components_trimEnd (p : Bytes) :
    ∃ cs c, components p = cs ++ [c] ∧ components (Bytes.trimEnd p) = cs ++ [Bytes.trimEnd c] := by
  by_cases member : slash ∈ p
  · obtain ⟨front, last, rfl, free⟩ := Bytes.exists_last member
    have freeEnd : slash ∉ Bytes.trimEnd last := fun among => free ((Bytes.trimEnd_prefix last).subset among)
    refine ⟨components front, last, ?_, ?_⟩
    · rw [components_append, components_of_not_mem free]
    · rw [Bytes.trimEnd_append (by decide) (by decide), components_append, components_of_not_mem freeEnd]
  · have freeEnd : slash ∉ Bytes.trimEnd p := fun among => member ((Bytes.trimEnd_prefix p).subset among)
    exact ⟨[], p, components_of_not_mem member, components_of_not_mem freeEnd⟩

/-- Cleaning keeps what no two dots stand behind. -/
theorem foldl_cleanStep_stays {cs : List Bytes} (noUp : up ∉ cs) (rooted : Bool) (kept : List Bytes) :
    ∃ more, cs.foldl (cleanStep rooted) kept = more ++ kept := by
  induction cs generalizing kept with
  | nil => exact ⟨[], rfl⟩
  | cons c cs ih =>
      obtain ⟨other, noUp⟩ : up ≠ c ∧ up ∉ cs := by simpa using noUp
      rw [List.foldl_cons]
      by_cases counts : Counts c
      · obtain ⟨more, found⟩ := ih noUp (c :: kept)
        rw [cleanStep_push counts other.symm]
        exact ⟨more ++ [c], by rw [found, List.append_assoc]; rfl⟩
      · rw [cleanStep_skip counts]
        exact ih noUp kept

theorem cleaned_of_stays {p named : Bytes} {before behind : List Bytes} (relative : isAbs p = false)
    (split : components p = before ++ named :: behind) (counts : Counts named) (other : named ≠ up) (noUp : up ∉ behind) :
    ∃ more, cleaned p = (before.foldl (cleanStep false) []).reverse ++ named :: more := by
  obtain ⟨more, found⟩ := foldl_cleanStep_stays noUp false (named :: before.foldl (cleanStep false) [])
  refine ⟨more.reverse, ?_⟩
  rw [cleaned, relative, split, List.foldl_append, List.foldl_cons, cleanStep_push counts other, found]
  simp

/-- The components of a front that ends in front of the first `mark`. -/
theorem components_takeWhile {mark : UInt8} (other : mark ≠ slash) {t c : Bytes} {before behind : List Bytes}
    (split : components t = before ++ c :: behind) (clear : ∀ d ∈ before, mark ∉ d) (holds : mark ∈ c) :
    components (t.takeWhile (· != mark)) = before ++ [c.takeWhile (· != mark)] := by
  have member : mark ∈ t := by
    refine (Bytes.mem_iff_mem_splitOn other).mpr ⟨c, ?_, holds⟩
    exact (show Bytes.splitOn t slash = _ from split) ▸ List.mem_append_right _ List.mem_cons_self
  obtain ⟨u, v, rfl, free⟩ := List.eq_append_cons_of_mem member
  obtain ⟨front, last, first, more, own, next, whole⟩ := Bytes.splitOn_glue slash u (mark :: v)
  have clear' : ∀ d ∈ front ++ [last], mark ∉ d := fun d among inside =>
    free ((Bytes.mem_iff_mem_splitOn other).mpr ⟨d, own ▸ among, inside⟩)
  obtain ⟨piece, rfl⟩ : ∃ piece, first = mark :: piece := by
    have alone : slash ∉ [mark] := by simpa using Ne.symm other
    obtain ⟨piece, pieces, _, split⟩ := Bytes.splitOn_append alone v
    exact ⟨piece, (List.cons.inj (next.symm.trans split)).1⟩
  -- the first component with a mark is the same one in both divisions
  have first_marked (ds : List Bytes) (d : Bytes) (rest : List Bytes) (clear : ∀ d ∈ ds, mark ∉ d) (holds : mark ∈ d) :
      (ds ++ d :: rest).takeWhile (fun d => decide (mark ∉ d)) = ds := by
    rw [List.takeWhile_append_of_pos fun d among => by simpa using clear d among,
      List.takeWhile_cons_of_neg (by simpa using holds), List.append_nil]
  have same : front ++ (last ++ mark :: piece) :: more = before ++ c :: behind := whole.symm.trans split
  obtain rfl : front = before := by
    have cut := congrArg (List.takeWhile fun d => decide (mark ∉ d)) same
    rwa [first_marked _ _ _ (fun d among => clear' d (List.mem_append_left _ among)) (by simp),
      first_marked _ _ _ clear holds] at cut
  obtain ⟨rfl, -⟩ := List.cons.inj (List.append_cancel_left same)
  rw [Bytes.takeWhile_mark free, Bytes.takeWhile_mark (clear' last (by simp))]
  exact own

end Colloquy.Path
