import Colloquy.Proofs.Host.Path
import Mathlib.Data.List.Chain
import Mathlib.Data.List.Nodup

/-! # Directories

The parent of a clean absolute path lacks its last name, and the root is its own parent. So climbing from parent to
parent comes to the root and passes every directory above the first one once. The way from a directory to another place
goes up once for each name of the directory that the place does not share, and then down the other names of the place.
Put behind the directory it leads there again.
-/

namespace Colloquy.Path

/-! ## Parents -/

section

variable {cs : List Bytes} {c : Bytes}

theorem IsCanonical.ne_nil {p : Bytes} (canonical : IsCanonical p) : p ≠ [] := by
  obtain ⟨t, rfl⟩ := exists_slash canonical.absolute
  exact List.cons_ne_nil _ _

theorem isCanonical_ofComponents (names : ∀ c ∈ cs, IsName c) : IsCanonical (ofComponents true cs) := by
  have absolute : isAbs (ofComponents true cs) = true := by
    rw [ofComponents, if_pos rfl]
    exact isAbs_slash _
  exact ⟨absolute, by rw [clean_of_isAbs absolute, cleaned_ofComponents names]⟩

theorem join_concat (names : ∀ d ∈ cs, IsName d) (name : IsName c) :
    join [ofComponents true cs, c] = ofComponents true (cs ++ [c]) := by
  have canonical := isCanonical_ofComponents names
  rw [join_eq_inside canonical.absolute, inside_eq canonical.absolute, cleaned_ofComponents names,
    components_of_not_mem name.free, List.foldl_cons, List.foldl_nil, cleanStep_push name.counts name.notUp,
    List.reverse_cons, List.reverse_reverse]

theorem ofComponents_inj {ds : List Bytes} (names : ∀ c ∈ cs, IsName c) (others : ∀ d ∈ ds, IsName d)
    (same : ofComponents true cs = ofComponents true ds) : cs = ds := by
  rw [← cleaned_ofComponents names, same, cleaned_ofComponents others]

theorem names_of_mem_ancestors {reversed ds : List Bytes} (names : ∀ c ∈ reversed, IsName c)
    (member : ds ∈ ancestors reversed) : (∀ d ∈ ds, IsName d) ∧ ds.length ≤ reversed.length := by
  induction reversed with
  | nil =>
      obtain rfl := List.mem_singleton.mp member
      exact ⟨List.forall_mem_nil _, Nat.le_refl _⟩
  | cons c rest ih =>
      cases member with
      | head =>
          refine ⟨fun d among => names d (List.mem_reverse.mp among), ?_⟩
          rw [List.length_reverse]
      | tail _ above =>
          obtain ⟨proper, short⟩ := ih (List.forall_mem_cons.mp names).2 above
          exact ⟨proper, Nat.le_succ_of_le short⟩

end

variable {base path : Bytes}

/-! ## Where two lists of names part -/

section

variable {as bs : List Bytes}

theorem dropCommon_front (as bs : List Bytes) :
    ∃ front, as = front ++ (dropCommon as bs).1 ∧ bs = front ++ (dropCommon as bs).2 := by
  fun_induction dropCommon as bs with
  | case1 a as b bs same ih =>
      obtain rfl := eq_of_beq same
      obtain ⟨front, left, right⟩ := ih
      exact ⟨a :: front, congrArg (a :: ·) left, congrArg (a :: ·) right⟩
  | case2 | case3 => exact ⟨[], rfl, rfl⟩

/-- Nothing is left of the first list exactly if the second one starts with it. -/
theorem dropCommon_fst_eq_nil_iff : (dropCommon as bs).1 = [] ↔ as <+: bs := by
  fun_induction dropCommon as bs with
  | case1 a as b bs same ih =>
      obtain rfl := eq_of_beq same
      rw [ih, List.prefix_cons_inj]
  | case2 a as b bs differ =>
      have differ : a ≠ b := fun same => differ (beq_iff_eq.mpr same)
      simp [List.cons_prefix_cons, differ]
  | case3 as bs short =>
      cases as with
      | nil => simp
      | cons a as =>
          cases bs with
          | nil => simp
          | cons b bs => exact absurd rfl (short a as b bs rfl)

theorem names_dropCommon (names : ∀ c ∈ as, IsName c) (others : ∀ c ∈ bs, IsName c) :
    (∀ c ∈ (dropCommon as bs).1, IsName c) ∧ ∀ c ∈ (dropCommon as bs).2, IsName c := by
  obtain ⟨front, left, right⟩ := dropCommon_front as bs
  rw [left] at names
  rw [right] at others
  exact ⟨fun c member => names c (List.mem_append_right front member),
    fun c member => others c (List.mem_append_right front member)⟩

theorem dropCommon_self (as : List Bytes) : dropCommon as as = ([], []) := by
  induction as with
  | nil => rfl
  | cons a as ih => rw [dropCommon, if_pos (beq_self_eq_true a), ih]

end

/-! ## The way from a directory to a place

The way goes down only if the place lies under the directory. Whether it does can be seen in its first two bytes, unless
the first name that it goes down begins with two dots.
-/

/-- The way that goes up some steps and then down some names. -/
def way (ups : Nat) (downs : List Bytes) : Bytes := ofComponents false (List.replicate ups up ++ downs)

/-- A relative path in its shortest form that leads from a directory to a place. -/
structure LeadsTo (base r path : Bytes) : Prop where
  relative : isAbs r = false
  clean : clean r = r
  arrives : join [base, r] = path

/-- The path is the directory or lies in it: its names begin with those of the directory. -/
def LiesUnder (base path : Bytes) : Prop := cleaned base <+: cleaned path

instance (base path : Bytes) : Decidable (LiesUnder base path) := inferInstanceAs (Decidable (_ <+: _))

/-- The names of a path behind those of a directory. -/
def namesBehind (base path : Bytes) : List Bytes := (cleaned path).drop (cleaned base).length

/-- The first name behind the directory begins with two dots. -/
def StartsDotted (base path : Bytes) : Prop := ∃ c ∈ (namesBehind base path).head?, up <+: c

instance (base path : Bytes) : Decidable (StartsDotted base path) :=
  inferInstanceAs (Decidable (∃ c ∈ (namesBehind base path).head?, up <+: c))

section

variable {cs downs kept : List Bytes} {ups : Nat}

theorem words_ofComponents (names : ∀ c ∈ cs, IsName c) : words (ofComponents true cs) = [] :: cs := by
  rw [ofComponents, if_pos rfl]
  cases cs with
  | nil => rfl
  | cons c cs =>
      have some : Bytes.join [slash] (c :: cs) ≠ [] := by
        obtain ⟨b, c, rfl⟩ := List.exists_cons_of_ne_nil (names c List.mem_cons_self).some
        cases cs <;> simp [Bytes.join]
      rw [words, if_neg (by simp), if_neg (by simpa using some), components_slash, components,
        Bytes.splitOn_join (by simp) fun c member => (names c member).free]

theorem ofComponents_cons (c : Bytes) (cs : List Bytes) :
    ∃ more, ofComponents false (c :: cs) = c ++ more ∧ ∀ b ∈ more.head?, b = slash := by
  cases cs with
  | nil => exact ⟨[], by simp [ofComponents, Bytes.join], by simp⟩
  | cons d cs => exact ⟨slash :: Bytes.join [slash] (d :: cs), by simp [ofComponents, Bytes.join], by simp⟩

theorem counts_of_mem_way (ups : Nat) (names : ∀ c ∈ downs, IsName c) :
    ∀ c ∈ List.replicate ups up ++ downs, Counts c ∧ slash ∉ c := by
  intro c member
  cases List.mem_append.mp member with
  | inl above =>
      obtain rfl := List.eq_of_mem_replicate above
      exact ⟨counts_up, by decide⟩
  | inr below => exact ⟨(names c below).counts, (names c below).free⟩

theorem isAbs_way (names : ∀ c ∈ downs, IsName c) : isAbs (way ups downs) = false := by
  have proper := counts_of_mem_way ups names
  rw [way]
  generalize List.replicate ups up ++ downs = cs at proper
  cases cs with
  | nil => rfl
  | cons c cs =>
      obtain ⟨counts, free⟩ := proper c List.mem_cons_self
      obtain ⟨b, c, rfl⟩ := List.exists_cons_of_ne_nil counts.1
      have other : b ≠ slash := by
        rintro rfl
        exact free List.mem_cons_self
      obtain ⟨more, written, -⟩ := ofComponents_cons (b :: c) cs
      rw [written]
      simpa [isAbs] using other

theorem components_way (names : ∀ c ∈ downs, IsName c) : components (way ups downs) =
    if List.replicate ups up ++ downs = [] then [here] else List.replicate ups up ++ downs :=
  components_ofComponents fun c member => (counts_of_mem_way ups names c member).2

/-- Going up from a directory takes its last names away. -/
theorem foldl_cleanStep_up (names : ∀ k ∈ kept, IsName k) (n : Nat) :
    (List.replicate n up).foldl (cleanStep true) kept = kept.drop n := by
  induction n generalizing kept with
  | zero => rfl
  | succ n ih =>
      rw [List.replicate_succ, List.foldl_cons, cleanStep_up names,
        ih fun k member => names k (List.mem_of_mem_tail member), List.drop_tail]

/-- Behind nothing, going up is kept. -/
theorem foldl_cleanStep_up_relative (m n : Nat) :
    (List.replicate n up).foldl (cleanStep false) (List.replicate m up) = List.replicate (m + n) up := by
  induction n generalizing m with
  | zero => rfl
  | succ n ih =>
      have stays : cleanStep false (List.replicate m up) up = List.replicate (m + 1) up := by
        cases m with
        | zero => rfl
        | succ m => rfl
      rw [List.replicate_succ, List.foldl_cons, stays, ih, Nat.add_assoc, Nat.add_comm 1]

theorem clean_way (names : ∀ c ∈ downs, IsName c) : clean (way ups downs) = way ups downs := by
  suffices same : cleaned (way ups downs) = List.replicate ups up ++ downs by
    rw [clean, isAbs_way names, same, way]
  rw [cleaned, isAbs_way names, components_way names]
  split
  · rename_i none
    rw [none]
    rfl
  · have above := foldl_cleanStep_up_relative 0 ups
    rw [List.replicate_zero, Nat.zero_add] at above
    rw [List.foldl_append, above, foldl_cleanStep_names names, List.reverse_append, List.reverse_reverse,
      List.reverse_replicate]

/-- Behind a directory, the way up its last names and down others leads to these others. -/
theorem join_way {front ups : List Bytes} (names : ∀ c ∈ front ++ ups, IsName c) (others : ∀ c ∈ downs, IsName c) :
    join [ofComponents true (front ++ ups), way ups.length downs] = ofComponents true (front ++ downs) := by
  have reversed : ∀ k ∈ (front ++ ups).reverse, IsName k := fun k member => names k (List.mem_reverse.mp member)
  have folded : (components (way ups.length downs)).foldl (cleanStep true) (front ++ ups).reverse =
      (front ++ downs).reverse := by
    have steps : (List.replicate ups.length up ++ downs).foldl (cleanStep true) (front ++ ups).reverse =
        (front ++ downs).reverse := by
      rw [List.foldl_append, foldl_cleanStep_up reversed, foldl_cleanStep_names others, List.reverse_append,
        List.drop_left' (List.length_reverse), ← List.reverse_append]
    rw [components_way others]
    split
    · rename_i none
      rw [none] at steps
      exact steps
    · exact steps
  have rooted := isCanonical_ofComponents names
  rw [join_eq_inside rooted.absolute, inside_eq rooted.absolute, cleaned_ofComponents names, folded,
    List.reverse_reverse]

/-- The way from one directory to another place, by the names that they do not share. -/
theorem rel?_ofComponents {bs ps : List Bytes} (names : ∀ c ∈ bs, IsName c) (others : ∀ c ∈ ps, IsName c) :
    rel? (ofComponents true bs) (ofComponents true ps) =
      some (way (dropCommon bs ps).1.length (dropCommon bs ps).2) := by
  have rooted := isCanonical_ofComponents names
  have placed := isCanonical_ofComponents others
  rw [rel?, rooted.clean, placed.clean]
  by_cases same : ofComponents true bs = ofComponents true ps
  · obtain rfl := ofComponents_inj names others same
    rw [if_pos (beq_self_eq_true _), dropCommon_self]
    rfl
  · have notHere : (ofComponents true bs == here) = false := by
      obtain ⟨t, begins⟩ := exists_slash rooted.absolute
      rw [begins]
      rfl
    have parted : dropCommon ([] :: bs) ([] :: ps) = dropCommon bs ps := by
      rw [dropCommon, if_pos (beq_self_eq_true _)]
    obtain ⟨front, left, right⟩ := dropCommon_front bs ps
    obtain ⟨properUps, properDowns⟩ := names_dropCommon names others
    rw [if_neg (by simpa using same)]
    simp only [notHere, Bool.false_eq_true, if_false, rooted.absolute, placed.absolute, bne_self_eq_false,
      words_ofComponents names, words_ofComponents others, parted]
    generalize dropCommon bs ps = rest at left right properUps properDowns
    obtain ⟨ups, downs⟩ := rest
    have notUp : ups.head? ≠ some up := fun first => (properUps up (List.mem_of_head? first)).notUp rfl
    have all : downs.filter (· != here) = downs :=
      List.filter_eq_self.mpr fun c member => by simpa using (properDowns c member).notHere
    have some : ups.map (fun _ => up) ++ downs ≠ [] := by
      intro none
      obtain ⟨noUps, rfl⟩ := List.append_eq_nil_iff.mp none
      obtain rfl := List.map_eq_nil_iff.mp noUps
      exact same (congrArg _ (left.trans right.symm))
    rw [if_neg (by simp [notUp]), all, way, ofComponents, if_neg Bool.false_ne_true, ← List.map_const',
      if_neg (by simpa using some)]

/-- Two dots in front of the way stand for going up, or they begin the first name. -/
theorem startsWith_way (names : ∀ c ∈ downs, IsName c) :
    Bytes.startsWith (way ups downs) up = true ↔ 0 < ups ∨ ∃ c ∈ downs.head?, up <+: c := by
  rw [Bytes.startsWith, List.isPrefixOf_iff_prefix]
  cases ups with
  | succ ups =>
      obtain ⟨more, written, -⟩ := ofComponents_cons up (List.replicate ups up ++ downs)
      rw [way, List.replicate_succ, List.cons_append, written]
      simp
  | zero =>
      cases downs with
      | nil => decide
      | cons c cs =>
          obtain ⟨more, written, behind⟩ := ofComponents_cons c cs
          obtain ⟨b, c, rfl⟩ := List.exists_cons_of_ne_nil (names c List.mem_cons_self).some
          rw [way, List.replicate_zero, List.nil_append, written]
          cases c with
          | cons d c => simp [up]
          | nil =>
              -- a name of one byte has a slash behind it, or nothing
              cases more with
              | nil => simp
              | cons d more =>
                  obtain rfl := behind d rfl
                  simp [up, slash]

end

theorem rel?_of_isCanonical (dir : IsCanonical base) (place : IsCanonical path) :
    rel? base path = some
      (way (dropCommon (cleaned base) (cleaned path)).1.length (dropCommon (cleaned base) (cleaned path)).2) := by
  have found := rel?_ofComponents (names_cleaned dir.absolute) (names_cleaned place.absolute)
  rwa [← clean_of_isAbs dir.absolute, ← clean_of_isAbs place.absolute, dir.clean, place.clean] at found

theorem leadsTo_of_rel? {r : Bytes} (dir : IsCanonical base) (place : IsCanonical path) (found : rel? base path = some r) :
    LeadsTo base r path := by
  rw [rel?_of_isCanonical dir place, Option.some_inj] at found
  have names := names_cleaned dir.absolute
  have downs := (names_dropCommon names (names_cleaned place.absolute)).2
  rw [← found]
  refine ⟨isAbs_way downs, clean_way downs, ?_⟩
  obtain ⟨front, left, right⟩ := dropCommon_front (cleaned base) (cleaned path)
  have joined := join_way (left ▸ names) downs
  rwa [← left, ← right, ← clean_of_isAbs dir.absolute, ← clean_of_isAbs place.absolute, dir.clean, place.clean]
    at joined

/-- The names behind a directory are what is left of a path that lies under it. -/
theorem dropCommon_of_liesUnder (under : LiesUnder base path) :
    dropCommon (cleaned base) (cleaned path) = ([], namesBehind base path) := by
  have none := dropCommon_fst_eq_nil_iff.mpr under
  obtain ⟨front, left, right⟩ := dropCommon_front (cleaned base) (cleaned path)
  rw [none, List.append_nil] at left
  refine Prod.ext none ?_
  have rest := congrArg (List.drop front.length) right
  rw [List.drop_left] at rest
  exact rest.symm.trans (congrArg (fun names => (cleaned path).drop names.length) left.symm)

end Colloquy.Path
