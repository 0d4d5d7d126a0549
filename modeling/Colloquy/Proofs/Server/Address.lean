import Colloquy.Proofs.Host.Path
import Colloquy.Proofs.Web.Escape
import Colloquy.Server.Uri

/-! # Files and their addresses

The address of a file is read back as its path with escapes resolved once too often. So a path is found again, and a
canonical address stays as it is, exactly if resolving the path would not change it.
-/

namespace Colloquy.Uri

open Web

/-- An escaped path holds no byte that has a meaning of its own in an address. -/
theorem not_mem_escape {b : UInt8} (other : b ≠ 0x25) (special : Part.path.allows b = false) (t : Bytes) :
    b ∉ escape .path t := by
  intro member
  obtain percent | allowed := mem_escape member
  · exact other percent
  · simp [special] at allowed

theorem cut_escape {b : UInt8} (front : Bytes) (before : b ∉ front) (other : b ≠ 0x25)
    (special : Part.path.allows b = false) (t : Bytes) :
    Url.cut (front ++ escape .path t) b = (front ++ escape .path t, []) := by
  have absent : b ∉ front ++ escape .path t := by
    simpa [before] using not_mem_escape other special t
  rw [Url.cut, Bytes.cut?_eq_none absent, Option.getD_none]

/-! ## Reading the address of a file -/

theorem escape_slash (t : Bytes) : escape .path (Path.slash :: t) = Path.slash :: escape .path t := by
  have allowed : Part.path.allows Path.slash = true := by decide
  rw [escape, List.flatMap_cons, if_pos allowed]
  rfl

theorem scheme?_file (rest : Bytes) :
    Url.scheme? (utf8 "file://" ++ rest) = some (fileScheme, utf8 "//" ++ rest) := by
  have front : utf8 "file://" = [0x66, 0x69, 0x6C, 0x65, 0x3A, 0x2F, 0x2F] := by decide
  have lower : Bytes.lowerAscii [0x66, 0x69, 0x6C, 0x65] = fileScheme := by decide
  have slashes : utf8 "//" = [0x2F, 0x2F] := by decide
  rw [front, slashes]
  simp [Url.scheme?, Bytes.isLetter, Bytes.isDigit, lower]

theorem withHierarchy?_file {u : Url} (scheme : u.scheme = fileScheme) (t : Bytes) :
    u.withHierarchy? (utf8 "//" ++ escape .path (Path.slash :: t)) = some { u with
      user := none, host := [], hasHost := true, path := Path.slash :: t
      writtenPath := escape .path (Path.slash :: t) } := by
  have slashes : utf8 "//" = [0x2F, 0x2F] := by decide
  have slash : utf8 "/" = [0x2F] := by decide
  have named : fileScheme.isEmpty = false := by decide
  have nobody : Url.authority? [] = some (none, []) := by decide
  have path := unescape?_escape (Path.slash :: t)
  rw [escape_slash] at path ⊢
  rw [Path.slash] at path ⊢
  simp [Url.withHierarchy?, Bytes.startsWith, scheme, named, slash, slashes, nobody, path]

/-- The address of a path has no control bytes. -/
theorem any_control_file (p : Bytes) :
    (utf8 "file://" ++ escape .path p).any (fun b => b < 0x20 || b == 0x7F) = false := by
  have control : ∀ b : UInt8, (b < 0x20 || b == 0x7F) = true → b ≠ 0x25 ∧ Part.path.allows b = false :=
    Bytes.forall_byte (by decide +kernel)
  rw [List.any_append, Bool.or_eq_false_iff]
  refine ⟨by decide, List.any_eq_false.mpr fun b member found => ?_⟩
  obtain ⟨other, special⟩ := control b found
  exact not_mem_escape other special p member

theorem parseMain?_file (t : Bytes) :
    ∃ u, Url.parseMain? (utf8 "file://" ++ escape .path (Path.slash :: t)) = some u ∧ u.scheme = fileScheme ∧
      u.path = Path.slash :: t := by
  have star : (utf8 "file://" ++ escape .path (Path.slash :: t) == utf8 "*") = false := by
    have front : utf8 "file://" = 0x66 :: utf8 "ile://" := by decide
    have star : utf8 "*" = [0x2A] := by decide
    simp [front, star]
  have noQuery := cut_escape (b := 0x3F) (utf8 "//") (by decide) (by decide) (by decide)
    (Path.slash :: t)
  have rooted : Bytes.startsWith (utf8 "//" ++ escape .path (Path.slash :: t)) (utf8 "/") = true := by
    have slashes : utf8 "//" = 0x2F :: [0x2F] := by decide
    have slash : utf8 "/" = [0x2F] := by decide
    simp [slashes, slash, Bytes.startsWith]
  simp only [Url.parseMain?, any_control_file, star, scheme?_file, noQuery, rooted, bind, Option.bind_some,
    Bool.false_eq_true, if_false, Bool.not_true, Bool.and_false]
  exact ⟨_, withHierarchy?_file rfl t, rfl, rfl⟩

/-- The address of an escaped path is read as the path. -/
theorem parse?_file {p : Bytes} (absolute : Path.isAbs p = true) :
    ∃ u, Url.parse? (utf8 "file://" ++ escape .path p) = some u ∧ u.scheme = fileScheme ∧ u.path = p := by
  obtain ⟨t, rfl⟩ := Path.exists_slash absolute
  obtain ⟨u, main, scheme, path⟩ := parseMain?_file t
  have noFragment := cut_escape (b := 0x23) (utf8 "file://") (by decide) (by decide)
    (by decide) (Path.slash :: t)
  refine ⟨{ u with fragment := [], writtenFragment := [] }, ?_, scheme, path⟩
  simp only [Url.parse?, noFragment, main, bind, Option.bind_some]
  rfl

/-! ## Paths and canonical addresses -/

theorem ofPath_eq {p : Bytes} (canonical : Path.IsCanonical p) (cwd : Bytes) :
    ofPath cwd p = utf8 "file://" ++ escape .path p := by
  obtain ⟨t, rfl⟩ := Path.exists_slash canonical.absolute
  rw [ofPath, canonical.abs_eq]
  rfl

theorem ofPath_inj {cwd p q : Bytes} (first : Path.IsCanonical p) (second : Path.IsCanonical q) :
    ofPath cwd p = ofPath cwd q ↔ p = q := by
  rw [ofPath_eq first, ofPath_eq second, List.append_cancel_left_eq]
  exact ⟨escape_inj, congrArg _⟩

/-- Every path that an address means is absolute and clean. -/
theorem isCanonical_path? {cwd t p : Bytes} (absolute : Path.isAbs cwd = true) (read : path? cwd t = some p) :
    Path.IsCanonical p := by
  unfold path? at read
  split at read
  · simp at read
  · simp only [bind, Option.bind_eq_some_iff] at read
    obtain ⟨u, -, read⟩ := read
    split at read
    · simp at read
    · exact Option.some.inj read ▸ Path.isCanonical_abs absolute _

/-- The file that the address of a file is taken for: escapes in its path are resolved. -/
def taken (p : Bytes) : Bytes := Path.clean (resolved p)

theorem isAbs_resolved {p : Bytes} (absolute : Path.isAbs p = true) : Path.isAbs (resolved p) = true := by
  obtain ⟨t, rfl⟩ := Path.exists_slash absolute
  rw [resolved_plain (by decide)]
  exact Path.isAbs_slash _

theorem isCanonical_taken {p : Bytes} (absolute : Path.isAbs p = true) : Path.IsCanonical (taken p) :=
  Path.isCanonical_clean (isAbs_resolved absolute)

theorem taken_eq_self_iff {p : Bytes} (canonical : Path.IsCanonical p) : taken p = p ↔ ¬ HasEscapes p := by
  constructor
  · intro same escaped
    -- an escape is longer than what it stands for, and cleaning adds nothing
    have shorter := length_resolved_lt escaped
    have cleaned := Path.length_clean_le (isAbs_resolved canonical.absolute)
    rw [← taken, same] at cleaned
    omega
  · intro plain
    rw [taken, resolved_of_not plain, canonical.clean]

theorem path?_ofPath {p : Bytes} (canonical : Path.IsCanonical p) (cwd : Bytes) :
    path? cwd (ofPath cwd p) = some (taken p) := by
  obtain ⟨u, read, scheme, path⟩ := parse?_file canonical.absolute
  have some : (utf8 "file://" ++ escape .path p).isEmpty = false := by
    have front : utf8 "file://" = 0x66 :: utf8 "ile://" := by decide
    simp [front]
  have named : fileScheme.isEmpty = false := by decide
  rw [ofPath_eq canonical, taken, ← Path.abs_of_isAbs cwd (isAbs_resolved canonical.absolute)]
  simp only [path?, some, read, bind, Option.bind_some, scheme, named, path, bne_self_eq_false, Bool.and_false,
    Bool.false_eq_true, if_false]
  rfl

theorem canonical_ofPath {p : Bytes} (canonical : Path.IsCanonical p) (cwd : Bytes) :
    Uri.canonical cwd (ofPath cwd p) = ofPath cwd (taken p) := by
  rw [Uri.canonical, path?_ofPath canonical]

/-- The path of a file is found again in its address, and a canonical address stays what it is, unless there are
escapes in the path: these are resolved, although writing the address has not put them there. Two files have one
address if resolving makes one of them. -/
theorem round_trip_unless_escapes (cwd : Bytes) (absolute : Path.isAbs cwd = true) :
    (∀ p, Path.IsCanonical p →
      path? cwd (ofPath cwd p) = some (taken p) ∧ (path? cwd (ofPath cwd p) = some p ↔ ¬ HasEscapes p)) ∧
    (∀ t, canonical cwd (canonical cwd t) = canonical cwd t ↔ ∀ p, path? cwd t = some p → ¬ HasEscapes p) ∧
    ∀ p q, Path.IsCanonical p → Path.IsCanonical q →
      (canonical cwd (ofPath cwd p) = canonical cwd (ofPath cwd q) ↔ taken p = taken q) := by
  refine ⟨fun p clean => ⟨path?_ofPath clean cwd, ?_⟩, fun t => ?_, fun p q first second => ?_⟩
  · rw [path?_ofPath clean, Option.some_inj]
    exact taken_eq_self_iff clean
  · cases read : path? cwd t with
    | none => simp [canonical, read]
    | some p =>
        have clean := isCanonical_path? absolute read
        have first : canonical cwd t = ofPath cwd p := by rw [canonical, read]
        rw [first, canonical_ofPath clean, ofPath_inj (isCanonical_taken clean.absolute) clean, taken_eq_self_iff clean]
        simp
  · rw [canonical_ofPath first, canonical_ofPath second]
    exact ofPath_inj (isCanonical_taken first.absolute) (isCanonical_taken second.absolute)

/-- A percent sign that starts no escape, and bytes that mean something in addresses, do no harm. -/
theorem round_trip_unless_escapes_percent :
    let p := utf8 "/w/50% of a?b#c"
    path? (utf8 "/w") (ofPath (utf8 "/w") p) = some p := by
  intro p
  have canonical : Path.IsCanonical p := ⟨by decide +kernel, by decide +kernel⟩
  refine (((round_trip_unless_escapes (utf8 "/w") (by decide +kernel)).1 p canonical).2).mpr fun escaped => ?_
  exact absurd escaped.2 (by decide +kernel)

/-- The file `/a%41` is taken for `/aA`: its path is not found again, one and the same address is canonical only
after two steps, and the two files share an entry. -/
theorem escapes_resolved_twice :
    let cwd := utf8 "/w"
    path? cwd (ofPath cwd (utf8 "/a%41")) = some (utf8 "/aA") ∧
    canonical cwd (canonical cwd (utf8 "file:///a%252541")) ≠ canonical cwd (utf8 "file:///a%252541") ∧
    canonical cwd (ofPath cwd (utf8 "/a%41")) = canonical cwd (ofPath cwd (utf8 "/aA")) := by
  decide

end Colloquy.Uri
