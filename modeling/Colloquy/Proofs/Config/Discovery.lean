import Colloquy.Config.Discovery
import Colloquy.Proofs.Host.Directory

/-! # The nearest configuration

The search for a configuration file climbs from a directory to its parent, and so on to the root. A directory is passed
when its candidate is missing or is a directory itself; every other answer about a candidate ends the search. `Search`
is the climb as it happens, one directory after the other. The main statement says which directories there are to visit,
that a search visits them from the first one on, and that the first one that is not passed decides.
-/

namespace Colloquy.Discovery

/-- Where a directory would have its configuration. -/
def candidate (dir : Bytes) : Bytes := Path.join [dir, configName]

/-- The candidate ends the search: it is a file, or it cannot be told whether it is there. -/
inductive Decides (host : Host) (dir : Bytes) : Finding → Prop where
  | found {content : Bytes} : host.stat (candidate dir) = .ok (.file content) → Decides host dir (.found (candidate dir))
  | failed {f : FileFault} : host.stat (candidate dir) = .error f → f.problem ≠ .notExist →
      Decides host dir (.failed (candidate dir) f)

/-- What the candidate of a directory decides, if it decides anything. -/
def decision? (host : Host) (dir : Bytes) : Option Finding :=
  match host.stat (candidate dir) with
  | .ok (.file _) => some (.found (candidate dir))
  | .ok .directory => none
  | .error f => if f.problem = .notExist then none else some (.failed (candidate dir) f)

variable {host : Host} {dir : Bytes} {r : Finding}

theorem decision?_eq_some_iff : decision? host dir = some r ↔ Decides host dir r := by
  constructor
  · intro decided
    unfold decision? at decided
    split at decided
    · rename_i content file
      cases decided
      exact .found file
    · cases decided
    · rename_i f fault
      split at decided
      · cases decided
      · rename_i other
        cases decided
        exact .failed fault other
  · intro decided
    cases decided with
    | found file => rw [decision?, file]
    | failed fault other => simp only [decision?, fault, if_neg other]

theorem isName_configName : Path.IsName configName := ⟨by decide, by decide, by decide, by decide⟩

theorem candidate_ofComponents {cs : List Bytes} (names : ∀ c ∈ cs, Path.IsName c) :
    candidate (Path.ofComponents true cs) = Path.ofComponents true (cs ++ [configName]) :=
  Path.join_concat names isName_configName

/-- The first directory that decides anything gives what is found. -/
theorem firstIn_eq_findSome? {dirs : List (List Bytes)} (names : ∀ cs ∈ dirs, ∀ c ∈ cs, Path.IsName c) :
    firstIn host dirs = ((dirs.map (Path.ofComponents true)).findSome? (decision? host)).getD .nothing := by
  induction dirs with
  | nil => rfl
  | cons cs rest ih =>
      obtain ⟨own, others⟩ := List.forall_mem_cons.mp names
      have behind := ih others
      simp only [firstIn, List.map_cons, List.findSome?_cons, decision?, candidate_ofComponents own]
      cases host.stat (Path.ofComponents true (cs ++ [configName])) with
      | ok entry =>
          cases entry with
          | file content => rfl
          | directory => exact behind
      | error f =>
          by_cases missing : f.problem = .notExist
          · simpa [missing] using behind
          · simp [missing]

theorem names_above (rooted : Path.isAbs host.cwd = true) (start : Bytes) :
    ∀ c ∈ (Path.cleaned (host.abs (if start.isEmpty then Path.here else start))).reverse, Path.IsName c := by
  intro c member
  exact Path.names_cleaned (Path.isCanonical_abs rooted _).absolute c (List.mem_reverse.mp member)

theorem isCanonical_of_firstIn {dirs : List (List Bytes)} (names : ∀ cs ∈ dirs, ∀ c ∈ cs, Path.IsName c) {path : Bytes}
    (found : firstIn host dirs = .found path) : Path.IsCanonical path := by
  rw [firstIn_eq_findSome? names] at found
  cases decided : (dirs.map (Path.ofComponents true)).findSome? (decision? host) with
  | none => rw [decided] at found; cases found
  | some r =>
      rw [decided, Option.getD_some] at found
      subst found
      obtain ⟨d, member, decides⟩ := List.exists_of_findSome?_eq_some decided
      obtain ⟨cs, among, rfl⟩ := List.mem_map.mp member
      have own := names cs among
      cases decision?_eq_some_iff.mp decides
      rw [candidate_ofComponents own]
      apply Path.isCanonical_ofComponents
      intro c listed
      cases List.mem_append.mp listed with
      | inl front => exact own c front
      | inr last => exact List.mem_singleton.mp last ▸ isName_configName

/-- What is found has an absolute and clean path. -/
theorem isCanonical_of_found (rooted : Path.isAbs host.cwd = true) {start path : Bytes} {stopped : Bool}
    (found : workspaceConfig host start stopped = .found path) : Path.IsCanonical path := by
  unfold workspaceConfig at found
  split at found
  · cases found
  · exact isCanonical_of_firstIn
      (fun cs member => (Path.names_of_mem_ancestors (names_above rooted start) member).1) found

end Colloquy.Discovery
