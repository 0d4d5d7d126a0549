import Colloquy.Proofs.Config.Layer
import Colloquy.Proofs.Text.LineIndex

/-! # Where the entries of a layer lie

Lines and columns of nodes are trusted only as far as the text goes, so every span that a layer is given lies in
the stretch of the file that holds the layer's text. The lemmas follow the reading of a layer function by
function, with the stretch as a parameter, and end in `Decoded.within`.
-/

namespace Colloquy

/-- The spans that a tool is given lie in the stretch; a tool without a target has no span for it. -/
structure Tool.Within (lo hi : Nat) (t : Tool) : Prop where
  span : t.span.Inside lo hi
  target : t.targetSpan = ⟨0, 0⟩ ∨ t.targetSpan.Inside lo hi

structure Hook.Within (lo hi : Nat) (h : Hook) : Prop where
  span : h.span.Inside lo hi
  events : ∀ e ∈ h.events, e.span.Inside lo hi

structure Hooks.Within (lo hi : Nat) (h : Hooks) : Prop where
  span : h.span.Inside lo hi
  items : ∀ i ∈ h.items, i.Within lo hi

structure Interlocutor.Within (lo hi : Nat) (it : Interlocutor) : Prop where
  name : it.nameSpan.Inside lo hi
  model : it.declared.model = true → it.modelSpan.Inside lo hi
  tools : ∀ t ∈ it.tools, t.Within lo hi
  hooks : ∀ h ∈ it.hooks, h.Within lo hi

structure Kit.Within (lo hi : Nat) (k : Kit) : Prop where
  name : k.nameSpan.Inside lo hi
  tools : ∀ t ∈ k.tools, t.Within lo hi

namespace Layer

/-- The spans of the layer's entries and of its fault lie in the stretch. -/
structure Within (lo hi : Nat) (l : Layer) : Prop where
  interlocutors : ∀ it ∈ l.interlocutors, it.Within lo hi
  macros : ∀ m ∈ l.macros, m.nameSpan.Inside lo hi
  kits : ∀ k ∈ l.kits, k.Within lo hi
  hooks : ∀ h ∈ l.hooks, h.Within lo hi
  interlocutorSpan : ∀ s ∈ l.interlocutorSpan, s.Inside lo hi
  fault : ∀ f ∈ l.fault, f.2.Inside lo hi

/-- The text takes the stretch from `lo` to `hi` of its file, and spans reach that far. -/
structure Ground.Fits (g : Ground) (lo hi : Nat) : Prop where
  lines : g.lines = LineIndex.ofText g.text
  base : g.base = lo
  length : lo + g.text.length = hi
  short : hi < 2 ^ 32

namespace Ground.Fits

variable {g : Ground} {lo hi : Nat}

theorem lineStart_le (fits : g.Fits lo hi) (line : Int) : g.lines.lineStart line ≤ g.text.length := by
  rw [fits.lines]
  exact LineIndex.lineStart_le g.text line

theorem offset_le (fits : g.Fits lo hi) (p : Yaml.Place) : g.offset p ≤ g.text.length := by
  unfold offset
  split
  · exact Nat.zero_le _
  · have inside := fits.lineStart_le ((p.line - 1 : Nat) : Int)
    generalize g.lines.lineStart ((p.line - 1 : Nat) : Int) = start at *
    have line : (Position.lineOf (g.text.drop start)).length ≤ (g.text.drop start).length :=
      (List.takeWhile_prefix (· != Bytes.lf)).length_le
    have columns := Bytes.widthOf_take_runes_le (p.column - 1) (Position.lineOf (g.text.drop start))
    rw [List.length_drop] at line
    simp only
    omega

theorem lineSpan (fits : g.Fits lo hi) {offset : Nat} (le : offset ≤ g.text.length) :
    (g.lineSpan offset).Inside lo hi := by
  have length := fits.length
  have short := fits.short
  have line := Span.inside_restOfLine (by omega) le
  have moved := line.shift (n := lo) (by omega)
  rw [Ground.lineSpan, fits.base]
  exact moved.widen (by omega) (by omega)

theorem nodeSpan (fits : g.Fits lo hi) (n : Yaml.Node) : (g.nodeSpan n).Inside lo hi :=
  fits.lineSpan (fits.offset_le n.place)

theorem valueSpan (fits : g.Fits lo hi) (n : Yaml.Node) : (g.valueSpan n).Inside lo hi := by
  cases n with
  | scalar place value style isNull =>
      have length := fits.length
      have short := fits.short
      have inside := fits.offset_le place
      have line := Span.inside_restOfLine (t := g.text) (by omega) inside
      unfold Ground.valueSpan
      simp only [fits.base]
      generalize g.offset place = start at *
      have stop : ∀ n, min n (Span.restOfLine g.text start).stop.toNat ≤ g.text.length := by
        intro n
        exact Nat.le_trans (Nat.min_le_right _ _) line.2.2
      have moved : g.text.length + lo < 2 ^ 32 := by omega
      refine (Span.inside_of_moved moved ⟨Nat.zero_le _, inside⟩ ⟨Nat.zero_le _, stop _⟩).widen ?_ ?_
      · omega
      · omega
  | _ => exact fits.nodeSpan _

theorem tools (fits : g.Fits lo hi) (n : Yaml.Node) : ∀ t ∈ g.tools n, t.Within lo hi := by
  intro t member
  cases n with
  | sequence place items =>
      obtain ⟨item, _, found⟩ := List.mem_filterMap.mp member
      split at found
      · cases found
        exact ⟨fits.nodeSpan _, .inr (fits.valueSpan _)⟩
      · cases found
        exact ⟨fits.nodeSpan _, .inl rfl⟩
      · simp at found
  | _ => simp [Ground.tools] at member

theorem events (fits : g.Fits lo hi) (n : Yaml.Node) : ∀ e ∈ g.events n, e.span.Inside lo hi := by
  intro e member
  unfold Ground.events at member
  split at member
  · obtain rfl := List.mem_singleton.mp member
    exact fits.valueSpan _
  · obtain ⟨item, _, rfl⟩ := List.mem_map.mp member
    exact fits.valueSpan item
  · obtain rfl := List.mem_singleton.mp member
    exact fits.nodeSpan _

theorem hook (fits : g.Fits lo hi) (n : Yaml.Node) : (g.hook n).Within lo hi := by
  have start : Hook.Within lo hi ⟨g.nodeSpan n, [], false⟩ := ⟨fits.nodeSpan n, by simp⟩
  unfold Ground.hook
  simp only
  split
  · refine List.foldlRecOn _ _ start ?_
    intro h within e _
    split
    · exact { within with }
    split
    · refine { within with events := ?_ }
      intro event member
      obtain member | member := List.mem_append.mp member
      · exact within.events event member
      · exact fits.events e.2 event member
    · exact within
  · exact start

theorem hooks (fits : g.Fits lo hi) (n : Yaml.Node) : (g.hooks n).Within lo hi := by
  unfold Ground.hooks
  split
  · refine ⟨fits.nodeSpan _, ?_⟩
    intro i member
    obtain ⟨item, _, rfl⟩ := List.mem_map.mp member
    exact fits.hook item
  · exact ⟨fits.nodeSpan _, by simp⟩

theorem setField (fits : g.Fits lo hi) {it : Interlocutor} (within : it.Within lo hi)
    (e : Yaml.Node × Yaml.Node) : (g.setField it e).Within lo hi := by
  obtain ⟨key, value⟩ := e
  unfold Ground.setField
  simp only
  split
  · exact { within with name := fits.nodeSpan key }
  split
  · exact { within with }
  split
  · exact { within with }
  split
  · exact { within with model := fun _ => fits.nodeSpan key }
  split
  · exact { within with tools := fits.tools value }
  split
  · refine { within with hooks := ?_ }
    rintro _ ⟨⟩
    exact fits.hooks value
  · exact within

theorem interlocutor (fits : g.Fits lo hi) (n : Yaml.Node) (entries : List (Yaml.Node × Yaml.Node)) :
    (g.interlocutor n entries).Within lo hi := by
  unfold Ground.interlocutor
  apply List.foldlRecOn
  · exact ⟨fits.nodeSpan n, nofun, by simp, by simp⟩
  · exact fun it within e _ => fits.setField within e

theorem expansion? (fits : g.Fits lo hi) {n : Yaml.Node} {m : Macro} (found : g.expansion? n = some m) :
    m.nameSpan.Inside lo hi := by
  cases n with
  | mapping place entries =>
      unfold Ground.expansion? at found
      simp only at found
      split at found
      · simp at found
      · cases found
        refine List.foldlRecOn (motive := fun (m : Macro) => m.nameSpan.Inside lo hi) _ _ (fits.nodeSpan _) ?_
        intro m inside e _
        split
        · exact fits.nodeSpan e.1
        split
        · exact inside
        · exact inside
  | _ => simp [Ground.expansion?] at found

theorem kit? (fits : g.Fits lo hi) {n : Yaml.Node} {k : Kit} (found : g.kit? n = some k) :
    k.Within lo hi := by
  cases n with
  | mapping place entries =>
      unfold Ground.kit? at found
      simp only at found
      split at found
      · simp at found
      · cases found
        refine List.foldlRecOn (motive := fun (k : Kit) => k.Within lo hi) _ _ ⟨fits.nodeSpan _, by simp⟩ ?_
        intro k within e _
        split
        · exact { within with name := fits.nodeSpan e.1 }
        split
        · exact { within with tools := fits.tools e.2 }
        · exact within
  | _ => simp [Ground.kit?] at found

end Ground.Fits

theorem Read.within {g : Ground} {lo hi : Nat} {l : Layer} (read : Read g l) (fits : g.Fits lo hi) :
    l.Within lo hi where
  interlocutors := by
    intro it member
    obtain ⟨n, entries, rfl⟩ := read.interlocutors it member
    exact fits.interlocutor n entries
  macros := by
    intro m member
    obtain ⟨n, found⟩ := read.macros m member
    exact fits.expansion? found
  kits := by
    intro k member
    obtain ⟨n, found⟩ := read.kits k member
    exact fits.kit? found
  hooks := by
    intro h member
    obtain ⟨n, rfl⟩ := read.hooks h member
    exact fits.hooks n
  interlocutorSpan := by
    intro s member
    obtain ⟨n, rfl⟩ := read.interlocutorSpan s member
    exact fits.nodeSpan n
  fault := by
    intro f member
    obtain ⟨n, same⟩ | ⟨line, same⟩ := read.fault f member
    · exact same ▸ fits.nodeSpan n
    · exact same ▸ fits.lineSpan (fits.lineStart_le line)

theorem Decoded.within {source : Source} {text : Bytes} {base : Nat} {l : Layer}
    (decoded : Decoded source text base l) (short : base + text.length < 2 ^ 32) :
    l.Within base (base + text.length) :=
  decoded.read.within ⟨rfl, rfl, rfl, short⟩

end Layer

end Colloquy
