import Colloquy.Proofs.Preview.Excerpt
import Colloquy.Server.Overlay

/-! # Settings that fit

The waiting time is a product of 64-bit words, and a preview reads one byte more than its limit. Settings are accepted
by their sign alone, so both may leave the range of a word. The main statement says which settings are safe: all but
the very long waiting times, and all limits but the greatest.
-/

namespace Colloquy

namespace Preview

/-- A file of valid UTF-8 without NUL is shown as text, whatever the limit, unless no more can be read than the limit:
then nothing is read of it. -/
theorem kind_ofFile {content : Bytes} (filled : content ≠ []) (valid : Bytes.isUtf8 content = true)
    (plain : 0 ∉ content) {limit : Int64} (pos : 1 ≤ limit) (path : Bytes) :
    (ofFile limit path content).kind = if limit = Int64.maxValue then .empty else .text := by
  by_cases greatest : limit = Int64.maxValue
  · subst greatest
    have none : (Int64.maxValue + 1).toNatClampNeg = 0 := by decide
    rw [if_pos rfl, ofFile, none, List.take_zero]
    rfl
  · have below := Int64.lt_of_le_of_ne (Int64.le_iff_toInt_le.mpr limit.toInt_le) greatest
    have succ := toNatClampNeg_add_one pos below
    obtain ⟨n, bound, shown⟩ := exists_shown valid limit.toNatClampNeg
    have some : (content.take (limit.toNatClampNeg + 1)).isEmpty = false := by
      rw [List.isEmpty_eq_false_iff, Ne, List.take_eq_nil_iff]
      exact fun none => none.elim (Nat.succ_ne_zero _) filled
    have cut : (content.take (limit.toNatClampNeg + 1)).length > limit.toNatClampNeg ↔
        limit.toNatClampNeg < content.length := by
      rw [List.length_take]
      omega
    have clear : (content.take n).any (· == 0) = false := by
      rw [List.any_eq_false]
      intro b member
      rw [beq_iff_eq]
      rintro rfl
      exact plain (List.mem_of_mem_take member)
    have whole : Bytes.isUtf8 (content.take n) = true := (Bytes.isUtf8_boundary valid bound.1.1).1
    rw [if_neg greatest]
    simp only [ofFile, succ, some, cut, shown, clear, whole, Bool.not_true, Bool.or_self, Bool.false_eq_true, if_false]

/-- The preview of a target that leads to a file. A limit that is not positive is none. -/
theorem ofTarget_file {host : Host} {dir target path content : Bytes}
    (leads : Target.localPath? host dir target = some path) (single : Target.isPattern path = false)
    (file : host.stat path = .ok (.file content)) (limits : PreviewLimits) :
    ofTarget host limits dir target = ofFile (if limits.bytes ≤ 0 then 2048 else limits.bytes) path content := by
  rw [ofTarget]
  simp only [leads, single, file, PreviewLimits.effective, Bool.false_eq_true, if_false]

end Preview

namespace Settings

/-- The longest waiting time, in milliseconds, whose nanoseconds are a 64-bit word. -/
def longestWait : Int64 := 9223372036854

variable {s : Settings}

theorem toInt_debounce (short : s.debounceMs ≤ longestWait) : s.debounce.toInt = max s.debounceMs.toInt 0 * 1000000 := by
  rw [Int64.le_iff_toInt_le] at short
  have bound : longestWait.toInt = 9223372036854 := by decide
  have million : (1000000 : Int64).toInt = 1000000 := by decide
  have zero : (0 : Int64).toInt = 0 := rfl
  rw [debounce]
  by_cases none : s.debounceMs ≤ 0
  · rw [if_pos none]
    rw [Int64.le_iff_toInt_le] at none
    omega
  · rw [if_neg none, Int64.toInt_mul, million]
    rw [Int64.le_iff_toInt_le] at none
    rw [Int.bmod_eq_of_le (by omega) (by omega)]
    omega

/-- The waiting time is as long as it was set exactly if that is at most the longest. -/
theorem toInt_debounce_iff :
    s.debounce.toInt = max s.debounceMs.toInt 0 * 1000000 ↔ s.debounceMs ≤ longestWait := by
  constructor
  · intro exact
    rw [Int64.le_iff_toInt_le]
    have bound : longestWait.toInt = 9223372036854 := by decide
    have word := s.debounce.toInt_lt
    omega
  · exact toInt_debounce

theorem debounce_nonneg (short : s.debounceMs ≤ longestWait) : 0 ≤ s.debounce := by
  have zero : (0 : Int64).toInt = 0 := rfl
  rw [Int64.le_iff_toInt_le, toInt_debounce short]
  omega

theorem debounce_mono {s' : Settings} (le : s'.debounceMs ≤ s.debounceMs) (short : s.debounceMs ≤ longestWait) :
    s'.debounce ≤ s.debounce := by
  rw [Int64.le_iff_toInt_le, toInt_debounce short, toInt_debounce (Int64.le_trans le short)]
  rw [Int64.le_iff_toInt_le] at le
  omega

/-! ## Settings that change -/

/-- The numbers are of the sign that is asked of them. -/
structure IsSigned (s : Settings) : Prop where
  wait : 0 ≤ s.debounceMs
  preview : 0 < s.previewBytes

theorem isSigned_default : default.IsSigned := ⟨by decide, by decide⟩

theorem choose_passes {α : Type} (test : α → Bool) (value : Option α) {current : α} (passes : test current = true) :
    test (Overlay.choose test value current) = true := by
  cases value with
  | none => exact passes
  | some a =>
      cases own : test a with
      | true => simp [Overlay.choose, Option.filter_some, own]
      | false => simp [Overlay.choose, Option.filter_some, own, passes]

/-- What an editor sends leaves the signs as they are. -/
theorem IsSigned.applyLive (signed : s.IsSigned) (sent : Option Json) : (s.applyLive sent).IsSigned := by
  unfold Settings.applyLive
  cases sent.bind Overlay.ofJson? with
  | none => exact signed
  | some o =>
      have wait := choose_passes (fun n : Int64 => decide (n ≥ 0)) o.debounceMs (decide_eq_true signed.wait)
      have preview := choose_passes (fun n : Int64 => decide (n > 0)) o.previewBytes
        (decide_eq_true signed.preview)
      exact ⟨of_decide_eq_true wait, of_decide_eq_true preview⟩

theorem IsSigned.applyAll (signed : s.IsSigned) (sent : List (Option Json)) :
    (sent.foldl Settings.applyLive s).IsSigned :=
  List.foldlRecOn sent _ signed fun _ signed sent _ => signed.applyLive sent

/-- Whatever a settings file and an editor say: the waiting time is what was set, or none for a negative number, exactly
if it is not longer than the longest, and as far as that it is not negative and grows with the number. A file of valid
UTF-8 without NUL that is not empty is previewed as text, unless the limit is the greatest word: then it is reported as
empty. Without a settings file all numbers keep the signs of the defaults. -/
theorem settings_fit_unless_huge (host : Host) (file : Bytes) (sent : List (Option Json)) :
    let s := sent.foldl Settings.applyLive (Settings.load host file).1
    (file = [] → s.IsSigned) ∧
    (s.debounce.toInt = max s.debounceMs.toInt 0 * 1000000 ↔ s.debounceMs ≤ longestWait) ∧
    (s.debounceMs ≤ longestWait → 0 ≤ s.debounce ∧ ∀ s' : Settings, s'.debounceMs ≤ s.debounceMs →
      s'.debounce ≤ s.debounce) ∧
    ∀ dir target path content, Target.localPath? host dir target = some path → Target.isPattern path = false →
      host.stat path = .ok (.file content) → content ≠ [] → Bytes.isUtf8 content = true → 0 ∉ content →
      (Preview.ofTarget host ⟨s.previewBytes, s.globLimit⟩ dir target).kind =
        if s.previewBytes = Int64.maxValue then .empty else .text := by
  intro s
  refine ⟨?_, toInt_debounce_iff, ?_, ?_⟩
  · rintro rfl
    exact isSigned_default.applyAll sent
  · intro short
    exact ⟨debounce_nonneg short, fun s' le => debounce_mono le short⟩
  · intro dir target path content leads single read filled valid plain
    rw [Preview.ofTarget_file leads single read]
    by_cases none : s.previewBytes ≤ 0
    · have small : s.previewBytes ≠ Int64.maxValue := by
        intro greatest
        rw [greatest] at none
        exact absurd none (by decide)
      have two : (2048 : Int64) ≠ Int64.maxValue := by decide
      rw [if_pos none, Preview.kind_ofFile filled valid plain (by decide), if_neg two, if_neg small]
    · have pos : 1 ≤ s.previewBytes := by
        have one : (1 : Int64).toInt = 1 := rfl
        have zero : (0 : Int64).toInt = 0 := rfl
        rw [Int64.le_iff_toInt_le] at none ⊢
        omega
      rw [if_neg none, Preview.kind_ofFile filled valid plain pos]

/-- An editor sets the waiting time to half a second and the limit to the greatest word but one. -/
theorem settings_fit_unless_huge_live :
    let host : Host := ⟨FileTree.empty.add (utf8 "/d/a.txt") (.file (utf8 "ä")), utf8 "/", []⟩
    let sent := Json.parse? (utf8 "\x7b\"lectic\": \x7b\"debounceMs\": 500, \"previewBytes\": 9223372036854775806\x7d\x7d")
    let s := [sent].foldl Settings.applyLive (Settings.load host []).1
    Target.localPath? host (utf8 "/d") (utf8 "a.txt") = some (utf8 "/d/a.txt") ∧
      host.stat (utf8 "/d/a.txt") = .ok (.file (utf8 "ä")) ∧ Bytes.isUtf8 (utf8 "ä") = true ∧
      s.IsSigned ∧ s.debounce.toInt = 500000000 ∧
      (Preview.ofTarget host ⟨s.previewBytes, s.globLimit⟩ (utf8 "/d") (utf8 "a.txt")).kind = .text := by
  intro host sent s
  have leads : Target.localPath? host (utf8 "/d") (utf8 "a.txt") = some (utf8 "/d/a.txt") := by decide +kernel
  have read : host.stat (utf8 "/d/a.txt") = .ok (.file (utf8 "ä")) := by decide +kernel
  have valid : Bytes.isUtf8 (utf8 "ä") = true := by decide
  have wait : s.debounceMs = 500 := by decide +kernel
  have limit : s.previewBytes ≠ Int64.maxValue := by decide +kernel
  obtain ⟨signed, exactly, -, shown⟩ := settings_fit_unless_huge host [] [sent]
  have time := exactly.mpr (wait ▸ by decide)
  have text := shown (utf8 "/d") (utf8 "a.txt") _ _ leads (by decide) read (by decide) valid (by decide)
  rw [if_neg limit] at text
  rw [wait] at time
  exact ⟨leads, read, valid, signed rfl, time, text⟩

/-- A waiting time of 292 years is negative, and with the greatest limit a file of two letters is reported as empty. -/
theorem huge_settings_overflow :
    let host : Host := ⟨FileTree.empty.add (utf8 "/d/a.txt") (.file (utf8 "hi")), utf8 "/", []⟩
    let sent := Json.parse?
      (utf8 "\x7b\"lectic\": \x7b\"debounceMs\": 9223372036855, \"previewBytes\": 9223372036854775807\x7d\x7d")
    let s := Settings.default.applyLive sent
    s.debounce < 0 ∧ (Preview.ofTarget host ⟨s.previewBytes, s.globLimit⟩ (utf8 "/d") (utf8 "a.txt")).kind = .empty := by
  decide +kernel

end Settings

end Colloquy
