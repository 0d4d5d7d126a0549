import Colloquy.Proofs.Expansion.Recursion

/-! # Expansion and its depth

The depth bound decides whether a result is reached, never which one. With more room an expansion that succeeded
succeeds with the same text, whatever the expansions invoke, themselves included. `Unfolds` is expansion without a
bound, as a relation: a text unfolds to what some depth lets it expand to, and to nothing else.
-/

namespace Colloquy.Expansions

/-- Expand a text that stands inside `depth` invocations. -/
def expandAt (x : Expansions) (depth : Int) (text : Bytes) : Except ExpansionFault Bytes :=
  x.expand (maxDepth - depth).toNat text

variable {x : Expansions}

theorem expand_mono_call (c : Nat × Bytes) : ∀ {room' : Nat} {out : Bytes}, c.1 ≤ room' →
    x.expand c.1 c.2 = .ok out → x.expand room' c.2 = .ok out := by
  -- On the calls: the body of an invocation may be longer than the text, contents may have as much room.
  induction c using (wellFounded_call x).induction with
  | _ c ih =>
      obtain ⟨room, text⟩ := c
      intro room' out le done
      obtain ⟨pieces, succeeded, rfl⟩ := expand_eq_ok_iff.mp done
      refine expand_eq_ok_iff.mpr ⟨pieces, mapM_eq_ok_of_imp ?_ succeeded, rfl⟩
      intro d member piece replaced
      rw [replacement_eq_ok_iff] at replaced ⊢
      obtain ⟨m, less, invoked, rfl, expanded⟩ | ⟨stays, plain, contents, expanded, rfl⟩ := replaced
      · obtain ⟨less', rfl⟩ : ∃ less', room' = less' + 1 := ⟨room' - 1, by omega⟩
        exact .inl ⟨m, less', invoked, rfl, ih _ (.invoked member invoked) (by simp only; omega) expanded⟩
      · exact .inr ⟨stays, plain, contents, ih _ (.contents member stays plain) le expanded, rfl⟩

/-- More room keeps a result. -/
theorem expand_mono {room room' : Nat} {text out : Bytes} (le : room ≤ room')
    (done : x.expand room text = .ok out) : x.expand room' text = .ok out :=
  expand_mono_call (room, text) le done

theorem replacement_mono {room room' : Nat} {text piece : Bytes} {d : Directive} (le : room ≤ room')
    (done : x.replacement room text d = .ok piece) : x.replacement room' text d = .ok piece := by
  rw [replacement_eq_ok_iff] at done ⊢
  obtain ⟨m, less, invoked, rfl, expanded⟩ | ⟨stays, plain, contents, expanded, rfl⟩ := done
  · obtain ⟨less', rfl⟩ : ∃ less', room' = less' + 1 := ⟨room' - 1, by omega⟩
    exact .inl ⟨m, less', invoked, rfl, expand_mono (by omega) expanded⟩
  · exact .inr ⟨stays, plain, contents, expand_mono le expanded, rfl⟩

/-! ## Without a bound -/

/-- What the text from `last` on, where the given directives stand, becomes when invocations may nest as deep as
they do. -/
inductive UnfoldsFrom (x : Expansions) : (text : Bytes) → (last : Nat) → List Directive → (out : Bytes) → Prop where
  | rest {text : Bytes} {last : Nat} : UnfoldsFrom x text last [] (text.drop last)
  /-- What a directive invokes takes its place. -/
  | invoked {text : Bytes} {last : Nat} {d : Directive} {ds : List Directive} {m : Macro} {piece out : Bytes} :
      x.invoked? d.key (d.inner.of text) = some m →
      UnfoldsFrom x (body m (argument d.key (d.inner.of text))) 0
        (directives (body m (argument d.key (d.inner.of text)))) piece →
      UnfoldsFrom x text d.extent.stop ds out →
      UnfoldsFrom x text last (d :: ds) (text.slice last d.extent.start ++ piece ++ out)
  /-- Another directive stays around what its contents become. -/
  | stays {text : Bytes} {last : Nat} {d : Directive} {ds : List Directive} {contents out : Bytes} :
      x.invoked? d.key (d.inner.of text) = none → d.key ≠ Builtin.macroKey →
      UnfoldsFrom x (d.inner.of text) 0 (directives (d.inner.of text)) contents →
      UnfoldsFrom x text d.extent.stop ds out →
      UnfoldsFrom x text last (d :: ds) (text.slice last d.extent.start ++ refilled text d contents ++ out)

/-- Expansion without a bound on its depth. -/
def Unfolds (x : Expansions) (text out : Bytes) : Prop := UnfoldsFrom x text 0 (directives text) out

theorem unfoldsFrom_of_mapM {room : Nat} {text : Bytes} {ds : List Directive} {pieces : List Bytes} (last : Nat)
    (calls : ∀ c, Call x c (room, text) → ∀ out, x.expand c.1 c.2 = .ok out → x.Unfolds c.2 out)
    (listed : ∀ d ∈ ds, d ∈ directives text) (done : ds.mapM (x.replacement room text) = .ok pieces) :
    UnfoldsFrom x text last ds (stitched text last ds pieces) := by
  rw [mapM_eq_ok_iff] at done
  induction done generalizing last with
  | nil => exact .rest
  | @cons d piece ds pieces head _ ih =>
      obtain ⟨member, others⟩ := List.forall_mem_cons.mp listed
      have behind := ih d.extent.stop others
      obtain ⟨m, less, invoked, rfl, expanded⟩ | ⟨stays, plain, contents, expanded, rfl⟩ :=
        replacement_eq_ok_iff.mp head
      · exact .invoked invoked (calls _ (.invoked member invoked) _ expanded) behind
      · exact .stays stays plain (calls _ (.contents member stays plain) _ expanded) behind

/-- A result within the bound is one without it. -/
theorem unfolds_of_expand (c : Nat × Bytes) : ∀ out, x.expand c.1 c.2 = .ok out → x.Unfolds c.2 out := by
  induction c using (wellFounded_call x).induction with
  | _ c ih =>
      intro out done
      obtain ⟨pieces, succeeded, rfl⟩ := expand_eq_ok_iff.mp done
      exact unfoldsFrom_of_mapM 0 ih (fun d member => member) succeeded

/-- A result without a bound needs some depth only: the deepest of what its parts need. -/
theorem exists_room_of_unfoldsFrom {text : Bytes} {last : Nat} {ds : List Directive} {out : Bytes}
    (unfolds : UnfoldsFrom x text last ds out) :
    ∃ room pieces, ds.mapM (x.replacement room text) = .ok pieces ∧ stitched text last ds pieces = out := by
  have combine : ∀ {text : Bytes} {last room room' : Nat} {d : Directive} {ds : List Directive} {piece : Bytes}
      {pieces : List Bytes}, x.replacement room text d = .ok piece →
      ds.mapM (x.replacement room' text) = .ok pieces →
      ∃ room pieces', (d :: ds).mapM (x.replacement room text) = .ok pieces' ∧
        stitched text last (d :: ds) pieces' =
          text.slice last d.extent.start ++ piece ++ stitched text d.extent.stop ds pieces := by
    intro text last room room' d ds piece pieces head tail
    refine ⟨max room room', piece :: pieces, ?_, rfl⟩
    rw [mapM_cons_of_ok (replacement_mono (Nat.le_max_left room room') head),
      mapM_eq_ok_of_imp (fun d _ piece => replacement_mono (Nat.le_max_right room room')) tail]
    rfl
  induction unfolds with
  | rest => exact ⟨0, [], rfl, rfl⟩
  | invoked invoked _ _ ihPiece ihRest =>
      obtain ⟨room, inner, done, rfl⟩ := ihPiece
      obtain ⟨room', pieces, tail, rfl⟩ := ihRest
      have expanded := expand_eq_ok_iff.mpr ⟨inner, done, rfl⟩
      exact combine (replacement_eq_ok_iff.mpr (.inl ⟨_, room, invoked, rfl, expanded⟩)) tail
  | stays stays plain _ _ ihContents ihRest =>
      obtain ⟨room, inner, done, rfl⟩ := ihContents
      obtain ⟨room', pieces, tail, rfl⟩ := ihRest
      have expanded := expand_eq_ok_iff.mpr ⟨inner, done, rfl⟩
      exact combine (replacement_eq_ok_iff.mpr (.inr ⟨stays, plain, _, expanded, rfl⟩)) tail

theorem unfolds_iff_exists_room {text out : Bytes} :
    x.Unfolds text out ↔ ∃ room, x.expand room text = .ok out := by
  constructor
  · intro unfolds
    obtain ⟨room, pieces, done⟩ := exists_room_of_unfoldsFrom unfolds
    exact ⟨room, expand_eq_ok_iff.mpr ⟨pieces, done⟩⟩
  · rintro ⟨room, done⟩
    exact unfolds_of_expand (room, text) out done

/-- A text unfolds to one result at most. -/
theorem unfolds_unique {text out out' : Bytes} (unfolds : x.Unfolds text out) (unfolds' : x.Unfolds text out') :
    out' = out := by
  obtain ⟨room, done⟩ := unfolds_iff_exists_room.mp unfolds
  obtain ⟨room', done'⟩ := unfolds_iff_exists_room.mp unfolds'
  have deep := expand_mono (Nat.le_max_left room room') done
  rw [expand_mono (Nat.le_max_right room room') done'] at deep
  exact Except.ok.inj deep

/-- What expands inside more invocations expands inside fewer, to the same text. Expansion is a recursion whose
calls have less room, or as much and a shorter text, so it ends: with a text, with an unknown name or too deep. It
reaches, at some depth, each result of expansion without a bound, and no other; so a text that expands unfolds to
its expansion only. -/
theorem success_independent_of_depth (x : Expansions) :
    (∀ (outer inner : Int) (text out : Bytes), outer ≤ inner →
      x.expandAt inner text = .ok out → x.expandAt outer text = .ok out) ∧
    (∀ room text, x.expand room text =
      ((directives text).mapM (x.replacement room text)).map (stitched text 0 (directives text))) ∧
    (∀ a b, Call x a b → Prod.Lex (· < ·) (· < ·) (a.1, a.2.length) (b.1, b.2.length)) ∧
    WellFounded (Call x) ∧
    (∀ depth text, (∃ out, x.expandAt depth text = .ok out) ∨
      (∃ name, x.expandAt depth text = .error (.unknown name)) ∨
      ∃ name, x.expandAt depth text = .error (.tooDeep name)) ∧
    (∀ text out, x.Unfolds text out ↔ ∃ depth, x.expandAt depth text = .ok out) ∧
    (∀ text out, x.expandText text = .ok out → ∀ out', x.Unfolds text out' ↔ out' = out) := by
  refine ⟨?_, expand_eq x, fun a b call => call.decreases, wellFounded_call x, ?_, ?_, ?_⟩
  · intro outer inner text out le done
    exact expand_mono (by omega) done
  · intro depth text
    cases x.expandAt depth text with
    | ok out => exact .inl ⟨out, rfl⟩
    | error fault =>
        cases fault with
        | unknown name => exact .inr (.inl ⟨name, rfl⟩)
        | tooDeep name => exact .inr (.inr ⟨name, rfl⟩)
  · intro text out
    rw [unfolds_iff_exists_room]
    constructor
    · rintro ⟨room, done⟩
      refine ⟨maxDepth - room, ?_⟩
      rw [expandAt, Int.sub_sub_self, Int.toNat_natCast]
      exact done
    · rintro ⟨depth, done⟩
      exact ⟨_, done⟩
  · intro text out done out'
    have unfolds : x.Unfolds text out := unfolds_of_expand (maxDepth, text) out done
    constructor
    · intro unfolds'
      exact unfolds_unique unfolds unfolds'
    · rintro rfl
      exact unfolds

end Colloquy.Expansions
