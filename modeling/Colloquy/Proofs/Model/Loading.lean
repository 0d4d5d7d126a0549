import Colloquy.Proofs.Model.Traffic

/-! # Lists that are being loaded

A list is marked as loading for a call that is to store it, or to give the mark up. The mark outlives all calls in one
case only: a call fails and gives the mark up, and before it lands, the list is marked for a new call, which comes upon
the old one and shares its failure.
-/

namespace Colloquy

/-- The names of the call are stored. -/
def Stage.isStored : Stage → Bool
  | .stored | .settled (.ok _) => true
  | _ => false

/-- The call has failed, and is still in flight. -/
def Stage.hasFailed : Stage → Bool
  | .settled (.error _) => true
  | _ => false

/-- A call for a provider may have yet to store its list, or to give up the mark. -/
def Call.IsPendingFor (c : Call) (p : Bytes) : Prop := c.provider = p ∧ c.stage.isPending = true

instance (c : Call) (p : Bytes) : Decidable (c.IsPendingFor p) := inferInstanceAs (Decidable (_ ∧ _))

/-- A move that does not ask first whether a list is marked. -/
def Move.revives (p : Bytes) : Move → Bool
  | .seed q _ => q == p
  | .fetch q => q == p
  | _ => false

namespace Traffic

def HasPending (x : Traffic) (p : Bytes) : Prop := ∃ c ∈ x.calls, c.IsPendingFor p

/-- All calls for a provider are over. -/
def IsQuiet (x : Traffic) (p : Bytes) : Prop := ∀ c ∈ x.calls, c.provider = p → c.stage.result?.isSome = true

instance (x : Traffic) (p : Bytes) : Decidable (x.HasPending p) := inferInstanceAs (Decidable (∃ c ∈ x.calls, _))

instance (x : Traffic) (p : Bytes) : Decidable (x.IsQuiet p) := inferInstanceAs (Decidable (∀ c ∈ x.calls, _))

/-- By its step a call joins one that has failed, and has given up the mark already. -/
def joinsLate (x : Traffic) (p : Bytes) : Move → Bool
  | .step i => x.calls[i]? == some ⟨p, .made⟩ && ((x.leader? p).bind (x.calls[·]?)).any (·.stage.hasFailed)
  | _ => false

/-- No call joins another one too late. -/
def timely (x : Traffic) (p : Bytes) : List Move → Bool
  | [] => true
  | m :: moves => !x.joinsLate p m && (x.next m).timely p moves

/-! ## Calls -/

section

variable {x : Traffic} {p : Bytes} {i : Nat} {c c' : Call}

theorem hasPending_append (r : Registry) : HasPending ⟨r, x.calls ++ [c]⟩ p ↔ x.HasPending p ∨ c.IsPendingFor p := by
  simp [HasPending, or_and_right, exists_or]

theorem hasPending_set (r : Registry) (here : x.calls[i]? = some c) (same : c'.IsPendingFor p ↔ c.IsPendingFor p) :
    HasPending ⟨r, x.calls.set i c'⟩ p ↔ x.HasPending p := by
  constructor
  · rintro ⟨d, member, pending⟩
    obtain old | rfl := List.mem_or_eq_of_mem_set member
    · exact ⟨d, old, pending⟩
    · exact ⟨c, List.mem_of_getElem? here, same.mp pending⟩
  · rintro ⟨d, member, pending⟩
    obtain ⟨j, there⟩ := List.mem_iff_getElem?.mp member
    by_cases moved : i = j
    · obtain rfl : c = d := Option.some.inj (here.symm.trans (moved ▸ there))
      exact ⟨c', List.mem_set (List.getElem?_eq_some_iff.mp here).1 c', same.mpr pending⟩
    · exact ⟨d, List.mem_of_getElem? ((List.getElem?_set_ne moved).trans there), pending⟩

/-- The leader is a call for the provider, and is in flight. -/
theorem leader?_eq_some {j : Nat} (led : x.leader? p = some j) :
    ∃ stage, x.calls[j]? = some ⟨p, stage⟩ ∧ stage.isFlying = true := by
  obtain ⟨inside, flying, -⟩ := List.findIdx?_eq_some_iff_getElem.mp led
  simp only [Bool.and_eq_true, beq_iff_eq] at flying
  exact ⟨x.calls[j].stage, by rw [List.getElem?_eq_getElem inside, ← flying.1], flying.2⟩

theorem proceed_made (q : Bytes) :
    (x.proceed ⟨q, .made⟩).2 = .entered ∨ ∃ j, (x.proceed ⟨q, .made⟩).2 = .joined j := by
  simp only [proceed]
  cases x.leader? q with
  | none => exact .inl rfl
  | some j => exact .inr ⟨j, rfl⟩

theorem proceed_joined (q : Bytes) (j : Nat) :
    (x.proceed ⟨q, .joined j⟩).2 = .joined j ∨ ∃ result, (x.proceed ⟨q, .joined j⟩).2 = .ended result := by
  simp only [proceed]
  cases x.calls[j]?.bind (·.stage.result?) with
  | none => exact .inl rfl
  | some result => exact .inr ⟨result, rfl⟩

theorem state_proceed_other (other : c.provider ≠ p) : (x.proceed c).1.state p = x.registry.state p := by
  obtain ⟨q, stage⟩ := c
  cases stage with
  | entered => exact (Registry.state_begin ..).trans (if_neg fun both => other both.1)
  | told reply =>
      cases reply with
      | ok names => exact (Registry.state_seed ..).trans (if_neg other)
      | error cause => exact (Registry.state_finish_error _ _ cause _).trans (if_neg fun both => other both.1)
  | _ => rfl

/-- A call that is not pending for a provider does nothing to its list, and stays so. -/
theorem proceed_unconcerned (unconcerned : ¬ c.IsPendingFor p) :
    (x.proceed c).1.state p = x.registry.state p ∧ ¬ Call.IsPendingFor ⟨c.provider, (x.proceed c).2⟩ p := by
  by_cases mine : c.provider = p
  · have later : c.stage.isPending ≠ true := fun pending => unconcerned ⟨mine, pending⟩
    obtain ⟨q, stage⟩ := c
    cases stage with
    | made | entered | asked | told => exact absurd rfl later
    | stored | settled | ended => exact ⟨rfl, fun pending => nomatch pending.2⟩
    | joined j =>
        refine ⟨rfl, fun pending => ?_⟩
        obtain eq | ⟨_, eq⟩ := proceed_joined q j (x := x)
        all_goals
          rw [eq] at pending
          cases pending.2
  · exact ⟨state_proceed_other mine, fun pending => mine pending.1⟩

end

/-! ## Names that are stored -/

/-- Where a call has stored its names, there is a list. -/
def StoredKnown (x : Traffic) (p : Bytes) : Prop :=
  ∀ c ∈ x.calls, c.provider = p → c.stage.isStored = true → x.registry.IsKnown p

theorem StoredKnown.start (fetchable : List Bytes) (p : Bytes) : (start fetchable).StoredKnown p := by
  simp [StoredKnown, Traffic.start]

theorem StoredKnown.next {x y : Traffic} {m : Move} {p : Bytes} (sound : x.StoredKnown p) (moved : Moved x m y) :
    y.StoredKnown p := by
  -- Calls that are as they were have a list that is still known.
  have kept : ∀ c ∈ x.calls, c.provider = p → c.stage.isStored = true → y.registry.IsKnown p :=
    fun c member mine stored => isKnown_of_moved moved (sound c member mine stored)
  intro c member mine stored
  cases moved with
  | idle | seeded => exact kept c member mine stored
  | ensured =>
      obtain old | new := List.mem_append.mp member
      · exact kept c old mine stored
      · obtain rfl := List.mem_singleton.mp new
        cases stored
  | called q new =>
      obtain old | added := List.mem_append.mp member
      · exact kept c old mine stored
      · obtain rfl := List.mem_singleton.mp added
        obtain rfl | rfl := new <;> cases stored
  | replied here reply =>
      obtain old | rfl := List.mem_or_eq_of_mem_set member
      · exact kept c old mine stored
      · cases stored
  | @stepped i d here =>
      obtain old | rfl := List.mem_or_eq_of_mem_set member
      · exact kept c old mine stored
      · obtain ⟨q, stage⟩ := d
        obtain rfl : q = p := mine
        cases stage with
        | told reply =>
            cases reply with
            | ok names => exact Registry.isKnown_seed ..
            | error cause => cases stored
        | stored => exact kept ⟨q, .stored⟩ (List.mem_of_getElem? here) rfl rfl
        | made =>
            obtain eq | ⟨_, eq⟩ := proceed_made q (x := x)
            all_goals
              rw [eq] at stored
              cases stored
        | joined j =>
            obtain eq | ⟨_, eq⟩ := proceed_joined q j (x := x)
            all_goals
              rw [eq] at stored
              cases stored
        | _ => cases stored

/-! ## Marks -/

/-- A list that is marked is marked for some call. -/
def Attended (x : Traffic) (p : Bytes) : Prop := x.registry.state p = .loading → x.HasPending p

/-- A call that joins another one leaves the mark to it, unless that one has failed. -/
theorem hasPending_joined {x : Traffic} {p : Bytes} {i j : Nat} (sound : x.StoredKnown p)
    (timely : x.joinsLate p (.step i) = false) (loading : x.registry.state p = .loading)
    (here : x.calls[i]? = some ⟨p, .made⟩) (led : x.leader? p = some j) (r : Registry) (c : Call) :
    HasPending ⟨r, x.calls.set i c⟩ p := by
  obtain ⟨stage, there, flying⟩ := leader?_eq_some led
  have apart : i ≠ j := by
    rintro rfl
    rw [here] at there
    cases there
    cases flying
  have member : ⟨p, stage⟩ ∈ x.calls.set i c := List.mem_of_getElem? ((List.getElem?_set_ne apart).trans there)
  have unstored : stage.isStored ≠ true := by
    intro stored
    exact (sound _ (List.mem_of_getElem? there) rfl stored).state_ne_loading loading
  cases stage with
  | entered | asked | told => exact ⟨_, member, rfl, rfl⟩
  | stored => exact absurd rfl unstored
  | settled result =>
      cases result with
      | ok names => exact absurd rfl unstored
      | error fault => simp [joinsLate, here, led, there, Stage.hasFailed] at timely
  | made | joined | ended => cases flying

theorem Attended.next {x y : Traffic} {m : Move} {p : Bytes} (attended : x.Attended p) (sound : x.StoredKnown p)
    (timely : x.joinsLate p m = false) (moved : Moved x m y) : y.Attended p := by
  intro loading
  cases moved with
  | idle => exact attended loading
  | seeded q names =>
      by_cases mine : q = p
      · subst mine
        exact absurd loading (x.registry.isKnown_seed q names).state_ne_loading
      · rw [Registry.state_seed, if_neg mine] at loading
        exact attended loading
  | @ensured q =>
      rw [hasPending_append]
      by_cases mine : q = p
      · exact .inr ⟨mine, rfl⟩
      · rw [Registry.state_begin, if_neg fun both => mine both.1] at loading
        exact .inl (attended loading)
  | called => exact (hasPending_append _).mpr (.inl (attended loading))
  | replied here reply =>
      refine (hasPending_set _ here ?_).mpr (attended loading)
      exact ⟨fun pending => ⟨pending.1, rfl⟩, fun pending => ⟨pending.1, rfl⟩⟩
  | @stepped i c here =>
      by_cases concerned : c.IsPendingFor p
      · have inside : i < x.calls.length := (List.getElem?_eq_some_iff.mp here).1
        obtain ⟨q, stage⟩ := c
        obtain ⟨rfl, pending⟩ := concerned
        cases stage with
        | made =>
            cases led : x.leader? q with
            | none => exact ⟨_, List.mem_set inside _, rfl, by simp [proceed, led, Stage.isPending]⟩
            | some j => exact hasPending_joined sound timely loading here led _ _
        | entered | asked => exact ⟨_, List.mem_set inside _, rfl, rfl⟩
        | told reply =>
            cases reply with
            | ok names => exact absurd loading (Registry.state_finish_ne_loading _ _ (.ok names))
            | error cause => exact absurd loading (Registry.state_finish_ne_loading _ _ (.error cause))
        | stored | settled | joined | ended => cases pending
      · obtain ⟨same, still⟩ := proceed_unconcerned concerned (x := x)
        rw [same] at loading
        exact (hasPending_set _ here (iff_of_false still concerned)).mpr (attended loading)

theorem Attended.after {p : Bytes} (moves : List Move) {x : Traffic} (attended : x.Attended p) (sound : x.StoredKnown p)
    (timely : x.timely p moves = true) : (x.after moves).Attended p := by
  induction moves generalizing x with
  | nil => exact attended
  | cons m moves ih =>
      simp only [Traffic.timely, Bool.and_eq_true, Bool.not_eq_true'] at timely
      have moved := x.moved m
      exact ih (attended.next sound timely.1 moved) (sound.next moved) timely.2

/-! ## Lists that are stuck -/

/-- A list is marked, and for no call. -/
structure IsStuck (x : Traffic) (p : Bytes) : Prop where
  loading : x.registry.state p = .loading
  abandoned : ¬ x.HasPending p

theorem IsStuck.next {x y : Traffic} {m : Move} {p : Bytes} (stuck : x.IsStuck p) (left : m.revives p = false)
    (moved : Moved x m y) : y.IsStuck p := by
  obtain ⟨loading, abandoned⟩ := stuck
  cases moved with
  | idle => exact ⟨loading, abandoned⟩
  | seeded q names =>
      have other : q ≠ p := by simpa [Move.revives] using left
      exact ⟨by rw [Registry.state_seed, if_neg other, loading], abandoned⟩
  | @ensured q fetchable absent =>
      have other : q ≠ p := by
        rintro rfl
        simp [absent] at loading
      refine ⟨by rw [Registry.state_begin, if_neg fun both => other both.1, loading], ?_⟩
      rw [hasPending_append]
      exact fun pending => pending.elim abandoned fun new => other new.1
  | called q new =>
      have other : q ≠ p := by simpa [Move.revives] using left
      refine ⟨loading, ?_⟩
      rw [hasPending_append]
      exact fun pending => pending.elim abandoned fun new => other new.1
  | @replied i q here reply =>
      have other : q ≠ p := fun mine => abandoned ⟨_, List.mem_of_getElem? here, mine, rfl⟩
      refine ⟨loading, ?_⟩
      rw [hasPending_set _ here (iff_of_false (fun new => other new.1) fun old => other old.1)]
      exact abandoned
  | @stepped i c here =>
      have unconcerned : ¬ c.IsPendingFor p := fun pending => abandoned ⟨c, List.mem_of_getElem? here, pending⟩
      obtain ⟨same, still⟩ := proceed_unconcerned unconcerned (x := x)
      refine ⟨same.trans loading, ?_⟩
      rw [hasPending_set _ here (iff_of_false still unconcerned)]
      exact abandoned

theorem IsStuck.after {p : Bytes} (moves : List Move) {x : Traffic} (stuck : x.IsStuck p)
    (left : ∀ m ∈ moves, m.revives p = false) : (x.after moves).IsStuck p := by
  induction moves generalizing x with
  | nil => exact stuck
  | cons m moves ih =>
      exact ih (stuck.next (left m (by simp)) (x.moved m)) fun later member => left later (by simp [member])

theorem IsStuck.ensure {x : Traffic} {p : Bytes} (stuck : x.IsStuck p) : (x.registry.ensure p).1 = false := by
  rw [← Bool.not_eq_true, Registry.ensure_eq_true_iff, stuck.loading]
  simp

/-! ## Providers that can be asked -/

theorem Moved.canFetch {x y : Traffic} {m : Move} (moved : Moved x m y) (p : Bytes) :
    y.registry.canFetch p = x.registry.canFetch p := by
  cases moved with
  | idle | seeded | called | replied => rfl
  | ensured => exact Registry.canFetch_begin ..
  | @stepped i c here =>
      obtain ⟨q, stage⟩ := c
      cases stage with
      | entered => exact Registry.canFetch_begin ..
      | told reply =>
          cases reply with
          | ok names => rfl
          | error cause => exact Registry.canFetch_finish _ _ (.error cause) _
      | _ => rfl

theorem canFetch_after (moves : List Move) (x : Traffic) (p : Bytes) :
    (x.after moves).registry.canFetch p = x.registry.canFetch p := by
  induction moves generalizing x with
  | nil => rfl
  | cons m moves ih => exact (ih (x.next m)).trans ((x.moved m).canFetch p)

/-! ## The whole -/

theorem IsQuiet.not_hasPending {x : Traffic} {p : Bytes} (quiet : x.IsQuiet p) : ¬ x.HasPending p := by
  rintro ⟨⟨q, stage⟩, member, mine, pending⟩
  have finished := quiet _ member mine
  cases stage with
  | made | entered | asked | told => cases finished
  | stored | settled | joined | ended => cases pending

/-- Unless a call joins another one that has failed already, a list is marked as loading only while a call has yet to
    store it or to give up the mark. When no call for a provider is left, its list is not marked, and can be asked for
    unless it is known. -/
theorem attended_unless_joined_late (fetchable : List Bytes) (moves : List Move) (p : Bytes)
    (timely : (start fetchable).timely p moves = true) :
    let x := (start fetchable).after moves
    (x.registry.state p = .loading → x.HasPending p) ∧
    (x.IsQuiet p →
      x.registry.state p ≠ .loading ∧ ((x.registry.ensure p).1 = true ↔ p ∈ fetchable ∧ ¬ x.registry.IsKnown p)) := by
  intro x
  have attended : x.Attended p := by
    refine Attended.after moves ?_ (StoredKnown.start fetchable p) timely
    intro loading
    simp [start, Registry.empty, Registry.state, Registry.held?] at loading
  refine ⟨attended, fun quiet => ?_⟩
  have unmarked : x.registry.state p ≠ .loading := fun loading => quiet.not_hasPending (attended loading)
  refine ⟨unmarked, ?_⟩
  have fetches : x.registry.canFetch p = true ↔ p ∈ fetchable := by
    rw [canFetch_after]
    simp [start, Registry.empty, Registry.canFetch]
  rw [Registry.ensure_eq_true_iff, fetches, Registry.IsKnown]
  refine and_congr_right fun _ => ?_
  cases state : x.registry.state p with
  | loading => exact absurd state unmarked
  | absent | loaded | empty => simp

/-- A call that fails without company: its list can be asked for again. -/
theorem attended_unless_joined_late_failed :
    let x := (start [utf8 "p"]).after
      [.ensure (utf8 "p"), .step 0, .step 0, .reply 0 (.error []), .step 0, .step 0]
    x.IsQuiet (utf8 "p") ∧ (x.registry.ensure (utf8 "p")).1 = true := by
  intro x
  have quiet : x.IsQuiet (utf8 "p") := by decide
  obtain ⟨-, starts⟩ := (attended_unless_joined_late [utf8 "p"] _ (utf8 "p") (by decide)).2 quiet
  refine ⟨quiet, starts.mpr ⟨by decide, ?_⟩⟩
  rw [Registry.IsKnown]
  decide

/-- A list that is marked while a call that has failed is still in flight stays marked when all calls are over, and is
    not asked for again by those who ask first. -/
theorem joined_late_stays_marked :
    let x := (start [utf8 "p"]).after
      [.ensure (utf8 "p"), .step 0, .step 0, .reply 0 (.error []), .step 0,
        .ensure (utf8 "p"), .step 1, .step 0, .step 1]
    x.registry.state (utf8 "p") = .loading ∧ x.IsQuiet (utf8 "p") ∧
    ∀ later, (∀ m ∈ later, m.revives (utf8 "p") = false) → ((x.after later).registry.ensure (utf8 "p")).1 = false := by
  intro x
  have quiet : x.IsQuiet (utf8 "p") := by decide
  have stuck : x.IsStuck (utf8 "p") := ⟨by decide, quiet.not_hasPending⟩
  exact ⟨by decide, quiet, fun later left => (stuck.after later left).ensure⟩

end Traffic

end Colloquy
