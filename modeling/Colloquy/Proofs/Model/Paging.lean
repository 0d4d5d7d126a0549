import Colloquy.Model.Listing
import Mathlib.Data.Finset.Card
import Mathlib.Data.List.Nodup

/-! # The pages of a list

A paged list is fetched page by page, each by the name at the end of the page before it. When the reply to a request
depends on that name only, the pages are a walk from name to name. The walk ends unless it comes to a name again. Of
a name that comes again, only one that comes twice in a row is noticed, so a walk in a longer circle goes on forever.
-/

namespace Colloquy.Listing

/-- A provider of a paged list: where it is, the key for it, and its reply to the request for the page behind a
    name. -/
structure Provider where
  base : Bytes
  key : Bytes
  reply : Bytes → ModelReply

namespace Provider

def address (p : Provider) : Bytes := if p.base.isEmpty then utf8 "https://api.anthropic.com" else p.base

def request? (p : Provider) (behind : Bytes) : Option ModelRequest := pageRequest? p.address p.key behind

/-- The page behind a name. -/
def page (p : Provider) (behind : Bytes) : Except ListingFault Page :=
  match p.request? behind with
  | none => .error .unreadable
  | some _ => pageOf (p.reply behind)

/-- The name by which the page behind a page is asked for. There is none behind the last page, and behind one that
    could not be had. -/
def next? (p : Provider) (behind : Bytes) : Option Bytes :=
  match p.page behind with
  | .error _ => none
  | .ok page => if page.hasMore && !page.lastId.isEmpty && page.lastId != behind then some page.lastId else none

/-- The name by which a page is asked for, by how many pages lie before it. -/
def cursorFrom? (p : Provider) (behind : Bytes) : Nat → Option Bytes
  | 0 => some behind
  | n + 1 => (p.next? behind).bind fun next => p.cursorFrom? next n

def cursor? (p : Provider) (n : Nat) : Option Bytes := p.cursorFrom? [] n

/-- Two pages of the list are asked for by the same name. -/
def Recurs (p : Provider) : Prop := ∃ i j c, i < j ∧ p.cursor? i = some c ∧ p.cursor? j = some c

/-- The names on the pages behind some names, or the first failure. -/
def names (p : Provider) (cursors : List Bytes) : Except ListingFault (List Bytes) :=
  (cursors.mapM p.page).map fun pages => pages.flatMap (·.names.items)

/-- All pages from a name on are asked for by these names. -/
inductive Visits (p : Provider) : Bytes → List Bytes → Prop
  | last {c : Bytes} (ends : p.next? c = none) : p.Visits c [c]
  | on {c d : Bytes} {cs : List Bytes} (next : p.next? c = some d) (rest : p.Visits d cs) : p.Visits c (c :: cs)

section

variable {p : Provider} {c d : Bytes} {cs : List Bytes}

/-! ## One page -/

theorem names_cons_of_ok {page : Page} (got : p.page c = .ok page) :
    p.names (c :: cs) = (p.names cs).map (page.names.items ++ ·) := by
  simp only [names, List.mapM_cons, got]
  cases cs.mapM p.page <;> rfl

theorem names_of_error {fault : ListingFault} (failed : p.page c = .error fault) :
    p.names (c :: cs) = .error fault := by
  simp only [names, List.mapM_cons, failed]
  rfl

/-- A page with one behind it was asked for and read. -/
theorem exists_page_of_next? (next : p.next? c = some d) :
    ∃ request page, p.request? c = some request ∧ pageOf (p.reply c) = .ok page ∧ p.page c = .ok page ∧
      page.lastId = d ∧ (page.hasMore && !page.lastId.isEmpty && page.lastId != c) = true := by
  cases asked : p.request? c with
  | none => simp [next?, page, asked] at next
  | some request =>
      cases got : pageOf (p.reply c) with
      | error fault => simp [next?, page, asked, got] at next
      | ok page =>
          simp only [next?, Provider.page, asked, got, Option.ite_none_right_eq_some, Option.some.injEq] at next
          exact ⟨request, page, rfl, rfl, by simp only [Provider.page, asked, got], next.2, next.1⟩

theorem pagesFrom_asked {request : ModelRequest} (asked : p.request? c = some request) (replies : List ModelReply) :
    pagesFrom p.address p.key c (p.reply c :: replies) = match pageOf (p.reply c) with
      | .error fault => last request (.error fault)
      | .ok page =>
        if page.hasMore && !page.lastId.isEmpty && page.lastId != c then
          (pagesFrom p.address p.key page.lastId replies).after request page.names.items
        else last request (.ok page.names.items) := by
  have known : pageRequest? p.address p.key c = some request := asked
  conv_lhs => unfold pagesFrom
  rewrite [known]
  rfl

theorem pagesFrom_next (next : p.next? c = some d) (replies : List ModelReply) :
    ∃ request page, p.request? c = some request ∧ p.page c = .ok page ∧
      pagesFrom p.address p.key c (p.reply c :: replies) =
        (pagesFrom p.address p.key d replies).after request page.names.items := by
  obtain ⟨request, page, asked, got, here, rfl, more⟩ := exists_page_of_next? next
  refine ⟨request, page, asked, here, ?_⟩
  simp only [pagesFrom_asked asked, got, more, if_true]

theorem pagesFrom_last (ends : p.next? c = none) (replies : List ModelReply) :
    pagesFrom p.address p.key c (p.reply c :: replies) = ⟨p.names [c], [c].filterMap p.request?⟩ := by
  cases asked : p.request? c with
  | none =>
      have failed : p.page c = .error .unreadable := by simp only [page, asked]
      unfold pagesFrom
      rw [show pageRequest? p.address p.key c = none from asked, names_of_error failed]
      simp only [List.filterMap_cons, asked, List.filterMap_nil]
  | some request =>
      have here : p.page c = pageOf (p.reply c) := by simp only [page, asked]
      simp only [pagesFrom_asked asked, List.filterMap_cons, asked, List.filterMap_nil]
      cases got : pageOf (p.reply c) with
      | error fault => rw [names_of_error (here.trans got)]; rfl
      | ok page =>
          have final : (page.hasMore && !page.lastId.isEmpty && page.lastId != c) = false := by
            simp only [next?, here, got, ite_eq_right_iff, reduceCtorEq, imp_false, Bool.not_eq_true] at ends
            exact ends
          have alone : p.names [c] = .ok page.names.items := by
            rw [names_cons_of_ok (here.trans got)]
            exact congrArg Except.ok (List.append_nil _)
          simp only [final, Bool.false_eq_true, if_false, last, alone]

/-! ## The walk -/

/-- The whole walk decides the listing, whatever further replies there would be. -/
theorem Visits.pagesFrom_eq (walk : p.Visits c cs) (more : List ModelReply) :
    pagesFrom p.address p.key c (cs.map p.reply ++ more) = ⟨p.names cs, cs.filterMap p.request?⟩ := by
  induction walk with
  | last ends => exact pagesFrom_last ends more
  | on next rest ih =>
      obtain ⟨request, page, asked, here, eq⟩ := pagesFrom_next next _
      rw [List.map_cons, List.cons_append, eq, ih, names_cons_of_ok here]
      simp only [after, List.filterMap_cons, asked]

theorem Visits.cursorFrom?_eq (walk : p.Visits c cs) (n : Nat) : p.cursorFrom? c n = cs[n]? := by
  induction walk generalizing n with
  | last ends => cases n <;> simp [cursorFrom?, ends]
  | on next rest ih => cases n <;> simp [cursorFrom?, next, ih]

theorem exists_visits {n : Nat} (ends : p.cursorFrom? c n = none) : ∃ cs, p.Visits c cs := by
  induction n generalizing c with
  | zero => cases ends
  | succ n ih =>
      cases next : p.next? c with
      | none => exact ⟨[c], .last next⟩
      | some d =>
          rw [cursorFrom?, next] at ends
          obtain ⟨ds, walk⟩ := ih ends
          exact ⟨c :: ds, .on next walk⟩

theorem cursorFrom?_add (m n : Nat) : p.cursorFrom? c (m + n) = (p.cursorFrom? c m).bind (p.cursorFrom? · n) := by
  induction m generalizing c with
  | zero => rw [Nat.zero_add]; rfl
  | succ m ih =>
      rw [Nat.succ_add_eq_add_succ, Nat.add_succ, cursorFrom?, cursorFrom?, Option.bind_assoc]
      exact congrArg _ (funext fun d => ih)

/-- Behind a name that comes again there is always one more page. -/
theorem Recurs.cursor?_ne_none (recurs : p.Recurs) (n : Nat) : p.cursor? n ≠ none := by
  obtain ⟨i, j, c, before, here, again⟩ := recurs
  have round : p.cursorFrom? c (j - i) = some c := by
    have := p.cursorFrom?_add (c := []) i (j - i)
    rw [Nat.add_sub_cancel' before.le, show p.cursorFrom? [] j = some c from again,
      show p.cursorFrom? [] i = some c from here] at this
    exact this.symm
  have rounds (k : Nat) : p.cursorFrom? c (k * (j - i)) = some c := by
    induction k with
    | zero => rw [Nat.zero_mul]; rfl
    | succ k ih => rw [Nat.succ_mul, cursorFrom?_add, ih]; exact round
  have far : p.cursor? (i + n * (j - i)) = some c := by
    rw [cursor?, cursorFrom?_add, show p.cursorFrom? [] i = some c from here]
    exact rounds n
  intro ends
  have reach : n ≤ i + n * (j - i) := Nat.le_add_left_of_le (Nat.le_mul_of_pos_right n (Nat.sub_pos_of_lt before))
  rw [← Nat.add_sub_cancel' reach, cursor?, cursorFrom?_add, show p.cursorFrom? [] n = none from ends] at far
  cases far

/-- A walk without an end uses up any number of replies, and a request comes behind them. -/
theorem length_requests_of_endless (endless : ∀ n, p.cursorFrom? c n ≠ none) (n : Nat) :
    ∃ cs : List Bytes, cs.length = n ∧ (∀ i < n, p.cursorFrom? c i = cs[i]?) ∧
      (pagesFrom p.address p.key c (cs.map p.reply)).requests.length = n + 1 := by
  induction n generalizing c with
  | zero =>
      obtain ⟨d, next⟩ := Option.ne_none_iff_exists'.mp (endless 1)
      have next : p.next? c = some d := by simpa [cursorFrom?] using next
      obtain ⟨request, -, asked, -⟩ := exists_page_of_next? next
      refine ⟨[], rfl, by simp, ?_⟩
      unfold pagesFrom
      rw [show pageRequest? p.address p.key c = some request from asked]
      rfl
  | succ n ih =>
      obtain ⟨d, next⟩ := Option.ne_none_iff_exists'.mp (endless 1)
      have next : p.next? c = some d := by simpa [cursorFrom?] using next
      have onward (i : Nat) : p.cursorFrom? c (i + 1) = p.cursorFrom? d i := by rw [cursorFrom?, next]; rfl
      obtain ⟨cs, length, along, count⟩ := ih fun i => onward i ▸ endless (i + 1)
      obtain ⟨request, page, -, -, eq⟩ := pagesFrom_next next (cs.map p.reply)
      refine ⟨c :: cs, by rw [List.length_cons, length], fun i inside => ?_, ?_⟩
      · cases i with
        | zero => rfl
        | succ i => rw [onward, along i (Nat.lt_of_succ_lt_succ inside), List.getElem?_cons_succ]
      · rw [List.map_cons, eq, after, List.length_cons, count]

theorem Visits.nodup (walk : p.Visits [] cs) (fresh : ¬ p.Recurs) : cs.Nodup := by
  rw [List.nodup_iff_getElem?_ne_getElem?]
  intro i j before inside same
  have at_j := List.getElem?_eq_getElem inside
  exact fresh ⟨i, j, cs[j], before, (walk.cursorFrom?_eq i).trans (same.trans at_j),
    (walk.cursorFrom?_eq j).trans at_j⟩

/-! ## Names from a finite set -/

section

variable {ids : Finset Bytes} (drawn : ∀ c page, pageOf (p.reply c) = .ok page → page.lastId ∈ ids)
include drawn

theorem mem_of_cursor?_succ {n : Nat} (here : p.cursorFrom? c (n + 1) = some d) : d ∈ ids := by
  rw [cursorFrom?_add] at here
  obtain ⟨e, -, next⟩ := Option.bind_eq_some_iff.mp here
  obtain ⟨d', next, same⟩ := Option.bind_eq_some_iff.mp next
  obtain ⟨-, page, -, got, -, rfl, -⟩ := exists_page_of_next? next
  exact Option.some.inj same ▸ drawn e page got

/-- The walk goes on forever only when it comes to a name again. -/
theorem exists_visits_of_not_recurs (fresh : ¬ p.Recurs) : ∃ cs, p.Visits [] cs := by
  by_contra endless
  have alive (n : Nat) : ∃ d, p.cursor? (n + 1) = some d :=
    Option.ne_none_iff_exists'.mp fun ends => endless (exists_visits ends)
  choose name here using alive
  obtain ⟨i, -, j, -, apart, same⟩ := Finset.exists_ne_map_eq_of_card_lt_of_maps_to
    (show ids.card < (Finset.range (ids.card + 1)).card by rw [Finset.card_range]; exact Nat.lt_succ_self _)
    (fun n _ => mem_of_cursor?_succ drawn (here n))
  obtain before | before := Nat.lt_or_gt_of_ne apart
  · exact fresh ⟨i + 1, j + 1, name i, Nat.succ_lt_succ before, here i, same ▸ here j⟩
  · exact fresh ⟨j + 1, i + 1, name j, Nat.succ_lt_succ before, here j, same ▸ here i⟩

theorem Visits.length_le (walk : p.Visits [] cs) (fresh : ¬ p.Recurs) : cs.length ≤ ids.card + 1 := by
  have inside : cs.tail.toFinset ⊆ ids := by
    intro d member
    obtain ⟨n, here⟩ := List.mem_iff_getElem?.mp (List.mem_toFinset.mp member)
    rw [List.getElem?_tail, ← walk.cursorFrom?_eq] at here
    exact mem_of_cursor?_succ drawn here
  have := Finset.card_le_card inside
  rw [List.toFinset_card_of_nodup (walk.nodup fresh).tail, List.length_tail] at this
  omega

end

/-- When no name comes again, the list ends after at most one page more than there are names, with the names of all
    pages in order, or with the first failure. Otherwise it never ends: behind any number of pages another one is
    asked for. -/
theorem list_ends_unless_name_recurs (p : Provider) (ids : Finset Bytes)
    (drawn : ∀ c page, pageOf (p.reply c) = .ok page → page.lastId ∈ ids) :
    (¬ p.Recurs → ∃ cs : List Bytes, cs.Nodup ∧ cs.length ≤ ids.card + 1 ∧ (∀ i, p.cursor? i = cs[i]?) ∧
      ∀ more, paged p.base p.key (cs.map p.reply ++ more) = ⟨p.names cs, cs.filterMap p.request?⟩) ∧
    (p.Recurs → ∀ n, ∃ cs : List Bytes, cs.length = n ∧ (∀ i < n, p.cursor? i = cs[i]?) ∧
      (paged p.base p.key (cs.map p.reply)).requests.length = n + 1) := by
  constructor
  · intro fresh
    obtain ⟨cs, walk⟩ := exists_visits_of_not_recurs drawn fresh
    exact ⟨cs, walk.nodup fresh, walk.length_le drawn fresh, walk.cursorFrom?_eq, walk.pagesFrom_eq⟩
  · exact fun recurs n => length_requests_of_endless recurs.cursor?_ne_none n

/-- A page in JSON with one name. -/
def replyWith (id : String) (hasMore : String) : ModelReply :=
  .answered 200 (utf8 "application/json")
    (utf8 ("\x7b\"data\":[\x7b\"id\":\"" ++ id ++ "\"\x7d],\"has_more\":" ++ hasMore ++
      ",\"last_id\":\"" ++ id ++ "\"\x7d"))

/-- A list of two pages. -/
def twoPages : Provider := ⟨[], utf8 "k", fun c => if c == [] then replyWith "a" "true" else replyWith "b" "false"⟩

theorem lastId_replyWith {id hasMore : String} {page : Page}
    (known : (pageOf (replyWith id hasMore)).map (·.lastId) = .ok (utf8 id))
    (got : pageOf (replyWith id hasMore) = .ok page) : page.lastId = utf8 id := by
  rw [got] at known
  exact Except.ok.inj known

theorem two_pages_end :
    (∀ c page, pageOf (twoPages.reply c) = .ok page → page.lastId ∈ ({utf8 "a", utf8 "b"} : Finset Bytes)) ∧
    ¬ twoPages.Recurs ∧
    ∃ cs : List Bytes, cs.Nodup ∧ cs.length ≤ 3 ∧ (∀ i, twoPages.cursor? i = cs[i]?) ∧
      ∀ more, paged [] (utf8 "k") (cs.map twoPages.reply ++ more) =
        ⟨twoPages.names cs, cs.filterMap twoPages.request?⟩ := by
  have drawn : ∀ c page, pageOf (twoPages.reply c) = .ok page →
      page.lastId ∈ ({utf8 "a", utf8 "b"} : Finset Bytes) := by
    intro c page got
    simp only [twoPages] at got
    split at got
    · rw [lastId_replyWith (by decide +kernel) got]; exact Finset.mem_insert_self ..
    · rw [lastId_replyWith (by decide +kernel) got]; exact Finset.mem_insert_of_mem (Finset.mem_singleton_self _)
  have first : twoPages.next? [] = some (utf8 "a") := by decide +kernel
  have second : twoPages.next? (utf8 "a") = none := by decide +kernel
  have walk : twoPages.Visits [] [[], utf8 "a"] := .on first (.last second)
  have fresh : ¬ twoPages.Recurs := fun recurs => recurs.cursor?_ne_none 2 (walk.cursorFrom?_eq 2)
  exact ⟨drawn, fresh, (list_ends_unless_name_recurs twoPages _ drawn).1 fresh⟩

/-- A list whose pages name each other by turns. -/
def alternating : Provider :=
  ⟨[], utf8 "k", fun c => if c == utf8 "a" then replyWith "b" "true" else replyWith "a" "true"⟩

theorem alternating_never_ends :
    (∀ c page, pageOf (alternating.reply c) = .ok page → page.lastId ∈ ({utf8 "a", utf8 "b"} : Finset Bytes)) ∧
    ∀ n, ∃ cs : List Bytes, cs.length = n ∧ (∀ i < n, alternating.cursor? i = cs[i]?) ∧
      (paged [] (utf8 "k") (cs.map alternating.reply)).requests.length = n + 1 := by
  constructor
  · intro c page got
    simp only [alternating] at got
    split at got
    · rw [lastId_replyWith (by decide +kernel) got]; exact Finset.mem_insert_of_mem (Finset.mem_singleton_self _)
    · rw [lastId_replyWith (by decide +kernel) got]; exact Finset.mem_insert_self ..
  · have recurs : alternating.Recurs :=
      ⟨1, 3, utf8 "a", by decide, by decide +kernel, by decide +kernel⟩
    exact fun n => length_requests_of_endless recurs.cursor?_ne_none n

end

end Provider

end Colloquy.Listing
