import Beads.Pagination.Snapshots

/-! A client that follows the continuations of its first page gets the snapshot page by page,
whatever the other clients do, until the snapshot expires or a call cancels it. -/

namespace Beads

theorem pageIdentity_ne_empty {name : String} (identity : pageIdentity name = true) : name ≠ "" := by
  intro empty
  rw [empty] at identity
  exact absurd identity (by decide)

theorem PageFences.epoch_ne_empty {fences : PageFences} (identities : fences.identities = true) : fences.epoch ≠ "" := by
  simp only [PageFences.identities, Bool.and_eq_true] at identities
  exact pageIdentity_ne_empty identities.1.2

variable {bytes : Int} {input : FirstPageInput} {limit : { n : Nat // 0 < n }}
  {continuation : PageUrl} {draws : List (Option String)}

open List

namespace Pagination

variable {host : PaginationHost} {p q : Pagination} {s : PageSnapshot} {reading : Int}

theorem snapshotBytes_sum {bound total : Int} {items : List (List UInt8)}
    (counted : snapshotBytes host bound bytes items = .ok total) : total = bytes +
      (items.map fun item => (item.length : Int)).sum := by
  induction items generalizing bytes with
  | nil =>
    cases counted
    simp
  | cons item rest ih =>
    simp only [snapshotBytes, Fallible.ite_error_eq_ok] at counted
    rw [ih counted.2.2, map_cons, sum_cons, Int.add_assoc]

theorem checkFirstPage_congr (same : p.options = q.options) (input : FirstPageInput) :
    p.checkFirstPage host input = q.checkFirstPage host input := by
  simp only [checkFirstPage, limit, continuation, same]

theorem checkFirstPage_ok (passed : p.checkFirstPage host input = .ok (limit, continuation, bytes)) :
    input.fences.identities = true ∧ bytes = (input.items.map fun item => (item.length : Int)).sum := by
  obtain ⟨size, _, passed⟩ := Fallible.bind_eq_ok passed
  obtain ⟨fenced, passed⟩ := Fallible.ite_error_eq_ok.mp passed
  obtain ⟨url, _, passed⟩ := Fallible.bind_eq_ok passed
  obtain ⟨total, counted, ⟨⟩⟩ := Fallible.bind_eq_ok (Fallible.ite_error_eq_ok.mp passed).2
  exact ⟨by simpa using fenced, by rw [snapshotBytes_sum counted, Int.zero_add]⟩

/-- What a call leaves: consistent books, in which every snapshot is still live that has not expired
and is not cancelled. -/
structure Leaves (host : PaginationHost) (p : Pagination) (call : PageCall) (q : Pagination) : Prop where
  consistent : q.Consistent
  live : ∀ s ∈ p.snapshots, (∀ reading, call.reading? = some reading →
    p.clock reading < s.expires) → p.cancels host s call = false → s ∈ q.snapshots

/-- The snapshot that a first page is from; it is kept if there are more pages. -/
structure Took (now : Int) (p : Pagination) (input : FirstPageInput) (q : Pagination) (page : Page)
    (s : PageSnapshot) : Prop where
  page : page = s.page 0
  items : s.items = input.items
  fences : s.fences = input.fences
  expires : s.expires = now + p.options.cursorTtl
  live : 0 < s.tokens.length → s ∈ q.snapshots

section

variable (consistent : p.Consistent)
include consistent

theorem Leaves.of_unchanged (call : PageCall) : Leaves host p call p :=
  ⟨consistent, fun _ live _ _ => live⟩

variable {outcome : Except PaginationError Page}

theorem Consistent.takeSnapshot {now : Int} (epoch : input.fences.epoch = p.epoch)
    (identities : input.fences.identities = true)
    (counted : bytes = (input.items.map fun item => (item.length : Int)).sum)
    (opened : p.closed = false)
    (taken : p.takeSnapshot host now input draws limit continuation bytes = (outcome, q)) :
    q.Consistent ∧ (∀ s ∈ p.snapshots, s ∈ q.snapshots) ∧ ∀ page, outcome = .ok page → ∃ s, Took now p input q page s := by
  have named : p.epoch ≠ "" := epoch ▸ PageFences.epoch_ne_empty identities
  unfold Pagination.takeSnapshot at taken
  dsimp only at taken
  split at taken
  · cases taken
    exact ⟨consistent, fun _ live => live, nofun⟩
  · rename_i room
    split at taken
    · cases taken
      exact ⟨consistent, fun _ live => live, nofun⟩
    · rename_i tokens minted
      obtain ⟨distinct, fresh⟩ := mintTokens_fresh minted
      by_cases single : laterPages input.items.length limit.1 = 0
      · rw [if_pos single] at taken
        cases taken
        refine ⟨consistent, fun _ live => live, fun page got => ⟨_, (Except.ok.inj got).symm, rfl, rfl, rfl, fun several => ?_⟩⟩
        exact absurd (tokens.2.trans single) (Nat.pos_iff_ne_zero.mp several)
      · rw [if_neg single] at taken
        cases taken
        have several : 0 < tokens.1.length := by
          rw [tokens.2]
          exact Nat.pos_of_ne_zero single
        have spare : p.exhausted tokens.1.length bytes = false := by
          rw [tokens.2]
          exact Bool.eq_false_iff.mpr room
        refine ⟨consistent.retain rfl distinct (fun token member => (fresh token member).2) epoch
          named identities counted several spare opened,
          fun _ live => mem_append_left _ live, fun page got => ⟨_, (Except.ok.inj got).symm, rfl, rfl, rfl, fun _ => ?_⟩⟩
        exact mem_append_right _ (.head _)

theorem Consistent.firstPage (called : p.firstPage host reading input draws = (outcome, q)) :
    Leaves host p (.firstPage reading input draws) q ∧ ∀ page, outcome = .ok page → ∃ s,
      Took (p.clock reading) p input q page s := by
  unfold Pagination.firstPage at called
  split at called
  · cases called
    exact ⟨.of_unchanged consistent _, nofun⟩
  · rename_i opened
    obtain ⟨swept, young, options, still⟩ := consistent.sweep reading
    split at called
    · cases called
      exact ⟨⟨swept, fun s live fresh _ => young s live (fresh reading rfl)⟩, nofun⟩
    · rename_i limit continuation bytes checked
      obtain ⟨identities, counted⟩ := checkFirstPage_ok checked
      obtain ⟨entered, mine, options', still', epoch⟩ := swept.enterEpoch (PageFences.epoch_ne_empty identities)
      rw [checkFirstPage_congr options] at checked
      obtain ⟨books, kept, took⟩ := entered.takeSnapshot epoch.symm identities counted
        (still'.trans (still.trans (Bool.eq_false_iff.mpr opened))) called
      refine ⟨⟨books, fun s live fresh spared => kept s (mine s (young s live (fresh reading rfl)) ?_)⟩, fun page got => ?_⟩
      · simp only [cancels, checked, Except.isOk, Except.toBool, Bool.true_and, decide_eq_false_iff_not, not_not] at spared
        exact spared.symm
      · obtain ⟨s, took⟩ := took page got
        exact ⟨s, took.page, took.items, took.fences, by rw [took.expires, options', options], took.live⟩

theorem Consistent.continuePage {input : ContinuationInput}
    (called : p.continuePage reading input = (outcome, q)) :
    Leaves host p (.continuePage reading input) q ∧ ∀ page, outcome = .ok page → ∃ s ∈ p.snapshots,
      ∃ index, s.tokens[index]? = some input.token ∧
      input.fences = s.fences ∧ p.clock reading < s.expires ∧ page = s.page ((index + 1) * s.limit) := by
  obtain ⟨swept, young, _⟩ := consistent.sweep reading
  have spared : Leaves host p (.continuePage reading input) (p.sweep reading) :=
    ⟨swept, fun s live fresh _ => young s live (fresh reading rfl)⟩
  unfold Pagination.continuePage at called
  split at called
  · cases called
    exact ⟨.of_unchanged consistent _, by simp⟩
  · split at called
    · cases called
      exact ⟨spared, by simp⟩
    · rename_i cursor found
      obtain ⟨live, index, held, offset⟩ := (consistent.cursors _ _).mp found
      have owned := mem_of_getElem? held
      dsimp only at called
      split at called
      · rename_i due
        cases called
        have released := (consistent.tick reading).release live
        have cleaned := released.consistent.cleanup (p.clock reading)
        refine ⟨⟨cleaned.consistent, fun s member fresh _ => ?_⟩, by simp⟩
        have alive := fresh reading rfl
        rw [cleaned.snapshots, released.snapshots]
        refine mem_filter.mpr ⟨mem_filter.mpr ⟨member, decide_eq_true fun same => ?_⟩, decide_eq_true alive⟩
        rw [consistent.eq_of_address member live same] at alive
        omega
      · rename_i alive
        split at called
        · cases called
          exact ⟨spared, by simp⟩
        · rename_i identities
          split at called
          · rename_i other
            cases called
            have released := swept.release (young _ live (by omega))
            refine ⟨⟨released.consistent, fun s member fresh kept => ?_⟩, by simp⟩
            rw [released.snapshots]
            refine mem_filter.mpr ⟨young s member (fresh reading rfl), decide_eq_true fun same => ?_⟩
            have mine := consistent.eq_of_address member live same
            have named : input.fences.identities = true := by simpa using identities
            simp [cancels, mine, owned, named, other] at kept
          · rename_i epoch
            split at called
            · cases called
              exact ⟨spared, by simp⟩
            · rename_i view
              split at called
              · cases called
                exact ⟨spared, by simp⟩
              · rename_i projection
                cases called
                have fences : input.fences = cursor.snapshot.fences :=
                  PageFences.ext (not_not.mp view) (not_not.mp epoch) (not_not.mp projection)
                refine ⟨spared, fun page got => ⟨_, live, index, held, fences, by omega, ?_⟩⟩
                rw [← offset]
                exact (Except.ok.inj got).symm

theorem Consistent.step (call : PageCall) : Leaves host p call (p.step host call) := by
  cases call with
  | firstPage reading input draws => exact (consistent.firstPage rfl).1
  | continuePage reading input => exact (consistent.continuePage rfl).1
  | cleanupExpired reading =>
    obtain ⟨swept, young, _⟩ := consistent.sweep reading
    exact ⟨swept, fun s live fresh _ => young s live (fresh reading rfl)⟩
  | close => exact ⟨consistent.close, fun s _ _ kept => nomatch kept⟩

theorem Consistent.run (calls : List PageCall) : (p.run host calls).Consistent := by
  induction calls generalizing p with
  | nil => exact consistent
  | cons call rest ih => exact ih (consistent.step call).consistent

end

theorem newPagination_consistent {options : PaginationOptions} (made : newPagination host options = .ok p) : p.Consistent := by
  simp only [newPagination, Fallible.ite_error_eq_ok] at made
  obtain ⟨_, _, positive, _, ⟨⟩⟩ := made
  simp only [any_cons, any_nil, Bool.or_false, Bool.or_eq_true, decide_eq_true_eq, not_or, not_le] at positive
  exact
    { addresses := nodup_nil
      allocated := by simp
      tokens := nodup_nil
      cursors := by simp [KeyedTable.get?]
      bytes := rfl
      counted := by simp
      epochs := by simp
      identities := by simp
      snapshotBound := positive.2.2.1.le
      cursorBound := positive.2.2.2.1.le
      byteBound := positive.2.2.2.2.2.2.2.le
      closed := fun _ => rfl }

end Pagination

theorem PageUrl.get?_set (url : PageUrl) (key value : String) : (url.set key value).get? key = some value := by
  have absent : (url.query.filter fun pair => pair.1 ≠ key).lookup key = none := by
    refine lookup_eq_none_iff.mpr fun pair member => ?_
    have apart := decide_eq_true_iff.mp (mem_filter.mp member).2
    exact bne_iff_ne.mpr (Ne.symm apart)
  rw [PageUrl.get?, PageUrl.set, lookup_append, absent]
  simp

namespace PageSnapshot

variable {s : PageSnapshot} {index : Nat}

theorem page_items : (s.page (index * s.limit)).items = (s.items.drop (index * s.limit)).take s.limit := by
  rw [page, drop_take, Nat.add_sub_cancel_left, take_eq_take_iff, length_drop]
  omega

theorem laterPages_eq {count limit : Nat} (positive : 0 < limit) : laterPages count limit = (count - 1) / limit := by
  unfold laterPages
  split
  · rfl
  · exact (Nat.div_eq_of_lt (by omega)).symm

variable (s) in
theorem tokens_length : s.tokens.length = (s.items.length - 1) / s.limit :=
  s.covered.trans (laterPages_eq s.positive)

theorem page_next (more : index < s.tokens.length) :
    ∃ token, s.tokens[index]? = some token ∧ (s.page (index * s.limit)).next = some (s.continuation.set "cursor" token) := by
  have positive := s.positive
  have room : (index + 1) * s.limit ≤ s.items.length - 1 := (Nat.le_div_iff_mul_le positive).mp (s.tokens_length ▸ more)
  have product : (index + 1) * s.limit = index * s.limit + s.limit := Nat.succ_mul _ _
  have stop : index * s.limit + min s.limit (s.items.length - index * s.limit) = (index + 1) * s.limit := by omega
  have place : (index + 1) * s.limit / s.limit - 1 = index := by rw [Nat.mul_div_cancel _ positive, Nat.add_sub_cancel]
  refine ⟨s.tokens[index], getElem?_eq_getElem more, ?_⟩
  rw [page]
  simp only [stop, place]
  rw [if_pos (by omega), getElem?_eq_getElem more, Option.map_some]

theorem page_last (last : s.tokens.length ≤ index) : (s.page (index * s.limit)).next = none := by
  rw [s.tokens_length, ← Nat.lt_succ_iff, Nat.div_lt_iff_lt_mul s.positive, Nat.succ_mul] at last
  refine if_neg ?_
  omega

def pages (s : PageSnapshot) (index : Nat) : (count : Nat) → List Page
  | 0 => []
  | count + 1 => s.page (index * s.limit) :: s.pages (index + 1) count

theorem pages_items (index count : Nat) :
    (s.pages index count).flatMap Page.items = (s.items.drop (index * s.limit)).take (count * s.limit) := by
  induction count generalizing index with
  | zero => simp [pages]
  | succ count ih =>
    have next : (index + 1) * s.limit = index * s.limit + s.limit := Nat.succ_mul _ _
    have total : (count + 1) * s.limit = s.limit + count * s.limit := by rw [Nat.succ_mul, Nat.add_comm]
    rw [pages, flatMap_cons, ih, page_items, next, total, take_add, drop_drop]

theorem pages_last (index count : Nat) :
    (s.pages index (count + 1)).getLast? = some (s.page ((index + count) * s.limit)) := by
  induction count generalizing index with
  | zero => rfl
  | succ count ih =>
    have place : index + 1 + count = index + (count + 1) := by omega
    rw [pages, pages, getLast?_cons_cons, ← pages, ih, place]

theorem items_le_pages : s.items.length ≤ (s.tokens.length + 1) * s.limit := by
  have below := Nat.lt_add_one s.tokens.length
  rw [s.tokens_length, Nat.div_lt_iff_lt_mul s.positive, ← s.tokens_length] at below
  omega

theorem tokens_le_items : s.tokens.length ≤ s.items.length := by
  rw [s.tokens_length]
  exact (Nat.div_le_self _ _).trans (Nat.sub_le _ _)

end PageSnapshot

structure PageRound where
  others : List PageCall
  reading : Int

namespace Pagination

/-- The answers to a client that follows the continuation of each page with the
fences of its first page. -/
def follow (host : PaginationHost) (fences : PageFences) : Pagination → Page → List PageRound →
    List (Except PaginationError Page)
  | _, _, [] => []
  | p, page, round :: rounds =>
    match page.next.bind (·.get? "cursor") with
    | none => []
    | some token =>
      match (p.run host round.others).continuePage round.reading ⟨token, fences⟩ with
      | (.error refusal, _) => [.error refusal]
      | (.ok next, after) => .ok next :: follow host fences after next rounds

def Spared (host : PaginationHost) (s : PageSnapshot) : Pagination → List PageCall → Prop
  | _, [] => True
  | p, call :: later => p.cancels host s call = false ∧ Spared host s (p.step host call) later

/-- Up to the client's last request the snapshot has not expired and no call of another client has
cancelled it. -/
def Undisturbed (host : PaginationHost) (s : PageSnapshot) : Pagination → Page → List PageRound → Prop
  | _, _, [] => True
  | p, page, round :: rounds =>
    match page.next.bind (·.get? "cursor") with
    | none => True
    | some token =>
      Spared host s p round.others ∧ (p.run host round.others).clock round.reading < s.expires ∧
        match (p.run host round.others).continuePage round.reading ⟨token, s.fences⟩ with
        | (.error _, _) => True
        | (.ok next, after) => Undisturbed host s after next rounds

variable {host : PaginationHost} {p q : Pagination} {s : PageSnapshot} {reading : Int}

@[simp] theorem release_lastTime : (p.release s).lastTime = p.lastTime := by
  unfold release
  split <;> rfl

theorem foldl_release_lastTime (gone : List PageSnapshot) : (gone.foldl release p).lastTime = p.lastTime := by
  induction gone generalizing p with
  | nil => rfl
  | cons first rest ih => rw [foldl_cons, ih, release_lastTime]

@[simp] theorem cleanup_lastTime (now : Int) : (p.cleanup now).lastTime = p.lastTime :=
  foldl_release_lastTime _

@[simp] theorem releaseAll_lastTime : p.releaseAll.lastTime = p.lastTime := foldl_release_lastTime _

@[simp] theorem sweep_lastTime : (p.sweep reading).lastTime = p.clock reading := cleanup_lastTime _

@[simp] theorem enterEpoch_lastTime (epoch : String) : (p.enterEpoch epoch).lastTime = p.lastTime := by
  unfold enterEpoch
  split <;> simp

@[simp] theorem takeSnapshot_lastTime {now : Int} :
    (p.takeSnapshot host now input draws limit continuation bytes).2.lastTime = p.lastTime := by
  unfold takeSnapshot
  dsimp only
  split
  · rfl
  · split
    · rfl
    · dsimp only
      split <;> rfl

theorem step_lastTime (opened : p.closed = false) {call : PageCall}
    (read : call.reading? = some reading) : (p.step host call).lastTime = p.clock reading := by
  cases call with
  | firstPage time input draws =>
    cases read
    simp only [step, firstPage, opened, Bool.false_eq_true, if_false]
    split <;> simp
  | continuePage time input =>
    cases read
    simp only [step, continuePage, opened, Bool.false_eq_true, if_false]
    repeat' split
    all_goals simp [tick]
  | cleanupExpired time =>
    cases read
    exact sweep_lastTime
  | close => cases read

theorem lastTime_le_clock : p.lastTime ≤ p.clock reading := by
  unfold clock
  split <;> omega

theorem lastTime_le_step (call : PageCall) : p.lastTime ≤ (p.step host call).lastTime := by
  cases call with
  | firstPage time | continuePage time =>
    cases shut : p.closed with
    | false => exact lastTime_le_clock.trans_eq (step_lastTime shut rfl).symm
    | true => simp [step, firstPage, continuePage, shut]
  | cleanupExpired time =>
    have swept : (p.sweep time).lastTime = p.clock time := sweep_lastTime
    exact lastTime_le_clock.trans_eq swept.symm
  | close => exact le_of_eq (releaseAll_lastTime (p := { p with closed := true })).symm

theorem lastTime_le_run (calls : List PageCall) : p.lastTime ≤ (p.run host calls).lastTime := by
  induction calls generalizing p with
  | nil => exact le_rfl
  | cons call rest ih => exact (lastTime_le_step call).trans ih

theorem Consistent.run_live (consistent : p.Consistent) {calls : List PageCall}
    (live : s ∈ p.snapshots) (spared : Spared host s p calls)
    (young : (p.run host calls).lastTime < s.expires) : s ∈ (p.run host calls).snapshots := by
  induction calls generalizing p with
  | nil => exact live
  | cons call rest ih =>
    have leaves : Leaves host p call (p.step host call) := consistent.step call
    refine ih leaves.consistent (leaves.live s live (fun reading read => ?_) spared.1) spared.2 young
    have stamped : (p.step host call).lastTime = p.clock reading := step_lastTime (consistent.opened live) read
    rw [← stamped]
    exact (lastTime_le_run rest).trans_lt young

theorem Consistent.continuePage_ok (consistent : p.Consistent) (live : s ∈ p.snapshots) {index : Nat} {token : String}
    (held : s.tokens[index]? = some token) (young : p.clock reading < s.expires) :
    p.continuePage reading ⟨token, s.fences⟩ = (.ok (s.page ((index + 1) * s.limit)), p.sweep reading) := by
  have opened := consistent.opened live
  have found := (consistent.cursors token ⟨s, (index + 1) * s.limit⟩).mpr ⟨live, index, held, rfl⟩
  have identities := consistent.identities s live
  simp [Pagination.continuePage, opened, found, identities, not_le.mpr young]

open PageSnapshot

theorem Consistent.follow (consistent : p.Consistent) {rounds : List PageRound} {index : Nat}
    (live : index < s.tokens.length → s ∈ p.snapshots) (undisturbed : Undisturbed host s p (s.page (index * s.limit)) rounds) :
    p.follow host s.fences (s.page (index * s.limit)) rounds =
      (s.pages (index + 1) (min rounds.length (s.tokens.length - index))).map .ok := by
  induction rounds generalizing p index with
  | nil => simp [Pagination.follow, pages]
  | cons round rounds ih =>
    by_cases more : index < s.tokens.length
    · obtain ⟨token, held, next⟩ := page_next more
      have cursor : (s.page (index * s.limit)).next.bind (·.get? "cursor") = some token := by
        rw [next, Option.bind_some, PageUrl.get?_set]
      simp only [Undisturbed, cursor] at undisturbed
      obtain ⟨spared, young, later⟩ := undisturbed
      have books : (p.run host round.others).Consistent := consistent.run round.others
      have stays := consistent.run_live (live more) spared (lastTime_le_clock.trans_lt young)
      have answered := books.continuePage_ok stays held young
      obtain ⟨swept, kept, _⟩ := books.sweep round.reading
      rw [answered] at later
      have rest := ih swept (fun _ => kept s stays young) later
      have count : min (rounds.length + 1) (s.tokens.length - index) = min rounds.length (s.tokens.length - (index + 1)) + 1 := by
        omega
      simp [Pagination.follow, cursor, answered, rest, count, pages]
    · have ended : (s.page (index * s.limit)).next = none := page_last (not_lt.mp more)
      have none : s.tokens.length - index = 0 := by omega
      simp [Pagination.follow, ended, none, pages]

/-- After any calls of any clients on a new authority, under any clock and any random source: the
counters are the sums over the live snapshots and within bounds; a continuation returns items only
for a live cursor under the fences of its snapshot; a snapshot is dropped only when it has expired
or a call cancels it; and a client that follows its continuations before that gets all the items of
its first page's snapshot in order, and then no continuation. -/
theorem run_pages {options : PaginationOptions} {start : Pagination}
    (made : newPagination host options = .ok start) (calls : List PageCall) :
    let p := start.run host calls
    (p.retainedBytes = (p.snapshots.map fun s => (s.items.map fun item => (item.length : Int)).sum).sum ∧
      p.cursors.entries.length = (p.snapshots.map fun s => s.tokens.length).sum ∧
      p.retainedBytes ≤ p.options.maxRetainedBytes ∧ p.cursors.entries.length ≤ p.options.maxCursorPositions ∧
      p.snapshots.length ≤ p.options.maxSnapshots) ∧
    (∀ reading input page after, p.continuePage reading input = (.ok page, after) →
      ∃ s ∈ p.snapshots, input.token ∈ s.tokens ∧ input.fences = s.fences ∧
    p.clock reading < s.expires) ∧ (∀ call, ∀ s ∈ p.snapshots, s ∉ (p.step host call).snapshots →
      (∃ reading, call.reading? = some reading ∧ s.expires ≤ p.clock reading) ∨ p.cancels host s call = true) ∧
    (∀ reading input draws page after, p.firstPage host reading input draws = (.ok page, after) →
      ∃ s : PageSnapshot, s.items = input.items ∧ s.fences = input.fences ∧
        s.expires = p.clock reading + p.options.cursorTtl ∧
        (page.next.isSome → s ∈ after.snapshots) ∧ ∀ rounds, Undisturbed host s after page rounds →
          ∃ pages : List Page, after.follow host input.fences page rounds = pages.map .ok ∧
          page.items ++ pages.flatMap Page.items <+: input.items ∧
          (input.items.length ≤ rounds.length →
            page.items ++ pages.flatMap Page.items = input.items ∧ ((page :: pages).getLast?.map Page.next) = some none)) := by
  intro p
  have consistent : p.Consistent := (newPagination_consistent made).run calls
  refine ⟨⟨?_, ?_, consistent.byteBound, ?_, consistent.snapshotBound⟩, ?_, ?_, ?_⟩
  · rw [consistent.bytes]
    exact congrArg sum (map_congr_left consistent.counted)
  · rw [consistent.cursors_length, length_flatMap]
  · rw [consistent.cursors_length]
    exact consistent.cursorBound
  · intro reading input page after called
    have answered : Leaves host p (.continuePage reading input) after ∧ _ := consistent.continuePage called
    obtain ⟨s, live, index, held, fences, young, _⟩ := answered.2 page rfl
    exact ⟨s, live, mem_of_getElem? held, fences, young⟩
  · intro call s live dropped
    by_contra spared
    rw [not_or, Bool.not_eq_true] at spared
    refine dropped ((consistent.step call).live s live (fun reading read => ?_) spared.2)
    by_contra due
    exact spared.1 ⟨reading, read, not_lt.mp due⟩
  · intro reading input draws page after called
    obtain ⟨leaves, took⟩ := consistent.firstPage called
    obtain ⟨s, took⟩ := took page rfl
    have first : page = s.page (0 * s.limit) := by rw [Nat.zero_mul, took.page]
    refine ⟨s, took.items, took.fences, took.expires, fun more => took.live ?_, fun rounds undisturbed => ?_⟩
    · by_contra single
      rw [first, PageSnapshot.page_last (by omega)] at more
      cases more
    · rw [first] at undisturbed
      have walked := leaves.consistent.follow took.live undisturbed
      rw [Nat.sub_zero] at walked
      have items : page.items ++ (s.pages 1 (min rounds.length s.tokens.length)).flatMap Page.items =
          s.items.take ((min rounds.length s.tokens.length + 1) * s.limit) := by
        have whole := s.pages_items 0 (min rounds.length s.tokens.length + 1)
        rw [PageSnapshot.pages, flatMap_cons, ← first, Nat.zero_mul, drop_zero] at whole
        exact whole
      refine ⟨s.pages 1 (min rounds.length s.tokens.length), ?_, ?_, fun enough => ?_⟩
      · rw [← took.fences, first, walked]
      · rw [items, ← took.items]
        exact take_prefix _ _
      · have complete : min rounds.length s.tokens.length = s.tokens.length := by
          have fewer := s.tokens_le_items
          rw [took.items] at fewer
          omega
        rw [complete] at items ⊢
        have last := s.pages_last 0 s.tokens.length
        rw [PageSnapshot.pages, ← first] at last
        refine ⟨items.trans ?_, ?_⟩
        · rw [take_of_length_le s.items_le_pages, took.items]
        · rw [last, Option.map_some, PageSnapshot.page_last (by omega)]

def plainHost : PaginationHost where
  parseUrl value := some ⟨value, []⟩
  queryParses _ := true
  render url := url.target
  confined _ _ _ := true
  validScope _ := true
  jsonValid _ := true
  decodesToken _ := true

def twoItems (epoch : String) : FirstPageInput :=
  ⟨[[49], [50]], 1, ⟨"view", epoch, "all"⟩, "https://beads/items"⟩

def aToken : String := "AAAAAAAAAAAAAAAAAAAAAAAAAAAAAAAAAAAAAAAAAAA"

def bToken : String := "BBBBBBBBBBBBBBBBBBBBBBBBBBBBBBBBBBBBBBBBBBB"

theorem run_twoItems : let start : Pagination := { options := { scopeUrl := "https://beads/" } }
    let first := start.firstPage plainHost 1 (twoItems "one") [some aToken]
    let page : Page := ⟨[[49]], some ⟨"https://beads/items", [("cursor", aToken)]⟩⟩
    first.1 = .ok page ∧ ∃ pages : List Page,
      first.2.follow plainHost (twoItems "one").fences page [⟨[.firstPage 2 (twoItems "one") [some bToken]], 3⟩, ⟨[], 4⟩] =
        pages.map .ok ∧ page.items ++ pages.flatMap Page.items = [[49], [50]] := by
  have made : newPagination plainHost { scopeUrl := "https://beads/" } =
    .ok { options := { scopeUrl := "https://beads/" } } := rfl
  obtain ⟨s, items, fences, expires, live, walk⟩ := (run_pages made []).2.2.2 1 (twoItems "one") [some aToken] _ _ rfl
  obtain ⟨pages, followed, _, whole⟩ := walk [⟨[.firstPage 2 (twoItems "one") [some bToken]], 3⟩, ⟨[], 4⟩] (by
    refine ⟨⟨?_, trivial⟩, ?_, ?_⟩
    · simp [cancels, fences]
    · rw [expires]
      decide
    · rw [fences]
      exact trivial)
  exact ⟨rfl, pages, followed, (whole (by decide)).1⟩

/-- The second client's first page comes under another epoch and ends the walk of the first client,
long before its snapshot expires. -/
theorem follow_otherEpoch :
    let start : Pagination := { options := { scopeUrl := "https://beads/" } }
    let first := start.firstPage plainHost 1 (twoItems "one") [some aToken]
    newPagination plainHost { scopeUrl := "https://beads/" } = .ok start ∧
      first.1 = .ok ⟨[[49]], some ⟨"https://beads/items", [("cursor", aToken)]⟩⟩ ∧
      (∀ s ∈ first.2.snapshots, 3 < s.expires) ∧
      first.2.follow plainHost (twoItems "one").fences ⟨[[49]], some ⟨"https://beads/items", [("cursor", aToken)]⟩⟩
        [⟨[.firstPage 2 (twoItems "two") [some bToken]], 3⟩] = [.error ⟨"cursor-expired", "unknown"⟩] := by
  refine ⟨rfl, ?_, ?_, ?_⟩
  · decide
  · decide
  · decide

end Pagination

end Beads
