/-
Module: Plumego.Proofs.SlidingQuota
Purpose: The logs of the sliding window weigh what was allowed in the last minute, so no minute has
  more than the limits, and the time a denied call is told to wait is exact.
Trusted boundary: that of the model. `Now` does not go back and tokens are not negative.
Main exports: within, Tracks, Correct, sliding_window_correct
-/
import Plumego.Tenant.SlidingQuota

namespace Plumego.Tenant.Sliding

open Plumego.Go Plumego.Lib Plumego.Lib.TimedLog

/-! ## Cutting a log -/

/-- In a log in order, the search finds where the entries after the cutoff begin. -/
theorem drop_firstAfter {log : List Entry} (ordered : Ordered log) (cutoff : Time) :
    log.drop (firstAfter (log.map Entry.time) cutoff) = since cutoff log := by
  have monotone : ∀ earlier later, earlier ≤ later → later < (log.map Entry.time).length →
      ((log.map Entry.time)[earlier]?).any (fun time => decide (cutoff < time)) = true →
      ((log.map Entry.time)[later]?).any (fun time => decide (cutoff < time)) = true := by
    intro earlier later le inside after
    have times : (log.map Entry.time).Pairwise (· ≤ ·) := List.pairwise_map.mpr ordered
    rw [List.getElem?_eq_getElem inside, Option.any_some, decide_eq_true_eq]
    rw [List.getElem?_eq_getElem (Nat.lt_of_le_of_lt le inside), Option.any_some,
      decide_eq_true_eq] at after
    rcases Nat.lt_or_eq_of_le le with less | rfl
    · exact Int.lt_of_lt_of_le after (List.pairwise_iff_getElem.mp times _ _ _ _ less)
    · exact after
  obtain ⟨index, found, first⟩ := Go.search_spec (m := Id) (fun _ _ => rfl) monotone
  have isIndex : firstAfter (log.map Entry.time) cutoff = index := found
  rw [isIndex]
  have split : since cutoff log = since cutoff (log.take index) ++ since cutoff (log.drop index) := by
    rw [← since_append, List.take_append_drop]
  have shows : ∀ (place : Nat) entry, log[place]? = some entry →
      ((log.map Entry.time)[place]?).any (fun time => decide (cutoff < time)) =
        decide (cutoff < entry.time) := by
    intro place entry isAt
    rw [List.getElem?_map, isAt, Option.map_some, Option.any_some]
  rw [split, since_of_le, since_of_after, List.nil_append]
  · intro entry member
    obtain ⟨place, isAt⟩ := List.mem_iff_getElem?.mp member
    rw [List.getElem?_drop] at isAt
    have inside := (List.getElem?_eq_some_iff.mp isAt).1
    have after := first.after (index + place) (Nat.le_add_right _ _) (by rwa [List.length_map])
    rw [shows _ _ isAt] at after
    exact of_decide_eq_true after
  · intro entry member
    obtain ⟨place, isAt⟩ := List.mem_iff_getElem?.mp member
    rw [List.getElem?_take] at isAt
    split at isAt
    · rename_i less
      have before := first.before place less
      rw [shows _ _ isAt] at before
      exact Int.not_lt.mp (of_decide_eq_false before)
    · cases isAt

/-- A request's time with one unit. -/
def unit (time : Time) : Entry := ⟨time, 1⟩

/-- The log of the requests, one unit each. -/
def SlidingWindow.requestLog (window : SlidingWindow) : List Entry := window.requestTimes.map unit

theorem weight_units (times : List Time) : weight (times.map unit) = times.length := by
  induction times with
  | nil => rfl
  | cons time rest ih =>
    rw [List.map_cons, weight_cons, ih, List.length_cons]
    simp only [unit]
    omega

theorem dropped_eq {α : Type} (index : Nat) (entries : List α) :
    (if 0 < index then entries.drop index else entries) = entries.drop index := by
  split
  · rfl
  · rename_i notPositive
    rw [Nat.eq_zero_of_not_pos notPositive, List.drop_zero]

theorem cleanup_requestLog {window : SlidingWindow} (ordered : Ordered window.requestLog)
    (cutoff : Time) : (window.cleanup cutoff).requestLog = since cutoff window.requestLog := by
  have times : window.requestTimes = window.requestLog.map Entry.time := by
    simp [SlidingWindow.requestLog, unit, Function.comp_def]
  rw [← drop_firstAfter ordered, ← times]
  simp only [SlidingWindow.requestLog, SlidingWindow.cleanup, dropped_eq, List.map_drop]

theorem cleanup_tokenUsage {window : SlidingWindow} (ordered : Ordered window.tokenUsage)
    (cutoff : Time) : (window.cleanup cutoff).tokenUsage = since cutoff window.tokenUsage := by
  rw [← drop_firstAfter ordered]
  simp only [SlidingWindow.cleanup, dropped_eq]

/-! ## What was allowed -/

/-- What was allowed in the minute up to an instant, that minute's end included. -/
def within (instant : Time) (history : List Entry) : Int :=
  weight (history.filter fun entry => decide (instant - minute < entry.time ∧ entry.time ≤ instant))

/-- A log that weighs the same as all that was allowed, for every minute from now on. -/
structure Tracks (last : Time) (log history : List Entry) : Prop where
  ordered : Ordered log
  past : ∀ entry ∈ log, entry.time ≤ last
  pastHistory : ∀ entry ∈ history, entry.time ≤ last
  nonnegative : Nonnegative log
  nonnegativeHistory : Nonnegative history
  kept : ∀ cutoff, last - minute ≤ cutoff → weight (since cutoff log) = weight (since cutoff history)

section Tracks

variable {last now limit amount : Int} {log history extra : List Entry}

theorem Tracks.cut (tracks : Tracks last log history) (later : last ≤ now) :
    Tracks now (since (now - minute) log) history where
  ordered := tracks.ordered.sublist List.filter_sublist
  past entry member := Int.le_trans (tracks.past entry (mem_since.mp member).1) later
  pastHistory entry member := Int.le_trans (tracks.pastHistory entry member) later
  nonnegative entry member := tracks.nonnegative entry (mem_since.mp member).1
  nonnegativeHistory := tracks.nonnegativeHistory
  kept cutoff atLeast := by
    rw [since_since atLeast]
    exact tracks.kept cutoff (Int.le_trans (Int.sub_le_sub_right later minute) atLeast)

/-- Up to an instant that nothing is behind, the minute is all that came after its beginning. -/
theorem within_eq (past : ∀ entry ∈ history, entry.time ≤ now) :
    within now history = weight (since (now - minute) history) := by
  unfold within since
  refine congrArg weight (List.filter_congr fun entry member => ?_)
  simp [past entry member]

theorem Tracks.current (tracks : Tracks last log history) (later : last ≤ now) :
    weight (since (now - minute) log) = within now history := by
  rw [within_eq (tracks.cut later).pastHistory]
  exact tracks.kept _ (Int.sub_le_sub_right later minute)

/-- Entries of this instant that weigh what is allowed are added. -/
theorem Tracks.add (tracks : Tracks now log history) (fresh : ∀ entry ∈ extra, entry.time = now)
    (nonnegative : Nonnegative extra) (weighs : weight extra = amount) (notNegative : 0 ≤ amount) :
    Tracks now (log ++ extra) (history ++ [⟨now, amount⟩]) where
  ordered := by
    refine List.pairwise_append.mpr ⟨tracks.ordered, ?_, fun entry member later isFresh => ?_⟩
    · exact List.pairwise_of_forall_mem_list fun first isFirst second isSecond => by
        rw [fresh first isFirst, fresh second isSecond]
    · rw [fresh later isFresh]
      exact tracks.past entry member
  past entry member := by
    rcases List.mem_append.mp member with old | isFresh
    · exact tracks.past entry old
    · exact Int.le_of_eq (fresh entry isFresh)
  pastHistory entry member := by
    rcases List.mem_append.mp member with old | isFresh
    · exact tracks.pastHistory entry old
    · rw [List.mem_singleton.mp isFresh]
  nonnegative entry member := (List.mem_append.mp member).elim (tracks.nonnegative entry)
    (nonnegative entry)
  nonnegativeHistory entry member := by
    rcases List.mem_append.mp member with old | isFresh
    · exact tracks.nonnegativeHistory entry old
    · rw [List.mem_singleton.mp isFresh]
      exact notNegative
  kept cutoff atLeast := by
    rw [since_append, since_append, weight_append, weight_append, tracks.kept cutoff atLeast]
    have same : weight (since cutoff extra) = weight (since cutoff [⟨now, amount⟩]) := by
      by_cases after : cutoff < now
      · have all : since cutoff extra = extra :=
          since_of_after fun entry member => by rw [fresh entry member]; exact after
        rw [all, weighs]
        simp [since, after]
      · have nothing : since cutoff extra = [] :=
          since_of_le fun entry member => by rw [fresh entry member]; exact Int.not_lt.mp after
        rw [nothing]
        simp [since, after]
    rw [same]

/-- If the minute up to now has room, no minute gets too much. -/
theorem within_add (bounded : ∀ instant, within instant history ≤ limit)
    (past : ∀ entry ∈ history, entry.time ≤ now) (nonnegative : Nonnegative history)
    (room : within now history + amount ≤ limit) (instant : Time) :
    within instant (history ++ [⟨now, amount⟩]) ≤ limit := by
  have split : within instant (history ++ [⟨now, amount⟩]) = within instant history +
      if instant - minute < now ∧ now ≤ instant then amount else 0 := by
    unfold within
    rw [List.filter_append, weight_append]
    split <;> simp_all
  rw [split]
  have old := bounded instant
  split
  · rename_i inside
    -- What is in this minute is also in the one up to now.
    have fewer : within instant history ≤ within now history := by
      refine weight_filter_le nonnegative _ _ fun entry member isIn => ?_
      simp only [decide_eq_true_eq] at isIn ⊢
      exact ⟨Int.lt_of_le_of_lt (Int.sub_le_sub_right inside.2 minute) isIn.1, past entry member⟩
    omega
  · omega

end Tracks

/-! ## A call -/

/-- The requests and the tokens of what was allowed. -/
def asRequests (request : QuotaRequest) : Entry := ⟨request.now, request.requests⟩

def asTokens (request : QuotaRequest) : Entry := ⟨request.now, request.tokens⟩

/-- Both logs track what was allowed. -/
structure WindowTracks (last : Time) (window : SlidingWindow) (allowed : List QuotaRequest) :
    Prop where
  requests : Tracks last window.requestLog (allowed.map asRequests)
  tokens : Tracks last window.tokenUsage (allowed.map asTokens)

section Call

variable {config : QuotaConfig} {reqLimit tokLimit : Int}
  (supported : unsupported config = false)
  (limits : slidingWindowEffectiveLimits config = (reqLimit, tokLimit))
  (someRequests : 0 < reqLimit) (someTokens : 0 < tokLimit)
  {last : Time} {window : SlidingWindow} {allowed : List QuotaRequest}

/-- A call has room for its requests and tokens in the minute up to its own `Now`. -/
def Fits (reqLimit tokLimit : Int) (allowed : List QuotaRequest) (req : QuotaRequest) : Prop :=
  within req.now (allowed.map asRequests) + req.requests ≤ reqLimit ∧
    within req.now (allowed.map asTokens) + req.tokens ≤ tokLimit

theorem WindowTracks.cleanup (tracks : WindowTracks last window allowed) {now : Time}
    (later : last ≤ now) : WindowTracks now (window.cleanup (now - minute)) allowed where
  requests := by
    rw [cleanup_requestLog tracks.requests.ordered]
    exact tracks.requests.cut later
  tokens := by
    rw [cleanup_tokenUsage tracks.tokens.ordered]
    exact tracks.tokens.cut later

theorem WindowTracks.currentRequests (tracks : WindowTracks last window allowed) {now : Time}
    (later : last ≤ now) : ((window.cleanup (now - minute)).requestTimes.length : Int) =
      within now (allowed.map asRequests) := by
  rw [← tracks.requests.current later, ← cleanup_requestLog tracks.requests.ordered]
  exact (weight_units _).symm

theorem WindowTracks.currentTokens (tracks : WindowTracks last window allowed) {now : Time}
    (later : last ≤ now) : weight (window.cleanup (now - minute)).tokenUsage =
      within now (allowed.map asTokens) := by
  rw [← tracks.tokens.current later, ← cleanup_tokenUsage tracks.tokens.ordered]

/-- A log that was cut at the beginning of the minute up to now. -/
structure Current (now : Time) (window : SlidingWindow) : Prop where
  requests : ∀ entry ∈ window.requestLog, now - minute < entry.time
  tokens : ∀ entry ∈ window.tokenUsage, now - minute < entry.time

theorem WindowTracks.isCurrent (tracks : WindowTracks last window allowed) (now : Time) :
    Current now (window.cleanup (now - minute)) where
  requests entry member := by
    rw [cleanup_requestLog tracks.requests.ordered] at member
    exact (mem_since.mp member).2
  tokens entry member := by
    rw [cleanup_tokenUsage tracks.tokens.ordered] at member
    exact (mem_since.mp member).2

theorem normalize_positive (clock : Time) (request : QuotaRequest) :
    0 < (normalizeQuotaRequest clock request).requests := by
  simp only [normalizeQuotaRequest]
  split <;> omega

include supported limits someRequests someTokens

/-- What a call does: it is allowed if it fits, and is told to wait for what is missing. -/
theorem allow_spec (tracks : WindowTracks last window allowed) (clock : Time)
    (request : QuotaRequest) :
    let req := normalizeQuotaRequest clock request
    let cleaned := window.cleanup (req.now - minute)
    last ≤ req.now →
      (Fits reqLimit tokLimit allowed req ∧
        (allow config clock request window).2.1.allowed = true ∧
        (allow config clock request window).1 =
          { requestTimes := cleaned.requestTimes ++ List.replicate req.requests.toNat req.now
            tokenUsage := if 0 < req.tokens then cleaned.tokenUsage ++ [⟨req.now, req.tokens⟩]
              else cleaned.tokenUsage }) ∨
      (¬ Fits reqLimit tokLimit allowed req ∧
        (allow config clock request window).2.1.allowed = false ∧
        (allow config clock request window).1 = cleaned ∧
        (allow config clock request window).2.1.retryAfter =
          if reqLimit < within req.now (allowed.map asRequests) + req.requests then
            cleaned.calculateRequestRetryAfter req.now
              (within req.now (allowed.map asRequests) + req.requests - reqLimit)
          else cleaned.calculateTokenRetryAfter req.now
            (within req.now (allowed.map asTokens) + req.tokens - tokLimit)) := by
  intro req cleaned later
  have requests := tracks.currentRequests later
  have tokens := tracks.currentTokens later
  have notFree : ¬ (reqLimit ≤ 0 ∧ tokLimit ≤ 0) := by omega
  have unfolded := allow.eq_def config clock request window
  simp only [supported, limits, notFree, someRequests, someTokens, true_and, if_false,
    Bool.false_eq_true] at unfolded
  change ((cleaned.requestTimes.length : Int)) = _ at requests
  change weight cleaned.tokenUsage = _ at tokens
  rw [← requests, ← tokens]
  unfold Fits
  rw [← requests, ← tokens]
  by_cases manyRequests : reqLimit < (cleaned.requestTimes.length : Int) + req.requests
  · right
    rw [if_pos manyRequests] at unfolded
    rw [unfolded, if_pos manyRequests]
    exact ⟨fun fits => absurd fits.1 (Int.not_le.mpr manyRequests), rfl, rfl, rfl⟩
  · rw [if_neg manyRequests] at unfolded
    by_cases manyTokens : tokLimit < weight cleaned.tokenUsage + req.tokens
    · right
      rw [if_pos manyTokens] at unfolded
      rw [unfolded, if_neg manyRequests]
      exact ⟨fun fits => absurd fits.2 (Int.not_le.mpr manyTokens), rfl, rfl, rfl⟩
    · left
      rw [if_neg manyTokens] at unfolded
      rw [unfolded]
      exact ⟨⟨Int.not_lt.mp manyRequests, Int.not_lt.mp manyTokens⟩, rfl, rfl⟩

end Call

/-! ## Waiting -/

section Waiting

variable {now later needed : Int} {log : List Entry}

/-- A wait until the running total reaches what is needed is over exactly when that much is gone. -/
theorem wait_iff (ordered : Ordered log) (nonnegative : Nonnegative log)
    (past : ∀ entry ∈ log, entry.time ≤ now) (current : ∀ entry ∈ log, now - minute < entry.time)
    (positive : 0 < needed) (enough : needed ≤ weight log) (latest : Int) :
    now + retryAfter now (reachedAt needed 0 latest log + minute) ≤ later ↔
      weight (since (later - minute) log) + needed ≤ weight log := by
  have reached : ∀ cutoff, reachedAt needed 0 latest log ≤ cutoff ↔
      needed ≤ 0 + (weight log - weight (since cutoff log)) :=
    fun cutoff => reachedAt_le_iff ordered nonnegative positive (by omega)
  -- The entry is one of the last minute, so the difference is between 0 and a minute.
  have after := reached (now - minute)
  rw [since_of_after current] at after
  have before := reached now
  rw [since_of_le past, weight_nil] at before
  have exactly := reached (later - minute)
  have wait : retryAfter now (reachedAt needed 0 latest log + minute) =
      reachedAt needed 0 latest log + minute - now := by
    have lower : now < reachedAt needed 0 latest log + minute := by
      have notEarly : ¬ reachedAt needed 0 latest log ≤ now - minute := by
        rw [after]
        omega
      exact Int.lt_add_of_sub_right_lt (Int.not_le.mp notEarly)
    have upper : reachedAt needed 0 latest log ≤ now := before.mpr (by omega)
    generalize reachedAt needed 0 latest log = instant at *
    unfold retryAfter timeSub maxDuration
    unfold minute at *
    split_ifs <;> omega
  rw [wait]
  constructor
  · intro isOver
    have gone := exactly.mp (by omega)
    omega
  · intro gone
    have isOver := exactly.mpr (by omega)
    omega

end Waiting

section Retry

variable {config : QuotaConfig} {reqLimit tokLimit : Int} {last : Time} {window : SlidingWindow}
  {allowed : List QuotaRequest}

/-- The wait for requests is the one for their log of units. -/
theorem calculateRequestRetryAfter_eq {now needed : Int} (positive : 0 < needed)
    (enough : needed ≤ window.requestTimes.length) :
    window.calculateRequestRetryAfter now needed =
      retryAfter now (reachedAt needed 0 0 window.requestLog + minute) := by
  have notEmpty : ¬ ((window.requestTimes.length : Int) = 0 ∨ needed ≤ 0) := by omega
  have notMore : ¬ (window.requestTimes.length : Int) < needed := by omega
  have found := @reachedAt_units window.requestTimes needed 0 0 positive (needed - 1).toNat
    (by omega) (by omega)
  simp only [SlidingWindow.calculateRequestRetryAfter, if_neg notEmpty, if_neg notMore,
    List.getD_eq_getElem?_getD, found, Option.getD_some]
  rfl

theorem calculateTokenRetryAfter_eq {now needed : Int} (positive : 0 < needed)
    (enough : needed ≤ weight window.tokenUsage) :
    window.calculateTokenRetryAfter now needed =
      retryAfter now (reachedAt needed 0 zeroTime window.tokenUsage + minute) := by
  have notEmpty : ¬ (window.tokenUsage = [] ∨ needed ≤ 0) := by
    rintro (empty | notPositive)
    · rw [empty, weight_nil] at enough
      omega
    · omega
  simp only [SlidingWindow.calculateTokenRetryAfter, if_neg notEmpty]

/-- A call denied for one of the limits only is allowed again exactly from when it was told. -/
theorem retry_exact (supported : unsupported config = false)
    (limits : slidingWindowEffectiveLimits config = (reqLimit, tokLimit))
    (someRequests : 0 < reqLimit) (someTokens : 0 < tokLimit)
    (tracks : WindowTracks last window allowed) {clock again : Time} {request repeated : QuotaRequest}
    {req : QuotaRequest} (isReq : normalizeQuotaRequest clock request = req)
    (inOrder : last ≤ req.now) (fewRequests : req.requests ≤ reqLimit)
    (fewTokens : req.tokens ≤ tokLimit)
    (oneOnly : ¬ (reqLimit < within req.now (allowed.map asRequests) + req.requests ∧
      tokLimit < within req.now (allowed.map asTokens) + req.tokens))
    (denied : (allow config clock request window).2.1.allowed = false) {later : Time}
    (notBefore : req.now ≤ later)
    (same : normalizeQuotaRequest again repeated = { req with now := later }) :
    (allow config again repeated (allow config clock request window).1).2.1.allowed = true ↔
      req.now + (allow config clock request window).2.1.retryAfter ≤ later := by
  subst isReq
  rcases allow_spec supported limits someRequests someTokens tracks clock request inOrder with
    ⟨-, wasAllowed, -⟩ | ⟨notFits, -, cleaned, wait⟩
  · rw [wasAllowed] at denied
    cases denied
  have cut := tracks.cleanup inOrder
  have current := tracks.isCurrent (normalizeQuotaRequest clock request).now
  have nowRequests := tracks.currentRequests inOrder
  have nowTokens := tracks.currentTokens inOrder
  have fits := allow_spec supported limits someRequests someTokens cut again repeated
  rw [same] at fits
  have thenFits := fits notBefore
  rw [cleaned, wait]
  have asFits : (allow config again repeated (window.cleanup
      ((normalizeQuotaRequest clock request).now - minute))).2.1.allowed = true ↔
      Fits reqLimit tokLimit allowed { normalizeQuotaRequest clock request with now := later } := by
    rcases thenFits with ⟨isFit, isAllowed, -⟩ | ⟨notFit, isDenied, -⟩
    · exact iff_of_true isAllowed isFit
    · rw [isDenied]
      exact iff_of_false Bool.false_ne_true notFit
  rw [asFits]
  have thenRequests := cut.requests.current notBefore
  have thenTokens := cut.tokens.current notBefore
  have fewerRequests := weight_since_le (later - minute) cut.requests.nonnegative
  have fewerTokens := weight_since_le (later - minute) cut.tokens.nonnegative
  have units := weight_units (window.cleanup
    ((normalizeQuotaRequest clock request).now - minute)).requestTimes
  change weight (SlidingWindow.requestLog _) = _ at units
  unfold Fits at notFits ⊢
  dsimp only
  generalize normalizeQuotaRequest clock request = req at *
  generalize window.cleanup (req.now - minute) = cleanedWindow at *
  split
  · rename_i tooMany
    have positive : 0 < within req.now (allowed.map asRequests) + req.requests - reqLimit := by
      omega
    have enough : within req.now (allowed.map asRequests) + req.requests - reqLimit ≤
        weight cleanedWindow.requestLog := by omega
    rw [calculateRequestRetryAfter_eq positive (by omega), wait_iff cut.requests.ordered
      cut.requests.nonnegative cut.requests.past current.requests positive enough]
    constructor
    · rintro ⟨room, -⟩
      omega
    · intro gone
      exact ⟨by omega, by omega⟩
  · have positive : 0 < within req.now (allowed.map asTokens) + req.tokens - tokLimit := by
      omega
    have enough : within req.now (allowed.map asTokens) + req.tokens - tokLimit ≤
        weight cleanedWindow.tokenUsage := by omega
    rw [calculateTokenRetryAfter_eq positive enough, wait_iff cut.tokens.ordered
      cut.tokens.nonnegative cut.tokens.past current.tokens positive enough]
    constructor
    · rintro ⟨-, room⟩
      omega
    · intro gone
      exact ⟨by omega, by omega⟩

end Retry

/-! ## Runs -/

section Runs

variable {config : QuotaConfig} {reqLimit tokLimit : Int}

/-- What holds between the calls. -/
structure Sound (reqLimit tokLimit : Int) (state : State) : Prop where
  tracks : WindowTracks state.last state.window state.allowed
  requests : ∀ instant, within instant (state.allowed.map asRequests) ≤ reqLimit
  tokens : ∀ instant, within instant (state.allowed.map asTokens) ≤ tokLimit

theorem tracks_nil (start : Time) : Tracks start [] [] :=
  ⟨List.Pairwise.nil, by simp, by simp, by simp [Nonnegative], by simp [Nonnegative],
    fun _ _ => rfl⟩

theorem sound_initial (someRequests : 0 < reqLimit) (someTokens : 0 < tokLimit) (start : Time) :
    Sound reqLimit tokLimit (initial start) :=
  ⟨⟨tracks_nil start, tracks_nil start⟩, fun _ => Int.le_of_lt someRequests,
    fun _ => Int.le_of_lt someTokens⟩

/-- `Now` does not go back, and the tokens are not negative. -/
def InOrder (state : State) (call : Call) : Prop :=
  state.last ≤ (normalizeQuotaRequest call.1 call.2).now ∧ 0 ≤ call.2.tokens

instance (state : State) (call : Call) : Decidable (InOrder state call) :=
  inferInstanceAs (Decidable (_ ∧ _))

/-- What an allowed call leaves in the logs. -/
theorem WindowTracks.allowed {now : Time} {window : SlidingWindow} {allowed : List QuotaRequest}
    (tracks : WindowTracks now window allowed) {req : QuotaRequest} (isNow : req.now = now)
    (positive : 0 < req.requests) (notNegative : 0 ≤ req.tokens) :
    WindowTracks now
      { requestTimes := window.requestTimes ++ List.replicate req.requests.toNat req.now
        tokenUsage := if 0 < req.tokens then window.tokenUsage ++ [⟨req.now, req.tokens⟩]
          else window.tokenUsage } (allowed ++ [req]) := by
  subst isNow
  constructor
  · simp only [SlidingWindow.requestLog, List.map_append, List.map_cons, List.map_nil]
    refine tracks.requests.add ?_ ?_ ?_ (Int.le_of_lt positive)
    · simp [unit]
    · intro entry member
      obtain ⟨time, -, rfl⟩ := List.mem_map.mp member
      exact Int.one_nonneg
    · rw [weight_units, List.length_replicate]
      omega
  · have appended : (if 0 < req.tokens then window.tokenUsage ++ [⟨req.now, req.tokens⟩]
        else window.tokenUsage) =
        window.tokenUsage ++ if 0 < req.tokens then [⟨req.now, req.tokens⟩] else [] := by
      split <;> simp
    simp only [appended, List.map_append, List.map_cons, List.map_nil]
    refine tracks.tokens.add ?_ ?_ ?_ notNegative
    · intro entry member
      split at member
      · rw [List.mem_singleton.mp member]
      · cases member
    · intro entry member
      split at member
      · rw [List.mem_singleton.mp member]
        exact notNegative
      · cases member
    · split
      · simp
      · rw [weight_nil]
        omega

variable (supported : unsupported config = false)
  (limits : slidingWindowEffectiveLimits config = (reqLimit, tokLimit))
  (someRequests : 0 < reqLimit) (someTokens : 0 < tokLimit)

include supported limits someRequests someTokens

theorem step_sound {before after : State} {call : Call} {out : QuotaResult × Option GoError}
    (sound : Sound reqLimit tokLimit before) (inOrder : InOrder before call)
    (stepped : (machine config).step before call = some (after, out)) :
    Sound reqLimit tokLimit after := by
  obtain ⟨clock, request⟩ := call
  obtain ⟨later, notNegative⟩ := inOrder
  have cut := sound.tracks.cleanup later
  have after_eq : after = ⟨(allow config clock request before.window).1,
      (normalizeQuotaRequest clock request).now,
      if (allow config clock request before.window).2.1.allowed then
        before.allowed ++ [normalizeQuotaRequest clock request] else before.allowed⟩ :=
    (congrArg Prod.fst (Option.some.inj stepped)).symm
  subst after_eq
  rcases allow_spec supported limits someRequests someTokens sound.tracks clock request later with
    ⟨fits, isAllowed, window⟩ | ⟨-, isDenied, window, -⟩
  · simp only [isAllowed, if_true, window]
    refine ⟨cut.allowed rfl (normalize_positive clock request) notNegative, ?_, ?_⟩
    · rw [List.map_append]
      exact within_add sound.requests cut.requests.pastHistory
        cut.requests.nonnegativeHistory fits.1
    · rw [List.map_append]
      exact within_add sound.tokens cut.tokens.pastHistory cut.tokens.nonnegativeHistory fits.2
  · simp only [isDenied, Bool.false_eq_true, if_false, window]
    exact ⟨cut, sound.requests, sound.tokens⟩

omit supported limits someRequests someTokens in
/-- What is to hold at every point: no minute has more than the limits; a next call is denied only if
it would break that at its own `Now`; and if it is denied for one limit only, and asks for no more
than the limits, it is allowed again exactly from when it was told. -/
structure Correct (config : QuotaConfig) (reqLimit tokLimit : Int) (state : State) : Prop where
  bounded : ∀ instant, within instant (state.allowed.map asRequests) ≤ reqLimit ∧
    within instant (state.allowed.map asTokens) ≤ tokLimit
  denied : ∀ clock request, InOrder state (clock, request) →
    (allow config clock request state.window).2.1.allowed = false →
      ¬ Fits reqLimit tokLimit state.allowed (normalizeQuotaRequest clock request)
  retry : ∀ clock request req, InOrder state (clock, request) →
    normalizeQuotaRequest clock request = req → req.requests ≤ reqLimit → req.tokens ≤ tokLimit →
    ¬ (reqLimit < within req.now (state.allowed.map asRequests) + req.requests ∧
      tokLimit < within req.now (state.allowed.map asTokens) + req.tokens) →
    (allow config clock request state.window).2.1.allowed = false →
    ∀ again repeated later, req.now ≤ later →
      normalizeQuotaRequest again repeated = { req with now := later } →
      ((allow config again repeated (allow config clock request state.window).1).2.1.allowed = true ↔
        req.now + (allow config clock request state.window).2.1.retryAfter ≤ later)

/-- In every run of calls in order, what is to hold does. -/
theorem sliding_window_correct {start : Time} {calls : List Call}
    (ordered : (machine config).Meets InOrder (initial start) calls) {state : State}
    (reached : (machine config).Reaches (initial start) calls state) :
    Correct config reqLimit tokLimit state := by
  have keeps : ∀ before call after out, Sound reqLimit tokLimit before → InOrder before call →
      (machine config).step before call = some (after, out) → Sound reqLimit tokLimit after :=
    fun before call after out sound inOrder stepped =>
      step_sound supported limits someRequests someTokens sound inOrder stepped
  have sound := Machine.reaches_invariant keeps (sound_initial someRequests someTokens start)
    ordered reached
  exact {
    bounded := fun instant => ⟨sound.requests instant, sound.tokens instant⟩
    denied := by
      intro clock request inOrder isDenied
      rcases allow_spec supported limits someRequests someTokens sound.tracks clock request
        inOrder.1 with ⟨-, isAllowed, -⟩ | ⟨notFits, -, -⟩
      · rw [isAllowed] at isDenied
        cases isDenied
      · exact notFits
    retry := by
      intro clock request req inOrder isReq fewRequests fewTokens oneOnly isDenied again repeated
        later notBefore same
      exact retry_exact supported limits someRequests someTokens sound.tracks isReq
        (isReq ▸ inOrder.1) fewRequests fewTokens oneOnly isDenied notBefore same }

end Runs

/-- Two requests and ten tokens a minute. -/
def twoAMinute : QuotaConfig := ⟨[⟨.minute, 2, 10⟩]⟩

/-- Two calls that are allowed and one that is denied. -/
def threeCalls : List Call :=
  [(0, ⟨1, 4, 1000⟩), (0, ⟨0, 5, 2000⟩), (0, ⟨1, 0, 2000⟩)]

theorem sliding_window_correct_threeCalls : ∃ state,
    (machine twoAMinute).run (initial 0) threeCalls = some state ∧ state.allowed.length = 2 ∧
      Correct twoAMinute 2 10 state := by
  have ran : ((machine twoAMinute).run (initial 0) threeCalls).map
      (fun state => decide (state.allowed.length = 2)) = some true := by decide +kernel
  obtain ⟨state, isState, two⟩ := Option.map_eq_some_iff.mp ran
  have ordered : (machine twoAMinute).Meets InOrder (initial 0) threeCalls := by decide +kernel
  exact ⟨state, isState, of_decide_eq_true two, sliding_window_correct (by decide) rfl (by decide)
    (by decide) ordered ⟨threeCalls, List.prefix_refl _, isState⟩⟩

end Plumego.Tenant.Sliding
