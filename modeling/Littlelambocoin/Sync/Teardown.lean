import Littlelambocoin.Sync.Lifecycle

namespace Littlelambocoin.Sync

namespace Lifecycle

variable {Handle : Type} (throws : Handle → Bool)

section Continuations

variable (s : Lifecycle Handle)

@[simp] theorem leaveAll_calls : (leaveAll s).calls = s.calls := by
  unfold leaveAll; split_ifs <;> rfl

@[simp] theorem leaveAll_unsubscribes : (leaveAll s).unsubscribes = s.unsubscribes := by
  unfold leaveAll; split_ifs <;> rfl

@[simp] theorem leaveAll_removed : (leaveAll s).removed = s.removed := by
  unfold leaveAll; split_ifs <;> rfl

@[simp] theorem leaveAll_invoked : (leaveAll s).invoked = s.invoked := by
  unfold leaveAll; split_ifs <;> rfl

@[simp] theorem finish_calls : (finish throws s).calls = s.calls := by
  unfold finish; split_ifs <;> rfl

@[simp] theorem finish_unsubscribes : (finish throws s).unsubscribes = s.unsubscribes := by
  unfold finish; split_ifs <;> rfl

@[simp] theorem finish_removed : (finish throws s).removed = s.removed := by
  unfold finish; split_ifs <;> rfl

@[simp] theorem react_calls : (react throws s).calls = s.calls := by simp [react]

@[simp] theorem react_unsubscribes : (react throws s).unsubscribes = s.unsubscribes := by
  simp [react]

theorem react_phase_eq_loading : (react throws s).phase = .loading ↔ s.phase = .loading := by
  unfold react Lifecycle.finish Lifecycle.leaveAll
  split_ifs <;> simp_all

theorem react_of_done (h : s.phase = .done) : react throws s = s := by
  simp [react, Lifecycle.finish, Lifecycle.leaveAll, h]

theorem react_invoked_of_ne_done (h : s.phase ≠ .done → s.invoked = []) :
    (react throws s).phase ≠ .done → (react throws s).invoked = [] := by
  unfold react Lifecycle.finish Lifecycle.leaveAll
  split_ifs <;> simp_all

-- The continuations reach `done` only through `finish`, which calls the handles collected so far
theorem react_invoked_of_enter_done (h : s.phase ≠ .done) (hd : (react throws s).phase = .done) :
    (react throws s).invoked = closeAll throws (react throws s).unsubscribes := by
  unfold react Lifecycle.finish Lifecycle.leaveAll at *
  split_ifs at * <;> simp_all

end Continuations

-- What one event can do: nothing, or its own update followed by the continuations
theorem step_cases (n : Nat) (s : Lifecycle Handle) (event : Event Handle) :
    step throws n s event = s ∨
      (event = .dataLoaded true ∧ s.phase = .loading ∧ step throws n s event =
        react throws { s with phase := .subscribing, calls := List.replicate n .pending }) ∨
      (event = .dataLoaded false ∧ s.phase = .loading ∧
        step throws n s event = react throws { s with phase := .removing }) ∨
      (∃ index response, event = .subscribed index response ∧ s.calls[index]? = some .pending ∧
        step throws n s event = react throws (settle index s response)) ∨
      (event = .entryRemoved ∧ s.removed = false ∧
        step throws n s event = react throws { s with removed := true }) := by
  cases event with
  | dataLoaded resolved =>
      by_cases hl : s.phase = .loading
      · cases resolved <;> simp [Lifecycle.step, hl]
      · simp [Lifecycle.step, hl]
  | subscribed index response =>
      by_cases hp : s.calls[index]? = some .pending
      · exact .inr (.inr (.inr (.inl ⟨index, response, rfl, hp, by simp [Lifecycle.step, hp]⟩)))
      · simp [Lifecycle.step, hp]
  | entryRemoved => cases hr : s.removed <;> simp [Lifecycle.step, hr]

variable {n : Nat} {s : Lifecycle Handle}

theorem step_dataLoaded (h : s.phase = .loading) (resolved : Bool) :
    (step throws n s (.dataLoaded resolved)).phase ≠ .loading ∧
      (step throws n s (.dataLoaded resolved)).calls =
        (if resolved then List.replicate n .pending else s.calls) ∧
      (step throws n s (.dataLoaded resolved)).unsubscribes = s.unsubscribes := by
  simp only [Lifecycle.step, if_pos h]
  cases resolved <;> simp [react_phase_eq_loading]

theorem step_of_calls_nil (hc : s.calls = []) (event : Event Handle)
    (hev : s.phase = .loading → ∀ resolved, event ≠ .dataLoaded resolved) :
    ((step throws n s event).phase = .loading ↔ s.phase = .loading) ∧
      (step throws n s event).calls = [] ∧
      (step throws n s event).unsubscribes = s.unsubscribes := by
  rcases step_cases throws n s event with
    he | ⟨rfl, hl, -⟩ | ⟨rfl, hl, -⟩ | ⟨index, response, -, hp, -⟩ | ⟨-, -, he⟩
  · rw [he]; exact ⟨Iff.rfl, hc, rfl⟩
  · exact absurd rfl (hev hl true)
  · exact absurd rfl (hev hl false)
  · simp [hc] at hp
  · rw [he]; exact ⟨react_phase_eq_loading throws _, by simpa using hc, by simp⟩

theorem step_of_not_loading (h : s.phase ≠ .loading) (event : Event Handle) :
    (step throws n s event).phase ≠ .loading ∧
      (step throws n s event).calls.length = s.calls.length := by
  rcases step_cases throws n s event with
    he | ⟨-, hl, -⟩ | ⟨-, hl, -⟩ | ⟨_, _, -, -, he⟩ | ⟨-, -, he⟩
  · rw [he]; exact ⟨h, rfl⟩
  · exact absurd hl h
  · exact absurd hl h
  · rw [he]; simpa [react_phase_eq_loading, settle] using h
  · rw [he]; simpa [react_phase_eq_loading] using h

theorem run_append (events events' : List (Event Handle)) :
    run throws n s (events ++ events') = run throws n (run throws n s events) events' :=
  List.foldl_append _ _ _ _

theorem run_of_calls_nil (hc : s.calls = []) (events : List (Event Handle))
    (hev : s.phase = .loading → ∀ resolved, .dataLoaded resolved ∉ events) :
    ((run throws n s events).phase = .loading ↔ s.phase = .loading) ∧
      (run throws n s events).calls = [] ∧
      (run throws n s events).unsubscribes = s.unsubscribes := by
  induction events generalizing s with
  | nil => exact ⟨Iff.rfl, hc, rfl⟩
  | cons event events ih =>
      simp only [List.mem_cons, not_or] at hev
      obtain ⟨hp, hcalls, hu⟩ :=
        step_of_calls_nil throws hc event fun hl r he => (hev hl r).1 he.symm
      obtain ⟨hp', hcalls', hu'⟩ := ih hcalls fun hl r => (hev (hp.1 hl) r).2
      exact ⟨hp'.trans hp, hcalls', hu'.trans hu⟩

-- No handle is called before `cacheEntryRemoved` has resolved, and none more often than it
-- was collected: the called handles are a prefix of `unsubscribes`.
structure Safe (s : Lifecycle Handle) : Prop where
  invoked_isPrefix : s.invoked <+: s.unsubscribes
  removed_of_invoked : s.invoked ≠ [] → s.removed = true

theorem safe_init : Safe (init : Lifecycle Handle) := ⟨List.nil_prefix, fun h => (h rfl).elim⟩

theorem Safe.leaveAll {s : Lifecycle Handle} (h : Safe s) : Safe (leaveAll s) :=
  ⟨by simpa using h.1, by simpa using h.2⟩

theorem Safe.finish {s : Lifecycle Handle} (h : Safe s) : Safe (finish throws s) := by
  unfold Lifecycle.finish
  split_ifs with hf
  · exact ⟨closeAll_isPrefix throws _, fun _ => hf.2⟩
  · exact h

theorem Safe.react {s : Lifecycle Handle} (h : Safe s) : Safe (react throws s) :=
  h.leaveAll.finish throws

theorem Safe.settle {s : Lifecycle Handle} (h : Safe s) (index : Nat) (response : Response Handle) :
    Safe (settle index s response) :=
  ⟨h.1.trans (List.prefix_append _ _), h.2⟩

theorem Safe.step {s : Lifecycle Handle} (h : Safe s) (n : Nat) (event : Event Handle) :
    Safe (step throws n s event) := by
  rcases step_cases throws n s event with
    he | ⟨-, -, he⟩ | ⟨-, -, he⟩ | ⟨index, response, -, -, he⟩ | ⟨-, -, he⟩ <;> rw [he]
  · exact h
  · exact Safe.react throws ⟨h.1, h.2⟩
  · exact Safe.react throws ⟨h.1, h.2⟩
  · exact (h.settle index response).react throws
  · exact Safe.react throws ⟨h.1, fun _ => rfl⟩

theorem Safe.run {s : Lifecycle Handle} (h : Safe s) (n : Nat) (events : List (Event Handle)) :
    Safe (run throws n s events) := by
  induction events generalizing s with
  | nil => exact h
  | cons event events ih => exact ih (h.step throws n event)

-- A state the continuations can leave: `finally` is entered only once `Promise.all` has
-- settled, and the teardown called `closeAll` on every handle unless a call was rejected.
structure Settled (s : Lifecycle Handle) : Prop where
  calls_of_loading : s.phase = .loading → s.calls = []
  leaving : s.phase = .removing ∨ s.phase = .done → .rejected ∈ s.calls ∨ .pending ∉ s.calls
  done : s.phase = .done →
    s.removed = true ∧ (.rejected ∈ s.calls ∨ s.invoked = closeAll throws s.unsubscribes)

-- A settled state in which no continuation is left to run
structure Shape (s : Lifecycle Handle) extends Settled throws s : Prop where
  subscribing : s.phase = .subscribing → allSettled s.calls = false
  removing : s.phase = .removing → s.removed = false

theorem leaving_of_allSettled {calls : List Call} (h : allSettled calls = true) :
    .rejected ∈ calls ∨ .pending ∉ calls := by
  simp only [allSettled, Bool.or_eq_true, List.all_eq_true, List.any_eq_true,
    decide_eq_true_eq] at h
  rcases h with h | ⟨call, hm, rfl⟩
  · exact .inr fun hp => by simpa using h _ hp
  · exact .inl hm

theorem allSettled_of_leaving {calls : List Call} (h : .rejected ∈ calls ∨ .pending ∉ calls) :
    allSettled calls = true := by
  by_cases hr : .rejected ∈ calls
  · simp [allSettled, hr]
  · simp only [allSettled, Bool.or_eq_true, List.all_eq_true, decide_eq_true_eq]
    refine .inl fun call hc => ?_
    cases call
    · exact absurd hc (h.resolve_left hr)
    · rfl
    · exact absurd hc hr

theorem rejected_mem_set {calls : List Call} {index : Nat} (hp : calls[index]? = some .pending)
    (hr : .rejected ∈ calls) (call : Call) : .rejected ∈ calls.set index call := by
  obtain ⟨j, hj⟩ := List.mem_iff_getElem?.1 hr
  have hne : index ≠ j := by rintro rfl; simp [hp] at hj
  exact List.mem_iff_getElem?.2 ⟨j, by rw [List.getElem?_set_ne hne, hj]⟩

theorem Settled.leaveAll {s : Lifecycle Handle} (h : Settled throws s) :
    Settled throws (leaveAll s) := by
  unfold Lifecycle.leaveAll
  split_ifs with hs
  · exact ⟨by simp, fun _ => leaving_of_allSettled hs.2, by simp⟩
  · exact h

theorem Settled.finish {s : Lifecycle Handle} (h : Settled throws s) :
    Settled throws (finish throws s) := by
  unfold Lifecycle.finish
  split_ifs with hs
  · exact ⟨by simp, fun _ => h.leaving (.inl hs.1), fun _ => ⟨hs.2, .inr rfl⟩⟩
  · exact h

theorem shape_react {s : Lifecycle Handle} (h : Settled throws s) : Shape throws (react throws s) := by
  refine ⟨(h.leaveAll throws).finish throws, ?_, ?_⟩ <;>
    simp only [Lifecycle.react, Lifecycle.finish, Lifecycle.leaveAll] <;> split_ifs <;> simp_all

theorem shape_init : Shape throws (init : Lifecycle Handle) :=
  ⟨⟨fun _ => rfl, by simp [init], by simp [init]⟩, by simp [init], by simp [init]⟩

theorem Shape.step {s : Lifecycle Handle} (h : Shape throws s) (n : Nat) (event : Event Handle) :
    Shape throws (step throws n s event) := by
  rcases step_cases throws n s event with
    he | ⟨-, -, he⟩ | ⟨-, hl, he⟩ | ⟨index, response, -, hp, he⟩ | ⟨-, hr, he⟩ <;> rw [he]
  · exact h
  · exact shape_react throws ⟨by simp, by simp, by simp⟩
  · exact shape_react throws ⟨by simp, fun _ => .inr (by simp [h.calls_of_loading hl]), by simp⟩
  · -- a call settles only while pending, so in `finally` one of its siblings was rejected
    have hrej : s.phase = .removing ∨ s.phase = .done → .rejected ∈ s.calls :=
      fun hd => (h.leaving hd).resolve_right fun hn => hn (List.getElem?_mem hp)
    refine shape_react throws ⟨fun hl => ?_, fun hd => .inl ?_, fun hd => ⟨(h.done hd).1, .inl ?_⟩⟩
    · simp [h.calls_of_loading hl] at hp
    · exact rejected_mem_set hp (hrej hd) _
    · exact rejected_mem_set hp (hrej (.inr hd)) _
  · exact shape_react throws
      ⟨h.calls_of_loading, h.leaving, fun hd => absurd (h.done hd).1 (by simp [hr])⟩

theorem Shape.run {s : Lifecycle Handle} (h : Shape throws s) (n : Nat) (events : List (Event Handle)) :
    Shape throws (run throws n s events) := by
  induction events generalizing s with
  | nil => exact h
  | cons event events ih => exact ih (h.step throws n event)

-- In a reachable state the teardown has run exactly when the three awaits are over
theorem Shape.done_iff {s : Lifecycle Handle} (h : Shape throws s) :
    s.phase = .done ↔
      s.phase ≠ .loading ∧ (.rejected ∈ s.calls ∨ .pending ∉ s.calls) ∧ s.removed = true := by
  refine ⟨fun hd => ⟨by simp [hd], h.leaving (.inr hd), (h.done hd).1⟩, fun ⟨hl, ha, hr⟩ => ?_⟩
  cases hp : s.phase with
  | loading => exact absurd hp hl
  | subscribing => exact absurd (allSettled_of_leaving ha) (by simp [h.subscribing hp])
  | removing => simp [h.removing hp] at hr
  | done => rfl

theorem step_of_done (h : s.phase = .done) (event : Event Handle) :
    (step throws n s event).phase = .done ∧ (step throws n s event).invoked = s.invoked := by
  rcases step_cases throws n s event with
    he | ⟨-, hl, -⟩ | ⟨-, hl, -⟩ | ⟨index, response, -, -, he⟩ | ⟨-, -, he⟩
  · rw [he]; exact ⟨h, rfl⟩
  · simp [h] at hl
  · simp [h] at hl
  · rw [he, react_of_done throws (settle index s response) h]; exact ⟨h, rfl⟩
  · rw [he, react_of_done throws { s with removed := true } h]; exact ⟨h, rfl⟩

theorem step_invoked_of_ne_done (h : s.phase ≠ .done → s.invoked = []) (event : Event Handle) :
    (step throws n s event).phase ≠ .done → (step throws n s event).invoked = [] := by
  rcases step_cases throws n s event with
    he | ⟨-, hl, he⟩ | ⟨-, hl, he⟩ | ⟨index, response, -, -, he⟩ | ⟨-, -, he⟩ <;> rw [he]
  · exact h
  · exact react_invoked_of_ne_done throws _ fun _ => h (by simp [hl])
  · exact react_invoked_of_ne_done throws _ fun _ => h (by simp [hl])
  · exact react_invoked_of_ne_done throws _ h
  · exact react_invoked_of_ne_done throws _ h

theorem step_invoked_of_enter_done (h : s.phase ≠ .done) (event : Event Handle)
    (hd : (step throws n s event).phase = .done) :
    (step throws n s event).invoked = closeAll throws (step throws n s event).unsubscribes := by
  rcases step_cases throws n s event with
    he | ⟨-, -, he⟩ | ⟨-, -, he⟩ | ⟨index, response, -, -, he⟩ | ⟨-, -, he⟩ <;> rw [he] at hd ⊢
  · exact absurd hd h
  · exact react_invoked_of_enter_done throws _ (by simp) hd
  · exact react_invoked_of_enter_done throws _ (by simp) hd
  · exact react_invoked_of_enter_done throws _ h hd
  · exact react_invoked_of_enter_done throws _ h hd

theorem run_of_done (h : s.phase = .done) (events : List (Event Handle)) :
    (run throws n s events).phase = .done ∧ (run throws n s events).invoked = s.invoked := by
  induction events generalizing s with
  | nil => exact ⟨h, rfl⟩
  | cons event events ih =>
      obtain ⟨hp, hi⟩ := step_of_done throws (n := n) h event
      rw [run_cons, ← hi]
      exact ih hp

theorem run_invoked_of_ne_done (h : s.phase ≠ .done → s.invoked = []) (events : List (Event Handle)) :
    (run throws n s events).phase ≠ .done → (run throws n s events).invoked = [] := by
  induction events generalizing s with
  | nil => exact h
  | cons event events ih => exact ih (step_invoked_of_ne_done throws h event)

-- The teardown runs once. Until it has, no handle is called; once it has, no later event, a
-- late handle included, calls another or starts the function again.
theorem run_teardown_once (n : Nat) (events later : List (Event Handle)) :
    let s := run throws n init events
    (s.phase ≠ .done → s.invoked = []) ∧
      (s.phase = .done → (run throws n init (events ++ later)).phase = .done ∧
        (run throws n init (events ++ later)).invoked = s.invoked) :=
  ⟨run_invoked_of_ne_done throws (fun _ => rfl) events,
    fun hdone => by rw [run_append]; exact run_of_done throws hdone later⟩

-- The teardown ran at one event of the run, and called the handles collected up to that event
theorem run_teardown_at (h : s.phase ≠ .done) (events : List (Event Handle))
    (hd : (run throws n s events).phase = .done) :
    ∃ pre event post, events = pre ++ event :: post ∧ (run throws n s pre).phase ≠ .done ∧
      (run throws n s (pre ++ [event])).phase = .done ∧
      (run throws n s events).invoked =
        closeAll throws (run throws n s (pre ++ [event])).unsubscribes := by
  induction events generalizing s with
  | nil => exact absurd hd h
  | cons event events ih =>
      by_cases he : (step throws n s event).phase = .done
      · refine ⟨[], event, events, rfl, h, he, ?_⟩
        rw [run_cons, (run_of_done throws he events).2]
        exact step_invoked_of_enter_done throws h event he
      · obtain ⟨pre, event', post, rfl, hpre, hat, hinv⟩ := ih he hd
        exact ⟨event :: pre, event', post, rfl, hpre, hat, hinv⟩

theorem run_unsubscribes_of_pending (hl : s.phase ≠ .loading) (events : List (Event Handle))
    (hnodup : (events.filterMap Event.index?).Nodup)
    (hpending : ∀ index ∈ events.filterMap Event.index?, s.calls[index]? = some .pending) :
    (run throws n s events).unsubscribes = s.unsubscribes ++ events.filterMap Event.handle? := by
  induction events generalizing s with
  | nil => simp
  | cons event events ih =>
      cases event with
      | dataLoaded resolved =>
          simpa [Lifecycle.step, hl, Event.handle?] using ih hl hnodup hpending
      | subscribed index response =>
          simp only [List.filterMap_cons, Event.index?, List.nodup_cons, List.mem_cons,
            forall_eq_or_imp] at hnodup hpending
          have hcalls : ∀ j ∈ events.filterMap Event.index?,
              (s.calls.set index response.outcome)[j]? = some .pending := fun j hj => by
            rw [List.getElem?_set_ne fun h => hnodup.1 (by subst h; exact hj), hpending.2 j hj]
          rw [run_cons, Lifecycle.step, if_pos hpending.1,
            ih (by rwa [Ne, react_phase_eq_loading]) hnodup.2 fun j hj => by
              rw [react_calls]; exact hcalls j hj]
          rcases response with ⟨_ | _⟩ | _ <;> simp [settle, Response.handle?, Event.handle?]
      | entryRemoved =>
          have hstep : (step throws n s .entryRemoved).unsubscribes = s.unsubscribes ∧
              (step throws n s .entryRemoved).calls = s.calls := by
            simp only [Lifecycle.step]; split <;> simp
          rw [run_cons, ih (step_of_not_loading throws hl _).1 hnodup (hstep.2 ▸ hpending), hstep.1]
          rfl

-- The collected handles are those the subscribe calls resolve with; none if the data rejects
theorem run_unsubscribes (pre post : List (Event Handle)) (resolved : Bool)
    (hpre : ∀ r, .dataLoaded r ∉ pre) (hnodup : (post.filterMap Event.index?).Nodup)
    (hlt : ∀ index ∈ post.filterMap Event.index?, index < n) :
    (run throws n init (pre ++ .dataLoaded resolved :: post)).unsubscribes =
      if resolved then post.filterMap Event.handle? else [] := by
  obtain ⟨hp, hc, hu⟩ := run_of_calls_nil throws (n := n) (s := init) rfl pre fun _ => hpre
  obtain ⟨hl, hcalls, hu'⟩ := step_dataLoaded throws (n := n) (hp.2 rfl) resolved
  rw [run_append, run_cons]
  cases resolved
  · rw [(run_of_calls_nil throws (by rw [hcalls, if_neg Bool.false_ne_true, hc]) post
      fun hl' => absurd hl' hl).2.2, hu', hu]
    rfl
  · rw [run_unsubscribes_of_pending throws hl post hnodup fun index hi => by
      simp [hcalls, hlt index hi], hu', hu]
    rfl

end Lifecycle

end Littlelambocoin.Sync
