import Bio.LinuxNotifyInvariant
import Bio.Notify

/-!
# No notification is lost on the platforms with an event

* `NotifyState.async_of_reachable`: the pool goes through the runs of `AsyncState`.
* `NotifyState.Inv`: the main thread and the workers keep the rules of `Channel.Sound`. A worker is
  checked when the first `bio_thread_update` has passed it.
* `kqueueSound`, `completionPortSound`, `eventfdSound`: a notification is heard on each platform.

Results: `kqueue_notification_not_lost`, `completionPort_notification_not_lost`,
`eventfd_notification_not_lost`. For the eventfd they need room in the submission queue:
`eventfd_notification_lost` is a run in which `bio_acquire_io_req` takes the notification.
-/

namespace Bio

theorem PollPlace.notifiable_of_wait {place : PollPlace} {notifiable : Bool}
    (h : place.wait = some notifiable) : place.notifiable = some notifiable := by
  cases place <;> first | exact h | cases h

namespace NotifyState

variable {K : Type} {nf : Notifier K} {size : PoolSize} {s : NotifyState K} {i : Nat}

/-! ## The runs of the pool -/

theorem async_platformStep (s : NotifyState K) : (s.platformStep nf).async = s.async := by
  unfold NotifyState.platformStep
  split <;> rfl

/-- The platform only takes some runs away. -/
theorem async_of_reachable (h : (machine nf size).Reachable s) :
    (AsyncState.machine size).Reachable s.async := by
  refine Machine.refinement (f := NotifyState.async) ?_ (fun s a _ he => ?_) h
  · rintro s rfl
    exact .init rfl
  cases a with
  | async a => exact .single he.1
  | notify i =>
    obtain ⟨hn, hpc⟩ := he
    have hen : (AsyncState.machine size).enabled s.async (.worker i) :=
      ⟨hn, by rw [Worker.canStep, hpc]⟩
    exact .single hen
  | complete => exact .refl _
  | drain => exact .refl _
  | platformUpdate timeUntilNextTimer =>
    have hsame : (s.platformUpdate timeUntilNextTimer).async = s.async := by
      dsimp only [NotifyState.platformUpdate]
      split <;> split <;> rfl
    show Machine.Joined _ s.async (s.platformUpdate timeUntilNextTimer).async
    rw [hsame]
    exact .refl _
  | platformStep =>
    show Machine.Joined _ s.async (s.platformStep nf).async
    rw [async_platformStep]
    exact .refl _
  | skipSubmit =>
    have hsame : (s.skipSubmit nf).async = s.async := by
      unfold NotifyState.skipSubmit
      split <;> rfl
    show Machine.Joined _ s.async (s.skipSubmit nf).async
    rw [hsame]
    exact .refl _
  | timeOut => exact .refl _

/-! ## The invariant -/

/-- The worker has announced a response. -/
def Announced (s : NotifyState K) (i : Nat) : Prop := (s.async.pool.workers i).announced false ≠ []

/-- Since events were taken for the last time, `bio_thread_update` has emptied the queue of the
worker. -/
def Checked (s : NotifyState K) (i : Nat) : Prop :=
  match s.place with
  | .first => ∃ j, s.async.updating = some j ∧ i < j
  | .drained | .preparing _ _ | .submitting _ _ | .blocked _ _ => True
  | _ => False

/-- The invariant. -/
structure Inv (S : nf.Sound) (s : NotifyState K) : Prop where
  polling : s.place ≠ .start → s.async.sched.phase = .polling
  updating : s.async.updating.isSome = true → s.place = .first ∨ s.place = .second
  idle : s.place.notifiable = some false → s.async.pool.numRunningAsyncJobs ≤ 0
  ok : S.Ok s.Announced s.Checked s.place.wait s.channel

variable {S : nf.Sound}

/-- Outside of the updates nothing is checked. -/
theorem Inv.of_unchecked (hvalid : S.Valid s.channel)
    (hpolling : s.place ≠ .start → s.async.sched.phase = .polling)
    (hupdating : s.async.updating.isSome = true → s.place = .first ∨ s.place = .second)
    (hplace : s.place.notifiable = none ∧ s.place.wait = none) (hchecked : ∀ i, ¬s.Checked i) :
    s.Inv S where
  polling := hpolling
  updating := hupdating
  idle := by simp [hplace.1]
  ok := ⟨hvalid, fun i hi => absurd hi (hchecked i), by simp [hplace.2], by simp [hplace.2]⟩

/-- Without running jobs there is no response to announce. -/
theorem not_announced (hr : (AsyncState.machine size).Reachable s.async)
    (hidle : s.async.pool.numRunningAsyncJobs ≤ 0) (i : Nat) : ¬s.Announced i := fun hne =>
  hne (Worker.announced_of_nil (AsyncState.responses_of_idle hr hidle i))

/-! ## Steps of the main thread outside of the platform -/

theorem Inv.keeps (hi : s.Inv S) : PollPlace.round.Keeps s.async s.place := ⟨hi.polling, hi.updating⟩

variable {q : AsyncState} {place : PollPlace}

/-- A queue that such a step passes is empty. -/
theorem checked_of_mainStep (h : PollPlace.round.MainStep size s.async s.place q place)
    (hserved : q.Served size) (hc : Checked { s with async := q, place := place } i) :
    s.Checked i ∨ (q.pool.workers i).responseQueue = [] := by
  cases h with
  | user _ heq _ =>
    subst heq
    exact hc.elim
  | raise _ heq _ _ hupdating =>
    subst heq
    simp only [Checked, hupdating] at hc ⊢
    exact .inl hc
  | swap _ heq _ =>
    subst heq
    exact hc.elim
  | update _ heq _ hupdating =>
    subst heq
    simp [Checked, hupdating] at hc
  | updateAgain _ heq _ _ =>
    subst heq
    exact hc.elim
  | drain heq _ _ hupdating =>
    subst heq
    simp only [Checked, hupdating] at hc ⊢
    exact .inl hc
  | next j heq _ hplace hu hupdating hnil =>
    subst heq
    rcases hplace with hs | hs
    · rw [PollPlace.round_first] at hs
      simp only [Checked, hs, hupdating, hu, Option.some.injEq, exists_eq_left'] at hc ⊢
      rcases Nat.lt_succ_iff_lt_or_eq.mp hc with hlt | rfl
      · exact .inl hlt
      · exact .inr hnil
    · simp [Checked, hs] at hc
  | last j hu hn _ _ hplace =>
    rcases hplace with ⟨hs, _⟩ | ⟨_, heq⟩
    · by_cases hij : i < j
      · exact .inl (by simp [Checked, hs, hu, hij])
      · refine .inr (List.eq_nil_iff_forall_not_mem.mpr fun msg hmem => ?_)
        have hlt := (hserved.held i msg (List.mem_append_right _ hmem)).1
        omega
    · subst heq
      exact hc.elim

/-- In `bio_platform_update` such a step is a raise. -/
theorem in_platform_of_mainStep (h : PollPlace.round.MainStep size s.async s.place q place)
    (hplace : place.notifiable ≠ none) :
    place = s.place ∧ s.place.wait = none ∧ q.pool = s.async.pool := by
  obtain ⟨hsame, hblocked, hpool⟩ := h.in_platform <| by
    refine ⟨?_, ?_, ?_, ?_, ?_⟩ <;> rintro rfl <;> exact hplace rfl
  exact ⟨hsame, by simpa using hblocked, hpool⟩

/-- The step lemma for the main thread outside of the platform. -/
theorem Inv.main (hi : s.Inv S) (hserved : q.Served size) (hmsg : AsyncState.MsgStep size s.async q)
    (hstep : PollPlace.round.MainStep size s.async s.place q place) :
    Inv S { s with async := q, place := place } where
  polling := (hstep.keeps hi.keeps).polling
  updating := (hstep.keeps hi.keeps).updating
  idle := fun hidle => by
    have hmid : place.notifiable ≠ none := by
      rw [show place.notifiable = some false from hidle]
      nofun
    obtain ⟨hsame, _, hpool⟩ := in_platform_of_mainStep hstep hmid
    subst hsame
    show q.pool.numRunningAsyncJobs ≤ 0
    rw [hpool]
    exact hi.idle hidle
  ok := by
    have hwait : place.wait = none := by
      by_contra hne
      obtain ⟨notifiable, hblocked⟩ := Option.ne_none_iff_exists'.mp hne
      have hmid : place.notifiable ≠ none := by
        rw [PollPlace.notifiable_of_wait hblocked]
        nofun
      obtain ⟨hsame, hnone, _⟩ := in_platform_of_mainStep hstep hmid
      exact hne (hsame ▸ hnone)
    refine ⟨hi.ok.valid, fun j hj hw => ?_, by simp [hwait], by simp [hwait]⟩
    -- A worker counts as checked when its queue was found empty, and nothing in it is announced then.
    rcases checked_of_mainStep hstep hserved hj with hold | hnil
    · obtain ⟨hpc, hsuffix⟩ := hmsg.responses j
      exact hi.ok.heard j hold (Worker.announced_suffix hpc hsuffix hw)
    · exact absurd (Worker.announced_of_nil hnil) hw

/-! ## Steps of the workers -/

/-- The step lemma for a worker outside of `bio_platform_notify`. -/
theorem Inv.worker (hi : s.Inv S) (hserved : s.async.Served size)
    (hpc : (s.async.pool.workers i).pc ≠ .notifying) :
    ((machine nf size).perform s (.async (.worker i))).Inv S where
  polling := hi.polling
  updating := hi.updating
  idle := hi.idle
  ok := by
    refine hi.ok.check (fun j hw => ?_) fun j hj _ => hj
    have hsame := AsyncState.announced_workerStep (b := false) hserved hpc j fun _ => rfl
    exact fun hnil => hw (hsame.trans hnil)

/-- The step lemma for `bio_platform_notify`. -/
theorem Inv.notify (hi : s.Inv S)
    (hr : (AsyncState.machine size).Reachable (s.notify nf i).async) : (s.notify nf i).Inv S where
  polling := hi.polling
  updating := hi.updating
  idle := hi.idle
  ok := hi.ok.post fun hwait => not_announced hr (hi.idle (PollPlace.notifiable_of_wait hwait))

/-! ## Steps of the platform -/

/-- A step to a place in `bio_platform_update` where nothing has to be checked. -/
theorem Inv.goOn (hi : s.Inv S) (hs : s.place ≠ .start ∧ s.place ≠ .first ∧ s.place ≠ .second)
    {channel : K} {place : PollPlace} (hvalid : S.Valid channel)
    (hplace : place.notifiable = none ∧ place.wait = none)
    (hchecked : ∀ j, ¬Checked { s with channel := channel, place := place } j) :
    Inv S { s with channel := channel, place := place } := by
  obtain ⟨hstart, hfirst, hsecond⟩ := hs
  refine Inv.of_unchecked hvalid (fun _ => hi.polling hstart) (fun hsome => ?_) hplace hchecked
  rcases hi.updating hsome with h | h
  · exact absurd h hfirst
  · exact absurd h hsecond

/-- Events are taken, and the loop of `bio_platform_update` goes on or ends. -/
theorem Inv.collectBatch (hi : s.Inv S)
    (hs : s.place ≠ .start ∧ s.place ≠ .first ∧ s.place ≠ .second) (shouldWaitForIo : Bool) :
    (s.collectBatch nf shouldWaitForIo).Inv S := by
  unfold NotifyState.collectBatch
  cases (nf.take s.channel).2 with
  | true => exact hi.goOn hs (S.valid_take hi.ok.valid) ⟨rfl, rfl⟩ fun _ => id
  | false =>
    cases shouldWaitForIo with
    | true => exact hi.goOn hs (S.valid_take hi.ok.valid) ⟨rfl, rfl⟩ fun _ => id
    | false => exact hi.goOn hs (S.valid_take hi.ok.valid) ⟨rfl, rfl⟩ fun _ => id

/-- The main thread goes on to its wait with all workers checked. -/
theorem Inv.approach (hi : s.Inv S) (hs : s.place ≠ .start ∧ s.place ≠ .first ∧ s.place ≠ .second)
    {place : PollPlace} (hall : ∀ i, s.Checked i) (hwait : place.wait = none)
    (hidle : place.notifiable = some false → s.async.pool.numRunningAsyncJobs ≤ 0) :
    Inv S (s.setPlace place) where
  polling := fun _ => hi.polling hs.1
  updating := fun hsome => by
    rcases hi.updating hsome with h | h
    · exact absurd h hs.2.1
    · exact absurd h hs.2.2
  idle := hidle
  ok := by
    rw [show (s.setPlace place).place.wait = none from hwait]
    exact hi.ok.wake fun j _ => hall j

/-- The kernel gets the wait. -/
theorem Inv.submit (hi : s.Inv S) (hr : (AsyncState.machine size).Reachable s.async)
    {timed notifiable : Bool} (hs : s.place = .submitting timed notifiable) :
    Inv S { s with
      channel := nf.arm notifiable s.channel
      place := .blocked timed notifiable } where
  polling := fun _ => hi.polling (by rw [hs]; nofun)
  updating := fun hsome => by
    rcases hi.updating hsome with h | h <;> rw [hs] at h <;> cases h
  idle := fun h => hi.idle (by rw [hs]; exact h)
  ok := by
    have hidle : notifiable = false → ∀ j, ¬s.Announced j := by
      rintro rfl
      exact not_announced hr (hi.idle (by rw [hs]; rfl))
    refine (hi.ok.arm hidle).check (fun _ hw => hw) fun j _ _ => ?_
    simp [Checked, hs]

theorem Inv.platformStep (hi : s.Inv S) (hr : (AsyncState.machine size).Reachable s.async) :
    (s.platformStep nf).Inv S := by
  unfold NotifyState.platformStep
  split
  · next timed notifiable hs =>
    refine hi.approach (by rw [hs]; exact ⟨nofun, nofun, nofun⟩) (fun j => ?_) rfl fun h => ?_
    · simp [Checked, hs]
    · exact hi.idle (by rw [hs]; exact h)
  · next timed notifiable hs => exact hi.submit hr hs
  · next hs => exact hi.collectBatch (by rw [hs]; exact ⟨nofun, nofun, nofun⟩) true
  · next notifiable hs =>
    refine hi.goOn (by rw [hs]; exact ⟨nofun, nofun, nofun⟩) (S.valid_arm hi.ok.valid) ⟨rfl, rfl⟩ ?_
    exact fun _ => id
  · next shouldWaitForIo hs =>
    exact hi.collectBatch (by rw [hs]; exact ⟨nofun, nofun, nofun⟩) shouldWaitForIo
  · exact hi

/-- The call of `bio_platform_update`. -/
theorem Inv.platformUpdate (hi : s.Inv S) (hs : s.place = .drained) (timeUntilNextTimer : Int) :
    (s.platformUpdate timeUntilNextTimer).Inv S := by
  have hs' : s.place ≠ .start ∧ s.place ≠ .first ∧ s.place ≠ .second := by
    rw [hs]
    exact ⟨nofun, nofun, nofun⟩
  dsimp only [NotifyState.platformUpdate]
  generalize (if s.async.sched.nextReadyCoros.isEmpty then timeUntilNextTimer else 0) =
    waitTimeoutMs
  split
  · exact hi.goOn hs' hi.ok.valid ⟨rfl, rfl⟩ fun _ => id
  · refine hi.approach hs' (fun j => by simp [Checked, hs]) rfl fun h => ?_
    exact not_lt.mp (of_decide_eq_false (Option.some.inj h))

/-- Completions are taken outside of the wait, where no worker counts as checked. -/
theorem Inv.drain (hi : s.Inv S) (hs : s.place = .start ∨ s.place = .again) :
    (s.collect nf).Inv S where
  polling := hi.polling
  updating := hi.updating
  idle := hi.idle
  ok := by
    have hwait : (s.collect nf).place.wait = none := by
      rcases hs with hs | hs <;> exact congrArg PollPlace.wait hs
    rw [hwait]
    refine hi.ok.take.check (fun _ hw => hw) fun j hj _ => ?_
    have hplace : (s.collect nf).place = s.place := rfl
    rcases hs with hs | hs <;> simp [Checked, hplace, hs] at hj

theorem Inv.step (hi : s.Inv S) (hr : (machine nf size).Reachable s)
    {a : NotifyAction} (he : (machine nf size).enabled s a) (hroom : s.HasRoom a) :
    ((machine nf size).perform s a).Inv S := by
  have hasync := async_of_reachable hr
  have hasync' := async_of_reachable (hr.step he)
  cases a with
  | async a =>
    by_cases hworker : ∃ i, a = .worker i
    · obtain ⟨i, rfl⟩ := hworker
      exact hi.worker (AsyncState.served_of_reachable hasync) he.2
    · -- Every other action is one of the main thread.
      have hmain : ∀ i, a ≠ .worker i := fun i heq => hworker ⟨i, heq⟩
      have hmsg := AsyncState.msgStep_of_step (AsyncState.inv_of_reachable hasync) he.1 hmain
      have hserved := AsyncState.served_of_reachable hasync'
      exact hi.main hserved hmsg (LoopRound.mainStep_of_step hi.keeps he.1 he.2 hmain)
  | notify i => exact hi.notify hasync'
  | complete => exact ⟨hi.polling, hi.updating, hi.idle, hi.ok.event⟩
  | drain => exact hi.drain hroom
  | platformUpdate timeUntilNextTimer => exact hi.platformUpdate he timeUntilNextTimer
  | platformStep => exact hi.platformStep hasync
  | skipSubmit =>
    show (s.skipSubmit nf).Inv S
    unfold NotifyState.skipSubmit
    split
    · next hs =>
      exact hi.goOn (by rw [hs]; exact ⟨nofun, nofun, nofun⟩) (S.valid_take hi.ok.valid) ⟨rfl, rfl⟩
        fun _ => id
    · exact hi
  | timeOut =>
    have hcan : s.place.canTimeOut = true := he
    refine hi.goOn ⟨?_, ?_, ?_⟩ hi.ok.valid ⟨rfl, rfl⟩ fun _ => id
    all_goals
      intro hs
      simp [hs, PollPlace.canTimeOut] at hcan

theorem inv_of_reachable (hstart : S.Valid nf.start)
    (h : ((machine nf size).restrict HasRoom).Reachable s) : s.Inv S := by
  refine Machine.invariant (M := (machine nf size).restrict HasRoom) (P := Inv S) ?_
    (fun _ _ hr hi he => hi.step hr.of_restrict he.1 he.2) h
  rintro s rfl
  exact Inv.of_unchecked hstart (fun hne => absurd rfl hne) nofun ⟨rfl, rfl⟩ fun _ => id

/-- Without a submission queue, completions are only taken in the wait. -/
theorem restrict_of_reachable (hring : nf.ring = false) (h : (machine nf size).Reachable s) :
    ((machine nf size).restrict HasRoom).Reachable s := by
  induction h with
  | init h => exact .init h
  | @step s a _ he ih =>
    refine ih.restrict_step he ?_
    cases a with
    | drain =>
      have hring' := he.1
      rw [hring] at hring'
      cases hring'
    | _ => trivial

/-- On a platform on which notifications are heard, none is lost. -/
theorem not_lost (S : nf.Sound) (hstart : S.Valid nf.start)
    (h : ((machine nf size).restrict HasRoom).Reachable s) : ¬s.LostNotification nf := by
  rintro ⟨hwait, ⟨i, hannounced⟩, hasleep⟩
  have hi := inv_of_reachable hstart h
  obtain ⟨notifiable, hblocked⟩ := Option.isSome_iff_exists.mp hwait
  have hchecked : s.Checked i := by
    cases hs : s.place with
    | blocked _ _ => simp [Checked, hs]
    | _ =>
      rw [hs] at hblocked
      cases hblocked
  have hawake := hi.ok.awake hwait hchecked hannounced
  rw [hasleep] at hawake
  cases hawake

end NotifyState

/-! ## The platforms -/

/-- A queue of events, where a notification is pending until it is taken. -/
def pendingSound {ch : Channel (List PlatformEvent)}
    (hpost : ∀ pending, .notification ∈ ch.post pending)
    (hevent : ∀ pending, ch.event pending = pending ++ [.io]) (harm : ∀ b pending, ch.arm b pending = pending)
    (hawake : ∀ pending, ch.awake pending = !pending.isEmpty) : ch.Sound where
  Valid := fun _ => True
  Heard := fun pending => .notification ∈ pending
  Armed := fun _ => True
  valid_post := fun _ => trivial
  valid_event := fun _ => trivial
  valid_arm := fun _ => trivial
  valid_take := fun _ => trivial
  heard_post := fun _ => hpost _
  heard_event := fun h => by
    rw [hevent]
    exact List.mem_append_left _ h
  heard_arm := fun h => by
    rw [harm]
    exact h
  armed_post := fun _ => trivial
  armed_event := fun _ => trivial
  armed_arm := trivial
  awake := fun {pending} _ h _ => by
    rw [hawake]
    cases pending with
    | nil => cases h
    | cons _ _ => rfl

/-- A trigger of the user event makes it pending if it was not. -/
def kqueueSound (batchOption : Nat) : (kqueue batchOption).Sound :=
  pendingSound (fun pending => by
    show .notification ∈ if .notification ∈ pending then pending else pending ++ [.notification]
    split
    · next hmem => exact hmem
    · exact List.mem_append_right _ List.mem_cons_self) (fun _ => rfl) (fun _ _ => rfl) fun _ => rfl

def completionPortSound (batchOption : Nat) : (completionPort batchOption).Sound :=
  pendingSound (fun _ => List.mem_append_right _ List.mem_cons_self) (fun _ => rfl) (fun _ _ => rfl)
    fun _ => rfl

namespace EventFd

/-- No read waits while there is something to read. -/
def Settled (e : EventFd) : Prop := 0 < e.counter → e.reads = 0

variable {e : EventFd}

theorem Settled.write (h : e.Settled) : e.write.Settled := by
  unfold EventFd.write
  split
  · next hreads =>
    intro hcounter
    exact absurd (h hcounter) hreads.ne'
  · next hreads => exact fun _ => Nat.eq_zero_of_not_pos hreads

theorem settled_read (e : EventFd) : e.read.Settled := by
  unfold EventFd.read
  split
  · exact fun hcounter => absurd hcounter (Nat.lt_irrefl 0)
  · next hcounter => exact fun hpos => absurd hpos hcounter

/-- The value of the counter goes to the first read. -/
theorem heard_read (h : 0 < e.counter ∨ 0 < e.completions) :
    0 < e.read.counter ∨ 0 < e.read.completions := by
  unfold EventFd.read
  split
  · exact .inr (Nat.succ_pos _)
  · exact h

theorem armed_read (e : EventFd) : 0 < e.read.reads ∨ 0 < e.read.completions := by
  unfold EventFd.read
  split
  · exact .inr (Nat.succ_pos _)
  · exact .inl (Nat.succ_pos _)

theorem heard_write (e : EventFd) : 0 < e.write.counter ∨ 0 < e.write.completions := by
  unfold EventFd.write
  split
  · exact .inr (Nat.succ_pos _)
  · exact .inl (Nat.succ_pos _)

theorem armed_write (h : 0 < e.reads ∨ 0 < e.completions) :
    0 < e.write.reads ∨ 0 < e.write.completions := by
  unfold EventFd.write
  split
  · exact .inr (Nat.succ_pos _)
  · exact h

end EventFd

/-- A notification is heard in the counter or as a completion. -/
def eventfdSound : eventfd.Sound where
  Valid := EventFd.Settled
  Heard := fun e => 0 < e.counter ∨ 0 < e.completions
  Armed := fun e => 0 < e.reads ∨ 0 < e.completions
  valid_post := EventFd.Settled.write
  valid_event := id
  valid_arm := fun {_ b} h => by
    cases b with
    | true => exact EventFd.settled_read _
    | false => exact h
  valid_take := id
  heard_post := fun _ => EventFd.heard_write _
  heard_event := fun _ => .inr (Nat.succ_pos _)
  heard_arm := fun {_ b} h => by
    cases b with
    | true => exact EventFd.heard_read h
    | false => exact h
  armed_post := EventFd.armed_write
  armed_event := fun _ => .inr (Nat.succ_pos _)
  armed_arm := EventFd.armed_read _
  awake := fun {e} hvalid hheard harmed => by
    refine decide_eq_true ?_
    rcases hheard with hcounter | hcompletions
    · exact harmed.resolve_left (by rw [hvalid hcounter]; exact Nat.lt_irrefl 0)
    · exact hcompletions

namespace NotifyState

variable {size : PoolSize} {batchOption : Nat}

/-- On FreeBSD the main thread is never blocked while a response is announced and nothing would wake
it, whatever the batch size. -/
theorem kqueue_notification_not_lost {s : NotifyState (List PlatformEvent)}
    (h : (machine (kqueue batchOption) size).Reachable s) :
    ¬s.LostNotification (kqueue batchOption) :=
  not_lost (kqueueSound batchOption) trivial (restrict_of_reachable rfl h)

/-- The same on Windows. Also, from the moment at which the first `bio_thread_update` of a round has passed a
worker until packets are taken, the port has a notification if the worker has an announced response. -/
theorem completionPort_notification_not_lost {s : NotifyState (List PlatformEvent)}
    (h : (machine (completionPort batchOption) size).Reachable s) :
    ¬s.LostNotification (completionPort batchOption) ∧
      ∀ i, s.Checked i → (s.async.pool.workers i).announced false ≠ [] → .notification ∈ s.channel := by
  have hr := restrict_of_reachable rfl h
  have hi : s.Inv (completionPortSound batchOption) := inv_of_reachable trivial hr
  exact ⟨not_lost (completionPortSound batchOption) trivial hr, hi.ok.heard⟩

/-- On Linux without the futex the same holds in the runs in which there is room in the submission
queue whenever `bio_platform_update` makes the request of its wait. -/
theorem eventfd_notification_not_lost {s : NotifyState EventFd}
    (h : ((machine eventfd size).restrict HasRoom).Reachable s) : ¬s.LostNotification eventfd :=
  not_lost eventfdSound nofun h

instance {K : Type} (s : NotifyState K) : ∀ a, Decidable (s.HasRoom a)
  | .drain => inferInstanceAs (Decidable (s.place = .start ∨ s.place = .again))
  | .async _ | .notify _ | .complete | .platformUpdate _ | .platformStep | .skipSubmit | .timeOut =>
    inferInstanceAs (Decidable True)

instance {K : Type} (nf : Notifier K) (s : NotifyState K) (a : NotifyAction) :
    Decidable (((machine nf size).restrict HasRoom).enabled s a) :=
  inferInstanceAs (Decidable ((machine nf size).enabled s a ∧ s.HasRoom a))

/-- A coroutine submits a task to the only worker and waits for it, and the main thread waits for a
notification. -/
def waitForJob : List NotifyAction :=
  [.async (.sched (.spawn false ⟨0, 1⟩)), .async (.sched .enterLoop), .async (.sched .endPass),
    .async .update, .async .updateStep, .async .updateStep, .platformUpdate (-1), .platformStep,
    .async (.sched .swap), .async (.sched .resume), .async (.runAsyncAndWait ⟨1, 1⟩),
    .async .submitStep, .async .submitStep, .async .waitStep, .async (.sched .endPass),
    .async .update, .async .updateStep, .async .updateStep, .platformUpdate (-1), .platformStep,
    .platformStep]

/-- The worker runs the task. -/
def runJob : List NotifyAction :=
  [.async (.worker 0), .async (.worker 0), .async (.worker 0), .async (.worker 0), .notify 0]

/-- An I/O operation completes during the wait, and the main thread comes to its next one. -/
def nextWait : List NotifyAction :=
  [.complete, .platformStep, .async .update, .async .updateStep, .async .updateStep,
    .async (.sched .swap), .async (.sched .endPass), .async .update, .async .updateStep,
    .async .updateStep, .platformUpdate (-1)]

theorem kqueue_notification_not_lost_woken :
    let s := (machine (kqueue 0) LinuxState.oneThread).run (init (kqueue 0)) (waitForJob ++ runJob)
    s.place.wait.isSome = true ∧ (s.async.pool.workers 0).announced false ≠ [] ∧
      (kqueue 0).awake s.channel ≠ false := by
  intro s
  have hr : (machine (kqueue 0) LinuxState.oneThread).Reachable s :=
    Machine.Reachable.run (.init rfl) (by decide +kernel)
  have hblocked : s.place.wait.isSome = true := by decide +kernel
  have hannounced : (s.async.pool.workers 0).announced false ≠ [] := by decide +kernel
  exact ⟨hblocked, hannounced, fun hasleep =>
    kqueue_notification_not_lost hr ⟨hblocked, ⟨0, hannounced⟩, hasleep⟩⟩

theorem completionPort_notification_not_lost_woken :
    let s := (machine (completionPort 0) LinuxState.oneThread).run (init (completionPort 0))
      (waitForJob ++ runJob)
    s.place.wait.isSome = true ∧ (s.async.pool.workers 0).announced false ≠ [] ∧
      (completionPort 0).awake s.channel ≠ false ∧ .notification ∈ s.channel := by
  intro s
  have hr : (machine (completionPort 0) LinuxState.oneThread).Reachable s :=
    Machine.Reachable.run (.init rfl) (by decide +kernel)
  have hplace : s.place = .blocked false true := by decide +kernel
  have hblocked : s.place.wait.isSome = true := by rw [hplace]; rfl
  have hchecked : s.Checked 0 := by simp [Checked, hplace]
  have hannounced : (s.async.pool.workers 0).announced false ≠ [] := by decide +kernel
  obtain ⟨hnot, hheard⟩ := completionPort_notification_not_lost hr
  exact ⟨hblocked, hannounced, fun hasleep => hnot ⟨hblocked, ⟨0, hannounced⟩, hasleep⟩,
    hheard 0 hchecked hannounced⟩

/-- A read of an earlier wait takes the notification before the next wait is submitted. -/
theorem eventfd_notification_not_lost_woken :
    let s := ((machine eventfd LinuxState.oneThread).restrict HasRoom).run (init eventfd)
      (waitForJob ++ nextWait ++ runJob ++ [.platformStep, .platformStep])
    s.place.wait.isSome = true ∧ (s.async.pool.workers 0).announced false ≠ [] ∧
      eventfd.awake s.channel ≠ false := by
  intro s
  have hr : ((machine eventfd LinuxState.oneThread).restrict HasRoom).Reachable s :=
    Machine.Reachable.run (.init rfl) (by decide +kernel)
  have hblocked : s.place.wait.isSome = true := by decide +kernel
  have hannounced : (s.async.pool.workers 0).announced false ≠ [] := by decide +kernel
  exact ⟨hblocked, hannounced, fun hasleep =>
    eventfd_notification_not_lost hr ⟨hblocked, ⟨0, hannounced⟩, hasleep⟩⟩

/-- Without room in the submission queue, `bio_acquire_io_req` takes the completion of that read, and
the notification is lost. -/
theorem eventfd_notification_lost :
    ∃ s, (machine eventfd LinuxState.oneThread).Reachable s ∧ s.LostNotification eventfd := by
  refine ⟨(machine eventfd LinuxState.oneThread).run (init eventfd)
    (waitForJob ++ nextWait ++ runJob ++ [.drain, .platformStep, .platformStep]),
    Machine.Reachable.run (.init rfl) (by decide +kernel), ?_, ⟨0, ?_⟩, ?_⟩
  all_goals decide +kernel

end NotifyState

end Bio
