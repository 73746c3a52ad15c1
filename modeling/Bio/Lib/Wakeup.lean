import Mathlib.Tactic.Common

/-!
# Wake-ups that are not lost

Producers make work available and then post to a channel. A consumer checks the producers one by one
and then sleeps on the channel until it is awake. It takes what has come when it wakes up.

* `Channel`: posting, other events, the request to be woken, and taking.
* `Channel.Sound`: a post is heard until the consumer takes it, and what is heard wakes a consumer
  that asked for it.
* `Channel.Sound.Ok`: a producer that was checked since the last take and has announced work is
  heard. Each step of a producer or of the consumer has a rule that keeps it.

Result: `Ok.awake`. The consumer never sleeps on announced work.
-/

/-- What a consumer sleeps on. -/
structure Channel (K : Type*) where
  /-- a producer posts -/
  post : K → K
  /-- something else comes that wakes the consumer -/
  event : K → K
  /-- the consumer is about to sleep; with the flag, a post shall wake it -/
  arm : Bool → K → K
  /-- the consumer does not sleep on -/
  awake : K → Bool
  /-- the consumer takes what has come, and learns whether to look again at once -/
  take : K → K × Bool

namespace Channel

variable {K ι : Type*} {ch : Channel K}

/-- What the states of a channel mean. -/
structure Sound (ch : Channel K) where
  Valid : K → Prop
  /-- a post has come and was not taken -/
  Heard : K → Prop
  /-- a post wakes the consumer -/
  Armed : K → Prop
  valid_post : ∀ {k}, Valid k → Valid (ch.post k)
  valid_event : ∀ {k}, Valid k → Valid (ch.event k)
  valid_arm : ∀ {k b}, Valid k → Valid (ch.arm b k)
  valid_take : ∀ {k}, Valid k → Valid (ch.take k).1
  heard_post : ∀ {k}, Valid k → Heard (ch.post k)
  heard_event : ∀ {k}, Heard k → Heard (ch.event k)
  heard_arm : ∀ {k b}, Heard k → Heard (ch.arm b k)
  armed_post : ∀ {k}, Armed k → Armed (ch.post k)
  armed_event : ∀ {k}, Armed k → Armed (ch.event k)
  armed_arm : ∀ {k}, Armed (ch.arm true k)
  awake : ∀ {k}, Valid k → Heard k → Armed k → ch.awake k = true

namespace Sound

/-- What holds between the producers and the consumer: the producers with announced work, those that
the consumer has checked since it took from the channel, and the flag with which it sleeps. -/
structure Ok (S : ch.Sound) (work checked : ι → Prop) (wait : Option Bool) (k : K) : Prop where
  valid : S.Valid k
  heard : ∀ i, checked i → work i → S.Heard k
  armed : wait = some true → S.Armed k
  unneeded : wait = some false → ∀ i, ¬work i

variable {S : ch.Sound} {work work' checked checked' : ι → Prop} {wait : Option Bool} {k : K}

/-- The consumer may check a producer that has no announced work, and take work. -/
theorem Ok.check (h : S.Ok work checked wait k) (hwork : ∀ i, work' i → work i)
    (hchecked : ∀ i, checked' i → work' i → checked i) : S.Ok work' checked' wait k where
  valid := h.valid
  heard := fun i hi hw => h.heard i (hchecked i hi hw) (hwork i hw)
  armed := h.armed
  unneeded := fun hwait i hw => h.unneeded hwait i (hwork i hw)

/-- A producer announces work with a post. -/
theorem Ok.post (h : S.Ok work checked wait k)
    (hunneeded : wait = some false → ∀ i, ¬work' i) : S.Ok work' checked wait (ch.post k) where
  valid := S.valid_post h.valid
  heard := fun _ _ _ => S.heard_post h.valid
  armed := fun hwait => S.armed_post (h.armed hwait)
  unneeded := hunneeded

theorem Ok.event (h : S.Ok work checked wait k) : S.Ok work checked wait (ch.event k) where
  valid := S.valid_event h.valid
  heard := fun i hi hw => S.heard_event (h.heard i hi hw)
  armed := fun hwait => S.armed_event (h.armed hwait)
  unneeded := h.unneeded

/-- The consumer goes to sleep. It need not listen to posts when no work can be announced. -/
theorem Ok.arm (h : S.Ok work checked wait k) {b : Bool} (hidle : b = false → ∀ i, ¬work i) :
    S.Ok work checked (some b) (ch.arm b k) where
  valid := S.valid_arm h.valid
  heard := fun i hi hw => S.heard_arm (h.heard i hi hw)
  armed := by
    rintro ⟨⟩
    exact S.armed_arm
  unneeded := by
    rintro ⟨⟩
    exact hidle rfl

/-- The consumer is up. -/
theorem Ok.wake (h : S.Ok work checked wait k) (hchecked : ∀ i, checked' i → checked i) :
    S.Ok work checked' none k where
  valid := h.valid
  heard := fun i hi hw => h.heard i (hchecked i hi) hw
  armed := nofun
  unneeded := nofun

/-- The consumer takes what has come, so it has to check all producers again. -/
theorem Ok.take (h : S.Ok work checked wait k) :
    S.Ok work (fun _ => False) none (ch.take k).1 where
  valid := S.valid_take h.valid
  heard := fun _ hi => hi.elim
  armed := nofun
  unneeded := nofun

/-- The consumer does not sleep on the announced work of a producer that it has checked. -/
theorem Ok.awake (h : S.Ok work checked wait k) {i : ι} (hwait : wait.isSome = true)
    (hi : checked i) (hw : work i) : ch.awake k = true := by
  obtain ⟨b, rfl⟩ := Option.isSome_iff_exists.mp hwait
  cases b with
  | false => exact absurd hw (h.unneeded rfl i)
  | true => exact S.awake h.valid (h.heard i hi hw) (h.armed rfl)

end Sound

end Channel
