import Bio.FreebsdFile
import Bio.Lib.Table

/-!
# Descriptors of FreeBSD files

* `AioState.Inv`: the objects in memory and the open descriptors belong to each other, one to one.
* `AioState.SameFiles`: apart from `bio_fopen` and `bio_fclose`, no function changes this.
* `AioState.finish_unused` and `finish_used`: what an operation dereferences behind its wait.

Result: `descriptors_owned_iff`.
-/

namespace Bio

open FreebsdErrno (ebusy eopnotsupp ecanceled)

namespace AioState

/-! ## Objects and descriptors -/

section Descriptors

variable {s s' : AioState} {c d file h : Handle} {a : AioAction} {f : AioFrame}

/-- The descriptor of an object. -/
def fdOf (s : AioState) (h : Handle) : Option Nat := (s.objects h).map AioFile.fd

theorem fdOf_setObject (s : AioState) (file : Handle) (impl : Option AioFile) :
    (s.setObject file impl).fdOf = Function.update s.fdOf file (impl.map AioFile.fd) := by
  funext h
  show (Function.update s.objects file impl h).map AioFile.fd = _
  rw [Function.update_apply, Function.update_apply]
  split <;> rfl

theorem resolve_some {impl : AioFile} (h : s.resolve file = some impl) :
    file ∈ s.handles ∧ s.objects file = some impl := by
  unfold resolve at h
  split at h
  · next hmem => exact ⟨hmem, h⟩
  · cases h

/-- An object belongs to one descriptor that is open, and the other way round. -/
structure Inv (s : AioState) : Prop where
  live : ∀ h ∈ s.handles, s.fdOf h ≠ none
  issued : ∀ h, s.fdOf h ≠ none → h ∈ s.issued
  opened : ∀ h fd, s.fdOf h = some fd → fd ∈ s.fds
  unique : ∀ h h' fd, s.fdOf h = some fd → s.fdOf h' = some fd → h = h'
  object : ∀ fd ∈ s.fds, ∃ h, s.fdOf h = some fd

/-- The same objects, handles and descriptors, and no call of `bio_fclose`. -/
structure SameFiles (s s' : AioState) : Prop where
  handles : s'.handles = s.handles
  fdOf : s'.fdOf = s.fdOf
  issued : s'.issued = s.issued
  fds : s'.fds = s.fds
  busy : s'.busy = s.busy

theorem SameFiles.refl (s : AioState) : SameFiles s s := ⟨rfl, rfl, rfl, rfl, rfl⟩

theorem SameFiles.trans {s₁ s₂ s₃ : AioState} (h : SameFiles s₁ s₂) (h' : SameFiles s₂ s₃) :
    SameFiles s₁ s₃ :=
  ⟨h'.handles.trans h.handles, h'.fdOf.trans h.fdOf, h'.issued.trans h.issued, h'.fds.trans h.fds,
    h'.busy.trans h.busy⟩

theorem SameFiles.inv (h : SameFiles s s') (hi : s.Inv) : s'.Inv := by
  obtain ⟨hhandles, hfdOf, hissued, hfds, _⟩ := h
  exact ⟨by rw [hhandles, hfdOf]; exact hi.live, by rw [hfdOf, hissued]; exact hi.issued,
    by rw [hfdOf, hfds]; exact hi.opened, by rw [hfdOf]; exact hi.unique,
    by rw [hfdOf, hfds]; exact hi.object⟩

/-- An object changes, but not its descriptor. -/
theorem SameFiles.setObject {impl impl' : AioFile} (hold : s.objects file = some impl)
    (hfd : impl'.fd = impl.fd) : SameFiles s (s.setObject file (some impl')) := by
  refine ⟨rfl, ?_, rfl, rfl, rfl⟩
  have hsame : s.fdOf file = some impl'.fd := by
    rw [AioState.fdOf, hold, hfd, Option.map_some]
  rw [fdOf_setObject, Function.update_eq_self_iff, Option.map_some, hsame]

theorem SameFiles.setFrame (h : SameFiles s s') (c : Handle) (f : Option AioFrame) :
    SameFiles s (s'.setFrame c f) := ⟨h.handles, h.fdOf, h.issued, h.fds, h.busy⟩

theorem sameFiles_submitAio (c : Handle) {impl : AioFile} (himpl : s.resolve file = some impl)
    (op : AioOp) (submission : Option Nat) :
    SameFiles s (s.submitAio c file impl op submission).1 := by
  unfold submitAio
  split
  · exact .refl s
  · split
    · exact .refl s
    · exact .setFrame (.setObject (resolve_some himpl).2 (by rfl)) c _

theorem submitAio_stale (s : AioState) (c file : Handle) (impl : AioFile) (op : AioOp)
    (submission : Option Nat) : (s.submitAio c file impl op submission).1.stale = s.stale := by
  unfold submitAio
  split
  · rfl
  · split <;> rfl

theorem submitAio_error {impl : AioFile} {op : AioOp} {submission : Option Nat} {t : AioState}
    {e : Nat} (h : s.submitAio c file impl op submission = (t, some e)) : t = s := by
  unfold submitAio at h
  split at h
  · exact (Prod.mk.inj h).1.symm
  · split at h
    · exact (Prod.mk.inj h).1.symm
    · cases h

/-- An operation up to its wait. -/
theorem operation_spec (op : AioOp) (s : AioState) (c file : Handle) (submission : Option Nat) :
    SameFiles s (operation op s c file submission).1 ∧
      (operation op s c file submission).1.stale = s.stale := by
  unfold operation
  split
  · next impl himpl =>
    have hsubmit := sameFiles_submitAio c himpl op submission
    have hstale := submitAio_stale s c file impl op submission
    split
    · split
      · next t e heq =>
        obtain rfl := submitAio_error heq
        split
        · exact ⟨.setFrame (.setObject (resolve_some himpl).2 (by rfl)) c _, rfl⟩
        · exact ⟨.refl _, rfl⟩
      · next t heq =>
        rw [heq] at hsubmit hstale
        exact ⟨hsubmit, hstale⟩
    · split
      · next t e heq =>
        obtain rfl := submitAio_error heq
        exact ⟨.refl _, rfl⟩
      · next t heq =>
        rw [heq] at hsubmit hstale
        exact ⟨hsubmit, hstale⟩
    · exact ⟨.setFrame (.refl s) c _, rfl⟩
  · exact ⟨.refl s, rfl⟩

theorem sameFiles_touch (s : AioState) (c file : Handle) {g : AioFile → AioFile}
    (hg : ∀ impl, (g impl).fd = impl.fd) : SameFiles s (s.touch c file g) := by
  unfold touch
  split
  · next impl himpl => exact .setObject himpl (hg impl)
  · exact ⟨rfl, rfl, rfl, rfl, rfl⟩

theorem sameFiles_advance (s : AioState) (c file : Handle) (n : Nat) :
    SameFiles s (s.advance c file n) := by
  unfold advance
  split
  · next impl himpl =>
    split
    · exact .setObject (resolve_some himpl).2 rfl
    · exact .refl s
  · exact ⟨rfl, rfl, rfl, rfl, rfl⟩

theorem sameFiles_clearAio (s : AioState) (file : Handle) : SameFiles s (s.clearAio file) := by
  unfold clearAio
  split
  · next impl himpl => exact .setObject (resolve_some himpl).2 rfl
  · exact .refl s

theorem sameFiles_finishAio (s : AioState) (c : Handle) (f : AioFrame) (result : Except Nat Nat) :
    SameFiles s (s.finishAio c f result).1 := by
  have hclear := sameFiles_clearAio s f.file
  unfold finishAio
  dsimp only
  split
  · exact hclear
  · split
    · exact hclear
    · split
      · exact hclear.trans (sameFiles_advance _ c f.file _)
      · exact hclear.trans (sameFiles_advance _ c f.file _)
      · exact hclear

theorem sameFiles_finish (s : AioState) (c : Handle) (f : AioFrame) (result : Except Nat Nat) :
    SameFiles s (s.finish c f result).1 := by
  have haio := sameFiles_finishAio s c f result
  unfold finish
  split
  · exact .refl s
  · dsimp only
    split
    · split
      · exact haio.trans (sameFiles_touch _ c f.file fun _ => rfl)
      · split
        · exact .setFrame (haio.trans (sameFiles_touch _ c f.file fun _ => by rfl)) c _
        · exact haio
    · exact haio
    · exact haio

theorem sameFiles_complete (s : AioState) (c : Handle) (result : Except Nat Nat) :
    SameFiles s (s.complete c result) := by
  unfold complete
  split
  · exact .setFrame (.refl s) c _
  · exact .refl s

theorem complete_stale (s : AioState) (c : Handle) (result : Except Nat Nat) :
    (s.complete c result).stale = s.stale := by
  unfold complete
  split <;> rfl

theorem sameFiles_resume (s : AioState) (c : Handle) : SameFiles s (s.resume c) := by
  unfold resume
  split
  · split
    · exact SameFiles.trans (.setFrame (.refl s) c none) (sameFiles_finish _ c _ _)
    · exact .refl s
  · exact .refl s

/-! ## Opening and closing -/

theorem Inv.fopen (hi : s.Inv) {fd : Nat} (hfd : fd ∉ s.fds) (hh : h ∉ s.issued) (offset : Int) :
    (s.fopen fd offset h).Inv := by
  have hfdOf : (s.fopen fd offset h).fdOf = Function.update s.fdOf h (some fd) :=
    fdOf_setObject s h _
  have hnone : s.fdOf h = none := by
    by_contra hne
    exact hh (hi.issued h hne)
  have hcases : ∀ {x n}, (s.fopen fd offset h).fdOf x = some n →
      (x = h ∧ n = fd) ∨ (x ≠ h ∧ s.fdOf x = some n) := by
    intro x n hx
    rw [hfdOf] at hx
    exact Table.insert_some hx
  refine ⟨fun x hx => ?_, fun x hx => ?_, fun x n hx => ?_, fun x x' n hx hx' => ?_, fun n hn => ?_⟩
  · rw [hfdOf, Function.update_apply]
    split
    · nofun
    · next hne => exact hi.live x ((Finset.mem_insert.mp hx).resolve_left hne)
  · obtain ⟨n, hn⟩ := Option.ne_none_iff_exists'.mp hx
    rcases hcases hn with ⟨rfl, _⟩ | ⟨_, hold⟩
    · exact List.mem_cons_self
    · exact List.mem_cons_of_mem _ (hi.issued x (by rw [hold]; nofun))
  · rcases hcases hx with ⟨_, rfl⟩ | ⟨_, hold⟩
    · exact Finset.mem_insert_self n s.fds
    · exact Finset.mem_insert_of_mem (hi.opened x n hold)
  · rcases hcases hx with ⟨rfl, hn⟩ | ⟨_, hold⟩ <;>
      rcases hcases hx' with ⟨rfl, hn'⟩ | ⟨_, hold'⟩
    · rfl
    · exact absurd (hi.opened x' n hold') (hn ▸ hfd)
    · exact absurd (hi.opened x n hold) (hn' ▸ hfd)
    · exact hi.unique x x' n hold hold'
  · rcases Finset.mem_insert.mp hn with rfl | hold
    · exact ⟨h, by rw [hfdOf, Function.update_self]⟩
    · obtain ⟨x, hx⟩ := hi.object n hold
      refine ⟨x, ?_⟩
      rw [hfdOf, Function.update_of_ne, hx]
      rintro rfl
      rw [hnone] at hx
      cases hx

/-- The ways through `bio_fclose`. -/
theorem fclose_cases (s : AioState) (file : Handle) (answer : AioCancel) (errno : Option Nat) :
    (s.resolve file = none ∧ (s.fclose file answer errno).1 = s) ∨
    ∃ impl t, s.resolve file = some impl ∧ SameFiles s t ∧ t.stale = s.stale ∧
      ((impl.aio ≠ none ∧ answer = .notCanceled ∧ (s.fclose file answer errno).1 =
        { t with handles := t.handles.erase file, busy := t.busy ++ [(file, false)] }) ∨
      ((impl.aio ≠ none → answer ≠ .notCanceled) ∧ (s.fclose file answer errno).1 =
        { t.setObject file none with
          handles := t.handles.erase file
          fds := t.fds.erase impl.fd })) := by
  unfold AioState.fclose
  split
  · next impl himpl =>
    refine .inr ?_
    have hcancel : ∀ d, SameFiles s (s.aioCancel d answer) ∧
        (s.aioCancel d answer).stale = s.stale := by
      intro d
      unfold aioCancel
      split
      · exact ⟨sameFiles_complete s d _, complete_stale s d _⟩
      all_goals exact ⟨.refl s, rfl⟩
    cases haio : impl.aio with
    | none => exact ⟨impl, s, himpl, .refl s, rfl, .inr ⟨fun h => absurd haio h, rfl⟩⟩
    | some d =>
      have hhandles := (hcancel d).1.handles
      have heq : ({ s with handles := s.handles.erase file } : AioState).aioCancel d answer =
          { s.aioCancel d answer with handles := (s.aioCancel d answer).handles.erase file } := by
        rw [hhandles]
        unfold aioCancel complete
        cases answer
        · cases hf : s.frames d <;> rfl
        all_goals rfl
      dsimp only
      rw [heq]
      refine ⟨impl, s.aioCancel d answer, himpl, (hcancel d).1, (hcancel d).2, ?_⟩
      split
      · next hnot =>
        refine .inl ⟨by rw [haio]; nofun, hnot, ?_⟩
        simp
      · next hnot => exact .inr ⟨fun _ => hnot, rfl⟩
  · next hnone => exact .inl ⟨hnone, rfl⟩

theorem fdOf_of_resolve {impl : AioFile} (himpl : s.resolve file = some impl) :
    s.fdOf file = some impl.fd := by
  rw [fdOf, (resolve_some himpl).2, Option.map_some]

/-- The object of a file is freed and its descriptor closed. -/
theorem Inv.release (hi : s.Inv) {fd : Nat} (hfd : s.fdOf file = some fd) :
    Inv { s.setObject file none with handles := s.handles.erase file, fds := s.fds.erase fd } := by
  have hcases : ∀ {x n}, (s.setObject file none).fdOf x = some n → x ≠ file ∧ s.fdOf x = some n := by
    intro x n hx
    rw [fdOf_setObject] at hx
    exact Table.erase_some hx
  have hkeep : ∀ {x}, x ≠ file → (s.setObject file none).fdOf x = s.fdOf x := by
    intro x hne
    rw [fdOf_setObject, Function.update_of_ne hne]
  refine ⟨fun x hx => ?_, fun x hx => ?_, fun x n hx => ?_,
    fun x x' n hx hx' => hi.unique x x' n (hcases hx).2 (hcases hx').2, fun n hn => ?_⟩
  · obtain ⟨hne, hmem⟩ := Finset.mem_erase.mp hx
    exact fun hnone => hi.live x hmem ((hkeep hne).symm.trans hnone)
  · obtain ⟨n, hn⟩ := Option.ne_none_iff_exists'.mp hx
    exact hi.issued x (by rw [(hcases hn).2]; nofun)
  · obtain ⟨hne, hold⟩ := hcases hx
    refine Finset.mem_erase.mpr ⟨?_, hi.opened x n hold⟩
    rintro rfl
    exact hne (hi.unique x file n hold hfd)
  · obtain ⟨hne, hmem⟩ := Finset.mem_erase.mp hn
    obtain ⟨x, hx⟩ := hi.object n hmem
    refine ⟨x, (hkeep ?_).trans hx⟩
    rintro rfl
    exact hne (Option.some.inj (hx.symm.trans hfd))

theorem Inv.fclose (hi : s.Inv) (answer : AioCancel) (errno : Option Nat) :
    (s.fclose file answer errno).1.Inv := by
  rcases fclose_cases s file answer errno with ⟨_, heq⟩ |
    ⟨impl, t, himpl, hsame, _, ⟨_, _, heq⟩ | ⟨_, heq⟩⟩
  · rw [heq]
    exact hi
  · rw [heq]
    obtain ⟨hlive, hissued, hopened, hunique, hobject⟩ := hsame.inv hi
    exact ⟨fun x hx => hlive x (Finset.mem_of_mem_erase hx), hissued, hopened, hunique, hobject⟩
  · rw [heq]
    exact (hsame.inv hi).release ((congrFun hsame.fdOf file).trans (fdOf_of_resolve himpl))

theorem Inv.perform (hi : s.Inv) (he : machine.enabled s a) : (machine.perform s a).Inv := by
  cases a with
  | fopen c fd offset handle => exact hi.fopen he.2.1 he.2.2 offset
  | fread c file submission => exact (operation_spec .read s c file submission).1.inv hi
  | fwrite c file submission => exact (operation_spec .write s c file submission).1.inv hi
  | fflush c file submission => exact (operation_spec .fsync s c file submission).1.inv hi
  | fclose c file answer errno => exact hi.fclose answer errno
  | complete c result => exact (sameFiles_complete s c result).inv hi
  | resume c => exact (sameFiles_resume s c).inv hi

theorem inv_of_reachable (hr : machine.Reachable s) : s.Inv := by
  refine Machine.invariant (fun t ht => ?_) (fun t a _ hi he => hi.perform he) hr
  obtain rfl : t = init := ht
  exact ⟨fun _ h => absurd h (Finset.notMem_empty _), fun _ h => absurd rfl h,
    fun _ _ h => (nomatch h), fun _ _ _ h => (nomatch h), fun _ h => absurd h (Finset.notMem_empty _)⟩

/-! ## Behind the wait -/

/-- Behind its wait the operation needs no file object for this result. -/
def Untouched (f : AioFrame) : Except Nat Nat → Prop
  | .ok _ => f.op = .fsync ∧ f.aioSupport ≠ .unknown
  | .error e => f.aioSupport = .unknown → e ≠ eopnotsupp

instance (f : AioFrame) : ∀ result, Decidable (Untouched f result)
  | .ok _ => inferInstanceAs (Decidable (f.op = .fsync ∧ f.aioSupport ≠ .unknown))
  | .error e => inferInstanceAs (Decidable (f.aioSupport = .unknown → e ≠ eopnotsupp))

theorem SameFiles.resolve (h : SameFiles s s') :
    s'.resolve file = none ↔ s.resolve file = none := by
  have hobject : s'.objects file = none ↔ s.objects file = none := by
    have hfd := congrFun h.fdOf file
    rw [AioState.fdOf, AioState.fdOf] at hfd
    rw [← Option.map_eq_none_iff (f := AioFile.fd), hfd, Option.map_eq_none_iff]
  unfold AioState.resolve
  rw [h.handles]
  split
  · exact hobject
  · exact .rfl

theorem clearAio_stale (s : AioState) (file : Handle) : (s.clearAio file).stale = s.stale := by
  unfold clearAio
  split <;> rfl

theorem advance_stale (h : s.resolve file ≠ none) (n : Nat) :
    (s.advance c file n).stale = s.stale := by
  unfold advance
  split
  · split <;> rfl
  · next hnone => exact absurd hnone h

theorem touch_stale (h : s.objects file ≠ none) (g : AioFile → AioFile) :
    (s.touch c file g).stale = s.stale := by
  unfold touch
  split
  · rfl
  · next hnone => exact absurd hnone h

theorem object_of_resolve (h : s.resolve file ≠ none) : s.objects file ≠ none := by
  obtain ⟨impl, himpl⟩ := Option.ne_none_iff_exists'.mp h
  rw [(resolve_some himpl).2]
  nofun

/-- What `bio_fread_aio` and the others give back, and when they do without the object. -/
theorem finishAio_spec (s : AioState) (c : Handle) (f : AioFrame) (result : Except Nat Nat) :
    (f.cancelled = true → s.finishAio c f result = (s.clearAio f.file, .error ecanceled)) ∧
    (f.cancelled = false → (s.finishAio c f result).2 = result ∧
      (s.resolve f.file ≠ none ∨ (∀ n, result = .ok n → f.op = .fsync) →
        (s.finishAio c f result).1.stale = s.stale)) := by
  have hresolve : (s.clearAio f.file).resolve f.file = none ↔ s.resolve f.file = none :=
    (sameFiles_clearAio s f.file).resolve
  have hstale := clearAio_stale s f.file
  unfold finishAio
  refine ⟨fun hcancelled => by rw [hcancelled]; rfl, fun hcancelled => ?_⟩
  dsimp only
  rw [hcancelled]
  cases result with
  | error e => exact ⟨rfl, fun _ => hstale⟩
  | ok n =>
    have hadvance : s.resolve f.file ≠ none →
        ((s.clearAio f.file).advance c f.file n).stale = s.stale := fun hopen =>
      (advance_stale (mt hresolve.mp hopen) n).trans hstale
    cases hop : f.op
    · exact ⟨rfl, fun h => hadvance (h.resolve_right fun hall => nomatch hall n rfl)⟩
    · exact ⟨rfl, fun h => hadvance (h.resolve_right fun hall => nomatch hall n rfl)⟩
    · exact ⟨rfl, fun _ => hstale⟩

/-- An operation whose file is still open, or that needs no object, uses none that was freed. -/
theorem finish_unused {result : Except Nat Nat} (h : f.thread = false → f.cancelled = false →
    s.resolve f.file = none → Untouched f result) : (s.finish c f result).1.stale = s.stale := by
  obtain ⟨hcancelled, hrest⟩ := finishAio_spec s c f result
  have hobject : (s.finishAio c f result).1.resolve f.file = none ↔ s.resolve f.file = none :=
    (sameFiles_finishAio s c f result).resolve
  unfold finish
  split
  · rfl
  · next hthread =>
    have hthread : f.thread = false := Bool.eq_false_iff.mpr hthread
    dsimp only
    cases hc : f.cancelled with
    | true =>
      rw [hcancelled hc]
      have hstale := clearAio_stale s f.file
      cases f.aioSupport <;> exact hstale
    | false =>
      obtain ⟨hresult, hstale⟩ := hrest hc
      rw [hresult]
      by_cases hopen : s.resolve f.file = none
      · -- Nothing is left to be done for this result.
        have hfree := h hthread hc hopen
        cases result with
        | ok n =>
          have hstale := hstale (.inr fun _ _ => hfree.1)
          cases hsupport : f.aioSupport with
          | unknown => exact absurd hsupport hfree.2
          | enabled | disabled => exact hstale
        | error e =>
          have hstale := hstale (.inr nofun)
          cases hsupport : f.aioSupport with
          | unknown =>
            dsimp only
            rw [if_neg (hfree hsupport)]
            exact hstale
          | enabled | disabled => exact hstale
      · have hstale := hstale (.inl hopen)
        have htouch := fun g => (touch_stale (c := c) (object_of_resolve (mt hobject.mp hopen)) g).trans hstale
        cases f.aioSupport with
        | unknown =>
          cases result with
          | ok n => exact htouch _
          | error e =>
            dsimp only
            split
            · exact htouch _
            · exact hstale
        | enabled | disabled => exact hstale

theorem touch_mem {d : Handle} (h : d ∈ s.stale) (g : AioFile → AioFile) :
    d ∈ (s.touch c file g).stale := by
  unfold touch
  split
  · exact h
  · exact List.mem_append_left _ h

theorem touch_freed (h : s.objects file = none) (g : AioFile → AioFile) :
    c ∈ (s.touch c file g).stale := by
  unfold touch
  rw [h]
  exact List.mem_append_right _ (List.mem_singleton_self c)

/-- The converse, when the object was freed. -/
theorem finish_used {result : Except Nat Nat} (hthread : f.thread = false)
    (hcancelled : f.cancelled = false) (hnone : s.resolve f.file = none)
    (hfreed : s.objects f.file = none) (hnot : ¬Untouched f result) :
    c ∈ (s.finish c f result).1.stale := by
  have hclear : s.clearAio f.file = s := by rw [clearAio, hnone]
  have hadvance : ∀ n, c ∈ (s.advance c f.file n).stale := by
    intro n
    rw [advance, hnone]
    exact List.mem_append_right _ (List.mem_singleton_self c)
  unfold finish finishAio
  rw [if_neg (by rw [hthread]; nofun), hclear, if_neg (by rw [hcancelled]; nofun)]
  cases result with
  | ok n =>
    cases hop : f.op with
    | read | write =>
      cases f.aioSupport with
      | unknown => exact touch_mem (hadvance n) _
      | enabled | disabled => exact hadvance n
    | fsync =>
      cases hsupport : f.aioSupport with
      | unknown => exact touch_freed hfreed _
      | enabled | disabled => exact absurd ⟨hop, by rw [hsupport]; nofun⟩ hnot
  | error e =>
    cases hsupport : f.aioSupport with
    | unknown =>
      have he : e = eopnotsupp := by
        by_contra hne
        exact hnot fun _ => hne
      dsimp only
      rw [if_pos he]
      exact touch_freed hfreed _
    | enabled | disabled => exact absurd (fun h => nomatch hsupport.symm.trans h) hnot

/-! ## The result -/

/-- What is promised of the descriptors of `bio_fopen`: each that is open has one file that is reachable,
a call of `bio_fclose` that returns `EBUSY` can be repeated, and no operation uses an object after it was
freed, or a null pointer in its place. -/
structure Owned (s : AioState) : Prop where
  owner : ∀ fd ∈ s.fds, ∃! h, h ∈ s.handles ∧ s.fdOf h = some fd
  retry : ∀ call ∈ s.busy, call.2 = true
  unused : s.stale = []

/-- The guard. In `bio_fclose` the request in flight is not one that `aio_cancel` leaves alone. An operation
whose file was closed in the meantime needs no object for the result of its request. -/
def Careful (s : AioState) : AioAction → Prop
  | .fclose _ file answer _ => ∀ impl ∈ s.resolve file, impl.aio ≠ none → answer ≠ .notCanceled
  | .resume c => ∀ f ∈ s.frames c, f.thread = false → f.cancelled = false →
      s.resolve f.file = none → ∀ result ∈ f.result, Untouched f result
  | _ => True

/-- No object is lost. -/
structure Kept (s : AioState) : Prop where
  reachable : ∀ h, s.fdOf h ≠ none → h ∈ s.handles
  busy : s.busy = []
  stale : s.stale = []

theorem Kept.owned (h : s.Kept) (hi : s.Inv) : s.Owned := by
  refine ⟨fun fd hfd => ?_, by rw [h.busy]; nofun, h.stale⟩
  obtain ⟨x, hx⟩ := hi.object fd hfd
  exact ⟨x, ⟨h.reachable x (by rw [hx]; nofun), hx⟩, fun y hy => hi.unique y x fd hy.2 hx⟩

theorem Kept.same (h : s.Kept) (hsame : SameFiles s s') (hstale : s'.stale = s.stale) : s'.Kept :=
  ⟨fun x hx => hsame.handles ▸ h.reachable x (hsame.fdOf ▸ hx), hsame.busy.trans h.busy,
    hstale.trans h.stale⟩

theorem Kept.fopen (h : s.Kept) (fd : Nat) (offset : Int) (handle : Handle) :
    (s.fopen fd offset handle).Kept := by
  refine ⟨fun x hx => ?_, h.busy, h.stale⟩
  have hfdOf : (s.fopen fd offset handle).fdOf = Function.update s.fdOf handle (some fd) :=
    fdOf_setObject s handle _
  by_cases heq : x = handle
  · exact Finset.mem_insert.mpr (.inl heq)
  · rw [hfdOf, Function.update_of_ne heq] at hx
    exact Finset.mem_insert_of_mem (h.reachable x hx)

theorem Kept.fclose (h : s.Kept) {answer : AioCancel} {errno : Option Nat}
    (hok : s.Careful (.fclose c file answer errno)) : (s.fclose file answer errno).1.Kept := by
  rcases fclose_cases s file answer errno with ⟨_, heq⟩ |
    ⟨impl, t, himpl, hsame, hstale, ⟨haio, hnot, _⟩ | ⟨_, heq⟩⟩
  · rw [heq]
    exact h
  · exact absurd hnot (hok impl himpl haio)
  · rw [heq]
    have ht := h.same hsame hstale
    refine ⟨fun x hx => ?_, ht.busy, ht.stale⟩
    have hx' : (t.setObject file none).fdOf x ≠ none := hx
    rw [fdOf_setObject, Function.update_apply] at hx'
    split at hx'
    · exact absurd rfl hx'
    · next hne => exact Finset.mem_erase.mpr ⟨hne, ht.reachable x hx'⟩

theorem resume_unused (hok : s.Careful (.resume c)) : (s.resume c).stale = s.stale := by
  unfold resume
  split
  · next f hf =>
    split
    · next result hresult =>
      have hsame : SameFiles s (s.setFrame c none) := .setFrame (.refl s) c none
      exact finish_unused (s := s.setFrame c none) fun hthread hcancelled hnone =>
        hok f hf hthread hcancelled (hsame.resolve.mp hnone) result hresult
    · rfl
  · rfl

/-- The step lemma. -/
theorem Kept.perform (h : s.Kept) (hok : s.Careful a) : (machine.perform s a).Kept := by
  cases a with
  | fopen c fd offset handle => exact h.fopen fd offset handle
  | fread c file submission =>
    obtain ⟨hsame, hstale⟩ := operation_spec .read s c file submission
    exact h.same hsame hstale
  | fwrite c file submission =>
    obtain ⟨hsame, hstale⟩ := operation_spec .write s c file submission
    exact h.same hsame hstale
  | fflush c file submission =>
    obtain ⟨hsame, hstale⟩ := operation_spec .fsync s c file submission
    exact h.same hsame hstale
  | fclose c file answer errno => exact h.fclose hok
  | complete c result => exact h.same (sameFiles_complete s c result) (complete_stale s c result)
  | resume c => exact h.same (sameFiles_resume s c) (resume_unused hok)

theorem owned_of_restrict (hr : (machine.restrict Careful).Reachable s) : s.Owned := by
  have h : s.Kept := by
    refine Machine.invariant (fun t ht => ?_) (fun t a _ h he => h.perform he.2) hr
    obtain rfl : t = init := ht
    exact ⟨fun _ h => absurd rfl h, rfl, rfl⟩
  exact h.owned (inv_of_reachable hr.of_restrict)

/-- An object without a handle has an open descriptor without an owner. -/
theorem Owned.reachable (h : s.Owned) (hi : s.Inv) (hx : s.fdOf file ≠ none) : file ∈ s.handles := by
  obtain ⟨fd, hfd⟩ := Option.ne_none_iff_exists'.mp hx
  obtain ⟨x, ⟨hmem, hx⟩, _⟩ := h.owner fd (hi.opened file fd hfd)
  exact hi.unique x file fd hx hfd ▸ hmem

theorem careful_of_owned (hr : machine.Reachable s) (he : machine.enabled s a)
    (h : (machine.perform s a).Owned) : s.Careful a := by
  have hi := inv_of_reachable hr
  have hi' : (machine.perform s a).Inv := hi.perform he
  cases a with
  | fclose c file answer errno =>
    intro impl himpl haio hnot
    rcases fclose_cases s file answer errno with ⟨hnone, _⟩ |
      ⟨impl', t, himpl', hsame, _, ⟨_, _, heq⟩ | ⟨hne, _⟩⟩
    · rw [himpl] at hnone
      cases hnone
    · -- The object is still there, and its handle is not.
      have hobject : (s.fclose file answer errno).1.fdOf file ≠ none := by
        have hfd : t.fdOf file = some impl.fd :=
          (congrFun hsame.fdOf file).trans (fdOf_of_resolve himpl)
        rw [heq]
        show t.fdOf file ≠ none
        rw [hfd]
        nofun
      have hmem : file ∈ (s.fclose file answer errno).1.handles := h.reachable hi' hobject
      rw [heq] at hmem
      exact absurd hmem (Finset.notMem_erase file _)
    · obtain rfl := Option.some.inj (himpl.symm.trans himpl')
      exact hne haio hnot
  | resume c =>
    intro f hf hthread hcancelled hnone result hresult
    by_contra hnot
    have hsame : SameFiles s (s.setFrame c none) := .setFrame (.refl s) c none
    have heq : machine.perform s (.resume c) = ((s.setFrame c none).finish c f result).1 := by
      show s.resume c = _
      have hresult : f.result = some result := hresult
      rw [resume, hf]
      dsimp only
      rw [hresult]
    have hfreed : s.objects f.file = none := by
      by_contra hobject
      have hfd : s.fdOf f.file ≠ none := mt Option.map_eq_none_iff.mp hobject
      have hmem := h.reachable hi' ((sameFiles_resume s c).fdOf.symm ▸ hfd)
      have hhandles : (machine.perform s (.resume c)).handles = s.handles :=
        (sameFiles_resume s c).handles
      rw [hhandles] at hmem
      rw [resolve, if_pos hmem] at hnone
      exact hobject hnone
    have hused := finish_used (c := c) hthread hcancelled (hsame.resolve.mpr hnone) hfreed hnot
    rw [← heq, h.unused] at hused
    cases hused
  | _ => trivial

/-- In every run the promise is kept exactly when `aio_cancel` leaves no request alone in `bio_fclose` and
no operation comes back, after the file was closed, with a result for which it needs the file. -/
theorem descriptors_owned_iff {as : List AioAction} (hl : machine.Legal init as) :
    (∀ bs, bs <+: as → (machine.run init bs).Owned) ↔ (machine.restrict Careful).Legal init as :=
  Machine.always_iff (fun _ => owned_of_restrict) (fun _ _ hr he => careful_of_owned hr he) rfl hl

end Descriptors

instance (s : AioState) : ∀ a, Decidable (s.Careful a)
  | .fclose _ file answer _ => inferInstanceAs (Decidable (∀ impl ∈ s.resolve file,
      impl.aio ≠ none → answer ≠ .notCanceled))
  | .resume c => inferInstanceAs (Decidable (∀ f ∈ s.frames c, f.thread = false →
      f.cancelled = false → s.resolve f.file = none → ∀ result ∈ f.result, Untouched f result))
  | .fopen _ _ _ _ | .fread _ _ _ | .fwrite _ _ _ | .fflush _ _ _ | .complete _ _ => .isTrue trivial

instance (s : AioState) (a : AioAction) : Decidable ((machine.restrict Careful).enabled s a) :=
  inferInstanceAs (Decidable (machine.enabled s a ∧ s.Careful a))

/-- A file is closed while a coroutine reads from it. The request is cancelled. -/
theorem descriptors_owned_iff_canceled :
    let as : List AioAction := [.fopen ⟨1, 1⟩ 3 0 ⟨4, 1⟩, .fread ⟨1, 1⟩ ⟨4, 1⟩ none,
      .fclose ⟨2, 1⟩ ⟨4, 1⟩ .canceled none, .resume ⟨1, 1⟩]
    machine.Legal init as ∧
      ((∀ bs, bs <+: as → (machine.run init bs).Owned) ↔ (machine.restrict Careful).Legal init as) ∧
      (machine.restrict Careful).Legal init as :=
  ⟨by decide +kernel, descriptors_owned_iff (by decide +kernel), by decide +kernel⟩

/-- A file is closed twice while a coroutine reads from it. The request cannot be cancelled. -/
def closeBusy : List AioAction :=
  [.fopen ⟨1, 1⟩ 3 0 ⟨4, 1⟩, .fread ⟨1, 1⟩ ⟨4, 1⟩ none, .fclose ⟨2, 1⟩ ⟨4, 1⟩ .notCanceled none,
    .fclose ⟨2, 1⟩ ⟨4, 1⟩ .allDone none]

/-- A file is closed when the request of a reader has completed, and the reader has not gone on yet. -/
def closeDone : List AioAction :=
  [.fopen ⟨1, 1⟩ 3 0 ⟨4, 1⟩, .fread ⟨1, 1⟩ ⟨4, 1⟩ none, .complete ⟨1, 1⟩ (.ok 10),
    .fclose ⟨2, 1⟩ ⟨4, 1⟩ .allDone none, .resume ⟨1, 1⟩]

/-- In the first run the descriptor stays open and no handle is left for it. In the second one the reader
dereferences a null pointer. -/
theorem close_orphans_descriptor :
    machine.Legal init closeBusy ∧ 3 ∈ (machine.run init closeBusy).fds ∧
    (machine.run init closeBusy).handles = ∅ ∧
    (machine.run init closeBusy).busy = [(⟨4, 1⟩, false)] ∧ ¬(machine.run init closeBusy).Owned ∧
    machine.Legal init closeDone ∧ ⟨1, 1⟩ ∈ (machine.run init closeDone).stale ∧
    ¬(machine.run init closeDone).Owned := by
  have hbusy : (machine.run init closeBusy).busy = [(⟨4, 1⟩, false)] := by decide +kernel
  have hstale : ⟨1, 1⟩ ∈ (machine.run init closeDone).stale := by decide +kernel
  refine ⟨by decide +kernel, by decide +kernel, by decide +kernel, hbusy, fun h => ?_,
    by decide +kernel, hstale, fun h => ?_⟩
  · have hretry := h.retry (⟨4, 1⟩, false) (by rw [hbusy]; exact List.mem_singleton_self _)
    cases hretry
  · rw [h.unused] at hstale
    cases hstale

end AioState

end Bio
