import Bio.WindowsIoInvariant

/-!
# Files on Windows under their calls

A call of `bio_fread` or `bio_fwrite` takes the offset of its file when it starts, and goes back to the
file when it ends. In the meantime other coroutines may call the same file, move its offset or close it.

* `Undisturbed`: every call has its object, with the offset at which the call started.
* `MovesAlone`: nothing frees an object, and nothing moves the offset of a file, while a call of another
  coroutine is in it.

Result: `calls_undisturbed_iff`, over all runs.
-/

namespace Bio

namespace WindowsIo

variable {s s' : WindowsIo} {memory : Handle → Option IoImpl} {frames : Handle → Option IoFrame}
  {c h : Handle} {f g : IoFrame}

/-- The object of a call is there, and is what it was. -/
def UsesOk (memory : Handle → Option IoImpl) (f : IoFrame) : Prop :=
  ∃ impl, memory f.impl = some impl ∧ impl.kind = f.kind ∧ (f.kind = .file → impl.offset = f.offset)

def AllUseOk (memory : Handle → Option IoImpl) (frames : Handle → Option IoFrame) : Prop :=
  ∀ c f, frames c = some f → UsesOk memory f

def Undisturbed (s : WindowsIo) : Prop := s.stale = false ∧ AllUseOk s.memory s.frames

/-- No coroutine but `c` is in a call of the object. -/
def Alone (s : WindowsIo) (c h : Handle) : Prop := ∀ d g, s.frames d = some g → d ≠ c → g.impl ≠ h

/-- The number of bytes with which a call ends, when the action ends it. -/
def ended (s : WindowsIo) (f : IoFrame) : WindowsAction → Option Nat
  | .afterJob =>
    match f.result, s.memory f.impl with
    | some (.success n), some impl => if impl.completionMode = .skipOnSuccess then some n else none
    | _, _ => none
  | .afterWait overlapped =>
    match f.result with
    | some (.success n) => some n
    | some .pending => overlapped.toOption
    | _ => none
  | _ => none

/-- The call of `c` does not move the offset of its file under another call. -/
def EndsAlone (s : WindowsIo) (a : WindowsAction) (c : Handle) (f : IoFrame) : Prop :=
  f.kind = .file → ∀ n ∈ s.ended f a, ∀ impl ∈ s.memory f.impl,
    (impl.offset + n) % 2 ^ 64 ≠ impl.offset → s.Alone c f.impl

def MovesAlone (s : WindowsIo) : WindowsAction → Prop
  | .fseek h offset origin => ∀ impl ∈ s.resolve .file h, ∀ position ∈ seekTo impl offset origin,
      position ≠ impl.offset → ∀ c f, s.frames c = some f → f.impl ≠ h
  | .free h => ∀ c f, s.frames c = some f → f.impl ≠ h
  | .netClose h => s.resolve .socket h ≠ none → ∀ c f, s.frames c = some f → f.impl ≠ h
  | .afterJob => ∀ c ∈ s.sched.phase.mcoRunning, ∀ f ∈ s.frames c, s.EndsAlone .afterJob c f
  | .afterWait overlapped => ∀ c ∈ s.sched.phase.mcoRunning, ∀ f ∈ s.frames c,
      s.EndsAlone (.afterWait overlapped) c f
  | _ => True

/-! ## Objects and calls -/

theorem AllUseOk.erase (hu : AllUseOk memory frames) : AllUseOk memory (Function.update frames c none) :=
  fun d g hg => hu d g (Table.erase_some hg).2

theorem AllUseOk.insert (hu : AllUseOk memory frames) (hg : UsesOk memory g) :
    AllUseOk memory (Function.update frames c (some g)) := by
  intro d g' hg'
  rcases Table.insert_some hg' with ⟨_, rfl⟩ | ⟨_, hold⟩
  · exact hg
  · exact hu d g' hold

/-- An object changes. The calls of it do not rely on that. -/
theorem AllUseOk.setImpl (hu : AllUseOk memory frames) {impl : IoImpl} (himpl : memory h = some impl)
    {impl' : IoImpl} (hkind : impl'.kind = impl.kind)
    (hoffset : ∀ c f, frames c = some f → f.impl = h → impl'.offset = impl.offset) :
    AllUseOk (Function.update memory h (some impl')) frames := by
  intro c f hf
  obtain ⟨i, hi, hkind', hoffset'⟩ := hu c f hf
  by_cases heq : f.impl = h
  · obtain rfl : impl = i := Option.some.inj (himpl.symm.trans (heq ▸ hi))
    refine ⟨impl', heq ▸ Function.update_self .., hkind.trans hkind', fun hfile => ?_⟩
    exact (hoffset c f hf heq).trans (hoffset' hfile)
  · exact ⟨i, (Function.update_of_ne heq ..).trans hi, hkind', hoffset'⟩

/-- An object that no call uses changes. -/
theorem AllUseOk.update (hu : AllUseOk memory frames) {v : Option IoImpl}
    (hunused : ∀ c f, frames c = some f → f.impl ≠ h) :
    AllUseOk (Function.update memory h v) frames := by
  intro c f hf
  obtain ⟨i, hi, hrest⟩ := hu c f hf
  exact ⟨i, (Function.update_of_ne (hunused c f hf) ..).trans hi, hrest⟩

structure Tidy (s : WindowsIo) : Prop where
  undisturbed : s.Undisturbed
  issued : ∀ h, s.memory h ≠ none → h ∈ s.sched.issued

/-- A step that makes no object. -/
theorem Tidy.keep (ht : s.Tidy) (hissued : ∀ h ∈ s.sched.issued, h ∈ s'.sched.issued)
    (hkeys : ∀ h, s'.memory h ≠ none → s.memory h ≠ none) (huses : AllUseOk s'.memory s'.frames)
    (hstale : s'.stale = s.stale) : s'.Tidy :=
  ⟨⟨hstale.trans ht.undisturbed.1, huses⟩, fun h hh => hissued h (ht.issued h (hkeys h hh))⟩

theorem keys_update {v : Option IoImpl} (hh : memory h ≠ none) :
    ∀ x, Function.update memory h v x ≠ none → memory x ≠ none := by
  intro x hx
  rw [Function.update_apply] at hx
  split at hx
  · next heq => exact heq ▸ hh
  · exact hx

theorem raise_issued (t : Sched) (signal : Handle) :
    ∀ h ∈ t.issued, h ∈ (t.raiseSignal signal).1.issued :=
  (Sched.shrinks_raiseSignal t signal).staysClosed.issued

theorem Tidy.raise (ht : s.Tidy) (signal : Handle) : (s.raise signal).Tidy :=
  ht.keep (raise_issued s.sched signal) (fun _ hh => hh) ht.undisturbed.2 rfl

theorem Tidy.waitForIo (ht : s.Tidy) (hf : s.frames c = some f) : (s.waitForIo c f).Tidy :=
  ht.keep (Sched.staysClosed_waitForSignals s.sched c [f.signal] true).issued (fun _ hh => hh)
    (ht.undisturbed.2.insert (ht.undisturbed.2 c f hf)) rfl

/-- A call returns, and moves the offset of its file alone. -/
theorem Tidy.transferred (ht : s.Tidy) (hf : s.frames c = some f) {n : Nat}
    (halone : f.kind = .file → ∀ impl ∈ s.memory f.impl,
      (impl.offset + n) % 2 ^ 64 ≠ impl.offset → s.Alone c f.impl) : (s.transferred c f n).1.Tidy := by
  obtain ⟨impl, himpl, _⟩ := ht.undisturbed.2 c f hf
  unfold WindowsIo.transferred
  rw [himpl]
  cases hkind : f.kind with
  | socket => exact ht.keep (fun _ hh => hh) (fun _ hh => hh) ht.undisturbed.2.erase rfl
  | file =>
    refine ht.keep (fun _ hh => hh) (keys_update (by rw [himpl]; nofun)) ?_ rfl
    refine ht.undisturbed.2.erase.setImpl himpl rfl fun d g hg heq => ?_
    obtain ⟨hne, hg⟩ := Table.erase_some hg
    by_contra hmoves
    exact halone hkind impl himpl hmoves d g hg hne heq

theorem Tidy.afterJob (ht : s.Tidy) (hf : s.frames c = some f)
    (halone : s.EndsAlone .afterJob c f) : (s.afterJob c f).1.Tidy := by
  obtain ⟨impl, himpl, _⟩ := ht.undisturbed.2 c f hf
  unfold WindowsIo.afterJob
  unfold EndsAlone ended at halone
  rw [himpl] at halone ⊢
  cases hresult : f.result with
  | none => exact ht
  | some result =>
    rw [hresult] at halone
    cases result with
    | success n =>
      dsimp only [WindowsIo.maybeWaitAfterSuccess] at halone ⊢
      split
      · next hskip =>
        rw [if_pos hskip] at halone
        refine (ht.raise f.signal).transferred hf fun hfile i hi' => ?_
        obtain rfl := Option.some.inj (himpl.symm.trans hi')
        exact halone hfile n rfl impl rfl
      · exact ht.waitForIo hf
    | pending => exact ht.waitForIo hf
    | error e => exact ht.keep (fun _ hh => hh) (fun _ hh => hh) ht.undisturbed.2.erase rfl

theorem Tidy.afterWait (ht : s.Tidy) (hf : s.frames c = some f) {overlapped : Except Nat Nat}
    (halone : s.EndsAlone (.afterWait overlapped) c f) : (s.afterWait c f overlapped).1.Tidy := by
  obtain ⟨impl, himpl, _⟩ := ht.undisturbed.2 c f hf
  unfold WindowsIo.afterWait
  unfold EndsAlone ended at halone
  cases hresult : f.result with
  | none => exact ht
  | some result =>
    rw [hresult] at halone
    cases result with
    | success n => exact ht.transferred hf fun hfile => halone hfile n rfl
    | pending =>
      dsimp only
      rw [himpl]
      cases overlapped with
      | ok n => exact ht.transferred hf fun hfile => halone hfile n rfl
      | error e => exact ht.keep (fun _ hh => hh) (fun _ hh => hh) ht.undisturbed.2.erase rfl
    | error e => exact ht

/-- A call starts at the offset of its file. -/
theorem Tidy.prepareIoReq (ht : s.Tidy) (hf : UsesOk s.memory f) : (s.prepareIoReq c f).Tidy :=
  ht.keep (fun _ hh => Sched.makeSignal_issued hh) (fun _ hh => hh) (ht.undisturbed.2.insert hf) rfl

theorem Tidy.rw (ht : s.Tidy) (c h signal : Handle) (size : Nat) : (s.rw c h signal size).1.Tidy := by
  unfold WindowsIo.rw
  split
  · next impl hres =>
    obtain ⟨himpl, hkind, _⟩ := resolve_some hres
    exact ht.prepareIoReq ⟨impl, himpl, hkind, fun _ => rfl⟩
  · exact ht

theorem Tidy.kernelCall (ht : s.Tidy) (p : Handle × Nat) (handle : Nat) (result : CallResult) :
    (s.kernelCall p handle result).Tidy ∧ (s.kernelCall p handle result).frames = s.frames := by
  unfold WindowsIo.kernelCall
  split
  · split
    · exact ⟨ht.keep (fun _ hh => hh) (fun _ hh => hh) ht.undisturbed.2 rfl, rfl⟩
    · exact ⟨ht, rfl⟩
  · exact ⟨ht.keep (fun _ hh => hh) (fun _ hh => hh) ht.undisturbed.2 rfl, rfl⟩
  · exact ⟨ht, rfl⟩

theorem Tidy.rwFile (ht : s.Tidy) (hf : s.frames c = some f) (result : CallResult) :
    (s.rwFile c f result).Tidy := by
  have hset : (s.setFrame c (some { f with result := some result })).Tidy :=
    ht.keep (fun _ hh => hh) (fun _ hh => hh) (ht.undisturbed.2.insert (ht.undisturbed.2 c f hf)) rfl
  exact (hset.kernelCall _ _ _).1

theorem Tidy.initCompletionMode (ht : s.Tidy) {impl : IoImpl} (himpl : s.memory h = some impl)
    (skips : Bool) :
    (s.initCompletionMode h impl skips).1.Tidy ∧
      ∃ impl', (s.initCompletionMode h impl skips).1.memory h = some impl' ∧ impl'.kind = impl.kind := by
  unfold WindowsIo.initCompletionMode
  split
  · refine ⟨ht.keep (fun _ hh => hh) (keys_update (by rw [himpl]; nofun)) ?_ rfl, _,
      Function.update_self .., rfl⟩
    exact ht.undisturbed.2.setImpl himpl rfl fun _ _ _ _ => rfl
  · exact ⟨ht, impl, himpl, rfl⟩

/-- A socket has no offset, so that a call of it ends as any other one. -/
theorem Tidy.netTransfer (ht : s.Tidy) (c h signal : Handle) (size : Nat) (skips : Bool)
    (result : CallResult) : (s.netTransfer c h signal size skips result).1.Tidy := by
  unfold WindowsIo.netTransfer
  split
  · next impl hres =>
    obtain ⟨himpl, hkind, _⟩ := resolve_some hres
    obtain ⟨ht₁, impl', himpl', hkind'⟩ := ht.initCompletionMode himpl skips
    revert ht₁ himpl'
    generalize s.initCompletionMode h impl skips = init
    obtain ⟨s₁, mode⟩ := init
    intro ht₁ himpl'
    dsimp only at ht₁ himpl' ⊢
    have hprepared := ht₁.prepareIoReq (c := c)
      (f := ⟨s₁.calls, .socket, h, impl.handle, min size maxDword, 0, signal, some result, false⟩)
      ⟨impl', himpl', hkind'.trans hkind, nofun⟩
    obtain ⟨hcalled, hframes⟩ := hprepared.kernelCall (c, s₁.calls) impl.handle result
    have hf := (congrFun hframes c).trans (Function.update_self ..)
    cases result with
    | success n =>
      dsimp only [WindowsIo.maybeWaitAfterSuccess]
      split
      · exact (hcalled.raise signal).transferred hf nofun
      · exact hcalled.waitForIo hf
    | pending => exact hcalled.waitForIo hf
    | error e => exact hcalled.keep (fun _ hh => hh) (fun _ hh => hh) hcalled.undisturbed.2.erase rfl
  · exact ht

/-- A new object is not that of a call. -/
theorem Tidy.wrap (ht : s.Tidy) (hfresh : s.sched.Fresh h) (impl : IoImpl)
    (objects : Nat → Option FileObject) :
    Tidy { s with
      memory := Function.update s.memory h (some impl)
      objects := objects
      sched := s.sched.perform (.issue h) } := by
  refine ⟨⟨ht.undisturbed.1, ht.undisturbed.2.update fun c f hf heq => ?_⟩, fun x hx => ?_⟩
  · obtain ⟨i, hi, _⟩ := ht.undisturbed.2 c f hf
    exact hfresh.2 (heq ▸ ht.issued f.impl (by rw [hi]; nofun))
  · by_cases hxh : x = h
    · exact hxh ▸ List.mem_cons_self
    · have hx : Function.update s.memory h (some impl) x ≠ none := hx
      rw [Function.update_of_ne hxh] at hx
      exact List.mem_cons_of_mem _ (ht.issued x hx)

/-- `bio_fseek` moves the offset under no call. -/
theorem Tidy.fseek (ht : s.Tidy) {offset : Int} {origin : Option Whence}
    (hmoves : s.MovesAlone (.fseek h offset origin)) : (s.fseek h offset origin).1.Tidy := by
  unfold WindowsIo.fseek
  split
  · next impl hres =>
    obtain ⟨himpl, _⟩ := resolve_some hres
    split
    · next position hposition =>
      refine ht.keep (fun _ hh => hh) (keys_update (by rw [himpl]; nofun)) ?_ rfl
      refine ht.undisturbed.2.setImpl himpl rfl fun c f hf heq => ?_
      by_contra hne
      exact hmoves impl hres position hposition hne c f hf heq
    · exact ht
  · exact ht

/-- The stage of an object changes. -/
theorem Tidy.setStage (ht : s.Tidy) {impl : IoImpl} (himpl : s.memory h = some impl) (stage : IoStage)
    (objects : Nat → Option FileObject) :
    Tidy { s.setImpl h (some { impl with stage := stage }) with objects := objects } :=
  ht.keep (fun _ hh => hh) (keys_update (by rw [himpl]; nofun))
    (ht.undisturbed.2.setImpl himpl rfl fun _ _ _ _ => rfl) rfl

/-- An object that no call uses is freed. -/
theorem Tidy.free (ht : s.Tidy) (hunused : ∀ c f, s.frames c = some f → f.impl ≠ h)
    (objects : Nat → Option FileObject) :
    Tidy { s.setImpl h none with objects := objects } := by
  refine ht.keep (fun _ hh => hh) (fun x hx => ?_) (ht.undisturbed.2.update hunused) rfl
  have hx : Function.update s.memory h none x ≠ none := hx
  rw [Function.update_apply] at hx
  split at hx
  · exact absurd rfl hx
  · exact hx

/-- `bio_platform_update`, whatever the packets point to. -/
theorem Tidy.dispatch (ht : s.Tidy) (l : List (Handle × Nat)) : (l.foldl WindowsIo.dispatch s).Tidy := by
  induction l generalizing s with
  | nil => exact ht
  | cons p l ih =>
    refine ih ?_
    unfold WindowsIo.dispatch
    split
    · exact ht.raise _
    · exact ht.keep (fun _ hh => hh) (fun _ hh => hh) ht.undisturbed.2 rfl

theorem tidy_init : init.Tidy := by
  refine ⟨⟨rfl, fun c f hf => ?_⟩, fun h hh => absurd rfl hh⟩
  cases hf

/-- The step lemma. -/
theorem Tidy.step (ht : s.Tidy) {a : WindowsAction} (he : machine.enabled s a) (ha : s.MovesAlone a) :
    (machine.perform s a).Tidy := by
  cases a with
  | sched a =>
    obtain ⟨_, hen, _⟩ := he
    exact ht.keep (Sched.Effect.of_step hen).stays_closed.issued (fun _ hh => hh) ht.undisturbed.2 rfl
  | create handle => exact ht.keep (fun _ hh => hh) (fun _ hh => hh) ht.undisturbed.2 rfl
  | fdopen handle h port skips => exact ht.wrap he.2.2.2.1 _ _
  | makeSocket handle h init => exact ht.wrap he.2.2.2.1 _ _
  | fread h signal size | fwrite h signal size =>
    obtain ⟨_, _, _, hany⟩ := he
    obtain ⟨c, hp, _⟩ := Sched.running_of_any hany
    show Tidy (s.inCoro _)
    rw [inCoro_running hp]
    exact ht.rw c h signal size
  | rwFile c result =>
    obtain ⟨_, f, hf, _⟩ := he
    rw [perform_rwFile hf]
    exact ht.rwFile hf result
  | afterJob =>
    obtain ⟨_, c, hc, f, hf, _⟩ := he
    rw [perform_afterJob (Phase.eq_running hc) hf]
    exact ht.afterJob hf (ha c hc f hf)
  | netSend h signal size skips result | netRecv h signal size skips result =>
    obtain ⟨_, ⟨_, _, hany⟩, _⟩ := he
    obtain ⟨c, hp, _⟩ := Sched.running_of_any hany
    show Tidy (s.inCoro _)
    rw [inCoro_running hp]
    exact ht.netTransfer c h signal size skips result
  | afterWait overlapped =>
    obtain ⟨_, c, hc, f, hf, _⟩ := he
    rw [perform_afterWait (Phase.eq_running hc) hf]
    exact ht.afterWait hf (ha c hc f hf)
  | complete p => exact ht.keep (fun _ hh => hh) (fun _ hh => hh) ht.undisturbed.2 rfl
  | fseek h offset origin => exact ht.fseek ha
  | fclose h =>
    show Tidy (s.fclose h).1
    unfold WindowsIo.fclose
    split
    · next impl hres => exact ht.setStage (resolve_some hres).1 .closing s.objects
    · exact ht
  | closeFile h =>
    obtain ⟨_, impl, himpl, _⟩ := he
    rw [perform_closeFile himpl]
    exact ht.setStage himpl .closed _
  | free h => exact ht.free ha s.objects
  | netClose h =>
    show Tidy (s.netClose h).1
    unfold WindowsIo.netClose
    split
    · next impl hres => exact ht.free (ha (by simp [hres])) _
    · exact ht
  | platformUpdate n =>
    have hfold := ht.dispatch (s.port.take n)
    exact hfold.keep (fun _ hh => hh) (fun _ hh => hh) hfold.undisturbed.2 rfl

theorem tidy_of_restrict (hr : (machine.restrict MovesAlone).Reachable s) : s.Tidy :=
  Machine.invariant (fun _ h => h ▸ tidy_init) (fun _ _ _ ht he => ht.step he.1 he.2) hr

/-! ## The condition is exact -/

theorem UsesOk.same_offset {memory' : Handle → Option IoImpl} (hu : UsesOk memory g)
    (hu' : UsesOk memory' g) {impl impl' : IoImpl} (himpl : memory g.impl = some impl)
    (himpl' : memory' g.impl = some impl') (hkind : impl.kind = .file) : impl'.offset = impl.offset := by
  obtain ⟨i, hi, hikind, hoffset⟩ := hu
  obtain ⟨i', hi', _, hoffset'⟩ := hu'
  obtain rfl := Option.some.inj (himpl.symm.trans hi)
  obtain rfl := Option.some.inj (himpl'.symm.trans hi')
  have hfile : g.kind = .file := hikind.symm.trans hkind
  exact (hoffset' hfile).trans (hoffset hfile).symm

theorem transferred_file (hfile : f.kind = .file) {impl : IoImpl} (himpl : s.memory f.impl = some impl)
    (n : Nat) :
    (s.transferred c f n).1.memory =
        Function.update s.memory f.impl (some { impl with offset := (impl.offset + n) % 2 ^ 64 }) ∧
      (s.transferred c f n).1.frames = Function.update s.frames c none := by
  unfold WindowsIo.transferred
  rw [hfile, himpl]
  exact ⟨rfl, rfl⟩

/-- What a call of a file does to the file when the action ends it. -/
theorem afterJob_ended (hfile : f.kind = .file) {impl : IoImpl} (himpl : s.memory f.impl = some impl)
    {n : Nat} (hended : s.ended f .afterJob = some n) :
    (s.afterJob c f).1.memory =
        Function.update s.memory f.impl (some { impl with offset := (impl.offset + n) % 2 ^ 64 }) ∧
      (s.afterJob c f).1.frames = Function.update s.frames c none := by
  unfold ended at hended
  unfold WindowsIo.afterJob
  rw [himpl] at hended ⊢
  revert hended
  rcases f.result with _ | m | _ | e <;> intro hended
  · cases hended
  · dsimp only [WindowsIo.maybeWaitAfterSuccess] at hended ⊢
    split at hended
    · next hskip =>
      rw [if_pos hskip, ← Option.some.inj hended]
      exact transferred_file (s := s.raise f.signal) hfile himpl m
    · cases hended
  · cases hended
  · cases hended

theorem afterWait_ended (hfile : f.kind = .file) {impl : IoImpl} (himpl : s.memory f.impl = some impl)
    {n : Nat} {overlapped : Except Nat Nat} (hended : s.ended f (.afterWait overlapped) = some n) :
    (s.afterWait c f overlapped).1.memory =
        Function.update s.memory f.impl (some { impl with offset := (impl.offset + n) % 2 ^ 64 }) ∧
      (s.afterWait c f overlapped).1.frames = Function.update s.frames c none := by
  unfold ended at hended
  unfold WindowsIo.afterWait
  revert hended
  rcases f.result with _ | m | _ | e <;> intro hended
  · cases hended
  · rw [← Option.some.inj hended]
    exact transferred_file hfile himpl m
  · dsimp only at hended ⊢
    rw [himpl]
    cases overlapped with
    | ok m =>
      rw [← Option.some.inj hended]
      exact transferred_file hfile himpl m
    | error e => cases hended
  · cases hended

/-- A call that moved the offset did so alone. -/
theorem endsAlone_of_undisturbed (ht : s.Tidy) (hf : s.frames c = some f) {a : WindowsAction}
    (hafter : s'.Undisturbed)
    (hmoved : f.kind = .file → ∀ impl, s.memory f.impl = some impl → ∀ n, s.ended f a = some n →
      s'.memory = Function.update s.memory f.impl
        (some { impl with offset := (impl.offset + n) % 2 ^ 64 }) ∧
      s'.frames = Function.update s.frames c none) : s.EndsAlone a c f := by
  intro hfile n hended impl himpl hmoves d g hg hne heq
  obtain ⟨hmemory, hframes⟩ := hmoved hfile impl himpl n hended
  obtain ⟨i, hi, hkind, _⟩ := ht.undisturbed.2 c f hf
  obtain rfl := Option.some.inj (himpl.symm.trans hi)
  have hg' : s'.frames d = some g := by rw [hframes, Function.update_of_ne hne, hg]
  have hnew : s'.memory g.impl = some { impl with offset := (impl.offset + n) % 2 ^ 64 } := by
    rw [hmemory, heq, Function.update_self]
  exact hmoves ((ht.undisturbed.2 d g hg).same_offset (hafter.2 d g hg') (heq ▸ himpl) hnew
    (hkind.trans hfile))

theorem movesAlone_of_undisturbed (ht : s.Tidy) {a : WindowsAction} (he : machine.enabled s a)
    (hafter : (machine.perform s a).Undisturbed) : s.MovesAlone a := by
  cases a with
  | afterJob =>
    intro c hc f hf
    have hperform : machine.perform s .afterJob = (s.afterJob c f).1 := by
      show s.inCoro _ = _
      rw [inCoro_running (Phase.eq_running hc), show s.frames c = some f from hf]
    rw [hperform] at hafter
    exact endsAlone_of_undisturbed ht hf hafter fun hfile _ himpl _ => afterJob_ended hfile himpl
  | afterWait overlapped =>
    intro c hc f hf
    have hperform : machine.perform s (.afterWait overlapped) = (s.afterWait c f overlapped).1 := by
      show s.inCoro _ = _
      rw [inCoro_running (Phase.eq_running hc), show s.frames c = some f from hf]
    rw [hperform] at hafter
    exact endsAlone_of_undisturbed ht hf hafter fun hfile _ himpl _ => afterWait_ended hfile himpl
  | fseek h offset origin =>
    intro impl hres position hposition hne c f hf heq
    obtain ⟨himpl, hkind, _⟩ := resolve_some hres
    have hperform : machine.perform s (.fseek h offset origin) =
        s.setImpl h (some { impl with offset := position }) := by
      show (s.fseek h offset origin).1 = _
      rw [WindowsIo.fseek, show s.resolve .file h = some impl from hres]
      dsimp only
      rw [show seekTo impl offset origin = some position from hposition]
    rw [hperform] at hafter
    have hnew : (s.setImpl h (some { impl with offset := position })).memory f.impl =
        some { impl with offset := position } := by
      rw [heq]
      exact Function.update_self ..
    exact hne ((ht.undisturbed.2 c f hf).same_offset (hafter.2 c f hf) (heq ▸ himpl) hnew hkind)
  | free h =>
    rintro c f hf rfl
    obtain ⟨i, hi, _⟩ := hafter.2 c f hf
    cases (Function.update_self ..).symm.trans hi
  | netClose h =>
    rintro hres c f hf rfl
    obtain ⟨impl, hres⟩ := Option.ne_none_iff_exists'.mp hres
    have hperform : machine.perform s (.netClose f.impl) =
        (s.setImpl f.impl none).setObject impl.handle none := by
      show (s.netClose f.impl).1 = _
      rw [WindowsIo.netClose, hres]
    rw [hperform] at hafter
    obtain ⟨i, hi, _⟩ := hafter.2 c f hf
    cases (Function.update_self ..).symm.trans hi
  | _ => trivial

/-- In every state of a run each call has its object, at the offset at which the call started, exactly if
nothing frees an object or moves the offset of a file under the call of another coroutine. -/
theorem calls_undisturbed_iff {as : List WindowsAction} (hl : machine.Legal init as) :
    (∀ bs, bs <+: as → (machine.run init bs).Undisturbed) ↔
      (machine.restrict MovesAlone).Legal init as :=
  Machine.always_restrict_iff (fun _ hr => (tidy_of_restrict hr).undisturbed)
    (fun _ _ hr => movesAlone_of_undisturbed (tidy_of_restrict hr)) rfl hl

/-- Two coroutines write to a file. The kernel writes both times at the beginning. -/
def overlappingWrites : List WindowsAction :=
  [.sched (.spawn false ⟨1, 1⟩), .sched (.spawn false ⟨2, 1⟩), .create 3, .fdopen 3 ⟨3, 1⟩ true true,
    .sched .enterLoop, .sched .endPass, .sched .swap, .sched .resume, .fwrite ⟨3, 1⟩ ⟨4, 1⟩ 10,
    .sched .yield, .sched .resume, .fwrite ⟨3, 1⟩ ⟨5, 1⟩ 20, .sched .yield, .sched .endPass,
    .rwFile ⟨1, 1⟩ (.success 10), .sched .swap, .sched .resume, .afterJob]

theorem calls_undisturbed_iff_overlapping :
    let s := machine.run init overlappingWrites
    machine.Legal init overlappingWrites ∧
      s.memory ⟨3, 1⟩ = some ⟨.file, 3, .skipOnSuccess, 10, .opened⟩ ∧
      s.frames ⟨2, 1⟩ = some ⟨1, .file, ⟨3, 1⟩, 3, 20, 0, ⟨5, 1⟩, none, false⟩ ∧
      ((∀ bs, bs <+: overlappingWrites → (machine.run init bs).Undisturbed) ↔
        (machine.restrict MovesAlone).Legal init overlappingWrites) ∧
      ¬(machine.restrict MovesAlone).Legal init overlappingWrites := by
  have hlegal : machine.Legal init overlappingWrites := by decide +kernel
  have hmemory : (machine.run init overlappingWrites).memory ⟨3, 1⟩ =
      some ⟨.file, 3, .skipOnSuccess, 10, .opened⟩ := by decide +kernel
  have hframe : (machine.run init overlappingWrites).frames ⟨2, 1⟩ =
      some ⟨1, .file, ⟨3, 1⟩, 3, 20, 0, ⟨5, 1⟩, none, false⟩ := by decide +kernel
  refine ⟨hlegal, hmemory, hframe, calls_undisturbed_iff hlegal, fun hrestrict => ?_⟩
  obtain ⟨impl, himpl, _, hoffset⟩ :=
    ((calls_undisturbed_iff hlegal).mpr hrestrict _ (List.prefix_refl _)).2 ⟨2, 1⟩ _ hframe
  rw [← Option.some.inj (hmemory.symm.trans himpl)] at hoffset
  exact absurd (hoffset rfl) (by decide)

end WindowsIo

end Bio
