import Portalocker.Utils.Slots
set_option autoImplicit false
set_option linter.unusedSectionVars false

/-!
# `BoundedSemaphore` keeps the contract

Triples for the sweep over the slots and for the release, under the contract of
`Utils/Slots.lean`.
-/

namespace Portalocker

open Posix Interleaving Interleaving.Machine World Contract

variable {ι : Type} [DecidableEq ι]

section Triples

variable {cfg : Config ι} {sem : BoundedSemaphore} {g : Guard (machine cfg)} {p : ι} {c : Call}

/-- A triple under the contract of semaphores. -/
abbrev SlotTriple (cfg : Config ι) (sem : BoundedSemaphore) (g : Guard (machine cfg)) (p : ι)
    (c : Call) {α : Type} (P : World ι → Prop) (x : Py ι α) (Q : α → World ι → Prop)
    (E : Exc → World ι → Prop) : Prop :=
  (slotsContract cfg sem g).Triple p c P x Q E

/-! ## Assertions -/

/-- The instance has no slot. -/
def Slotless (p : ι) (w : World ι) : Prop :=
  w.fh p = none ∧ w.inner p = false ∧ LockedOnly p none w

/-- It has opened a handle on the file of a slot. -/
def OpenedSlot (sem : BoundedSemaphore) (p : ι) (h : Handle ι Path) (w : World ι) : Prop :=
  w.fh p = none ∧ w.inner p = false ∧ Opened p h w ∧ IsSlot sem h.path ∧ h.serial < w.serial p

/-- It has locked that handle. -/
def LockedSlot (sem : BoundedSemaphore) (p : ι) (h : Handle ι Path) (w : World ι) : Prop :=
  OpenedSlot sem p h w ∧ LockedOnly p (some h) w ∧ LockIs p h (some .exclusive) w

/-- It has given a handle up without a lock on it. -/
def LeftSlot (p : ι) (h : Handle ι Path) (w : World ι) : Prop :=
  Slotless p w ∧ h.owner = p ∧ h.serial < w.serial p

/-- It has stored the handle of its slot. -/
def StoredSlot (p : ι) (b : Bool) (h : Handle ι Path) (w : World ι) : Prop :=
  w.fh p = some h ∧ w.inner p = b ∧ LockedOnly p (some h) w ∧ LockIs p h (some .exclusive) w

/-- It is about to let go of its slot: it stores `v` and has no lock beyond that of
`u`. -/
def Leaving (p : ι) (v u : Option (Handle ι Path)) (w : World ι) : Prop :=
  w.fh p = v ∧ w.inner p = true ∧ w.held p = true ∧ LockedOnly p u w

/-- The outcome of a sweep. -/
def Swept (p : ι) (b taken : Bool) (w : World ι) : Prop :=
  if taken then ∃ h, StoredSlot p b h w else Slotless p w

instance stable_lockedOnly (v : Option (Handle ι Path)) :
    ((slotsContract cfg sem g).ctx p c).Stable (LockedOnly p v) :=
  stable_of fun _ _ _ _ hr hs k ho hne => hr k ho (hs k ho hne)

instance stable_slotSerial (n : Nat) :
    ((slotsContract cfg sem g).ctx p c).Stable fun w => n < w.serial p :=
  stable_of fun _ _ _ hu _ h => hu.serial ▸ h

instance stable_slotHeld (b : Bool) :
    ((slotsContract cfg sem g).ctx p c).Stable fun w => w.held p = b :=
  stable_of fun _ _ _ hu _ h => hu.held.trans h

instance stable_leaving (v u : Option (Handle ι Path)) :
    ((slotsContract cfg sem g).ctx p c).Stable (Leaving p v u) :=
  inferInstanceAs (Context.Stable _ fun _ => _ ∧ _ ∧ _ ∧ _)

instance stable_slotless : ((slotsContract cfg sem g).ctx p c).Stable (Slotless p) :=
  inferInstanceAs (Context.Stable _ fun _ => _ ∧ _ ∧ _)

instance stable_openedSlot (h : Handle ι Path) :
    ((slotsContract cfg sem g).ctx p c).Stable (OpenedSlot sem p h) :=
  inferInstanceAs (Context.Stable _ fun _ => _ ∧ _ ∧ _ ∧ _ ∧ _)

instance stable_lockedSlot (h : Handle ι Path) :
    ((slotsContract cfg sem g).ctx p c).Stable (LockedSlot sem p h) :=
  inferInstanceAs (Context.Stable _ fun _ => _ ∧ _ ∧ _)

instance stable_leftSlot (h : Handle ι Path) :
    ((slotsContract cfg sem g).ctx p c).Stable (LeftSlot p h) :=
  inferInstanceAs (Context.Stable _ fun _ => _ ∧ _ ∧ _)

instance stable_storedSlot (b : Bool) (h : Handle ι Path) :
    ((slotsContract cfg sem g).ctx p c).Stable (StoredSlot p b h) :=
  inferInstanceAs (Context.Stable _ fun _ => _ ∧ _ ∧ _ ∧ _)

instance stable_swept (b taken : Bool) :
    ((slotsContract cfg sem g).ctx p c).Stable (Swept p b taken) := by
  cases taken with
  | true => exact Context.Stable.exists
  | false => exact stable_slotless

theorem Slotless.atRest {w : World ι} (h : Slotless p w) : SlotAtRest p w :=
  ⟨by rw [h.1]; exact h.2.2, fun _ => h.1, fun _ => h.2.1⟩

/-- An exception gives an unlocked handle up. -/
theorem leftSlot_of_opened {w : World ι} {h : Handle ι Path}
    (hs : OpenedSlot sem p h w ∧ LockedOnly p none w) : LeftSlot p h w :=
  ⟨⟨hs.1.1, hs.1.2.1, hs.2⟩, hs.1.2.2.1.1, hs.1.2.2.2.2⟩

theorem Leaving.atRest {w : World ι} {v : Option (Handle ι Path)} (h : Leaving p v none w) :
    SlotAtRest p w :=
  ⟨h.2.2.2.weaken _, fun hnot => absurd (h.2.1.symm.trans hnot) (by simp),
    fun hnot => absurd (h.2.2.1.symm.trans hnot) (by simp)⟩

/-! ## Single operations -/

variable (hquiet : AttributesQuiet cfg)
include hquiet

/-- One operation under the contract; only the system raises. -/
theorem slot_rule {o : Op ι} {P : World ι → Prop} {Q : Val o → World ι → Prop}
    {E : Exc → World ι → Prop} [((slotsContract cfg sem g).ctx p c).Stable P]
    [∀ v, ((slotsContract cfg sem g).ctx p c).Stable (Q v)]
    [∀ e, ((slotsContract cfg sem g).ctx p c).Stable (E e)]
    (hpre : ∀ w, w.Wf → SlotsInv sem w → P w → Own p w o ∧ slotsPre sem p w o)
    (hact : ∀ w choice r w', w.Wf → SlotsInv sem w → P w →
      cfg.act choice p w o = some (r, w') → Ends Q E r w')
    (hfault : ∀ w e, w.Wf → SystemCall o → P w → E e (Config.afterFault w o)) :
    SlotTriple cfg sem g p c P (perform o) Q E :=
  perform_rule hpre (fun w choice r w' hw hi _ _ hP h => hact w choice r w' hw hi hP h)
    fun w e hw _ hP he => hfault w e hw (hquiet c o e he) hP

theorem fh_slot {P : World ι → Prop} {E : Exc → World ι → Prop}
    [((slotsContract cfg sem g).ctx p c).Stable P]
    [∀ e, ((slotsContract cfg sem g).ctx p c).Stable (E e)] :
    SlotTriple cfg sem g p c P (perform .fh) (fun v w => w.fh p = v ∧ P w) E :=
  fh_rule (fun _ => trivial) fun _ e _ he => (hquiet c .fh e he).elim

theorem openFile_slot {path : Path} (hpath : IsSlot sem path) :
    SlotTriple cfg sem g p c (Slotless p) (perform (.openFile path .append))
      (fun h w => (OpenedSlot sem p h w ∧ LockedOnly p none w) ∧ h.path = path)
      (fun _ => Slotless p) := by
  refine slot_rule hquiet (fun w _ _ _ => ⟨by simp [Own], hpath⟩) ?_ fun w e _ _ hs => hs
  intro w choice r w' hw _ hs hact
  have hopened : ∀ i (w₁ : World ι), w₁.Wf → Slotless p w₁ →
      (OpenedSlot sem p (w₁.handle p path i) (w₁.openAt p path i) ∧
        LockedOnly p none (w₁.openAt p path i)) ∧ (w₁.handle p path i).path = path := by
    rintro i w₁ hw₁ ⟨hfh, hinner, honly⟩
    have hundropped : w₁.dropped (w₁.handle p path i) = false :=
      Bool.eq_false_iff.2 fun hd => absurd (hw₁.dropped_serial hd) (by simp)
    exact ⟨⟨⟨hfh, hinner, ⟨rfl, hundropped, by simp⟩, hpath, by simp⟩, honly⟩, rfl⟩
  simp only [Config.act] at hact
  split at hact
  · simp only [Option.some.injEq, Prod.mk.injEq] at hact
    obtain ⟨rfl, rfl⟩ := hact
    exact hopened _ w hw hs
  · simp only [Option.ite_none_right_eq_some, Option.some.injEq, Prod.mk.injEq] at hact
    obtain ⟨hnew, rfl, rfl⟩ := hact
    exact hopened _ _ ⟨hw.fs.create ‹_› hnew, hw.fh_owner, hw.fh_serial, hw.fh_dropped,
      hw.dropped_serial⟩ hs

theorem flock_slot (h : Handle ι Path) :
    SlotTriple cfg sem g p c (fun w => OpenedSlot sem p h w ∧ LockedOnly p none w)
      (perform (.flock h .lockMethod))
      (fun _ => LockedSlot sem p h)
      (fun _ w => OpenedSlot sem p h w ∧ LockedOnly p none w) := by
  refine slot_rule hquiet ?_ ?_ fun w e _ _ hs => hs
  · rintro w - - ⟨⟨-, -, ⟨ho, hd, -⟩, hslot, -⟩, honly⟩
    exact ⟨ho, rfl, hslot, honly, hd⟩
  · rintro w choice r w' - - ⟨hs, honly⟩ hact
    simp only [Config.act] at hact
    rcases Config.onOpen_cases hact with ⟨-, hact⟩ | ⟨rfl, rfl⟩
    · simp only [LockFlags.mode, LockFlags.lockMethod, if_true] at hact
      split at hact <;>
        (simp only [Option.some.injEq, Prod.mk.injEq] at hact; obtain ⟨rfl, rfl⟩ := hact)
      · exact ⟨hs, honly⟩
      · refine ⟨hs, fun k ho hne => ?_, hs.2.2.1.1, hs.2.2.1.2.1, by simp⟩
        have hkh : k ≠ h := fun heq => hne (heq ▸ rfl)
        simpa [Function.update_of_ne hkh] using honly k ho (by simp)
    · exact ⟨hs, honly⟩

theorem closeOpened_slot (h : Handle ι Path) :
    SlotTriple cfg sem g p c (fun w => OpenedSlot sem p h w ∧ LockedOnly p none w)
      (perform (.close h)) (fun _ => LeftSlot p h) (fun _ => LeftSlot p h) := by
  have hleft : ∀ {w : World ι} (content : List UInt8),
      OpenedSlot sem p h w ∧ LockedOnly p none w →
      LeftSlot p h ((w.store h content []).discard h) := by
    rintro w content ⟨⟨hfh, hinner, ⟨ho, -, -⟩, -, hserial⟩, honly⟩
    exact ⟨⟨hfh, hinner, (honly.weaken _).closed content⟩, ho, hserial⟩
  refine slot_rule hquiet (fun w _ _ hs => ⟨hs.1.2.2.1.1, trivial⟩) ?_ ?_
  · intro w choice r w' _ _ hs hact
    simp only [Config.act, if_pos hs.1.2.2.1.2.2, Option.some.injEq, Prod.mk.injEq] at hact
    obtain ⟨rfl, rfl⟩ := hact
    exact hleft _ hs
  · intro w e _ _ hs
    simp only [Config.afterFault, if_pos hs.1.2.2.1.2.2]
    exact hleft _ hs

theorem setFh_slot (h : Handle ι Path) :
    SlotTriple cfg sem g p c (LockedSlot sem p h)
      (perform (.setFh (some h))) (fun _ => StoredSlot p false h) (fun _ => LeftSlot p h) := by
  refine slot_rule hquiet ?_ ?_ fun w e _ hcall _ => hcall.elim
  · rintro w - - ⟨⟨-, -, ⟨ho, hd, hopen⟩, -, -⟩, -⟩
    exact ⟨fun k hk => Option.some.inj hk ▸ ⟨ho, hopen, hd⟩, trivial⟩
  · rintro w choice r w' - - ⟨⟨-, hinner, -⟩, honly, hlock⟩ hact
    simp only [Config.act, Option.some.injEq, Prod.mk.injEq] at hact
    obtain ⟨rfl, rfl⟩ := hact
    exact ⟨Function.update_self .., hinner, honly, hlock⟩

theorem drop_slot (h : Handle ι Path) :
    SlotTriple cfg sem g p c (LeftSlot p h) (perform (.drop h)) (fun _ => Slotless p)
      (fun _ => Slotless p) := by
  refine slot_rule hquiet ?_ ?_ fun w e _ _ hs => hs.1
  · rintro w - - ⟨⟨hfh, -, honly⟩, ho, hserial⟩
    exact ⟨⟨ho, hserial, by simp [hfh]⟩, honly h ho (by simp)⟩
  · rintro w choice r w' - - ⟨hs, -, -⟩ hact
    simp only [Config.act, Option.some.injEq, Prod.mk.injEq] at hact
    obtain ⟨rfl, rfl⟩ := hact
    exact hs

theorem pause_slot {o : Op ι} (ho : (∃ timeout, o = .attempts timeout) ∨
      ∃ i checkInterval, o = .sleep i checkInterval) {P : World ι → Prop}
    {E : Exc → World ι → Prop} [((slotsContract cfg sem g).ctx p c).Stable P]
    [∀ e, ((slotsContract cfg sem g).ctx p c).Stable (E e)]
    (hfault : ∀ w e, P w → E e w) :
    SlotTriple cfg sem g p c P (perform o) (fun _ => P) E := by
  refine pause_rule ho (fun w => ?_) fun w e hP _ => hfault w e hP
  rcases ho with ⟨timeout, rfl⟩ | ⟨i, checkInterval, rfl⟩ <;> exact trivial

/-! ## `try_lock` -/

omit hquiet in
/-- A slot file is opened to be appended to. -/
theorem getFh_slotLock (path : Path) :
    (BoundedSemaphore.slotLock path).getFh = (perform (.openFile path .append) : Py ι _) := rfl

omit hquiet in
/-- The mode of a slot file leaves it as it is. -/
theorem prepareFh_slotLock (path : Path) (h : Handle ι Path) :
    (BoundedSemaphore.slotLock path).prepareFh h = (Pure.pure () : Py ι Unit) := rfl

/-- `Lock.acquire` of the lock made for a slot. -/
theorem slotLock_acquire {path : Path} (hpath : IsSlot sem path) :
    SlotTriple cfg sem g p c (Slotless p)
      ((BoundedSemaphore.slotLock path).acquire none none none)
      (fun h => StoredSlot p false h) (fun _ => Slotless p) := by
  refine Hoare.bind (fh_slot hquiet) fun v => ?_
  cases v with
  | some h =>
      refine Hoare.of_false fun w _ hs => ?_
      exact absurd (hs.1.symm.trans hs.2.1) (by simp)
  | none =>
      simp only [getFh_slotLock]
      refine Hoare.bind ((openFile_slot hquiet hpath).of_pre fun w _ hs => hs.2) fun h => ?_
      refine (acquireOpened_rule (N := fun w => OpenedSlot sem p h w ∧ LockedOnly p none w)
        (L := LockedSlot sem p h)
        (T := fun _ w => OpenedSlot sem p h w ∧ LockedOnly p none w)
        (G := fun _ => LeftSlot p h) (D := fun _ => LeftSlot p h)
        (posixLock_rule (flock_slot hquiet h) fun _ _ _ hs => hs) (fun e => ?_)
        (fun _ _ _ _ _ hs => hs) (fun _ _ _ _ hs => leftSlot_of_opened hs)
        (fun _ _ _ _ hs => hs)
        (fun e _ => pause_slot hquiet (Or.inl ⟨_, rfl⟩) fun _ _ hs => leftSlot_of_opened hs)
        (fun i e _ => pause_slot hquiet (Or.inr ⟨_, _, rfl⟩) fun _ _ hs =>
          leftSlot_of_opened hs)
        (by rw [prepareFh_slotLock]; exact Hoare.pure fun _ _ hs => hs) (setFh_slot hquiet h) fun e => drop_slot hquiet h).of_pre
          fun w _ hs => hs.1
      refine (closeOpened_slot hquiet h).conseq (fun _ _ hs => hs) (fun _ _ _ hs => hs)
        fun e w _ hs => ?_
      unfold Caught
      split <;> exact hs

/-- `_inner_lock` of a semaphore: whether it has a slot. -/
theorem setInner_slot {P Q : World ι → Prop} {E : Exc → World ι → Prop}
    [((slotsContract cfg sem g).ctx p c).Stable P]
    [((slotsContract cfg sem g).ctx p c).Stable Q]
    [∀ e, ((slotsContract cfg sem g).ctx p c).Stable (E e)] (b : Bool)
    (hP : ∀ w, P w → Q (w.setInner p b)) :
    SlotTriple cfg sem g p c P (perform (.setInnerLock b)) (fun _ => Q) E := by
  refine slot_rule hquiet (fun w _ _ _ => ⟨trivial, trivial⟩) ?_ fun w e _ hcall _ => hcall.elim
  intro w choice r w' _ _ hs hact
  simp only [Config.act, Option.some.injEq, Prod.mk.injEq] at hact
  obtain ⟨rfl, rfl⟩ := hact
  exact hP w hs

/-- One slot of the sweep. -/
theorem trySlot_slot {path : Path} (hpath : IsSlot sem path) :
    SlotTriple cfg sem g p c (Slotless p) (BoundedSemaphore.trySlot path)
      (Swept p false)
      (fun _ => Slotless p) := by
  refine Hoare.tryCatch (F := fun _ => Slotless p) ?_ fun e => ?_
  · exact Hoare.bind (slotLock_acquire hquiet hpath) fun h => Hoare.pure fun w _ hs => ⟨h, hs⟩
  · split
    · exact Hoare.pure fun _ _ hs => hs
    · split
      · refine Hoare.bind (setInner_slot (Q := Slotless p) hquiet false ?_) fun _ =>
          Hoare.throw fun _ _ hs => hs
        exact fun w hs => ⟨hs.1, Function.update_self .., hs.2.2⟩
      · exact Hoare.throw fun _ _ hs => hs

/-- A whole sweep. -/
theorem tryLock_slot {paths : List Path} (hpaths : ∀ path ∈ paths, IsSlot sem path) :
    SlotTriple cfg sem g p c (Slotless p) (BoundedSemaphore.tryLock paths)
      (Swept p true)
      (fun _ => Slotless p) := by
  induction paths with
  | nil => exact Hoare.pure fun _ _ hs => hs
  | cons path rest ih =>
      refine Hoare.bind (R := fun _ => Slotless p) (slot_rule hquiet
        (fun w _ _ hs => ⟨trivial, hs.1⟩) ?_ fun w e _ hcall _ => hcall.elim) fun _ => ?_
      · intro w choice r w' _ _ hs hact
        simp only [Config.act, Option.some.injEq, Prod.mk.injEq] at hact
        obtain ⟨rfl, rfl⟩ := hact
        exact ⟨Function.update_self .., hs.2⟩
      refine Hoare.bind (trySlot_slot hquiet (hpaths path (List.mem_cons_self ..))) fun b => ?_
      cases b with
      | true =>
          refine Hoare.bind (setInner_slot (P := fun w => ∃ h, StoredSlot p false h w)
            (Q := fun w => ∃ h, StoredSlot p true h w) hquiet true ?_) fun _ =>
              Hoare.pure fun _ _ hs => hs
          rintro w ⟨h, hfh, -, honly, hlock⟩
          exact ⟨h, hfh, Function.update_self .., honly, hlock⟩
      | false => exact ih fun path' hmem => hpaths path' (List.mem_cons_of_mem _ hmem)

/-! ## The calls -/

theorem innerLock_slot {P : World ι → Prop} {E : Exc → World ι → Prop}
    [((slotsContract cfg sem g).ctx p c).Stable P]
    [∀ e, ((slotsContract cfg sem g).ctx p c).Stable (E e)] :
    SlotTriple cfg sem g p c P (perform .innerLock) (fun b w => w.inner p = b ∧ P w) E := by
  refine slot_rule hquiet (fun w _ _ _ => ⟨trivial, trivial⟩) ?_ fun w e _ hcall _ => hcall.elim
  intro w choice r w' _ _ hs hact
  simp only [Config.act, Option.some.injEq, Prod.mk.injEq] at hact
  obtain ⟨rfl, rfl⟩ := hact
  exact ⟨rfl, hs⟩

instance stable_slotAtRest : ((slotsContract cfg sem g).ctx p c).Stable (SlotAtRest p) :=
  inferInstanceAs (((slotsContract cfg sem g).ctx p c).Stable ((slotsContract cfg sem g).idle p))

theorem acquire_slot {self : BoundedSemaphore}
    (hpaths : ∀ path ∈ self.getFilenames, IsSlot sem path) (timeout checkInterval : Option Rat)
    (b : Option Bool) :
    SlotTriple cfg sem g p c (SlotAtRest p) (self.acquire timeout checkInterval b)
      (fun _ => SlotAtRest p) (fun _ => SlotAtRest p) := by
  refine Hoare.bind (innerLock_slot hquiet) fun inner => ?_
  cases inner with
  | true => exact Hoare.throw fun _ _ hs => hs.2
  | false =>
      refine Hoare.bind (R := Ends (fun _ w => ∃ h, StoredSlot p true h w) fun _ => Slotless p)
        (Hoare.conseq (timeoutGenerator_rule (I := Slotless p) (E := fun _ => Slotless p)
          (Hoare.bind (tryLock_slot hquiet hpaths) fun taken => ?_) (fun _ _ _ hs => hs)
          (fun e => pause_slot hquiet (Or.inl ⟨_, rfl⟩) fun _ _ hs => hs)
          fun i e => pause_slot hquiet (Or.inr ⟨_, _, rfl⟩) fun _ _ hs => hs)
          ?_ (fun _ _ _ hs => hs) fun _ _ _ hs => hs.atRest) fun outcome => ?_
      · cases taken with
        | true => exact Hoare.pure fun _ _ hs => hs
        | false => exact Hoare.pure fun _ _ hs => hs
      · rintro w - ⟨hinner, hidle⟩
        have hfh := hidle.inner hinner
        exact ⟨hfh, hinner, hfh ▸ hidle.only⟩
      · cases outcome with
        | ok _ =>
            refine Hoare.bind (R := fun _ => SlotAtRest p) (slot_rule hquiet
              (fun w _ _ ⟨h, hfh, _, _, hlock⟩ => ⟨trivial, h, hfh, hlock.2.2⟩) ?_
              fun w e _ hcall _ => hcall.elim) fun _ => Hoare.pure fun _ _ hs => hs
            rintro w choice r w' - - ⟨h, hfh, hinner, honly, -⟩ hact
            simp only [Config.act, Option.some.injEq, Prod.mk.injEq] at hact
            obtain ⟨rfl, rfl⟩ := hact
            refine ⟨?_, fun hnot => ?_, fun hnot => ?_⟩
            · rw [hfh]
              exact honly
            · exact absurd (hinner.symm.trans hnot) (by simp)
            · simp at hnot
        | error e =>
            dsimp only
            split
            · exact Hoare.throw fun _ _ hs => hs.atRest
            · exact Hoare.pure fun _ _ hs => hs.atRest

theorem unlock_slot (h : Handle ι Path) :
    SlotTriple cfg sem g p c (Leaving p (some h) (some h)) (perform (.unlock h))
      (fun _ => Leaving p (some h) (some h)) (fun _ => Leaving p (some h) (some h)) := by
  refine slot_rule hquiet (fun w hw _ hs => ⟨hw.fh_owner hs.1, trivial⟩) ?_
    fun w e _ _ hs => hs
  rintro w choice r w' - - ⟨hfh, hinner, hheld, honly⟩ hact
  simp only [Config.act] at hact
  rcases Config.onOpen_cases hact with ⟨-, hact⟩ | ⟨rfl, rfl⟩
  · simp only [Option.some.injEq, Prod.mk.injEq] at hact
    obtain ⟨rfl, rfl⟩ := hact
    refine ⟨hfh, hinner, hheld, fun k ho hne => ?_⟩
    have hkh : k ≠ h := fun heq => hne (heq ▸ rfl)
    simpa [Function.update_of_ne hkh] using honly k ho hne
  · exact ⟨hfh, hinner, hheld, honly⟩

theorem closeStored_slot (h : Handle ι Path) :
    SlotTriple cfg sem g p c (Leaving p (some h) (some h)) (perform (.close h))
      (fun _ => Leaving p (some h) none) (fun _ => Leaving p (some h) none) := by
  have hclosed : ∀ {w : World ι}, w.Wf → h ∉ w.opened → Leaving p (some h) (some h) w →
      Leaving p (some h) none w := by
    rintro w hw hmem ⟨hfh, hinner, hheld, honly⟩
    refine ⟨hfh, hinner, hheld, fun k ho _ => ?_⟩
    by_cases hkh : k = h
    · exact hkh ▸ hw.fs.lock_open hmem
    · exact honly k ho fun heq => hkh (Option.some.inj heq).symm
  refine slot_rule hquiet (fun w hw _ hs => ⟨hw.fh_owner hs.1, trivial⟩) ?_ ?_
  · intro w choice r w' hw _ hs hact
    simp only [Config.act] at hact
    split at hact <;>
      (simp only [Option.some.injEq, Prod.mk.injEq] at hact; obtain ⟨rfl, rfl⟩ := hact)
    · exact ⟨hs.1, hs.2.1, hs.2.2.1, hs.2.2.2.closed _⟩
    · exact hclosed hw ‹_› hs
  · intro w e hw _ hs
    simp only [Config.afterFault]
    split
    · exact ⟨hs.1, hs.2.1, hs.2.2.1, hs.2.2.2.closed _⟩
    · exact hclosed hw ‹_› hs

theorem release_slot :
    SlotTriple cfg sem g p c (SlotAtRest p) BoundedSemaphore.release (fun _ => SlotAtRest p)
      (fun _ => SlotAtRest p) := by
  refine Hoare.bind (innerLock_slot hquiet) fun inner => ?_
  cases inner with
  | false => exact Hoare.pure fun _ _ hs => hs.2
  | true =>
      refine Hoare.bind (R := fun _ => Leaving p none none) (release_rule (I := fun _ => True)
        (R := fun h => Leaving p (some h) (some h)) (U := fun h => Leaving p (some h) (some h))
        (V := fun h => Leaving p (some h) none) ((fh_slot hquiet).of_post ?_) (fun h => ?_)
        (fun h => ?_) (fun h => ?_) (fun _ _ => trivial) fun _ _ _ _ hs => hs.atRest) fun _ => ?_
      · rintro v w - ⟨rfl, hinner, hidle⟩
        have hheld : w.held p = true := by
          by_contra hnot
          exact absurd (hinner.symm.trans (hidle.held (by simpa using hnot))) (by simp)
        cases hfh : w.fh p with
        | none => exact ⟨hfh, hinner, hheld, hfh ▸ hidle.only⟩
        | some h => exact ⟨hfh, hinner, hheld, hfh ▸ hidle.only⟩
      · refine (unlock_slot hquiet h).conseq (fun _ _ hs => hs) (fun _ _ _ hs => hs)
          fun e w _ hs => ?_
        unfold Caught
        split
        · exact hs
        · exact ⟨trivial, hs⟩
      · refine (closeStored_slot hquiet h).conseq (fun _ _ hs => hs) (fun _ _ _ hs => hs)
          fun e w _ hs => ?_
        unfold Caught
        split
        · exact hs
        · exact hs.atRest
      · refine slot_rule hquiet (fun w _ _ _ => ⟨fun k hk => by simp at hk, trivial⟩) ?_
          fun w e _ hcall _ => hcall.elim
        rintro w choice r w' - - ⟨-, hs⟩ hact
        simp only [Config.act, Option.some.injEq, Prod.mk.injEq] at hact
        obtain ⟨rfl, rfl⟩ := hact
        exact ⟨Function.update_self .., hs⟩
      · refine setInner_slot hquiet false fun w hs => ?_
        refine ⟨?_, fun _ => hs.1, fun _ => Function.update_self ..⟩
        rw [setInner_fh, hs.1]
        exact hs.2.2.2

end Triples

/-- Every call of a semaphore keeps the contract. -/
theorem slots_verified {cfg : Config ι} {sem : BoundedSemaphore} {g : Guard (machine cfg)}
    (hcfg : SharedSlots cfg sem) (hquiet : AttributesQuiet cfg) :
    (slotsContract cfg sem g).toDiscipline.Verified := by
  intro p (c : Call) w hw hidle _
  obtain ⟨self, hobject, hmaximum, hname, hdirectory⟩ := hcfg p
  have hstable : ((slotsContract cfg sem g).ctx p c).Stable (SlotAtRest p) := inferInstance
  have hpaths : ∀ path ∈ self.getFilenames, IsSlot sem path := by
    intro path hmem
    obtain ⟨n, hn, rfl⟩ := List.mem_map.1 hmem
    refine ⟨n, hmaximum ▸ List.mem_range.1 hn, ?_⟩
    simp only [BoundedSemaphore.getFilename, hname, hdirectory]
  simp only [machine, hobject]
  cases c with
  | acquire timeout checkInterval failWhenLocked =>
      exact Hoare.toCall hstable (acquire_slot hquiet hpaths _ _ _) hw hidle
  | enter => exact Hoare.toCall hstable (acquire_slot hquiet hpaths _ _ _) hw hidle
  | release => exact Hoare.toCall hstable (release_slot hquiet) hw hidle
  | exit => exact Hoare.toCall hstable (release_slot hquiet) hw hidle
  | readPid | write | flush => exact fun w' hw' hr => hstable.keep hw hw' hr hidle

end Portalocker
