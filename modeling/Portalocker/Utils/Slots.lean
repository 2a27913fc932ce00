import Portalocker.Utils.Contract
set_option autoImplicit false
set_option linter.unusedSectionVars false

/-!
# Semaphore slots

The contract of `BoundedSemaphore` instances that share name, directory and
maximum.  The file of a slot is never removed, so its path always names the inode
every instance has open, and the lock on it is exclusive; an instance locks a new
handle only while none of its handles is locked.  Operations of the system may
raise anything, interrupts included; reading and writing attributes raises
nothing.
-/

namespace Portalocker

open Posix Interleaving Interleaving.Machine World Contract

variable {ι : Type} [DecidableEq ι]

/-! ## The names of the slots -/

theorem ofDigitChars_pad2 (n : Nat) : Nat.ofDigitChars 10 (BoundedSemaphore.pad2 n) 0 = n := by
  simp [BoundedSemaphore.pad2, str, Nat.ofDigitChars_append]

/-- Different slots have different files. -/
theorem getFilename_injective (self : BoundedSemaphore) {m n : Nat}
    (h : self.getFilename m = self.getFilename n) : m = n := by
  have hjoin : ∀ a b : Path, BoundedSemaphore.joinPath self.directory a =
      BoundedSemaphore.joinPath self.directory b → a = b := by
    intro a b hab
    unfold BoundedSemaphore.joinPath at hab
    split at hab
    · exact hab
    · split at hab
      · exact List.append_cancel_left hab
      · exact (List.cons.inj (List.append_cancel_left hab)).2
  have hname := List.append_cancel_left (List.append_cancel_right (hjoin _ _ h))
  have hpad : BoundedSemaphore.pad2 m = BoundedSemaphore.pad2 n := (List.cons.inj hname).2
  rw [← ofDigitChars_pad2 m, hpad, ofDigitChars_pad2 n]

/-- All instances are semaphores with the maximum, name and directory of `sem`. -/
def SharedSlots (cfg : Config ι) (sem : BoundedSemaphore) : Prop :=
  ∀ p, ∃ self : BoundedSemaphore, cfg.object p = .boundedSemaphore self ∧
    self.maximum = sem.maximum ∧ self.name = sem.name ∧ self.directory = sem.directory

/-- The operations that ask the operating system. -/
def SystemCall : Op ι → Prop
  | .openFile _ _ | .flock _ _ | .unlock _ | .close _ | .sleep _ _ => True
  | _ => False

/-- Only these can raise. -/
def AttributesQuiet (cfg : Config ι) : Prop :=
  ∀ c o e, cfg.mayRaise c o e = true → SystemCall o

/-- The path is the file of a slot. -/
def IsSlot (sem : BoundedSemaphore) (path : Path) : Prop :=
  ∃ n, n < sem.maximum ∧ path = sem.getFilename n

/-! ## The invariant -/

/-- What the semaphores keep. -/
structure SlotsInv (sem : BoundedSemaphore) (w : World ι) : Prop where
  named : ∀ {h}, h ∈ w.opened → w.names h.path = some h.ino
  slot : ∀ {h}, w.lock h ≠ none → IsSlot sem h.path ∧ w.lock h = some .exclusive
  single : ∀ {g h}, w.lock g ≠ none → w.lock h ≠ none → g.owner = h.owner → g = h
  dropped : ∀ {h}, w.dropped h = true → w.lock h = none
  fresh : ∃ bound, ∀ i, bound ≤ i → w.links i = none

/-- No handle of the client is locked, except perhaps this one. -/
def LockedOnly (p : ι) (v : Option (Handle ι Path)) (w : World ι) : Prop :=
  ∀ g, g.owner = p → v ≠ some g → w.lock g = none

/-- Only slots are opened and locked, one at a time; a locked handle is not given
up, nothing is removed, and `acquire` succeeds with a locked handle only. -/
def slotsPre (sem : BoundedSemaphore) (p : ι) (w : World ι) : Op ι → Prop
  | .openFile path _ => IsSlot sem path
  | .flock h flags => flags = .lockMethod ∧ IsSlot sem h.path ∧ LockedOnly p none w ∧
      w.dropped h = false
  | .drop h => w.lock h = none
  | .discardLock => w.fh p = none
  | .unlink _ => False
  | .acquired => ∃ h, w.fh p = some h ∧ w.lock h = some .exclusive
  | _ => True

section Invariant

variable {sem : BoundedSemaphore} {w w' : World ι} {p : ι} {h : Handle ι Path}

/-- Two locked handles on one path are one. -/
theorem SlotsInv.exclusive {g : Handle ι Path} (hw : w.Wf) (hi : SlotsInv sem w)
    (hg : w.lock g ≠ none) (hh : w.lock h ≠ none) (hpath : g.path = h.path) : g = h := by
  have hopen : ∀ {k}, w.lock k ≠ none → k ∈ w.opened := fun hk => by
    obtain ⟨m, hm⟩ := Option.ne_none_iff_exists'.1 hk
    exact hw.fs.opened_of_lock hm
  have hino : g.ino = h.ino :=
    Option.some.inj ((hi.named (hopen hg)).symm.trans (hpath ▸ hi.named (hopen hh)))
  exact hw.fs.lock_exclusive hino (hi.slot hh).2 hg

/-- Closing a handle drops its lock. -/
theorem LockedOnly.closed {w : World ι} {h : Handle ι Path} (hs : LockedOnly p (some h) w)
    (content : List UInt8) : LockedOnly p none ((w.store h content []).discard h) := by
  intro k ho _
  by_cases hkh : k = h
  · simp [hkh]
  · simpa [Function.update_of_ne hkh] using hs k ho fun heq => hkh (Option.some.inj heq).symm

theorem LockedOnly.weaken {w : World ι} (hs : LockedOnly p none w) (v : Option (Handle ι Path)) :
    LockedOnly p v w :=
  fun k ho _ => hs k ho (by simp)

/-- Taking locks away keeps the invariant. -/
theorem SlotsInv.fewer {w' : World ι} (hi : SlotsInv sem w)
    (hopened : ∀ {h}, h ∈ w'.opened → h ∈ w.opened) (hnames : w'.names = w.names)
    (hlinks : w'.links = w.links)
    (hlock : ∀ h, w'.lock h = w.lock h ∨ w'.lock h = none)
    (hdropped : w'.dropped = w.dropped) : SlotsInv sem w' := by
  have hkept : ∀ {k}, w'.lock k ≠ none → w.lock k ≠ none ∧ w'.lock k = w.lock k := by
    intro k hk
    have heq := (hlock k).resolve_right hk
    exact ⟨heq ▸ hk, heq⟩
  constructor
  · intro h hh
    rw [hnames]
    exact hi.named (hopened hh)
  · intro h hh
    obtain ⟨hold, heq⟩ := hkept hh
    rw [heq]
    exact hi.slot hold
  · exact fun hg hh ho => hi.single (hkept hg).1 (hkept hh).1 ho
  · intro h hd
    rw [hdropped] at hd
    rcases hlock h with heq | heq
    · rw [heq]
      exact hi.dropped hd
    · exact heq
  · rw [hlinks]
    exact hi.fresh

theorem SlotsInv.opens {path : Path} {i : Nat} (hi : SlotsInv sem w) (hn : w.names path = some i) :
    SlotsInv sem (w.openAt p path i) := by
  refine ⟨?_, hi.slot, hi.single, hi.dropped, hi.fresh⟩
  intro h hh
  simp only [openAt_toFs, Fs.openAt_opened, List.mem_cons] at hh
  rcases hh with rfl | hh
  · exact hn
  · exact hi.named hh

theorem SlotsInv.creates {path : Path} {i : Nat} {creator : Option ι} (hi : SlotsInv sem w)
    (hn : w.names path = none) : SlotsInv sem (w.create path i creator) := by
  refine ⟨?_, hi.slot, hi.single, hi.dropped, ?_⟩
  · intro h hh
    have hnamed := hi.named hh
    have hne : h.path ≠ path := fun heq => by
      rw [heq, hn] at hnamed
      cases hnamed
    simpa [Function.update_of_ne hne] using hnamed
  · obtain ⟨bound, hbound⟩ := hi.fresh
    refine ⟨max bound (i + 1), fun j hj => ?_⟩
    have hne : j ≠ i := by omega
    simpa [Function.update_of_ne hne] using hbound j (by omega)

/-- One permitted operation keeps the invariant. -/
theorem SlotsInv.change {cfg : Config ι} {o : Op ι} (hi : SlotsInv sem w) (hown : Own p w o)
    (hpre : slotsPre sem p w o) (hc : Change cfg p w o w') : SlotsInv sem w' := by
  cases hc with
  | same | setFh | setInnerLock | setAcquiredLock | setAcquireCount | acquired | readPidCalled
    | readPidReturns =>
      exact ⟨hi.named, hi.slot, hi.single, hi.dropped, hi.fresh⟩
  | compare => exact ⟨hi.named, hi.slot, hi.single, hi.dropped, hi.fresh⟩
  | seek g ho | flush g ho | truncate g ho | write g bytes bufferSize n ho hn =>
      exact ⟨hi.named, hi.slot, hi.single, hi.dropped, hi.fresh⟩
  | unlink path i hn => exact hpre.elim
  | discardLock =>
      refine ⟨hi.named, hi.slot, hi.single, ?_, hi.fresh⟩
      intro h hd
      have hnone : w.fh p = none := hpre
      exact hi.dropped (by simpa [hnone] using hd)
  | drop g =>
      refine ⟨hi.named, hi.slot, hi.single, ?_, hi.fresh⟩
      intro h hd
      by_cases hne : h = g
      · exact hne ▸ hpre
      · exact hi.dropped (by simpa [Function.update_of_ne hne] using hd)
  | openAt path kind i hn => exact hi.opens hn
  | openEmptied path i hn => exact absurd rfl hown
  | create path kind i hn hfresh hkind => exact (hi.creates hn).opens (by simp)
  | lock g flags mode hm ho hc =>
      obtain ⟨rfl, hslot, honly, hundropped⟩ := hpre
      obtain rfl : mode = .exclusive := by simpa [LockFlags.mode, LockFlags.lockMethod] using hm.symm
      have hother : ∀ {k}, k ≠ g → (w.lockHandle g .exclusive).lock k = w.lock k :=
        fun hne => by simp [Function.update_of_ne hne]
      refine ⟨hi.named, ?_, ?_, ?_, hi.fresh⟩
      · intro h hh
        by_cases hne : h = g
        · exact ⟨hne ▸ hslot, by simp [hne]⟩
        · rw [hother hne] at hh ⊢
          exact hi.slot hh
      · intro h k hh hk hok
        -- no other handle of this client is locked
        have hfree : ∀ {l : Handle ι Path}, l ≠ g → l.owner = p →
            (w.lockHandle g .exclusive).lock l = none := fun hne ho => by
          rw [hother hne]
          exact honly _ ho (by simp)
        by_cases hh' : h = g <;> by_cases hk' : k = g
        · rw [hh', hk']
        · exact absurd (hfree hk' (hok ▸ hh' ▸ hown)) hk
        · exact absurd (hfree hh' (hok.trans (hk' ▸ hown))) hh
        · rw [hother hh'] at hh
          rw [hother hk'] at hk
          exact hi.single hh hk hok
      · intro h hd
        by_cases hne : h = g
        · rw [hne] at hd
          exact absurd (hundropped.symm.trans hd) (by simp)
        · rw [hother hne]
          exact hi.dropped hd
  | unlock g ho =>
      refine hi.fewer (fun h => h) rfl rfl (fun h => ?_) rfl
      by_cases hne : h = g
      · exact Or.inr (by simp [hne])
      · exact Or.inl (by simp [Function.update_of_ne hne])
  | close g ho content hcontent =>
      refine hi.fewer (fun h => (List.mem_filter.1 h).1) rfl rfl (fun h => ?_) rfl
      by_cases hne : h = g
      · exact Or.inr (by simp [hne])
      · exact Or.inl (by simp [Function.update_of_ne hne])

end Invariant

/-! ## The contract -/

/-- What an instance can count on between its calls: it has no lock beyond that of
its stored handle, and one that has let go of its slot stores none. -/
structure SlotAtRest (p : ι) (w : World ι) : Prop where
  only : LockedOnly p (w.fh p) w
  inner : w.inner p = false → w.fh p = none
  held : w.held p = false → w.inner p = false

/-- The contract of semaphores: nobody locks another's handles. -/
def slotsContract (cfg : Config ι) (sem : BoundedSemaphore) (g : Guard (machine cfg)) :
    Contract cfg g where
  inv := SlotsInv sem
  rely p w w' := ∀ h : Handle ι Path, h.owner = p → w.lock h = none → w'.lock h = none
  pre p _ w o := slotsPre sem p w o
  idle := SlotAtRest
  rely_refl _ _ := fun _ _ h => h
  rely_trans := fun _ h₁ h₂ h ho hl => h₂ h ho (h₁ h ho hl)
  inv_change := fun _ hi hown hpre _ hc => hi.change hown hpre hc
  rely_change := by
    intro p c o w w' hw hi hown hpre _ hc q hq h ho hl
    cases hc with
    | lock g flags mode hm ho' hc' =>
        have hne : h ≠ g := fun heq => hq (ho.symm.trans (heq ▸ hown))
        simpa [Function.update_of_ne hne] using hl
    | unlock g ho' =>
        simp only [unlockHandle_toFs, Fs.setLock_lock, Function.update_apply]
        split
        · rfl
        · exact hl
    | close g ho' content hcontent =>
        simp only [discard_toFs, Fs.discard_lock, Function.update_apply]
        split
        · rfl
        · exact hl
    | _ => exact hl
  inv_finalize := by
    intro e w w' hw hi he
    obtain ⟨ho, hd, rfl⟩ := Config.finalize_cases he
    refine hi.fewer (fun h => (List.mem_filter.1 h).1) rfl rfl (fun h => ?_) rfl
    by_cases hne : h = e.handle
    · exact Or.inr (by simp [hne])
    · exact Or.inl (by simp [Function.update_of_ne hne])
  rely_finalize := by
    intro e w w' hw hi he q h _ hl
    obtain ⟨ho, hd, rfl⟩ := Config.finalize_cases he
    simp only [discard_toFs, Fs.discard_lock, Function.update_apply]
    split
    · rfl
    · exact hl
  idle_stable := by
    intro p w w' _ _ _ hu hr hidle
    refine ⟨fun g ho hne => ?_, fun hinner => ?_, fun hheld => ?_⟩
    · exact hr g ho (hidle.only g ho (hu.fh ▸ hne))
    · exact hu.fh.trans (hidle.inner (hu.inner ▸ hinner))
    · exact hu.inner.trans (hidle.held (hu.held ▸ hheld))

end Portalocker
