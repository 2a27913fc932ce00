import Portalocker.Utils.Capacity
set_option autoImplicit false
set_option linter.unusedSectionVars false

/-!
# Who waits for whom

A lock whose flags leave out `NON_BLOCKING` waits in the system call.  No instance of any
lock class waits there while it has another lock: of the file objects that it has not
given up, only the one it stores is ever locked, and it locks a new one only when none is.
So nobody waits for somebody who waits: whoever is stuck, is so because of a lock that an
idle instance has, or that a client has which can go on, or that the next garbage
collection drops.
-/

namespace Portalocker

open Posix Interleaving Interleaving.Machine World Contract

variable {ι : Type} [DecidableEq ι]

namespace Waiting

/-! ## The contract -/

/-- Giving up a reference does not raise. -/
def DropsQuiet (cfg : Config ι) : Prop := ∀ c h e, cfg.mayRaise c (.drop h) e = false

/-- Of the file objects that the client has not given up, at most this one is locked. -/
def LocksOnly (p : ι) (u : Option (Handle ι Path)) (w : World ι) : Prop :=
  ∀ k, k.owner = p → w.dropped k = false → u ≠ some k → w.lock k = none

/-- The kind of lock an instance asks for. -/
def lockMode : Instance → Option LockMode
  | .lock self => self.flags.mode
  | .rLock self => self.flags.mode
  | .temporaryFileLock self => self.flags.mode
  | .pidFileLock _ => LockFlags.lockMethod.mode
  | .boundedSemaphore _ => LockFlags.lockMethod.mode

/-- A `Lock` on the file of the instance, of the kind it asks for. -/
def Fits (x : Instance) (self : Lock) : Prop :=
  (∀ path, x.lockPath = some path → self.filename = path) ∧ self.flags.mode = lockMode x

/-- What is stored is a file of the instance, and what is locked is locked as it asks. -/
structure Faithful (cfg : Config ι) (w : World ι) : Prop where
  stored : ∀ {p h path}, w.fh p = some h → (cfg.object p).lockPath = some path → h.path = path
  locked : ∀ {h m}, w.lock h = some m → lockMode (cfg.object h.owner) = some m

/-- A file is locked only while no other is, and as the instance asks; only a file of the
instance is stored. -/
def waitingPre (cfg : Config ι) (p : ι) (w : World ι) : Op ι → Prop
  | .flock _ flags => LocksOnly p none w ∧ flags.mode = lockMode (cfg.object p)
  | .setFh v => ∀ h path, v = some h → (cfg.object p).lockPath = some path → h.path = path
  | _ => True

section Locks

variable {w w' : World ι} {p : ι} {u v : Option (Handle ι Path)} {h : Handle ι Path}

/-- What the client has not given up now, it had not given up before. -/
theorem LocksOnly.keep (hu : Undisturbed p w w')
    (hr : ∀ k : Handle ι Path, k.owner = p → w.dropped k = true → w'.dropped k = true)
    (hs : LocksOnly p u w) : LocksOnly p u w' := by
  intro k ho hd hne
  have hkept : w.dropped k = false :=
    Bool.eq_false_iff.2 fun h => absurd ((hr k ho h).symm.trans hd) (by simp)
  exact (hu.handle k ho hkept).file.lock.trans (hs k ho hkept hne)

theorem LocksOnly.weaken (hs : LocksOnly p none w) (u : Option (Handle ι Path)) :
    LocksOnly p u w :=
  fun k ho hd _ => hs k ho hd (by simp)

/-- Locks that are dropped, and handles that are forgotten, leave the rest as it is. -/
theorem Faithful.fewer {cfg : Config ι} (hi : Faithful cfg w)
    (hfh : ∀ {q k}, w'.fh q = some k → w.fh q = some k)
    (hlock : ∀ {k m}, w'.lock k = some m → w.lock k = some m) : Faithful cfg w' :=
  ⟨fun hstored hpath => hi.stored (hfh hstored) hpath, fun hlocked => hi.locked (hlock hlocked)⟩

theorem Faithful.change {cfg : Config ι} {o : Op ι} (hi : Faithful cfg w) (hown : Own p w o)
    (hpre : waitingPre cfg p w o) (hc : Change cfg p w o w') : Faithful cfg w' := by
  cases hc with
  | setFh v =>
      refine ⟨fun {q k path} hstored hpath => ?_, hi.locked⟩
      by_cases hq : q = p
      · subst hq
        exact hpre k path (by simpa using hstored) hpath
      · exact hi.stored (by simpa [Function.update_of_ne hq] using hstored) hpath
  | discardLock =>
      refine hi.fewer (fun {q k} hstored => ?_) fun hlock => hlock
      by_cases hq : q = p
      · simp [hq] at hstored
      · simpa [Function.update_of_ne hq] using hstored
  | lock h flags mode hm ho hfree =>
      refine ⟨hi.stored, fun {k m} hlocked => ?_⟩
      by_cases hk : k = h
      · have hmode : mode = m := by simpa [hk] using hlocked
        have howner : h.owner = p := hown
        rw [hk, howner, ← hpre.2, hm, hmode]
      · exact hi.locked (by simpa [Function.update_of_ne hk] using hlocked)
  | unlock h ho =>
      refine hi.fewer (fun hstored => hstored) fun {k m} hlocked => ?_
      by_cases hk : k = h
      · simp [hk] at hlocked
      · simpa [Function.update_of_ne hk] using hlocked
  | close h ho content hcontent =>
      refine hi.fewer (fun hstored => hstored) fun {k m} hlocked => ?_
      by_cases hk : k = h
      · simp [hk] at hlocked
      · simpa [Function.update_of_ne hk] using hlocked
  | _ => exact ⟨hi.stored, hi.locked⟩

theorem Faithful.discard {cfg : Config ι} {content : List UInt8} (hi : Faithful cfg w) :
    Faithful cfg ((w.store h content []).discard h) := by
  refine hi.fewer (fun hstored => hstored) fun {k m} hlocked => ?_
  by_cases hk : k = h
  · simp [hk] at hlocked
  · simpa [Function.update_of_ne hk] using hlocked

theorem Unclaimed.faithful {cfg : Config ι} (h : Unclaimed w) : Faithful cfg w :=
  ⟨fun hstored => by simp [h.fh] at hstored, fun hlocked => by simp [h.unlocked] at hlocked⟩

end Locks

/-- The contract: nobody takes up what has been given up. -/
def waitingContract (cfg : Config ι) (g : Guard (machine cfg)) : Contract cfg g where
  inv w := (∃ bound, ∀ i, bound ≤ i → w.links i = none) ∧ Faithful cfg w
  rely p w w' := ∀ k : Handle ι Path, k.owner = p → w.dropped k = true → w'.dropped k = true
  pre p _ w o := waitingPre cfg p w o
  idle p w := LocksOnly p (w.fh p) w
  rely_refl _ _ := fun _ _ h => h
  rely_trans := fun _ h₁ h₂ k ho hd => h₂ k ho (h₁ k ho hd)
  inv_change := by
    rintro p c o w w' - ⟨⟨bound, hbound⟩, hi⟩ hown hpre - hc
    refine ⟨?_, hi.change hown hpre hc⟩
    cases hc with
    | create path kind i hn hi hkind =>
        refine ⟨max bound (i + 1), fun j hj => ?_⟩
        have hne : j ≠ i := by omega
        simpa [Function.update_of_ne hne] using hbound j (by omega)
    | unlink path i hn =>
        refine ⟨bound, fun j hj => ?_⟩
        simp [hbound j hj]
    | _ => exact ⟨bound, hbound⟩
  rely_change := by
    intro p c o w w' _ _ _ _ _ hc q _ k _ hd
    cases hc with
    | discardLock => simp [hd]
    | drop h =>
        by_cases hk : k = h
        · simp [hk]
        · simpa [Function.update_of_ne hk] using hd
    | _ => exact hd
  inv_finalize := by
    rintro e w w' - hi he
    obtain ⟨-, -, rfl⟩ := Config.finalize_cases he
    exact ⟨hi.1, hi.2.discard⟩
  rely_finalize := by
    intro e w w' _ _ he q k _ hd
    obtain ⟨-, -, rfl⟩ := Config.finalize_cases he
    exact hd
  idle_stable := fun _ _ _ hu hr hidle => hu.fh ▸ LocksOnly.keep hu hr hidle

section Triples

variable {cfg : Config ι} {g : Guard (machine cfg)} {p : ι} {c : Call}
  {u v : Option (Handle ι Path)} {n : Nat} {α : Type}

/-- A triple under the contract. -/
abbrev WaitTriple (cfg : Config ι) (g : Guard (machine cfg)) (p : ι) (c : Call) {α : Type}
    (P : World ι → Prop) (x : Py ι α) (Q : α → World ι → Prop) (E : Exc → World ι → Prop) : Prop :=
  (waitingContract cfg g).Triple p c P x Q E

/-! ## Assertions -/

/-- The client stores `v`, has at most `u` locked, and has opened `n` files or more. -/
def Stands (p : ι) (v u : Option (Handle ι Path)) (n : Nat) (w : World ι) : Prop :=
  w.fh p = v ∧ LocksOnly p u w ∧ n ≤ w.serial p

/-- Only what the client stores is locked. -/
def Rest (p : ι) (w : World ι) : Prop := LocksOnly p (w.fh p) w

/-- The client has opened this file and stores none; `u` may be locked. -/
def Has (p : ι) (h : Handle ι Path) (u : Option (Handle ι Path)) (w : World ι) : Prop :=
  Stands p none u (h.serial + 1) w ∧ Opened p h w

instance stable_stands : ((waitingContract cfg g).ctx p c).Stable (Stands p v u n) :=
  stable_of fun _ _ _ hu hr hs =>
    ⟨hu.fh.trans hs.1, hs.2.1.keep hu hr, hu.serial ▸ hs.2.2⟩

instance stable_rest : ((waitingContract cfg g).ctx p c).Stable (Rest p) :=
  stable_of fun _ _ _ hu hr hs => by
    unfold Rest
    rw [hu.fh]
    exact LocksOnly.keep hu hr hs

instance stable_has (h : Handle ι Path) : ((waitingContract cfg g).ctx p c).Stable (Has p h u) :=
  inferInstanceAs (Context.Stable _ fun _ => _ ∧ _)

section Assertions

variable {w : World ι} {h : Handle ι Path}

theorem Stands.weaken (hs : Stands p v none n w) (u : Option (Handle ι Path)) : Stands p v u n w :=
  ⟨hs.1, hs.2.1.weaken u, hs.2.2⟩

theorem Stands.rest (hs : Stands p v v n w) : Rest p w := by
  unfold Rest
  rw [hs.1]
  exact hs.2.1

/-- It stands so from the beginning. -/
theorem Rest.stands (hs : Rest p w) : Stands p (w.fh p) (w.fh p) 0 w := ⟨rfl, hs, Nat.zero_le _⟩

end Assertions

/-! ## Operations that touch no lock -/

/-- The operation concerns no lock, no reference and no stored file object. -/
def Calm (p : ι) : Op ι → Prop
  | .setFh _ | .discardLock | .drop _ | .flock _ _ | .unlock _ | .close _ => False
  | .openFile _ kind => kind ≠ .write
  | .seek h | .truncate h | .flush h | .write h _ _ => h.owner = p
  | _ => True

/-- What such operations leave as it is. -/
structure Calmly (p : ι) (w w' : World ι) : Prop where
  fh : w'.fh p = w.fh p
  dropped : w'.dropped = w.dropped
  lock : w'.lock = w.lock
  serial : w.serial p ≤ w'.serial p
  opened : ∀ h ∈ w.opened, h ∈ w'.opened

theorem calmly_of_change {w w' : World ι} {o : Op ι} (ho : Calm p o) (hc : Change cfg p w o w') :
    Calmly p w w' := by
  cases hc with
  | setFh | discardLock | drop | lock | unlock | close => exact ho.elim
  | openEmptied path i hn => exact absurd rfl ho
  | openAt path kind i hn =>
      exact ⟨rfl, rfl, rfl, by simp, fun h hh => List.mem_cons_of_mem _ hh⟩
  | create path kind i hn hi hkind =>
      exact ⟨rfl, rfl, rfl, by simp, fun h hh => List.mem_cons_of_mem _ hh⟩
  | _ => exact ⟨rfl, rfl, rfl, Nat.le_refl _, fun _ hh => hh⟩

theorem Stands.calmly {w w' : World ι} (hs : Stands p v u n w) (h : Calmly p w w') :
    Stands p v u n w' := by
  refine ⟨h.fh.trans hs.1, ?_, hs.2.2.trans h.serial⟩
  intro k ho hd hne
  rw [h.lock]
  exact hs.2.1 k ho (h.dropped ▸ hd) hne

theorem Has.calmly {w w' : World ι} {h : Handle ι Path} (hs : Has p h u w) (hc : Calmly p w w') :
    Has p h u w' :=
  ⟨hs.1.calmly hc, hs.2.1, hc.dropped ▸ hs.2.2.1, hc.opened h hs.2.2.2⟩

theorem Rest.calmly {w w' : World ι} (hs : Rest p w) (h : Calmly p w w') : Rest p w' := by
  have hstands := hs.stands.calmly h
  rw [← h.fh] at hstands
  exact hstands.rest

/-- Code of such operations keeps what they keep. -/
theorem calm_code {P : World ι → Prop} [((waitingContract cfg g).ctx p c).Stable P] {x : Py ι α}
    (hx : Code.Within (Calm p) x) (hP : ∀ {w w'}, P w → Calmly p w w' → P w') :
    WaitTriple cfg g p c P x (fun _ => P) fun _ => P := by
  refine Hoare.within hx ?_
  intro w o hw hp ho
  refine ⟨⟨?_, ?_⟩, ?_⟩
  · cases o with
    | setFh | discardLock | drop | flock | unlock | close => exact ho.elim
    | _ => exact ho
  · cases o with
    | flock | setFh => exact ho.elim
    | _ => trivial
  · rintro r w' ⟨-, choice, h⟩
    exact hP hp (calmly_of_change ho (Config.performOp_change h))

theorem calm_stands {x : Py ι α} (hx : Code.Within (Calm p) x) :
    WaitTriple cfg g p c (Stands p v u n) x (fun _ => Stands p v u n) fun _ => Stands p v u n :=
  calm_code hx Stands.calmly

theorem calm_rest {x : Py ι α} (hx : Code.Within (Calm p) x) :
    WaitTriple cfg g p c (Rest p) x (fun _ => Rest p) fun _ => Rest p :=
  calm_code hx Rest.calmly

/-- The stored file object. -/
theorem fh_waits : WaitTriple cfg g p c (Rest p) (perform .fh)
    (fun v => Stands p v v 0) fun _ => Rest p := by
  refine (fh_rule (K := waitingContract cfg g) (P := Rest p) (E := fun _ => Rest p)
    (fun _ => trivial) fun _ _ hs _ => hs).of_post ?_
  rintro v w - ⟨rfl, hs⟩
  exact hs.stands

/-! ## Operations on locks -/

/-- A file is opened; it is not the one that is stored. -/
theorem openFile_waits {path : Path} {kind : OpenKind} (hkind : kind ≠ .write) :
    WaitTriple cfg g p c (Stands p v u n) (perform (.openFile path kind))
      (fun h w => (v ≠ some h ∧ h.path = path) ∧ Stands p v u (h.serial + 1) w ∧ Opened p h w)
      fun _ => Stands p v u n := by
  refine perform_rule (fun w _ _ _ => ⟨hkind, trivial⟩) ?_ fun w e _ _ hs _ => hs
  rintro w choice r w' hw - - - hs hact
  have hchange := Config.act_change hact
  have hkept : Stands p v u n w' := 
    hs.calmly (calmly_of_change (o := .openFile path kind) hkind hchange)
  -- the number of the file is that of the files opened before
  have hnew : ∀ {i}, v ≠ some (w.handle p path i) := by
    intro i heq
    have hlt := hw.fh_serial (hs.1.trans heq)
    simp at hlt
  have hundropped : ∀ {i}, w.dropped (w.handle p path i) = false := by
    intro i
    apply Bool.eq_false_iff.2
    intro hd
    have hlt := hw.dropped_serial hd
    simp at hlt
  simp only [Config.act] at hact
  split at hact
  · split at hact
    · simp only [Option.some.injEq, Prod.mk.injEq] at hact
      obtain ⟨rfl, -⟩ := hact
      exact hkept
    · exact absurd rfl hkind
    · simp only [Option.some.injEq, Prod.mk.injEq] at hact
      obtain ⟨rfl, rfl⟩ := hact
      exact ⟨⟨hnew, rfl⟩, ⟨hkept.1, hkept.2.1, by simp⟩, rfl, hundropped, List.mem_cons_self ..⟩
  · split at hact
    · simp only [Option.some.injEq, Prod.mk.injEq] at hact
      obtain ⟨rfl, -⟩ := hact
      exact hkept
    · simp only [Option.ite_none_right_eq_some, Option.some.injEq, Prod.mk.injEq] at hact
      obtain ⟨-, rfl, rfl⟩ := hact
      exact ⟨⟨hnew, rfl⟩, ⟨hkept.1, hkept.2.1, by simp⟩, rfl, hundropped, List.mem_cons_self ..⟩

/-- The system call: it locks, or nothing changes. -/
theorem flock_waits (h : Handle ι Path) {flags : LockFlags}
    (hmode : flags.mode = lockMode (cfg.object p)) :
    WaitTriple cfg g p c (Has p h none) (perform (.flock h flags))
      (fun _ => Has p h (some h)) fun _ => Has p h none := by
  refine perform_rule (fun w _ _ hs => ⟨hs.2.1, hs.1.2.1, hmode⟩) ?_ fun w e _ _ hs _ => hs
  rintro w choice r w' - - - - hs hact
  cases r with
  | error e =>
      rw [Config.act_error hact]
      exact hs
  | ok a =>
      have hlocks : ∀ {w' : World ι}, (∀ k, k ≠ h → w'.lock k = w.lock k) →
          w'.dropped = w.dropped → LocksOnly p (some h) w' := by
        intro w' hsame hdropped k ho hd hne
        have hkh : k ≠ h := fun heq => hne (heq ▸ rfl)
        rw [hsame k hkh]
        exact hs.1.2.1 k ho (hdropped ▸ hd) (by simp)
      cases Config.act_change hact with
      | same => exact ⟨hs.1.weaken _, hs.2⟩
      | lock _ _ mode hm ho hfree =>
          refine ⟨⟨hs.1.1, hlocks (fun k hk => ?_) rfl, hs.1.2.2⟩, hs.2⟩
          simp [Function.update_of_ne hk]

/-- Unlocking locks nothing. -/
theorem unlock_waits {h : Handle ι Path} (ho : h.owner = p) :
    WaitTriple cfg g p c (Stands p v u n) (perform (.unlock h)) (fun _ => Stands p v u n)
      fun _ => Stands p v u n := by
  have hkept : ∀ {w w' : World ι}, Stands p v u n w → Change cfg p w (.unlock h) w' →
      Stands p v u n w' := by
    intro w w' hs hc
    cases hc with
    | same => exact hs
    | unlock _ hopen =>
        refine ⟨hs.1, fun k hk hd hne => ?_, hs.2.2⟩
        by_cases hkh : k = h
        · simp [hkh]
        · simpa [Function.update_of_ne hkh] using hs.2.1 k hk hd hne
  refine perform_rule (fun _ _ _ _ => ⟨ho, trivial⟩) ?_
    fun w e _ _ hs _ => hkept hs (Config.afterFault_change w _)
  rintro w choice r w' - - - - hs hact
  have hs' := hkept hs (Config.act_change hact)
  cases r with
  | ok a => exact hs'
  | error e => exact hs'

/-- Closing a file drops its lock, whatever becomes of the call. -/
theorem close_waits {h : Handle ι Path} {u' : Option (Handle ι Path)} (ho : h.owner = p)
    (hu : ∀ k, u' ≠ some k → k = h ∨ u ≠ some k) :
    WaitTriple cfg g p c (Stands p v u n) (perform (.close h)) (fun _ => Stands p v u' n)
      fun _ => Stands p v u' n := by
  have hshut : ∀ {w : World ι} {content}, Stands p v u n w →
      Stands p v u' n ((w.store h content []).discard h) := by
    intro w content hs
    refine ⟨hs.1, fun k hk hd hne => ?_, hs.2.2⟩
    by_cases hkh : k = h
    · simp [hkh]
    · simpa [Function.update_of_ne hkh] using hs.2.1 k hk hd ((hu k hne).resolve_left hkh)
  have hsame : ∀ {w : World ι}, w.Wf → h ∉ w.opened → Stands p v u n w → Stands p v u' n w := by
    intro w hw hclosed hs
    refine ⟨hs.1, fun k hk hd hne => ?_, hs.2.2⟩
    rcases hu k hne with rfl | hother
    · exact hw.fs.lock_open hclosed
    · exact hs.2.1 k hk hd hother
  refine perform_rule (fun _ _ _ _ => ⟨ho, trivial⟩) ?_ ?_
  · rintro w choice r w' hw - - - hs hact
    simp only [Config.act] at hact
    split at hact <;>
      (simp only [Option.some.injEq, Prod.mk.injEq] at hact; obtain ⟨rfl, rfl⟩ := hact)
    · exact hshut hs
    · exact hsame hw ‹_› hs
  · intro w e hw _ hs _
    simp only [Config.afterFault]
    split
    · exact hshut hs
    · exact hsame hw ‹_› hs

/-- The file object is stored. -/
theorem setFh_waits (h : Handle ι Path)
    (hfile : ∀ path, (cfg.object p).lockPath = some path → h.path = path) :
    WaitTriple cfg g p c (Has p h (some h)) (perform (.setFh (some h)))
      (fun _ => Stands p (some h) (some h) 0) fun _ => Has p h (some h) := by
  refine perform_rule ?_ ?_ fun w e _ _ hs _ => hs
  · intro w _ _ hs
    refine ⟨fun k hk => ?_, fun k path hk => ?_⟩ <;> obtain rfl := Option.some.inj hk
    · exact ⟨hs.2.1, hs.2.2.2, hs.2.2.1⟩
    · exact hfile path
  · rintro w choice r w' - - - - hs hact
    simp only [Config.act, Option.some.injEq, Prod.mk.injEq] at hact
    obtain ⟨rfl, rfl⟩ := hact
    exact ⟨Function.update_self .., hs.1.2.1, Nat.zero_le _⟩

/-- It is forgotten after it has been closed. -/
theorem forget_waits :
    WaitTriple cfg g p c (Stands p v none n) (perform (.setFh none))
      (fun _ => Stands p none none n) fun _ => Stands p v none n := by
  refine perform_rule (fun w _ _ _ => ⟨(fun k hk => by cases hk), fun k path hk => by cases hk⟩) ?_
    fun w e _ _ hs _ => hs
  rintro w choice r w' - - - - hs hact
  simp only [Config.act, Option.some.injEq, Prod.mk.injEq] at hact
  obtain ⟨rfl, rfl⟩ := hact
  exact ⟨Function.update_self .., hs.2.1, hs.2.2⟩

/-- The inner lock is given up, and the file object it stores with it. -/
theorem discardLock_waits :
    WaitTriple cfg g p c (Rest p) (perform .discardLock) (fun _ => Stands p none none 0)
      fun _ => Rest p := by
  refine perform_rule (fun w _ _ _ => ⟨trivial, trivial⟩) ?_ fun w e _ _ hs _ => hs
  rintro w choice r w' - - - - hs hact
  simp only [Config.act, Option.some.injEq, Prod.mk.injEq] at hact
  obtain ⟨rfl, rfl⟩ := hact
  refine ⟨Function.update_self .., fun k ho hd _ => ?_, Nat.zero_le _⟩
  simp only [discardLock_dropped, Bool.or_eq_false_iff, decide_eq_false_iff_not] at hd
  exact hs k ho hd.1 hd.2

/-- A file object is given up, and counts no more. -/
theorem drop_waits (hquiet : DropsQuiet cfg) {h : Handle ι Path} {u' : Option (Handle ι Path)}
    {E : Exc → World ι → Prop} [∀ e, ((waitingContract cfg g).ctx p c).Stable (E e)]
    (ho : h.owner = p) (hn : h.serial < n) (hv : v ≠ some h)
    (hu : ∀ k, u' ≠ some k → k = h ∨ u ≠ some k) :
    WaitTriple cfg g p c (Stands p v u n) (perform (.drop h)) (fun _ => Stands p v u' n) E := by
  refine perform_rule ?_ ?_ fun w e _ _ _ he => absurd he (by simp [hquiet c h e])
  · intro w _ _ hs
    exact ⟨⟨ho, hn.trans_le hs.2.2, fun heq => hv (hs.1.symm.trans heq)⟩, trivial⟩
  · rintro w choice r w' - - - - hs hact
    simp only [Config.act, Option.some.injEq, Prod.mk.injEq] at hact
    obtain ⟨rfl, rfl⟩ := hact
    refine ⟨hs.1, fun k hk hd hne => ?_, hs.2.2⟩
    have hkh : k ≠ h := by
      rintro rfl
      simp at hd
    have hd' : w.dropped k = false := by simpa [Function.update_of_ne hkh] using hd
    exact hs.2.1 k hk hd' ((hu k hne).resolve_left hkh)

/-- Nothing is left locked when the only locked file goes. -/
theorem gone_of_eq (h k : Handle ι Path) : none ≠ some k → k = h ∨ some h ≠ some k := by
  intro _
  by_cases hkh : k = h
  · exact Or.inl hkh
  · exact Or.inr fun heq => hkh (Option.some.inj heq).symm

end Triples

end Waiting

end Portalocker
