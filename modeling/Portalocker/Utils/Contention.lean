import Portalocker.Utils.Contract
set_option autoImplicit false
set_option linter.unusedSectionVars false

/-!
# What an acquisition does to the content of a file

A `Lock` opens its file before it locks it, in a mode without a `w`, and empties it
only when it has the lock.  The contract of `Lock`s says so of every operation.  Then
the run is recorded call by call: the answer to the latest lock attempt, and whether an
acquisition has changed the content of a file that was there.  Every operation may raise
anything, and clients may write through the handles they hold.
-/

namespace Portalocker

open Posix Interleaving Interleaving.Machine World Contract

variable {ι : Type} [DecidableEq ι]

/-! ## The contract -/

/-- The content of the file a path names. -/
def World.fileContent (w : World ι) (path : Path) : Option (List UInt8) :=
  (w.names path).map w.data

/-- A file that was there has other content, or is gone. -/
def ContentChanged (path : Path) (w w' : World ι) : Prop :=
  w.fileContent path ≠ none ∧ w'.fileContent path ≠ w.fileContent path

instance (path : Path) (w w' : World ι) : Decidable (ContentChanged path w w') :=
  inferInstanceAs (Decidable (_ ∧ _))

/-- All instances are `Lock`s. -/
def AllLocks (cfg : Config ι) : Prop := ∀ p, ∃ self : Lock, cfg.object p = .lock self

/-- They have the default flags. -/
def DefaultFlags (cfg : Config ι) : Prop :=
  ∀ p self, cfg.object p = .lock self → self.flags = .lockMethod

/-- An acquisition locks a file as its flags say, empties it only when it has locked
it, and writes nothing. -/
def contentPre (cfg : Config ι) (p : ι) (c : Call) (w : World ι) : Op ι → Prop
  | .drop h => w.buffer h = []
  | .discardLock | .unlink _ => False
  | .write h _ _ => c.acquires = false ∧ w.dropped h = false
  | .seek h | .flush h | .close h => c.acquires = true → w.buffer h = []
  | .flock _ flags => ∀ self, cfg.object p = .lock self → flags = self.flags
  | .truncate h => w.lock h ≠ none
  | _ => True

/-- No bytes wait in the buffer of a dropped handle. -/
def DroppedEmpty (w : World ι) : Prop := ∀ h, w.dropped h = true → w.buffer h = []

/-- Handles are locked as the flags of their instances say. -/
def LockedAsked (cfg : Config ι) (w : World ι) : Prop :=
  ∀ h m self, w.lock h = some m → cfg.object h.owner = .lock self → self.flags.mode = some m

section Step

variable {cfg : Config ι} {path : Path} {p q : ι} {c : Call} {w w' : World ι} {o : Op ι}

/-- Storing what is there already changes nothing. -/
theorem content_store {h : Handle ι Path} {bytes : List UInt8} (hb : w.buffer h = [])
    (hbytes : bytes = w.data h.ino ++ w.buffer h ∨ bytes = w.data h.ino) :
    (w.store h bytes []).fileContent path = w.fileContent path := by
  have heq : bytes = w.data h.ino := by simpa [hb] using hbytes
  have hdata : (w.store h bytes []).data = w.data := by
    rw [heq]
    exact Function.update_eq_self h.ino w.data
  exact congrArg (fun data => (w.names path).map data) hdata

/-- A new file is not one that was there. -/
theorem content_create {path' : Path} {i : Nat} {bytes : List UInt8} (hw : w.Wf)
    (hn : w.names path' = none) (hi : w.Fresh i) (h : w.fileContent path = some bytes)
    (creator : Option ι) : (w.create path' i creator).fileContent path = some bytes := by
  obtain ⟨j, hj, rfl⟩ := Option.map_eq_some_iff.1 h
  have hpath : path ≠ path' := fun heq => by
    rw [heq, hn] at hj
    cases hj
  have hji : j ≠ i := fun heq => by
    have hlink := hw.fs.names_links.1 hj
    rw [heq, hi.1] at hlink
    cases hlink
  simp [fileContent, Function.update_of_ne hpath, hj, Function.update_of_ne hji]

/-- Among the operations an acquisition is permitted only `truncate` changes the
content of a file. -/
theorem truncate_of_contentChanged (hw : w.Wf) (hown : Own p w o)
    (hpre : contentPre cfg p c w o) (hc : Change cfg p w o w') (hacquires : c.acquires = true)
    (hchanged : ContentChanged path w w') :
    ∃ h, o = .truncate h ∧ w.names path = some h.ino := by
  obtain ⟨hthere, hne⟩ := hchanged
  cases hc with
  | openEmptied path' i hn => exact absurd rfl hown
  | create path' kind i hn hi hkind =>
      obtain ⟨bytes, hbytes⟩ := Option.ne_none_iff_exists'.1 hthere
      refine absurd (Eq.trans ?_ hbytes.symm) hne
      exact content_create hw hn hi hbytes (if (cfg.object p).pidPath = some path' then some p else none)
  | close h ho content hcontent => exact absurd (content_store (hpre hacquires) hcontent) hne
  | seek h ho | flush h ho =>
      exact absurd (content_store (hpre hacquires) (Or.inl rfl)) hne
  | truncate h ho =>
      refine ⟨h, rfl, ?_⟩
      obtain ⟨i, hi⟩ := Option.ne_none_iff_exists'.1 fun hnone : w.names path = none =>
        hthere (by simp [fileContent, hnone])
      by_cases hino : i = h.ino
      · exact hino ▸ hi
      · exact absurd (by simp [fileContent, hi, Function.update_of_ne hino]) hne
  | write h bytes bufferSize n ho hn => simp [hpre.1] at hacquires
  | unlink path' i hn => exact hpre.elim
  | discardLock => exact hpre.elim
  | _ => exact absurd rfl hne

theorem DroppedEmpty.change (hi : DroppedEmpty w) (hpre : contentPre cfg p c w o)
    (hc : Change cfg p w o w') : DroppedEmpty w' := by
  have hstore : ∀ {g : Handle ι Path} (bytes : List UInt8) {pending : List UInt8},
      (w.dropped g = true → pending = []) → DroppedEmpty (w.store g bytes pending) := by
    intro g bytes pending hg h hd
    by_cases hne : h = g
    · subst hne
      simpa using hg hd
    · simpa [Function.update_of_ne hne] using hi h hd
  cases hc with
  | drop g =>
      intro h hd
      by_cases hne : h = g
      · exact hne ▸ hpre
      · exact hi h (by simpa [Function.update_of_ne hne] using hd)
  | discardLock => exact hpre.elim
  | close g ho content hcontent => exact hstore content fun _ => rfl
  | seek g ho | flush g ho => exact hstore _ fun _ => rfl
  | truncate g ho => exact hstore _ fun _ => rfl
  | write g bytes bufferSize n ho hn =>
      refine hstore _ fun hd => ?_
      have hd' : w.dropped g = false := hpre.2
      exact absurd (hd'.symm.trans hd) (by simp)
  | _ => exact hi

theorem LockedAsked.discard {h : Handle ι Path} (hi : LockedAsked cfg w) (content : List UInt8) :
    LockedAsked cfg ((w.store h content []).discard h) := by
  intro k m self hm hobject
  by_cases hne : k = h
  · simp [hne] at hm
  · exact hi k m self (by simpa [Function.update_of_ne hne] using hm) hobject

theorem LockedAsked.change (hi : LockedAsked cfg w) (hown : Own p w o)
    (hpre : contentPre cfg p c w o) (hc : Change cfg p w o w') : LockedAsked cfg w' := by
  cases hc with
  | lock h flags mode hmode ho hfree =>
      intro k m self hm hobject
      by_cases hne : k = h
      · subst hne
        have howner : k.owner = p := hown
        obtain rfl : flags = self.flags := hpre self (howner ▸ hobject)
        obtain rfl : mode = m := by simpa using hm
        exact hmode
      · exact hi k m self (by simpa [Function.update_of_ne hne] using hm) hobject
  | unlock h ho =>
      intro k m self hm hobject
      by_cases hne : k = h
      · simp [hne] at hm
      · exact hi k m self (by simpa [Function.update_of_ne hne] using hm) hobject
  | close h ho content hcontent => exact hi.discard content
  | _ => exact hi

/-- Finalizing a file object that an acquisition has given up changes no content. -/
theorem content_finalize {e : Finalize ι} (hi : DroppedEmpty w)
    (he : Config.finalize e w = some w') : w'.fileContent path = w.fileContent path := by
  obtain ⟨-, hd, rfl⟩ := Config.finalize_cases he
  exact content_store (hi _ hd) (Or.inl rfl)

end Step

/-- The contract of `Lock`s: nobody uses the files of another. -/
def contentContract (cfg : Config ι) (g : Guard (machine cfg)) : Contract cfg g where
  inv w := DroppedEmpty w ∧ LockedAsked cfg w
  rely _ _ _ := True
  pre := contentPre cfg
  idle _ _ := True
  rely_refl _ _ := trivial
  rely_trans _ _ _ := trivial
  inv_change := fun _ hi hown hpre _ hc => ⟨hi.1.change hpre hc, hi.2.change hown hpre hc⟩
  rely_change := fun _ _ _ _ _ _ _ _ => trivial
  inv_finalize := by
    intro e w w' _ hi he
    obtain ⟨-, -, rfl⟩ := Config.finalize_cases he
    refine ⟨fun k hd => ?_, hi.2.discard _⟩
    by_cases hne : k = e.handle
    · simp [hne]
    · simpa [Function.update_of_ne hne] using hi.1 k hd
  rely_finalize := fun _ _ _ _ => trivial
  idle_stable := fun _ _ _ _ _ _ => trivial

/-! ## The calls keep the contract -/

section Calls

variable {cfg : Config ι} {g : Guard (machine cfg)} {p : ι} {c : Call}

/-- A triple under the contract of `Lock`s. -/
abbrev LockTriple (cfg : Config ι) (g : Guard (machine cfg)) (p : ι) (c : Call) {α : Type}
    (P : World ι → Prop) (x : Py ι α) (Q : α → World ι → Prop) (E : Exc → World ι → Prop) : Prop :=
  (contentContract cfg g).Triple p c P x Q E

/-- The acquisition has a handle it has not stored, and has written nothing. -/
def Spare (p : ι) (h : Handle ι Path) (w : World ι) : Prop :=
  w.fh p = none ∧ h.serial < w.serial p ∧ BufferIs p h [] w

/-- That handle is open. -/
def Contending (p : ι) (h : Handle ι Path) (w : World ι) : Prop :=
  Opened p h w ∧ Spare p h w

/-- That handle is locked. -/
def Gained (p : ι) (h : Handle ι Path) (w : World ι) : Prop :=
  (∃ m, LockIs p h (some m) w) ∧ Contending p h w

theorem Gained.lock {p : ι} {h : Handle ι Path} {w : World ι} (hs : Gained p h w) :
    w.lock h ≠ none := by
  obtain ⟨⟨m, -, -, hm⟩, -⟩ := hs
  simp [hm]

instance stable_spare (h : Handle ι Path) :
    ((contentContract cfg g).ctx p c).Stable (Spare p h) :=
  stable_of fun _ _ _ hu _ hs => ⟨hu.fh.trans hs.1, hu.serial ▸ hs.2.1, hs.2.2.keep hu⟩

instance stable_contending (h : Handle ι Path) :
    ((contentContract cfg g).ctx p c).Stable (Contending p h) :=
  inferInstanceAs (Context.Stable _ fun _ => _ ∧ _)

instance stable_gained (h : Handle ι Path) :
    ((contentContract cfg g).ctx p c).Stable (Gained p h) :=
  inferInstanceAs (Context.Stable _ fun _ => _ ∧ _)

/-- `_get_fh` opens a handle; the mode has no `w`. -/
theorem getFh_content (self : Lock) :
    LockTriple cfg g p c (fun w => w.fh p = none) self.getFh (fun h => Contending p h)
      fun _ _ => True := by
  unfold Lock.getFh
  cases hkind : openKind self.mode with
  | none => exact Hoare.throw fun _ _ _ => trivial
  | some kind =>
      refine perform_rule
        (fun _ _ _ _ => ⟨fun heq => openKind_ne_write self.mode_w (heq ▸ hkind), trivial⟩) ?_
        fun _ _ _ _ _ _ => trivial
      intro w choice r w' hw _ _ _ hfh hact
      have hopened : ∀ i (w₁ : World ι), w₁.Wf → w₁.fh p = none →
          Contending p (w₁.handle p self.filename i) (w₁.openAt p self.filename i) := by
        intro i w₁ hw₁ hfh₁
        have hnew : w₁.handle p self.filename i ∉ w₁.opened := hw₁.fs.handle_not_mem
        have hundropped : w₁.dropped (w₁.handle p self.filename i) = false :=
          Bool.eq_false_iff.2 fun hd => absurd (hw₁.dropped_serial hd) (by simp)
        exact ⟨⟨rfl, hundropped, by simp⟩, hfh₁, by simp, rfl, hundropped,
          hw₁.fs.buffer_open hnew⟩
      simp only [Config.act] at hact
      split at hact
      · split at hact
        · simp only [Option.some.injEq, Prod.mk.injEq] at hact
          obtain ⟨rfl, rfl⟩ := hact
          trivial
        · exact absurd hkind (openKind_ne_write self.mode_w)
        · simp only [Option.some.injEq, Prod.mk.injEq] at hact
          obtain ⟨rfl, rfl⟩ := hact
          exact hopened _ w hw hfh
      · split at hact
        · simp only [Option.some.injEq, Prod.mk.injEq] at hact
          obtain ⟨rfl, rfl⟩ := hact
          trivial
        · simp only [Option.ite_none_right_eq_some, Option.some.injEq, Prod.mk.injEq] at hact
          obtain ⟨hnew, rfl, rfl⟩ := hact
          exact hopened choice.ino (w.create self.filename choice.ino
            (if (cfg.object p).pidPath = some self.filename then some p else none))
            ⟨hw.fs.create ‹_› hnew, hw.fh_owner, hw.fh_serial, hw.fh_dropped, hw.dropped_serial⟩ hfh

/-- A lock attempt with the flags of the instance. -/
theorem flock_content {self : Lock} (hobject : cfg.object p = .lock self) (h : Handle ι Path) :
    LockTriple cfg g p c (Contending p h) (perform (.flock h self.flags))
      (fun _ => Gained p h) fun _ => Contending p h := by
  refine perform_rule (fun _ _ _ hs => ⟨hs.1.1, ?_⟩) ?_ fun _ _ _ _ hs _ => hs
  · intro self' hobject'
    rw [hobject, Instance.lock.injEq] at hobject'
    rw [hobject']
  intro w choice r w' _ _ _ _ hs hact
  simp only [Config.act] at hact
  rcases Config.onOpen_cases hact with ⟨-, hact⟩ | ⟨rfl, rfl⟩
  · split at hact
    · simp only [Option.some.injEq, Prod.mk.injEq] at hact
      obtain ⟨rfl, rfl⟩ := hact
      exact hs
    · rename_i mode _
      split at hact
      · simp only [Option.ite_none_right_eq_some, Option.some.injEq, Prod.mk.injEq] at hact
        obtain ⟨-, rfl, rfl⟩ := hact
        exact hs
      · simp only [Option.some.injEq, Prod.mk.injEq] at hact
        obtain ⟨rfl, rfl⟩ := hact
        exact ⟨⟨mode, hs.1.1, hs.1.2.1, Function.update_self ..⟩, hs⟩
  · exact hs

/-- Closing a handle through which nothing has been written. -/
theorem close_content (h : Handle ι Path) {E : Exc → World ι → Prop}
    [∀ e, ((contentContract cfg g).ctx p c).Stable (E e)] (hE : ∀ e w, Spare p h w → E e w) :
    LockTriple cfg g p c (Spare p h) (perform (.close h)) (fun _ => Spare p h) E := by
  have hclosed : ∀ {w : World ι} (bytes : List UInt8), Spare p h w →
      Spare p h ((w.store h bytes []).discard h) := fun _ hs =>
    ⟨hs.1, hs.2.1, hs.2.2.1, hs.2.2.2.1, Function.update_self ..⟩
  refine perform_rule (fun w _ _ hs => ⟨hs.2.2.1, fun _ => hs.2.2.2.2⟩) ?_ ?_
  · intro w choice r w' _ _ _ _ hs hact
    simp only [Config.act] at hact
    split at hact <;>
      (simp only [Option.some.injEq, Prod.mk.injEq] at hact; obtain ⟨rfl, rfl⟩ := hact)
    · exact hclosed _ hs
    · exact hs
  · intro w e _ _ hs _
    simp only [Config.afterFault]
    split
    · exact hE e _ (hclosed _ hs)
    · exact hE e _ hs

/-- `_prepare_fh` empties the file only while it is locked. -/
theorem prepareFh_content (self : Lock) (h : Handle ι Path) :
    LockTriple cfg g p c (Gained p h) (self.prepareFh h) (fun _ => Gained p h)
      fun _ => Spare p h := by
  have hstored : ∀ {w : World ι} (bytes : List UInt8), Gained p h w →
      Gained p h (w.store h bytes []) := fun bytes hs =>
    ⟨hs.1, hs.2.1, hs.2.2.1, hs.2.2.2.1, hs.2.1.1, hs.2.1.2.1, Function.update_self ..⟩
  unfold Lock.prepareFh
  split
  · refine Hoare.bind (R := fun _ => Gained p h)
      (perform_rule (fun _ _ _ hs => ⟨hs.2.1.1, fun _ => hs.2.2.2.2.2.2⟩) ?_ fun _ _ _ _ hs _ => hs.2.2)
      fun _ => perform_rule (fun _ _ _ hs => ⟨hs.2.1.1, hs.lock⟩) ?_ fun _ _ _ _ hs _ => hs.2.2
    all_goals
      intro w choice r w' _ _ _ _ hs hact
      simp only [Config.act] at hact
      rcases Config.onOpen_cases hact with ⟨-, hact⟩ | ⟨rfl, rfl⟩
      · simp only [Option.some.injEq, Prod.mk.injEq] at hact
        obtain ⟨rfl, rfl⟩ := hact
        exact hstored _ hs
      · exact hs.2.2
  · exact Hoare.pure fun _ _ hs => hs

/-- The handle is stored, or given up. -/
theorem setFh_content (h : Handle ι Path) :
    LockTriple cfg g p c (Gained p h) (perform (.setFh (some h))) (fun _ _ => True)
      fun _ => Spare p h := by
  refine perform_rule ?_ ?_ fun _ _ _ _ hs _ => hs.2.2
  · exact fun w _ _ hs =>
      ⟨fun k hk => Option.some.inj hk ▸ ⟨hs.2.1.1, hs.2.1.2.2, hs.2.1.2.1⟩, trivial⟩
  · intro w choice r w' _ _ _ _ _ hact
    simp only [Config.act, Option.some.injEq, Prod.mk.injEq] at hact
    obtain ⟨rfl, -⟩ := hact
    trivial

theorem drop_content (h : Handle ι Path) :
    LockTriple cfg g p c (Spare p h) (perform (.drop h)) (fun _ _ => True) fun _ _ => True := by
  refine perform_rule ?_ ?_ fun _ _ _ _ _ _ => trivial
  · exact fun w _ _ hs => ⟨⟨hs.2.2.1, hs.2.1, by simp [hs.1]⟩, hs.2.2.2.2⟩
  · intro w choice r w' _ _ _ _ _ hact
    simp only [Config.act, Option.some.injEq, Prod.mk.injEq] at hact
    obtain ⟨rfl, -⟩ := hact
    trivial

/-- Reading the stored handle. -/
theorem fh_content {P : World ι → Prop} [((contentContract cfg g).ctx p c).Stable P] :
    LockTriple cfg g p c P (perform .fh) (fun v w => w.fh p = v ∧ P w) fun _ _ => True :=
  fh_rule (fun _ => trivial) fun _ _ _ _ => trivial

/-- `acquire`. -/
theorem acquire_content {self : Lock} (hobject : cfg.object p = .lock self)
    (timeout checkInterval : Option Rat) (b : Option Bool) :
    LockTriple cfg g p c (fun _ => True) (self.acquire timeout checkInterval b) (fun _ _ => True)
      fun _ _ => True := by
  refine Hoare.bind fh_content fun v => ?_
  cases v with
  | some h => exact Hoare.pure fun _ _ _ => trivial
  | none =>
      refine Hoare.bind ((getFh_content self).of_pre fun _ _ hs => hs.1) fun h => ?_
      refine acquireOpened_rule (L := Gained p h) (T := fun _ => Contending p h)
        (G := fun _ => Spare p h) (D := fun _ => Spare p h) ?_ ?_ (fun _ _ _ _ _ hs => hs)
        (fun _ _ _ _ hs => hs.2) (fun _ _ _ _ hs => hs)
        (fun _ _ => pause_rule (Or.inl ⟨_, rfl⟩) (fun _ => trivial) fun _ _ hs _ => hs.2)
        (fun _ _ _ => pause_rule (Or.inr ⟨_, _, rfl⟩) (fun _ => trivial) fun _ _ hs _ => hs.2)
        (prepareFh_content self h) (setFh_content h) fun _ => drop_content h
      · exact posixLock_flags_rule (flock_content hobject h) (fun _ _ _ hs => hs) fun _ _ hs => hs
      · intro e
        refine (close_content h fun e' w hs => ?_).of_pre fun _ _ hs => hs.2
        unfold Caught
        split <;> exact hs

/-- An operation on the stored handle. -/
theorem stored_content {o : Op ι} {h : Handle ι Path}
    (hpre : ∀ w : World ι, h.owner = p → w.dropped h = false → Own p w o ∧ contentPre cfg p c w o)
    (hact : ∀ w choice r w', cfg.act choice p w o = some (r, w') → w'.fh p = w.fh p) :
    LockTriple cfg g p c (fun w => w.fh p = some h) (perform o) (fun _ w => w.fh p = some h)
      fun _ w => w.fh p = some h := by
  refine perform_rule (fun w hw _ hs => hpre w (hw.fh_owner hs) (hw.fh_dropped hs)) ?_ ?_
  · intro w choice r w' _ _ _ _ hs hact'
    have hfh : w'.fh p = some h := (hact w choice r w' hact').trans hs
    cases r with
    | ok v => exact hfh
    | error e => exact hfh
  · intro w e _ _ hs _
    have hfh : (Config.afterFault w o).fh p = w.fh p := by
      unfold Config.afterFault
      split
      · split <;> rfl
      · rfl
    exact hfh.trans hs

/-- `release`, in a call that does not acquire. -/
theorem release_content (self : Lock) (hc : c.acquires = false) :
    LockTriple cfg g p c (fun _ => True) self.release (fun _ _ => True) fun _ _ => True := by
  have hcaught : ∀ {h : Handle ι Path} {o : Op ι} {B : Exc → World ι → Prop},
      LockTriple cfg g p c (fun w => w.fh p = some h) (perform o) (fun _ w => w.fh p = some h)
        (fun _ w => w.fh p = some h) →
      (∀ e w, w.fh p = some h → B e w) →
      LockTriple cfg g p c (fun w => w.fh p = some h) (perform o) (fun _ w => w.fh p = some h)
        (Caught (fun w => w.fh p = some h) B) := by
    intro h o B hx hB
    refine hx.conseq (fun _ _ hs => hs) (fun _ _ _ hs => hs) fun e w _ hs => ?_
    unfold Caught
    split
    · exact hs
    · exact hB e w hs
  refine release_rule (Z := fun _ => True) (R := fun h w => w.fh p = some h)
    (U := fun h w => w.fh p = some h) (V := fun h w => w.fh p = some h) (I := fun _ => True)
    (fh_content.of_post ?_) (fun h => hcaught (stored_content ?_ ?_) fun _ _ hs => ⟨trivial, hs⟩)
    (fun h => hcaught (stored_content ?_ ?_) fun _ _ _ => trivial) (fun h => ?_)
    (fun _ _ => trivial) fun _ _ _ _ _ => trivial
  · intro v w _ hs
    cases v with
    | none => trivial
    | some h => exact hs.1
  · exact fun _ ho _ => ⟨ho, trivial⟩
  · intro w choice r w' hact
    simp only [Config.act] at hact
    rcases Config.onOpen_cases hact with ⟨-, hact⟩ | ⟨-, rfl⟩
    · simp only [Option.some.injEq, Prod.mk.injEq] at hact
      obtain ⟨-, rfl⟩ := hact
      rfl
    · rfl
  · exact fun _ ho _ => ⟨ho, fun h => by rw [hc] at h; cases h⟩
  · intro w choice r w' hact
    simp only [Config.act] at hact
    split at hact <;>
      (simp only [Option.some.injEq, Prod.mk.injEq] at hact; obtain ⟨-, rfl⟩ := hact; rfl)
  · refine perform_rule (fun _ _ _ _ => ⟨fun k hk => (by cases hk), trivial⟩) ?_
      fun _ _ _ _ _ _ => trivial
    intro w choice r w' _ _ _ _ _ hact
    simp only [Config.act, Option.some.injEq, Prod.mk.injEq] at hact
    obtain ⟨rfl, -⟩ := hact
    trivial

/-- `fh.write`, in a call that does not acquire. -/
theorem write_content (self : Lock) (bytes : List UInt8) (hc : c.acquires = false) :
    LockTriple cfg g p c (fun _ => True) (self.write bytes) (fun _ _ => True) fun _ _ => True := by
  refine Hoare.bind fh_content fun v => ?_
  cases v with
  | none => exact Hoare.pure fun _ _ _ => trivial
  | some h =>
      have hwrite : LockTriple cfg g p c (fun w => w.fh p = some h)
          (perform (.write h bytes self.bufferSize)) (fun _ w => w.fh p = some h)
          fun _ w => w.fh p = some h := by
        refine stored_content (fun _ ho hd => ⟨ho, hc, hd⟩) ?_
        intro w choice r w' hact
        simp only [Config.act] at hact
        rcases Config.onOpen_cases hact with ⟨-, hact⟩ | ⟨-, rfl⟩
        · simp only [Option.ite_none_right_eq_some, Option.some.injEq, Prod.mk.injEq] at hact
          obtain ⟨-, -, rfl⟩ := hact
          rfl
        · rfl
      exact hwrite.conseq (fun _ _ hs => hs.1) (fun _ _ _ _ => trivial) fun _ _ _ _ => trivial

/-- `fh.flush`, in a call that does not acquire. -/
theorem flush_content (hc : c.acquires = false) :
    LockTriple cfg g p c (fun _ => True) Lock.flush (fun _ _ => True) fun _ _ => True := by
  refine Hoare.bind fh_content fun v => ?_
  cases v with
  | none => exact Hoare.pure fun _ _ _ => trivial
  | some h =>
      have hflush : LockTriple cfg g p c (fun w => w.fh p = some h) (perform (.flush h))
          (fun _ w => w.fh p = some h) fun _ w => w.fh p = some h := by
        refine stored_content (fun _ ho _ => ⟨ho, fun h => by rw [hc] at h; cases h⟩) ?_
        intro w choice r w' hact
        simp only [Config.act] at hact
        rcases Config.onOpen_cases hact with ⟨-, hact⟩ | ⟨-, rfl⟩
        · simp only [Option.some.injEq, Prod.mk.injEq] at hact
          obtain ⟨-, rfl⟩ := hact
          rfl
        · rfl
      exact hflush.conseq (fun _ _ hs => hs.1) (fun _ _ _ _ => trivial) fun _ _ _ _ => trivial

end Calls

/-- Every call of a `Lock` keeps the contract. -/
theorem content_verified {cfg : Config ι} (hcfg : AllLocks cfg) {g : Guard (machine cfg)} :
    (contentContract cfg g).toDiscipline.Verified := by
  rintro p (c : Call) w hw - -
  obtain ⟨self, hobject⟩ := hcfg p
  have hcall : ∀ {α : Type} {x : Py ι α}, LockTriple cfg g p c (fun _ => True) x
      (fun _ _ => True) (fun _ _ => True) →
      ((contentContract cfg g).ctx p c).Safe x.toCall (fun _ _ => True) w := fun hx =>
    Hoare.toCall inferInstance hx hw trivial
  simp only [machine, hobject]
  cases c with
  | acquire timeout checkInterval b => exact hcall (acquire_content hobject _ _ _)
  | enter => exact hcall (acquire_content hobject _ _ _)
  | release | exit => exact hcall (release_content self rfl)
  | readPid => exact fun _ _ _ => trivial
  | write bytes => exact hcall (write_content self bytes rfl)
  | flush => exact hcall (flush_content rfl)

/-! ## The record -/

/-- What is recorded of the latest call of every client. -/
structure AcquireLog (ι : Type) where
  /-- the answer to its latest lock attempt -/
  attempt : ι → Option (Except Exc Unit)
  /-- it acquires, and has changed the content of the file -/
  changed : ι → Bool

namespace AcquireLog

variable (log : AcquireLog ι)

/-- No call has been made. -/
def empty : AcquireLog ι := ⟨fun _ => none, fun _ => false⟩

/-- What the answer to an operation of client `p` adds: a call begins by looking at the
stored handle. -/
def note (p : ι) : (o : Op ι) → Except Exc (Val o) → AcquireLog ι
  | .fh, _ => ⟨Function.update log.attempt p none, Function.update log.changed p false⟩
  | .flock _ _, r => { log with attempt := Function.update log.attempt p (some r) }
  | _, _ => log

/-- A change of the file is one by client `p`, if its call acquires. -/
def observe (path : Path) (p : ι) (c : Call) (w w' : World ι) : AcquireLog ι :=
  if c.acquires = true ∧ ContentChanged path w w' then
    { log with changed := Function.update log.changed p true }
  else log

end AcquireLog

/-- The recorder of what acquisitions do to the file at `path`. -/
abbrev acquisitions (cfg : Config ι) (path : Path) : Recorder (machine cfg) where
  Log := AcquireLog ι
  record := fun p c w o r w' log => (AcquireLog.note log p o r).observe path p c w w'

/-- No file is open, and no call has been made. -/
def Unopened (W : World ι × AcquireLog ι) : Prop :=
  (W.1.Wf ∧ W.1.opened = []) ∧ W.2 = .empty

/-- The call has changed nothing. -/
def Calm (p : ι) (W : World ι × AcquireLog ι) : Prop := W.2.changed p = false

/-- The latest lock attempt of the call has succeeded. -/
def Attempted (p : ι) (W : World ι × AcquireLog ι) : Prop := W.2.attempt p = some (.ok ())

/-- A call that has changed the file has the answer of a successful lock attempt. -/
def ChangedLocked (p : ι) (W : World ι × AcquireLog ι) : Prop :=
  W.2.changed p = true → Attempted p W

theorem Calm.changedLocked {p : ι} {W : World ι × AcquireLog ι} (h : Calm p W) :
    ChangedLocked p W :=
  fun hchanged => absurd (h.symm.trans hchanged) (by simp)

theorem Attempted.changedLocked {p : ι} {W : World ι × AcquireLog ι} (h : Attempted p W) :
    ChangedLocked p W :=
  fun _ => h

section Record

variable {cfg : Config ι} {path : Path} {p q : ι} {c : Call} {w w' : World ι}
  {log : AcquireLog ι} {o : Op ι}

/-- What is recorded of other clients stays. -/
theorem AcquireLog.record_other (hne : q ≠ p) (r : Except Exc (Val o)) :
    ((log.note p o r).observe path p c w w').attempt q = log.attempt q ∧
      ((log.note p o r).observe path p c w w').changed q = log.changed q := by
  have hnote : (log.note p o r).attempt q = log.attempt q ∧
      (log.note p o r).changed q = log.changed q := by
    unfold note
    split
    · exact ⟨Function.update_of_ne hne _ _, Function.update_of_ne hne _ _⟩
    · exact ⟨Function.update_of_ne hne _ _, rfl⟩
    · exact ⟨rfl, rfl⟩
  unfold observe
  split
  · exact ⟨hnote.1, (Function.update_of_ne hne _ _).trans hnote.2⟩
  · exact hnote

/-- The operations of an acquisition that are no lock attempts and change no content. -/
def Quiet (c : Call) : Op ι → Prop
  | .flock _ _ => False
  | .truncate _ => c.acquires = false
  | _ => True

/-- The operations after which the answer to the latest lock attempt stands. -/
def Standing : Op ι → Prop
  | .fh | .flock _ _ => False
  | _ => True

theorem AcquireLog.attempt_observe :
    (log.observe path p c w w').attempt = log.attempt := by
  unfold observe
  split <;> rfl

theorem Attempted.record (ho : Standing o) (h : Attempted p (w, log)) (r : Except Exc (Val o)) :
    Attempted p (w', (log.note p o r).observe path p c w w') := by
  have hattempt : ((log.note p o r).observe path p c w w').attempt p = log.attempt p := by
    rw [AcquireLog.attempt_observe]
    cases o with
    | fh | flock h flags => exact ho.elim
    | _ => rfl
  exact hattempt.trans h

/-- Nothing but emptying a file is recorded as a change. -/
theorem AcquireLog.changed_record (hw : w.Wf) (hown : Own p w o) (hpre : contentPre cfg p c w o)
    (hc : Change cfg p w o w') (ho : ∀ h, o = .truncate h → c.acquires = false)
    (r : Except Exc (Val o)) :
    (log.note p o r).observe path p c w w' = log.note p o r := by
  unfold observe
  split
  · rename_i hobserved
    obtain ⟨h, rfl, -⟩ := truncate_of_contentChanged hw hown hpre hc hobserved.1 hobserved.2
    exact absurd ((ho h rfl).symm.trans hobserved.1) (by simp)
  · rfl

/-- A quiet operation leaves the record as it is, or a call begins with it. -/
theorem AcquireLog.record_quiet (path : Path) (log : AcquireLog ι) (hw : w.Wf)
    (hown : Own p w o) (hpre : contentPre cfg p c w o) (hc : Change cfg p w o w') (ho : Quiet c o) (r : Except Exc (Val o)) :
    (log.note p o r).observe path p c w w' = log ∨
      ((log.note p o r).observe path p c w w').changed p = false := by
  rw [changed_record hw hown hpre hc (fun h heq => by subst heq; exact ho) r]
  cases o with
  | fh => exact Or.inr (Function.update_self ..)
  | flock h flags => exact ho.elim
  | _ => exact Or.inl rfl

end Record

/-! ## Assertions about the record -/

/-- What is recorded of a client is a matter of its own operations. -/
def acquireNotes (cfg : Config ι) (path : Path) :
    Annotation (contentContract cfg (Guard.free (machine cfg))).toDiscipline
      (acquisitions cfg path) (Guard.free _) where
  inv _ := True
  kept := fun p (log log' : AcquireLog ι) =>
    log'.attempt p = log.attempt p ∧ log'.changed p = log.changed p
  idle := ChangedLocked
  kept_refl _ _ := ⟨rfl, rfl⟩
  kept_trans := fun h₁ h₂ => ⟨h₂.1.trans h₁.1, h₂.2.trans h₁.2⟩
  inv_record := fun _ _ _ _ _ => trivial
  kept_record := fun hq => AcquireLog.record_other hq _
  inv_event := fun _ _ _ => trivial
  idle_stable := fun _ hkept h hchanged => hkept.1.trans (h (hkept.2.symm.trans hchanged))

section Calls

variable {cfg : Config ι} {path : Path} {p : ι} {c : Call} {α : Type}

/-- The context of a call of client `p`. -/
abbrev acquireCtx (cfg : Config ι) (path : Path) (p : ι) (c : Call) :
    Context (World ι × AcquireLog ι) (Op ι) (fun o => Except Exc (Val o)) :=
  recordedCtx (acquireNotes cfg path).discipline p c

instance stable_calm : (acquireCtx cfg path p c).Stable (Calm p) :=
  ⟨fun _ _ hr h => hr.2.2.trans h⟩

instance stable_attempted : (acquireCtx cfg path p c).Stable (Attempted p) :=
  ⟨fun _ _ hr h => hr.2.1.trans h⟩

instance stable_changedLocked : (acquireCtx cfg path p c).Stable (ChangedLocked p) :=
  ⟨fun _ _ hr h hchanged => hr.2.1.trans (h (hr.2.2.symm.trans hchanged))⟩

/-- What is recorded of code that performs operations of a kind, all of them permitted. -/
theorem record_within {kind : Op ι → Prop} {x : Py ι α} {P : World ι × AcquireLog ι → Prop}
    [(acquireCtx cfg path p c).Stable P] (hx : Code.Within kind x)
    (hP : ∀ {w w' log} {o : Op ι} r, w.Wf → Own p w o → contentPre cfg p c w o →
      Change cfg p w o w' → kind o → P (w, log) →
      P (w', (log.note p o r).observe path p c w w')) :
    Hoare (acquireCtx cfg path p c) P x (fun _ => P) fun _ => P := by
  refine Hoare.within hx ?_
  rintro ⟨w, log⟩ o - hp hkind
  refine ⟨trivial, ?_⟩
  rintro r ⟨w', log'⟩ ⟨⟨-, hw, ⟨hown, hpre⟩, -⟩, choice, h⟩
  obtain ⟨hperform, hlog⟩ := perform_recorded h
  obtain rfl : log' = (AcquireLog.note log p o r).observe path p c w w' := hlog
  exact hP r hw.1 hown hpre (Config.performOp_change hperform) hkind hp

/-- Quiet code changes nothing. -/
theorem calm_within {x : Py ι α} (hx : Code.Within (Quiet c) x) :
    Hoare (acquireCtx cfg path p c) (Calm p) x (fun _ => Calm p) fun _ => Calm p := by
  refine record_within hx fun {w w' log o} r hw hown hpre hc ho h => ?_
  rcases AcquireLog.record_quiet path log hw hown hpre hc ho r with heq | hcalm
  · rw [heq]
    exact h
  · exact hcalm

theorem changedLocked_within {x : Py ι α} (hx : Code.Within (Quiet c) x) :
    Hoare (acquireCtx cfg path p c) (ChangedLocked p) x (fun _ => ChangedLocked p)
      fun _ => ChangedLocked p := by
  refine record_within hx fun {w w' log o} r hw hown hpre hc ho h => ?_
  rcases AcquireLog.record_quiet path log hw hown hpre hc ho r with heq | hcalm
  · rw [heq]
    exact h
  · exact Calm.changedLocked hcalm

theorem attempted_within {x : Py ι α} (hx : Code.Within Standing x) :
    Hoare (acquireCtx cfg path p c) (Attempted p) x (fun _ => Attempted p) fun _ => Attempted p :=
  record_within hx fun r _ _ _ _ ho h => h.record ho r

/-- One operation, and what is recorded of it. -/
theorem record_rule {o : Op ι} {P : World ι × AcquireLog ι → Prop}
    {Q : Val o → World ι × AcquireLog ι → Prop} {E : Exc → World ι × AcquireLog ι → Prop}
    [(acquireCtx cfg path p c).Stable P] [∀ v, (acquireCtx cfg path p c).Stable (Q v)]
    [∀ e, (acquireCtx cfg path p c).Stable (E e)]
    (ho : ∀ h, o ≠ .truncate h)
    (hP : ∀ {w w' : World ι} {log : AcquireLog ι} r, P (w, log) →
      Ends Q E r (w', log.note p o r)) :
    Hoare (acquireCtx cfg path p c) P (perform o) Q E := by
  have hstep : ∀ W r W', P W → (acquireCtx cfg path p c).step W o r W' → Ends Q E r W' := by
    rintro ⟨w, log⟩ r ⟨w', log'⟩ hp ⟨⟨-, hw, ⟨hown, hpre⟩, -⟩, choice, h⟩
    obtain ⟨hperform, hlog⟩ := perform_recorded h
    obtain rfl : log' = (AcquireLog.note log p o r).observe path p c w w' := hlog
    have hc := Config.performOp_change hperform
    rw [AcquireLog.changed_record hw.1 hown hpre hc (fun h heq => absurd heq (ho h))]
    exact hP (w := w) r hp
  exact Hoare.step (fun _ _ _ => trivial) fun W r W' _ _ hp hs => hstep W r W' hp hs

/-- A call begins when it looks at the stored handle. -/
theorem fh_calm :
    Hoare (acquireCtx cfg path p c) (fun _ => True) (perform .fh) (fun _ => Calm p)
      fun _ => Calm p := by
  refine record_rule (fun _ h => by cases h) fun {w w' log} r _ => ?_
  have hcalm : Calm p (w', log.note p .fh r) := Function.update_self ..
  cases r with
  | ok v => exact hcalm
  | error e => exact hcalm

/-- A lock attempt changes no content. -/
theorem flock_calm (h : Handle ι Path) (flags : LockFlags) :
    Hoare (acquireCtx cfg path p c) (Calm p) (perform (.flock h flags)) (fun _ => Attempted p)
      fun _ => Calm p := by
  refine record_rule (fun _ h => by cases h) fun {w w' log} r hcalm => ?_
  cases r with
  | ok v => exact Function.update_self ..
  | error e => exact hcalm

/-- `acquire`. -/
theorem acquire_recorded (self : Lock) (timeout checkInterval : Option Rat)
    (b : Option Bool) :
    Hoare (acquireCtx cfg path p c) (fun _ => True) (self.acquire timeout checkInterval b)
      (fun _ => ChangedLocked p) fun _ => ChangedLocked p := by
  have hquiet : ∀ {α : Type} {x : Py ι α} {E : Exc → World ι × AcquireLog ι → Prop},
      Code.Within (Quiet c) x → (∀ e W, Calm p W → E e W) →
      Hoare (acquireCtx cfg path p c) (Calm p) x (fun _ => Calm p) E := fun hx hE =>
    (calm_within hx).conseq (fun _ _ h => h) (fun _ _ _ h => h) fun e W _ => hE e W
  have hcaught : ∀ e W, Calm p W → Caught (Calm p) (fun _ => ChangedLocked p) e W := by
    intro e W h
    unfold Caught
    split
    · exact h
    · exact h.changedLocked
  have hstanding : ∀ {α : Type} {x : Py ι α}, Code.Within Standing x →
      Hoare (acquireCtx cfg path p c) (Attempted p) x (fun _ => Attempted p)
        fun _ => ChangedLocked p := fun hx =>
    (attempted_within hx).conseq (fun _ _ h => h) (fun _ _ _ h => h) fun _ _ _ h => h.changedLocked
  refine Hoare.bind (fh_calm.conseq (fun _ _ h => h) (fun _ _ _ h => h)
    fun _ _ _ h => h.changedLocked) fun v => ?_
  cases v with
  | some h => exact Hoare.pure fun _ _ hs => hs.changedLocked
  | none =>
      refine Hoare.bind (R := fun _ => Calm p) (hquiet ?_ fun _ _ h => h.changedLocked) fun h => ?_
      · unfold Lock.getFh
        split
        · exact .call trivial
        · exact .throw _
      refine Hoare.of_post ?_ fun _ _ _ hs => Attempted.changedLocked hs
      refine acquireOpened_rule (L := Attempted p) (T := fun _ => Calm p) (G := fun _ => Calm p)
        (D := fun _ => ChangedLocked p) ?_ (fun _ => hquiet (.call trivial) hcaught)
        (fun _ _ _ _ _ hs => hs.changedLocked) (fun _ _ _ _ hs => hs.changedLocked)
        (fun _ _ _ _ hs => hs)
        (fun _ _ => hquiet (.call trivial) fun _ _ hs => hs.changedLocked)
        (fun _ _ _ => hquiet (.call trivial) fun _ _ hs => hs.changedLocked)
        (hstanding ?_) (hstanding (.call trivial))
        fun _ => changedLocked_within (.call trivial)
      · exact posixLock_flags_rule (flock_calm h self.flags) (fun _ _ _ hs => hs)
          fun _ _ hs => hs
      · unfold Lock.prepareFh
        exact .ite (.step trivial fun _ => .call trivial) (.pure ())

end Calls

/-- Every call ends with a record of this kind. -/
theorem acquire_annotated {cfg : Config ι} (hcfg : AllLocks cfg) (path : Path) :
    (acquireNotes cfg path).discipline.Verified := by
  rintro p (c : Call) W hW (hidle : ChangedLocked p W) -
  obtain ⟨self, hobject⟩ := hcfg p
  have hquiet : ∀ {α : Type} {x : Py ι α}, Code.Within (Quiet c) x →
      (acquireCtx cfg path p c).Safe x.toCall (fun _ => ChangedLocked p) W := fun hx =>
    Hoare.toCall inferInstance (changedLocked_within hx) hW hidle
  have hacquire : ∀ timeout checkInterval b, (acquireCtx cfg path p c).Safe
      (self.acquire timeout checkInterval b).toCall (fun _ => ChangedLocked p) W := fun _ _ _ =>
    Hoare.toCall inferInstance (acquire_recorded self _ _ _) hW trivial
  have hsafe : (acquireCtx cfg path p c).Safe ((cfg.object p).call c)
      (fun _ => ChangedLocked p) W := by
    rw [hobject]
    cases c with
    | acquire timeout checkInterval b => exact hacquire _ _ _
    | enter => exact hacquire _ _ _
    | release | exit =>
        exact hquiet (release_within self trivial (fun _ => trivial) (fun _ => trivial) trivial)
    | readPid => exact hquiet (.pure ())
    | write bytes =>
        refine hquiet (.step trivial fun v => ?_)
        cases v with
        | none => exact .pure ()
        | some h => exact .call trivial
    | flush =>
        refine hquiet (.step trivial fun v => ?_)
        cases v with
        | none => exact .pure ()
        | some h => exact .call trivial
  exact hsafe

/-! ## Whole runs -/

/-- In every reachable state: an acquisition that is about to change the content of the
file at `path` has the exclusive lock on it, before and after the step; finalizing a
file object changes no content; and a call whose latest lock attempt has failed, by
contention or otherwise, has changed nothing when it is over. -/
theorem contender_never_truncates {cfg : Config ι} (hcfg : AllLocks cfg)
    (hflags : DefaultFlags cfg) {path : Path}
    {s : ((machine cfg).recorded (acquisitions cfg path)).State}
    (hs : Reach Unopened (Guard.free _) s) :
    (∀ p choice s', next s (.op p choice) = some s' →
      (∃ c prog, s.thread p = some (c, prog) ∧ Call.acquires c = true) →
      ContentChanged path (files (forget s)) (files (forget s')) →
      ∃ h : Handle ι Path, h.owner = p ∧ (files (forget s)).names path = some h.ino ∧
        (files (forget s)).lock h = some .exclusive ∧
        (files (forget s')).lock h = some .exclusive) ∧
    (∀ e s', next s (.event e) = some s' →
      ¬ ContentChanged path (files (forget s)) (files (forget s'))) ∧
    ∀ p e, s.thread p = none → AcquireLog.attempt s.world.2 p = some (.error e) →
      AcquireLog.changed s.world.2 p = false := by
  have hstart : ∀ W : World ι × AcquireLog ι, Unopened W →
      ((contentContract cfg (Guard.free (machine cfg))).toDiscipline.inv W.1 ∧ ∀ _ : ι, True) ∧
        True ∧ ∀ p, ChangedLocked p W := by
    rintro ⟨w, log⟩ ⟨⟨hw, hopened⟩, rfl⟩
    have hnil : w.opened = [] := hopened
    have hclosed : ∀ h, h ∉ w.opened := by simp [hnil]
    refine ⟨⟨⟨hw, fun h _ => hw.fs.buffer_open (hclosed h), fun h m self hm => ?_⟩,
      fun _ => trivial⟩, trivial, fun p hchanged => ?_⟩
    · exact absurd (hw.fs.opened_of_lock hm) (hclosed h)
    · simp [AcquireLog.empty] at hchanged
  obtain ⟨hhold, hlog⟩ := Annotation.sound (acquire_annotated hcfg path) (content_verified hcfg)
    hstart (fun _ _ _ _ => trivial) (fun _ _ _ _ _ => trivial) hs
  obtain ⟨hw, hdropped, hasked⟩ := hhold.1
  refine ⟨?_, ?_, fun p e hthread hattempt => ?_⟩
  · rintro p choice s' hn ⟨c, prog, hthread, hacquires⟩ hchanged
    obtain ⟨c', o, k, r, hthread', hperform, -⟩ := next_op hn
    obtain ⟨rfl, rfl⟩ := Prod.mk.inj (Option.some.inj (hthread.symm.trans hthread'))
    obtain ⟨hown, hpre⟩ := hhold.permitted (s := forget s) hthread'
    obtain ⟨hperform', -⟩ := perform_recorded hperform
    have hc : Change cfg p (files (forget s)) o (files (forget s')) :=
      Config.performOp_change hperform'
    obtain ⟨h, rfl, hname⟩ := truncate_of_contentChanged hw hown hpre hc hacquires hchanged
    have hlock : (files (forget s')).lock h = (files (forget s)).lock h := by
      generalize files (forget s') = w' at hc
      cases hc <;> rfl
    obtain ⟨m, hm⟩ := Option.ne_none_iff_exists'.1 hpre
    obtain ⟨self, hobject⟩ := hcfg h.owner
    have hmode := hasked h m self hm hobject
    rw [hflags _ self hobject] at hmode
    have hexclusive : (files (forget s)).lock h = some .exclusive :=
      hm.trans (congrArg some (Option.some.inj hmode).symm)
    exact ⟨h, hown, hname, hexclusive, hlock.trans hexclusive⟩
  · intro e s' hn hchanged
    obtain ⟨hevent, -⟩ := next_event hn
    obtain ⟨w', hfinalize, hworld⟩ := Option.map_eq_some_iff.1 hevent
    have heq : files (forget s') = w' := (congrArg Prod.fst hworld).symm
    exact hchanged.2 (heq ▸ content_finalize hdropped hfinalize)
  · have hended : ChangedLocked p s.world := hlog.idle hthread
    by_contra hnot
    have hsucceeded : AcquireLog.attempt s.world.2 p = some (.ok ()) := hended (by simpa using hnot)
    cases hsucceeded.symm.trans hattempt

/-- A holder that appends to a file, and a contender whose mode is `w`. -/
def contended : Config Bool where
  object holder := .lock
    (if holder then { filename := ['f'] } else Lock.init { filename := ['f'] } ['w'])
  mayRaise _ _ _ := false

/-- All is idle, no file exists and nothing has been recorded. -/
def contended.start : ((machine contended).recorded (acquisitions contended ['f'])).State :=
  ⟨(World.empty, .empty), fun _ => none⟩

/-- The holder locks the file and writes a byte; the contender tries once. -/
def contended.labels : List ((machine contended).recorded (acquisitions contended ['f'])).Label :=
  .call true (.acquire none none none) :: List.replicate 4 (.op true {}) ++
    .call true (.write [120]) :: List.replicate 2 (.op true {}) ++
    .call true .flush :: List.replicate 2 (.op true {}) ++
    .call false (.acquire (some 0) none none) :: List.replicate 6 (.op false {})

/-- The contender is refused, and the byte is still there. -/
theorem contender_never_truncates_run :
    ∃ s, run contended.labels contended.start = some s ∧ s.thread false = none ∧
      (files (forget s)).fileContent ['f'] = some [120] ∧
      AcquireLog.attempt s.world.2 false = some (.error (.osError .EAGAIN)) ∧
      AcquireLog.changed s.world.2 false = false := by
  have hcfg : AllLocks contended := fun p => ⟨_, rfl⟩
  have hflags : DefaultFlags contended := fun p self hobject => by
    obtain rfl := Instance.lock.inj hobject
    cases p <;> rfl
  have hobserve : (run contended.labels contended.start).map (fun s =>
      ((s.thread false).map Prod.fst, (files (forget s)).fileContent ['f'],
        AcquireLog.attempt s.world.2 false)) =
      some (none, some [120], some (.error (.osError .EAGAIN))) := by rfl
  obtain ⟨s, hrun, hs⟩ := Option.map_eq_some_iff.1 hobserve
  obtain ⟨hthread, hs⟩ := Prod.mk.inj hs
  obtain ⟨hcontent, hattempt⟩ := Prod.mk.inj hs
  have hreach : Reach Unopened (Guard.free _) s :=
    (Reach.start ⟨⟨empty_wf, rfl⟩, rfl⟩).run hrun
  exact ⟨s, hrun, Option.map_eq_none_iff.1 hthread, hcontent, hattempt,
    (contender_never_truncates hcfg hflags hreach).2.2 false _ (Option.map_eq_none_iff.1 hthread) hattempt⟩

end Portalocker
