import Portalocker.Utils.Crashes
import Portalocker.Utils.Deadlock
set_option autoImplicit false
set_option linter.unusedSectionVars false

/-!
# After a crash

What a crash leaves of a lock are files, and files do not lock.  Once the instances that
live are idle and store nothing, an acquisition that is left alone succeeds, whichever
files are there; a `PidFileLock` replaces the pid that the file of a crashed one still
shows.
-/

namespace Portalocker

open Posix Interleaving Interleaving.Machine World Contract

variable {ι : Type} [DecidableEq ι]

namespace Recovery

section Alone

variable {cfg : Config ι} {p : ι} {c : Call}

/-- Finitely many files have a name. -/
def Finite (w : World ι) : Prop := ∃ bound, ∀ i, bound ≤ i → w.links i = none

theorem Finite.change {w w' : World ι} {o : Op ι} (hfinite : Finite w) (hc : Change cfg p w o w') :
    Finite w' := by
  obtain ⟨bound, hbound⟩ := hfinite
  cases hc with
  | create path kind i hn hi hkind =>
      refine ⟨max bound (i + 1), fun j hj => ?_⟩
      have hne : j ≠ i := by omega
      simpa [Function.update_of_ne hne] using hbound j (by omega)
  | unlink path i hn =>
      refine ⟨bound, fun j hj => ?_⟩
      simp [hbound j hj]
  | _ => exact ⟨bound, hbound⟩

/-- Client `p` runs alone and nothing fails. -/
abbrev leftAlone (cfg : Config ι) (p : ι) (c : Call) :
    Context (World ι) (Op ι) (fun o => Except Exc (Val o)) :=
  (machine cfg).alone p c (fun choice => Choice.fault choice = none)
    (fun w => World.Wf w ∧ Finite w) (fun w o => Own p w o)
    fun w o _ _ w' hw hmay _ h =>
      have hc : Change cfg p w o w' := Config.performOp_change h
      ⟨hw.1.change hmay hc, hw.2.change hc⟩

/-- Nothing happens in between, so every assertion is stable. -/
instance stable_leftAlone (P : World ι → Prop) : (leftAlone cfg p c).Stable P :=
  ⟨fun _ _ hr hP => hr ▸ hP⟩

/-- A triple about code that is left alone and never raises. -/
abbrev AloneTriple (cfg : Config ι) (p : ι) (c : Call) {α : Type} (P : World ι → Prop) (x : Py ι α)
    (Q : α → World ι → Prop) : Prop :=
  Hoare (leftAlone cfg p c) P x Q fun _ _ => False

/-- One operation: it is possible, and what it does leads to the postcondition. -/
theorem alone_rule {o : Op ι} {P : World ι → Prop} {Q : Val o → World ι → Prop}
    (hown : ∀ w, w.Wf → P w → Own p w o)
    (hpossible : ∀ w, w.Wf → Finite w → P w →
      ∃ choice : Choice, choice.fault = none ∧ ∃ rw, cfg.act choice p w o = some rw)
    (hact : ∀ w choice r w', w.Wf → P w → cfg.act choice p w o = some (r, w') →
      Ends Q (fun _ _ => False) r w') : AloneTriple cfg p c P (perform o) Q := by
  have hperform : ∀ {choice : Choice} {w : World ι} {rw}, choice.fault = none →
      (cfg.performOp choice p c w o = some rw ↔ cfg.act choice p w o = some rw) := by
    intro choice w rw hfault
    simp [Config.performOp, hfault]
  refine Hoare.step (C := leftAlone cfg p c) ?_ ?_
  · intro w hw hp
    obtain ⟨choice, hfault, rw, h⟩ := hpossible w hw.1 hw.2 hp
    exact ⟨hown w hw.1 hp, choice, rw, hfault, (hperform hfault).2 h⟩
  · rintro w r w' hw - hp ⟨choice, hfault, h⟩
    exact hact w choice r w' hw.1 hp ((hperform hfault).1 h)

/-- An operation whose answer and effect are functions of the world. -/
theorem effect_rule {o : Op ι} {P : World ι → Prop} {Q : Val o → World ι → Prop}
    (value : World ι → Val o) (effect : World ι → World ι)
    (hown : ∀ w, w.Wf → P w → Own p w o)
    (hact : ∀ w, P w → ∀ choice, cfg.act choice p w o = some (.ok (value w), effect w))
    (hQ : ∀ w, w.Wf → P w → Q (value w) (effect w)) : AloneTriple cfg p c P (perform o) Q := by
  refine alone_rule hown (fun w _ _ hp => ⟨{}, rfl, _, hact w hp _⟩) ?_
  intro w choice r w' hw hp h
  obtain ⟨rfl, rfl⟩ := Prod.mk.inj (Option.some.inj ((hact w hp choice).symm.trans h))
  exact hQ w hw hp

/-! ## The lock file -/

/-- The client stores no file, and no file under this path is locked. -/
def Free (p : ι) (path : Path) (w : World ι) : Prop :=
  w.fh p = none ∧ ∀ k : Handle ι Path, w.names path = some k.ino → w.lock k = none

/-- The client has opened the path's file. -/
def HasOpened (p : ι) (path : Path) (h : Handle ι Path) (w : World ι) : Prop :=
  Opened p h w ∧ h.path = path ∧ w.names path = some h.ino

/-- It has locked it. -/
def HasLocked (p : ι) (path : Path) (h : Handle ι Path) (w : World ι) : Prop :=
  HasOpened p path h w ∧ w.lock h = some .exclusive

/-- It has stored it, and it has been compared with the path where `b` says so. -/
def HasStored (p : ι) (path : Path) (b : Bool) (h : Handle ι Path) (w : World ι) : Prop :=
  HasLocked p path h w ∧ w.fh p = some h ∧ (b = true → w.confirmed h = true)

variable {path : Path} {h : Handle ι Path} {b : Bool}

theorem fh_alone {P : World ι → Prop} :
    AloneTriple cfg p c P (perform .fh) (fun v w => w.fh p = v ∧ P w) :=
  effect_rule (fun w => w.fh p) id (fun _ _ _ => trivial) (fun _ _ _ => rfl) fun _ _ hp => ⟨rfl, hp⟩

/-- A file is opened, whether there is one or not. -/
theorem open_alone {P : Handle ι Path → World ι → Prop} {Z : World ι → Prop}
    (hopen : ∀ {w : World ι} {i}, w.Wf → Z w → w.names path = some i →
      P (w.handle p path i) (w.openAt p path i))
    (hcreate : ∀ {w : World ι} {i creator}, w.Wf → Z w → w.names path = none → w.Fresh i →
      P (w.handle p path i) ((w.create path i creator).openAt p path i)) :
    AloneTriple cfg p c Z (perform (.openFile path .append))
      (fun h w => HasOpened p path h w ∧ P h w) := by
  refine alone_rule (fun _ _ _ => by simp [Own]) ?_ ?_
  · rintro w - ⟨bound, hbound⟩ -
    obtain ⟨i, hi⟩ := Infinite.exists_notMem_finset
      (Finset.range bound ∪ (w.opened.map Handle.ino).toFinset)
    simp only [Finset.mem_union, Finset.mem_range, List.mem_toFinset, List.mem_map, not_or, not_lt,
      not_exists, not_and] at hi
    have hfresh : w.Fresh i := ⟨hbound i hi.1, hi.2⟩
    refine ⟨{ ino := i }, rfl, ?_⟩
    cases hn : w.names path with
    | some j => exact ⟨_, by simp [Config.act, hn]; rfl⟩
    | none => exact ⟨_, by simp [Config.act, hn, hfresh]; rfl⟩
  · intro w choice r w' hw hz hact
    have hundropped : ∀ {i}, w.dropped (w.handle p path i) = false := by
      intro i
      apply Bool.eq_false_iff.2
      intro hd
      have hlt := hw.dropped_serial hd
      simp at hlt
    simp only [Config.act] at hact
    split at hact
    · rename_i i hn
      simp only [Option.some.injEq, Prod.mk.injEq] at hact
      obtain ⟨rfl, rfl⟩ := hact
      exact ⟨⟨⟨rfl, hundropped, List.mem_cons_self ..⟩, rfl, hn⟩, hopen hw hz hn⟩
    · rename_i hn
      simp only [Option.ite_none_right_eq_some, Option.some.injEq, Prod.mk.injEq] at hact
      obtain ⟨hfresh, rfl, rfl⟩ := hact
      exact ⟨⟨⟨rfl, hundropped, List.mem_cons_self ..⟩, rfl, by simp⟩, hcreate hw hz hn hfresh⟩

/-- A free path stays free while its file is opened. -/
theorem openFree_alone : AloneTriple cfg p c (Free p path) (perform (.openFile path .append))
    (fun h w => HasOpened p path h w ∧ Free p path w) := by
  refine open_alone (fun _ hz _ => hz) fun {w i creator} hw hz hn hfresh => ⟨hz.1, fun k hk => ?_⟩
  -- nobody has a new file open
  have hino : i = k.ino := by simpa using hk
  exact hw.fs.lock_open fun hk => hfresh.2 k hk hino.symm

theorem flock_alone {flags : LockFlags} (hmode : flags.mode = some .exclusive) :
    AloneTriple cfg p c (fun w => HasOpened p path h w ∧ Free p path w) (perform (.flock h flags))
      (fun _ w => HasLocked p path h w ∧ w.fh p = none) := by
  refine effect_rule (fun _ => ()) (fun w => w.lockHandle h .exclusive) (fun w _ hs => hs.1.1.1)
    ?_ ?_
  · rintro w ⟨⟨⟨-, -, hopen⟩, -, hnames⟩, -, hfree⟩ choice
    have hnone : ¬ w.Conflicts h .exclusive := by
      rintro ⟨k, -, -, hino, m, hm, -⟩
      have hlock : w.lock k = none := hfree k (hino ▸ hnames)
      rw [hlock] at hm
      cases hm
    simp [Config.act, Config.onOpen, hopen, hmode, hnone]
  · rintro w - ⟨⟨hopened, hpath⟩, hfh, -⟩
    exact ⟨⟨⟨hopened, hpath⟩, by simp⟩, hfh⟩

/-- The lock file is emptied where the mode says so. -/
theorem prepareFh_alone (self : Lock) :
    AloneTriple cfg p c (fun w => HasLocked p path h w ∧ w.fh p = none) (self.prepareFh h)
      (fun _ w => HasLocked p path h w ∧ w.fh p = none) := by
  unfold Lock.prepareFh
  split
  · refine Hoare.bind (R := fun _ w => HasLocked p path h w ∧ w.fh p = none) ?_ fun _ => ?_
    · refine effect_rule (fun _ => ()) (fun w => w.store h (w.data h.ino ++ w.buffer h) [])
        (fun w _ hs => hs.1.1.1.1) ?_ fun _ _ hs => hs
      intro w hs choice
      simp [Config.act, Config.onOpen, hs.1.1.1.2.2]
    · refine effect_rule (fun _ => ())
        (fun w => (w.store h [] []).record h fun s => ⟨s.handle, true, []⟩)
        (fun w _ hs => hs.1.1.1.1) ?_ fun _ _ hs => hs
      intro w hs choice
      simp [Config.act, Config.onOpen, hs.1.1.1.2.2]
  · exact Hoare.pure fun _ _ hs => hs

theorem storeFh_alone :
    AloneTriple cfg p c (fun w => HasLocked p path h w ∧ w.fh p = none) (perform (.setFh (some h)))
      (fun _ => HasStored p path false h) := by
  refine effect_rule (fun _ => ()) (fun w => w.setFh p (some h)) ?_ (fun _ _ _ => rfl) ?_
  · rintro w - ⟨⟨⟨⟨ho, hd, hopen⟩, -⟩, -⟩, -⟩ k hk
    exact Option.some.inj hk ▸ ⟨ho, hopen, hd⟩
  · rintro w - ⟨hlocked, -⟩
    exact ⟨hlocked, Function.update_self .., fun hb => by cases hb⟩

theorem of_nothing {α : Type} {x : Py ι α} {Q : α → World ι → Prop} {E : Exc → World ι → Prop} :
    Hoare (leftAlone cfg p c) (fun _ => False) x Q E :=
  Hoare.of_false fun _ _ hs => hs

theorem exclusive_of_mode {flags : LockFlags} (h : flags.mode = some .exclusive) :
    flags.exclusive = true := by
  obtain ⟨exclusive, shared, nonBlocking⟩ := flags
  cases exclusive with
  | true => rfl
  | false => cases shared <;> cases h

/-- `acquire` with the file that has just been opened. -/
theorem acquireOpened_alone {self : Lock} (hmode : self.flags.mode = some .exclusive)
    (timeout checkInterval : Rat) (failWhenLocked : Bool) :
    AloneTriple cfg p c (fun w => HasOpened p path h w ∧ Free p path w)
      (self.acquireOpened timeout checkInterval failWhenLocked h) (HasStored p path false) := by
  have hasked : (self.flags.nonBlocking && !(self.flags.shared || self.flags.exclusive)) =
      false := by
    simp [exclusive_of_mode hmode]
  refine acquireOpened_report_rule (L := fun w => HasLocked p path h w ∧ w.fh p = none)
    (T := fun _ _ => False) (G := fun _ _ => False) (D := fun _ _ => False) ?_
    (fun _ => of_nothing) (fun _ _ _ hs => hs) (fun _ _ _ _ hs => hs) (fun _ _ _ _ _ hs => hs.elim)
    (fun _ _ => of_nothing) (fun _ _ _ => of_nothing) (prepareFh_alone self) storeFh_alone
    fun _ => of_nothing
  unfold PosixLocker.lock
  rw [hasked]
  exact Hoare.tryCatch (flock_alone hmode) fun _ => of_nothing

/-- The inode comparison succeeds. -/
theorem fhMatchesPath_alone (h : Handle ι Path) :
    AloneTriple cfg p c (HasStored p path false h) (fhMatchesPath h path)
      (fun matching w => matching = true ∧ HasStored p path true h w) := by
  refine fhMatchesPath_rule (S := fun h => HasStored p path false h)
    (M := fun h matching w => matching = true ∧ HasStored p path true h w) ?_ ?_
  · refine Hoare.conseq (effect_rule (fun _ => h.ino) id (P := HasStored p path false h)
      (Q := fun i w => i = h.ino ∧ HasStored p path false h w) (fun _ _ _ => trivial) ?_
      fun _ _ hs => ⟨rfl, hs⟩) (fun _ _ hs => hs) (fun _ _ _ hs => hs) fun _ _ _ hs => hs.elim
    intro w hs choice
    simp [Config.act, Config.onOpen, hs.1.1.1.2.2]
  · refine Hoare.conseq (effect_rule (fun _ => h.ino) (fun w => w.compare p path h.ino)
      (P := HasStored p path false h)
      (Q := fun i w => (h.ino == i) = true ∧ HasStored p path true h w)
      (fun _ _ _ => trivial) ?_ ?_)
      (fun _ _ hs => hs) (fun _ _ _ hs => hs) fun _ _ _ hs => hs.elim
    · intro w hs choice
      simp [Config.act, hs.1.1.2.2]
    · rintro w - ⟨hlocked, hfh, -⟩
      have hmatches : w.Matches p path h.ino h := ⟨hfh, hlocked.1.2.1, rfl, by simp [hlocked.2]⟩
      exact ⟨by simp, hlocked, hfh, fun _ => by simp [hmatches]⟩

/-- `_acquire_verified` succeeds with its first attempt. -/
theorem acquireVerified_alone (self : Lock) (hself : self.filename = path)
    (hopenKind : openKind self.mode = some .append) (hmode : self.flags.mode = some .exclusive)
    (timeout checkInterval : Option Rat) (failWhenLocked : Option Bool) :
    AloneTriple cfg p c (Free p path)
      (TemporaryFileLock.acquireVerified self path timeout checkInterval failWhenLocked)
      (HasStored p path true) := by
  subst hself
  refine (acquireVerified_rule (Z := fun _ => False)
    (S := fun h => HasStored p self.filename false h)
    (M := fun h matching w => matching = true ∧ HasStored p self.filename true h w) ?_
    fhMatchesPath_alone (fun _ => Hoare.of_false fun _ _ hs => by cases hs.1)
    (fun _ _ hs => hs.elim) (fun _ _ hs => hs) (fun _ => of_nothing)
    fun _ _ => of_nothing).of_post fun _ _ _ hs => hs.2
  refine lockAcquire_rule hopenKind (Z := Free p self.filename)
    (N := fun h w => HasOpened p self.filename h w ∧ Free p self.filename w) ?_
    openFree_alone fun h => acquireOpened_alone hmode _ _ _
  refine fh_alone.of_post ?_
  rintro v w - ⟨rfl, hs⟩
  rw [hs.1]
  exact hs

theorem acquired_alone {P : World ι → Prop}
    (hP : ∀ {w : World ι}, P w → P { w with held := Function.update w.held p true }) :
    AloneTriple cfg p c P (perform .acquired) (fun _ w => P w ∧ w.held p = true) :=
  effect_rule (fun _ => ()) (fun w => { w with held := Function.update w.held p true })
    (fun _ _ _ => trivial) (fun _ _ _ => rfl) fun _ _ hs => ⟨hP hs, Function.update_self ..⟩

/-- `TemporaryFileLock.acquire`. -/
theorem temporaryAcquire_alone {self : TemporaryFileLock}
    (hmode : self.flags.mode = some .exclusive) (timeout checkInterval : Option Rat)
    (failWhenLocked : Option Bool) :
    AloneTriple cfg p c (Free p self.filename) (self.acquire timeout checkInterval failWhenLocked)
      (fun h w => HasStored p self.filename true h w ∧ w.held p = true) := by
  refine Hoare.bind (acquireVerified_alone self.toLock rfl rfl hmode timeout checkInterval
    failWhenLocked) fun h => Hoare.bind (acquired_alone fun hs => hs) fun _ =>
      Hoare.pure fun _ _ hs => hs

/-! ## The pid file -/

/-- The client has the lock, and the pid file open. -/
def Publishing (p : ι) (path : Path) (h : Handle ι Path) (pid : Path) (f : Handle ι Path)
    (w : World ι) : Prop :=
  f ≠ h ∧ HasStored p path true h w ∧ HasOpened p pid f w

/-- The pid file contains these bytes. -/
def Contains (pid : Path) (bytes : List UInt8) (w : World ι) : Prop :=
  ∃ i, w.names pid = some i ∧ w.data i = bytes

variable {pid : Path} {f : Handle ι Path} {bytes : List UInt8}

/-- The pid file is opened next to the lock file. -/
theorem openPid_alone : AloneTriple cfg p c (HasStored p path true h)
    (perform (.openFile pid .append)) (Publishing p path h pid) := by
  have hnew : ∀ {w : World ι} {i}, w.Wf → HasStored p path true h w → w.handle p pid i ≠ h := by
    rintro w i hw hs rfl
    have hlt := hw.fh_serial hs.2.1
    simp at hlt
  refine (open_alone (P := fun f w => f ≠ h ∧ HasStored p path true h w)
    (fun hw hs _ => ⟨hnew hw hs, ?_⟩) fun {w i creator} hw hs hn hfresh => ⟨hnew hw hs, ?_⟩).of_post
      fun _ _ _ hs => ⟨hs.2.1, hs.2.2, hs.1⟩
  · obtain ⟨⟨⟨⟨ho, hd, hopen⟩, hpath⟩, hlock⟩, hrest⟩ := hs
    exact ⟨⟨⟨⟨ho, hd, List.mem_cons_of_mem _ hopen⟩, hpath⟩, hlock⟩, hrest⟩
  · obtain ⟨⟨⟨⟨ho, hd, hopen⟩, hpath, hnames⟩, hlock⟩, hrest⟩ := hs
    have hne : path ≠ pid := fun heq => by simp [heq, hn] at hnames
    exact ⟨⟨⟨⟨ho, hd, List.mem_cons_of_mem _ hopen⟩, hpath, by simpa [hne] using hnames⟩, hlock⟩,
      hrest⟩

/-- The content of the pid file is replaced. -/
theorem storePid_alone (self : PidFileLock) :
    AloneTriple cfg p c (Publishing p path h pid f) (self.storePid f)
      (fun _ w => Publishing p path h pid f w ∧ w.data f.ino = self.pidText ∧ w.buffer f = []) := by
  refine Hoare.bind (R := fun _ => Publishing p path h pid f) ?_ fun _ => Hoare.bind
    (R := fun _ w => Publishing p path h pid f w ∧ w.data f.ino = [] ∧ w.buffer f = []) ?_ fun _ =>
      Hoare.bind (R := fun _ w => Publishing p path h pid f w ∧
        w.data f.ino ++ w.buffer f = self.pidText) ?_ fun _ => ?_
  · refine effect_rule (fun _ => ()) (fun w => w.store f (w.data f.ino ++ w.buffer f) [])
      (fun _ _ hs => hs.2.2.1.1) (fun w hs choice => ?_) fun _ _ hs => hs
    simp [Config.act, Config.onOpen, hs.2.2.1.2.2]
  · refine effect_rule (fun _ => ())
      (fun w => (w.store f [] []).record f fun s => ⟨s.handle, true, []⟩)
      (fun _ _ hs => hs.2.2.1.1) (fun w hs choice => ?_) fun w _ hs => ?_
    · simp [Config.act, Config.onOpen, hs.2.2.1.2.2]
    · exact ⟨hs, by simp, by simp⟩
  · -- some of the bytes reach the file, the others wait
    refine alone_rule (fun _ _ hs => hs.1.2.2.1.1) (fun w _ _ hs => ?_) ?_
    · exact ⟨{}, rfl, _, by simp [Config.act, Config.onOpen, hs.1.2.2.1.2.2]; rfl⟩
    · rintro w choice r w' - ⟨hs, hdata, hbuffer⟩ hact
      simp only [Config.act, Config.onOpen, if_pos hs.2.2.1.2.2, Option.ite_none_right_eq_some,
        Option.some.injEq, Prod.mk.injEq] at hact
      obtain ⟨-, rfl, rfl⟩ := hact
      exact ⟨hs, by simp [hdata, hbuffer]⟩
  · refine effect_rule (fun _ => ()) (fun w => w.store f (w.data f.ino ++ w.buffer f) [])
      (fun _ _ hs => hs.1.2.2.1.1) (fun w hs choice => ?_) fun w _ hs => ?_
    · simp [Config.act, Config.onOpen, hs.1.2.2.1.2.2]
    · exact ⟨hs.1, by simp [hs.2], by simp⟩

/-- Closing the pid file leaves the lock alone. -/
theorem closePid_alone :
    AloneTriple cfg p c
      (fun w => Publishing p path h pid f w ∧ w.data f.ino = bytes ∧ w.buffer f = [])
      (perform (.close f)) (fun _ w => HasStored p path true h w ∧ Contains pid bytes w) := by
  refine effect_rule (fun _ => ())
    (fun w => (w.store f (w.data f.ino ++ w.buffer f) []).discard f)
    (fun _ _ hs => hs.1.2.2.1.1) (fun w hs choice => ?_) fun w _ hs => ?_
  · simp [Config.act, hs.1.2.2.1.2.2]
  · obtain ⟨⟨hne, ⟨hlocked, hfh, hconf⟩, -, -, hnames⟩, hdata, hbuffer⟩ := hs
    obtain ⟨⟨⟨ho, hd, hopen⟩, hpath⟩, hlock⟩ := hlocked
    have hne' : h ≠ f := fun heq => hne heq.symm
    refine ⟨⟨⟨⟨⟨ho, hd, by simp [hopen, hne']⟩, hpath⟩, by simp [hlock, hne']⟩, hfh, fun hb => ?_⟩,
      ?_⟩
    · simp [hconf hb, hne']
    · exact ⟨f.ino, hnames, by simp [hdata, hbuffer]⟩

/-- `_write_pid`: whatever the file contained, it contains the pid. -/
theorem writePid_alone {self : PidFileLock} (hpid : self.filename = pid) :
    AloneTriple cfg p c (HasStored p path true h) self.writePid
      (fun _ w => HasStored p path true h w ∧ Contains pid self.pidText w) := by
  subst hpid
  refine Hoare.bind openPid_alone fun f => ?_
  refine Hoare.onRaise (F := fun _ _ => False) (Hoare.bind
    (R := fun _ w => Publishing p path h self.filename f w ∧ w.data f.ino = self.pidText ∧
      w.buffer f = [])
    (Hoare.tryCatch (F := fun _ _ => False) ?_ fun _ => of_nothing) fun _ => ?_) fun _ => of_nothing
  · refine Hoare.bind (storePid_alone self) fun _ => Hoare.tryCatch (F := fun _ _ => False) ?_
      fun _ => of_nothing
    refine effect_rule (fun _ => ()) id (fun _ _ _ => trivial) (fun w hs choice => ?_)
      fun _ _ hs => hs
    simp [Config.act, Config.onOpen, hs.1.2.2.1.2.2]
  · exact closePid_alone

/-- `PidFileLock.acquire`. -/
theorem pidAcquire_alone (self : PidFileLock) (timeout checkInterval : Option Rat)
    (failWhenLocked : Option Bool) :
    AloneTriple cfg p c (Free p self.lockfile) (self.acquire timeout checkInterval failWhenLocked)
      (fun h w => (HasStored p self.lockfile true h w ∧ Contains self.filename self.pidText w) ∧
        w.held p = true) := by
  refine Hoare.onRaise (F := fun _ _ => False) (Hoare.bind (R := fun _ => Free p self.lockfile) ?_
    fun _ => Hoare.bind (R := fun _ => Free p self.lockfile) ?_ fun _ =>
    Hoare.bind (R := HasStored p self.lockfile true) ?_ fun h =>
    Hoare.bind (R := fun _ w => HasStored p self.lockfile true h w ∧
      Contains self.filename self.pidText w) ?_ fun _ =>
    Hoare.bind (R := fun _ w => HasStored p self.lockfile true h w ∧
      Contains self.filename self.pidText w) ?_ fun _ => ?_) fun _ => of_nothing
  · exact effect_rule (fun _ => ()) (fun w => w.discardLock p) (fun _ _ _ => trivial)
      (fun _ _ _ => rfl) fun w _ hs => ⟨Function.update_self .., hs.2⟩
  · exact effect_rule (fun _ => ()) (fun w => w.setInner p true) (fun _ _ _ => trivial)
      (fun _ _ _ => rfl) fun _ _ hs => hs
  · refine Hoare.tryCatch (F := fun _ _ => False) ?_ fun _ => of_nothing
    exact acquireVerified_alone (self.innerLock timeout checkInterval
      (failWhenLocked.getD self.failWhenLocked)) rfl rfl rfl timeout checkInterval _
  · refine Hoare.tryCatch (F := fun _ _ => False) (writePid_alone rfl) fun _ => of_nothing
  · exact effect_rule (fun _ => ())
      (fun w => { w with acquired := Function.update w.acquired p true }) (fun _ _ _ => trivial)
      (fun _ _ _ => rfl) fun _ _ hs => hs
  · refine Hoare.bind fh_alone fun v => ?_
    cases v with
    | none => exact Hoare.of_false fun w _ hs => by simp [hs.2.1.2.1] at hs
    | some k =>
        refine Hoare.bind (Hoare.of_pre (acquired_alone (P := fun w =>
          HasStored p self.lockfile true k w ∧ Contains self.filename self.pidText w)
            fun hs => hs) ?_) fun _ => Hoare.pure fun _ _ hs => hs
        rintro w - ⟨hk, hs⟩
        obtain rfl : h = k := Option.some.inj (hs.1.2.1.symm.trans hk)
        exact hs

end Alone

/-! ## What crashes leave -/

section Crashes

variable {cfg : Config ι} {w w' : World ι} {p q : ι}

theorem Waiting.Faithful.crash (hi : Waiting.Faithful cfg w) :
    Waiting.Faithful cfg (w.crash p) := by
  refine hi.fewer (fun {q k} hstored => ?_) fun {k m} hlocked => ?_
  · by_cases hq : q = p
    · simp [hq] at hstored
    · simpa [Function.update_of_ne hq] using hstored
  · simp only [crash_toFs, Fs.abandon_lock, Option.ite_none_left_eq_some] at hlocked
    exact hlocked.2

/-- The contract of waiting survives crashes. -/
theorem waiting_survives {g : Guard (machine cfg)} :
    (Waiting.waitingContract cfg g).toDiscipline.Survives World.crash where
  inv := fun hw => ⟨hw.1.crash, hw.2.1, Waiting.Faithful.crash hw.2.2⟩
  rely := fun _ _ hq => ⟨undisturbed_of_crash hq, fun _ _ hd => hd⟩

theorem waiting_holds_crashing (hquiet : Waiting.DropsQuiet cfg) {s : (crashable cfg).State}
    (hs : Reach (NoneClaimed cfg) (Guard.free (crashable cfg)) s) :
    ((Waiting.waitingContract cfg (Guard.free (machine cfg))).toDiscipline.crashing
      waiting_survives).Holds s := by
  refine ((Waiting.waiting_verified hquiet).crashing waiting_survives).sound ?_ hs
  intro W h0
  have h0 : Unclaimed (W.1 : World ι) := h0
  exact ⟨⟨h0.wf, h0.fresh, Waiting.Unclaimed.faithful h0⟩,
    fun _ => Or.inr fun k _ _ _ => h0.unlocked k⟩

/-- Files are opened by the client whose operation it is. -/
theorem opened_of_change {o : Op ι} (hc : Change cfg p w o w') {h : Handle ι Path}
    (hh : h ∈ w'.opened) : h ∈ w.opened ∨ h.owner = p := by
  cases hc with
  | openAt | openEmptied | create =>
      rcases List.mem_cons.1 hh with rfl | hh
      · exact Or.inr rfl
      · exact Or.inl hh
  | close h' ho content hcontent => exact Or.inl (List.mem_filter.1 hh).1
  | _ => exact Or.inl hh

/-- Whoever has crashed has no file open. -/
theorem crashed_gone {s : (crashable cfg).State}
    (hs : Reach (NoneClaimed cfg) (Guard.free (crashable cfg)) s) {h : Handle ι Path}
    (hh : h ∈ Fs.opened (World.toFs s.world.1)) : s.world.2 h.owner = false := by
  induction hs generalizing h with
  | start h0 =>
      rw [Unclaimed.opened h0] at hh
      cases hh
  | @step s s' l hs hg hn ih =>
      cases l with
      | call p c =>
          obtain ⟨-, rfl⟩ := next_call hn
          exact ih hh
      | op p choice =>
          obtain ⟨c, o, k, r, -, hperform, -⟩ := next_op hn
          obtain ⟨hlive, hperform, hsame⟩ := perform_crashing hperform
          rw [hsame]
          rcases opened_of_change (Config.performOp_change hperform) hh with hold | rfl
          · exact ih hold
          · exact hlive
      | event e =>
          rcases event_crashing (next_event hn).1 with ⟨e', -, he, hsame⟩ | ⟨q, -, heq, hcrashed⟩
          · obtain ⟨-, -, heq⟩ := Config.finalize_cases he
            rw [heq] at hh
            rw [hsame]
            exact ih (List.mem_filter.1 hh).1
          · rw [heq] at hh
            obtain ⟨hold, hne⟩ := List.mem_filter.1 hh
            have hne : h.owner ≠ q := by simpa using hne
            rw [hcrashed, Function.update_of_ne hne]
            exact ih hold

end Crashes

/-! ## The system -/

section System

variable {cfg : Config ι} {p : ι} {path : Path}

/-- The lock files that are locked exclusively. -/
def Exclusively : Instance → Prop
  | .temporaryFileLock self => self.flags.mode = some .exclusive
  | .pidFileLock _ => True
  | _ => False

/-- The client has its lock, and its pid file, if there is one, says so. -/
def Recovered (cfg : Config ι) (p : ι) (w : World ι) : Prop :=
  (∃ h path, w.fh p = some h ∧ (cfg.object p).lockPath = some path ∧ w.Owns path h ∧
    w.confirmed h = true) ∧ w.held p = true ∧
  ∀ self, cfg.object p = .pidFileLock self → Contains self.filename self.pidText w

/-- The call of a client that is left alone while the path is free. -/
theorem acquire_safe {w : World ι} (hw : w.Wf) (hfinite : Finite w)
    (hexclusive : Exclusively (cfg.object p)) (hpath : (cfg.object p).lockPath = some path)
    (hfree : Free p path w) (timeout checkInterval : Option Rat) (b : Option Bool) :
    (leftAlone cfg p (.acquire timeout checkInterval b)).Safe
      ((machine cfg).body p (.acquire timeout checkInterval b))
      (fun _ => Recovered cfg p) w := by
  cases hobject : cfg.object p with
  | lock self | rLock self | boundedSemaphore self =>
      rw [hobject] at hexclusive
      exact hexclusive.elim
  | temporaryFileLock self =>
      rw [hobject] at hexclusive hpath
      obtain rfl : self.filename = path := Option.some.inj hpath
      simp only [machine, hobject]
      refine Hoare.toCall (I := Recovered cfg p) inferInstance
        ((temporaryAcquire_alone hexclusive timeout checkInterval b).conseq (fun _ _ h => h) ?_
          fun _ _ _ h => h.elim) ⟨hw, hfinite⟩ hfree
      rintro h w' - ⟨⟨⟨⟨-, -, hnames⟩, hlock⟩, hfh, hconf⟩, hheld⟩
      refine ⟨⟨h, self.filename, hfh, by rw [hobject]; rfl, ⟨hnames, hlock⟩, hconf rfl⟩, hheld, ?_⟩
      intro other hother
      rw [hobject] at hother
      cases hother
  | pidFileLock self =>
      rw [hobject] at hpath
      obtain rfl : self.lockfile = path := Option.some.inj hpath
      simp only [machine, hobject]
      refine Hoare.toCall (I := Recovered cfg p) inferInstance
        ((pidAcquire_alone self timeout checkInterval b).conseq (fun _ _ h => h) ?_
          fun _ _ _ h => h.elim) ⟨hw, hfinite⟩ hfree
      rintro h w' - ⟨⟨⟨⟨⟨-, -, hnames⟩, hlock⟩, hfh, hconf⟩, hcontent⟩, hheld⟩
      refine ⟨⟨h, self.lockfile, hfh, by rw [hobject]; rfl, ⟨hnames, hlock⟩, hconf rfl⟩, hheld, ?_⟩
      intro other hother
      rw [hobject] at hother
      cases hother
      exact hcontent

/-- After crashes.  Once the instances that live are between two calls, none of them has a
path's lock file, and those that have been given up are closed, an instance that is left
alone acquires the path, whatever those that crashed have left in the files. -/
theorem acquires_after_crashes (hquiet : Waiting.DropsQuiet cfg) {s : (crashable cfg).State}
    (hs : Reach (NoneClaimed cfg) (Guard.free (crashable cfg)) s)
    (hexclusive : Exclusively (cfg.object p)) (hpath : (cfg.object p).lockPath = some path)
    (hlive : s.world.2 p = false) (hnone : World.fh s.world.1 p = none)
    (hidle : ∀ q, s.world.2 q = false → s.thread q = none)
    (hnobody : ∀ q h, s.world.2 q = false → World.fh s.world.1 q = some h → h.path ≠ path)
    (hcollected : ∀ h ∈ Fs.opened (World.toFs s.world.1), h.path = path →
      World.dropped s.world.1 h = false)
    (timeout checkInterval : Option Rat) (b : Option Bool) :
    (∃ ls s', OnlyOps p (fun choice => Choice.fault choice = none) ls ∧ s'.thread p = none ∧
      run (.call p (Call.acquire timeout checkInterval b) :: ls) s = some s') ∧
    ∀ ls s', OnlyOps p (fun choice => Choice.fault choice = none) ls → s'.thread p = none →
      run (.call p (Call.acquire timeout checkInterval b) :: ls) s = some s' →
      Recovered cfg p s'.world.1 := by
  have hhold := waiting_holds_crashing hquiet hs
  obtain ⟨hw, hfinite, -⟩ : World.Wf s.world.1 ∧ Finite s.world.1 ∧
    Waiting.Faithful cfg s.world.1 := hhold.1
  have hfree : Free p path s.world.1 := by
    refine ⟨hnone, fun k hk => ?_⟩
    by_contra hlocked
    obtain ⟨m, hm⟩ := Option.ne_none_iff_exists'.1 hlocked
    have hopen := hw.fs.opened_of_lock hm
    have hkpath : k.path = path := hw.fs.path_of_names hopen hk
    have howner := crashed_gone hs hopen
    have hrest : Waiting.Rest k.owner s.world.1 :=
      (hhold.idle (hidle k.owner howner)).resolve_left (by simp [howner])
    have hstored : World.fh s.world.1 k.owner = some k := by
      by_contra hne
      exact hlocked (hrest k rfl (hcollected k hopen hkpath) hne)
    exact hnobody k.owner k howner hstored hkpath
  have hsafe := (acquire_safe hw hfinite hexclusive hpath hfree timeout checkInterval
    b).after_crashes World.crash hlive
  refine ⟨?_, fun ls s' hops hdone hrun => hsafe.call_ends ⟨⟨hw, hfinite⟩, hlive⟩ hops hrun hdone⟩
  obtain ⟨ls, s', hops, hrun, hdone, -⟩ :=
    hsafe.call_completes ⟨⟨hw, hfinite⟩, hlive⟩ (hidle p hlive)
  exact ⟨ls, s', hops, hdone, hrun⟩

end System

/-- Two `PidFileLock`s of one path, in processes with the pids 7 and 8. -/
def twoProcesses : Config Bool where
  object first := .pidFileLock { filename := ['p'], getpid := if first then 7 else 8 }
  mayRaise _ _ _ := false

/-- The first one publishes its pid and crashes. -/
def twoProcesses.crashes : List (crashable twoProcesses).Label :=
  .call true (.acquire none none none) :: (List.range 18).map (fun i => .op true { ino := i }) ++
    [.event (.inr true)]

/-- The file shows the pid of the process that is gone, until the other one acquires. -/
theorem acquires_after_crashes_run :
    ∃ s s' ls, run twoProcesses.crashes ⟨(World.empty, fun _ => false), fun _ => none⟩ = some s ∧
      s.world.2 true = true ∧ Contains ['p'] (encode (str 7)) s.world.1 ∧
      run (.call false (Call.acquire none none none) :: ls) s = some s' ∧
      Contains ['p'] (encode (str 8)) s'.world.1 := by
  have hobserve : (run twoProcesses.crashes ⟨(World.empty, fun _ => false), fun _ => none⟩).map
      (fun s => (Fs.opened (World.toFs s.world.1), s.world.2 true, s.world.2 false,
        World.fh s.world.1 false, (s.thread false).map Prod.fst,
        Fs.names (World.toFs s.world.1) ['p'], Fs.data (World.toFs s.world.1) 8)) =
      some ([], true, false, none, none, some 8, encode (str 7)) := by rfl
  obtain ⟨s, hrun, hs⟩ := Option.map_eq_some_iff.1 hobserve
  obtain ⟨hopened, hs⟩ := Prod.mk.inj hs
  obtain ⟨hcrashed, hs⟩ := Prod.mk.inj hs
  obtain ⟨hlive, hs⟩ := Prod.mk.inj hs
  obtain ⟨hfh, hs⟩ := Prod.mk.inj hs
  obtain ⟨hthread, hs⟩ := Prod.mk.inj hs
  obtain ⟨hnames, hdata⟩ := Prod.mk.inj hs
  have hreach : Reach (NoneClaimed twoProcesses) (Guard.free (crashable twoProcesses)) s :=
    (Reach.start empty_unclaimed).run hrun
  have hdead : ∀ q, s.world.2 q = false → q = false := by
    intro q hq
    cases q with
    | false => rfl
    | true =>
        rw [hcrashed] at hq
        cases hq
  obtain ⟨⟨ls, s', hops, hdone, hacquire⟩, hrecovered⟩ :=
    acquires_after_crashes (fun _ _ _ => rfl) hreach (p := false) trivial rfl hlive hfh
      (fun q hq => hdead q hq ▸ Option.map_eq_none_iff.1 hthread)
      (fun q h hq hstored => by
        rw [hdead q hq, hfh] at hstored
        cases hstored)
      (fun h hh => by simp [hopened] at hh) none none none
  obtain ⟨-, -, hpid⟩ := hrecovered ls s' hops hdone hacquire
  exact ⟨s, s', ls, hrun, hcrashed, ⟨8, hnames, hdata⟩, hacquire, hpid _ rfl⟩

end Recovery

end Portalocker
