import Portalocker.Utils.Publication
set_option autoImplicit false
set_option linter.unusedSectionVars false

/-!
# Every call of a lock file instance keeps the contract

The release and the reading of `PidFileLock`, and then all calls together
(`ownership_verified`): the contract holds in every run whose releases find
settled instances.
-/

namespace Portalocker

open Posix Interleaving Interleaving.Machine World Contract

variable {ι : Type} [DecidableEq ι]

section Triples

variable {cfg : Config ι} {hcfg : Separated cfg} {clean : Prop} {g : Guard (machine cfg)}
  {p : ι} {c : Call}

/-! ## `release` -/

/-- A verified instance whose pid file is gone. -/
def Unpublished (clean : Prop) (cfg : Config ι) (p : ι) (h : Handle ι Path) (w : World ι) : Prop :=
  w.Verified p h ∧ (clean → ∀ pid, (cfg.object p).pidPath = some pid → w.names pid = none)

instance stable_unpublished (h : Handle ι Path) :
    ((ownershipContract cfg hcfg clean g).ctx p c).Stable (Unpublished clean cfg p h) := by
  refine stable_of ?_
  rintro w w' hw - - hu hr ⟨hv, hnone⟩
  refine ⟨verified_stable hw hu hv, fun hc pid hpid => ?_⟩
  rw [(hr hc).1 h pid (hw.fh_owner hv.1) (hw.fh_dropped hv.1) hv hpid]
  exact hnone hc pid hpid

variable (hclean : clean → Faultless cfg)
include hclean

variable {self : PidFileLock} (hobject : cfg.object p = .pidFileLock self)
include hobject

/-- `os.unlink` of the own pid file by a verified instance. -/
theorem unlinkPid_own (h : Handle ι Path) :
    OwnTriple hcfg clean g p c (fun w => w.Verified p h) (unlinkIfPresent self.filename)
      (fun _ => Unpublished clean cfg p h) (fun _ _ => ¬ clean) := by
  have hpid : (cfg.object p).pidPath = some self.filename := by rw [hobject]; rfl
  have honly : ∀ {w : World ι}, w.names self.filename = none →
      ∀ pid, (cfg.object p).pidPath = some pid → w.names pid = none := by
    intro w hn pid hpid'
    rw [hpid] at hpid'
    exact Option.some.inj hpid' ▸ hn
  refine Hoare.suppress (F := fun e w => Unpublished clean cfg p h w ∧
    (clean → e = .osError .ENOENT)) (own_rule hclean ?_ ?_ ?_) (fun e w _ _ hs => hs.1) ?_
  · exact fun w _ _ _ hs => ⟨trivial, ⟨⟨h, hs⟩, Or.inr hpid⟩,
      fun _ hlock => absurd hlock (hcfg.apart hpid)⟩
  · intro w choice r w' hw hi _ hv hact
    simp only [Config.act] at hact
    split at hact
    · simp only [Option.some.injEq, Prod.mk.injEq] at hact
      obtain ⟨rfl, rfl⟩ := hact
      have hne : h.path ≠ self.filename := fun heq =>
        hcfg.apart hpid (heq ▸ hi.path hv.1)
      exact ⟨⟨hv.1, by simp [hv.2, hne]⟩, fun _ => honly (by simp)⟩
    · rename_i hn
      simp only [Option.some.injEq, Prod.mk.injEq] at hact
      obtain ⟨rfl, rfl⟩ := hact
      exact ⟨⟨hv, fun _ => honly hn⟩, fun _ => rfl⟩
  · exact fun w e _ _ hc hv => ⟨⟨hv, fun h => absurd h hc⟩, fun h => absurd h hc⟩
  · intro e w _ he hs hc
    simp [Exc.isFileNotFound, hs.2 hc] at he

theorem PidFileLock.release_own :
    OwnTriple hcfg clean g p c
      (fun w => Settled cfg p w ∧ (ownershipContract cfg hcfg clean g).idle p w) self.release
      (fun _ => (ownershipContract cfg hcfg clean g).idle p)
      (fun _ => (ownershipContract cfg hcfg clean g).idle p) := by
  have hpid : (cfg.object p).pidPath = some self.filename := by rw [hobject]; rfl
  have hlock : (cfg.object p).lockPath = some self.lockfile := by rw [hobject]; rfl
  have hunclean : ∀ {w : World ι}, ¬ clean → (ownershipContract cfg hcfg clean g).idle p w :=
    fun hc h => absurd h hc
  refine Hoare.bind ((innerLock_own hclean).conseq (fun _ _ hs => hs) (fun _ _ _ hs => hs)
    fun _ _ _ => hunclean) fun b => ?_
  cases b with
  | false => exact Hoare.pure fun w _ hs => hs.2.2
  | true =>
      refine Hoare.bind (R := fun _ => Vacant clean p) (Hoare.of_pre (Hoare.of_exists
        (P := fun h w => w.Verified p h) fun h => ?_) ?_) fun _ => Hoare.pure fun w _ hs => hs.idle
      · have hcleanup : OwnTriple hcfg clean g p c (fun w => clean → Unconfirmed p h w) (do
            perform (.setInnerLock false)
            Code.suppress Exc.isException self.heldLock.release)
            (fun _ => Vacant clean p) (fun _ _ => ¬ clean) := by
          refine Hoare.bind (setInner_own hclean false fun _ hs => hs) fun _ => ?_
          refine suppress_rule ((releaseKeeping_own hclean rfl false).conseq
            (fun w _ hs => ⟨hs.1, fun hc => Or.inr ⟨h, hs.2 hc⟩⟩)
            (fun _ w _ hs hc => ⟨hs.2 hc, hs.1⟩) fun e w _ hc => ?_)
          unfold Caught
          split
          · exact fun h => absurd h hc
          · exact hc
        refine Hoare.conseq (Hoare.withFinally (R := fun _ w => clean → Unconfirmed p h w)
          (F := fun _ _ => ¬ clean) (Q := fun _ => Vacant clean p) (E := fun _ _ => ¬ clean)
          (Hoare.bind (unlinkPid_own hclean hobject h) fun _ => unlinkLock_own hclean hlock h)
          (fun _ => hcleanup) fun e => ?_) (fun _ _ hs => hs) (fun _ _ _ hs => hs)
          fun _ _ _ => hunclean
        exact unclean_rule fun hc => hcleanup.conseq (fun w _ _ h => absurd h hc)
          (fun _ _ _ _ => hc) fun _ _ _ _ => hc
      · rintro w - ⟨hinner, hs, -⟩
        simp only [Settled, hpid, hinner, Bool.true_eq_false, false_or] at hs
        exact hs

theorem PidFileLock.exit_own :
    OwnTriple hcfg clean g p c (fun w => (w.acquired p = true → Settled cfg p w) ∧
        (ownershipContract cfg hcfg clean g).idle p w) self.exit
      (fun _ => (ownershipContract cfg hcfg clean g).idle p)
      (fun _ => (ownershipContract cfg hcfg clean g).idle p) := by
  have hunclean : ∀ {w : World ι}, ¬ clean → (ownershipContract cfg hcfg clean g).idle p w :=
    fun hc h => absurd h hc
  have hstable : ((ownershipContract cfg hcfg clean g).ctx p c).Stable
      fun w => w.acquired p = true → Settled cfg p w :=
    stable_of fun hw _ _ hu _ hs hacquired => settled_stable hw hu (hs (hu.acquired ▸ hacquired))
  refine Hoare.bind ((acquiredLock_own hclean).conseq (fun _ _ hs => hs) (fun _ _ _ hs => hs)
    fun _ _ _ => hunclean) fun b => ?_
  cases b with
  | false => exact Hoare.pure fun w _ hs => hs.2.2
  | true =>
      refine Hoare.bind ((PidFileLock.release_own hclean hobject).of_pre
        fun w _ hs => ⟨hs.2.1 hs.1, hs.2.2⟩) fun _ => ?_
      exact (setAcquired_own hclean false fun _ hs => hs).conseq (fun _ _ hs => hs)
        (fun _ _ _ hs => hs) fun _ _ _ => hunclean

/-! ## `read_pid` -/

/-- The file at the pid path that the instance has open for reading: whoever
created it was verified since the call began. -/
def Reading (clean : Prop) (cfg : Config ι) (p : ι) (path : Path) (h : Handle ι Path)
    (w : World ι) : Prop :=
  h.owner = p ∧ h.path = path ∧ (clean → Opened p h w ∧ BufferIs p h [] w ∧
    ∃ q, (cfg.object q).pidPath = some path ∧ w.creator h.ino = some q ∧ w.seen p q = true)

/-- These bytes have been read from it. -/
def Answered (clean : Prop) (cfg : Config ι) (p : ι) (content : List UInt8) (w : World ι) : Prop :=
  clean → ∃ q, (cfg.object q).pidPath = (cfg.object p).pidPath ∧ Publishes cfg q content ∧
    w.seen p q = true

omit hclean hobject in
instance stable_reading (path : Path) (h : Handle ι Path) :
    ((ownershipContract cfg hcfg clean g).ctx p c).Stable (Reading clean cfg p path h) := by
  refine stable_of ?_
  rintro w w' - - - hu - ⟨ho, hpath, hs⟩
  refine ⟨ho, hpath, fun hc => ?_⟩
  obtain ⟨⟨-, hd, hopen⟩, ⟨-, -, hb⟩, q, hq, hcreator, hseen⟩ := hs hc
  have hsame := hu.handle h ho hd
  have hd' := hsame.dropped.trans hd
  exact ⟨⟨ho, hd', hsame.file.mem.2 hopen⟩, ⟨ho, hd', hsame.file.buffer.trans hb⟩, q, hq,
    (hsame.creator hopen).trans hcreator, hu.seen q hseen⟩

omit hclean hobject in
instance stable_answered (content : List UInt8) :
    ((ownershipContract cfg hcfg clean g).ctx p c).Stable (Answered clean cfg p content) := by
  refine stable_of fun hw _ _ hu _ hs hc => ?_
  obtain ⟨q, hq, hpub, hseen⟩ := hs hc
  exact ⟨q, hq, hpub, hu.seen q hseen⟩

/-- Opening the pid file for reading. -/
theorem openReading_own :
    OwnTriple hcfg clean g p c ((ownershipContract cfg hcfg clean g).idle p)
      (perform (.openFile self.filename .read))
      (fun h w => Reading clean cfg p self.filename h w ∧
        (ownershipContract cfg hcfg clean g).idle p w)
      (fun _ => (ownershipContract cfg hcfg clean g).idle p) := by
  have hpid : (cfg.object p).pidPath = some self.filename := by rw [hobject]; rfl
  refine own_rule hclean ?_ ?_ fun w e _ _ hc _ h => absurd h hc
  · exact fun w _ _ _ _ => ⟨by simp [Own], Or.inr hpid, fun _ _ h => absurd rfl h⟩
  · intro w choice r w' hw hi ht hidle hact
    simp only [Config.act] at hact
    split at hact
    · rename_i i hn
      simp only [Option.some.injEq, Prod.mk.injEq] at hact
      obtain ⟨rfl, rfl⟩ := hact
      refine ⟨⟨rfl, rfl, fun hc => ?_⟩, hidle⟩
      have hundropped : w.dropped (w.handle p self.filename i) = false :=
        Bool.eq_false_iff.2 fun hd => absurd (hw.dropped_serial hd) (by simp)
      obtain ⟨q, l, hq, hl, hcreator⟩ := (ht hc).published hpid hn
      exact ⟨⟨rfl, hundropped, by simp⟩,
        ⟨rfl, hundropped, hw.fs.buffer_open hw.fs.handle_not_mem⟩, q, hq, hcreator,
        (ht hc).seen p hl⟩
    · simp only [Option.some.injEq, Prod.mk.injEq] at hact
      obtain ⟨rfl, rfl⟩ := hact
      exact hidle

/-- Reading the whole file. -/
theorem read_own (h : Handle ι Path) :
    OwnTriple hcfg clean g p c (fun w => Reading clean cfg p self.filename h w ∧
        (ownershipContract cfg hcfg clean g).idle p w) (perform (.read h))
      (fun content w => Answered clean cfg p content w ∧
        Reading clean cfg p self.filename h w ∧ (ownershipContract cfg hcfg clean g).idle p w)
      (fun _ w => ¬ clean ∧ Reading clean cfg p self.filename h w) := by
  have hpid : (cfg.object p).pidPath = some self.filename := by rw [hobject]; rfl
  refine own_rule hclean (fun w _ _ _ _ => ⟨trivial, trivial, fun _ => trivial⟩) ?_
    fun w e _ _ hc hs => ⟨hc, hs.1⟩
  intro w choice r w' _ _ ht hs hact
  simp only [Config.act, Config.onOpen] at hact
  split at hact
  · simp only [Option.some.injEq, Prod.mk.injEq] at hact
    obtain ⟨rfl, rfl⟩ := hact
    refine ⟨fun hc => ?_, hs⟩
    obtain ⟨-, -, q, hq, hcreator, hseen⟩ := hs.1.2.2 hc
    exact ⟨q, hq.trans hpid.symm, (ht hc).content hcreator, hseen⟩
  · simp only [Option.some.injEq, Prod.mk.injEq] at hact
    obtain ⟨rfl, rfl⟩ := hact
    exact ⟨fun hc => absurd (hs.1.2.2 hc).1.2.2 ‹_›, hs.1⟩

/-- Closing it again. -/
theorem closeReading_own (hcall : ¬ IsRelease c) (h : Handle ι Path) (content : List UInt8) :
    OwnTriple hcfg clean g p c (fun w => Answered clean cfg p content w ∧
        Reading clean cfg p self.filename h w ∧ (ownershipContract cfg hcfg clean g).idle p w)
      (perform (.close h))
      (fun _ w => Answered clean cfg p content w ∧
        (ownershipContract cfg hcfg clean g).idle p w)
      (fun _ _ => ¬ clean) := by
  refine own_rule hclean ?_ ?_ fun w e _ _ hc _ => hc
  · rintro w - hi - ⟨-, ⟨ho, hpath, hs⟩, -⟩
    refine ⟨ho, trivial, fun hc => ⟨unconfirmed_pidFile hobject hcfg hi hpath, Or.inl ?_⟩⟩
    rw [(hs hc).2.1.2.2, List.append_nil]
  · rintro w choice r w' hw hi - ⟨hanswer, ⟨ho, hpath, hs⟩, hidle⟩ hact
    have hconf := unconfirmed_pidFile hobject hcfg hi hpath
    simp only [Config.act] at hact
    split at hact <;>
      (simp only [Option.some.injEq, Prod.mk.injEq] at hact; obtain ⟨rfl, rfl⟩ := hact)
    · refine ⟨hanswer, fun hc => (hidle hc).imp id ?_⟩
      rintro ⟨k, hk, hheld⟩
      have hne : k ≠ h := fun heq => by
        rw [heq] at hk
        exact absurd (hconf.symm.trans hk.2) (by simp)
      exact ⟨k, ⟨hk.1, by simpa [Function.update_of_ne hne] using hk.2⟩, hheld⟩
    · exact ⟨hanswer, hidle⟩

/-- What `read_pid` is about to return is the pid of an instance that was verified
since the call began, or nothing. -/
def Returns (clean : Prop) (cfg : Config ι) (p : ι) (v : Option Int) (w : World ι) : Prop :=
  clean → ∀ n, v = some n → ∃ q, HolderPid cfg (cfg.object p).pidPath q n ∧ w.seen p q = true

omit hclean hobject in
instance stable_returns (v : Option Int) :
    ((ownershipContract cfg hcfg clean g).ctx p c).Stable (Returns clean cfg p v) := by
  refine stable_of fun hw _ _ hu _ hs hc n hn => ?_
  obtain ⟨q, hq, hseen⟩ := hs hc n hn
  exact ⟨q, hq, hu.seen q hseen⟩

omit hclean hobject in
theorem Answered.returns {content : List UInt8} {w : World ι}
    (hs : Answered clean cfg p content w) : Returns clean cfg p (parsePid content) w := by
  intro hc n hn
  obtain ⟨q, hq, ⟨other, hother, hcontent⟩, hseen⟩ := hs hc
  rcases hcontent with rfl | rfl
  · simp [parsePid_nil] at hn
  · rw [parsePid_pidText] at hn
    exact ⟨q, ⟨other, hother, hq, (Option.some.inj hn).symm⟩, hseen⟩

theorem PidFileLock.readPid_own (hcall : ¬ IsRelease c) :
    OwnTriple hcfg clean g p c ((ownershipContract cfg hcfg clean g).idle p) self.readPid
      (fun _ => (ownershipContract cfg hcfg clean g).idle p)
      (fun _ => (ownershipContract cfg hcfg clean g).idle p) := by
  have hunclean : ∀ {w : World ι}, ¬ clean → (ownershipContract cfg hcfg clean g).idle p w :=
    fun hc h => absurd h hc
  have hnone : ∀ {w : World ι}, Returns clean cfg p none w := fun _ n hn => by simp at hn
  refine Hoare.bind (R := fun _ => (ownershipContract cfg hcfg clean g).idle p)
    (own_rule hclean (fun w _ _ _ _ => ⟨trivial, trivial, fun _ => trivial⟩) ?_
      fun w e _ _ hc _ => hunclean hc) fun _ => ?_
  · intro w choice r w' _ _ _ hs hact
    simp only [Config.act, Option.some.injEq, Prod.mk.injEq] at hact
    obtain ⟨rfl, rfl⟩ := hact
    exact hs
  refine Hoare.bind (R := fun v w => Returns clean cfg p v w ∧
    (ownershipContract cfg hcfg clean g).idle p w) (Hoare.tryCatch
      (F := fun _ => (ownershipContract cfg hcfg clean g).idle p) ?_ fun e => ?_) fun v => ?_
  · refine Hoare.bind (R := fun _ => (ownershipContract cfg hcfg clean g).idle p)
      (own_rule hclean (fun w _ _ _ _ => ⟨trivial, trivial, fun _ => trivial⟩) ?_
        fun w e _ _ hc _ => hunclean hc) fun b => ?_
    · intro w choice r w' _ _ _ hs hact
      simp only [Config.act, Option.some.injEq, Prod.mk.injEq] at hact
      obtain ⟨rfl, rfl⟩ := hact
      exact hs
    cases b with
    | false => exact Hoare.pure fun w _ hs => ⟨hnone, hs⟩
    | true =>
        refine Hoare.bind (openReading_own hclean hobject) fun h => ?_
        refine Hoare.bind (R := fun r w => Answered clean cfg p r.1 w ∧
            (ownershipContract cfg hcfg clean g).idle p w) (Hoare.conseq (Hoare.withFinally
          (R := fun content w => Answered clean cfg p content w ∧
            Reading clean cfg p self.filename h w ∧
            (ownershipContract cfg hcfg clean g).idle p w)
          (F := fun _ w => ¬ clean ∧ Reading clean cfg p self.filename h w)
          (Q := fun r w => Answered clean cfg p r.1 w ∧
            (ownershipContract cfg hcfg clean g).idle p w) (E := fun _ _ => ¬ clean)
          (read_own hclean hobject h) (closeReading_own hclean hobject hcall h) fun e => ?_)
          (fun _ _ hs => hs) (fun _ _ _ hs => hs) fun _ _ _ => hunclean) fun r => ?_
        · refine Hoare.of_fact fun hc => ?_
          exact (closeReading_own hclean hobject hcall h []).conseq
            (fun w _ hs => ⟨fun h => absurd h hc, hs, hunclean hc⟩) (fun _ _ _ _ => hc)
            fun _ _ _ _ => hc
        · exact Hoare.pure fun w _ hs => ⟨hs.1.returns, hs.2⟩
  · split
    · exact Hoare.pure fun w _ hs => ⟨hnone, hs⟩
    · exact Hoare.throw fun w _ hs => hs
  · refine Hoare.bind (R := fun _ => (ownershipContract cfg hcfg clean g).idle p)
      (own_rule hclean (fun w _ _ _ hs => ⟨trivial, trivial, hs.1⟩) ?_
        fun w e _ _ hc _ => hunclean hc) fun _ => Hoare.pure fun w _ hs => hs
    intro w choice r w' _ _ _ hs hact
    simp only [Config.act, Option.some.injEq, Prod.mk.injEq] at hact
    obtain ⟨rfl, rfl⟩ := hact
    exact hs.2

theorem PidFileLock.enter_own (hcall : ¬ IsRelease c) :
    OwnTriple hcfg clean g p c (Vacant clean p) self.enter
      (fun _ => (ownershipContract cfg hcfg clean g).idle p)
      (fun _ => (ownershipContract cfg hcfg clean g).idle p) := by
  refine Hoare.tryCatch (F := fun _ => (ownershipContract cfg hcfg clean g).idle p)
    (Hoare.bind ((PidFileLock.acquire_own hclean hobject hcall none none none).conseq (fun _ _ hs => hs)
      (fun _ _ _ hs => hs) fun _ _ _ hs => hs.idle) fun _ => Hoare.pure fun _ _ hs => hs)
    fun e => ?_
  split
  · exact PidFileLock.readPid_own hclean hobject hcall
  · exact Hoare.throw fun _ _ hs => hs

end Triples

/-! ## All calls -/

/-- The calls that release. -/
def Releases (cfg : Config ι) (p : ι) (w : World ι) : Call → Prop
  | .release => True
  | .exit => (cfg.object p).pidPath = none ∨ w.acquired p = true
  | _ => False

/-- The calls that acquire. -/
def Acquires : Call → Prop
  | .acquire _ _ _ | .enter => True
  | _ => False

section Verified

variable {cfg : Config ι} {clean : Prop} {g : Guard (machine cfg)}

/-- Every call keeps the contract, if releases find settled instances and, where
nothing fails, no `PidFileLock` is acquired again while it is held. -/
theorem ownership_verified (hcfg : Separated cfg) (hclean : clean → Faultless cfg)
    (hrelease : ∀ p c w, g.call p c w → Releases cfg p w c → ¬ clean → Settled cfg p w)
    (hacquire : ∀ p (c : Call) w, g.call p c w → Acquires c → (cfg.object p).pidPath ≠ none →
      clean → World.held w p = false) :
    (ownershipContract cfg hcfg clean g).toDiscipline.Verified := by
  intro p (c : Call) w hw hidle hg
  have hstable : ((ownershipContract cfg hcfg clean g).ctx p c).Stable
      ((ownershipContract cfg hcfg clean g).idle p) := inferInstance
  have hdone : ((ownershipContract cfg hcfg clean g).ctx p c).Safe (.ret ())
      (fun _ => (ownershipContract cfg hcfg clean g).idle p) w :=
    fun w' hw' hr => hstable.keep hw hw' hr hidle
  have hsettled : Releases cfg p w c → Settled cfg p w := fun hc => by
    by_cases h : clean
    · exact (hidle h).settled
    · exact hrelease p c w hg hc h
  rcases hcfg.object p with ⟨self, hobject, hflags⟩ | ⟨self, hobject⟩
  · have hpid : (cfg.object p).pidPath = none := by rw [hobject]; rfl
    simp only [machine, hobject]
    cases c with
    | acquire timeout checkInterval failWhenLocked =>
        exact Hoare.toCall hstable
          (TemporaryFileLock.acquire_own hclean hobject (by simp [IsRelease]) hflags _ _ _) hw hidle
    | enter =>
        exact Hoare.toCall hstable
          (TemporaryFileLock.acquire_own hclean hobject (by simp [IsRelease]) hflags _ _ _) hw hidle
    | release =>
        exact Hoare.toCall hstable (TemporaryFileLock.release_own hclean hobject) hw
          (hsettled trivial)
    | exit =>
        exact Hoare.toCall hstable (TemporaryFileLock.release_own hclean hobject) hw
          (hsettled (Or.inl hpid))
    | readPid | write | flush => exact hdone
  · have hpid : (cfg.object p).pidPath ≠ none := by rw [hobject]; simp [Instance.pidPath]
    have hvacant : Acquires c → Vacant clean p w := by
      intro hc h
      rcases hidle h with ⟨hfh, hinner⟩ | ⟨k, -, hheld⟩
      · exact ⟨hfh, hinner hpid⟩
      · exact absurd ((hacquire p c w hg hc hpid h).symm.trans hheld) (by simp)
    simp only [machine, hobject]
    cases c with
    | acquire timeout checkInterval failWhenLocked =>
        exact Hoare.toCall hstable ((PidFileLock.acquire_own hclean hobject (by simp [IsRelease]) _ _ _).conseq
          (fun _ _ hs => hs) (fun _ _ _ hs => hs) fun _ _ _ hs => hs.idle) hw (hvacant trivial)
    | enter =>
        exact Hoare.toCall hstable (PidFileLock.enter_own hclean hobject (by simp [IsRelease])) hw (hvacant trivial)
    | release =>
        exact Hoare.toCall hstable (PidFileLock.release_own hclean hobject) hw
          ⟨hsettled trivial, hidle⟩
    | exit =>
        exact Hoare.toCall hstable (PidFileLock.exit_own hclean hobject) hw
          ⟨fun h => hsettled (Or.inr h), hidle⟩
    | readPid => exact Hoare.toCall hstable (PidFileLock.readPid_own hclean hobject (by simp [IsRelease])) hw hidle
    | write | flush => exact hdone

end Verified

end Portalocker
