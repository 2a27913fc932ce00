import Portalocker.Utils.LockFileCalls
set_option autoImplicit false
set_option linter.unusedSectionVars false

/-!
# Exclusion of lock files, and what a release may destroy

The results of the contract of `Utils/Ownership.lean` over whole runs.  Without
failures and interrupts, `TemporaryFileLock` and `PidFileLock` exclude each other
and a pid file names the holder.  With failures and interrupts at any operation, a
release destroys nobody else's files as long as it finds a settled instance; an
interrupt between the attempts of an acquisition can leave one that is not.
-/

namespace Portalocker

open Posix Interleaving Interleaving.Machine World Contract

variable {ι : Type} [DecidableEq ι]

/-- No instance has done anything; the files there are have been left by others. -/
structure Pristine (w : World ι) : Prop where
  wf : w.Wf
  opened : w.opened = []
  fh : ∀ p, w.fh p = none
  inner : ∀ p, w.inner p = false
  confirmed : ∀ h, w.confirmed h = false
  held : ∀ p, w.held p = false
  creator : ∀ i, w.creator i = none
  answer : ∀ p, w.answer p = none

/-- No pid file exists. -/
def NoPidFile (cfg : Config ι) (w : World ι) : Prop :=
  ∀ p path, (cfg.object p).pidPath = some path → w.names path = none

theorem empty_pristine : Pristine (World.empty : World ι) :=
  ⟨empty_wf, rfl, fun _ => rfl, fun _ => rfl, fun _ => rfl, fun _ => rfl, fun _ => rfl,
    fun _ => rfl⟩

section Runs

variable {cfg : Config ι} {g : Guard (machine cfg)}

theorem Pristine.ownership {w : World ι} (h : Pristine w) : Ownership cfg w := by
  have hconf : ∀ {k}, w.confirmed k ≠ true := fun hk => by simp [h.confirmed] at hk
  have hclosed : ∀ k, k ∉ w.opened := by simp [h.opened]
  refine ⟨fun hk => by simp [h.fh] at hk, fun hk => absurd hk hconf, fun hk => absurd hk hconf,
    fun hk => absurd hk hconf, fun {k} _ => h.wf.fs.buffer_open (hclosed k), fun {k} hl => ?_⟩
  exact absurd (h.wf.fs.lock_open (hclosed k)) hl

theorem Pristine.tidy {w : World ι} (h : Pristine w) (hpid : NoPidFile cfg w) : Tidy cfg w where
  dropped := by simp [h.opened]
  held := by simp [h.held]
  lock_names := fun _ _ => h.creator _
  lock_opened := fun _ _ => h.creator _
  published := fun hpath hn => by simp [hpid _ _ hpath] at hn
  content := by simp [h.creator]
  seen := fun _ hv => by simp [World.Verified, h.fh] at hv
  answer := by simp [h.answer]

/-- The contract holds in every run that meets the conditions of
`ownership_verified`. -/
theorem ownership_holds (clean : Prop) (hcfg : Separated cfg) (hclean : clean → Faultless cfg)
    (hrelease : ∀ p c w, g.call p c w → Releases cfg p w c → ¬ clean → Settled cfg p w)
    (hacquire : ∀ p (c : Call) w, g.call p c w → Acquires c → (cfg.object p).pidPath ≠ none →
      clean → World.held w p = false)
    {init : World ι → Prop} (hinit : ∀ w, init w → Pristine w ∧ (clean → NoPidFile cfg w))
    {s : (machine cfg).State} (hs : Reach init g s) :
    (ownershipContract cfg hcfg clean g).toDiscipline.Holds s := by
  refine (ownership_verified hcfg hclean hrelease hacquire).sound ?_ hs
  intro w h0
  obtain ⟨h0, hpid⟩ := hinit w h0
  exact ⟨⟨h0.wf, h0.ownership, fun hc => h0.tidy (hpid hc)⟩,
    fun p _ => Or.inl ⟨h0.fh p, fun _ => h0.inner p⟩⟩

/-- A held lock file is locked exclusively, and its path names the locked inode. -/
theorem Tidy.holder {w : World ι} (hi : Ownership cfg w) (ht : Tidy cfg w) {p : ι}
    (hp : w.held p = true) : ∃ h path, w.fh p = some h ∧ (cfg.object p).lockPath = some path ∧
      w.toFs.Owns path h := by
  obtain ⟨h, hv⟩ := ht.held hp
  exact ⟨h, h.path, hv.1, hi.path hv.1, hi.owns hv.2⟩

/-- Two instances with one lock path do not hold it together. -/
theorem Tidy.exclusive {w : World ι} (hw : w.Wf) (hi : Ownership cfg w) (ht : Tidy cfg w) {p q : ι}
    (hpath : (cfg.object p).lockPath = (cfg.object q).lockPath) (hp : w.held p = true)
    (hq : w.held q = true) : p = q := by
  obtain ⟨h, hh⟩ := ht.held hp
  obtain ⟨k, hk⟩ := ht.held hq
  exact hi.unique hw hh hk hpath

end Runs

/-! ## `TemporaryFileLock` -/

/-- All instances are `TemporaryFileLock`s on `path` with the default flags. -/
def AllTemporary (cfg : Config ι) (path : Path) : Prop :=
  ∀ p, ∃ self : TemporaryFileLock, cfg.object p = .temporaryFileLock self ∧
    self.filename = path ∧ self.flags = .lockMethod

theorem AllTemporary.separated {cfg : Config ι} {path : Path} (h : AllTemporary cfg path) :
    Separated cfg where
  object := fun p => by
    obtain ⟨self, hobject, -, hflags⟩ := h p
    exact Or.inl ⟨self, hobject, hflags⟩
  apart := fun {p q path'} hpid => by
    obtain ⟨self, hobject, -⟩ := h p
    simp [hobject, Instance.pidPath] at hpid

/-- At most one `TemporaryFileLock` holds the path, in every interleaving; until it
unlinks the path, this names the inode the instance has locked. -/
theorem temporary_locks_exclude {cfg : Config ι} {path : Path} (hcfg : AllTemporary cfg path)
    (hfaultless : Faultless cfg) {s : (machine cfg).State}
    (hs : Reach Pristine (Guard.free (machine cfg)) s) :
    (∀ p q, (files s).held p = true → (files s).held q = true → p = q) ∧
    ∀ p, (files s).held p = true → ∃ h, (files s).fh p = some h ∧
      (files s).names path = some h.ino ∧ (files s).lock h = some .exclusive := by
  have hpath : ∀ p, (cfg.object p).lockPath = some path := fun p => by
    obtain ⟨self, hobject, hname, -⟩ := hcfg p
    rw [hobject, ← hname]
    rfl
  have hpid : ∀ p, (cfg.object p).pidPath = none := fun p => by
    obtain ⟨self, hobject, -⟩ := hcfg p
    rw [hobject]
    rfl
  obtain ⟨⟨hw, hi, ht⟩, -⟩ := ownership_holds True hcfg.separated (fun _ => hfaultless)
    (fun _ _ _ _ _ h => absurd trivial h) (fun p _ _ _ _ h => absurd (hpid p) h)
    (fun w hw => ⟨hw, fun _ p path h => by simp [hpid p] at h⟩) hs
  refine ⟨fun p q hp hq => (ht trivial).exclusive hw hi ((hpath p).trans (hpath q).symm) hp hq, ?_⟩
  intro p hp
  obtain ⟨h, path', hfh, hpath', hnames, hlock⟩ := (ht trivial).holder hi hp
  obtain rfl : path = path' := Option.some.inj ((hpath p).symm.trans hpath')
  exact ⟨h, hfh, hnames, hlock⟩

/-- One instance of two acquires the path. -/
def twoTemporary : Config Bool where
  object _ := .temporaryFileLock { filename := ['f'] }
  mayRaise _ _ _ := false

theorem twoTemporary_all : AllTemporary twoTemporary ['f'] := fun _ => ⟨_, rfl, rfl, rfl⟩

/-- A run in which one instance holds the path while the other waits: it is the
only holder. -/
theorem temporary_locks_exclude_run :
    ∃ s, run (.call true .enter :: List.replicate 9 (.op true {}) ++
        .call false (.acquire none none (some false)) :: List.replicate 3 (.op false {}))
        (⟨World.empty, fun _ => none⟩ : (machine twoTemporary).State) = some s ∧
      (files s).held true = true ∧ ∀ p, (files s).held p = true → p = true := by
  have hobserve : (run (.call true .enter :: List.replicate 9 (.op true {}) ++
      .call false (.acquire none none (some false)) :: List.replicate 3 (.op false {}))
      (⟨World.empty, fun _ => none⟩ : (machine twoTemporary).State)).map
      (fun s => (files s).held true) = some true := by rfl
  obtain ⟨s, hrun, hheld⟩ := Option.map_eq_some_iff.1 hobserve
  have hs := (Reach.start (g := Guard.free (machine twoTemporary))
    empty_pristine).run hrun
  have hexcl := temporary_locks_exclude twoTemporary_all (fun _ _ _ => rfl) hs
  exact ⟨s, hrun, hheld, fun p hp => hexcl.1 p true hp hheld⟩

/-! ## `PidFileLock` -/

/-- All instances are `PidFileLock`s on `path`. -/
def AllPidFiles (cfg : Config ι) (path : Path) : Prop :=
  ∀ p, ∃ self : PidFileLock, cfg.object p = .pidFileLock self ∧ self.filename = path

/-- No instance is acquired again while it is held. -/
def notNested (cfg : Config ι) : Guard (machine cfg) where
  call := fun p (c : Call) (w : World ι) => Acquires c → w.held p = false
  op := fun _ _ _ _ => True

section PidFiles

variable {cfg : Config ι} {path : Path}

theorem AllPidFiles.pidPath (hcfg : AllPidFiles cfg path) (p : ι) :
    (cfg.object p).pidPath = some path := by
  obtain ⟨self, hobject, hname⟩ := hcfg p
  rw [hobject, ← hname]
  rfl

theorem AllPidFiles.lockPath (hcfg : AllPidFiles cfg path) (p : ι) :
    (cfg.object p).lockPath = some (path ++ ".lock".toList) := by
  obtain ⟨self, hobject, hname⟩ := hcfg p
  rw [hobject, ← hname]
  rfl

theorem AllPidFiles.separated (hcfg : AllPidFiles cfg path) : Separated cfg where
  object := fun p => by
    obtain ⟨self, hobject, -⟩ := hcfg p
    exact Or.inr ⟨self, hobject⟩
  apart := fun {p q path'} hpid hlock => by
    rw [hcfg.pidPath p, Option.some.injEq] at hpid
    rw [hcfg.lockPath q, Option.some.injEq, ← hpid] at hlock
    have := congrArg List.length hlock
    simp at this

/-- At most one `PidFileLock` holds the sidecar, in every interleaving.  A pid file
that is not empty holds the pid of the instance that owns the sidecar at that
moment, and a pid that `read_pid` returns is that of an instance that has owned it
since the call began. -/
theorem pid_file_locks_agree (hcfg : AllPidFiles cfg path) (hfaultless : Faultless cfg)
    {s : (machine cfg).State}
    (hs : Reach (fun w => Pristine w ∧ NoPidFile cfg w) (notNested cfg) s) :
    (∀ p q, (files s).held p = true → (files s).held q = true → p = q) ∧
    (∀ p, (files s).held p = true → ∃ h, (files s).fh p = some h ∧
      (files s).toFs.Owns (path ++ ".lock".toList) h) ∧
    (∀ p pid i, (cfg.object p).pidPath = some pid → (files s).names pid = some i →
      (files s).data i ≠ [] → ∃ q self h, cfg.object q = .pidFileLock self ∧
        (files s).data i = self.pidText ∧ (files s).fh q = some h ∧
        (files s).toFs.Owns (path ++ ".lock".toList) h) ∧
    ∀ p n, (files s).answer p = some (some n) →
      ∃ q self, cfg.object q = .pidFileLock self ∧ n = self.getpid.toNat ∧
        (files s).seen p q = true := by
  obtain ⟨⟨hw, hi, ht⟩, -⟩ := ownership_holds True hcfg.separated (fun _ => hfaultless)
    (fun _ _ _ _ _ h => absurd trivial h) (fun p c w (hg : Acquires c → _) hc _ _ => hg hc)
    (fun w hw => ⟨hw.1, fun _ => hw.2⟩) hs
  have ht := ht trivial
  refine ⟨fun p q hp hq => ht.exclusive hw hi ((hcfg.lockPath p).trans (hcfg.lockPath q).symm) hp hq,
    ?_, ?_, ?_⟩
  · intro p hp
    obtain ⟨h, path', hfh, hpath', howns⟩ := ht.holder hi hp
    obtain rfl := Option.some.inj ((hcfg.lockPath p).symm.trans hpath')
    exact ⟨h, hfh, howns⟩
  · intro p pid i hpid hn hdata
    obtain ⟨q, h, -, hv, hcreator⟩ := ht.published hpid hn
    obtain ⟨self, hobject, hcontent⟩ := ht.content hcreator
    have hpath : path ++ ".lock".toList = h.path :=
      Option.some.inj ((hcfg.lockPath q).symm.trans (hi.path hv.1))
    exact ⟨q, self, h, hobject, hcontent.resolve_left hdata, hv.1, hpath ▸ hi.owns hv.2⟩
  · intro p n hn
    obtain ⟨q, ⟨self, hobject, -, hpid⟩, hseen⟩ := ht.answer hn
    exact ⟨q, self, hobject, hpid, hseen⟩

end PidFiles

/-- Two `PidFileLock`s on one path, with different pids. -/
def twoPids : Config Bool where
  object p := .pidFileLock { filename := ['f'], getpid := if p then 71 else 72 }
  mayRaise _ _ _ := false

theorem twoPids_all : AllPidFiles twoPids ['f'] := fun _ => ⟨_, rfl, rfl⟩

/-- One instance enters and publishes its pid. -/
def twoPids.publish : List (machine twoPids).Label :=
  .call true .enter :: (List.replicate 8 (.op true { ino := 1 }) ++
    List.replicate 10 (.op true { ino := 2 }))

/-- The other enters after it, is refused and reads the pid. -/
def twoPids.refused : List (machine twoPids).Label :=
  .call false .enter :: List.replicate 16 (.op false {})

/-- The refused instance returns the pid of the holder, which is in the file. -/
theorem pid_file_locks_agree_run :
    ∃ t s, run twoPids.publish ⟨World.empty, fun _ => none⟩ = some t ∧
      run twoPids.refused t = some s ∧ (files s).answer false = some (some 71) ∧
      ∃ q self, twoPids.object q = .pidFileLock self ∧ (71 : Int) = self.getpid.toNat ∧
        (files s).seen false q = true := by
  have hobserve : (run twoPids.publish ⟨World.empty, fun _ => none⟩).bind (fun t =>
      (run twoPids.refused t).map fun s => ((files t).held false, (files s).answer false)) =
        some (false, some (some 71)) := by rfl
  obtain ⟨t, hfirst, hrest⟩ := Option.bind_eq_some_iff.1 hobserve
  obtain ⟨s, hsecond, hs⟩ := Option.map_eq_some_iff.1 hrest
  obtain ⟨hfree, hanswer⟩ := Prod.mk.inj hs
  have hops : ∀ (p : Bool) (choice : Choice) (t : (machine twoPids).State),
      (notNested twoPids).Allows t (.op p choice) := fun _ _ _ _ _ _ _ => trivial
  have ht : Reach (fun w => Pristine w ∧ NoPidFile twoPids w) (notNested twoPids) t := by
    refine (Reach.start ⟨empty_pristine, fun _ _ _ => rfl⟩).cons (l := .call true .enter) (fun _ => rfl)
      hfirst ?_
    intro l hl u
    simp only [List.mem_append, List.mem_replicate] at hl
    rcases hl with ⟨-, rfl⟩ | ⟨-, rfl⟩ <;> exact hops _ _ u
  have hs : Reach (fun w => Pristine w ∧ NoPidFile twoPids w) (notNested twoPids) s := by
    refine ht.cons (l := .call false .enter) (fun _ => hfree) hsecond ?_
    intro l hl u
    obtain ⟨-, rfl⟩ := List.mem_replicate.1 hl
    exact hops _ _ u
  obtain ⟨-, -, -, hread⟩ := pid_file_locks_agree twoPids_all (fun _ _ _ => rfl) hs
  obtain ⟨q, self, hobject, hpid, hseen⟩ := hread false 71 hanswer
  exact ⟨t, s, hfirst, hsecond, hanswer, q, self, hobject, hpid, hseen⟩

/-! ## What a release may destroy -/

/-- Client `p` is inside a call that releases. -/
def InRelease {cfg : Config ι} (s : (machine cfg).State) (p : ι) : Prop :=
  ∃ c prog, s.thread p = some (c, prog) ∧ IsRelease c

/-- The files are the same, by name and by content. -/
def SameFiles (w w' : World ι) : Prop := w'.names = w.names ∧ w'.links = w.links ∧ w'.data = w.data

/-- The instance holds the OS lock on the inode that its lock path names. -/
def HoldsPath (cfg : Config ι) (p : ι) (w : World ι) : Prop :=
  ∃ h path, w.fh p = some h ∧ (cfg.object p).lockPath = some path ∧ w.toFs.Owns path h

/-- Releases find settled instances. -/
def settledReleases (cfg : Config ι) : Guard (machine cfg) where
  call := fun p (c : Call) (w : World ι) => Releases cfg p w c → Settled cfg p w
  op := fun _ _ _ _ => True

/-- A permitted operation that is harmless changes no file, unless it unlinks. -/
theorem Harmless.sameFiles {cfg : Config ι} {p : ι} {o : Op ι} {w w' : World ι} (hh : Harmless w o)
    (hpre : ownershipPre cfg p w o) (hc : Change cfg p w o w') :
    SameFiles w w' ∨ ∃ h, w.Verified p h := by
  have hstore : ∀ {h : Handle ι Path} {content : List UInt8}, w.buffer h = [] →
      (content = w.data h.ino ++ w.buffer h ∨ content = w.data h.ino) →
      Function.update w.data h.ino content = w.data := by
    intro h content hb hcontent
    have : content = w.data h.ino := by simpa [hb] using hcontent
    rw [this, Function.update_eq_self]
  cases hc with
  | openEmptied path i hn => cases hh
  | create path kind i hn hi hkind => exact absurd hh hkind
  | truncate h ho => exact hh.elim
  | write h bytes bufferSize n ho hn => exact hh.elim
  | unlink path i hn => exact Or.inr hpre.1
  | close h ho content hcontent => exact Or.inl ⟨rfl, rfl, hstore hh hcontent⟩
  | seek h ho | flush h ho => exact Or.inl ⟨rfl, rfl, hstore hh (Or.inl rfl)⟩
  | _ => exact Or.inl ⟨rfl, rfl, rfl⟩

/-- Whatever fails and wherever calls are interrupted: as long as releases find
settled instances, an operation of a release changes no file, or its instance
holds the OS lock on the inode its lock path names at that moment. -/
theorem settled_release_keeps_files {cfg : Config ι} (hcfg : Separated cfg)
    {s s' : (machine cfg).State} (hs : Reach Pristine (settledReleases cfg) s) {p : ι}
    {choice : Choice} (hn : next s (.op p choice) = some s') (hrelease : InRelease s p) :
    SameFiles (files s) (files s') ∨ HoldsPath cfg p (files s) := by
  have hhold := ownership_holds False hcfg (fun h => h.elim)
    (fun p c w (hg : Releases cfg p w c → _) hc _ => hg hc) (fun _ _ _ _ _ _ h => h.elim)
    (fun w hw => ⟨hw, fun h => h.elim⟩) hs
  obtain ⟨c, o, k, r, hthread, hperform, -⟩ := next_op hn
  obtain ⟨c', prog, hthread', hc⟩ := hrelease
  obtain ⟨rfl, -⟩ := Prod.mk.inj (Option.some.inj (hthread.symm.trans hthread'))
  obtain ⟨-, hpre, -, hharmless⟩ := hhold.permitted hthread
  have hi : Ownership cfg (files s) := hhold.1.2.1
  rcases (hharmless hc).sameFiles hpre (Config.performOp_change hperform) with h | ⟨h, hv⟩
  · exact Or.inl h
  · exact Or.inr ⟨h, h.path, hv.1, hi.path hv.1, hi.owns hv.2⟩

/-- Two `PidFileLock`s on one path; any operation may be interrupted. -/
def interruptible : Config Bool where
  object p := .pidFileLock { filename := ['f'], getpid := if p then 71 else 72 }
  mayRaise _ _ e := e = .keyboardInterrupt

theorem interruptible_separated : Separated interruptible :=
  AllPidFiles.separated (show AllPidFiles interruptible ['f'] from fun _ => ⟨_, rfl, rfl⟩)

/-- All is idle and no file exists. -/
def interruptible.start : (machine interruptible).State := ⟨World.empty, fun _ => none⟩

/-- The holder's acquisition, from the creation of both files on. -/
def interruptible.holds : List (machine interruptible).Label :=
  .call true (.acquire none none none) :: (List.replicate 8 (.op true { ino := 1 }) ++
    List.replicate 10 (.op true { ino := 2 }))

theorem interruptible.holds_reach {t : (machine interruptible).State}
    (h : run interruptible.holds interruptible.start = some t) :
    Reach Pristine (settledReleases interruptible) t := by
  refine (Reach.start empty_pristine).cons (l := .call true (.acquire none none none))
    (fun hc => hc.elim) h ?_
  intro l hl u
  simp only [List.mem_append, List.mem_replicate] at hl
  rcases hl with ⟨-, rfl⟩ | ⟨-, rfl⟩ <;> exact fun _ _ _ _ => trivial

/-- Its release, up to the first unlink. -/
def interruptible.releases : List (machine interruptible).Label :=
  [.call true .release, .op true {}]

/-- The holder releases: it is about to unlink its pid file, and holds the lock. -/
theorem settled_release_keeps_files_run :
    ∃ t s s', run interruptible.holds interruptible.start = some t ∧
      run interruptible.releases t = some s ∧ next s (.op true {}) = some s' ∧
      (files s').names ['f'] ≠ (files s).names ['f'] ∧ HoldsPath interruptible true (files s) := by
  have hobserve : (run interruptible.holds interruptible.start).bind (fun t =>
      (run interruptible.releases t).bind fun s =>
        (next s (.op true {})).map fun s' => ((files t).verified true, (s.thread true).map Prod.fst,
          (files s).names ['f'], (files s').names ['f'])) =
      some (true, some Call.release, some 2, none) := by rfl
  obtain ⟨t, hholds, hrest⟩ := Option.bind_eq_some_iff.1 hobserve
  obtain ⟨s, hrelease, hrest⟩ := Option.bind_eq_some_iff.1 hrest
  obtain ⟨s', hunlink, hs⟩ := Option.map_eq_some_iff.1 hrest
  obtain ⟨hverified, hs⟩ := Prod.mk.inj hs
  obtain ⟨hthread, hs⟩ := Prod.mk.inj hs
  obtain ⟨hbefore, hafter⟩ := Prod.mk.inj hs
  have hreach : Reach Pristine (settledReleases interruptible) s := by
    refine (interruptible.holds_reach hholds).cons (l := .call true .release) (fun _ => Or.inr ?_)
      hrelease ?_
    · obtain ⟨h, hfh, hconf⟩ := (Option.any_eq_true _ _).1 hverified
      exact ⟨h, hfh, hconf⟩
    · intro l hl u
      obtain rfl := List.mem_singleton.1 hl
      exact fun _ _ _ _ => trivial
  obtain ⟨⟨c, prog⟩, hprog, rfl⟩ := Option.map_eq_some_iff.1 hthread
  have hne : (files s').names ['f'] ≠ (files s).names ['f'] := by simp [hbefore, hafter]
  refine ⟨t, s, s', hholds, hrelease, hunlink, hne, ?_⟩
  have hkeeps := settled_release_keeps_files interruptible_separated hreach hunlink
    ⟨_, prog, hprog, Or.inl rfl⟩
  exact hkeeps.resolve_left fun hsame => hne (congrFun hsame.1 ['f'])

/-- The other instance waits for the lock, is interrupted there, and is released. -/
def interruptible.abandons : List (machine interruptible).Label :=
  .call false (.acquire (some 5) none (some false)) :: (List.replicate 5 (.op false {}) ++
    .op false { fault := some .keyboardInterrupt } :: List.replicate 2 (.op false {}) ++
    [.call false .release, .op false {}])

/-- A release after an interrupted acquisition unlinks the files of the holder. -/
theorem interrupted_acquire_destroys_files :
    ¬ ∀ (s s' : (machine interruptible).State) (p : Bool) (choice : Choice),
      Reach Pristine (Guard.free (machine interruptible)) s → next s (.op p choice) = some s' →
      InRelease s p → SameFiles (files s) (files s') ∨ HoldsPath interruptible p (files s) := by
  intro hclaim
  have hobserve : (run (interruptible.holds ++ interruptible.abandons) interruptible.start).bind
      (fun s => (next s (.op false {})).map fun s' => ((s.thread false).map Prod.fst,
        (files s).names ['f'], (files s').names ['f'], (files s).fh false)) =
      some (some Call.release, some 2, none, none) := by rfl
  obtain ⟨s, hrun, hrest⟩ := Option.bind_eq_some_iff.1 hobserve
  obtain ⟨s', hunlink, hs⟩ := Option.map_eq_some_iff.1 hrest
  obtain ⟨hthread, hs⟩ := Prod.mk.inj hs
  obtain ⟨hbefore, hs⟩ := Prod.mk.inj hs
  obtain ⟨hafter, hfh⟩ := Prod.mk.inj hs
  obtain ⟨⟨c, prog⟩, hprog, rfl⟩ := Option.map_eq_some_iff.1 hthread
  have hreach := (Reach.start (g := Guard.free (machine interruptible)) empty_pristine).run hrun
  rcases hclaim s s' false {} hreach hunlink ⟨_, prog, hprog, Or.inl rfl⟩ with hsame | hholds
  · have hnames := congrFun hsame.1 ['f']
    rw [hbefore, hafter] at hnames
    cases hnames
  · obtain ⟨h, path, hsome, -⟩ := hholds
    rw [hfh] at hsome
    cases hsome

end Portalocker
